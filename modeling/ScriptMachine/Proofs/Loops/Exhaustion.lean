import ScriptMachine.Proofs.Loops.Walking

/-!
# Loops exhaust what they walk

From the state in which a loop has begun, as long as it is there, each round shows the next character,
key or element, and after the last one the loop is left. Whatever happens meanwhile, in the body of
the loop or in other threads, does not matter.

* `Ensemble.Turns`: the head of a loop comes next, and the loop is the innermost one.
* `Ensemble.Rounds`: the states in which a loop is there, with the number of its rounds so far.
* `Rounds.holds`: what holds of the loop in such a state.
* `loop_exhausts`: the rounds of a loop.
-/

namespace ScriptMachine.Ensemble

open Machine

variable {start : Machine} {e e' begun : Ensemble} {p : LoopPlace} {i x : String} {exit n : Nat}
  {v : Value} {l : Loop} {rest : List Loop}

/-! ### The innermost loop -/

/-- Where the next loop of the running context comes to be. -/
def top (e : Ensemble) : LoopPlace :=
  ⟨e.foremost, e.machine.suspended.length, e.machine.context.loops.length⟩

/-- The loops of the running context, counted from the outermost. -/
theorem loopAt_foremost (hthread : e.foremost = p.thread)
    (hlevel : p.level = e.machine.suspended.length) :
    e.loopAt p = e.machine.context.loops.reverse[p.depth]? := by
  rw [loopAt, ← hthread, loopStacks_foremost, Machine.loopStacks, loopIn_cons,
    if_pos (by rw [List.length_map, hlevel])]

theorem loopAt_of_loops_eq (hthread : e.foremost = p.thread)
    (hlevel : p.level = e.machine.suspended.length)
    (hloops : e.machine.context.loops = l :: rest) (hdepth : rest.length = p.depth) :
    e.loopAt p = some l := by
  rw [loopAt_foremost hthread hlevel, hloops, List.reverse_cons, ← hdepth, ← List.length_reverse,
    List.getElem?_concat_length]

/-- The head of a loop comes next, which is the innermost one. It leads out to an address, and the
names of the loop may be assigned to. -/
structure Turns (e : Ensemble) (p : LoopPlace) (indexName valueName : String) (exit : Nat) :
    Prop extends e.AtHead p where
  loops : e.machine.Loops indexName valueName exit

theorem AtHead.loops_eq (h : e.AtHead p) (hl : e.loopAt p = some l) :
    ∃ rest, e.machine.context.loops = l :: rest ∧ rest.length = p.depth := by
  have hdepth := h.depth_eq
  cases hloops : e.machine.context.loops with
  | nil =>
    rw [hloops] at hdepth
    cases hdepth
  | cons l' rest =>
    rw [hloops, List.length_cons] at hdepth
    have hsame := loopAt_of_loops_eq h.foremost_eq h.level_eq hloops (by omega)
    rw [hl] at hsame
    cases hsame
    exact ⟨rest, rfl, by omega⟩

/-! ### Rounds -/

/-- The states in which the loop at a place is there since some state, with the number of its rounds
since then. The body of the loop may be any code, and other threads may have their turns; but when
the head of the loop comes again and the loop is the innermost one, the names of the loop may be
assigned to. -/
inductive Rounds (p : LoopPlace) (indexName valueName : String) (begun : Ensemble) :
    Nat → Ensemble → Prop
  | begun : Rounds p indexName valueName begun 0 begun
  | body {n : Nat} {e : Ensemble} (before : Rounds p indexName valueName begun n e)
      (hbody : ¬ e.AtHead p) (hthere : (e.stepped.loopAt p).isSome) :
      Rounds p indexName valueName begun n e.stepped
  | passes {n : Nat} {e e' : Ensemble} (before : Rounds p indexName valueName begun n e)
      (h : Passes e e') (hthere : (e'.loopAt p).isSome) :
      Rounds p indexName valueName begun n e'
  | round {n exit : Nat} {e : Ensemble} (before : Rounds p indexName valueName begun n e)
      (h : e.Turns p indexName valueName exit) (hthere : (e.stepped.loopAt p).isSome) :
      Rounds p indexName valueName begun (n + 1) e.stepped

theorem Rounds.reached (h : Rounds p i x begun n e) (hbegun : Reached start begun) :
    Reached start e := by
  induction h with
  | begun => exact hbegun
  | body _ _ _ ih => exact ih.next .step
  | passes _ h _ ih => exact ih.next (.passes h)
  | round _ _ _ ih => exact ih.next .step

/-- What comes of a round that is not the last one. -/
structure Shown (e : Ensemble) (p : LoopPlace) (l : Loop) (index value : Value) : Prop where
  binds : e.machine.Binds e.stepped.machine l.indexName l.valueName index value
  stays : e.stepped.loopAt p = some l.advanced

/-- What comes of the last round: the loop has ended, and what it walked has a freeze less. -/
structure Left (e : Ensemble) (p : LoopPlace) (l : Loop) (exit : Nat) : Prop where
  pc_eq : e.stepped.machine.context.pc = exit
  gone : e.stepped.loopAt p = none
  length_eq : e.stepped.machine.context.loops.length = p.depth
  freezes_eq : ∀ c, e.stepped.heap.freezes c = e.heap.freezes c - if l.walks c then 1 else 0

theorem Turns.shown (h : e.Turns p l.indexName l.valueName exit) (hl : e.loopAt p = some l)
    (hindex : Exec.isLoopName l.indexName = true) (hvalue : Exec.isLoopName l.valueName = true)
    {index value : Value} (hfinds : l.Finds e.heap (some (index, value))) :
    e.Shown p l index value := by
  obtain ⟨rest, hloops, hdepth⟩ := h.loops_eq hl
  obtain ⟨hbinds, hadvanced, hsuspended⟩ := step_binds h.loops hindex hvalue hloops hfinds
  refine ⟨hbinds, loopAt_of_loops_eq h.foremost_eq ?_ hadvanced hdepth⟩
  exact h.level_eq.trans (congrArg List.length hsuspended.symm)

theorem Turns.left (h : e.Turns p l.indexName l.valueName exit) (hl : e.loopAt p = some l)
    (hfinds : l.Finds e.heap none) : e.Left p l exit := by
  obtain ⟨rest, hloops, hdepth⟩ := h.loops_eq hl
  obtain ⟨hpc, hrest, hsuspended, hfreezes⟩ := step_leaves h.loops hloops hfinds
  have hlevel : p.level = e.stepped.machine.suspended.length :=
    h.level_eq.trans (congrArg List.length hsuspended.symm)
  have hlength : e.stepped.machine.context.loops.length = p.depth := by
    rw [← hdepth]
    exact congrArg List.length hrest
  refine ⟨hpc, ?_, hlength, hfreezes⟩
  rw [loopAt_foremost (e := e.stepped) h.foremost_eq hlevel, List.getElem?_eq_none]
  rw [List.length_reverse, hlength]

/-! ### The rounds of a loop -/

theorem Reached.keyed (hkeyed : ∀ r, (start.world.heap.map r).Keyed) (h : Reached start e) :
    ∀ r, (e.heap.map r).Keyed := by
  induction h with
  | start => exact hkeyed
  | next _ h ih => exact h.guards.keyed ih

/-- The loop that has begun. -/
theorem loopAt_of_begins (h : e.machine.BeginsLoop i x v) :
    e.stepped.loopAt e.top = some ⟨i, x, e.heap.walkedOf v, 0⟩ := by
  obtain ⟨-, hloops, hsuspended, -⟩ := step_begins h
  exact loopAt_of_loops_eq rfl (congrArg List.length hsuspended.symm) hloops rfl

/-- What the loop walks is as it has to be after whatever happens next. -/
theorem keeps_of_next {h : Heap} (hstart : (of start).Backed) (hreached : Reached start e)
    (hloop : e.loopAt p = some l) (hwalked : l.walked = h.walkedOf v) (hkeeps : h.Keeps e.heap v)
    (hnext : Next e e') : h.Keeps e'.heap v :=
  hkeeps.thenGuards hnext.guards fun _ hc =>
    freezes_pos_of_loopAt hreached.valid (hreached.backed hstart) hloop (by rw [hwalked, hc])

/-- **The invariant of a loop**: it goes over the same thing, it has gone on as often as it had a
round, and what it walks is as it has to be. -/
theorem Rounds.holds (hstart : (of start).Backed) (hkeyed : ∀ r, (start.world.heap.map r).Keyed)
    (hreached : Reached start e) (hbegins : e.machine.BeginsLoop i x v)
    (h : Rounds e.top i x e.stepped n e') :
    n ≤ e.heap.roundsOver v ∧ e'.loopAt e.top = some ⟨i, x, e.heap.walkedOf v, n⟩ ∧
      e.heap.Keeps e'.heap v := by
  have hbegun : Reached start e.stepped := hreached.next .step
  induction h with
  | begun =>
    obtain ⟨-, -, -, hsame⟩ := step_begins hbegins
    exact ⟨Nat.zero_le _, loopAt_of_begins hbegins, hsame.keeps v⟩
  | body before hbody hthere ih =>
    obtain ⟨hle, hloop, hkeeps⟩ := ih
    have hthen := before.reached hbegun
    obtain ⟨l, hl⟩ := Option.isSome_iff_exists.1 hthere
    rcases Next.step.loopAt_cases hthen.valid hloop hl with rfl | ⟨hhead, -⟩
    · exact ⟨hle, hl, keeps_of_next hstart hthen hloop rfl hkeeps .step⟩
    · exact absurd hhead hbody
  | passes before h hthere ih =>
    obtain ⟨hle, hloop, hkeeps⟩ := ih
    have hthen := before.reached hbegun
    obtain ⟨l, hl⟩ := Option.isSome_iff_exists.1 hthere
    have hsame := h.loopAt_eq hthen.valid hl
    rw [hloop] at hsame
    cases hsame
    exact ⟨hle, hl, keeps_of_next hstart hthen hloop rfl hkeeps (.passes h)⟩
  | round before h hthere ih =>
    obtain ⟨hle, hloop, hkeeps⟩ := ih
    have hthen := before.reached hbegun
    have hafter := keeps_of_next hstart hthen hloop rfl hkeeps .step
    rcases Nat.lt_or_eq_of_le hle with hlt | rfl
    · obtain ⟨index, value, -, hfinds⟩ := Heap.finds_of_lt (hreached.keyed hkeyed) hkeeps hlt
      have hshown := h.shown hloop hbegins.index hbegins.value hfinds
      exact ⟨hlt, hshown.stays, hafter⟩
    · have hleft := h.left hloop (Heap.finds_of_roundsOver hkeeps)
      rw [hleft.gone] at hthere
      cases hthere

/-- **A loop exhausts what it walks.** It begins; what its rounds show is all there is. As long as
it is there, whatever its body and other threads do, the elements of the array stay and the map gets
no new keys, and attempts to change that fail. Each time its head comes again it shows what is next,
and once all has been shown it is left: execution goes on at the exit, and what it walked has a freeze
less. -/
theorem loop_exhausts (hstart : (of start).Backed) (hkeyed : ∀ r, (start.world.heap.map r).Keyed)
    (hreached : Reached start e) (hbegins : e.machine.BeginsLoop i x v) :
    e.machine.attempt.1 = .ok () ∧
      e.stepped.loopAt e.top = some ⟨i, x, e.heap.walkedOf v, 0⟩ ∧
      e.heap.Exhausts v ∧
      ∀ n e', Rounds e.top i x e.stepped n e' →
        n ≤ e.heap.roundsOver v ∧
        e'.loopAt e.top = some ⟨i, x, e.heap.walkedOf v, n⟩ ∧
        e.heap.Keeps e'.heap v ∧ e'.heap.Refuses v ∧
        ∀ exit, e'.Turns e.top i x exit →
          (n < e.heap.roundsOver v → ∃ index value, e.heap.Shows e'.heap v n index value ∧
            e'.Shown e.top ⟨i, x, e.heap.walkedOf v, n⟩ index value) ∧
          (n = e.heap.roundsOver v → e'.Left e.top ⟨i, x, e.heap.walkedOf v, n⟩ exit) := by
  have hkeyed' := hreached.keyed hkeyed
  refine ⟨(step_begins hbegins).1, loopAt_of_begins hbegins, Heap.exhausts_of_keyed hkeyed' v,
    fun n e' hrounds => ?_⟩
  obtain ⟨hle, hloop, hkeeps⟩ := hrounds.holds hstart hkeyed hreached hbegins
  have hthen := hrounds.reached (hreached.next .step)
  refine ⟨hle, hloop, hkeeps, Heap.refuses_of_frozen (h := e.heap) fun c hc =>
    freezes_pos_of_loopAt hthen.valid (hthen.backed hstart) hloop hc, fun exit hturns => ⟨?_, ?_⟩⟩
  · intro hlt
    obtain ⟨index, value, hshows, hfinds⟩ := Heap.finds_of_lt hkeyed' hkeeps hlt
    exact ⟨index, value, hshows, hturns.shown hloop hbegins.index hbegins.value hfinds⟩
  · rintro rfl
    exact hturns.left hloop (Heap.finds_of_roundsOver hkeeps)

/-- A machine about to run `RangeInit ["i", "v"]; RangeNext 3; Branch 1; Stop` over `[7]`. -/
def walker : Machine :=
  ofContext { heap := { arrays := #[⟨.interface, #[.int 7], 0⟩,
      ⟨.interface, #[.string "i", .string "v"], 0⟩] } } {
    name := "main"
    thread := 1
    symbols := .root
    stack := #[.value (.array ⟨0⟩)]
    code := ⟨"main", #[⟨.rangeInit, .array ⟨1⟩⟩, ⟨.rangeNext, .int 3⟩, ⟨.branch, .int 1⟩,
      .plain .stop], none, true, false⟩
    running := true }

theorem begins_walker : walker.BeginsLoop "i" "v" (.array ⟨0⟩) where
  going := rfl
  next := ⟨.array ⟨1⟩, rfl, rfl⟩
  index := by decide
  value := by decide
  live := by decide +kernel
  top := ⟨.array ⟨0⟩, rfl, rfl⟩
  fp_lt := by decide
  walkable := Nat.zero_lt_two

theorem assignable_of_resolve {a : Arena} {t id : TableId} {s : Symbol} {name : String}
    (hlive : a.contains t = true) (h : a.resolve t name = some (id, s))
    (hopen : s.isProtected = false) : a.Assignable t name :=
  ⟨hlive, fun id' s' h' => by
    rw [h] at h'
    cases h'
    exact hopen⟩

/-- The head of its loop comes twice. -/
theorem turns_walker (h : e = (of walker).stepped ∨ e = (of walker).stepped.stepped.stepped) :
    e.Turns (of walker).top "i" "v" 3 := by
  rcases h with rfl | rfl <;> exact
    { foremost_eq := rfl
      heads := ⟨rfl, .int 3, rfl⟩
      level_eq := rfl
      depth_eq := by decide +kernel
      loops := {
        going := rfl
        leads := ⟨.int 3, rfl, rfl⟩
        exit_lt := by decide +kernel
        index := assignable_of_resolve (by decide +kernel) rfl rfl
        value := assignable_of_resolve (by decide +kernel) rfl rfl } }

/-- There has been one round, and the loop is left. -/
theorem loop_exhausts_of_walker : (of walker).Backed ∧
    (∀ r, (walker.world.heap.map r).Keyed) ∧ Reached walker (of walker) ∧
    walker.BeginsLoop "i" "v" (.array ⟨0⟩) ∧
    Rounds (of walker).top "i" "v" (of walker).stepped 1 (of walker).stepped.stepped.stepped ∧
    (of walker).stepped.stepped.stepped.Left (of walker).top ⟨"i", "v", .array ⟨0⟩, 1⟩ 3 := by
  have hbacked : (of walker).Backed := backed_of_loops_eq_nil rfl
  have hkeyed : ∀ r, (walker.world.heap.map r).Keyed := fun r => by
    rw [show walker.world.heap.map r = ⟨.interface, .interface, [], 0⟩ from rfl]
    exact ⟨fun k hk => absurd hk List.not_mem_nil, .nil⟩
  have hround : Rounds (of walker).top "i" "v" (of walker).stepped 1
      (of walker).stepped.stepped :=
    .round .begun (turns_walker (.inl rfl)) (by decide +kernel)
  have hrounds := hround.body (fun hhead => by
    obtain ⟨-, operand, hnext⟩ := hhead.heads
    rw [show (of walker).stepped.stepped.machine.next? = some ⟨.branch, .int 1⟩ from rfl] at hnext
    cases hnext) (by decide +kernel)
  obtain ⟨-, -, -, hall⟩ := loop_exhausts hbacked hkeyed .start begins_walker
  obtain ⟨-, -, -, -, hturns⟩ := hall 1 _ hrounds
  exact ⟨hbacked, hkeyed, .start, begins_walker, hrounds,
    (hturns 3 (turns_walker (.inr rfl))).2 rfl⟩

end ScriptMachine.Ensemble
