import ScriptMachine.Program.Plan
import ScriptMachine.Proofs.Frames.Steps

/-!
# Frames stay linked

In every state that a thread reaches, the frames on an operand stack are linked by the frame
pointers they saved, down to the outermost code; and what a step attempts, unless it is a return,
leaves the slots below the frame pointer alone: they stay where they are, and with other slots in
their place the same comes of it. The states that a thread reaches come of its own steps, whatever
other threads do to the world in between, and of what happens when it goes on after a stop.

* `Machine.Trace`: the states after a start, as long as all of them are as required.
* `Trace.advance`: the steps of a turn are a trace.
* `Trace.takeTurns`: the turns of other threads leave the running one as it is.
* `Trace.framed`: all states after a fresh start are framed.
* `Trace.inside`: the slots below a frame pointer stay as long as the function is not left.
* `Context.Linked`: the frames of an operand stack are those on the chain from its frame pointer.
* `Machine.begun`, `Machine.body`: what a step attempts once its instruction has begun.
* `Machine.body_isOblivious`: it does the same whatever lies below the frame pointer.
* `frames_stay_linked`: so it is in every state.
-/

namespace ScriptMachine

/-! ### Traces of a thread -/

namespace Machine

/-- The states that a thread passes through after a start, as long as all of them are as
required. Other threads may change the world and the tasks, and leave the scopes sound. -/
inductive Trace (ok : Machine → Prop) (start : Machine) : Machine → Prop
  | start (hok : ok start) : Trace ok start start
  | step {m : Machine} (before : Trace ok start m) (hok : ok m.step.1) : Trace ok start m.step.1
  | elsewhere {m : Machine} (before : Trace ok start m) (world : World) (tasks : Array Task)
      (hsound : world.scopes.Sound) (hok : ok { m with world, tasks }) :
      Trace ok start { m with world, tasks }
  | resume {m : Machine} (before : Trace ok start m) (switches : Switches)
      (hok : ok { m with context := switches.apply m.context }.resume) :
      Trace ok start { m with context := switches.apply m.context }.resume

namespace Trace

variable {ok ok' : Machine → Prop} {start m : Machine}

theorem ok_last (h : Trace ok start m) : ok m := by
  cases h with
  | start hok => exact hok
  | step _ hok => exact hok
  | elsewhere _ _ _ _ hok => exact hok
  | resume _ _ hok => exact hok

theorem ok_first (h : Trace ok start m) : ok start := by
  induction h with
  | start hok => exact hok
  | step _ _ ih => exact ih
  | elsewhere _ _ _ _ _ ih => exact ih
  | resume _ _ _ ih => exact ih

theorem mono (h : Trace ok start m) (himp : ∀ m, ok m → ok' m) : Trace ok' start m := by
  induction h with
  | start hok => exact .start (himp _ hok)
  | step _ hok ih => exact .step ih (himp _ hok)
  | elsewhere _ world tasks hsound hok ih => exact .elsewhere ih world tasks hsound (himp _ hok)
  | resume _ switches hok ih => exact .resume ih switches (himp _ hok)

/-- What holds of all states of a trace may be required of them. -/
theorem also {P : Machine → Prop} (h : Trace ok start m) (hall : ∀ {s}, Trace ok start s → P s) :
    Trace (fun s => ok s ∧ P s) start m := by
  induction h with
  | start hok => exact .start ⟨hok, hall (.start hok)⟩
  | step before hok ih => exact .step ih ⟨hok, hall (before.step hok)⟩
  | elsewhere before world tasks hsound hok ih =>
    exact .elsewhere ih world tasks hsound ⟨hok, hall (before.elsewhere world tasks hsound hok)⟩
  | resume before switches hok ih =>
    exact .resume ih switches ⟨hok, hall (before.resume switches hok)⟩

/-- A trace may go on. -/
theorem append {middle : Machine} (hfirst : Trace ok start middle) (h : Trace ok middle m) :
    Trace ok start m := by
  induction h with
  | start => exact hfirst
  | step _ hok ih => exact .step ih hok
  | elsewhere _ world tasks hsound hok ih => exact .elsewhere ih world tasks hsound hok
  | resume _ switches hok ih => exact .resume ih switches hok

/-! ### Turns -/

/-- **The steps of a turn are a trace.** -/
theorem advance (limit : Nat) (h : Trace ok start m)
    (hok : ∀ n ≤ limit, ok (m.advance n).1) : Trace ok start (m.advance limit).1 := by
  unfold Machine.advance at *
  generalize true = idle at *
  induction limit generalizing m idle with
  | zero => exact h
  | succ limit ih =>
    have hnext : ∀ n ≤ limit, ok (advanceFrom idle (n + 1) m).1 := fun n hn => hok (n + 1) (by omega)
    simp only [advanceFrom] at hnext
    have hstep : ok m.step.1 := by
      have hfirst := hnext 0 (Nat.zero_le _)
      rcases hm : m.step with ⟨m', _ | _ | result⟩ <;> rw [hm] at hfirst <;> exact hfirst
    have hafter := Trace.step h hstep
    rw [advanceFrom]
    rcases hm : m.step with ⟨m', _ | _ | result⟩
    · rw [hm] at hafter hnext
      exact ih hafter false hnext
    · rw [hm] at hafter
      exact hafter
    · rw [hm] at hafter
      exact hafter

end Trace

theorem thread_takeTurn (limit : Nat) (m : Machine) (id : Nat) :
    (m.takeTurn limit id).1.thread = m.thread := by
  have hturn : ∀ (name : String) (table : TableId) (t : Thread) (m : Machine),
      (turnOf limit id name table t m).1.thread = m.thread := by
    intro name table t m
    unfold turnOf
    dsimp only
    rcases (m.withThread t).advance limit with ⟨m', _ | idle | result⟩ <;> rfl
  unfold takeTurn
  split
  · exact hturn _ _ _ _
  · exact hturn _ _ _ _
  · rfl

theorem thread_foldl_takeTurn (limit : Nat) (ids : List Nat) (m : Machine) (moved : Bool) :
    (ids.foldl (fun (m, moved) id =>
      let (m, b) := m.takeTurn limit id
      (m, moved || b)) (m, moved)).1.thread = m.thread := by
  induction ids generalizing m moved with
  | nil => rfl
  | cons id ids ih => exact (ih _ _).trans (thread_takeTurn limit m id)

/-- **The turns of other threads leave the running one as it is.** -/
theorem thread_takeTurns (limit : Nat) (m : Machine) : (m.takeTurns limit).1.thread = m.thread :=
  thread_foldl_takeTurn limit _ m false

theorem Trace.takeTurns {ok : Machine → Prop} {start m : Machine} (h : Trace ok start m)
    (limit : Nat) (hsound : (m.takeTurns limit).1.world.scopes.Sound)
    (hok : ok (m.takeTurns limit).1) : Trace ok start (m.takeTurns limit).1 := by
  have hthread := thread_takeTurns limit m
  generalize (m.takeTurns limit).1 = m' at *
  obtain ⟨world, context, suspended, ended, tasks⟩ := m'
  obtain ⟨rfl, rfl, rfl⟩ : context = m.context ∧ suspended = m.suspended ∧ ended = m.ended := by
    rw [thread, thread, Thread.mk.injEq] at hthread
    exact hthread
  exact .elsewhere h world tasks hsound hok

/-! ### Framed traces -/

/-- A thread that has just begun. -/
structure Begins (m : Machine) : Prop where
  fresh : m.context.Fresh
  alone : m.suspended = []
  sound : m.world.scopes.Sound

theorem Begins.framed {m : Machine} (h : m.Begins) : m.Framed := by
  refine ⟨h.fresh.framed, fun s hs => ?_, h.sound⟩
  rw [h.alone] at hs
  cases hs

/-- **All states after a framed one are framed**, as long as hidden tables stay live. -/
theorem Trace.framed {start m : Machine} (h : Trace HiddenLive start m) (hstart : start.Framed) :
    m.Framed := by
  induction h with
  | start => exact hstart
  | step _ hok ih => exact (step_follows ih hok).framed
  | elsewhere _ world tasks hsound _ ih => exact ⟨ih.running, ih.waiting, hsound⟩
  | resume _ switches _ ih => exact ⟨ih.running, ih.waiting, ih.sound⟩

/-! ### Inside a function -/

/-- At level `k`, the function is not left whose frame pointer is the size of `lower`, and the
slots below are these. -/
structure Inside (k : Nat) (lower : Array Slot) (m : Machine) : Prop where
  level : k ≤ m.suspended.length
  fp_le : lower.size ≤ (m.contextAt k).fp
  lower_eq : (m.contextAt k).stack.extract 0 lower.size = lower

variable {m m' : Machine} {k : Nat} {lower : Array Slot}

/-- Either a context waits for one that has ended, or the machine is ready as it is. -/
theorem ready_cases (m : Machine) : m.ready = m ∨ ∃ s rest, m.suspended = s :: rest ∧
    m.ready = { m with context := s.context, suspended := rest, ended := none } := by
  unfold ready
  split
  · rename_i s rest _ hsuspended
    exact .inr ⟨s, rest, hsuspended, rfl⟩
  · exact .inl rfl

theorem length_ready_le (m : Machine) : m.ready.suspended.length ≤ m.suspended.length := by
  rcases m.ready_cases with hsame | ⟨s, rest, hcons, hready⟩
  · exact Nat.le_of_eq (by rw [hsame])
  · rw [hready, hcons]
    exact Nat.le_succ _

theorem contextAt_ready (hk : k ≤ m.ready.suspended.length) :
    m.ready.contextAt k = m.contextAt k := by
  rcases m.ready_cases with hready | ⟨s, rest, hsuspended, hready⟩
  · rw [hready]
  · have hcons : m.suspended = s :: m.ready.suspended := by
      rw [hready, hsuspended]
    rcases Nat.lt_or_eq_of_le hk with hlt | rfl
    · exact (contextAt_of_append [s] hcons hlt).symm
    · rw [contextAt_of_level (Nat.le_refl _), contextAt_of_cons hcons, hready]

/-- A step that does not leave the function keeps the slots below it. -/
theorem Inside.step (h : m.Inside k lower) (hpos : 0 < lower.size) (hframed : m.Framed)
    (hlive : m.step.1.HiddenLive) (hlevel : k ≤ m.step.1.suspended.length)
    (hfp : lower.size ≤ (m.step.1.contextAt k).fp) : m.step.1.Inside k lower := by
  refine ⟨hlevel, hfp, ?_⟩
  have hfollows := step_follows hframed hlive
  have hk : k ≤ m.ready.suspended.length := by
    -- Another context at level `k` would be fresh.
    rcases hfollows.waiting with hsame | ⟨hfresh, s, hcons⟩
    · rwa [hsame] at hlevel
    · rcases Nat.lt_or_ge m.ready.suspended.length k with hlt | hge
      · rw [contextAt_of_level (by rw [hcons, List.length_cons]; omega)] at hfp
        omega
      · exact hge
  have hready := contextAt_ready hk
  have hfp₀ := h.fp_le
  have hlower := h.lower_eq
  rw [← hready] at hfp₀ hlower
  rcases Nat.lt_or_eq_of_le hk with hlt | rfl
  · have hsame : m.step.1.contextAt k = m.ready.contextAt k := by
      rcases hfollows.waiting with hsame | ⟨-, s, hcons⟩
      · exact contextAt_of_append [] hsame hlt
      · exact contextAt_of_append [s] hcons hlt
    rw [hsame]
    exact hlower
  · rw [contextAt_of_level (Nat.le_refl _)] at hfp₀ hlower
    rw [hfollows.lower _ hfp₀ hfp]
    exact hlower

/-- **As long as a function is not left, the slots below it stay.** -/
theorem Trace.inside {start : Machine} (h : Trace (fun m => m.HiddenLive ∧
      k ≤ m.suspended.length ∧ lower.size ≤ (m.contextAt k).fp) start m)
    (hframed : start.Framed) (hpos : 0 < lower.size) (hstart : start.Inside k lower) :
    m.Inside k lower := by
  induction h with
  | start => exact hstart
  | step hbefore hok ih =>
    have hlive := hbefore.mono fun _ hok => hok.1
    exact ih.step hpos (hlive.framed hframed) hok.1 hok.2.1 hok.2.2
  | elsewhere hbefore world tasks hsound hok ih => exact ⟨ih.level, ih.fp_le, ih.lower_eq⟩
  | @resume m hbefore switches hok ih =>
    refine ⟨hok.2.1, hok.2.2, ?_⟩
    have hlower := ih.lower_eq
    have hsame : ({ m with context := switches.apply m.context }.resume.contextAt k).stack
        = (m.contextAt k).stack := by
      have hsuspended : { m with context := switches.apply m.context }.resume.suspended
          = m.suspended := rfl
      unfold contextAt
      rw [hsuspended]
      cases m.suspended.reverse[k]? <;> rfl
    rw [hsame]
    exact hlower

end Machine

/-! ### Linked frames -/

/-- The frame pointer lies in the operand stack, right above a frame unless it is zero; following
the frame pointers that the frames saved gives a descending chain that ends at zero, and all frames
of the stack lie on it. -/
structure Context.Linked (c : Context) : Prop where
  fp_le : c.fp ≤ c.stack.size
  frame : c.fp = 0 ∨ ∃ f, c.stack[c.fp - 1]? = some (.frame f)
  chain : ∃ positions, Chain c.stack c.fp positions ∧
    (∀ i, (∃ f, c.stack[i]? = some (.frame f)) ↔ i ∈ positions) ∧ c.frameDepth = positions.length

theorem Context.Framed.linked {c : Context} (h : c.Framed) : c.Linked := by
  obtain ⟨positions, hchain, hframes, hdepth⟩ := h.chain
  refine ⟨h.fp_le, ?_, positions, hchain, hframes, hdepth⟩
  generalize c.fp = fp at hchain
  cases hchain with
  | outermost => exact .inl rfl
  | inner frame => exact .inr ⟨_, frame⟩

namespace Machine

/-- The machine once the instruction that comes next has begun. -/
def begun (m : Machine) : Machine :=
  match m.ended, m.next? with
  | none, some i => (Exec.outcome (Exec.begin i) m).2
  | _, _ => m.ready

/-- What the next step attempts once its instruction has begun. -/
def body (m : Machine) : Exec Unit :=
  match m.ended, m.suspended with
  | some _, [] => pure ()
  | some result, s :: _ => Exec.afterScratch s.awaiting m.context result
  | none, _ =>
    match m.next? with
    | some i => Exec.execute i
    | none => Exec.finish

theorem attempt_eq (m : Machine) : m.attempt = Exec.outcome m.body m.begun := by
  unfold attempt action body begun ready
  cases m.ended with
  | some result => cases m.suspended <;> rfl
  | none =>
    cases m.next? with
    | none => rfl
    | some i =>
      obtain ⟨j, running, observer, hbegin⟩ := Exec.outcome_begin i m
      dsimp only
      rw [hbegin, Exec.outcome_bind_ok hbegin]

/-- What is recorded at the beginning of an instruction concerns neither stack nor frames. -/
theorem begun_spec (m : Machine) : m.begun.context.stack = m.ready.context.stack ∧
    m.begun.context.fp = m.ready.context.fp ∧ m.begun.suspended = m.ready.suspended := by
  unfold begun ready
  cases m.ended with
  | some result => exact ⟨rfl, rfl, rfl⟩
  | none =>
    cases m.next? with
    | none => exact ⟨rfl, rfl, rfl⟩
    | some i =>
      obtain ⟨j, running, observer, hbegin⟩ := Exec.outcome_begin i m
      dsimp only
      rw [hbegin]
      exact ⟨rfl, rfl, rfl⟩

end Machine

namespace Exec.IsOblivious

theorem finish : IsOblivious Exec.finish := by
  intro k bottom m hm
  have hlevel := Nat.le_of_eq hm.level
  rw [Machine.overlayAt_of_level hlevel, Machine.overlayAt_of_level (by exact hlevel)]
  rfl

theorem sortAfter (r : Ref .array) (less : Value) (size i j : Nat) (goesFirst : Bool) :
    IsOblivious (Exec.sortAfter r less size i j goesFirst) := by
  refine ite (bind (IsSteady.onWorld _).isAloft fun result => ?_) (sortNext r less size _)
  cases result with
  | ok => exact ite (askOrdering r less size i _) (sortNext r less size _)
  | error fault => exact ofSteady (IsCall.settleLibraryFault _ fault).isSteady

end Exec.IsOblivious

namespace Machine

/-- **What a step attempts, unless it is a return, does the same whatever lies below the frame
pointer.** -/
theorem body_isOblivious {m : Machine} (h : ¬m.Returns) : Exec.IsOblivious m.body := by
  unfold Returns at h
  unfold body
  cases hended : m.ended with
  | some result =>
    rw [hended] at h
    cases hsuspended : m.suspended with
    | nil => exact .ofSteady (.pure ())
    | cons s rest =>
      rw [hsuspended] at h
      obtain ⟨c, awaiting⟩ := s
      cases awaiting with
      | deferred => exact absurd rfl h
      | ordering r less size i j =>
        cases result with
        | error f => exact .ofSteady (Exec.IsCall.settleLibraryFault .sortSlice f).isSteady
        | ok =>
          exact Exec.IsOblivious.bind Exec.IsLocal.heap.isSteady.isAloft fun _ =>
            Exec.IsOblivious.sortAfter r less size i j _
  | none =>
    rw [hended] at h
    dsimp only at h ⊢
    cases hnext : m.next? with
    | none => exact Exec.IsOblivious.finish
    | some i =>
      obtain ⟨op, operand⟩ := i
      refine Exec.execute_isOblivious fun hop => h ⟨operand, ?_⟩
      rw [hnext, show op = .return from hop]

/-- The slots below the frame pointer are left alone by what the next step attempts. -/
structure SparesCallers (m : Machine) : Prop where
  /-- No function is left. -/
  fp_le : m.ready.context.fp ≤ (m.attempt.2.contextAt m.ready.suspended.length).fp
  /-- The slots stay where they are, ... -/
  stays : ∀ i < m.ready.context.fp,
    (m.attempt.2.contextAt m.ready.suspended.length).stack[i]? = m.ready.context.stack[i]?
  /-- ... also those of the contexts that wait, ... -/
  waits : ∀ k < m.ready.suspended.length, m.attempt.2.contextAt k = m.ready.contextAt k
  /-- ... and with other slots in their place the same comes of it. -/
  oblivious : ∀ bottom : Array Slot, bottom.size = m.ready.context.fp →
    Exec.outcome m.body (m.begun.overlayAt m.ready.suspended.length bottom)
      = (m.attempt.1, m.attempt.2.overlayAt m.ready.suspended.length bottom)

theorem Framed.sparesCallers {m : Machine} (h : m.Framed) (hreturns : ¬m.Returns) :
    m.SparesCallers := by
  have hclimbs : m.ready.Climbs (m.Tries ∨ m.Finishes) m.attempt.2 := by
    rcases attempt_cases h with hclimbs | ⟨hreturn, -⟩
    · exact hclimbs
    · exact absurd hreturn hreturns
  refine ⟨hclimbs.fp_le, fun i hi => ?_, fun k hk => ?_, fun bottom hbottom => ?_⟩
  · have hcut := congrArg (·[i]?) hclimbs.lower
    have hfp := hclimbs.framed.contextAt m.ready.suspended.length |>.fp_le
    have hle := hclimbs.fp_le
    have hfp₀ := h.ready.running.fp_le
    simp only [Context.lower, Array.getElem?_extract] at hcut
    rwa [if_pos (by omega), if_pos (by omega), Nat.zero_add] at hcut
  · rcases hclimbs.waiting with hsame | ⟨-, s, hcons⟩
    · exact contextAt_of_append [] hsame hk
    · exact contextAt_of_append [s] hcons hk
  · obtain ⟨hstack, hfp, hsuspended⟩ := m.begun_spec
    have hground := h.ready.running.grounded
    rw [attempt_eq]
    refine body_isOblivious hreturns _ bottom _ ⟨congrArg List.length hsuspended, ?_, ?_, ?_⟩
    · rw [hfp]
      exact Nat.le_of_eq hbottom
    · rw [hfp, hstack]
      exact hground.fp_le
    · rw [Context.operands, hfp, hstack]
      exact hground.values

/-- **Frames stay linked**: in every state that a thread reaches while hidden tables stay live, the
frames of each of its contexts are linked, and unless the next step is a return, it leaves the slots
below the frame pointer alone. -/
theorem frames_stay_linked {start m : Machine} (hbegins : start.Begins)
    (h : Trace HiddenLive start m) :
    (∀ k, (m.contextAt k).Linked) ∧ (¬m.Returns → m.SparesCallers) :=
  have hframed := h.framed hbegins.framed
  ⟨fun k => (hframed.contextAt k).linked, hframed.sparesCallers⟩

/-- A machine about to run `LocalCall 2; Stop; Push 7; Return`. -/
def subroutine : Machine :=
  ofContext {} {
    name := "main"
    thread := 1
    symbols := .root
    code := ⟨"main", #[⟨.localCall, .ofNat 2⟩, .plain .stop, ⟨.push, .ofNat 7⟩, .plain .return],
      none, true, false⟩
    running := true }

theorem subroutine_begins : subroutine.Begins :=
  ⟨⟨OnlyValues.empty, rfl, rfl, rfl⟩, rfl, Arena.initial_sound⟩

theorem hiddenLive_of_no_packages {m : Machine} (h : m.world.heap.packages = #[]) :
    m.HiddenLive := by
  intro r t ht
  rw [Heap.package, h] at ht
  cases ht

/-- The frames are linked, and the callers spared, when the subroutine pushes its operand. -/
theorem frames_stay_linked_in_subroutine :
    Trace HiddenLive subroutine subroutine.step.1 ∧
      subroutine.step.1.next? = some ⟨.push, .ofNat 7⟩ ∧
      (∀ k, (subroutine.step.1.contextAt k).Linked) ∧ subroutine.step.1.SparesCallers := by
  have htrace : Trace HiddenLive subroutine subroutine.step.1 :=
    .step (.start (hiddenLive_of_no_packages rfl)) (hiddenLive_of_no_packages rfl)
  have hnext : subroutine.step.1.next? = some ⟨.push, .ofNat 7⟩ := rfl
  obtain ⟨hlinked, hspares⟩ := frames_stay_linked subroutine_begins htrace
  refine ⟨htrace, hnext, hlinked, hspares ?_⟩
  rintro ⟨operand, hreturn⟩
  rw [hnext] at hreturn
  cases hreturn

end Machine

end ScriptMachine
