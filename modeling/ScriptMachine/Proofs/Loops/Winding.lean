import ScriptMachine.Proofs.Faults.Releases
import ScriptMachine.Proofs.Frames.Steps
import ScriptMachine.Proofs.Loops.Heeding

/-!
# Loops begin, go on and end

What the instructions of loops, returns and faults do to loops. A loop that begins freezes what it
walks, and a loop that ends releases it; the contents stay the same in both.

* `Loop.walks`: what a loop holds frozen.
* `Machine.Unwinds`: loops of the running context have ended; `IsUnwinding.settle`.
* `Machine.Winds`: a loop has begun; `beginLoop_mayWind`.
* `Machine.Advances`: the innermost loop has gone on; `nextRound_mayAdvance`.
* `step_deals`: what a step does to loops; `suspended_step`: contexts that wait stay there.
-/

namespace ScriptMachine

/-- Whether a loop walks a container. -/
def Loop.walks (l : Loop) : Container → Bool
  | .array r => l.walksArray r
  | .map r => l.walksMap r

/-- A loop that has gone on to its next round. -/
def Loop.advanced (l : Loop) : Loop := { l with position := l.position + 1 }

namespace Heap

/-- The contents of all containers are the same. -/
structure SameContents (h h' : Heap) : Prop where
  values_eq : ∀ r, (h'.array r).values = (h.array r).values
  keyType_eq : ∀ r, (h'.map r).keyType = (h.map r).keyType
  entries_eq : ∀ r, (h'.map r).entries = (h.map r).entries

theorem SameContents.refl (h : Heap) : h.SameContents h := ⟨fun _ => rfl, fun _ => rfl, fun _ => rfl⟩

/-- A container is frozen once more; that is all. -/
structure Freezes (c : Container) (h h' : Heap) : Prop where
  holds : h.Holds c
  freezes_eq : ∀ d, h'.freezes d = h.freezes d + if c = d then 1 else 0
  sameContents : h.SameContents h'

theorem array_putArray_of_lt {h : Heap} {r : Ref .array} (hlt : r.id < h.arrays.size)
    (a : ArrayObject) (q : Ref .array) :
    ((Heap.putArray r a).run h).2.array q = if r = q then a else h.array q := by
  show ((h.arrays.setIfInBounds r.id a)[q.id]?).getD _ = _
  rw [Array.getElem?_setIfInBounds]
  by_cases hr : r = q
  · subst hr
    rw [if_pos rfl, if_pos rfl, if_pos hlt]
    rfl
  · rw [if_neg fun h => hr (by cases r; cases q; cases h; rfl), if_neg hr]
    rfl

theorem map_putMap_of_lt {h : Heap} {r : Ref .map} (hlt : r.id < h.maps.size)
    (m : MapObject) (q : Ref .map) :
    ((Heap.putMap r m).run h).2.map q = if r = q then m else h.map q := by
  show ((h.maps.setIfInBounds r.id m)[q.id]?).getD _ = _
  rw [Array.getElem?_setIfInBounds]
  by_cases hr : r = q
  · subst hr
    rw [if_pos rfl, if_pos rfl, if_pos hlt]
    rfl
  · rw [if_neg fun h => hr (by cases r; cases q; cases h; rfl), if_neg hr]
    rfl

theorem freezes_putArray {h : Heap} {r : Ref .array} (hlt : r.id < h.arrays.size) :
    h.Freezes (.array r) ((Heap.putArray r ((h.array r).freeze true)).run h).2 := by
  have hput := array_putArray_of_lt hlt ((h.array r).freeze true)
  refine ⟨hlt, fun d => ?_, fun q => ?_, fun q => rfl, fun q => rfl⟩
  · cases d with
    | map q => rfl
    | array q =>
      rw [freezes, freezes, hput]
      by_cases hr : r = q
      · rw [if_pos hr, if_pos (by rw [hr]), hr]
        rfl
      · rw [if_neg hr, if_neg fun h => hr (Container.array.inj h), Nat.add_zero]
  · rw [hput]
    split
    · rename_i hr
      rw [hr]
      rfl
    · rfl

theorem freezes_putMap {h : Heap} {r : Ref .map} (hlt : r.id < h.maps.size) :
    h.Freezes (.map r) ((Heap.putMap r ((h.map r).freeze true)).run h).2 := by
  have hput := map_putMap_of_lt hlt ((h.map r).freeze true)
  refine ⟨hlt, fun d => ?_, fun q => rfl, fun q => ?_, fun q => ?_⟩
  · cases d with
    | array q => rfl
    | map q =>
      rw [freezes, freezes, hput]
      by_cases hr : r = q
      · rw [if_pos hr, if_pos (by rw [hr]), hr]
        rfl
      · rw [if_neg hr, if_neg fun h => hr (Container.map.inj h), Nat.add_zero]
  · rw [hput]
    split
    · rename_i hr
      rw [hr]
      rfl
    · rfl
  · rw [hput]
    split
    · rename_i hr
      rw [hr]
      rfl
    · rfl

end Heap

/-- What a loop over something holds frozen. -/
def Walked.container? : Walked → Option Container
  | .array r => some (.array r)
  | .map r _ => some (.map r)
  | .runes _ | .channel _ => none

theorem Loop.walks_eq_true_iff {l : Loop} {c : Container} :
    l.walks c = true ↔ l.walked.container? = some c := by
  obtain ⟨i, n, walked, p⟩ := l
  cases c <;> cases walked <;>
    simp [walks, walksArray, walksMap, Walked.container?]

namespace Machine

/-- Loops of the running context have ended, and what they walked is released. -/
structure Unwinds (m m' : Machine) : Prop where
  endsLoops : m.EndsLoops m'
  suspended_eq : m'.suspended = m.suspended
  tasks_eq : m'.tasks = m.tasks

instance : Std.Refl Unwinds := ⟨fun m => ⟨Std.Refl.refl (r := EndsLoops) m, rfl, rfl⟩⟩

instance : Trans Unwinds Unwinds Unwinds where
  trans h h' := ⟨Trans.trans h.endsLoops h'.endsLoops, h'.suspended_eq.trans h.suspended_eq,
    h'.tasks_eq.trans h.tasks_eq⟩

theorem Ends.freezes_eq {m m' : Machine} {ended : List Loop} (h : Ends ended m m')
    (c : Container) : m'.world.heap.freezes c
      = m.world.heap.freezes c - ended.countP (·.walks c) := by
  cases c with
  | array r =>
    show (m'.world.heap.array r).freezes = _
    rw [h.arrays_eq]
    rfl
  | map r =>
    show (m'.world.heap.map r).freezes = _
    rw [h.maps_eq]
    rfl

theorem Ends.sameContents {m m' : Machine} {ended : List Loop} (h : Ends ended m m') :
    m.world.heap.SameContents m'.world.heap where
  values_eq r := by rw [h.arrays_eq]; rfl
  keyType_eq r := by rw [h.maps_eq]; rfl
  entries_eq r := by rw [h.maps_eq]; rfl

/-- A loop has begun: it is the innermost one, and what it walks is frozen once more. -/
structure Winds (l : Loop) (m m' : Machine) : Prop where
  loops_eq : m'.context.loops = l :: m.context.loops
  suspended_eq : m'.suspended = m.suspended
  tasks_eq : m'.tasks = m.tasks
  freezes_eq : ∀ c, m'.world.heap.freezes c = m.world.heap.freezes c + if l.walks c then 1 else 0
  holds : ∀ c, l.walks c = true → m.world.heap.Holds c
  sameContents : m.world.heap.SameContents m'.world.heap

/-- The innermost loop has gone on to its next round. -/
def Advances (m m' : Machine) : Prop := ∃ l rest, m.context.loops = l :: rest ∧
  Spares { m with context := { m.context with loops := l.advanced :: rest } } m'

end Machine

namespace Exec

open Machine

variable {W B : Prop} {α β : Type}

/-! ### Leaving functions and settling faults -/

/-- An action that changes nothing but the world, the running context and how it ended. -/
abbrev IsForemost (act : Exec α) : Prop :=
  Keeps (fun m m' => (m'.suspended, m'.tasks) = (m.suspended, m.tasks)) act

instance : Std.Refl fun m m' : Machine => (m'.suspended, m'.tasks) = (m.suspended, m.tasks) :=
  ⟨fun _ => rfl⟩

instance : Trans (fun m m' : Machine => (m'.suspended, m'.tasks) = (m.suspended, m.tasks))
    (fun m m' : Machine => (m'.suspended, m'.tasks) = (m.suspended, m.tasks))
    (fun m m' : Machine => (m'.suspended, m'.tasks) = (m.suspended, m.tasks)) where
  trans h h' := h'.trans h

namespace IsForemost

theorem bind {act : Exec α} {next : α → Exec β} (hact : IsForemost act)
    (hnext : ∀ a, IsForemost (next a)) : IsForemost (act >>= next) := Keeps.bind hact hnext

theorem onWorld (act : WorldM α) : IsForemost (Exec.onWorld act) := fun _ => rfl

theorem modifyContext (f : Context → Context) : IsForemost (Exec.modifyContext f) := fun _ => rfl

theorem ofSparing {act : Exec α} (h : IsSparing act) : IsForemost act :=
  fun m => Prod.ext (h m).suspended_eq (h m).tasks_eq

theorem storeIn (table : TableId) (name : String) (v : Value) :
    IsForemost (Exec.storeIn table name v) := ofSparing (IsPlain.storeIn table name v).isSparing

theorem noteThread (c : Category) (message : Unit → String) :
    IsForemost (Exec.noteThread c message) := ofSparing (IsPlain.noteThread c message).isSparing

theorem observe (x : Happening) : IsForemost (Exec.observe x) := ofSparing (IsSparing.observe x)

theorem release (l : Loop) : IsForemost (Exec.release l) := by
  unfold Exec.release
  split
  · exact onWorld _
  · exact onWorld _
  · exact Keeps.pure _
  · exact Keeps.pure _

theorem endLoops (count : Nat) : IsForemost (Exec.endLoops count) := by
  induction count with
  | zero => exact Keeps.pure _
  | succ count ih =>
    refine bind Keeps.context fun c => ?_
    split
    · exact Keeps.pure _
    · exact bind (modifyContext _) fun _ => bind (release _) fun _ => ih

theorem endLoopsTo (depth : Nat) : IsForemost (Exec.endLoopsTo depth) :=
  bind Keeps.context fun _ => endLoops _

theorem dropScopesTo (target : TableId) : IsForemost (Exec.dropScopesTo target) := by
  intro m
  obtain ⟨j, hout⟩ := outcome_dropScopesTo target m
  rw [hout]

theorem publishPackages (stop : TableId) : IsForemost (Exec.publishPackages stop) := by
  intro m
  have hsame := (IsRewriting.publishPackages stop m).same
  rw [Machine.SameButWorld] at hsame
  rw [hsame]

theorem takeFrame : IsForemost Exec.takeFrame := by
  refine bind Keeps.context fun c => Keeps.ite (Keeps.fail _) ?_
  dsimp only
  refine bind (modifyContext _) fun _ => ?_
  split
  · exact Keeps.pure _
  · exact Keeps.fail _

theorem restoreFrame : IsForemost Exec.restoreFrame := by
  rw [restoreFrame_eq]
  exact bind takeFrame fun f => bind (publishPackages _) fun _ => bind (dropScopesTo _) fun _ =>
    bind (endLoopsTo _) fun _ => bind (modifyContext _) fun _ => bind (storeIn _ _ _) fun _ =>
    bind (modifyContext _) fun _ => bind Keeps.context fun _ => bind (observe _) fun _ =>
    bind Keeps.context fun _ => noteThread _ _

theorem popFrame : IsForemost Exec.popFrame := by
  refine bind Keeps.context fun c => Keeps.ite (Keeps.fail _) ?_
  dsimp only
  refine bind (modifyContext _) fun _ => bind restoreFrame fun _ =>
    Keeps.ite ?_ (modifyContext _)
  split
  · exact modifyContext _
  · exact Keeps.pure _

theorem unwindTo (fp fuel : Nat) : IsForemost (Exec.unwindTo fp fuel) := by
  induction fuel with
  | zero => exact Keeps.pure _
  | succ fuel ih =>
    exact bind Keeps.context fun c =>
      Keeps.ite (bind (bind (modifyContext _) fun _ => restoreFrame) fun _ => ih) (Keeps.pure _)

theorem catchAt (handler : Handler) (outer : List Handler) (f : Fault) :
    IsForemost (Exec.catchAt handler outer f) :=
  bind Keeps.context fun _ => bind (unwindTo _ _) fun _ => bind (modifyContext _) fun _ =>
    bind (dropScopesTo _) fun _ => bind (modifyContext _) fun _ => bind (endLoopsTo _) fun _ =>
    bind (modifyContext _) fun _ => bind Keeps.context fun _ => bind (observe _) fun _ =>
    bind Keeps.context fun _ => storeIn _ _ _

end IsForemost

namespace IsReleasing

/-- Leaving a function by a return. -/
theorem popFrame : IsReleasing Exec.popFrame := by
  refine bind Keeps.context fun c => Keeps.ite (Keeps.fail _) ?_
  dsimp only
  refine bind (modifyContext fun _ => rfl) fun _ => bind restoreFrame fun _ =>
    Keeps.ite ?_ (modifyContext fun _ => rfl)
  split
  · exact modifyContext fun _ => rfl
  · exact pure _

end IsReleasing

/-- An action that ends loops of the running context, and leaves all else that has to do with loops
alone. -/
abbrev IsUnwinding (act : Exec α) : Prop := Keeps Unwinds act

namespace IsUnwinding

theorem bind {act : Exec α} {next : α → Exec β} (hact : IsUnwinding act)
    (hnext : ∀ a, IsUnwinding (next a)) : IsUnwinding (act >>= next) := Keeps.bind hact hnext

theorem of {act : Exec α} (hreleasing : IsReleasing act) (hforemost : IsForemost act) :
    IsUnwinding act :=
  fun m => ⟨hreleasing m, congrArg Prod.fst (hforemost m), congrArg Prod.snd (hforemost m)⟩

/-- Changes of the context that leave the loops alone. -/
theorem modifyContext {f : Context → Context} (hloops : ∀ c, (f c).loops = c.loops) :
    IsUnwinding (Exec.modifyContext f) := of (.modifyContext hloops) (.modifyContext f)

theorem emit (c : Category) (line : String) : IsUnwinding (Exec.onWorld (World.emit c line)) :=
  of (.onWorld (fun _ => rfl) fun _ => rfl) (.onWorld _)

theorem unwindTo (fp fuel : Nat) : IsUnwinding (Exec.unwindTo fp fuel) :=
  of (.unwindTo fp fuel) (.unwindTo fp fuel)

theorem abandon (f : Fault) : IsUnwinding (Exec.abandon f) := by
  have hrest : ∀ c : Context, IsUnwinding (do
      tryCatch (Exec.unwindTo 0 (c.stack.size + 1)) fun _ => Pure.pure ()
      Exec.modifyContext fun c => { c with running := false }
      Exec.fail f : Exec Unit) := fun c =>
    bind (Keeps.tryCatch (unwindTo _ _) fun _ => Keeps.pure _) fun _ =>
      bind (modifyContext fun _ => rfl) fun _ => Keeps.fail f
  refine bind Keeps.context fun c => ?_
  dsimp only
  split
  · exact bind (emit _ _) fun _ => hrest c
  · exact hrest c

theorem recover (f : Fault) : IsUnwinding (Exec.recover f) := by
  refine Keeps.ite (Keeps.fail f) (bind Keeps.context fun c => ?_)
  dsimp only
  split
  · exact of (.catchAt _ _ _) (.catchAt _ _ _)
  · exact abandon _

theorem finish : IsUnwinding Exec.finish :=
  bind (modifyContext fun _ => rfl) fun _ => bind Keeps.context fun _ =>
    bind (of (.note _ _) (.ofSparing (IsPlain.note _ _).isSparing)) fun _ =>
    fun _ => ⟨⟨[], .ofSame rfl rfl rfl⟩, rfl, rfl⟩

/-- **Dealing with a fault ends loops**, and releases what they walked. -/
theorem settle (f : Fault) : IsUnwinding (Exec.settle f) := by
  refine Keeps.ite finish (Keeps.tryCatch (recover f) fun halt => ?_)
  split
  · exact fun _ => ⟨⟨[], .ofSame rfl rfl rfl⟩, rfl, rfl⟩
  · exact Keeps.wait

theorem popFrame : IsUnwinding Exec.popFrame := of .popFrame .popFrame

end IsUnwinding

/-! ### Loops begin -/

namespace IsResting

theorem note (c : Category) (message : Unit → String) : IsResting (Exec.note c message) :=
  fun _ => ⟨rfl, rfl, rfl, rfl⟩

theorem begin (i : Instruction) : IsResting (Exec.begin i) := by
  intro m
  obtain ⟨j, running, o, hout⟩ := outcome_begin i m
  rw [hout]
  exact ⟨rfl, rfl, rfl, rfl⟩

theorem createLoopName (name : String) : IsResting (Exec.createLoopName name) :=
  bind Keeps.get fun _ => Keeps.ite
    (bind Keeps.scopes fun _ => bind Keeps.context fun _ => bind (Keeps.lift _) fun _ _ =>
      ⟨rfl, rfl, rfl, rfl⟩) (Keeps.pure ())

theorem popUnwrapped : IsResting Exec.popUnwrapped := by
  refine bind (bind ?_ fun v => Keeps.ite (Keeps.fail _) (Keeps.pure v)) fun _ => Keeps.pure _
  refine bind Keeps.get fun m => Keeps.ite (Keeps.fail _) ?_
  split
  · exact bind (modifyContext fun _ => rfl) fun _ => Keeps.pure _
  · exact Keeps.fail _

end IsResting

/-- Finding out what a loop walks freezes it, or is a fault that changes nothing. -/
theorem walkOver_cases (v : Value) (m : Machine) :
    (∃ halt, outcome (walkOver v) m = (.error halt, m)) ∨
      ∃ (walked : Walked) (heap : Heap),
        outcome (walkOver v) m = (.ok walked, { m with world := { m.world with heap } }) ∧
        match walked.container? with
        | some c => m.world.heap.Freezes c heap
        | none => heap = m.world.heap := by
  cases v with
  | string s => exact .inr ⟨_, m.world.heap, rfl, rfl⟩
  | channel r => exact .inr ⟨_, m.world.heap, rfl, rfl⟩
  | map r =>
    refine .inr ?_
    rw [walkOver, outcome_bind_ok (outcome_heap m)]
    cases hfound : m.world.heap.maps[r.id]? with
    | none => exact ⟨_, m.world.heap, rfl, rfl⟩
    | some o =>
      obtain ⟨hlt, -⟩ := Array.getElem?_eq_some_iff.1 hfound
      obtain rfl : m.world.heap.map r = o := by rw [Heap.map, hfound]; rfl
      exact ⟨_, _, rfl, Heap.freezes_putMap hlt⟩
  | array r =>
    refine .inr ?_
    rw [walkOver, outcome_bind_ok (outcome_heap m)]
    cases hfound : m.world.heap.arrays[r.id]? with
    | none => exact ⟨_, m.world.heap, rfl, rfl⟩
    | some o =>
      obtain ⟨hlt, -⟩ := Array.getElem?_eq_some_iff.1 hfound
      obtain rfl : m.world.heap.array r = o := by rw [Heap.array, hfound]; rfl
      exact ⟨_, _, rfl, Heap.freezes_putArray hlt⟩
  | _ => exact .inl ⟨_, rfl⟩

/-- A loop that begins over what was found freezes it. -/
theorem winds_of_freezes {l : Loop} {m : Machine} {heap : Heap}
    (h : match l.walked.container? with
      | some c => m.world.heap.Freezes c heap
      | none => heap = m.world.heap) :
    Winds l m { m with
      world := { m.world with heap }
      context := { m.context with loops := l :: m.context.loops } } := by
  cases hcontainer : l.walked.container? with
  | none =>
    rw [hcontainer] at h
    subst h
    have hnone : ∀ c, l.walks c = false := fun c => Bool.eq_false_iff.2 fun hwalks => by
      rw [Loop.walks_eq_true_iff, hcontainer] at hwalks
      cases hwalks
    exact ⟨rfl, rfl, rfl, fun c => by rw [hnone]; rfl,
      fun c hwalks => absurd (hwalks.symm.trans (hnone c)) (by decide), .refl _⟩
  | some c =>
    rw [hcontainer] at h
    have hwalks : ∀ d, l.walks d = true ↔ c = d := fun d => by
      rw [Loop.walks_eq_true_iff, hcontainer, Option.some.injEq]
    refine ⟨rfl, rfl, rfl, fun d => ?_, fun d hd => ?_, h.sameContents⟩
    · have hcount := h.freezes_eq d
      by_cases hd : c = d
      · rwa [if_pos ((hwalks d).2 hd), ← if_pos hd (t := 1) (e := 0)]
      · rw [if_neg hd] at hcount
        rw [if_neg fun hw => hd ((hwalks d).1 hw)]
        exact hcount
    · rw [← (hwalks d).1 hd]
      exact h.holds

/-- What beginning a loop does: a fault has to do with no loop. -/
def MayWind (m m' : Machine) : Prop := m.Rests m' ∨ ∃ m₁ l, m.Rests m₁ ∧ Winds l m₁ m'

theorem IsResting.mayWind {act : Exec α} {next : α → Exec β} (hact : IsResting act)
    (hnext : ∀ a, Keeps MayWind (next a)) : Keeps MayWind (act >>= next) :=
  Keeps.weaken .inl (fun h h' => h'.imp (Trans.trans h) fun ⟨m₁, l, h₁, hwinds⟩ =>
    ⟨m₁, l, Trans.trans h h₁, hwinds⟩) hact hnext

/-- **A loop begins**, or a fault has to do with no loop. -/
theorem beginLoop_mayWind (operand : Value) : Keeps MayWind (beginLoop operand) := by
  refine IsResting.mayWind Keeps.heap fun h => ?_
  dsimp only
  refine IsResting.mayWind (.createLoopName _) fun _ => IsResting.mayWind (.createLoopName _)
    fun _ => IsResting.mayWind .popUnwrapped fun v m => ?_
  rcases walkOver_cases v m with ⟨halt, hout⟩ | ⟨walked, heap, hout, hfreezes⟩
  · rw [outcome_bind_error hout]
    exact .inl (Std.Refl.refl m)
  · rw [outcome_bind_ok hout, outcome_modifyContext]
    exact .inr ⟨m, _, Std.Refl.refl m, winds_of_freezes hfreezes⟩

/-! ### Loops go on and end -/

theorem nextOf_isPlain (l : Loop) : IsPlain W B (nextOf l) := by
  refine IsPlain.heap.bind fun h => ?_
  split
  · exact IsPlain.pure _
  · split
    · exact IsPlain.pure _
    · exact (IsPlain.lift _).bind fun _ => IsPlain.pure _
  · exact IsPlain.pure _
  · exact IsPlain.ite (IsPlain.pure _) ((IsPlain.ofWorldAction (.receive _)).bind fun _ =>
      IsPlain.pure _)

theorem storeLoopName_isPlain (name : String) (v : Value) : IsPlain True B (storeLoopName name v) :=
  IsPlain.ite (IsPlain.store trivial name v) (IsPlain.pure ())

/-- What the instruction at the head of a loop does: a fault has to do with no loop, unless it comes
when the loop has gone on already. -/
def MayAdvance (m m' : Machine) : Prop :=
  m.Spares m' ∨ ∃ m₁, m.Spares m₁ ∧ (m₁.Advances m' ∨ m₁.Unwinds m')

theorem IsSparing.mayAdvance {act : Exec α} {next : α → Exec β} (hact : IsSparing act)
    (hnext : ∀ a, Keeps MayAdvance (next a)) : Keeps MayAdvance (act >>= next) :=
  Keeps.weaken .inl (fun h h' => h'.imp (Trans.trans h) fun ⟨m₁, h₁, hafter⟩ =>
    ⟨m₁, Trans.trans h h₁, hafter⟩) hact hnext

/-- **The innermost loop goes on or ends**, or a fault has to do with no loop. -/
theorem nextRound_mayAdvance (operand : Value) : Keeps MayAdvance (nextRound operand) := by
  refine IsSparing.mayAdvance (IsPlain.branchTarget trivial operand).isSparing fun leave m => ?_
  rw [outcome_bind_ok (outcome_context m)]
  cases hloops : m.context.loops with
  | nil => exact .inl (IsSparing.modifyContext (f := fun c => { c with pc := leave })
      (fun _ => rfl) m)
  | cons l rest =>
    have hfound := (nextOf_isPlain l).isSparing m
    dsimp only
    rw [outcome_bind]
    rcases hout : outcome (nextOf l) m with ⟨halt | found, m₁⟩ <;> rw [hout] at hfound
    · exact .inl hfound
    have hloops₁ : m₁.context.loops = l :: rest := hfound.loops_eq.trans hloops
    refine .inr ⟨m₁, hfound, ?_⟩
    cases found with
    | none =>
      obtain ⟨m₂, hrelease, -, hends⟩ := release_ends l rest (m := { m₁ with
        context := { m₁.context with pc := leave } }) hloops₁
      have hforemost := IsForemost.release l { m₁ with
        context := { m₁.context with pc := leave, loops := rest } }
      dsimp only
      rw [outcome_bind_ok (outcome_modifyContext _ m₁)]
      refine .inr ⟨⟨[l], ?_⟩, congrArg Prod.fst hforemost, congrArg Prod.snd hforemost⟩
      rw [hrelease]
      exact ⟨hends.loops_eq, hends.maps_eq, hends.arrays_eq⟩
    | some p =>
      refine .inl ⟨l, rest, hloops₁, ?_⟩
      dsimp only
      rw [outcome_bind_ok (outcome_modifyContext _ m₁)]
      exact IsSparing.bind (storeLoopName_isPlain _ _).isSparing
        (fun _ => (storeLoopName_isPlain _ _).isSparing) _

/-! ### Returns -/

/-- What a return does: another context is set going, or the function is left. -/
def MayUnwind (m m' : Machine) : Prop := ∃ m₁, m.Heeds m₁ ∧ m₁.Unwinds m'

theorem mayUnwind_of_heeds {m m' : Machine} (h : m.Heeds m') : MayUnwind m m' :=
  ⟨m', h, Std.Refl.refl m'⟩

theorem IsHeedful.mayUnwind {act : Exec α} {next : α → Exec β} (hact : IsHeedful act)
    (hnext : ∀ a, Keeps MayUnwind (next a)) : Keeps MayUnwind (act >>= next) :=
  Keeps.weaken mayUnwind_of_heeds (fun h ⟨m₁, h₁, hafter⟩ => ⟨m₁, Trans.trans h h₁, hafter⟩)
    hact hnext

theorem continueReturn_mayUnwind : Keeps MayUnwind continueReturn := by
  refine IsHeedful.mayUnwind Keeps.context fun c => ?_
  split
  · refine IsHeedful.mayUnwind (.modifyContext fun _ => rfl) fun _ =>
      IsHeedful.mayUnwind (IsPlain.noteThread _ _).isHeedful fun _ m => ?_
    refine mayUnwind_of_heeds (IsHeedful.callContext_bind _ _ _ _ (fun scratch hloops => ?_) m)
    exact IsHeedful.bind (.modifyContext fun _ => rfl) fun _ =>
      IsHeedful.enterScratch (c := { scratch with output := c.output }) hloops _
  · exact Keeps.ite (fun m => ⟨m, Std.Refl.refl m, IsUnwinding.popFrame m⟩)
      fun m => mayUnwind_of_heeds (IsHeedful.modifyContext
        (f := fun c => { c with running := false }) (fun _ => rfl) m)

theorem return_mayUnwind (operand : Value) : Keeps MayUnwind (return_ operand) := by
  unfold return_
  split
  · exact IsHeedful.mayUnwind IsPlain.popValue.isHeedful fun _ =>
      IsHeedful.mayUnwind (.modifyContext fun _ => rfl) fun _ => continueReturn_mayUnwind
  · exact continueReturn_mayUnwind

theorem afterScratch_mayUnwind (awaiting : Awaiting) (scratch : Context)
    (result : Except Fault Unit) : Keeps MayUnwind (afterScratch awaiting scratch result) := by
  unfold afterScratch
  cases awaiting with
  | deferred =>
    refine IsHeedful.mayUnwind (.modifyContext fun _ => rfl) fun _ => ?_
    cases result with
    | ok => exact continueReturn_mayUnwind
    | error f => exact fun m => mayUnwind_of_heeds (Std.Refl.refl m)
  | ordering r less size i j =>
    cases result with
    | ok => exact IsHeedful.mayUnwind Keeps.heap fun _ m =>
        mayUnwind_of_heeds ((IsOrdinary.sortAfter r less size i j _).isHeedful m)
    | error f => exact fun m => mayUnwind_of_heeds ((IsOrdinary.settleLibraryFault _ f).isHeedful m)

end Exec

/-! ### Steps -/

namespace Machine

/-- The next instruction is the head of a loop. -/
def HeadsLoop (m : Machine) : Prop :=
  m.ended = none ∧ ∃ operand, m.next? = some ⟨.rangeNext, operand⟩

/-- What a step does to loops; loops of the context that runs then may end, too. -/
inductive Deals (heads : Prop) (m m' : Machine) : Prop
  | heeds {m₁ : Machine} (h : m.Heeds m₁) (hends : m₁.Unwinds m')
  /-- A loop begins. -/
  | winds {m₁ m₂ : Machine} {l : Loop} (h : m.Rests m₁) (hbegins : Winds l m₁ m₂)
      (hends : m₂.Unwinds m')
  /-- The innermost loop goes on. -/
  | advances {m₁ m₂ : Machine} (hheads : heads) (h : m.Spares m₁) (hgoes : m₁.Advances m₂)
      (hends : m₂.Unwinds m')

variable {heads : Prop} {m m' m'' : Machine}

theorem Deals.refl (m : Machine) : m.Deals heads m :=
  .heeds (Std.Refl.refl m) (Std.Refl.refl m)

theorem Deals.thenUnwinds (h : m.Deals heads m') (h' : m'.Unwinds m'') : m.Deals heads m'' := by
  cases h with
  | heeds h hends => exact .heeds h (Trans.trans hends h')
  | winds h hbegins hends => exact .winds h hbegins (Trans.trans hends h')
  | advances hheads h hgoes hends => exact .advances hheads h hgoes (Trans.trans hends h')

/-- What an instruction does to loops once it has begun. -/
theorem execute_deals (i : Instruction) (hgoing : m.ended = none) (hnext : m.next? = some i)
    (h : m.Rests m') : m.Deals m.HeadsLoop (Exec.outcome (Exec.execute i) m').2 := by
  by_cases hbegin : i.op = .rangeInit
  · rw [show Exec.execute i = Exec.beginLoop i.operand by simp only [Exec.execute, hbegin]]
    rcases Exec.beginLoop_mayWind i.operand m' with hrests | ⟨m₁, l, hrests, hwinds⟩
    · exact .heeds (Trans.trans h hrests : m.Rests _).spares.heeds (Std.Refl.refl _)
    · exact .winds (Trans.trans h hrests) hwinds (Std.Refl.refl _)
  by_cases hround : i.op = .rangeNext
  · rw [show Exec.execute i = Exec.nextRound i.operand by simp only [Exec.execute, hround]]
    have hheads : m.HeadsLoop := ⟨hgoing, i.operand, by rw [hnext, ← hround]; cases i; rfl⟩
    rcases Exec.nextRound_mayAdvance i.operand m' with hspares | ⟨m₁, hspares, hgoes | hends⟩
    · exact .heeds (Trans.trans h.spares hspares : m.Spares _).heeds (Std.Refl.refl _)
    · exact .advances hheads (Trans.trans h.spares hspares) hgoes (Std.Refl.refl _)
    · exact .heeds (Trans.trans h.spares hspares : m.Spares _).heeds hends
  by_cases hreturn : i.op = .return
  · rw [show Exec.execute i = Exec.return_ i.operand by simp only [Exec.execute, hreturn]]
    obtain ⟨m₁, hheeds, hends⟩ := Exec.return_mayUnwind i.operand m'
    exact .heeds (Trans.trans h.spares.heeds hheeds) hends
  · exact .heeds (Trans.trans h.spares.heeds (Exec.execute_isHeedful hbegin hround hreturn m'))
      (Std.Refl.refl _)

theorem attempt_deals (m : Machine) : m.ready.Deals m.HeadsLoop m.attempt.2 := by
  unfold attempt action
  cases hended : m.ended with
  | some result =>
    cases hsuspended : m.suspended with
    | nil => exact .refl _
    | cons s rest =>
      obtain ⟨m₁, hheeds, hends⟩ := Exec.afterScratch_mayUnwind s.awaiting m.context result m.ready
      exact .heeds hheeds hends
  | none =>
    have hready : m.ready = m := by rw [ready, hended]
    rw [hready]
    cases hnext : m.next? with
    | none => exact .heeds (Exec.IsSparing.finish m).heeds (Std.Refl.refl _)
    | some i =>
      have hbegun := Exec.IsResting.begin i m
      dsimp only
      rw [Exec.outcome_bind]
      rcases hout : Exec.outcome (Exec.begin i) m with ⟨halt | u, m₁⟩ <;> rw [hout] at hbegun
      · exact .heeds (Rests.spares hbegun).heeds (Std.Refl.refl _)
      · exact execute_deals i hended hnext hbegun

/-- **What a step does to loops.** -/
theorem step_deals (m : Machine) : m.ready.Deals m.HeadsLoop m.step.1 := by
  have hattempt := m.attempt_deals
  rcases m.step_cases with ⟨hok, -⟩ | ⟨f, m₁, hfault, hsettle, -⟩ | ⟨hblocked, -⟩
  · rwa [hok] at hattempt
  · rw [hfault] at hattempt
    have hends := Exec.IsUnwinding.settle f m₁
    rw [hsettle] at hends
    exact hattempt.thenUnwinds hends
  · rw [hblocked]
    exact .refl _

/-- **Contexts that wait stay there** until those above them have ended. -/
theorem suspended_step (m : Machine) : m.ready.suspended <:+ m.step.1.suspended := by
  cases m.step_deals with
  | heeds h hends =>
    rw [hends.suspended_eq]
    exact h.suspended
  | winds h hbegins hends =>
    rw [hends.suspended_eq, hbegins.suspended_eq, h.suspended_eq]
  | advances _ h hgoes hends =>
    obtain ⟨l, rest, -, hspares⟩ := hgoes
    rw [hends.suspended_eq, hspares.suspended_eq]
    exact h.heeds.suspended

end Machine

end ScriptMachine
