import ScriptMachine.Library.Natives
import ScriptMachine.Proofs.Action.Veils
import ScriptMachine.Proofs.Faults.Quiet
import ScriptMachine.Proofs.Objects.Sparing
import ScriptMachine.Proofs.Scopes.Outline

/-!
# The library and the world

Library functions and channel operations work on objects and on the journal. They leave the symbol
tables alone, they spare frozen containers, they do not read the events of the journal, and they
raise no signal of a debugger.

* `WorldAction.IsPlain`: a computation on the world that does so, with the rules for composed
  computations.
* `IsPlain.send`, `IsPlain.receive`: channel operations do.
* `IsPlain.apply`: every library function does.
-/

namespace ScriptMachine

namespace WorldAction

variable {α β : Type}

/-- A computation that leaves the symbol tables alone and spares frozen containers, whether it
succeeds or not, does not read the events of the journal, and raises no signal of a debugger. -/
structure IsPlain (act : WorldAction α) : Prop where
  keeps : ∀ w, (act.run.run w).2.scopes = w.scopes ∧ w.heap.Spares (act.run.run w).2.heap
  unread : WorldM.IsUnread act.run
  quiet : ∀ w, Halt.QuietIn (act.run.run w).1

namespace IsPlain

theorem pure (a : α) : IsPlain (Pure.pure a) :=
  ⟨fun w => ⟨rfl, .refl w.heap⟩, fun _ _ => rfl, fun _ => trivial⟩

theorem throw {h : Halt} (hquiet : h.IsQuiet) :
    IsPlain (MonadExcept.throw h : WorldAction α) := by
  exact ⟨fun w => ⟨rfl, .refl w.heap⟩, fun _ _ => rfl, fun _ => hquiet⟩

theorem blocked : IsPlain (MonadExcept.throw .blocked : WorldAction α) := throw trivial

theorem fail (f : Fault) (hquiet : f.IsQuiet) :
    IsPlain (WorldAction.fail f : WorldAction α) := throw hquiet

theorem bind {act : WorldAction α} {next : α → WorldAction β} (hact : IsPlain act)
    (hnext : ∀ a, IsPlain (next a)) : IsPlain (act >>= next) := by
  refine ⟨fun w => ?_, ?_, fun w => ?_⟩
  · have hw := hact.keeps w
    simp only [ExceptT.run_bind, StateT.run_bind]
    rcases hrun : act.run.run w with ⟨r | a, w'⟩
    · rw [hrun] at hw
      exact hw
    · rw [hrun] at hw
      have hw' := (hnext a).keeps w'
      exact ⟨hw'.1.trans hw.1, hw.2.trans hw'.2⟩
  · rw [ExceptT.run_bind]
    refine hact.unread.bind fun r => ?_
    cases r with
    | ok a => exact (hnext a).unread
    | error h => exact .pure _
  · have hquiet := hact.quiet w
    simp only [ExceptT.run_bind, StateT.run_bind]
    rcases hrun : act.run.run w with ⟨r | a, w'⟩
    · rw [hrun] at hquiet
      exact hquiet
    · exact (hnext a).quiet w'

theorem ite {p : Prop} [Decidable p] {yes no : WorldAction α} (hyes : IsPlain yes)
    (hno : IsPlain no) : IsPlain (if p then yes else no) := by
  split
  · exact hyes
  · exact hno

theorem compositional : Compositional (μ := WorldAction) fun _ => IsPlain := ⟨pure, bind⟩

theorem forIn {γ σ : Type} (xs : List γ) (body : γ → σ → WorldAction (ForInStep σ)) (init : σ)
    (hbody : ∀ x s, IsPlain (body x s)) : IsPlain (ForIn.forIn xs init body) :=
  compositional.forIn fun x _ => hbody x

theorem orFail (r : Except Fault α) [hr : Quiet r] : IsPlain (WorldAction.orFail r) := by
  cases r with
  | ok a => exact pure a
  | error f => exact fail f (hr.quiet f rfl)

theorem heap : IsPlain WorldAction.heap :=
  ⟨fun w => ⟨rfl, .refl w.heap⟩, fun _ _ => rfl, fun _ => trivial⟩

/-- A computation on the world that can neither fault nor wait. -/
theorem onWorld {act : WorldM α} (hkeeps : ∀ w : World, (act.run w).2.scopes = w.scopes ∧
    w.heap.Spares (act.run w).2.heap) (hunread : act.IsUnread) :
    IsPlain (WorldAction.onWorld act) := by
  refine ⟨fun w => ?_, ?_, fun _ => trivial⟩
  · show ((ExceptT.lift act).run.run w).2.scopes = _ ∧ _
    exact hkeeps w
  · show WorldM.IsUnread (ExceptT.lift act).run
    rw [ExceptT.run_lift, map_eq_pure_bind]
    exact hunread.bind fun _ => .pure _

theorem onHeap {act : StateM Heap α} (h : Heap.IsSparing act) :
    IsPlain (WorldAction.onHeap act) :=
  onWorld (fun w => ⟨rfl, h w.heap⟩) (World.onHeap_isUnread act)

theorem note (c : Category) (message : Unit → String) :
    IsPlain (WorldAction.onWorld (World.note c message)) :=
  onWorld (fun w => ⟨rfl, .refl w.heap⟩) (World.note_isUnread c message)

theorem onObjects {act : HeapM α} (h : Heap.IsSparing act.run) [hact : Heap.Quiet act] :
    IsPlain (WorldAction.onObjects act) := by
  have hrun : ∀ w : World, (WorldAction.onObjects act).run.run w
      = ((act.run.run w.heap).1.mapError Halt.fault,
        { w with heap := (act.run.run w.heap).2 }) := by
    intro w
    show ((WorldAction.orFail (act.run.run w.heap).1).run.run
      { w with heap := (act.run.run w.heap).2 }) = _
    rcases (act.run.run w.heap).1 with f | a <;> rfl
  refine ⟨fun w => ?_, fun events w => ?_, fun w => ?_⟩
  · rw [hrun]
    exact ⟨rfl, h w.heap⟩
  · show ((WorldAction.onObjects act).run.run (w.after events)) =
      (((WorldAction.onObjects act).run.run w).1,
        ((WorldAction.onObjects act).run.run w).2.after events)
    rw [hrun, hrun]
    rfl
  · rw [hrun]
    rcases hresult : (act.run.run w.heap).1 with f | a
    · exact (hact.quiet w.heap).quiet f hresult
    · exact trivial

theorem ofAttempt (x : Attempt α) : IsPlain (WorldAction.ofAttempt x) := by
  cases x with
  | done a => exact pure a
  | refused => exact fail _ (.of rfl)
  | wait => exact blocked

/-! ### Channels, locks and counters -/

theorem send (r : Ref .channel) (v : Value) : IsPlain (WorldAction.send r v) :=
  heap.bind fun _ => (ofAttempt _).bind fun _ => (note _ _).bind fun _ => onHeap (.putChannel _ _)

theorem receive (r : Ref .channel) : IsPlain (WorldAction.receive r) :=
  heap.bind fun _ => (ofAttempt _).bind fun _ => (onHeap (.putChannel _ _)).bind fun _ =>
    (note _ _).bind fun _ => pure _

theorem lock (r : Ref .mutex) : IsPlain (WorldAction.lock r) :=
  heap.bind fun _ => ite (blocked.bind fun _ => onHeap (.putLocked _ _))
    (onHeap (.putLocked _ _))

theorem unlock (r : Ref .mutex) : IsPlain (WorldAction.unlock r) :=
  heap.bind fun _ => ite (onHeap (.putLocked _ _)) (fail _ (.of rfl))

theorem adjust (r : Ref .waitGroup) (delta : Int64) : IsPlain (WorldAction.adjust r delta) :=
  heap.bind fun _ => (onHeap (.putWaitCount _ _)).bind fun _ => ite (fail _ (.of rfl)) (pure _)

theorem awaitZero (r : Ref .waitGroup) : IsPlain (WorldAction.awaitZero r) :=
  heap.bind fun _ => ite blocked (pure _)

/-! ### Library functions -/

theorem newChannel (capacity : Nat) :
    IsPlain (WorldAction.onWorld (World.newChannel capacity)) :=
  onWorld (fun _ => ⟨rfl, .ofSame rfl rfl⟩) (World.newChannel_isUnread capacity)

theorem closeChannel (r : Ref .channel) :
    IsPlain (WorldAction.onWorld (World.closeChannel r)) :=
  onWorld (fun _ => ⟨rfl, .ofSame rfl rfl⟩) (World.closeChannel_isUnread r)

theorem arrayArg (v : Value) : IsPlain (Native.arrayArg v) := by
  unfold Native.arrayArg
  split
  · exact pure _
  · exact fail _ (.of rfl)

theorem stringArg (v : Value) : IsPlain (Native.stringArg v) := by
  unfold Native.stringArg
  split
  · exact pure _
  · exact fail _ (.of rfl)

theorem appended (first : Value) (others : List Value) :
    IsPlain (Native.appended first others) := by
  refine heap.bind fun h => ?_
  dsimp only
  refine (onHeap (.newArray rfl)).bind fun r => (forIn _ _ _ fun v _ => ?_).bind fun _ => pure _
  exact ite ((pure _).bind fun _ => (onObjects (.appendElement _ _)).bind fun _ => pure _)
    ((onObjects (.coerce _ _)).bind fun _ => (onObjects (.appendElement _ _)).bind fun _ => pure _)

theorem made (v : Value) (size : Nat) : IsPlain (Native.made v size) := by
  unfold Native.made
  split
  · split
    · exact (onHeap (.zeroValue _)).bind fun _ => onHeap (.filled _ _ _)
    · exact (newChannel _).bind fun _ => pure _
    · exact onHeap (.zeroValue _)
    · exact fail _ (.of rfl)
  · exact fail _ (.of rfl)

theorem closed (v : Value) : IsPlain (Native.closed v) := by
  unfold Native.closed
  split
  · exact (closeChannel _).bind fun _ => pure _
  · exact fail _ (.of rfl)

theorem deleted (container key : Value) : IsPlain (Native.deleted container key) := by
  unfold Native.deleted
  split
  · exact (onObjects (.deleteEntry _ _)).bind fun _ => pure _
  · exact (orFail _).bind fun _ => (onObjects (.deleteElement _ _)).bind fun _ => pure _
  · exact fail _ (.of rfl)

theorem renewed (v : Value) : IsPlain (WorldAction.onHeap (Native.renewed v)) := by
  unfold Native.renewed
  split
  · exact onHeap (.zeroValue _)
  · exact onHeap (.copyStruct _)
  · exact onHeap (.deepCopy _)

theorem sortedInts (r : Ref .array) : IsPlain (Native.sortedInts r) :=
  heap.bind fun _ => (orFail _).bind fun _ => (onObjects (.replaceElements _ _)).bind fun _ =>
    pure _

theorem sortedStrings (r : Ref .array) : IsPlain (Native.sortedStrings r) :=
  heap.bind fun _ => (onObjects (.replaceElements _ _)).bind fun _ => pure _

theorem joined (r : Ref .array) (separator : String) :
    IsPlain (Native.joined r separator) := heap.bind fun _ => pure _

theorem applyShared (f : Native) (this arg : Value) :
    IsPlain (Native.applyShared f this arg) := by
  unfold Native.applyShared
  split
  · exact (orFail _).bind fun _ => (adjust _ _).bind fun _ => pure _
  · exact (adjust _ _).bind fun _ => pure _
  · exact (awaitZero _).bind fun _ => pure _
  · exact (lock _).bind fun _ => pure _
  · exact (unlock _).bind fun _ => pure _
  · exact (closeChannel _).bind fun _ => pure _
  · exact heap.bind fun _ => pure _
  · exact heap.bind fun _ => pure _
  · exact fail _ (.of rfl)

theorem applyContainer (f : Native) (this : Value) (args : List Value) :
    IsPlain (Native.applyContainer f this args) := by
  unfold Native.applyContainer
  split
  · exact heap.bind fun _ => pure _
  · refine ((forIn _ _ _ fun v _ => ?_).bind fun _ => pure _).bind fun _ => pure _
    exact (onObjects (.appendElement _ _)).bind fun _ => pure _
  · exact heap.bind fun _ => (onHeap (.newArray rfl)).bind fun _ => pure _
  · exact heap.bind fun _ => pure _
  · exact pure _
  · exact fail _ (.of rfl)

theorem boundTo (receiver : Option Value) : IsPlain (Native.boundTo receiver) := by
  cases receiver with
  | some v => exact pure _
  | none => exact fail _ (.of rfl)

/-- **Library functions leave the symbol tables alone, spare frozen containers and do not read the
events of the journal.** -/
theorem apply (f : Native) (receiver : Option Value) (args : List Value) :
    IsPlain (f.apply receiver args) := by
  have hshared : ∀ arg, IsPlain (do
      Native.applyShared f (← Native.boundTo receiver) arg) := fun arg =>
    (boundTo receiver).bind fun this => applyShared f this arg
  have hcontainer : IsPlain (do Native.applyContainer f (← Native.boundTo receiver) args) :=
    (boundTo receiver).bind fun this => applyContainer f this args
  unfold Native.apply
  dsimp only
  split
  case h_1 => exact heap.bind fun _ => orFail _
  case h_2 => exact appended _ _
  case h_3 =>
    split
    · exact (orFail _).bind fun _ => made _ _
    · exact (pure _).bind fun _ => made _ _
  case h_4 => exact closed _
  case h_5 => exact deleted _ _
  case h_6 => exact renewed _
  case h_7 =>
    split
    · exact pure _
    · exact heap.bind fun _ => pure _
  case h_8 => exact pure _
  case h_9 => exact (arrayArg _).bind sortedInts
  case h_10 => exact (arrayArg _).bind sortedStrings
  case h_11 => exact (stringArg _).bind fun _ => pure _
  case h_12 => exact (stringArg _).bind fun _ => pure _
  case h_13 =>
    exact (arrayArg _).bind fun _ => (stringArg _).bind fun _ =>
      joined _ _
  case h_14 | h_15 | h_16 | h_17 | h_18 | h_19 | h_20 | h_21 => exact hshared _
  all_goals exact hcontainer

end IsPlain

end WorldAction

end ScriptMachine
