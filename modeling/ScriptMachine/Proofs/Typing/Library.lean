import ScriptMachine.Library.Natives
import ScriptMachine.Proofs.Typing.Elements

/-!
# Typed arrays in the library

Library functions and operations on channels keep arrays to their types. Those that make arrays of the
elements of others, or of the keys of a map, convert or check what they take; those that sort write
back the elements that they found.

* `World.Typed`: the objects of a world are.
* `Typed.sortedInts`, `Typed.appended` and companions: library functions keep them so.
* `Typed.apply`: all of them do.
-/

namespace ScriptMachine

/-- The arrays of the world hold what belongs in them. -/
def World.Typed (w : World) : Prop := w.heap.Typed

namespace World.Typed

variable {α : Type} {P : α → Prop} {v : Value}

/-! ### The world -/

theorem onHeap {act : StateM Heap α} (h : Maintains Heap.Typed act P) :
    Maintains World.Typed (World.onHeap act) P := fun w hw => h w.heap hw

/-- A computation that leaves the objects alone. -/
theorem elsewhere {act : WorldM α} (h : ∀ w : World, (act.run w).2.heap = w.heap) :
    Maintains World.Typed act fun _ => True := fun w hw => by
  refine ⟨?_, trivial⟩
  unfold World.Typed
  rwa [h w]

theorem note (c : Category) (message : Unit → String) :
    Maintains World.Typed (World.note c message) fun _ => True := elsewhere fun _ => rfl

theorem emit (c : Category) (message : String) :
    Maintains World.Typed (World.emit c message) fun _ => True := elsewhere fun _ => rfl

theorem newChild (name : String) (parent : TableId) (boundary : Bool) :
    Maintains World.Typed (World.newChild name parent boundary) fun _ => True :=
  elsewhere fun _ => rfl

theorem remove (id : TableId) : Maintains World.Typed (World.remove id) fun _ => True := by
  refine .bind .get fun w _ => .bind (elsewhere fun _ => rfl) fun _ _ => ?_
  split
  · exact note _ _
  · exact .pure trivial

/-- Channels, locks and counters are no arrays. -/
theorem putChannel (r : Ref .channel) (c : ChannelObject) :
    Maintains World.Typed (World.onHeap (Heap.putChannel r c)) fun _ => True :=
  fun _ hw => ⟨⟨hw.arrays, hw.maps, hw.structs⟩, trivial⟩

theorem putLocked (r : Ref .mutex) (b : Bool) :
    Maintains World.Typed (World.onHeap (Heap.putLocked r b)) fun _ => True :=
  fun _ hw => ⟨⟨hw.arrays, hw.maps, hw.structs⟩, trivial⟩

theorem putWaitCount (r : Ref .waitGroup) (n : Int64) :
    Maintains World.Typed (World.onHeap (Heap.putWaitCount r n)) fun _ => True :=
  fun _ hw => ⟨⟨hw.arrays, hw.maps, hw.structs⟩, trivial⟩

theorem newChannel (capacity : Nat) :
    Maintains World.Typed (World.newChannel capacity) fun _ => True :=
  .bind (P := fun _ => True) (fun _ hw => ⟨⟨hw.arrays, hw.maps, hw.structs⟩, trivial⟩) fun _ _ =>
    .bind (note _ _) fun _ _ => .pure trivial

theorem closeChannel (r : Ref .channel) :
    Maintains World.Typed (World.closeChannel r) fun _ => True :=
  .bind .get fun _ _ => .bind (putChannel _ _) fun _ _ => .bind (note _ _) fun _ _ => .pure trivial

theorem assign (start : TableId) (name : String) (v : Value) :
    Maintains World.Typed (World.assign start name v) fun _ => True := by
  refine .bind .get fun w _ => ?_
  split
  · exact .bind (elsewhere fun _ => rfl) fun _ _ => .bind (note _ _) fun _ _ => .pure trivial
  · exact .pure trivial

end World.Typed

namespace WorldAction

/-- An action on the world keeps arrays to their types, whether it completes or not. -/
abbrev KeepsTyped {α : Type} (act : WorldAction α) : Prop :=
  ScriptMachine.Upholds World.Typed act fun _ => True

namespace KeepsTyped

open World.Typed

variable {α : Type} {P : α → Prop} {v : Value}

theorem fail (f : Fault) : KeepsTyped (WorldAction.fail f : WorldAction α) := .throw _

theorem orFail {r : Except Fault α} (h : Ensures r P) :
    ScriptMachine.Upholds World.Typed (WorldAction.orFail r) P := by
  cases r with
  | ok a => exact .pure (h a rfl)
  | error f => exact .throw _

theorem heap : ScriptMachine.Upholds World.Typed WorldAction.heap Heap.Typed :=
  .bind .get fun _ hw => .pure hw

theorem onHeap {act : StateM Heap α} (h : Maintains Heap.Typed act P) :
    ScriptMachine.Upholds World.Typed (WorldAction.onHeap act) P := .lift (World.Typed.onHeap h)

theorem onObjects {act : HeapM α} (h : ScriptMachine.Upholds Heap.Typed act P) :
    ScriptMachine.Upholds World.Typed (WorldAction.onObjects act) P :=
  .bind (P := (Ensures · P)) (onHeap h) fun _ hr => orFail hr

/-! ### Channels, locks and counters -/

theorem ofAttempt (x : Attempt α) : KeepsTyped (WorldAction.ofAttempt x) := by
  cases x with
  | done a => exact .pure trivial
  | refused => exact .throw _
  | wait => exact .throw _

theorem send (r : Ref .channel) (v : Value) : KeepsTyped (WorldAction.send r v) :=
  .bind heap fun _ _ => .bind (ofAttempt _) fun _ _ => .bind (.lift (note _ _)) fun _ _ =>
    .lift (putChannel _ _)

theorem receive (r : Ref .channel) : KeepsTyped (WorldAction.receive r) :=
  .bind heap fun _ _ => .bind (ofAttempt _) fun _ _ => .bind (.lift (putChannel _ _)) fun _ _ =>
    .bind (.lift (note _ _)) fun _ _ => .pure trivial

theorem lock (r : Ref .mutex) : KeepsTyped (WorldAction.lock r) := by
  refine .bind heap fun h _ => ?_
  split
  · exact .bind (.throw _) fun _ (_ : True) => .lift (putLocked r true)
  · exact .lift (putLocked r true)

theorem unlock (r : Ref .mutex) : KeepsTyped (WorldAction.unlock r) :=
  .bind heap fun _ _ => .ite (.lift (putLocked r false)) (.throw _)

theorem adjust (r : Ref .waitGroup) (delta : Int64) : KeepsTyped (WorldAction.adjust r delta) :=
  .bind heap fun _ _ => .bind (.lift (putWaitCount r _)) fun _ _ => .ite (.throw _) (.pure trivial)

theorem awaitZero (r : Ref .waitGroup) : KeepsTyped (WorldAction.awaitZero r) :=
  .bind heap fun _ _ => .ite (.throw _) (.pure trivial)

/-! ### Builtin functions -/

theorem arrayArg (v : Value) : KeepsTyped (Native.arrayArg v) := by
  unfold Native.arrayArg
  split
  · exact .pure trivial
  · exact fail _

theorem stringArg (v : Value) : KeepsTyped (Native.stringArg v) := by
  unfold Native.stringArg
  split
  · exact .pure trivial
  · exact fail _

theorem newArray {a : ArrayObject} (ha : a.Typed) : KeepsTyped (Native.newArray a) :=
  .bind (onHeap (Heap.Typed.newArray ha)) fun _ _ => .pure trivial

/-- The new array is empty at first, and what is appended is checked. -/
theorem appended (first : Value) (others : List Value) : KeepsTyped (Native.appended first others) := by
  have hbuilt : ∀ (element : Ty) (values : List Value), KeepsTyped (do
      let r ← WorldAction.onHeap (Heap.newArray { element, values := #[] })
      for v in values do
        let v ← if element.isInterface then pure v
          else WorldAction.onObjects (Heap.coerce element v)
        WorldAction.onObjects (Heap.appendElement r v)
      return Value.array r) := by
    intro element values
    refine .bind (onHeap (Heap.Typed.newArray (.empty element))) fun r _ =>
      .bind (.forIn fun v _ => ?_) fun _ _ => .pure trivial
    have happend : ∀ u : Value, KeepsTyped (do
        WorldAction.onObjects (Heap.appendElement r u)
        pure (ForInStep.yield PUnit.unit)) := fun u =>
      .bind (onObjects (Heap.Typed.appendElement r u)) fun _ _ => .pure trivial
    split
    · exact .bind (.pure trivial) fun u (_ : True) => happend u
    · exact .bind (onObjects (Heap.Typed.coerce element v)) fun u _ => happend u
  refine .bind heap fun h _ => ?_
  dsimp only
  split
  · exact hbuilt _ _
  · exact hbuilt _ _
  · exact hbuilt _ _

theorem made (v : Value) (size : Nat) : KeepsTyped (Native.made v size) := by
  unfold Native.made
  split
  · split
    · exact .bind (onHeap (Heap.Typed.zeroValue _)) fun _ hzero =>
        onHeap (Heap.Typed.filled size hzero)
    · exact .bind (.lift (newChannel _)) fun _ _ => .pure trivial
    · exact (onHeap (Heap.Typed.zeroValue _)).imp fun _ _ => trivial
    · exact fail _
  · exact fail _

theorem closed (v : Value) : KeepsTyped (Native.closed v) := by
  unfold Native.closed
  split
  · exact .bind (.lift (closeChannel _)) fun _ _ => .pure trivial
  · exact fail _

theorem deleted (v key : Value) : KeepsTyped (Native.deleted v key) := by
  unfold Native.deleted
  split
  · exact .bind (onObjects (Heap.Typed.deleteEntry _ key)) fun _ _ => .pure trivial
  · exact .bind (orFail (.any _)) fun _ _ =>
      .bind (onObjects (Heap.Typed.deleteElement _ _)) fun _ _ => .pure trivial
  · exact fail _

theorem renewed (v : Value) : KeepsTyped (WorldAction.onHeap (Native.renewed v)) := by
  unfold Native.renewed
  split
  · exact (onHeap (Heap.Typed.zeroValue _)).imp fun _ _ => trivial
  · exact onHeap (Heap.Typed.copyStruct _)
  · exact (onHeap (Heap.Typed.deepCopy _)).imp fun _ _ => trivial

/-! ### Package functions -/

/-- What is done with the objects that are read first. -/
theorem heap_bind {next : Heap → WorldAction α}
    (hnext : ∀ w : World, w.Typed → World.Typed ((next w.heap).run.run w).2) :
    KeepsTyped (WorldAction.heap >>= next) := fun w hw => ⟨hnext w hw, .any _⟩

/-- The elements that an array has, in another order, belong in it. -/
theorem replaced {w : World} (hw : w.Typed) {r : Ref .array} {values : Array Value}
    (hvalues : ∀ v ∈ values, v ∈ (w.heap.array r).values) :
    World.Typed ((WorldAction.onObjects (Heap.replaceElements r values) >>= fun _ =>
      (Pure.pure Value.null : WorldAction Value)).run.run w).2 := by
  have hrun : (WorldAction.onObjects (Heap.replaceElements r values)).run.run w
      = (WorldAction.orFail ((Heap.replaceElements r values).run.run w.heap).1).run.run
        { w with heap := ((Heap.replaceElements r values).run.run w.heap).2 } := rfl
  have hafter : World.Typed { w with heap := ((Heap.replaceElements r values).run.run w.heap).2 } :=
    hw.replaceElements fun v hv => hw.array r v (hvalues v hv)
  rw [ExceptT.run_bind, StateT.run_bind, hrun]
  cases ((Heap.replaceElements r values).run.run w.heap).1 with
  | error f => exact hafter
  | ok u => exact hafter

theorem sortedInts (r : Ref .array) : KeepsTyped (Native.sortedInts r) := by
  unfold Native.sortedInts
  refine heap_bind fun w hw => ?_
  dsimp only
  have hkeyed : Ensures ((w.heap.array r).values.toList.mapM fun v => v.toInt64.map (·, v))
      fun keyed => ∀ p ∈ keyed, p.2 ∈ (w.heap.array r).values :=
    .mapM fun v hv => .map fun _ => Array.mem_toList_iff.1 hv
  generalize ((w.heap.array r).values.toList.mapM fun v => v.toInt64.map (·, v)) = result at hkeyed ⊢
  cases result with
  | error f => exact hw
  | ok keyed =>
    refine replaced hw fun v hv => ?_
    simp only [List.mem_toArray, List.mem_map, List.mem_mergeSort] at hv
    obtain ⟨p, hp, rfl⟩ := hv
    exact hkeyed keyed rfl p hp

theorem sortedStrings (r : Ref .array) : KeepsTyped (Native.sortedStrings r) := by
  unfold Native.sortedStrings
  refine heap_bind fun w hw => replaced hw fun v hv => ?_
  simpa only [List.mem_toArray, List.mem_mergeSort, Array.mem_toList_iff] using hv

theorem joined (r : Ref .array) (separator : String) : KeepsTyped (Native.joined r separator) :=
  .bind heap fun _ _ => .pure trivial

/-! ### Methods -/

theorem applyShared (f : Native) (this arg : Value) : KeepsTyped (Native.applyShared f this arg) := by
  unfold Native.applyShared
  split
  · exact .bind (orFail (.any _)) fun _ _ => .bind (adjust _ _) fun _ _ => .pure trivial
  · exact .bind (adjust _ _) fun _ _ => .pure trivial
  · exact .bind (awaitZero _) fun _ _ => .pure trivial
  · exact .bind (lock _) fun _ _ => .pure trivial
  · exact .bind (unlock _) fun _ _ => .pure trivial
  · exact .bind (.lift (closeChannel _)) fun _ _ => .pure trivial
  · exact .bind heap fun _ _ => .pure trivial
  · exact .bind heap fun _ _ => .pure trivial
  · exact fail _

theorem applyContainer (f : Native) (this : Value) (args : List Value) :
    KeepsTyped (Native.applyContainer f this args) := by
  unfold Native.applyContainer
  split
  · exact .bind heap fun _ _ => .pure trivial
  · rename_i r
    refine .bind (P := fun _ => True)
      (.bind (.forIn fun v _ => ?_) fun _ _ => .pure trivial) fun _ _ => .pure trivial
    exact .bind (onObjects (Heap.Typed.appendElement r v)) fun _ _ => .pure trivial
  · rename_i r
    refine .bind heap fun h hh => newArray fun v hv => ?_
    exact (hh.map r).keys v (by simpa using hv)
  · exact .bind heap fun _ _ => .pure trivial
  · exact .pure trivial
  · exact fail _

theorem boundTo (receiver : Option Value) : KeepsTyped (Native.boundTo receiver) := by
  cases receiver with
  | some v => exact .pure trivial
  | none => exact fail _

/-- **Library functions keep arrays to their types.** -/
theorem apply (f : Native) (receiver : Option Value) (args : List Value) :
    KeepsTyped (f.apply receiver args) := by
  have hshared : ∀ arg, KeepsTyped (do
      Native.applyShared f (← Native.boundTo receiver) arg) := fun arg =>
    .bind (boundTo receiver) fun this _ => applyShared f this arg
  have hcontainer : KeepsTyped (do Native.applyContainer f (← Native.boundTo receiver) args) :=
    .bind (boundTo receiver) fun this _ => applyContainer f this args
  unfold Native.apply
  dsimp only
  split
  case h_1 => exact .bind heap fun _ _ => orFail (.any _)
  case h_2 => exact appended _ _
  case h_3 =>
    split
    · exact .bind (orFail (.any _)) fun _ _ => made _ _
    · exact .bind (.pure trivial) fun _ (_ : True) => made _ _
  case h_4 => exact closed _
  case h_5 => exact deleted _ _
  case h_6 => exact renewed _
  case h_7 =>
    split
    · exact .pure trivial
    · exact .bind heap fun _ _ => .pure trivial
  case h_8 => exact .pure trivial
  case h_9 => exact .bind (arrayArg _) fun r _ => sortedInts r
  case h_10 => exact .bind (arrayArg _) fun r _ => sortedStrings r
  case h_11 => exact .bind (stringArg _) fun _ _ => .pure trivial
  case h_12 => exact .bind (stringArg _) fun _ _ => .pure trivial
  case h_13 =>
    exact .bind (arrayArg _) fun r _ => .bind (stringArg _) fun _ _ => joined r _
  case h_14 | h_15 | h_16 | h_17 | h_18 | h_19 | h_20 | h_21 => exact hshared _
  all_goals exact hcontainer

end KeepsTyped

end WorldAction

end ScriptMachine
