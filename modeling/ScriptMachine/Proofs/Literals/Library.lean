import ScriptMachine.Library.Natives
import ScriptMachine.Proofs.Literals.Copies
import ScriptMachine.Proofs.Literals.Values

/-!
# The library apart from literals

Conversions, zero values and library functions leave literals alone, and their results are apart from
them if their arguments are.

* `Heap.Apart.zeroValue`, `Heap.Apart.coerce` and companions: computations on objects.
* `World.Apart`: objects and symbols apart from the literals.
* `World.Apart.apply`: library functions.
-/

namespace ScriptMachine

variable {L : Literals} {v w : Value}

/-! ### Copies, zero values and conversions -/

namespace Heap.Apart

theorem copyStruct {r : Ref .struct} (hr : (Value.struct r).Apart L) :
    Maintains (Heap.Apart L) (Heap.copyStruct r) (Value.Apart L) := by
  refine .bind (deepCopy hr) fun v hv => ?_
  split
  · exact .bind .get fun _ _ => .bind .get fun h hh =>
      .bind (putStruct hv (hh.struct hv)) fun _ _ => .pure hv
  · exact .pure hv

theorem filled (element : Ty) (size : Nat) (hv : v.Apart L) :
    Maintains (Heap.Apart L) (Heap.filled element size v) (Value.Apart L) := by
  unfold Heap.filled
  simp only [Std.Legacy.Range.forIn_eq_forIn_range']
  refine .bind (P := fun values : Array Value => ∀ w ∈ values, w.Apart L)
    (.forIn (fun _ h => absurd h (Array.not_mem_empty _)) fun _ _ values hvalues =>
      .bind (deepCopy hv) fun w hw => .pure ?_)
    fun values hvalues => .bind (newArray hvalues) fun _ hr => .pure hr
  intro u hu
  rcases Array.mem_push.1 hu with hu | rfl
  · exact hvalues u hu
  · exact hw

theorem newInstance (t : Ty) {fields : List (String × Value)} (h : ∀ p ∈ fields, p.2.Apart L) :
    Maintains (Heap.Apart L) (Heap.newInstance t fields) (Value.Apart L) :=
  .bind (newStruct h) fun _ hr => .pure hr

theorem zeroOfKind (k : Kind) : Maintains (Heap.Apart L) (Heap.zeroOfKind k) (Value.Apart L) := by
  cases k with
  | array => exact .bind (newArray nofun) fun _ hr => .pure hr
  | map => exact .bind (newMap nofun) fun _ hr => .pure hr
  | mutex => exact .bind newMutex fun _ _ => .pure (.plain rfl rfl)
  | waitGroup => exact .bind newWaitGroup fun _ _ => .pure (.plain rfl rfl)
  | type => exact .bind newMethods fun _ _ => .pure (.plain rfl rfl)
  | _ => exact .pure (.plain rfl rfl)

mutual

theorem zeroValue (t : Ty) : Maintains (Heap.Apart L) (Heap.zeroValue t) (Value.Apart L) := by
  match t with
  | .basic _ k =>
    cases k with
    | struct =>
      rw [Heap.zeroValue]
      exact newInstance _ nofun
    | _ =>
      rw [Heap.zeroValue]
      · exact zeroOfKind _
      · nofun
  | .array _ e =>
    rw [Heap.zeroValue]
    exact .bind (newArray nofun) fun _ hr => .pure hr
  | .pointer .. =>
    rw [Heap.zeroValue]
    exact .pure (.plain rfl rfl)
  | .map _ k v =>
    rw [Heap.zeroValue]
    exact .bind (newMap nofun) fun _ hr => .pure hr
  | .struct _ fs =>
    rw [Heap.zeroValue]
    exact .bind (zeroFields fs) fun _ hfields => newInstance _ hfields
  | .user _ _ _ b =>
    rw [Heap.zeroValue]
    split
    · exact .bind (zeroFieldsOf b) fun _ hfields => newInstance _ hfields
    · exact zeroValue b

theorem zeroFieldsOf (t : Ty) : Maintains (Heap.Apart L) (Heap.zeroFieldsOf t)
    fun fields => ∀ p ∈ fields, p.2.Apart L := by
  match t with
  | .struct _ fs =>
    rw [Heap.zeroFieldsOf]
    exact zeroFields fs
  | .user _ _ _ b =>
    rw [Heap.zeroFieldsOf]
    exact zeroFieldsOf b
  | .basic .. | .array .. | .pointer .. | .map .. => exact .pure nofun

theorem zeroFields (fs : List (String × Ty)) : Maintains (Heap.Apart L) (Heap.zeroFields fs)
    fun fields => ∀ p ∈ fields, p.2.Apart L := by
  match fs with
  | [] =>
    rw [Heap.zeroFields]
    exact .pure nofun
  | (name, t) :: rest =>
    rw [Heap.zeroFields]
    exact .bind (zeroValue t) fun v hv => .bind (zeroFields rest) fun fields hfields =>
      .pure (List.forall_mem_cons.2 ⟨hv, hfields⟩)

end

theorem instantiate (t : Ty) : Maintains (Heap.Apart L) (Heap.instantiate t)
    fun r => (Value.struct r).Apart L :=
  .bind (zeroFieldsOf t) fun _ hfields => newStruct hfields

theorem ofFields {fields : List (String × Value)} (h : ∀ p ∈ fields, p.2.Apart L) :
    Maintains (Heap.Apart L) (Heap.ofFields fields) fun r => (Value.struct r).Apart L :=
  .bind .get fun _ _ => newStruct h

theorem coerceScalar (h : Heap) (hv : v.Apart L) (k : Kind) :
    Ensures (h.coerceScalar v k) (Value.Apart L) := by
  unfold Heap.coerceScalar
  split
  · exact .ok hv
  · split
    · exact .ok (.plain rfl rfl)
    · exact hv.toScalar k

theorem ofKindOrNull (hv : v.Apart L) (k : Kind) :
    Ensures (Heap.ofKindOrNull v k) (Value.Apart L) := by
  unfold Heap.ofKindOrNull
  split
  · exact .ok hv
  · exact .error _

theorem coerceToKind (hv : v.Apart L) (k : Kind) :
    Upholds (Heap.Apart L) (Heap.coerceToKind v k) (Value.Apart L) := by
  unfold Heap.coerceToKind
  cases k with
  | byte | int32 | int | int64 | float32 | float64 | string | bool =>
    exact .bind .get fun h _ => .ofExcept (coerceScalar h hv _)
  | error =>
    dsimp only
    split
    · exact .pure hv
    · exact .pure hv
    · exact .bind .get fun _ _ => .pure (.plain rfl rfl)
  | array =>
    dsimp only
    split
    · exact .pure hv
    · exact .lift (newList nofun)
    · exact .lift (newList (by simpa using hv))
  | map | struct | pointer =>
    dsimp only
    split <;> first | exact .pure hv | exact .throw _
  | mutex | waitGroup | function | type | package | null => exact .ofExcept (ofKindOrNull hv _)
  | interface | undefined | channel | userDefined => exact .pure hv
  | _ => exact .throw _

theorem coerceUnwrapped (t : Ty) (hv : v.Apart L) :
    Upholds (Heap.Apart L) (Heap.coerceUnwrapped t v) (Value.Apart L) := by
  fun_induction Heap.coerceUnwrapped t v with
  | case1 v d k => exact coerceToKind hv k
  | case3 d e => exact .bind (.lift (newArray nofun)) fun _ hr => .pure hr
  | case4 v d e hnotarray hnotnull ih =>
    refine .bind (ih hv) fun w hw => .bind (.lift (newArray ?_)) fun _ hr => .pure hr
    intro u hu
    rw [Array.mem_singleton.1 hu]
    exact hw
  | case8 v d name package b ih =>
    refine .bind .get fun h _ => ?_
    split
    · exact .pure hv
    · exact ih hv
  | case2 => exact .pure hv
  | _ => exact coerceToKind hv _

theorem coerce (t : Ty) (hv : v.Apart L) :
    Upholds (Heap.Apart L) (Heap.coerce t v) (Value.Apart L) := coerceUnwrapped t hv.unwrapped

end Heap.Apart

/-! ### The world -/

/-- Objects and symbols are apart from the literals. -/
structure World.Apart (L : Literals) (w : World) : Prop where
  heap : w.heap.Apart L
  scopes : w.scopes.Apart L

namespace World.Apart

variable {α : Type} {P : α → Prop}

theorem onHeap {act : StateM Heap α} (h : Maintains (Heap.Apart L) act P) :
    Maintains (World.Apart L) (World.onHeap act) P :=
  fun w hw => ⟨⟨(h w.heap hw.heap).1, hw.scopes⟩, (h w.heap hw.heap).2⟩

theorem note (c : Category) (message : Unit → String) :
    Maintains (World.Apart L) (World.note c message) fun _ => True :=
  fun _ hw => ⟨⟨hw.heap, hw.scopes⟩, trivial⟩

theorem emit (c : Category) (message : String) :
    Maintains (World.Apart L) (World.emit c message) fun _ => True :=
  fun _ hw => ⟨⟨hw.heap, hw.scopes⟩, trivial⟩

theorem newChild (name : String) (parent : TableId) (boundary : Bool) :
    Maintains (World.Apart L) (World.newChild name parent boundary) fun _ => True :=
  fun _ hw => ⟨⟨hw.heap, hw.scopes.newChild name parent boundary⟩, trivial⟩

theorem remove (id : TableId) :
    Maintains (World.Apart L) (World.remove id) fun _ => True := by
  refine .bind .get fun w _ => .bind (.write fun w hw => ⟨hw.heap, hw.scopes.remove id⟩) fun _ _ => ?_
  split
  · exact note _ _
  · exact .pure trivial

theorem newChannel (capacity : Nat) :
    Maintains (World.Apart L) (World.newChannel capacity) fun _ => True :=
  .bind (onHeap (Heap.Apart.newChannel nofun)) fun _ _ => .bind (note _ _) fun _ _ => .pure trivial

theorem closeChannel (r : Ref .channel) :
    Maintains (World.Apart L) (World.closeChannel r) fun _ => True :=
  .bind .get fun _ hw => .bind (onHeap (Heap.Apart.putChannel (hw.heap.channel r))) fun _ _ =>
    .bind (note _ _) fun _ _ => .pure trivial

theorem assign (start : TableId) (name : String) (hv : v.Apart L) :
    Maintains (World.Apart L) (World.assign start name v) fun _ => True := by
  refine .bind .get fun w hw => ?_
  split
  · rename_i id scopes hset
    have hscopes : scopes.Apart L := hw.scopes.write (w := .set start name v) hv
      (by rw [Arena.write, hset]; rfl)
    exact .bind (.write fun w hw => ⟨hw.heap, hscopes⟩) fun _ _ => .bind (note _ _) fun _ _ =>
      .pure trivial
  · exact .pure trivial

end World.Apart

/-! ### Channels, locks and counters -/

namespace WorldAction

open World.Apart

variable {α : Type} {P : α → Prop}

/-- What library functions do: objects and symbols stay apart from the literals. -/
abbrev Upholds (L : Literals) (act : WorldAction α) (P : α → Prop) : Prop :=
  ScriptMachine.Upholds (World.Apart L) act P

namespace Upholds

theorem orFail {r : Except Fault α} (h : Ensures r P) : Upholds L (WorldAction.orFail r) P := by
  cases r with
  | ok a => exact .pure (h a rfl)
  | error f => exact .throw _

theorem heap : Upholds L WorldAction.heap (Heap.Apart L) :=
  .bind .get fun _ hw => .pure hw.heap

theorem onHeap {act : StateM Heap α} (h : Maintains (Heap.Apart L) act P) :
    Upholds L (WorldAction.onHeap act) P := .lift (World.Apart.onHeap h)

theorem onObjects {act : HeapM α} (h : ScriptMachine.Upholds (Heap.Apart L) act P) :
    Upholds L (WorldAction.onObjects act) P :=
  .bind (P := (Ensures · P)) (onHeap h) fun _ hr => orFail hr

theorem note (c : Category) (message : Unit → String) :
    Upholds L (onWorld (World.note c message)) fun _ => True := .lift (World.Apart.note c message)

theorem send (r : Ref .channel) (hv : v.Apart L) :
    Upholds L (WorldAction.send r v) fun _ => True := by
  refine .bind heap fun h hh => .bind (P := ChannelObject.Apart L) ?_ fun c hc =>
    .bind (note _ _) fun _ _ => onHeap (Heap.Apart.putChannel hc)
  cases hsend : (h.channel r).send v with
  | done c => exact .pure ((hh.channel r).send hv hsend)
  | refused => exact .throw _
  | wait => exact .throw _

theorem receive (r : Ref .channel) : Upholds L (WorldAction.receive r) (Value.Apart L) := by
  refine .bind heap fun h hh => .bind (P := fun p => p.1.Apart L ∧ p.2.Apart L) ?_ fun p hp =>
    .bind (onHeap (Heap.Apart.putChannel hp.2)) fun _ _ => .bind (note _ _) fun _ _ => .pure hp.1
  cases hreceive : (h.channel r).receive with
  | done p => exact .pure ((hh.channel r).receive hreceive)
  | refused => exact .throw _
  | wait => exact .throw _

theorem lock (r : Ref .mutex) : Upholds L (WorldAction.lock r) fun _ => True := by
  refine .bind heap fun h _ => ?_
  split
  · exact .bind (.throw _) fun _ (_ : True) => onHeap (Heap.Apart.putLocked r true)
  · exact onHeap (Heap.Apart.putLocked r true)

theorem unlock (r : Ref .mutex) : Upholds L (WorldAction.unlock r) fun _ => True :=
  .bind heap fun _ _ => .ite (onHeap (Heap.Apart.putLocked r false)) (.throw _)

theorem adjust (r : Ref .waitGroup) (delta : Int64) :
    Upholds L (WorldAction.adjust r delta) fun _ => True :=
  .bind heap fun _ _ => .bind (onHeap (Heap.Apart.putWaitCount r _)) fun _ _ => .ite (.throw _) (.pure trivial)

theorem awaitZero (r : Ref .waitGroup) : Upholds L (WorldAction.awaitZero r) fun _ => True :=
  .bind heap fun _ _ => .ite (.throw _) (.pure trivial)

/-! ### Library functions -/

/-- The fault of an argument or a container that does not suit. -/
theorem fail (f : Fault) : Upholds L (WorldAction.fail f : WorldAction α) P := .throw _

theorem arrayArg (hv : v.Apart L) :
    Upholds L (Native.arrayArg v) fun r => (Value.array r).Apart L := by
  have hunwrapped := hv.unwrapped
  unfold Native.arrayArg
  split
  · rename_i r hr
    rw [hr] at hunwrapped
    exact .pure hunwrapped
  · exact fail _

theorem stringArg (v : Value) : Upholds L (Native.stringArg v) fun _ => True := by
  unfold Native.stringArg
  split
  · exact .pure trivial
  · exact fail _

theorem elementsOf {h : Heap} (hh : h.Apart L) (hv : v.Apart L) :
    ∀ w ∈ Native.elementsOf h v, w.Apart L := by
  unfold Native.elementsOf
  split
  · exact fun w hw => hh.array hv w (Array.mem_toList_iff.1 hw)
  · simpa using hv

theorem lengthOf (h : Heap) (v : Value) : Ensures (Native.lengthOf h v) (Value.Apart L) := by
  unfold Native.lengthOf
  split <;> first | exact .ok (.ofNat _) | exact .error _

theorem appended {others : List Value} (hv : v.Apart L) (hothers : ∀ w ∈ others, w.Apart L) :
    Upholds L (Native.appended v others) (Value.Apart L) := by
  refine .bind heap fun h hh => ?_
  have hadded : ∀ w ∈ others.flatMap (Native.elementsOf h), w.Apart L := by
    intro w hw
    obtain ⟨u, hu, hmem⟩ := List.mem_flatMap.1 hw
    exact elementsOf hh (hothers u hu) w hmem
  have hbuilt : ∀ (element : Ty) (values : List Value), (∀ w ∈ values, w.Apart L) →
      Upholds L (do
        let r ← WorldAction.onHeap (Heap.newArray { element, values := #[] })
        for v in values ++ others.flatMap (Native.elementsOf h) do
          let v ← if element.isInterface then pure v
            else WorldAction.onObjects (Heap.coerce element v)
          WorldAction.onObjects (Heap.appendElement r v)
        return Value.array r) (Value.Apart L) := by
    intro element values hvalues
    refine .bind (onHeap (Heap.Apart.newArray nofun)) fun r hr =>
      .bind (.forIn fun w hw => ?_) fun _ _ => .pure hr
    have hwapart : w.Apart L := (List.mem_append.1 hw).elim (hvalues w) (hadded w)
    have happend : ∀ u : Value, u.Apart L → Upholds L (do
        WorldAction.onObjects (Heap.appendElement r u)
        pure (ForInStep.yield PUnit.unit)) fun _ => True := fun u hu =>
      .bind (onObjects (Heap.Apart.appendElement hr hu)) fun _ _ => .pure trivial
    split
    · exact .bind (.pure hwapart) happend
    · exact .bind (onObjects (Heap.Apart.coerce element hwapart)) happend
  dsimp only
  split
  · exact hbuilt _ _ fun w hw => hh.array hv w (Array.mem_toList_iff.1 hw)
  · exact hbuilt _ _ nofun
  · exact hbuilt _ _ (by simpa using hv)

theorem made (v : Value) (size : Nat) : Upholds L (Native.made v size) (Value.Apart L) := by
  unfold Native.made
  split
  · split
    · exact .bind (onHeap (Heap.Apart.zeroValue _)) fun _ hzero =>
        onHeap (Heap.Apart.filled _ _ hzero)
    · exact .bind (.lift (World.Apart.newChannel _)) fun _ _ => .pure (.plain rfl rfl)
    · exact onHeap (Heap.Apart.zeroValue _)
    · exact fail _
  · exact fail _

theorem closed (v : Value) : Upholds L (Native.closed v) (Value.Apart L) := by
  unfold Native.closed
  split
  · exact .bind (.lift (World.Apart.closeChannel _)) fun _ _ => .pure (.plain rfl rfl)
  · exact fail _

theorem deleted (hv : v.Apart L) (key : Value) :
    Upholds L (Native.deleted v key) (Value.Apart L) := by
  unfold Native.deleted
  split
  · exact .bind (onObjects (Heap.Apart.deleteEntry hv key)) fun _ _ => .pure (.plain rfl rfl)
  · exact .bind (orFail (.any _)) fun _ _ =>
      .bind (onObjects (Heap.Apart.deleteElement hv _)) fun _ _ => .pure (.plain rfl rfl)
  · exact fail _

theorem renewed (hv : v.Apart L) :
    Upholds L (WorldAction.onHeap (Native.renewed v)) (Value.Apart L) := by
  unfold Native.renewed
  split
  · exact onHeap (Heap.Apart.zeroValue _)
  · exact onHeap (Heap.Apart.copyStruct hv)
  · exact onHeap (Heap.Apart.deepCopy hv)

theorem sortedInts {r : Ref .array} (hr : (Value.array r).Apart L) :
    Upholds L (Native.sortedInts r) (Value.Apart L) := by
  refine .bind heap fun h hh => .bind (P := fun keyed => ∀ p ∈ keyed, p.2.Apart L) (orFail ?_)
    fun keyed hkeyed => .bind (onObjects (Heap.Apart.replaceElements hr ?_)) fun _ _ =>
      .pure (.plain rfl rfl)
  · refine .mapM fun w hw => .map fun _ => hh.array hr w (Array.mem_toList_iff.1 hw)
  · intro w hw
    simp only [List.mem_toArray, List.mem_map, List.mem_mergeSort] at hw
    obtain ⟨p, hp, rfl⟩ := hw
    exact hkeyed p hp

theorem sortedStrings {r : Ref .array} (hr : (Value.array r).Apart L) :
    Upholds L (Native.sortedStrings r) (Value.Apart L) := by
  refine .bind heap fun h hh => .bind (onObjects (Heap.Apart.replaceElements hr ?_)) fun _ _ =>
    .pure (.plain rfl rfl)
  intro w hw
  simp only [List.mem_toArray, List.mem_mergeSort, Array.mem_toList_iff] at hw
  exact hh.array hr w hw

theorem joined (r : Ref .array) (separator : String) :
    Upholds L (Native.joined r separator) (Value.Apart L) :=
  .bind heap fun _ _ => .pure (.plain rfl rfl)

theorem applyShared (f : Native) (this arg : Value) :
    Upholds L (Native.applyShared f this arg) (Value.Apart L) := by
  unfold Native.applyShared
  split
  · exact .bind (orFail (.any _)) fun _ _ => .bind (adjust _ _) fun _ _ => .pure (.plain rfl rfl)
  · exact .bind (adjust _ _) fun _ _ => .pure (.plain rfl rfl)
  · exact .bind (awaitZero _) fun _ _ => .pure (.plain rfl rfl)
  · exact .bind (lock _) fun _ _ => .pure (.plain rfl rfl)
  · exact .bind (unlock _) fun _ _ => .pure (.plain rfl rfl)
  · exact .bind (.lift (World.Apart.closeChannel _)) fun _ _ => .pure (.plain rfl rfl)
  · exact .bind heap fun _ _ => .pure (.ofNat _)
  · exact .bind heap fun _ _ => .pure (.plain rfl rfl)
  · exact fail _

theorem applyContainer (f : Native) (hv : v.Apart L) {args : List Value}
    (hargs : ∀ w ∈ args, w.Apart L) :
    Upholds L (Native.applyContainer f v args) (Value.Apart L) := by
  unfold Native.applyContainer
  split
  · exact .bind heap fun _ _ => .pure (.ofNat _)
  · refine .bind (P := fun _ => True)
      (.bind (.forIn fun w hw => ?_) fun _ _ => .pure trivial) fun _ _ => .pure hv
    exact .bind (onObjects (Heap.Apart.appendElement hv (hargs w hw))) fun _ _ => .pure trivial
  · refine .bind heap fun h hh => .bind (onHeap (Heap.Apart.newArray fun w hw => ?_)) fun _ hr =>
      .pure hr
    exact MapObject.Apart.keys _ w (by simpa using hw)
  · exact .bind heap fun _ _ => .pure (.ofNat _)
  · exact .pure (.plain rfl rfl)
  · exact fail _

theorem boundTo {receiver : Option Value} (h : ∀ v, receiver = some v → v.Apart L) :
    Upholds L (Native.boundTo receiver) (Value.Apart L) := by
  cases receiver with
  | some v => exact .pure (h v rfl).unwrapped
  | none => exact fail _

/-- **Library functions leave literals alone**, and their results are apart from them, if their
arguments and their receivers are. -/
theorem apply (f : Native) {receiver : Option Value} {args : List Value}
    (hreceiver : ∀ v, receiver = some v → v.Apart L) (hargs : ∀ v ∈ args, v.Apart L) :
    Upholds L (f.apply receiver args) (Value.Apart L) := by
  have harg : ∀ i : Nat, (args[i]?.getD .null).Apart L := by
    intro i
    cases hi : args[i]? with
    | none => exact .plain rfl rfl
    | some v => exact hargs v (List.mem_of_getElem? hi)
  have hfirst := (harg 0).unwrapped
  have hshared : ∀ arg, Upholds L (do
      Native.applyShared f (← Native.boundTo receiver) arg) (Value.Apart L) := fun arg =>
    .bind (boundTo hreceiver) fun this _ => applyShared f this arg
  have hcontainer : Upholds L (do Native.applyContainer f (← Native.boundTo receiver) args)
      (Value.Apart L) := .bind (boundTo hreceiver) fun this hthis => applyContainer f hthis hargs
  unfold Native.apply
  dsimp only
  split
  case h_1 => exact .bind heap fun h _ => orFail (lengthOf h _)
  case h_2 =>
    refine appended hfirst fun w hw => ?_
    obtain ⟨u, hu, rfl⟩ := List.mem_map.1 hw
    exact (hargs u (List.mem_of_mem_drop hu)).unwrapped
  case h_3 =>
    split
    · exact .bind (orFail (.any _)) fun _ _ => made _ _
    · exact .bind (.pure trivial) fun _ (_ : True) => made _ _
  case h_4 => exact closed _
  case h_5 => exact deleted hfirst _
  case h_6 => exact renewed hfirst
  case h_7 =>
    split
    · exact .pure (.plain rfl rfl)
    · exact .bind heap fun _ _ => .pure (.plain rfl rfl)
  case h_8 => exact .pure (.plain rfl rfl)
  case h_9 => exact .bind (arrayArg hfirst) fun _ hr => sortedInts hr
  case h_10 => exact .bind (arrayArg hfirst) fun _ hr => sortedStrings hr
  case h_11 => exact .bind (stringArg _) fun _ _ => .pure (.plain rfl rfl)
  case h_12 => exact .bind (stringArg _) fun _ _ => .pure (.plain rfl rfl)
  case h_13 =>
    exact .bind (arrayArg hfirst) fun _ _ => .bind (stringArg _) fun _ _ => joined _ _
  case h_14 | h_15 | h_16 | h_17 | h_18 | h_19 | h_20 | h_21 => exact hshared _
  all_goals exact hcontainer

end Upholds

end WorldAction

end ScriptMachine
