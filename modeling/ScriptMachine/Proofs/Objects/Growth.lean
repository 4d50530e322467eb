import ScriptMachine.Machine.Step
import ScriptMachine.Proofs.Action.Outcome
import ScriptMachine.Proofs.Literals.Copies
import ScriptMachine.Proofs.Objects.FailedUpdates

/-!
# New objects

What is made anew leaves the objects alone that are there: their types and all that they hold. That is
so of zero values, conversions and copies, and of instructions and calls that make a struct and then
write to it.

* `Heap.Knows`, `Heap.RetainsTypes`: what there is stays, with its type; `Grows.retainsTypes`.
* `Heap.Lacks`: a container that is not there yet.
* `Grows.zeroValue`, `Grows.coerce` and companions: one lemma for each computation.
* `Heap.run_deepCopy_struct`, `Heap.run_copyStruct`: what copies of a struct are.
* `Exec.Adds`: an action only adds objects; `Adds.construct`, `Adds.makeStruct`, `Adds.renew`.
-/

namespace ScriptMachine

namespace Heap

variable {h h' h'' g : Heap} {v : Value}

/-! ### Types of values -/

/-- The array, map or struct that a value refers to is there. -/
def Knows (h : Heap) (v : Value) : Prop :=
  match v.unwrapped with
  | .array r => r.id < h.arrays.size
  | .map r => r.id < h.maps.size
  | .struct r => r.id < h.structs.size
  | _ => True

/-- What there is stays, with its type. -/
def RetainsTypes (h h' : Heap) : Prop := ∀ v, h.Knows v → h'.Knows v ∧ h'.typeOf v = h.typeOf v

theorem RetainsTypes.refl (h : Heap) : h.RetainsTypes h := fun _ hv => ⟨hv, rfl⟩

theorem RetainsTypes.trans (hkeeps : h.RetainsTypes h') (hkeeps' : h'.RetainsTypes h'') :
    h.RetainsTypes h'' := fun v hv =>
  have hfirst := hkeeps v hv
  have hsecond := hkeeps' v hfirst.1
  ⟨hsecond.1, hsecond.2.trans hfirst.2⟩

/-- The type of a value is that of the object. -/
theorem typeOf_congr (harray : ∀ r, v.unwrapped = .array r → (h'.array r).element = (h.array r).element)
    (hmap : ∀ r, v.unwrapped = .map r → (h'.map r).keyType = (h.map r).keyType ∧
      (h'.map r).valueType = (h.map r).valueType)
    (hstruct : ∀ r, v.unwrapped = .struct r → (h'.struct r).type = (h.struct r).type) :
    h'.typeOf v = h.typeOf v := by
  unfold typeOf
  split
  · rename_i r hr
    rw [harray r hr]
  · rename_i r hr
    rw [(hmap r hr).1, (hmap r hr).2]
  · rename_i r hr
    exact hstruct r hr
  · rfl
  · rfl

namespace Grows

variable {α : Type} {xs ys : Array α} {i : Nat}

theorem getElem?_eq (hgrows : ∀ (i : Nat) (a : α), xs[i]? = some a → ys[i]? = some a)
    (hi : i < xs.size) : i < ys.size ∧ ys[i]? = xs[i]? := by
  have hget := hgrows i xs[i] (Array.getElem?_eq_getElem hi)
  exact ⟨(Array.getElem?_eq_some_iff.1 hget).1, hget.trans (Array.getElem?_eq_getElem hi).symm⟩

theorem array_eq (hgrows : h.Grows h') {r : Ref .array} (hr : r.id < h.arrays.size) :
    h'.array r = h.array r := by
  rw [Heap.array, (getElem?_eq hgrows.array hr).2, Heap.array]

theorem map_eq (hgrows : h.Grows h') {r : Ref .map} (hr : r.id < h.maps.size) :
    h'.map r = h.map r := by
  rw [Heap.map, (getElem?_eq hgrows.map hr).2, Heap.map]

theorem struct_eq (hgrows : h.Grows h') {r : Ref .struct} (hr : r.id < h.structs.size) :
    h'.struct r = h.struct r := by
  rw [Heap.struct, (getElem?_eq hgrows.struct hr).2, Heap.struct]

theorem size_le (hgrows : ∀ (i : Nat) (a : α), xs[i]? = some a → ys[i]? = some a) :
    xs.size ≤ ys.size := by
  by_contra hlt
  have hlast := (getElem?_eq hgrows (Nat.lt_of_not_le hlt)).1
  exact Nat.lt_irrefl _ hlast

/-- **New objects change no types.** -/
theorem retainsTypes (hgrows : h.Grows h') : h.RetainsTypes h' := by
  intro v hv
  unfold Knows at hv ⊢
  constructor
  · split at hv
    · exact (getElem?_eq hgrows.array hv).1
    · exact (getElem?_eq hgrows.map hv).1
    · exact (getElem?_eq hgrows.struct hv).1
    · trivial
  · refine typeOf_congr (fun r hr => ?_) (fun r hr => ?_) fun r hr => ?_
    · rw [hr] at hv
      rw [hgrows.array_eq hv]
    · rw [hr] at hv
      rw [hgrows.map_eq hv]
      exact ⟨rfl, rfl⟩
    · rw [hr] at hv
      rw [hgrows.struct_eq hv]

end Grows

/-- The objects with another struct in the place of one. -/
def withStruct (h : Heap) (r : Ref .struct) (s : StructObject) : Heap :=
  { h with structs := h.structs.setIfInBounds r.id s }

theorem struct_withStruct (h : Heap) (r : Ref .struct) (s : StructObject) (q : Ref .struct) :
    (h.withStruct r s).struct q = if q = r ∧ r.id < h.structs.size then s else h.struct q := by
  show ((h.structs.setIfInBounds r.id s)[q.id]?).getD _ = _
  rw [Array.getElem?_setIfInBounds]
  by_cases hq : q = r
  · subst hq
    by_cases hlt : q.id < h.structs.size
    · rw [if_pos rfl, if_pos hlt, if_pos ⟨rfl, hlt⟩]
      rfl
    · rw [if_pos rfl, if_neg hlt, if_neg fun hboth => hlt hboth.2, Heap.struct,
        Array.getElem?_eq_none (Nat.le_of_not_lt hlt)]
  · rw [if_neg fun hid => hq (by cases r; cases q; cases hid; rfl), if_neg fun hboth => hq hboth.1]
    rfl

theorem knows_withStruct (h : Heap) (r : Ref .struct) (s : StructObject) (v : Value) :
    (h.withStruct r s).Knows v ↔ h.Knows v := by
  unfold Knows
  rw [show (h.withStruct r s).structs.size = h.structs.size from Array.size_setIfInBounds]
  exact .rfl

/-- Another struct of the same type changes no types. -/
theorem typeOf_withStruct {r : Ref .struct} {s : StructObject} (htype : s.type = (h.struct r).type)
    (v : Value) : (h.withStruct r s).typeOf v = h.typeOf v := by
  refine typeOf_congr (fun _ _ => rfl) (fun _ _ => ⟨rfl, rfl⟩) fun q _ => ?_
  rw [struct_withStruct]
  split
  · rename_i hq
    rw [hq.1, htype]
  · rfl

/-! ### Computations that add objects -/

/-- A container is not among the objects. -/
def Lacks (h : Heap) : Value → Prop
  | .array r => h.arrays.size ≤ r.id
  | .map r => h.maps.size ≤ r.id
  | .struct r => h.structs.size ≤ r.id
  | _ => True

namespace Grows

variable {α : Type}

/-- Other stores may change. -/
theorem ofSame {act : StateM Heap α} (hsame : ∀ g : Heap, (act.run g).2.arrays = g.arrays ∧
    (act.run g).2.maps = g.maps ∧ (act.run g).2.structs = g.structs) :
    Maintains h.Grows act fun _ => True := by
  intro g hg
  obtain ⟨harrays, hmaps, hstructs⟩ := hsame g
  refine ⟨⟨?_, ?_, ?_⟩, trivial⟩
  · rw [harrays]
    exact hg.array
  · rw [hmaps]
    exact hg.map
  · rw [hstructs]
    exact hg.struct

theorem makeArray (a : ArrayObject) :
    Maintains h.Grows (Heap.newArray a) fun r => h.arrays.size ≤ r.id :=
  fun g hg => ⟨hg.trans (newArray g a), size_le hg.array⟩

theorem makeMap (m : MapObject) : Maintains h.Grows (Heap.newMap m) fun r => h.maps.size ≤ r.id :=
  fun g hg => ⟨hg.trans (newMap g m), size_le hg.map⟩

theorem makeStruct (s : StructObject) :
    Maintains h.Grows (Heap.newStruct s) fun r => h.structs.size ≤ r.id :=
  fun g hg => ⟨hg.trans (newStruct g s), size_le hg.struct⟩

theorem newInstance (t : Ty) (fields : List (String × Value)) :
    Maintains h.Grows (Heap.newInstance t fields) h.Lacks :=
  (makeStruct _).bind fun _ hr => .pure hr

theorem zeroOfKind (k : Kind) : Maintains h.Grows (Heap.zeroOfKind k) h.Lacks := by
  cases k with
  | array => exact (makeArray _).bind fun _ hr => .pure hr
  | map => exact (makeMap _).bind fun _ hr => .pure hr
  | mutex | waitGroup | type =>
    exact (ofSame fun _ => ⟨rfl, rfl, rfl⟩).bind fun _ _ => .pure trivial
  | _ => exact .pure trivial

mutual

/-- **Zero values** are new. -/
theorem zeroValue (t : Ty) : Maintains h.Grows (Heap.zeroValue t) h.Lacks := by
  match t with
  | .basic _ k =>
    cases k with
    | struct =>
      rw [Heap.zeroValue]
      exact newInstance _ _
    | _ =>
      rw [Heap.zeroValue]
      · exact zeroOfKind _
      · nofun
  | .array _ e =>
    rw [Heap.zeroValue]
    exact (makeArray _).bind fun _ hr => .pure hr
  | .pointer .. =>
    rw [Heap.zeroValue]
    exact .pure trivial
  | .map _ k v =>
    rw [Heap.zeroValue]
    exact (makeMap _).bind fun _ hr => .pure hr
  | .struct _ fs =>
    rw [Heap.zeroValue]
    exact (zeroFields fs).bind fun _ _ => newInstance _ _
  | .user _ _ _ b =>
    rw [Heap.zeroValue]
    split
    · exact (zeroFieldsOf b).bind fun _ _ => newInstance _ _
    · exact zeroValue b

theorem zeroFieldsOf (t : Ty) : Maintains h.Grows (Heap.zeroFieldsOf t) fun _ => True := by
  match t with
  | .struct _ fs =>
    rw [Heap.zeroFieldsOf]
    exact zeroFields fs
  | .user _ _ _ b =>
    rw [Heap.zeroFieldsOf]
    exact zeroFieldsOf b
  | .basic .. | .array .. | .pointer .. | .map .. => exact .pure trivial

theorem zeroFields (fs : List (String × Ty)) :
    Maintains h.Grows (Heap.zeroFields fs) fun _ => True := by
  match fs with
  | [] =>
    rw [Heap.zeroFields]
    exact .pure trivial
  | (name, t) :: rest =>
    rw [Heap.zeroFields]
    exact (zeroValue t).bind fun _ _ => (zeroFields rest).bind fun _ _ => .pure trivial

end

theorem instantiate (t : Ty) :
    Maintains h.Grows (Heap.instantiate t) fun r => h.structs.size ≤ r.id :=
  (zeroFieldsOf t).bind fun _ _ => makeStruct _

theorem ofFields (fields : List (String × Value)) :
    Maintains h.Grows (Heap.ofFields fields) fun r => h.structs.size ≤ r.id :=
  .bind .get fun _ _ => makeStruct _

theorem newList (values : List Value) : Maintains h.Grows (Heap.newList values) fun _ => True :=
  (makeArray _).bind fun _ _ => .pure trivial

theorem coerceToKind (v : Value) (k : Kind) :
    Upholds h.Grows (Heap.coerceToKind v k) fun _ => True := by
  unfold Heap.coerceToKind
  cases k with
  | byte | int32 | int | int64 | float32 | float64 | string | bool =>
    exact .bind .get fun _ _ => .ofExcept (.any _)
  | error =>
    dsimp only
    split
    · exact .pure trivial
    · exact .pure trivial
    · exact .bind .get fun _ _ => .pure trivial
  | array =>
    dsimp only
    split
    · exact .pure trivial
    · exact .lift (newList [])
    · exact .lift (newList [v])
  | map | struct | pointer =>
    dsimp only
    split <;> first | exact .pure trivial | exact .throw _
  | mutex | waitGroup | function | type | package | null => exact .ofExcept (.any _)
  | marker | frame | varArgs => exact .throw _
  | _ => exact .pure trivial

theorem coerceUnwrapped (t : Ty) (v : Value) :
    Upholds h.Grows (Heap.coerceUnwrapped t v) fun _ => True := by
  fun_induction Heap.coerceUnwrapped t v with
  | case1 v d k => exact coerceToKind v k
  | case3 d e => exact .bind (.lift (makeArray _)) fun _ _ => .pure trivial
  | case4 v d e hnotarray hnotnull ih =>
    exact .bind ih fun _ _ => .bind (.lift (makeArray _)) fun _ _ => .pure trivial
  | case8 v d name package b ih =>
    refine .bind .get fun g _ => ?_
    split
    · exact .pure trivial
    · exact ih
  | case2 => exact .pure trivial
  | _ => exact coerceToKind _ _

/-- **Conversions** leave alone what there is. -/
theorem coerce (t : Ty) (v : Value) : Upholds h.Grows (Heap.coerce t v) fun _ => True :=
  coerceUnwrapped t v.unwrapped

/-! ### Writes to what is new -/

theorem putStruct {r : Ref .struct} (hr : h.structs.size ≤ r.id) (s : StructObject) :
    Maintains h.Grows (Heap.putStruct r s) fun _ => True := by
  refine .write fun g hg => { hg with struct := fun i a ha => ?_ }
  show (g.structs.setIfInBounds r.id s)[i]? = some a
  have hi := (Array.getElem?_eq_some_iff.1 ha).1
  rw [Array.getElem?_setIfInBounds_ne (by omega)]
  exact hg.struct i a ha

theorem putMap {r : Ref .map} (hr : h.maps.size ≤ r.id) (m : MapObject) :
    Maintains h.Grows (Heap.putMap r m) fun _ => True := by
  refine .write fun g hg => { hg with map := fun i a ha => ?_ }
  show (g.maps.setIfInBounds r.id m)[i]? = some a
  have hi := (Array.getElem?_eq_some_iff.1 ha).1
  rw [Array.getElem?_setIfInBounds_ne (by omega)]
  exact hg.map i a ha

theorem setField {r : Ref .struct} (hr : h.structs.size ≤ r.id) (name : String) (v : Value) :
    Upholds h.Grows (Heap.setField r name v) fun _ => True :=
  .bind .get fun _ _ => .bind (.ofExcept (.any _)) fun s _ => .lift (putStruct hr s)

theorem setEntry {r : Ref .map} (hr : h.maps.size ≤ r.id) (key value : Value) :
    Upholds h.Grows (Heap.setEntry r key value) fun _ => True :=
  .bind .get fun _ _ => .bind (.ofExcept (.any _)) fun m _ => .lift (putMap hr m)

theorem mergeEntries {r : Ref .map} (hr : h.maps.size ≤ r.id) (source : Ref .map) :
    Upholds h.Grows (Heap.mergeEntries r source) fun _ => True := by
  unfold Heap.mergeEntries
  refine .ite (.pure trivial) (.bind .get fun g _ => .bind (.forIn fun key _ => ?_) fun _ _ =>
    .pure trivial)
  exact .bind (.ofExcept (.any _)) fun found _ =>
    .bind (setEntry hr key _) fun _ _ => .pure trivial

end Grows

/-! ### Copies -/

namespace Grows

/-- What is made one by one stays as it was made. -/
theorem mapM {f : Value → StateM Heap Value} {R : Value → Value → Heap → Prop} {vs : List Value}
    (hmono : ∀ {v w : Value} {g g' : Heap}, R v w g → g.Grows g' → R v w g')
    (hf : ∀ v ∈ vs, ∀ g, h.Grows g → g.Grows ((f v).run g).2 ∧ R v ((f v).run g).1 ((f v).run g).2)
    (hg : h.Grows g) : g.Grows ((vs.mapM f).run g).2 ∧
      List.Forall₂ (fun v w => R v w ((vs.mapM f).run g).2) vs ((vs.mapM f).run g).1 := by
  induction vs generalizing g with
  | nil => exact ⟨.refl g, .nil⟩
  | cons v vs ih =>
    obtain ⟨hfirst, hrel⟩ := hf v List.mem_cons_self g hg
    obtain ⟨hrest, hall⟩ := ih (fun w hw => hf w (List.mem_cons_of_mem v hw)) (hg.trans hfirst)
    rw [List.mapM_cons]
    exact ⟨hfirst.trans hrest, .cons (hmono hrel hrest) hall⟩

end Grows

/-- The value `w` in the objects `g` is of the type of the value `v` in the objects `h`, and is nil
with it. -/
def Resembles (h : Heap) (v w : Value) (g : Heap) : Prop :=
  w.isNull = v.isNull ∧ (h.Knows v → g.Knows w ∧ g.typeOf w = h.typeOf v)

namespace Resembles

theorem refl (hg : h.Grows g) (v : Value) : h.Resembles v v g := ⟨rfl, hg.retainsTypes v⟩

theorem mono (hv : h.Resembles v w g) (hkeeps : g.RetainsTypes h') : h.Resembles v w h' := by
  refine ⟨hv.1, fun hknown => ?_⟩
  obtain ⟨hw, htype⟩ := hv.2 hknown
  obtain ⟨hw', htype'⟩ := hkeeps w hw
  exact ⟨hw', htype'.trans htype⟩

theorem constant (hv : h.Resembles v w g) : h.Resembles (.constant v) (.constant w) g := hv

end Resembles

/-- The values that copies of some are, and the objects after them. -/
def copyAll (depth : Nat) (vs : List Value) (g : Heap) : List Value × Heap :=
  (vs.mapM (copyWithin depth)).run g

theorem grows_copyAll (depth : Nat) (vs : List Value) (g : Heap) :
    g.Grows (copyAll depth vs g).2 :=
  (Grows.mapM (R := fun _ _ _ => True) (fun _ _ => trivial)
    (fun v _ g' _ => ⟨Grows.copyWithin depth v g', trivial⟩) (.refl g)).1

/-- **A copy of an array** is a new one that holds copies. -/
theorem copyWithin_array (depth : Nat) (r : Ref .array) (g : Heap) :
    ∃ q g', (copyWithin (depth + 1) (.array r)).run g = (.array q, g') ∧
      (copyAll depth (g.array r).values.toList g).2.Grows g' ∧
      g.arrays.size ≤ q.id ∧ g'.Knows (.array q) ∧
      g'.array q = { element := (g.array r).element
                     values := (copyAll depth (g.array r).values.toList g).1.toArray } := by
  have hrun : (copyWithin (depth + 1) (.array r)).run g = (do
      let values ← (g.array r).values.mapM (copyWithin depth)
      return .array (← newArray { element := (g.array r).element, values }) :
        StateM Heap Value).run g := rfl
  rw [Array.mapM_eq_mapM_toList] at hrun
  refine ⟨_, _, hrun, Grows.newArray _ _, Grows.size_le (grows_copyAll _ _ g).array, ?_, ?_⟩
  · show _ < (Array.push _ _).size
    rw [Array.size_push]
    exact Nat.lt_succ_self _
  · show ((Array.push _ _)[_]?).getD _ = _
    rw [Array.getElem?_push_size]
    rfl

/-- **A copy of a map** is a new one with the keys of the map, bound to copies. -/
theorem copyWithin_map (depth : Nat) (r : Ref .map) (g : Heap) :
    ∃ q g', (copyWithin (depth + 1) (.map r)).run g = (.map q, g') ∧
      (copyAll depth ((g.map r).entries.map (·.2)) g).2.Grows g' ∧
      g.maps.size ≤ q.id ∧ g'.Knows (.map q) ∧
      g'.map q = { keyType := (g.map r).keyType, valueType := (g.map r).valueType
                   entries := ((g.map r).entries.map (·.1)).zip
                     (copyAll depth ((g.map r).entries.map (·.2)) g).1 } := by
  have hrun : (copyWithin (depth + 1) (.map r)).run g = (do
      let entries ← (g.map r).entries.mapM fun p => return (p.1, ← copyWithin depth p.2)
      return .map (← newMap
        { keyType := (g.map r).keyType, valueType := (g.map r).valueType, entries }) :
        StateM Heap Value).run g := rfl
  rw [StateT.run_bind, run_mapM_pairs] at hrun
  refine ⟨_, _, hrun, Grows.newMap _ _, Grows.size_le (grows_copyAll _ _ g).map, ?_, ?_⟩
  · show _ < (Array.push _ _).size
    rw [Array.size_push]
    exact Nat.lt_succ_self _
  · show ((Array.push _ _)[_]?).getD _ = _
    rw [Array.getElem?_push_size]
    rfl

/-- **A copy of a struct** is a new one with its type, its flags and the names of its fields. -/
theorem copyWithin_struct (depth : Nat) (r : Ref .struct) (g : Heap) :
    ∃ q g', (copyWithin (depth + 1) (.struct r)).run g = (.struct q, g') ∧
      (copyAll depth ((g.struct r).fields.map (·.2)) g).2.Grows g' ∧
      g.structs.size ≤ q.id ∧ g'.Knows (.struct q) ∧
      g'.struct q = { g.struct r with
                      fields := ((g.struct r).fields.map (·.1)).zip
                        (copyAll depth ((g.struct r).fields.map (·.2)) g).1 } := by
  have hrun : (copyWithin (depth + 1) (.struct r)).run g = (do
      let fields ← (g.struct r).fields.mapM fun p => return (p.1, ← copyWithin depth p.2)
      return .struct (← newStruct { g.struct r with fields }) : StateM Heap Value).run g := rfl
  rw [StateT.run_bind, run_mapM_pairs] at hrun
  refine ⟨_, _, hrun, Grows.newStruct _ _, Grows.size_le (grows_copyAll _ _ g).struct, ?_, ?_⟩
  · show _ < (Array.push _ _).size
    rw [Array.size_push]
    exact Nat.lt_succ_self _
  · show ((Array.push _ _)[_]?).getD _ = _
    rw [Array.getElem?_push_size]
    rfl

/-- **Copies are of the type of what is copied.** -/
theorem resembles_copyWithin (hg : h.Grows g) (depth : Nat) (v : Value) :
    h.Resembles v ((copyWithin depth v).run g).1 ((copyWithin depth v).run g).2 := by
  cases depth with
  | zero => exact .refl hg v
  | succ depth =>
    unfold copyWithin
    fun_induction underConstants _ v with
    | case1 v ih => exact ih.constant
    | case2 u =>
      split
      · rename_i r _
        show h.Resembles (.array r) ((Heap.copyWithin (depth + 1) (.array r)).run g).1
          ((Heap.copyWithin (depth + 1) (.array r)).run g).2
        obtain ⟨q, g', hrun, -, -, hknown, hq⟩ := copyWithin_array depth r g
        rw [hrun]
        refine ⟨rfl, fun hr => ⟨hknown, ?_⟩⟩
        show Ty.array none (g'.array q).element = .array none (h.array r).element
        rw [hq, hg.array_eq hr]
      · rename_i r _
        show h.Resembles (.map r) ((Heap.copyWithin (depth + 1) (.map r)).run g).1
          ((Heap.copyWithin (depth + 1) (.map r)).run g).2
        obtain ⟨q, g', hrun, -, -, hknown, hq⟩ := copyWithin_map depth r g
        rw [hrun]
        refine ⟨rfl, fun hr => ⟨hknown, ?_⟩⟩
        show Ty.map none (g'.map q).keyType (g'.map q).valueType
          = .map none (h.map r).keyType (h.map r).valueType
        rw [hq, hg.map_eq hr]
      · rename_i r _
        show h.Resembles (.struct r) ((Heap.copyWithin (depth + 1) (.struct r)).run g).1
          ((Heap.copyWithin (depth + 1) (.struct r)).run g).2
        obtain ⟨q, g', hrun, -, -, hknown, hq⟩ := copyWithin_struct depth r g
        rw [hrun]
        refine ⟨rfl, fun hr => ⟨hknown, ?_⟩⟩
        show (g'.struct q).type = (h.struct r).type
        rw [hq, hg.struct_eq hr]
      · exact .refl hg _

/-- Copies of several values are of their types. -/
theorem resembles_copyAll (depth : Nat) (vs : List Value) (h : Heap) :
    List.Forall₂ (fun v w => h.Resembles v w (copyAll depth vs h).2) vs (copyAll depth vs h).1 :=
  (Grows.mapM (R := fun v w g => h.Resembles v w g) (fun hv hgrows => hv.mono hgrows.retainsTypes)
    (fun v _ g hg => ⟨Grows.copyWithin depth v g, resembles_copyWithin hg depth v⟩) (.refl h)).2

/-- The pairs of two lists of pairs have the same first parts, and the second parts of the second list
resemble those of the first. -/
def PairsResemble {κ : Type} (h : Heap) (ps qs : List (κ × Value)) (g : Heap) : Prop :=
  List.Forall₂ (fun p q => q.1 = p.1 ∧ h.Resembles p.2 q.2 g) ps qs

theorem pairsResemble_zip {κ : Type} {ps : List (κ × Value)} {ws : List Value}
    (hall : List.Forall₂ (fun v w => h.Resembles v w g) (ps.map (·.2)) ws) :
    h.PairsResemble ps ((ps.map (·.1)).zip ws) g := by
  induction ps generalizing ws with
  | nil => exact .nil
  | cons p ps ih =>
    cases hall with
    | cons hfirst hrest => exact .cons ⟨rfl, hfirst⟩ (ih hrest)

/-- **A deep copy of a struct** is a new one with its type and its flags, whose fields have the same
names and hold values of the same types. Nothing else has changed. -/
theorem run_deepCopy_struct (r : Ref .struct) (h : Heap) :
    ∃ c h' fields, (deepCopy (.struct r)).run h = (.struct c, h') ∧ h.Grows h' ∧
      h.structs.size ≤ c.id ∧ h'.Knows (.struct c) ∧
      h'.struct c = { h.struct r with fields } ∧ h.PairsResemble (h.struct r).fields fields h' := by
  have hrun : (deepCopy (.struct r)).run h = (copyWithin h.depth (.struct r)).run h := rfl
  obtain ⟨c, h', hcopy, hgrows, hfresh, hknown, hc⟩ := copyWithin_struct
    (h.arrays.size + h.maps.size + h.structs.size) r h
  refine ⟨c, h', _, hrun.trans hcopy, (grows_copyAll _ _ h).trans hgrows, hfresh, hknown, hc, ?_⟩
  exact pairsResemble_zip ((resembles_copyAll _ _ h).imp fun v w hv => hv.mono hgrows.retainsTypes)

namespace Grows

theorem deepCopy (v : Value) : Maintains h.Grows (Heap.deepCopy v) fun _ => True :=
  fun g hg => ⟨hg.trans (copyWithin _ v g), trivial⟩

theorem copyStruct (r : Ref .struct) : Maintains h.Grows (Heap.copyStruct r) fun _ => True := by
  have hnew : Maintains h.Grows (Heap.deepCopy (.struct r))
      fun w => ∃ c : Ref .struct, w = .struct c ∧ h.structs.size ≤ c.id := by
    intro g hg
    obtain ⟨c, g', fields, hrun, hgrows, hfresh, -⟩ := run_deepCopy_struct r g
    rw [hrun]
    exact ⟨hg.trans hgrows, c, rfl, (size_le hg.struct).trans hfresh⟩
  refine .bind hnew fun w hw => ?_
  obtain ⟨c, rfl, hc⟩ := hw
  exact .bind .get fun _ _ => .bind .get fun _ _ => .bind (putStruct hc _) fun _ _ => .pure trivial

/-- **What `new` makes** leaves alone what there is. -/
theorem renewed (v : Value) : Maintains h.Grows (Native.renewed v) fun _ => True := by
  unfold Native.renewed
  split
  · exact (zeroValue _).imp fun _ _ => trivial
  · exact copyStruct _
  · exact deepCopy _

end Grows

end Heap

/-! ### Actions that add objects -/

namespace Exec

variable {α β : Type} {h : Heap} {P : α → Prop}

/-- An action only adds to the objects `h`, whether it succeeds or not, and its result satisfies `P`. -/
abbrev Adds (h : Heap) (act : Exec α) (P : α → Prop) : Prop :=
  ScriptMachine.Upholds (fun m : Machine => h.Grows m.world.heap) act P

namespace Adds

theorem onHeap {act : StateM Heap α} (hact : Maintains h.Grows act P) :
    Adds h (Exec.onHeap act) P := fun m hm =>
  ⟨(hact m.world.heap hm).1, .ok (hact m.world.heap hm).2⟩

theorem onObjects {act : HeapM α} (hact : ScriptMachine.Upholds h.Grows act P) :
    Adds h (Exec.onObjects act) P := by
  refine .bind (onHeap hact) fun r hr => ?_
  cases r with
  | ok a => exact .pure (hr a rfl)
  | error f => exact .throw _

/-- An action that has nothing to do with the world. -/
theorem beside {act : Exec α} (hact : Keeps Machine.SameWorld act) :
    Adds h act fun _ => True := fun m hm => by
  have hworld : (act.run.run m).2.world = m.world := hact m
  refine ⟨?_, .any _⟩
  show h.Grows (act.run.run m).2.world.heap
  rw [hworld]
  exact hm

theorem push (v : Value) : Adds h (Exec.push v) fun _ => True := beside fun _ => rfl

theorem operandCount (operand : Value) (default : Nat) :
    Adds h (Exec.operandCount operand default) fun _ => True :=
  .ite (.pure trivial) (beside (.lift _))

theorem popArgs (count : Nat) : Adds h (Exec.popArgs count) fun _ => True := by
  refine .bind (beside .context) fun c _ => .ite (.throw _) ?_
  exact .bind (beside fun _ => rfl) fun _ _ => .ite (.throw _) (.pure trivial)

theorem resolveType (v : Value) : Adds h (Exec.resolveType v) fun _ => True := by
  unfold Exec.resolveType
  split
  · exact .pure trivial
  · refine .bind (beside fun _ => rfl) fun found _ => ?_
    split
    · exact .pure trivial
    · exact .throw _
  · exact .throw _

/-! ### Construction -/

/-- The fields of a new struct are written. -/
theorem setFields {r : Ref .struct} (hr : h.structs.size ≤ r.id) (fields : List (String × Value)) :
    Adds h (Exec.setFields r fields) fun _ => True :=
  .bind (.forIn fun p _ => .bind (onObjects (Heap.Grows.setField hr p.1 p.2)) fun _ _ => .pure trivial)
    fun _ _ => .pure trivial

theorem setFieldsFrom {r : Ref .struct} (hr : h.structs.size ≤ r.id) (source : MapObject) :
    Adds h (Exec.setFieldsFrom r source) fun _ => True := by
  refine .bind (.forIn fun key _ => ?_) fun _ _ => .pure trivial
  exact .bind (beside (.lift _)) fun found _ => .bind (beside .heap) fun g _ =>
    .bind (onObjects (Heap.Grows.setField hr _ _)) fun _ _ => .pure trivial

/-- What is new is written to, and everything else is left alone. -/
theorem initialised (t : Ty) {fresh : Value} (hfresh : h.Lacks fresh) (init : Value) :
    Adds h (Exec.initialised t fresh init) fun _ => True := by
  unfold Exec.initialised
  split
  · exact .bind (beside .heap) fun g _ => .bind (setFieldsFrom hfresh _) fun _ _ => .pure trivial
  · exact .bind (beside .heap) fun g _ => .bind (setFields hfresh _) fun _ _ => .pure trivial
  · exact .bind (onObjects (Heap.Grows.mergeEntries hfresh _)) fun _ _ => .pure trivial
  · exact onObjects (Heap.Grows.coerce t _)

/-- **A call of a type** leaves alone what there is. -/
theorem construct (t : Ty) (args : List Value) : Adds h (Exec.construct t args) fun _ => True := by
  refine .bind (onHeap (Heap.Grows.zeroValue t)) fun fresh hfresh => ?_
  split
  · exact push _
  · exact .bind (initialised t hfresh _) fun v _ => push v
  · exact .throw _

theorem typedStruct (t : Ty) (fields : List (String × Value)) :
    Adds h (Exec.typedStruct t fields) fun r => h.structs.size ≤ r.id := by
  unfold Exec.typedStruct
  refine .ite (.throw _) (.bind (onHeap (Heap.Grows.instantiate t)) fun r hr =>
    .bind (beside .context) fun c _ => .bind (beside .heap) fun g _ =>
    .bind (onHeap (Heap.Grows.putStruct hr _)) fun _ _ => ?_)
  exact .bind (.forIn fun p _ => .bind (onObjects (Heap.Grows.setField hr p.1 p.2)) fun _ _ =>
    .pure trivial) fun _ _ => .pure hr

/-- **The instruction that makes a struct** leaves alone what there is. -/
theorem makeStruct (operand : Value) : Adds h (Exec.makeStruct operand) fun _ => True := by
  refine .bind (operandCount operand 0) fun _ _ => .bind (popArgs _) fun _ _ =>
    .bind (beside .heap) fun _ _ => ?_
  dsimp only
  split
  · exact .bind (resolveType _) fun t _ => .bind (typedStruct t _) fun r hr =>
      .bind (beside .heap) fun g _ => .bind (onHeap (Heap.Grows.putStruct hr _)) fun _ _ => push _
  · exact .bind (onHeap (Heap.Grows.ofFields _)) fun r hr =>
      .bind (beside .heap) fun g _ => .bind (onHeap (Heap.Grows.putStruct hr _)) fun _ _ => push _

/-- **A call of `new`** leaves alone what there is. -/
theorem renew (receiver : Option Value) (args : List Value) :
    Adds h (Exec.callNative .new receiver args) fun _ => True := by
  unfold Exec.callNative
  refine .ite (.throw _) ?_
  rw [if_neg (by decide)]
  refine .bind (P := fun _ => True) (fun m hm => ?_) fun result _ => ?_
  · exact ⟨(Heap.Grows.renewed _ m.world.heap hm).1, .any _⟩
  · split
    · exact push _
    · refine fun m hm => ⟨?_, .any _⟩
      show h.Grows (objectsAfter (settleLibraryFault _ _) m)
      rw [objectsAfter_settleLibraryFault]
      exact hm
    · exact .throw _

end Adds

end Exec

end ScriptMachine
