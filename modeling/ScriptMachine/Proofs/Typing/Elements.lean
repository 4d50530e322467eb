import ScriptMachine.Heap.Coercion
import ScriptMachine.Proofs.Action.Invariants
import ScriptMachine.Proofs.Objects.Keys
import ScriptMachine.Proofs.Objects.Sparing

/-!
# Elements of typed arrays

Which values an array of some element type holds, as far as kinds tell. Conversion to a type gives
nil or a value of a kind that the type admits, and so do zero values; copies are of the kind of what
is copied. So computations on objects keep arrays, and the keys of maps, to their types.

* `Ty.admits`, `Value.Belongs`: what conversion to a type gives.
* `Heap.Typed`: elements belong in their arrays and keys in their maps, and structs are of struct
  types.
* `StructsTyped.belongs_of_accepts`: what an element type accepts belongs.
* `Typed.setElement`, `Typed.deepCopy`, `Typed.coerce` and companions: one lemma for each
  computation.
-/

namespace ScriptMachine

/-! ### What belongs in an array -/

/-- Whether conversion to the first kind gives values of the second one: that is so of one and the
same kind, of maps in place of structs, and of anything in place of the open kinds. -/
def Kind.admits (k k' : Kind) : Bool :=
  match k with
  | .interface | .undefined | .channel | .userDefined => true
  | .struct => k' == .struct || k' == .map
  | _ => k' == k

/-- Whether conversion to a type gives values of a kind. Conversion to a user type lets through the
structs of that type, and otherwise converts to its base. -/
def Ty.admits (t : Ty) (k : Kind) : Bool :=
  t.base.kind.admits k || (t.kind == .userDefined && k == .struct)

/-- A value may be an element of an array: it is nil or of a kind that the element type admits. -/
def Value.Belongs (v : Value) (t : Ty) : Prop := v.isNull = true ∨ t.admits v.kind = true

def ArrayObject.Typed (a : ArrayObject) : Prop := ∀ v ∈ a.values, v.Belongs a.element

/-- The values that stand for the keys are of the key type. -/
def MapObject.Typed (m : MapObject) : Prop :=
  ∀ k ∈ m.entries.map (·.1), (k.toValue m.keyType).Belongs m.keyType

def StructObject.Typed (s : StructObject) : Prop :=
  s.type.kind = .struct ∨ s.type.kind = .userDefined

/-- Structs are of struct types or user types. -/
def Heap.StructsTyped (h : Heap) : Prop := ∀ s ∈ h.structs, s.Typed

/-- Arrays hold what belongs in them, maps have keys of their key types, and structs are of struct
types or user types. -/
structure Heap.Typed (h : Heap) : Prop where
  arrays : ∀ a ∈ h.arrays, a.Typed
  maps : ∀ m ∈ h.maps, m.Typed
  structs : h.StructsTyped

variable {v w : Value} {t : Ty} {k : Kind}

/-! ### Kinds -/

/-- Nil is what has the kind of nil. -/
theorem Value.isNull_iff : v.isNull = true ↔ v.kind = .null := by
  unfold isNull kind
  cases hu : v.unwrapped with
  | constant w => exact absurd hu (Key.unwrapped_ne_constant v w)
  | _ => simp

theorem Ty.kind_eq_of_accepts {a b : Ty} (h : a.accepts b = true) :
    a.isInterface = true ∨ b.isInterface = true ∨ a.kind = b.kind := by
  unfold accepts at h
  split at h
  · rename_i hopen
    exact (Bool.or_eq_true_iff.1 hopen).imp_right .inl
  · split at h
    · cases h
    · rename_i hsame
      exact .inr (.inr (by simpa using hsame))

theorem Kind.admits_self (k : Kind) : k.admits k = true := by cases k <;> rfl

/-- Values of user types are of the kinds of their bases. -/
theorem Value.kind_ne_userDefined (v : Value) : v.kind ≠ .userDefined := by
  unfold kind
  split <;> nofun

namespace Value.Belongs

theorem null : Value.null.Belongs t := .inl rfl

theorem of_admits (h : v.isNull = true ∨ t.base.kind.admits v.kind = true) : v.Belongs t :=
  h.imp_right fun hadmits => Bool.or_eq_true_iff.2 (.inl hadmits)

theorem of_kind (h : v.kind = t.kind) : v.Belongs t := by
  refine of_admits (.inr ?_)
  cases t with
  | user => exact absurd h v.kind_ne_userDefined
  | _ =>
    rw [h]
    exact Kind.admits_self _

theorem of_null_or_kind (h : v.isNull = true ∨ v.kind = t.kind) : v.Belongs t :=
  h.elim .inl of_kind

/-- A struct may be one of a user type. -/
theorem of_struct (h : v.kind = .struct) (ht : t.kind = .userDefined) : v.Belongs t := by
  refine .inr (Bool.or_eq_true_iff.2 (.inr ?_))
  rw [h, ht]
  rfl

/-- What belongs in arrays of the base belongs in arrays of a user type. -/
theorem of_base {d : Decl} {name : String} {package : Option String} (h : v.Belongs t) :
    v.Belongs (.user d name package t) := by
  refine h.elim .inl fun hadmits => ?_
  rcases Bool.or_eq_true_iff.1 hadmits with hbase | hstruct
  · exact of_admits (.inr hbase)
  · exact of_struct (eq_of_beq (Bool.and_eq_true_iff.1 hstruct).2) rfl

theorem of_isInterface (h : t.isInterface = true) : v.Belongs t := by
  refine of_admits (.inr ?_)
  have hkind : t.kind = .interface := eq_of_beq h
  cases t with
  | basic d k =>
    obtain rfl : k = .interface := hkind
    rfl
  | _ => cases hkind

theorem congr_kind (h : v.Belongs t) (hkind : w.kind = v.kind) : w.Belongs t := by
  rw [Belongs, isNull_iff, hkind, ← isNull_iff]
  exact h

end Value.Belongs

/-- A conversion to a scalar kind gives a value of that kind. -/
theorem Value.kind_toScalar (v : Value) (k : Kind) : Ensures (v.toScalar k) (·.kind = k) := by
  have hnumber : ∀ u : Value, Ensures (u.toNumber k) (·.kind = k) := by
    intro u
    unfold toNumber
    split
    · exact .map fun _ => rfl
    · exact .map fun _ => rfl
    · exact .map fun _ => rfl
    · exact .map fun _ => rfl
    · exact .map fun _ => rfl
    · exact .map fun _ => rfl
    · exact .error _
  have hbool : Ensures v.toBool (·.kind = .bool) := by
    unfold toBool
    dsimp only
    split
    · exact .ite (.ok rfl) (.ite (.ok rfl) (.error _))
    · exact .ite (.ok rfl) (.error _)
  unfold toScalar
  split
  · rename_i hkind
    exact .ok hkind
  · split
    · rename_i hk
      rw [hk]
      exact hbool
    · split
      · exact hnumber _
      · refine .ite ?_ (hnumber _)
        split
        · exact hnumber _
        · exact .error _
      · exact .ite (hnumber _) (.error _)

/-! ### What objects hold -/

namespace Heap.StructsTyped

variable {h : Heap}

theorem struct (hs : h.StructsTyped) (r : Ref .struct) : (h.struct r).Typed := by
  unfold Heap.struct
  cases hr : h.structs[r.id]? with
  | none => exact .inl rfl
  | some s => exact hs s (Array.mem_of_getElem? hr)

/-- The type of a value has its kind, but for structs of user types. -/
theorem kind_typeOf (hs : h.StructsTyped) (v : Value) :
    (h.typeOf v).kind = v.kind ∨ v.kind = .struct ∧ (h.typeOf v).kind = .userDefined := by
  unfold Heap.typeOf Value.kind
  cases hu : v.unwrapped with
  | constant w => exact absurd hu (Key.unwrapped_ne_constant v w)
  | struct r => exact (hs.struct r).imp_right fun huser => ⟨rfl, huser⟩
  | _ => exact .inl rfl

theorem not_isInterface_typeOf (hs : h.StructsTyped) (v : Value) :
    (h.typeOf v).isInterface = false := by
  have hne : (h.typeOf v).kind ≠ .interface := by
    rcases hs.kind_typeOf v with hkind | ⟨-, hkind⟩
    · rw [hkind]
      unfold Value.kind
      split <;> nofun
    · rw [hkind]
      nofun
  simpa [Ty.isInterface] using hne

/-- **What a type accepts belongs.** -/
theorem belongs_of_accepts (hs : h.StructsTyped) (haccepts : t.accepts (h.typeOf v) = true) :
    v.Belongs t := by
  rcases Ty.kind_eq_of_accepts haccepts with hopen | hopen | hkind
  · exact .of_isInterface hopen
  · rw [hs.not_isInterface_typeOf] at hopen
    cases hopen
  · rcases hs.kind_typeOf v with hsame | ⟨hstruct, huser⟩
    · exact .of_kind (hsame.symm.trans hkind.symm)
    · exact .of_struct hstruct (hkind.trans huser)

end Heap.StructsTyped

namespace Heap.Typed

variable {h : Heap}

theorem array (hh : h.Typed) (r : Ref .array) : (h.array r).Typed := by
  unfold Heap.array
  cases hr : h.arrays[r.id]? with
  | none => exact fun _ hv => absurd hv (Array.not_mem_empty _)
  | some a => exact hh.arrays a (Array.mem_of_getElem? hr)

theorem map (hh : h.Typed) (r : Ref .map) : (h.map r).Typed := by
  unfold Heap.map
  cases hr : h.maps[r.id]? with
  | none => exact fun _ hk => absurd hk List.not_mem_nil
  | some m => exact hh.maps m (Array.mem_of_getElem? hr)

theorem struct (hh : h.Typed) (r : Ref .struct) : (h.struct r).Typed := hh.structs.struct r

theorem belongs_of_accepts (hh : h.Typed) (haccepts : t.accepts (h.typeOf v) = true) :
    v.Belongs t := hh.structs.belongs_of_accepts haccepts

/-- A value belongs in arrays of its own type. -/
theorem belongs_typeOf (hh : h.Typed) (v : Value) : v.Belongs (h.typeOf v) :=
  hh.belongs_of_accepts (Ty.accepts_refl _)

end Heap.Typed

/-! ### Updates of objects -/

namespace ArrayObject.Typed

variable {a : ArrayObject} {h : Heap}

theorem empty (t : Ty) : ({ element := t, values := #[] } : ArrayObject).Typed :=
  fun _ hv => absurd hv (Array.not_mem_empty _)

/-- Any values may be the elements of an array that is open to all. -/
theorem ofInterface (values : Array Value) (freezes : Nat) :
    (⟨.interface, values, freezes⟩ : ArrayObject).Typed := fun _ _ => .of_isInterface rfl

/-- A part of the elements. -/
theorem congr {b : ArrayObject} (ha : a.Typed) (htype : b.element = a.element)
    (hvalues : ∀ v ∈ b.values, v ∈ a.values) : b.Typed := fun v hv => by
  rw [htype]
  exact ha v (hvalues v hv)

/-- A value that was checked belongs. -/
theorem checkElement (hh : h.Typed) (a : ArrayObject) (v : Value) :
    Ensures (a.checkElement v (h.typeOf v)) fun _ => v.Belongs a.element := by
  unfold ArrayObject.checkElement
  split
  · rename_i hchecked
    refine .ok ?_
    rcases Bool.or_eq_true_iff.1 hchecked with hopen | haccepts
    · rcases Bool.or_eq_true_iff.1 hopen with hopen | hnull
      · exact .of_isInterface hopen
      · exact .inl hnull
    · exact hh.belongs_of_accepts haccepts
  · exact .error _

theorem set (ha : a.Typed) (hh : h.Typed) (index : Nat) (v : Value) :
    Ensures (a.set index v (h.typeOf v)) ArrayObject.Typed := by
  refine .bind (.any _) fun _ _ => .bind (checkElement hh a v) fun _ hv => ?_
  split
  · refine .ok fun w hw => ?_
    rcases Array.mem_or_eq_of_mem_setIfInBounds hw with hw | rfl
    · exact ha w hw
    · exact hv
  · exact .error _

theorem append (ha : a.Typed) (hh : h.Typed) (v : Value) :
    Ensures (a.append v (h.typeOf v)) ArrayObject.Typed := by
  refine .bind (.any _) fun _ _ => .bind (checkElement hh a v) fun _ hv => .ok fun w hw => ?_
  rcases Array.mem_push.1 hw with hw | rfl
  · exact ha w hw
  · exact hv

theorem delete (ha : a.Typed) (index : Nat) : Ensures (a.delete index) fun p => p.2.Typed := by
  refine .bind (.any _) fun _ _ => ?_
  split
  · refine .ok (ha.congr rfl fun w hw => ?_)
    simp only [Array.eraseIdxIfInBounds] at hw
    split at hw
    · exact Array.mem_of_mem_eraseIdx hw
    · exact hw
  · exact .error _

theorem slice (ha : a.Typed) (start stop : Nat) :
    Ensures (a.slice start stop) ArrayObject.Typed := by
  unfold ArrayObject.slice
  split
  · exact .ok (ha.congr rfl fun w hw => mem_of_mem_extract hw)
  · exact .error _

theorem reversed (ha : a.Typed) : a.reversed.Typed :=
  ha.congr rfl fun w hw => by simpa [ArrayObject.reversed] using hw

theorem freeze (ha : a.Typed) (on : Bool) : (a.freeze on).Typed := ha.congr rfl fun _ hw => hw

end ArrayObject.Typed

/-- A key taken from a value of the kind of the key type stands for such a value. -/
theorem Key.kind_toValue {k : Key} (hk : ofValue v = .ok k) (hkind : v.kind = t.kind) :
    (k.toValue t).kind = t.kind := by
  rw [← v.kind_unwrapped] at hkind
  rw [toValue, ← hkind]
  unfold ofValue at hk
  cases hu : v.unwrapped with
  | constant w => exact absurd hu (unwrapped_ne_constant v w)
  | _ =>
    rw [hu] at hk
    cases hk <;> rfl

namespace MapObject.Typed

variable {m : MapObject} {h : Heap}

theorem empty (kt vt : Ty) : ({ keyType := kt, valueType := vt } : MapObject).Typed :=
  fun _ hk => absurd hk List.not_mem_nil

/-- A map with no other keys. -/
theorem congr {m' : MapObject} (hm : m.Typed) (htype : m'.keyType = m.keyType)
    (hkeys : ∀ k ∈ m'.entries.map (·.1), k ∈ m.entries.map (·.1)) : m'.Typed := fun k hk => by
  rw [htype]
  exact hm k (hkeys k hk)

/-- What a key type accepts as a key stands for a value that belongs. -/
theorem belongs_of_ofValue (hh : h.Typed) {key : Value} {k : Key} (hk : Key.ofValue key = .ok k)
    (haccepts : t.isInterface = true ∨ t.accepts (h.typeOf key) = true) :
    (k.toValue t).Belongs t := by
  rcases haccepts with hopen | haccepts
  · exact .of_isInterface hopen
  rcases Ty.kind_eq_of_accepts haccepts with hopen | hopen | hkind
  · exact .of_isInterface hopen
  · rw [hh.structs.not_isInterface_typeOf] at hopen
    cases hopen
  · have hscalar := (Key.kind_of_ofValue hk).1
    rcases hh.structs.kind_typeOf key with hsame | ⟨hstruct, -⟩
    · exact .of_kind (Key.kind_toValue hk (hsame.symm.trans hkind.symm))
    · rw [hstruct] at hscalar
      cases hscalar

theorem set (hm : m.Typed) (hh : h.Typed) (key value : Value) (vt : Ty) :
    Ensures (m.set key value (h.typeOf key) vt) MapObject.Typed := by
  intro m' hset
  obtain ⟨k, hk, rfl, haccepts, -⟩ := MapObject.set_eq_ok hset
  intro l hl
  rw [Assoc.map_fst_insert] at hl
  split at hl
  · exact hm l hl
  · rcases List.mem_append.1 hl with hl | hl
    · exact hm l hl
    · rw [List.mem_singleton.1 hl]
      exact belongs_of_ofValue hh hk haccepts

theorem delete (hm : m.Typed) (key : Value) : Ensures (m.delete key) fun p => p.2.Typed :=
  .bind (.any _) fun k _ =>
    .ok (hm.congr rfl (Assoc.map_fst_erase_sublist k m.entries).subset)

theorem freeze (hm : m.Typed) (on : Bool) : (m.freeze on).Typed := hm.congr rfl fun _ hk => hk

/-- The keys belong in an array of the key type. -/
theorem keys (hm : m.Typed) : ∀ v ∈ m.keys, v.Belongs m.keyType := by
  intro v hv
  obtain ⟨k, hk, rfl⟩ := List.mem_map.1 hv
  exact hm k ((Key.sort_perm _).mem_iff.1 hk)

end MapObject.Typed

theorem StructObject.Typed.set {s : StructObject} (hs : s.Typed) (name : String) (v : Value) (t : Ty) :
    Ensures (s.set name v t) StructObject.Typed := by
  unfold StructObject.set
  exact .ite (.error _) (.ite (.error _) (.ite (.error _) (.ite (.error _) (.ok hs))))

namespace Heap.Typed

/-! ### New objects -/

theorem newArray {a : ArrayObject} (ha : a.Typed) :
    Maintains Heap.Typed (Heap.newArray a) fun _ => True :=
  fun _ hh => ⟨{ hh with
    arrays := fun b hb => (Array.mem_push.1 hb).elim (hh.arrays b) fun heq => heq ▸ ha }, trivial⟩

theorem newMap {m : MapObject} (hm : m.Typed) :
    Maintains Heap.Typed (Heap.newMap m) fun _ => True :=
  fun _ hh => ⟨{ hh with
    maps := fun b hb => (Array.mem_push.1 hb).elim (hh.maps b) fun heq => heq ▸ hm }, trivial⟩

theorem newStruct {s : StructObject} (hs : s.Typed) :
    Maintains Heap.Typed (Heap.newStruct s) fun _ => True :=
  fun _ hh => ⟨{ hh with
    structs := fun b hb => (Array.mem_push.1 hb).elim (hh.structs b) fun heq => heq ▸ hs }, trivial⟩

theorem newList (values : List Value) : Maintains Heap.Typed (Heap.newList values) fun _ => True :=
  .bind (newArray (.ofInterface _ 0)) fun _ _ => .pure trivial

/-- A computation that touches neither arrays nor maps nor structs. -/
theorem elsewhere {α : Type} {act : StateM Heap α}
    (harrays : ∀ h : Heap, (act.run h).2.arrays = h.arrays)
    (hmaps : ∀ h : Heap, (act.run h).2.maps = h.maps)
    (hstructs : ∀ h : Heap, (act.run h).2.structs = h.structs) :
    Maintains Heap.Typed act fun _ => True :=
  fun h hh => ⟨⟨harrays h ▸ hh.arrays, hmaps h ▸ hh.maps,
    fun s hs => hh.structs s (hstructs h ▸ hs)⟩, trivial⟩

/-! ### Objects in place of others -/

theorem putArray (r : Ref .array) {a : ArrayObject} (ha : a.Typed) :
    Maintains Heap.Typed (Heap.putArray r a) fun _ => True :=
  fun _ hh => ⟨{ hh with
    arrays := fun b hb =>
      (Array.mem_or_eq_of_mem_setIfInBounds hb).elim (hh.arrays b) fun heq => heq ▸ ha }, trivial⟩

theorem putMap (r : Ref .map) {m : MapObject} (hm : m.Typed) :
    Maintains Heap.Typed (Heap.putMap r m) fun _ => True :=
  fun _ hh => ⟨{ hh with
    maps := fun b hb =>
      (Array.mem_or_eq_of_mem_setIfInBounds hb).elim (hh.maps b) fun heq => heq ▸ hm }, trivial⟩

theorem putStruct (r : Ref .struct) {s : StructObject} (hs : s.Typed) :
    Maintains Heap.Typed (Heap.putStruct r s) fun _ => True :=
  fun _ hh => ⟨{ hh with
    structs := fun b hb =>
      (Array.mem_or_eq_of_mem_setIfInBounds hb).elim (hh.structs b) fun heq => heq ▸ hs }, trivial⟩

theorem setElement (r : Ref .array) (index : Nat) (v : Value) :
    Upholds Heap.Typed (Heap.setElement r index v) fun _ => True :=
  .bind .get fun _ hh => .bind (.ofExcept ((hh.array r).set hh index v)) fun _ ha =>
    .lift (putArray r ha)

theorem appendElement (r : Ref .array) (v : Value) :
    Upholds Heap.Typed (Heap.appendElement r v) fun _ => True :=
  .bind .get fun _ hh => .bind (.ofExcept ((hh.array r).append hh v)) fun _ ha =>
    .lift (putArray r ha)

theorem deleteElement (r : Ref .array) (index : Nat) :
    Upholds Heap.Typed (Heap.deleteElement r index) fun _ => True :=
  .bind .get fun _ hh => .bind (.ofExcept ((hh.array r).delete index)) fun _ ha =>
    .bind (.lift (putArray r ha)) fun _ _ => .pure trivial

/-- Other elements, unchecked; so they have to belong. -/
theorem replaceElements {h : Heap} (hh : h.Typed) {r : Ref .array} {values : Array Value}
    (hvalues : ∀ v ∈ values, v.Belongs (h.array r).element) :
    ((Heap.replaceElements r values).run.run h).2.Typed := by
  have hreplaced : Ensures ((h.array r).replaceAll values) ArrayObject.Typed :=
    .bind (.any _) fun _ _ => .ok hvalues
  have hput : Upholds Heap.Typed (do Heap.putArray r (← (h.array r).replaceAll values) : HeapM Unit)
      fun _ => True := .bind (.ofExcept hreplaced) fun _ ha => .lift (putArray r ha)
  exact (hput h hh).1

theorem setEntry (r : Ref .map) (key value : Value) :
    Upholds Heap.Typed (Heap.setEntry r key value) fun _ => True :=
  .bind .get fun _ hh => .bind (.ofExcept ((hh.map r).set hh key value _)) fun _ hm =>
    .lift (putMap r hm)

theorem deleteEntry (r : Ref .map) (key : Value) :
    Upholds Heap.Typed (Heap.deleteEntry r key) fun _ => True :=
  .bind .get fun _ hh => .bind (.ofExcept ((hh.map r).delete key)) fun _ hm =>
    .bind (.lift (putMap r hm)) fun _ _ => .pure trivial

theorem mergeEntries (r source : Ref .map) :
    Upholds Heap.Typed (Heap.mergeEntries r source) fun _ => True :=
  .ite (.pure trivial) (.bind .get fun _ _ => .bind (.forIn fun key _ =>
    .bind (.ofExcept (.any _)) fun _ _ => .bind (setEntry r key _) fun _ _ => .pure trivial)
    fun _ _ => .pure trivial)

theorem setField (r : Ref .struct) (name : String) (v : Value) :
    Upholds Heap.Typed (Heap.setField r name v) fun _ => True :=
  .bind .get fun _ hh => .bind (.ofExcept ((hh.struct r).set name v _)) fun _ hs =>
    .lift (putStruct r hs)

/-- Receiver functions are not kept in containers. -/
theorem addMethod (t : Ty) (name : String) (v : Value) :
    Maintains Heap.Typed (Heap.addMethod t name v) fun _ => True := by
  unfold Heap.addMethod
  split
  · exact elsewhere (fun _ => rfl) (fun _ => rfl) fun _ => rfl
  · exact .pure trivial

theorem newPackage (p : PackageObject) : Maintains Heap.Typed (Heap.newPackage p) fun _ => True :=
  elsewhere (fun _ => rfl) (fun _ => rfl) fun _ => rfl

theorem putPackage (r : Ref .package) (p : PackageObject) :
    Maintains Heap.Typed (Heap.putPackage r p) fun _ => True :=
  elsewhere (fun _ => rfl) (fun _ => rfl) fun _ => rfl

/-! ### Copies -/

theorem underConstants {f : Value → StateM Heap Value}
    (hf : ∀ u, Maintains Heap.Typed (f u) (·.kind = u.kind)) (v : Value) :
    Maintains Heap.Typed (Heap.underConstants f v) (·.kind = v.kind) := by
  fun_induction Heap.underConstants f v with
  | case1 v ih => exact .bind ih fun w hw => .pure hw
  | case2 v => exact hf v

/-- A copy is of the kind of what is copied. -/
theorem copyWithin (depth : Nat) (v : Value) :
    Maintains Heap.Typed (Heap.copyWithin depth v) (·.kind = v.kind) := by
  induction depth generalizing v with
  | zero => exact .pure rfl
  | succ depth ih =>
    refine underConstants (fun u => ?_) v
    split
    · rename_i r
      refine .bind .get fun h hh => .bind (P := fun values : Array Value =>
        ∀ w ∈ values, w.Belongs (h.array r).element) (.mapMArray fun x hx => ?_)
        fun values hvalues => .bind (newArray hvalues) fun _ _ => .pure rfl
      exact (ih x).imp fun w hw => (hh.array r x hx).congr_kind hw
    · rename_i r
      refine .bind .get fun h hh => .bind (P := fun entries => ∀ p ∈ entries,
        (p.1.toValue (h.map r).keyType).Belongs (h.map r).keyType)
        (.mapM fun p hp => .bind (ih p.2) fun _ _ => .pure ?_) fun entries hentries =>
          .bind (newMap fun k hk => ?_) fun _ _ => .pure rfl
      · exact hh.map r p.1 (List.mem_map_of_mem hp)
      · obtain ⟨p, hp, rfl⟩ := List.mem_map.1 hk
        exact hentries p hp
    · rename_i r
      exact .bind .get fun h hh => .bind (P := fun _ => True)
        ((Maintains.mapM (P := fun _ => True) fun p _ => .bind (ih p.2) fun _ _ => .pure trivial).imp
          fun _ _ => trivial)
        fun fields _ => .bind (newStruct (hh.struct r)) fun _ _ => .pure rfl
    · exact .pure rfl

theorem deepCopy (v : Value) : Maintains Heap.Typed (Heap.deepCopy v) (·.kind = v.kind) :=
  .bind .get fun h _ => copyWithin h.depth v

theorem copyStruct (r : Ref .struct) : Maintains Heap.Typed (Heap.copyStruct r) fun _ => True := by
  refine .bind (deepCopy _) fun v _ => ?_
  split
  · exact .bind .get fun _ _ => .bind .get fun h hh => .bind (putStruct _ (hh.struct _)) fun _ _ =>
      .pure trivial
  · exact .pure trivial

theorem filled {element : Ty} (size : Nat) (hv : v.Belongs element) :
    Maintains Heap.Typed (Heap.filled element size v) fun _ => True := by
  unfold Heap.filled
  simp only [Std.Legacy.Range.forIn_eq_forIn_range']
  refine .bind (P := fun values : Array Value => ∀ w ∈ values, w.Belongs element)
    (.forIn (fun _ h => absurd h (Array.not_mem_empty _)) fun _ _ values hvalues =>
      .bind (deepCopy v) fun w hw => .pure fun u hu => ?_)
    fun values hvalues => .bind (newArray hvalues) fun _ _ => .pure trivial
  rcases Array.mem_push.1 hu with hu | rfl
  · exact hvalues u hu
  · exact hv.congr_kind hw

/-! ### Zero values and conversions -/

theorem newInstance (ht : t.kind = .struct ∨ t.kind = .userDefined) (fields : List (String × Value)) :
    Maintains Heap.Typed (Heap.newInstance t fields) (·.Belongs t) := by
  refine .bind (newStruct ht) fun _ _ => .pure ?_
  rcases ht with hkind | hkind
  · exact .of_kind hkind.symm
  · exact .of_struct rfl hkind

theorem zeroOfKind (k : Kind) :
    Maintains Heap.Typed (Heap.zeroOfKind k) fun w => w.isNull = true ∨ w.kind = k := by
  cases k with
  | array => exact .bind (newArray (.empty _)) fun _ _ => .pure (.inr rfl)
  | map => exact .bind (newMap (.empty _ _)) fun _ _ => .pure (.inr rfl)
  | mutex =>
    exact .bind (elsewhere (fun _ => rfl) (fun _ => rfl) fun _ => rfl) fun _ _ => .pure (.inr rfl)
  | waitGroup =>
    exact .bind (elsewhere (fun _ => rfl) (fun _ => rfl) fun _ => rfl) fun _ _ => .pure (.inr rfl)
  | type =>
    exact .bind (elsewhere (fun _ => rfl) (fun _ => rfl) fun _ => rfl) fun _ _ => .pure (.inr rfl)
  | _ => exact .pure (by first | exact .inr rfl | exact .inl rfl)

mutual

/-- A zero value belongs. -/
theorem zeroValue (t : Ty) : Maintains Heap.Typed (Heap.zeroValue t) (·.Belongs t) := by
  match t with
  | .basic _ k =>
    cases k with
    | struct =>
      rw [Heap.zeroValue]
      exact newInstance (.inl rfl) []
    | _ =>
      rw [Heap.zeroValue]
      · exact (zeroOfKind _).imp fun w hw => .of_null_or_kind hw
      · nofun
  | .array _ e =>
    rw [Heap.zeroValue]
    exact .bind (newArray (.empty e)) fun _ _ => .pure (.of_kind rfl)
  | .pointer .. =>
    rw [Heap.zeroValue]
    exact .pure .null
  | .map _ k v =>
    rw [Heap.zeroValue]
    exact .bind (newMap (.empty k v)) fun _ _ => .pure (.of_kind rfl)
  | .struct _ fs =>
    rw [Heap.zeroValue]
    exact .bind (zeroFields fs) fun _ _ => newInstance (.inl rfl) _
  | .user _ _ _ b =>
    rw [Heap.zeroValue]
    split
    · exact .bind (zeroFieldsOf b) fun _ _ => newInstance (.inr rfl) _
    · exact (zeroValue b).imp fun w hw => hw.of_base

theorem zeroFieldsOf (t : Ty) : Maintains Heap.Typed (Heap.zeroFieldsOf t) fun _ => True := by
  match t with
  | .struct _ fs =>
    rw [Heap.zeroFieldsOf]
    exact zeroFields fs
  | .user _ _ _ b =>
    rw [Heap.zeroFieldsOf]
    exact zeroFieldsOf b
  | .basic .. | .array .. | .pointer .. | .map .. => exact .pure trivial

theorem zeroFields (fs : List (String × Ty)) :
    Maintains Heap.Typed (Heap.zeroFields fs) fun _ => True := by
  match fs with
  | [] =>
    rw [Heap.zeroFields]
    exact .pure trivial
  | (name, t) :: rest =>
    rw [Heap.zeroFields]
    exact .bind (zeroValue t) fun _ _ => .bind (zeroFields rest) fun _ _ => .pure trivial

end

/-- Instances are made of types whose base is a struct type. -/
theorem instantiate (ht : t.base.kind = .struct) :
    Maintains Heap.Typed (Heap.instantiate t) fun _ => True := by
  have hkind : t.kind = .struct ∨ t.kind = .userDefined := by
    cases t with
    | user => exact .inr rfl
    | _ => exact .inl ht
  exact .bind (zeroFieldsOf t) fun _ _ => newStruct hkind

theorem ofFields (fields : List (String × Value)) :
    Maintains Heap.Typed (Heap.ofFields fields) fun _ => True :=
  .bind .get fun _ _ => newStruct (.inl rfl)

theorem coerceScalar (h : Heap) (v : Value) (k : Kind) : Ensures (h.coerceScalar v k) (·.kind = k) := by
  unfold Heap.coerceScalar
  split
  · rename_i hkind
    exact .ok hkind
  · split
    · rename_i hk
      rw [hk]
      exact .ok rfl
    · exact v.kind_toScalar k

/-- **Conversion to a kind** gives nil or a value of a kind that it admits. -/
theorem coerceToKind (v : Value) (k : Kind) : Upholds Heap.Typed (Heap.coerceToKind v k)
    fun w => w.isNull = true ∨ k.admits w.kind = true := by
  unfold Heap.coerceToKind
  cases k with
  | byte | int32 | int | int64 | float32 | float64 | string | bool =>
    exact .bind .get fun h _ => .ofExcept fun w hw => .inr (beq_iff_eq.2 (coerceScalar h v _ w hw))
  | error =>
    dsimp only
    split
    · exact .pure (.inr rfl)
    · exact .pure (.inl rfl)
    · exact .bind .get fun _ _ => .pure (.inr rfl)
  | array =>
    dsimp only
    split
    · exact .pure (.inr rfl)
    · exact .lift (.bind (newArray (.ofInterface _ 0)) fun _ _ => .pure (.inr rfl))
    · exact .lift (.bind (newArray (.ofInterface _ 0)) fun _ _ => .pure (.inr rfl))
  | map =>
    dsimp only
    split
    · exact .pure (.inr rfl)
    · exact .throw _
  | pointer =>
    dsimp only
    split
    · exact .pure (.inr rfl)
    · exact .pure (.inl rfl)
    · exact .throw _
  | struct =>
    dsimp only
    split
    · exact .pure (.inr rfl)
    · exact .pure (.inr rfl)
    · exact .throw _
  | mutex | waitGroup | function | type | package | null =>
    refine .ofExcept ?_
    unfold Heap.ofKindOrNull
    split
    · rename_i hsuits
      exact .ok (hsuits.symm.imp_right beq_iff_eq.2)
    · exact .error _
  | interface | undefined | channel | userDefined => exact .pure (.inr rfl)
  | _ => exact .throw _

theorem kind_of_isInstanceOf {h : Heap} (hinstance : h.isInstanceOf v t = true) : v.kind = .struct := by
  cases v with
  | struct r => rfl
  | _ => cases hinstance

theorem coerceUnwrapped (t : Ty) (v : Value) :
    Upholds Heap.Typed (Heap.coerceUnwrapped t v) (·.Belongs t) := by
  fun_induction Heap.coerceUnwrapped t v with
  | case1 v d k => exact (coerceToKind v k).imp fun _ hw => .of_admits hw
  | case2 d e r => exact .pure (.of_kind rfl)
  | case3 d e => exact .bind (.lift (newArray (.empty e))) fun _ _ => .pure (.of_kind rfl)
  | case4 v d e hnotarray hnotnull ih =>
    refine .bind ih fun w hw => .bind (.lift (newArray fun u hu => ?_)) fun _ _ => .pure (.of_kind rfl)
    rw [Array.mem_singleton.1 hu]
    exact hw
  | case8 v d name package b ih =>
    refine .bind .get fun h _ => ?_
    split
    · rename_i hinstance
      exact .pure (.of_struct (kind_of_isInstanceOf hinstance) rfl)
    · exact ih.imp fun _ hw => hw.of_base
  | _ => exact (coerceToKind _ _).imp fun _ hw => .of_admits hw

/-- **What is converted to a type belongs** in arrays of that type. -/
theorem coerce (t : Ty) (v : Value) : Upholds Heap.Typed (Heap.coerce t v) (·.Belongs t) :=
  coerceUnwrapped t v.unwrapped

end Heap.Typed

end ScriptMachine
