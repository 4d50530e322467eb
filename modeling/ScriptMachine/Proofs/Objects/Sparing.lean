import ScriptMachine.Heap.Coercion
import ScriptMachine.Proofs.Action.Invariants
import ScriptMachine.Proofs.Objects.Keys

/-!
# Frozen containers are spared

Computations on objects neither freeze containers nor thaw them. They leave the elements of a frozen
array alone, and add no key to a frozen map. New containers are not frozen.

* `Container`: an array or a map, by reference; `Heap.freezes`: how many loops walk it.
* `Heap.Spares`: what all computations on objects but those of loops keep.
* `Heap.IsSparing`: a computation does so, with the rules for composed computations.
* `IsSparing.deepCopy`, `IsSparing.setEntry` and companions: one lemma for each computation.
-/

namespace ScriptMachine

/-- What a loop may freeze. -/
inductive Container
  | array (r : Ref .array)
  | map (r : Ref .map)
deriving DecidableEq

namespace ArrayObject

variable {a b : ArrayObject}

/-- What is refused while a loop walks the array. -/
theorem thawed_of_bind {α : Type} {rest : Except Fault α} {x : α}
    (h : (do a.checkThawed; rest) = .ok x) : a.freezes = 0 ∧ rest = .ok x := by
  unfold checkThawed at h
  split at h
  · cases h
  · rename_i hthawed
    refine ⟨?_, h⟩
    simpa [isFrozen] using hthawed

theorem thawed_of_set {index : Nat} {v : Value} {t : Ty} (h : a.set index v t = .ok b) :
    a.freezes = 0 ∧ b.freezes = 0 := by
  obtain ⟨hthawed, hrest⟩ := thawed_of_bind h
  refine ⟨hthawed, ?_⟩
  cases hcheck : a.checkElement v t with
  | error f => simp [hcheck, bind, Except.bind] at hrest
  | ok u =>
    rw [hcheck] at hrest
    change (if _ then _ else _) = _ at hrest
    split at hrest
    · cases hrest
      exact hthawed
    · cases hrest

theorem thawed_of_append {v : Value} {t : Ty} (h : a.append v t = .ok b) :
    a.freezes = 0 ∧ b.freezes = 0 := by
  obtain ⟨hthawed, -⟩ := thawed_of_bind h
  rw [append_eq_ok h]
  exact ⟨hthawed, hthawed⟩

theorem thawed_of_replaceAll {values : Array Value} (h : a.replaceAll values = .ok b) :
    a.freezes = 0 ∧ b.freezes = 0 := by
  obtain ⟨hthawed, hrest⟩ := thawed_of_bind h
  cases hrest
  exact ⟨hthawed, hthawed⟩

theorem thawed_of_delete {index : Nat} {v : Value} (h : a.delete index = .ok (v, b)) :
    a.freezes = 0 ∧ b.freezes = 0 := by
  obtain ⟨hthawed, hrest⟩ := thawed_of_bind h
  split at hrest
  · cases hrest
    exact ⟨hthawed, hthawed⟩
  · cases hrest

theorem thawed_of_slice {start stop : Nat} (h : a.slice start stop = .ok b) : b.freezes = 0 := by
  unfold slice at h
  split at h
  · cases h
    rfl
  · cases h

end ArrayObject

namespace Heap

/-- The number of loops that walk a container. -/
def freezes (h : Heap) : Container → Nat
  | .array r => (h.array r).freezes
  | .map r => (h.map r).freezes

/-- Whether a container is among the objects. -/
def Holds (h : Heap) : Container → Prop
  | .array r => r.id < h.arrays.size
  | .map r => r.id < h.maps.size

/-- Frozen containers stay as they are, but for entries of maps that change or go; nothing is frozen
or thawed, and the keys of maps stay as they should be. -/
structure Spares (h h' : Heap) : Prop where
  freezes_eq : ∀ c, h'.freezes c = h.freezes c
  array_eq : ∀ r, (h.array r).isFrozen = true → h'.array r = h.array r
  keyType_eq : ∀ r, (h.map r).isFrozen = true → (h'.map r).keyType = (h.map r).keyType
  keys_sublist : ∀ r, (h.map r).isFrozen = true →
    ((h'.map r).entries.map (·.1)).Sublist ((h.map r).entries.map (·.1))
  keyed : (∀ r, (h.map r).Keyed) → ∀ r, (h'.map r).Keyed

namespace Spares

variable {h h' h'' : Heap}

theorem refl (h : Heap) : h.Spares h :=
  ⟨fun _ => rfl, fun _ _ => rfl, fun _ _ => rfl, fun _ _ => .refl _, fun hkeyed => hkeyed⟩

theorem isFrozen_map (hspares : h.Spares h') (r : Ref .map) :
    (h'.map r).isFrozen = (h.map r).isFrozen := by
  have hsame := hspares.freezes_eq (.map r)
  simp only [freezes] at hsame
  simp only [MapObject.isFrozen, hsame]

theorem trans (hspares : h.Spares h') (hspares' : h'.Spares h'') : h.Spares h'' where
  freezes_eq c := (hspares'.freezes_eq c).trans (hspares.freezes_eq c)
  array_eq r hfrozen := by
    have hsame := hspares.array_eq r hfrozen
    exact (hspares'.array_eq r (by rwa [hsame])).trans hsame
  keyType_eq r hfrozen := (hspares'.keyType_eq r (by rwa [hspares.isFrozen_map])).trans
    (hspares.keyType_eq r hfrozen)
  keys_sublist r hfrozen := (hspares'.keys_sublist r (by rwa [hspares.isFrozen_map])).trans
    (hspares.keys_sublist r hfrozen)
  keyed hkeyed := hspares'.keyed (hspares.keyed hkeyed)

/-- Neither arrays nor maps have changed. -/
theorem ofSame (harrays : h'.arrays = h.arrays) (hmaps : h'.maps = h.maps) : h.Spares h' := by
  have harray : ∀ r, h'.array r = h.array r := fun r => by rw [array, harrays, array]
  have hmap : ∀ r, h'.map r = h.map r := fun r => by rw [map, hmaps, map]
  refine ⟨fun c => ?_, fun r _ => harray r, fun r _ => ?_, fun r _ => ?_, fun hkeyed r => ?_⟩
  · cases c with
    | array r => rw [freezes, freezes, harray]
    | map r => rw [freezes, freezes, hmap]
  · rw [hmap]
  · rw [hmap]
  · rw [hmap]
    exact hkeyed r

/-- An array has changed that was not frozen, or a new one has come. -/
theorem ofArray (hmaps : h'.maps = h.maps) (hother : ∀ r, h'.array r = h.array r ∨
      (h.array r).freezes = 0 ∧ (h'.array r).freezes = 0) : h.Spares h' := by
  have hmap : ∀ r, h'.map r = h.map r := fun r => by rw [map, hmaps, map]
  refine ⟨fun c => ?_, fun r hfrozen => ?_, fun r _ => ?_, fun r _ => ?_, fun hkeyed r => ?_⟩
  · cases c with
    | array r =>
      show (h'.array r).freezes = (h.array r).freezes
      rcases hother r with hsame | ⟨hzero, hzero'⟩
      · rw [hsame]
      · rw [hzero, hzero']
    | map r => rw [freezes, freezes, hmap]
  · refine (hother r).resolve_right fun hzero => ?_
    rw [ArrayObject.isFrozen, hzero.1] at hfrozen
    cases hfrozen
  · rw [hmap]
  · rw [hmap]
  · rw [hmap]
    exact hkeyed r

/-- Maps have changed as they may, or a new one has come. -/
theorem ofMap (harrays : h'.arrays = h.arrays) (hother : ∀ r, h'.map r = h.map r ∨
      (h'.map r).freezes = (h.map r).freezes ∧ ((h.map r).isFrozen = true →
        (h'.map r).keyType = (h.map r).keyType ∧
        ((h'.map r).entries.map (·.1)).Sublist ((h.map r).entries.map (·.1))) ∧
      ((∀ r, (h.map r).Keyed) → (h'.map r).Keyed)) : h.Spares h' := by
  have harray : ∀ r, h'.array r = h.array r := fun r => by rw [array, harrays, array]
  refine ⟨fun c => ?_, fun r _ => harray r, fun r hfrozen => ?_, fun r hfrozen => ?_,
    fun hkeyed r => ?_⟩
  · cases c with
    | array r => rw [freezes, freezes, harray]
    | map r => exact (hother r).elim (fun hsame => by rw [freezes, freezes, hsame]) (·.1)
  · exact (hother r).elim (fun hsame => by rw [hsame]) fun hmay => (hmay.2.1 hfrozen).1
  · exact (hother r).elim (fun hsame => by rw [hsame]) fun hmay => (hmay.2.1 hfrozen).2
  · exact (hother r).elim (fun hsame => by rw [hsame]; exact hkeyed r) fun hmay => hmay.2.2 hkeyed

end Spares

variable {α β : Type}

/-- A computation that spares frozen containers, whether it succeeds or not. -/
def IsSparing (act : StateM Heap α) : Prop := ∀ h : Heap, h.Spares (act.run h).2

namespace IsSparing

theorem pure (a : α) : IsSparing (Pure.pure a) := fun h => .refl h

theorem get : IsSparing MonadState.get := fun h => .refl h

theorem bind {act : StateM Heap α} {next : α → StateM Heap β} (hact : IsSparing act)
    (hnext : ∀ a, IsSparing (next a)) : IsSparing (act >>= next) :=
  fun h => (hact h).trans (hnext _ _)

theorem ite {p : Prop} [Decidable p] {yes no : StateM Heap α} (hyes : IsSparing yes)
    (hno : IsSparing no) : IsSparing (if p then yes else no) := by
  split
  · exact hyes
  · exact hno

theorem map {act : StateM Heap α} (f : α → β) (hact : IsSparing act) : IsSparing (f <$> act) :=
  fun h => hact h

theorem compositional : Compositional (μ := StateM Heap) fun _ => IsSparing := ⟨pure, bind⟩

theorem mapM {γ : Type} (f : γ → StateM Heap α) (xs : List γ) (hf : ∀ x, IsSparing (f x)) :
    IsSparing (xs.mapM f) :=
  compositional.mapM fun x _ => hf x

theorem mapMArray {γ : Type} (f : γ → StateM Heap α) (xs : Array γ)
    (hf : ∀ x, IsSparing (f x)) : IsSparing (xs.mapM f) := by
  rw [Array.mapM_eq_mapM_toList]
  exact (mapM f _ hf).map _

theorem forIn {γ σ : Type} (xs : List γ) (body : γ → σ → StateM Heap (ForInStep σ)) (init : σ)
    (hbody : ∀ x s, IsSparing (body x s)) : IsSparing (ForIn.forIn xs init body) :=
  compositional.forIn fun x _ => hbody x

/-- A computation that touches neither arrays nor maps. -/
theorem ofSame {act : StateM Heap α} (harrays : ∀ h : Heap, (act.run h).2.arrays = h.arrays)
    (hmaps : ∀ h : Heap, (act.run h).2.maps = h.maps) : IsSparing act :=
  fun h => .ofSame (harrays h) (hmaps h)

/-! ### Computations that may fault -/

/-- The results of a computation that may fault. -/
theorem bindExcept {ε : Type} {act : ExceptT ε (StateM Heap) α}
    {next : α → ExceptT ε (StateM Heap) β} (hact : IsSparing act.run)
    (hnext : ∀ a, IsSparing (next a).run) : IsSparing (act >>= next).run := by
  rw [ExceptT.run_bind]
  refine hact.bind fun r => ?_
  cases r with
  | ok a => exact hnext a
  | error e => exact pure _

/-- A computation that cannot fault, among others that may. -/
theorem lift {act : StateM Heap α} (hact : IsSparing act) :
    IsSparing (liftM act : HeapM α).run := fun h => hact h

theorem check (r : Except Fault α) : IsSparing (liftM r : HeapM α).run := by
  cases r with
  | ok a => exact pure _
  | error f => exact pure _

/-- A check before a computation. -/
theorem liftExcept {r : Except Fault α} {next : α → HeapM β}
    (hnext : ∀ a, r = .ok a → IsSparing (next a).run) :
    IsSparing ((liftM r : HeapM α) >>= next).run := by
  cases r with
  | ok a => exact hnext a rfl
  | error f => exact pure _

theorem forInExcept {γ σ : Type} (xs : List γ) (body : γ → σ → HeapM (ForInStep σ)) (init : σ)
    (hbody : ∀ x s, IsSparing (body x s).run) : IsSparing (ForIn.forIn xs init body).run :=
  have hcomposed : Compositional (μ := HeapM) fun _ act => IsSparing act.run :=
    ⟨fun _ => pure _, bindExcept⟩
  hcomposed.forIn fun x _ => hbody x

/-! ### New objects -/

theorem newArray {a : ArrayObject} (ha : a.freezes = 0) : IsSparing (Heap.newArray a) := by
  refine fun h => .ofArray rfl fun r => ?_
  show ((h.arrays.push a)[r.id]?).getD _ = _ ∨ _ ∧ (((h.arrays.push a)[r.id]?).getD _).freezes = 0
  rw [Array.getElem?_push]
  by_cases hr : r.id = h.arrays.size
  · rw [if_pos hr]
    refine .inr ⟨?_, ha⟩
    rw [array, Array.getElem?_eq_none (Nat.le_of_eq hr.symm)]
    rfl
  · rw [if_neg hr]
    exact .inl rfl

theorem map_newMap (h : Heap) (m : MapObject) (r : Ref .map) :
    ((Heap.newMap m).run h).2.map r = if r.id = h.maps.size then m else h.map r := by
  show ((h.maps.push m)[r.id]?).getD ⟨.interface, .interface, [], 0⟩ = _
  rw [Array.getElem?_push]
  split <;> rfl

/-- A new map whose keys are as they should be. -/
theorem spares_newMap {h h' : Heap} (hspares : h.Spares h') {m : MapObject} (hm : m.freezes = 0)
    (hkeyed : (∀ r, (h.map r).Keyed) → m.Keyed) : h.Spares ((Heap.newMap m).run h').2 := by
  have hthawed : ∀ r : Ref .map, r.id = h'.maps.size → (h.map r).freezes = 0 := by
    intro r hr
    have hnone : h'.map r = ⟨.interface, .interface, [], 0⟩ := by
      rw [Heap.map, Array.getElem?_eq_none (Nat.le_of_eq hr.symm)]
      rfl
    rw [← show (h'.map r).freezes = (h.map r).freezes from hspares.freezes_eq (.map r), hnone]
  have hold : ∀ r, (h.map r).isFrozen = true → ((Heap.newMap m).run h').2.map r = h'.map r := by
    intro r hfrozen
    rw [map_newMap, if_neg]
    intro hr
    rw [MapObject.isFrozen, hthawed r hr] at hfrozen
    cases hfrozen
  refine ⟨fun c => ?_, hspares.array_eq, fun r hfrozen => ?_, fun r hfrozen => ?_,
    fun hall r => ?_⟩
  · cases c with
    | array r => exact hspares.freezes_eq (.array r)
    | map r =>
      show (((Heap.newMap m).run h').2.map r).freezes = (h.map r).freezes
      rw [map_newMap]
      split
      · rename_i hr
        rw [hm, hthawed r hr]
      · exact hspares.freezes_eq (.map r)
  · rw [hold r hfrozen]
    exact hspares.keyType_eq r hfrozen
  · rw [hold r hfrozen]
    exact hspares.keys_sublist r hfrozen
  · rw [map_newMap]
    split
    · exact hkeyed hall
    · exact hspares.keyed hall r

theorem newMap (kt vt : Ty) : IsSparing (Heap.newMap ⟨kt, vt, [], 0⟩) :=
  fun h => spares_newMap (.refl h) rfl fun _ => ⟨nofun, .nil⟩

theorem newStruct (s : StructObject) : IsSparing (Heap.newStruct s) :=
  ofSame (fun _ => rfl) fun _ => rfl

theorem putStruct (r : Ref .struct) (s : StructObject) : IsSparing (Heap.putStruct r s) :=
  ofSame (fun _ => rfl) fun _ => rfl

theorem newPackage (p : PackageObject) : IsSparing (Heap.newPackage p) :=
  ofSame (fun _ => rfl) fun _ => rfl

theorem putPackage (r : Ref .package) (p : PackageObject) : IsSparing (Heap.putPackage r p) :=
  ofSame (fun _ => rfl) fun _ => rfl

theorem putChannel (r : Ref .channel) (c : ChannelObject) : IsSparing (Heap.putChannel r c) :=
  ofSame (fun _ => rfl) fun _ => rfl

theorem putLocked (r : Ref .mutex) (b : Bool) : IsSparing (Heap.putLocked r b) :=
  ofSame (fun _ => rfl) fun _ => rfl

theorem putWaitCount (r : Ref .waitGroup) (n : Int64) : IsSparing (Heap.putWaitCount r n) :=
  ofSame (fun _ => rfl) fun _ => rfl

theorem addMethod (t : Ty) (name : String) (f : Value) : IsSparing (Heap.addMethod t name f) := by
  unfold Heap.addMethod
  split
  · exact ofSame (fun _ => rfl) fun _ => rfl
  · exact pure _

theorem newList (values : List Value) : IsSparing (Heap.newList values) :=
  (newArray rfl).bind fun _ => pure _

/-! ### Changes of arrays -/

/-- An array in place of one; neither is frozen. -/
theorem spares_putArray {h : Heap} {r : Ref .array} {a : ArrayObject}
    (hold : (h.array r).freezes = 0) (ha : a.freezes = 0) :
    h.Spares ((Heap.putArray r a).run h).2 := by
  refine .ofArray rfl fun q => ?_
  have hlook : ((Heap.putArray r a).run h).2.array q
      = ((h.arrays.setIfInBounds r.id a)[q.id]?).getD ⟨.interface, #[], 0⟩ := rfl
  rw [hlook, Array.getElem?_setIfInBounds]
  by_cases hid : r.id = q.id
  · have hq : h.array q = h.array r := by rw [array, array, hid]
    rw [if_pos hid, hq]
    split
    · exact .inr ⟨hold, ha⟩
    · exact .inr ⟨hold, rfl⟩
  · rw [if_neg hid]
    exact .inl rfl

/-- The result of a change, put in the place of an array. -/
theorem spares_replaceArray {h : Heap} {r : Ref .array} (result : Except Fault ArrayObject)
    (hresult : ∀ b, result = .ok b → (h.array r).freezes = 0 ∧ b.freezes = 0) :
    h.Spares ((do Heap.putArray r (← result) : HeapM Unit).run.run h).2 := by
  cases result with
  | error f => exact .refl h
  | ok b => exact spares_putArray (hresult b rfl).1 (hresult b rfl).2

theorem setElement (r : Ref .array) (index : Nat) (v : Value) :
    IsSparing (Heap.setElement r index v).run := fun h =>
  spares_replaceArray ((h.array r).set index v (h.typeOf v)) fun _ => ArrayObject.thawed_of_set

theorem appendElement (r : Ref .array) (v : Value) :
    IsSparing (Heap.appendElement r v).run := fun h =>
  spares_replaceArray ((h.array r).append v (h.typeOf v)) fun _ => ArrayObject.thawed_of_append

theorem replaceElements (r : Ref .array) (values : Array Value) :
    IsSparing (Heap.replaceElements r values).run := fun h =>
  spares_replaceArray ((h.array r).replaceAll values) fun _ => ArrayObject.thawed_of_replaceAll

theorem deleteElement (r : Ref .array) (index : Nat) :
    IsSparing (Heap.deleteElement r index).run := by
  intro h
  have hall : ∀ result : Except Fault (Value × ArrayObject),
      (∀ v b, result = .ok (v, b) → (h.array r).freezes = 0 ∧ b.freezes = 0) →
      h.Spares ((do
        let out ← result
        Heap.putArray r out.2
        return out.1 : HeapM Value).run.run h).2 := by
    rintro (f | ⟨v, b⟩) hresult
    · exact .refl h
    · exact spares_putArray (hresult v b rfl).1 (hresult v b rfl).2
  exact hall ((h.array r).delete index) fun _ _ => ArrayObject.thawed_of_delete

/-! ### Changes of maps -/

/-- A map in place of one, with as many loops over it. -/
theorem spares_putMap {h : Heap} {r : Ref .map} {m : MapObject}
    (hfreezes : m.freezes = (h.map r).freezes)
    (hfrozen : (h.map r).isFrozen = true → m.keyType = (h.map r).keyType ∧
      (m.entries.map (·.1)).Sublist ((h.map r).entries.map (·.1)))
    (hkeyed : (h.map r).Keyed → m.Keyed) : h.Spares ((Heap.putMap r m).run h).2 := by
  refine .ofMap rfl fun q => ?_
  have hlook : ((Heap.putMap r m).run h).2.map q
      = ((h.maps.setIfInBounds r.id m)[q.id]?).getD ⟨.interface, .interface, [], 0⟩ := rfl
  rw [hlook, Array.getElem?_setIfInBounds]
  by_cases hid : r.id = q.id
  · have hq : h.map q = h.map r := by rw [Heap.map, Heap.map, hid]
    rw [if_pos hid, hq]
    split
    · exact .inr ⟨hfreezes, hfrozen, fun hall => hkeyed (hall r)⟩
    · rename_i hbound
      rw [← hq, Heap.map, Array.getElem?_eq_none (show h.maps.size ≤ q.id by omega)]
      exact .inl rfl
  · rw [if_neg hid]
    exact .inl rfl

theorem setEntry (r : Ref .map) (key value : Value) : IsSparing (Heap.setEntry r key value).run := by
  intro h
  have hall : ∀ result : Except Fault MapObject,
      (∀ m, result = .ok m → h.Spares ((Heap.putMap r m).run h).2) →
      h.Spares ((do Heap.putMap r (← result) : HeapM Unit).run.run h).2 := by
    rintro (f | m) hresult
    · exact .refl h
    · exact hresult m rfl
  refine hall ((h.map r).set key value (h.typeOf key) (h.typeOf value)) fun m hm => ?_
  obtain ⟨k, -, hset, -⟩ := MapObject.set_eq_ok hm
  refine spares_putMap (by rw [hset]) (fun hfrozen => ⟨by rw [hset], ?_⟩) fun hkeyed => ?_
  · rw [MapObject.keys_of_set hfrozen hm]
  · exact hkeyed.set (fun k hk => (Key.kind_of_ofValue hk).2 h) hm

theorem deleteEntry (r : Ref .map) (key : Value) : IsSparing (Heap.deleteEntry r key).run := by
  intro h
  have hall : ∀ result : Except Fault (Bool × MapObject),
      (∀ b m, result = .ok (b, m) → h.Spares ((Heap.putMap r m).run h).2) →
      h.Spares ((do
        let out ← result
        Heap.putMap r out.2
        return out.1 : HeapM Bool).run.run h).2 := by
    rintro (f | ⟨b, m⟩) hresult
    · exact .refl h
    · exact hresult b m rfl
  refine hall ((h.map r).delete key) fun b m hm => ?_
  obtain ⟨k, rfl⟩ := MapObject.delete_eq_ok hm
  have hkeys := Assoc.map_fst_erase_sublist k (h.map r).entries
  exact spares_putMap rfl (fun _ => ⟨rfl, hkeys⟩) fun hkeyed => hkeyed.sublist rfl hkeys

theorem mergeEntries (r source : Ref .map) : IsSparing (Heap.mergeEntries r source).run := by
  unfold Heap.mergeEntries
  split
  · exact pure _
  · refine bindExcept get fun h => bindExcept (forInExcept _ _ _ fun key _ => ?_) fun _ => pure _
    exact liftExcept fun found _ => bindExcept (setEntry r key _) fun _ => pure _

/-! ### Copies -/

theorem underConstants {f : Value → StateM Heap Value} (hf : ∀ v, IsSparing (f v)) (v : Value) :
    IsSparing (Heap.underConstants f v) := by
  fun_induction Heap.underConstants f v with
  | case1 v ih => exact ih.bind fun _ => pure _
  | case2 v => exact hf v

/-- A copy of a map has its keys. -/
theorem copyMap (r : Ref .map) {f : Value → StateM Heap Value} (hf : ∀ v, IsSparing (f v)) :
    IsSparing (do
      let m := (← MonadState.get).map r
      let entries ← m.entries.mapM fun p => return (p.1, ← f p.2)
      Heap.newMap { keyType := m.keyType, valueType := m.valueType, entries }) := by
  intro h
  have hentries : ∀ (entries : List (Key × Value)) (h : Heap),
      h.Spares ((entries.mapM fun p => (return (p.1, ← f p.2) : StateM Heap _)).run h).2 ∧
      (((entries.mapM fun p => (return (p.1, ← f p.2) : StateM Heap _)).run h).1.map (·.1))
        = entries.map (·.1) := by
    intro entries
    induction entries with
    | nil => exact fun h => ⟨.refl h, rfl⟩
    | cons p rest ih =>
      intro h
      rw [List.mapM_cons]
      obtain ⟨hspares, hkeys⟩ := ih ((f p.2).run h).2
      exact ⟨(hf p.2 h).trans hspares, congrArg (p.1 :: ·) hkeys⟩
  obtain ⟨hspares, hkeys⟩ := hentries (h.map r).entries h
  exact spares_newMap hspares rfl fun hall =>
    (hall r).sublist rfl (hkeys ▸ List.Sublist.refl _)

theorem copyWithin (depth : Nat) (v : Value) : IsSparing (Heap.copyWithin depth v) := by
  induction depth generalizing v with
  | zero => exact pure v
  | succ depth ih =>
    refine underConstants (fun u => ?_) v
    split
    · exact get.bind fun h => (mapMArray _ _ ih).bind fun values => (newArray rfl).bind fun _ =>
        pure _
    · exact (copyMap _ ih).bind fun _ => pure _
    · have hfield : ∀ p : String × Value, IsSparing (do
          return (p.1, ← Heap.copyWithin depth p.2)) := fun p => (ih p.2).bind fun _ => pure _
      exact get.bind fun h => (mapM _ _ hfield).bind fun fields => (newStruct _).bind fun _ =>
        pure _
    · exact pure _

theorem deepCopy (v : Value) : IsSparing (Heap.deepCopy v) :=
  get.bind fun h => copyWithin h.depth v

theorem copyStruct (r : Ref .struct) : IsSparing (Heap.copyStruct r) := by
  refine (deepCopy _).bind fun v => ?_
  split
  · exact get.bind fun _ => get.bind fun _ => (putStruct _ _).bind fun _ => pure _
  · exact pure _

theorem filled (element : Ty) (size : Nat) (v : Value) :
    IsSparing (Heap.filled element size v) := by
  unfold Heap.filled
  simp only [Std.Legacy.Range.forIn_eq_forIn_range']
  exact (forIn _ _ _ fun _ _ => (deepCopy v).bind fun _ => pure _).bind fun _ =>
    (newArray rfl).bind fun _ => pure _

/-! ### Zero values and conversion -/

theorem newInstance (t : Ty) (fields : List (String × Value)) :
    IsSparing (Heap.newInstance t fields) := (newStruct _).bind fun _ => pure _

theorem zeroOfKind (k : Kind) : IsSparing (Heap.zeroOfKind k) := by
  cases k with
  | array => exact (newArray rfl).bind fun _ => pure _
  | map => exact (newMap _ _).bind fun _ => pure _
  | mutex | waitGroup | type => exact ofSame (fun _ => rfl) fun _ => rfl
  | _ => exact pure _

mutual

theorem zeroValue (t : Ty) : IsSparing (Heap.zeroValue t) := by
  match t with
  | .basic _ k =>
    cases k with
    | struct =>
      rw [Heap.zeroValue]
      exact newInstance _ _
    | _ =>
      rw [Heap.zeroValue]
      · exact zeroOfKind _
      · nofun
  | .array _ e =>
    rw [Heap.zeroValue]
    exact (newArray rfl).bind fun _ => pure _
  | .pointer .. =>
    rw [Heap.zeroValue]
    exact pure _
  | .map _ k v =>
    rw [Heap.zeroValue]
    exact (newMap k v).bind fun _ => pure _
  | .struct _ fs =>
    rw [Heap.zeroValue]
    exact (zeroFields fs).bind fun _ => newInstance _ _
  | .user _ _ _ b =>
    rw [Heap.zeroValue]
    exact ite ((zeroFieldsOf b).bind fun _ => newInstance _ _) (zeroValue b)

theorem zeroFieldsOf (t : Ty) : IsSparing (Heap.zeroFieldsOf t) := by
  match t with
  | .struct _ fs =>
    rw [Heap.zeroFieldsOf]
    exact zeroFields fs
  | .user _ _ _ b =>
    rw [Heap.zeroFieldsOf]
    exact zeroFieldsOf b
  | .basic .. | .array .. | .pointer .. | .map .. => exact fun h => .refl h

theorem zeroFields (fs : List (String × Ty)) : IsSparing (Heap.zeroFields fs) := by
  match fs with
  | [] =>
    rw [Heap.zeroFields]
    exact pure []
  | (name, t) :: rest =>
    rw [Heap.zeroFields]
    exact (zeroValue t).bind fun _ => (zeroFields rest).bind fun _ => pure _

end

theorem instantiate (t : Ty) : IsSparing (Heap.instantiate t) :=
  (zeroFieldsOf t).bind fun _ => newStruct _

theorem ofFields (fields : List (String × Value)) : IsSparing (Heap.ofFields fields) :=
  get.bind fun _ => newStruct _

theorem setField (r : Ref .struct) (name : String) (v : Value) :
    IsSparing (Heap.setField r name v).run :=
  bindExcept get fun _ => liftExcept fun s _ => putStruct r s

theorem coerceToKind (v : Value) (k : Kind) : IsSparing (Heap.coerceToKind v k).run := by
  unfold Heap.coerceToKind
  cases k with
  | byte | int32 | int | int64 | float32 | float64 | string | bool =>
    exact bindExcept get fun _ => check _
  | error =>
    dsimp only
    split
    · exact pure _
    · exact pure _
    · exact bindExcept get fun _ => pure _
  | array =>
    dsimp only
    split
    · exact pure _
    · exact lift (newList [])
    · exact lift (newList [v])
  | map | struct | pointer =>
    dsimp only
    split <;> exact pure _
  | mutex | waitGroup | function | type | package | null => exact check _
  | _ => exact pure _

theorem coerceUnwrapped (t : Ty) (v : Value) : IsSparing (Heap.coerceUnwrapped t v).run := by
  fun_induction Heap.coerceUnwrapped t v with
  | case1 v d k => exact coerceToKind v k
  | case3 d e => exact bindExcept (lift (newArray rfl)) fun _ => pure _
  | case4 v d e hnotarray hnotnull ih =>
    exact bindExcept ih fun _ => bindExcept (lift (newArray rfl)) fun _ => pure _
  | case8 v d name package b ih =>
    refine bindExcept get fun h => ?_
    split
    · exact pure _
    · exact ih
  | case2 => exact pure _
  | _ => exact coerceToKind _ _

theorem coerce (t : Ty) (v : Value) : IsSparing (Heap.coerce t v).run :=
  coerceUnwrapped t v.unwrapped

end IsSparing

end Heap

end ScriptMachine
