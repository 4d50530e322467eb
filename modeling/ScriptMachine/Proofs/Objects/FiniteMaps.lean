import ScriptMachine.Proofs.Objects.PlainKeys

/-!
# Typed maps are finite maps

A map that is keyed by booleans, by integers of one kind or by strings is a finite map of the keys'
values, whatever was done to it: what was set is found under its key until it is set again or
deleted, what fails changes nothing, and the keys are listed in ascending order.

* `MapCall`: what can be done to maps; `Heap.after`: the objects afterwards.
* `Heap.setAll`, `Heap.taken`: entries set one after the other, and those before the first failure.
* `MapCall.onReference`, `Heap.reference`: a finite map driven by the calls that succeed.
* `run_mergeEntries`: merging sets the entries of the other map in the order of its keys.
* `Heap.Tracks`: a map agrees with the finite map; `Tracks.call`: one call keeps that.
* `Heap.IsFiniteMap`, `Heap.Obeys`: what can be read of such a map, and what calls do to it.
* `typed_map_is_finite_map`: so it is after any calls.
-/

namespace ScriptMachine

namespace MapObject

/-- The keys in ascending order, each with its value. -/
def pairs (m : MapObject) : List (Value × Value) := m.keys.map fun key => (key, m.getOrNull key)

variable {m m' : MapObject} {key value : Value} {kt vt : Ty}

/-- Exactly when a key can be bound, and what the map is then. -/
theorem set_eq_ok_iff : m.set key value kt vt = .ok m' ↔
    (m.keyType.isInterface = true ∨ m.keyType.accepts kt = true) ∧
    (m.valueType.isInterface = true ∨ value.isNull = true ∨ m.valueType.accepts vt = true) ∧
    ∃ k, Key.ofValue key = .ok k ∧ (m.isFrozen = true → Assoc.contains k m.entries = true) ∧
      m' = { m with entries := Assoc.insert k value m.entries } := by
  unfold set
  by_cases hkey : (!m.keyType.isInterface && !m.keyType.accepts kt) = true
  · have hrefused : ¬ (m.keyType.isInterface = true ∨ m.keyType.accepts kt = true) := by
      simpa using hkey
    simp [hkey, hrefused, bind, Except.bind]
  have hkey' : m.keyType.isInterface = true ∨ m.keyType.accepts kt = true := by
    by_contra hneither
    exact hkey (by simpa using hneither)
  by_cases hvalue : (!m.valueType.isInterface && !value.isNull && !m.valueType.accepts vt) = true
  · have hrefused : ¬ (m.valueType.isInterface = true ∨ value.isNull = true ∨
        m.valueType.accepts vt = true) := by
      simpa [and_assoc] using hvalue
    simp [hkey, hvalue, hrefused, bind, Except.bind]
  have hvalue' : m.valueType.isInterface = true ∨ value.isNull = true ∨
      m.valueType.accepts vt = true := by
    by_contra hneither
    exact hvalue (by simpa [and_assoc] using hneither)
  cases hk : Key.ofValue key with
  | error f => simp [hkey, hvalue, bind, Except.bind]
  | ok k =>
    by_cases hfrozen : (m.isFrozen && !Assoc.contains k m.entries) = true
    · have hrefused : ¬ (m.isFrozen = true → Assoc.contains k m.entries = true) := by
        simpa using hfrozen
      simp [hkey, hvalue, hfrozen, hrefused, bind, Except.bind]
    · have hfree : m.isFrozen = true → Assoc.contains k m.entries = true := by
        simpa using hfrozen
      simp only [hkey, hvalue, hfrozen, bind, Except.bind, Bool.false_eq_true, if_false]
      constructor
      · intro h
        exact ⟨hkey', hvalue', k, rfl, hfree, (Except.ok.inj h).symm⟩
      · rintro ⟨-, -, k', hk', -, rfl⟩
        cases hk'
        rfl

/-- **Each key that is listed has a value.** -/
theorem Keyed.get_of_mem_pairs (h : m.Keyed) {e : Value × Value} (he : e ∈ m.pairs) :
    m.get e.1 = .ok (some e.2) := by
  obtain ⟨key, hkey, rfl⟩ := List.mem_map.1 he
  rw [keys_eq] at hkey
  obtain ⟨k, hk, rfl⟩ := List.mem_map.1 hkey
  obtain ⟨⟨k', v⟩, hv, rfl⟩ := List.mem_map.1 (m.sortedKeys_perm.subset hk)
  have hfound : m.get (k'.toValue m.keyType) = .ok (some v) := by
    rw [h.get_toValue hk, Assoc.lookup_of_mem h.distinct hv]
  show m.get (k'.toValue m.keyType) = .ok (some (m.getOrNull (k'.toValue m.keyType)))
  rw [getOrNull, hfound]

/-- A key of one of the kinds can be deleted, and the answer is whether it was there. -/
theorem delete_of_plain {p : PlainKey} (hp : PlainKey.of? key = some p) :
    m.delete key = .ok (Assoc.contains p.key m.entries,
      { m with entries := Assoc.erase p.key m.entries }) := by
  rw [delete, PlainKey.ofValue_of_of? hp]
  rfl

/-- What a map is keyed by does not depend on the loops that walk it. -/
theorem Represents.congr {f : PlainKey → Option Value} (h : m.Represents f)
    (htype : m'.keyType = m.keyType) (hentries : m'.entries = m.entries) : m'.Represents f := by
  refine ⟨htype ▸ h.plain, ?_⟩
  rw [hentries, htype]
  exact h.entries

end MapObject

/-- Something that is done to a map. -/
inductive MapCall
  | set (r : Ref .map) (key value : Value)
  | get (r : Ref .map) (key : Value)
  | delete (r : Ref .map) (key : Value)
  | merge (r source : Ref .map)
  | freeze (r : Ref .map) (on : Bool)

namespace Heap

/-! ### Calls -/

/-- Sets entries one after the other, up to the first failure. -/
def setAll (r : Ref .map) : List (Value × Value) → HeapM Unit
  | [] => pure ()
  | e :: rest => do
    setEntry r e.1 e.2
    setAll r rest

/-- The entries before the first failure. -/
def taken (h : Heap) (r : Ref .map) : List (Value × Value) → List (Value × Value)
  | [] => []
  | e :: rest =>
    match (setEntry r e.1 e.2).run.run h with
    | (.ok _, h') => e :: h'.taken r rest
    | (.error _, _) => []

end Heap

/-- What is done, without its result. -/
def MapCall.act : MapCall → HeapM Unit
  | .set r key value => Heap.setEntry r key value
  | .get r key => do
    let _ ← ((← MonadState.get).map r).get key
    return ()
  | .delete r key => do
    let _ ← Heap.deleteEntry r key
    return ()
  | .merge r source => Heap.mergeEntries r source
  | .freeze r on => do Heap.putMap r (((← MonadState.get).map r).freeze on)

/-- Keys that are looked up in a map or deleted from it are of the kind it is declared with. -/
def MapCall.Typed (r : Ref .map) (kind : Kind) : MapCall → Prop
  | .get q key | .delete q key => q = r → key.kind = kind
  | _ => True

/-- A finite map after entries were set in it. -/
def PlainKey.bindAll (f : PlainKey → Option Value) : List (Value × Value) → PlainKey → Option Value
  | [] => f
  | e :: rest =>
    match PlainKey.of? e.1 with
    | some p => bindAll (Function.update f p (some e.2)) rest
    | none => bindAll f rest

/-- What a call makes of the finite map for the map `r`: only what succeeds is done. -/
def MapCall.onReference (h : Heap) (r : Ref .map) (f : PlainKey → Option Value) :
    MapCall → PlainKey → Option Value
  | .set q key value => if q = r then PlainKey.bindAll f (h.taken r [(key, value)]) else f
  | .merge q source =>
    if q = r ∧ source ≠ r then PlainKey.bindAll f (h.taken r (h.map source).pairs) else f
  | .delete q key =>
    match PlainKey.of? key with
    | some p => if q = r then Function.update f p none else f
    | none => f
  | .get .. | .freeze .. => f

namespace Heap

/-- The objects after some calls. -/
def after (h : Heap) : List MapCall → Heap
  | [] => h
  | c :: rest => (c.act.run.run h).2.after rest

/-- The finite map for the map `r` after some calls. -/
def reference (h : Heap) (r : Ref .map) (f : PlainKey → Option Value) :
    List MapCall → PlainKey → Option Value
  | [] => f
  | c :: rest => (c.act.run.run h).2.reference r (c.onReference h r f) rest

variable {h h' : Heap} {r q source : Ref .map} {f : PlainKey → Option Value} {key value : Value}
  {p : PlainKey} {m : MapObject}

/-! ### What calls do to the objects -/

/-- The objects with another map in the place of one. -/
def withMap (h : Heap) (r : Ref .map) (m : MapObject) : Heap :=
  { h with maps := h.maps.setIfInBounds r.id m }

theorem map_withMap (h : Heap) (r : Ref .map) (m : MapObject) (q : Ref .map) :
    (h.withMap r m).map q = if q = r ∧ r.id < h.maps.size then m else h.map q := by
  show ((h.maps.setIfInBounds r.id m)[q.id]?).getD _ = _
  rw [Array.getElem?_setIfInBounds]
  by_cases hq : q = r
  · subst hq
    by_cases hlt : q.id < h.maps.size
    · rw [if_pos rfl, if_pos hlt, if_pos ⟨rfl, hlt⟩]
      rfl
    · rw [if_pos rfl, if_neg hlt, if_neg fun hboth => hlt hboth.2, Heap.map,
        Array.getElem?_eq_none (Nat.le_of_not_lt hlt)]
  · rw [if_neg fun hid => hq (by cases r; cases q; cases hid; rfl), if_neg fun hboth => hq hboth.1]
    rfl

/-- The types of all objects are the same. -/
structure SameTypes (h h' : Heap) : Prop where
  arrays : h'.arrays = h.arrays
  structs : h'.structs = h.structs
  size : h'.maps.size = h.maps.size
  keyType : ∀ q, (h'.map q).keyType = (h.map q).keyType
  valueType : ∀ q, (h'.map q).valueType = (h.map q).valueType

theorem SameTypes.refl (h : Heap) : h.SameTypes h := ⟨rfl, rfl, rfl, fun _ => rfl, fun _ => rfl⟩

theorem SameTypes.trans {h'' : Heap} (hfirst : h.SameTypes h') (hsecond : h'.SameTypes h'') :
    h.SameTypes h'' :=
  ⟨hsecond.arrays.trans hfirst.arrays, hsecond.structs.trans hfirst.structs,
    hsecond.size.trans hfirst.size, fun q => (hsecond.keyType q).trans (hfirst.keyType q),
    fun q => (hsecond.valueType q).trans (hfirst.valueType q)⟩

theorem SameTypes.typeOf (hsame : h.SameTypes h') (v : Value) : h'.typeOf v = h.typeOf v := by
  unfold Heap.typeOf
  split
  · rw [Heap.array, Heap.array, hsame.arrays]
  · rw [hsame.keyType, hsame.valueType]
  · rw [Heap.struct, Heap.struct, hsame.structs]
  · rfl
  · rfl

theorem sameTypes_withMap (hkey : m.keyType = (h.map r).keyType)
    (hvalue : m.valueType = (h.map r).valueType) : h.SameTypes (h.withMap r m) := by
  refine ⟨rfl, rfl, Array.size_setIfInBounds, fun q => ?_, fun q => ?_⟩
  · rw [map_withMap]
    split
    · rename_i hq
      rw [hkey, hq.1]
    · rfl
  · rw [map_withMap]
    split
    · rename_i hq
      rw [hvalue, hq.1]
    · rfl

theorem run_setEntry (h : Heap) (r : Ref .map) (key value : Value) :
    (setEntry r key value).run.run h =
      match (h.map r).set key value (h.typeOf key) (h.typeOf value) with
      | .ok m => (.ok (), h.withMap r m)
      | .error f => (.error f, h) := by
  have hall : ∀ result : Except Fault MapObject,
      (do putMap r (← result) : HeapM Unit).run.run h =
        match result with
        | .ok m => (.ok (), h.withMap r m)
        | .error f => (.error f, h) := by
    rintro (f | m) <;> rfl
  exact hall _

theorem run_deleteEntry (h : Heap) (r : Ref .map) (key : Value) :
    (deleteEntry r key).run.run h =
      match (h.map r).delete key with
      | .ok (present, m) => (.ok present, h.withMap r m)
      | .error f => (.error f, h) := by
  have hall : ∀ result : Except Fault (Bool × MapObject),
      (do
        let out ← result
        putMap r out.2
        return out.1 : HeapM Bool).run.run h =
        match result with
        | .ok (present, m) => (.ok present, h.withMap r m)
        | .error f => (.error f, h) := by
    rintro (f | ⟨present, m⟩) <;> rfl
  exact hall _

/-- **What fails changes nothing.** -/
theorem eq_of_setEntry_error {e : Fault} (hset : (setEntry r key value).run.run h = (.error e, h')) :
    h' = h := by
  rw [run_setEntry] at hset
  split at hset <;> cases hset
  rfl

theorem eq_of_deleteEntry_error {e : Fault} (hdelete : (deleteEntry r key).run.run h = (.error e, h')) :
    h' = h := by
  rw [run_deleteEntry] at hdelete
  split at hdelete <;> cases hdelete
  rfl

theorem run_setAll_cons (h : Heap) (r : Ref .map) (e : Value × Value) (rest : List (Value × Value)) :
    (setAll r (e :: rest)).run.run h =
      match (setEntry r e.1 e.2).run.run h with
      | (.ok _, h') => (setAll r rest).run.run h'
      | (.error f, h') => (.error f, h') := by
  show ((setEntry r e.1 e.2 >>= fun _ => setAll r rest : HeapM Unit).run.run h) = _
  rw [ExceptT.run_bind, StateT.run_bind]
  rcases (setEntry r e.1 e.2).run.run h with ⟨f | u, h'⟩ <;> rfl

theorem state_setAll_single (h : Heap) (r : Ref .map) (key value : Value) :
    ((setAll r [(key, value)]).run.run h).2 = ((setEntry r key value).run.run h).2 := by
  rw [run_setAll_cons]
  rcases (setEntry r key value).run.run h with ⟨e | u, h'⟩ <;> rfl

/-- A lookup changes nothing, whether it succeeds or not. -/
theorem state_get (h : Heap) (r : Ref .map) (key : Value) :
    ((MapCall.get r key).act.run.run h).2 = h := by
  have hall : ∀ result : Except Fault (Option Value),
      ((do let _ ← result; return () : HeapM Unit).run.run h).2 = h := by
    rintro (e | found) <;> rfl
  exact hall _

theorem state_delete (h : Heap) (r : Ref .map) (key : Value) :
    ((MapCall.delete r key).act.run.run h).2 = ((deleteEntry r key).run.run h).2 := by
  show ((deleteEntry r key >>= fun _ => pure () : HeapM Unit).run.run h).2 = _
  rw [ExceptT.run_bind, StateT.run_bind]
  rcases (deleteEntry r key).run.run h with ⟨e | present, h'⟩ <;> rfl

/-- A map that is merged into itself stays as it is. -/
theorem run_mergeEntries_self (h : Heap) (r : Ref .map) :
    (mergeEntries r r).run.run h = (.ok (), h) := by
  unfold mergeEntries
  rw [if_pos rfl]
  rfl

/-- A key that a map lists can be looked up, whether it is found or not. -/
theorem MapObject.exists_get_of_mem_keys {m : MapObject} {key : Value} (hkey : key ∈ m.keys) :
    ∃ found, m.get key = .ok found ∧ found.getD .null = m.getOrNull key := by
  obtain ⟨k, -, rfl⟩ := List.mem_map.1 hkey
  obtain ⟨k', hk'⟩ := k.exists_ofValue_toValue m.keyType
  have hget : m.get (k.toValue m.keyType) = .ok (m.entries.lookup k') := by
    rw [MapObject.get, hk']
    rfl
  refine ⟨_, hget, ?_⟩
  rw [MapObject.getOrNull, hget]
  cases m.entries.lookup k' <;> rfl

/-- **Merging sets the entries of the other map**, in the order of its keys, up to the first
failure. -/
theorem run_mergeEntries (hne : r ≠ source) :
    (mergeEntries r source).run.run h = (setAll r (h.map source).pairs).run.run h := by
  have hloop : ∀ (keys : List Value), keys ⊆ (h.map source).keys → ∀ h' : Heap,
      (forIn keys PUnit.unit (fun key _ => do
        let value := (← (h.map source).get key).getD .null
        setEntry r key value
        pure (ForInStep.yield PUnit.unit)) : HeapM PUnit).run.run h'
      = (setAll r (keys.map fun key => (key, (h.map source).getOrNull key))).run.run h' := by
    intro keys
    induction keys with
    | nil => exact fun _ _ => rfl
    | cons key rest ih =>
      intro hsubset h'
      obtain ⟨found, hfound, hvalue⟩ := MapObject.exists_get_of_mem_keys (hsubset List.mem_cons_self)
      have hrest := ih fun k hk => hsubset (List.mem_cons_of_mem _ hk)
      rw [List.map_cons, run_setAll_cons, List.forIn_cons]
      have hlift : (liftM (Except.ok found : Except Fault _) : HeapM (Option Value)) = pure found := rfl
      dsimp only
      rw [hfound, hlift]
      simp only [pure_bind, bind_assoc, hvalue]
      rw [ExceptT.run_bind, StateT.run_bind]
      rcases (setEntry r key ((h.map source).getOrNull key)).run.run h' with ⟨f | u, h''⟩
      · rfl
      · exact hrest h''
  unfold mergeEntries
  rw [if_neg hne]
  have hunit : ∀ act : HeapM PUnit, (act >>= fun _ => pure ()).run.run h = act.run.run h := by
    intro act
    rw [bind_pure_unit]
  exact (hunit _).trans (hloop _ (fun _ hk => hk) h)

/-! ### The finite map behind a map -/

theorem bindAll_cons (f : PlainKey → Option Value) (e : Value × Value) (rest : List (Value × Value)) :
    PlainKey.bindAll f (e :: rest) = PlainKey.bindAll (PlainKey.bindAll f [e]) rest := by
  simp only [PlainKey.bindAll]
  split <;> rfl

theorem bindAll_single (hkey : PlainKey.of? key = some p) (value : Value) :
    PlainKey.bindAll f [(key, value)] = Function.update f p (some value) := by
  simp only [PlainKey.bindAll, hkey]

/-- The map `r`, declared with key type `kt` and value type `vt`, agrees with a finite map. -/
structure Tracks (h : Heap) (r : Ref .map) (kt vt : Ty) (f : PlainKey → Option Value) : Prop where
  keyed : ∀ q, (h.map q).Keyed
  bound : r.id < h.maps.size
  keyType : (h.map r).keyType = kt
  valueType : (h.map r).valueType = vt
  represents : (h.map r).Represents f
  admitted : ∀ p v, f p = some v → v.isNull = true ∨ vt.accepts (h.typeOf v) = true

variable {kt vt : Ty} {g : PlainKey → Option Value}

/-- A type of one of the kinds accepts the values of its kind. -/
theorem accepts_ofKind {t : Ty} (h : t.kind ∈ PlainKey.kinds) : t.accepts (.ofKind t.kind) = true := by
  cases t with
  | basic d k => cases k <;> rfl
  | _ => exact absurd h (by simp [Ty.kind, PlainKey.kinds])

theorem isInterface_of_kind {t : Ty} (h : t.kind ∈ PlainKey.kinds) : t.isInterface = false := by
  rw [Ty.isInterface]
  by_contra hopen
  rw [eq_of_beq (by simpa using hopen : (t.kind == .interface) = true)] at h
  exact absurd h (by decide)

namespace Tracks

/-- Another map is changed. -/
theorem withMap_of_ne (ht : h.Tracks r kt vt f) (hne : q ≠ r) (hkey : m.keyType = (h.map q).keyType)
    (hvalue : m.valueType = (h.map q).valueType) (hkeyed : m.Keyed) :
    (h.withMap q m).Tracks r kt vt f := by
  have hsame := sameTypes_withMap hkey hvalue
  have hmap : (h.withMap q m).map r = h.map r := by
    rw [map_withMap, if_neg fun hboth => hne hboth.1.symm]
  refine ⟨fun x => ?_, hsame.size ▸ ht.bound, (hsame.keyType r).trans ht.keyType,
    (hsame.valueType r).trans ht.valueType, hmap ▸ ht.represents, fun p v hp => ?_⟩
  · rw [map_withMap]
    split
    · exact hkeyed
    · exact ht.keyed x
  · rw [hsame.typeOf]
    exact ht.admitted p v hp

/-- The map itself is changed. -/
theorem withMap_self (ht : h.Tracks r kt vt f) (hkey : m.keyType = (h.map r).keyType)
    (hvalue : m.valueType = (h.map r).valueType) (hrepresents : m.Represents g)
    (hadmitted : ∀ p v, g p = some v → v.isNull = true ∨ vt.accepts (h.typeOf v) = true) :
    (h.withMap r m).Tracks r kt vt g := by
  have hsame := sameTypes_withMap hkey hvalue
  have hmap : (h.withMap r m).map r = m := by rw [map_withMap, if_pos ⟨rfl, ht.bound⟩]
  refine ⟨fun x => ?_, hsame.size ▸ ht.bound, (hsame.keyType r).trans ht.keyType,
    (hsame.valueType r).trans ht.valueType, by rw [hmap]; exact hrepresents, fun p v hp => ?_⟩
  · rw [map_withMap]
    split
    · exact hrepresents.keyed
    · exact ht.keyed x
  · rw [hsame.typeOf]
    exact hadmitted p v hp

theorem plain (ht : h.Tracks r kt vt f) : kt.kind ∈ PlainKey.kinds := by
  rw [← ht.keyType]
  exact ht.represents.plain

/-- The declared kind of key is that of the map's key type. -/
theorem kind_eq (ht : h.Tracks r kt vt f) (hp : p.kind = kt.kind) :
    p.kind = (h.map r).keyType.kind := by
  rw [hp, ht.keyType]

/-- **Exactly when a key can be bound**, and what the map is then. -/
theorem set_eq_ok_iff (ht : h.Tracks r kt vt f) :
    (h.map r).set key value (h.typeOf key) (h.typeOf value) = .ok m ↔
    ∃ p, PlainKey.of? key = some p ∧ p.kind = kt.kind ∧
      (value.isNull = true ∨ vt.accepts (h.typeOf value) = true) ∧
      ((h.map r).isFrozen = true → (f p).isSome = true) ∧
      m = { h.map r with entries := Assoc.insert p.key value (h.map r).entries } := by
  have hclosed := isInterface_of_kind ht.plain
  rw [MapObject.set_eq_ok_iff]
  constructor
  · rintro ⟨hadmits, hvalue, k, hk, hbound, rfl⟩
    rw [ht.keyType, hclosed] at hadmits
    rw [ht.valueType] at hvalue
    obtain ⟨hscalar, htype⟩ := Key.kind_of_ofValue hk
    have haccepts := hadmits.resolve_left Bool.false_ne_true
    rw [htype h] at haccepts
    have hkind := Ty.kind_of_accepts hscalar (by rw [hclosed]; exact Bool.false_ne_true) haccepts
    obtain ⟨p, hp⟩ := PlainKey.exists_of_kind (hkind ▸ ht.plain)
    have hpkind : p.kind = kt.kind := (PlainKey.kind_of_of? hp).symm.trans hkind
    obtain rfl : k = p.key := Except.ok.inj (hk.symm.trans (PlainKey.ofValue_of_of? hp))
    refine ⟨p, hp, hpkind, ?_, fun hfrozen => ?_, rfl⟩
    · rcases hvalue with hopen | hvalue
      · exact .inr (by unfold Ty.accepts; simp [hopen])
      · exact hvalue
    · rw [← ht.represents.contains (ht.kind_eq hpkind)]
      exact hbound hfrozen
  · rintro ⟨p, hp, hkind, hvalue, hbound, rfl⟩
    have hk := PlainKey.ofValue_of_of? hp
    refine ⟨.inr ?_, .inr ?_, p.key, hk, fun hfrozen => ?_, rfl⟩
    · rw [ht.keyType, (Key.kind_of_ofValue hk).2 h, PlainKey.kind_of_of? hp, hkind]
      exact accepts_ofKind ht.plain
    · rw [ht.valueType]
      exact hvalue
    · rw [ht.represents.contains (ht.kind_eq hkind)]
      exact hbound hfrozen

/-- **Setting one entry**, here or elsewhere. -/
theorem setEntry (ht : h.Tracks r kt vt f)
    (hset : (setEntry q key value).run.run h = (.ok (), h')) :
    h'.Tracks r kt vt (if q = r then PlainKey.bindAll f [(key, value)] else f) := by
  rw [run_setEntry] at hset
  split at hset
  · rename_i m hm
    cases hset
    by_cases hq : q = r
    · subst hq
      rw [if_pos rfl]
      obtain ⟨p, hp, hkind, hvalue, -, rfl⟩ := ht.set_eq_ok_iff.1 hm
      rw [bindAll_single hp]
      refine ht.withMap_self rfl rfl
        (ht.represents.insert (ht.kind_eq hkind) value) fun p' v hv => ?_
      by_cases hp' : p' = p
      · subst hp'
        rw [Function.update_self] at hv
        cases hv
        exact hvalue
      · rw [Function.update_of_ne hp'] at hv
        exact ht.admitted p' v hv
    · rw [if_neg hq]
      obtain ⟨k, -, hset, -⟩ := MapObject.set_eq_ok hm
      refine ht.withMap_of_ne hq (by rw [hset]) (by rw [hset]) ?_
      exact (ht.keyed q).set (fun k hk => (Key.kind_of_ofValue hk).2 h) hm
  · cases hset

/-- **Setting entries one after the other.** Those before the first failure are there. -/
theorem setAll (ht : h.Tracks r kt vt f) (q : Ref .map) (es : List (Value × Value)) :
    ((setAll q es).run.run h).2.Tracks r kt vt
      (if q = r then PlainKey.bindAll f (h.taken q es) else f) := by
  induction es generalizing h f with
  | nil =>
    have hsame : (if q = r then PlainKey.bindAll f (h.taken q []) else f) = f := by split <;> rfl
    rw [hsame]
    exact ht
  | cons e rest ih =>
    rw [run_setAll_cons, taken]
    rcases hset : (Heap.setEntry q e.1 e.2).run.run h with ⟨e' | u, h'⟩
    · obtain rfl := eq_of_setEntry_error hset
      have hsame : (if q = r then PlainKey.bindAll f [] else f) = f := by split <;> rfl
      dsimp only
      rw [hsame]
      exact ht
    · have hrest := ih (ht.setEntry hset)
      dsimp only
      by_cases hq : q = r
      · rw [if_pos hq, if_pos hq] at hrest
        rw [if_pos hq, bindAll_cons]
        exact hrest
      · rw [if_neg hq, if_neg hq] at hrest
        rw [if_neg hq]
        exact hrest

theorem deleteEntry (ht : h.Tracks r kt vt f) (htyped : q = r → key.kind = kt.kind) :
    ((deleteEntry q key).run.run h).2.Tracks r kt vt
      (match PlainKey.of? key with
        | some p => if q = r then Function.update f p none else f
        | none => f) := by
  rw [run_deleteEntry]
  by_cases hq : q = r
  · subst hq
    obtain ⟨p, hp⟩ := PlainKey.exists_of_kind (htyped rfl ▸ ht.plain)
    have hkind : p.kind = kt.kind := by rw [← PlainKey.kind_of_of? hp, htyped rfl]
    rw [MapObject.delete_of_plain hp, hp]
    dsimp only
    rw [if_pos rfl]
    refine ht.withMap_self rfl rfl (ht.represents.erase (ht.kind_eq hkind)) fun p' v hv => ?_
    by_cases hp' : p' = p
    · rw [hp', Function.update_self] at hv
      cases hv
    · rw [Function.update_of_ne hp'] at hv
      exact ht.admitted p' v hv
  · have hsame : (match PlainKey.of? key with
        | some p => if q = r then Function.update f p none else f
        | none => f) = f := by
      split
      · exact if_neg hq
      · rfl
    rw [hsame]
    split
    · rename_i present m hm
      obtain ⟨k, rfl⟩ := MapObject.delete_eq_ok hm
      exact ht.withMap_of_ne hq rfl rfl
        ((ht.keyed q).sublist rfl (Assoc.map_fst_erase_sublist k _))
    · exact ht

/-- **One call** keeps a map in step with the finite map. -/
theorem call (ht : h.Tracks r kt vt f) {c : MapCall} (htyped : c.Typed r kt.kind) :
    (c.act.run.run h).2.Tracks r kt vt (c.onReference h r f) := by
  cases c with
  | set q key value =>
    have hall := ht.setAll q [(key, value)]
    rw [state_setAll_single] at hall
    show ((Heap.setEntry q key value).run.run h).2.Tracks r kt vt (if _ then _ else _)
    by_cases hq : q = r
    · subst hq
      exact hall
    · rw [if_neg hq] at hall ⊢
      exact hall
  | get q key =>
    rw [state_get]
    exact ht
  | delete q key =>
    rw [state_delete]
    exact ht.deleteEntry htyped
  | merge q source =>
    by_cases hself : q = source
    · subst hself
      have hrun : ((MapCall.merge q q).act.run.run h).2 = h :=
        congrArg Prod.snd (run_mergeEntries_self h q)
      have hsame : (MapCall.merge q q).onReference h r f = f :=
        if_neg fun hboth => hboth.2 hboth.1
      rw [hrun, hsame]
      exact ht
    · have hall := ht.setAll q (h.map source).pairs
      rw [← run_mergeEntries hself] at hall
      show ((mergeEntries q source).run.run h).2.Tracks r kt vt (if _ then _ else _)
      by_cases hq : q = r
      · subst hq
        rw [if_pos rfl] at hall
        rw [if_pos ⟨rfl, Ne.symm hself⟩]
        exact hall
      · rw [if_neg hq] at hall
        rw [if_neg fun hboth => hq hboth.1]
        exact hall
  | freeze q on =>
    have hkeyed : ((h.map q).freeze on).Keyed := (ht.keyed q).sublist rfl (.refl _)
    show (h.withMap q ((h.map q).freeze on)).Tracks r kt vt f
    by_cases hq : q = r
    · subst hq
      exact ht.withMap_self rfl rfl (ht.represents.congr rfl rfl) ht.admitted
    · exact ht.withMap_of_ne hq rfl rfl hkeyed

/-- **Any calls** do. -/
theorem after (ht : h.Tracks r kt vt f) {calls : List MapCall}
    (htyped : ∀ c ∈ calls, c.Typed r kt.kind) :
    (h.after calls).Tracks r kt vt (h.reference r f calls) := by
  induction calls generalizing h f with
  | nil => exact ht
  | cons c rest ih =>
    exact ih (ht.call (htyped c List.mem_cons_self))
      fun c' hc' => htyped c' (List.mem_cons_of_mem _ hc')

/-! ### Frozen maps -/

/-- While the map is frozen, no entries that are taken bring a new key. -/
theorem isSome_of_taken (ht : h.Tracks r kt vt f) (hfrozen : (h.map r).isFrozen = true)
    {es : List (Value × Value)} (hp : (PlainKey.bindAll f (h.taken r es) p).isSome = true) :
    (f p).isSome = true := by
  induction es generalizing h f with
  | nil => exact hp
  | cons e rest ih =>
    rw [taken] at hp
    rcases hset : (Heap.setEntry r e.1 e.2).run.run h with ⟨e' | u, h'⟩
    · rw [hset] at hp
      exact hp
    · rw [hset, bindAll_cons] at hp
      have hnext := ht.setEntry hset
      rw [if_pos rfl] at hnext
      rw [run_setEntry] at hset
      split at hset
      · rename_i m hm
        cases hset
        obtain ⟨p', hp', -, -, hpresent, rfl⟩ := ht.set_eq_ok_iff.1 hm
        have hstill : ((h.withMap r { h.map r with
            entries := Assoc.insert p'.key e.2 (h.map r).entries }).map r).isFrozen = true := by
          rw [map_withMap, if_pos ⟨rfl, ht.bound⟩]
          exact hfrozen
        have hbefore := ih hnext hstill hp
        rw [bindAll_single hp'] at hbefore
        by_cases heq : p = p'
        · rw [heq]
          exact hpresent hfrozen
        · rwa [Function.update_of_ne heq] at hbefore
      · cases hset

theorem isSome_of_call (ht : h.Tracks r kt vt f) (hfrozen : (h.map r).isFrozen = true)
    {c : MapCall} (hp : (c.onReference h r f p).isSome = true) : (f p).isSome = true := by
  cases c with
  | set q key value =>
    by_cases hq : q = r
    · have htaken : (PlainKey.bindAll f (h.taken r [(key, value)]) p).isSome = true := by
        simpa only [MapCall.onReference, if_pos hq] using hp
      exact ht.isSome_of_taken hfrozen htaken
    · simpa only [MapCall.onReference, if_neg hq] using hp
  | get q key => exact hp
  | delete q key =>
    cases hkey : PlainKey.of? key with
    | none => simpa only [MapCall.onReference, hkey] using hp
    | some p' =>
      by_cases hq : q = r
      · simp only [MapCall.onReference, hkey, if_pos hq] at hp
        by_cases heq : p = p'
        · rw [heq, Function.update_self] at hp
          cases hp
        · rwa [Function.update_of_ne heq] at hp
      · simpa only [MapCall.onReference, hkey, if_neg hq] using hp
  | merge q source =>
    by_cases hq : q = r ∧ source ≠ r
    · have htaken : (PlainKey.bindAll f (h.taken r (h.map source).pairs) p).isSome = true := by
        simpa only [MapCall.onReference, if_pos hq] using hp
      exact ht.isSome_of_taken hfrozen htaken
    · simpa only [MapCall.onReference, if_neg hq] using hp
  | freeze q on => exact hp

/-- **While a map is frozen, no call brings a key.** -/
theorem keys_subset (ht : h.Tracks r kt vt f) (hfrozen : (h.map r).isFrozen = true) {c : MapCall}
    (htyped : c.Typed r kt.kind) : ((c.act.run.run h).2.map r).keys ⊆ (h.map r).keys := by
  intro key hkey
  obtain ⟨ps, hps, -, -, hmem, -⟩ := ht.represents.keys
  obtain ⟨ps', hps', -, -, hmem', -⟩ := (ht.call htyped).represents.keys
  rw [hps'] at hkey
  obtain ⟨p, hp, rfl⟩ := List.mem_map.1 hkey
  rw [hps]
  exact List.mem_map_of_mem ((hmem p).2 (ht.isSome_of_call hfrozen ((hmem' p).1 hp)))

end Tracks

/-! ### What the map shows, and what it does -/

/-- What can be read of a map that is declared with key type `kt` and value type `vt` is what the
finite map has. -/
structure IsFiniteMap (h : Heap) (r : Ref .map) (kt vt : Ty) (f : PlainKey → Option Value) : Prop where
  declared : (h.map r).keyType = kt ∧ (h.map r).valueType = vt
  get : ∀ key p, PlainKey.of? key = some p → p.kind = kt.kind → (h.map r).get key = .ok (f p)
  /-- The keys are listed in ascending order, each once: those that are present, and no others. -/
  keys : ∃ ps : List PlainKey, (h.map r).keys = ps.map PlainKey.value ∧ ps.Pairwise PlainKey.lt ∧
    (∀ p, p ∈ ps ↔ (f p).isSome = true) ∧ ps.length = (h.map r).size
  kind : ∀ key ∈ (h.map r).keys, key.kind = kt.kind
  /-- Each key that is listed is found again. -/
  get_keys : ∀ key ∈ (h.map r).keys, ∃ p v, PlainKey.of? key = some p ∧ f p = some v ∧
    (h.map r).get key = .ok (some v)
  admitted : ∀ p v, f p = some v → v.isNull = true ∨ vt.accepts (h.typeOf v) = true

/-- What can be done to such a map. -/
structure Obeys (h : Heap) (r : Ref .map) (kt vt : Ty) (f : PlainKey → Option Value) : Prop where
  /-- A key can be bound if it is of the declared kind and the value is admitted, and if it is there
  already, should the map be frozen. -/
  set_iff : ∀ key value, (∃ h', (setEntry r key value).run.run h = (.ok (), h')) ↔
    ∃ p, PlainKey.of? key = some p ∧ p.kind = kt.kind ∧
      (value.isNull = true ∨ vt.accepts (h.typeOf value) = true) ∧
      ((h.map r).isFrozen = true → (f p).isSome = true)
  set_error : ∀ key value e h', (setEntry r key value).run.run h = (.error e, h') → h' = h
  /-- A key of the declared kind can be deleted, whether the map is frozen or not. -/
  delete : ∀ key p, PlainKey.of? key = some p → p.kind = kt.kind →
    ∃ h', (deleteEntry r key).run.run h = (.ok (f p).isSome, h')
  delete_error : ∀ key e h', (deleteEntry r key).run.run h = (.error e, h') → h' = h
  frozen : (h.map r).isFrozen = true → ∀ c : MapCall, c.Typed r kt.kind →
    ((c.act.run.run h).2.map r).keys ⊆ (h.map r).keys
  /-- Merging another map sets its entries in the order of its keys, up to the first failure. -/
  merge : ∀ source, r ≠ source →
    (mergeEntries r source).run.run h = (setAll r (h.map source).pairs).run.run h ∧
    (h.map source).pairs.map (·.1) = (h.map source).keys ∧
    (∀ e ∈ (h.map source).pairs, (h.map source).get e.1 = .ok (some e.2)) ∧
    (h.map source).sortedKeys.IsChain fun lower upper => lower.order upper = .lt
  merge_self : (mergeEntries r r).run.run h = (.ok (), h)

theorem Tracks.isFiniteMap (ht : h.Tracks r kt vt f) : h.IsFiniteMap r kt vt f := by
  obtain ⟨ps, hps, hlt, hkind, hmem, hlength⟩ := ht.represents.keys
  refine ⟨⟨ht.keyType, ht.valueType⟩, fun key p hkey hp => ht.represents.get hkey (ht.kind_eq hp),
    ⟨ps, hps, hlt, hmem, hlength⟩, fun key hkey => ?_, fun key hkey => ?_, ht.admitted⟩
  · rw [hps] at hkey
    obtain ⟨p, hp, rfl⟩ := List.mem_map.1 hkey
    rw [PlainKey.kind_of_of? (PlainKey.of?_value p), hkind p hp, ht.keyType]
  · rw [hps] at hkey
    obtain ⟨p, hp, rfl⟩ := List.mem_map.1 hkey
    obtain ⟨v, hv⟩ := Option.isSome_iff_exists.1 ((hmem p).1 hp)
    refine ⟨p, v, PlainKey.of?_value p, hv, ?_⟩
    rw [ht.represents.get (PlainKey.of?_value p) (hkind p hp), hv]

theorem Tracks.obeys (ht : h.Tracks r kt vt f) : h.Obeys r kt vt f where
  set_iff key value := by
    have hrun := run_setEntry h r key value
    constructor
    · rintro ⟨h', hset⟩
      rw [hrun] at hset
      split at hset
      · rename_i m hm
        obtain ⟨p, hp, hkind, hvalue, hbound, -⟩ := ht.set_eq_ok_iff.1 hm
        exact ⟨p, hp, hkind, hvalue, hbound⟩
      · cases hset
    · rintro ⟨p, hp, hkind, hvalue, hbound⟩
      rw [ht.set_eq_ok_iff.2 ⟨p, hp, hkind, hvalue, hbound, rfl⟩] at hrun
      exact ⟨_, hrun⟩
  set_error key value e h' := eq_of_setEntry_error
  delete key p hp hkind := by
    have hrun := run_deleteEntry h r key
    rw [MapObject.delete_of_plain hp, ht.represents.contains (ht.kind_eq hkind)] at hrun
    exact ⟨_, hrun⟩
  delete_error key e h' := eq_of_deleteEntry_error
  frozen hfrozen c htyped := ht.keys_subset hfrozen htyped
  merge source hne := by
    refine ⟨run_mergeEntries hne, ?_,
      fun e he => (ht.keyed source).get_of_mem_pairs he, (ht.keyed source).isChain_sortedKeys⟩
    rw [MapObject.pairs, List.map_map]
    exact List.map_id _
  merge_self := run_mergeEntries_self h r

/-- **A typed map is a finite map.** Among empty maps, one is keyed by booleans, by integers of one
kind or by strings. After any calls on these maps, as long as what is looked up in that one or deleted
from it is of the kind it is declared with, it agrees with the finite map that was driven by the calls
that succeeded; and this is what can be done to it next. -/
theorem typed_map_is_finite_map {h : Heap} {r : Ref .map} (hbound : r.id < h.maps.size)
    (hempty : ∀ q, (h.map q).entries = []) (hplain : (h.map r).keyType.kind ∈ PlainKey.kinds)
    {calls : List MapCall} (htyped : ∀ c ∈ calls, c.Typed r (h.map r).keyType.kind) :
    (h.after calls).IsFiniteMap r (h.map r).keyType (h.map r).valueType
      (h.reference r (fun _ => none) calls) ∧
    (h.after calls).Obeys r (h.map r).keyType (h.map r).valueType
      (h.reference r (fun _ => none) calls) := by
  have hstart : h.Tracks r (h.map r).keyType (h.map r).valueType fun _ => none := by
    refine ⟨fun q => ⟨?_, ?_⟩, hbound, rfl, rfl, .empty hplain (hempty r), nofun⟩
    · rw [hempty q]
      nofun
    · rw [hempty q]
      exact .nil
  have hafter := hstart.after htyped
  exact ⟨hafter.isFiniteMap, hafter.obeys⟩

/-- A map from integers to strings, and a map from anything to anything. -/
def drawers : Heap := { maps := #[⟨.ofKind .int, .ofKind .string, [], 0⟩, ⟨.interface, .interface, [], 0⟩] }

/-- The second map has an entry that the first one cannot take, after one that it can; then the first
map is frozen, and refuses a key. -/
def drawerCalls : List MapCall :=
  [.set ⟨1⟩ (.string "k") .null, .set ⟨1⟩ (.constant (.int 7)) (.string "seven"),
    .set ⟨0⟩ (.int 9) (.string "nine"), .merge ⟨0⟩ ⟨1⟩, .freeze ⟨0⟩ true,
    .set ⟨0⟩ (.int 8) (.string "eight"), .delete ⟨0⟩ (.int 9)]

theorem typed_map_is_finite_map_of_drawers :
    (∀ q, (drawers.map q).entries = []) ∧ (∀ c ∈ drawerCalls, c.Typed ⟨0⟩ .int) ∧
      ((drawers.after drawerCalls).map ⟨0⟩).get (.int 7) = .ok (some (.string "seven")) ∧
      ((drawers.after drawerCalls).map ⟨0⟩).get (.int 8) = .ok none ∧
      ((drawers.after drawerCalls).map ⟨0⟩).get (.int 9) = .ok none := by
  have hempty : ∀ q, (drawers.map q).entries = [] := by
    rintro ⟨_ | _ | n⟩
    · rfl
    · rfl
    · simp [Heap.map, drawers]
  have htyped : ∀ c ∈ drawerCalls, c.Typed ⟨0⟩ .int := by
    simp only [drawerCalls, List.forall_mem_cons]
    exact ⟨trivial, trivial, trivial, trivial, trivial, trivial, fun _ => rfl, nofun⟩
  obtain ⟨hfinite, -⟩ := typed_map_is_finite_map (r := ⟨0⟩) (by decide) hempty (by decide) htyped
  exact ⟨hempty, htyped, hfinite.get (.int 7) (.int 7) rfl rfl, hfinite.get (.int 8) (.int 8) rfl rfl,
    hfinite.get (.int 9) (.int 9) rfl rfl⟩

end Heap

end ScriptMachine
