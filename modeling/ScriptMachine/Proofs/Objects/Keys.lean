import ScriptMachine.Heap
import ScriptMachine.Proofs.Objects.Precision

/-!
# Keys of maps

A map gives its keys out as values of its key type, and takes such a value for the same key again.

* `Key.sort_perm`, `Key.sort_isChain`: the sorted keys are the same keys, in ascending order.
* `Key.exists_ofValue_toValue`: what a map gives out as a key is taken for one.
* `Key.Fits`: a key survives as a value of a key type; `Key.fits_of_ofValue`: so do all keys that a
  map lets in.
* `MapObject.Keyed`: the keys of a map fit its key type and differ from each other;
  `Keyed.set`: an update keeps them so.
* `MapObject.sortedKeys`: the keys that a map gives out; `Keyed.get_toValue`: the value of one.
-/

namespace ScriptMachine

namespace Value

/-- What is converted to a numeric kind is a number. -/
theorem isScalar_of_toNumber {v w : Value} {k : Kind} (h : v.toNumber k = .ok w) :
    w.kind.isScalar = true := by
  unfold toNumber at h
  split at h
  all_goals
    first
    | cases h
    | (cases hread : v.toInt64 with
       | error f => rw [hread] at h; cases h
       | ok n => rw [hread] at h; cases h; rfl)
    | (cases hread : v.toBinary64 with
       | error f => rw [hread] at h; cases h
       | ok n => rw [hread] at h; cases h; rfl)

theorem isScalar_of_toBool {v w : Value} (h : v.toBool = .ok w) : w.kind.isScalar = true := by
  unfold toBool at h
  dsimp only at h
  split at h
  · split at h
    · cases h
      rfl
    · split at h
      · cases h
        rfl
      · cases h
  · split at h
    · cases h
      rfl
    · cases h

/-- What is converted to a scalar kind is a scalar, if it was one already. -/
theorem isScalar_of_toScalar {v w : Value} {k : Kind} (hv : v.kind.isScalar = true)
    (h : v.toScalar k = .ok w) : w.kind.isScalar = true := by
  unfold toScalar at h
  split at h
  · cases h
    exact hv
  split at h
  · exact isScalar_of_toBool h
  split at h
  · exact isScalar_of_toNumber h
  · by_cases hfloat : k = .float32 ∨ k = .float64
    · rw [if_pos hfloat] at h
      split at h
      · exact isScalar_of_toNumber h
      · cases h
    · rw [if_neg hfloat] at h
      exact isScalar_of_toNumber h
  · rw [if_pos hv] at h
    exact isScalar_of_toNumber h

end Value

namespace Key

/-! ### The order of keys -/

theorem swap_order (a b : Key) : (a.order b).swap = b.order a := by
  cases a <;> cases b
  case string.string x y =>
    show (compare x y).swap = compare y x
    exact Std.OrientedOrd.eq_swap.symm
  all_goals exact Std.OrientedOrd.eq_swap.symm

theorem order_self (a : Key) : a.order a = .eq := by
  cases a <;> simp [order, compareOfLessAndEq]

instance : ReflBEq Key := ⟨by intro a; show (a.order a == .eq) = true; rw [order_self]; rfl⟩

theorem beq_comm (a b : Key) : (a == b) = (b == a) := by
  show (a.order b == .eq) = (b.order a == .eq)
  rw [← swap_order a b]
  cases a.order b <;> rfl

/-! ### Sorting -/

theorem insertDown_perm (k : Key) (ks : List Key) : (insertDown k ks).Perm (k :: ks) := by
  induction ks with
  | nil => exact .refl _
  | cons top rest ih =>
    unfold insertDown
    split
    · exact (ih.cons top).trans (.swap k top rest)
    · exact .refl _

/-- No key is below the next one. -/
theorem insertDown_isChain (k : Key) {ks : List Key}
    (h : ks.IsChain fun upper lower => upper.order lower ≠ .lt) :
    (insertDown k ks).IsChain fun upper lower => upper.order lower ≠ .lt := by
  induction ks with
  | nil => exact .singleton k
  | cons top rest ih =>
    unfold insertDown
    split
    · rename_i hlt
      have htop : top.order k ≠ .lt := by
        rw [← swap_order, eq_of_beq hlt]
        nofun
      have hrest := ih h.of_cons
      cases rest with
      | nil => exact .cons_cons htop hrest
      | cons next rest =>
        have hnext := (List.isChain_cons_cons.1 h).1
        unfold insertDown at hrest ⊢
        split
        · rename_i hbelow
          rw [if_pos hbelow] at hrest
          exact .cons_cons hnext hrest
        · rename_i hbelow
          rw [if_neg hbelow] at hrest
          exact .cons_cons htop hrest
    · rename_i hlt
      exact .cons_cons (by simpa using hlt) h

theorem foldl_insertDown (ks acc : List Key)
    (h : acc.IsChain fun upper lower => upper.order lower ≠ .lt) :
    (ks.foldl (fun acc k => insertDown k acc) acc).Perm (ks ++ acc) ∧
      (ks.foldl (fun acc k => insertDown k acc) acc).IsChain
        fun upper lower => upper.order lower ≠ .lt := by
  induction ks generalizing acc with
  | nil => exact ⟨.refl _, h⟩
  | cons k ks ih =>
    obtain ⟨hperm, hchain⟩ := ih (insertDown k acc) (insertDown_isChain k h)
    refine ⟨hperm.trans ?_, hchain⟩
    exact ((insertDown_perm k acc).append_left ks).trans List.perm_middle

/-- Sorting keeps the keys. -/
theorem sort_perm (ks : List Key) : (sort ks).Perm ks := by
  have h := (foldl_insertDown ks [] .nil).1
  rw [List.append_nil] at h
  exact (List.reverse_perm _).trans h

/-- **Sorted keys ascend.** -/
theorem sort_isChain (ks : List Key) :
    (sort ks).IsChain fun lower upper => lower.order upper ≠ .gt := by
  rw [sort, List.isChain_reverse]
  refine (foldl_insertDown ks [] .nil).2.imp fun a b h heq => h ?_
  rw [← swap_order, heq]
  rfl

/-! ### Keys as values -/

/-- The value that stands for a key in a key type is taken for the same key. -/
def Fits (type : Ty) (k : Key) : Prop := ofValue (k.toValue type) = .ok k

theorem fits_of_widest {type : Ty} {k : Key} (h : k.widest.kind = type.kind) : k.Fits type := by
  have hscalar : k.widest.toScalar type.kind = .ok k.widest := by
    unfold Value.toScalar
    exact if_pos h
  have hself : k.toValue type = k.widest := by
    rw [toValue, hscalar]
  rw [Fits, hself]
  cases k <;> rfl

/-- Any key fits a map that is open to all. -/
theorem fits_of_isInterface {type : Ty} (h : type.isInterface = true) (k : Key) :
    k.Fits type := by
  have hkind : type.kind = .interface := eq_of_beq h
  have hself : k.toValue type = k.widest := by
    rw [toValue, hkind]
    cases k <;> rfl
  rw [Fits, hself]
  cases k <;> rfl

theorem unwrapped_ne_constant (v w : Value) : v.unwrapped ≠ .constant w := by
  fun_induction Value.unwrapped v with
  | case1 v ih => exact ih
  | case2 v h => exact h w

/-- A scalar is a key. -/
theorem exists_ofValue {v : Value} (h : v.kind.isScalar = true) : ∃ k, ofValue v = .ok k := by
  unfold Value.kind at h
  unfold ofValue
  cases hv : v.unwrapped <;> rw [hv] at h <;> first | exact ⟨_, rfl⟩ | cases h

/-- What a map gives out as a key is a scalar, -/
theorem isScalar_toValue (type : Ty) (k : Key) : (k.toValue type).kind.isScalar = true := by
  have hwidest : k.widest.kind.isScalar = true := by cases k <;> rfl
  unfold toValue
  split
  · rename_i v hv
    exact Value.isScalar_of_toScalar hwidest hv
  · exact hwidest

/-- and is taken for one. -/
theorem exists_ofValue_toValue (type : Ty) (k : Key) : ∃ k', ofValue (k.toValue type) = .ok k' :=
  exists_ofValue (isScalar_toValue type k)

/-- **A key taken from a value of the key type's kind fits.** -/
theorem fits_of_ofValue {type : Ty} {v : Value} {k : Key} (hkind : v.kind = type.kind)
    (h : ofValue v = .ok k) : k.Fits type := by
  rw [← v.kind_unwrapped] at hkind
  unfold ofValue at h
  cases hu : v.unwrapped with
  | bool b | string s | float64 x | int n =>
    rw [hu] at h hkind
    cases h
    exact fits_of_widest hkind
  | float32 x =>
    rw [hu] at h hkind
    cases h
    rw [Fits, toValue, ← hkind]
    show Except.ok (Key.float x.toBinary64.toBinary32.toBinary64) = _
    rw [x.toBinary64_toBinary32_toBinary64]
  | byte n =>
    rw [hu] at h hkind
    cases h
    rw [Fits, toValue, ← hkind]
    show ofValue (Value.ofInt64 .byte (Int64.ofNat n.toNat)) = _
    rw [Value.ofInt64_byte]
    rfl
  | int32 n =>
    rw [hu] at h hkind
    cases h
    rw [Fits, toValue, ← hkind]
    show Except.ok (Key.int n.toInt64.toInt32.toInt64) = _
    rw [Int32.toInt32_toInt64]
  | int64 n =>
    rw [hu] at h hkind
    cases h
    rw [Fits, toValue, ← hkind]
    rfl
  | constant w => exact absurd hu (unwrapped_ne_constant v w)
  | _ =>
    rw [hu] at h
    cases h

theorem kind_of_ofValue {v : Value} {k : Key} (h : ofValue v = .ok k) :
    v.kind.isScalar = true ∧ ∀ h : Heap, h.typeOf v = .ofKind v.kind := by
  unfold ofValue at h
  unfold Value.kind Heap.typeOf
  cases hu : v.unwrapped with
  | constant w => exact absurd hu (unwrapped_ne_constant v w)
  | _ =>
    rw [hu] at h
    first
    | exact ⟨rfl, fun _ => rfl⟩
    | cases h

end Key

theorem Ty.kind_of_accepts {t : Ty} {k : Kind} (hk : k.isScalar = true)
    (hopen : t.isInterface ≠ true) (h : t.accepts (.ofKind k) = true) : k = t.kind := by
  have hother : (Ty.ofKind k).isInterface = false := by cases k <;> first | rfl | cases hk
  unfold accepts at h
  rw [if_neg (by simp [hopen, hother])] at h
  by_contra hne
  have hdiffers : (t.kind != (Ty.ofKind k).kind) = true := by
    rw [bne_iff_ne]
    exact fun heq => hne heq.symm
  rw [if_pos hdiffers] at h
  cases h

namespace Assoc

/-- A key is bound when it equals one of the keys. -/
theorem contains_eq_any {ν : Type} (k : Key) (l : List (Key × ν)) :
    contains k l = (l.map (·.1)).any (k == ·) := by
  induction l with
  | nil => rfl
  | cons p rest ih =>
    rw [contains, lookup_cons, List.map_cons, List.any_cons, ← ih]
    cases k == p.1 <;> rfl

/-- Binding a key keeps keys apart. -/
theorem pairwise_insert {ν : Type} {l : List (Key × ν)}
    (h : (l.map (·.1)).Pairwise fun a b => (a == b) = false) (k : Key) (v : ν) :
    ((insert k v l).map (·.1)).Pairwise fun a b => (a == b) = false := by
  rw [map_fst_insert]
  split
  · exact h
  · rename_i hnew
    rw [contains_eq_any, List.any_eq_true] at hnew
    refine List.pairwise_append.2 ⟨h, List.pairwise_singleton _ k, fun a ha b hb => ?_⟩
    obtain rfl := List.mem_singleton.1 hb
    rw [Key.beq_comm, Bool.eq_false_iff]
    exact fun heq => hnew ⟨a, ha, heq⟩

theorem erase_sublist {κ ν : Type} [BEq κ] (k : κ) (l : List (κ × ν)) : (erase k l).Sublist l := by
  induction l with
  | nil => exact .refl _
  | cons p rest ih =>
    unfold erase
    split
    · exact List.sublist_cons_self _ _
    · exact ih.cons_cons _

theorem map_fst_erase_sublist {ν : Type} (k : Key) (l : List (Key × ν)) :
    ((erase k l).map (·.1)).Sublist (l.map (·.1)) := (erase_sublist k l).map _

/-- Among keys that differ, a key finds its own value. -/
theorem lookup_of_mem {ν : Type} {l : List (Key × ν)}
    (h : (l.map (·.1)).Pairwise fun a b => (a == b) = false) {k : Key} {v : ν} (hmem : (k, v) ∈ l) :
    l.lookup k = some v := by
  induction l with
  | nil => cases hmem
  | cons p rest ih =>
    rw [List.map_cons, List.pairwise_cons] at h
    rw [lookup_cons]
    rcases List.mem_cons.1 hmem with rfl | hrest
    · rw [if_pos BEq.rfl]
    · have hne := h.1 k (List.mem_map.2 ⟨_, hrest, rfl⟩)
      rw [Key.beq_comm] at hne
      rw [if_neg (by simpa using hne)]
      exact ih h.2 hrest

end Assoc

namespace MapObject

/-- The keys of a map fit its key type and differ from each other. -/
structure Keyed (m : MapObject) : Prop where
  fits : ∀ k ∈ m.entries.map (·.1), k.Fits m.keyType
  distinct : (m.entries.map (·.1)).Pairwise fun a b => (a == b) = false

variable {m m' : MapObject}

/-- A map with fewer keys. -/
theorem Keyed.sublist (h : m.Keyed) (htype : m'.keyType = m.keyType)
    (hkeys : (m'.entries.map (·.1)).Sublist (m.entries.map (·.1))) : m'.Keyed := by
  refine ⟨fun k hk => ?_, h.distinct.sublist hkeys⟩
  rw [htype]
  exact h.fits k (hkeys.subset hk)

/-- An update of a map: the key is bound, and a new one was let in and comes last. -/
theorem set_eq_ok {key value : Value} {kt vt : Ty} (h : m.set key value kt vt = .ok m') :
    ∃ k, Key.ofValue key = .ok k ∧ m' = { m with entries := Assoc.insert k value m.entries } ∧
      (m.keyType.isInterface = true ∨ m.keyType.accepts kt = true) ∧
      (m.isFrozen = true → Assoc.contains k m.entries = true) := by
  unfold set at h
  by_cases hkey : (!m.keyType.isInterface && !m.keyType.accepts kt) = true
  · simp [hkey, bind, Except.bind] at h
  by_cases hvalue : (!m.valueType.isInterface && !value.isNull && !m.valueType.accepts vt) = true
  · simp [hkey, hvalue, bind, Except.bind] at h
  cases hk : Key.ofValue key with
  | error f => simp [hkey, hvalue, hk, bind, Except.bind] at h
  | ok k =>
    by_cases hfrozen : (m.isFrozen && !Assoc.contains k m.entries) = true
    · simp [hkey, hvalue, hk, hfrozen, bind, Except.bind] at h
    · simp only [hkey, hvalue, hk, hfrozen, bind, Except.bind, Bool.false_eq_true, if_false] at h
      refine ⟨k, rfl, (Except.ok.inj h).symm, ?_, ?_⟩
      · cases hopen : m.keyType.isInterface with
        | true => exact .inl rfl
        | false => exact .inr (by simpa [hopen] using hkey)
      · intro hfreeze
        simpa [hfreeze] using hfrozen

/-- An update keeps the keys of a map apart. -/
theorem Keyed.set (h : m.Keyed) {key value : Value} {kt vt : Ty}
    (hkt : ∀ k, Key.ofValue key = .ok k → kt = .ofKind key.kind)
    (hset : m.set key value kt vt = .ok m') : m'.Keyed := by
  obtain ⟨k, hk, rfl, hadmits, -⟩ := set_eq_ok hset
  have hfits : k.Fits m.keyType := by
    by_cases hopen : m.keyType.isInterface = true
    · exact Key.fits_of_isInterface hopen k
    · have hscalar := (Key.kind_of_ofValue hk).1
      have haccepts := hadmits.resolve_left hopen
      rw [hkt k hk] at haccepts
      exact Key.fits_of_ofValue (Ty.kind_of_accepts hscalar hopen haccepts) hk
  refine ⟨fun l hl => ?_, Assoc.pairwise_insert h.distinct k value⟩
  have hl : l ∈ (Assoc.insert k value m.entries).map (·.1) := hl
  rw [Assoc.map_fst_insert] at hl
  split at hl
  · exact h.fits l hl
  · rcases List.mem_append.1 hl with hl | hl
    · exact h.fits l hl
    · obtain rfl := List.mem_singleton.1 hl
      exact hfits

/-- A new key is refused while a loop walks the map. -/
theorem set_of_new {key value : Value} {k : Key} (hfrozen : m.isFrozen = true)
    (hk : Key.ofValue key = .ok k) (hnew : Assoc.contains k m.entries = false) (kt vt : Ty) :
    ∃ f, m.set key value kt vt = .error f := by
  cases hset : m.set key value kt vt with
  | error f => exact ⟨f, rfl⟩
  | ok m' =>
    obtain ⟨l, hl, -, -, hbound⟩ := set_eq_ok hset
    rw [hk] at hl
    cases hl
    rw [hbound hfrozen] at hnew
    cases hnew

/-- An update of a map that a loop walks adds no key. -/
theorem keys_of_set {key value : Value} {kt vt : Ty} (hfrozen : m.isFrozen = true)
    (hset : m.set key value kt vt = .ok m') :
    m'.entries.map (·.1) = m.entries.map (·.1) := by
  obtain ⟨k, -, rfl, -, hbound⟩ := set_eq_ok hset
  show (Assoc.insert k value m.entries).map (·.1) = _
  rw [Assoc.map_fst_insert, if_pos (hbound hfrozen)]

/-- What removing a key leaves. -/
theorem delete_eq_ok {key : Value} {present : Bool} (h : m.delete key = .ok (present, m')) :
    ∃ k, m' = { m with entries := Assoc.erase k m.entries } := by
  unfold delete at h
  cases hk : Key.ofValue key with
  | error f => simp [hk, bind, Except.bind] at h
  | ok k =>
    rw [hk] at h
    cases h
    exact ⟨k, rfl⟩

/-! ### The keys that a map gives out -/

/-- The keys in ascending order. -/
def sortedKeys (m : MapObject) : List Key := Key.sort (m.entries.map (·.1))

theorem keys_eq (m : MapObject) : m.keys = m.sortedKeys.map (Key.toValue m.keyType) := rfl

theorem sortedKeys_perm (m : MapObject) : m.sortedKeys.Perm (m.entries.map (·.1)) :=
  Key.sort_perm _

theorem length_sortedKeys (m : MapObject) : m.sortedKeys.length = m.entries.length := by
  rw [m.sortedKeys_perm.length_eq, List.length_map]

/-- **Every key comes after the one before it**; no two of them are equal. -/
theorem Keyed.isChain_sortedKeys (h : m.Keyed) :
    m.sortedKeys.IsChain fun lower upper => lower.order upper = .lt := by
  have hdistinct : m.sortedKeys.Pairwise fun a b => (a == b) = false :=
    (m.sortedKeys_perm.pairwise_iff fun hne => by rwa [Key.beq_comm]).2 h.distinct
  refine List.isChain_iff_getElem.2 fun j hj => ?_
  have hle := List.isChain_iff_getElem.1 (Key.sort_isChain (m.entries.map (·.1)) :
    m.sortedKeys.IsChain _) j hj
  have hne := List.isChain_iff_getElem.1 hdistinct.isChain j hj
  cases horder : m.sortedKeys[j].order m.sortedKeys[j + 1] with
  | lt => rfl
  | eq => exact absurd (beq_iff_eq.2 horder) (Bool.eq_false_iff.1 hne)
  | gt => exact absurd horder hle

/-- A key that was given out is taken for the same key. -/
theorem Keyed.get_toValue (h : m.Keyed) {k : Key} (hk : k ∈ m.sortedKeys) (m' : MapObject) :
    m'.get (k.toValue m.keyType) = .ok (m'.entries.lookup k) := by
  have hfits : k.Fits m.keyType := h.fits k (m.sortedKeys_perm.subset hk)
  rw [get, hfits]
  rfl

/-- **Such a key leads to its own entry**, or to none once that is gone. -/
theorem Keyed.lookup_eq (h : m.Keyed) {k : Key} (hk : k ∈ m.sortedKeys)
    (hkeys : (m'.entries.map (·.1)).Sublist (m.entries.map (·.1))) :
    (∀ v, (k, v) ∈ m'.entries → m'.entries.lookup k = some v) ∧
      (k ∉ m'.entries.map (·.1) → m'.entries.lookup k = none) := by
  refine ⟨fun v hv => Assoc.lookup_of_mem (h.distinct.sublist hkeys) hv, fun hgone => ?_⟩
  have hnone : Assoc.contains k m'.entries = false := by
    rw [Assoc.contains_eq_any, List.any_eq_false]
    intro other hother
    have hne : k ≠ other := fun heq => hgone (heq ▸ hother)
    have hsymm : Std.Symm fun a b : Key => (a == b) = false :=
      ⟨fun a b hab => by rwa [Key.beq_comm]⟩
    exact Bool.eq_false_iff.1
      (h.distinct.forall (m.sortedKeys_perm.subset hk) (hkeys.subset hother) hne)
  rwa [Assoc.contains, Option.isSome_eq_false_iff, Option.isNone_iff_eq_none] at hnone

end MapObject

end ScriptMachine
