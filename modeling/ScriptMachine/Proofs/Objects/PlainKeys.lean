import ScriptMachine.Proofs.Objects.Keys

/-!
# Keys that are told apart exactly

Booleans, integers of one kind and strings are told apart by maps just as they are told apart as
values: the key that a map makes of such a value loses nothing, as long as all keys of the map are of
one kind. So a map that is keyed by them is a finite map of the values themselves.

* `PlainKey`: the booleans, integers and strings; `PlainKey.lt`: their order within a kind.
* `PlainKey.key`, `order_key_eq_lt`, `toValue_key`: the keys of maps that they become, and back.
* `PlainKey.embed`: entries by plain keys as entries of a map; reading, binding and removing commute
  with it.
* `MapObject.Represents`: a map is a finite map of plain keys of one kind.
* `Represents.keys`: the keys that such a map gives out.
-/

namespace ScriptMachine

namespace Assoc

variable {κ ν : Type} [BEq κ]

theorem lookup_erase_ne [LawfulBEq κ] {k m : κ} (h : m ≠ k) (l : List (κ × ν)) :
    (erase k l).lookup m = l.lookup m := by
  induction l with
  | nil => rfl
  | cons p rest ih =>
    unfold erase
    split
    · rename_i hk
      rw [lookup_cons, if_neg]
      rw [← eq_of_beq hk]
      simpa using h
    · rw [lookup_cons, lookup_cons, ih]

/-- A key that was there once is not there after its removal. -/
theorem lookup_erase_self [LawfulBEq κ] {l : List (κ × ν)} (h : (l.map (·.1)).Nodup) (k : κ) :
    (erase k l).lookup k = none := by
  induction l with
  | nil => rfl
  | cons p rest ih =>
    rw [List.map_cons, List.nodup_cons] at h
    unfold erase
    split
    · rename_i hk
      have habsent := mt (contains_iff_mem p.1 rest).1 h.1
      rw [← eq_of_beq hk] at habsent
      exact Option.not_isSome_iff_eq_none.1 habsent
    · rename_i hk
      rw [lookup_cons, if_neg hk, ih h.2]

end Assoc

/-- The values that maps tell apart exactly, once their kind is settled. -/
inductive PlainKey
  | bool (b : Bool)
  | byte (n : UInt8)
  | int32 (n : Int32)
  | int (n : Int64)
  | int64 (n : Int64)
  | string (s : String)
deriving DecidableEq

namespace PlainKey

/-- Their kinds. -/
def kinds : List Kind := [.bool, .byte, .int32, .int, .int64, .string]

def kind : PlainKey → Kind
  | .bool _ => .bool
  | .byte _ => .byte
  | .int32 _ => .int32
  | .int _ => .int
  | .int64 _ => .int64
  | .string _ => .string

def value : PlainKey → Value
  | .bool b => .bool b
  | .byte n => .byte n
  | .int32 n => .int32 n
  | .int n => .int n
  | .int64 n => .int64 n
  | .string s => .string s

/-- The plain key that a value is, under its constant wrappers. -/
def of? (v : Value) : Option PlainKey :=
  match v.unwrapped with
  | .bool b => some (.bool b)
  | .byte n => some (.byte n)
  | .int32 n => some (.int32 n)
  | .int n => some (.int n)
  | .int64 n => some (.int64 n)
  | .string s => some (.string s)
  | _ => none

/-- The key that a map makes of it. -/
def key : PlainKey → Key
  | .bool b => .bool b
  | .byte n => .int (Int64.ofNat n.toNat)
  | .int32 n => .int n.toInt64
  | .int n | .int64 n => .int n
  | .string s => .string s

/-- The order of the values of one kind. -/
def lt : PlainKey → PlainKey → Prop
  | .bool a, .bool b => a < b
  | .byte a, .byte b => a < b
  | .int32 a, .int32 b => a < b
  | .int a, .int b => a < b
  | .int64 a, .int64 b => a < b
  | .string a, .string b => a < b
  | _, _ => False

variable {p q : PlainKey} {v : Value} {k : Kind}

/-! ### Values, plain keys and keys -/

theorem of?_value (p : PlainKey) : of? p.value = some p := by cases p <;> rfl

theorem unwrapped_of_of? (h : of? v = some p) : v.unwrapped = p.value := by
  unfold of? at h
  split at h <;> cases h <;> assumption

theorem kind_of_of? (h : of? v = some p) : v.kind = p.kind := by
  rw [← v.kind_unwrapped, unwrapped_of_of? h]
  cases p <;> rfl

/-- A value of one of the kinds is a plain key. -/
theorem exists_of_kind (h : v.kind ∈ kinds) : ∃ p, of? v = some p := by
  unfold Value.kind at h
  unfold of?
  cases hu : v.unwrapped with
  | bool b => exact ⟨_, rfl⟩
  | byte n => exact ⟨_, rfl⟩
  | int32 n => exact ⟨_, rfl⟩
  | int n => exact ⟨_, rfl⟩
  | int64 n => exact ⟨_, rfl⟩
  | string s => exact ⟨_, rfl⟩
  | _ => simp [hu, kinds] at h

/-- The key that a map makes of the value is that of the plain key. -/
theorem ofValue_of_of? (h : of? v = some p) : Key.ofValue v = .ok p.key := by
  unfold Key.ofValue
  rw [unwrapped_of_of? h]
  cases p <;> rfl

/-- **Back from the key to the value.** Nothing was lost. -/
theorem toValue_key {type : Ty} (h : type.kind = p.kind) : p.key.toValue type = p.value := by
  rw [Key.toValue, h]
  cases p with
  | byte n =>
    show Value.ofInt64 .byte (Int64.ofNat n.toNat) = .byte n
    exact Value.ofInt64_byte n
  | int32 n =>
    show Value.int32 n.toInt64.toInt32 = .int32 n
    rw [Int32.toInt32_toInt64]
  | _ => rfl

theorem order_int (a b : Int64) : ((Key.int a).order (.int b) = .lt ↔ a < b) ∧
    ((Key.int a).order (.int b) = .eq ↔ a = b) := by
  show (compare a.toInt b.toInt = .lt ↔ a < b) ∧ (compare a.toInt b.toInt = .eq ↔ a = b)
  rw [compare_lt_iff_lt, compare_eq_iff_eq, Int64.lt_iff_toInt_lt, Int64.toInt_inj]
  exact ⟨.rfl, .rfl⟩

/-- Keys of one kind are compared as the values are. -/
theorem order_key (h : p.kind = q.kind) :
    (p.key.order q.key = .lt ↔ p.lt q) ∧ (p.key.order q.key = .eq ↔ p = q) := by
  cases p <;> cases q <;> cases h
  case bool.bool a b =>
    show (compare a b = .lt ↔ a < b) ∧ (compare a b = .eq ↔ _)
    rw [Std.compare_eq_iff_eq, PlainKey.bool.injEq]
    exact ⟨by cases a <;> cases b <;> decide, .rfl⟩
  case byte.byte a b =>
    show (compare (Int64.ofNat a.toNat).toInt (Int64.ofNat b.toNat).toInt = .lt ↔ a < b) ∧
      (compare (Int64.ofNat a.toNat).toInt (Int64.ofNat b.toNat).toInt = .eq ↔ _)
    rw [Value.toInt_ofNat_byte, Value.toInt_ofNat_byte, compare_lt_iff_lt, compare_eq_iff_eq,
      PlainKey.byte.injEq, UInt8.lt_iff_toNat_lt, ← UInt8.toNat_inj]
    omega
  case int32.int32 a b =>
    show (compare a.toInt64.toInt b.toInt64.toInt = .lt ↔ a < b) ∧
      (compare a.toInt64.toInt b.toInt64.toInt = .eq ↔ _)
    rw [Int32.toInt_toInt64, Int32.toInt_toInt64, compare_lt_iff_lt, compare_eq_iff_eq,
      PlainKey.int32.injEq, Int32.lt_iff_toInt_lt, Int32.toInt_inj]
    exact ⟨.rfl, .rfl⟩
  case int.int a b =>
    rw [PlainKey.int.injEq]
    exact order_int a b
  case int64.int64 a b =>
    rw [PlainKey.int64.injEq]
    exact order_int a b
  case string.string a b =>
    show (compareOfLessAndEq a b = .lt ↔ a < b) ∧ (compare a b = .eq ↔ _)
    rw [compareOfLessAndEq_eq_lt, Std.compare_eq_iff_eq, PlainKey.string.injEq]
    exact ⟨.rfl, .rfl⟩

/-- **Keys of one kind come in the order of the values.** -/
theorem order_key_eq_lt (h : p.kind = q.kind) : p.key.order q.key = .lt ↔ p.lt q := (order_key h).1

/-- **Keys of one kind are equal only for equal values.** -/
theorem beq_key (h : p.kind = q.kind) : (p.key == q.key) = (p == q) := by
  show (p.key.order q.key == .eq) = (p == q)
  rw [Bool.eq_iff_iff, beq_iff_eq, beq_iff_eq, (order_key h).2]

theorem lt.trans {r : PlainKey} (hpq : p.lt q) (hqr : q.lt r) : p.lt r := by
  cases p <;> cases q <;> first | exact hpq.elim | skip
  all_goals cases r <;> first | exact hqr.elim | skip
  case bool.bool.bool a b c => exact Bool.lt_trans hpq hqr
  case byte.byte.byte a b c => exact UInt8.lt_trans hpq hqr
  case int32.int32.int32 a b c => exact Int32.lt_trans hpq hqr
  case int.int.int a b c => exact Int64.lt_trans hpq hqr
  case int64.int64.int64 a b c => exact Int64.lt_trans hpq hqr
  case string.string.string a b c => exact String.lt_trans hpq hqr

/-! ### Entries -/

/-- Entries by plain keys, as entries of a map. -/
def embed (es : List (PlainKey × Value)) : List (Key × Value) := es.map fun e => (e.1.key, e.2)

variable {es : List (PlainKey × Value)}

theorem map_fst_embed (es : List (PlainKey × Value)) :
    (embed es).map (·.1) = (es.map (·.1)).map key := by
  rw [embed, List.map_map, List.map_map]
  rfl

theorem lookup_embed (hes : ∀ e ∈ es, e.1.kind = k) (hp : p.kind = k) :
    (embed es).lookup p.key = es.lookup p := by
  induction es with
  | nil => rfl
  | cons e rest ih =>
    rw [embed, List.map_cons, Assoc.lookup_cons, Assoc.lookup_cons,
      beq_key (hp.trans (hes e List.mem_cons_self).symm)]
    exact congrArg _ (ih fun e he => hes e (List.mem_cons_of_mem _ he))

theorem insert_embed (hes : ∀ e ∈ es, e.1.kind = k) (hp : p.kind = k) (v : Value) :
    Assoc.insert p.key v (embed es) = embed (Assoc.insert p v es) := by
  induction es with
  | nil => rfl
  | cons e rest ih =>
    have hrest := ih fun e he => hes e (List.mem_cons_of_mem _ he)
    rw [embed, List.map_cons, Assoc.insert, Assoc.insert,
      beq_key (hp.trans (hes e List.mem_cons_self).symm)]
    split
    · rfl
    · exact congrArg _ hrest

theorem erase_embed (hes : ∀ e ∈ es, e.1.kind = k) (hp : p.kind = k) :
    Assoc.erase p.key (embed es) = embed (Assoc.erase p es) := by
  induction es with
  | nil => rfl
  | cons e rest ih =>
    have hrest := ih fun e he => hes e (List.mem_cons_of_mem _ he)
    rw [embed, List.map_cons, Assoc.erase, Assoc.erase,
      beq_key (hp.trans (hes e List.mem_cons_self).symm)]
    split
    · rfl
    · exact congrArg _ hrest

end PlainKey

/-- What is left of a list of images, rearranged, are the images of the list, rearranged. -/
theorem exists_map_of_perm {α β : Type} {f : α → β} {l : List α} {images : List β}
    (h : images.Perm (l.map f)) : ∃ l' : List α, l'.Perm l ∧ images = l'.map f := by
  induction images generalizing l with
  | nil =>
    have hnil : l = [] := List.map_eq_nil_iff.1 (List.nil_perm.1 h)
    exact ⟨[], hnil ▸ .refl _, rfl⟩
  | cons b images ih =>
    obtain ⟨a, ha, rfl⟩ := List.mem_map.1 (h.subset List.mem_cons_self)
    obtain ⟨before, after, rfl⟩ := List.append_of_mem ha
    have hrest : images.Perm ((before ++ after).map f) := by
      rw [List.map_append, List.map_cons] at h
      rw [List.map_append]
      exact (h.trans List.perm_middle).cons_inv
    obtain ⟨l', hperm, rfl⟩ := ih hrest
    exact ⟨a :: l', (hperm.cons a).trans List.perm_middle.symm, rfl⟩

namespace MapObject

/-- A map is a finite map of plain keys, those of the kind that it is declared with. -/
structure Represents (m : MapObject) (f : PlainKey → Option Value) : Prop where
  plain : m.keyType.kind ∈ PlainKey.kinds
  entries : ∃ es, m.entries = PlainKey.embed es ∧ (∀ e ∈ es, e.1.kind = m.keyType.kind) ∧
    (es.map (·.1)).Nodup ∧ ∀ p, f p = es.lookup p

variable {m : MapObject} {f : PlainKey → Option Value} {p : PlainKey} {v : Value}

namespace Represents

/-- An empty map is the empty finite map. -/
theorem empty (hplain : m.keyType.kind ∈ PlainKey.kinds) (hempty : m.entries = []) :
    m.Represents fun _ => none :=
  ⟨hplain, [], hempty, nofun, List.nodup_nil, fun _ => rfl⟩

theorem lookup (h : m.Represents f) (hp : p.kind = m.keyType.kind) :
    m.entries.lookup p.key = f p := by
  obtain ⟨es, hentries, hkinds, -, hlookup⟩ := h.entries
  rw [hentries, PlainKey.lookup_embed hkinds hp, hlookup]

theorem contains (h : m.Represents f) (hp : p.kind = m.keyType.kind) :
    Assoc.contains p.key m.entries = (f p).isSome := by
  rw [Assoc.contains, h.lookup hp]

/-- **Reading** a key of the declared kind. -/
theorem get (h : m.Represents f) {key : Value} (hkey : PlainKey.of? key = some p)
    (hp : p.kind = m.keyType.kind) : m.get key = .ok (f p) := by
  rw [MapObject.get, PlainKey.ofValue_of_of? hkey]
  show Except.ok (m.entries.lookup p.key) = _
  rw [h.lookup hp]

/-- **Binding** a key of the declared kind. -/
theorem insert (h : m.Represents f) (hp : p.kind = m.keyType.kind) (v : Value) :
    { m with entries := Assoc.insert p.key v m.entries }.Represents
      (Function.update f p (some v)) := by
  obtain ⟨es, hentries, hkinds, hnodup, hlookup⟩ := h.entries
  refine ⟨h.plain, Assoc.insert p v es, ?_, fun e he => ?_, Assoc.nodup_insert hnodup p v,
    fun q => ?_⟩
  · show Assoc.insert p.key v m.entries = _
    rw [hentries, PlainKey.insert_embed hkinds hp]
  · have hmem : e.1 ∈ (Assoc.insert p v es).map (·.1) := List.mem_map_of_mem he
    rw [Assoc.map_fst_insert] at hmem
    have hold : e.1 ∈ es.map (·.1) → e.1.kind = m.keyType.kind := by
      intro hmem
      obtain ⟨e', he', heq⟩ := List.mem_map.1 hmem
      exact heq ▸ hkinds e' he'
    split at hmem
    · exact hold hmem
    · rcases List.mem_append.1 hmem with hmem | hmem
      · exact hold hmem
      · rw [List.mem_singleton.1 hmem]
        exact hp
  · by_cases hq : q = p
    · subst hq
      rw [Function.update_self, Assoc.lookup_insert_self]
    · rw [Function.update_of_ne hq, Assoc.lookup_insert_ne hq, hlookup]

/-- **Removing** a key of the declared kind. -/
theorem erase (h : m.Represents f) (hp : p.kind = m.keyType.kind) :
    { m with entries := Assoc.erase p.key m.entries }.Represents (Function.update f p none) := by
  obtain ⟨es, hentries, hkinds, hnodup, hlookup⟩ := h.entries
  have hsublist := Assoc.erase_sublist p es
  refine ⟨h.plain, Assoc.erase p es, ?_, fun e he => hkinds e (hsublist.subset he),
    hnodup.sublist (hsublist.map _), fun q => ?_⟩
  · show Assoc.erase p.key m.entries = _
    rw [hentries, PlainKey.erase_embed hkinds hp]
  · by_cases hq : q = p
    · subst hq
      rw [Function.update_self, Assoc.lookup_erase_self hnodup]
    · rw [Function.update_of_ne hq, Assoc.lookup_erase_ne hq, hlookup]

/-- Such a map gives its keys out and takes them back. -/
theorem keyed (h : m.Represents f) : m.Keyed := by
  obtain ⟨es, hentries, hkinds, hnodup, -⟩ := h.entries
  have hkeys : m.entries.map (·.1) = (es.map (·.1)).map PlainKey.key := by
    rw [hentries, PlainKey.map_fst_embed]
  have hkind : ∀ q ∈ es.map (·.1), q.kind = m.keyType.kind := by
    intro q hq
    obtain ⟨e, he, rfl⟩ := List.mem_map.1 hq
    exact hkinds e he
  refine ⟨fun k hk => ?_, ?_⟩
  · rw [hkeys] at hk
    obtain ⟨q, hq, rfl⟩ := List.mem_map.1 hk
    rw [Key.Fits, PlainKey.toValue_key (hkind q hq).symm]
    exact PlainKey.ofValue_of_of? (PlainKey.of?_value q)
  · rw [hkeys, List.pairwise_map]
    refine hnodup.imp_of_mem fun {a b} ha hb hne => ?_
    rw [PlainKey.beq_key ((hkind a ha).trans (hkind b hb).symm)]
    exact beq_false_of_ne hne

/-- **The keys given out** are the values of the plain keys that are present, of the declared kind and
in ascending order. -/
theorem keys (h : m.Represents f) : ∃ ps : List PlainKey, m.keys = ps.map PlainKey.value ∧
    ps.Pairwise PlainKey.lt ∧ (∀ q ∈ ps, q.kind = m.keyType.kind) ∧
    (∀ q, q ∈ ps ↔ (f q).isSome = true) ∧ ps.length = m.size := by
  obtain ⟨es, hentries, hkinds, -, hlookup⟩ := h.entries
  have hperm : m.sortedKeys.Perm ((es.map (·.1)).map PlainKey.key) := by
    have hsorted := m.sortedKeys_perm
    rwa [hentries, PlainKey.map_fst_embed] at hsorted
  obtain ⟨ps, hps, hkeys⟩ := exists_map_of_perm hperm
  have hkind : ∀ q ∈ ps, q.kind = m.keyType.kind := by
    intro q hq
    obtain ⟨e, he, rfl⟩ := List.mem_map.1 (hps.subset hq)
    exact hkinds e he
  refine ⟨ps, ?_, ?_, hkind, fun q => ?_, ?_⟩
  · rw [keys_eq, hkeys, List.map_map]
    exact List.map_congr_left fun q hq => PlainKey.toValue_key (hkind q hq).symm
  · -- The sorted keys ascend, and so do the plain keys that they were made of.
    have hchain := h.keyed.isChain_sortedKeys
    rw [hkeys, List.isChain_map] at hchain
    have hlt : ps.IsChain PlainKey.lt := by
      refine hchain.imp_of_mem_imp fun a b ha hb horder => ?_
      exact (PlainKey.order_key_eq_lt ((hkind a ha).trans (hkind b hb).symm)).1 horder
    have htrans : Trans PlainKey.lt PlainKey.lt PlainKey.lt := ⟨PlainKey.lt.trans⟩
    exact List.isChain_iff_pairwise.1 hlt
  · rw [hps.mem_iff, hlookup]
    exact (Assoc.contains_iff_mem q es).symm
  · rw [hps.length_eq, List.length_map, size, hentries, PlainKey.embed, List.length_map]

end Represents

end MapObject

end ScriptMachine
