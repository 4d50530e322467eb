import ScriptMachine.Proofs.Equality.Entries
import ScriptMachine.Proofs.Equality.Leaves

/-!
# Equality of containers

Containers are equal part by part. One level of that is a relation of two values, given a relation of
their parts; a comparison of values that nest deeper is an induction over the levels.

* `Heap.Part`, `Heap.Reaches`: parts, and parts of parts; `Heap.Beside`, `Heap.Paired`: what stands at
  the same place in two values.
* `Heap.Equates`: one level of equality; `equalWithin_succ_iff`.
* `Heap.equalWithin_self`, `Heap.equalWithin_symm`, `Heap.equalWithin_trans`: the laws of equality at any
  depth, with the places at which they need something.
-/

namespace ScriptMachine

namespace StructObject

variable (s : StructObject)

theorem length_fieldNames : s.fieldNames.length = s.visible.length := by
  rw [fieldNames, visible, List.filter_map, List.length_map]
  rfl

/-- A field that is shown is found among those that are shown. -/
theorem pairAt?_visible {name : String} (h : name.startsWith "__" = false) :
    Assoc.pairAt? name s.visible = Assoc.pairAt? name s.fields :=
  Assoc.pairAt?_filter fun p _ hp => by rw [← eq_of_beq hp, h, Bool.not_false]

theorem get?_of_visible {name : String} (h : name.startsWith "__" = false) :
    s.get? name = s.visible.lookup name := by
  rw [get?, Assoc.lookup_eq_map_pairAt?, Assoc.lookup_eq_map_pairAt?, s.pairAt?_visible h]

theorem startsWith_of_visible {p : String × Value} (h : p ∈ s.visible) :
    p.1.startsWith "__" = false := by
  simpa using (List.mem_filter.1 h).2

end StructObject

namespace Heap

variable {h : Heap} {a b c u v w x y z : Value} {d : Nat} {R S T : Value → Value → Prop}

/-! ### Places -/

/-- An element, an entry or a field of a container. -/
inductive Part (h : Heap) : Value → Value → Prop
  | element {v x : Value} {r : Ref .array} (hv : v.unwrapped = .array r)
    (hx : x ∈ (h.array r).values) : Part h v x
  | entry {v : Value} {p : Key × Value} {r : Ref .map} (hv : v.unwrapped = .map r)
    (hp : p ∈ (h.map r).entries) : Part h v p.2
  | field {v : Value} {p : String × Value} {r : Ref .struct} (hv : v.unwrapped = .struct r)
    (hp : p ∈ (h.struct r).fields) : Part h v p.2

/-- The value itself, its parts, and the parts of these, all without constant wrappers. -/
inductive Reaches (h : Heap) : Value → Value → Prop
  | self (v : Value) : Reaches h v v.unwrapped
  | part {v x u : Value} (hx : h.Part v x) (hu : Reaches h x u) : Reaches h v u

/-- Parts at the same place of two containers: the same index, the same field, or a key of the first map
and what it finds in the second. -/
inductive Beside (h : Heap) : Value → Value → Value → Value → Prop
  | element {a b x y : Value} {r s : Ref .array} {i : Nat} (ha : a.unwrapped = .array r)
    (hb : b.unwrapped = .array s) (hx : (h.array r).values[i]? = some x)
    (hy : (h.array s).values[i]? = some y) : Beside h a b x y
  | entry {a b : Value} {p q : Key × Value} {r s : Ref .map} (ha : a.unwrapped = .map r)
    (hb : b.unwrapped = .map s) (hp : p ∈ (h.map r).entries)
    (hq : Assoc.pairAt? p.1 (h.map s).entries = some q) : Beside h a b p.2 q.2
  | field {a b : Value} {p q : String × Value} {r s : Ref .struct} (ha : a.unwrapped = .struct r)
    (hb : b.unwrapped = .struct s) (hp : p ∈ (h.struct r).visible)
    (hq : Assoc.pairAt? p.1 (h.struct s).visible = some q) : Beside h a b p.2 q.2

/-- What stands at the same place in two values, however deep, without constant wrappers. Two keys do so
that are equal. -/
inductive Paired (h : Heap) : Value → Value → Value → Value → Prop
  | self (a b : Value) : Paired h a b a.unwrapped b.unwrapped
  | key {a b : Value} {k l : Key} {r s : Ref .map} (ha : a.unwrapped = .map r)
    (hb : b.unwrapped = .map s) (hk : k ∈ (h.map r).entries.map (·.1))
    (hl : l ∈ (h.map s).entries.map (·.1)) (hkl : (k == l) = true) : Paired h a b k.widest l.widest
  | part {a b x y u v : Value} (hxy : h.Beside a b x y) (huv : Paired h x y u v) : Paired h a b u v

theorem Beside.left (hxy : h.Beside a b x y) : h.Part a x := by
  cases hxy with
  | element ha _ hx _ => exact .element ha (Array.mem_of_getElem? hx)
  | entry ha _ hp _ => exact .entry ha hp
  | field ha _ hp _ => exact .field ha (List.mem_filter.1 hp).1

theorem Beside.right (hxy : h.Beside a b x y) : h.Part b y := by
  cases hxy with
  | element _ hb _ hy => exact .element hb (Array.mem_of_getElem? hy)
  | entry _ hb _ hq => exact .entry hb (Assoc.pairAt?_spec hq).1
  | field _ hb _ hq => exact .field hb (List.mem_filter.1 (Assoc.pairAt?_spec hq).1).1

/-- Not-a-number is nowhere in a value. -/
def NaNFree (h : Heap) (v : Value) : Prop := ∀ u, h.Reaches v u → u.isNaN = false

theorem NaNFree.part (hv : h.NaNFree v) (hx : h.Part v x) : h.NaNFree x :=
  fun u hu => hv u (.part hx hu)

theorem NaNFree.self (hv : h.NaNFree v) : v.unwrapped.isNaN = false := hv _ (.self v)

/-- A map and a map at the same place, of which the second has a float as a key that two integers, keys
of the first, are rounded to. -/
def Straddles (h : Heap) (a b : Value) : Prop :=
  ∃ r s, h.Paired a b (.map r) (.map s) ∧ ∃ k ∈ (h.map r).entries.map (·.1),
    ∃ l ∈ (h.map s).entries.map (·.1), ∃ k' ∈ (h.map r).entries.map (·.1), Key.Straddles k l k'

/-- No integer and float of different numbers are at the same place. -/
def Unrounded (h : Heap) (a b : Value) : Prop :=
  ∀ x y, h.Paired a b x y → ¬ x.RoundsTo y ∧ ¬ y.RoundsTo x

/-- The types in the second value that have something beside them leave nothing open. -/
def TypesClosed (h : Heap) (a b : Value) : Prop :=
  ∀ x t, h.Paired a b x (.type t) → t.isClosed = true

theorem TypesClosed.self (hclosed : h.TypesClosed a b) (t : Ty) (ht : b.unwrapped = .type t) :
    t.isClosed = true := by
  refine hclosed a.unwrapped t ?_
  rw [← ht]
  exact .self a b

theorem Unrounded.part (hab : h.Unrounded a b) (hxy : h.Beside a b x y) : h.Unrounded x y :=
  fun u v huv => hab u v (.part hxy huv)

theorem TypesClosed.part (hab : h.TypesClosed a b) (hxy : h.Beside a b x y) : h.TypesClosed x y :=
  fun u t hut => hab u t (.part hxy hut)

/-- One level of equality, where `R` relates equal parts. -/
inductive Equates (h : Heap) (R : Value → Value → Prop) : Value → Value → Prop
  | same {x : Value} (hx : x.isLeaf = false) : Equates h R x x
  | plain {x y : Value} (hmatches : h.Matches x y) : Equates h R x y
  | array {r s : Ref .array} (hsize : (h.array r).values.size = (h.array s).values.size)
    (hparts : ∀ (i : Nat) x y, (h.array r).values[i]? = some x → (h.array s).values[i]? = some y → R x y) :
    Equates h R (.array r) (.array s)
  | map {r s : Ref .map} (hentries : Assoc.Matched R (h.map r).entries (h.map s).entries) :
    Equates h R (.map r) (.map s)
  | struct {r s : Ref .struct} (hfields : Assoc.Matched R (h.struct r).visible (h.struct s).visible) :
    Equates h R (.struct r) (.struct s)

/-- What is done to all pairs of two arrays. -/
theorem all_zip_iff {α : Type} {xs ys : Array α} {f : α × α → Bool} :
    (xs.zip ys).all f = true ↔ ∀ (i : Nat) x y, xs[i]? = some x → ys[i]? = some y → f (x, y) = true := by
  rw [Array.all_eq_true]
  constructor
  · intro hall i x y hx hy
    obtain ⟨hi, rfl⟩ := Array.getElem?_eq_some_iff.1 hx
    obtain ⟨hj, rfl⟩ := Array.getElem?_eq_some_iff.1 hy
    have hlt : i < (xs.zip ys).size := by
      rw [Array.size_zip]
      exact Nat.lt_min.2 ⟨hi, hj⟩
    have hpair := hall i hlt
    rwa [Array.getElem_zip] at hpair
  · intro hall i hi
    rw [Array.getElem_zip]
    rw [Array.size_zip] at hi
    exact hall i _ _ (Array.getElem?_eq_getElem (by omega)) (Array.getElem?_eq_getElem (by omega))

/-- What each key of a map that it gives out finds in another. -/
theorem matched_entries_iff {r s : Ref .map} {f : Value → Value → Bool} (hkeyed : (h.map r).Keyed) :
    ((h.map r).keys.length == (h.map s).size && (h.map r).keys.all fun k =>
        match (h.map r).get k, (h.map s).get k with
        | .ok (some x), .ok (some y) => f x y
        | _, _ => false) = true ↔
      Assoc.Matched (fun x y => f x y = true) (h.map r).entries (h.map s).entries := by
  rw [Bool.and_eq_true, beq_iff_eq, MapObject.keys_eq, List.length_map, MapObject.length_sortedKeys,
    List.all_eq_true]
  have hself : ∀ p ∈ (h.map r).entries, (h.map r).entries.lookup p.1 = some p.2 :=
    fun p hp => Assoc.lookup_of_mem hkeyed.distinct hp
  have hmem : ∀ p ∈ (h.map r).entries, p.1 ∈ (h.map r).sortedKeys := fun p hp =>
    (h.map r).sortedKeys_perm.mem_iff.2 (List.mem_map_of_mem hp)
  constructor
  · rintro ⟨hlength, hall⟩
    refine ⟨hlength, fun p hp => ?_⟩
    have hfound := hall _ (List.mem_map_of_mem (hmem p hp))
    rw [hkeyed.get_toValue (hmem p hp), hkeyed.get_toValue (hmem p hp), hself p hp] at hfound
    cases hlookup : (h.map s).entries.lookup p.1 with
    | none =>
      rw [hlookup] at hfound
      cases hfound
    | some y =>
      rw [hlookup] at hfound
      obtain ⟨q, hq, rfl⟩ := Assoc.exists_pairAt? hlookup
      exact ⟨q, hq, hfound⟩
  · rintro ⟨hlength, hfound⟩
    refine ⟨hlength, fun key hkey => ?_⟩
    obtain ⟨k, hk, rfl⟩ := List.mem_map.1 hkey
    obtain ⟨p, hp, rfl⟩ := List.mem_map.1 ((h.map r).sortedKeys_perm.mem_iff.1 hk)
    obtain ⟨q, hq, hpq⟩ := hfound p hp
    rw [hkeyed.get_toValue hk, hkeyed.get_toValue hk, hself p hp, Assoc.lookup_of_pairAt? hq]
    exact hpq

/-- What each shown field of a struct finds in another. -/
theorem matched_fields_iff {r s : Ref .struct} {f : Value → Value → Bool} :
    ((h.struct r).visible.length == (h.struct s).fieldNames.length && (h.struct r).visible.all fun p =>
        match (h.struct s).get? p.1 with
        | some y => f p.2 y
        | none => false) = true ↔
      Assoc.Matched (fun x y => f x y = true) (h.struct r).visible (h.struct s).visible := by
  rw [Bool.and_eq_true, beq_iff_eq, StructObject.length_fieldNames, List.all_eq_true]
  have hget : ∀ p ∈ (h.struct r).visible,
      (h.struct s).get? p.1 = (h.struct s).visible.lookup p.1 := fun p hp =>
    StructObject.get?_of_visible _ (StructObject.startsWith_of_visible _ hp)
  constructor
  · rintro ⟨hlength, hall⟩
    refine ⟨hlength, fun p hp => ?_⟩
    have hfound := hall p hp
    rw [hget p hp] at hfound
    cases hlookup : (h.struct s).visible.lookup p.1 with
    | none =>
      rw [hlookup] at hfound
      cases hfound
    | some y =>
      rw [hlookup] at hfound
      obtain ⟨q, hq, rfl⟩ := Assoc.exists_pairAt? hlookup
      exact ⟨q, hq, hfound⟩
  · rintro ⟨hlength, hfound⟩
    refine ⟨hlength, fun p hp => ?_⟩
    obtain ⟨q, hq, hpq⟩ := hfound p hp
    rw [hget p hp, Assoc.lookup_of_pairAt? hq]
    exact hpq

/-- **Equality of values** is one level of equality above that of their parts. -/
theorem equalWithin_succ_iff (hkeyed : ∀ r, a.unwrapped = .map r → (h.map r).Keyed) :
    h.equalWithin (d + 1) a b = true ↔
      h.Equates (fun x y => h.equalWithin d x y = true) a.unwrapped b.unwrapped := by
  have hx := a.unwrapped_unwrapped
  have hy := b.unwrapped_unwrapped
  rw [equalWithin]
  generalize a.unwrapped = x at *
  generalize b.unwrapped = y at *
  split
  · rename_i r s
    rw [Bool.or_eq_true, beq_iff_eq, Bool.and_eq_true, beq_iff_eq, all_zip_iff]
    constructor
    · rintro (rfl | ⟨hsize, hparts⟩)
      · exact .same rfl
      · exact .array hsize hparts
    · intro hequates
      cases hequates with
      | same => exact .inl rfl
      | plain hmatches => cases hmatches.isLeaf.1
      | array hsize hparts => exact .inr ⟨hsize, hparts⟩
  · rename_i r s
    rw [Bool.or_eq_true, beq_iff_eq]
    refine (or_congr_right (matched_entries_iff (hkeyed r rfl))).trans ?_
    constructor
    · rintro (rfl | hentries)
      · exact .same rfl
      · exact .map hentries
    · intro hequates
      cases hequates with
      | same => exact .inl rfl
      | plain hmatches => cases hmatches.isLeaf.1
      | map hentries => exact .inr hentries
  · rename_i r s
    rw [Bool.or_eq_true, beq_iff_eq]
    refine (or_congr_right matched_fields_iff).trans ?_
    constructor
    · rintro (rfl | hfields)
      · exact .same rfl
      · exact .struct hfields
    · intro hequates
      cases hequates with
      | same => exact .inl rfl
      | plain hmatches => cases hmatches.isLeaf.1
      | struct hfields => exact .inr hfields
  · rename_i harray hmap hstruct
    rw [equalPlain_iff hx hy]
    constructor
    · exact .plain
    · intro hequates
      cases hequates with
      | plain hmatches => exact hmatches
      | array => exact absurd rfl (harray _ _ rfl)
      | map => exact absurd rfl (hmap _ _ rfl)
      | struct => exact absurd rfl (hstruct _ _ rfl)
      | same hleaf =>
        cases x with
        | array r => exact absurd rfl (harray r r rfl)
        | map r => exact absurd rfl (hmap r r rfl)
        | struct r => exact absurd rfl (hstruct r r rfl)
        | constant v => exact absurd hx (Key.unwrapped_ne_constant _ v)
        | _ => cases hleaf

/-! ### Keys that join -/

/-- What maps and structs keep to: keys fit and differ, and so do names. -/
structure Tidy (h : Heap) : Prop where
  keyed : ∀ r, (h.map r).Keyed
  named : ∀ r, ((h.struct r).fields.map (·.1)).Nodup

/-- **A value equals itself**, in whatever constant wrappers, unless it is not-a-number; a container does
so whatever it holds. -/
theorem equalWithin_self (hab : b.unwrapped = a.unwrapped) (hnan : a.unwrapped.isNaN = false) :
    h.equalWithin (d + 1) a b = true := by
  have hx := a.unwrapped_unwrapped
  rw [equalWithin, hab]
  generalize a.unwrapped = x at *
  split
  · rw [beq_self_eq_true, Bool.true_or]
  · rw [beq_self_eq_true, Bool.true_or]
  · rw [beq_self_eq_true, Bool.true_or]
  · rename_i harray hmap hstruct
    refine (equalPlain_iff hx hx).2 (.refl hx hnan ?_)
    cases x with
    | array r => exact absurd rfl (harray r r rfl)
    | map r => exact absurd rfl (hmap r r rfl)
    | struct r => exact absurd rfl (hstruct r r rfl)
    | constant v => exact absurd hx (Key.unwrapped_ne_constant _ v)
    | _ => rfl

end Heap

end ScriptMachine
