import Mathlib.Data.List.Perm.Subperm
import ScriptMachine.Proofs.Objects.KeyOrder

/-!
# Lists of entries that match

Two maps are told equal when each key of the first is found in the second, with an equal value, and the
second has no more keys than the first. Since a key may equal two keys that do not equal each other, what
this says the other way round takes a count.

* `Assoc.Comparable`: an equality of keys that need not be transitive.
* `Assoc.Matched`: entries that are found in others; `Matched.onto`: no entry is left over.
* `Matched.symm`, `Matched.trans`: matches in the other order, and one after the other, where no key
  keeps apart two keys that it equals (`Assoc.Joins`).
-/

namespace ScriptMachine

namespace Assoc

/-- An equality of keys that is symmetric; of two keys that a third one equals, one equals the other or
else is shared with no further key. -/
class Comparable (κ : Type) [BEq κ] : Prop extends ReflBEq κ where
  comm : ∀ a b : κ, (a == b) = (b == a)
  cross : ∀ a b c d : κ, (a == b) = true → (a == c) = true → (d == c) = true →
    (b == c) = true ∨ (a == d) = true

instance {κ : Type} [BEq κ] [LawfulBEq κ] : Comparable κ where
  comm a b := by rw [Bool.eq_iff_iff, beq_iff_eq, beq_iff_eq, eq_comm]
  cross a b c d hab hac _ := .inl (by rw [← eq_of_beq hab, hac])

instance : Comparable Key where
  comm := Key.beq_comm
  cross a b c d hab hac hdc := by
    rw [Key.beq_comm] at hab hdc
    rw [Key.beq_trans_iff hab hac, Key.beq_trans_iff hac hdc, ← not_and_or]
    -- A float would be between two integers, and one of these between others.
    rintro ⟨⟨hne, hsame⟩, hstraddles⟩
    cases hstraddles

variable {κ ν : Type} [BEq κ] {k : κ} {p q : κ × ν} {l m n : List (κ × ν)}

/-- No two keys are equal. -/
def Distinct (l : List (κ × ν)) : Prop := (l.map (·.1)).Pairwise fun a b => (a == b) = false

theorem distinct_of_nodup [LawfulBEq κ] (hl : (l.map (·.1)).Nodup) : Distinct l :=
  hl.imp fun hne => beq_false_of_ne hne

theorem Distinct.eq_of_beq [Comparable κ] (hl : Distinct l) (hp : p ∈ l) (hq : q ∈ l)
    (h : (p.1 == q.1) = true) : p = q := by
  by_contra hne
  have hsymm : Std.Symm fun p q : κ × ν => (p.1 == q.1) = false :=
    ⟨fun p q hpq => by rwa [Comparable.comm]⟩
  rw [(List.pairwise_map.1 hl).forall hp hq hne] at h
  cases h

theorem Distinct.nodup [Comparable κ] (hl : Distinct l) : l.Nodup := by
  refine (List.pairwise_map.1 hl).imp ?_
  rintro p _ h rfl
  rw [BEq.rfl] at h
  cases h

/-- The entry that a key finds: the first one with an equal key. -/
def pairAt? (k : κ) (l : List (κ × ν)) : Option (κ × ν) := l.find? fun p => k == p.1

theorem lookup_eq_map_pairAt? (k : κ) (l : List (κ × ν)) : l.lookup k = (pairAt? k l).map (·.2) := by
  induction l with
  | nil => rfl
  | cons p rest ih =>
    rw [lookup_cons, pairAt?, List.find?_cons]
    cases k == p.1 with
    | true => rfl
    | false => exact ih

theorem lookup_of_pairAt? (h : pairAt? k l = some p) : l.lookup k = some p.2 := by
  rw [lookup_eq_map_pairAt?, h]
  rfl

theorem exists_pairAt? {y : ν} (h : l.lookup k = some y) : ∃ p, pairAt? k l = some p ∧ p.2 = y := by
  rw [lookup_eq_map_pairAt?, Option.map_eq_some_iff] at h
  exact h

theorem pairAt?_spec (h : pairAt? k l = some p) : p ∈ l ∧ (k == p.1) = true :=
  ⟨List.mem_of_find?_eq_some h, List.find?_some (p := fun q : κ × ν => k == q.1) h⟩

/-- What a key finds is found as well among entries that include all whose keys are equal. -/
theorem pairAt?_filter {P : κ × ν → Bool} (h : ∀ p ∈ l, (k == p.1) = true → P p = true) :
    pairAt? k (l.filter P) = pairAt? k l := by
  induction l with
  | nil => rfl
  | cons p rest ih =>
    have hrest := ih fun q hq => h q (List.mem_cons_of_mem p hq)
    have hfirst := h p List.mem_cons_self
    unfold pairAt? at hrest ⊢
    rw [List.filter_cons, List.find?_cons]
    cases hk : k == p.1 with
    | true => rw [if_pos (hfirst hk), List.find?_cons, hk]
    | false =>
      split
      · rw [List.find?_cons, hk]
        exact hrest
      · exact hrest

/-- The only entry whose key is equal is found. -/
theorem pairAt?_of_unique (hp : p ∈ l) (hk : (k == p.1) = true)
    (hunique : ∀ q ∈ l, (k == q.1) = true → q = p) : pairAt? k l = some p := by
  cases hq : pairAt? k l with
  | none => exact absurd hk (List.find?_eq_none.1 hq p hp)
  | some q =>
    obtain ⟨hmem, hbeq⟩ := pairAt?_spec hq
    rw [hunique q hmem hbeq]

/-- Each entry finds another with a related value, and there are no more than these. -/
structure Matched (R : ν → ν → Prop) (l m : List (κ × ν)) : Prop where
  length_eq : l.length = m.length
  found : ∀ p ∈ l, ∃ q, pairAt? p.1 m = some q ∧ R p.2 q.2

/-- Entries with the same keys, in the same order, match if their values are related. -/
theorem matched_of_keys [Comparable κ] {R : ν → ν → Prop} (hkeys : m.map (·.1) = l.map (·.1))
    (hl : Distinct l)
    (hR : ∀ (i : Nat) p q, l[i]? = some p → m[i]? = some q → R p.2 q.2) : Matched R l m where
  length_eq := by rw [← List.length_map (f := (·.1)), ← hkeys, List.length_map]
  found := by
    intro p hp
    have hm : Distinct m := by rwa [Distinct, hkeys]
    obtain ⟨i, hi⟩ := List.getElem?_of_mem hp
    have hkey : (m.map (·.1))[i]? = some p.1 := by rw [hkeys, List.getElem?_map, hi]; rfl
    rw [List.getElem?_map, Option.map_eq_some_iff] at hkey
    obtain ⟨q, hq, hqp⟩ := hkey
    have hmem := List.mem_of_getElem? hq
    refine ⟨q, pairAt?_of_unique hmem (by rw [hqp, BEq.rfl]) fun q' hq' hk' => ?_, hR i p q hi hq⟩
    rw [← hqp] at hk'
    exact (hm.eq_of_beq hmem hq' hk').symm

/-- No key in the middle keeps apart two keys that it equals. -/
def Joins (l m n : List (κ × ν)) : Prop :=
  ∀ p ∈ l, ∀ q ∈ m, ∀ r ∈ n, (p.1 == q.1) = true → (q.1 == r.1) = true → (p.1 == r.1) = true

namespace Matched

variable [Comparable κ] {R S T : ν → ν → Prop}

/-- **No entry is left over**: each one is found by some entry. -/
theorem onto (h : Matched R l m) (hl : Distinct l) (hjoins : Joins l m l) (hq : q ∈ m) :
    ∃ p ∈ l, pairAt? p.1 m = some q ∧ R p.2 q.2 := by
  have hnonempty : Nonempty (κ × ν) := ⟨q⟩
  have hfound := h.found
  choose! f hf using hfound
  have hinjective : ∀ p ∈ l, ∀ p' ∈ l, f p = f p' → p = p' := by
    intro p hp p' hp' heq
    obtain ⟨hmem, hk⟩ := pairAt?_spec (hf p hp).1
    have hk' := (pairAt?_spec (hf p' hp').1).2
    rw [← heq, Comparable.comm] at hk'
    exact hl.eq_of_beq hp hp' (hjoins p hp (f p) hmem p' hp' hk hk')
  have hnodup : (l.map f).Nodup := List.Nodup.map_on hinjective hl.nodup
  have hsubset : l.map f ⊆ m := by
    intro q hq
    obtain ⟨p, hp, rfl⟩ := List.mem_map.1 hq
    exact (pairAt?_spec (hf p hp).1).1
  have hperm : (l.map f).Perm m := (List.subperm_of_subset hnodup hsubset).perm_of_length_le
    (by rw [List.length_map, h.length_eq])
  obtain ⟨p, hp, rfl⟩ := List.mem_map.1 (hperm.mem_iff.2 hq)
  exact ⟨p, hp, hf p hp⟩

/-- **Matches in the other order.** -/
theorem symm (h : Matched R l m) (hl : Distinct l) (hjoins : Joins l m l)
    (hS : ∀ p ∈ l, ∀ q, pairAt? p.1 m = some q → R p.2 q.2 → S q.2 p.2) : Matched S m l where
  length_eq := h.length_eq.symm
  found := by
    intro q hq
    obtain ⟨p, hp, hfinds, hrel⟩ := h.onto hl hjoins hq
    have hk := (pairAt?_spec hfinds).2
    refine ⟨p, pairAt?_of_unique hp (by rwa [Comparable.comm]) fun p' hp' hk' => ?_, hS p hp q hfinds hrel⟩
    exact (hl.eq_of_beq hp hp' (hjoins p hp q hq p' hp' hk hk')).symm

/-- **Matches one after the other.** -/
theorem trans (h : Matched R l m) (h' : Matched S m n) (hl : Distinct l) (hm : Distinct m)
    (hn : Distinct n) (hjoins : Joins l m l) (hjoins' : Joins m n m) (hthrough : Joins l m n)
    (hT : ∀ p ∈ l, ∀ q ∈ m, ∀ r, pairAt? p.1 m = some q → pairAt? q.1 n = some r →
      R p.2 q.2 → S q.2 r.2 → T p.2 r.2) : Matched T l n where
  length_eq := h.length_eq.trans h'.length_eq
  found := by
    intro p hp
    obtain ⟨q, hfirst, hrel⟩ := h.found p hp
    obtain ⟨hq, hpq⟩ := pairAt?_spec hfirst
    obtain ⟨r, hsecond, hrel'⟩ := h'.found q hq
    obtain ⟨hr, hqr⟩ := pairAt?_spec hsecond
    have hpr := hthrough p hp q hq r hr hpq hqr
    refine ⟨r, pairAt?_of_unique hr hpr fun r' hr' hpr' => ?_, hT p hp q hq r hfirst hsecond hrel hrel'⟩
    -- Another entry with an equal key is reached from an entry of its own, unless that is the first.
    obtain ⟨q', hq', hsecond', -⟩ := h'.onto hm hjoins' hr'
    obtain ⟨p', hp', hfirst', -⟩ := h.onto hl hjoins hq'
    have hlast := hthrough p' hp' q' hq' r' hr' (pairAt?_spec hfirst').2 (pairAt?_spec hsecond').2
    rcases Comparable.cross p.1 r.1 r'.1 p'.1 hpr hpr' hlast with hrr | hpp
    · exact (hn.eq_of_beq hr hr' hrr).symm
    · obtain rfl := hl.eq_of_beq hp hp' hpp
      obtain rfl := Option.some.inj (hfirst.symm.trans hfirst')
      exact Option.some.inj (hsecond'.symm.trans hsecond)

end Matched

end Assoc

end ScriptMachine
