import Mathlib.Algebra.Group.End
import Mathlib.Data.Multiset.ZeroCons
import Mathlib.Data.Set.Basic

/-!
# Stable insertion

An insertion sort, whatever its comparisons answer. The elements up to a position are in order, and
the next one travels down to its place. A stable order of the elements is a total order of the
positions that they came from, so only the positions are arranged.

* `Sifted`: how an insertion sort may rearrange an array; `Sifted.perm`.
* `WeakOrderOn`: a strict weak order on some elements.
* `Precedes`: one of two positions comes first in a stable order.
* `InOrder`: the positions up to one are arranged; `InOrder.next` takes up the next one.
* `Travels`: one element has passed some of the others; `Travels.pass` and `Travels.arrive` are the
  two things that a comparison may come to.
* `Sifted.arranged`, `Sifted.sortsStably`: comparisons by a strict weak order sort, and the sort is
  stable.
-/

namespace ScriptMachine.Insertion

variable {α : Type}

/-! ### The course of an insertion sort -/

/-- How an insertion sort may have rearranged an array: the element found at `i` has come down to
`j`, where `0` stands for any place where it stays. What the comparisons of an element with the one
below it answer is a parameter. -/
inductive Sifted (answers : α → α → Bool → Prop) (before : Array α) : ℕ → ℕ → Array α → Prop
  | first : Sifted answers before 0 0 before
  | next {i : ℕ} {values : Array α} (h : Sifted answers before i 0 values)
      (hlt : i + 1 < before.size) : Sifted answers before (i + 1) (i + 1) values
  | stays {i k : ℕ} {values : Array α} {upper lower : α}
      (h : Sifted answers before i (k + 1) values) (hupper : values[k + 1]? = some upper)
      (hlower : values[k]? = some lower) (hanswer : answers upper lower false) :
      Sifted answers before i 0 values
  | passes {i k : ℕ} {values : Array α} {upper lower : α}
      (h : Sifted answers before i (k + 1) values) (hupper : values[k + 1]? = some upper)
      (hlower : values[k]? = some lower) (hanswer : answers upper lower true) :
      Sifted answers before i k (values.swapIfInBounds k (k + 1))

/-- An element and the one below it, exchanged. -/
theorem swapIfInBounds_perm (values : Array α) (k : ℕ) :
    (values.swapIfInBounds k (k + 1)).Perm values := by
  unfold Array.swapIfInBounds
  split
  · split
    · exact Array.swap_perm _ _
    · exact .refl _
  · exact .refl _

/-- An element that is overwritten by another one is lost. -/
theorem not_perm_setIfInBounds {values : Array α} {k : ℕ} {old new : α}
    (hold : values[k]? = some old) (hne : old ≠ new) :
    ¬ (values.setIfInBounds k new).Perm values := by
  intro hperm
  obtain ⟨hk, rfl⟩ := Array.getElem?_eq_some_iff.1 hold
  have hafter := List.set_perm_cons_eraseIdx (l := values.toList) hk new
  have hbefore := List.getElem_cons_eraseIdx_perm (l := values.toList) hk
  have hall : (values.toList.set k new).Perm values.toList := by simpa using hperm.toList
  have hcons := Multiset.coe_eq_coe.2 ((hafter.symm.trans hall).trans hbefore.symm)
  rw [← Multiset.cons_coe, ← Multiset.cons_coe, Multiset.cons_inj_left] at hcons
  exact hne hcons.symm

theorem getElem?_swapIfInBounds {values : Array α} {k : ℕ} (hk : k + 1 < values.size) (p : ℕ) :
    (values.swapIfInBounds k (k + 1))[p]? = values[Equiv.swap k (k + 1) p]? := by
  rw [Array.swapIfInBounds, dif_pos (show k < values.size by omega), dif_pos hk,
    Array.getElem?_swap]
  by_cases hlower : p = k
  · subst hlower
    rw [Equiv.swap_apply_left]
    simp [hk]
  · by_cases hupper : p = k + 1
    · subst hupper
      rw [Equiv.swap_apply_right]
      simp [show k < values.size by omega]
    · rw [Equiv.swap_apply_of_ne_of_ne hlower hupper, if_neg (Ne.symm hupper),
        if_neg (Ne.symm hlower)]

variable {answers : α → α → Bool → Prop} {before values : Array α} {i j : ℕ}

/-- **An insertion sort loses nothing.** -/
theorem Sifted.perm (h : Sifted answers before i j values) : values.Perm before := by
  induction h with
  | first => exact .refl _
  | next _ _ ih => exact ih
  | stays _ _ _ _ ih => exact ih
  | passes _ _ _ _ ih => exact (swapIfInBounds_perm _ _).trans ih

theorem Sifted.size_eq (h : Sifted answers before i j values) : values.size = before.size :=
  h.perm.size_eq

/-- The element on its way is one of the array. -/
theorem Sifted.lt_size (h : Sifted answers before i j values) :
    j ≤ i ∧ (i = 0 ∨ i < before.size) := by
  induction h with
  | first => exact ⟨Nat.le_refl 0, .inl rfl⟩
  | next _ hlt _ => exact ⟨Nat.le_refl _, .inr hlt⟩
  | stays _ _ _ _ ih => exact ⟨Nat.zero_le _, ih.2⟩
  | passes _ _ _ _ ih => exact ⟨Nat.le_of_succ_le ih.1, ih.2⟩

/-! ### Orders -/

variable {lt : α → α → Prop} {s : Set α}

/-- A strict weak order on some elements: elements neither of which is less form classes. -/
structure WeakOrderOn (lt : α → α → Prop) (s : Set α) : Prop where
  irrefl : ∀ a ∈ s, ¬ lt a a
  trans : ∀ a ∈ s, ∀ b ∈ s, ∀ c ∈ s, lt a b → lt b c → lt a c
  alike : ∀ a ∈ s, ∀ b ∈ s, ∀ c ∈ s, ¬ lt a b → ¬ lt b a → ¬ lt b c → ¬ lt c b → ¬ lt a c

theorem WeakOrderOn.asymm (h : WeakOrderOn lt s) {a b : α} (ha : a ∈ s) (hb : b ∈ s)
    (hab : lt a b) : ¬ lt b a :=
  fun hba => h.irrefl a ha (h.trans a ha b hb a ha hab hba)

theorem WeakOrderOn.not_trans (h : WeakOrderOn lt s) {a b c : α} (ha : a ∈ s) (hb : b ∈ s)
    (hc : c ∈ s) (hab : ¬ lt a b) (hbc : ¬ lt b c) : ¬ lt a c := by
  intro hac
  have hba : ¬ lt b a := fun hba => hbc (h.trans b hb a ha c hc hba hac)
  have hcb : ¬ lt c b := fun hcb => hab (h.trans a ha c hc b hb hac hcb)
  exact h.alike a ha b hb c hc hab hba hbc hcb hac

/-! ### The order of positions -/

/-- The element at one position goes before that at another: it is less, or neither is less and it
was there first. -/
def Precedes (lt : α → α → Prop) (f : ℕ → α) (p q : ℕ) : Prop :=
  lt (f p) (f q) ∨ ¬ lt (f q) (f p) ∧ p < q

variable {f : ℕ → α} {σ : Equiv.Perm ℕ} {p q r : ℕ}

/-- **A stable order is an order.** -/
theorem Precedes.trans (h : WeakOrderOn lt s) (hp : f p ∈ s) (hq : f q ∈ s) (hr : f r ∈ s)
    (hpq : Precedes lt f p q) (hqr : Precedes lt f q r) : Precedes lt f p r := by
  rcases hpq with hpq | ⟨hqp, hlt⟩ <;> rcases hqr with hqr | ⟨hrq, hlt'⟩
  · exact .inl (h.trans _ hp _ hq _ hr hpq hqr)
  · exact .inl (by_contra fun hpr => h.not_trans hp hr hq hpr hrq hpq)
  · exact .inl (by_contra fun hpr => h.not_trans hq hp hr hqp hpr hqr)
  · exact .inr ⟨h.not_trans hr hq hp hrq hqp, Nat.lt_trans hlt hlt'⟩

/-- What precedes is not greater, and of like elements it was there first. -/
theorem Precedes.spec (h : WeakOrderOn lt s) (hp : f p ∈ s) (hq : f q ∈ s)
    (hpq : Precedes lt f p q) : ¬ lt (f q) (f p) ∧ (¬ lt (f p) (f q) → p < q) := by
  rcases hpq with hpq | ⟨hqp, hlt⟩
  · exact ⟨h.asymm hp hq hpq, fun hnot => absurd hpq hnot⟩
  · exact ⟨hqp, fun _ => hlt⟩

/-! ### Arrangements -/

/-- The positions up to one are arranged in order, and those above are where they were. -/
structure InOrder (lt : α → α → Prop) (f : ℕ → α) (σ : Equiv.Perm ℕ) (i : ℕ) : Prop where
  ordered : ∀ p q, p < q → q ≤ i → Precedes lt f (σ p) (σ q)
  untouched : ∀ p, i < p → σ p = p

/-- The element that was at position `i` has come down to position `j` and has passed those above;
the others up to there are in order. -/
structure Travels (lt : α → α → Prop) (f : ℕ → α) (σ : Equiv.Perm ℕ) (i j : ℕ) : Prop where
  le : j ≤ i
  traveller : σ j = i
  others : ∀ p q, p < q → q ≤ i → p ≠ j → q ≠ j → Precedes lt f (σ p) (σ q)
  passed : ∀ q, j < q → q ≤ i → Precedes lt f (σ j) (σ q)
  untouched : ∀ p, i < p → σ p = p

/-- An arrangement that leaves the positions above one alone arranges those up to it. -/
theorem le_of_untouched (h : ∀ p, i < p → σ p = p) (hp : p ≤ i) : σ p ≤ i := by
  by_contra hlt
  have hfix := σ.injective (h (σ p) (by omega))
  omega

/-- At first nothing is arranged. -/
theorem InOrder.first : InOrder lt f 1 0 :=
  ⟨fun p q hpq hq => by omega, fun _ _ => rfl⟩

/-- **The next element sets out.** -/
theorem InOrder.next (h : InOrder lt f σ i) : Travels lt f σ (i + 1) (i + 1) where
  le := Nat.le_refl _
  traveller := h.untouched _ (Nat.lt_succ_self i)
  others p q hpq hq _ hne := h.ordered p q hpq (by omega)
  passed q hlt hle := by omega
  untouched p hp := h.untouched p (by omega)

/-- **An element that is less passes the one below it.** -/
theorem Travels.pass (h : Travels lt f σ i (j + 1)) (hlt : lt (f (σ (j + 1))) (f (σ j))) :
    Travels lt f (σ * Equiv.swap j (j + 1)) i j := by
  have hle := h.le
  have hself : (σ * Equiv.swap j (j + 1)) j = σ (j + 1) := congrArg σ (Equiv.swap_apply_left _ _)
  have hbelow : (σ * Equiv.swap j (j + 1)) (j + 1) = σ j := congrArg σ (Equiv.swap_apply_right _ _)
  have hother : ∀ p, p ≠ j → p ≠ j + 1 → (σ * Equiv.swap j (j + 1)) p = σ p := fun p hp hp' =>
    congrArg σ (Equiv.swap_apply_of_ne_of_ne hp hp')
  refine ⟨by omega, hself.trans h.traveller, fun p q hpq hq hpj hqj => ?_, fun q hjq hq => ?_,
    fun p hp => ?_⟩
  · by_cases hp : p = j + 1
    · subst hp
      rw [hbelow, hother q hqj (by omega)]
      exact h.others j q (by omega) hq (by omega) (by omega)
    · rw [hother p hpj hp]
      by_cases hq' : q = j + 1
      · subst hq'
        rw [hbelow]
        exact h.others p j (by omega) (by omega) hp (by omega)
      · rw [hother q hqj hq']
        exact h.others p q hpq hq hp hq'
  · rw [hself]
    by_cases hq' : q = j + 1
    · subst hq'
      rw [hbelow]
      exact .inl hlt
    · rw [hother q (by omega) hq']
      exact h.passed q (by omega) hq
  · rw [hother p (by omega) (by omega)]
    exact h.untouched p hp

/-- **An element that is not less stays**, and so does one that has come all the way down. -/
theorem Travels.arrive (h : Travels lt f σ i j) (hlt : WeakOrderOn lt s) (hs : ∀ p ≤ i, f p ∈ s)
    (hstays : ∀ k, j = k + 1 → ¬ lt (f (σ j)) (f (σ k))) : InOrder lt f σ i := by
  have hmem : ∀ p ≤ i, f (σ p) ∈ s := fun p hp => hs _ (le_of_untouched h.untouched hp)
  have hle := h.le
  refine ⟨fun p q hpq hq => ?_, h.untouched⟩
  by_cases hp : p = j
  · subst hp
    exact h.passed q hpq hq
  by_cases hq' : q = j
  · obtain ⟨k, rfl⟩ := Nat.exists_eq_succ_of_ne_zero (show q ≠ 0 by omega)
    subst hq'
    -- The element below came from below, so that the traveller goes after it.
    have hbelow : σ k < σ (k + 1) := by
      have hle' := le_of_untouched h.untouched (show k ≤ i by omega)
      have hne : σ k ≠ σ (k + 1) := fun heq => by
        have := σ.injective heq
        omega
      rw [h.traveller] at hne ⊢
      omega
    have hlast : Precedes lt f (σ k) (σ (k + 1)) := .inr ⟨hstays k rfl, hbelow⟩
    rcases Nat.lt_or_eq_of_le (Nat.le_of_lt_succ hpq) with hlt' | rfl
    · exact (h.others p k hlt' (by omega) hp (by omega)).trans hlt (hmem p (by omega))
        (hmem k (by omega)) (hmem (k + 1) hq) hlast
    · exact hlast
  · exact h.others p q hpq hq hp hq'

/-- A comparison by an order. -/
def AnswersBy (lt : α → α → Prop) (upper lower : α) (answer : Bool) : Prop :=
  answer = true ↔ lt upper lower

theorem Sifted.mem_before [Inhabited α] (h : Sifted answers before i j values) (hi : 0 < i) :
    ∀ p ≤ i, before[p]! ∈ before := by
  intro p hp
  have hsize : p < before.size := by
    have := h.lt_size.2
    omega
  rw [getElem!_pos before p hsize]
  exact Array.getElem_mem hsize

/-- What an arrangement tells about an element. -/
theorem getElem!_of_arranged [Inhabited α] {a : α} (hvalues : ∀ p, values[p]? = before[σ p]?)
    (hp : values[p]? = some a) : before[σ p]! = a := by
  rw [hvalues] at hp
  rw [Array.getElem!_eq_getD, Array.getD_eq_getD_getElem?, hp]
  rfl

/-- **Comparisons by a strict weak order sort, and the sort is stable**: the elements up to `i` are
in order, but for the one that is on its way. -/
theorem Sifted.arranged [Inhabited α] (h : Sifted (AnswersBy lt) before i j values)
    (hlt : WeakOrderOn lt { a | a ∈ before }) :
    ∃ σ : Equiv.Perm ℕ, (∀ p, values[p]? = before[σ p]?) ∧
      (j = 0 → InOrder lt (before[·]!) σ i) ∧ (0 < j → Travels lt (before[·]!) σ i j) := by
  induction h with
  | first => exact ⟨1, fun _ => rfl, fun _ => .first, fun h => absurd h (Nat.lt_irrefl 0)⟩
  | next h hsize ih =>
    obtain ⟨σ, hvalues, horder, -⟩ := ih
    exact ⟨σ, hvalues, fun h => absurd h (Nat.succ_ne_zero _), fun _ => (horder rfl).next⟩
  | stays h hupper hlower hanswer ih =>
    obtain ⟨σ, hvalues, -, htravels⟩ := ih
    have hi := h.lt_size.1
    refine ⟨σ, hvalues, fun _ => (htravels (Nat.succ_pos _)).arrive hlt
      (h.mem_before (by omega)) fun k hk => ?_, fun h => absurd h (Nat.lt_irrefl 0)⟩
    cases hk
    rw [getElem!_of_arranged hvalues hupper, getElem!_of_arranged hvalues hlower]
    exact fun hless => Bool.false_ne_true (hanswer.2 hless)
  | @passes i k values upper lower h hupper hlower hanswer ih =>
    obtain ⟨σ, hvalues, -, htravels⟩ := ih
    have hi := h.lt_size.1
    have hpassed : Travels lt (before[·]!) (σ * Equiv.swap k (k + 1)) i k := by
      refine (htravels (Nat.succ_pos _)).pass ?_
      rw [getElem!_of_arranged hvalues hupper, getElem!_of_arranged hvalues hlower]
      exact hanswer.1 rfl
    refine ⟨σ * Equiv.swap k (k + 1), fun p => ?_, fun hk => ?_, fun _ => hpassed⟩
    · rw [getElem?_swapIfInBounds (Array.getElem?_eq_some_iff.1 hupper).1, hvalues]
      rfl
    · exact hpassed.arrive hlt (h.mem_before (by omega)) fun k' hk' => by omega

/-- An array is another one sorted: by where its elements were in the other, no later element is
less than an earlier one, and elements neither of which is less are in their old order. -/
def SortsStably (lt : α → α → Prop) (before after : Array α) : Prop :=
  ∃ σ : Equiv.Perm ℕ, (∀ p, after[p]? = before[σ p]?) ∧
    ∀ p q a b, p < q → after[p]? = some a → after[q]? = some b →
      ¬ lt b a ∧ (¬ lt a b → σ p < σ q)

/-- **At its end an insertion sort has sorted.** -/
theorem Sifted.sortsStably [Inhabited α] (h : Sifted (AnswersBy lt) before i 0 values)
    (hlt : WeakOrderOn lt { a | a ∈ before }) (hlast : before.size ≤ i + 1) :
    SortsStably lt before values := by
  obtain ⟨σ, hvalues, horder, -⟩ := h.arranged hlt
  refine ⟨σ, hvalues, fun p q a b hpq ha hb => ?_⟩
  have hq : q < before.size := by
    rw [← h.size_eq]
    exact (Array.getElem?_eq_some_iff.1 hb).1
  have hprecedes := (horder rfl).ordered p q hpq (by omega)
  have hmem : ∀ p ≤ i, before[σ p]! ∈ before := fun p hp =>
    h.mem_before (by omega) _ (le_of_untouched (horder rfl).untouched hp)
  rw [← getElem!_of_arranged hvalues ha, ← getElem!_of_arranged hvalues hb]
  exact hprecedes.spec hlt (hmem p (by omega)) (hmem q (by omega))

end ScriptMachine.Insertion
