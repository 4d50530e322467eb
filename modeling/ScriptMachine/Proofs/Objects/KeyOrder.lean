import ScriptMachine.Proofs.Loops.Exhaustion
import ScriptMachine.Proofs.Objects.Rounding

/-!
# The order of map keys

Keys of all sorts are compared with each other, integers among themselves exactly and with floats as
the nearest float. So two different integers may both equal the float that they are rounded to, and
the order is no total order of all keys. Here is what it is.

* `Key.Straddles`: two different integers that are rounded to the float between them.
* `Key.straddles_of_gt`: the order is transitive but for these.
* `Key.digest_eq_of_beq`: equal keys are hashed alike; `Assoc.lookup_filter`: so a table that looks
  only among keys with the same hash finds what is there.
* `Value.number?`: the number of a value; `Key.beq_iff_of_number?`: keys of one number are equal,
  unless one of them is minus zero.
* `MapObject.TellsApart`: what that comes to for the keys of a map.
-/

namespace ScriptMachine

namespace Key

variable {a b c : Key}

/-- Two different integers and between them the float that both are rounded to. -/
inductive Straddles : Key → Key → Key → Prop
  | intro {x y : Int64} (hne : x ≠ y) (hsame : Binary64.ofInt x.toInt = Binary64.ofInt y.toInt) :
      Straddles (.int x) (.float (Binary64.ofInt x.toInt)) (.int y)

theorem Straddles.symm (h : Straddles a b c) : Straddles c b a := by
  obtain ⟨hne, hsame⟩ := h
  rw [hsame]
  exact .intro hne.symm hsame.symm

/-! ### Transitivity -/

theorem beq_iff : (a == b) = true ↔ a.order b = .eq := by
  show (a.order b == .eq) = true ↔ _
  rw [beq_iff_eq]

theorem order_eq_lt_iff : a.order b = .lt ↔ b.order a = .gt := by
  rw [← swap_order a b]
  cases a.order b <;> decide

/-- Keys of different sorts come in the order of the sorts. -/
theorem rank_le_of_order (h : a.order b ≠ .gt) : a.rank ≤ b.rank := by
  cases a <;> cases b <;> first | exact Nat.le_refl _ | exact absurd rfl h | exact Nat.zero_le _ |
    exact Nat.le_succ _

/-- **Keys are in order but for a float between two integers.** -/
theorem straddles_of_gt (hab : a.order b ≠ .gt) (hbc : b.order c ≠ .gt) (hac : a.order c = .gt) :
    Straddles a b c := by
  have hmono := fun {i j : Int64} => @Binary64.totalKey_ofInt_mono i.toInt j.toInt
  have hca : c.order a ≠ .gt := by
    rw [order_eq_lt_iff.2 hac]
    decide
  -- A circle of keys stays within one sort.
  have hranks : a.rank = b.rank ∧ b.rank = c.rank := by
    have hab := rank_le_of_order hab
    have hbc := rank_le_of_order hbc
    have hca := rank_le_of_order hca
    omega
  cases a <;> cases b <;> cases hranks.1 <;> cases c <;> cases hranks.2
  case bool.bool.refl.bool.refl =>
    exact absurd hac (Ordering.isLE_iff_ne_gt.1 (Std.TransOrd.isLE_trans
      (Ordering.isLE_iff_ne_gt.2 hab) (Ordering.isLE_iff_ne_gt.2 hbc)))
  case string.string.refl.string.refl x y z =>
    have htrans := @Std.TransOrd.isLE_trans String _ _ x y z
    exact absurd hac (Ordering.isLE_iff_ne_gt.1 (htrans
      (Ordering.isLE_iff_ne_gt.2 hab) (Ordering.isLE_iff_ne_gt.2 hbc)))
  all_goals simp only [order, compare_gt_iff_gt, ne_eq, not_lt] at hab hbc hac hca
  case int.int.refl.float.refl x y f =>
    have hle := hmono hab
    omega
  case float.int.refl.int.refl f x y =>
    have hle := hmono hbc
    omega
  case int.float.refl.int.refl x f y =>
    have hle := hmono hca
    have hx : Binary64.ofInt x.toInt = f := Binary64.totalKey_injective (by omega)
    have hy : Binary64.ofInt y.toInt = f := Binary64.totalKey_injective (by omega)
    subst hx
    exact .intro (by rintro rfl; omega) hy.symm
  all_goals omega

theorem Straddles.beq (h : Straddles a b c) :
    (a == b) = true ∧ (b == c) = true ∧ (a == c) = false := by
  obtain ⟨hne, hsame⟩ := h
  rename_i x y
  have hself := compare_eq_iff_eq.2 (rfl : (Binary64.ofInt x.toInt).totalKey = _)
  refine ⟨beq_iff.2 hself, beq_iff.2 ?_, ?_⟩
  · show compare (Binary64.ofInt x.toInt).totalKey (Binary64.ofInt y.toInt).totalKey = .eq
    rw [← hsame]
    exact hself
  · rw [Bool.eq_false_iff, ne_eq, beq_iff]
    intro h
    exact hne (Int64.toInt_inj.1 (compare_eq_iff_eq.1 h))

theorem order_of_beq (h : (a == b) = true) : a.order b ≠ .gt ∧ b.order a ≠ .gt := by
  rw [beq_iff] at h
  rw [← swap_order a b, h]
  decide

/-- **Keys that equal one key** are equal to each other, but for integers rounded to one float. -/
theorem beq_trans_iff (hab : (a == b) = true) (hbc : (b == c) = true) :
    (a == c) = true ↔ ¬ Straddles a b c := by
  constructor
  · intro hac h
    rw [h.beq.2.2] at hac
    cases hac
  · intro h
    rw [beq_iff]
    cases hac : a.order c with
    | eq => rfl
    | gt => exact absurd (straddles_of_gt (order_of_beq hab).1 (order_of_beq hbc).1 hac) h
    | lt =>
      rw [order_eq_lt_iff] at hac
      exact absurd (straddles_of_gt (order_of_beq hbc).2 (order_of_beq hab).2 hac).symm h

/-- The strict order is transitive. -/
theorem order_lt_trans (hab : a.order b = .lt) (hbc : b.order c = .lt) : a.order c = .lt := by
  have hle : ∀ {x y : Key}, x.order y = .lt → x.order y ≠ .gt := fun h => by rw [h]; decide
  cases hac : a.order c with
  | lt => rfl
  | gt =>
    have heq := (straddles_of_gt (hle hab) (hle hbc) hac).beq.1
    rw [beq_iff, hab] at heq
    cases heq
  | eq =>
    have heq := (straddles_of_gt (hle hbc) (order_of_beq (beq_iff.2 hac)).2
      (order_eq_lt_iff.1 hab)).beq.1
    rw [beq_iff, hbc] at heq
    cases heq

/-! ### Hashing -/

/-- **Equal keys are hashed alike.** -/
theorem digest_eq_of_beq (h : (a == b) = true) : a.digest = b.digest := by
  rw [beq_iff] at h
  cases a <;> cases b <;> first | cases h | skip
  case bool.bool x y => rw [compare_eq_iff_eq.1 h]
  case string.string x y => rw [Std.LawfulEqOrd.eq_of_compare (a := x) (b := y) h]
  all_goals have heq := compare_eq_iff_eq.1 h
  case int.int x y => rw [Int64.toInt_inj.1 heq]
  all_goals
    have hword := Binary64.totalKey_injective heq
    simp only [digest, rank, hword]

/-! ### Numbers -/

/-- The number of a key. -/
def number? : Key → Option ℚ
  | .int n => some n.toInt
  | .float x => x.number?
  | .bool _ | .string _ => none

/-- The one number that is not equal to itself in all kinds. -/
def minusZero : Key := .float Binary64.zero.neg

theorem number?_minusZero : minusZero.number? = some 0 := by
  rw [minusZero, number?, Binary64.number?, Format.number?, if_pos (by decide)]
  rw [show (Format.double.significand Binary64.zero.neg.word).1 = 0 by decide]
  simp

theorem eq_of_number?_zero (h : a.number? = some 0) :
    a = .int 0 ∨ a = .float .zero ∨ a = minusZero := by
  cases a with
  | int n =>
    have hn : (n.toInt : ℚ) = 0 := Option.some.inj h
    rw [Int.cast_eq_zero, ← Int64.toInt_zero, Int64.toInt_inj] at hn
    exact .inl (congrArg _ hn)
  | float x =>
    rcases Binary64.eq_zero_of_number? h with rfl | rfl
    · exact .inr (.inl rfl)
    · exact .inr (.inr rfl)
  | _ => cases h

/-- A float of an integer's number other than zero is the float that it is compared as. -/
theorem beq_float_of_number? {n : Int64} {x : Binary64} {q : ℚ} (hn : (n.toInt : ℚ) = q)
    (hx : x.number? = some q) (hq : q ≠ 0) : (Key.int n == .float x) = true := by
  subst hn
  have hround := Binary64.ofInt_of_number? hx (Int.cast_ne_zero.1 hq)
  exact beq_iff.2 (compare_eq_iff_eq.2 (congrArg Binary64.totalKey hround))

theorem beq_of_number? {q : ℚ} (ha : a.number? = some q) (hb : b.number? = some q) (hq : q ≠ 0) :
    (a == b) = true := by
  cases a <;> first | cases ha; done | skip
  all_goals cases b <;> first | cases hb; done | skip
  case int.int x y =>
    have hcast : (x.toInt : ℚ) = y.toInt := Option.some.inj (ha.trans hb.symm)
    rw [Int.cast_inj, Int64.toInt_inj] at hcast
    rw [hcast]
    exact BEq.rfl
  case int.float n x => exact beq_float_of_number? (Option.some.inj ha) hb hq
  case float.int x n =>
    rw [beq_comm]
    exact beq_float_of_number? (Option.some.inj hb) ha hq
  case float.float x y =>
    rw [Binary64.eq_of_number? ha hb hq]
    exact BEq.rfl

/-- **Keys of one number** are equal unless one of them is minus zero, and are always hashed alike. -/
theorem beq_iff_of_number? {q : ℚ} (ha : a.number? = some q) (hb : b.number? = some q) :
    ((a == b) = true ↔ (a = minusZero ↔ b = minusZero)) ∧ a.digest = b.digest := by
  by_cases hq : q = 0
  · subst hq
    rcases eq_of_number?_zero ha with rfl | rfl | rfl <;>
      rcases eq_of_number?_zero hb with rfl | rfl | rfl <;> decide
  · have hbeq := beq_of_number? ha hb hq
    have hne : ∀ {k : Key}, k.number? = some q → k ≠ minusZero := by
      rintro _ hk rfl
      rw [number?_minusZero] at hk
      exact hq (Option.some.inj hk).symm
    exact ⟨iff_of_true hbeq (iff_of_false (hne ha) (hne hb)), digest_eq_of_beq hbeq⟩

end Key

/-- The number of a value. -/
def Value.number? (v : Value) : Option ℚ :=
  match v.unwrapped with
  | .byte n => some n.toNat
  | .int32 n => some n.toInt
  | .int n | .int64 n => some n.toInt
  | .float32 x => x.number?
  | .float64 x => x.number?
  | _ => none

/-- A key has the number of the value that it was made of. -/
theorem Key.number?_of_ofValue {v : Value} {k : Key} (h : Key.ofValue v = .ok k) :
    k.number? = v.number? := by
  unfold Key.ofValue at h
  unfold Value.number?
  cases hu : v.unwrapped with
  | constant w => exact absurd hu (unwrapped_ne_constant v w)
  | byte n =>
    rw [hu] at h
    cases h
    show some ((Int64.ofNat n.toNat).toInt : ℚ) = some (n.toNat : ℚ)
    rw [Value.toInt_ofNat_byte, Int.cast_natCast]
  | int32 n =>
    rw [hu] at h
    cases h
    show some (n.toInt64.toInt : ℚ) = some (n.toInt : ℚ)
    rw [Int32.toInt_toInt64]
  | float32 x =>
    rw [hu] at h
    cases h
    exact x.number?_toBinary64
  | _ =>
    rw [hu] at h
    cases h
    try rfl

/-! ### Maps -/

namespace Assoc

/-- **A table that looks only among the keys with the same hash** finds what is there. -/
theorem lookup_filter {ν : Type} (hash : Nat × Key.Payload → UInt64) (k : Key) (l : List (Key × ν)) :
    (l.filter fun e => hash e.1.digest == hash k.digest).lookup k = l.lookup k := by
  induction l with
  | nil => rfl
  | cons e rest ih =>
    rw [List.filter_cons, lookup_cons]
    by_cases hk : (k == e.1) = true
    · rw [Key.digest_eq_of_beq hk, if_pos BEq.rfl, lookup_cons, if_pos hk, if_pos hk]
    · rw [if_neg hk]
      split
      · rw [lookup_cons, if_neg hk, ih]
      · exact ih

end Assoc

namespace MapObject

variable {m : MapObject}

/-- What maps can rely on: on the keys of one map the order is total, and only two integers that are
rounded to one float have a third key that equals both of them. -/
structure TellsApart (m : MapObject) : Prop where
  ascending : ∃ ks : List Key, ks.Perm (m.entries.map (·.1)) ∧ (ks.Pairwise fun a b => a.order b = .lt) ∧
    m.keys = ks.map (Key.toValue m.keyType)
  trans : ∀ a ∈ m.entries.map (·.1), ∀ b ∈ m.entries.map (·.1), ∀ c ∈ m.entries.map (·.1),
    a.order b ≠ .gt → b.order c ≠ .gt → a.order c ≠ .gt
  shared_iff : (m.entries.map (·.1)).Pairwise fun a b => ∀ c : Key,
    (a == c) = true ∧ (c == b) = true ↔ Key.Straddles a c b
  hashed : ∀ (hash : Nat × Key.Payload → UInt64) (k : Key),
    (m.entries.filter fun e => hash e.1.digest == hash k.digest).lookup k = m.entries.lookup k

/-- **Maps tell their keys apart.** -/
theorem Keyed.tellsApart (h : m.Keyed) : m.TellsApart where
  ascending := by
    have htrans : Trans (fun a b : Key => a.order b = .lt) (fun a b => a.order b = .lt)
        fun a b => a.order b = .lt := ⟨Key.order_lt_trans⟩
    exact ⟨m.sortedKeys, m.sortedKeys_perm, List.isChain_iff_pairwise.1 h.isChain_sortedKeys,
      m.keys_eq⟩
  trans := by
    intro a ha b hb c hc hab hbc hac
    -- A float that two keys are rounded to would be one of them.
    obtain ⟨hbeq, -, -⟩ := (Key.straddles_of_gt hab hbc hac).beq
    have hsymm : Std.Symm fun a b : Key => (a == b) = false :=
      ⟨fun a b hab => by rwa [Key.beq_comm]⟩
    by_cases heq : a = b
    · rw [heq] at hac
      exact hbc hac
    · rw [h.distinct.forall ha hb heq] at hbeq
      cases hbeq
  shared_iff := by
    refine h.distinct.imp fun {a b} hne c => ⟨fun ⟨hac, hcb⟩ => ?_, fun h => ⟨h.beq.1, h.beq.2.1⟩⟩
    by_contra hstraddles
    rw [(Key.beq_trans_iff hac hcb).2 hstraddles] at hne
    cases hne
  hashed := fun hash k => Assoc.lookup_filter hash k m.entries

end MapObject

namespace Key

/-- How the keys of three values are compared and hashed. The order is total and nearly transitive,
equality is nearly an equivalence, and equal numbers are equal keys but for minus zero. -/
structure Compares (u v : Value) (a b c : Key) : Prop where
  total : a.order b ≠ .gt ∨ b.order a ≠ .gt
  antisymm : a.order b ≠ .gt → b.order a ≠ .gt → (a == b) = true
  swap : (a.order b).swap = b.order a
  trans_iff : a.order b ≠ .gt → b.order c ≠ .gt →
    (a.order c ≠ .gt ↔ ¬ (Straddles a b c ∧ c.order a = .lt))
  lt_trans : a.order b = .lt → b.order c = .lt → a.order c = .lt
  refl : (a == a) = true
  symm : (a == b) = (b == a)
  beq_trans_iff : (a == b) = true → (b == c) = true → ((a == c) = true ↔ ¬ Straddles a b c)
  hashed : (a == b) = true → a.digest = b.digest
  numbers : ∀ q, u.number? = some q → v.number? = some q →
    ((a == b) = true ↔ (a = minusZero ↔ b = minusZero)) ∧ a.digest = b.digest

theorem compares {u v : Value} {a b : Key} (hu : ofValue u = .ok a) (hv : ofValue v = .ok b)
    (c : Key) : Compares u v a b c where
  total := by
    rw [← swap_order a b]
    cases a.order b <;> decide
  antisymm := by
    rw [← swap_order a b, beq_iff]
    cases a.order b <;> decide
  swap := swap_order a b
  trans_iff := by
    intro hab hbc
    rw [order_eq_lt_iff]
    exact ⟨fun hac h => hac h.2, fun h hac => h ⟨straddles_of_gt hab hbc hac, hac⟩⟩
  lt_trans := order_lt_trans
  refl := BEq.rfl
  symm := beq_comm a b
  beq_trans_iff := beq_trans_iff
  hashed := digest_eq_of_beq
  numbers := by
    intro q hq hq'
    rw [← number?_of_ofValue hu] at hq
    rw [← number?_of_ofValue hv] at hq'
    exact beq_iff_of_number? hq hq'

end Key

namespace Ensemble

open Machine

/-- **How map keys are compared.** Of the values that can be keys the order is total, antisymmetric
and transitive but for two integers that are rounded to one float; equal keys are hashed alike; and
keys of one number are equal unless just one of them is minus zero. In every state of a run all maps
give their keys out in strictly ascending order, which is transitive among the keys of a map, and only
two integers rounded to one float can both equal a third key. -/
theorem keys_ordered_iff {start : Machine} {e : Ensemble}
    (hkeyed : ∀ r, (start.world.heap.map r).Keyed) (h : Reached start e) :
    (∀ (u v w : Value) (a b c : Key), Key.ofValue u = .ok a → Key.ofValue v = .ok b →
      Key.ofValue w = .ok c → Key.Compares u v a b c) ∧
    ∀ r, (e.heap.map r).TellsApart :=
  ⟨fun _ _ _ _ _ c hu hv _ => Key.compares hu hv c, fun r => (h.keyed hkeyed r).tellsApart⟩

/-- A machine with a map whose keys are `2 ^ 53` and `2 ^ 53 + 1`. -/
def rounder : Machine :=
  ofContext { heap := { maps := #[⟨.interface, .interface,
      [(.int 9007199254740992, .null), (.int 9007199254740993, .null)], 0⟩] } } {
    name := "main"
    thread := 1
    symbols := .root
    code := ⟨"main", #[.plain .stop], none, true, false⟩ }

theorem keyed_rounder (r : Ref .map) : (rounder.world.heap.map r).Keyed := by
  obtain ⟨id⟩ := r
  cases id with
  | zero =>
    exact ⟨fun k _ => Key.fits_of_isInterface rfl k,
      .cons (by decide +kernel) (List.pairwise_singleton _ _)⟩
  | succ n =>
    rw [show rounder.world.heap.map ⟨n + 1⟩ = ⟨.interface, .interface, [], 0⟩ from rfl]
    exact ⟨fun k hk => absurd hk List.not_mem_nil, .nil⟩

/-- Both keys equal the float `2 ^ 53`. -/
theorem keys_ordered_iff_of_rounder : (∀ r, (rounder.world.heap.map r).Keyed) ∧
    Reached rounder (of rounder) ∧
    Key.ofValue (.int 9007199254740992) = .ok (.int 9007199254740992) ∧
    Key.ofValue (.float64 ⟨0x4340000000000000⟩) = .ok (.float ⟨0x4340000000000000⟩) ∧
    Key.ofValue (.int64 9007199254740993) = .ok (.int 9007199254740993) ∧
    Key.Compares (.int 9007199254740992) (.float64 ⟨0x4340000000000000⟩) (.int 9007199254740992)
      (.float ⟨0x4340000000000000⟩) (.int 9007199254740993) ∧
    Key.Straddles (.int 9007199254740992) (.float ⟨0x4340000000000000⟩) (.int 9007199254740993) ∧
    ((of rounder).heap.map ⟨0⟩).TellsApart := by
  obtain ⟨hcompares, hmaps⟩ := keys_ordered_iff keyed_rounder .start
  have hround : Binary64.ofInt (9007199254740992 : Int64).toInt = ⟨0x4340000000000000⟩ := by
    decide +kernel
  refine ⟨keyed_rounder, .start, rfl, rfl, rfl, hcompares _ _ (.int64 9007199254740993) _ _ _ rfl rfl rfl,
    ?_, hmaps ⟨0⟩⟩
  rw [← hround]
  exact .intro (by decide) (by decide +kernel)

end Ensemble

end ScriptMachine
