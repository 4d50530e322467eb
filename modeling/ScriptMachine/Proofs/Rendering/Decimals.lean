import Mathlib.Tactic.NormNum
import ScriptMachine.Numeric.Notation
import ScriptMachine.Proofs.Objects.Rounding

/-!
# Shortest decimals

The decimal that a word is written with lies in the interval of the reals that round to the word, so
reading it back gives the word.

* `Format.roundRatio_of_holds`: a real in the interval of a word rounds to the word.
* `Format.names_shortest`: the shortest decimal of a word is in its interval. Seventeen digits
  suffice: on that grid one of the two neighbours of the word's own value is.
-/

namespace ScriptMachine

/-! ### Rounding -/

/-- The nearest integer is at most a half away, and of two such it is the even one. -/
theorem roundHalfEven_eq {n d m : Nat} (hd : 0 < d) (hlow : 2 * (d * m) ≤ 2 * n + d)
    (hhigh : 2 * n ≤ 2 * (d * m) + d)
    (hodd : m % 2 = 1 → 2 * (d * m) < 2 * n + d ∧ 2 * n < 2 * (d * m) + d) :
    roundHalfEven n d = m := by
  have hdiv := Nat.div_add_mod n d
  have hmod := Nat.mod_lt n hd
  unfold roundHalfEven
  dsimp only
  generalize n / d = q at *
  generalize n % d = r at *
  have hle : q ≤ m := by
    by_contra hlt
    have := Nat.mul_le_mul_left d (show m + 1 ≤ q by omega)
    rw [Nat.mul_add] at this
    omega
  have hge : m ≤ q + 1 := by
    by_contra hlt
    have := Nat.mul_le_mul_left d (show q + 2 ≤ m by omega)
    rw [Nat.mul_add] at this
    omega
  obtain rfl | rfl : q = m ∨ m = q + 1 := by omega
  · split_ifs <;> omega
  · rw [Nat.mul_add] at *
    split_ifs <;> omega

theorem roundHalfEven_of_div {n d m : Nat} (hd : 0 < d) (hlow : (m : ℚ) - 1 / 2 ≤ n / d)
    (hhigh : (n : ℚ) / d ≤ m + 1 / 2)
    (hodd : m % 2 = 1 → (m : ℚ) - 1 / 2 < n / d ∧ (n : ℚ) / d < m + 1 / 2) :
    roundHalfEven n d = m := by
  have hd' : (0 : ℚ) < d := Nat.cast_pos.2 hd
  rw [le_div_iff₀ hd'] at hlow
  rw [div_le_iff₀ hd'] at hhigh
  rw [lt_div_iff₀ hd', div_lt_iff₀ hd'] at hodd
  refine roundHalfEven_eq hd ?_ ?_ fun h => ⟨?_, ?_⟩
  · have : (2 : ℚ) * (d * m) ≤ 2 * n + d := by linarith
    exact_mod_cast this
  · have : (2 : ℚ) * n ≤ 2 * (d * m) + d := by linarith
    exact_mod_cast this
  · have : (2 : ℚ) * (d * m) < 2 * n + d := by linarith [(hodd h).1]
    exact_mod_cast this
  · have : (2 : ℚ) * n < 2 * (d * m) + d := by linarith [(hodd h).2]
    exact_mod_cast this

namespace Reals

/-- The real lies in the interval. -/
def Holds (r : Reals) (y : ℚ) : Prop :=
  ((r.low : ℚ) / r.den ≤ y ∧ y ≤ r.high / r.den) ∧
    (r.closed = false → (r.low : ℚ) / r.den < y ∧ y < r.high / r.den)

theorem contains_iff {r : Reals} (hden : 0 < r.den) {n d : Nat} (hd : 0 < d) :
    r.contains n d = true ↔ r.Holds (n / d) := by
  have hden' : (0 : ℚ) < r.den := Nat.cast_pos.2 hden
  have hd' : (0 : ℚ) < d := Nat.cast_pos.2 hd
  unfold contains Holds
  rw [div_le_div_iff₀ hden' hd', div_le_div_iff₀ hd' hden', div_lt_div_iff₀ hden' hd',
    div_lt_div_iff₀ hd' hden']
  cases r.closed with
  | true =>
    rw [if_pos rfl, Bool.and_eq_true, decide_eq_true_eq, decide_eq_true_eq,
      and_iff_left (fun hopen => by cases hopen)]
    exact_mod_cast Iff.rfl
  | false =>
    rw [if_neg Bool.false_ne_true, Bool.and_eq_true, decide_eq_true_eq, decide_eq_true_eq]
    constructor
    · rintro ⟨hlow, hhigh⟩
      have hlow' : (r.low : ℚ) * d < n * r.den := by exact_mod_cast hlow
      have hhigh' : (n : ℚ) * r.den < r.high * d := by exact_mod_cast hhigh
      exact ⟨⟨hlow'.le, hhigh'.le⟩, fun _ => ⟨hlow', hhigh'⟩⟩
    · rintro ⟨-, hstrict⟩
      exact_mod_cast hstrict rfl

end Reals

namespace Format

variable {f : Format} {num den m : Nat} {e E : Int} {y : ℚ}

/-- The logarithms tell the place of a fraction. -/
theorem two_zpow_lt_div (hnum : num ≠ 0) (hden : 0 < den) :
    (2 : ℚ) ^ ((num.log2 : Int) - den.log2 - 1) < num / den ∧
      (num : ℚ) / den < 2 ^ ((num.log2 : Int) - den.log2 + 1) := by
  have hden' : (0 : ℚ) < den := Nat.cast_pos.2 hden
  have hnum' : (2 : ℚ) ^ num.log2 ≤ num ∧ (num : ℚ) < 2 ^ (num.log2 + 1) :=
    ⟨by exact_mod_cast Nat.log2_self_le hnum, by exact_mod_cast Nat.lt_log2_self⟩
  have hlog : (2 : ℚ) ^ den.log2 ≤ den ∧ (den : ℚ) < 2 ^ (den.log2 + 1) :=
    ⟨by exact_mod_cast Nat.log2_self_le hden.ne', by exact_mod_cast Nat.lt_log2_self⟩
  have htwo : (2 : ℚ) ≠ 0 := two_ne_zero
  constructor
  · rw [lt_div_iff₀ hden']
    calc (2 : ℚ) ^ ((num.log2 : Int) - den.log2 - 1) * den
        < 2 ^ ((num.log2 : Int) - den.log2 - 1) * 2 ^ (den.log2 + 1) :=
          mul_lt_mul_of_pos_left hlog.2 (by positivity)
      _ = 2 ^ num.log2 := by
          rw [← zpow_natCast, ← zpow_natCast, ← zpow_add₀ htwo]
          congr 1
          push_cast
          ring
      _ ≤ num := hnum'.1
  · rw [div_lt_iff₀ hden']
    calc (num : ℚ) < 2 ^ (num.log2 + 1) := hnum'.2
      _ = 2 ^ ((num.log2 : Int) - den.log2 + 1) * 2 ^ den.log2 := by
          rw [← zpow_natCast, ← zpow_natCast, ← zpow_add₀ htwo]
          congr 1
          push_cast
          ring
      _ ≤ _ := mul_le_mul_of_nonneg_left hlog.1 (by positivity)

/-- **Rounding to a word** is rounding to an integer, in units of the place where the leading bit of
the fraction falls. -/
theorem roundRatio_eq (hnum : num ≠ 0) (hden : 0 < den) (hE : f.minExponent ≤ E)
    (hlow : E = f.minExponent ∨ (2 : ℚ) ^ ((f.fractionBits : Int) + E) ≤ num / den)
    (hhigh : (num : ℚ) / den < 2 ^ ((f.fractionBits : Int) + E + 1)) :
    f.roundRatio num den = min ((E - f.minExponent).toNat * 2 ^ f.fractionBits +
      roundHalfEven (scaleByTwo num den (-E)).1 (scaleByTwo num den (-E)).2) f.infinity := by
  obtain ⟨habove, hbelow⟩ := two_zpow_lt_div hnum hden
  rw [roundRatio, if_neg hnum]
  generalize hrough : (num.log2 : Int) - den.log2 - f.fractionBits = rough
  dsimp only
  generalize hexact : (if (scaleByTwo num den (-rough)).1
    < (scaleByTwo num den (-rough)).2 * Nat.pow 2 f.fractionBits then rough - 1 else rough) = e
  obtain ⟨hd, hratio⟩ := scaleByTwo_spec num hden (-rough)
  generalize scaleByTwo num den (-rough) = p at *
  obtain ⟨n, d⟩ := p
  dsimp only at hd hratio hexact
  have hd' : (0 : ℚ) < d := Nat.cast_pos.2 hd
  have hpow : (0 : ℚ) < 2 ^ rough := zpow_pos two_pos _
  have hiff : n < d * Nat.pow 2 f.fractionBits ↔
      (num : ℚ) / den < 2 ^ ((f.fractionBits : Int) + rough) := by
    rw [zpow_add₀ two_ne_zero, zpow_natCast, ← div_lt_iff₀ hpow, div_eq_mul_inv, ← zpow_neg,
      ← hratio, div_lt_iff₀ hd', Nat.pow_eq, Nat.mul_comm]
    exact_mod_cast Iff.rfl
  have hplace : (2 : ℚ) ^ ((f.fractionBits : Int) + e) ≤ num / den ∧
      (num : ℚ) / den < 2 ^ ((f.fractionBits : Int) + e + 1) := by
    split at hexact
    · rename_i hless
      have hless := hiff.1 hless
      rw [← hexact, show (f.fractionBits : Int) + (rough - 1) = num.log2 - den.log2 - 1 by omega]
      refine ⟨habove.le, ?_⟩
      rwa [show (num.log2 : Int) - den.log2 - 1 + 1 = f.fractionBits + rough by omega]
    · rename_i hmore
      rw [hiff, not_lt] at hmore
      rw [← hexact]
      refine ⟨hmore, ?_⟩
      rwa [show (f.fractionBits : Int) + rough + 1 = num.log2 - den.log2 + 1 by omega]
  have hupper : e ≤ E := by
    have := (zpow_lt_zpow_iff_right₀ one_lt_two).1 (hplace.1.trans_lt hhigh)
    omega
  have hmax : max e f.minExponent = E := by
    rcases hlow with rfl | hlow
    · exact max_eq_right hupper
    · have := (zpow_lt_zpow_iff_right₀ one_lt_two).1 (hlow.trans_lt hplace.2)
      omega
  rw [hmax]
  rfl

/-- The significand is what the fraction is nearest to, in units of that place. -/
theorem roundRatio_of_near {z : ℚ} (hnum : num ≠ 0) (hden : 0 < den) (hE : f.minExponent ≤ E)
    (hy : (num : ℚ) / den = z * 2 ^ E) (hlow : E = f.minExponent ∨ (2 : ℚ) ^ f.fractionBits ≤ z)
    (hhigh : z < 2 ^ (f.fractionBits + 1)) (hnear : (m : ℚ) - 1 / 2 ≤ z ∧ z ≤ m + 1 / 2)
    (hodd : m % 2 = 1 → (m : ℚ) - 1 / 2 < z ∧ z < m + 1 / 2) :
    f.roundRatio num den
      = min ((E - f.minExponent).toNat * 2 ^ f.fractionBits + m) f.infinity := by
  have hunit : (0 : ℚ) < 2 ^ E := zpow_pos two_pos E
  rw [roundRatio_eq hnum hden hE]
  · obtain ⟨hd, hratio⟩ := scaleByTwo_spec num hden (-E)
    rw [hy, zpow_neg, mul_assoc, mul_inv_cancel₀ hunit.ne', mul_one] at hratio
    rw [roundHalfEven_of_div hd (hratio ▸ hnear.1) (hratio ▸ hnear.2) fun h => hratio ▸ hodd h]
  · rw [hy, zpow_add₀ two_ne_zero, zpow_natCast]
    exact hlow.imp_right fun hle => mul_le_mul_of_nonneg_right hle hunit.le
  · rw [hy, show (f.fractionBits : Int) + E + 1 = (f.fractionBits + 1 : Nat) + E by push_cast; ring,
      zpow_add₀ two_ne_zero, zpow_natCast]
    exact mul_lt_mul_of_pos_right hhigh hunit

/-! ### The reals of a word -/

/-- How far the interval of a word reaches down, in units of the last place: half a unit, but a
quarter below a power of two. -/
def lowerGap (f : Format) (bits : Nat) : ℚ :=
  if (f.significand bits).1 = 2 ^ f.fractionBits ∧ f.minExponent < (f.significand bits).2 then 1 / 4
  else 1 / 2

theorem lowerGap_le (f : Format) (bits : Nat) : 0 < f.lowerGap bits ∧ f.lowerGap bits ≤ 1 / 2 := by
  unfold lowerGap
  split <;> norm_num

/-- The middle of the interval is the number of the word. -/
theorem reals_mid (f : Format) (bits : Nat) : 0 < (f.reals bits).den ∧
    ((f.reals bits).mid : ℚ) / (f.reals bits).den
      = (f.significand bits).1 * 2 ^ (f.significand bits).2 := by
  unfold reals
  generalize f.significand bits = p
  obtain ⟨m, e⟩ := p
  obtain ⟨hd, hratio⟩ := scaleByTwo_spec 1 Nat.one_pos (e - 2)
  refine ⟨hd, ?_⟩
  dsimp only
  rw [Nat.cast_mul, mul_div_assoc, hratio, zpow_sub₀ two_ne_zero]
  push_cast
  ring

/-- **The interval of a word** in units of its last place. -/
theorem holds_reals_iff {bits : Nat} (hm : 0 < (f.significand bits).1) {z : ℚ} :
    (f.reals bits).Holds (z * 2 ^ (f.significand bits).2) ↔
      ((f.significand bits).1 - f.lowerGap bits ≤ z ∧ z ≤ (f.significand bits).1 + 1 / 2) ∧
        ((f.significand bits).1 % 2 = 1 →
          (f.significand bits).1 - f.lowerGap bits < z ∧ z < (f.significand bits).1 + 1 / 2) := by
  unfold reals lowerGap Reals.Holds
  generalize f.significand bits = p at *
  obtain ⟨m, e⟩ := p
  dsimp only at hm ⊢
  obtain ⟨hd, hratio⟩ := scaleByTwo_spec 1 Nat.one_pos (e - 2)
  generalize scaleByTwo 1 1 (e - 2) = p at *
  obtain ⟨unit, den⟩ := p
  dsimp only at hd hratio ⊢
  have hpos : (0 : ℚ) < 2 ^ e := zpow_pos two_pos e
  have hunit : (unit : ℚ) / den = 2 ^ e / 4 := by
    rw [hratio, Nat.cast_one, div_one, one_mul, zpow_sub₀ two_ne_zero]
    norm_num
  have hscale : ∀ k : Nat, ((k * unit : Nat) : ℚ) / den = (k : ℚ) / 4 * 2 ^ e := by
    intro k
    rw [Nat.cast_mul, mul_div_assoc, hunit]
    ring
  have hlow : ((4 * m - if m = Nat.pow 2 f.fractionBits ∧ f.minExponent < e then 1 else 2 : Nat)
      : ℚ) / 4 = m - if m = 2 ^ f.fractionBits ∧ f.minExponent < e then 1 / 4 else 1 / 2 := by
    rw [Nat.pow_eq]
    split
    · rw [Nat.cast_sub (by omega)]
      push_cast
      ring
    · rw [Nat.cast_sub (by omega)]
      push_cast
      ring
  have hhigh : ((4 * m + 2 : Nat) : ℚ) / 4 = m + 1 / 2 := by
    push_cast
    ring
  have hodd : (m % 2 == 0) = false ↔ m % 2 = 1 := by
    rw [beq_eq_false_iff_ne]
    omega
  rw [hscale, hscale, hlow, hhigh, mul_le_mul_iff_left₀ hpos, mul_le_mul_iff_left₀ hpos,
    mul_lt_mul_iff_left₀ hpos, mul_lt_mul_iff_left₀ hpos, hodd]

theorem significand_pos {bits : Nat} (hpos : 0 < f.magnitude bits)
    (hbit : f.magnitude bits < f.signBit) : 0 < (f.significand bits).1 := by
  obtain ⟨-, hword, -, hplace⟩ := f.significand_spec hbit
  rw [f.significand_magnitude] at hword hplace
  rcases hplace with hmin | hnormal
  · rw [hmin, sub_self, Int.toNat_zero, Nat.zero_mul, Nat.zero_add] at hword
    rwa [hword]
  · exact (Nat.two_pow_pos _).trans_le hnormal

/-- **The reals in the interval of a word** round to the word. -/
theorem roundRatio_of_holds {bits : Nat} (hpos : 0 < f.magnitude bits)
    (hfinite : f.magnitude bits < f.infinity) (hbit : f.infinity < f.signBit) (hden : 0 < den)
    (hy : (f.reals bits).Holds (num / den)) : f.roundRatio num den = f.magnitude bits := by
  obtain ⟨hmin, hword, hbits, hplace⟩ := f.significand_spec (Nat.lt_trans hfinite hbit)
  rw [f.significand_magnitude] at hmin hword hbits hplace
  have hm := significand_pos hpos (Nat.lt_trans hfinite hbit)
  have hunit : (0 : ℚ) < 2 ^ (f.significand bits).2 := zpow_pos two_pos _
  -- `z` is the real in units of the last place of the word
  generalize hz : (num : ℚ) / den / 2 ^ (f.significand bits).2 = z
  have hscaled : (num : ℚ) / den = z * 2 ^ (f.significand bits).2 := by
    rw [← hz, div_mul_cancel₀ _ hunit.ne']
  rw [hscaled, holds_reals_iff hm] at hy
  obtain ⟨hnear, hodd⟩ := hy
  obtain ⟨hgap, hhalf⟩ := f.lowerGap_le bits
  have hnarrow : f.lowerGap bits = 1 / 4 ∨ ¬ ((f.significand bits).1 = 2 ^ f.fractionBits ∧
      f.minExponent < (f.significand bits).2) := by
    unfold lowerGap
    split
    · exact .inl rfl
    · exact .inr ‹_›
  generalize f.lowerGap bits = gap at *
  generalize f.significand bits = p at *
  obtain ⟨m, e⟩ := p
  dsimp only at *
  have hpow : (1 : ℚ) ≤ 2 ^ f.fractionBits := one_le_pow₀ one_le_two
  have hone : (1 : ℚ) ≤ m := by exact_mod_cast hm
  have hnum : num ≠ 0 := by
    rintro rfl
    rw [Nat.cast_zero, zero_div, zero_div] at hz
    linarith [hnear.1]
  have hbits' : (m : ℚ) + 1 ≤ 2 ^ (f.fractionBits + 1) := by exact_mod_cast hbits
  by_cases hbelow : (m = 2 ^ f.fractionBits ∧ f.minExponent < e) ∧ z < 2 ^ f.fractionBits
  · -- The real is below a power of two, where the units are half as large.
    obtain ⟨⟨rfl, hlt⟩, hless⟩ := hbelow
    have hquarter := hnarrow.resolve_right (not_not_intro ⟨rfl, hlt⟩)
    rw [hquarter] at hnear
    push_cast at hnear
    have hhalved : (num : ℚ) / den = 2 * z * 2 ^ (e - 1) := by
      rw [hscaled, zpow_sub₀ two_ne_zero, zpow_one]
      field_simp
    rw [roundRatio_of_near (m := 2 ^ (f.fractionBits + 1)) hnum hden (by omega) hhalved
      (.inr (by linarith [hnear.1])) (by rw [pow_succ]; linarith)
      ⟨by push_cast; rw [pow_succ]; linarith [hnear.1], by push_cast; rw [pow_succ]; linarith⟩
      (fun h => by rw [pow_succ] at h; omega)]
    have hplaces : (e - 1 - f.minExponent).toNat + 1 = (e - f.minExponent).toNat := by omega
    rw [← hword, ← hplaces] at hfinite ⊢
    rw [pow_succ]
    rw [Nat.add_mul] at hfinite ⊢
    omega
  · rw [roundRatio_of_near hnum hden hmin hscaled _ (by linarith [hnear.2])
      ⟨by linarith [hnear.1], hnear.2⟩ fun h => ⟨by linarith [(hodd h).1], (hodd h).2⟩, hword]
    · exact Nat.min_eq_left hfinite.le
    · refine or_iff_not_imp_left.2 fun hne => ?_
      rcases Nat.lt_or_eq_of_le (hplace.resolve_left hne) with hmore | heq
      · have hmore' : (2 : ℚ) ^ f.fractionBits + 1 ≤ m := by exact_mod_cast hmore
        linarith [hnear.1]
      · exact not_lt.1 fun hless => hbelow ⟨⟨heq.symm, by omega⟩, hless⟩

end Format

/-! ### Powers of ten -/

/-- Powers of ten are compared with powers of two by two of their convergents. -/
theorem ten_zpow_le_two_zpow {a b : Int}
    (h : 0 ≤ a ∧ 196 * a ≤ 59 * b ∨ a ≤ 0 ∧ 93 * a ≤ 28 * b) : (10 : ℚ) ^ a ≤ 2 ^ b := by
  have hten : (10 : ℚ) ≠ 0 := by norm_num
  rcases h with ⟨ha, hab⟩ | ⟨ha, hab⟩
  · obtain ⟨k, rfl⟩ := Int.eq_ofNat_of_zero_le ha
    refine (pow_le_pow_iff_left₀ (by positivity) (by positivity) (show 59 ≠ 0 by norm_num)).1 ?_
    calc ((10 : ℚ) ^ (k : Int)) ^ 59 = ((10 : ℚ) ^ 59) ^ k := by
          rw [zpow_natCast, ← pow_mul, ← pow_mul, Nat.mul_comm]
      _ ≤ ((2 : ℚ) ^ 196) ^ k := pow_le_pow_left₀ (by positivity) (by norm_num) k
      _ = 2 ^ (196 * (k : Int)) := by
          rw [← pow_mul, ← zpow_natCast]
          push_cast
          rfl
      _ ≤ 2 ^ (59 * b) := zpow_le_zpow_right₀ one_le_two hab
      _ = ((2 : ℚ) ^ b) ^ 59 := by
          rw [← zpow_natCast, ← zpow_mul, mul_comm]
          rfl
  · obtain ⟨k, hk⟩ := Int.eq_ofNat_of_zero_le (show 0 ≤ -a by omega)
    obtain rfl : a = -(k : Int) := by omega
    refine (pow_le_pow_iff_left₀ (by positivity) (by positivity) (show 28 ≠ 0 by norm_num)).1 ?_
    calc ((10 : ℚ) ^ (-(k : Int))) ^ 28 = (((10 : ℚ) ^ 28) ^ k)⁻¹ := by
          rw [zpow_neg, zpow_natCast, inv_pow, ← pow_mul, ← pow_mul, Nat.mul_comm]
      _ ≤ (((2 : ℚ) ^ 93) ^ k)⁻¹ :=
          inv_anti₀ (by positivity) (pow_le_pow_left₀ (by positivity) (by norm_num) k)
      _ = 2 ^ (93 * (-(k : Int))) := by
          rw [← pow_mul, ← zpow_natCast, ← zpow_neg]
          push_cast
          congr 1
          ring
      _ ≤ 2 ^ (28 * b) := zpow_le_zpow_right₀ one_le_two hab
      _ = ((2 : ℚ) ^ b) ^ 28 := by
          rw [← zpow_natCast, ← zpow_mul, mul_comm]
          rfl

theorem scaleByTen_spec (n : Nat) {d : Nat} (hd : 0 < d) (k : Int) :
    0 < (scaleByTen n d k).2 ∧
      ((scaleByTen n d k).1 : ℚ) / (scaleByTen n d k).2 = n / d * 10 ^ k := by
  unfold scaleByTen
  split
  · rename_i hk
    obtain ⟨i, rfl⟩ := Int.eq_ofNat_of_zero_le hk
    refine ⟨hd, ?_⟩
    simp only [Int.toNat_natCast, Nat.pow_eq, zpow_natCast]
    push_cast
    ring
  · rename_i hk
    obtain ⟨i, hi⟩ := Int.eq_ofNat_of_zero_le (show 0 ≤ -k by omega)
    obtain rfl : k = -(i : Int) := by omega
    refine ⟨by simp only [Nat.pow_eq]; positivity, ?_⟩
    simp only [neg_neg, Int.toNat_natCast, Nat.pow_eq, zpow_neg, zpow_natCast]
    push_cast
    field_simp

/-- The leading exponent does not exceed the fraction. -/
theorem ten_zpow_leadingExponent_le {num den : Nat} (hnum : num ≠ 0) (hden : 0 < den)
    (hsize : |(num.log2 : Int) - den.log2| ≤ 10000) :
    (10 : ℚ) ^ leadingExponent num den ≤ num / den := by
  have hreaches : ∀ k : Int, (scaleByTen num den (-k)).2 ≤ (scaleByTen num den (-k)).1 →
      (10 : ℚ) ^ k ≤ num / den := by
    intro k hle
    obtain ⟨hd, hratio⟩ := scaleByTen_spec num hden (-k)
    have hd' : (0 : ℚ) < (scaleByTen num den (-k)).2 := Nat.cast_pos.2 hd
    have hone : (1 : ℚ) ≤ num / den * 10 ^ (-k) := by
      rw [← hratio, one_le_div hd']
      exact_mod_cast hle
    rwa [zpow_neg, ← div_eq_mul_inv, one_le_div (by positivity)] at hone
  unfold leadingExponent
  generalize hrough : ((num.log2 : Int) - den.log2) * 30103 / 100000 = rough
  dsimp only
  split
  · rename_i h
    exact hreaches _ (of_decide_eq_true h)
  split
  · rename_i h
    exact hreaches _ (of_decide_eq_true h)
  · refine le_trans (ten_zpow_le_two_zpow ?_) (Format.two_zpow_lt_div hnum hden).1.le
    rw [abs_le] at hsize
    omega

/-! ### Decimals in the interval -/

namespace Decimal

/-- The number that a decimal names. -/
def value (x : Decimal) : ℚ := x.digits * 10 ^ x.exponent

/-- Trailing zeros make no difference. -/
theorem strip_spec (fuel : Nat) (x : Decimal) :
    (x.strip fuel).value = x.value ∧ (0 < x.digits → 0 < (x.strip fuel).digits) := by
  fun_induction strip fuel x with
  | case1 x => exact ⟨rfl, id⟩
  | case2 fuel x hzero ih =>
    refine ⟨ih.1.trans ?_, fun hpos => ih.2 ?_⟩
    · have hten : (x.digits : ℚ) = (x.digits / 10 : Nat) * 10 := by
        exact_mod_cast (Nat.div_mul_cancel (Nat.dvd_of_mod_eq_zero hzero.2)).symm
      rw [value, value, hten, zpow_add_one₀ (by norm_num)]
      ring
    · dsimp only
      omega
  | case3 fuel x => exact ⟨rfl, id⟩

end Decimal

namespace Reals

variable {r : Reals} {tie : TieRule} {k lead : Int} {x : Decimal} {count : Nat}

/-- The decimal names a number in the interval other than zero. -/
structure Names (r : Reals) (x : Decimal) : Prop where
  digits_pos : 0 < x.digits
  holds : r.Holds x.value

theorem contains_scaleByTen (hden : 0 < r.den) (c : Nat) (k : Int) :
    r.contains (scaleByTen c 1 k).1 (scaleByTen c 1 k).2 = true ↔ r.Holds (c * 10 ^ k) := by
  obtain ⟨hd, hratio⟩ := scaleByTen_spec c Nat.one_pos k
  rw [contains_iff hden hd, hratio, Nat.cast_one, div_one]

/-- **What a grid gives** is in the interval. -/
theorem names_of_onGrid (hden : 0 < r.den) (hx : r.onGrid tie k = some x) : r.Names x := by
  unfold onGrid at hx
  dsimp only at hx
  have hnames : ∀ c : Nat, 0 < c →
      r.contains (scaleByTen c 1 k).1 (scaleByTen c 1 k).2 = true → r.Names ⟨c, k⟩ :=
    fun c hc hin => ⟨hc, (contains_scaleByTen hden c k).1 hin⟩
  split at hx
  · rename_i hbelow habove
    rw [Bool.and_eq_true, decide_eq_true_eq] at hbelow
    cases hx
    split
    · exact hnames _ (Nat.succ_pos _) habove
    · exact hnames _ hbelow.1 hbelow.2
  · rename_i hbelow _
    rw [Bool.and_eq_true, decide_eq_true_eq] at hbelow
    cases hx
    exact hnames _ hbelow.1 hbelow.2
  · rename_i habove
    cases hx
    exact hnames _ (Nat.succ_pos _) habove
  · cases hx

/-- A grid gives something if one of the two neighbours of the middle is in the interval. -/
theorem isSome_onGrid (hden : 0 < r.den)
    (hnear : ∀ c : Nat, (c : ℚ) * 10 ^ k ≤ r.mid / r.den →
      (r.mid : ℚ) / r.den < (c + 1) * 10 ^ k →
      0 < c ∧ r.Holds (c * 10 ^ k) ∨ r.Holds ((c + 1) * 10 ^ k)) :
    (r.onGrid tie k).isSome = true := by
  obtain ⟨hd, hratio⟩ := scaleByTen_spec r.mid hden (-k)
  have hd' : (0 : ℚ) < (scaleByTen r.mid r.den (-k)).2 := Nat.cast_pos.2 hd
  have hten : (0 : ℚ) < 10 ^ k := by positivity
  rw [zpow_neg, ← div_eq_mul_inv] at hratio
  unfold onGrid
  dsimp only
  generalize scaleByTen r.mid r.den (-k) = p at *
  obtain ⟨n, d⟩ := p
  dsimp only at *
  have hfloor : ((n / d : Nat) : ℚ) ≤ n / d ∧ (n : ℚ) / d < (n / d : Nat) + 1 := by
    rw [le_div_iff₀ hd', div_lt_iff₀ hd']
    exact ⟨by exact_mod_cast Nat.div_mul_le_self n d, by
      exact_mod_cast Nat.mul_comm d _ ▸ Nat.lt_mul_div_succ n hd⟩
  rw [hratio, le_div_iff₀ hten, div_lt_iff₀ hten] at hfloor
  have hhit := hnear (n / d) hfloor.1 hfloor.2
  rw [← Nat.cast_succ, ← contains_scaleByTen hden, ← contains_scaleByTen hden] at hhit
  split
  · rfl
  · rfl
  · rfl
  · rename_i hbelow habove
    rw [Bool.and_eq_false_iff, decide_eq_false_iff_not] at hbelow
    rcases hhit with ⟨hpos, hin⟩ | hin
    · exact absurd (hbelow.resolve_left (not_not_intro hpos)) (Bool.not_eq_false _ ▸ hin)
    · rw [Nat.succ_eq_add_one] at hin
      rw [hin] at habove
      cases habove

/-- **The search** gives a decimal in the interval if the last grid has one. -/
theorem names_search (hden : 0 < r.den)
    (hlast : (r.onGrid tie (lead + 1 - count)).isSome = true) (fuel : Nat) :
    r.Names (r.search tie lead count (fuel + 1)) := by
  induction fuel with
  | zero =>
    obtain ⟨x, hx⟩ := Option.isSome_iff_exists.1 hlast
    rw [search, Nat.sub_zero, hx]
    exact names_of_onGrid hden hx
  | succ fuel ih =>
    rw [search]
    cases hx : r.onGrid tie (lead + 1 - ((count - (fuel + 1) : Nat) : Int)) with
    | some x => exact names_of_onGrid hden hx
    | none => exact ih

end Reals

namespace Format

variable {f : Format} {bits : Nat}

/-- Formats of such sizes need no more than seventeen digits. -/
structure IsModest (f : Format) : Prop where
  infinity_lt : f.infinity < f.signBit
  digits : 2 ^ (f.fractionBits + 1) < 10 ^ 16
  fraction : f.fractionBits ≤ 1000
  low : -4000 ≤ f.minExponent
  places : 2 ^ f.exponentBits ≤ 4000

theorem isModest_double : double.IsModest := by constructor <;> decide

theorem isModest_single : single.IsModest := by constructor <;> decide

/-- The logarithms of the middle of the interval. -/
theorem abs_log2_reals_le (hf : f.IsModest) (hpos : 0 < f.magnitude bits)
    (hfinite : f.magnitude bits < f.infinity) :
    (f.reals bits).mid ≠ 0 ∧
      |((f.reals bits).mid.log2 : Int) - (f.reals bits).den.log2| ≤ 10000 := by
  obtain ⟨hmin, hword, hbits, -⟩ := f.significand_spec (Nat.lt_trans hfinite hf.infinity_lt)
  rw [f.significand_magnitude] at hmin hword hbits
  have hm := significand_pos hpos (Nat.lt_trans hfinite hf.infinity_lt)
  have hmid : (f.reals bits).mid = (scaleByTwo (4 * (f.significand bits).1) 1
        ((f.significand bits).2 - 2)).1 ∧
      (f.reals bits).den = (scaleByTwo (4 * (f.significand bits).1) 1
        ((f.significand bits).2 - 2)).2 := by
    unfold reals scaleByTwo
    dsimp only
    split <;> simp
  obtain ⟨hfour, hlog⟩ : 4 * (f.significand bits).1 ≠ 0 ∧
      (4 * (f.significand bits).1).log2 = (f.significand bits).1.log2 + 2 :=
    ⟨by omega, by rw [Nat.mul_comm]; exact log2_mul_two_pow hm.ne' 2⟩
  have hlogs := log2_scaleByTwo hfour ((f.significand bits).2 - 2)
  have hle : (f.significand bits).1.log2 < f.fractionBits + 1 := (Nat.log2_lt hm.ne').2 hbits
  have hplaces : ((f.significand bits).2 - f.minExponent).toNat < 2 ^ f.exponentBits := by
    have hpow := Nat.two_pow_pos f.fractionBits
    refine Nat.lt_of_mul_lt_mul_right (a := 2 ^ f.fractionBits) ?_
    calc _ ≤ f.magnitude bits := by omega
      _ < f.infinity := hfinite
      _ ≤ _ := Nat.mul_le_mul_right _ (Nat.sub_le _ _)
  have hfraction := hf.fraction
  have hlow := hf.low
  have hsmall := hf.places
  have hhigh : f.minExponent ≤ 1 := by
    have := Nat.two_pow_pos (f.exponentBits - 1)
    rw [minExponent, Nat.pow_eq]
    omega
  constructor
  · intro hzero
    have hvalue := (f.reals_mid bits).2
    rw [hzero, Nat.cast_zero, zero_div] at hvalue
    have hm' : (0 : ℚ) < (f.significand bits).1 := Nat.cast_pos.2 hm
    have hpow : (0 : ℚ) < 2 ^ (f.significand bits).2 := zpow_pos two_pos _
    exact (mul_pos hm' hpow).ne hvalue
  · rw [hmid.1, hmid.2, hlogs, hlog, abs_le]
    push_cast
    omega

/-- On a grid finer than the last place, one of the two neighbours is in the interval of the
word. -/
theorem near_of_mesh {z gap t : ℚ} {c : Nat} (ht : 0 < t) (hfine : t < 1)
    (hgap : gap = 1 / 2 ∨ 0 < gap ∧ t < 1 / 2) (hmesh : t ≤ z) (hbelow : c * t ≤ z)
    (habove : z < (c + 1) * t) :
    0 < c ∧ z - gap < c * t ∧ c * t < z + 1 / 2 ∨
      z - gap < (c + 1) * t ∧ (c + 1) * t < z + 1 / 2 := by
  have hstep : ((c : ℚ) + 1) * t = c * t + t := by ring
  by_cases hnear : (c + 1) * t < z + 1 / 2
  · refine .inr ⟨?_, hnear⟩
    rcases hgap with rfl | ⟨hpos, -⟩ <;> linarith
  · refine .inl ⟨Nat.pos_of_ne_zero ?_, ?_, by linarith⟩
    · rintro rfl
      rw [Nat.cast_zero, zero_add, one_mul] at habove
      linarith
    · rcases hgap with rfl | ⟨-, hhalf⟩ <;> linarith

/-- **The shortest decimal** of a word is in its interval. -/
theorem names_shortest (hf : f.IsModest) (hpos : 0 < f.magnitude bits)
    (hfinite : f.magnitude bits < f.infinity) (tie : TieRule) :
    (f.reals bits).Names (f.shortest tie bits) := by
  obtain ⟨hden, hmid⟩ := f.reals_mid bits
  obtain ⟨hne, hsize⟩ := abs_log2_reals_le hf hpos hfinite
  have hlead := ten_zpow_leadingExponent_le hne hden hsize
  generalize hl : leadingExponent (f.reals bits).mid (f.reals bits).den = lead at hlead
  have hlast : ((f.reals bits).onGrid tie (lead + 1 - (17 : Nat))).isSome = true := by
    refine Reals.isSome_onGrid hden fun c hbelow habove => ?_
    rw [hmid] at hbelow habove hlead
    have hm := significand_pos hpos (Nat.lt_trans hfinite hf.infinity_lt)
    obtain ⟨-, -, hbits, -⟩ := f.significand_spec (Nat.lt_trans hfinite hf.infinity_lt)
    rw [f.significand_magnitude] at hbits
    have hunit : (0 : ℚ) < 2 ^ (f.significand bits).2 := zpow_pos two_pos _
    -- `t` is the mesh of the last grid in units of the last place of the word
    generalize ht : (10 : ℚ) ^ (lead + 1 - (17 : Nat)) / 2 ^ (f.significand bits).2 = t
    have hgrid : (10 : ℚ) ^ (lead + 1 - (17 : Nat)) = t * 2 ^ (f.significand bits).2 := by
      rw [← ht, div_mul_cancel₀ _ hunit.ne']
    have hmesh : 10 ^ 16 * t ≤ (f.significand bits).1 := by
      have hlead' : (10 : ℚ) ^ lead = 10 ^ 16 * (10 : ℚ) ^ (lead + 1 - (17 : Nat)) := by
        rw [← zpow_natCast, ← zpow_add₀ (by norm_num)]
        congr 1
        push_cast
        ring
      rw [hlead', hgrid, ← mul_assoc, mul_le_mul_iff_left₀ hunit] at hlead
      exact hlead
    have ht₀ : 0 < t := by
      rw [← ht]
      positivity
    rw [hgrid, ← mul_assoc] at hbelow habove ⊢
    rw [mul_le_mul_iff_left₀ hunit] at hbelow
    rw [mul_lt_mul_iff_left₀ hunit] at habove
    rw [← mul_assoc, holds_reals_iff hm, holds_reals_iff hm]
    have hdigits : (2 : ℚ) * 2 ^ f.fractionBits < 10 ^ 16 := by
      rw [← pow_succ']
      exact_mod_cast hf.digits
    have hbits' : ((f.significand bits).1 : ℚ) < 2 * 2 ^ f.fractionBits := by
      rw [← pow_succ']
      exact_mod_cast hbits
    have hgap : f.lowerGap bits = 1 / 2 ∨ 0 < f.lowerGap bits ∧ t < 1 / 2 := by
      unfold lowerGap
      split
      · rename_i hpower
        rw [hpower.1] at hmesh
        push_cast at hmesh
        exact .inr ⟨by norm_num, by linarith⟩
      · exact .inl rfl
    refine (near_of_mesh ht₀ (by linarith) hgap (by linarith) hbelow habove).imp ?_ ?_
    · rintro ⟨hc, hin⟩
      exact ⟨hc, ⟨hin.1.le, hin.2.le⟩, fun _ => hin⟩
    · intro hin
      exact ⟨⟨hin.1.le, hin.2.le⟩, fun _ => hin⟩
  obtain ⟨hdigits, hholds⟩ := Reals.names_search hden hlast 16
  unfold shortest
  dsimp only
  rw [hl]
  obtain ⟨hvalue, hstrip⟩ := Decimal.strip_spec 18 ((f.reals bits).search tie lead 17 17)
  exact ⟨hstrip hdigits, hvalue ▸ hholds⟩

end Format

end ScriptMachine
