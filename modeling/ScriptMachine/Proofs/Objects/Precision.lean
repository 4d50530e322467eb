import Mathlib.Algebra.Order.Field.Rat
import Mathlib.Algebra.Order.Field.Power
import Mathlib.Data.Nat.Log
import Mathlib.Tactic.FieldSimp
import Mathlib.Tactic.Linarith
import Mathlib.Tactic.Positivity
import Mathlib.Tactic.Ring
import ScriptMachine.Numeric.Binary

/-!
# Single precision inside double precision

A single-precision word is made a double-precision one without loss, and comes back the same.

* `Format.roundScaled_eq`: what rounding gives where there is nothing to round.
* `Format.roundScaled_of_number`: a number that a word stands for is rounded to that word.
* `Binary32.toBinary64_toBinary32_toBinary64`: going back to single precision and over again
  changes nothing.
-/

namespace ScriptMachine

/-! ### Exact fractions -/

theorem roundHalfEven_mul {n d : Nat} (hd : 0 < d) : roundHalfEven (n * d) d = n := by
  have hquotient : n * d / d = n := Nat.mul_div_cancel n hd
  have hremainder : n * d % d = 0 := Nat.mul_mod_left n d
  simp only [roundHalfEven, hquotient, hremainder]
  rw [if_pos (by omega)]

/-- The denominator stays positive, and the fraction is multiplied. -/
theorem scaleByTwo_spec (n : Nat) {d : Nat} (hd : 0 < d) (x : Int) :
    0 < (scaleByTwo n d x).2 ∧
      ((scaleByTwo n d x).1 : ℚ) / (scaleByTwo n d x).2 = n / d * 2 ^ x := by
  unfold scaleByTwo
  split
  · rename_i hx
    obtain ⟨k, rfl⟩ := Int.eq_ofNat_of_zero_le hx
    refine ⟨hd, ?_⟩
    simp only [Int.toNat_natCast, Nat.pow_eq, zpow_natCast]
    push_cast
    ring
  · rename_i hx
    obtain ⟨k, hk⟩ := Int.eq_ofNat_of_zero_le (show 0 ≤ -x by omega)
    obtain rfl : x = -(k : Int) := by omega
    refine ⟨by simp only [Nat.pow_eq]; positivity, ?_⟩
    simp only [neg_neg, Int.toNat_natCast, Nat.pow_eq, zpow_neg, zpow_natCast]
    push_cast
    field_simp

theorem log2_mul_two_pow {m : Nat} (hm : m ≠ 0) (k : Nat) :
    (m * 2 ^ k).log2 = m.log2 + k := by
  have hpos : 0 < 2 ^ k := Nat.two_pow_pos k
  have hne : m * 2 ^ k ≠ 0 := Nat.mul_ne_zero hm hpos.ne'
  rw [Nat.log2_eq_iff hne, show m.log2 + k + 1 = m.log2 + 1 + k by omega, pow_add, pow_add]
  exact ⟨Nat.mul_le_mul_right _ (Nat.log2_self_le hm),
    Nat.mul_lt_mul_of_pos_right Nat.lt_log2_self hpos⟩

/-- A number is shifted to a leading place. -/
theorem two_pow_le_shifted {m k : Nat} (hm : m ≠ 0) (hk : m.log2 ≤ k) :
    2 ^ k ≤ m * 2 ^ (k - m.log2) ∧ m * 2 ^ (k - m.log2) < 2 ^ (k + 1) := by
  have hne : m * 2 ^ (k - m.log2) ≠ 0 := Nat.mul_ne_zero hm (Nat.two_pow_pos _).ne'
  rw [← Nat.log2_eq_iff hne, log2_mul_two_pow hm, Nat.add_sub_cancel' hk]

/-- A shifted number in units of a lower place. -/
theorem cast_mul_two_zpow (m k : Nat) (i : Int) :
    (m : ℚ) * 2 ^ (i + k) = (m * 2 ^ k : Nat) * 2 ^ i := by
  rw [zpow_add₀ two_ne_zero, zpow_natCast]
  push_cast
  ring

/-- The logarithms tell the exponent. -/
theorem log2_scaleByTwo {m : Nat} (hm : m ≠ 0) (e : Int) :
    ((scaleByTwo m 1 e).1.log2 : Int) - (scaleByTwo m 1 e).2.log2 = m.log2 + e := by
  unfold scaleByTwo
  split
  · rename_i he
    obtain ⟨k, rfl⟩ := Int.eq_ofNat_of_zero_le he
    simp only [Int.toNat_natCast, Nat.pow_eq, log2_mul_two_pow hm]
    simp [Nat.log2_eq_log_two]
  · rename_i he
    obtain ⟨k, hk⟩ := Int.eq_ofNat_of_zero_le (show 0 ≤ -e by omega)
    obtain rfl : e = -(k : Int) := by omega
    simp only [neg_neg, Int.toNat_natCast, Nat.pow_eq, one_mul, Nat.log2_two_pow]
    omega

namespace Format

variable (f : Format)

/-- A quotient that is scaled by its logarithm has as many bits as a significand. -/
theorem two_pow_le_quotient {m n d : Nat} {e : Int} (hm : m ≠ 0) (hd : 0 < d)
    (hratio : (n : ℚ) / d = m * 2 ^ e) :
    (scaleByTwo n d (-(m.log2 + e - f.fractionBits))).2 * 2 ^ f.fractionBits
      ≤ (scaleByTwo n d (-(m.log2 + e - f.fractionBits))).1 := by
  have htwo : (2 : ℚ) ≠ 0 := two_ne_zero
  obtain ⟨hd₁, hratio₁⟩ := scaleByTwo_spec n hd (-(m.log2 + e - f.fractionBits))
  generalize scaleByTwo n d (-(m.log2 + e - f.fractionBits)) = p at *
  obtain ⟨n₁, d₁⟩ := p
  dsimp only at hd₁ hratio₁ ⊢
  have hvalue : (n₁ : ℚ) / d₁ = m * 2 ^ (f.fractionBits - m.log2 : Int) := by
    rw [hratio₁, hratio, mul_assoc, ← zpow_add₀ htwo]
    congr 2
    ring
  have hself : (2 : ℚ) ^ m.log2 ≤ m := by exact_mod_cast Nat.log2_self_le hm
  have hlarge : (2 : ℚ) ^ f.fractionBits ≤ n₁ / d₁ :=
    calc (2 : ℚ) ^ f.fractionBits
        = 2 ^ m.log2 * 2 ^ (f.fractionBits - m.log2 : Int) := by
          rw [← zpow_natCast, ← zpow_natCast, ← zpow_add₀ htwo]
          congr 1
          ring
      _ ≤ m * 2 ^ (f.fractionBits - m.log2 : Int) :=
          mul_le_mul_of_nonneg_right hself (by positivity)
      _ = n₁ / d₁ := hvalue.symm
  rw [le_div_iff₀ (Nat.cast_pos.2 hd₁)] at hlarge
  rw [Nat.mul_comm]
  exact_mod_cast hlarge

/-- **Rounding changes nothing where there is nothing to round.** -/
theorem roundScaled_eq {m M : Nat} {e E : Int} (hm : m ≠ 0)
    (hE : E = max (m.log2 + e - f.fractionBits) f.minExponent)
    (hM : (m : ℚ) * 2 ^ e = M * 2 ^ E) :
    f.roundScaled m e
      = min ((E - f.minExponent).toNat * 2 ^ f.fractionBits + M) f.infinity := by
  have htwo : (2 : ℚ) ≠ 0 := two_ne_zero
  have hcast : (m : ℚ) ≠ 0 := Nat.cast_ne_zero.2 hm
  obtain ⟨hd, hratio⟩ := scaleByTwo_spec m Nat.one_pos e
  have hlog := log2_scaleByTwo hm e
  rw [roundScaled]
  generalize scaleByTwo m 1 e = p at *
  obtain ⟨n, d⟩ := p
  simp only [Nat.cast_one, div_one] at hratio hlog hd ⊢
  have hn : n ≠ 0 := by
    rintro rfl
    rw [Nat.cast_zero, zero_div] at hratio
    exact mul_ne_zero hcast (zpow_ne_zero e htwo) hratio.symm
  rw [roundRatio, if_neg hn]
  have hrough : (n.log2 : Int) - d.log2 - f.fractionBits = m.log2 + e - f.fractionBits := by omega
  simp only [hrough]
  -- The quotient has the wanted number of bits, so that the first guess is right.
  have hexact : ¬ (scaleByTwo n d (-(m.log2 + e - f.fractionBits))).1
      < (scaleByTwo n d (-(m.log2 + e - f.fractionBits))).2 * Nat.pow 2 f.fractionBits :=
    Nat.not_lt.2 (f.two_pow_le_quotient hm hd hratio)
  simp only [if_neg hexact, ← hE]
  obtain ⟨hd₂, hratio₂⟩ := scaleByTwo_spec n hd (-E)
  generalize scaleByTwo n d (-E) = p at *
  obtain ⟨n₂, d₂⟩ := p
  simp only at hd₂ hratio₂ ⊢
  have hd₂' : (d₂ : ℚ) ≠ 0 := Nat.cast_ne_zero.2 hd₂.ne'
  have hproduct : n₂ = M * d₂ := by
    have hvalue : (n₂ : ℚ) / d₂ = M := by
      rw [hratio₂, hratio, hM, mul_assoc, ← zpow_add₀ htwo, add_neg_cancel, zpow_zero, mul_one]
    rw [div_eq_iff hd₂'] at hvalue
    exact_mod_cast hvalue
  rw [hproduct, roundHalfEven_mul hd₂]
  rfl

/-- The parts of a finite word. -/
theorem significand_spec {a : Nat} (ha : a < f.signBit) :
    (f.significand a).2 ≥ f.minExponent ∧
      ((f.significand a).2 - f.minExponent).toNat * 2 ^ f.fractionBits + (f.significand a).1 = a ∧
      (f.significand a).1 < 2 ^ (f.fractionBits + 1) ∧
      ((f.significand a).2 = f.minExponent ∨ 2 ^ f.fractionBits ≤ (f.significand a).1) := by
  have hself : f.magnitude a = a := Nat.mod_eq_of_lt ha
  have hdiv := Nat.div_add_mod a (2 ^ f.fractionBits)
  have hmod := Nat.mod_lt a (Nat.two_pow_pos f.fractionBits)
  unfold significand
  simp only [hself, Nat.pow_eq]
  generalize a / 2 ^ f.fractionBits = biased at *
  generalize a % 2 ^ f.fractionBits = fraction at *
  rw [pow_succ]
  split
  · rename_i hzero
    rw [hzero, Nat.mul_zero, Nat.zero_add] at hdiv
    dsimp only
    rw [sub_self, Int.toNat_zero, Nat.zero_mul, Nat.zero_add]
    exact ⟨le_rfl, hdiv, by omega, .inl rfl⟩
  · rename_i hpos
    obtain ⟨k, rfl⟩ := Nat.exists_eq_succ_of_ne_zero hpos
    dsimp only
    rw [show (f.minExponent + (k + 1 : Nat) - 1 - f.minExponent).toNat = k by omega]
    refine ⟨by omega, ?_, by omega, .inr (by omega)⟩
    rw [← hdiv, Nat.succ_eq_add_one]
    ring

/-- **A number that a word stands for is rounded to that word.** -/
theorem roundScaled_of_number {a m : Nat} {e : Int} (ha : a < f.infinity)
    (hbit : f.infinity < f.signBit) (hm : m ≠ 0)
    (h : (m : ℚ) * 2 ^ e = (f.significand a).1 * 2 ^ (f.significand a).2) :
    f.roundScaled m e = a := by
  obtain ⟨hmin, hword, hbits, hplace⟩ := f.significand_spec (Nat.lt_trans ha hbit)
  generalize f.significand a = p at *
  obtain ⟨M, E⟩ := p
  simp only at hmin hword hbits hplace h
  have htwo : (1 : ℚ) < 2 := one_lt_two
  have hpos : ∀ i : Int, (0 : ℚ) < 2 ^ i := fun i => zpow_pos two_pos i
  -- Both ways of writing the number tell the place of its highest bit.
  have hlow : (2 : ℚ) ^ (m.log2 + e) ≤ m * 2 ^ e := by
    rw [zpow_add₀ two_ne_zero, zpow_natCast]
    exact mul_le_mul_of_nonneg_right (by exact_mod_cast Nat.log2_self_le hm) (hpos e).le
  have hhigh : (m : ℚ) * 2 ^ e < 2 ^ (m.log2 + e + 1) := by
    rw [show (m.log2 : Int) + e + 1 = (m.log2 + 1 : Nat) + e by push_cast; ring,
      zpow_add₀ two_ne_zero, zpow_natCast]
    exact mul_lt_mul_of_pos_right (by exact_mod_cast Nat.lt_log2_self) (hpos e)
  have hbits' : (M : ℚ) * 2 ^ E < 2 ^ ((f.fractionBits : Int) + 1 + E) := by
    rw [zpow_add₀ two_ne_zero,
      show ((f.fractionBits : Int) + 1) = (f.fractionBits + 1 : Nat) by simp, zpow_natCast]
    exact mul_lt_mul_of_pos_right (by exact_mod_cast hbits) (hpos E)
  have hupper : m.log2 + e < f.fractionBits + 1 + E := by
    rw [← zpow_lt_zpow_iff_right₀ htwo]
    calc (2 : ℚ) ^ (m.log2 + e) ≤ m * 2 ^ e := hlow
      _ = M * 2 ^ E := h
      _ < _ := hbits'
  have hE : E = max (m.log2 + e - f.fractionBits) f.minExponent := by
    rcases hplace with hsmall | hnormal
    · omega
    · have hnormal' : (2 : ℚ) ^ ((f.fractionBits : Int) + E) ≤ M * 2 ^ E := by
        rw [zpow_add₀ two_ne_zero, zpow_natCast]
        exact mul_le_mul_of_nonneg_right (by exact_mod_cast hnormal) (hpos E).le
      have hlower : f.fractionBits + E < m.log2 + e + 1 := by
        rw [← zpow_lt_zpow_iff_right₀ htwo]
        calc (2 : ℚ) ^ ((f.fractionBits : Int) + E) ≤ M * 2 ^ E := hnormal'
          _ = m * 2 ^ e := h.symm
          _ < _ := hhigh
      omega
  rw [f.roundScaled_eq hm hE h, hword]
  exact Nat.min_eq_left ha.le

theorem magnitude_withSign {a : Nat} (h : a < f.signBit) (neg : Bool) :
    f.magnitude (f.withSign neg a) = a := by
  unfold magnitude withSign
  split
  · rw [Nat.add_mod_left, Nat.mod_eq_of_lt h]
  · exact Nat.mod_eq_of_lt h

theorem negative_withSign {a : Nat} (h : a < f.signBit) (neg : Bool) :
    f.negative (f.withSign neg a) = neg := by
  have hpos : 0 < f.signBit := by omega
  unfold negative withSign
  cases neg with
  | true => simp [Nat.add_div_left a hpos, Nat.div_eq_of_lt h]
  | false => simp [Nat.div_eq_of_lt h]

/-- A word is its sign and its magnitude. -/
theorem withSign_magnitude {w : Nat} (h : w < 2 * f.signBit) :
    f.withSign (f.negative w) (f.magnitude w) = w := by
  have hdiv := Nat.div_add_mod w f.signBit
  have hlt : w / f.signBit < 2 := Nat.div_lt_of_lt_mul (by rwa [Nat.mul_comm])
  unfold withSign negative magnitude
  generalize w / f.signBit = q at *
  obtain rfl | rfl : q = 0 ∨ q = 1 := by omega
  · simpa using hdiv
  · simpa using hdiv

/-- The significand of a word without a sign. -/
theorem significand_withSign {a : Nat} (h : a < f.signBit) (neg : Bool) :
    f.significand (f.withSign neg a) = f.significand a := by
  have hself : f.magnitude a = a := Nat.mod_eq_of_lt h
  simp only [significand, magnitude_withSign f h, hself]

end Format

namespace Binary64

theorem word_ofWord {w : Nat} (h : w < 2 ^ 64) : (ofWord w).word = w := by
  simp only [word, ofWord, UInt64.toNat_ofNat']
  exact Nat.mod_eq_of_lt h

end Binary64

namespace Binary32

theorem word_ofWord {w : Nat} (h : w < 2 ^ 32) : (ofWord w).word = w := by
  simp only [word, ofWord, UInt32.toNat_ofNat']
  exact Nat.mod_eq_of_lt h

theorem ofWord_word (x : Binary32) : ofWord x.word = x := by
  simp only [word, ofWord, UInt32.ofNat_toNat]

theorem word_lt (x : Binary32) : x.word < 2 * Format.single.signBit := x.bits.toNat_lt

end Binary32

/-! ### Finite numbers -/

namespace Format

theorem infinity_double : double.infinity = 2047 * 2 ^ 52 := by decide

theorem infinity_single : single.infinity = 255 * 2 ^ 23 := by decide

theorem minExponent_double : double.minExponent = -1074 := by decide

theorem minExponent_single : single.minExponent = -149 := by decide

theorem fractionBits_double : double.fractionBits = 52 := rfl

theorem fractionBits_single : single.fractionBits = 23 := rfl

/-- The significand of a word with a leading one. -/
theorem significand_normal (f : Format) {k M : Nat} (hM : 2 ^ f.fractionBits ≤ M)
    (hM' : M < 2 ^ (f.fractionBits + 1)) (h : k * 2 ^ f.fractionBits + M < f.signBit) :
    f.significand (k * 2 ^ f.fractionBits + M) = (M, f.minExponent + k) := by
  have hself : f.magnitude (k * 2 ^ f.fractionBits + M) = k * 2 ^ f.fractionBits + M :=
    Nat.mod_eq_of_lt h
  obtain ⟨r, rfl⟩ := Nat.exists_eq_add_of_le hM
  have hr : r < 2 ^ f.fractionBits := by
    rw [pow_succ] at hM'
    omega
  have hword : k * 2 ^ f.fractionBits + (2 ^ f.fractionBits + r)
      = r + (k + 1) * 2 ^ f.fractionBits := by ring
  have hdiv : (k * 2 ^ f.fractionBits + (2 ^ f.fractionBits + r)) / 2 ^ f.fractionBits = k + 1 := by
    rw [hword, Nat.add_mul_div_right _ _ (Nat.two_pow_pos _), Nat.div_eq_of_lt hr, Nat.zero_add]
  have hmod : (k * 2 ^ f.fractionBits + (2 ^ f.fractionBits + r)) % 2 ^ f.fractionBits = r := by
    rw [hword, Nat.add_mul_mod_self_right, Nat.mod_eq_of_lt hr]
  simp only [significand, hself, Nat.pow_eq, hdiv, hmod]
  rw [if_neg (Nat.succ_ne_zero k)]
  congr 1
  omega

/-- **A finite number in double precision is the same number**, so that rounding it to single
precision gives it back. -/
theorem roundScaled_significand {a : Nat} (ha : a < single.infinity) :
    ∃ b, double.roundScaled (single.significand a).1 (single.significand a).2
        = b ∧ b < double.infinity ∧
      ((double.significand b).1 : ℚ) * 2 ^ (double.significand b).2
        = (single.significand a).1 * 2 ^ (single.significand a).2 ∧
      single.roundScaled (double.significand b).1 (double.significand b).2
        = a := by
  have hspec := single.significand_spec (Nat.lt_trans ha (by decide))
  rcases hsplit : single.significand a with ⟨m, e⟩
  rw [hsplit, minExponent_single, fractionBits_single] at hspec
  obtain ⟨hmin, hword, hbits, hplace⟩ := hspec
  dsimp only at hmin hword hbits hplace ⊢
  rw [infinity_single] at ha
  by_cases hm : m = 0
  · obtain rfl : a = 0 := by
      rcases hplace with rfl | hlarge
      · omega
      · omega
    obtain rfl := hm
    refine ⟨0, ?_, by decide, ?_, by decide +kernel⟩
    · simp only [roundScaled, scaleByTwo]
      split <;> simp [roundRatio]
    · rw [show (double.significand 0).1 = 0 by decide, Nat.cast_zero, zero_mul, zero_mul]
  · -- In double precision the significand is shifted to the leading place.
    have hlog : m.log2 < 24 := (Nat.log2_lt hm).2 hbits
    obtain ⟨hM, hM'⟩ := two_pow_le_shifted hm (show m.log2 ≤ 52 by omega)
    have hback : (m : ℚ) * 2 ^ e
        = (m * 2 ^ (52 - m.log2) : Nat) * 2 ^ ((m.log2 : Int) + e - 52) := by
      rw [← cast_mul_two_zpow]
      congr 2
      omega
    have hround := double.roundScaled_eq (E := m.log2 + e - 52) hm
      (by rw [minExponent_double, fractionBits_double]; omega) hback
    rw [minExponent_double, fractionBits_double] at hround
    generalize m * 2 ^ (52 - m.log2) = M at *
    have hb : ((m.log2 + e - 52 + 1074).toNat * 2 ^ 52 + M) < 2047 * 2 ^ 52 := by omega
    replace hround : double.roundScaled m e
        = (m.log2 + e - 52 + 1074).toNat * 2 ^ 52 + M := by
      rw [hround, infinity_double, Int.sub_neg]
      exact Nat.min_eq_left (Nat.le_of_lt hb)
    have hsplit' := double.significand_normal (k := (m.log2 + e - 52 + 1074).toNat) hM hM'
      (by rw [fractionBits_double]; exact Nat.lt_trans hb (by decide))
    rw [fractionBits_double, minExponent_double] at hsplit'
    have hvalue : (M : ℚ) * 2 ^ (-1074 + ((m.log2 + e - 52 + 1074).toNat : Int)) = m * 2 ^ e := by
      rw [hback]
      congr 2
      omega
    refine ⟨_, hround, by rw [infinity_double]; exact hb, ?_⟩
    rw [hsplit']
    exact ⟨hvalue, single.roundScaled_of_number (by rw [infinity_single]; exact ha) (by decide)
      (by omega) (by rw [hsplit]; exact hvalue)⟩

end Format

/-! ### There and back -/

/-- A double-precision word from its sign and its magnitude. -/
theorem Binary64.word_withSign {b : Nat} (h : b < Format.double.signBit) (neg : Bool) :
    (Binary64.ofWord (Format.double.withSign neg b)).word = Format.double.withSign neg b := by
  have hbit : Format.double.signBit = 2 ^ 63 := by decide
  refine Binary64.word_ofWord ?_
  unfold Format.withSign
  rw [hbit] at h ⊢
  split <;> omega

/-- The nearest single-precision word, from the sign and the magnitude. -/
theorem Binary64.toBinary32_withSign {b : Nat} (h : b < Format.double.signBit) (neg : Bool) :
    (Binary64.ofWord (Format.double.withSign neg b)).toBinary32
      = .ofWord (Format.single.withSign neg
        (if Format.double.infinity < b then
          Format.single.infinity + Nat.pow 2 22 + (b % Nat.pow 2 51) / Nat.pow 2 29
        else if b = Format.double.infinity then Format.single.infinity
        else Format.single.roundScaled (Format.double.significand b).1
          (Format.double.significand b).2)) := by
  simp only [Binary64.toBinary32, Binary64.isNaN, Binary64.isInfinite, Binary64.negative,
    Binary64.word_withSign h, Format.isNaN, Format.isInfinite, Format.magnitude_withSign _ h,
    Format.negative_withSign _ h, Format.significand_withSign _ h, decide_eq_true_eq, beq_iff_eq]

namespace Binary32

/-- A single-precision word from its sign and its magnitude. -/
theorem word_withSign {a : Nat} (h : a < Format.single.signBit) (neg : Bool) :
    (ofWord (Format.single.withSign neg a)).word = Format.single.withSign neg a := by
  have hbit : Format.single.signBit = 2 ^ 31 := by decide
  refine word_ofWord ?_
  unfold Format.withSign
  rw [hbit] at h ⊢
  split <;> omega

theorem magnitude_lt (x : Binary32) : Format.single.magnitude x.word < Format.single.signBit :=
  Nat.mod_lt _ (by decide)

theorem ofWord_withSign_magnitude (x : Binary32) :
    ofWord (Format.single.withSign x.negative (Format.single.magnitude x.word)) = x := by
  rw [negative, Format.withSign_magnitude _ x.word_lt, ofWord_word]

variable {x : Binary32}

/-- **A number comes back from double precision as it was.** -/
theorem toBinary32_toBinary64 (h : x.isNaN = false) : x.toBinary64.toBinary32 = x := by
  have hle : ¬ Format.single.infinity < Format.single.magnitude x.word := of_decide_eq_false h
  cases hinfinite : x.isInfinite with
  | true =>
    have heq : Format.single.magnitude x.word = Format.single.infinity := by
      simpa [isInfinite, Format.isInfinite] using hinfinite
    rw [toBinary64, h, hinfinite]
    simp only [Bool.false_eq_true, if_false, if_true]
    rw [Binary64.toBinary32_withSign (by decide), if_neg (Nat.lt_irrefl _), if_pos rfl, ← heq,
      ofWord_withSign_magnitude]
  | false =>
    have hne : Format.single.magnitude x.word ≠ Format.single.infinity := by
      simpa [isInfinite, Format.isInfinite] using hinfinite
    obtain ⟨b, hb, hlt, -, hback⟩ :=
      Format.roundScaled_significand (show Format.single.magnitude x.word < _ by omega)
    have hself : Format.single.significand x.word
        = Format.single.significand (Format.single.magnitude x.word) := by
      rw [← Format.significand_withSign Format.single x.magnitude_lt (Format.single.negative x.word),
        Format.withSign_magnitude _ x.word_lt]
    rw [← hself] at hb
    rw [toBinary64, h, hinfinite]
    simp only [Bool.false_eq_true, if_false, hb]
    have hbit : Format.double.infinity < Format.double.signBit := by decide
    rw [Binary64.toBinary32_withSign (by omega), if_neg (by omega), if_neg (by omega), hback,
      ofWord_withSign_magnitude]

/-- A not-a-number in double precision. -/
theorem toBinary64_of_isNaN (h : x.isNaN = true) : x.toBinary64 = .ofWord
    (Format.double.withSign x.negative (Format.double.infinity + Nat.pow 2 51 +
      (Format.single.magnitude x.word % Nat.pow 2 22) * Nat.pow 2 29)) := by
  rw [toBinary64, if_pos h]

/-- **Going back to single precision and over again changes nothing**, also where a not-a-number
was made quiet. -/
theorem toBinary64_toBinary32_toBinary64 (x : Binary32) :
    x.toBinary64.toBinary32.toBinary64 = x.toBinary64 := by
  cases h : x.isNaN with
  | false => rw [toBinary32_toBinary64 h]
  | true =>
    have hpayload : Format.single.magnitude x.word % Nat.pow 2 22 < 2 ^ 22 :=
      Nat.mod_lt _ (by decide)
    rw [toBinary64_of_isNaN h]
    generalize Format.single.magnitude x.word % Nat.pow 2 22 = payload at *
    have hwide : Format.double.infinity + Nat.pow 2 51 + payload * Nat.pow 2 29
        < Format.double.signBit := by
      rw [Format.infinity_double, show Format.double.signBit = 2 ^ 63 by decide]
      simp only [Nat.pow_eq]
      omega
    have hback : (Format.double.infinity + Nat.pow 2 51 + payload * Nat.pow 2 29) % Nat.pow 2 51
        / Nat.pow 2 29 = payload := by
      rw [Format.infinity_double]
      simp only [Nat.pow_eq]
      omega
    rw [Binary64.toBinary32_withSign hwide, if_pos (by simp only [Nat.pow_eq]; omega), hback]
    have hnarrow : Format.single.infinity + Nat.pow 2 22 + payload < Format.single.signBit := by
      rw [Format.infinity_single, show Format.single.signBit = 2 ^ 31 by decide]
      simp only [Nat.pow_eq]
      omega
    have hmod : (Format.single.infinity + Nat.pow 2 22 + payload) % Nat.pow 2 22 = payload := by
      rw [Format.infinity_single]
      simp only [Nat.pow_eq]
      omega
    have hword := word_withSign hnarrow x.negative
    rw [toBinary64_of_isNaN]
    · rw [negative, hword, Format.negative_withSign _ hnarrow, Format.magnitude_withSign _ hnarrow,
        hmod]
    · rw [isNaN, hword, Format.isNaN, Format.magnitude_withSign _ hnarrow, decide_eq_true_eq]
      simp only [Nat.pow_eq]
      omega

end Binary32

end ScriptMachine
