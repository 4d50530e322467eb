import ScriptMachine.Proofs.Objects.Precision

/-!
# Numbers and their nearest words

Every finite word stands for a number. Integers are rounded in order.

* `Format.number?`: the number of a finite word.
* `Format.roundRatio_mono`, `Binary64.totalKey_ofInt_mono`: a greater integer has no lesser nearest
  word.
* `Binary32.number?_toBinary64`: a word of single precision stands for the same number in double
  precision.
-/

namespace ScriptMachine

/-! ### Rounding a quotient -/

theorem div_le_roundHalfEven (n d : Nat) : n / d ≤ roundHalfEven n d := by
  unfold roundHalfEven
  dsimp only
  split_ifs <;> omega

theorem roundHalfEven_le_succ (n d : Nat) : roundHalfEven n d ≤ n / d + 1 := by
  unfold roundHalfEven
  dsimp only
  split_ifs <;> omega

/-- Rounding a quotient keeps the order. -/
theorem roundHalfEven_mono {m n : Nat} (h : m ≤ n) (d : Nat) :
    roundHalfEven m d ≤ roundHalfEven n d := by
  have hquotient : m / d ≤ n / d := Nat.div_le_div_right h
  rcases Nat.lt_or_eq_of_le hquotient with hlt | heq
  · calc roundHalfEven m d ≤ m / d + 1 := roundHalfEven_le_succ m d
      _ ≤ n / d := hlt
      _ ≤ roundHalfEven n d := div_le_roundHalfEven n d
  · have hremainder : m % d ≤ n % d := by
      have hm := Nat.div_add_mod m d
      have hn := Nat.div_add_mod n d
      rw [heq] at hm
      omega
    unfold roundHalfEven
    dsimp only
    rw [heq]
    split_ifs <;> omega

namespace Format

variable (f : Format)

/-! ### Rounding an integer -/

/-- The significand that a natural number is rounded to, in units of its last place. -/
def roundedSignificand (n : Nat) : Nat :=
  roundHalfEven (scaleByTwo n 1 (f.fractionBits - n.log2)).1
    (scaleByTwo n 1 (f.fractionBits - n.log2)).2

theorem scaleByTwo_mono {m n : Nat} (h : m ≤ n) (d : Nat) (e : Int) :
    (scaleByTwo m d e).1 ≤ (scaleByTwo n d e).1 ∧ (scaleByTwo m d e).2 = (scaleByTwo n d e).2 := by
  unfold scaleByTwo
  split
  · exact ⟨Nat.mul_le_mul_right _ h, rfl⟩
  · exact ⟨h, rfl⟩

/-- Scaled by its logarithm a number has just the bits of a significand. -/
theorem scaleByTwo_log2 {n : Nat} (hn : n ≠ 0) :
    (scaleByTwo n 1 (f.fractionBits - n.log2)).2 * 2 ^ f.fractionBits
        ≤ (scaleByTwo n 1 (f.fractionBits - n.log2)).1 ∧
      (scaleByTwo n 1 (f.fractionBits - n.log2)).1
        < (scaleByTwo n 1 (f.fractionBits - n.log2)).2 * 2 ^ (f.fractionBits + 1) ∧
      0 < (scaleByTwo n 1 (f.fractionBits - n.log2)).2 := by
  have hself := Nat.log2_self_le hn
  have hnext := Nat.lt_log2_self (n := n)
  generalize n.log2 = l at *
  generalize f.fractionBits = k at *
  unfold scaleByTwo
  split
  · rename_i hle
    obtain ⟨i, rfl⟩ := Nat.exists_eq_add_of_le (show l ≤ k by omega)
    rw [show ((l + i : Nat) - l : Int).toNat = i by omega, Nat.pow_eq]
    refine ⟨?_, ?_, Nat.one_pos⟩
    · rw [one_mul, pow_add]
      exact Nat.mul_le_mul_right _ hself
    · rw [one_mul, show l + i + 1 = l + 1 + i by omega, pow_add]
      exact Nat.mul_lt_mul_of_pos_right hnext (Nat.two_pow_pos i)
  · rename_i hlt
    obtain ⟨i, rfl⟩ := Nat.exists_eq_add_of_le (show k ≤ l by omega)
    rw [show (-((k : Int) - (k + i : Nat))).toNat = i by omega, Nat.pow_eq]
    refine ⟨?_, ?_, by positivity⟩
    · rwa [one_mul, ← pow_add, Nat.add_comm i k]
    · rwa [one_mul, ← pow_add, show i + (k + 1) = k + i + 1 by omega]

theorem roundedSignificand_bounds {n : Nat} (hn : n ≠ 0) :
    2 ^ f.fractionBits ≤ f.roundedSignificand n ∧
      f.roundedSignificand n ≤ 2 ^ (f.fractionBits + 1) := by
  obtain ⟨hlow, hhigh, hpos⟩ := f.scaleByTwo_log2 hn
  unfold roundedSignificand
  generalize scaleByTwo n 1 (f.fractionBits - n.log2) = p at *
  obtain ⟨a, d⟩ := p
  constructor
  · calc 2 ^ f.fractionBits ≤ a / d := (Nat.le_div_iff_mul_le hpos).2 (by rwa [Nat.mul_comm])
      _ ≤ roundHalfEven a d := div_le_roundHalfEven a d
  · calc roundHalfEven a d ≤ a / d + 1 := roundHalfEven_le_succ a d
      _ ≤ 2 ^ (f.fractionBits + 1) := (Nat.div_lt_iff_lt_mul hpos).2 (by rwa [Nat.mul_comm])

/-- What a natural number is rounded to: the place of its highest bit, and its significand. -/
theorem roundRatio_one (hmin : f.minExponent ≤ -f.fractionBits) {n : Nat} (hn : n ≠ 0) :
    f.roundRatio n 1 = min ((n.log2 - f.fractionBits - f.minExponent).toNat * 2 ^ f.fractionBits
      + f.roundedSignificand n) f.infinity := by
  have hlog : Nat.log2 1 = 0 := by decide
  have hlow := (f.scaleByTwo_log2 hn).1
  have hrough : -((n.log2 : Int) - (0 : Nat) - f.fractionBits) = f.fractionBits - n.log2 := by omega
  have hplace : max ((n.log2 : Int) - (0 : Nat) - f.fractionBits) f.minExponent
      = n.log2 - f.fractionBits := by omega
  have hback : -((n.log2 : Int) - f.fractionBits) = f.fractionBits - n.log2 := by omega
  rw [roundRatio, if_neg hn, hlog]
  simp only [hrough, if_neg (Nat.not_lt.2 hlow), hplace, hback, Nat.pow_eq]
  rfl

/-- **A greater natural number is rounded to no lesser word.** -/
theorem roundRatio_mono (hmin : f.minExponent ≤ -f.fractionBits) {m n : Nat} (h : m ≤ n) :
    f.roundRatio m 1 ≤ f.roundRatio n 1 := by
  by_cases hm : m = 0
  · rw [hm, roundRatio, if_pos rfl]
    exact Nat.zero_le _
  have hn : n ≠ 0 := by omega
  rw [f.roundRatio_one hmin hm, f.roundRatio_one hmin hn]
  refine min_le_min_right _ ?_
  have hlog : m.log2 ≤ n.log2 := by
    rw [Nat.log2_eq_log_two, Nat.log2_eq_log_two]
    exact Nat.log_mono_right h
  rcases Nat.lt_or_eq_of_le hlog with hlt | heq
  · -- The significand of the lesser one is at most that of the next place.
    have hhigh := (f.roundedSignificand_bounds hm).2
    have hlow := (f.roundedSignificand_bounds hn).1
    obtain ⟨k, hk⟩ := Nat.exists_eq_add_of_lt (show
      ((m.log2 : Int) - f.fractionBits - f.minExponent).toNat
        < ((n.log2 : Int) - f.fractionBits - f.minExponent).toNat by omega)
    rw [hk]
    generalize ((m.log2 : Int) - f.fractionBits - f.minExponent).toNat = i
    calc i * 2 ^ f.fractionBits + f.roundedSignificand m
        ≤ i * 2 ^ f.fractionBits + 2 ^ (f.fractionBits + 1) := by omega
      _ = (i + 1) * 2 ^ f.fractionBits + 2 ^ f.fractionBits := by ring
      _ ≤ (i + k + 1) * 2 ^ f.fractionBits + 2 ^ f.fractionBits :=
          Nat.add_le_add_right (Nat.mul_le_mul_right _ (by omega)) _
      _ ≤ _ := Nat.add_le_add_left hlow _
  · rw [heq]
    refine Nat.add_le_add_left ?_ _
    unfold roundedSignificand
    obtain ⟨hnum, hden⟩ := scaleByTwo_mono h 1 (f.fractionBits - n.log2)
    rw [heq, hden]
    exact roundHalfEven_mono hnum _

theorem roundRatio_le_infinity (n d : Nat) : f.roundRatio n d ≤ f.infinity := by
  unfold roundRatio
  split
  · exact Nat.zero_le _
  · exact Nat.min_le_right _ _

/-! ### The number of a word -/

/-- The number that a finite word stands for. -/
def number? (bits : Nat) : Option ℚ :=
  if f.magnitude bits < f.infinity then
    some ((if f.negative bits then -1 else 1)
      * (f.significand bits).1 * 2 ^ (f.significand bits).2)
  else none

theorem significand_magnitude (w : Nat) : f.significand (f.magnitude w) = f.significand w := by
  have hself : f.magnitude (f.magnitude w) = f.magnitude w := Nat.mod_mod _ _
  simp only [significand, hself]

variable {f} {w : Nat} {q : ℚ}

theorem number?_eq_some (h : f.number? w = some q) : f.magnitude w < f.infinity ∧
    q = (if f.negative w then -1 else 1) * (f.significand w).1 * 2 ^ (f.significand w).2 := by
  unfold number? at h
  split at h
  · exact ⟨‹_›, (Option.some.inj h).symm⟩
  · cases h

/-- **The number of a word other than zero tells its place.** -/
theorem totalKey_of_number? (hbit : f.infinity < f.signBit) (h : f.number? w = some q) (hq : q ≠ 0)
    {m : Nat} {e : Int} (hm : |q| = m * 2 ^ e) :
    f.totalKey w = if q < 0 then -(f.roundScaled m e : Int) - 1 else f.roundScaled m e := by
  obtain ⟨hfinite, hvalue⟩ := number?_eq_some h
  have hpos : (0 : ℚ) < 2 ^ (f.significand w).2 := zpow_pos two_pos _
  have hnonneg : (0 : ℚ) ≤ (f.significand w).1 * 2 ^ (f.significand w).2 := by positivity
  have habs : |q| = (f.significand w).1 * 2 ^ (f.significand w).2 := by
    rw [hvalue]
    split <;> simp [abs_mul, abs_of_pos hpos]
  have hm₀ : m ≠ 0 := by
    rintro rfl
    rw [Nat.cast_zero, zero_mul, abs_eq_zero] at hm
    exact hq hm
  have hmagnitude : f.roundScaled m e = f.magnitude w := by
    refine f.roundScaled_of_number hfinite hbit hm₀ ?_
    rw [f.significand_magnitude, ← habs, hm]
  have hsign : q < 0 ↔ f.negative w = true := by
    have hne : (0 : ℚ) < (f.significand w).1 * 2 ^ (f.significand w).2 := by
      rw [← habs]
      exact abs_pos.2 hq
    rw [hvalue]
    cases f.negative w with
    | true => simpa [mul_assoc] using hne
    | false => simpa [mul_assoc] using hne.le
  rw [hmagnitude, totalKey]
  simp only [hsign]

/-- The words for zero. -/
theorem totalKey_of_number?_zero (hbit : f.infinity < f.signBit) (h : f.number? w = some 0) :
    f.totalKey w = 0 ∨ f.totalKey w = -1 := by
  obtain ⟨hfinite, hvalue⟩ := number?_eq_some h
  obtain ⟨-, hword, -, hplace⟩ := f.significand_spec (Nat.lt_trans hfinite hbit)
  rw [f.significand_magnitude] at hword hplace
  have hpos : (2 : ℚ) ^ (f.significand w).2 ≠ 0 := zpow_ne_zero _ two_ne_zero
  have hzero : (f.significand w).1 = 0 := by
    by_contra hne
    have hcast : ((f.significand w).1 : ℚ) ≠ 0 := Nat.cast_ne_zero.2 hne
    refine mul_ne_zero (mul_ne_zero ?_ hcast) hpos hvalue.symm
    split <;> norm_num
  have hmin : (f.significand w).2 = f.minExponent := by
    refine hplace.resolve_right fun hle => ?_
    have := Nat.two_pow_pos f.fractionBits
    omega
  rw [hzero, hmin, sub_self, Int.toNat_zero, Nat.zero_mul] at hword
  rw [totalKey, ← hword]
  split <;> simp

end Format

namespace Binary64

theorem word_ofInt (i : Int) : (ofInt i).word
    = Format.double.withSign (i < 0) (Format.double.roundRatio i.natAbs 1) := by
  have hle := Format.double.roundRatio_le_infinity i.natAbs 1
  have hlt : Format.double.infinity < Format.double.signBit := by decide
  exact Binary64.word_withSign (by omega) _

theorem totalKey_ofInt (i : Int) : (ofInt i).totalKey
    = if i < 0 then -(Format.double.roundRatio i.natAbs 1 : Int) - 1
      else Format.double.roundRatio i.natAbs 1 := by
  have hle := Format.double.roundRatio_le_infinity i.natAbs 1
  have hlt : Format.double.infinity < Format.double.signBit := by decide
  rw [totalKey, Format.totalKey, word_ofInt, Format.negative_withSign _ (by omega),
    Format.magnitude_withSign _ (by omega)]
  simp only [decide_eq_true_eq]

/-- **A greater integer has no lesser nearest word.** -/
theorem totalKey_ofInt_mono {i j : Int} (h : i ≤ j) : (ofInt i).totalKey ≤ (ofInt j).totalKey := by
  have hmono := fun {m n : Nat} => Format.double.roundRatio_mono (m := m) (n := n)
    (by rw [Format.minExponent_double, Format.fractionBits_double]; decide)
  rw [totalKey_ofInt, totalKey_ofInt]
  split_ifs with hi hj
  · have hle := hmono (show j.natAbs ≤ i.natAbs by omega)
    omega
  · omega
  · omega
  · exact_mod_cast hmono (show i.natAbs ≤ j.natAbs by omega)

/-- **Every word has its own place** in the total order. -/
theorem totalKey_injective : Function.Injective totalKey := by
  intro x y h
  have hlt := fun z : Binary64 => z.bits.toNat_lt
  have hword : x.word = y.word := by
    have hbit : Format.double.signBit = 2 ^ 63 := by decide
    have hx := Format.double.withSign_magnitude (w := x.word) (by rw [hbit]; exact hlt x)
    have hy := Format.double.withSign_magnitude (w := y.word) (by rw [hbit]; exact hlt y)
    rw [totalKey, totalKey, Format.totalKey, Format.totalKey] at h
    cases hxs : Format.double.negative x.word <;> cases hys : Format.double.negative y.word <;>
      simp only [hxs, hys, if_true, if_false, Bool.false_eq_true] at h <;>
      rw [hxs] at hx <;> rw [hys] at hy
    · rw [← hx, ← hy, show Format.double.magnitude x.word = Format.double.magnitude y.word by omega]
    · omega
    · omega
    · rw [← hx, ← hy, show Format.double.magnitude x.word = Format.double.magnitude y.word by omega]
  obtain ⟨x⟩ := x
  obtain ⟨y⟩ := y
  rw [show x = y from UInt64.toNat_inj.1 hword]

/-- The number that a finite word stands for. -/
def number? (x : Binary64) : Option ℚ := Format.double.number? x.word

variable {x y : Binary64} {q : ℚ}

/-- **Words of one number** are one word, unless they are the two zeros. -/
theorem eq_of_number? (hx : x.number? = some q) (hy : y.number? = some q) (hq : q ≠ 0) : x = y := by
  have hbit : Format.double.infinity < Format.double.signBit := by decide
  obtain ⟨-, hvalue⟩ := Format.number?_eq_some hx
  have habs : |q| = (Format.double.significand x.word).1 * 2 ^ (Format.double.significand x.word).2 := by
    rw [hvalue]
    split <;> simp [abs_mul]
  apply totalKey_injective
  rw [totalKey, totalKey, Format.totalKey_of_number? hbit hx hq habs,
    Format.totalKey_of_number? hbit hy hq habs]

/-- **An integer that a word stands for is rounded to that word**, unless it is zero. -/
theorem ofInt_of_number? {i : Int} (hx : x.number? = some (i : ℚ)) (hi : i ≠ 0) : ofInt i = x := by
  have hbit : Format.double.infinity < Format.double.signBit := by decide
  have habs : |(i : ℚ)| = i.natAbs * 2 ^ (0 : Int) := by
    rw [zpow_zero, mul_one, Nat.cast_natAbs, Int.cast_abs]
  have hround : Format.double.roundScaled i.natAbs 0 = Format.double.roundRatio i.natAbs 1 := by
    simp [Format.roundScaled, scaleByTwo]
  apply totalKey_injective
  rw [totalKey_ofInt, totalKey, Format.totalKey_of_number? hbit hx (Int.cast_ne_zero.2 hi) habs,
    hround]
  simp only [Int.cast_lt_zero]

/-- The words for zero are the two zeros. -/
theorem eq_zero_of_number? (hx : x.number? = some 0) : x = zero ∨ x = zero.neg := by
  have hbit : Format.double.infinity < Format.double.signBit := by decide
  rcases Format.totalKey_of_number?_zero hbit hx with h | h
  · exact .inl (totalKey_injective (h.trans (by decide)))
  · exact .inr (totalKey_injective (h.trans (by decide)))

end Binary64

namespace Binary32

/-- The number that a finite word stands for. -/
def number? (x : Binary32) : Option ℚ := Format.single.number? x.word

/-- A double-precision word that is not finite stands for no number. -/
theorem number?_ofWord_withSign {b : Nat} (hinf : Format.double.infinity ≤ b)
    (h : b < Format.double.signBit) (neg : Bool) :
    (Binary64.ofWord (Format.double.withSign neg b)).number? = none := by
  rw [Binary64.number?, Binary64.word_withSign h, Format.number?,
    if_neg (by rw [Format.magnitude_withSign _ h]; omega)]

/-- **In double precision a word stands for the same number.** -/
theorem number?_toBinary64 (x : Binary32) : x.toBinary64.number? = x.number? := by
  have hbit : Format.double.infinity < Format.double.signBit := by decide
  cases hnan : x.isNaN with
  | true =>
    have hlt : Format.single.infinity < Format.single.magnitude x.word := of_decide_eq_true hnan
    have hpayload : Format.single.magnitude x.word % Nat.pow 2 22 < 2 ^ 22 :=
      Nat.mod_lt _ (by decide)
    rw [toBinary64_of_isNaN hnan, number?_ofWord_withSign (by omega), number?, Format.number?,
      if_neg (by omega)]
    rw [Format.infinity_double, show Format.double.signBit = 2 ^ 63 by decide]
    simp only [Nat.pow_eq] at hpayload ⊢
    omega
  | false =>
    have hle : ¬ Format.single.infinity < Format.single.magnitude x.word := of_decide_eq_false hnan
    cases hinfinite : x.isInfinite with
    | true =>
      have heq : Format.single.magnitude x.word = Format.single.infinity := by
        simpa [isInfinite, Format.isInfinite] using hinfinite
      rw [toBinary64, hnan, hinfinite]
      simp only [Bool.false_eq_true, if_false, if_true]
      rw [number?_ofWord_withSign le_rfl hbit, number?, Format.number?, if_neg (by omega)]
    | false =>
      have hne : Format.single.magnitude x.word ≠ Format.single.infinity := by
        simpa [isInfinite, Format.isInfinite] using hinfinite
      have hfinite : Format.single.magnitude x.word < Format.single.infinity := by omega
      obtain ⟨b, hb, hlt, hvalue, -⟩ := Format.roundScaled_significand hfinite
      rw [Format.significand_magnitude] at hb hvalue
      rw [toBinary64, hnan, hinfinite]
      simp only [Bool.false_eq_true, if_false, hb]
      have hwide : b < Format.double.signBit := by omega
      rw [Binary64.number?, Binary64.word_withSign hwide, number?, Format.number?, Format.number?,
        Format.magnitude_withSign _ hwide, Format.negative_withSign _ hwide,
        Format.significand_withSign _ hwide, if_pos hlt, if_pos hfinite, mul_assoc, hvalue, ← mul_assoc]
      rfl

end Binary32

end ScriptMachine
