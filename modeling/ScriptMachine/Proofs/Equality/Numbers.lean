import ScriptMachine.Proofs.Objects.KeyOrder
import ScriptMachine.Proofs.Operators.Comparisons
import ScriptMachine.Proofs.Operators.Integers

/-!
# Equality of numbers

Two numbers are compared in the wider of their kinds. Integers are compared exactly with each other and
so are floats, but an integer beside a float is rounded first, so that it may equal a float of another
number.

* `Format.quantity?`: the number of a word, or its infinity; `Format.numericKey_eq_iff`: words of one
  quantity are those that have one place in the numeric order.
* `Value.quantity?`: the same for values; `Value.RoundsTo`: an integer beside a float of another number.
* `exists_normalize`: widening keeps quantities, unless an integer is rounded.
* `Value.EqualNumbers`: numbers that are told equal; they are so in either order
  (`EqualNumbers.symm`), and where no integer is rounded they are of one quantity
  (`EqualNumbers.quantity?_eq`, `equalNumbers_of_quantity?`).
-/

namespace ScriptMachine

/-! ### Quantities of words -/

namespace Format

variable (f : Format)

/-- What a word stands for: a number, or infinity with its sign. -/
def quantity? (bits : Nat) : Option (ℚ ⊕ Bool) :=
  match f.number? bits with
  | some q => some (.inl q)
  | none => if f.isInfinite bits then some (.inr (f.negative bits)) else none

/-- The two zeros are one in the numeric order. -/
theorem numericKey_eq (w : Nat) :
    f.numericKey w = if f.totalKey w < 0 then f.totalKey w + 1 else f.totalKey w := by
  unfold numericKey totalKey
  cases f.negative w <;> simp only [if_true, if_false, Bool.false_eq_true] <;> split_ifs <;> omega

variable {f} {w w' : Nat} {q : ℚ}

theorem quantity?_of_number? (h : f.number? w = some q) : f.quantity? w = some (.inl q) := by
  rw [quantity?, h]

theorem number?_eq (f : Format) (w : Nat) : f.number? w = (f.quantity? w).bind Sum.getLeft? := by
  unfold quantity?
  cases f.number? w with
  | some q => rfl
  | none => dsimp only; split <;> rfl

/-- A word that is not finite, but is no not-a-number, is an infinity. -/
theorem quantity?_of_number?_none (hnan : f.isNaN w = false) (h : f.number? w = none) :
    f.magnitude w = f.infinity ∧ f.quantity? w = some (.inr (f.negative w)) := by
  have hle : ¬ f.infinity < f.magnitude w := of_decide_eq_false hnan
  have heq : f.magnitude w = f.infinity := by
    unfold number? at h
    split at h
    · cases h
    · omega
  rw [quantity?, h, isInfinite, heq]
  exact ⟨rfl, if_pos BEq.rfl⟩

theorem quantity?_congr (hmagnitude : f.magnitude w = f.magnitude w')
    (hnegative : f.negative w = f.negative w') : f.quantity? w = f.quantity? w' := by
  have hsignificand : f.significand w = f.significand w' := by
    rw [← f.significand_magnitude w, hmagnitude, f.significand_magnitude]
  unfold quantity? number? isInfinite
  rw [hmagnitude, hnegative, hsignificand]

theorem number?_of_magnitude_zero (hpos : 0 < f.infinity) (h : f.magnitude w = 0) :
    f.number? w = some 0 := by
  have hzero : (f.significand w).1 = 0 := by
    unfold significand
    simp only [h, Nat.zero_div, Nat.zero_mod, if_pos]
  rw [number?, if_pos (by omega), hzero]
  simp

/-- **Words of one place in the numeric order** stand for one quantity. -/
theorem numericKey_eq_iff (hpos : 0 < f.infinity) (hbit : f.infinity < f.signBit)
    (hw : f.isNaN w = false) (hw' : f.isNaN w' = false) :
    f.numericKey w = f.numericKey w' ↔ f.quantity? w = f.quantity? w' := by
  constructor
  · intro h
    have hmagnitude : f.magnitude w = f.magnitude w' := by
      unfold numericKey at h
      split_ifs at h <;> omega
    by_cases hnegative : f.negative w = f.negative w'
    · exact quantity?_congr hmagnitude hnegative
    · have hzero : f.magnitude w = 0 := by
        unfold numericKey at h
        cases hs : f.negative w <;> cases hs' : f.negative w' <;>
          simp only [hs, hs', if_true, if_false, Bool.false_eq_true] at h <;>
          first | (exact absurd (hs.trans hs'.symm) hnegative) | omega
      rw [quantity?_of_number? (number?_of_magnitude_zero hpos hzero),
        quantity?_of_number? (number?_of_magnitude_zero hpos (hmagnitude ▸ hzero))]
  · intro h
    cases hq : f.number? w with
    | none =>
      obtain ⟨hmagnitude, hquantity⟩ := quantity?_of_number?_none hw hq
      cases hq' : f.number? w' with
      | none =>
        obtain ⟨hmagnitude', hquantity'⟩ := quantity?_of_number?_none hw' hq'
        have hnegative : f.negative w = f.negative w' :=
          Sum.inr.inj (Option.some.inj (hquantity.symm.trans (h.trans hquantity')))
        rw [numericKey, numericKey, hmagnitude, hmagnitude', hnegative]
      | some q =>
        rw [hquantity, quantity?_of_number? hq'] at h
        cases h
    | some q =>
      have hq' : f.number? w' = some q := by
        rw [quantity?_of_number? hq] at h
        cases hq' : f.number? w' with
        | none =>
          rw [(quantity?_of_number?_none hw' hq').2] at h
          cases h
        | some p =>
          rw [quantity?_of_number? hq'] at h
          rw [Sum.inl.inj (Option.some.inj h)]
      rw [numericKey_eq, numericKey_eq]
      by_cases hzero : q = 0
      · subst hzero
        have hkey := totalKey_of_number?_zero hbit hq
        have hkey' := totalKey_of_number?_zero hbit hq'
        split_ifs <;> omega
      · obtain ⟨-, hvalue⟩ := number?_eq_some hq
        have habs : |q| = (f.significand w).1 * 2 ^ (f.significand w).2 := by
          rw [hvalue]
          split <;> simp [abs_mul]
        rw [totalKey_of_number? hbit hq hzero habs, totalKey_of_number? hbit hq' hzero habs]

theorem isSome_quantity? (hnan : f.isNaN w = false) : (f.quantity? w).isSome = true := by
  cases hq : f.number? w with
  | none => rw [(quantity?_of_number?_none hnan hq).2, Option.isSome_some]
  | some q => rw [quantity?_of_number? hq, Option.isSome_some]

end Format

namespace Binary64

variable {x y : Binary64}

/-- The number of a word, or its infinity. -/
def quantity? (x : Binary64) : Option (ℚ ⊕ Bool) := Format.double.quantity? x.word

theorem numericEq_iff (hx : x.isNaN = false) (hy : y.isNaN = false) :
    x.numericEq y = true ↔ x.quantity? = y.quantity? := by
  rw [quantity?, quantity?, ← Format.numericKey_eq_iff (by decide) (by decide) hx hy]
  simp [numericEq, compare?, hx, hy]

/-- An integer that is the number of some word is not rounded. -/
theorem number?_ofInt {i : Int} (hy : y.number? = some (i : ℚ)) :
    (ofInt i).number? = some (i : ℚ) := by
  by_cases hi : i = 0
  · subst hi
    exact Format.number?_of_magnitude_zero (by decide) (by decide)
  · rw [ofInt_of_number? hy hi, hy]

end Binary64

namespace Binary32

variable {x y : Binary32}

/-- The number of a word, or its infinity. -/
def quantity? (x : Binary32) : Option (ℚ ⊕ Bool) := Format.single.quantity? x.word

theorem numericEq_iff (hx : x.isNaN = false) (hy : y.isNaN = false) :
    x.numericEq y = true ↔ x.quantity? = y.quantity? := by
  rw [quantity?, quantity?, ← Format.numericKey_eq_iff (by decide) (by decide) hx hy]
  simp [numericEq, compare?, hx, hy]

/-- **In double precision a word stands for the same quantity.** -/
theorem quantity?_toBinary64 (hx : x.isNaN = false) : x.toBinary64.quantity? = x.quantity? := by
  have hnumber := x.number?_toBinary64
  cases hq : x.number? with
  | some q =>
    rw [hq] at hnumber
    rw [Binary64.quantity?, quantity?, Format.quantity?_of_number? hq,
      Format.quantity?_of_number? hnumber]
  | none =>
    rw [hq] at hnumber
    obtain ⟨hmagnitude, hquantity⟩ := Format.quantity?_of_number?_none hx hq
    have hinfinite : x.isInfinite = true := by
      rw [isInfinite, Format.isInfinite, hmagnitude]
      exact BEq.rfl
    have hbit : Format.double.infinity < Format.double.signBit := by decide
    have hword : x.toBinary64.word = Format.double.withSign x.negative Format.double.infinity := by
      rw [toBinary64, hx, hinfinite]
      simp only [Bool.false_eq_true, if_false, if_true]
      exact Binary64.word_withSign hbit _
    rw [Binary64.quantity?, quantity?, hquantity,
      (Format.quantity?_of_number?_none (isNaN_toBinary64 hx) hnumber).2, hword,
      Format.negative_withSign _ hbit, negative]

/-- An integer that is the number of some word is not rounded, neither in double precision nor after. -/
theorem number?_ofInt_toBinary32 {i : Int} (hnan : y.isNaN = false) (hy : y.number? = some (i : ℚ)) :
    (Binary64.ofInt i).toBinary32.number? = some (i : ℚ) := by
  by_cases hi : i = 0
  · subst hi
    exact Format.number?_of_magnitude_zero (by decide) (by decide)
  · rw [← y.number?_toBinary64] at hy
    rw [Binary64.ofInt_of_number? hy hi, toBinary32_toBinary64 hnan, ← y.number?_toBinary64, hy]

end Binary32

/-! ### Quantities of values -/

namespace Kind

variable {k : Kind}

theorem isScalar_of_isNumeric (hk : k.isNumeric = true) : k.isScalar = true := by
  rw [isScalar, hk, Bool.true_or, Bool.true_or]

theorem eq_float_of_not_isInteger (hk : k.isNumeric = true) (hint : k.isInteger = false) :
    k = .float32 ∨ k = .float64 := by
  cases k <;> first | (cases hk; done) | (cases hint; done) | decide

end Kind

namespace Value

variable {v w : Value} {k : Kind} {x : Int64} {q : ℚ}

/-- The number of a value, or its infinity. -/
def quantity? (v : Value) : Option (ℚ ⊕ Bool) :=
  match v.unwrapped with
  | .float32 x => x.quantity?
  | .float64 x => x.quantity?
  | _ => v.number?.map .inl

/-- An integer beside a float that stands for another number. -/
def RoundsTo (v w : Value) : Prop :=
  v.kind.isInteger = true ∧ (w.kind = .float32 ∨ w.kind = .float64) ∧ v.number? ≠ w.number?

instance (v w : Value) : Decidable (v.RoundsTo w) := inferInstanceAs (Decidable (_ ∧ _ ∧ _))

theorem quantity?_of_number? (h : v.number? = some q) : v.quantity? = some (.inl q) := by
  unfold quantity?
  unfold number? at h
  split
  · rename_i x hx
    rw [hx] at h
    exact Format.quantity?_of_number? h
  · rename_i x hx
    rw [hx] at h
    exact Format.quantity?_of_number? h
  · rw [number?, h]
    rfl

/-- The quantity tells the number. -/
theorem number?_eq (v : Value) : v.number? = v.quantity?.bind Sum.getLeft? := by
  unfold quantity? number?
  cases hv : v.unwrapped with
  | float32 x => exact Format.number?_eq _ _
  | float64 x => exact Format.number?_eq _ _
  | _ => rfl

theorem number?_of_isInteger (h : v.kind.isInteger = true) : v.number? = some (v.integer : ℚ) := by
  unfold kind at h
  unfold number? integer
  cases hv : v.unwrapped with
  | byte n => rw [Int.cast_natCast]
  | int32 n | int n | int64 n => rfl
  | _ =>
    rw [hv] at h
    cases h

theorem Word.number?_eq (h : v.Word x) : v.number? = some (x.toInt : ℚ) := by
  rw [number?_of_isInteger h.isInteger, h.toInt_eq]

/-- A word narrowed to a kind that has it is the same number. -/
theorem number?_ofInt64 (hk : k.isInteger = true) (hx : k.Holds x.toInt) :
    (ofInt64 k x).number? = some (x.toInt : ℚ) := by
  obtain ⟨z, hz⟩ := exists_word (v := ofInt64 k x) (by rw [kind_ofInt64 hk]; exact hk)
  have hread := hz.read
  rw [toInt64_ofInt64 hk hx] at hread
  rw [hz.number?_eq, Except.ok.inj hread]

@[simp]
theorem quantity?_unwrapped (v : Value) : v.unwrapped.quantity? = v.quantity? := by
  simp [quantity?, number?]

/-- A number is an integer or a float. -/
theorem sort_of_isNumeric (h : v.kind.isNumeric = true) :
    v.kind.isInteger = true ∨ (∃ y, v.unwrapped = .float32 y) ∨ ∃ y, v.unwrapped = .float64 y := by
  unfold kind at h ⊢
  cases hv : v.unwrapped with
  | byte | int32 | int | int64 => exact .inl rfl
  | float32 y => exact .inr (.inl ⟨y, rfl⟩)
  | float64 y => exact .inr (.inr ⟨y, rfl⟩)
  | _ =>
    rw [hv] at h
    cases h

/-- The integer of a value as a double-precision number. -/
theorem Word.toBinary64 (h : v.Word x) : v.unwrapped.toBinary64 = .ok (.ofInt x.toInt) := by
  have hkind := h.isInteger
  have hread := h.unwrapped.read
  unfold kind at hkind
  unfold Value.toBinary64
  rw [unwrapped_unwrapped]
  cases hv : v.unwrapped with
  | byte | int32 | int | int64 =>
    rw [hv] at hread
    dsimp only
    rw [hread]
    rfl
  | _ =>
    rw [hv] at hkind
    cases hkind

/-- **A number as a float of a wider kind** is the same quantity, for an integer if some float of that
kind is. -/
theorem quantity?_toNumber (hv : v.kind.isNumeric = true) (hnan : v.isNaN = false)
    (hk : k = .float32 ∧ v.kind ≠ .float64 ∨ k = .float64)
    (hexact : v.kind.isInteger = true → ∃ u : Value, u.kind = k ∧ u.isNaN = false ∧
      u.number? = v.number?)
    (hw : v.unwrapped.toNumber k = .ok w) : w.quantity? = v.quantity? := by
  unfold isNaN at hnan
  rcases sort_of_isNumeric hv with hint | ⟨y, hy⟩ | ⟨y, hy⟩
  · obtain ⟨x, hx⟩ := exists_word hint
    obtain ⟨u, hu, hunan, hnumber⟩ := hexact hint
    rw [hx.number?_eq] at hnumber
    rw [quantity?_of_number? hx.number?_eq]
    unfold kind at hu
    unfold isNaN at hunan
    unfold number? at hnumber
    rcases hk with ⟨rfl, -⟩ | rfl
    · cases hcases : u.unwrapped <;> rw [hcases] at hu hunan hnumber <;> cases hu
      simp only [toNumber, hx.toBinary64, Except.map, Except.ok.injEq] at hw
      rw [← hw]
      exact quantity?_of_number? (Binary32.number?_ofInt_toBinary32 hunan hnumber)
    · cases hcases : u.unwrapped <;> rw [hcases] at hu hnumber <;> cases hu
      simp only [toNumber, hx.toBinary64, Except.map, Except.ok.injEq] at hw
      rw [← hw]
      exact quantity?_of_number? (Binary64.number?_ofInt hnumber)
  · rw [hy] at hnan hw
    rw [← v.quantity?_unwrapped, hy]
    rcases hk with ⟨rfl, -⟩ | rfl
    · have heq : w = .float32 y.toBinary64.toBinary32 := (Except.ok.inj hw).symm
      rw [heq, Binary32.toBinary32_toBinary64 hnan]
    · have heq : w = .float64 y.toBinary64 := (Except.ok.inj hw).symm
      rw [heq]
      exact Binary32.quantity?_toBinary64 hnan
  · rw [hy] at hw
    rw [← v.quantity?_unwrapped, hy]
    rcases hk with ⟨-, hkind⟩ | rfl
    · rw [kind, hy] at hkind
      exact absurd rfl hkind
    · have heq : w = .float64 y := (Except.ok.inj hw).symm
      rw [heq]

end Value

theorem Common.kind_eq {x y : Value} {o : Ordering} (h : Common x y o) : x.kind = y.kind := by
  cases h <;> rfl

/-- **Numbers of one kind are equal that are of one quantity.** -/
theorem Common.sameNumber_iff {x y : Value} {o : Ordering} (h : Common x y o)
    (hnumber : x.kind.isNumeric = true) : sameNumber x y = true ↔ x.quantity? = y.quantity? := by
  cases h with
  | string | bool => cases hnumber
  | float32 x y hx hy => exact Binary32.numericEq_iff hx hy
  | float64 x y hx hy => exact Binary64.numericEq_iff hx hy
  | byte x y =>
    simp [sameNumber, Value.quantity?, Value.number?, Value.unwrapped, UInt8.toNat_inj]
  | int32 x y =>
    simp [sameNumber, Value.quantity?, Value.number?, Value.unwrapped, Int32.toInt_inj]
  | int x y | int64 x y =>
    simp [sameNumber, Value.quantity?, Value.number?, Value.unwrapped, Int64.toInt_inj]

section Normalization

variable {a b : Value}

/-- Of an integer and a float, or of two floats, the wider kind is that of a float. -/
theorem widened_of_float {k l : Kind} (hk : k.isNumeric = true) (hl : l.isNumeric = true)
    (hkl : k ≠ l) (hfloat : k.isInteger = true → l.isInteger = false) :
    (widened k l = .float32 ∧ k ≠ .float64 ∧ l ≠ .float64 ∨ widened k l = .float64) ∧
      (k.isInteger = true → l = widened k l) ∧ (l.isInteger = true → k = widened k l) := by
  cases k <;> cases hk <;> cases l <;> cases hl <;>
    first | exact absurd rfl hkl | (cases hfloat rfl; done) | decide

/-- **Two numbers brought to the wider of their kinds** are of the quantities that they are of, unless an
integer is rounded. -/
theorem exists_normalize (ha : a.kind.isNumeric = true) (hb : b.kind.isNumeric = true)
    (hna : a.isNaN = false) (hnb : b.isNaN = false)
    (hexact : a.number? = b.number? ∨ a.kind.isInteger = b.kind.isInteger) :
    ∃ x y, normalize a b = .ok (x, y) ∧ x.quantity? = a.quantity? ∧ y.quantity? = b.quantity? ∧
      (sameNumber x y = true ↔ x.quantity? = y.quantity?) := by
  have hrank : ∀ {k : Kind}, k.isNumeric = true → (operandRank k).isSome = true := fun {k} hk => by
    cases k <;> first | rfl | cases hk
  obtain ⟨x, y, o, hnormal, -, hcommon, hsame, hnumeric⟩ :=
    normalize_of_isComparable ⟨Kind.isScalar_of_isNumeric ha, hna⟩
      ⟨Kind.isScalar_of_isNumeric hb, hnb⟩
  refine ⟨x, y, hnormal, ?_⟩
  rw [← and_assoc]
  refine ⟨?_, hcommon.sameNumber_iff (hnumeric ha hb)⟩
  by_cases hkind : a.kind = b.kind
  · obtain ⟨rfl, rfl⟩ := hsame hkind
    exact ⟨a.quantity?_unwrapped, b.quantity?_unwrapped⟩
  by_cases hint : a.kind.isInteger = true ∧ b.kind.isInteger = true
  · obtain ⟨i, hi⟩ := Value.exists_word hint.1
    obtain ⟨j, hj⟩ := Value.exists_word hint.2
    rw [normalize_words hi hj, Except.ok.injEq, Prod.mk.injEq] at hnormal
    obtain ⟨rfl, rfl⟩ := hnormal
    have hk := Kind.isInteger_wider hint.1 hint.2
    rw [Value.quantity?_of_number? hi.number?_eq, Value.quantity?_of_number? hj.number?_eq]
    exact ⟨Value.quantity?_of_number?
        (Value.number?_ofInt64 hk (Kind.holds_wider_left hint.1 hint.2 hi.holds)),
      Value.quantity?_of_number?
        (Value.number?_ofInt64 hk (Kind.holds_wider_right hint.1 hint.2 hj.holds))⟩
  -- One of them is a float, so that both become floats.
  have hfloat : a.kind.isInteger = true → b.kind.isInteger = false := fun h =>
    Bool.eq_false_iff.2 fun h' => hint ⟨h, h'⟩
  obtain ⟨hwide, hleft, hright⟩ := widened_of_float ha hb hkind hfloat
  rw [normalize_widened (hrank ha) (hrank hb) hkind] at hnormal
  obtain ⟨u, hu, -⟩ := Value.IsComparable.toNumber (k := widened a.kind b.kind)
    ⟨Kind.isScalar_of_isNumeric ha, hna⟩ (fun h => by rw [h] at ha; cases ha) (isNumeric_widened (hrank ha) (hrank hb))
  obtain ⟨w, hw, -⟩ := Value.IsComparable.toNumber (k := widened a.kind b.kind)
    ⟨Kind.isScalar_of_isNumeric hb, hnb⟩ (fun h => by rw [h] at hb; cases hb) (isNumeric_widened (hrank ha) (hrank hb))
  rw [hu, hw] at hnormal
  obtain ⟨rfl, rfl⟩ := Prod.mk.inj (Except.ok.inj hnormal)
  constructor
  · refine Value.quantity?_toNumber ha hna (hwide.imp_left fun h => ⟨h.1, h.2.1⟩) (fun h => ?_) hu
    have hnumber := hexact.resolve_right fun heq => hint ⟨h, heq ▸ h⟩
    exact ⟨b, hleft h, hnb, hnumber.symm⟩
  · refine Value.quantity?_toNumber hb hnb (hwide.imp_left fun h => ⟨h.1, h.2.2⟩) (fun h => ?_) hw
    have hnumber := hexact.resolve_right fun heq => hint ⟨heq ▸ h, h⟩
    exact ⟨a, hright h, hna, hnumber⟩

/-- Two numbers that are told equal after widening. -/
structure Value.EqualNumbers (a b : Value) : Prop where
  left : a.kind.isNumeric = true
  right : b.kind.isNumeric = true
  same : ∃ x y, normalize a b = .ok (x, y) ∧ sameNumber x y = true

namespace Value

/-- Two numbers are equal that are of one quantity, unless an integer is rounded. -/
theorem equalNumbers_iff (ha : a.kind.isNumeric = true) (hb : b.kind.isNumeric = true)
    (hna : a.isNaN = false) (hnb : b.isNaN = false)
    (hexact : a.number? = b.number? ∨ a.kind.isInteger = b.kind.isInteger) :
    a.EqualNumbers b ↔ a.quantity? = b.quantity? := by
  obtain ⟨x, y, hnormal, hx, hy, hsame⟩ := exists_normalize ha hb hna hnb hexact
  rw [← hx, ← hy, ← hsame]
  constructor
  · rintro ⟨-, -, x', y', hnormal', hsame'⟩
    obtain ⟨rfl, rfl⟩ := Prod.mk.inj (Except.ok.inj (hnormal.symm.trans hnormal'))
    exact hsame'
  · exact fun hsame' => ⟨ha, hb, x, y, hnormal, hsame'⟩

/-- **Numbers of one quantity are equal.** -/
theorem equalNumbers_of_quantity? (ha : a.kind.isNumeric = true) (hb : b.kind.isNumeric = true)
    (hna : a.isNaN = false) (hnb : b.isNaN = false) (hq : a.quantity? = b.quantity?) :
    a.EqualNumbers b :=
  (equalNumbers_iff ha hb hna hnb (.inl (by rw [a.number?_eq, hq, b.number?_eq]))).2 hq

namespace EqualNumbers

/-- **Numbers are equal in either order.** -/
theorem symm (h : a.EqualNumbers b) (hna : a.isNaN = false) (hnb : b.isNaN = false) :
    b.EqualNumbers a := by
  obtain ⟨ha, hb, x', y', hnormal', hsame⟩ := h
  obtain ⟨x, y, o, hnormal, hswapped, hcommon, -, hnumeric⟩ :=
    normalize_of_isComparable ⟨Kind.isScalar_of_isNumeric ha, hna⟩ ⟨Kind.isScalar_of_isNumeric hb, hnb⟩
  obtain ⟨rfl, rfl⟩ := Prod.mk.inj (Except.ok.inj (hnormal.symm.trans hnormal'))
  have hx := hnumeric ha hb
  rw [hcommon.sameNumber_eq hx, beq_iff_eq] at hsame
  subst hsame
  refine ⟨hb, ha, y, x, hswapped, ?_⟩
  rw [hcommon.swap.sameNumber_eq (hcommon.kind_eq ▸ hx)]
  rfl

/-- **Equal numbers are of one quantity**, unless one of them is an integer that was rounded. -/
theorem quantity?_eq (h : a.EqualNumbers b) (hna : a.isNaN = false) (hnb : b.isNaN = false)
    (hab : ¬ a.RoundsTo b) (hba : ¬ b.RoundsTo a) : a.quantity? = b.quantity? := by
  refine (equalNumbers_iff h.left h.right hna hnb ?_).1 h
  by_contra hnot
  obtain ⟨hnumber, hsort⟩ := not_or.1 hnot
  cases hint : a.kind.isInteger with
  | true =>
    rw [hint] at hsort
    have hfloat := Kind.eq_float_of_not_isInteger h.right (Bool.eq_false_iff.2 (Ne.symm hsort))
    exact hab ⟨hint, hfloat, hnumber⟩
  | false =>
    rw [hint, eq_comm, Bool.not_eq_false] at hsort
    exact hba ⟨hsort, Kind.eq_float_of_not_isInteger h.left hint, Ne.symm hnumber⟩

end EqualNumbers

end Value

end Normalization

end ScriptMachine
