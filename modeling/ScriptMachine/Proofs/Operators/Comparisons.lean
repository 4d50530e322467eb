import Mathlib.Data.String.Basic
import ScriptMachine.Heap.Equality
import ScriptMachine.Proofs.Action.Sequences
import ScriptMachine.Proofs.Objects.Rounding

/-!
# Order and equality of scalars

What the comparison instructions tell of booleans, numbers and strings. The order widens booleans to
numbers and turns a number beside a string into text; equality only widens numbers, so that operands of
different sorts differ also where the order finds nothing between them.

* `Value.isNaN`, `Value.IsComparable`, `Value.alike`: the operands, and whether two are of one sort.
* `Common`: operands brought to a common kind, with their order; `Common.swap`, `Common.eq_iff`.
* `compareScalars_swap`, `Heap.equal_of_isComparable`: the order the other way, and equality by the
  order.
* `Machine.Tells`, `Machine.Compares`: what a comparison pushes;
  `Machine.comparisons_agree`: the six comparisons of two operands agree.
-/

namespace ScriptMachine

/-! ### Words that are numbers -/

section Words

variable {x y : Binary64}

/-- A word made of a sign and a magnitude up to infinity is a number. -/
theorem Binary64.isNaN_ofWord_withSign {a : Nat} (h : a ≤ Format.double.infinity) (neg : Bool) :
    (Binary64.ofWord (Format.double.withSign neg a)).isNaN = false := by
  have hbit : Format.double.infinity < Format.double.signBit := by decide
  rw [Binary64.isNaN, Binary64.word_withSign (by omega), Format.isNaN,
    Format.magnitude_withSign _ (by omega)]
  exact decide_eq_false (by omega)

theorem Binary32.isNaN_ofWord_withSign {a : Nat} (h : a ≤ Format.single.infinity) (neg : Bool) :
    (Binary32.ofWord (Format.single.withSign neg a)).isNaN = false := by
  have hbit : Format.single.infinity < Format.single.signBit := by decide
  rw [Binary32.isNaN, Binary32.word_withSign (by omega), Format.isNaN,
    Format.magnitude_withSign _ (by omega)]
  exact decide_eq_false (by omega)

/-- The word nearest to an integer is a number. -/
theorem Binary64.isNaN_ofInt (i : Int) : (Binary64.ofInt i).isNaN = false :=
  Binary64.isNaN_ofWord_withSign (Format.double.roundRatio_le_infinity _ _) _

theorem Binary64.isNaN_toBinary32 (h : x.isNaN = false) : x.toBinary32.isNaN = false := by
  rw [Binary64.toBinary32, if_neg (by simp [h])]
  refine Binary32.isNaN_ofWord_withSign ?_ _
  split
  · exact Nat.le_refl _
  · exact Format.single.roundRatio_le_infinity _ _

theorem Binary32.isNaN_toBinary64 {x : Binary32} (h : x.isNaN = false) :
    x.toBinary64.isNaN = false := by
  rw [Binary32.toBinary64, if_neg (by simp [h])]
  refine Binary64.isNaN_ofWord_withSign ?_ _
  split
  · exact Nat.le_refl _
  · exact Format.double.roundRatio_le_infinity _ _

end Words

namespace Value

/-- Whether a value is not-a-number. -/
def isNaN (v : Value) : Bool :=
  match v.unwrapped with
  | .float32 x => x.isNaN
  | .float64 x => x.isNaN
  | _ => false

/-- Whether the order takes a value: a boolean, a number or a string. -/
def IsComparable (v : Value) : Prop := v.kind.isScalar = true ∧ v.isNaN = false

instance (v : Value) : Decidable v.IsComparable := inferInstanceAs (Decidable (_ ∧ _))

/-- Whether two values are of one sort: booleans, numbers or strings. -/
def alike (a b : Value) : Bool :=
  a.kind == b.kind || (a.kind.isNumeric && b.kind.isNumeric)

variable {v : Value}

theorem IsComparable.proper (h : v.IsComparable) : v.isMarker = false ∧ v.isNull = false := by
  obtain ⟨hscalar, -⟩ := h
  constructor
  · cases v with
    | marker l => cases hscalar
    | _ => rfl
  · rw [kind] at hscalar
    rw [isNull]
    split
    · rename_i hnull
      rw [hnull] at hscalar
      cases hscalar
    · rfl

end Value

/-! ### A common kind -/

/-- Two operands brought to a common kind, and their order. -/
inductive Common : Value → Value → Ordering → Prop
  | string (x y : String) : Common (.string x) (.string y) (compareOfLessAndEq x y)
  | bool (x y : Bool) : Common (.bool x) (.bool y) (compare x y)
  | byte (x y : UInt8) : Common (.byte x) (.byte y) (compare x.toNat y.toNat)
  | int32 (x y : Int32) : Common (.int32 x) (.int32 y) (compare x.toInt y.toInt)
  | int (x y : Int64) : Common (.int x) (.int y) (compare x.toInt y.toInt)
  | int64 (x y : Int64) : Common (.int64 x) (.int64 y) (compare x.toInt y.toInt)
  | float32 (x y : Binary32) (hx : x.isNaN = false) (hy : y.isNaN = false) :
    Common (.float32 x) (.float32 y)
      (compare (Format.single.numericKey x.word) (Format.single.numericKey y.word))
  | float64 (x y : Binary64) (hx : x.isNaN = false) (hy : y.isNaN = false) :
    Common (.float64 x) (.float64 y)
      (compare (Format.double.numericKey x.word) (Format.double.numericKey y.word))

namespace Common

variable {x y : Value} {o : Ordering}

theorem swap (h : Common x y o) : Common y x o.swap := by
  cases h with
  | string x y =>
    rw [← compareOfLessAndEq_eq_swap_of_lt_iff_not_gt_and_ne fun s t => by
      rw [String.not_lt, ne_eq, lt_iff_le_and_ne (a := s)]]
    exact .string y x
  | bool x y => rw [← Std.OrientedCmp.eq_swap]; exact .bool y x
  | byte x y => rw [← Std.OrientedCmp.eq_swap]; exact .byte y x
  | int32 x y => rw [← Std.OrientedCmp.eq_swap]; exact .int32 y x
  | int x y => rw [← Std.OrientedCmp.eq_swap]; exact .int y x
  | int64 x y => rw [← Std.OrientedCmp.eq_swap]; exact .int64 y x
  | float32 x y hx hy => rw [← Std.OrientedCmp.eq_swap]; exact .float32 y x hy hx
  | float64 x y hx hy => rw [← Std.OrientedCmp.eq_swap]; exact .float64 y x hy hx

/-- **Numbers of one kind are equal where their order is.** -/
theorem sameNumber_eq (h : Common x y o) (hnumber : x.kind.isNumeric = true) :
    sameNumber x y = (o == .eq) := by
  rw [Bool.eq_iff_iff, beq_iff_eq]
  cases h with
  | string => cases hnumber
  | bool => cases hnumber
  | byte x y => rw [compare_eq_iff_eq, UInt8.toNat_inj]; exact beq_iff_eq
  | int32 x y => rw [compare_eq_iff_eq, Int32.toInt_inj]; exact beq_iff_eq
  | int x y => rw [compare_eq_iff_eq, Int64.toInt_inj]; exact beq_iff_eq
  | int64 x y => rw [compare_eq_iff_eq, Int64.toInt_inj]; exact beq_iff_eq
  | float32 x y hx hy => simp [sameNumber, Binary32.numericEq, Binary32.compare?, hx, hy]
  | float64 x y hx hy => simp [sameNumber, Binary64.numericEq, Binary64.compare?, hx, hy]

/-- Comparable operands of one kind have an order. -/
theorem of_kind (hx : x.IsComparable) (hy : y.IsComparable) (hkind : x.kind = y.kind) :
    ∃ o, Common x.unwrapped y.unwrapped o := by
  obtain ⟨hscalar, hnumber⟩ := hx
  obtain ⟨-, hnumber'⟩ := hy
  unfold Value.kind at hscalar hkind
  unfold Value.isNaN at hnumber hnumber'
  generalize x.unwrapped = x at *
  generalize y.unwrapped = y at *
  cases x <;> first | (cases hscalar; done) | skip
  all_goals cases y <;> first | (cases hkind; done) | skip
  · exact ⟨_, .bool _ _⟩
  · exact ⟨_, .byte _ _⟩
  · exact ⟨_, .int32 _ _⟩
  · exact ⟨_, .int _ _⟩
  · exact ⟨_, .int64 _ _⟩
  · exact ⟨_, .float32 _ _ hnumber hnumber'⟩
  · exact ⟨_, .float64 _ _ hnumber hnumber'⟩
  · exact ⟨_, .string _ _⟩

end Common

/-- The kind that two numbers or booleans of different kinds are brought to. -/
def widened (k l : Kind) : Kind :=
  let wider := if (operandRank l).getD 0 ≤ (operandRank k).getD 0 then k else l
  if wider = .bool then .byte else wider

section Widening

variable {a b : Value} {k l : Kind}

theorem widened_comm (hk : (operandRank k).isSome = true) (hl : (operandRank l).isSome = true) :
    widened k l = widened l k := by
  cases k <;> first | (cases hk; done) | (cases l <;> first | (cases hl; done) | rfl)

theorem isNumeric_widened (hk : (operandRank k).isSome = true) (hl : (operandRank l).isSome = true) :
    (widened k l).isNumeric = true := by
  cases k <;> first | (cases hk; done) | (cases l <;> first | (cases hl; done) | rfl)

/-- Comparable values other than strings have a place in the widening order. -/
theorem Value.IsComparable.rank (ha : a.IsComparable) (hstring : a.kind ≠ .string) :
    (operandRank a.kind).isSome = true := by
  have hscalar := ha.1
  generalize a.kind = k at *
  cases k <;> first | rfl | (cases hscalar; done) | exact absurd rfl hstring

/-- A comparable value that is no string is a number of every numeric kind. -/
theorem Value.IsComparable.toNumber (ha : a.IsComparable) (hstring : a.kind ≠ .string)
    (hk : k.isNumeric = true) :
    ∃ w, a.unwrapped.toNumber k = .ok w ∧ w.unwrapped = w ∧ w.kind = k ∧ w.IsComparable := by
  obtain ⟨hscalar, hnan⟩ := ha
  have hint : ∃ n, a.unwrapped.toInt64 = .ok n := by
    unfold Value.kind at hscalar hstring
    unfold Value.toInt64
    rw [Value.unwrapped_unwrapped]
    cases hv : a.unwrapped <;> rw [hv] at hscalar hstring <;>
      first | exact ⟨_, rfl⟩ | exact absurd rfl hstring | cases hscalar
  have hfloat : ∃ z, a.unwrapped.toBinary64 = .ok z ∧ z.isNaN = false := by
    obtain ⟨n, hn⟩ := hint
    unfold Value.kind at hstring
    unfold Value.isNaN at hnan
    unfold Value.toBinary64
    rw [Value.unwrapped_unwrapped]
    split
    · rename_i hv
      rw [hv] at hnan
      exact ⟨_, rfl, Binary32.isNaN_toBinary64 hnan⟩
    · rename_i hv
      rw [hv] at hnan
      exact ⟨_, rfl, hnan⟩
    · rename_i hv
      rw [hv] at hstring
      exact absurd rfl hstring
    · rw [hn]
      exact ⟨_, rfl, Binary64.isNaN_ofInt _⟩
  obtain ⟨n, hn⟩ := hint
  obtain ⟨z, hz, hnumber⟩ := hfloat
  cases k <;> first | (cases hk; done) | skip
  all_goals simp only [Value.toNumber, hn, hz, Except.map]
  · exact ⟨_, rfl, rfl, rfl, rfl, rfl⟩
  · exact ⟨_, rfl, rfl, rfl, rfl, rfl⟩
  · exact ⟨_, rfl, rfl, rfl, rfl, rfl⟩
  · exact ⟨_, rfl, rfl, rfl, rfl, rfl⟩
  · exact ⟨_, rfl, rfl, rfl, rfl, Binary64.isNaN_toBinary32 hnumber⟩
  · exact ⟨_, rfl, rfl, rfl, rfl, hnumber⟩

/-- Two numbers or booleans of different kinds are widened. -/
theorem normalize_widened (ha : (operandRank a.kind).isSome = true)
    (hb : (operandRank b.kind).isSome = true) (hkind : a.kind ≠ b.kind) :
    normalize a b = (do
      return (← a.unwrapped.toNumber (widened a.kind b.kind),
        ← b.unwrapped.toNumber (widened a.kind b.kind))) := by
  have hstring : ¬(a.kind = .string ∨ b.kind = .string) := by
    rintro (h | h)
    · rw [h] at ha
      cases ha
    · rw [h] at hb
      cases hb
  obtain ⟨i, hi⟩ := Option.isSome_iff_exists.1 ha
  obtain ⟨j, hj⟩ := Option.isSome_iff_exists.1 hb
  simp only [normalize, Value.kind_unwrapped]
  rw [if_neg hkind, if_neg hstring]
  simp only [hi, hj, widened, Option.getD_some]
  rfl

/-- **Comparable operands are brought to a common kind**, whichever of them comes first. -/
theorem normalize_of_isComparable (ha : a.IsComparable) (hb : b.IsComparable) :
    ∃ x y o, normalize a b = .ok (x, y) ∧ normalize b a = .ok (y, x) ∧ Common x y o ∧
      (a.kind = b.kind → x = a.unwrapped ∧ y = b.unwrapped) ∧
      (a.kind.isNumeric = true → b.kind.isNumeric = true → x.kind.isNumeric = true) := by
  by_cases hkind : a.kind = b.kind
  · obtain ⟨o, ho⟩ := Common.of_kind ha hb hkind
    refine ⟨_, _, o, ?_, ?_, ho, fun _ => ⟨rfl, rfl⟩, fun h _ => ?_⟩
    · simp [normalize, hkind]
    · simp [normalize, hkind]
    · rw [Value.kind_unwrapped, h]
  · by_cases hstring : a.kind = .string ∨ b.kind = .string
    · refine ⟨_, _, _, ?_, ?_, .string a.unwrapped.scalarText b.unwrapped.scalarText,
        fun h => absurd h hkind, fun h h' => ?_⟩
      · simp [normalize, hkind, hstring, ha.1, hb.1]
      · simp [normalize, Ne.symm hkind, hstring.symm, ha.1, hb.1]
      · rcases hstring with hs | hs
        · rw [hs] at h
          cases h
        · rw [hs] at h'
          cases h'
    · obtain ⟨hs, hs'⟩ := not_or.1 hstring
      have hrank := ha.rank hs
      have hrank' := hb.rank hs'
      obtain ⟨x, hx, hxu, hxk, hxc⟩ := ha.toNumber hs (isNumeric_widened hrank hrank')
      obtain ⟨y, hy, hyu, hyk, hyc⟩ := hb.toNumber hs' (isNumeric_widened hrank hrank')
      obtain ⟨o, ho⟩ := Common.of_kind hxc hyc (hxk.trans hyk.symm)
      rw [hxu, hyu] at ho
      refine ⟨x, y, o, ?_, ?_, ho, fun h => absurd h hkind, fun _ _ => ?_⟩
      · rw [normalize_widened hrank hrank' hkind, hx, hy]
        rfl
      · rw [normalize_widened hrank' hrank (Ne.symm hkind), widened_comm hrank' hrank, hx, hy]
        rfl
      · rw [hxk]
        exact isNumeric_widened hrank hrank'

end Widening

/-! ### Order and equality -/

section Order

variable {a b x y : Value} {o : Ordering}

theorem compareScalars_of_common (ha : a.isNull = false) (hb : b.isNull = false)
    (hnormal : normalize a b = .ok (x, y)) (h : Common x y o) : compareScalars a b = .ok o := by
  rw [compareScalars, ha, hb, if_neg (by decide), hnormal]
  cases h with
  | float32 x y hx hy => simp [bind, Except.bind, Binary32.compare?, hx, hy]
  | float64 x y hx hy => simp [bind, Except.bind, Binary64.compare?, hx, hy]
  | _ => rfl

namespace Heap

variable {h : Heap}

/-- Equality of values that are not containers looks at no part of them. -/
theorem equal_of_isScalar (ha : a.kind.isScalar = true) :
    h.equal a b = h.equalPlain a.unwrapped b.unwrapped := by
  unfold Value.kind at ha
  unfold equal
  cases h.depth with
  | zero => rfl
  | succ depth =>
    rw [equalWithin]
    split
    all_goals first | rfl | (rename_i hv _; rw [hv] at ha; cases ha)

/-- Numbers are equal where they are the same after widening. -/
theorem equalPlain_of_isNumeric (ha : a.kind.isNumeric = true) (hb : b.kind.isNumeric = true) :
    h.equalPlain a.unwrapped b.unwrapped =
      match normalize a b with
      | .ok (x, y) => sameNumber x y
      | .error _ => false := by
  have hsame : normalize a b = normalize a.unwrapped b.unwrapped := by
    simp only [normalize, Value.unwrapped_unwrapped]
  rw [hsame]
  unfold Value.kind at ha hb
  generalize a.unwrapped = x at *
  generalize b.unwrapped = y at *
  cases x <;> first | (cases ha; done) | (cases y <;> first | (cases hb; done) | rfl)

/-- Comparable values of different sorts differ. -/
theorem equalPlain_of_not_alike (ha : a.IsComparable) (hb : b.IsComparable)
    (hsort : a.alike b = false) : h.equalPlain a.unwrapped b.unwrapped = false := by
  have hscalar := ha.1
  have hscalar' := hb.1
  unfold Value.alike at hsort
  unfold Value.kind at hscalar hscalar' hsort
  generalize a.unwrapped = x at *
  generalize b.unwrapped = y at *
  cases x <;> first
    | (cases hscalar; done)
    | (cases y <;> first | (cases hscalar'; done) | (cases hsort; done) | rfl)

/-- Strings and booleans are equal where their order is. -/
theorem equalPlain_of_common (hcommon : Common x y o) (hx : x.kind.isNumeric = false) :
    h.equalPlain x y = (o == .eq) := by
  rw [Bool.eq_iff_iff, beq_iff_eq]
  cases hcommon with
  | string x y =>
    rw [compareOfLessAndEq_eq_eq le_refl not_le]
    exact beq_iff_eq
  | bool x y =>
    rw [compare_eq_iff_eq]
    exact beq_iff_eq
  | _ => cases hx

/-- **Equality of comparable values by their order**: they are equal where they are of one sort and the
order finds nothing between them. -/
theorem equal_of_common (ha : a.IsComparable) (hb : b.IsComparable)
    (hnormal : normalize a b = .ok (x, y)) (hcommon : Common x y o) :
    h.equal a b = (a.alike b && o == .eq) := by
  rw [equal_of_isScalar ha.1]
  cases hsort : a.alike b with
  | false => rw [equalPlain_of_not_alike ha hb hsort, Bool.false_and]
  | true =>
    rw [Bool.true_and]
    obtain ⟨x', y', o', hx', -, ho', hsame, hnumber⟩ := normalize_of_isComparable ha hb
    obtain ⟨rfl, rfl⟩ := Prod.mk.inj (Except.ok.inj (hnormal.symm.trans hx'))
    by_cases hnumeric : a.kind.isNumeric = true ∧ b.kind.isNumeric = true
    · rw [equalPlain_of_isNumeric hnumeric.1 hnumeric.2, hnormal]
      exact hcommon.sameNumber_eq (hnumber hnumeric.1 hnumeric.2)
    · have hkind : a.kind = b.kind := by
        rw [Value.alike, Bool.or_eq_true, Bool.and_eq_true, beq_iff_eq] at hsort
        exact hsort.resolve_right hnumeric
      obtain ⟨rfl, rfl⟩ := hsame hkind
      refine equalPlain_of_common hcommon ?_
      rw [Value.kind_unwrapped, Bool.eq_false_iff]
      exact fun hx => hnumeric ⟨hx, hkind ▸ hx⟩

end Heap

/-- **Comparable operands have an order**, it is the other way round for the operands exchanged, and
equality follows it among operands of one sort. -/
theorem exists_order (h : Heap) (ha : a.IsComparable) (hb : b.IsComparable) :
    ∃ o, compareScalars a b = .ok o ∧ compareScalars b a = .ok o.swap ∧
      h.equal a b = (a.alike b && o == .eq) ∧ h.equal b a = (a.alike b && o == .eq) := by
  obtain ⟨x, y, o, hnormal, hnormal', hcommon, -⟩ := normalize_of_isComparable ha hb
  have hsort : b.alike a = a.alike b := by
    rw [Value.alike, Value.alike, Bool.beq_comm, Bool.and_comm]
  refine ⟨o, compareScalars_of_common ha.proper.2 hb.proper.2 hnormal hcommon,
    compareScalars_of_common hb.proper.2 ha.proper.2 hnormal' hcommon.swap,
    Heap.equal_of_common ha hb hnormal hcommon, ?_⟩
  rw [Heap.equal_of_common hb ha hnormal' hcommon.swap, hsort]
  cases o <;> rfl

end Order

/-! ### Instructions -/

namespace Machine

/-- With the operands on top of the stack the instruction takes them and pushes a boolean. Nothing else
of the machine changes. -/
def Tells (m : Machine) (op : Opcode) (a b : Value) (answer : Bool) : Prop :=
  ∀ operand : Value,
    Exec.outcome (Exec.execute ⟨op, operand⟩) (m.onto [a, b]) = (.ok (), m.onto [.bool answer])

section Answers

variable {m : Machine} {a b : Value} (hm : m.context.fp ≤ m.context.stack.size)
  (ha : a.isMarker = false) (hb : b.isMarker = false)

include hm ha hb

/-- The operands of a comparison are taken with nothing else. -/
theorem outcome_popPair {α : Type} (next : Value → Value → Exec α) :
    Exec.outcome (do let b ← Exec.popValue; let a ← Exec.popValue; next a b) (m.onto [a, b])
      = Exec.outcome (next a b) m := by
  rw [onto_cons, Exec.outcome_bind_ok (Exec.outcome_popValue_onto (fp_le_onto hm [a]) hb),
    Exec.outcome_bind_ok (Exec.outcome_popValue_onto hm ha)]

theorem tells_equality (wanted : Bool) :
    Exec.outcome (Exec.equality wanted) (m.onto [a, b])
      = (.ok (), m.onto [.bool (m.world.heap.equal a b == wanted)]) := by
  refine (outcome_popPair hm ha hb _).trans ?_
  rw [Exec.outcome_bind_ok (Exec.outcome_heap m), Exec.outcome_push]
  simp [Machine.onto, Machine.withStack]

theorem tells_compareWith {o : Ordering} (accept : Ordering → Bool)
    (ho : compareScalars a b = .ok o) :
    Exec.outcome (Exec.compareWith accept) (m.onto [a, b]) = (.ok (), m.onto [.bool (accept o)]) := by
  refine (outcome_popPair hm ha hb _).trans ?_
  rw [ho]
  show Exec.outcome (Exec.push _) m = _
  rw [Exec.outcome_push]
  simp [Machine.onto, Machine.withStack]

end Answers

/-- What the six comparisons tell of two operands: whether the first is less, equal or greater. -/
structure Compares (m : Machine) (a b : Value) (less same greater : Bool) : Prop where
  lessThan : m.Tells .lessThan a b less
  equal : m.Tells .equal a b same
  notEqual : m.Tells .notEqual a b !same
  greaterThan : m.Tells .greaterThan a b greater
  lessThanOrEqual : m.Tells .lessThanOrEqual a b !greater
  greaterThanOrEqual : m.Tells .greaterThanOrEqual a b !less

/-- What the six comparisons tell follows from the order and from equality. -/
theorem compares_of_order {m : Machine} {a b : Value} {o : Ordering} {same : Bool}
    (hm : m.context.fp ≤ m.context.stack.size) (ha : a.isMarker = false) (hb : b.isMarker = false)
    (ho : compareScalars a b = .ok o) (hsame : m.world.heap.equal a b = same) :
    m.Compares a b (o == .lt) same (o == .gt) where
  lessThan _ := tells_compareWith hm ha hb _ ho
  equal _ := (tells_equality hm ha hb true).trans (by rw [hsame, beq_true])
  notEqual _ := (tells_equality hm ha hb false).trans (by rw [hsame, beq_false])
  greaterThan _ := tells_compareWith hm ha hb _ ho
  lessThanOrEqual _ := tells_compareWith hm ha hb _ ho
  greaterThanOrEqual _ := tells_compareWith hm ha hb _ ho

/-- **Order and equality agree on operands of one sort.** Of two booleans, numbers or strings exactly one
of less, equal and greater is told, and less or equal is what it says. Operands of different sorts are
never equal, and at most one of them is less. Not to be greater is always less or equal, and exchanged
operands exchange less and greater. -/
theorem comparisons_agree (m : Machine) (hm : m.context.fp ≤ m.context.stack.size) (a b : Value)
    (ha : a.IsComparable) (hb : b.IsComparable) :
    ∃ less same greater : Bool,
      m.Compares a b less same greater ∧ m.Compares b a greater same less ∧
      (a.alike b = true → less.toNat + same.toNat + greater.toNat = 1 ∧
        (!greater) = (less || same) ∧ (!less) = (greater || same)) ∧
      (a.alike b = false → same = false ∧ (less && greater) = false) := by
  obtain ⟨o, ho, ho', hequal, hequal'⟩ := exists_order m.world.heap ha hb
  have hexchanged := compares_of_order hm hb.proper.1 ha.proper.1 ho' hequal'
  refine ⟨o == .lt, a.alike b && o == .eq, o == .gt,
    compares_of_order hm ha.proper.1 hb.proper.1 ho hequal, ?_, ?_, ?_⟩
  · cases o <;> exact hexchanged
  · intro hsort
    rw [hsort]
    cases o <;> decide
  · intro hsort
    rw [hsort, Bool.false_and]
    cases o <;> decide

/-- A machine that compares. -/
def comparer : Machine := (default : Machine).onto [.string "below"]

/-- An integer and a constant float, numbers both: exactly one of the three is told. -/
theorem comparisons_agree_on_numbers :
    comparer.context.fp ≤ comparer.context.stack.size ∧
      (Value.int64 9007199254740993).IsComparable ∧
      (Value.constant (.float64 (.ofInt 9007199254740992))).IsComparable ∧
      ∃ less same greater : Bool,
        comparer.Compares (.int64 9007199254740993) (.constant (.float64 (.ofInt 9007199254740992)))
          less same greater ∧ less.toNat + same.toNat + greater.toNat = 1 := by
  have hm : comparer.context.fp ≤ comparer.context.stack.size := by decide
  have ha : (Value.int64 9007199254740993).IsComparable := by decide
  have hb : (Value.constant (.float64 (.ofInt 9007199254740992))).IsComparable := by decide
  obtain ⟨less, same, greater, hcompares, -, hone, -⟩ := comparisons_agree comparer hm _ _ ha hb
  exact ⟨hm, ha, hb, less, same, greater, hcompares, (hone rfl).1⟩

/-- **A number and its text**: neither is less, and they are not equal. -/
theorem comparisons_disagree_on_text :
    (Value.string "7").IsComparable ∧ (Value.int 7).IsComparable ∧
      comparer.Compares (.string "7") (.int 7) false false false := by
  have hm : comparer.context.fp ≤ comparer.context.stack.size := by decide
  have ho : compareScalars (.string "7") (.int 7) = .ok .eq := by decide
  exact ⟨by decide, by decide, compares_of_order hm rfl rfl ho (by decide)⟩

end Machine

end ScriptMachine
