import ScriptMachine.Proofs.Action.Sequences
import ScriptMachine.Proofs.Operators.Residues

/-!
# Integer operators are exact modulo the kind

What the operators do with integers of any kinds. All of them compute in words of 64 bits; the result
is narrowed to the wider kind of the operands, or for a shift and a negation to the kind of what is
shifted or negated.

* `normalize_words`: two integers are widened to the wider of their kinds, and stay what they are.
* `arithmetic_words`, `bitwise_words`, `raised_words`, `shifted_words`: the operations on numbers.
* `Exec.outcome_add_words` and companions: the instructions push a narrowed word or fail.
* `Machine.Yields`, `Machine.Refuses`: what an instruction computes, and that it fails.
* `Machine.ComputesIntegers`: what all operators do with two integers;
  `integers_exact_modulo_kind`: that is what they do.
-/

namespace ScriptMachine

open Value

variable {a b : Value} {x y : Int64} {n : Int}

/-- An integer of any kind is neither a marker nor nil. -/
theorem Value.Word.proper (h : a.Word x) : a.isMarker = false ∧ a.isNull = false := by
  have hkind := h.isInteger
  constructor
  · cases a with
    | marker l => cases hkind
    | _ => rfl
  · rw [kind] at hkind
    rw [isNull]
    split
    · rename_i hnull
      rw [hnull] at hkind
      cases hkind
    · rfl

theorem Value.Word.unwrapped (h : a.Word x) : a.unwrapped.Word x where
  isInteger := by rw [kind_unwrapped]; exact h.isInteger
  read := by rw [toInt64, unwrapped_unwrapped]; exact h.read
  toInt_eq := by rw [integer, unwrapped_unwrapped]; exact h.toInt_eq
  unwrapped_eq := by rw [unwrapped_unwrapped, kind_unwrapped]; exact h.unwrapped_eq
  holds := by rw [kind_unwrapped]; exact h.holds

/-! ### Operations on numbers -/

namespace Operation

variable {op : Operation}

theorem beq_zero (y : Int64) : (y == 0) = decide (y.toInt = 0) := by
  rw [Bool.eq_iff_iff, beq_iff_eq, decide_eq_true_iff, ← Int64.toInt_inj, Int64.toInt_zero]

theorem onInt64_zero (hop : op.divides = true) (hy : y.toInt = 0) :
    op.onInt64 x y = .error (.bare .divisionByZero) :=
  if_pos (by rw [hop, beq_zero, hy]; rfl)

theorem onInt64_of_ne_zero (hy : y.toInt ≠ 0) : op.onInt64 x y = .ok (
    match op with
    | .add => x + y
    | .sub => x - y
    | .mul => x * y
    | .div => x / y
    | .mod => x % y) :=
  if_neg (by rw [beq_zero, decide_eq_false hy, Bool.and_false]; decide)

end Operation

section Numbers

variable (hx : a.Word x) (hy : b.Word y)

include hx hy

theorem isInteger_wider : (a.kind.wider b.kind).isInteger = true :=
  Kind.isInteger_wider hx.isInteger hy.isInteger

/-- The words of both operands are values of the wider kind. -/
theorem toInt64_widened : (ofInt64 (a.kind.wider b.kind) x).toInt64 = .ok x ∧
    (ofInt64 (a.kind.wider b.kind) y).toInt64 = .ok y :=
  ⟨toInt64_ofInt64 (isInteger_wider hx hy) (Kind.holds_wider_left hx.isInteger hy.isInteger hx.holds),
    toInt64_ofInt64 (isInteger_wider hx hy)
      (Kind.holds_wider_right hx.isInteger hy.isInteger hy.holds)⟩

/-- **Two integers are widened to the wider of their kinds** and stay what they are. -/
theorem normalize_words :
    normalize a b = .ok (ofInt64 (a.kind.wider b.kind) x, ofInt64 (a.kind.wider b.kind) y) := by
  have hk := hx.isInteger
  have hl := hy.isInteger
  have hread := toInt64_ofInt64 hk hx.holds
  have hread' := toInt64_ofInt64 hl hy.holds
  unfold normalize
  simp only [kind_unwrapped]
  split
  · rename_i hsame
    rw [hx.unwrapped_eq, hy.unwrapped_eq, ← hsame, Kind.wider_self]
  · rename_i hdiffer
    rw [hx.unwrapped_eq, hy.unwrapped_eq]
    generalize a.kind = k at *
    generalize b.kind = l at *
    -- Of two different kinds one is wider, and both operands are converted to it.
    cases k <;> cases hk <;> cases l <;> cases hl <;>
      first
      | exact absurd rfl hdiffer
      | (simp only [reduceCtorEq, or_self, if_false, operandRank, Kind.rank, Kind.wider]
         simp [toNumber, hread, hread', Except.map, bind, Except.bind])

/-- The operations on numbers of the wider kind compute in words. -/
theorem arithmetic_words (op : Operation) :
    arithmetic op (ofInt64 (a.kind.wider b.kind) x) (ofInt64 (a.kind.wider b.kind) y)
      = (op.onInt64 x y).map (ofInt64 (a.kind.wider b.kind)) := by
  obtain ⟨hread, hread'⟩ := toInt64_widened hx hy
  have hk := isInteger_wider hx hy
  generalize a.kind.wider b.kind = k at *
  have hkind := kind_ofInt64 hk
  unfold arithmetic
  split
  · rename_i heq heq'
    rw [← hkind x, heq] at hk
    cases hk
  · rename_i heq heq'
    rw [← hkind x, heq] at hk
    cases hk
  · rw [if_pos (by simp [hkind, hk]), hread, hread', hkind]
    rfl

theorem calculate_words (op : Operation) :
    calculate op a b = (op.onInt64 x y).map (ofInt64 (a.kind.wider b.kind)) := by
  rw [calculate, normalize_words hx hy]
  exact arithmetic_words hx hy op

theorem bitwise_words (f : Int64 → Int64 → Int64) :
    bitwise f a b = .ok (ofInt64 (a.kind.wider b.kind) (f x y)) := by
  obtain ⟨hread, hread'⟩ := toInt64_widened hx hy
  have hk := isInteger_wider hx hy
  rw [bitwise, normalize_words hx hy]
  generalize a.kind.wider b.kind = k at *
  show (if _ then _ else _) = _
  rw [if_pos (by rw [kind_ofInt64 hk, hk]), hread, hread', kind_ofInt64 hk]
  rfl

/-- A power of an integer: the exponent is a word of 32 bits without a sign, or too large, or it is
negative and the power a float. -/
theorem raised_words :
    raised (ofInt64 (a.kind.wider b.kind) x) (ofInt64 (a.kind.wider b.kind) y)
      = if y.toInt < 0 then .ok (.float64 ((Binary64.ofInt x.toInt).pow (.ofInt y.toInt)))
        else if y.toInt < 2 ^ 32 then
          .ok (ofInt64 (a.kind.wider b.kind) (powInt64 x y.toInt.toNat))
        else .error (.about .invalidValue (toString y.toInt)) := by
  obtain ⟨hread, hread'⟩ := toInt64_widened hx hy
  have hk := isInteger_wider hx hy
  generalize a.kind.wider b.kind = k at *
  have hkind := kind_ofInt64 hk
  unfold raised
  split
  · rename_i heq heq'
    rw [← hkind x, heq] at hk
    cases hk
  · rename_i heq heq'
    rw [← hkind x, heq] at hk
    cases hk
  · rw [if_pos (by rw [hkind, hk]), hread, hread', hkind]
    have hsign : (y < 0) = (y.toInt < 0) := by
      rw [Int64.lt_iff_toInt_lt, Int64.toInt_zero]
    show (if y < 0 then _ else _) = _
    simp only [hsign]
    rfl

/-- A shift by an amount within the width of a word. -/
theorem shifted_words :
    shifted a b = if y.toInt < -63 ∨ 63 < y.toInt then
      .error (.about .invalidValue s!"bit shift {y.toInt}")
    else .ok (ofInt64 a.kind (if y < 0 then x <<< (-y) else x >>> y)) := by
  unfold shifted
  rw [if_neg (by simp [hx.isInteger]), hx.read, hy.read]
  show (if _ then _ else _ : Except Fault Value) = _
  split <;> rfl

omit hy in
theorem negated_word : negated a.unwrapped = .ok (ofInt64 a.kind (-x)) := by
  rw [hx.unwrapped_eq]
  have hk := hx.isInteger
  have hholds := hx.holds
  generalize a.kind = k at *
  cases k <;> cases hk
  · show Except.ok (Value.byte (-UInt8.ofNat (x.toInt % 256).toNat))
      = .ok (.byte (UInt8.ofNat ((-x).toInt % 256).toNat))
    congr 2
    have hmod : (-x.toInt).bmod (2 ^ 64) % 2 ^ 64 = -x.toInt % 2 ^ 64 := Int.bmod_emod
    rw [← UInt8.toNat_inj, UInt8.toNat_neg, UInt8.toNat_ofNat', UInt8.toNat_ofNat', Int64.toInt_neg]
    simp only [UInt8.size]
    omega
  · show Except.ok (Value.int32 (-x.toInt32)) = .ok (.int32 (-x).toInt32)
    rw [Int64.toInt32_neg]
  · rfl
  · rfl

end Numbers

/-! ### Instructions -/

namespace Exec

/-- The result of an instruction that pushes a value or fails. -/
def answered (m : Machine) : Except Fault Value → Except Halt Unit × Machine
  | .ok v => (.ok (), m.onto [v])
  | .error f => (.error (.fault f), m)

variable {m : Machine} (hm : m.context.fp ≤ m.context.stack.size) (hx : a.Word x) (hy : b.Word y)

theorem outcome_lift_push (r : Except Fault Value) (m : Machine) :
    outcome ((liftM r : Exec Value) >>= push) m = answered m r := by
  cases r with
  | error f => rfl
  | ok v =>
    show outcome (push v) m = _
    rw [outcome_push]
    simp [answered, Machine.onto, Machine.withStack]

include hm hx in
theorem outcome_negate_word :
    outcome negate (m.onto [a]) = answered m (.ok (ofInt64 a.kind (-x))) := by
  rw [negate, outcome_bind_ok (outcome_popUnwrapped_onto hm hx.proper.1)]
  split
  · rename_i harray
    have hk := hx.isInteger
    rw [← kind_unwrapped, harray] at hk
    cases hk
  · rw [outcome_lift_push, negated_word hx]

/-- A match on operands the first of which is an integer takes no branch for another kind. -/
theorem isInteger_of_fst_eq {p : Value × Value} {v w : Value} (hp : p.1.kind.isInteger = true)
    (h : p = (v, w)) : v.kind.isInteger = true := by
  rw [h] at hp
  exact hp

include hx hy

/-- Two integers are widened before an operator looks at them. -/
theorem outcome_normalize_words (next : Value × Value → Exec Unit) :
    outcome ((liftM (normalize a.unwrapped b.unwrapped) : Exec (Value × Value)) >>= next) m
      = outcome (next (ofInt64 (a.kind.wider b.kind) x, ofInt64 (a.kind.wider b.kind) y)) m := by
  rw [normalize_words hx.unwrapped hy.unwrapped, kind_unwrapped, kind_unwrapped]
  rfl

theorem outcome_arithmetic_words (op : Operation) :
    outcome ((liftM (arithmetic op (ofInt64 (a.kind.wider b.kind) x)
      (ofInt64 (a.kind.wider b.kind) y)) : Exec Value) >>= push) m
      = answered m ((op.onInt64 x y).map (ofInt64 (a.kind.wider b.kind))) := by
  rw [outcome_lift_push, arithmetic_words hx hy]

theorem isInteger_widened :
    (ofInt64 (a.kind.wider b.kind) x).kind.isInteger = true := by
  rw [kind_ofInt64 (isInteger_wider hx hy), isInteger_wider hx hy]

include hm

theorem outcome_popOperands_words :
    outcome popOperands (m.onto [a, b]) = (.ok (a.unwrapped, b.unwrapped), m) :=
  outcome_popOperands_onto hm hx.proper.1 hy.proper.1 hx.proper.2 hy.proper.2

theorem outcome_calculateWith_words (op : Operation) :
    outcome (calculateWith op) (m.onto [a, b])
      = answered m ((op.onInt64 x y).map (ofInt64 (a.kind.wider b.kind))) := by
  rw [calculateWith, outcome_bind_ok (outcome_popOperands_words hm hx hy)]
  show outcome ((liftM (calculate op a.unwrapped b.unwrapped) : Exec Value) >>= push) m = _
  rw [outcome_lift_push, calculate_words hx.unwrapped hy.unwrapped, kind_unwrapped, kind_unwrapped]

theorem outcome_add_words :
    outcome add (m.onto [a, b]) = answered m (.ok (ofInt64 (a.kind.wider b.kind) (x + y))) := by
  have hpopped : (a.unwrapped, b.unwrapped).1.kind.isInteger = true := hx.unwrapped.isInteger
  rw [add, outcome_bind_ok (outcome_popOperands_words hm hx hy)]
  -- Integers fall through the branches for faults, arrays and maps, then those for strings and booleans.
  split
  iterate 5
    · rename_i hother
      cases isInteger_of_fst_eq hpopped hother
  · rename_i hlast
    obtain ⟨rfl, rfl⟩ := Prod.mk.inj hlast
    refine (outcome_normalize_words hx hy _).trans ?_
    split
    iterate 2
      · rename_i hother
        cases isInteger_of_fst_eq (isInteger_widened hx hy) hother
    · rename_i hlast
      obtain ⟨rfl, rfl⟩ := Prod.mk.inj hlast
      exact outcome_arithmetic_words hx hy .add

theorem outcome_sub_words :
    outcome sub (m.onto [a, b]) = answered m (.ok (ofInt64 (a.kind.wider b.kind) (x - y))) := by
  have hpopped : (a.unwrapped, b.unwrapped).1.kind.isInteger = true := hx.unwrapped.isInteger
  rw [sub, outcome_bind_ok (outcome_popOperands_words hm hx hy)]
  split
  · rename_i harray
    cases isInteger_of_fst_eq hpopped harray
  · rename_i hlast
    obtain ⟨rfl, rfl⟩ := Prod.mk.inj hlast
    refine (outcome_normalize_words hx hy _).trans ?_
    split
    · rename_i hstring
      cases isInteger_of_fst_eq (isInteger_widened hx hy) hstring
    · rename_i hlast
      obtain ⟨rfl, rfl⟩ := Prod.mk.inj hlast
      exact outcome_arithmetic_words hx hy .sub

theorem outcome_mul_words :
    outcome mul (m.onto [a, b]) = answered m (.ok (ofInt64 (a.kind.wider b.kind) (x * y))) := by
  rw [mul, outcome_bind_ok (outcome_popOperands_words hm hx hy)]
  refine (outcome_normalize_words hx hy _).trans ?_
  split
  · rename_i hbool
    cases isInteger_of_fst_eq (isInteger_widened hx hy) hbool
  · rename_i hlast
    obtain ⟨rfl, rfl⟩ := Prod.mk.inj hlast
    exact outcome_arithmetic_words hx hy .mul

theorem outcome_power_words :
    outcome power (m.onto [a, b]) = answered m (
      if y.toInt < 0 then .ok (.float64 ((Binary64.ofInt x.toInt).pow (.ofInt y.toInt)))
      else if y.toInt < 2 ^ 32 then
        .ok (ofInt64 (a.kind.wider b.kind) (powInt64 x y.toInt.toNat))
      else .error (.about .invalidValue (toString y.toInt))) := by
  rw [power, outcome_bind_ok (outcome_popOperands_words hm hx hy)]
  refine (outcome_normalize_words hx hy _).trans ?_
  show outcome ((liftM (raised _ _) : Exec Value) >>= push) m = _
  rw [outcome_lift_push, raised_words hx hy]

theorem outcome_bitOperator_words (f : Int64 → Int64 → Int64) :
    outcome (bitOperator f) (m.onto [a, b])
      = answered m (.ok (ofInt64 (a.kind.wider b.kind) (f x y))) := by
  rw [bitOperator, outcome_bind_ok (outcome_popOperands_words hm hx hy)]
  show outcome ((liftM (bitwise f a.unwrapped b.unwrapped) : Exec Value) >>= push) m = _
  rw [outcome_lift_push, bitwise_words hx.unwrapped hy.unwrapped, kind_unwrapped, kind_unwrapped]

theorem outcome_bitShift_words :
    outcome bitShift (m.onto [a, b]) = answered m (
      if y.toInt < -63 ∨ 63 < y.toInt then
        .error (.about .invalidValue s!"bit shift {y.toInt}")
      else .ok (ofInt64 a.kind (if y < 0 then x <<< (-y) else x >>> y))) := by
  rw [bitShift, outcome_bind_ok (outcome_popOperands_words hm hx hy)]
  show outcome ((liftM (shifted a.unwrapped b.unwrapped) : Exec Value) >>= push) m = _
  rw [outcome_lift_push, shifted_words hx.unwrapped hy.unwrapped, kind_unwrapped]

end Exec

/-! ### What the instructions compute -/

namespace Machine

/-- With the operands on top of the stack the instruction takes them and pushes the value of an integer
kind that is congruent to an integer. Nothing else of the machine changes. -/
def Yields (m : Machine) (op : Opcode) (operands : List Value) (k : Kind) (n : Int) : Prop :=
  ∃ v : Value, v.Residue k n ∧ ∀ operand : Value,
    Exec.outcome (Exec.execute ⟨op, operand⟩) (m.onto operands) = (.ok (), m.onto [v])

/-- With the operands on top of the stack the instruction takes them and fails. -/
def Refuses (m : Machine) (op : Opcode) (operands : List Value) (kind : FaultKind) : Prop :=
  ∃ f : Fault, f.kind = kind ∧ ∀ operand : Value,
    Exec.outcome (Exec.execute ⟨op, operand⟩) (m.onto operands) = (.error (.fault f), m)

/-- The operators that take two integers. -/
def integerOperators : List Opcode :=
  [.add, .sub, .mul, .div, .modulo, .bitAnd, .bitOr, .exp, .bitShift]

/-- What the operators do with two integers on a machine. A power with a negative exponent is the one
result that is no integer. -/
structure ComputesIntegers (m : Machine) (a b : Value) (k : Kind) (x y : Int) : Prop where
  sum : m.Yields .add [a, b] k (x + y)
  difference : m.Yields .sub [a, b] k (x - y)
  product : m.Yields .mul [a, b] k (x * y)
  conjunction : m.Yields .bitAnd [a, b] k (x.land y)
  disjunction : m.Yields .bitOr [a, b] k (x.lor y)
  quotient : y ≠ 0 → m.Yields .div [a, b] k (x.tdiv y)
  remainder : y ≠ 0 → m.Yields .modulo [a, b] k (x.tmod y)
  noQuotient : y = 0 → m.Refuses .div [a, b] .divisionByZero
  noRemainder : y = 0 → m.Refuses .modulo [a, b] .divisionByZero
  power : 0 ≤ y → y < 2 ^ 32 → m.Yields .exp [a, b] k (x ^ y.toNat)
  noPower : 2 ^ 32 ≤ y → m.Refuses .exp [a, b] .invalidValue
  negative : m.Yields .negate [a] a.kind (-x)
  shiftDown : 0 ≤ y → y ≤ 63 → m.Yields .bitShift [a, b] a.kind (x / 2 ^ y.toNat)
  shiftUp : -63 ≤ y → y < 0 → m.Yields .bitShift [a, b] a.kind (x * 2 ^ (-y).toNat)
  noShift : y < -63 ∨ 63 < y → m.Refuses .bitShift [a, b] .invalidValue
  closed : ∀ op ∈ integerOperators, (op = .exp → 0 ≤ y) →
    (∃ n, m.Yields op [a, b] (if op = .bitShift then a.kind else k) n) ∨
      ∃ kind, m.Refuses op [a, b] kind
  commutes : ∀ op ∈ [Opcode.add, .mul, .bitAnd, .bitOr], ∀ operand : Value,
    Exec.outcome (Exec.execute ⟨op, operand⟩) (m.onto [a, b])
      = Exec.outcome (Exec.execute ⟨op, operand⟩) (m.onto [b, a])

section Answers

variable {m : Machine} {op : Opcode} {operands : List Value} {k : Kind} {z : Int64}

/-- An instruction that pushes a narrowed word computes what the word is congruent to. -/
theorem yields_of_answered (hk : k.isInteger = true) (hz : z.toInt ≡ n [ZMOD 2 ^ 64])
    (h : ∀ operand : Value, Exec.outcome (Exec.execute ⟨op, operand⟩) (m.onto operands)
      = Exec.answered m (.ok (ofInt64 k z))) : m.Yields op operands k n :=
  ⟨_, residue_ofInt64 hk hz, h⟩

theorem refuses_of_answered {f : Fault} (h : ∀ operand : Value,
    Exec.outcome (Exec.execute ⟨op, operand⟩) (m.onto operands) = Exec.answered m (.error f)) :
    m.Refuses op operands f.kind := ⟨f, rfl, h⟩

end Answers

section Answers

variable {m : Machine} (hm : m.context.fp ≤ m.context.stack.size) (hx : a.Word x) (hy : b.Word y)

include hm hx

theorem yields_negate : m.Yields .negate [a] a.kind (-x.toInt) :=
  yields_of_answered hx.isInteger (by rw [Int64.toInt_neg]; exact Int.bmod_emod)
    fun _ => Exec.outcome_negate_word hm hx

include hy

theorem yields_add : m.Yields .add [a, b] (a.kind.wider b.kind) (x.toInt + y.toInt) :=
  yields_of_answered (isInteger_wider hx hy) (by rw [Int64.toInt_add]; exact Int.bmod_emod)
    fun _ => Exec.outcome_add_words hm hx hy

theorem yields_sub : m.Yields .sub [a, b] (a.kind.wider b.kind) (x.toInt - y.toInt) :=
  yields_of_answered (isInteger_wider hx hy) (by rw [Int64.toInt_sub]; exact Int.bmod_emod)
    fun _ => Exec.outcome_sub_words hm hx hy

theorem yields_mul : m.Yields .mul [a, b] (a.kind.wider b.kind) (x.toInt * y.toInt) :=
  yields_of_answered (isInteger_wider hx hy) (by rw [Int64.toInt_mul]; exact Int.bmod_emod)
    fun _ => Exec.outcome_mul_words hm hx hy

theorem yields_bitAnd : m.Yields .bitAnd [a, b] (a.kind.wider b.kind) (x.toInt.land y.toInt) :=
  yields_of_answered (isInteger_wider hx hy)
    (by rw [← Int64.toInt_toBitVec, Int64.toBitVec_and, toInt_and]; rfl)
    fun _ => Exec.outcome_bitOperator_words hm hx hy _

theorem yields_bitOr : m.Yields .bitOr [a, b] (a.kind.wider b.kind) (x.toInt.lor y.toInt) :=
  yields_of_answered (isInteger_wider hx hy)
    (by rw [← Int64.toInt_toBitVec, Int64.toBitVec_or, toInt_or]; rfl)
    fun _ => Exec.outcome_bitOperator_words hm hx hy _

theorem yields_div (hzero : y.toInt ≠ 0) :
    m.Yields .div [a, b] (a.kind.wider b.kind) (x.toInt.tdiv y.toInt) := by
  refine yields_of_answered (z := x / y) (isInteger_wider hx hy)
    (by rw [Int64.toInt_div]; exact Int.bmod_emod) fun _ => ?_
  refine (Exec.outcome_calculateWith_words hm hx hy .div).trans ?_
  rw [Operation.onInt64_of_ne_zero hzero]
  rfl

theorem yields_modulo (hzero : y.toInt ≠ 0) :
    m.Yields .modulo [a, b] (a.kind.wider b.kind) (x.toInt.tmod y.toInt) := by
  refine yields_of_answered (z := x % y) (isInteger_wider hx hy)
    (by rw [Int64.toInt_mod]) fun _ => ?_
  refine (Exec.outcome_calculateWith_words hm hx hy .mod).trans ?_
  rw [Operation.onInt64_of_ne_zero hzero]
  rfl

theorem refuses_zero {op : Opcode} (operation : Operation) (hdivides : operation.divides = true)
    (hop : ∀ operand : Value, Exec.execute ⟨op, operand⟩ = Exec.calculateWith operation)
    (hzero : y.toInt = 0) : m.Refuses op [a, b] .divisionByZero := by
  refine refuses_of_answered (f := .bare .divisionByZero) fun operand => ?_
  rw [hop, Exec.outcome_calculateWith_words hm hx hy, Operation.onInt64_zero hdivides hzero]
  rfl

theorem yields_exp (hlow : 0 ≤ y.toInt) (hhigh : y.toInt < 2 ^ 32) :
    m.Yields .exp [a, b] (a.kind.wider b.kind) (x.toInt ^ y.toInt.toNat) := by
  refine yields_of_answered (isInteger_wider hx hy) (toInt_powInt64 x _) fun _ => ?_
  refine (Exec.outcome_power_words hm hx hy).trans ?_
  rw [if_neg (by omega), if_pos hhigh]

theorem refuses_exp (hhigh : 2 ^ 32 ≤ y.toInt) : m.Refuses .exp [a, b] .invalidValue := by
  refine refuses_of_answered (f := .about .invalidValue (toString y.toInt)) fun _ => ?_
  refine (Exec.outcome_power_words hm hx hy).trans ?_
  rw [if_neg (by omega), if_neg (by omega)]

theorem yields_bitShift_right (hlow : 0 ≤ y.toInt) (hhigh : y.toInt ≤ 63) :
    m.Yields .bitShift [a, b] a.kind (x.toInt / 2 ^ y.toInt.toNat) := by
  refine yields_of_answered (z := x >>> y) hx.isInteger
    (by rw [toInt_shiftRight hlow hhigh]) fun _ => ?_
  refine (Exec.outcome_bitShift_words hm hx hy).trans ?_
  rw [if_neg (by omega), if_neg (by rw [Int64.lt_iff_toInt_lt, Int64.toInt_zero]; omega)]

theorem yields_bitShift_left (hlow : -63 ≤ y.toInt) (hhigh : y.toInt < 0) :
    m.Yields .bitShift [a, b] a.kind (x.toInt * 2 ^ (-y.toInt).toNat) := by
  have hneg : (-y).toInt = -y.toInt := by
    rw [Int64.toInt_neg]
    exact Int.bmod_eq_of_le (by omega) (by omega)
  refine yields_of_answered (z := x <<< (-y)) hx.isInteger ?_ fun _ => ?_
  · rw [← hneg]
    exact toInt_shiftLeft (by omega) (by omega)
  · refine (Exec.outcome_bitShift_words hm hx hy).trans ?_
    rw [if_neg (by omega), if_pos (by rw [Int64.lt_iff_toInt_lt, Int64.toInt_zero]; omega)]

theorem refuses_bitShift (hfar : y.toInt < -63 ∨ 63 < y.toInt) :
    m.Refuses .bitShift [a, b] .invalidValue := by
  refine refuses_of_answered (f := .about .invalidValue s!"bit shift {y.toInt}") fun _ => ?_
  refine (Exec.outcome_bitShift_words hm hx hy).trans ?_
  rw [if_pos hfar]

/-- No operator makes a value of another kind, but for a power with a negative exponent. -/
theorem yields_or_refuses {op : Opcode} (hop : op ∈ integerOperators)
    (hexp : op = .exp → 0 ≤ y.toInt) :
    (∃ n, m.Yields op [a, b] (if op = .bitShift then a.kind else a.kind.wider b.kind) n) ∨
      ∃ kind, m.Refuses op [a, b] kind := by
  simp only [integerOperators, List.mem_cons, List.not_mem_nil, or_false] at hop
  rcases hop with rfl | rfl | rfl | rfl | rfl | rfl | rfl | rfl | rfl
  · exact .inl ⟨_, yields_add hm hx hy⟩
  · exact .inl ⟨_, yields_sub hm hx hy⟩
  · exact .inl ⟨_, yields_mul hm hx hy⟩
  · by_cases hzero : y.toInt = 0
    · exact .inr ⟨_, refuses_zero hm hx hy .div rfl (fun _ => rfl) hzero⟩
    · exact .inl ⟨_, yields_div hm hx hy hzero⟩
  · by_cases hzero : y.toInt = 0
    · exact .inr ⟨_, refuses_zero hm hx hy .mod rfl (fun _ => rfl) hzero⟩
    · exact .inl ⟨_, yields_modulo hm hx hy hzero⟩
  · exact .inl ⟨_, yields_bitAnd hm hx hy⟩
  · exact .inl ⟨_, yields_bitOr hm hx hy⟩
  · by_cases hhigh : y.toInt < 2 ^ 32
    · exact .inl ⟨_, yields_exp hm hx hy (hexp rfl) hhigh⟩
    · exact .inr ⟨_, refuses_exp hm hx hy (by omega)⟩
  · by_cases hfar : y.toInt < -63 ∨ 63 < y.toInt
    · exact .inr ⟨_, refuses_bitShift hm hx hy hfar⟩
    · rcases Int.lt_or_le y.toInt 0 with hlow | hlow
      · exact .inl ⟨_, yields_bitShift_left hm hx hy (by omega) hlow⟩
      · exact .inl ⟨_, yields_bitShift_right hm hx hy hlow (by omega)⟩

/-- The operators whose order of operands does not matter compute the same word of both orders. -/
theorem outcome_swapped {op : Opcode} (hop : op ∈ [Opcode.add, .mul, .bitAnd, .bitOr])
    (operand : Value) :
    Exec.outcome (Exec.execute ⟨op, operand⟩) (m.onto [a, b])
      = Exec.outcome (Exec.execute ⟨op, operand⟩) (m.onto [b, a]) := by
  have hcomm := Kind.wider_comm hx.isInteger hy.isInteger
  simp only [List.mem_cons, List.not_mem_nil, or_false] at hop
  rcases hop with rfl | rfl | rfl | rfl
  · refine (Exec.outcome_add_words hm hx hy).trans (.trans ?_ (Exec.outcome_add_words hm hy hx).symm)
    rw [hcomm, Int64.add_comm]
  · refine (Exec.outcome_mul_words hm hx hy).trans (.trans ?_ (Exec.outcome_mul_words hm hy hx).symm)
    rw [hcomm, Int64.mul_comm]
  · refine (Exec.outcome_bitOperator_words hm hx hy _).trans
      (.trans ?_ (Exec.outcome_bitOperator_words hm hy hx _).symm)
    rw [hcomm, Int64.and_comm]
  · refine (Exec.outcome_bitOperator_words hm hx hy _).trans
      (.trans ?_ (Exec.outcome_bitOperator_words hm hy hx _).symm)
    rw [hcomm, Int64.or_comm]

end Answers

/-- **Integer operators are exact modulo the kind.** Integers of any kinds `a` and `b` stand for `x` and
`y`: sums, differences, products, bitwise operations, powers, quotients and remainders are pushed in the
wider of their kinds, negations and shifts in the kind of what is negated or shifted, and each is
congruent to the exact result modulo two to the width of that kind. A divisor of zero, a shift beyond 63
bits and an exponent of more than 32 bits are refused. -/
theorem integers_exact_modulo_kind (m : Machine) (hm : m.context.fp ≤ m.context.stack.size)
    (a b : Value) (ha : a.kind.isInteger = true) (hb : b.kind.isInteger = true) :
    m.ComputesIntegers a b (a.kind.wider b.kind) a.integer b.integer := by
  obtain ⟨x, hx⟩ := exists_word ha
  obtain ⟨y, hy⟩ := exists_word hb
  rw [← hx.toInt_eq, ← hy.toInt_eq]
  exact
    { sum := yields_add hm hx hy
      difference := yields_sub hm hx hy
      product := yields_mul hm hx hy
      conjunction := yields_bitAnd hm hx hy
      disjunction := yields_bitOr hm hx hy
      quotient := yields_div hm hx hy
      remainder := yields_modulo hm hx hy
      noQuotient := refuses_zero hm hx hy .div rfl fun _ => rfl
      noRemainder := refuses_zero hm hx hy .mod rfl fun _ => rfl
      power := yields_exp hm hx hy
      noPower := refuses_exp hm hx hy
      negative := yields_negate hm hx
      shiftDown := yields_bitShift_right hm hx hy
      shiftUp := yields_bitShift_left hm hx hy
      noShift := refuses_bitShift hm hx hy
      closed := fun _ => yields_or_refuses hm hx hy
      commutes := fun _ => outcome_swapped hm hx hy }

/-- A machine with one value on the stack. -/
def calculator : Machine := (default : Machine).onto [.string "below"]

/-- The least word and minus one of a narrower kind: the quotient does not fit and is the least word. -/
theorem integers_exact_modulo_kind_of_least :
    calculator.context.fp ≤ calculator.context.stack.size ∧
      (Value.int64 Int64.minValue).kind.isInteger = true ∧ (Value.int32 (-1)).kind.isInteger = true ∧
      calculator.ComputesIntegers (.int64 Int64.minValue) (.int32 (-1)) .int64 (-2 ^ 63) (-1) ∧
      calculator.Yields .div [.int64 Int64.minValue, .int32 (-1)] .int64 (2 ^ 63) := by
  have hm : calculator.context.fp ≤ calculator.context.stack.size := by decide
  have hall := integers_exact_modulo_kind calculator hm (.int64 Int64.minValue) (.int32 (-1)) rfl rfl
  exact ⟨hm, rfl, rfl, hall, hall.quotient (by decide)⟩

end Machine

end ScriptMachine
