import ScriptMachine.Numeric.Notation
import ScriptMachine.Value

/-!
# Scalar values

Conversions among numbers, booleans and strings, and the normalization that operators apply to
their operands.

* `toInt64`, `toBinary64`, `toIndex`: the numeric views of a value.
* `toNumber`, `toScalar`: conversion to a kind.
* `normalize`: brings two operands to a common kind.
* `compareScalars`: the order behind the comparison operators.
-/

namespace ScriptMachine

namespace Value

/-- The text of a scalar; other values are shown through the heap. -/
def scalarText : Value → String
  | .bool b => if b then "true" else "false"
  | .byte n => toString n.toNat
  | .int32 n => toString n.toInt
  | .int n | .int64 n => toString n.toInt
  | .float32 x => x.display
  | .float64 x => x.display
  | .string s => s
  | _ => ""

/-- The integer of a number, a boolean or a numeral. -/
def toInt64 (v : Value) : Except Fault Int64 :=
  match v.unwrapped with
  | .bool b => .ok (if b then 1 else 0)
  | .byte n => .ok (Int64.ofNat n.toNat)
  | .int32 n => .ok n.toInt64
  | .int n | .int64 n => .ok n
  | .float32 x => .ok x.toBinary64.toInt64
  | .float64 x => .ok x.toInt64
  | .string s =>
    match readInt64? (trimBlank s) with
    | some n => .ok n
    | none => .error (.about .invalidValue s)
  | v => .error (.about .invalidType v.kindName)

/-- The floating-point number of a number, a boolean or a numeral. -/
def toBinary64 (v : Value) : Except Fault Binary64 :=
  match v.unwrapped with
  | .float32 x => .ok x.toBinary64
  | .float64 x => .ok x
  | .string s =>
    match readBinary64? (trimBlank s) with
    | some x => .ok x
    | none => .error (.about .invalidValue s)
  | v => v.toInt64.map fun n => .ofInt n.toInt

/-- The place named by a number that is not negative. -/
def toIndex (v : Value) : Except Fault Nat :=
  if v.kind.isNumeric then do
    let n ← v.toInt64
    if 0 ≤ n.toInt then .ok n.toInt.toNat else .error (.about .arrayIndex (toString n.toInt))
  else .error (.about .arrayIndex v.kindName)

/-- An integer narrowed to an integer kind, modulo its width. -/
def ofInt64 (k : Kind) (n : Int64) : Value :=
  match k with
  | .byte => .byte (UInt8.ofNat (n.toInt % 256).toNat)
  | .int32 => .int32 n.toInt32
  | .int64 => .int64 n
  | _ => .int n

/-- A byte as a word of 64 bits is the same number. -/
theorem toInt_ofNat_byte (n : UInt8) : (Int64.ofNat n.toNat).toInt = n.toNat := by
  have hlt := n.toNat_lt
  exact Int64.toInt_ofNat_of_lt (by omega)

/-- A byte comes back from a word of 64 bits. -/
theorem ofInt64_byte (n : UInt8) : ofInt64 .byte (Int64.ofNat n.toNat) = .byte n := by
  have hlt := n.toNat_lt
  simp only [ofInt64, toInt_ofNat_byte]
  rw [show ((n.toNat : Int) % 256).toNat = n.toNat by omega, UInt8.ofNat_toNat]

/-- A number or a boolean converted to a numeric kind. -/
def toNumber (v : Value) (k : Kind) : Except Fault Value :=
  match k with
  | .byte | .int32 | .int | .int64 => v.toInt64.map (ofInt64 k)
  | .float32 => v.toBinary64.map fun x => .float32 x.toBinary32
  | .float64 => v.toBinary64.map .float64
  | k => .error (.about .invalidType k.name)

/-- Whether a scalar counts as true; a string does when it spells `true`. -/
def scalarTruthy : Value → Bool
  | .bool b => b
  | .byte n => n != 0
  | .int32 n => n != 0
  | .int n | .int64 n => n != 0
  | .float32 x => !x.isZero
  | .float64 x => !x.isZero
  | .string s => lowerAscii (trimBlank s) == "true"
  | _ => false

/-- A value converted to `bool`. -/
def toBool (v : Value) : Except Fault Value :=
  match v with
  | .string s =>
    let word := lowerAscii (trimBlank s)
    if word == "true" then .ok (.bool true)
    else if word == "false" || word == "" then .ok (.bool false)
    else .error (.about .invalidValue s)
  | v =>
    if v.kind.isNumeric || v.isNull then .ok (.bool v.scalarTruthy)
    else .error (.about .invalidType v.kindName)

/-- A value converted to a scalar kind other than `string`. -/
def toScalar (v : Value) (k : Kind) : Except Fault Value :=
  if v.kind = k then .ok v
  else if k = .bool then v.toBool
  else
    match v with
    | .null => toNumber (.int 0) k
    | .string s =>
      if k = .float32 ∨ k = .float64 then
        match readBinary64? (trimBlank s) with
        | some x => toNumber (.float64 x) k
        | none => .error (.about .invalidValue s)
      else v.toNumber k
    | v => if v.kind.isScalar then v.toNumber k else .error (.about .invalidType v.kindName)

end Value

/-- The kinds of two operands, as faults name them. -/
def kindPair (a b : Value) : String := a.kindName ++ ", " ++ b.kindName

/-- The widening rank of an operand; booleans widen like bytes. -/
def operandRank (k : Kind) : Option Nat := if k = .bool then some 0 else k.rank

/-- Brings two operands to a common kind: a string makes both strings, and of two numbers the
narrower one is widened. -/
def normalize (a b : Value) : Except Fault (Value × Value) :=
  let a := a.unwrapped
  let b := b.unwrapped
  if a.kind = b.kind then .ok (a, b)
  else if a.kind = .string ∨ b.kind = .string then
    if a.kind.isScalar && b.kind.isScalar then .ok (.string a.scalarText, .string b.scalarText)
    else .error (.about .invalidType (kindPair a b))
  else
    match operandRank a.kind, operandRank b.kind with
    | some ra, some rb => do
      let wider := if rb ≤ ra then a.kind else b.kind
      let target := if wider = .bool then .byte else wider
      .ok (← a.toNumber target, ← b.toNumber target)
    | _, _ => .error (.about .invalidType (kindPair a b))

/-- The order of two scalars after normalization; not-a-number counts as equal to every float. -/
def compareScalars (a b : Value) : Except Fault Ordering :=
  if a.isNull || b.isNull then .error (.about .invalidType "nil")
  else do
    match ← normalize a b with
    | (.string x, .string y) => .ok (compareOfLessAndEq x y)
    | (.bool x, .bool y) => .ok (compare x y)
    | (.float32 x, .float32 y) => .ok ((x.compare? y).getD .eq)
    | (.float64 x, .float64 y) => .ok ((x.compare? y).getD .eq)
    | (.byte x, .byte y) => .ok (compare x.toNat y.toNat)
    | (.int32 x, .int32 y) => .ok (compare x.toInt y.toInt)
    | (.int x, .int y) => .ok (compare x.toInt y.toInt)
    | (.int64 x, .int64 y) => .ok (compare x.toInt y.toInt)
    | (x, y) => .error (.about .invalidType (kindPair x y))

/-- Equality of two numbers of one kind. -/
def sameNumber : Value → Value → Bool
  | .byte x, .byte y => x == y
  | .int32 x, .int32 y => x == y
  | .int x, .int y => x == y
  | .int64 x, .int64 y => x == y
  | .float32 x, .float32 y => x.numericEq y
  | .float64 x, .float64 y => x.numericEq y
  | _, _ => false

end ScriptMachine
