import ScriptMachine.Machine.Exec

/-!
# Operators

The arithmetic, logical and comparison instructions. Binary operators take the right operand first.

* `arithmetic`: the five operations on numbers of one kind; integers wrap within their kind.
* `negated`, `raised`, `shifted`: the other operations on numbers.
* `Exec.add` and companions: the instructions, which also work on strings, arrays and maps.
-/

namespace ScriptMachine

/-- The operations on two numbers. -/
inductive Operation
  | add
  | sub
  | mul
  | div
  | mod
deriving DecidableEq, Inhabited

namespace Operation

/-- Whether the right operand divides. -/
def divides : Operation → Bool
  | .div | .mod => true
  | _ => false

/-- The operation on integers of 64 bits; division rounds toward zero. -/
def onInt64 (op : Operation) (x y : Int64) : Except Fault Int64 :=
  if op.divides && y == 0 then .error (.bare .divisionByZero)
  else
    .ok <|
      match op with
      | .add => x + y
      | .sub => x - y
      | .mul => x * y
      | .div => x / y
      | .mod => x % y

/-- The operation on floating-point numbers. -/
def onBinary64 (op : Operation) (x y : Binary64) : Except Fault Binary64 :=
  if op.divides && y.isZero then .error (.bare .divisionByZero)
  else
    .ok <|
      match op with
      | .add => x.add y
      | .sub => x.sub y
      | .mul => x.mul y
      | .div => x.div y
      | .mod => x.rem y

end Operation

/-- The fault of an operator that does not take its operands. -/
def unsuited (a b : Value) : Fault := .about .invalidType (kindPair a b)

/-- An operation on two numbers of one kind; single precision is computed in double precision. -/
def arithmetic (op : Operation) (a b : Value) : Except Fault Value :=
  match a, b with
  | .float64 x, .float64 y => (op.onBinary64 x y).map .float64
  | .float32 x, .float32 y =>
    (op.onBinary64 x.toBinary64 y.toBinary64).map fun z => .float32 z.toBinary32
  | a, b =>
    if a.kind.isInteger && a.kind = b.kind then do
      .ok (.ofInt64 a.kind (← op.onInt64 (← a.toInt64) (← b.toInt64)))
    else .error (unsuited a b)

/-- An operation on two operands of any kinds. -/
def calculate (op : Operation) (a b : Value) : Except Fault Value := do
  let (a, b) ← normalize a b
  arithmetic op a b

/-- The power of an integer, modulo 64 bits. -/
def powInt64 (x : Int64) (n : Nat) : Int64 :=
  if n = 0 then 1
  else
    let half := powInt64 x (n / 2)
    if n % 2 = 0 then half * half else half * half * x
termination_by n
decreasing_by omega

/-- The power of two numbers of one kind; a negative exponent makes an integer a float. -/
def raised (a b : Value) : Except Fault Value :=
  match a, b with
  | .float64 x, .float64 y => .ok (.float64 (x.pow y))
  | .float32 x, .float32 y => .ok (.float32 (x.pow y))
  | a, b =>
    if a.kind.isInteger then do
      let x ← a.toInt64
      let y ← b.toInt64
      if y < 0 then .ok (.float64 ((Binary64.ofInt x.toInt).pow (.ofInt y.toInt)))
      else if y.toInt < 0x100000000 then .ok (.ofInt64 a.kind (powInt64 x y.toInt.toNat))
      else .error (.about .invalidValue (toString y.toInt))
    else .error (unsuited a b)

/-- A bitwise operation on two operands of any integer kinds. -/
def bitwise (f : Int64 → Int64 → Int64) (a b : Value) : Except Fault Value := do
  let (a, b) ← normalize a b
  if a.kind.isInteger then .ok (.ofInt64 a.kind (f (← a.toInt64) (← b.toInt64)))
  else .error (unsuited a b)

/-- A value shifted to the right, or by a negative amount to the left. -/
def shifted (value amount : Value) : Except Fault Value := do
  if !value.kind.isInteger then throw (unsuited value amount)
  let n ← amount.toInt64
  if n.toInt < -63 ∨ 63 < n.toInt then
    throw (.about .invalidValue s!"bit shift {n.toInt}")
  let x ← value.toInt64
  return .ofInt64 value.kind (if n < 0 then x <<< (-n) else x >>> n)

/-- The negation of a boolean or a number. -/
def negated (v : Value) : Except Fault Value :=
  match v with
  | .bool b => .ok (.bool !b)
  | .byte n => .ok (.byte (-n))
  | .int32 n => .ok (.int32 (-n))
  | .int n => .ok (.int (-n))
  | .int64 n => .ok (.int64 (-n))
  | .float32 x => .ok (.float32 x.neg)
  | .float64 x => .ok (.float64 x.neg)
  | v => .error (.about .invalidType v.kindName)

/-- Removes every occurrence of a pattern, from left to right; an empty one occurs nowhere. -/
def withoutPattern (pattern : List Char) : List Char → List Char
  | [] => []
  | c :: cs =>
    if pattern.isEmpty then c :: cs
    else if pattern.isPrefixOf (c :: cs) then
      withoutPattern pattern (cs.drop (pattern.length - 1))
    else c :: withoutPattern pattern cs
termination_by cs => cs.length
decreasing_by all_goals simp only [List.length_drop, List.length_cons]; omega

namespace Exec

/-- Takes the right and the left operand, neither of which may be nil. -/
def popOperands : Exec (Value × Value) := do
  let b ← popUnwrapped
  let a ← popUnwrapped
  if a.isNull || b.isNull then fail (unsuited a b) else return (a, b)

/-- In static mode, values added to a typed array must have its element type. -/
def checkElements (element : Ty) (values : List Value) : Exec Unit := do
  let m ← get
  if m.context.staticTypes && !element.isInterface then
    match values.find? fun v => !element.accepts (m.world.heap.typeOf v) with
    | some v => fail (.about .invalidType v.kindName)
    | none => return

/-- A new array of the element type of `r`. -/
def pushLike (r : Ref .array) (values : Array Value) : Exec Unit := do
  let element := ((← heap).array r).element
  push (.array (← onHeap (Heap.newArray { element, values })))

/-- Addition of numbers, and also: joining of strings, arrays and maps, appending to an array, and
disjunction of booleans. -/
def add : Exec Unit := do
  match ← popOperands with
  | (.error f, b) => push (.string (f.message ++ (← display b)))
  | (.array r, .array s) => do
    let h ← heap
    checkElements (h.array r).element (h.array s).values.toList
    pushLike r ((h.array r).values ++ (h.array s).values)
  | (.array r, b) => do
    let h ← heap
    checkElements (h.array r).element [b]
    pushLike r ((h.array r).values.push b)
  | (.map r, .map s) => do
    match ← onHeap (Heap.deepCopy (.map r)) with
    | .map copy => do
      onObjects (Heap.mergeEntries copy s)
      push (.map copy)
    | v => push v
  | (a@(.map _), b) => fail (unsuited a b)
  | (a, b) => do
    match ← normalize a b with
    | (.string x, .string y) => push (.string (x ++ y))
    | (.bool x, .bool y) => push (.bool (x || y))
    | (a, b) => push (← arithmetic .add a b)

/-- Subtraction of numbers, and also removal of equal elements or of a pattern. -/
def sub : Exec Unit := do
  match ← popOperands with
  | (.array r, b) => do
    let h ← heap
    pushLike r ((h.array r).values.filter fun v => !h.equal v b)
  | (a, b) => do
    match ← normalize a b with
    | (.string x, .string y) =>
      push (.string (String.ofList (withoutPattern y.toList x.toList)))
    | (a, b) => push (← arithmetic .sub a b)

/-- Multiplication of numbers and conjunction of booleans. -/
def mul : Exec Unit := do
  let (a, b) ← popOperands
  match ← normalize a b with
  | (.bool x, .bool y) => push (.bool (x && y))
  | (a, b) => push (← arithmetic .mul a b)

/-- An operator that only works on numbers. -/
def calculateWith (op : Operation) : Exec Unit := do
  let (a, b) ← popOperands
  push (← calculate op a b)

def power : Exec Unit := do
  let (a, b) ← popOperands
  let (a, b) ← normalize a b
  push (← raised a b)

def conjunction : Exec Unit := do
  let (a, b) ← popOperands
  let h ← heap
  push (.bool (h.truthy a && h.truthy b))

def disjunction : Exec Unit := do
  let (a, b) ← popOperands
  let h ← heap
  push (.bool (h.truthy a || h.truthy b))

/-- Negation of booleans and numbers; an array is reversed. -/
def negate : Exec Unit := do
  match ← popUnwrapped with
  | .array r => push (.array (← onHeap (Heap.newArray ((← heap).array r).reversed)))
  | v => push (← negated v)

def bitOperator (f : Int64 → Int64 → Int64) : Exec Unit := do
  let (a, b) ← popOperands
  push (← bitwise f a b)

def bitShift : Exec Unit := do
  let (value, amount) ← popOperands
  push (← shifted value amount)

/-- Tells whether the order of two scalars satisfies `accept`. -/
def compareWith (accept : Ordering → Bool) : Exec Unit := do
  let b ← popValue
  let a ← popValue
  push (.bool (accept (← compareScalars a b)))

/-- Tells whether two values are equal, or whether they differ. -/
def equality (wanted : Bool) : Exec Unit := do
  let b ← popValue
  let a ← popValue
  push (.bool ((← heap).equal a b == wanted))

end Exec

end ScriptMachine
