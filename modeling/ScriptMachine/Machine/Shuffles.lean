import ScriptMachine.Machine.Exec
import ScriptMachine.Heap.Coercion

/-!
# The operand stack

The instructions that push literals, drop, duplicate and reorder operands.
-/

namespace ScriptMachine.Exec

/-- Pushes a copy of a literal, so that a program cannot change its own code. -/
def pushLiteral (operand : Value) : Exec Unit := do
  push (← onHeap (Heap.deepCopy operand.unwrapped))

/-- Drops `count` operands, up to the first that is missing. -/
def dropMany : Nat → Exec Unit
  | 0 => return
  | count + 1 => do
    discard pop
    dropMany count

def drop (operand : Value) : Exec Unit := do dropMany (← operandCount operand 1)

/-- Drops operands up to and including the nearest marker. -/
def dropToMarkerWithin : Nat → Exec Unit
  | 0 => return
  | steps + 1 => do
    let c ← context
    if c.fp < c.stack.size then
      if !(← pop).isMarker then dropToMarkerWithin steps

def dropToMarker : Exec Unit := do dropToMarkerWithin (← context).stack.size

def duplicate : Exec Unit := do push (← peek)

/-- Replaces the top operand by a deep copy of it. -/
def copyTop : Exec Unit := do
  let v ← pop
  push (← onHeap (Heap.deepCopy v))

def swap : Exec Unit := do
  let upper ← pop
  let lower ← pop
  push upper
  push lower

/-- Without an operand, the top becomes the result; else the value that lies `n` below the top is
pushed once more. -/
def readStack (operand : Value) : Exec Unit := do
  if operand.isNull then
    let v ← popValue
    modifyContext fun c => { c with result := some v }
  else
    let depth ← operand.toIndex
    let values := (slotValues (← context).operands).reverse
    match values[depth]? with
    | some v => push v
    | none => fail (.about .stackUnderflow (toString depth))

end ScriptMachine.Exec
