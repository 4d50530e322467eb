import ScriptMachine.Machine.Containers

/-!
# Checks and conversions

The instructions at the beginning of functions that check their arguments, and those that check or
convert a value.
-/

namespace ScriptMachine

/-- The name that the arguments of a function are bound to. -/
def argumentsName : String := "__args"

/-- The name that holds the execution mode. -/
def modeName : String := "__exec_mode"

/-- The name that records whether typing is static. -/
def staticTypesName : String := "__static_data_types"

namespace Exec

/-! ### Arguments -/

/-- The arguments of the running function. -/
def arguments : Exec (List Value) := do
  let found ← lookup? argumentsName
  match found.map Value.unwrapped with
  | some (.array r) => return ((← heap).array r).values.toList
  | _ => return []

/-- The most arguments that a bound allows; a negative bound allows any number. -/
def argumentLimit (bound : Value) : Except Fault (Option Nat) := do
  if 0 ≤ (← bound.toInt64).toInt then return some (← bound.toIndex) else return none

/-- How many arguments an operand allows, and the name of the function if it is given. -/
def argumentBounds (operand : Value) : Exec (Nat × Option Nat × String) := do
  match operand.unwrapped with
  | .array r => do
    let h ← heap
    let parts := (h.array r).values.toList
    let least ← ((parts.head?.map Value.toIndex).getD (.ok 0) : Except Fault Nat)
    let most ← ((parts[1]?.map argumentLimit).getD (.ok none) : Except Fault (Option Nat))
    return (least, most, (parts[2]?.map h.display).getD "")
  | v => do
    let count ← v.toIndex
    return (count, some count, "")

def argCheck (operand : Value) : Exec Unit := do
  let (least, most, name) ← argumentBounds operand
  let count := (← arguments).length
  if count < least ∨ most.any (· < count) then fail (.about .argumentCount name)

/-- Pushes the arguments from a position on. -/
def varArgs (operand : Value) : Exec Unit := do
  let first ← operand.toIndex
  pushList ((← arguments).drop first)

/-- Checks the execution mode. -/
def modeCheck (operand : Value) : Exec Unit := do
  let wanted ← operandName operand
  match ← lookup? modeName with
  | none => fail (.about .wrongMode wanted)
  | some mode => if mode.string? ≠ some wanted then fail (.about .wrongMode (← display mode))

/-- Checks that a function left `n` values. -/
def stackCheck (operand : Value) : Exec Unit := do
  let wanted ← operand.toIndex
  let values := (slotValues (← context).operands).reverse
  if values.length < wanted ∨ (values.take wanted).any (·.isMarker) then
    fail (.about .incorrectReturnValueCount (toString wanted))

/-! ### Types -/

/-- The type that an operand stands for. -/
def operandType (operand : Value) : Exec Ty := do
  if operand.isNull then fail (.about .invalidType "nil") else resolveType operand

/-- In static mode the top operand must have a type; otherwise it is converted to it. -/
def requiredType (operand : Value) : Exec Unit := do
  let t ← operandType operand
  let v ← popUnwrapped
  if (← context).staticTypes then
    let found := (← heap).typeOf v
    if !v.isNull && !t.accepts found then
      fail (.about .invalidVarType s!"{found.text} is not {t.text}")
    else push v
  else push (← onObjects (Heap.coerce t v))

/-- Converts the top operand to a type. -/
def coerceTop (operand : Value) : Exec Unit := do
  let t ← operandType operand
  push (← onObjects (Heap.coerce t (← popValue)))

/-- Switches static typing on or off, and records that in the current table. -/
def staticTyping : Exec Unit := do
  let on ← truthy (← popValue)
  modifyContext fun c => { c with staticTypes := on }
  storeHere staticTypesName (.bool on)

end Exec

end ScriptMachine
