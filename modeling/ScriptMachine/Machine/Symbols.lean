import ScriptMachine.Machine.Exec

/-!
# Names and pointers

The instructions that read and write symbols, and those that open and close blocks.

* `Exec.loadName`, `Exec.storeName`: reading and ordinary assignment.
* `Exec.createAndStore`, `Exec.storeConstant`, `Exec.storeCode`: definitions.
* `Exec.addressOf`, `Exec.dereference`, `Exec.storeThrough`: pointers.
* `Exec.pushScope`, `Exec.popScope`: block scopes.
-/

namespace ScriptMachine

/-- The name under which a value is thrown away. -/
def discardName : String := "_"

/-- What the names of the scopes around package functions begin with. -/
def packageScopeLead : String := "pkg func "

/-- The parts of a name before and after its first point. -/
def splitAtPoint? (name : String) : Option (String × String) :=
  let cs := name.toList
  if cs.contains '.' then
    some (String.ofList (cs.takeWhile (· != '.')), String.ofList ((cs.dropWhile (· != '.')).drop 1))
  else none

/-- The nearest table from `id` on that is no scope around a package function. -/
def Arena.skipPackageScopes (a : Arena) : Nat → TableId → TableId
  | 0, id => id
  | steps + 1, id =>
    match a.table? id with
    | some t =>
      if t.name.startsWith packageScopeLead then
        match t.parent with
        | some p => skipPackageScopes a steps p
        | none => id
      else id
    | none => id

namespace Exec

/-! ### Assignment -/

def loadName (operand : Value) : Exec Unit := do
  push (← lookup (← operandName operand)).unwrapped

/-- In static mode, a variable that is not nil keeps its type. -/
def checkStoreType (name : String) (v : Value) : Exec Unit := do
  let m ← get
  let h := m.world.heap
  if m.context.staticTypes && !v.isNull then
    match m.world.scopes.get? m.context.symbols name with
    | some old =>
      if !old.isNull && !(h.typeOf old).accepts (h.typeOf v) then fail (.about .invalidVarType name)
    | none => return

/-- Assigns to a visible name; one that starts with an underscore is assigned once. -/
def storeName (operand : Value) : Exec Unit := do
  let name ← operandName operand
  let v ← popValue
  if name = discardName then return
  checkStoreType name v
  if name.startsWith "_" && (← lookup? name).isSome then fail (.about .readOnly name)
  store name v

/-- Assigns in the current table, whatever the protection of the name. -/
def storeAlways (operand : Value) : Exec Unit := do
  let name ← operandName operand
  storeHere name (← popValue)

/-- Assigns in the root table. -/
def storeGlobal (operand : Value) : Exec Unit := do
  let name ← operandName operand
  storeIn .root name (← popValue)

/-! ### Definition -/

/-- Defines a name that is new to the current table. -/
def createAndStore (operand : Value) : Exec Unit := do
  let name ← operandName operand
  let v ← popValue
  if name = discardName then return
  create name
  store name v

def createSymbol (operand : Value) : Exec Unit := do create (← operandName operand)

/-- Defines a name unless the current table has it. -/
def createIfMissing (operand : Value) : Exec Unit := do
  let name ← operandName operand
  let m ← get
  if !m.world.scopes.isLocal m.context.symbols name then create name

def deleteSymbol (operand : Value) : Exec Unit := do
  let name ← operandName operand
  setScopes (← (← scopes).delete (← context).symbols name false)

def storeConstant (operand : Value) : Exec Unit := do
  let name ← operandName operand
  let v ← popValue
  setScopes (← (← scopes).setConstant (← context).symbols name (.constant v.unwrapped))

/-- Attaches code to the type bound to a name. -/
def storeMethod (typeName method : String) (code : Code) : Exec Unit := do
  match (← lookup typeName).unwrapped with
  | .type t => do
    note .symbol fun _ => s!"add function {method} to type {t.text}"
    onHeap (Heap.addMethod t method (.code { code with name := method }))
  | v => fail (.about .invalidType v.kindName)

/-- Binds a function body to a name, or attaches it to a type when the name has a point. -/
def storeCode (operand : Value) : Exec Unit := do
  let name ← operandName operand
  match ← popUnwrapped with
  | .code code =>
    match splitAtPoint? name with
    | some (typeName, method) => storeMethod typeName method code
    | none => storeHere name (.code { code with name })
  | _ => fail (.about .invalidType name)

/-! ### Pointers -/

def addressOf (operand : Value) : Exec Unit := do
  let name ← operandName operand
  push (.pointer (← (← scopes).addressOf (← context).symbols name))

def dereference : Exec Unit := do
  match ← popUnwrapped with
  | .null => fail (.bare .nilPointerReference)
  | .pointer p => push (← (← scopes).deref p).unwrapped
  | v => fail (.about .notAPointer v.kindName)

/-- Assigns through the pointer that a name holds. -/
def storeThrough (operand : Value) : Exec Unit := do
  let name ← operandName operand
  match (← lookup name).unwrapped with
  | .null => fail (.about .nilPointerReference name)
  | .pointer p => do
    let v ← popValue
    setScopes (← (← scopes).storeVia p v)
  | v => fail (.about .notAPointer v.kindName)

/-! ### Blocks -/

def pushScope : Exec Unit := do
  let table ← onWorld (World.newChild "block" (← context).symbols false)
  modifyContext fun c => { c with symbols := table, blockDepth := c.blockDepth + 1 }

/-- Closes a block; a scope around a package function is passed over. -/
def popScope : Exec Unit := do
  let current := (← context).symbols
  match (← scopes).parent? current with
  | none => fail (.about .invalidValue "no scope to pop")
  | some parent => do
    onWorld (World.remove current)
    let a ← scopes
    let target := a.skipPackageScopes (a.places.size + 1) parent
    noteThread .symbol fun _ => s!"pop symbol table {current.text} => {target.text}"
    modifyContext fun c => { c with symbols := target, blockDepth := c.blockDepth - 1 }

end Exec

end ScriptMachine
