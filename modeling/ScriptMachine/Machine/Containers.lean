import ScriptMachine.Machine.Operators
import ScriptMachine.Text.Bytes

/-!
# Containers

The instructions that build, read and write arrays, maps and structs.

* `Exec.elementAt`, `Exec.storeElement`: one part of a container, by index, key or name.
* `Exec.loadSlice`: a part of an array or a string.
* `Exec.makeArray` and companions: construction from operands.
* `Exec.resolveType`: the type that a value stands for.
-/

namespace ScriptMachine

/-- A value as the bound of a slice. -/
def sliceBound (v : Value) : Except Fault Nat := do
  let n ← v.toInt64
  match n.toInt.toNat? with
  | some bound => return bound
  | none => throw (.about .invalidSliceIndex (toString n.toInt))

/-- A bound of a slice that may be left open. -/
def openBound (v : Value) (whole : Nat) : Except Fault Nat :=
  if v.isNull then .ok whole else sliceBound v

/-- A value as an element type; nil stands for any type. -/
def typeOperand (v : Value) : Except Fault Ty :=
  match v.unwrapped with
  | .type t => .ok t
  | .null => .ok .interface
  | u => .error (.about .invalidType u.kindName)

/-- Consecutive values taken two at a time. -/
def pairUp : List Value → List (Value × Value)
  | a :: b :: rest => (a, b) :: pairUp rest
  | _ => []

/-- The field of a struct literal that names its type. -/
def typeField : String := "__type"

/-- The field of a struct literal that tells whether it is static. -/
def staticField : String := "__static"

/-- The field of a struct literal that tells whether it is read-only. -/
def readonlyField : String := "__readonly"

namespace Exec

/-- The type that a value is, or that the symbol it names holds. -/
def resolveType (v : Value) : Exec Ty := do
  match v.unwrapped with
  | .type t => return t
  | .string name => do
    let found ← lookup? name
    match found.map Value.unwrapped with
    | some (.type t) => return t
    | _ => fail (.about .invalidType name)
  | u => fail (.about .invalidType u.kindName)

/-- Outside static mode, a number that goes to a numeric place takes the kind of the place. -/
def conform (t : Ty) (v : Value) : Exec Value := do
  if (← context).staticTypes || !t.kind.isNumeric || !v.kind.isNumeric then return v
  else onObjects (Heap.coerce t v)

/-! ### Parts of containers -/

/-- The part of a container at an index, a key or a name. A key that is missing in a map reads as
the zero value of the map's value type. -/
def elementAt (container index : Value) : Exec Value := do
  let h ← heap
  match container with
  | .array r => do (h.array r).get (← index.toIndex)
  | .map r => do
    match ← (h.map r).get index with
    | some v => return v
    | none => onHeap (Heap.zeroValue (h.map r).valueType)
  | .struct r => do
    let name := h.display index
    match (h.struct r).get? name with
    | some v => return v
    | none => fail (.about .unknownMember name)
  | .package r => do
    let name := h.display index
    match (h.package r).get? name with
    | some v => return v
    | none => fail (.about .unknownPackageMember name)
  | .string s => do
    let offset ← index.toIndex
    match byteAt? s offset with
    | some b => return .byte b
    | none => fail (.about .arrayIndex (toString offset))
  | v => fail (.about .invalidType v.kindName)

def loadIndex : Exec Unit := do
  let index ← popUnwrapped
  let container ← popUnwrapped
  push (← elementAt container index).unwrapped

/-- Writes a part of a container. -/
def storeElement (container index value : Value) : Exec Unit := do
  match container with
  | .array r => do
    let element := ((← heap).array r).element
    let value ← conform element value
    checkElements element [value]
    onObjects (Heap.setElement r (← index.toIndex) value)
  | .map r => do
    let m := (← heap).map r
    let key ← conform m.keyType index
    let value ← conform m.valueType value
    onObjects (Heap.setEntry r key value)
  | .struct r => do onObjects (Heap.setField r (← display index) value)
  | v => fail (.about .invalidType v.kindName)

/-- Writes with the index on top, the container below it and the value below that. -/
def storeIndex : Exec Unit := do
  let index ← popUnwrapped
  let container ← popUnwrapped
  let value ← popUnwrapped
  storeElement container index value
  push container

/-- Writes with the key on top, the value below it and the container below that. -/
def storeInto : Exec Unit := do
  let key ← popUnwrapped
  let value ← popUnwrapped
  let container ← popUnwrapped
  storeElement container key value
  push container

/-- The bytes of a string from `start` up to `stop`. -/
def sliceString (s : String) (start stop : Nat) : Except Fault Value :=
  if stop < start ∨ s.utf8ByteSize < stop then .error (.about .arrayBounds s!"{start}:{stop}")
  else
    match bytesBetween? s start stop with
    | some part => .ok (.string part)
    | none => .error (.about .invalidSliceIndex s!"{start}:{stop}")

def loadSlice : Exec Unit := do
  let stop ← popUnwrapped
  let start ← sliceBound (← popValue)
  match ← popUnwrapped with
  | .array r => do
    let a := (← heap).array r
    let part ← a.slice start (← openBound stop a.values.size)
    push (.array (← onHeap (Heap.newArray part)))
  | .string s => do
    push (← sliceString s start (← openBound stop s.utf8ByteSize))
  | v => fail (.about .invalidType v.kindName)

/-! ### Construction -/

/-- The element count and the element type that an operand asks for. -/
def arraySpec (operand : Value) : Exec (Nat × Ty) := do
  match operand.unwrapped with
  | .array r => do
    let parts := ((← heap).array r).values.toList
    let count ← ((parts.head?.map Value.toIndex).getD (.ok 0) : Except Fault Nat)
    let element ← ((parts[1]?.map typeOperand).getD (.ok .interface) : Except Fault Ty)
    return (count, element)
  | v => return (← operandCount v 0, .interface)

/-- A new array of the values on the stack. -/
def array (operand : Value) : Exec Unit := do
  let (count, element) ← arraySpec operand
  let values ← popArgs count
  let values ←
    if (← context).staticTypes then do
      checkElements element values
      pure values
    else if element.isInterface then pure values
    else values.mapM fun v => onObjects (Heap.coerce element v)
  push (.array (← onHeap (Heap.newArray { element, values := values.toArray })))

/-- A new array of copies of one value. -/
def makeArray : Exec Unit := do
  let initial ← popUnwrapped
  let size ← (← popValue).toIndex
  let h ← heap
  let element := if initial.isNull then Ty.interface else h.typeOf initial
  push (← onHeap (Heap.filled element size initial))

/-- A new map of the keys and values on the stack. -/
def makeMap (operand : Value) : Exec Unit := do
  let count ← operandCount operand 0
  let entries ← popArgs (count * 2)
  let valueType ← typeOperand (← popValue)
  let keyType ← typeOperand (← popValue)
  let r ← onHeap (Heap.newMap { keyType, valueType })
  for (k, v) in pairUp entries do
    let key ← conform keyType k.unwrapped
    let value ← conform valueType v.unwrapped
    onObjects (Heap.setEntry r key value)
  push (.map r)

/-- A new instance of a struct type with values for some of its fields. -/
def typedStruct (t : Ty) (fields : List (String × Value)) : Exec (Ref .struct) := do
  if t.base.kind ≠ .struct then fail (.about .invalidType t.text)
  else do
    let r ← onHeap (Heap.instantiate t)
    let strong := (← context).staticTypes
    let fresh := (← heap).struct r
    onHeap (Heap.putStruct r { fresh with strong })
    for (name, v) in fields do onObjects (Heap.setField r name v)
    return r

/-- A new struct of the names and values on the stack, of a declared type if they name one. -/
def makeStruct (operand : Value) : Exec Unit := do
  let count ← operandCount operand 0
  let parts := pairUp (← popArgs (count * 2))
  let h ← heap
  let named := parts.foldl
    (fun fields p => Assoc.insert (h.display p.1) p.2.unwrapped fields) ([] : List (String × Value))
  let fields := [typeField, staticField, readonlyField].foldl
    (fun fields name => Assoc.erase name fields) named
  let r ←
    match named.lookup typeField with
    | some v => do typedStruct (← resolveType v) fields
    | none => onHeap (Heap.ofFields fields)
  let s := (← heap).struct r
  let static := ((named.lookup staticField).map h.truthy).getD s.static
  let readonly := ((named.lookup readonlyField).map h.truthy).getD s.readonly
  onHeap (Heap.putStruct r { s with static, readonly })
  push (.struct r)

/-! ### Taking containers apart -/

/-- Binds every key of a map as a name in the current table. -/
def explode : Exec Unit := do
  match ← popUnwrapped with
  | .map r => do
    let m := (← heap).map r
    for key in m.keys do
      let found ← m.get key
      storeHere (← display key) (found.getD .null)
  | _ => fail (.about .invalidType "explode")

/-- Pushes the elements of an array as separate arguments of the next call. -/
def flatten : Exec Unit := do
  match ← popUnwrapped with
  | .array r => do
    let values := ((← heap).array r).values.toList
    modifyContext fun c => { c with extraArgs := c.extraArgs + values.length - 1 }
    for v in values do push v
  | v => push v

end Exec

end ScriptMachine
