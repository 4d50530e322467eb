import ScriptMachine.Text.Case
import ScriptMachine.World
import ScriptMachine.Heap.Coercion

/-!
# The library

What the functions of the library do with their arguments and their receiver. Sorting by a
program's own comparison is left to the machine.

* `Native.apply`: the result of a function.
* `Native.receiver?`: the value a method was fetched from.
-/

namespace ScriptMachine.Native

open WorldAction

/-- The fault of an argument of the wrong kind. -/
def wrongArgument (v : Value) : Fault := .about .argumentType v.kindName

/-- The argument as an array. -/
def arrayArg (v : Value) : WorldAction (Ref .array) :=
  match v.unwrapped with
  | .array r => return r
  | u => fail (wrongArgument u)

/-- The argument as a text. -/
def stringArg (v : Value) : WorldAction String :=
  match v.unwrapped with
  | .string s => return s
  | u => fail (wrongArgument u)

def newArray (a : ArrayObject) : WorldAction Value :=
  return .array (← onHeap (Heap.newArray a))

/-! ### Builtin functions -/

/-- The length of a string in bytes, or the size of a container; zero for nil. -/
def lengthOf (h : Heap) (v : Value) : Except Fault Value :=
  match v with
  | .null => .ok (.ofNat 0)
  | .string s => .ok (.ofNat s.utf8ByteSize)
  | .array r => .ok (.ofNat (h.array r).values.size)
  | .map r => .ok (.ofNat (h.map r).size)
  | .channel r => .ok (.ofNat (h.channel r).count)
  | .struct r => .ok (.ofNat (h.struct r).fieldNames.length)
  | v => .error (.about .invalidType v.kindName)

/-- The elements that an argument contributes to a longer array. -/
def elementsOf (h : Heap) (v : Value) : List Value :=
  match v with
  | .array r => (h.array r).values.toList
  | v => [v]

/-- A new array with the elements of the first argument followed by those of the others. -/
def appended (first : Value) (others : List Value) : WorldAction Value := do
  let h ← heap
  let (element, values) :=
    match first with
    | .array r => ((h.array r).element, (h.array r).values.toList)
    | .null => (Ty.interface, [])
    | v => (Ty.interface, [v])
  let r ← onHeap (Heap.newArray { element, values := #[] })
  for v in values ++ others.flatMap (elementsOf h) do
    let v ← if element.isInterface then pure v else onObjects (Heap.coerce element v)
    onObjects (Heap.appendElement r v)
  return .array r

/-- A new array of zero values, a new channel or a new map. -/
def made (v : Value) (size : Nat) : WorldAction Value := do
  match v with
  | .type t =>
    match t.base.kind with
    | .array => do
      let element := t.base.element
      let zero ← onHeap (Heap.zeroValue element)
      onHeap (Heap.filled element size zero)
    | .channel => return .channel (← onWorld (World.newChannel size))
    | .map => onHeap (Heap.zeroValue t)
    | k => fail (.about .invalidType k.name)
  | v => fail (.about .invalidType v.kindName)

def closed (v : Value) : WorldAction Value := do
  match v with
  | .channel r => return .bool (← onWorld (World.closeChannel r))
  | v => fail (.about .invalidChannel v.kindName)

/-- Removes a key of a map or an element of an array. -/
def deleted (container key : Value) : WorldAction Value := do
  match container with
  | .map r => return .bool (← onObjects (Heap.deleteEntry r key))
  | .array r => do
    let index ← orFail key.toIndex
    let _ ← onObjects (Heap.deleteElement r index)
    return .bool true
  | v => fail (.about .invalidType v.kindName)

/-- The zero value of a type, or a fresh copy of a value. -/
def renewed (v : Value) : StateM Heap Value :=
  match v with
  | .type t => Heap.zeroValue t
  | .struct r => Heap.copyStruct r
  | v => Heap.deepCopy v

/-! ### Package functions -/

/-- Sorts an array by the integers of its elements. -/
def sortedInts (r : Ref .array) : WorldAction Value := do
  let a := (← heap).array r
  let keyed ← orFail (a.values.toList.mapM fun v => v.toInt64.map (·, v))
  let sorted := keyed.mergeSort fun x y => x.1.toInt ≤ y.1.toInt
  onObjects (Heap.replaceElements r (sorted.map (·.2)).toArray)
  return .null

/-- Sorts an array by the texts of its elements. -/
def sortedStrings (r : Ref .array) : WorldAction Value := do
  let h ← heap
  let sorted := (h.array r).values.toList.mergeSort fun x y => h.display x ≤ h.display y
  onObjects (Heap.replaceElements r sorted.toArray)
  return .null

/-- The texts of the elements of an array with a separator between them. -/
def joined (r : Ref .array) (separator : String) : WorldAction Value := do
  let h ← heap
  return .string (separator.intercalate ((h.array r).values.toList.map h.display))

/-! ### Methods -/

/-- What a method finds when its receiver is of another kind. -/
def wrongReceiver (v : Value) : Fault := .about .invalidThis v.kindName

/-- The method of a waiting group, a lock or a channel. -/
def applyShared (f : Native) (this arg : Value) : WorldAction Value := do
  match f, this with
  | .waitGroupAdd, .waitGroup r => do
    adjust r (← orFail arg.toInt64)
    return .null
  | .waitGroupDone, .waitGroup r => do
    adjust r (-1)
    return .null
  | .waitGroupWait, .waitGroup r => do
    awaitZero r
    return .null
  | .mutexLock, .mutex r => do
    lock r
    return .null
  | .mutexUnlock, .mutex r => do
    unlock r
    return .null
  | .channelClose, .channel r => return .bool (← onWorld (World.closeChannel r))
  | .channelLen, .channel r => return .ofNat ((← heap).channel r).count
  | .channelIsOpen, .channel r => return .bool ((← heap).channel r).isOpen
  | _, v => fail (wrongReceiver v)

/-- Appends the arguments one after the other, up to the first fault. -/
def appendAll (r : Ref .array) (args : List Value) : WorldAction Unit := do
  for v in args do
    onObjects (Heap.appendElement r v)

/-- The method of a container or a type. -/
def applyContainer (f : Native) (this : Value) (args : List Value) : WorldAction Value := do
  match f, this with
  | .arrayLen, .array r => return .ofNat ((← heap).array r).values.size
  | .arrayAppend, .array r => do
    appendAll r args
    return .array r
  | .mapKeys, .map r => do
    let m := (← heap).map r
    newArray { element := m.keyType, values := m.keys.toArray }
  | .mapLen, .map r => return .ofNat ((← heap).map r).size
  | .typeString, .type t => return .string t.text
  | _, v => fail (wrongReceiver v)

/-- The receiver a method is bound to. -/
def boundTo (receiver : Option Value) : WorldAction Value :=
  match receiver with
  | some v => return v.unwrapped
  | none => fail (.bare .invalidThis)

/-- The result of a library function for as many arguments as it takes. -/
def apply (f : Native) (receiver : Option Value) (args : List Value) : WorldAction Value := do
  let arg (i : Nat) : Value := args[i]?.getD .null
  let first := (arg 0).unwrapped
  match f with
  | .len => orFail (lengthOf (← heap) first)
  | .append => appended first ((args.drop 1).map (·.unwrapped))
  | .make => do
    let size ← match args[1]? with
      | some v => orFail v.toIndex
      | none => pure 0
    made first size
  | .close => closed first
  | .delete => deleted first (arg 1)
  | .new => onHeap (renewed first)
  | .error => do
    match first with
    | .error f => return .error f
    | v => return .error (.user ((← heap).display v))
  | .sortSlice => return .null
  | .sortInts => do sortedInts (← arrayArg first)
  | .sortStrings => do sortedStrings (← arrayArg first)
  | .toUpper => return .string (upperText (← stringArg first))
  | .toLower => return .string (lowerText (← stringArg first))
  | .join => do
    let r ← arrayArg first
    joined r (← stringArg (arg 1))
  | .waitGroupAdd | .waitGroupDone | .waitGroupWait | .mutexLock | .mutexUnlock
  | .channelClose | .channelLen | .channelIsOpen => do
    applyShared f (← boundTo receiver) (arg 0)
  | .arrayLen | .arrayAppend | .mapKeys | .mapLen | .typeString => do
    applyContainer f (← boundTo receiver) args

end ScriptMachine.Native
