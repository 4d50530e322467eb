import ScriptMachine.Heap.Display
import ScriptMachine.Heap

/-!
# Copies, zero values and coercion

* `Heap.deepCopy`: arrays, maps and structs get fresh objects all the way down; every other object
  stays shared.
* `Heap.copyStruct`: a deep copy that counts as one more replica.
* `Heap.filled`: an array of copies.
* `Heap.zeroValue`: the value a variable of a type starts with.
* `Heap.instantiate`: a struct of a type, with zero values in its fields.
* `Heap.coerce`: conversion of a value to a type.
* `Heap.ofFields`: a struct whose type is read off its fields.
-/

/-! ### Deep copies -/

namespace ScriptMachine.Heap

/-- Applies a function under the constant wrappers of a value. -/
def underConstants (f : Value → StateM Heap Value) : Value → StateM Heap Value
  | .constant v => do return .constant (← underConstants f v)
  | v => f v

/-- A copy of a value that nests at most `depth` containers; copies are not frozen. -/
def copyWithin : Nat → Value → StateM Heap Value
  | 0, v => pure v
  | depth + 1, v =>
    underConstants (fun u =>
      match u with
      | .array r => do
        let a := (← get).array r
        let values ← a.values.mapM (copyWithin depth)
        return .array (← newArray { element := a.element, values })
      | .map r => do
        let m := (← get).map r
        let entries ← m.entries.mapM fun p => return (p.1, ← copyWithin depth p.2)
        return .map (← newMap { keyType := m.keyType, valueType := m.valueType, entries })
      | .struct r => do
        let s := (← get).struct r
        let fields ← s.fields.mapM fun p => return (p.1, ← copyWithin depth p.2)
        return .struct (← newStruct { s with fields })
      | u => pure u) v

/-- A copy that shares no array, map or struct with the value. -/
def deepCopy (v : Value) : StateM Heap Value := do
  copyWithin (← get).depth v

/-- A deep copy of a struct, counted as one more replica. -/
def copyStruct (r : Ref .struct) : StateM Heap Value := do
  match ← deepCopy (.struct r) with
  | .struct c => do
    let source := (← get).struct r
    let copy := (← get).struct c
    putStruct c { copy with replica := source.replica + 1 }
    return .struct c
  | v => return v

/-- An array of `size` copies of a value. -/
def filled (element : Ty) (size : Nat) (v : Value) : StateM Heap Value := do
  let mut values := #[]
  for _ in [0:size] do
    values := values.push (← deepCopy v)
  return .array (← newArray { element, values })

end ScriptMachine.Heap

/-! ### Zero values and conversions -/

namespace ScriptMachine.Heap

/-- A new instance of a struct type; it is static when the type has fields. -/
def newInstance (t : Ty) (fields : List (String × Value)) : StateM Heap Value :=
  return .struct (← newStruct { type := t, fields, static := !fields.isEmpty })

/-- The zero value of a type that leaves its parts open. -/
def zeroOfKind : Kind → StateM Heap Value
  | .bool => return .bool false
  | .byte => return .byte 0
  | .int32 => return .int32 0
  | .int => return .int 0
  | .int64 => return .int64 0
  | .float32 => return .float32 .zero
  | .float64 => return .float64 .zero
  | .string => return .string ""
  | .array => return .array (← newArray ⟨.interface, #[], 0⟩)
  | .map => return .map (← newMap ⟨.interface, .interface, [], 0⟩)
  | .mutex => return .mutex (← newMutex)
  | .waitGroup => return .waitGroup (← newWaitGroup)
  | .type => return .type (.basic (some (← newMethods)) .interface)
  | _ => return .null

mutual

/-- The zero value of a type. -/
def zeroValue (t : Ty) : StateM Heap Value :=
  match t with
  | .basic _ .struct => newInstance t []
  | .basic _ k => zeroOfKind k
  | .array _ e => return .array (← newArray ⟨e, #[], 0⟩)
  | .pointer .. => return .null
  | .map _ k v => return .map (← newMap ⟨k, v, [], 0⟩)
  | .struct _ fs => do newInstance t (← zeroFields fs)
  | .user _ _ _ b => do
    if b.base.kind = .struct then newInstance t (← zeroFieldsOf b) else zeroValue b

/-- The zero values of the fields that a type declares. -/
def zeroFieldsOf : Ty → StateM Heap (List (String × Value))
  | .struct _ fs => zeroFields fs
  | .user _ _ _ b => zeroFieldsOf b
  | _ => return []

/-- The zero values of fields. -/
def zeroFields : List (String × Ty) → StateM Heap (List (String × Value))
  | [] => return []
  | (name, t) :: rest => do
    let v ← zeroValue t
    return (name, v) :: (← zeroFields rest)

end

/-- A new instance of a type with zero values in its fields; it is static when it has fields. -/
def instantiate (t : Ty) : StateM Heap (Ref .struct) := do
  let fields ← zeroFieldsOf t
  newStruct { type := t, fields, static := !fields.isEmpty }

/-- A value converted to a scalar kind; to a string, by its display text. -/
def coerceScalar (h : Heap) (v : Value) (k : Kind) : Except Fault Value :=
  if v.kind = k then .ok v
  else if k = .string then .ok (.string (h.display v))
  else v.toScalar k

/-- Accepts values of one kind and nil. -/
def ofKindOrNull (v : Value) (k : Kind) : Except Fault Value :=
  if v.kind = k ∨ v.isNull then .ok v else .error (.about .invalidType v.kindName)

/-- Conversion to a type that leaves its parts open. -/
def coerceToKind (v : Value) (k : Kind) : HeapM Value :=
  match k with
  | .interface | .undefined | .channel => return v
  | .byte | .int32 | .int | .int64 | .float32 | .float64 | .string | .bool => do
    coerceScalar (← get) v k
  | .error => do
    match v with
    | .error _ | .null => return v
    | v => return .error (.user ((← get).display v))
  | .array => do
    match v with
    | .array _ => return v
    | .null => newList []
    | v => newList [v]
  | .map => do
    match v with
    | .map _ => return v
    | v => throw (.about .invalidType v.kindName)
  | .struct => do
    match v with
    | .struct _ | .map _ => return v
    | v => throw (.about .invalidType v.kindName)
  | .pointer => do
    match v with
    | .pointer _ | .null => return v
    | v => throw (.about .notAPointer v.kindName)
  | .userDefined => return v
  | .mutex | .waitGroup | .function | .type | .package | .null => ofKindOrNull v k
  | .marker | .frame | .varArgs => throw (.about .invalidType k.name)

/-- Whether a value is a struct that a user type accepts as it stands. -/
def isInstanceOf (h : Heap) (v : Value) (t : Ty) : Bool :=
  match v with
  | .struct r => (h.struct r).type.accepts t
  | _ => false

/-- Conversion of a value without constant wrappers. -/
def coerceUnwrapped (t : Ty) (v : Value) : HeapM Value :=
  match t with
  | .basic _ k => coerceToKind v k
  | .array _ e => do
    match v with
    | .array _ => return v
    | .null => return .array (← newArray ⟨e, #[], 0⟩)
    | v => do
      let w ← coerceUnwrapped e v
      return .array (← newArray ⟨e, #[w], 0⟩)
  | .map .. => coerceToKind v .map
  | .struct .. => coerceToKind v .struct
  | .pointer .. => coerceToKind v .pointer
  | .user _ _ _ b => do
    if (← get).isInstanceOf v t then return v else coerceUnwrapped b v

/-- Conversion of a value to a type. -/
def coerce (t : Ty) (v : Value) : HeapM Value := coerceUnwrapped t v.unwrapped

/-- A struct without a named type; its type lists the types of its fields. -/
def ofFields (fields : List (String × Value)) : StateM Heap (Ref .struct) := do
  let h ← get
  newStruct { type := .struct none (fields.map fun p => (p.1, h.typeOf p.2)), fields }

end ScriptMachine.Heap
