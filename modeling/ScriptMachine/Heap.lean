import ScriptMachine.Object.Array
import ScriptMachine.Object.Map
import ScriptMachine.Object.Struct
import ScriptMachine.Object.Shared

/-!
# The heap

The objects that values refer to. Objects are never freed, so a reference stays valid.

* `Heap`: one store for each sort of object.
* Readers such as `Heap.array`, which give an empty object for a reference from elsewhere.
* `HeapM`: computations that read and write the heap and may fault; writes before a fault stay.
-/

namespace ScriptMachine

/-- The objects that values refer to. -/
structure Heap where
  arrays : Array ArrayObject := #[]
  maps : Array MapObject := #[]
  structs : Array StructObject := #[]
  packages : Array PackageObject := #[]
  channels : Array ChannelObject := #[]
  /-- Whether each mutex is locked. -/
  mutexes : Array Bool := #[]
  /-- The counter of each wait group. -/
  waitGroups : Array Int64 := #[]
  /-- The receiver functions of each declared type. -/
  methods : Array (List (String × Value)) := #[]
deriving Inhabited

namespace Heap

variable (h : Heap)

def array (r : Ref .array) : ArrayObject := h.arrays[r.id]?.getD ⟨.interface, #[], 0⟩

def map (r : Ref .map) : MapObject := h.maps[r.id]?.getD ⟨.interface, .interface, [], 0⟩

def struct (r : Ref .struct) : StructObject :=
  h.structs[r.id]?.getD { type := .ofKind .struct, fields := [] }

def package (r : Ref .package) : PackageObject := h.packages[r.id]?.getD { name := "" }

def channel (r : Ref .channel) : ChannelObject := h.channels[r.id]?.getD (.ofCapacity 1)

def isLocked (r : Ref .mutex) : Bool := h.mutexes[r.id]?.getD false

def waitCount (r : Ref .waitGroup) : Int64 := h.waitGroups[r.id]?.getD 0

/-- An upper bound on how deep containers nest. -/
def depth : Nat := h.arrays.size + h.maps.size + h.structs.size + 1

/-- The receiver functions of one declaration. -/
def declared (d : Decl) : List (String × Value) :=
  match d with
  | some r => h.methods[r.id]?.getD []
  | none => []

/-- A receiver function of a type; a user type has those of its base as well. -/
def method? : Ty → String → Option Value
  | .user d _ _ b, name => (h.declared d).lookup name |>.orElse fun _ => method? b name
  | t, name => (h.declared t.decl).lookup name

/-- The names of the receiver functions of a declared type, in ascending order. -/
def methodNames (t : Ty) : List String :=
  ((h.declared t.decl).map (·.1)).mergeSort fun a b => a ≤ b

/-- The full type of a value. -/
def typeOf (v : Value) : Ty :=
  match v.unwrapped with
  | .array r => .array none (h.array r).element
  | .map r => .map none (h.map r).keyType (h.map r).valueType
  | .struct r => (h.struct r).type
  | .pointer _ => .pointer none .interface
  | u => .ofKind u.kind

/-- Whether a value counts as true. -/
def truthy (v : Value) : Bool :=
  match v.unwrapped with
  | .array r => !(h.array r).values.isEmpty
  | .map r => !(h.map r).entries.isEmpty
  | u => if u.kind.isScalar || u.isNull then u.scalarTruthy else true

/-- The name of a function. -/
def functionName (v : Value) : String :=
  match v with
  | .native f _ => f.name
  | .member p c => (h.package p).name ++ "." ++ c.name
  | .code c => c.name
  | _ => ""

end Heap

/-- Computations on the heap that may fault. -/
abbrev HeapM := ExceptT Fault (StateM Heap)

namespace Heap

def newArray (a : ArrayObject) : StateM Heap (Ref .array) :=
  modifyGet fun h => (⟨h.arrays.size⟩, { h with arrays := h.arrays.push a })

def newMap (m : MapObject) : StateM Heap (Ref .map) :=
  modifyGet fun h => (⟨h.maps.size⟩, { h with maps := h.maps.push m })

def newStruct (s : StructObject) : StateM Heap (Ref .struct) :=
  modifyGet fun h => (⟨h.structs.size⟩, { h with structs := h.structs.push s })

def newPackage (p : PackageObject) : StateM Heap (Ref .package) :=
  modifyGet fun h => (⟨h.packages.size⟩, { h with packages := h.packages.push p })

def newChannel (c : ChannelObject) : StateM Heap (Ref .channel) :=
  modifyGet fun h => (⟨h.channels.size⟩, { h with channels := h.channels.push c })

def newMutex : StateM Heap (Ref .mutex) :=
  modifyGet fun h => (⟨h.mutexes.size⟩, { h with mutexes := h.mutexes.push false })

def newWaitGroup : StateM Heap (Ref .waitGroup) :=
  modifyGet fun h => (⟨h.waitGroups.size⟩, { h with waitGroups := h.waitGroups.push 0 })

/-- A place for the receiver functions of a new declaration. -/
def newMethods : StateM Heap (Ref .methods) :=
  modifyGet fun h => (⟨h.methods.size⟩, { h with methods := h.methods.push [] })

def putArray (r : Ref .array) (a : ArrayObject) : StateM Heap Unit :=
  modify fun h => { h with arrays := h.arrays.setIfInBounds r.id a }

def putMap (r : Ref .map) (m : MapObject) : StateM Heap Unit :=
  modify fun h => { h with maps := h.maps.setIfInBounds r.id m }

def putStruct (r : Ref .struct) (s : StructObject) : StateM Heap Unit :=
  modify fun h => { h with structs := h.structs.setIfInBounds r.id s }

def putPackage (r : Ref .package) (p : PackageObject) : StateM Heap Unit :=
  modify fun h => { h with packages := h.packages.setIfInBounds r.id p }

def putChannel (r : Ref .channel) (c : ChannelObject) : StateM Heap Unit :=
  modify fun h => { h with channels := h.channels.setIfInBounds r.id c }

def putLocked (r : Ref .mutex) (b : Bool) : StateM Heap Unit :=
  modify fun h => { h with mutexes := h.mutexes.setIfInBounds r.id b }

def putWaitCount (r : Ref .waitGroup) (n : Int64) : StateM Heap Unit :=
  modify fun h => { h with waitGroups := h.waitGroups.setIfInBounds r.id n }

/-- Adds a receiver function to a declared type. -/
def addMethod (t : Ty) (name : String) (f : Value) : StateM Heap Unit :=
  match t.decl with
  | some r => modify fun h =>
    { h with methods := h.methods.modify r.id (Assoc.insert name f) }
  | none => pure ()

/-- A new array of values that fit any type. -/
def newList (values : List Value) : StateM Heap Value :=
  return .array (← newArray ⟨.interface, values.toArray, 0⟩)

/-- Writes an element of an array. -/
def setElement (r : Ref .array) (index : Nat) (v : Value) : HeapM Unit := do
  let h ← get
  putArray r (← (h.array r).set index v (h.typeOf v))

/-- Appends an element to an array. -/
def appendElement (r : Ref .array) (v : Value) : HeapM Unit := do
  let h ← get
  putArray r (← (h.array r).append v (h.typeOf v))

/-- Removes an element of an array. -/
def deleteElement (r : Ref .array) (index : Nat) : HeapM Value := do
  let (v, a) ← ((← get).array r).delete index
  putArray r a
  return v

/-- Other elements in place of those of an array. -/
def replaceElements (r : Ref .array) (values : Array Value) : HeapM Unit := do
  putArray r (← ((← get).array r).replaceAll values)

/-- Binds a key of a map. -/
def setEntry (r : Ref .map) (key value : Value) : HeapM Unit := do
  let h ← get
  putMap r (← (h.map r).set key value (h.typeOf key) (h.typeOf value))

/-- Removes a key of a map; the result tells whether it was bound. -/
def deleteEntry (r : Ref .map) (key : Value) : HeapM Bool := do
  let (present, m) ← ((← get).map r).delete key
  putMap r m
  return present

/-- Binds every key of `source` in `r`, in ascending order, up to the first fault. -/
def mergeEntries (r source : Ref .map) : HeapM Unit := do
  if r = source then return
  let m := (← get).map source
  for key in m.keys do
    let value := (← m.get key).getD .null
    setEntry r key value

/-- A program's write of a field. -/
def setField (r : Ref .struct) (name : String) (v : Value) : HeapM Unit := do
  let h ← get
  putStruct r (← (h.struct r).set name v (h.typeOf v))

end Heap

end ScriptMachine
