import ScriptMachine.Assoc
import ScriptMachine.Value.Scalar

/-!
# Maps

Typed maps whose entries keep the order of insertion. While a loop walks a map, no key can be
added, but entries can be changed and removed.

The keys are scalars. Integers of every kind are one sort of key, floats of both kinds another, and
the two are compared as double-precision numbers.

* `Key.ofValue`, `Key.toValue`: keys from values, and back in the key type of a map.
* `Key.order`: booleans, then numbers, then strings.
* `Key.digest`: what a key is hashed by.
* `Key.sort`: keys in ascending order.
* `MapObject`: the key and value types, the entries and the freeze count.
* `get`, `set`, `delete`: access by a value that is a key.
* `keys`: the keys in ascending order, as values of the key type.
-/

namespace ScriptMachine

/-! ### Keys -/

/-- The scalars that maps are keyed by. -/
inductive Key
  | bool (b : Bool)
  | int (n : Int64)
  | float (x : Binary64)
  | string (s : String)
deriving DecidableEq, Inhabited

namespace Key

def ofValue (v : Value) : Except Fault Key :=
  match v.unwrapped with
  | .bool b => .ok (.bool b)
  | .string s => .ok (.string s)
  | .float32 x => .ok (.float x.toBinary64)
  | .float64 x => .ok (.float x)
  | u =>
    if u.kind.isNumeric then u.toInt64.map .int
    else .error (.about .invalidType ("map key " ++ u.kindName))

/-- The key as a value of its widest kind. -/
def widest : Key → Value
  | .bool b => .bool b
  | .int n => .int n
  | .float x => .float64 x
  | .string s => .string s

/-- The key as a value of a key type. -/
def toValue (type : Ty) (k : Key) : Value :=
  match k.widest.toScalar type.kind with
  | .ok v => v
  | .error _ => k.widest

/-- Booleans come before numbers and numbers before strings. -/
def rank : Key → Nat
  | .bool _ => 0
  | .int _ | .float _ => 1
  | .string _ => 2

/-- The order of keys; an integer is compared with a float as the nearest float. -/
def order : Key → Key → Ordering
  | .bool a, .bool b => compare a b
  | .int a, .int b => compare a.toInt b.toInt
  | .int a, .float b => compare (Binary64.ofInt a.toInt).totalKey b.totalKey
  | .float a, .int b => compare a.totalKey (Binary64.ofInt b.toInt).totalKey
  | .float a, .float b => compare a.totalKey b.totalKey
  | .string a, .string b => compareOfLessAndEq a b
  | a, b => compare a.rank b.rank

instance : BEq Key := ⟨fun a b => a.order b == .eq⟩

/-- What is fed to the hasher after the rank of a key. -/
inductive Payload
  | bool (b : Bool)
  | bits (w : UInt64)
  | text (s : String)
deriving DecidableEq

/-- The bits of a float with both zeros folded together, so that equal integers and floats are hashed
alike. -/
def foldedBits (x : Binary64) : UInt64 := if x.bits <<< 1 = 0 then 0 else x.bits

/-- The data that a key is hashed by. An integer is hashed as the nearest float. -/
def digest (k : Key) : Nat × Payload :=
  (k.rank,
    match k with
    | .bool b => .bool b
    | .int n => .bits (foldedBits (.ofInt n.toInt))
    | .float x => .bits (foldedBits x)
    | .string s => .text s)

/-- Inserts a key into a descending list, after the keys equal to it. -/
def insertDown (k : Key) : List Key → List Key
  | [] => [k]
  | top :: rest =>
    if k.order top == .lt then top :: insertDown k rest else k :: top :: rest

/-- The keys in ascending order; equal keys keep their order. -/
def sort (ks : List Key) : List Key :=
  (ks.foldl (fun acc k => insertDown k acc) []).reverse

end Key

/-! ### Maps -/

/-- A map: its types, its entries in insertion order and the number of loops that walk it. -/
structure MapObject where
  keyType : Ty
  valueType : Ty
  entries : List (Key × Value) := []
  freezes : Nat := 0
deriving Inhabited

namespace MapObject

variable (m : MapObject)

def isFrozen : Bool := 0 < m.freezes

def size : Nat := m.entries.length

def get (key : Value) : Except Fault (Option Value) := do
  let k ← Key.ofValue key
  .ok (m.entries.lookup k)

/-- The value of a key, nil when the key is absent or no key at all. -/
def getOrNull (key : Value) : Value :=
  match m.get key with
  | .ok (some v) => v
  | _ => .null

/-- Binds a key; `kt` and `vt` are the types of the key and of the value. -/
def set (key value : Value) (kt vt : Ty) : Except Fault MapObject := do
  if !m.keyType.isInterface && !m.keyType.accepts kt then
    throw (.about .typeMismatch ("key " ++ kt.text))
  if !m.valueType.isInterface && !value.isNull && !m.valueType.accepts vt then
    throw (.about .typeMismatch ("value " ++ vt.text))
  let k ← Key.ofValue key
  if m.isFrozen && !Assoc.contains k m.entries then
    throw (.bare .immutableMap)
  return { m with entries := Assoc.insert k value m.entries }

/-- Removes a key; the result tells whether it was bound. -/
def delete (key : Value) : Except Fault (Bool × MapObject) := do
  let k ← Key.ofValue key
  return (Assoc.contains k m.entries, { m with entries := Assoc.erase k m.entries })

/-- The keys in ascending order, as values of the key type. -/
def keys : List Value := (Key.sort (m.entries.map (·.1))).map (Key.toValue m.keyType)

/-- One more, or one less, loop walks the map. -/
def freeze (on : Bool) : MapObject :=
  { m with freezes := if on then m.freezes + 1 else m.freezes - 1 }

end MapObject

end ScriptMachine
