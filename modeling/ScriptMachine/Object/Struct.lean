import ScriptMachine.Assoc
import ScriptMachine.Value

/-!
# Structs

Struct instances: fields in declaration order and the flags that protect them.

* `StructObject`: the type, the fields, the flags and the count of copies.
* `set`: a program's write, which obeys the flags; a field whose name starts with an underscore is
  written once.
* `setAlways`: a write without checks.
-/

namespace ScriptMachine

/-- A struct instance. -/
structure StructObject where
  type : Ty
  fields : List (String × Value)
  /-- No field may change. -/
  readonly : Bool := false
  /-- No field may be added. -/
  static : Bool := false
  /-- A declared field keeps its declared type. -/
  strong : Bool := false
  /-- How many times the instance was copied from its first ancestor. -/
  replica : Nat := 0
deriving Inhabited

namespace StructObject

variable (s : StructObject)

def get? (name : String) : Option Value := s.fields.lookup name

/-- Whether a value of type `t` suits the declared type of a field. -/
def suits (name : String) (v : Value) (t : Ty) : Bool :=
  match s.type.field? name with
  | some declared => v.isNull || declared.accepts t
  | none => true

/-- A program's write of a value of type `t`. -/
def set (name : String) (v : Value) (t : Ty) : Except Fault StructObject :=
  let present := Assoc.contains name s.fields
  if s.readonly then .error (.about .readOnly name)
  else if name.startsWith "_" && present then .error (.about .readOnly name)
  else if s.static && !present then .error (.about .invalidField name)
  else if s.strong && !s.suits name v t then .error (.about .invalidType name)
  else .ok { s with fields := Assoc.insert name v s.fields }

/-- A write without checks. -/
def setAlways (name : String) (v : Value) : StructObject :=
  { s with fields := Assoc.insert name v s.fields }

/-- The names of the fields, without those hidden by two underscores. -/
def fieldNames : List String := (s.fields.map (·.1)).filter fun n => !n.startsWith "__"

/-- The fields that are shown. -/
def visible : List (String × Value) := s.fields.filter fun p => !p.1.startsWith "__"

@[simp]
theorem get?_setAlways_self (s : StructObject) (name : String) (v : Value) :
    (s.setAlways name v).get? name = some v :=
  Assoc.lookup_insert_self name v s.fields

/-- A read-only struct refuses every write. -/
theorem set_readonly {s : StructObject} (h : s.readonly = true) (name : String) (v : Value)
    (t : Ty) : s.set name v t = .error (.about .readOnly name) := by
  simp [set, h]

end StructObject

end ScriptMachine
