import ScriptMachine.Numeric.Binary
import ScriptMachine.Opcode
import ScriptMachine.Ty
import ScriptMachine.Scope.Handle

/-!
# Values and code

The values of programs and the code that computes with them.

* `Native`: the functions of the library, with their names and argument counts.
* `Value`: scalars are held in place, containers and shared objects by reference.
* `Code`: a function body; its instructions carry values as operands.
-/

namespace ScriptMachine

/-- The functions of the library. -/
inductive Native
  | len
  | append
  | make
  | close
  | delete
  | new
  | error
  | sortSlice
  | sortInts
  | sortStrings
  | toUpper
  | toLower
  | join
  | waitGroupAdd
  | waitGroupDone
  | waitGroupWait
  | mutexLock
  | mutexUnlock
  | channelClose
  | channelLen
  | channelIsOpen
  | arrayLen
  | arrayAppend
  | mapKeys
  | mapLen
  | typeString
deriving DecidableEq, Inhabited

namespace Native

/-- The name a function is called by. -/
def name : Native → String
  | .len => "len"
  | .append => "append"
  | .make => "make"
  | .close => "close"
  | .delete => "delete"
  | .new => "new"
  | .error => "error"
  | .sortSlice => "Slice"
  | .sortInts => "Ints"
  | .sortStrings => "Strings"
  | .toUpper => "ToUpper"
  | .toLower => "ToLower"
  | .join => "Join"
  | .waitGroupAdd => "Add"
  | .waitGroupDone => "Done"
  | .waitGroupWait => "Wait"
  | .mutexLock => "Lock"
  | .mutexUnlock => "Unlock"
  | .channelClose => "Close"
  | .channelLen => "Len"
  | .channelIsOpen => "IsOpen"
  | .arrayLen => "Len"
  | .arrayAppend => "Append"
  | .mapKeys => "Keys"
  | .mapLen => "Len"
  | .typeString => "String"

/-- The least number of arguments, and the greatest if there is one. -/
def arity : Native → Nat × Option Nat
  | .len | .close | .new | .error | .sortInts | .sortStrings | .toUpper | .toLower
  | .waitGroupAdd => (1, some 1)
  | .append => (1, none)
  | .make => (1, some 2)
  | .delete | .sortSlice | .join => (2, some 2)
  | .arrayAppend => (0, none)
  | .waitGroupDone | .waitGroupWait | .mutexLock | .mutexUnlock | .channelClose | .channelLen
  | .channelIsOpen | .arrayLen | .mapKeys | .mapLen | .typeString => (0, some 0)

/-- Whether a function takes `count` arguments. -/
def takes (n : Native) (count : Nat) : Bool :=
  n.arity.1 ≤ count && (n.arity.2.all fun most => count ≤ most)

/-- The functions bound in the root table. -/
def builtins : List Native := [.len, .append, .make, .close, .delete, .new, .error]

def sortFunctions : List Native := [.sortSlice, .sortInts, .sortStrings]

def stringsFunctions : List Native := [.toUpper, .toLower, .join]

/-- The methods of the values of a kind, by name. -/
def methods : Kind → List Native
  | .waitGroup => [.waitGroupAdd, .waitGroupDone, .waitGroupWait]
  | .mutex => [.mutexLock, .mutexUnlock]
  | .channel => [.channelClose, .channelIsOpen, .channelLen]
  | .array => [.arrayAppend, .arrayLen]
  | .map => [.mapKeys, .mapLen]
  | .type => [.typeString]
  | _ => []

def method? (k : Kind) (name : String) : Option Native :=
  (methods k).find? fun n => n.name == name

end Native

/-- A formal parameter. -/
structure Parameter where
  name : String
  type : Ty
deriving Inhabited

/-- The declared signature of a function; a variadic one collects further arguments at its end. -/
structure Declaration where
  name : String
  parameters : List Parameter := []
  returns : List Ty := []
  variadic : Bool := false
deriving Inhabited

mutual

/-- The values of programs. -/
inductive Value where
  | null
  | bool (b : Bool)
  | byte (n : UInt8)
  | int32 (n : Int32)
  | int (n : Int64)
  | int64 (n : Int64)
  | float32 (x : Binary32)
  | float64 (x : Binary64)
  | string (s : String)
  | error (f : Fault)
  | array (r : Ref .array)
  | map (r : Ref .map)
  | struct (r : Ref .struct)
  | package (r : Ref .package)
  | channel (r : Ref .channel)
  | mutex (r : Ref .mutex)
  | waitGroup (r : Ref .waitGroup)
  | pointer (p : Pointer)
  | native (f : Native) (receiver : Option Value)
  | member (package : Ref .package) (code : Code)
  | code (c : Code)
  | type (t : Ty)
  | marker (label : String)
  | constant (v : Value)

/-- An instruction; `null` stands for an absent operand. -/
structure Instruction where
  op : Opcode
  operand : Value

/-- A function body or a program; branch operands are addresses in `ops`. -/
structure Code where
  name : String
  ops : Array Instruction
  declaration : Option Declaration
  isSealed : Bool
  isOptimized : Bool

end

instance : Inhabited Value := ⟨.null⟩

instance : Inhabited Instruction := ⟨⟨default, .null⟩⟩

instance : Inhabited Code := ⟨⟨"", #[], none, false, false⟩⟩

namespace Value

/-- The value without its constant wrappers. -/
def unwrapped : Value → Value
  | .constant v => v.unwrapped
  | v => v

def kind (v : Value) : Kind :=
  match v.unwrapped with
  | .null | .constant _ => .null
  | .bool _ => .bool
  | .byte _ => .byte
  | .int32 _ => .int32
  | .int _ => .int
  | .int64 _ => .int64
  | .float32 _ => .float32
  | .float64 _ => .float64
  | .string _ => .string
  | .error _ => .error
  | .array _ => .array
  | .map _ => .map
  | .struct _ => .struct
  | .package _ => .package
  | .channel _ => .channel
  | .mutex _ => .mutex
  | .waitGroup _ => .waitGroup
  | .pointer _ => .pointer
  | .native .. | .member .. | .code _ => .function
  | .type _ => .type
  | .marker _ => .marker

/-- The name of a value's kind. -/
def kindName (v : Value) : String := v.kind.name

def isNull (v : Value) : Bool :=
  match v.unwrapped with
  | .null => true
  | _ => false

/-- Whether the value is a stack marker; a wrapped marker is not one. -/
def isMarker : Value → Bool
  | .marker _ => true
  | _ => false

/-- The text of a string value. -/
def string? (v : Value) : Option String :=
  match v.unwrapped with
  | .string s => some s
  | _ => none

/-- Whether two values are one and the same container or declared type. -/
def isSame (a b : Value) : Bool :=
  match a.unwrapped, b.unwrapped with
  | .array x, .array y => x = y
  | .map x, .map y => x = y
  | .struct x, .struct y => x = y
  | .package x, .package y => x = y
  | .type x, .type y => x.decl.isSome && x.decl = y.decl
  | _, _ => false

/-- The integer value of a count. -/
def ofNat (n : Nat) : Value := .int (Int64.ofNat n)

@[simp]
theorem unwrapped_unwrapped (v : Value) : v.unwrapped.unwrapped = v.unwrapped := by
  fun_induction unwrapped v with
  | case1 v ih => exact ih
  | case2 v h => cases v <;> simp_all [unwrapped]

@[simp]
theorem kind_unwrapped (v : Value) : v.unwrapped.kind = v.kind := by
  simp [kind]

end Value

/-- The number of instructions. -/
def Code.size (c : Code) : Nat := c.ops.size

/-- An instruction without an operand. -/
def Instruction.plain (op : Opcode) : Instruction := ⟨op, .null⟩

end ScriptMachine
