import ScriptMachine.Fault

/-!
# Types

Type descriptors. A type that a program declared knows where its receiver functions are kept;
types computed from values have no receiver functions.

* `Kind`: the tags of types and values, with their names.
* `Kind.rank`: the widening order of the numeric kinds.
* `Ref`: references into the stores of the heap.
* `Ty`: descriptors, with their parts and their text.
* `Ty.accepts`: the compatibility used by every type check.
-/

namespace ScriptMachine

/-! ### Kinds -/

/-- The tags of types. -/
inductive Kind
  | undefined
  | null
  | bool
  | byte
  | int32
  | int
  | int64
  | float32
  | float64
  | string
  | error
  | array
  | map
  | struct
  | package
  | channel
  | mutex
  | waitGroup
  | pointer
  | function
  | type
  | marker
  | frame
  | interface
  | varArgs
  | userDefined
deriving DecidableEq, Inhabited

namespace Kind

/-- The name of a kind. -/
def name : Kind → String
  | .undefined => "undefined"
  | .null => "nil"
  | .bool => "bool"
  | .byte => "byte"
  | .int32 => "int32"
  | .int => "int"
  | .int64 => "int64"
  | .float32 => "float32"
  | .float64 => "float64"
  | .string => "string"
  | .error => "error"
  | .array => "array"
  | .map => "map"
  | .struct => "struct"
  | .package => "package"
  | .channel => "chan"
  | .mutex => "sync.Mutex"
  | .waitGroup => "sync.WaitGroup"
  | .pointer => "ptr"
  | .function => "func"
  | .type => "type"
  | .marker => "marker"
  | .frame => "frame"
  | .interface => "interface"
  | .varArgs => "..."
  | .userDefined => "usertype"

/-- Every kind. -/
def all : List Kind :=
  [.undefined, .null, .bool, .byte, .int32, .int, .int64, .float32, .float64, .string, .error,
   .array, .map, .struct, .package, .channel, .mutex, .waitGroup, .pointer, .function, .type,
   .marker, .frame, .interface, .varArgs, .userDefined]

def ofName? (s : String) : Option Kind := all.find? fun k => k.name == s

/-- The place of a numeric kind in the widening order, and none for the others. -/
def rank : Kind → Option Nat
  | .byte => some 0
  | .int32 => some 1
  | .int => some 2
  | .int64 => some 3
  | .float32 => some 4
  | .float64 => some 5
  | _ => none

def isNumeric (k : Kind) : Bool := k.rank.isSome

/-- The integer kinds. -/
def isInteger : Kind → Bool
  | .byte | .int32 | .int | .int64 => true
  | _ => false

/-- The kinds that pair with a string. -/
def isScalar (k : Kind) : Bool := k.isNumeric || k == .bool || k == .string

end Kind

/-! ### Descriptors -/

/-- The stores of the heap. -/
inductive Store
  | array
  | map
  | struct
  | package
  | channel
  | mutex
  | waitGroup
  | methods
deriving DecidableEq, Inhabited

/-- A reference into a store. -/
structure Ref (s : Store) where
  id : Nat
deriving DecidableEq, Inhabited

/-- Where a declared type keeps its receiver functions. -/
abbrev Decl := Option (Ref .methods)

/-- Type descriptors; a `basic` array, map, pointer or user type leaves its parts open. -/
inductive Ty
  | basic (decl : Decl) (kind : Kind)
  | array (decl : Decl) (element : Ty)
  | pointer (decl : Decl) (target : Ty)
  | map (decl : Decl) (key value : Ty)
  | struct (decl : Decl) (fields : List (String × Ty))
  | user (decl : Decl) (name : String) (package : Option String) (base : Ty)
deriving Inhabited

namespace Ty

def kind : Ty → Kind
  | .basic _ k => k
  | .array .. => .array
  | .pointer .. => .pointer
  | .map .. => .map
  | .struct .. => .struct
  | .user .. => .userDefined

def decl : Ty → Decl
  | .basic d _ | .array d _ | .pointer d _ | .map d _ _ | .struct d _ | .user d _ _ _ => d

def ofKind (k : Kind) : Ty := .basic none k

def interface : Ty := ofKind .interface

def isInterface (t : Ty) : Bool := t.kind == .interface

/-- The name of a user type. -/
def name? : Ty → Option String
  | .user _ n _ _ => some n
  | _ => none

/-- The package that declared a user type. -/
def package? : Ty → Option String
  | .user _ _ p _ => p
  | _ => none

/-- The key type of a map type. -/
def key? : Ty → Option Ty
  | .map _ k _ => some k
  | _ => none

/-- The element of an array, the target of a pointer, the value of a map or the base of a user
type. -/
def value? : Ty → Option Ty
  | .array _ t | .pointer _ t | .map _ _ t | .user _ _ _ t => some t
  | _ => none

/-- The element type of a container; an open one holds anything. -/
def element (t : Ty) : Ty := t.value?.getD interface

/-- The declared fields; a user type has those of its base. -/
def fields : Ty → List (String × Ty)
  | .struct _ fs => fs
  | .user _ _ _ base => base.fields
  | _ => []

def field? (t : Ty) (name : String) : Option Ty := t.fields.lookup name

/-- The type under all user names. -/
def base : Ty → Ty
  | .user _ _ _ b => b.base
  | t => t

mutual

/-- Whether a value of the second type may stand where the first is asked for. -/
def accepts (a b : Ty) : Bool :=
  if a.isInterface || b.isInterface then true
  else if a.kind != b.kind then false
  else
    match a, b with
    | .user _ n p _, b => b.name? == some n && b.package? == p
    | .basic _ .userDefined, b => b.name?.isNone
    | .array _ x, .array _ y => x.accepts y
    | .pointer _ x, .pointer _ y => x.accepts y
    | .map _ k v, .map _ l w => k.accepts l && v.accepts w
    | .struct _ fs, .struct _ gs => fs.isEmpty || gs.isEmpty || acceptsFields fs gs
    | _, _ => true

/-- Whether two field lists agree in their names and compatible types. -/
def acceptsFields : List (String × Ty) → List (String × Ty) → Bool
  | [], [] => true
  | (n, t) :: fs, (m, u) :: gs => n == m && t.accepts u && acceptsFields fs gs
  | _, _ => false

end

mutual

/-- The text of a type. -/
def text : Ty → String
  | .basic _ .userDefined => "type"
  | .basic _ .array => "[]interface\x7b\x7d"
  | .basic _ .pointer => "*interface\x7b\x7d"
  | .basic _ .map => "map[interface\x7b\x7d]interface\x7b\x7d"
  | .basic _ .struct => "struct\x7b\x7d"
  | .basic _ .interface => "interface\x7b\x7d"
  | .basic _ k => k.name
  | .array _ t => "[]" ++ t.text
  | .pointer _ t => "*" ++ t.text
  | .map _ k v => "map[" ++ k.text ++ "]" ++ v.text
  | .struct _ fs => "struct\x7b" ++ ", ".intercalate (fieldTexts fs) ++ "\x7d"
  | .user _ n none _ => n
  | .user _ n (some p) _ => p ++ "." ++ n

/-- The texts of fields: name and type. -/
def fieldTexts : List (String × Ty) → List String
  | [] => []
  | (n, t) :: fs => (n ++ " " ++ t.text) :: fieldTexts fs

end

/-- The first name that repeats an earlier one. -/
def repeatedName? : List String → List String → Option String
  | _, [] => none
  | seen, n :: rest => if seen.contains n then some n else repeatedName? (n :: seen) rest

/-- A struct type; its field names must differ. -/
def ofFields (fields : List (String × Ty)) : Except Fault Ty :=
  match repeatedName? [] (fields.map (·.1)) with
  | some name => .error (.about .invalidField name)
  | none => .ok (.struct none fields)

mutual

theorem accepts_refl : ∀ t : Ty, t.accepts t = true
  | .basic _ k => by cases k <;> simp [accepts, kind, isInterface, name?]
  | .array _ t => by simp [accepts, accepts_refl t]
  | .pointer _ t => by simp [accepts, accepts_refl t]
  | .map _ k v => by simp [accepts, accepts_refl k, accepts_refl v]
  | .struct _ fs => by simp [accepts, acceptsFields_refl fs]
  | .user _ n p b => by simp [accepts, name?, package?]

theorem acceptsFields_refl : ∀ fs : List (String × Ty), acceptsFields fs fs = true
  | [] => by simp [acceptsFields]
  | (n, t) :: fs => by simp [acceptsFields, accepts_refl t, acceptsFields_refl fs]

end

end Ty

end ScriptMachine
