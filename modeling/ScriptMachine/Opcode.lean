/-!
# Instruction opcodes

The instruction set of the machine.

* `Opcode`: the opcodes in numeric order; those after `branchInstructions` carry an address.
* `Opcode.name`, `Opcode.ofName?`: the names used in listings and by assemblers.
* `Opcode.code`, `Opcode.ofCode?`: the numbering.
-/

namespace ScriptMachine

/-- The opcodes, in numeric order. -/
inductive Opcode
  | stop
  | atLine
  | add
  | addressOf
  | and
  | argCheck
  | array
  | auth
  | bitAnd
  | bitOr
  | bitShift
  | call
  | coerce
  | constant
  | copy
  | createAndStore
  | defer
  | dereference
  | div
  | drop
  | dropToMarker
  | dup
  | entryPoint
  | equal
  | exp
  | explode
  | flatten
  | fromFile
  | getThis
  | getVarArgs
  | go
  | greaterThan
  | greaterThanOrEqual
  | import
  | inFile
  | inPackage
  | lessThan
  | lessThanOrEqual
  | load
  | loadIndex
  | loadSlice
  | loadThis
  | log
  | makeArray
  | makeMap
  | member
  | modeCheck
  | modulo
  | mul
  | negate
  | newline
  | noOperation
  | notEqual
  | or
  | panic
  | popPackage
  | popScope
  | print
  | push
  | pushPackage
  | pushScope
  | rangeInit
  | readStack
  | requiredType
  | response
  | return
  | say
  | setThis
  | stackCheck
  | staticTyping
  | store
  | storeAlways
  | storeBytecode
  | storeChan
  | storeGlobal
  | storeIndex
  | storeInto
  | storeViaPointer
  | struct
  | sub
  | swap
  | symbolCreate
  | symbolDelete
  | symbolOptCreate
  | template
  | timer
  | tryPop
  | wait
  | willCatch
  | branchInstructions
  | branch
  | branchTrue
  | branchFalse
  | localCall
  | rangeNext
  | try
deriving DecidableEq, Inhabited

namespace Opcode

/-- The name shown in listings. -/
def name : Opcode → String
  | .stop => "Stop"
  | .atLine => "AtLine"
  | .add => "Add"
  | .addressOf => "AddressOf"
  | .and => "And"
  | .argCheck => "ArgCheck"
  | .array => "Array"
  | .auth => "Auth"
  | .bitAnd => "BitAnd"
  | .bitOr => "BitOr"
  | .bitShift => "BitShift"
  | .call => "Call"
  | .coerce => "Coerce"
  | .constant => "Constant"
  | .copy => "Copy"
  | .createAndStore => "CreateAndStore"
  | .defer => "Defer"
  | .dereference => "DeRef"
  | .div => "Div"
  | .drop => "Drop"
  | .dropToMarker => "DropToMarker"
  | .dup => "Dup"
  | .entryPoint => "EntryPoint"
  | .equal => "Equal"
  | .exp => "Exp"
  | .explode => "Explode"
  | .flatten => "Flatten"
  | .fromFile => "FromFile"
  | .getThis => "GetThis"
  | .getVarArgs => "GetVarArgs"
  | .go => "Go"
  | .greaterThan => "GT"
  | .greaterThanOrEqual => "GTEQ"
  | .import => "Import"
  | .inFile => "InFile"
  | .inPackage => "InPackage"
  | .lessThan => "LT"
  | .lessThanOrEqual => "LTEQ"
  | .load => "Load"
  | .loadIndex => "LoadIndex"
  | .loadSlice => "LoadSlice"
  | .loadThis => "LoadThis"
  | .log => "Log"
  | .makeArray => "MakeArray"
  | .makeMap => "MakeMap"
  | .member => "Member"
  | .modeCheck => "ModeCheck"
  | .modulo => "Modulo"
  | .mul => "Mul"
  | .negate => "Negate"
  | .newline => "Newline"
  | .noOperation => "NoOperation"
  | .notEqual => "NotEqual"
  | .or => "Or"
  | .panic => "Panic"
  | .popPackage => "PopPackage"
  | .popScope => "PopScope"
  | .print => "Print"
  | .push => "Push"
  | .pushPackage => "PushPackage"
  | .pushScope => "PushScope"
  | .rangeInit => "RangeInit"
  | .readStack => "ReadStack"
  | .requiredType => "RequiredType"
  | .response => "Response"
  | .return => "Return"
  | .say => "Say"
  | .setThis => "SetThis"
  | .stackCheck => "StackCheck"
  | .staticTyping => "StaticTyping"
  | .store => "Store"
  | .storeAlways => "StoreAlways"
  | .storeBytecode => "StoreBytecode"
  | .storeChan => "StoreChan"
  | .storeGlobal => "StoreGlobal"
  | .storeIndex => "StoreIndex"
  | .storeInto => "StoreInto"
  | .storeViaPointer => "StoreViaPointer"
  | .struct => "Struct"
  | .sub => "Sub"
  | .swap => "Swap"
  | .symbolCreate => "SymbolCreate"
  | .symbolDelete => "SymbolDelete"
  | .symbolOptCreate => "SymbolOptCreate"
  | .template => "Template"
  | .timer => "Timer"
  | .tryPop => "TryPop"
  | .wait => "Wait"
  | .willCatch => "WillCatch"
  | .branchInstructions => "BranchInstructions"
  | .branch => "Branch"
  | .branchTrue => "BranchTrue"
  | .branchFalse => "BranchFalse"
  | .localCall => "LocalCall"
  | .rangeNext => "RangeNext"
  | .try => "Try"

/-- Every opcode, in numeric order. -/
def all : List Opcode :=
  [.stop, .atLine, .add, .addressOf, .and, .argCheck, .array, .auth, .bitAnd, .bitOr, .bitShift,
   .call, .coerce, .constant, .copy, .createAndStore, .defer, .dereference, .div, .drop,
   .dropToMarker, .dup, .entryPoint, .equal, .exp, .explode, .flatten, .fromFile, .getThis,
   .getVarArgs, .go, .greaterThan, .greaterThanOrEqual, .import, .inFile, .inPackage, .lessThan,
   .lessThanOrEqual, .load, .loadIndex, .loadSlice, .loadThis, .log, .makeArray, .makeMap,
   .member, .modeCheck, .modulo, .mul, .negate, .newline, .noOperation, .notEqual, .or, .panic,
   .popPackage, .popScope, .print, .push, .pushPackage, .pushScope, .rangeInit, .readStack,
   .requiredType, .response, .return, .say, .setThis, .stackCheck, .staticTyping, .store,
   .storeAlways, .storeBytecode, .storeChan, .storeGlobal, .storeIndex, .storeInto,
   .storeViaPointer, .struct, .sub, .swap, .symbolCreate, .symbolDelete, .symbolOptCreate,
   .template, .timer, .tryPop, .wait, .willCatch, .branchInstructions, .branch, .branchTrue,
   .branchFalse, .localCall, .rangeNext, .try]

/-- The number of an opcode. -/
def code (op : Opcode) : Nat := op.ctorIdx

def ofCode? (n : Nat) : Option Opcode := all[n]?

def ofName? (s : String) : Option Opcode := all.find? fun op => op.name == s

/-- Whether the operand is an address in the code. -/
def isBranch (op : Opcode) : Bool := branchInstructions.code < op.code

/-- The width of the longest name. -/
def nameWidth : Nat := all.foldl (fun w op => max w op.name.length) 0

theorem ofCode?_code (op : Opcode) : ofCode? op.code = some op := by
  cases op <;> rfl

theorem mem_all (op : Opcode) : op ∈ all :=
  List.mem_of_getElem? (ofCode?_code op)

end Opcode

end ScriptMachine
