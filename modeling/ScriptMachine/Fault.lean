/-!
# Faults

What an instruction or an operation on values can raise.

* `FaultKind`: the causes; four of them are control signals that no handler may take.
* `Fault`: a cause with its context and the place where it was raised.
* `Fault.message`: the one text of a fault.
-/

namespace ScriptMachine

/-- The causes of faults. -/
inductive FaultKind
  | stop
  | stepOver
  | signalDebugger
  | continue
  | stackUnderflow
  | invalidBytecodeAddress
  | invalidCallFrame
  | tryCatchMismatch
  | invalidCatchSet
  | unimplementedInstruction
  | incorrectReturnValueCount
  | wrongMode
  | panic
  | invalidType
  | invalidVarType
  | invalidField
  | typeMismatch
  | invalidValue
  | notAPointer
  | nilPointerReference
  | divisionByZero
  | arrayBounds
  | arrayIndex
  | invalidSliceIndex
  | immutableArray
  | immutableMap
  | unknownSymbol
  | symbolExists
  | readOnly
  | unknownMember
  | unknownPackageMember
  | symbolNotExported
  | invalidPackageName
  | invalidThis
  | argumentCount
  | argumentType
  | functionReturnedVoid
  | invalidFunctionCall
  | channelNotOpen
  | invalidChannel
  | invalidTimer
  | invalidLoggerName
  | invalidFileIdentifier
  | invalidTemplateName
  | notAuthorized
  | user
deriving DecidableEq, Inhabited

namespace FaultKind

/-- The name of a cause. -/
def name : FaultKind → String
  | .stop => "Stop"
  | .stepOver => "StepOver"
  | .signalDebugger => "SignalDebugger"
  | .continue => "Continue"
  | .stackUnderflow => "StackUnderflow"
  | .invalidBytecodeAddress => "InvalidBytecodeAddress"
  | .invalidCallFrame => "InvalidCallFrame"
  | .tryCatchMismatch => "TryCatchMismatch"
  | .invalidCatchSet => "InvalidCatchSet"
  | .unimplementedInstruction => "UnimplementedInstruction"
  | .incorrectReturnValueCount => "IncorrectReturnValueCount"
  | .wrongMode => "WrongMode"
  | .panic => "Panic"
  | .invalidType => "InvalidType"
  | .invalidVarType => "InvalidVarType"
  | .invalidField => "InvalidField"
  | .typeMismatch => "TypeMismatch"
  | .invalidValue => "InvalidValue"
  | .notAPointer => "NotAPointer"
  | .nilPointerReference => "NilPointerReference"
  | .divisionByZero => "DivisionByZero"
  | .arrayBounds => "ArrayBounds"
  | .arrayIndex => "ArrayIndex"
  | .invalidSliceIndex => "InvalidSliceIndex"
  | .immutableArray => "ImmutableArray"
  | .immutableMap => "ImmutableMap"
  | .unknownSymbol => "UnknownSymbol"
  | .symbolExists => "SymbolExists"
  | .readOnly => "ReadOnly"
  | .unknownMember => "UnknownMember"
  | .unknownPackageMember => "UnknownPackageMember"
  | .symbolNotExported => "SymbolNotExported"
  | .invalidPackageName => "InvalidPackageName"
  | .invalidThis => "InvalidThis"
  | .argumentCount => "ArgumentCount"
  | .argumentType => "ArgumentType"
  | .functionReturnedVoid => "FunctionReturnedVoid"
  | .invalidFunctionCall => "InvalidFunctionCall"
  | .channelNotOpen => "ChannelNotOpen"
  | .invalidChannel => "InvalidChannel"
  | .invalidTimer => "InvalidTimer"
  | .invalidLoggerName => "InvalidLoggerName"
  | .invalidFileIdentifier => "InvalidFileIdentifier"
  | .invalidTemplateName => "InvalidTemplateName"
  | .notAuthorized => "NotAuthorized"
  | .user => "User"

/-- The wording of a cause. -/
def message : FaultKind → String
  | .stop => "stop"
  | .stepOver => "step-over"
  | .signalDebugger => "signal"
  | .continue => "continue"
  | .stackUnderflow => "stack underflow"
  | .invalidBytecodeAddress => "invalid bytecode address"
  | .invalidCallFrame => "invalid call frame on stack"
  | .tryCatchMismatch => "try/catch stack error"
  | .invalidCatchSet => "invalid catch set"
  | .unimplementedInstruction => "unimplemented instruction"
  | .incorrectReturnValueCount => "incorrect number of return values"
  | .wrongMode => "wrong execution mode"
  | .panic => "panic"
  | .invalidType => "invalid or unsupported data type for this operation"
  | .invalidVarType => "invalid type for this variable"
  | .invalidField => "invalid field name for type"
  | .typeMismatch => "type mismatch"
  | .invalidValue => "invalid value"
  | .notAPointer => "not a pointer"
  | .nilPointerReference => "nil pointer reference"
  | .divisionByZero => "division by zero"
  | .arrayBounds => "array index out of bounds"
  | .arrayIndex => "invalid array index"
  | .invalidSliceIndex => "invalid slice index"
  | .immutableArray => "cannot change an immutable array"
  | .immutableMap => "cannot change an immutable map"
  | .unknownSymbol => "unknown symbol"
  | .symbolExists => "symbol already exists"
  | .readOnly => "invalid write to read-only item"
  | .unknownMember => "unknown structure member"
  | .unknownPackageMember => "unknown package member"
  | .symbolNotExported => "symbol not exported from package"
  | .invalidPackageName => "invalid package name"
  | .invalidThis => "invalid _this_ identifier"
  | .argumentCount => "incorrect function argument count"
  | .argumentType => "incorrect function argument type"
  | .functionReturnedVoid => "function did not return a value"
  | .invalidFunctionCall => "invalid function call"
  | .channelNotOpen => "channel not open"
  | .invalidChannel => "neither source or destination is a channel"
  | .invalidTimer => "invalid timer operation"
  | .invalidLoggerName => "invalid logger name"
  | .invalidFileIdentifier => "invalid file identifier"
  | .invalidTemplateName => "invalid template name"
  | .notAuthorized => "not authorized"
  | .user => "user error"

/-- Every cause. -/
def all : List FaultKind :=
  [.stop, .stepOver, .signalDebugger, .continue, .stackUnderflow, .invalidBytecodeAddress,
   .invalidCallFrame, .tryCatchMismatch, .invalidCatchSet, .unimplementedInstruction,
   .incorrectReturnValueCount, .wrongMode, .panic, .invalidType, .invalidVarType, .invalidField,
   .typeMismatch, .invalidValue, .notAPointer, .nilPointerReference, .divisionByZero,
   .arrayBounds, .arrayIndex, .invalidSliceIndex, .immutableArray, .immutableMap, .unknownSymbol,
   .symbolExists, .readOnly, .unknownMember, .unknownPackageMember, .symbolNotExported,
   .invalidPackageName, .invalidThis, .argumentCount, .argumentType, .functionReturnedVoid,
   .invalidFunctionCall, .channelNotOpen, .invalidChannel, .invalidTimer, .invalidLoggerName,
   .invalidFileIdentifier, .invalidTemplateName, .notAuthorized, .user]

def ofName? (s : String) : Option FaultKind := all.find? fun k => k.name == s

/-- The control signals, which pass every handler. -/
def isSignal : FaultKind → Bool
  | .stop | .stepOver | .signalDebugger | .continue => true
  | _ => false

end FaultKind

/-- Where a fault was raised. -/
structure Location where
  module : String
  line : Nat
deriving DecidableEq, Inhabited

/-- A cause, what it concerns, and where it was raised. -/
structure Fault where
  kind : FaultKind
  context : Option String := none
  location : Option Location := none
deriving DecidableEq, Inhabited

namespace Fault

/-- A fault about the thing named. -/
def about (kind : FaultKind) (context : String) : Fault := ⟨kind, some context, none⟩

/-- A fault without a context. -/
def bare (kind : FaultKind) : Fault := ⟨kind, none, none⟩

/-- A fault made by a program. -/
def user (text : String) : Fault := about .user text

/-- Marks where a fault was raised, unless that is known already. -/
def raisedAt (f : Fault) (module : String) (line : Nat) : Fault :=
  { f with location := f.location.orElse fun _ => some ⟨module, line⟩ }

def isSignal (f : Fault) : Bool := f.kind.isSignal

/-- Whether a handler for `g` takes `f`: user faults must agree in their text as well. -/
def agrees (f g : Fault) : Bool :=
  f.kind == g.kind && (f.kind != .user || f.context == g.context)

/-- The place, the wording of the cause and the context; a user fault is its own wording. -/
def message (f : Fault) : String :=
  let place :=
    match f.location with
    | some at_ => s!"at {at_.module}({at_.line}), "
    | none => ""
  let what :=
    match f.kind, f.context with
    | .user, some text => text
    | kind, some text => s!"{kind.message}: {text}"
    | kind, none => kind.message
  place ++ what

@[simp]
theorem raisedAt_kind (f : Fault) (module : String) (line : Nat) :
    (f.raisedAt module line).kind = f.kind := rfl

/-- The first place stays. -/
theorem raisedAt_raisedAt (f : Fault) (m₁ m₂ : String) (l₁ l₂ : Nat) :
    (f.raisedAt m₁ l₁).raisedAt m₂ l₂ = f.raisedAt m₁ l₁ := by
  cases f with
  | mk kind context location => cases location <;> rfl

theorem agrees_refl (f : Fault) : f.agrees f = true := by
  simp [agrees]

end Fault

end ScriptMachine
