import ScriptMachine.Machine.Observer
import ScriptMachine.Settings

/-!
# Contexts

The state of one thread of execution: its operand stack with the frames of its callers, and the
stacks of handlers, loops, receivers, package scopes and deferred calls.

* `Frame`: the caller's state, saved by a call on the operand stack.
* `Slot`: what an operand stack holds.
* `Context`: the state as a whole; lists have their newest entry first.
-/

namespace ScriptMachine

/-- A receiver waiting for the method it was bound for. -/
structure Receiver where
  name : String
  value : Value
deriving Inhabited

/-- A call that runs when its function returns. -/
structure DeferredCall where
  callable : Value
  args : List Value
deriving Inhabited

/-- The state of a caller, as a return restores it. -/
structure Frame where
  /-- The name of the callee's symbol table. -/
  name : String
  /-- Where the call was made. -/
  module : String
  line : Nat
  package : String
  symbols : TableId
  code : Code
  receivers : List Receiver
  deferred : List DeferredCall
  loopDepth : Nat
  pc : Nat
  fp : Nat
  blockDepth : Nat
  singleStep : Bool
  breakOnReturn : Bool
  extensions : Bool
deriving Inhabited

/-- What an operand stack holds. -/
inductive Slot
  | value (v : Value)
  | frame (f : Frame)
deriving Inhabited

/-- An armed `Try`; without an address once it has caught a fault. -/
structure Handler where
  address : Option Nat
  /-- The faults that are caught; all of them when empty. -/
  catches : List Fault := []
  fp : Nat
  stackSize : Nat
  symbols : TableId
  loopDepth : Nat
deriving Inhabited

/-- What a loop walks. -/
inductive Walked
  | runes (items : List (Nat × Char))
  | map (r : Ref .map) (keys : List Value)
  | array (r : Ref .array)
  | channel (r : Ref .channel)
deriving Inhabited

/-- An active loop. -/
structure Loop where
  indexName : String
  valueName : String
  walked : Walked
  position : Nat := 0
deriving Inhabited

/-- An open package definition. -/
structure PackageScope where
  name : String
  package : Ref .package
  table : TableId
  savedSymbols : TableId
  savedPackage : String
deriving Inhabited

/-- Where program output goes. -/
inductive Sink
  | collected (text : String)
  | discarded
deriving Inhabited

namespace Sink

def write (s : Sink) (text : String) : Sink :=
  match s with
  | .collected t => .collected (t ++ text)
  | .discarded => .discarded

/-- The text collected so far. -/
def text : Sink → String
  | .collected t => t
  | .discarded => ""

end Sink

/-- The state of one thread of execution. -/
structure Context where
  name : String
  thread : Nat
  symbols : TableId
  code : Code
  stack : Array Slot := #[]
  /-- The stack size at the last call; the frame lies just below. -/
  fp : Nat := 0
  pc : Nat := 0
  line : Nat := 0
  blockDepth : Nat := 0
  frameDepth : Nat := 0
  package : String := ""
  sourceFile : String := ""
  handlers : List Handler := []
  loops : List Loop := []
  timers : Nat := 0
  receivers : List Receiver := []
  packages : List PackageScope := []
  deferred : List DeferredCall := []
  result : Option Value := none
  /-- Arguments that `Flatten` adds to the next call. -/
  extraArgs : Int := 0
  running : Bool := false
  /-- The tasks started here, newest first. -/
  tasks : List Nat := []
  staticTypes : Bool := false
  debugging : Bool := false
  singleStep : Bool := false
  stepOver : Bool := false
  breakOnReturn : Bool := false
  fullScope : Bool := false
  raiseErrors : Bool := true
  stackTrace : Bool := false
  extensions : Bool := false
  panics : Bool := true
  observer : Observer := {}
  output : Sink := .discarded
  settings : Settings := {}
deriving Inhabited

namespace Context

variable (c : Context)

/-- The values of the running function, deepest first. -/
def operands : Array Slot := c.stack.extract c.fp c.stack.size

/-- The frames on the chain from a frame pointer, innermost first, at most `fuel` of them. -/
def framesFrom (stack : Array Slot) : Nat → Nat → List Frame
  | 0, _ => []
  | fuel + 1, fp =>
    if fp = 0 then []
    else
      match stack[fp - 1]? with
      | some (.frame f) => f :: framesFrom stack fuel f.fp
      | _ => []

/-- The active frames, innermost first. -/
def frames : List Frame := framesFrom c.stack c.stack.size c.fp

@[simp]
theorem framesFrom_zero (stack : Array Slot) (fuel : Nat) : framesFrom stack fuel 0 = [] := by
  cases fuel <;> rfl

/-- The outermost code has no caller. -/
theorem frames_of_fp_eq_zero {c : Context} (h : c.fp = 0) : c.frames = [] := by
  simp [frames, h]

end Context

/-- The name a callable is known by. -/
def callableName (h : Heap) (v : Value) : String :=
  match v.unwrapped with
  | .type t => t.text
  | u => if u.kind = .function then h.functionName u else u.kindName

end ScriptMachine
