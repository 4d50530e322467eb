import ScriptMachine.Machine.Frames
import ScriptMachine.Machine.Exec

/-!
# Flow of control

Branches, line numbers, stops and panics, and recovery from faults.

* `Exec.branch`, `Exec.branchIf`: where the code goes on.
* `Exec.arm`, `Exec.disarm`: the life of handlers.
* `Exec.narrow`: restricts a handler to some faults.
* `Exec.recover`: gives a fault to the innermost handler that takes it; without one every function
  is left and the fault ends the run.
-/

namespace ScriptMachine.Exec

/-- Goes on at an address of the running code. -/
def branch (operand : Value) : Exec Unit := do
  let address ← branchTarget operand
  modifyContext fun c => { c with pc := address }

/-- Goes on at an address when the top operand has the wanted truth. -/
def branchIf (wanted : Bool) (operand : Value) : Exec Unit := do
  let address ← branchTarget operand
  if (← truthy (← popValue)) == wanted then modifyContext fun c => { c with pc := address }

/-- Ends the run. -/
def stop : Exec Unit := fail (.bare .stop)

/-- Records the source line; a debugger that steps line by line takes over here. -/
def atLine (operand : Value) : Exec Unit := do
  let line ← operand.toIndex
  modifyContext fun c => { c with line }
  let c ← context
  if c.debugging && c.singleStep then fail (.bare .signalDebugger)

/-- Panics about the top operand, which may be a marker. -/
def panic : Exec Unit := do
  let v ← pop
  fail (.about .panic (← display v))

end ScriptMachine.Exec

/-! ### Recovery -/

namespace ScriptMachine

/-- The faults that an optional expression may ignore. -/
def optionalFaults : List Fault :=
  [.bare .unknownMember, .bare .invalidType, .bare .nilPointerReference, .bare .divisionByZero,
   .bare .arrayIndex]

/-- Whether a handler takes a fault. -/
def Handler.takes (h : Handler) (f : Fault) : Bool :=
  h.address.isSome && (h.catches.isEmpty || h.catches.any fun c => c.agrees f)

namespace Exec

/-- Arms a handler at an address. -/
def arm (operand : Value) : Exec Unit := do
  let address ← branchTarget operand
  modifyContext fun c =>
    let handler : Handler :=
      { address := some address
        fp := c.fp
        stackSize := c.stack.size
        symbols := c.symbols
        loopDepth := c.loops.length }
    { c with handlers := handler :: c.handlers }

/-- Removes the innermost handler and the fault it may have caught. -/
def disarm : Exec Unit := do
  let c ← context
  match c.handlers with
  | [] => fail (.bare .tryCatchMismatch)
  | _ :: rest => do
    modifyContext fun c => { c with handlers := rest }
    setScopes (← (← scopes).delete c.symbols "_error" true)

/-- The catch list after one more restriction. -/
def narrowed (catches : List Fault) (operand : Value) : Except Fault (List Fault) :=
  match operand.unwrapped with
  | .error f => .ok (catches ++ [f])
  | .string text => .ok (catches ++ [.user text])
  | v =>
    if v.kind.isInteger then do
      match ← v.toIndex with
      | 0 => .ok []
      | 1 => .ok (catches ++ optionalFaults)
      | n => .error (.about .invalidCatchSet (toString n))
    else .error (.about .invalidType v.kindName)

/-- Restricts the innermost handler. -/
def narrow (operand : Value) : Exec Unit := do
  match (← context).handlers with
  | [] => fail (.bare .tryCatchMismatch)
  | handler :: rest => do
    let catches ← narrowed handler.catches operand
    modifyContext fun c => { c with handlers := { handler with catches } :: rest }

/-- Turns to a handler with the fault it takes; `outer` are the handlers around it. -/
def catchAt (handler : Handler) (outer : List Handler) (f : Fault) : Exec Unit := do
  unwindTo handler.fp ((← context).stack.size + 1)
  modifyContext fun c => { c with handlers := handler :: outer }
  dropScopesTo handler.symbols
  modifyContext fun c => { c with stack := c.stack.extract 0 handler.stackSize }
  endLoopsTo handler.loopDepth
  modifyContext fun c =>
    { c with
      pc := handler.address.getD c.pc
      handlers := { handler with address := none } :: outer }
  observe (.caught f.kind (← context).frameDepth)
  storeHere "_error" (.error f)

/-- The innermost handler that takes a fault, and the handlers around it. -/
def findHandler (f : Fault) : List Handler → Option (Handler × List Handler)
  | [] => none
  | handler :: outer => if handler.takes f then some (handler, outer) else findHandler f outer

/-- Ends the run: every function is left, and the fault is raised again. -/
def abandon (f : Fault) : Exec Unit := do
  let c ← context
  if c.stackTrace then onWorld (World.emit .app s!"{f.message}\n{c.frameText none}")
  tryCatch (unwindTo 0 (c.stack.size + 1)) fun _ => return
  modifyContext fun c => { c with running := false }
  fail f

/-- Gives a fault of the running context to the handler that takes it. -/
def recover (f : Fault) : Exec Unit := do
  if f.isSignal then fail f
  else do
    let c ← context
    let f := f.raisedAt c.code.name c.line
    let catchable := !(f.kind == .panic && c.panics)
    match if catchable then findHandler f c.handlers else none with
    | some (handler, outer) => catchAt handler outer f
    | none => abandon f

end Exec

end ScriptMachine
