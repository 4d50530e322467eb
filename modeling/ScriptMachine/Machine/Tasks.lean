import ScriptMachine.Machine.Symbols

/-!
# Tasks and channels

* `Exec.go`: a call that will run beside the program.
* `Exec.joinTasks`: waits for all tasks of a context; the fault of the first that failed is raised.
* `Exec.await`: waits for a wait group or for the tasks.
* `Exec.transfer`: sends to a channel or receives from it.
-/

namespace ScriptMachine.Exec

/-- Starts a task; it shares the globals and nothing else with the function that starts it. -/
def go (operand : Value) : Exec Unit := do
  let count ← operandCount operand 0
  let args ← popArgs count
  let callable ← popUnwrapped
  let name := callableName (← heap) callable
  noteThread .trace fun _ => s!"go {name}"
  modify fun m =>
    { m with
      tasks := m.tasks.push ⟨"go " ++ name, .pending callable args m.context.settings⟩
      context := { m.context with tasks := m.tasks.size :: m.context.tasks } }

/-- How a task ended, if it has. -/
def taskResult? (tasks : Array Task) (id : Nat) : Option (Except Fault Unit) :=
  match tasks[id]? with
  | some ⟨_, .finished result⟩ => some result
  | _ => none

/-- The first fault among results. -/
def firstFault? : List (Except Fault Unit) → Option Fault
  | [] => none
  | .ok () :: rest => firstFault? rest
  | .error f :: _ => some f

/-- Waits for all tasks of the context, and raises the fault of the first that failed. -/
def joinTasks : Exec Unit := do
  let m ← get
  match m.context.tasks.reverse.mapM (taskResult? m.tasks) with
  | none => wait
  | some results => do
    modifyContext fun c => { c with tasks := [] }
    match firstFault? results with
    | some f => fail f
    | none => return

/-- Waits for a wait group, or for all tasks when the operand leads to none. -/
def await (operand : Value) : Exec Unit := do
  let target : Option Value ←
    match operand.unwrapped with
    | .null => pure none
    | .string name => lookup? name
    | v => pure (some v)
  match target.map Value.unwrapped with
  | some (.waitGroup r) => ofWorldAction (WorldAction.awaitZero r)
  | _ => joinTasks

/-- Sends the top operand to the channel that a name holds; or else receives from the channel on
top of the stack into the name. -/
def transfer (operand : Value) : Exec Unit := do
  let name ← operandName operand
  let found ← lookup? name
  match found.map Value.unwrapped with
  | some (.channel r) => do
    let v ← popValue
    ofWorldAction (WorldAction.send r v)
  | _ => do
    match ← popUnwrapped with
    | .channel r => do
      let v ← ofWorldAction (WorldAction.receive r)
      if name ≠ discardName then store name v
    | v => fail (.about .invalidChannel v.kindName)

end ScriptMachine.Exec
