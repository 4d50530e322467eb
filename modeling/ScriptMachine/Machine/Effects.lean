import ScriptMachine.Heap.Json
import ScriptMachine.Machine.Exec
import ScriptMachine.Text.Template

/-!
# Output and the outside world

The instructions that write output, write to the journal, measure time, fill templates and serve
requests.
-/

namespace ScriptMachine.Exec

/-! ### Output -/

/-- Writes operands with blanks between them, the deepest first. -/
def print (operand : Value) : Exec Unit := do
  let values ← popArgs (← operandCount operand 1)
  let h ← heap
  write (" ".intercalate (values.map h.display))

/-- Writes the top operand and ends the line. -/
def say : Exec Unit := do
  let text ← display (← popValue)
  write (text ++ "\n")

def newline : Exec Unit := write "\n"

/-- Writes the top operand to the journal. -/
def logValue (operand : Value) : Exec Unit := do
  let name ← operandName operand
  match Category.ofName? name with
  | none => fail (.about .invalidLoggerName name)
  | some category => do
    let v ← popValue
    let h ← heap
    note category fun _ => h.display v

/-! ### Time -/

/-- The text of an elapsed time. -/
def elapsedText : String := "0ns"

/-- Zero starts a timer, one stops the newest and pushes the elapsed time. -/
def timer (operand : Value) : Exec Unit := do
  match (← operand.toInt64).toInt with
  | 0 => modifyContext fun c => { c with timers := c.timers + 1 }
  | 1 => do
    if (← context).timers = 0 then fail (.about .invalidTimer "no timer running")
    modifyContext fun c => { c with timers := c.timers - 1 }
    push (.string elapsedText)
  | n => fail (.about .invalidTimer (toString n))

/-! ### Templates and requests -/

/-- Fills the template that a name holds with the members of the top operand. -/
def template (operand : Value) : Exec Unit := do
  let name ← operandName operand
  let found ← lookup? name
  match found.map Value.unwrapped with
  | some (.string text) => do
    let data ← popValue
    push (.string (← rendered (← heap) data text.toList))
  | _ => fail (.about .invalidTemplateName name)

/-- The global name that keeps the last response. -/
def responseName : String := "_rest_response"

/-- The global name that keeps the status of a refused request. -/
def statusName : String := "_rest_status"

/-- Writes the JSON form of the top operand and keeps it as the response. -/
def respond : Exec Unit := do
  let v ← popUnwrapped
  let text := ((← heap).toJson v).text
  write (text ++ "\n")
  storeIn .root responseName (.string text)

/-- The first status whose condition does not hold. -/
def firstRefusal : List (Bool × Nat) → Option Nat
  | [] => none
  | (holds, status) :: rest => if holds then firstRefusal rest else some status

/-- The status that refuses a kind of access, if anything does. -/
def refusal (kind : String) (authenticated superuser tokenValid : Bool) :
    Except Fault (Option Nat) :=
  if kind == "user" then .ok (firstRefusal [(authenticated, 401)])
  else if kind == "admin" then .ok (firstRefusal [(authenticated, 401), (superuser, 403)])
  else if kind == "token" then .ok (firstRefusal [(tokenValid, 401)])
  else if kind == "tokenadmin" then .ok (firstRefusal [(tokenValid, 401), (superuser, 403)])
  else .error (.about .invalidValue kind)

/-- Whether a name holds something true. -/
def isSet (name : String) : Exec Bool := do
  match ← lookup? name with
  | some v => truthy v
  | none => return false

/-- Ends the program unless the caller has the access that the operand names. -/
def authorize (operand : Value) : Exec Unit := do
  let kind := lowerAscii (← operandName operand)
  let authenticated ← isSet "_authenticated"
  let superuser ← isSet "_superuser"
  let tokenValid ← isSet "_token_valid"
  match ← refusal kind authenticated superuser tokenValid with
  | none => return
  | some status => do
    let fault : Fault := .about .notAuthorized s!"{kind} ({status})"
    onWorld (World.emit .rest fault.message)
    storeIn .root statusName (.ofNat status)
    fail (.bare .stop)

end ScriptMachine.Exec
