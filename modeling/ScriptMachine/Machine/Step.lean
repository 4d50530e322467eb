import ScriptMachine.Code.Listing
import ScriptMachine.Machine.Calls
import ScriptMachine.Machine.Checks
import ScriptMachine.Machine.Control
import ScriptMachine.Machine.Effects
import ScriptMachine.Machine.Loops
import ScriptMachine.Machine.Members
import ScriptMachine.Machine.Shuffles
import ScriptMachine.Machine.Tasks

/-!
# Steps

One step of the machine.

* `Exec.execute`: what an instruction does with its operand.
* `Exec.begin`: what is recorded when an instruction begins.
* `Machine.step`: executes the next instruction, or goes on after a context has ended. A step that
  has to wait leaves the machine as it was.
-/

namespace ScriptMachine

/-- The text of a slot. -/
def slotText (h : Heap) : Slot → String
  | .value (.string s) => quoted s
  | .value v => h.display v
  | .frame f => "<frame " ++ f.name ++ ">"

/-- The text of at most `limit` slots from the top of a stack. -/
def stackText (h : Heap) (limit : Nat) (stack : Array Slot) : String :=
  if stack.isEmpty then "<empty>"
  else
    let shown := (stack.toList.reverse.take limit).map (slotText h)
    ", ".intercalate (if limit < stack.size then shown ++ ["..."] else shown)

namespace Exec

/-- What an instruction does. -/
def execute (i : Instruction) : Exec Unit :=
  let operand := i.operand
  match i.op with
  | .stop => stop
  | .atLine => atLine operand
  | .add => add
  | .addressOf => addressOf operand
  | .and => conjunction
  | .argCheck => argCheck operand
  | .array => array operand
  | .auth => authorize operand
  | .bitAnd => bitOperator (· &&& ·)
  | .bitOr => bitOperator (· ||| ·)
  | .bitShift => bitShift
  | .call => call operand
  | .coerce => coerceTop operand
  | .constant => storeConstant operand
  | .copy => copyTop
  | .createAndStore => createAndStore operand
  | .defer => deferCall operand
  | .dereference => dereference
  | .div => calculateWith .div
  | .drop => drop operand
  | .dropToMarker => dropToMarker
  | .dup => duplicate
  | .entryPoint => entryPoint operand
  | .equal => equality true
  | .exp => power
  | .explode => explode
  | .flatten => flatten
  | .fromFile => readFile operand
  | .getThis => getReceiver operand
  | .getVarArgs => varArgs operand
  | .go => go operand
  | .greaterThan => compareWith (· == .gt)
  | .greaterThanOrEqual => compareWith (· != .lt)
  | .import => importPackage operand
  | .inFile => enterFile operand
  | .inPackage => enterPackage operand
  | .lessThan => compareWith (· == .lt)
  | .lessThanOrEqual => compareWith (· != .gt)
  | .load => loadName operand
  | .loadIndex => loadIndex
  | .loadSlice => loadSlice
  | .loadThis => loadReceiver
  | .log => logValue operand
  | .makeArray => makeArray
  | .makeMap => makeMap operand
  | .member => member operand
  | .modeCheck => modeCheck operand
  | .modulo => calculateWith .mod
  | .mul => mul
  | .negate => negate
  | .newline => newline
  | .noOperation => return
  | .notEqual => equality false
  | .or => disjunction
  | .panic => panic
  | .popPackage => popPackage
  | .popScope => popScope
  | .print => print operand
  | .push => pushLiteral operand
  | .pushPackage => pushPackage operand
  | .pushScope => pushScope
  | .rangeInit => beginLoop operand
  | .readStack => readStack operand
  | .requiredType => requiredType operand
  | .response => respond
  | .return => return_ operand
  | .say => say
  | .setThis => setReceiver operand
  | .stackCheck => stackCheck operand
  | .staticTyping => staticTyping
  | .store => storeName operand
  | .storeAlways => storeAlways operand
  | .storeBytecode => storeCode operand
  | .storeChan => transfer operand
  | .storeGlobal => storeGlobal operand
  | .storeIndex => storeIndex
  | .storeInto => storeInto
  | .storeViaPointer => storeThrough operand
  | .struct => makeStruct operand
  | .sub => sub
  | .swap => swap
  | .symbolCreate => createSymbol operand
  | .symbolDelete => deleteSymbol operand
  | .symbolOptCreate => createIfMissing operand
  | .template => template operand
  | .timer => timer operand
  | .tryPop => disarm
  | .wait => await operand
  | .willCatch => narrow operand
  | .branchInstructions => fail (.about .unimplementedInstruction i.op.name)
  | .branch => branch operand
  | .branchTrue => branchIf true operand
  | .branchFalse => branchIf false operand
  | .localCall => localCall operand
  | .rangeNext => nextRound operand
  | .try => arm operand

/-- The journal line of an instruction. -/
def traceLine (h : Heap) (c : Context) (pc : Nat) (i : Instruction) : String :=
  let (op, operand) := i.columns h
  let code := padLeft 18 c.code.name
  let line := padRight 4 (toString c.line)
  let address := padLeft 4 (toString pc)
  let stack := stackText h 4 c.stack
  let depth := c.stack.size
  s!"({c.thread}) {code}:{line} {address}: {op} {padRight 20 operand} stack[{depth}]: {stack}"

/-- Takes note of an instruction that begins. The last one that is allowed still runs. -/
def begin (i : Instruction) : Exec Unit := do
  let pc := (← context).pc
  modifyContext fun c => { c with pc := pc + 1 }
  observe (.instruction pc i.op (← context).stack.size)
  modifyContext fun c =>
    { c with running := c.running && !c.observer.isLast, observer := c.observer.spend }
  let m ← get
  note .trace fun _ => traceLine m.world.heap m.context pc i

/-- Ends the running context without a fault. -/
def finish : Exec Unit := do
  modifyContext fun c => { c with running := false }
  let c ← context
  note .trace fun _ => s!"*** ({c.thread}) {c.name} ended"
  modify fun m => { m with ended := some (.ok ()) }

/-- Ends the running context with a fault. -/
def endWith (f : Fault) : Exec Unit := modify fun m => { m with ended := some (.error f) }

/-- Deals with the fault of a step: a stop ends the context, and any other fault does so unless a
handler takes it. -/
def settle (f : Fault) : Exec Unit := do
  if f.kind = .stop then finish
  else tryCatch (recover f) fun halt =>
    match halt with
    | .fault g => endWith g
    | .blocked => wait

end Exec

namespace Machine

/-- The state of the running thread after a step. -/
inductive Progress
  | running
  | blocked
  | ended (result : Except Fault Unit)
deriving Inhabited

/-- Runs the action of one step. -/
def perform (m : Machine) (act : Exec Unit) : Machine × Progress :=
  let attempt := tryCatch act fun halt =>
    match halt with
    | .fault f => Exec.settle f
    | .blocked => Exec.wait
  match attempt.run.run m with
  | (.ok (), m) => (m, .running)
  | (.error _, _) => (m, .blocked)

/-- Goes on in the context that waited for the one that has ended. -/
def returnTo (m : Machine) (s : Suspended) (rest : List Suspended) (result : Except Fault Unit) :
    Machine × Progress :=
  { m with context := s.context, suspended := rest, ended := none }.perform
    (Exec.afterScratch s.awaiting m.context result)

/-- The instruction that comes next, if the context is still running. -/
def next? (m : Machine) : Option Instruction :=
  if m.context.running then m.context.code.ops[m.context.pc]? else none

/-- One step of the running thread. -/
def step (m : Machine) : Machine × Progress :=
  match m.ended, m.suspended with
  | some result, [] => (m, .ended result)
  | some result, s :: rest => m.returnTo s rest result
  | none, _ =>
    match m.next? with
    | some i => m.perform do
      Exec.begin i
      Exec.execute i
    | none => m.perform Exec.finish

end Machine

end ScriptMachine
