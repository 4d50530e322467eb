import ScriptMachine.Machine.Context
import ScriptMachine.Heap.Coercion
import ScriptMachine.Heap.Equality

/-!
# Executing instructions

The machine that an instruction acts on, and the primitive actions that instructions are made of.

* `Machine`: the world, the running context, the contexts that wait for it and the tasks.
* `Exec`: actions that may fault or have to wait; their effects before a fault stay.
* Operand access: `Exec.push`, `Exec.pop`, `Exec.popValue`, `Exec.popArgs`.
* Symbol access: `Exec.lookup?`, `Exec.store` and companions.
-/

namespace ScriptMachine

/-- What a suspended context waits for. -/
inductive Awaiting
  /-- A deferred call, one of those that run before a return. -/
  | deferred
  /-- Whether the element at `j` goes before the one below it, while the element found at `i` of
  the first `size` elements of an array moves to its place. -/
  | ordering (array : Ref .array) (less : Value) (size i j : Nat)
deriving Inhabited

/-- A context that waits for the end of another one. -/
structure Suspended where
  context : Context
  awaiting : Awaiting
deriving Inhabited

/-- A thread: the context that runs and those that wait for it, innermost first. -/
structure Thread where
  context : Context
  suspended : List Suspended := []
  /-- How the context ended, once it has. -/
  ended : Option (Except Fault Unit) := none
deriving Inhabited

/-- The stages of a task. -/
inductive TaskStage
  | pending (callable : Value) (args : List Value) (settings : Settings)
  | running (table : TableId) (thread : Thread)
  | finished (result : Except Fault Unit)
deriving Inhabited

/-- A call that runs beside the program. -/
structure Task where
  name : String
  stage : TaskStage
deriving Inhabited

/-- What an instruction acts on. -/
structure Machine where
  world : World
  context : Context
  suspended : List Suspended := []
  /-- How the running context ended, once it has. -/
  ended : Option (Except Fault Unit) := none
  tasks : Array Task := #[]
deriving Inhabited

/-- Actions on the machine. -/
abbrev Exec := ExceptT Halt (StateM Machine)

instance : MonadLift (Except Fault) Exec :=
  ⟨fun r =>
    match r with
    | .ok a => pure a
    | .error f => throw (.fault f)⟩

namespace Exec

/-- A computation on the world as an action. -/
def onWorld {α : Type} (act : WorldM α) : Exec α := fun m =>
  let world := m.world
  let m := { m with world := {} }
  let (a, world) := act.run world
  (.ok a, { m with world })

/-- A heap computation as an action. -/
def onHeap {α : Type} (act : StateM Heap α) : Exec α := onWorld (World.onHeap act)

/-- A computation on the world that may fault or wait, as an action. -/
def ofWorldAction {α : Type} (act : WorldAction α) : Exec α := do
  match ← onWorld act.run with
  | .ok a => return a
  | .error halt => throw halt

/-- A heap computation that may fault, as an action. -/
def onObjects {α : Type} (act : HeapM α) : Exec α := do
  match ← onHeap act.run with
  | .ok a => return a
  | .error f => throw (.fault f)

/-- Raises a fault. -/
def fail {α : Type} (f : Fault) : Exec α := throw (.fault f)

/-- Waits for another task. -/
def wait {α : Type} : Exec α := throw .blocked

def heap : Exec Heap := return (← get).world.heap

def scopes : Exec Arena := return (← get).world.scopes

def context : Exec Context := return (← get).context

def setScopes (scopes : Arena) : Exec Unit :=
  modify fun m => { m with world := { m.world with scopes } }

def modifyContext (f : Context → Context) : Exec Unit :=
  modify fun m => { m with context := f m.context }

/-- Writes to the journal when the category is active. -/
def note (c : Category) (message : Unit → String) : Exec Unit := onWorld (World.note c message)

/-- Writes to the journal with the thread number in front. -/
def noteThread (c : Category) (message : Unit → String) : Exec Unit := do
  let m ← get
  if m.world.journal.isActive c then
    note c fun _ => s!"({m.context.thread}) " ++ message ()

/-- Lets the observer of the running context take note. -/
def observe (x : Happening) : Exec Unit := do
  let c := (← get).context
  if let some log := c.observer.log then
    if log.writes x then note .trace fun _ => log.line c.frameDepth x
  modifyContext fun c => { c with observer := c.observer.observe x }

/-! ### Operands -/

def push (v : Value) : Exec Unit :=
  modifyContext fun c => { c with stack := c.stack.push (.value v) }

/-- Takes the top operand of the running function; the frame below it cannot be taken. -/
def pop : Exec Value := do
  let m ← get
  if m.context.stack.size ≤ m.context.fp then fail (.bare .stackUnderflow)
  else
    match m.context.stack.back? with
    | some (.value v) => do
      modifyContext fun c => { c with stack := c.stack.pop }
      return v
    | _ => fail (.bare .stackUnderflow)

/-- Takes the top operand, which must not be a marker. -/
def popValue : Exec Value := do
  let v ← pop
  if v.isMarker then fail (.bare .functionReturnedVoid) else return v

/-- Takes the top operand without its constant wrappers. -/
def popUnwrapped : Exec Value := return (← popValue).unwrapped

/-- The top operand, left in place. -/
def peek : Exec Value := do
  let c ← context
  if c.stack.size ≤ c.fp then fail (.bare .stackUnderflow)
  else
    match c.stack.back? with
    | some (.value v) => return v
    | _ => fail (.bare .stackUnderflow)

/-- The values of slots. -/
def slotValues (slots : Array Slot) : List Value :=
  slots.toList.filterMap fun s =>
    match s with
    | .value v => some v
    | .frame _ => none

/-- Takes `count` operands, deepest first; none may be a marker. -/
def popArgs (count : Nat) : Exec (List Value) := do
  let c ← context
  if c.stack.size - c.fp < count then fail (.about .stackUnderflow (toString count))
  else do
    let rest := c.stack.size - count
    let args := slotValues (c.stack.extract rest c.stack.size)
    modifyContext fun c => { c with stack := c.stack.extract 0 rest }
    if args.any (·.isMarker) then fail (.bare .functionReturnedVoid) else return args

/-! ### Instruction operands -/

/-- The operand as a name. -/
def operandName (operand : Value) : Exec String :=
  match operand.string? with
  | some name => return name
  | none => fail (.about .invalidValue operand.kindName)

/-- The operand as a count; an absent one means `default`. -/
def operandCount (operand : Value) (default : Nat) : Exec Nat :=
  if operand.isNull then return default else operand.toIndex

/-- The operand as an address in the running code. -/
def branchTarget (operand : Value) : Exec Nat := do
  let m ← get
  let invalid : Fault := .about .invalidBytecodeAddress (m.world.heap.display operand)
  match operand.toIndex with
  | .ok address => if address < m.context.code.size then return address else fail invalid
  | .error _ => fail invalid

/-! ### Symbols -/

/-- The value of a visible name. -/
def lookup? (name : String) : Exec (Option Value) := do
  let m ← get
  return m.world.scopes.get? m.context.symbols name

/-- The value of a visible name, or a fault. -/
def lookup (name : String) : Exec Value := do
  match ← lookup? name with
  | some v => return v
  | none => fail (.about .unknownSymbol name)

/-- Writes a visible name, or defines it in the current table. -/
def store (name : String) (v : Value) : Exec Unit := do
  match ← onWorld (World.assign (← context).symbols name v) with
  | .ok () => return
  | .error f => fail f

/-- Binds a name in a table, whatever its protection. -/
def storeIn (table : TableId) (name : String) (v : Value) : Exec Unit := do
  setScopes (← (← scopes).setAlways table name v)

/-- Binds a name in the current table, whatever its protection. -/
def storeHere (name : String) (v : Value) : Exec Unit := do
  storeIn (← context).symbols name v

/-- Defines a new name in the current table. -/
def create (name : String) : Exec Unit := do
  setScopes (← (← scopes).create (← context).symbols name)

/-! ### Values -/

/-- The display text of a value. -/
def display (v : Value) : Exec String := return (← heap).display v

def truthy (v : Value) : Exec Bool := return (← heap).truthy v

/-- A new array of the values. -/
def pushList (values : List Value) : Exec Unit := do push (← onHeap (Heap.newList values))

/-- Writes program output. -/
def write (text : String) : Exec Unit :=
  modifyContext fun c => { c with output := c.output.write text }

end Exec

end ScriptMachine
