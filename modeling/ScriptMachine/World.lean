import ScriptMachine.Files
import ScriptMachine.Heap
import ScriptMachine.Journal
import ScriptMachine.Scope.Arena

/-!
# The world of a program

What all code of one program shares: objects, symbol tables, the journal, files and the counters
behind fresh names.

* `World`: the shared state.
* `WorldM`: computations on it that cannot fault; `World.onHeap` makes heap computations of them.
* `World.newChild`, `World.remove`, `World.assign`: scope changes that the journal records.
* `WorldAction`: computations on the world that may fault or have to wait for another task.
-/

namespace ScriptMachine

/-- What all code of one program shares. -/
structure World where
  heap : Heap := {}
  scopes : Arena := .initial
  journal : Journal := {}
  /-- Contexts made so far; each takes the next number as its thread number. -/
  contexts : Nat := 0
  /-- Receivers named so far. -/
  receivers : Nat := 0
  files : Files := {}
deriving Inhabited

/-- Computations on the world. -/
abbrev WorldM := StateM World

namespace World

/-- A heap computation as a computation on the world. -/
def onHeap {α : Type} (act : StateM Heap α) : WorldM α := fun w =>
  let heap := w.heap
  let w := { w with heap := {} }
  let (a, heap) := act.run heap
  (a, { w with heap })

/-- Writes to the journal when the category is active. -/
def note (c : Category) (message : Unit → String) : WorldM Unit :=
  modify fun w => { w with journal := w.journal.note c message }

/-- Writes to the journal in any case. -/
def emit (c : Category) (message : String) : WorldM Unit :=
  modify fun w => { w with journal := w.journal.emit c message }

/-- A new child of a table. -/
def newChild (name : String) (parent : TableId) (boundary : Bool) : WorldM TableId := do
  let id ← modifyGet fun w =>
    let (id, scopes) := w.scopes.newChild name parent boundary
    (id, { w with scopes })
  note .symbol fun _ =>
    s!"+++ new table {name} {id.text} parent {parent.text} boundary {boundary}"
  return id

/-- Removes a table. -/
def remove (id : TableId) : WorldM Unit := do
  let live := (← get).scopes.contains id && id != .root
  modify fun w => { w with scopes := w.scopes.remove id }
  if live then note .symbol fun _ => s!"--- removed table {id.text}"

/-- A new channel. -/
def newChannel (capacity : Nat) : WorldM (Ref .channel) := do
  let c := ChannelObject.ofCapacity capacity
  let r ← onHeap (Heap.newChannel c)
  note .trace fun _ => "--> created " ++ c.text
  return r

/-- Closes a channel; the result tells whether it was open. -/
def closeChannel (r : Ref .channel) : WorldM Bool := do
  let c := (← get).heap.channel r
  onHeap (Heap.putChannel r c.close)
  note .trace fun _ => "--> closing <uuid>"
  return c.isOpen

/-- Writes the visible definition of a name, or defines it in the table `start`. -/
def assign (start : TableId) (name : String) (v : Value) : WorldM (Except Fault Unit) := do
  match (← get).scopes.set start name v with
  | .ok (id, scopes) => do
    modify fun w => { w with scopes }
    note .symbol fun _ => s!"set {name} in {id.text}"
    return .ok ()
  | .error f => return .error f

/-- Binds a name in a live table, whatever its protection. -/
def setIn (table : TableId) (name : String) (v : Value) : WorldM Unit :=
  modify fun w =>
    match w.scopes.setAlways table name v with
    | .ok scopes => { w with scopes }
    | .error _ => w

/-- Binds a global name, whatever its protection. -/
def setGlobal (name : String) (v : Value) : WorldM Unit := setIn .root name v

end World

/-- Why an action did not complete. -/
inductive Halt
  | fault (f : Fault)
  /-- Another task has to act first. -/
  | blocked
deriving Inhabited

/-- Computations on the world that may fault or have to wait; effects before a fault stay. -/
abbrev WorldAction := ExceptT Halt (StateM World)

namespace WorldAction

def fail {α : Type} (f : Fault) : WorldAction α := throw (.fault f)

/-- A result that may be a fault. -/
def orFail {α : Type} (r : Except Fault α) : WorldAction α :=
  match r with
  | .ok a => return a
  | .error f => fail f

def heap : WorldAction Heap := return (← get).heap

/-- A computation that can neither fault nor wait. -/
def onWorld {α : Type} (act : WorldM α) : WorldAction α := ExceptT.lift act

/-- A heap computation that cannot fault. -/
def onHeap {α : Type} (act : StateM Heap α) : WorldAction α := onWorld (World.onHeap act)

/-- A heap computation that may fault. -/
def onObjects {α : Type} (act : HeapM α) : WorldAction α := do
  orFail (← onHeap act.run)

/-- The outcome of an attempt; refusals are faults of a closed channel. -/
def ofAttempt {α : Type} (x : Attempt α) : WorldAction α :=
  match x with
  | .done a => return a
  | .refused => fail (.about .channelNotOpen "<uuid>")
  | .wait => throw .blocked

/-- Sends a value on a channel. -/
def send (r : Ref .channel) (v : Value) : WorldAction Unit := do
  let c ← ofAttempt (((← heap).channel r).send v)
  onWorld (World.note .trace fun _ => "--> sending on <uuid>")
  onHeap (Heap.putChannel r c)

/-- Receives a value from a channel. -/
def receive (r : Ref .channel) : WorldAction Value := do
  let (v, c) ← ofAttempt ((← heap).channel r).receive
  onHeap (Heap.putChannel r c)
  onWorld (World.note .trace fun _ => "--> received on <uuid>")
  return v

/-- Locks a mutex that is free. -/
def lock (r : Ref .mutex) : WorldAction Unit := do
  if (← heap).isLocked r then throw .blocked
  onHeap (Heap.putLocked r true)

def unlock (r : Ref .mutex) : WorldAction Unit := do
  if (← heap).isLocked r then onHeap (Heap.putLocked r false)
  else fail (.about .panic "unlock of unlocked mutex")

/-- Adjusts the counter of a wait group. -/
def adjust (r : Ref .waitGroup) (delta : Int64) : WorldAction Unit := do
  let (count, kept) := adjustWaitCount ((← heap).waitCount r) delta
  onHeap (Heap.putWaitCount r count)
  if !kept then fail (.about .panic "negative WaitGroup counter")

/-- Waits until the counter of a wait group is zero. -/
def awaitZero (r : Ref .waitGroup) : WorldAction Unit := do
  if 0 < (← heap).waitCount r then throw .blocked

end WorldAction

end ScriptMachine
