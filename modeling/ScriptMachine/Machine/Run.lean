import ScriptMachine.Machine.Step

/-!
# Runs

Whole runs: the main thread takes turns with the tasks it has started.

* `Machine.advance`: the steps of the running thread, up to a limit.
* `Machine.takeTurn`: a turn of a task; its first turn makes its context, its last removes the
  table.
* `Machine.run`: the turns of all threads until the main thread ends.
* `Machine.join`: the turns of the tasks until all have ended.
-/

namespace ScriptMachine

/-- Why a stretch of steps came to an end. -/
inductive Pause
  /-- The limit was reached. -/
  | spent
  /-- Another thread has to act first; `idle` tells that not even one step was made. -/
  | blocked (idle : Bool)
  | ended (result : Except Fault Unit)
deriving Inhabited

namespace Machine

/-- A machine whose main thread will run a context. -/
def ofContext (world : World) (context : Context) : Machine := { world, context }

/-- Sets the main context going at an address. -/
def launch (m : Machine) (pc : Nat) : Machine :=
  let (context, world) := (World.start m.context pc).run m.world
  { m with world, context, ended := none }

/-- Sets the main context going where it was interrupted. -/
def resume (m : Machine) : Machine := m.launch m.context.pc

/-- The steps of the running thread, at most `limit` of them. -/
def advanceFrom (idle : Bool) : Nat → Machine → Machine × Pause
  | 0, m => (m, .spent)
  | limit + 1, m =>
    match m.step with
    | (m, .running) => advanceFrom false limit m
    | (m, .blocked) => (m, .blocked idle)
    | (m, .ended result) => (m, .ended result)

def advance (limit : Nat) (m : Machine) : Machine × Pause := advanceFrom true limit m

/-! ### Tasks -/

/-- The running thread. -/
def thread (m : Machine) : Thread := ⟨m.context, m.suspended, m.ended⟩

/-- The machine with another thread running. -/
def withThread (m : Machine) (t : Thread) : Machine :=
  { m with context := t.context, suspended := t.suspended, ended := t.ended }

def putStage (m : Machine) (id : Nat) (stage : TaskStage) : Machine :=
  { m with tasks := m.tasks.modify id fun t => { t with stage } }

/-- The table and the thread of a task that begins. -/
def beginTask (name : String) (callable : Value) (args : List Value) (settings : Settings) :
    WorldM (TableId × Thread) := do
  let table ← World.newChild name .root true
  let c ← World.callContext table settings callable args
  return (table, ⟨← World.start c 0, [], none⟩)

/-- The end of a task: its table is removed and its fault goes to the journal. -/
def endTask (name : String) (table : TableId) (result : Except Fault Unit) : WorldM Unit := do
  World.remove table
  match result with
  | .ok () => return
  | .error f => World.emit .app s!"{name}: {f.message}"

/-- A turn of the thread of a task; the result also tells whether it made a step. -/
def turnOf (limit id : Nat) (name : String) (table : TableId) (t : Thread) (m : Machine) :
    Machine × Bool :=
  let main := m.thread
  match (m.withThread t).advance limit with
  | (m, .ended result) =>
    let ((), world) := (endTask name table result).run m.world
    ({ m with world }.putStage id (.finished result) |>.withThread main, true)
  | (m, .blocked idle) => (m.putStage id (.running table m.thread) |>.withThread main, !idle)
  | (m, .spent) => (m.putStage id (.running table m.thread) |>.withThread main, true)

/-- A turn of a task; the result also tells whether it made a step. -/
def takeTurn (limit : Nat) (m : Machine) (id : Nat) : Machine × Bool :=
  match m.tasks[id]? with
  | some ⟨name, .pending callable args settings⟩ =>
    let ((table, t), world) := (beginTask name callable args settings).run m.world
    let (m, _) := turnOf limit id name table t { m with world }
    (m, true)
  | some ⟨name, .running table t⟩ => turnOf limit id name table t m
  | _ => (m, false)

/-- A turn of each task; the result also tells whether any of them made a step. -/
def takeTurns (limit : Nat) (m : Machine) : Machine × Bool :=
  (List.range m.tasks.size).foldl (fun (m, moved) id =>
    let (m, b) := m.takeTurn limit id
    (m, moved || b)) (m, false)

/-! ### Runs -/

/-- The steps of one turn. -/
def turnLength : Nat := 1000

/-- The turns of all threads until the main thread ends. There is no result when `rounds` did not
suffice, or when every thread has to wait. -/
def run : Nat → Machine → Machine × Option (Except Fault Unit)
  | 0, m => (m, none)
  | rounds + 1, m =>
    match m.advance turnLength with
    | (m, .ended result) => (m, some result)
    | (m, .spent) => run rounds (m.takeTurns turnLength).1
    | (m, .blocked idle) =>
      match m.takeTurns turnLength with
      | (m, moved) => if idle && !moved then (m, none) else run rounds m

/-- The turns of the tasks of the main thread until all have ended. -/
def join : Nat → Machine → Machine × Option (Except Fault Unit)
  | 0, m => (m, none)
  | rounds + 1, m =>
    match Exec.joinTasks.run.run m with
    | (.ok (), m) => (m, some (.ok ()))
    | (.error (.fault f), m) => (m, some (.error f))
    | (.error .blocked, _) =>
      match m.takeTurns turnLength with
      | (m, moved) => if moved then join rounds m else (m, none)

end Machine

end ScriptMachine
