import ScriptMachine.Program.Plan
import ScriptMachine.Proofs.Frames.Linked
import ScriptMachine.Proofs.Loops.Winding

/-!
# All threads of a run

The states of a run, with the contexts of all its threads: the one that has its turn, the main
thread while a task has its turn, the tasks that have begun, and the contexts that have ended.

* `Ensemble`: such a state; `Ensemble.loops`: the loops of all its contexts.
* `Ensemble.Passes`, `Ensemble.Next`: what may happen next.
* `Ensemble.Reached`: the states of the runs of a machine.
* `Reached.playOut`, `Reached.join`: runs, resumed or not, and waiting for tasks pass through such
  states.
-/

namespace ScriptMachine

/-- The turn of a task, with the main thread that waits for its end. -/
structure Turn where
  id : Nat
  name : String
  table : TableId
  main : Thread

/-- A state of a run: the machine with the thread that has its turn, and the contexts that have
ended. -/
structure Ensemble where
  machine : Machine
  /-- The turn of a task; without one the main thread has its turn. -/
  turn : Option Turn := none
  gone : List Context := []

/-- The loops of the contexts of a thread, innermost context first. -/
def Thread.loopStacks (t : Thread) : List (List Loop) :=
  t.context.loops :: t.suspended.map (·.context.loops)

/-- The loops of the contexts of a task. -/
def TaskStage.loopStacks : TaskStage → List (List Loop)
  | .running _ t => t.loopStacks
  | _ => []

/-- The loops of the contexts of the task with some number. -/
def Machine.taskLoopStacks (m : Machine) (id : Nat) : List (List Loop) :=
  ((m.tasks[id]?).map (·.stage.loopStacks)).getD []

/-- The context that makes way in the next step, since it has ended. -/
def Machine.departing (m : Machine) : List Context :=
  match m.ended, m.suspended with
  | some _, _ :: _ => [m.context]
  | _, _ => []

namespace Ensemble

/-- The thread that has its turn. -/
def foremost (e : Ensemble) : Option Nat := e.turn.map (·.id)

/-- The loops of the contexts of a thread: of the main thread, or of a task. -/
def loopStacks (e : Ensemble) : Option Nat → List (List Loop)
  | none =>
    match e.turn with
    | none => e.machine.loopStacks
    | some t => t.main.loopStacks
  | some id =>
    if e.foremost = some id then e.machine.loopStacks
    else e.machine.taskLoopStacks id

/-- The main thread and the tasks. -/
def threads (e : Ensemble) : List (Option Nat) :=
  none :: (List.range e.machine.tasks.size).map some

/-- The loops of all contexts, also of those that have ended. -/
def loops (e : Ensemble) : List Loop :=
  e.threads.flatMap (fun o => (e.loopStacks o).flatten) ++ e.gone.flatMap (·.loops)

/-- The objects. -/
def heap (e : Ensemble) : Heap := e.machine.world.heap

/-- The state after a step of the thread that has its turn. -/
def stepped (e : Ensemble) : Ensemble :=
  { e with machine := e.machine.step.1, gone := e.machine.departing ++ e.gone }

/-- How the turn passes from one thread to another; the main thread may also be resumed, or wait for
its tasks. -/
inductive Passes : Ensemble → Ensemble → Prop
  /-- The first turn of a task. -/
  | begin (m : Machine) (gone : List Context) {id : Nat} {name : String} {callable : Value}
      {args : List Value} {settings : Settings} {table : TableId} {t : Thread} {world : World}
      (htask : m.tasks[id]? = some ⟨name, .pending callable args settings⟩)
      (hbegun : (Machine.beginTask name callable args settings).run m.world = ((table, t), world)) :
      Passes ⟨m, none, gone⟩
        ⟨{ m with world }.withThread t, some ⟨id, name, table, m.thread⟩, gone⟩
  /-- Another turn of a task. -/
  | take (m : Machine) (gone : List Context) {id : Nat} {name : String} {table : TableId}
      {t : Thread} (htask : m.tasks[id]? = some ⟨name, .running table t⟩) :
      Passes ⟨m, none, gone⟩ ⟨m.withThread t, some ⟨id, name, table, m.thread⟩, gone⟩
  /-- The turn is over. -/
  | back (m : Machine) (t : Turn) (gone : List Context) :
      Passes ⟨m, some t, gone⟩
        ⟨(m.putStage t.id (.running t.table m.thread)).withThread t.main, none, gone⟩
  /-- The task has ended. -/
  | finish (m : Machine) (t : Turn) (gone : List Context) {result : Except Fault Unit}
      (hended : m.ended = some result) (hsuspended : m.suspended = []) :
      Passes ⟨m, some t, gone⟩
        ⟨({ m with world := ((Machine.endTask t.name t.table result).run m.world).2 }.putStage t.id
          (.finished result)).withThread t.main, none, m.context :: gone⟩
  | resume (m : Machine) (gone : List Context) (switches : Switches) :
      Passes ⟨m, none, gone⟩ ⟨{ m with context := switches.apply m.context }.resume, none, gone⟩
  | join (m : Machine) (gone : List Context) :
      Passes ⟨m, none, gone⟩ ⟨(Exec.outcome Exec.joinTasks m).2, none, gone⟩

/-- What may happen next. -/
inductive Next (e : Ensemble) : Ensemble → Prop
  | step : Next e e.stepped
  | passes {e' : Ensemble} (h : Passes e e') : Next e e'

/-- The states of the runs of a machine. -/
inductive Reached (start : Machine) : Ensemble → Prop
  | start : Reached start ⟨start, none, []⟩
  | next {e e' : Ensemble} (before : Reached start e) (h : Next e e') : Reached start e'

/-- The task that has its turn is one of the tasks. -/
def Valid (e : Ensemble) : Prop := ∀ t, e.turn = some t → t.id < e.machine.tasks.size

end Ensemble

namespace Machine

theorem tasks_step (m : Machine) : ∃ started : Array Task, (∀ t ∈ started, t.stage.IsPending) ∧
    m.step.1.tasks = m.tasks ++ started := by
  have hready : m.ready.tasks = m.tasks := by
    rcases m.ready_cases with hsame | ⟨s, rest, -, hsame⟩
    · rw [hsame]
    · rw [hsame]
  rw [← hready]
  cases m.step_deals with
  | heeds h hends =>
    obtain ⟨started, hpending, htasks⟩ := h.tasks_eq
    exact ⟨started, hpending, hends.tasks_eq.trans htasks⟩
  | winds h hbegins hends =>
    refine ⟨#[], fun t ht => absurd ht (Array.not_mem_empty t), ?_⟩
    rw [hends.tasks_eq, hbegins.tasks_eq, h.tasks_eq, Array.append_empty]
  | advances hheads h hgoes hends =>
    obtain ⟨l, rest, -, hspares⟩ := hgoes
    refine ⟨#[], fun t ht => absurd ht (Array.not_mem_empty t), ?_⟩
    rw [hends.tasks_eq, hspares.tasks_eq, Array.append_empty]
    exact h.tasks_eq

/-- A thread that has ended has ended for good. -/
theorem step_of_ended {m m' : Machine} {result : Except Fault Unit}
    (h : m.step = (m', .ended result)) : m' = m ∧ m.ended = some result ∧ m.suspended = [] := by
  rcases m.step_eq with ⟨r, hended, hsuspended, hstep⟩ | hstep
  · rw [hstep] at h
    cases h
    exact ⟨rfl, hended, hsuspended⟩
  · rw [hstep, perform_eq] at h
    split at h
    · cases h
    · split at h <;> cases h
    · cases h

end Machine

namespace Ensemble

open Machine

variable {start m : Machine} {e e' : Ensemble} {turn : Option Turn} {gone : List Context}

theorem valid_of_turn_eq_none (h : e.turn = none) : e.Valid := fun t ht => by
  rw [h] at ht
  cases ht

theorem Passes.valid (h : Passes e e') : e'.Valid := by
  cases h with
  | begin m gone htask hbegun =>
    rintro t ⟨⟩
    exact (Array.getElem?_eq_some_iff.1 htask).1
  | take m gone htask =>
    rintro t ⟨⟩
    exact (Array.getElem?_eq_some_iff.1 htask).1
  | back => exact valid_of_turn_eq_none rfl
  | finish => exact valid_of_turn_eq_none rfl
  | resume => exact valid_of_turn_eq_none rfl
  | join => exact valid_of_turn_eq_none rfl

theorem valid_stepped (h : e.Valid) : e.stepped.Valid := by
  intro t ht
  obtain ⟨started, -, htasks⟩ := e.machine.tasks_step
  show t.id < e.machine.step.1.tasks.size
  rw [htasks, Array.size_append]
  exact Nat.lt_add_right _ (h t ht)

/-- **Turns are those of tasks.** -/
theorem Reached.valid (h : Reached start e) : e.Valid := by
  induction h with
  | start => exact valid_of_turn_eq_none rfl
  | next _ h ih =>
    cases h with
    | step => exact valid_stepped ih
    | passes h => exact h.valid

/-! ### Runs pass through such states -/

theorem Reached.advance (limit : Nat) (h : Reached start ⟨m, turn, gone⟩) :
    ∃ gone', Reached start ⟨(m.advance limit).1, turn, gone'⟩ ∧
      ∀ result, (m.advance limit).2 = .ended result →
        (m.advance limit).1.ended = some result ∧ (m.advance limit).1.suspended = [] := by
  unfold Machine.advance
  generalize true = idle
  induction limit generalizing m idle gone with
  | zero => exact ⟨gone, h, fun _ hended => by cases hended⟩
  | succ limit ih =>
    have hstep : Reached start ⟨m.step.1, turn, m.departing ++ gone⟩ := h.next .step
    rw [advanceFrom]
    rcases hm : m.step with ⟨m', _ | _ | result⟩ <;> simp only [hm] at hstep
    · exact ih hstep false
    · exact ⟨_, hstep, fun _ hended => by cases hended⟩
    · obtain ⟨rfl, hended, hsuspended⟩ := step_of_ended hm
      refine ⟨_, hstep, fun r hr => ?_⟩
      cases hr
      exact ⟨hended, hsuspended⟩

theorem Reached.turnOf (limit id : Nat) (name : String) (table : TableId) (t : Thread)
    (h : Reached start ⟨m.withThread t, some ⟨id, name, table, m.thread⟩, gone⟩) :
    ∃ gone', Reached start ⟨(Machine.turnOf limit id name table t m).1, none, gone'⟩ := by
  obtain ⟨gone', hafter, hended⟩ := h.advance limit
  unfold Machine.turnOf
  rcases hm : (m.withThread t).advance limit with ⟨m', _ | idle | result⟩ <;>
    rw [hm] at hafter hended
  · exact ⟨_, hafter.next (.passes (.back _ _ _))⟩
  · exact ⟨_, hafter.next (.passes (.back _ _ _))⟩
  · obtain ⟨hresult, hsuspended⟩ := hended result rfl
    exact ⟨_, hafter.next (.passes (.finish _ _ _ hresult hsuspended))⟩

theorem Reached.takeTurn (limit id : Nat) (h : Reached start ⟨m, none, gone⟩) :
    ∃ gone', Reached start ⟨(m.takeTurn limit id).1, none, gone'⟩ := by
  unfold Machine.takeTurn
  split
  · rename_i htask
    exact Reached.turnOf limit id _ _ _ (h.next (.passes (.begin m gone htask rfl)))
  · rename_i htask
    exact Reached.turnOf limit id _ _ _ (h.next (.passes (.take m gone htask)))
  · exact ⟨gone, h⟩

theorem Reached.takeTurns (limit : Nat) (h : Reached start ⟨m, none, gone⟩) :
    ∃ gone', Reached start ⟨(m.takeTurns limit).1, none, gone'⟩ := by
  unfold Machine.takeTurns
  generalize List.range m.tasks.size = ids
  generalize false = moved
  induction ids generalizing m gone moved with
  | nil => exact ⟨gone, h⟩
  | cons id ids ih =>
    obtain ⟨gone', hafter⟩ := h.takeTurn limit id
    exact ih hafter _

/-- **A run passes through such states.** -/
theorem Reached.run (rounds : Nat) (h : Reached start ⟨m, none, gone⟩) :
    ∃ gone', Reached start ⟨(m.run rounds).1, none, gone'⟩ := by
  induction rounds generalizing m gone with
  | zero => exact ⟨gone, h⟩
  | succ rounds ih =>
    obtain ⟨gone', hafter, -⟩ := h.advance turnLength
    rw [Machine.run]
    rcases hm : m.advance turnLength with ⟨m', _ | idle | result⟩ <;> rw [hm] at hafter
    · obtain ⟨gone'', hturns⟩ := hafter.takeTurns turnLength
      exact ih hturns
    · obtain ⟨gone'', hturns⟩ := hafter.takeTurns turnLength
      dsimp only
      split
      · exact ⟨_, hturns⟩
      · exact ih hturns
    · exact ⟨_, hafter⟩

/-- So does one that is resumed after debugger stops. -/
theorem Reached.playOut (rounds : Nat) (stops : List Switches)
    (h : Reached start ⟨m, none, gone⟩) :
    ∃ gone', Reached start ⟨(m.playOut rounds stops).1, none, gone'⟩ := by
  induction stops generalizing m gone with
  | nil => exact h.run rounds
  | cons s rest ih =>
    obtain ⟨gone', hafter⟩ := h.run rounds
    rw [Machine.playOut]
    rcases hm : m.run rounds with ⟨m', _ | (f | u)⟩ <;> rw [hm] at hafter
    · exact ⟨_, hafter⟩
    · dsimp only
      split
      · exact ih (hafter.next (.passes (.resume _ _ s)))
      · exact ⟨_, hafter⟩
    · exact ⟨_, hafter⟩

/-- And so does the wait for the tasks. -/
theorem Reached.join (rounds : Nat) (h : Reached start ⟨m, none, gone⟩) :
    ∃ gone', Reached start ⟨(Machine.join rounds m).1, none, gone'⟩ := by
  induction rounds generalizing m gone with
  | zero => exact ⟨gone, h⟩
  | succ rounds ih =>
    have hjoin := h.next (.passes (.join _ _))
    rw [Machine.join]
    unfold Exec.outcome at hjoin
    rcases hm : (Exec.joinTasks.run.run m : Except Halt Unit × Machine) with ⟨(f | _) | u, m'⟩ <;>
      simp only [hm] at hjoin
    · exact ⟨_, hjoin⟩
    · obtain ⟨gone', hturns⟩ := h.takeTurns turnLength
      dsimp only
      split
      · exact ih hturns
      · exact ⟨_, hturns⟩
    · exact ⟨_, hjoin⟩

end Ensemble

end ScriptMachine
