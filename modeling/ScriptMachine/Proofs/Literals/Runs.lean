import ScriptMachine.Proofs.Literals.Calls
import ScriptMachine.Proofs.Loops.Ensemble

/-!
# Runs apart from literals

A run does not change the literals of its code, and a literal that is pushed is a fresh copy each time.

* `Machine.Apart.step`: every step keeps a machine apart from the literals of its code.
* `Ensemble.Apart`: all threads of a run are apart from them.
* `Ensemble.literals_unchanged`: so they are unchanged in every state of a run.
-/

namespace ScriptMachine

variable {L : Literals}

/-! ### Steps -/

namespace Machine.Apart

variable {m : Machine}

/-- Whatever an action comes to, the machine stays apart from the literals. -/
theorem outcome {α : Type} {act : Exec α} {P : α → Prop} (hm : m.Apart L)
    (hact : Exec.Upholds L act P) : (Exec.outcome act m).2.Apart L := (hact m hm).1

theorem ready (hm : m.Apart L) : m.ready.Apart L := by
  unfold Machine.ready
  split
  · rename_i s rest _ hsuspended
    have hall := hm.suspended
    rw [hsuspended] at hall
    obtain ⟨hs, hrest⟩ := List.forall_mem_cons.1 hall
    exact { hm with context := hs.context, suspended := hrest }
  · exact hm

/-- The next instruction is one of the code that runs. -/
theorem next (hm : m.Apart L) {i : Instruction} (hi : m.next? = some i) :
    ∃ n, i.operand.Spells L n := by
  obtain ⟨n, hcode⟩ := hm.context.code
  unfold Machine.next? at hi
  split at hi
  · exact ⟨n, hcode i (Array.mem_of_getElem? hi)⟩
  · cases hi

theorem action (hm : m.Apart L) : Exec.Upholds L m.action fun _ => True := by
  unfold Machine.action
  split
  · exact .pure trivial
  · rename_i s rest _ hsuspended
    have hs := hm.suspended s (by rw [hsuspended]; exact List.mem_cons_self)
    exact Exec.Upholds.afterScratch hs.awaiting _ _
  · split
    · rename_i i hi
      obtain ⟨n, hoperand⟩ := hm.next hi
      exact .bind (Exec.Upholds.begin i) fun _ _ => Exec.Upholds.execute hoperand
    · exact Exec.Upholds.finish

/-- **Every step keeps a machine apart** from the literals of its code. -/
theorem step (hm : m.Apart L) : m.step.1.Apart L := by
  have hattempt : m.attempt.2.Apart L := hm.ready.outcome hm.action
  rcases m.step_cases with ⟨hok, -⟩ | ⟨f, m₁, hfault, hsettle, -⟩ | ⟨hwait, -⟩
  · rw [hok] at hattempt
    exact hattempt
  · rw [hfault] at hattempt
    have hsettled := hattempt.outcome (Exec.Upholds.settle f)
    rw [hsettle] at hsettled
    exact hsettled
  · rw [hwait]
    exact hm.ready

/-- A machine that is about to run code has no values yet but those of the world. -/
theorem ofCode {w : World} (hw : w.Apart L) {code : Code} (hcode : code.Spells L)
    (symbols : TableId) :
    Machine.Apart L (.ofContext w { name := "main", thread := 1, symbols, code, running := true })
    where
  world := hw
  context :=
    { code := hcode
      stack := fun _ hs => absurd hs (Array.not_mem_empty _)
      receivers := fun _ hr => absurd hr List.not_mem_nil
      deferred := fun _ hd => absurd hd List.not_mem_nil
      result := fun _ hv => absurd hv (Option.some_ne_none _).symm
      loops := fun _ hl => absurd hl List.not_mem_nil }
  suspended _ hs := absurd hs List.not_mem_nil
  tasks _ ht := absurd ht (Array.not_mem_empty _)

/-! ### Threads -/

theorem thread (hm : m.Apart L) : m.thread.Apart L := ⟨hm.context, hm.suspended⟩

theorem withThread (hm : m.Apart L) {t : Thread} (ht : t.Apart L) : (m.withThread t).Apart L :=
  { hm with context := ht.context, suspended := ht.suspended }

theorem inWorld (hm : m.Apart L) {w : World} (hw : w.Apart L) :
    ({ m with world := w } : Machine).Apart L := { hm with world := hw }

theorem stage (hm : m.Apart L) {id : Nat} {name : String} {stage : TaskStage}
    (htask : m.tasks[id]? = some ⟨name, stage⟩) : stage.Apart L :=
  hm.tasks ⟨name, stage⟩ (Array.mem_of_getElem? htask)

theorem putStage (hm : m.Apart L) (id : Nat) {stage : TaskStage} (hstage : stage.Apart L) :
    (m.putStage id stage).Apart L := by
  refine { hm with tasks := fun t ht => ?_ }
  obtain ⟨i, hi, rfl⟩ := Array.mem_iff_getElem.1 ht
  simp only [Machine.putStage, Array.getElem_modify]
  split
  · exact hstage
  · exact hm.tasks _ (Array.getElem_mem _)

end Machine.Apart

theorem World.Apart.beginTask (name : String) {callable : Value} {args : List Value}
    (settings : Settings) (hcallable : callable.Apart L) (hargs : ∀ v ∈ args, v.Apart L) :
    Maintains (World.Apart L) (Machine.beginTask name callable args settings)
      fun p => p.2.Apart L := by
  refine .bind (newChild _ _ _) fun _ _ => .bind (Exec.Upholds.callContext _ _ hcallable hargs)
    fun _ hc => .bind (Exec.Upholds.start hc 0) fun c hstarted => .pure ?_
  exact Thread.Apart.mk hstarted fun s hs => absurd hs List.not_mem_nil

theorem World.Apart.endTask (name : String) (table : TableId) (result : Except Fault Unit) :
    Maintains (World.Apart L) (Machine.endTask name table result) fun _ => True := by
  refine .bind (remove table) fun _ _ => ?_
  cases result with
  | ok u => exact .pure trivial
  | error f => exact emit _ _

/-! ### Runs of all threads -/

/-- All threads are apart from the literals, also the main thread while a task has its turn. -/
structure Ensemble.Apart (L : Literals) (e : Ensemble) : Prop where
  machine : e.machine.Apart L
  main : ∀ t, e.turn = some t → t.main.Apart L

namespace Ensemble.Apart

open Machine

variable {e e' : Ensemble}

/-- While the main thread has its turn, no other thread waits for its own. -/
theorem ofMain {m : Machine} (hm : m.Apart L) (gone : List Context) :
    Ensemble.Apart L ⟨m, none, gone⟩ where
  machine := hm
  main _ hsame := by cases hsame

theorem ofTask {m : Machine} {t : Turn} (hm : m.Apart L) (ht : t.main.Apart L)
    (gone : List Context) : Ensemble.Apart L ⟨m, some t, gone⟩ where
  machine := hm
  main _ hsame := by
    cases hsame
    exact ht

theorem passes (he : e.Apart L) (h : Passes e e') : e'.Apart L := by
  have hm := he.machine
  cases h with
  | begin m gone htask hbegun =>
    obtain ⟨hcallable, hargs⟩ := hm.stage htask
    obtain ⟨hworld, hthread⟩ := World.Apart.beginTask _ _ hcallable hargs m.world hm.world
    rw [hbegun] at hworld hthread
    exact ofTask ((hm.inWorld hworld).withThread hthread) hm.thread gone
  | take m gone htask => exact ofTask (hm.withThread (hm.stage htask)) hm.thread gone
  | back m t gone =>
    have hstage : TaskStage.Apart L (.running t.table m.thread) := hm.thread
    exact ofMain ((hm.putStage t.id hstage).withThread (he.main t rfl)) gone
  | @finish m t gone result =>
    have hworld := (World.Apart.endTask t.name t.table result m.world hm.world).1
    have hstage : TaskStage.Apart L (.finished result) := trivial
    exact ofMain (((hm.inWorld hworld).putStage t.id hstage).withThread (he.main t rfl)) _
  | resume m gone switches =>
    obtain ⟨hworld, hcontext⟩ := Exec.Upholds.start (c := switches.apply m.context)
      { hm.context with } (switches.apply m.context).pc m.world hm.world
    have hresumed : Machine.Apart L
        ({ m with context := switches.apply m.context } : Machine).resume :=
      ⟨hworld, hcontext, hm.suspended, hm.tasks⟩
    exact ofMain hresumed gone
  | join m gone => exact ofMain (hm.outcome Exec.Upholds.joinTasks) gone

/-- **All threads of a run are apart** from the literals of their code. -/
theorem reached {start : Machine} (hstart : start.Apart L) (h : Reached start e) : e.Apart L := by
  induction h with
  | start => exact ofMain hstart []
  | next _ h ih =>
    cases h with
    | step => exact ⟨ih.machine.step, ih.main⟩
    | passes h => exact ih.passes h

end Ensemble.Apart

/-- What pushing a literal comes to. -/
theorem Exec.outcome_pushLiteral (v : Value) (m : Machine) :
    Exec.outcome (Exec.pushLiteral v) m = (.ok (), { m with
      world := { m.world with heap := ((Heap.deepCopy v.unwrapped).run m.world.heap).2 }
      context := { m.context with
        stack := m.context.stack.push
          (.value ((Heap.deepCopy v.unwrapped).run m.world.heap).1) } }) := rfl

namespace Ensemble

/-- **A run leaves literals as they are**: as long as the values of a machine lead to the containers of
some literals through operands alone, these stay what they are, with their flags and types, and
each time that a `Push` is executed, a fresh copy of what its operand has held from the start is
pushed. -/
theorem literals_unchanged {start : Machine} {e : Ensemble} (hstart : start.Apart L)
    (hreached : Reached start e) :
    L.Within start.world.heap ∧ L.Within e.heap ∧
      ∀ i ∈ e.machine.context.code.ops, i.op = .push → ∃ w m',
        Exec.outcome (Exec.execute i) e.machine = (.ok (), m') ∧
        m'.context.stack = e.machine.context.stack.push (.value w) ∧
        L.Copied i.operand.unwrapped e.heap w m'.world.heap := by
  have hafter := (Apart.reached hstart hreached).machine
  refine ⟨hstart.world.heap.literals, hafter.world.heap.literals, ?_⟩
  rintro ⟨op, operand⟩ hi hop
  obtain rfl : op = .push := hop
  obtain ⟨n, hcode⟩ := hafter.context.code
  have hcopied := (hcode _ hi).unwrapped.deepCopy hafter.world.heap
  exact ⟨_, _, Exec.outcome_pushLiteral operand e.machine, rfl, hcopied⟩

/-- A machine about to write into a copy of the literal `[1]`, and to push another one. -/
def literalWriter : Machine :=
  .ofContext { heap := { arrays := #[{ element := .interface, values := #[.ofNat 1] }] } } {
    name := "main"
    thread := 1
    symbols := .root
    code := ⟨"main", #[⟨.push, .ofNat 9⟩, ⟨.push, .array ⟨0⟩⟩, ⟨.push, .ofNat 0⟩,
      .plain .storeIndex, ⟨.push, .array ⟨0⟩⟩], none, true, false⟩
    running := true }

/-- Its one literal. -/
def literalWriter.literals : Literals where
  array? r := if r.id = 0 then some { element := .interface, values := #[.ofNat 1] } else none
  map? _ := none
  struct? _ := none

theorem literalWriter_apart : literalWriter.Apart literalWriter.literals := by
  have hone : (Value.ofNat 1).Apart literalWriter.literals := .ofNat 1
  have hliteral : (Value.array ⟨0⟩).Spells literalWriter.literals 1 :=
    .container rfl fun v hv => by
      obtain rfl := List.mem_singleton.1 hv
      exact .apart hone
  have harrays : Guarded (fun i => literalWriter.literals.array? ⟨i⟩)
      (ArrayObject.Apart literalWriter.literals) ⟨.interface, #[], 0⟩
      literalWriter.world.heap.arrays := by
    refine ⟨fun i a ha => ?_, fun i hi => ?_⟩
    · obtain ⟨rfl, ha⟩ := Option.ite_none_right_eq_some.1 ha
      exact ha
    · have hne : i ≠ 0 := by
        rintro rfl
        cases hi
      have hvacant : literalWriter.world.heap.arrays[i]? = none :=
        Array.getElem?_eq_none (Nat.one_le_iff_ne_zero.2 hne)
      rw [hvacant]
      exact fun _ hv => absurd hv (Array.not_mem_empty _)
  refine .ofCode ⟨⟨harrays, .empty ?_, .empty ?_, .empty ?_, .empty ?_, .empty ?_⟩,
    .initial⟩ (.operands 1 fun i hi => ?_) .root
  · exact fun _ hp => absurd hp List.not_mem_nil
  · exact fun _ hp => absurd hp List.not_mem_nil
  · exact fun _ hp => absurd hp List.not_mem_nil
  · exact fun _ hp => absurd hp List.not_mem_nil
  · exact fun _ hp => absurd hp List.not_mem_nil
  · have hcases := Array.mem_toList_iff.2 hi
    simp only [List.mem_cons, List.not_mem_nil, or_false] at hcases
    rcases hcases with rfl | rfl | rfl | rfl | rfl
    · exact .apart (.ofNat 9)
    · exact hliteral
    · exact .apart (.ofNat 0)
    · exact .apart (.plain rfl rfl)
    · exact hliteral

/-- The copy is written, and the literal is not; what is pushed next is another copy of it. -/
theorem literals_unchanged_of_writer :
    let e := (⟨literalWriter, none, []⟩ : Ensemble).stepped.stepped.stepped.stepped
    literalWriter.Apart literalWriter.literals ∧ Reached literalWriter e ∧
      e.heap.display (.array ⟨1⟩) = "[9]" ∧ literalWriter.literals.Within e.heap ∧
      ∃ w h, literalWriter.literals.Copied (.array ⟨0⟩) e.heap w h := by
  intro e
  have hreached : Reached literalWriter e :=
    (((Reached.start.next .step).next .step).next .step).next .step
  obtain ⟨-, hwithin, hpush⟩ := literals_unchanged literalWriter_apart hreached
  have hcode : e.machine.context.code = literalWriter.context.code := by with_unfolding_all rfl
  obtain ⟨w, m', -, -, hcopied⟩ := hpush ⟨.push, .array ⟨0⟩⟩
    (by rw [hcode]; exact Array.mem_iff_getElem.2 ⟨1, by decide, rfl⟩) rfl
  exact ⟨literalWriter_apart, hreached, by decide +kernel, hwithin, w, _, hcopied⟩

end Ensemble

end ScriptMachine
