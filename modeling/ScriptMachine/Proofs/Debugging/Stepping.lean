import ScriptMachine.Proofs.Debugging.Leaving
import ScriptMachine.Proofs.Frames.Steps

/-!
# Steps with a debugger and without

Two machines are alike if they look the same under a veil that covers all events of the journal.
Their steps are alike too, unless a debugger stops one of them: then it has recorded the line, as the
other one has, and resuming it makes them alike again.

* `Machine.Alike`: machines that look the same; `IsDiscreet.alike`.
* `Exec.recordLine`, `Machine.work`: a step but for the debugger.
* `Machine.Stops`, `Stops.resume_alike`: where a debugger takes over, and that resuming makes up for
  it; `Alike.step`: all other steps.
-/

namespace ScriptMachine

namespace Machine

/-- What is to be seen of a machine: not the events of the journal, not the debugger, and not the
step flags if `hides` holds. -/
def bare (hides : Bool) (m : Machine) : Machine :=
  { m.veiled { hidesSteps := hides } with
    world := { m.world with journal := { m.world.journal with events := #[] } } }

/-- Machines that look the same. -/
def Alike (hides : Bool) (m n : Machine) : Prop := m.bare hides = n.bare hides

end Machine

variable {hides : Bool} {b : Bool}

/-! ### Looking the same -/

theorem Journal.note_erased (j : Journal) (c : Category) (message : Unit → String) :
    ({ j.note c message with events := #[] } : Journal) = { j with events := #[] } := by
  unfold Journal.note
  split <;> rfl

theorem Frame.veiled_veiled (events : Array Event) (k : Veil) (f : Frame) :
    (f.veiled k).veiled ⟨events, k.hidesSteps⟩ = f.veiled k := by
  simp only [Frame.veiled, Veil.dim_dim]

theorem Slot.veiled_veiled (events : Array Event) (k : Veil) (s : Slot) :
    (s.veiled k).veiled ⟨events, k.hidesSteps⟩ = s.veiled k := by
  cases s with
  | value v => rfl
  | frame f => exact congrArg Slot.frame (f.veiled_veiled events k)

theorem Context.veiled_veiled (events : Array Event) (k : Veil) (c : Context) :
    (c.veiled k).veiled ⟨events, k.hidesSteps⟩ = c.veiled k := by
  have hslots : Slot.veiled ⟨events, k.hidesSteps⟩ ∘ Slot.veiled k = Slot.veiled k :=
    funext fun s => s.veiled_veiled events k
  simp only [Context.veiled, Array.map_map, hslots, Veil.dim_dim]

theorem Suspended.veiled_veiled (events : Array Event) (k : Veil) (s : Suspended) :
    (s.veiled k).veiled ⟨events, k.hidesSteps⟩ = s.veiled k := by
  simp only [Suspended.veiled, Context.veiled_veiled]

namespace Machine

variable {m n : Machine}

/-- What is to be seen of a machine, with the events of its journal, is the machine under a veil. -/
theorem veiled_bare (m : Machine) :
    (m.bare hides).veiled ⟨m.world.journal.events, hides⟩
      = m.veiled { hidesSteps := hides } := by
  have hsuspended : Suspended.veiled ⟨m.world.journal.events, hides⟩
      ∘ Suspended.veiled { hidesSteps := hides } = Suspended.veiled { hidesSteps := hides } :=
    funext fun s => s.veiled_veiled _ { hidesSteps := hides }
  have hcontext := m.context.veiled_veiled m.world.journal.events { hidesSteps := hides }
  have hworld : m.world.after #[] = m.world := by
    simp only [World.after, Array.empty_append]
  simp only [veiled, bare, List.map_map, hsuspended, hcontext, hworld]
  simp only [World.after, Array.append_empty]

/-- A veil does not change what is to be seen. -/
theorem bare_veiled (m : Machine) (events : Array Event) :
    (m.veiled ⟨events, hides⟩).bare hides = m.bare hides := by
  have hsuspended : Suspended.veiled { hidesSteps := hides }
      ∘ Suspended.veiled ⟨events, hides⟩ = Suspended.veiled ⟨events, hides⟩ :=
    funext fun s => s.veiled_veiled #[] ⟨events, hides⟩
  have hcontext := m.context.veiled_veiled #[] ⟨events, hides⟩
  simp only [veiled, bare, List.map_map, hsuspended, hcontext]
  rfl

theorem Tended.bare (h : m.Tended b) : (m.bare hides).Tended false :=
  ⟨h.attended.veiled _, h.tasks_eq, h.quiet⟩

namespace Alike

theorem symm (h : m.Alike hides n) : n.Alike hides m := Eq.symm h

theorem trans {o : Machine} (h : m.Alike hides n) (h' : n.Alike hides o) : m.Alike hides o :=
  Eq.trans h h'

/-- A part that no veil covers is the same in machines that look the same. -/
theorem part {σ : Type} (part : Machine → σ) (h : m.Alike hides n)
    (hpart : ∀ m, part (m.bare hides) = part m) : part m = part n := by
  rw [← hpart m, ← hpart n, h]

theorem ended_eq (h : m.Alike hides n) : m.ended = n.ended := h.part (·.ended) fun _ => rfl

theorem next?_eq (h : m.Alike hides n) : m.next? = n.next? := h.part next? fun _ => rfl

end Alike

end Machine

namespace Exec

variable {α : Type} {m n : Machine}

/-- A discreet action does on a machine what it does on all that is to be seen of it. -/
theorem IsDiscreet.bare {act : Exec α} (hact : IsDiscreet act) (hides : Bool) (hm : m.Tended b) :
    (outcome act m).1 = (outcome act (m.bare hides)).1 ∧
      (outcome act m).2.Alike hides (outcome act (m.bare hides)).2 := by
  obtain ⟨hveiled, -⟩ := hact { hidesSteps := hides } b m hm
  obtain ⟨hbare, -⟩ := hact ⟨m.world.journal.events, hides⟩ false (m.bare hides) hm.bare
  rw [Machine.veiled_bare, hveiled] at hbare
  obtain ⟨hresult, hafter⟩ := Prod.mk.inj hbare
  refine ⟨hresult, ?_⟩
  have hseen := congrArg (Machine.bare hides) hafter
  rwa [Machine.bare_veiled, Machine.bare_veiled] at hseen

/-- **A discreet action does the same on machines that look the same**, and leaves them so. -/
theorem IsDiscreet.alike {b' : Bool} {act : Exec α} (hact : IsDiscreet act)
    (halike : m.Alike hides n) (hm : m.Tended b) (hn : n.Tended b') :
    (outcome act m).1 = (outcome act n).1 ∧
      (outcome act m).2.Alike hides (outcome act n).2 := by
  have hleft := hact.bare hides hm
  have hright := hact.bare hides hn
  rw [halike] at hleft
  exact ⟨hleft.1.trans hright.1.symm, hleft.2.trans hright.2.symm⟩

/-! ### The debugger -/

/-- Records the source line. -/
def recordLine (operand : Value) : Exec Unit := do
  let line ← operand.toIndex
  modifyContext fun c => { c with line }

/-- The line is recorded; then the debugger takes over if it steps. -/
theorem outcome_atLine {operand : Value} {line : Nat} (hline : operand.toIndex = .ok line)
    (m : Machine) : outcome (atLine operand) m =
      (if m.context.debugging && m.context.singleStep then .error (.fault (.bare .signalDebugger))
        else .ok (), (outcome (recordLine operand) m).2) := by
  unfold atLine recordLine
  rw [hline]
  show outcome (if m.context.debugging && m.context.singleStep then _ else _)
    { m with context := { m.context with line } } = _
  split <;> rfl

/-- Without a debugger that steps, the line is recorded and nothing else. -/
theorem outcome_atLine_unattended (operand : Value) {m : Machine}
    (h : (m.context.debugging && m.context.singleStep) = false) :
    outcome (atLine operand) m = outcome (recordLine operand) m := by
  cases hline : operand.toIndex with
  | error f =>
    unfold atLine recordLine
    rw [hline]
    rfl
  | ok line =>
    rw [outcome_atLine hline, h]
    unfold recordLine
    rw [hline]
    rfl

/-- An instruction but for the debugger. -/
def executeUnattended (i : Instruction) : Exec Unit :=
  if i.op = .atLine then recordLine i.operand else execute i

theorem IsDiscreet.executeUnattended {i : Instruction} (hgo : i.op ≠ .go) :
    IsDiscreet (Exec.executeUnattended i) := by
  unfold Exec.executeUnattended
  split
  · exact (lift _).bind fun _ => adjust (fun _ _ => rfl) fun _ => rfl
  · rename_i hline
    by_cases hreturn : i.op = .return
    · obtain ⟨op, operand⟩ := i
      cases hreturn
      exact return_ operand
    · exact execute_isDiscreet hline hgo hreturn

/-- An action whose fault is dealt with. -/
def settled (act : Exec Unit) : Exec Unit :=
  tryCatch act fun halt =>
    match halt with
    | .fault f => settle f
    | .blocked => wait

theorem IsDiscreet.settled {act : Exec Unit} (hact : IsDiscreet act) :
    IsDiscreet (Exec.settled act) := by
  refine hact.tryCatch fun halt hquiet => ?_
  cases halt with
  | fault f => exact .settle hquiet
  | blocked => exact .wait

end Exec

namespace Machine

variable {m n : Machine}

theorem perform_eq_settled (m : Machine) (act : Exec Unit) :
    m.perform act = match Exec.outcome (Exec.settled act) m with
      | (.ok (), m') => (m', .running)
      | (.error _, _) => (m, .blocked) := rfl

/-- What the next step attempts, but for the debugger. -/
def work (m : Machine) : Exec Unit :=
  match m.ended, m.suspended with
  | some _, [] => pure ()
  | some result, s :: _ => Exec.afterScratch s.awaiting m.context result
  | none, _ =>
    match m.next? with
    | some i => do
      Exec.begin i
      Exec.executeUnattended i
    | none => Exec.finish

/-- The next step starts no task. -/
def StaysAlone (m : Machine) : Prop :=
  m.ended = none → ∀ i, m.next? = some i → i.op ≠ .go

theorem work_isDiscreet (hm : m.Tended b) (halone : m.StaysAlone) :
    Exec.IsDiscreet m.work := by
  unfold work
  split
  · exact .pure ()
  · rename_i result s rest hended _
    have hquiet : Quiet result := ⟨fun f hf => hm.quiet f (hended.trans (congrArg some hf))⟩
    exact .afterScratch _ _ _
  · rename_i hended
    split
    · rename_i i hnext
      exact (Exec.IsDiscreet.begin i).bind fun _ => .executeUnattended (halone hended i hnext)
    · exact .finish

theorem work_bare (m : Machine) : (m.bare hides).work = m.work := by
  have hended : (m.bare hides).ended = m.ended := rfl
  have hnext : (m.bare hides).next? = m.next? := rfl
  have hsuspended : (m.bare hides).suspended
      = m.suspended.map (Suspended.veiled { hidesSteps := hides }) := rfl
  unfold work
  rw [hended, hnext, hsuspended]
  cases m.ended with
  | none => rfl
  | some result =>
    cases m.suspended with
    | nil => rfl
    | cons s rest => exact Exec.afterScratch_veiled s.awaiting m.context result

theorem ready_bare (m : Machine) : (m.bare hides).ready = m.ready.bare hides := by
  have hended : (m.bare hides).ended = m.ended := rfl
  have hsuspended : (m.bare hides).suspended
      = m.suspended.map (Suspended.veiled { hidesSteps := hides }) := rfl
  unfold ready
  rw [hended, hsuspended]
  cases m.ended with
  | none => rfl
  | some result =>
    cases m.suspended with
    | nil => rfl
    | cons s rest => rfl

theorem Alike.work_eq (h : m.Alike hides n) : m.work = n.work := h.part work work_bare

theorem Alike.ready (h : m.Alike hides n) : m.ready.Alike hides n.ready := by
  show m.ready.bare hides = n.ready.bare hides
  rw [← ready_bare, ← ready_bare, h]

theorem Tended.ready (h : m.Tended b) : m.ready.Tended b := by
  unfold Machine.ready
  split
  · rename_i s rest _ hsuspended
    have hattended := h.attended
    rw [hsuspended] at hattended
    exact ⟨hattended.2.2, h.tasks_eq, nofun⟩
  · exact h

/-! ### Steps -/

/-- The next instruction records a line, and a debugger that steps takes over there. -/
structure Stops (m : Machine) (operand : Value) (line : Nat) : Prop where
  going : m.ended = none
  next : m.next? = some ⟨.atLine, operand⟩
  line_eq : operand.toIndex = .ok line
  steps : (m.context.debugging && m.context.singleStep) = true

/-- Unless a debugger takes over, a step does its work. -/
theorem attempt_eq_work (h : ∀ operand line, ¬ m.Stops operand line) :
    m.attempt = Exec.outcome m.work m.ready := by
  unfold attempt action work
  cases hended : m.ended with
  | some result => cases m.suspended <;> rfl
  | none =>
    have hready : m.ready = m := by
      rw [Machine.ready, hended]
    cases hnext : m.next? with
    | none => rfl
    | some i =>
      dsimp only
      rw [hready]
      unfold Exec.executeUnattended
      split
      · obtain ⟨op, operand⟩ := i
        rename_i hline
        cases hline
        obtain ⟨j, running, observer, hbegin⟩ := Exec.outcome_begin ⟨.atLine, operand⟩ m
        rw [Exec.outcome_bind_ok hbegin, Exec.outcome_bind_ok hbegin]
        show Exec.outcome (Exec.atLine operand) _ = _
        cases hsteps : (m.context.debugging && m.context.singleStep) with
        | false => exact Exec.outcome_atLine_unattended operand hsteps
        | true =>
          -- The operand is no line, since nothing stops here.
          cases hindex : operand.toIndex with
          | error f =>
            unfold Exec.atLine Exec.recordLine
            rw [hindex]
            rfl
          | ok line => exact absurd ⟨hended, hnext, hindex, hsteps⟩ (h operand line)
      · rfl

theorem perform_congr {act act' : Exec Unit} (h : Exec.outcome act m = Exec.outcome act' m) :
    m.perform act = m.perform act' := by
  rw [perform_eq, perform_eq, h]

/-- A step whose action is discreet is the same on machines that look the same. -/
theorem Alike.perform {b' : Bool} {act : Exec Unit} (hact : Exec.IsDiscreet act)
    (h : m.Alike hides n) (hm : m.Tended b) (hn : n.Tended b') :
    (m.perform act).2 = (n.perform act).2 ∧
      (m.perform act).1.Alike hides (n.perform act).1 ∧ (m.perform act).1.Tended b := by
  have hsettled := hact.settled
  obtain ⟨hresult, hafter⟩ := hsettled.alike h hm hn
  have htended := (hsettled { hidesSteps := hides } b m hm).2.1
  rw [perform_eq_settled, perform_eq_settled]
  rcases hleft : Exec.outcome (Exec.settled act) m with ⟨_ | _, m'⟩ <;>
    rcases hright : Exec.outcome (Exec.settled act) n with ⟨_ | _, n'⟩ <;>
    rw [hleft, hright] at hresult hafter
  · exact ⟨rfl, h, hm⟩
  · cases hresult
  · cases hresult
  · rw [hleft] at htended
    exact ⟨rfl, hafter, htended⟩

/-- A thread that has ended, and that no context waits for, stays as it is. -/
theorem step_of_over {result : Except Fault Unit} (hended : m.ended = some result)
    (hsuspended : m.suspended = []) : m.step = (m, .ended result) := by
  unfold step
  rw [hended, hsuspended]

/-- **Unless a debugger takes over, steps of machines that look the same are the same.** -/
theorem Alike.step {b' : Bool} (h : m.Alike hides n) (hm : m.Tended b) (hn : n.Tended b')
    (halone : n.StaysAlone) (hleft : ∀ operand line, ¬ m.Stops operand line)
    (hright : ∀ operand line, ¬ n.Stops operand line) :
    m.step.2 = n.step.2 ∧ m.step.1.Alike hides n.step.1 ∧ m.step.1.Tended b := by
  rcases m.step_eq with ⟨result, hended, hsuspended, hstep⟩ | hstep
  · have hended' : n.ended = some result := by
      rw [← h.ended_eq, hended]
    have hsuspended' : n.suspended = [] := by
      have hlength := h.part (·.suspended.length) fun m => List.length_map _
      rw [hsuspended] at hlength
      exact List.length_eq_zero_iff.1 hlength.symm
    rw [hstep, step_of_over hended' hsuspended']
    exact ⟨rfl, h, hm⟩
  · rcases n.step_eq with ⟨result, hended, hsuspended, hstep'⟩ | hstep'
    · have hended' : m.ended = some result := by
        rw [h.ended_eq, hended]
      have hsuspended' : m.suspended = [] := by
        have hlength := h.part (·.suspended.length) fun m => List.length_map _
        rw [hsuspended] at hlength
        exact List.length_eq_zero_iff.1 hlength
      rw [hstep', step_of_over hended' hsuspended']
      exact ⟨rfl, h, hm⟩
    · rw [hstep, hstep', perform_congr (attempt_eq_work hleft),
        perform_congr (attempt_eq_work hright), h.work_eq]
      exact h.ready.perform (work_isDiscreet hn halone) hm.ready hn.ready

/-! ### Stops -/

/-- An instruction begins in a context that goes on. -/
theorem begin_keeps_running {i : Instruction} (hm : m.Tended b)
    (hrunning : m.context.running = true) :
    (Exec.outcome (Exec.begin i) m).2.context.running = true := by
  have hmodify : Exec.IsDiscreet (Exec.modifyContext fun c => { c with pc := m.context.pc + 1 }) :=
    .adjust (fun _ _ => rfl) fun _ => rfl
  have htended := (hmodify { hidesSteps := false } b m hm).2.1
  have hobserved := (Exec.IsDiscreet.observe
    (.instruction m.context.pc i.op m.context.stack.size) { hidesSteps := false } b _ htended).2.1
  obtain ⟨j, o, hout⟩ := Exec.outcome_observe
    (.instruction m.context.pc i.op m.context.stack.size)
    { m with context := { m.context with pc := m.context.pc + 1 } }
  rw [Exec.outcome_modifyContext, hout] at hobserved
  have hallow : o.allowance = none := hobserved.attended.allowance_eq
  rw [Exec.begin, Exec.outcome_bind_ok (Exec.outcome_context m),
    Exec.outcome_bind_ok (Exec.outcome_modifyContext _ m),
    Exec.outcome_bind_ok (Exec.outcome_context _), Exec.outcome_bind_ok hout]
  show (m.context.running && !o.isLast) = true
  rw [hrunning, Observer.isLast, hallow]
  rfl

/-- The machine once a line is recorded. -/
def recorded (m : Machine) (operand : Value) : Machine :=
  (Exec.outcome (do
    Exec.begin ⟨.atLine, operand⟩
    Exec.recordLine operand) m).2

/-- Recording a line goes on to the next instruction. -/
theorem recorded_eq {operand : Value} {line : Nat} (hline : operand.toIndex = .ok line)
    (hm : m.Tended b) (hrunning : m.context.running = true) : ∃ journal observer,
      m.recorded operand = { m with
        world := { m.world with journal }
        context := { m.context with pc := m.context.pc + 1, observer, line } } := by
  obtain ⟨j, running, observer, hbegin⟩ := Exec.outcome_begin ⟨.atLine, operand⟩ m
  have hgoes := begin_keeps_running (i := ⟨.atLine, operand⟩) hm hrunning
  rw [hbegin] at hgoes
  have hsame : running = m.context.running := hgoes.trans hrunning.symm
  subst hsame
  refine ⟨j, observer, ?_⟩
  rw [recorded, Exec.outcome_bind_ok hbegin, Exec.recordLine, hline]
  rfl

namespace Stops

variable {operand : Value} {line : Nat}

theorem running (h : m.Stops operand line) : m.context.running = true := by
  have hnext := h.next
  unfold next? at hnext
  split at hnext
  · assumption
  · cases hnext

/-- A debugger attends to the outermost context only. -/
theorem suspended_eq (h : m.Stops operand line) (hm : m.Tended b) : m.suspended = [] := by
  have hattended := hm.attended
  cases hsuspended : m.suspended with
  | nil => rfl
  | cons s rest =>
    have hsteps := h.steps
    rw [hsuspended] at hattended
    rw [hattended.1] at hsteps
    cases hsteps

/-- The step of a machine that stops: the line is recorded, and the run ends with a signal. -/
theorem step_eq (h : m.Stops operand line) : m.step =
    ({ m.recorded operand with ended := some (.error (.bare .signalDebugger)) }, .running) := by
  obtain ⟨j, running, observer, hbegin⟩ := Exec.outcome_begin ⟨.atLine, operand⟩ m
  have hout : Exec.outcome (do
      Exec.begin ⟨.atLine, operand⟩
      Exec.execute ⟨.atLine, operand⟩) m
        = (.error (.fault (.bare .signalDebugger)), m.recorded operand) := by
    rw [recorded, Exec.outcome_bind_ok hbegin, Exec.outcome_bind_ok hbegin]
    show Exec.outcome (Exec.atLine operand) _ = _
    rw [Exec.outcome_atLine h.line_eq, if_pos h.steps]
  unfold Machine.step
  rw [h.going, h.next]
  dsimp only
  rw [perform_eq, hout]
  rfl

end Stops

/-- **A machine without a debugger goes on** where one with a debugger stops. -/
theorem step_of_line {operand : Value} {line : Nat} (hn : n.Tended false)
    (hgoing : n.ended = none) (hnext : n.next? = some ⟨.atLine, operand⟩)
    (hline : operand.toIndex = .ok line) : n.step = (n.recorded operand, .running) := by
  obtain ⟨j, running, observer, hbegin⟩ := Exec.outcome_begin ⟨.atLine, operand⟩ n
  have hout : Exec.outcome (do
      Exec.begin ⟨.atLine, operand⟩
      Exec.execute ⟨.atLine, operand⟩) n = (.ok (), n.recorded operand) := by
    have hfree : (n.context.debugging && n.context.singleStep) = false := by
      rw [hn.attended.debugging_eq]
      rfl
    rw [recorded, Exec.outcome_bind_ok hbegin, Exec.outcome_bind_ok hbegin]
    show Exec.outcome (Exec.atLine operand) _ = _
    rw [Exec.outcome_atLine hline, if_neg (by
      show ¬ (n.context.debugging && n.context.singleStep) = true
      rw [hfree]
      exact Bool.false_ne_true)]
  unfold Machine.step
  rw [hgoing, hnext]
  dsimp only
  rw [perform_eq, hout]

/-- Resuming a machine writes to the journal and sets the context going. -/
theorem resume_eq (m : Machine) : ∃ message : Unit → String,
    m.resume = { m with
      world := { m.world with journal := m.world.journal.note .trace message }
      context := { m.context with running := true }
      ended := none } := ⟨_, rfl⟩

/-- **Where a debugger has stopped a machine, resuming it makes up for the stop.** -/
theorem Stops.resume_alike {operand : Value} {line : Nat} (h : m.Stops operand line)
    (hm : m.Tended b) : { m.recorded operand with
      ended := some (.error (.bare .signalDebugger)) }.resume.Alike hides (m.recorded operand) := by
  obtain ⟨j, observer, hrecorded⟩ := recorded_eq h.line_eq hm h.running
  obtain ⟨message, hresume⟩ := resume_eq
    { m.recorded operand with ended := some (.error (.bare .signalDebugger)) }
  rw [hresume, hrecorded]
  show bare hides _ = bare hides _
  simp only [bare, veiled, Context.veiled, Journal.note_erased, h.running, h.going]

end Machine

end ScriptMachine
