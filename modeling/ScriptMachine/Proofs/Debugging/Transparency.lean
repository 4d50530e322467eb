import ScriptMachine.Proofs.Debugging.Stepping
import ScriptMachine.Proofs.Deferred.Promptness

/-!
# Sessions with a debugger

A program that starts no tasks comes to the same end whether a debugger stops it at every line or
not, wherever the stops fall. Each stretch of the session is followed step by step by the run without
a debugger, and where a debugger stops the one, the other goes on.

* `Machine.ComesToIn`, `Machine.ComesTo`: the steps until the running thread has ended;
  `ComesToIn.run`, `comesTo_of_run`.
* `Machine.Pursues`, `Machine.Halted`: a machine with a debugger, and one without that keeps up.
* `Machine.Resumed`: a session that is resumed after a number of stops; `Resumed.playOut`.
* `Machine.Agrees`: two machines are left with the same operands, result, output, place and symbols.
* `Alike.agrees`, `Alike.stack_eq`: machines that look the same agree.
* `Machine.debugger_unnoticed`: a session ends if and only if the run without a debugger does, with
  the same result, and the machines agree.
-/

namespace ScriptMachine

namespace Machine

variable {m m' n n' : Machine} {result : Except Fault Unit}

/-! ### Runs of one thread -/

/-- The machine after some steps. -/
def later (m : Machine) : Nat → Machine
  | 0 => m
  | k + 1 => later m.step.1 k

theorem later_add (i k : Nat) (m : Machine) : m.later (i + k) = (m.later i).later k := by
  induction i generalizing m with
  | zero => rw [Nat.zero_add, later]
  | succ i ih => rw [Nat.add_right_comm, later, later, ih]

/-- There are no tasks, now or after any steps. -/
def Alone (m : Machine) : Prop := ∀ k, (m.later k).tasks = #[]

/-- The running thread ends after a number of steps. -/
inductive ComesToIn : Nat → Machine → Except Fault Unit → Machine → Prop
  | ended {m m' : Machine} {result : Except Fault Unit} (h : m.step = (m', .ended result)) :
      ComesToIn 0 m result m'
  | step {steps : Nat} {m next m' : Machine} {result : Except Fault Unit}
      (h : m.step = (next, .running)) (rest : ComesToIn steps next result m') :
      ComesToIn (steps + 1) m result m'

/-- The running thread ends. -/
def ComesTo (m : Machine) (result : Except Fault Unit) (m' : Machine) : Prop :=
  ∃ steps, ComesToIn steps m result m'

/-- However the second machine ends, so does the first. -/
def LeadsTo (m next : Machine) : Prop := ∀ result m', next.ComesTo result m' → m.ComesTo result m'

theorem LeadsTo.of_step {next : Machine} (h : m.step = (next, .running)) : m.LeadsTo next :=
  fun _ _ ⟨steps, hends⟩ => ⟨steps + 1, .step h hends⟩

theorem LeadsTo.trans {next last : Machine} (h : m.LeadsTo next) (h' : next.LeadsTo last) :
    m.LeadsTo last := fun _ _ hends => h _ _ (h' _ _ hends)

theorem Alone.step {next : Machine} {progress : Progress} (h : m.Alone)
    (hstep : m.step = (next, progress)) : next.Alone := by
  intro k
  have hk := h (k + 1)
  rwa [later, hstep] at hk

theorem Alone.of_step {next : Machine} {progress : Progress} (htasks : m.tasks = #[])
    (hstep : m.step = (next, progress)) (h : next.Alone) : m.Alone
  | 0 => htasks
  | k + 1 => by
    rw [later, hstep]
    exact h k

theorem Alone.takeTurns (h : m.Alone) (limit : Nat) : m.takeTurns limit = (m, false) := by
  have htasks : m.tasks.size = 0 := congrArg Array.size (h 0)
  unfold Machine.takeTurns
  rw [htasks]
  rfl

end Machine

/-- Whatever comes of a call in a context of its own, nothing has to wait. -/
theorem Exec.IsPrompt.afterScratch (awaiting : Awaiting) (scratch : Context)
    (result : Except Fault Unit) : IsPrompt (Exec.afterScratch awaiting scratch result) := by
  have hfault : ∀ (f : Native) (fault : Fault), IsPrompt (Exec.settleLibraryFault f fault) := by
    intro f fault
    refine bind context fun c => ite (fail _) (bind ?_ fun _ => modifyContext _)
    exact bind get fun m => ite (onWorld _) (pure _)
  have hask : ∀ (r : Ref .array) (less : Value) (size i j : Nat),
      IsPrompt (Exec.askOrdering r less size i j) := fun r less size i j =>
    bind context fun c => bind (onWorld _) fun scratch => bind (onWorld _) fun scratch => change _
  have hnext : ∀ (r : Ref .array) (less : Value) (size i : Nat),
      IsPrompt (Exec.sortNext r less size i) := fun r less size i =>
    ite (hask r less size i i) (modifyContext _)
  cases awaiting with
  | deferred => exact afterDeferred scratch result
  | ordering r less size i j =>
    cases result with
    | error f => exact hfault _ f
    | ok u =>
      refine bind heap fun h => ite (bind (onWorld _) fun outcome => ?_) (hnext _ _ _ _)
      cases outcome with
      | ok u => exact ite (hask _ _ _ _ _) (hnext _ _ _ _)
      | error f => exact hfault _ f

namespace Machine

variable {m m' n n' : Machine} {result : Except Fault Unit}

/-- A step that has to wait leaves the machine as it was. -/
theorem step_of_blocked (h : m.step.2 = .blocked) : m.step = (m, .blocked) := by
  rcases m.step_eq with ⟨result, -, -, hstep⟩ | hstep
  · rw [hstep] at h
    cases h
  · have hready : m.ready = m := by
      unfold ready
      split
      · rename_i result s rest hended hsuspended
        -- Going on after a context has ended needs not wait.
        have haction : m.action = Exec.afterScratch s.awaiting m.context result := by
          unfold action
          rw [hended, hsuspended]
        have hprompt := Exec.IsPrompt.afterScratch s.awaiting m.context result m.ready
        rw [hstep, perform_eq, haction] at h
        rcases hout : Exec.outcome (Exec.afterScratch s.awaiting m.context result) m.ready
          with ⟨(f | _) | u, m₁⟩
        · obtain ⟨m₂, hsettle⟩ := Exec.settle_succeeds f m₁
          rw [hout] at h
          simp only [hsettle] at h
          cases h
        · rw [hout] at hprompt
          exact absurd rfl hprompt
        · rw [hout] at h
          cases h
      · rfl
    have hfirst : (m.ready.perform m.action).1 = m.ready := by
      rw [hstep, perform_eq] at h
      rw [perform_eq]
      rcases hout : Exec.outcome m.action m.ready with ⟨(f | _) | u, m₁⟩
      · obtain ⟨m₂, hsettle⟩ := Exec.settle_succeeds f m₁
        rw [hout] at h
        simp only [hsettle] at h
        cases h
      · rfl
      · rw [hout] at h
        cases h
    rw [hstep] at h ⊢
    exact Prod.ext (hfirst.trans hready) h

namespace ComesToIn

variable {steps : Nat}

/-- A thread that ends within a turn. -/
theorem advanceFrom (h : ComesToIn steps m result m') : ∀ (idle : Bool) (limit : Nat),
    steps < limit → Machine.advanceFrom idle limit m = (m', .ended result) := by
  induction h with
  | ended h =>
    intro idle limit hlt
    obtain ⟨limit, rfl⟩ := Nat.exists_eq_add_of_lt hlt
    rw [Nat.zero_add, Machine.advanceFrom, h]
  | step h rest ih =>
    intro idle limit hlt
    obtain ⟨limit, rfl⟩ : ∃ l, limit = l + 1 := ⟨limit - 1, by omega⟩
    rw [Machine.advanceFrom, h]
    exact ih false limit (by omega)

/-- A thread that has not ended after a turn. -/
theorem after (h : ComesToIn steps m result m') : ∀ (idle : Bool) (limit : Nat), limit ≤ steps →
    ∃ next, Machine.advanceFrom idle limit m = (next, .spent) ∧
      ComesToIn (steps - limit) next result m' ∧ (m.Alone → next.Alone) := by
  induction h with
  | ended h =>
    intro idle limit hle
    obtain rfl := Nat.le_zero.1 hle
    exact ⟨_, rfl, .ended h, id⟩
  | @step steps m next m' result h rest ih =>
    intro idle limit hle
    cases limit with
    | zero => exact ⟨m, rfl, .step h rest, id⟩
    | succ limit =>
      obtain ⟨last, hadvance, hends, halone⟩ := ih false limit (by omega)
      refine ⟨last, ?_, ?_, fun hm => halone (hm.step h)⟩
      · rw [Machine.advanceFrom, h]
        exact hadvance
      · rwa [Nat.add_sub_add_right]

/-- **A thread that ends is run to its end**, if there are no others. -/
theorem run (h : ComesToIn steps m result m') (halone : m.Alone) (rounds : Nat)
    (hlt : steps < rounds) : m.run rounds = (m', some result) := by
  induction rounds generalizing m steps with
  | zero => omega
  | succ rounds ih =>
    rw [Machine.run]
    by_cases hwithin : steps < turnLength
    · rw [advance, h.advanceFrom true turnLength hwithin]
    · obtain ⟨next, hadvance, hends, hnext⟩ := h.after true turnLength (by omega)
      rw [advance, hadvance]
      dsimp only
      rw [(hnext halone).takeTurns]
      have hpos : 0 < turnLength := by decide
      exact ih hends (hnext halone) (by omega)

end ComesToIn

/-- A thread that has to wait for ever has no result. -/
theorem run_of_blocked (halone : m.Alone) (h : m.step = (m, .blocked)) (rounds : Nat) :
    (m.run rounds).2 = none := by
  cases rounds with
  | zero => rfl
  | succ rounds =>
    have hadvance : m.advance turnLength = (m, .blocked true) := by
      rw [advance, turnLength, advanceFrom, h]
    rw [Machine.run, hadvance]
    dsimp only
    rw [halone.takeTurns]
    rfl

/-- What a turn leads to. -/
theorem advanceFrom_cases (halone : m.Alone) (idle : Bool) (limit : Nat) :
    match advanceFrom idle limit m with
    | (next, .spent) => m.LeadsTo next ∧ next.Alone
    | (next, .blocked _) => next.step = (next, .blocked) ∧ next.Alone
    | (next, .ended result) => m.ComesTo result next := by
  induction limit generalizing m idle with
  | zero => exact ⟨fun _ _ h => h, halone⟩
  | succ limit ih =>
    rw [advanceFrom]
    rcases hstep : m.step with ⟨next, _ | _ | result⟩
    · have hrest := ih (halone.step hstep) false
      dsimp only
      rcases hadvance : advanceFrom false limit next with ⟨last, _ | idle | result⟩ <;>
        rw [hadvance] at hrest
      · exact ⟨(LeadsTo.of_step hstep).trans hrest.1, hrest.2⟩
      · exact hrest
      · exact LeadsTo.of_step hstep _ _ hrest
    · have hblocked := step_of_blocked (congrArg Prod.snd hstep)
      rw [hstep] at hblocked
      obtain rfl : next = m := congrArg Prod.fst hblocked
      exact ⟨hstep, halone⟩
    · exact ⟨0, .ended hstep⟩

/-- **A run with a result has ended**, if there are no tasks. -/
theorem comesTo_of_run (halone : m.Alone) {rounds : Nat}
    (hrun : m.run rounds = (m', some result)) : m.ComesTo result m' := by
  induction rounds generalizing m with
  | zero => cases hrun
  | succ rounds ih =>
    have hadvance := advanceFrom_cases halone true turnLength
    rw [Machine.run, advance] at hrun
    rcases hturn : advanceFrom true turnLength m with ⟨next, _ | idle | r⟩ <;>
      rw [hturn] at hrun hadvance
    · dsimp only at hrun
      rw [hadvance.2.takeTurns] at hrun
      exact hadvance.1 _ _ (ih hadvance.2 hrun)
    · dsimp only at hrun
      rw [hadvance.2.takeTurns] at hrun
      have hnone := run_of_blocked hadvance.2 hadvance.1 rounds
      split at hrun
      · cases hrun
      · rw [hrun] at hnone
        cases hnone
    · cases hrun
      exact hadvance

/-! ### Keeping up with a debugger -/

/-- No step starts a task. -/
def AvoidsGo (m : Machine) : Prop := ∀ k, (m.later k).StaysAlone

theorem AvoidsGo.step (h : m.AvoidsGo) : m.step.1.AvoidsGo := fun k => h (k + 1)

/-- A machine that a debugger may attend to, and one without that looks the same. -/
structure Pursues (hides b : Bool) (m n : Machine) : Prop where
  alike : m.Alike hides n
  tended : m.Tended b
  untended : n.Tended false
  avoidsGo : n.AvoidsGo

/-- A debugger has stopped a machine; once it is resumed it looks like one without. -/
structure Halted (hides b : Bool) (m n : Machine) : Prop where
  ended_eq : m.ended = some (.error (.bare .signalDebugger))
  suspended_eq : m.suspended = []
  tasks_eq : m.tasks = #[]
  resumed : m.resume.Pursues hides b n

variable {hides b : Bool}

theorem not_stops_of_untended (hn : n.Tended false) (operand : Value) (line : Nat) :
    ¬ n.Stops operand line := by
  intro h
  have hsteps := h.steps
  rw [hn.attended.debugging_eq] at hsteps
  cases hsteps

/-- **A step with a debugger and one without are the same**, unless the debugger takes over; then
the step without it is what the other one comes to when it is resumed. -/
theorem Pursues.step_cases (h : m.Pursues hides b n) :
    (m.step.2 = n.step.2 ∧ m.step.1.Pursues hides b n.step.1) ∨
      ∃ m₁ n₁, m.step = (m₁, .running) ∧ n.step = (n₁, .running) ∧ m₁.Halted hides b n₁ := by
  have hfree := not_stops_of_untended h.untended
  have halone := h.avoidsGo 0
  have hself : n.Alike hides n := rfl
  have huntended : n.step.1.Tended false :=
    (hself.step h.untended h.untended halone hfree hfree).2.2
  by_cases hstops : ∃ operand line, m.Stops operand line
  · obtain ⟨operand, line, hstops⟩ := hstops
    have hnext := hstops.next
    have hgoing := hstops.going
    rw [h.alike.next?_eq] at hnext
    rw [h.alike.ended_eq] at hgoing
    have hstep := step_of_line h.untended hgoing hnext hstops.line_eq
    refine .inr ⟨_, _, hstops.step_eq, hstep, rfl, ?_, ?_, ?_, ?_, ?_, ?_⟩
    all_goals
      have hrecords : Exec.IsDiscreet (do
          Exec.begin ⟨.atLine, operand⟩
          Exec.recordLine operand) :=
        (Exec.IsDiscreet.begin _).bind fun _ => (Exec.IsDiscreet.lift _).bind fun _ =>
          .adjust (fun _ _ => rfl) fun _ => rfl
      have hkeeps := (hrecords { hidesSteps := hides } b m h.tended).2
      obtain ⟨j, observer, hrecorded⟩ := recorded_eq hstops.line_eq h.tended hstops.running
    · show (m.recorded operand).suspended = []
      rw [hrecorded]
      exact hstops.suspended_eq h.tended
    · exact hkeeps.1.tasks_eq
    · exact (hstops.resume_alike h.tended).trans (hrecords.alike h.alike h.tended h.untended).2
    · exact ⟨hkeeps.1.attended.change rfl id, hkeeps.1.tasks_eq, nofun⟩
    · rw [hstep] at huntended
      exact huntended
    · have havoids := h.avoidsGo.step
      rwa [hstep] at havoids
  · have hleft : ∀ operand line, ¬ m.Stops operand line := fun operand line hstop =>
      hstops ⟨operand, line, hstop⟩
    obtain ⟨hprogress, halike, htended⟩ := h.alike.step h.tended h.untended halone hleft hfree
    exact .inl ⟨hprogress, halike, htended, huntended, h.avoidsGo.step⟩

theorem Halted.step_eq (h : m.Halted hides b n) :
    m.step = (m, .ended (.error (.bare .signalDebugger))) := step_of_over h.ended_eq h.suspended_eq

theorem Halted.alone (h : m.Halted hides b n) : m.Alone := by
  intro k
  induction k with
  | zero => exact h.tasks_eq
  | succ k ih =>
    rw [later, h.step_eq]
    exact ih

theorem Pursues.alone (h : m.Pursues hides b n) : m.Alone := by
  intro k
  induction k generalizing m n with
  | zero => exact h.tended.tasks_eq
  | succ k ih =>
    rcases h.step_cases with ⟨-, hnext⟩ | ⟨m₁, n₁, hstep, -, hhalted⟩
    · exact ih hnext
    · rw [later, hstep]
      exact hhalted.alone k

theorem Pursues.self (h : m.Pursues hides b n) : n.Pursues hides false n :=
  ⟨rfl, h.untended, h.untended, h.avoidsGo⟩

/-- **A stretch of a session is followed by the run without a debugger**, to its end or up to where
the debugger stops it. -/
theorem ComesToIn.pursued {steps : Nat} (h : ComesToIn steps m result m')
    (hpursues : m.Pursues hides b n) :
    (∃ n', n.ComesTo result n' ∧ m'.Alike hides n') ∨
      result = .error (.bare .signalDebugger) ∧
        ∃ n₁, m'.resume.Pursues hides b n₁ ∧ n.LeadsTo n₁ := by
  induction h generalizing n with
  | @ended m m' result h =>
    rcases hpursues.step_cases with ⟨hprogress, hnext⟩ | ⟨m₁, n₁, hstep, -⟩
    · rw [h] at hprogress hnext
      exact .inl ⟨n.step.1, ⟨0, .ended (Prod.ext rfl hprogress.symm)⟩, hnext.alike⟩
    · rw [h] at hstep
      cases hstep
  | @step steps m next m' result h rest ih =>
    rcases hpursues.step_cases with ⟨hprogress, hnext⟩ | ⟨m₁, n₁, hstep, hgoes, hhalted⟩
    · rw [h] at hprogress hnext
      have hgoes : n.LeadsTo n.step.1 := .of_step (Prod.ext rfl hprogress.symm)
      rcases ih hnext with ⟨n', hends, halike⟩ | ⟨hresult, n₁, hresumed, hleads⟩
      · exact .inl ⟨n', hgoes _ _ hends, halike⟩
      · exact .inr ⟨hresult, n₁, hresumed, hgoes.trans hleads⟩
    · rw [h] at hstep
      cases hstep
      cases rest with
      | ended hover =>
        rw [hhalted.step_eq] at hover
        cases hover
        exact .inr ⟨rfl, n₁, hhalted.resumed, .of_step hgoes⟩
      | step hstep' =>
        rw [hhalted.step_eq] at hstep'
        cases hstep'

/-! ### Sessions -/

/-- A session that is resumed after a number of debugger stops. -/
inductive Resumed : Nat → Machine → Except Fault Unit → Machine → Prop
  | last {m m' : Machine} {result : Except Fault Unit} (halone : m.Alone)
      (h : m.ComesTo result m') : Resumed 0 m result m'
  | stop {stops : Nat} {m m₁ m' : Machine} {result : Except Fault Unit} {f : Fault}
      (halone : m.Alone) (h : m.ComesTo (.error f) m₁) (hsignal : f.kind = .signalDebugger)
      (rest : Resumed stops m₁.resume result m') : Resumed (stops + 1) m result m'

/-- A session may begin a step earlier. -/
theorem Resumed.of_step {stops : Nat} {next : Machine} (htasks : m.tasks = #[])
    (hstep : m.step = (next, .running)) (h : Resumed stops next result m') :
    Resumed stops m result m' := by
  cases h with
  | last halone h => exact .last (.of_step htasks hstep halone) (LeadsTo.of_step hstep _ _ h)
  | stop halone h hsignal rest =>
    exact .stop (.of_step htasks hstep halone) (LeadsTo.of_step hstep _ _ h) hsignal rest

/-- **A session follows the run without a debugger** to its end. -/
theorem ComesToIn.resumed {steps : Nat} (h : ComesToIn steps n result n')
    (hpursues : m.Pursues hides b n) :
    ∃ stops m', Resumed stops m result m' ∧ m'.Alike hides n' := by
  induction h generalizing m with
  | @ended n n' result h =>
    rcases hpursues.step_cases with ⟨hprogress, hnext⟩ | ⟨m₁, n₁, -, hgoes, -⟩
    · rw [h] at hprogress hnext
      exact ⟨0, m.step.1, .last hpursues.alone ⟨0, .ended (Prod.ext rfl hprogress)⟩, hnext.alike⟩
    · rw [h] at hgoes
      cases hgoes
  | @step steps n next n' result h rest ih =>
    rcases hpursues.step_cases with ⟨hprogress, hnext⟩ | ⟨m₁, n₁, hstep, hgoes, hhalted⟩
    · rw [h] at hprogress hnext
      obtain ⟨stops, m', hresumed, halike⟩ := ih hnext
      exact ⟨stops, m', hresumed.of_step hpursues.tended.tasks_eq (Prod.ext rfl hprogress), halike⟩
    · rw [h] at hgoes
      cases hgoes
      obtain ⟨stops, m', hresumed, halike⟩ := ih hhalted.resumed
      have hstretch : m.ComesTo (.error (.bare .signalDebugger)) m₁ :=
        ⟨1, .step hstep (.ended hhalted.step_eq)⟩
      exact ⟨stops + 1, m', .stop hpursues.alone hstretch rfl hresumed, halike⟩

/-- A session is played out by enough rounds, and by as many resumptions as there are stops. -/
theorem Resumed.playOut {stops : Nat} (h : Resumed stops m result m') :
    ∃ least, ∀ rounds, least < rounds → ∃ seen,
      m.playOut rounds (List.replicate stops {}) = (m', some result, seen) := by
  induction h with
  | last halone h =>
    obtain ⟨steps, hends⟩ := h
    refine ⟨steps, fun rounds hlt => ⟨[], ?_⟩⟩
    rw [List.replicate_zero, Machine.playOut, hends.run halone rounds hlt]
  | @stop stops m m₁ m' result f halone h hsignal rest ih =>
    obtain ⟨steps, hends⟩ := h
    obtain ⟨least, hplays⟩ := ih
    refine ⟨max steps least, fun rounds hlt => ?_⟩
    obtain ⟨seen, hseen⟩ := hplays rounds (by omega)
    refine ⟨⟨m₁.context, m₁.world.heap⟩ :: seen, ?_⟩
    rw [List.replicate_succ, Machine.playOut, hends.run halone rounds (by omega)]
    dsimp only
    rw [if_pos hsignal]
    have hsame : { m₁ with context := ({} : Switches).apply m₁.context } = m₁ := rfl
    rw [hsame, hseen]

/-- A thread that ends has the result that it leaves with. -/
theorem ended_of_step (h : m.step = (m', .ended result)) : m.ended = some result := by
  rcases m.step_eq with ⟨r, hended, -, hstep⟩ | hstep
  · rw [h] at hstep
    cases hstep
    exact hended
  · rw [h, perform_eq_settled] at hstep
    split at hstep <;> cases hstep

/-- **Without a debugger there is no signal of one.** -/
theorem Pursues.quiet {steps : Nat} {f : Fault} (h : m.Pursues hides b n)
    (hends : ComesToIn steps n (.error f) n') : f.IsQuiet := by
  generalize hresult : Except.error f = result at hends
  induction hends generalizing m with
  | ended hstep =>
    subst hresult
    exact h.untended.quiet f (ended_of_step hstep)
  | step hstep rest ih =>
    rcases h.step_cases with ⟨-, hnext⟩ | ⟨m₁, n₁, -, hgoes, hhalted⟩
    · rw [hstep] at hnext
      exact ih hnext hresult
    · rw [hstep] at hgoes
      cases hgoes
      exact ih hhalted.resumed hresult

/-- **What a session comes to, the run without a debugger comes to as well.** -/
theorem Pursues.comesTo_of_playOut {stops rounds : Nat} {seen : List Stop}
    (h : m.Pursues hides b n)
    (hplays : m.playOut rounds (List.replicate stops {}) = (m', some result, seen))
    (hresult : ∀ f, result = .error f → f.IsQuiet) :
    ∃ n', n.ComesTo result n' ∧ m'.Alike hides n' := by
  induction stops generalizing m n seen with
  | zero =>
    rw [List.replicate_zero, Machine.playOut] at hplays
    rcases hrun : m.run rounds with ⟨m₁, outcome⟩
    rw [hrun] at hplays
    cases hplays
    obtain ⟨steps, hends⟩ := comesTo_of_run h.alone hrun
    rcases hends.pursued h with hdone | ⟨rfl, -⟩
    · exact hdone
    · exact absurd rfl (hresult _ rfl)
  | succ stops ih =>
    have hover : ∀ {m₁ : Machine} {r : Except Fault Unit}, m.run rounds = (m₁, some r) →
        (∀ f, r = .error f → f.IsQuiet) →
        ∃ n', n.ComesTo r n' ∧ m₁.Alike hides n' := by
      intro m₁ r hrun hr
      obtain ⟨steps, hends⟩ := comesTo_of_run h.alone hrun
      rcases hends.pursued h with hdone | ⟨rfl, -⟩
      · exact hdone
      · exact absurd rfl (hr _ rfl)
    rw [List.replicate_succ, Machine.playOut] at hplays
    rcases hrun : m.run rounds with ⟨m₁, _ | (f | u)⟩ <;> rw [hrun] at hplays
    · cases hplays
    · dsimp only at hplays
      split at hplays
      · rename_i hsignal
        have hsame : { m₁ with context := ({} : Switches).apply m₁.context } = m₁ := rfl
        rw [hsame] at hplays
        obtain ⟨steps, hends⟩ := comesTo_of_run h.alone hrun
        rcases hends.pursued h with ⟨n', ⟨steps', hn'⟩, -⟩ | ⟨-, n₁, hresumed, hleads⟩
        · exact absurd hsignal (h.quiet hn')
        · rcases hrest : m₁.resume.playOut rounds (List.replicate stops {}) with ⟨m₂, r₂, seen₂⟩
          rw [hrest] at hplays
          cases hplays
          obtain ⟨n', hn', halike⟩ := ih hresumed hrest
          exact ⟨n', hleads _ _ hn', halike⟩
      · rename_i hother
        cases hplays
        exact hover hrun fun g hg => by
          cases hg
          exact hother
    · cases hplays
      exact hover hrun nofun

end Machine

/-! ### Debuggers go unnoticed -/

namespace Machine

variable {m n m' n' : Machine} {hides b : Bool}

/-- What a program leaves behind is the same on both machines. -/
structure Agrees (m n : Machine) : Prop where
  ended_eq : m.ended = n.ended
  operands_eq : Exec.slotValues m.context.stack = Exec.slotValues n.context.stack
  result_eq : m.context.result = n.context.result
  output_eq : m.context.output = n.context.output
  line_eq : m.context.line = n.context.line
  pc_eq : m.context.pc = n.context.pc
  symbols_eq : m.context.symbols = n.context.symbols
  scopes_eq : m.world.scopes = n.world.scopes
  heap_eq : m.world.heap = n.world.heap

/-- Machines that look the same agree. -/
theorem Alike.agrees (h : m.Alike hides n) : m.Agrees n where
  ended_eq := h.ended_eq
  operands_eq := h.part (fun m => Exec.slotValues m.context.stack) fun m =>
    Exec.slotValues_veiled m.context.stack
  result_eq := h.part (·.context.result) fun _ => rfl
  output_eq := h.part (·.context.output) fun _ => rfl
  line_eq := h.part (·.context.line) fun _ => rfl
  pc_eq := h.part (·.context.pc) fun _ => rfl
  symbols_eq := h.part (·.context.symbols) fun _ => rfl
  scopes_eq := h.part (·.world.scopes) fun _ => rfl
  heap_eq := h.part (·.world.heap) fun _ => rfl

/-- Where the step flags are in plain view, the frames on the stack are the same too. -/
theorem Alike.stack_eq (h : m.Alike false n) : m.context.stack = n.context.stack := by
  have hslot : Slot.veiled { hidesSteps := false } = id := by
    funext s
    cases s with
    | value v => rfl
    | frame f => simp only [Slot.veiled, Frame.veiled, Veil.dim, Bool.not_false, Bool.and_true]; rfl
  refine h.part (·.context.stack) fun m => ?_
  show m.context.stack.map (Slot.veiled { hidesSteps := false }) = _
  rw [hslot, Array.map_id]

/-- **A debugger goes unnoticed.** Of two machines that look the same, only the first may have a
debugger, and the program starts no tasks. Whatever the run without the debugger comes to, the
session comes to as well when it is resumed after each stop; and whatever but another stop the
session comes to, the run without the debugger comes to as well. -/
theorem debugger_unnoticed (halike : m.Alike hides n) (hm : m.Tended b) (hn : n.Tended false)
    (havoids : n.AvoidsGo) :
    (∀ rounds n' result, n.run rounds = (n', some result) →
      (∀ f, result = .error f → f.kind ≠ .signalDebugger) ∧ ∃ rounds' stops m' seen,
        m.playOut rounds' (List.replicate stops {}) = (m', some result, seen) ∧
        m'.Agrees n' ∧ (hides = false → m'.context.stack = n'.context.stack)) ∧
    ∀ rounds stops m' result seen,
      m.playOut rounds (List.replicate stops {}) = (m', some result, seen) →
      (∀ f, result = .error f → f.kind ≠ .signalDebugger) → ∃ rounds' n',
        n.run rounds' = (n', some result) ∧
        m'.Agrees n' ∧ (hides = false → m'.context.stack = n'.context.stack) := by
  have hpursues : m.Pursues hides b n := ⟨halike, hm, hn, havoids⟩
  have hstack : ∀ {m' n' : Machine}, m'.Alike hides n' →
      hides = false → m'.context.stack = n'.context.stack := by
    rintro m' n' halike rfl
    exact halike.stack_eq
  constructor
  · intro rounds n' result hrun
    obtain ⟨steps, hends⟩ := comesTo_of_run hpursues.self.alone hrun
    obtain ⟨stops, m', hresumed, halike'⟩ := hends.resumed hpursues
    obtain ⟨least, hplays⟩ := hresumed.playOut
    obtain ⟨seen, hseen⟩ := hplays (least + 1) (Nat.lt_succ_self least)
    refine ⟨fun f hf => ?_, least + 1, stops, m', seen, hseen, halike'.agrees, hstack halike'⟩
    subst hf
    exact hpursues.quiet hends
  · intro rounds stops m' result seen hplays hresult
    obtain ⟨n', ⟨steps, hends⟩, halike'⟩ := hpursues.comesTo_of_playOut hplays hresult
    exact ⟨steps + 1, n', hends.run hpursues.self.alone (steps + 1) (Nat.lt_succ_self steps),
      halike'.agrees, hstack halike'⟩

/-- **What holds until a run is over** holds always, since nothing changes then. -/
theorem always_of_over {P : Machine → Prop} (steps : Nat) (hbefore : ∀ k < steps, P (m.later k))
    (hended : (m.later steps).ended.isSome = true) (hsuspended : (m.later steps).suspended = [])
    (hover : P (m.later steps)) (k : Nat) : P (m.later k) := by
  have hstays : ∀ {n : Machine}, n.ended.isSome = true → n.suspended = [] → ∀ k, n.later k = n := by
    intro n hended hsuspended k
    obtain ⟨result, hresult⟩ := Option.isSome_iff_exists.1 hended
    induction k with
    | zero => rfl
    | succ k ih => rw [later, step_of_over hresult hsuspended, ih]
  by_cases hk : k < steps
  · exact hbefore k hk
  · obtain ⟨j, rfl⟩ := Nat.exists_eq_add_of_le (Nat.le_of_not_lt hk)
    rw [later_add, hstays hended hsuspended]
    exact hover

/-- A program starts no tasks if none of its steps does before it ends. -/
theorem avoidsGo_of_over {steps : Nat} (hbefore : ∀ k < steps, (m.later k).StaysAlone)
    (hended : (m.later steps).ended.isSome = true) (hsuspended : (m.later steps).suspended = []) :
    m.AvoidsGo := by
  refine always_of_over steps hbefore hended hsuspended fun hnone => ?_
  rw [hnone] at hended
  cases hended

/-- A machine that tries a division by zero; a debugger may stop it at both of its lines. -/
def stepper (debugging : Bool) : Machine :=
  .ofContext {} {
    name := "main"
    thread := 1
    symbols := .root
    code := ⟨"main", #[⟨.try, .ofNat 5⟩, ⟨.atLine, .ofNat 1⟩, ⟨.push, .ofNat 1⟩, ⟨.push, .ofNat 0⟩,
      .plain .div, ⟨.atLine, .ofNat 2⟩, ⟨.push, .ofNat 7⟩], none, true, false⟩
    running := true
    debugging
    singleStep := debugging }

theorem stepper_tended (debugging : Bool) : (stepper debugging).Tended debugging :=
  ⟨⟨rfl, rfl⟩, rfl, nofun⟩

theorem stepper_avoidsGo : (stepper false).AvoidsGo := by
  have hop : ∀ {m : Machine}, (m.next?.all fun i => i.op != .go) = true → m.StaysAlone := by
    intro m hm _ i hi
    rw [hi, Option.all_some] at hm
    exact bne_iff_ne.1 hm
  have hover : ((stepper false).later 8).ended.isSome = true := by decide +kernel
  refine avoidsGo_of_over (fun k hk => hop ?_) hover (by decide +kernel)
  have hall : ∀ k < 8, (((stepper false).later k).next?.all fun i => i.op != .go) = true := by
    decide +kernel
  exact hall k hk

/-- Without a debugger the fault is caught and the second line is reached; a session with two stops
comes to that as well. -/
theorem debugger_unnoticed_of_stepper :
    (stepper true).Alike true (stepper false) ∧ (stepper true).Tended true ∧
      (stepper false).Tended false ∧ (stepper false).AvoidsGo ∧
      ∃ rounds n', (stepper false).run rounds = (n', some (.ok ())) ∧
        ((stepper true).playOut 1 (List.replicate 2 {})).1.Agrees n' ∧ n'.context.line = 2 := by
  have halike : (stepper true).Alike true (stepper false) := rfl
  have hsession := (debugger_unnoticed halike (stepper_tended true) (stepper_tended false)
    stepper_avoidsGo).2 1 2
  have hresult : ((stepper true).playOut 1 (List.replicate 2 {})).2.1 = some (.ok ()) := by
    decide +kernel
  have hline : ((stepper true).playOut 1 (List.replicate 2 {})).1.context.line = 2 := by
    decide +kernel
  generalize (stepper true).playOut 1 (List.replicate 2 {}) = played
    at hsession hresult hline ⊢
  obtain ⟨m', result, seen⟩ := played
  subst hresult
  obtain ⟨rounds, n', hrun, hagrees, -⟩ := hsession m' (.ok ()) seen rfl nofun
  exact ⟨halike, stepper_tended true, stepper_tended false, stepper_avoidsGo, rounds, n', hrun,
    hagrees, hagrees.line_eq ▸ hline⟩

end Machine

end ScriptMachine
