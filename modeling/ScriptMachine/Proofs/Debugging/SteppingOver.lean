import ScriptMachine.Proofs.Debugging.Stepping
import ScriptMachine.Proofs.Debugging.Striding
import ScriptMachine.Proofs.Deferred.Endings

/-!
# What a debugger stops at that steps over calls

While callees run, no source line stops the debugger, however they call each other, return and
catch faults; when the caller goes on, its next line does. A callee that returns leads back to the
caller. A fault that the caller catches does so just if the caller is still there when the fault is
raised, and its frame is not cut off by the handler.

* `Machine.Signals`: a source line stops the debugger; `Strides.signals`, `Strides.not_signals`.
* `Machine.Stretch`: the states for which an activation is there.
* `Strides.leaves`, `Strides.caught_iff`: the ends of callees.
* `step_over_resumes_iff`: all of it, after a call that is stepped over.
-/

namespace ScriptMachine

open Machine

namespace Machine

variable {m m' m₁ first : Machine} {k fp : Nat}

/-! ### Source lines -/

/-- The next step stops for the debugger. -/
def Signals (m : Machine) : Prop :=
  ∃ f, m.attempt.1 = .error (.fault f) ∧ f.kind = .signalDebugger

/-- Single steps are on for the steps of an activation that steps over what it calls. -/
theorem Strides.stepping_of_acts (h : m.Strides k fp) (hm : m.Layered) (hgoing : m.ended = none)
    (hacts : m.Acts k fp) : m.context.stepping = (true, true, true, false) := by
  have hready : m.ready = m := by rw [Machine.ready, hgoing]
  rw [Acts, hready] at hacts
  have hrun := h.context
  rw [contextAt_of_level (Nat.le_of_eq hacts.1)] at hrun
  rcases hrun.place with ⟨-, hsteps⟩ | ⟨q, f, hpasses⟩
  · exact hsteps
  · have hlt := hm.running.fp_le_of_frame hpasses.frame
    have hle := hpasses.fp_le
    omega

/-- For the steps of others, single steps are off, or no debugger attends. -/
theorem Strides.silent (h : m.Strides k fp) (hgoing : m.ended = none) (hacts : ¬m.Acts k fp) :
    (m.context.debugging && m.context.singleStep) = false := by
  have hready : m.ready = m := by rw [Machine.ready, hgoing]
  rw [Acts, hready] at hacts
  rcases Nat.lt_or_eq_of_le h.level with hlt | heq
  · have halone := h.alone _ hlt (Nat.le_refl _)
    rw [contextAt_of_level (Nat.le_refl _)] at halone
    rw [halone]
    rfl
  · have hrun := h.context
    rw [contextAt_of_level (Nat.le_of_eq heq.symm)] at hrun
    rcases hrun.place with ⟨hfp, -⟩ | ⟨q, f, hpasses⟩
    · exact absurd ⟨heq.symm, hfp⟩ hacts
    · have hsteps := hpasses.stepping
      simp only [Context.stepping, Prod.mk.injEq] at hsteps
      rw [hsteps.2.1, Bool.and_false]

/-- **A source line of the activation stops the debugger.** -/
theorem Strides.signals {operand : Value} {line : Nat} (h : m.Strides k fp) (hm : m.Layered)
    (hacts : m.Acts k fp) (hgoing : m.ended = none) (hnext : m.next? = some ⟨.atLine, operand⟩)
    (hline : operand.toIndex = .ok line) :
    m.Signals ∧ m.step.1.ended = some (.error (.bare .signalDebugger)) := by
  have hsteps : (m.context.debugging && m.context.singleStep) = true := by
    have hstepping := h.stepping_of_acts hm hgoing hacts
    simp only [Context.stepping, Prod.mk.injEq] at hstepping
    rw [hstepping.1, hstepping.2.1]
    rfl
  have hstops : m.Stops operand line := ⟨hgoing, hnext, hline, hsteps⟩
  refine ⟨⟨.bare .signalDebugger, ?_, rfl⟩, by rw [hstops.step_eq]⟩
  obtain ⟨j, running, observer, hattempt⟩ := attempt_of_next hgoing hnext
  rw [hattempt, show Exec.execute ⟨.atLine, operand⟩ = Exec.atLine operand from rfl,
    Exec.outcome_atLine hline, if_pos hsteps]

/-- **A source line of any other function stops nothing.** -/
theorem Strides.not_signals {operand : Value} (h : m.Strides k fp) (hacts : ¬m.Acts k fp)
    (hgoing : m.ended = none) (hnext : m.next? = some ⟨.atLine, operand⟩) : ¬m.Signals := by
  rintro ⟨f, hfault, hkind⟩
  obtain ⟨j, running, observer, hattempt⟩ := attempt_of_next hgoing hnext
  rw [hattempt, show Exec.execute ⟨.atLine, operand⟩ = Exec.atLine operand from rfl,
    Exec.outcome_atLine_unattended operand (by exact h.silent hgoing hacts),
    Exec.recordLine] at hfault
  cases hindex : operand.toIndex with
  | ok line =>
    rw [hindex] at hfault
    cases hfault
  | error g =>
    rw [hindex] at hfault
    cases hfault
    exact Quiet.quiet (r := operand.toIndex) f hindex hkind

/-! ### The ends of callees -/

/-- The activation at a level with some frame pointer is there and runs itself, with single steps
on; the debugger steps over what it will call. -/
structure StepsIn (k fp : Nat) (m : Machine) : Prop where
  hosts : m.Hosts k fp
  level : m.suspended.length = k
  fp_eq : m.context.fp = fp
  stepping_eq : m.context.stepping = (true, true, true, false)

theorem StepsIn.strides (h : m.StepsIn k fp) : m.Strides k fp := by
  obtain ⟨⟨ds, howes⟩, hlevel, hfp, hstepping⟩ := h
  refine ⟨Nat.le_of_eq hlevel.symm, ?_, fun j hlt hj => absurd hj (by omega)⟩
  rw [contextAt_of_level (Nat.le_of_eq hlevel)]
  exact ⟨((owes_of_level hlevel).1 howes).own, .inl ⟨hfp, hstepping⟩⟩

theorem Strides.stepsIn (h : m.Strides k fp) (hm : m.Layered) (hlevel : m.suspended.length = k)
    (hfp : m.context.fp = fp) : m.StepsIn k fp := by
  have hrun := h.context
  rw [contextAt_of_level (Nat.le_of_eq hlevel)] at hrun
  refine ⟨h.hosts, hlevel, hfp, ?_⟩
  rcases hrun.place with ⟨-, hsteps⟩ | ⟨q, f, hpasses⟩
  · exact hsteps
  · have hlt := hm.running.fp_le_of_frame hpasses.frame
    have hle := hpasses.fp_le
    omega

/-- **A callee that returns leads back to the activation that has called it.** -/
theorem Strides.leaves (h : m.Strides k fp) (hm : m.Layered) (hacts : ¬m.Acts k fp)
    (hleaves : m.Leaves k (fp + 1) m') : m'.StepsIn k fp := by
  have hregained := h.regained (Nat.le_of_eq hleaves.level.symm)
  have hlayered := regained_layered hm
  have hlength : m.regained.suspended.length = k := by
    rw [m.regained_suspended, hleaves.level]
  have hcallee := hregained.context
  rw [contextAt_of_level (Nat.le_of_eq hlength)] at hcallee
  have hfp : m.regained.context.fp ≠ fp := fun heq =>
    hacts ⟨hleaves.level, m.regained_fp.symm.trans heq⟩
  have hle := hcallee.fp_le hlayered.running
  obtain ⟨m₁, q, f, htidies, hm₁, hquits, hlength', hback⟩ :=
    hleaves.quits hm (by rw [← m.regained_fp]; omega)
  have hs := htidies.toWorks.stridesOn hlayered hregained
  have hafter : m'.Strides k fp := hs.run hquits.suspended_eq
      (congrArg Prod.fst hquits.stepping_eq) fun _ hrun => by
    obtain ⟨p, g, hpasses⟩ :=
      hrun.place.resolve_left fun hplace => hfp (htidies.fp_eq.symm.trans hplace.1)
    exact hquits.strides_of_passes hm₁.running hrun hpasses
  have hlayered' : m'.Layered := hm₁.congr hquits.suspended_eq (hquits.layered hm₁.running)
  have hcaller := hafter.context
  rw [contextAt_of_level (Nat.le_of_eq hlength')] at hcaller
  have hle' := hcaller.fp_le hlayered'.running
  exact hafter.stepsIn hlayered' hlength' (by omega)

/-- Leaving functions until an activation runs itself gives its single steps back. -/
theorem QuitsTo.strides (h : QuitsTo fp m m') (hm : m.context.Layered)
    (hs : m.context.Strides fp) :
    m'.context.Strides fp ∧ m'.context.fp = fp := by
  induction h with
  | stops hstops =>
    refine ⟨hs, ?_⟩
    rcases hs.place with ⟨hfp, -⟩ | ⟨q, f, hpasses⟩
    · exact hfp
    rcases hstops with hle | hnone
    · have hlt := hm.fp_le_of_frame hpasses.frame
      have hpassed := hpasses.fp_le
      omega
    · have hframe := hpasses.frame
      rw [hnone] at hframe
      cases hframe
  | leaves hlt hquits _ ih =>
    rcases hs.place with ⟨hfp, -⟩ | ⟨q, f, hpasses⟩
    · omega
    · exact ih (hquits.layered hm) (hquits.strides_of_passes hm hs hpasses)

/-- **A fault that the activation catches leads back to it** just if the activation is still there
when the fault is raised, and the handler does not cut its frame off. -/
theorem Strides.caught_iff {f : Fault} {handler : Handler} {outer : List Handler}
    (h : m.Strides k fp) (hm : m.Layered) (hk : k ≤ m.ready.suspended.length)
    (hfault : m.attempt = (.error (.fault f), m₁)) (hlevel : m₁.suspended.length = k)
    (hselects : m₁.context.Selects f handler outer) (hfp : handler.fp = fp)
    (hgoing : m.step.1.ended = none) :
    m.step.1.StepsIn k fp ↔ m₁.Hosts k fp ∧ fp ≤ handler.stackSize := by
  obtain ⟨last, loops, observer, hgone, hsuspended, hcontext⟩ :=
    caught_of_selects hfault hselects hgoing
  rw [hfp] at hgone
  constructor
  · rintro ⟨⟨ds, howes⟩, hlength, -, -⟩
    have hfalls : m₁.Falls m.step.1 := by
      have hfalls := attempt_falls (m := m) (by rw [hfault]; nofun)
      rwa [hfault] at hfalls
    refine ⟨⟨ds, hfalls.owes_back howes⟩, ?_⟩
    rcases ((owes_of_level hlength).1 howes).own with hzero | ⟨g, hg⟩
    · omega
    · rw [hcontext, Context.frameAt_caughtAt] at hg
      split at hg
      · omega
      · cases hg
  · rintro ⟨hhosts, hle⟩
    obtain ⟨m₀, hrises, hfalls⟩ := moves_of_fault hm hfault
    have hlayered := regained_layered hm
    have hbefore := hrises.layered hlayered
    have hs := hfalls.strides hbefore (hrises.strides hlayered (h.regained hk)) hhosts
    have hm₁ := hfalls.layered hbefore
    have hrun := hs.context
    rw [contextAt_of_level (Nat.le_of_eq hlevel)] at hrun
    obtain ⟨hlast, hback⟩ := hgone.strides hm₁.running hrun
    have hlength : m.step.1.suspended.length = k := by
      rw [hsuspended, hgone.suspended_eq, hlevel]
    have hafter : m.step.1.context.fp = fp := by
      rw [hcontext]
      exact hback
    refine Strides.stepsIn (step_strides h hm hk ⟨_, (owes_of_level hlength).2
      ⟨?_, .inl ⟨hafter, rfl⟩⟩⟩) ((step_treats hm).layered hm) hlength hafter
    rcases Nat.eq_zero_or_pos fp with hzero | hpos
    · exact .inl hzero
    · refine hlast.own.imp_right (Exists.imp fun g hg => ?_)
      rw [hcontext, Context.frameAt_caughtAt, if_pos (by omega)]
      exact hg

/-! ### Stretches -/

/-- The states from one on, as long as an activation is there and the switches of the debugger are
left alone from outside. Other threads may change the world and the tasks. -/
inductive Stretch (k fp : Nat) (first : Machine) : Machine → Prop
  | start : Stretch k fp first first
  | step {m : Machine} (before : Stretch k fp first m) (hlevel : k ≤ m.ready.suspended.length)
      (hstays : m.step.1.Hosts k fp) : Stretch k fp first m.step.1
  | elsewhere {m : Machine} (before : Stretch k fp first m) (world : World) (tasks : Array Task)
      (hsound : world.scopes.Sound) : Stretch k fp first { m with world, tasks }
  | resume {m : Machine} (before : Stretch k fp first m) (switches : Switches)
      (hleft : (switches.apply m.context).stepping = m.context.stepping) :
      Stretch k fp first { m with context := switches.apply m.context }.resume

theorem Stretch.trace {start : Machine} (h : Stretch k fp first m)
    (hfirst : Trace (fun _ => True) start first) : Trace (fun _ => True) start m := by
  induction h with
  | start => exact hfirst
  | step _ _ _ ih => exact .step ih trivial
  | elsewhere _ world tasks hsound ih => exact .elsewhere ih world tasks hsound trivial
  | resume _ switches _ ih => exact .resume ih switches trivial

/-- **For a whole stretch** an activation steps over what it calls. -/
theorem Stretch.strides (h : Stretch k fp first m) (hfirst : first.Layered)
    (hs : first.Strides k fp) : m.Layered ∧ m.Strides k fp := by
  induction h with
  | start => exact ⟨hfirst, hs⟩
  | step _ hlevel hstays ih =>
    exact ⟨(step_treats ih.1).layered ih.1, step_strides ih.2 ih.1 hlevel hstays⟩
  | elsewhere _ world tasks _ ih =>
    exact ⟨⟨ih.1.running, ih.1.waiting⟩, ih.2.run rfl rfl fun _ hrun => hrun⟩
  | resume _ switches hleft ih =>
    refine ⟨⟨⟨ih.1.running.top, ih.1.running.between⟩, ih.1.waiting⟩,
      ih.2.run rfl (debugging_of_stepping hleft) fun _ hrun =>
        hrun.congr (fun _ _ hf => hf) (fun _ _ hf => hf) rfl hleft⟩

/-- The call of a function is stepped over. -/
theorem Enters.strides {i : Instruction} (h : m.Enters i m') (hm : m.Layered)
    (hs : m.Strides k fp) : m'.Layered ∧ m'.Strides k fp := by
  obtain ⟨hbegun, hattempt⟩ := begun_tidies h.going h.next
  rw [regained_of_going h.going] at hbegun
  have hcalls : i.op ≠ .defer ∧ i.op ≠ .return := by
    constructor <;> intro hop <;> have hcalls := h.calls <;> rw [hop] at hcalls <;> cases hcalls
  have hrises : m.Rises m' := by
    have hrises := Exec.execute_rises hcalls.1 hcalls.2 m.begun
    rw [← hattempt, h.completes] at hrises
    exact Trans.trans hbegun.toWorks.rises hrises
  exact ⟨hrises.layered hm, hrises.strides hm hs⟩

/-- **Stepping over a call.** A debugger steps in an activation that is there, and over what it
calls; the activation enters a function. For as long as it is there, no source line of another
function stops the debugger, at whatever depth and whatever functions and contexts begin and end in
between; and each of its own lines does. When a callee returns, the activation goes on with single
steps on. When it catches a fault, it does so if and only if it is still there when the fault is
raised, and the handler does not cut its frame off: a callee whose return has failed may be gone
without having given the single steps back. -/
theorem step_over_resumes_iff {start atCall entered : Machine} {i : Instruction}
    (hbegins : start.Begins) (hreached : Trace (fun _ => True) start atCall)
    (hsteps : atCall.StepsIn k fp) (henters : atCall.Enters i entered)
    (hsince : Stretch k fp entered m) :
    (¬m.Acts k fp → ∀ operand, m.ended = none → m.next? = some ⟨.atLine, operand⟩ →
      ¬m.Signals) ∧
    (m.Acts k fp → ∀ operand line, m.ended = none → m.next? = some ⟨.atLine, operand⟩ →
      operand.toIndex = .ok line →
      m.Signals ∧ m.step.1.ended = some (.error (.bare .signalDebugger))) ∧
    (∀ m', ¬m.Acts k fp → m.Leaves k (fp + 1) m' → m'.StepsIn k fp) ∧
    ∀ f m₁ handler outer, m.attempt = (.error (.fault f), m₁) → m₁.suspended.length = k →
      m₁.context.Selects f handler outer → handler.fp = fp → k ≤ m.ready.suspended.length →
      m.step.1.ended = none →
      (m.step.1.StepsIn k fp ↔ m₁.Hosts k fp ∧ fp ≤ handler.stackSize) := by
  obtain ⟨hentered, hpasses⟩ :=
    henters.strides (hreached.layered hbegins.layered) hsteps.strides
  obtain ⟨hm, hstrides⟩ := hsince.strides hentered hpasses
  exact ⟨fun hacts operand => hstrides.not_signals hacts,
    fun hacts operand line hgoing hnext => hstrides.signals hm hacts hgoing hnext,
    fun m' hacts => hstrides.leaves hm hacts,
    fun f m₁ handler outer hfault hlevel hselects hfp hk =>
      hstrides.caught_iff hm hk hfault hlevel hselects hfp⟩

/-- A machine about to run `LocalCall 2; AtLine 5; AtLine 7; Return`, with a debugger that steps,
and steps over calls. -/
def overstepper : Machine :=
  ofContext {} {
    name := "main"
    thread := 1
    symbols := .root
    code := ⟨"main", #[⟨.localCall, .int 2⟩, ⟨.atLine, .int 5⟩, ⟨.atLine, .int 7⟩, .plain .return],
      none, true, false⟩
    running := true
    debugging := true
    singleStep := true
    stepOver := true }

/-- The line of the subroutine is passed over; once it has returned, that of the caller stops the
debugger. -/
theorem step_over_resumes_of_overstepper :
    overstepper.StepsIn 0 0 ∧ overstepper.Enters ⟨.localCall, .int 2⟩ overstepper.step.1 ∧
      overstepper.step.1.next? = some ⟨.atLine, .int 7⟩ ∧ ¬overstepper.step.1.Signals ∧
      overstepper.step.1.step.1.Leaves 0 1 overstepper.step.1.step.1.step.1 ∧
      overstepper.step.1.step.1.step.1.StepsIn 0 0 ∧
      overstepper.step.1.step.1.step.1.next? = some ⟨.atLine, .int 5⟩ ∧
      overstepper.step.1.step.1.step.1.Signals := by
  have hhosts : ∀ (m : Machine) (ds : List DeferredCall), (m.contextAt 0).fp = 0 →
      (m.contextAt 0).deferred = ds → m.Hosts 0 0 := fun m ds hfp hds =>
    ⟨ds, Nat.zero_le _, .inl rfl, .inl ⟨hfp, hds⟩⟩
  have hcalled : ∀ (m : Machine) (j : Nat) (f : Frame), (m.contextAt 0).frameAt j = some f →
      f.fp = 0 → m.Hosts 0 0 := fun m j f hf hfp =>
    ⟨f.deferred, Nat.zero_le _, .inl rfl, .inr ⟨j, f, Nat.zero_le _, hf, hfp, rfl⟩⟩
  have hbegins : overstepper.Begins := ⟨⟨OnlyValues.empty, rfl, rfl, rfl⟩, rfl, Arena.initial_sound⟩
  have hsteps : overstepper.StepsIn 0 0 := ⟨hhosts _ [] rfl rfl, rfl, rfl, rfl⟩
  have henters : overstepper.Enters ⟨.localCall, .int 2⟩ overstepper.step.1 :=
    ⟨rfl, rfl, rfl, attempt_eq_ok rfl, rfl, Nat.zero_lt_one⟩
  have hleaves : overstepper.step.1.step.1.Leaves 0 1 overstepper.step.1.step.1.step.1 :=
    ⟨⟨.null, rfl⟩, rfl, attempt_eq_ok rfl, Nat.zero_lt_one⟩
  have hfirst : Stretch 0 0 overstepper.step.1 overstepper.step.1 := .start
  have hsecond := hfirst.step (Nat.zero_le _) (hcalled _ 0 _ rfl rfl)
  have hthird := hsecond.step (Nat.zero_le _) (hhosts _ [] rfl rfl)
  obtain ⟨hsilent, -, -, -⟩ := step_over_resumes_iff hbegins (.start trivial) hsteps henters hfirst
  obtain ⟨-, -, hreturns, -⟩ :=
    step_over_resumes_iff hbegins (.start trivial) hsteps henters hsecond
  obtain ⟨-, hstops, -, -⟩ := step_over_resumes_iff hbegins (.start trivial) hsteps henters hthird
  exact ⟨hsteps, henters, rfl, hsilent (by decide +kernel) _ rfl rfl, hleaves,
    hreturns _ (by decide +kernel) hleaves, rfl, (hstops ⟨rfl, rfl⟩ _ 5 rfl rfl rfl).1⟩

end Machine

end ScriptMachine
