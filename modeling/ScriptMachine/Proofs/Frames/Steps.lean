import ScriptMachine.Proofs.Frames.Entering
import ScriptMachine.Proofs.Frames.Going
import ScriptMachine.Proofs.Frames.Recovery

/-!
# Steps keep the frames linked

A step attempts an action; if that is a fault, the fault is dealt with. The attempt climbs, or it
leaves a function; dealing with a fault only leaves functions.

* `Machine.action`, `Machine.ready`, `Machine.attempt`: what a step attempts; `step_cases`.
* `Machine.Climbs`: the functions go on, and nothing below the frame pointer was touched.
* `Machine.Follows`: as far as the functions of a context were not left, their slots are the same.
* `step_follows`: so it is after every step.
-/

namespace ScriptMachine

variable {special : Prop}

namespace Machine

/-- What the next step attempts. -/
def action (m : Machine) : Exec Unit :=
  match m.ended, m.suspended with
  | some _, [] => pure ()
  | some result, s :: _ => Exec.afterScratch s.awaiting m.context result
  | none, _ =>
    match m.next? with
    | some i => do
      Exec.begin i
      Exec.execute i
    | none => Exec.finish

/-- The machine on which the next step acts: a context that has ended makes way for the one that
waits for it. -/
def ready (m : Machine) : Machine :=
  match m.ended, m.suspended with
  | some _, s :: rest => { m with context := s.context, suspended := rest, ended := none }
  | _, _ => m

/-- What comes of the next step before its fault, if it is one, is dealt with. -/
def attempt (m : Machine) : Except Halt Unit × Machine := Exec.outcome m.action m.ready

theorem perform_eq (m : Machine) (act : Exec Unit) :
    m.perform act = match Exec.outcome act m with
      | (.ok (), m') => (m', .running)
      | (.error (.fault f), m') =>
        match Exec.outcome (Exec.settle f) m' with
        | (.ok (), m'') => (m'', .running)
        | (.error _, _) => (m, .blocked)
      | (.error .blocked, _) => (m, .blocked) := by
  have hattempt := Exec.outcome_tryCatch act
  unfold Exec.outcome at hattempt ⊢
  unfold perform
  dsimp only
  rw [hattempt]
  rcases (act.run.run m : Except Halt Unit × Machine) with ⟨(f | _) | _, m'⟩
  · dsimp only
    rcases hsettle : Exec.outcome (Exec.settle f) m' with ⟨_ | _, m''⟩
    all_goals
      unfold Exec.outcome at hsettle
      simp only [hsettle]
  · rfl
  · rfl

theorem step_eq (m : Machine) : (∃ result, m.ended = some result ∧ m.suspended = [] ∧
    m.step = (m, .ended result)) ∨ m.step = m.ready.perform m.action := by
  unfold step ready action
  cases m.ended with
  | some result =>
    cases m.suspended with
    | nil => exact .inl ⟨result, rfl, rfl, rfl⟩
    | cons s rest => exact .inr rfl
  | none =>
    cases m.next? with
    | some i => exact .inr rfl
    | none => exact .inr rfl

/-- A step carries out what it attempts, or deals with its fault, or has to wait. -/
theorem step_cases (m : Machine) :
    (m.attempt = (.ok (), m.step.1) ∧ m.step.2 ≠ .blocked) ∨
      (∃ f m₁, m.attempt = (.error (.fault f), m₁) ∧
        Exec.outcome (Exec.settle f) m₁ = (.ok (), m.step.1) ∧ m.step.2 ≠ .blocked) ∨
      m.step = (m.ready, .blocked) ∧ ∃ e, m.attempt.1 = .error e := by
  rcases m.step_eq with ⟨result, hended, hsuspended, hstep⟩ | hstep
  · refine .inl ⟨?_, ?_⟩
    · rw [hstep, attempt, action, ready, hended, hsuspended]
      rfl
    · rw [hstep]
      nofun
  · rw [hstep, perform_eq]
    unfold attempt
    rcases Exec.outcome m.action m.ready with ⟨(f | _) | _, m'⟩
    · rcases hsettle : Exec.outcome (Exec.settle f) m' with ⟨_ | _, m''⟩
      · simp only [hsettle]
        exact .inr (.inr ⟨trivial, _, rfl⟩)
      · simp only [hsettle]
        exact .inr (.inl ⟨f, m', rfl, hsettle, nofun⟩)
    · exact .inr (.inr ⟨rfl, _, rfl⟩)
    · exact .inl ⟨rfl, nofun⟩

theorem step_of_attempt_ok {m m' : Machine} (h : m.attempt = (.ok (), m')) : m.step.1 = m' := by
  rcases m.step_cases with ⟨hok, -⟩ | ⟨f, m₁, hfault, -⟩ | ⟨-, e, herror⟩
  · rw [hok] at h
    exact congrArg Prod.snd h
  · rw [hfault] at h
    cases h
  · rw [h] at herror
    cases herror

theorem attempt_eq_ok {m : Machine} (h : m.attempt.1.isOk = true) :
    m.attempt = (.ok (), m.step.1) := by
  rcases hattempt : m.attempt with ⟨e | u, m'⟩
  · rw [hattempt] at h
    cases h
  · rw [step_of_attempt_ok hattempt]

/-- The end of a task removes its table. -/
theorem run_endTask (name : String) (table : TableId) (result : Except Fault Unit) (w : World) :
    ∃ journal, (endTask name table result).run w =
      ((), { w with scopes := w.scopes.remove table, journal }) := by
  obtain ⟨journal, hremove⟩ := World.run_remove table w
  unfold endTask
  rw [StateT.run_bind, hremove]
  cases result with
  | ok _ => exact ⟨_, rfl⟩
  | error _ => exact ⟨_, rfl⟩

/-! ### Contexts by level -/

variable {m m' m'' : Machine}

/-- Every context of a framed machine is framed. -/
theorem Framed.contextAt (h : m.Framed) (k : Nat) : (m.contextAt k).Framed := by
  unfold Machine.contextAt
  split
  · rename_i s hs
    exact h.waiting s (List.mem_reverse.1 (List.mem_of_getElem? hs))
  · exact h.running

/-! ### Climbing -/

/-- The functions go on, and no slot below the frame pointer was touched; another context may have
been set going. -/
structure Climbs (special : Prop) (m m' : Machine) : Prop extends Goes special m m' where
  framed : m'.Framed
  waiting : m'.suspended = m.suspended ∨
    m'.context.fp = 0 ∧ ∃ s, m'.suspended = s :: m.suspended
  fp_le : m.context.fp ≤ (m'.contextAt m.suspended.length).fp
  lower : (m'.contextAt m.suspended.length).stack.extract 0 m.context.fp = m.context.lower

/-- As far as the functions of the running context were not left, their slots are the same. -/
structure Follows (m m' : Machine) : Prop where
  framed : m'.Framed
  waiting : m'.suspended = m.suspended ∨
    m'.context.fp = 0 ∧ ∃ s, m'.suspended = s :: m.suspended
  lower : ∀ n ≤ m.context.fp, n ≤ (m'.contextAt m.suspended.length).fp →
    (m'.contextAt m.suspended.length).stack.extract 0 n = m.context.stack.extract 0 n

theorem Climbs.ofRunning (hgoes : m.Goes special m') (hframed : m'.Framed)
    (hsuspended : m'.suspended = m.suspended) (hfp : m.context.fp ≤ m'.context.fp)
    (hlower : m'.context.stack.extract 0 m.context.fp = m.context.lower) : m.Climbs special m' := by
  have hlevel : m'.contextAt m.suspended.length = m'.context :=
    contextAt_of_level (Nat.le_of_eq (congrArg List.length hsuspended))
  refine ⟨hgoes, hframed, .inl hsuspended, ?_, ?_⟩
  · rw [hlevel]
    exact hfp
  · rw [hlevel]
    exact hlower

/-- What an action does before it touches the stack does not matter. -/
theorem Climbs.after {m₀ : Machine} (h : m₀.Climbs special m')
    (hlower : m₀.context.lower = m.context.lower) (hfp : m₀.context.fp = m.context.fp)
    (hcode : m₀.context.code = m.context.code)
    (hhandlers : m₀.context.handlers = m.context.handlers)
    (hsuspended : m₀.suspended = m.suspended) (hended : m₀.ended = m.ended) :
    m.Climbs special m' := by
  refine ⟨h.toGoes.after hcode hfp hlower hhandlers hsuspended hended, h.framed, ?_, ?_, ?_⟩
  · rw [← hsuspended]
    exact h.waiting
  · rw [← hsuspended, ← hfp]
    exact h.fp_le
  · rw [← hsuspended, ← hfp, ← hlower]
    exact h.lower

theorem Climbs.strict (h : m.Climbs special m') (hstrict : special → m'.ended = m.ended ∧
      (m'.contextAt m.suspended.length).handlers.length ≤ m.context.handlers.length) :
    m.Climbs False m' :=
  ⟨h.toGoes.strict hstrict, h.framed, h.waiting, h.fp_le, h.lower⟩

/-- Cutting off more. -/
theorem extract_lower {stack other : Array Slot} {n k : Nat} (h : stack.extract 0 n
    = other.extract 0 n) (hk : k ≤ n) : stack.extract 0 k = other.extract 0 k := by
  have hcut := congrArg (fun xs : Array Slot => xs.extract 0 k) h
  simp only [Array.extract_extract, Nat.zero_add, Nat.min_eq_left hk] at hcut
  exact hcut

theorem Climbs.follows (h : m.Climbs special m') : m.Follows m' :=
  ⟨h.framed, h.waiting, fun _ hn _ => extract_lower h.lower hn⟩

theorem Unwound.follows (h : m.Unwound m') : m.Follows m' := by
  have hlevel : m'.contextAt m.suspended.length = m'.context :=
    contextAt_of_level (Nat.le_of_eq (congrArg List.length h.suspended))
  refine ⟨h.framed, .inl h.suspended, fun n _ hn => ?_⟩
  rw [hlevel] at hn ⊢
  exact extract_lower h.lower hn

theorem Follows.refl (h : m.Framed) : m.Follows m := (Unwound.refl h).follows

/-- First climbing, then leaving functions. -/
theorem Climbs.thenUnwound (h : m.Climbs special m') (hafter : m'.Unwound m'') : m.Follows m'' := by
  have hle := hafter.fp_le
  rcases h.waiting with hsame | ⟨hfresh, s, hcons⟩
  · have hlevel' : m'.contextAt m.suspended.length = m'.context :=
      contextAt_of_level (Nat.le_of_eq (congrArg List.length hsame))
    have hlevel'' : m''.contextAt m.suspended.length = m''.context :=
      contextAt_of_level (Nat.le_of_eq (congrArg List.length (hafter.suspended.trans hsame)))
    refine ⟨hafter.framed, .inl (hafter.suspended.trans hsame), fun n hn hn' => ?_⟩
    have hlower := extract_lower h.lower hn
    rw [hlevel'] at hlower
    rw [hlevel''] at hn' ⊢
    rw [extract_lower hafter.lower hn', hlower]
  · have hcons' := hafter.suspended.trans hcons
    refine ⟨hafter.framed, .inr ⟨by omega, s, hcons'⟩, fun n hn _ => ?_⟩
    rw [contextAt_of_cons hcons', ← contextAt_of_cons hcons]
    exact extract_lower h.lower hn

end Machine

namespace Exec

variable {α β : Type}

/-! ### Scopes stay sound -/

/-- **Every instruction but a return keeps the scopes sound.** -/
theorem sound_execute {i : Instruction} (h : i.op ≠ .return) {m : Machine}
    (hm : m.context.Grounded) (hsound : m.world.scopes.Sound) :
    (outcome (execute i) m).2.world.scopes.Sound := by
  have hcalls : ∀ {act : Exec Unit}, IsCallOfScope act →
      (outcome act m).2.world.scopes.Sound := by
    intro act hact
    rcases hact m hm hsound with hsame | ⟨-, henters | hsuspends⟩
    · exact hsound.congr hsame.outline_eq
    · obtain ⟨made, hgrows⟩ := henters.grows
      exact hgrows.sound
    · exact hsound.congr hsuspends.outline_eq
  by_cases hscoped : i.op.isScoped = true
  · exact hsound.congr (execute_isScoped hscoped m hm).outline_eq
  · obtain ⟨op, operand⟩ := i
    cases op with
    | call => exact hcalls (.call operand)
    | localCall => exact hcalls (.localCall operand)
    | entryPoint => exact hcalls (.entryPoint operand)
    | «return» => exact absurd rfl h
    | pushScope =>
      obtain ⟨j, hout⟩ := outcome_pushScope m
      obtain ⟨id, b, hmade, hgrows, -⟩ :=
        Arena.newChild_grows hsound "block" m.context.symbols false
      show (outcome pushScope m).2.world.scopes.Sound
      rw [hout, hmade]
      exact hgrows.sound
    | popScope =>
      show (outcome popScope m).2.world.scopes.Sound
      rcases outcome_popScope m with ⟨-, f, hout⟩ | ⟨parent, j, -, hout⟩
      · rw [hout]
        exact hsound
      · rw [hout]
        exact hsound.remove _
    | pushPackage =>
      show (outcome (pushPackage operand) m).2.world.scopes.Sound
      rcases outcome_pushPackage operand hsound with ⟨f, hout⟩ | ⟨name, r, t, w, hout, hdefines⟩
      · rw [hout]
        exact hsound
      · rw [hout]
        exact hdefines.sound
    | popPackage =>
      show (outcome popPackage m).2.world.scopes.Sound
      rcases outcome_popPackage hsound with ⟨-, f, hout⟩ | ⟨scope, rest, w, -, houtline, -, hout⟩
      · rw [hout]
        exact hsound
      · rw [hout]
        exact hsound.congr houtline
    | _ => exact absurd rfl hscoped

/-! ### Instructions climb -/

/-- Steady actions climb. -/
theorem climbs_of_has {m m' : Machine} (h : m.Framed) (hhas : m'.Has m.footing)
    (hlower : m'.context.lower = m.context.lower) (hsound : m'.world.scopes.Sound) :
    m.Climbs special m' := by
  have hfp := hhas.fp_eq
  have hdepth : m'.context.frameDepth = m.context.frameDepth :=
    congrArg Footing.frameDepth hhas.footing_eq
  have hhandlers : m'.context.handlers = m.context.handlers := hhas.handlers_eq
  have hsuspended : m'.suspended = m.suspended := hhas.suspended_eq
  have hlower' : m'.context.stack.extract 0 m.context.fp = m.context.lower := by
    rw [← hlower, Context.lower, hfp]
    rfl
  refine .ofRunning (.ofHas hhas hlower) ⟨?_, ?_, hsound⟩ hsuspended (Nat.le_of_eq hfp.symm)
    hlower'
  · unfold Context.Framed
    rw [hdepth, hhandlers, hfp]
    refine h.running.congr ?_ hlower' ?_
    · rw [← show m'.context.fp = m.context.fp from hfp]
      exact hhas.grounded.fp_le
    · have hvalues := hhas.grounded.values
      rwa [Context.operands, hfp] at hvalues
  · rw [hsuspended]
    exact h.waiting

theorem IsSteady.climbs {act : Exec α} (hact : IsSteady act) {m : Machine} (h : m.Framed)
    (hsound : (outcome act m).2.world.scopes.Sound) : m.Climbs special (outcome act m).2 :=
  have hground := h.running.grounded
  climbs_of_has h (hact m.footing #[] (Nat.zero_le _) m (Machine.has_self hground)).2
    (hact.lower_eq hground) hsound

end Exec

/-- So do the effects of calls. -/
theorem CallEffect.climbs {m m' : Machine} (heffect : CallEffect m m') (h : m.Framed)
    (hsound : m'.world.scopes.Sound) : m.Climbs special m' := by
  have hfp := h.running.fp_le
  have hgoes : m.Goes special m' := heffect.goes hfp
  cases heffect with
  | stays has lower => exact Exec.climbs_of_has h has lower hsound
  | enters name table code pc observer package context suspended ended =>
    refine .ofRunning hgoes ⟨?_, ?_, hsound⟩ suspended ?_ ?_
    · rw [context]
      exact h.running.enter rfl
    · rw [suspended]
      exact h.waiting
    · rw [context]
      show m.context.fp ≤ m.context.stack.size + 1
      omega
    · rw [context]
      exact Array.extract_push_of_le hfp
  | suspends awaiting fresh suspended ended =>
    have hlevel := Machine.contextAt_of_cons suspended
    refine ⟨hgoes, ⟨fresh.framed, ?_, hsound⟩, .inr ⟨fresh.fp_eq, _, suspended⟩, ?_, ?_⟩
    · rw [suspended]
      intro s hs
      rcases List.mem_cons.1 hs with rfl | hs
      · exact h.running
      · exact h.waiting s hs
    · exact Nat.le_of_eq (by rw [hlevel])
    · rw [hlevel]
      rfl

namespace Exec

theorem CallsAfter.climbs {i : Instruction} {act : Exec Unit} (hact : CallsAfter i act)
    {m : Machine} (h : m.Framed) (hsound : (outcome act m).2.world.scopes.Sound) :
    m.Climbs special (outcome act m).2 := by
  rcases hact m h.running.grounded with ⟨hhas, hlower⟩ | ⟨extraArgs, hle, heffect⟩
  · exact climbs_of_has h hhas hlower hsound
  · have hcut : m.context.fp ≤ m.context.stack.size - slotsTaken i m.context := by omega
    have hclimbs : (withoutSlots m (slotsTaken i m.context) extraArgs).Climbs special
        (outcome act m).2 :=
      heffect.climbs ⟨h.running.truncate hcut, h.waiting, h.sound⟩ hsound
    refine ⟨hact.goes h.running.grounded, hclimbs.framed, hclimbs.waiting, hclimbs.fp_le,
      hclimbs.lower.trans ?_⟩
    show (m.context.stack.extract 0 _).extract 0 m.context.fp = m.context.lower
    rw [Array.extract_extract, Nat.zero_add, Nat.zero_add, Nat.min_eq_left hcut]
    rfl

/-- Handlers may go, be replaced or be armed. -/
theorem climbs_of_handlers {m : Machine} (h : m.Framed) {w : World} {handlers : List Handler}
    (hstacked : Stacked m.context.stack m.context.fp m.context.frameDepth handlers)
    (houtlasts : Outlasts m.context.handlers handlers)
    (hlength : handlers.length ≤ m.context.handlers.length ∨ special) (hsound : w.scopes.Sound) :
    m.Climbs special { m with world := w, context := { m.context with handlers } } :=
  .ofRunning (.ofRunning (.runs rfl rfl rfl houtlasts hlength) rfl (.inl rfl))
    ⟨hstacked, h.waiting, hsound⟩ rfl (Nat.le_refl _) rfl

theorem climbs_refl {m : Machine} (h : m.Framed) : m.Climbs special m :=
  .ofRunning (.refl m) h rfl (Nat.le_refl _) rfl

theorem outcome_branchTarget (operand : Value) (m : Machine) :
    (∃ e, outcome (branchTarget operand) m = (.error e, m)) ∨
      ∃ address < m.context.code.size, outcome (branchTarget operand) m = (.ok address, m) := by
  by_cases hwithin : ∃ address, operand.toIndex = .ok address ∧ address < m.context.code.size
  · obtain ⟨address, hindex, hlt⟩ := hwithin
    exact .inr ⟨address, hlt, outcome_branchTarget_of_lt hindex hlt⟩
  · exact .inl ⟨_, outcome_branchTarget_of_beyond fun a hindex =>
      Nat.le_of_not_lt fun hlt => hwithin ⟨a, hindex, hlt⟩⟩

/-- Arming a handler is a fault, or adds the handler of that place. -/
theorem outcome_arm (operand : Value) (m : Machine) :
    (∃ e, outcome (arm operand) m = (.error e, m)) ∨
      ∃ address < m.context.code.size, outcome (arm operand) m = (.ok (), { m with
        context := { m.context with
          handlers := m.context.handlerTo address :: m.context.handlers } }) := by
  rcases outcome_branchTarget operand m with ⟨e, htarget⟩ | ⟨address, hlt, htarget⟩
  · rw [arm, outcome_bind_error htarget]
    exact .inl ⟨e, rfl⟩
  · rw [arm, outcome_bind_ok htarget]
    exact .inr ⟨address, hlt, rfl⟩

theorem climbs_arm (operand : Value) {m : Machine} (h : m.Framed) (hspecial : special) :
    m.Climbs special (outcome (arm operand) m).2 := by
  rcases outcome_arm operand m with ⟨e, hout⟩ | ⟨address, -, hout⟩
  · rw [hout]
    exact climbs_refl h
  · rw [hout]
    exact climbs_of_handlers h (h.running.arm rfl h.running.fp_le) (.arm _) (.inr hspecial) h.sound

theorem climbs_disarm {m : Machine} (h : m.Framed) : m.Climbs special (outcome disarm m).2 := by
  rw [disarm, outcome_bind_ok (outcome_context m)]
  have hframed := h.running
  unfold Context.Framed at hframed
  cases hhandlers : m.context.handlers with
  | nil => exact climbs_refl h
  | cons x rest =>
    rw [hhandlers] at hframed
    have houtlasts : Outlasts m.context.handlers rest := by
      rw [hhandlers]
      exact .ofSuffix [x]
    have hlength : rest.length ≤ m.context.handlers.length ∨ special := by
      rw [hhandlers, List.length_cons]
      exact .inl (Nat.le_succ _)
    dsimp only
    rw [outcome_bind_ok (outcome_modifyContext _ m), outcome_bind_ok (outcome_scopes _)]
    cases hdelete : m.world.scopes.delete m.context.symbols "_error" true with
    | error e => exact climbs_of_handlers h hframed.tail houtlasts hlength h.sound
    | ok a =>
      refine climbs_of_handlers h hframed.tail houtlasts hlength
        (w := { m.world with scopes := a }) ?_
      exact h.sound.congr (Arena.outline_of_delete hdelete)

theorem climbs_narrow (operand : Value) {m : Machine} (h : m.Framed) :
    m.Climbs special (outcome (narrow operand) m).2 := by
  rw [narrow, outcome_bind_ok (outcome_context m)]
  have hframed := h.running
  unfold Context.Framed at hframed
  cases hhandlers : m.context.handlers with
  | nil => exact climbs_refl h
  | cons x rest =>
    rw [hhandlers] at hframed
    dsimp only
    cases hnarrowed : narrowed x.catches operand with
    | error e => exact climbs_refl h
    | ok catches =>
      have houtlasts : Outlasts m.context.handlers ({ x with catches } :: rest) := by
        rw [hhandlers]
        exact .replace [] ⟨rfl, rfl, rfl, rfl, .inl rfl⟩
      have hlength : ({ x with catches } :: rest).length ≤ m.context.handlers.length ∨ special := by
        rw [hhandlers]
        exact .inl (Nat.le_refl _)
      exact climbs_of_handlers h (hframed.replaceHead rfl rfl) houtlasts hlength h.sound

/-- **Every instruction but a return climbs**, and only `try` arms a handler. -/
theorem execute_climbs {i : Instruction} (hi : i.op ≠ .return) (hspecial : i.op = .try → special)
    {m : Machine} (h : m.Framed) :
    m.Climbs special (outcome (execute i) m).2 := by
  have hsound := sound_execute hi h.running.grounded h.sound
  by_cases hlocal : i.op.isLocal = true
  · exact (execute_isLocal hlocal).isSteady.climbs h hsound
  · obtain ⟨op, operand⟩ := i
    cases op with
    | atLine => exact (IsSteady.atLine operand).climbs h hsound
    | call => exact (call_callsAfter operand).climbs h hsound
    | defer => exact (IsSteady.deferCall operand).climbs h hsound
    | entryPoint => exact (entryPoint_callsAfter operand).climbs h hsound
    | go => exact (IsSteady.go operand).climbs h hsound
    | popPackage => exact IsSteady.popPackage.climbs h hsound
    | popScope => exact IsSteady.popScope.climbs h hsound
    | pushPackage => exact (IsSteady.pushPackage operand).climbs h hsound
    | pushScope => exact IsSteady.pushScope.climbs h hsound
    | rangeInit => exact (IsSteady.beginLoop operand).climbs h hsound
    | «return» => exact absurd rfl hi
    | tryPop => exact climbs_disarm h
    | wait => exact (IsSteady.await operand).climbs h hsound
    | willCatch => exact climbs_narrow operand h
    | localCall => exact (localCall_callsAfter operand).climbs h hsound
    | rangeNext => exact (IsSteady.nextRound operand).climbs h hsound
    | «try» => exact climbs_arm operand h (hspecial rfl)
    | _ => exact absurd rfl hlocal

/-- What is recorded when an instruction begins. -/
theorem outcome_begin (i : Instruction) (m : Machine) : ∃ journal running observer,
    outcome (begin i) m = (.ok (), { m with
      world := { m.world with journal }
      context := { m.context with pc := m.context.pc + 1, running, observer } }) := by
  obtain ⟨j, o, ho⟩ := outcome_observe (.instruction m.context.pc i.op m.context.stack.size)
    { m with context := { m.context with pc := m.context.pc + 1 } }
  rw [begin, outcome_bind_ok (outcome_context m), outcome_bind_ok (outcome_modifyContext _ m),
    outcome_bind_ok (outcome_context _), outcome_bind_ok ho,
    outcome_bind_ok (outcome_modifyContext _ _), outcome_bind_ok (outcome_get _)]
  exact ⟨_, _, _, rfl⟩

/-! ### Returns -/

/-- A return goes on with the last deferred call, or leaves the function. -/
theorem continueReturn_cases {m : Machine} (h : m.Framed) :
    m.Climbs special (outcome continueReturn m).2 ∨
      0 < m.context.fp ∧ outcome continueReturn m = outcome popFrame m := by
  rw [continueReturn, outcome_bind_ok (outcome_context m)]
  cases hdeferred : m.context.deferred with
  | nil =>
    dsimp only
    by_cases hfp : 0 < m.context.fp
    · rw [if_pos hfp]
      exact .inr ⟨hfp, rfl⟩
    · rw [if_neg hfp, outcome_modifyContext]
      exact .inl (.ofRunning (.ofRunning (.ofRuns rfl rfl rfl rfl) rfl (.inl rfl))
        ⟨h.running, h.waiting, h.sound⟩ rfl (Nat.le_refl _) rfl)
  | cons d rest =>
    obtain ⟨j, hj⟩ := outcome_noteThread .trace (fun _ => "run deferred call")
      { m with context := { m.context with deferred := rest } }
    have hfresh := World.callContext_fresh m.context.symbols m.context.settings d.callable d.args
      { m.world with journal := j }
    dsimp only
    rw [outcome_bind_ok (outcome_modifyContext _ m), outcome_bind_ok hj,
      outcome_bind_ok (outcome_onWorld _ _), outcome_bind_ok (outcome_modifyContext _ _)]
    have hwaits : Machine.Framed { m with
        world := ((World.callContext m.context.symbols m.context.settings d.callable d.args).run
          { m.world with journal := j }).2
        context := { m.context with deferred := rest, output := .discarded } } :=
      ⟨h.running, h.waiting, h.sound⟩
    have heffect := IsCall.enterScratch (c := { ((World.callContext m.context.symbols
      m.context.settings d.callable d.args).run { m.world with journal := j }).1 with
        output := m.context.output }) ⟨hfresh.values, hfresh.fp_eq, hfresh.frameDepth_eq,
      hfresh.handlers_eq⟩ .deferred _ hwaits.running.grounded
    exact .inl ((heffect.climbs hwaits hwaits.sound).after rfl rfl rfl rfl rfl rfl)

end Exec

/-- The context with its top operand as its result. -/
def Context.takeResult (c : Context) : Context :=
  match c.stack.back? with
  | some (.value v) => { c with stack := c.stack.pop, result := some v }
  | _ => c

/-- The context as a return with an operand leaves it. -/
def Context.returning (c : Context) (operand : Value) : Context :=
  match operand.unwrapped with
  | .bool true => c.takeResult
  | _ => c

namespace Context

theorem returning_fp (c : Context) (operand : Value) : (c.returning operand).fp = c.fp := by
  unfold returning takeResult
  split
  · split <;> rfl
  · rfl

theorem returning_symbols (c : Context) (operand : Value) :
    (c.returning operand).symbols = c.symbols := by
  unfold returning takeResult
  split
  · split <;> rfl
  · rfl

/-- A value on top of the stack of a framed context belongs to the running function. -/
theorem Framed.fp_lt_size {c : Context} (h : c.Framed) {v : Value}
    (hback : c.stack.back? = some (.value v)) : c.fp < c.stack.size := by
  have hsize : 0 < c.stack.size := by
    rcases Nat.eq_zero_or_pos c.stack.size with hzero | hpos
    · rw [Array.eq_empty_of_size_eq_zero hzero] at hback
      cases hback
    · exact hpos
  rcases Nat.lt_or_ge c.fp c.stack.size with hlt | hge
  · exact hlt
  · have hfp : c.fp = c.stack.size := Nat.le_antisymm h.fp_le hge
    obtain ⟨below, f, hstack, -⟩ := h.frame (by omega)
    rw [hfp, Array.extract_size] at hstack
    rw [hstack, Array.back?_push] at hback
    cases hback

theorem Framed.returning {c : Context} (h : c.Framed) (operand : Value) :
    (c.returning operand).Framed ∧ (c.returning operand).lower = c.lower := by
  unfold Context.returning Context.takeResult
  split
  · split
    · rename_i v hback
      have hlt := h.fp_lt_size hback
      have hpop : c.stack.pop = c.stack.extract 0 (c.stack.size - 1) :=
        (Array.extract_eq_pop rfl).symm
      refine ⟨?_, ?_⟩
      · show Stacked c.stack.pop c.fp c.frameDepth c.handlers
        rw [hpop]
        exact h.truncate (by omega)
      · show c.stack.pop.extract 0 c.fp = c.stack.extract 0 c.fp
        rw [hpop, Array.extract_extract, Nat.zero_add, Nat.zero_add, Nat.min_eq_left (by omega)]
    · exact ⟨h, rfl⟩
  · exact ⟨h, rfl⟩

theorem returning_begun (c : Context) (operand : Value) (pc : Nat) (running : Bool)
    (observer : Observer) : ({ c with pc, running, observer } : Context).returning operand
      = { c.returning operand with pc, running, observer, output := c.output } := by
  unfold returning takeResult
  split
  · dsimp only
    cases c.stack.back? with
    | none => rfl
    | some s => cases s <;> rfl
  · rfl

end Context

namespace Machine

/-- The next step executes a return, or goes on with one after a deferred call. -/
def Returns (m : Machine) : Prop :=
  match m.ended, m.suspended with
  | some _, [] => False
  | some _, s :: _ => s.awaiting = .deferred
  | none, _ => ∃ operand, m.next? = some ⟨.return, operand⟩

/-- The context whose function the next step leaves, if it leaves one by a return. -/
def leaving (m : Machine) : Context :=
  match m.ended, m.next? with
  | none, some ⟨.return, operand⟩ => m.context.returning operand
  | _, _ => m.ready.context

end Machine

namespace Exec

/-- **A return** keeps to the function, or leaves it with what it returns. -/
theorem return_cases (operand : Value) {m : Machine} (h : m.Framed) :
    m.Climbs special (outcome (return_ operand) m).2 ∨
      0 < m.context.fp ∧ outcome (return_ operand) m
        = outcome popFrame { m with context := m.context.returning operand } := by
  have hpop : m.Climbs special (outcome popValue m).2 := IsLocal.popValue.isSteady.climbs h
    (h.sound.congr (IsLocal.popValue.isScoped m h.running.grounded).outline_eq)
  unfold return_ Context.returning
  generalize operand.unwrapped = given
  cases given with
  | bool b =>
    cases b with
    | false => exact continueReturn_cases h
    | true =>
      dsimp only
      rcases hout : outcome popValue m with ⟨e | v, m'⟩
      · rw [hout] at hpop
        rw [outcome_bind_error hout]
        exact .inl hpop
      · obtain ⟨hback, hm'⟩ := outcome_popValue hout
        rw [hout] at hpop
        rw [outcome_bind_ok hout, outcome_bind_ok (outcome_modifyContext _ m'), Context.takeResult,
          hback]
        rw [hm'] at hpop ⊢
        rcases continueReturn_cases (m := { m with context := { m.context with
          stack := m.context.stack.pop, result := some v } })
          ⟨hpop.framed.running, hpop.framed.waiting, hpop.framed.sound⟩ with hstays | hleaves
        · have hlower := hpop.lower
          rw [Machine.contextAt_of_level (by exact Nat.le_refl _)] at hlower
          exact .inl (hstays.after hlower rfl rfl rfl rfl rfl)
        · exact .inr hleaves
  | _ => exact continueReturn_cases h

theorem sound_sortAfter (r : Ref .array) (less : Value) (size i j : Nat) (goesFirst : Bool)
    {m : Machine} (h : m.Framed) :
    (outcome (sortAfter r less size i j goesFirst) m).2.world.scopes.Sound := by
  rcases IsCallOfScope.sortAfter r less size i j goesFirst m h.running.grounded h.sound with
    hsame | ⟨-, henters | hsuspends⟩
  · exact h.sound.congr hsame.outline_eq
  · obtain ⟨made, hgrows⟩ := henters.grows
    exact hgrows.sound
  · exact h.sound.congr hsuspends.outline_eq

/-- Going on in the context that waited: with the next deferred call, with the return that the call
held up, or with a sort. -/
theorem afterScratch_cases (awaiting : Awaiting) (scratch : Context) (result : Except Fault Unit)
    {m : Machine} (h : m.Framed) :
    m.Climbs special (outcome (afterScratch awaiting scratch result) m).2 ∨
      awaiting = .deferred ∧ 0 < m.context.fp ∧
      outcome (afterScratch awaiting scratch result) m
        = outcome popFrame { m with context := { m.context with output := scratch.output } } := by
  cases awaiting with
  | deferred =>
    have hframed : Machine.Framed
        { m with context := { m.context with output := scratch.output } } :=
      ⟨h.running, h.waiting, h.sound⟩
    unfold afterScratch
    dsimp only
    rw [outcome_bind_ok (outcome_modifyContext _ m)]
    cases result with
    | error f => exact .inl ((climbs_refl hframed).after rfl rfl rfl rfl rfl rfl)
    | ok =>
      rcases continueReturn_cases hframed with hstays | hleaves
      · exact .inl (hstays.after rfl rfl rfl rfl rfl rfl)
      · exact .inr ⟨rfl, hleaves⟩
  | ordering r less size i j =>
    unfold afterScratch
    dsimp only
    cases result with
    | error f =>
      have hlocal := IsCall.settleLibraryFault .sortSlice f
      exact .inl (hlocal.isSteady.climbs h
        (h.sound.congr (hlocal.isScoped m h.running.grounded).outline_eq))
    | ok =>
      dsimp only
      rw [outcome_bind_ok (outcome_heap m)]
      exact .inl ((IsCall.sortAfter r less size i j _ m h.running.grounded).climbs h
        (sound_sortAfter r less size i j _ h))

end Exec

namespace Machine

variable {m : Machine}

theorem Framed.ready (h : m.Framed) : m.ready.Framed := by
  unfold Machine.ready
  split
  · rename_i s rest _ hs
    refine ⟨h.waiting s ?_, fun t ht => h.waiting t ?_, h.sound⟩
    · rw [hs]
      exact List.mem_cons_self
    · rw [hs]
      exact List.mem_cons_of_mem _ ht
  · exact h

/-- The next step ends the context, for want of a further instruction. -/
def Finishes (m : Machine) : Prop := m.ended = none ∧ m.next? = none

/-- The next step executes a `try`. -/
def Tries (m : Machine) : Prop := m.ended = none ∧ ∃ operand, m.next? = some ⟨.try, operand⟩

/-- **A step climbs, or it leaves the running function by a return.** It arms a handler at most by a
`try`, and ends the context at most for want of a further instruction. -/
theorem attempt_cases (h : m.Framed) :
    m.ready.Climbs (m.Tries ∨ m.Finishes) m.attempt.2 ∨ m.Returns ∧
    ∃ journal pc running observer output, 0 < m.leaving.fp ∧
      m.attempt = Exec.outcome Exec.popFrame { m.ready with
        world := { m.world with journal }
        context := { m.leaving with pc, running, observer, output } } := by
  have hready := h.ready
  unfold attempt action leaving Returns Machine.ready at *
  cases hended : m.ended with
  | some result =>
    rw [hended] at hready
    cases hsuspended : m.suspended with
    | nil => exact .inl (Exec.climbs_refl h)
    | cons s rest =>
      rw [hsuspended] at hready
      rcases Exec.afterScratch_cases s.awaiting m.context result hready with
        hstays | ⟨hdeferred, hfp, hleaves⟩
      · exact .inl hstays
      · exact .inr ⟨hdeferred, _, _, _, _, _, hfp, hleaves⟩
  | none =>
    dsimp only
    cases hnext : m.next? with
    | none =>
      obtain ⟨j, hj⟩ := Exec.outcome_finish m
      dsimp only
      rw [hj]
      exact .inl (.ofRunning
        (.ofRunning (.ofRuns rfl rfl rfl rfl) rfl (.inr (.inr ⟨hended, hnext⟩)))
        ⟨h.running, h.waiting, h.sound⟩ rfl (Nat.le_refl _) rfl)
    | some i =>
      obtain ⟨j, running, observer, hbegin⟩ := Exec.outcome_begin i m
      have hbegun : Framed { m with
          world := { m.world with journal := j }
          context := { m.context with pc := m.context.pc + 1, running, observer } } :=
        ⟨h.running, h.waiting, h.sound⟩
      dsimp only
      rw [Exec.outcome_bind_ok hbegin]
      obtain ⟨op, operand⟩ := i
      by_cases hop : op = .return
      · subst hop
        rcases Exec.return_cases operand hbegun with hstays | ⟨hfp, hleaves⟩
        · exact .inl (hstays.after rfl rfl rfl rfl rfl rfl)
        · refine .inr ⟨⟨operand, rfl⟩, j, m.context.pc + 1, running, observer, m.context.output,
            ?_, ?_⟩
          · show 0 < (m.context.returning operand).fp
            rw [Context.returning_fp]
            exact hfp
          · rw [Context.returning_begun] at hleaves
            exact hleaves
      · refine .inl
          ((Exec.execute_climbs hop (fun htry => ?_) hbegun).after rfl rfl rfl rfl rfl rfl)
        obtain rfl : op = .try := htry
        exact .inl ⟨hended, operand, hnext⟩

/-- The context that waits goes on in the same world. -/
theorem ready_world (m : Machine) : m.ready.world = m.world := by
  unfold ready
  split <;> rfl

theorem leaving_symbols (m : Machine) : m.leaving.symbols = m.ready.context.symbols := by
  unfold leaving
  split
  · rename_i operand hended hnext
    rw [Context.returning_symbols, ready, hended]
  · rfl

/-- What a return leaves is the function that is running. -/
theorem leaving_spec (h : m.Framed) : m.leaving.Framed ∧ m.leaving.fp = m.ready.context.fp ∧
    m.leaving.lower = m.ready.context.lower := by
  unfold leaving
  split
  · rename_i operand hended hnext
    have hready : m.ready = m := by
      rw [Machine.ready, hended]
    rw [hready]
    obtain ⟨hframed, hlower⟩ := h.running.returning operand
    exact ⟨hframed, Context.returning_fp _ _, hlower⟩
  · exact ⟨h.ready.running, rfl, rfl⟩

/-- What a step attempts climbs, or it leaves functions. -/
theorem attempt_climbs_or_unwound (h : m.Framed) (hlive : m.attempt.2.HiddenLive) :
    m.ready.Climbs (m.Tries ∨ m.Finishes) m.attempt.2 ∨ m.ready.Unwound m.attempt.2 := by
  rcases attempt_cases h with hclimbs | ⟨-, j, pc, running, observer, output, hfp, hattempt⟩
  · exact .inl hclimbs
  · obtain ⟨hframed, hsame, hlower⟩ := leaving_spec h
    rw [hattempt] at hlive ⊢
    obtain ⟨hunwound, hle, hslots, hsuspended⟩ := Exec.popFrame_unwound (m := { m.ready with
      world := { m.world with journal := j }
      context := { m.leaving with pc, running, observer, output } })
      ⟨hframed, h.ready.waiting, h.sound⟩ hlive
    refine .inr ⟨hunwound, Nat.le_trans hle (Nat.le_of_eq hsame), hslots.trans ?_, hsuspended⟩
    have hcut : m.leaving.stack.extract 0 m.leaving.fp
        = m.ready.context.stack.extract 0 m.leaving.fp := by
      rw [hsame]
      rw [Context.lower, Context.lower, hsame] at hlower
      exact hlower
    exact extract_lower hcut hle

/-- **A step keeps the slots of the functions that it does not leave, and keeps the machine
framed.** -/
theorem step_follows (h : m.Framed) (hlive : m.step.1.HiddenLive) : m.ready.Follows m.step.1 := by
  rcases step_cases m with ⟨hok, -⟩ | ⟨f, m₁, hfault, hsettle, -⟩ | ⟨hwait, -⟩
  · have hcases := attempt_climbs_or_unwound h (by rw [hok]; exact hlive)
    rw [hok] at hcases
    exact hcases.elim Climbs.follows Unwound.follows
  · have hfades := Exec.IsFading.settle f m₁
    rw [hsettle] at hfades
    have hlive₁ : m₁.HiddenLive := hfades.hiddenLive hlive
    have hcases := attempt_climbs_or_unwound h (by rw [hfault]; exact hlive₁)
    rw [hfault] at hcases
    have hafter : m₁.Framed → m₁.Unwound m.step.1 := by
      intro h₁
      have := Exec.settle_unwound (f := f) h₁ (by rw [hsettle]; exact hlive)
      rwa [hsettle] at this
    rcases hcases with hclimbs | hunwound
    · exact hclimbs.thenUnwound (hafter hclimbs.framed)
    · exact (hunwound.trans (hafter hunwound.framed)).follows
  · rw [hwait]
    exact .refl h.ready

end Machine

end ScriptMachine
