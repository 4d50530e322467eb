import ScriptMachine.Proofs.Faults.Leaving
import ScriptMachine.Proofs.Frames.Exits

/-!
# Runs that fail

A fault turns to the innermost handler that takes it: the functions inside the one that armed it are
left, and the context goes on there once the fault is bound. Without such a handler all functions
are left, and the fault is the result. So a failed run ends in its outermost code, stopped, with no
frame left on its operand stack and with the fault that was raised, if every function can be left;
that is sure as long as hidden tables stay live. A function that sticks stays, and a fault that is
raised on the way to a handler takes the place of the one that was to be caught.

* `findHandler_eq_some_iff`: which handler is found.
* `Machine.Arrives`: a fault has led to a handler; `catchAt_cases`.
* `Machine.traced`: what is written before a run is given up; `outcome_abandon`.
* `outcome_settle`: dealing with a fault.
* `attempt_of_error`: a fault leaves no function before it is dealt with.
* `step_of_fault`, `step_of_catcher`: what a step does whose attempt is a fault.
* `Context.Cleared`: a context that has stopped in its outermost code.
* `Machine.LeavesEvery`: every function can be left.
* `failed_run_cleared_iff`: when a failed run is cleared, and ends with the fault that was raised.
-/

namespace ScriptMachine

/-! ### Where a fault leads -/

namespace Exec

/-- **The innermost handler that takes a fault** is the one that is found. -/
theorem findHandler_eq_some_iff {f : Fault} {handlers outer : List Handler} {handler : Handler} :
    findHandler f handlers = some (handler, outer) ↔
      ∃ pre, handlers = pre ++ handler :: outer ∧ handler.takes f = true ∧
        ∀ x ∈ pre, x.takes f = false := by
  induction handlers with
  | nil =>
    constructor
    · intro h
      cases h
    · rintro ⟨pre, hpre, -⟩
      cases pre <;> cases hpre
  | cons x rest ih =>
    rw [findHandler]
    constructor
    · intro h
      split at h
      · rename_i htakes
        cases h
        exact ⟨[], rfl, htakes, fun y hy => absurd hy List.not_mem_nil⟩
      · rename_i hpasses
        obtain ⟨pre, hrest, htakes, hpre⟩ := ih.1 h
        refine ⟨x :: pre, by rw [hrest]; rfl, htakes, fun y hy => ?_⟩
        rcases List.mem_cons.1 hy with rfl | hy
        · exact Bool.eq_false_iff.2 hpasses
        · exact hpre y hy
    · rintro ⟨pre, hpre, htakes, hinner⟩
      cases pre with
      | nil =>
        cases hpre
        rw [if_pos htakes]
      | cons y pre =>
        cases hpre
        rw [if_neg (by rw [hinner x List.mem_cons_self]; exact Bool.false_ne_true)]
        exact ih.2 ⟨pre, rfl, htakes, fun z hz => hinner z (List.mem_cons_of_mem _ hz)⟩

theorem findHandler_eq_none_iff {f : Fault} {handlers : List Handler} :
    findHandler f handlers = none ↔ ∀ x ∈ handlers, x.takes f = false := by
  induction handlers with
  | nil => exact ⟨fun _ x hx => absurd hx List.not_mem_nil, fun _ => rfl⟩
  | cons x rest ih =>
    rw [findHandler, List.forall_mem_cons]
    split
    · rename_i htakes
      refine ⟨fun h => ?_, fun h => absurd (h.1.symm.trans htakes) Bool.false_ne_true⟩
      cases h
    · rename_i hpasses
      exact ⟨fun h => ⟨Bool.eq_false_iff.2 hpasses, ih.1 h⟩, fun h => ih.2 h.2⟩

end Exec

/-- The handler that takes a fault of a context is one of its handlers, and takes the fault with the
place where it was raised; those inside it do not. -/
theorem Context.catcher?_eq_some_iff {c : Context} {f : Fault} {handler : Handler}
    {outer : List Handler} : c.catcher? f = some (handler, outer) ↔
      f.isSignal = false ∧ (f.kind = .panic → c.panics = false) ∧
      ∃ pre, c.handlers = pre ++ handler :: outer ∧
        handler.takes (f.raisedAt c.code.name c.line) = true ∧
        ∀ x ∈ pre, x.takes (f.raisedAt c.code.name c.line) = false := by
  rw [← Exec.findHandler_eq_some_iff]
  unfold catcher?
  by_cases hsignal : f.isSignal = true
  · rw [if_pos hsignal, hsignal]
    exact ⟨fun h => (nomatch h), fun h => (nomatch h.1)⟩
  · rw [if_neg hsignal]
    dsimp only
    rw [Fault.raisedAt_kind]
    by_cases hpanic : f.kind = .panic
    · cases hpanics : c.panics <;> simp [hpanic, hsignal]
    · simp [hpanic, hsignal]

/-- No handler takes a fault of a context: it is a signal, or a panic that is to end the run, or it
passes all handlers. -/
theorem Context.catcher?_eq_none_iff {c : Context} {f : Fault} : c.catcher? f = none ↔
    f.isSignal = true ∨ f.kind = .panic ∧ c.panics = true ∨
      ∀ x ∈ c.handlers, x.takes (f.raisedAt c.code.name c.line) = false := by
  rw [← Exec.findHandler_eq_none_iff]
  unfold catcher?
  by_cases hsignal : f.isSignal = true
  · rw [if_pos hsignal]
    exact ⟨fun _ => .inl hsignal, fun _ => rfl⟩
  · rw [if_neg hsignal]
    dsimp only
    rw [Fault.raisedAt_kind]
    by_cases hpanic : f.kind = .panic
    · cases hpanics : c.panics <;> simp [hpanic, hsignal]
    · simp [hpanic, hsignal]

/-! ### The way to a handler -/

/-- A fault has led to a handler: the functions inside that of the handler are left, and all that
remains is to bind the fault. -/
structure Machine.Arrives (m : Machine) (handler : Handler) (outer : List Handler)
    (there : Machine) : Prop where
  fp_le : handler.fp ≤ handler.stackSize
  loops_le : there.context.loops.length ≤ handler.loopDepth
  endsLoops : m.EndsLoops there
  reached : ∃ (last : Machine) (heap : Heap) (journal : Journal) (loops : List Loop)
      (observer : Observer), m.Sheds handler.fp last ∧ last.context.fp = handler.fp ∧
    there = { last with
      world := { last.world with
        scopes := last.world.scopes.dropTables
          (last.world.scopes.between last.context.symbols handler.symbols)
        heap
        journal }
      context := last.context.caughtAt handler outer loops observer }

theorem Machine.Arrives.ended_eq {m there : Machine} {handler : Handler} {outer : List Handler}
    (h : m.Arrives handler outer there) : there.ended = m.ended := by
  obtain ⟨last, heap, journal, loops, observer, hsheds, -, rfl⟩ := h.reached
  exact hsheds.ended_eq

open Machine

namespace Exec

variable {m m' : Machine} {handler : Handler} {pre outer : List Handler} {f : Fault}

/-- **A fault leads to its handler, or a function on the way sticks.** -/
theorem catchAt_cases (h : m.Framed) (hhandlers : m.context.handlers = pre ++ handler :: outer) :
    (∃ there, m.Arrives handler outer there ∧ outcome (catchAt handler outer f) m
      = outcome (storeIn handler.symbols "_error" (.error f)) there) ∨
    ∃ last g m', m.Sheds handler.fp last ∧ handler.fp < last.context.fp ∧ last.Sticks g m' ∧
      outcome (catchAt handler outer f) m = (.error (.fault g), m') := by
  have hmem : handler ∈ m.context.handlers := by
    rw [hhandlers]
    exact List.mem_append_right _ List.mem_cons_self
  obtain ⟨last, hsheds, ⟨hfp, hout⟩ | ⟨hfp, g, m', hsticks, hout⟩⟩ :=
    unwindTo_cases handler.fp h (Nat.le_succ_of_le h.running.fp_le)
  · have hlast := hsheds.mem_handlers hmem (Nat.le_refl _)
    have hsame : last.context.fp = handler.fp :=
      Nat.le_antisymm hfp (hsheds.framed.running.handler_fp_le handler hlast)
    have hle := hsheds.framed.running.fp_le_stackSize hlast hsame.symm
    obtain ⟨heap, journal, loops, observer, hloops, hresume⟩ := outcome_resumeHandler_eq handler
      outer f { last with context := { last.context with handlers := handler :: outer } }
    have hstart : outcome (catchAt handler outer f) m = outcome (resumeHandler handler outer f)
        { last with context := { last.context with handlers := handler :: outer } } := by
      rw [catchAt_eq, outcome_bind_ok (outcome_context m), outcome_bind_ok hout,
        outcome_bind_ok (outcome_modifyContext _ last)]
    have hall := hstart.trans hresume
    refine .inl ⟨_, ⟨by omega, hloops, ?_, last, heap, journal, loops, observer, hsheds, hsame,
      rfl⟩, hall⟩
    -- Binding the fault has nothing to do with loops.
    obtain ⟨ended, hends⟩ := IsReleasing.catchAt handler outer f m
    rw [hall, outcome_storeIn] at hends
    refine ⟨ended, ?_⟩
    split at hends <;> exact ⟨hends.loops_eq, hends.maps_eq, hends.arrays_eq⟩
  · refine .inr ⟨last, g, m', hsheds, hfp, hsticks, ?_⟩
    rw [catchAt_eq, outcome_bind_ok (outcome_context m), outcome_bind_error hout]

/-- When the fault could be bound, the machine is as it arrived at the handler. -/
theorem catchAt_eq_ok (h : m.Framed) (hhandlers : m.context.handlers = pre ++ handler :: outer)
    (hout : outcome (catchAt handler outer f) m = (.ok (), m')) :
    ∃ there scopes, m.Arrives handler outer there ∧
      there.world.scopes.setAlways handler.symbols "_error" (.error f) = .ok scopes ∧
      m' = { there with world := { there.world with scopes } } := by
  rcases catchAt_cases (f := f) h hhandlers with
    ⟨there, harrives, hbind⟩ | ⟨-, g, m₁, -, -, -, hstick⟩
  · rw [hout, outcome_storeIn] at hbind
    cases hset : there.world.scopes.setAlways handler.symbols "_error" (.error f) with
    | error e =>
      rw [hset] at hbind
      cases hbind
    | ok scopes =>
      rw [hset] at hbind
      exact ⟨there, scopes, harrives, hset, congrArg Prod.snd hbind⟩
  · rw [hout] at hstick
    cases hstick

end Exec

namespace Machine

/-- A machine whose running context is about to give up a run, with what it writes first. -/
def traced (m : Machine) (f : Fault) : Machine :=
  if m.context.stackTrace then
    { m with world :=
        ((World.emit .app s!"{f.message}\n{m.context.frameText none}").run m.world).2 }
  else m

theorem traced_eq (m : Machine) (f : Fault) :
    ∃ journal, m.traced f = { m with world := { m.world with journal } } := by
  unfold traced
  split
  · exact ⟨_, rfl⟩
  · exact ⟨m.world.journal, rfl⟩

theorem Framed.traced {m : Machine} (h : m.Framed) (f : Fault) : (m.traced f).Framed := by
  obtain ⟨j, hj⟩ := m.traced_eq f
  rw [hj]
  exact ⟨h.running, h.waiting, h.sound⟩

/-- The machine with its running context stopped. -/
def stopped (m : Machine) : Machine :=
  { m with context := { m.context with running := false } }

end Machine

namespace Exec

/-- Giving up leaves as many functions as can be left, and raises the fault again. -/
theorem outcome_abandon (f : Fault) (m : Machine) :
    outcome (abandon f) m = (.error (.fault f),
      (outcome (unwindTo 0 (m.context.stack.size + 1)) (m.traced f)).2.stopped) := by
  have hrest : ∀ m₀ : Machine, outcome (do
      tryCatch (unwindTo 0 (m.context.stack.size + 1)) fun _ => pure ()
      modifyContext fun c => { c with running := false }
      fail f : Exec Unit) m₀ = (.error (.fault f),
        (outcome (unwindTo 0 (m.context.stack.size + 1)) m₀).2.stopped) := by
    intro m₀
    have htry : outcome (tryCatch (unwindTo 0 (m.context.stack.size + 1)) fun _ => pure ()) m₀
        = (.ok (), (outcome (unwindTo 0 (m.context.stack.size + 1)) m₀).2) := by
      rw [outcome_tryCatch]
      rcases outcome (unwindTo 0 (m.context.stack.size + 1)) m₀ with ⟨r | a, m₁⟩ <;> rfl
    rw [outcome_bind_ok htry, outcome_bind_ok (outcome_modifyContext _ _)]
    rfl
  rw [abandon, outcome_bind_ok (outcome_context m)]
  dsimp only
  unfold traced
  split
  · rw [outcome_bind_ok (outcome_onWorld _ m)]
    exact hrest _
  · exact hrest m

/-- Dealing with a fault other than a stop: the faults that nothing takes end the context. -/
theorem outcome_settle {f : Fault} (hstop : f.kind ≠ .stop) (m : Machine) :
    outcome (settle f) m = match outcome (recover f) m with
      | (.ok (), m') => (.ok (), m')
      | (.error (.fault g), m') => (.ok (), { m' with ended := some (.error g) })
      | (.error .blocked, m') => (.error .blocked, m') := by
  rw [settle, if_neg hstop, outcome_tryCatch]
  rcases outcome (recover f) m with ⟨(g | _) | u, m'⟩ <;> rfl

/-- Dealing with a fault does not have to wait. -/
theorem settle_ok (h : m.Framed) (f : Fault) : ∃ m', outcome (settle f) m = (.ok (), m') := by
  by_cases hstop : f.kind = .stop
  · rw [settle, if_pos hstop]
    exact ⟨_, rfl⟩
  rw [outcome_settle hstop, outcome_recover]
  by_cases hsignal : f.isSignal = true
  · rw [if_pos hsignal]
    exact ⟨_, rfl⟩
  rw [if_neg hsignal]
  cases hcatcher : m.context.catcher? f with
  | none =>
    dsimp only
    rw [outcome_abandon]
    exact ⟨_, rfl⟩
  | some found =>
    obtain ⟨handler, outer⟩ := found
    obtain ⟨-, -, pre, hpre, -⟩ := Context.catcher?_eq_some_iff.1 hcatcher
    dsimp only
    rcases catchAt_cases h hpre with ⟨there, -, hbind⟩ | ⟨-, g, m', -, -, -, hstick⟩
    · rw [hbind, outcome_storeIn]
      rcases there.world.scopes.setAlways _ _ _ with e | scopes <;> exact ⟨_, rfl⟩
    · rw [hstick]
      exact ⟨_, rfl⟩

end Exec

namespace Machine

variable {m m₁ : Machine} {f : Fault}

/-- What a `try` attempts: it is a fault, or it arms the handler of the place. -/
theorem Tries.attempt_cases (h : m.Tries) :
    (∃ e journal running observer, m.attempt = (.error e, { m with
        world := { m.world with journal }
        context := { m.context with pc := m.context.pc + 1, running, observer } })) ∨
      ∃ address < m.context.code.size, ∃ journal running observer,
        m.attempt = (.ok (), { m with
          world := { m.world with journal }
          context := { m.context with
            pc := m.context.pc + 1
            running
            observer
            handlers := m.context.handlerTo address :: m.context.handlers } }) := by
  obtain ⟨hgoing, operand, hnext⟩ := h
  obtain ⟨journal, running, observer, hattempt⟩ := attempt_of_next hgoing hnext
  rw [hattempt]
  rcases Exec.outcome_arm operand { m with
      world := { m.world with journal }
      context := { m.context with pc := m.context.pc + 1, running, observer } } with
    ⟨e, harm⟩ | ⟨address, hlt, harm⟩
  · exact .inl ⟨e, journal, running, observer, harm⟩
  · exact .inr ⟨address, hlt, journal, running, observer, harm⟩

/-- The context ends without a fault. -/
theorem Finishes.attempt_eq (h : m.Finishes) : ∃ journal, m.attempt = (.ok (), { m with
    world := { m.world with journal }
    context := { m.context with running := false }
    ended := some (.ok ()) }) := by
  obtain ⟨hgoing, hnext⟩ := h
  obtain ⟨journal, hfinish⟩ := Exec.outcome_finish m
  refine ⟨journal, ?_⟩
  unfold attempt action ready
  rw [hgoing, hnext]
  exact hfinish

/-- **A fault has left no function**, armed no handler and not ended the context. -/
theorem attempt_of_error {e : Halt} (h : m.Framed) (hlive : m.HiddenLive)
    (hattempt : m.attempt = (.error e, m₁)) :
    m.ready.Climbs False m₁ ∧ m.ready.ended = none ∧ m₁.ended = none := by
  have hready : m.ready.ended = none := by
    unfold attempt action at hattempt
    unfold ready
    cases hended : m.ended with
    | none => exact hended
    | some result =>
      rw [hended] at hattempt
      cases hsuspended : m.suspended with
      | nil =>
        rw [hsuspended] at hattempt
        cases hattempt
      | cons s rest => rfl
  have hspecial : m.Tries ∨ m.Finishes → m₁.ended = m.ready.ended ∧
      (m₁.contextAt m.ready.suspended.length).handlers.length
        ≤ m.ready.context.handlers.length := by
    rintro (htries | hfinishes)
    · have hsame : m.ready = m := by
        rw [ready, htries.1]
      rcases htries.attempt_cases with
        ⟨e', j, running, observer, hout⟩ | ⟨address, -, j, running, observer, hout⟩
      · rw [hattempt] at hout
        cases hout
        rw [hsame, contextAt_of_level (by exact Nat.le_refl _)]
        exact ⟨rfl, Nat.le_refl _⟩
      · rw [hattempt] at hout
        cases hout
    · obtain ⟨j, hfinish⟩ := hfinishes.attempt_eq
      rw [hattempt] at hfinish
      cases hfinish
  rcases attempt_cases h with hclimbs | ⟨-, j, pc, running, observer, output, hfp, hpop⟩
  · rw [hattempt] at hclimbs
    have hstrict := hclimbs.strict fun h => hspecial h
    exact ⟨hstrict, hready, (hstrict.ended.resolve_right id).trans hready⟩
  · -- A return that leaves the function succeeds.
    obtain ⟨hframed, -, -⟩ := leaving_spec h
    obtain ⟨below, frame, hstack, -⟩ := Stacked.frame hframed hfp
    obtain ⟨world, loops, observer', hout, -⟩ := Exec.outcome_popFrame (m := { m.ready with
      world := { m.world with journal := j }
      context := { m.leaving with pc, running, observer, output } })
      ⟨hframed.grounded.fp_le, hframed.grounded.values⟩ hstack hfp h.sound hlive
    rw [← hpop, hattempt] at hout
    cases hout

/-- **A step whose attempt is a fault deals with it.** -/
theorem step_of_fault (h : m.Framed) (hlive : m.HiddenLive)
    (hattempt : m.attempt = (.error (.fault f), m₁)) :
    Exec.outcome (Exec.settle f) m₁ = (.ok (), m.step.1) := by
  obtain ⟨hclimbs, -, -⟩ := attempt_of_error h hlive hattempt
  obtain ⟨m', hsettle⟩ := Exec.settle_ok hclimbs.framed f
  rcases m.step_eq with ⟨result, hended, hsuspended, -⟩ | hstep
  · unfold attempt action at hattempt
    rw [hended, hsuspended] at hattempt
    cases hattempt
  · rw [hsettle, hstep, perform_eq, show Exec.outcome m.action m.ready = _ from hattempt]
    dsimp only
    rw [hsettle]

/-- **A fault that a handler takes** is bound there if the table of the handler is live, and else
gives way to the fault that the table is missing, unless a function on the way sticks. -/
theorem step_of_catcher {handler : Handler} {outer : List Handler} (h : m.Framed)
    (hlive : m.HiddenLive) (hattempt : m.attempt = (.error (.fault f), m₁))
    (hcatcher : m₁.context.catcher? f = some (handler, outer)) :
    (∃ there, m₁.Arrives handler outer there ∧
      ((∃ scopes, there.world.scopes.setAlways handler.symbols "_error"
            (.error (f.raisedAt m₁.context.code.name m₁.context.line)) = .ok scopes ∧
          m.step.1 = { there with world := { there.world with scopes } }) ∨
        there.world.scopes.contains handler.symbols = false ∧
          m.step.1 = { there with ended := some (.error (.about .invalidValue
            ("symbol table " ++ handler.symbols.text))) })) ∨
    ∃ last g m₂, m₁.Sheds handler.fp last ∧ handler.fp < last.context.fp ∧ last.Sticks g m₂ ∧
      m.step.1 = { m₂ with ended := some (.error g) } := by
  have hsettle := step_of_fault h hlive hattempt
  obtain ⟨hclimbs, -, -⟩ := attempt_of_error h hlive hattempt
  obtain ⟨hsignal, -, pre, hpre, -⟩ := Context.catcher?_eq_some_iff.1 hcatcher
  have hstop : f.kind ≠ .stop := by
    intro hstop
    rw [Fault.isSignal, hstop] at hsignal
    cases hsignal
  rw [Exec.outcome_settle hstop, Exec.outcome_recover, if_neg (by rw [hsignal]; exact Bool.false_ne_true),
    hcatcher] at hsettle
  dsimp only at hsettle
  rcases Exec.catchAt_cases hclimbs.framed hpre with
    ⟨there, harrives, hbind⟩ | ⟨last, g, m₂, hsheds, hfp, hsticks, hstick⟩
  · rw [hbind, Exec.outcome_storeIn] at hsettle
    refine .inl ⟨there, harrives, ?_⟩
    cases hset : there.world.scopes.setAlways handler.symbols "_error"
        (.error (f.raisedAt m₁.context.code.name m₁.context.line)) with
    | ok scopes =>
      rw [hset] at hsettle
      exact .inl ⟨scopes, rfl, (congrArg Prod.snd hsettle).symm⟩
    | error e =>
      rw [hset] at hsettle
      obtain ⟨hgone, rfl⟩ := Arena.gone_of_setAlways hset
      exact .inr ⟨hgone, (congrArg Prod.snd hsettle).symm⟩
  · rw [hstick] at hsettle
    exact .inr ⟨last, g, m₂, hsheds, hfp, hsticks, (congrArg Prod.snd hsettle).symm⟩

end Machine

/-! ### Cleared contexts -/

/-- A context that has stopped in its outermost code. -/
structure Context.Cleared (c : Context) : Prop where
  stopped : c.running = false
  fp_eq : c.fp = 0
  frameDepth_eq : c.frameDepth = 0
  values : OnlyValues c.stack

/-- A fault that was raised somewhere has a place. -/
theorem Fault.location_raisedAt (f : Fault) (module : String) (line : Nat) :
    (f.raisedAt module line).location ≠ none := by
  obtain ⟨kind, context, location⟩ := f
  cases location <;> exact fun h => nomatch h

namespace Machine

variable {m m₁ : Machine} {f g : Fault}

/-- Every function of the running context can be left when a fault ends the run. -/
def LeavesEvery (m : Machine) (f : Fault) : Prop :=
  (Exec.outcome (Exec.unwindTo 0 (m.context.stack.size + 1)) (m.traced f)).1 = .ok ()

/-- The outermost code of a framed context has no frame on its stack. -/
theorem Framed.cleared (h : m.Framed) (hfp : m.context.fp = 0) : m.stopped.context.Cleared := by
  refine ⟨rfl, hfp, Exec.frameDepth_eq_zero (m := m) h (Nat.le_of_eq hfp), ?_⟩
  have hvalues := h.running.grounded.values
  rwa [Context.operands, hfp, Array.extract_size] at hvalues

/-- Without a handler the run is given up. -/
theorem Framed.abandoned (h : m.Framed) (f : Fault) :
    (m.LeavesEvery f → (Exec.outcome (Exec.abandon f) m).2.context.Cleared) ∧
      ((Exec.outcome (Exec.abandon f) m).2.context.fp = 0 → m.LeavesEvery f) := by
  obtain ⟨j, hj⟩ := m.traced_eq f
  have hfuel : (m.traced f).context.fp ≤ m.context.stack.size + 1 := by
    rw [hj]
    exact Nat.le_succ_of_le h.running.fp_le
  rw [Exec.outcome_abandon]
  obtain ⟨last, hsheds, ⟨hfp, hout⟩ | ⟨hfp, g, m', hsticks, hout⟩⟩ :=
    Exec.unwindTo_cases 0 (h.traced f) hfuel
  · refine ⟨fun _ => ?_, fun _ => congrArg Prod.fst hout⟩
    rw [hout]
    exact hsheds.framed.cleared (Nat.le_zero.1 hfp)
  · refine ⟨fun hleaves => ?_, fun hzero => ?_⟩
    · rw [LeavesEvery, hout] at hleaves
      cases hleaves
    · rw [hout] at hzero
      have hpos : m'.context.fp = 0 := hzero
      have hsame := hsticks.fp_eq
      omega

/-- Hidden tables that stay live let every function be left. -/
theorem leavesEvery_of_hiddenLive (h : m.Framed)
    (hlive : (Exec.outcome (Exec.abandon f) m).2.HiddenLive) : m.LeavesEvery f := by
  rw [Exec.outcome_abandon] at hlive
  obtain ⟨j, hj⟩ := m.traced_eq f
  obtain ⟨last, hout, -⟩ := Exec.unwindTo_unwound (h.traced f) (by
    rw [hj]
    exact Nat.le_succ_of_le h.running.fp_le) hlive
  exact congrArg Prod.fst hout

/-- **When a failed run is cleared**: an instruction raises a fault, and the run ends with a fault
that is no signal. It has stopped in its outermost code, with no frame left, and ends with the fault
that was raised and with its place, if and only if no handler takes that fault and every function
can be left. While hidden tables stay live, every function can be left. -/
theorem failed_run_cleared_iff {start m₀ m₁ : Machine} {f g : Fault} (hbegins : start.Begins)
    (hreached : Trace HiddenLive start m₀) (hfault : m₀.attempt = (.error (.fault f), m₁))
    (hended : m₀.step.1.ended = some (.error g)) (hsignal : g.isSignal = false) :
    (m₀.step.1.context.Cleared ∧ g = f.raisedAt m₁.context.code.name m₁.context.line ↔
      m₁.context.catcher? f = none ∧
        m₁.LeavesEvery (f.raisedAt m₁.context.code.name m₁.context.line)) ∧
    (m₀.step.1.HiddenLive → m₁.context.catcher? f = none →
      m₁.LeavesEvery (f.raisedAt m₁.context.code.name m₁.context.line)) := by
  have hframed := hreached.framed hbegins.framed
  obtain ⟨hclimbs, -, hgoing⟩ := attempt_of_error hframed hreached.ok_last hfault
  have hsettle := step_of_fault hframed hreached.ok_last hfault
  have hstop : f.kind ≠ .stop := by
    intro hkind
    rw [Exec.settle, if_pos hkind] at hsettle
    obtain ⟨j, hfinish⟩ := Exec.outcome_finish m₁
    rw [hfinish] at hsettle
    have hafter : m₀.step.1.ended = some (.ok ()) :=
      (congrArg (fun r : Except Halt Unit × Machine => r.2.ended) hsettle).symm
    rw [hafter] at hended
    cases hended
  rw [Exec.outcome_settle hstop, Exec.outcome_recover] at hsettle
  by_cases hpasses : f.isSignal = true
  · -- A signal ends the run as it is.
    rw [if_pos hpasses] at hsettle
    have hafter : m₀.step.1.ended = some (.error f) :=
      (congrArg (fun r : Except Halt Unit × Machine => r.2.ended) hsettle).symm
    rw [hafter] at hended
    cases hended
    rw [hpasses] at hsignal
    cases hsignal
  rw [if_neg hpasses] at hsettle
  cases hcatcher : m₁.context.catcher? f with
  | some found =>
    obtain ⟨handler, outer⟩ := found
    refine ⟨⟨fun hcleared => ?_, fun hnone => absurd hnone.1 (Option.some_ne_none _)⟩,
      fun _ hnone => absurd hnone (Option.some_ne_none _)⟩
    rw [hcatcher] at hsettle
    dsimp only at hsettle
    rcases hout : Exec.outcome (Exec.catchAt handler outer
        (f.raisedAt m₁.context.code.name m₁.context.line)) m₁ with ⟨(g' | _) | u, m'⟩
    · -- The fault that was raised on the way does not tell where.
      rw [hout] at hsettle
      obtain ⟨g'', hg, hunplaced⟩ := Exec.Unplaced.catchAt handler outer _ m₁ _
        (congrArg Prod.fst hout)
      cases hg
      have hafter : m₀.step.1.ended = some (.error g') :=
        (congrArg (fun r : Except Halt Unit × Machine => r.2.ended) hsettle).symm
      rw [hafter] at hended
      cases hended
      rw [hcleared.2] at hunplaced
      exact absurd hunplaced (f.location_raisedAt _ _)
    · rw [hout] at hsettle
      cases hsettle
    · rw [hout] at hsettle
      have hafter : m₀.step.1 = m' := (congrArg Prod.snd hsettle).symm
      obtain ⟨-, -, pre, hpre, -⟩ := Context.catcher?_eq_some_iff.1 hcatcher
      obtain ⟨there, scopes, harrives, -, rfl⟩ := Exec.catchAt_eq_ok hclimbs.framed hpre hout
      rw [hafter] at hended
      have hafter := harrives.ended_eq.symm.trans hended
      rw [hgoing] at hafter
      cases hafter
  | none =>
    rw [hcatcher] at hsettle
    dsimp only at hsettle
    have habandon := congrArg Prod.fst
      (Exec.outcome_abandon (f.raisedAt m₁.context.code.name m₁.context.line) m₁)
    rcases hout : Exec.outcome (Exec.abandon
        (f.raisedAt m₁.context.code.name m₁.context.line)) m₁ with ⟨r, m'⟩
    rw [hout] at hsettle habandon
    obtain rfl : r = .error (.fault (f.raisedAt m₁.context.code.name m₁.context.line)) := habandon
    have hafter : m₀.step.1 = { m' with
        ended := some (.error (f.raisedAt m₁.context.code.name m₁.context.line)) } :=
      (congrArg Prod.snd hsettle).symm
    obtain ⟨hclear, hleave⟩ := hclimbs.framed.abandoned
      (f.raisedAt m₁.context.code.name m₁.context.line)
    rw [hout] at hclear hleave
    rw [hafter] at hended
    cases hended
    rw [hafter]
    refine ⟨⟨fun hcleared => ⟨rfl, hleave hcleared.1.fp_eq⟩, fun hall => ⟨hclear hall.2, rfl⟩⟩,
      fun hlive _ => ?_⟩
    exact leavesEvery_of_hiddenLive hclimbs.framed (by rw [hout]; exact hlive)

theorem ended_of_test (h : (match m.ended with
    | some (.error f) => decide (f = g)
    | _ => false) = true) : m.ended = some (.error g) := by
  split at h
  · rename_i f hended
    rw [hended, of_decide_eq_true h]
  · cases h

/-- A machine about to run `LocalCall 2; Stop; PushScope; Add`. -/
def adder : Machine :=
  ofContext {} {
    name := "main"
    thread := 1
    symbols := .root
    code := ⟨"main", #[⟨.localCall, .ofNat 2⟩, .plain .stop, .plain .pushScope, .plain .add],
      none, true, false⟩
    running := true }

/-- The subroutine has no operands to add. -/
theorem failed_run_cleared_of_adder :
    Trace HiddenLive adder adder.step.1.step.1 ∧
      adder.step.1.step.1.attempt
        = (.error (.fault (.bare .stackUnderflow)), adder.step.1.step.1.attempt.2) ∧
      adder.step.1.step.1.step.1.ended
        = some (.error ((Fault.bare .stackUnderflow).raisedAt "main" 0)) ∧
      ((Fault.bare .stackUnderflow).raisedAt "main" 0).isSignal = false ∧
      adder.step.1.step.1.step.1.context.Cleared := by
  have hreached : Trace HiddenLive adder adder.step.1.step.1 :=
    ((Trace.start (hiddenLive_of_all rfl)).step (hiddenLive_of_all rfl)).step
      (hiddenLive_of_all rfl)
  have hfault : adder.step.1.step.1.attempt
      = (.error (.fault (.bare .stackUnderflow)), adder.step.1.step.1.attempt.2) :=
    Prod.ext rfl rfl
  have hended : adder.step.1.step.1.step.1.ended
      = some (.error ((Fault.bare .stackUnderflow).raisedAt "main" 0)) :=
    ended_of_test (by decide +kernel)
  obtain ⟨hcleared, hleaves⟩ := failed_run_cleared_iff
    ⟨⟨OnlyValues.empty, rfl, rfl, rfl⟩, rfl, Arena.initial_sound⟩ hreached hfault hended rfl
  exact ⟨hreached, hfault, hended, rfl,
    (hcleared.2 ⟨rfl, hleaves (hiddenLive_of_all (by decide +kernel)) rfl⟩).1⟩

end Machine

end ScriptMachine
