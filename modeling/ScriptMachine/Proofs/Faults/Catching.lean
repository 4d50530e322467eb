import ScriptMachine.Proofs.Faults.Lasting

/-!
# Which handler a fault goes to, and what catching it restores

A fault that is no signal, and no panic that is to end the run, goes to the innermost handler that
is armed for it. The function that executed the `try` goes on at its handler, which is disarmed for
good; the handlers inside it are gone. All this takes place just if the table in which the fault is
to be bound is still live.

The function then has the table, the operands and the loops that it had at the `try`; what was frozen
by loops that the fault passes through is released. Three things are not restored: the package
definitions that are open, the package whose code runs, and the arguments that were spread for the
next call stay as they were when the fault was raised.

* `Context.Selects`: the handler that a fault of a context goes to.
* `Context.verdict`: what a context ends with when a fault goes to no handler.
* `Machine.TurnedTo`: the running context goes on at a handler.
* `fault_turns_to_handler_iff`: a fault goes to the handler selected if the table of that is live.
* `Machine.CaughtFor`: the context goes on at a handler, in a state compared with that at the `try`
  and with that in which the fault was raised.
* `caught_fault_restores_iff`: the state of the `try` is restored just if the fault was raised with
  the same definitions, package and spread arguments.
-/

namespace ScriptMachine

/-! ### The handler selected -/

/-- **The handler that a fault goes to**: the fault is no signal, and no panic that is to end the
run; the handler takes it, with the place where it was raised, and those inside do not. -/
structure Context.Selects (c : Context) (f : Fault) (handler : Handler) (outer : List Handler) :
    Prop where
  noSignal : f.isSignal = false
  noPanic : f.kind = .panic → c.panics = false
  takes : handler.takes (f.raisedAt c.code.name c.line) = true
  innermost : ∃ pre, c.handlers = pre ++ handler :: outer ∧
    ∀ x ∈ pre, x.takes (f.raisedAt c.code.name c.line) = false

theorem Context.selects_iff {c : Context} {f : Fault} {handler : Handler} {outer : List Handler} :
    c.Selects f handler outer ↔ c.catcher? f = some (handler, outer) := by
  rw [catcher?_eq_some_iff]
  constructor
  · rintro ⟨hsignal, hpanic, htakes, pre, hpre, hinner⟩
    exact ⟨hsignal, hpanic, pre, hpre, htakes, hinner⟩
  · rintro ⟨hsignal, hpanic, pre, hpre, htakes, hinner⟩
    exact ⟨hsignal, hpanic, htakes, pre, hpre, hinner⟩

/-- What a context ends with when a fault goes to no handler. -/
def Context.verdict (c : Context) (f : Fault) : Except Fault Unit :=
  if f.kind = .stop then .ok ()
  else if f.isSignal then .error f
  else .error (f.raisedAt c.code.name c.line)

namespace Machine

/-- **The running context goes on at a handler**, in some code. The handlers inside are gone, and
the handler takes no fault as long as it is there. -/
structure TurnedTo (m : Machine) (handler : Handler) (outer : List Handler) (code : Code) :
    Prop where
  going : m.ended = none
  handlers_eq : m.context.handlers = { handler with address := none } :: outer
  address_eq : handler.address = some m.context.pc
  pc_lt : m.context.pc < m.context.code.size
  code_eq : m.context.code = code
  fp_eq : m.context.fp = handler.fp
  symbols_eq : m.context.symbols = handler.symbols
  spent : ∀ m', Trace (Guarded m.suspended.length outer.length) m m' →
    ∀ x f, handlerAt? (m'.contextAt m.suspended.length).handlers outer.length = some x →
      x.takes f = false

variable {m m₁ : Machine} {f : Fault} {handler : Handler} {outer : List Handler}

/-- A fault that goes to no handler ends the context. -/
theorem ended_of_verdict (h : m.Framed) (hlive : m.HiddenLive)
    (hfault : m.attempt = (.error (.fault f), m₁)) (hnone : m₁.context.catcher? f = none) :
    m.step.1.ended = some (m₁.context.verdict f) := by
  have hsettle := step_of_fault h hlive hfault
  unfold Context.verdict
  by_cases hstop : f.kind = .stop
  · rw [Exec.settle, if_pos hstop] at hsettle
    have hafter : m.step.1 = _ := (congrArg Prod.snd hsettle).symm
    rw [if_pos hstop, hafter]
    rfl
  rw [Exec.outcome_settle hstop, Exec.outcome_recover] at hsettle
  rw [if_neg hstop]
  by_cases hsignal : f.isSignal = true
  · rw [if_pos hsignal] at hsettle ⊢
    have hafter : m.step.1 = _ := (congrArg Prod.snd hsettle).symm
    rw [hafter]
  · rw [if_neg hsignal, hnone] at hsettle
    dsimp only at hsettle
    rw [Exec.outcome_abandon] at hsettle
    have hafter : m.step.1 = _ := (congrArg Prod.snd hsettle).symm
    rw [if_neg hsignal, hafter]

/-- The handler that a fault goes to was there before the instruction that raises the fault. -/
theorem handlerAt_of_selects (h : m.Framed) (hlive : m.HiddenLive)
    (hfault : m.attempt = (.error (.fault f), m₁)) (hselects : m₁.context.Selects f handler outer) :
    m₁.suspended.length = m.ready.suspended.length ∧ ∃ x,
      handlerAt? (m.contextAt m₁.suspended.length).handlers outer.length = some x ∧
      x.Becomes handler := by
  obtain ⟨hclimbs, -, -⟩ := attempt_of_error h hlive hfault
  obtain ⟨pre, hpre, -⟩ := hselects.innermost
  have hat : handlerAt? m₁.context.handlers outer.length = some handler := by
    rw [hpre]
    exact handlerAt?_middle pre handler outer
  have hlevel : m₁.suspended.length = m.ready.suspended.length := by
    refine congrArg List.length (hclimbs.fresh.resolve_right fun hfresh => ?_)
    rw [hfresh] at hat
    cases hat
  have hretains := hclimbs.retains.context
  rw [contextAt_of_level (Nat.le_of_eq hlevel)] at hretains
  have hcontext : m.ready.context = m.contextAt m₁.suspended.length := by
    rw [← contextAt_ready (Nat.le_of_eq hlevel), contextAt_of_level (Nat.le_of_eq hlevel.symm)]
  rw [← hcontext]
  exact ⟨hlevel, hretains.outlasts _ _ hat
    (Nat.lt_of_lt_of_le (lt_of_handlerAt? hat) (hretains.length_le.resolve_right id))⟩

/-- What has become of a handler since it was armed. -/
theorem ArmedAt.becomes {start atTry armed : Machine} {k n : Nat} {x : Handler}
    (h : ArmedAt start m k n atTry armed) (hbegins : start.Begins)
    (hat : handlerAt? (m.contextAt k).handlers n = some x) :
    ∃ address < atTry.context.code.size,
      armed.Holds k n (atTry.context.handlerTo address) atTry.context.code ∧
      (atTry.context.handlerTo address).Becomes x := by
  obtain ⟨address, hlt, hholds⟩ := h.arms.holds
  rw [← h.level_eq, ← h.position_eq] at hholds
  obtain ⟨y, hat', hbecomes⟩ := (h.since.holds (h.framed hbegins) hholds).handler
  cases hat.symm.trans hat'
  exact ⟨address, hlt, hholds, hbecomes⟩

/-- A handler that takes a fault is armed. -/
theorem address_of_takes {address : Nat} {x : Handler} (hbecomes : x.Becomes handler)
    (haddress : x.address = some address) (htakes : handler.takes f = true) :
    handler.address = some address := by
  rw [← haddress]
  refine hbecomes.address_eq.resolve_right fun hnone => ?_
  rw [Handler.takes, hnone] at htakes
  cases htakes

/-- A handler that was disarmed takes no fault as long as it is there. -/
theorem Holds.spent {k n : Nat} {m m' : Machine} {x : Handler} {code : Code}
    (h : m.Holds k n { x with address := none } code) (hframed : m.Framed)
    (hsince : Trace (Guarded k n) m m') {y : Handler}
    (hat : handlerAt? (m'.contextAt k).handlers n = some y) (f : Fault) : y.takes f = false := by
  obtain ⟨z, hat', hbecomes⟩ := (hsince.holds hframed h).handler
  cases hat.symm.trans hat'
  rw [Handler.takes, hbecomes.address_none rfl]
  rfl

/-- A context at which a fault has arrived goes on at the handler, where it was armed. -/
theorem ArmedAt.turnedTo {start atTry armed there : Machine} {address : Nat} {scopes : Arena}
    (h : ArmedAt start m m₁.suspended.length outer.length atTry armed) (hbegins : start.Begins)
    (hlive : m.step.1.HiddenLive)
    (hholds : armed.Holds m₁.suspended.length outer.length (atTry.context.handlerTo address)
      atTry.context.code)
    (hbecomes : (atTry.context.handlerTo address).Becomes handler)
    (haddress : handler.address = some address) (hlt : address < atTry.context.code.size)
    (hgoing : m₁.ended = none) (harrives : m₁.Arrives handler outer there)
    (hstep : m.step.1 = { there with world := { there.world with scopes } }) :
    m.step.1.TurnedTo handler outer atTry.context.code := by
  have hended : m.step.1.ended = none := by
    rw [hstep]
    exact harrives.ended_eq.trans hgoing
  obtain ⟨last, heap, journal, loops, observer, hsheds, hfp, rfl⟩ := harrives.reached
  have hsuspended : m.step.1.suspended.length = m₁.suspended.length := by
    rw [hstep]
    exact congrArg List.length hsheds.suspended_eq
  have hcontext : m.step.1.context = last.context.caughtAt handler outer loops observer := by
    rw [hstep]
  have hlevel : m.step.1.contextAt m₁.suspended.length = m.step.1.context :=
    contextAt_of_level (Nat.le_of_eq hsuspended)
  have hguarded : m.step.1.Guarded m₁.suspended.length outer.length := by
    refine ⟨hlive, Nat.le_of_eq hsuspended.symm, ?_⟩
    rw [hlevel, hcontext]
    exact Nat.lt_succ_self _
  have hsince := h.since.step hguarded
  have hhosts := (hsince.holds (h.framed hbegins) hholds).hosts
  have hcode : m.step.1.context.code = atTry.context.code := by
    rw [hlevel] at hhosts
    refine hhosts.code_eq (Nat.le_of_eq ?_)
    rw [hcontext, ← hbecomes.fp_eq]
    exact hfp
  have hpc : m.step.1.context.pc = address := by
    rw [hcontext, Context.caughtAt, haddress]
    rfl
  have hspent : m.step.1.Holds m₁.suspended.length outer.length { handler with address := none }
      atTry.context.code := by
    refine ⟨⟨_, ?_, .refl _⟩, ?_⟩
    · rw [hlevel, hcontext]
      exact handlerAt?_cons _ _
    · rw [← hbecomes.fp_eq] at hhosts
      exact hhosts
  refine ⟨hended, congrArg Context.handlers hcontext, ?_, ?_, hcode, ?_, ?_, ?_⟩
  · rw [hpc]
    exact haddress
  · rw [hcode, hpc]
    exact hlt
  · rw [hcontext]
    exact hfp
  · rw [hcontext]
    rfl
  · rw [hsuspended]
    exact fun m' hafter x f hat => hspent.spent (hsince.mono (fun _ hok => hok.hidden) |>.framed
      (h.framed hbegins)) hafter hat f

/-- The table in which a handler was armed stays live while what was opened since is closed in
turn. -/
theorem Arms.symbols_live {atTry armed : Machine} {marks : List Mark} {defined : List TableId}
    (h : atTry.Arms armed) (hframed : armed.Framed)
    (hlive : atTry.world.scopes.contains atTry.context.symbols = true)
    (htidy : armed.Tidy m marks defined) :
    m.world.scopes.contains atTry.context.symbols = true := by
  obtain ⟨address, -, journal, running, observer, rfl⟩ := h.spec
  obtain ⟨own, pins, -, hintact⟩ := htidy.nestsHere hframed hlive
  rw [(hintact.kept _ hlive).contains_eq]
  exact hlive

/-- **A fault turns to the handler selected just if the table of that is live.** An instruction of a
run, along which hidden tables stay live, raises a fault. If it goes to no handler, it ends the
context. Else the handler that it goes to was armed by a `try` and has been there since; the context
goes on there, in the code that executed the `try`, if and only if the table of the handler is live.
It is, if what was opened since the `try` is closed in turn; where it is not, the context ends with
the fault that it is missing. -/
theorem fault_turns_to_handler_iff {start : Machine} (hbegins : start.Begins)
    (hreached : Trace HiddenLive start m) (hfault : m.attempt = (.error (.fault f), m₁))
    (hlive : m.step.1.HiddenLive) :
    ((∀ handler outer, ¬m₁.context.Selects f handler outer) →
      m.step.1.ended = some (m₁.context.verdict f)) ∧
    ∀ handler outer, m₁.context.Selects f handler outer → ∃ atTry armed,
      ArmedAt start m m₁.suspended.length outer.length atTry armed ∧
      handler.symbols = atTry.context.symbols ∧
      (m.step.1.TurnedTo handler outer atTry.context.code ↔
        m.step.1.world.scopes.contains handler.symbols = true) ∧
      (m.step.1.world.scopes.contains handler.symbols = false → m.step.1.ended =
        some (.error (.about .invalidValue ("symbol table " ++ handler.symbols.text)))) ∧
      (atTry.world.scopes.contains atTry.context.symbols = true → ∀ marks defined,
        armed.Tidy m.step.1 marks defined →
        m.step.1.world.scopes.contains handler.symbols = true) := by
  have hframed := hreached.framed hbegins.framed
  refine ⟨fun hnone => ?_, fun handler outer hselects => ?_⟩
  · refine ended_of_verdict hframed hreached.ok_last hfault ?_
    rcases hcatcher : m₁.context.catcher? f with _ | ⟨handler, outer⟩
    · rfl
    · exact absurd (Context.selects_iff.2 hcatcher) (hnone handler outer)
  -- The handler was armed by a `try`.
  obtain ⟨hlevel, x, hat, hsame⟩ :=
    handlerAt_of_selects hframed hreached.ok_last hfault hselects
  obtain ⟨atTry, armed, harmed⟩ :=
    hreached.armed hbegins (Nat.le_trans (Nat.le_of_eq hlevel) m.length_ready_le) hat
  obtain ⟨address, hlt, hholds, hsince⟩ := harmed.becomes hbegins hat
  have hbecomes := hsince.trans hsame
  have haddress : handler.address = some address := address_of_takes hbecomes rfl hselects.takes
  refine ⟨atTry, armed, harmed, hbecomes.symbols_eq, ?_⟩
  have htidy : atTry.world.scopes.contains atTry.context.symbols = true → ∀ marks defined,
      armed.Tidy m.step.1 marks defined →
      m.step.1.world.scopes.contains handler.symbols = true := by
    intro hfirst marks defined htidy
    rw [hbecomes.symbols_eq]
    exact harmed.arms.symbols_live (harmed.framed hbegins) hfirst htidy
  obtain ⟨-, -, hgoing⟩ := attempt_of_error hframed hreached.ok_last hfault
  have hafter := (hreached.step hlive).framed hbegins.framed
  rcases step_of_catcher hframed hreached.ok_last hfault (Context.selects_iff.1 hselects) with
    ⟨there, harrives, ⟨scopes, hset, hstep⟩ | ⟨hgone, hstep⟩⟩ |
      ⟨last, g, m₂, hsheds, hfp, hsticks, hstep⟩
  · -- The fault is bound, and the context goes on.
    have hthere : m.step.1.world.scopes.contains handler.symbols = true := by
      rw [hstep]
      exact (Arena.contains_congr (Arena.outline_of_setAlways hset) _).trans
        (Arena.live_of_setAlways hset)
    refine ⟨⟨fun _ => hthere, fun _ => ?_⟩, fun hgone => ?_, htidy⟩
    · exact harmed.turnedTo hbegins hlive hholds hbecomes haddress hlt hgoing harrives hstep
    · rw [hthere] at hgone
      cases hgone
  · refine ⟨⟨fun hturned => ?_, fun hthere => ?_⟩, fun _ => ?_, htidy⟩
    · have hended := hturned.going
      rw [hstep] at hended
      cases hended
    · rw [hstep] at hthere
      rw [hgone] at hthere
      cases hthere
    · rw [hstep]
  · rw [hstep] at hlive
    exact absurd hsticks (Exec.not_sticks hsheds.framed (by omega) hlive)

/-- A machine about to run `Try 2; Add; TryPop; Stop`. -/
def trier : Machine :=
  ofContext {} {
    name := "main"
    thread := 1
    symbols := .root
    code := ⟨"main", #[⟨.try, .ofNat 2⟩, .plain .add, .plain .tryPop, .plain .stop],
      none, true, false⟩
    running := true }

/-- There are no operands to add; the context goes on at the handler. -/
theorem fault_turns_to_handler_of_trier :
    Trace HiddenLive trier trier.step.1 ∧
      trier.step.1.attempt = (.error (.fault (.bare .stackUnderflow)), trier.step.1.attempt.2) ∧
      trier.step.1.step.1.HiddenLive ∧
      trier.step.1.attempt.2.context.Selects (.bare .stackUnderflow)
        (trier.context.handlerTo 2) [] ∧
      ∃ code, trier.step.1.step.1.TurnedTo (trier.context.handlerTo 2) [] code := by
  have hreached : Trace HiddenLive trier trier.step.1 :=
    (Trace.start (hiddenLive_of_all rfl)).step (hiddenLive_of_all rfl)
  have hfault : trier.step.1.attempt
      = (.error (.fault (.bare .stackUnderflow)), trier.step.1.attempt.2) := Prod.ext rfl rfl
  have hlive : trier.step.1.step.1.HiddenLive := hiddenLive_of_all (by decide +kernel)
  have hselects : trier.step.1.attempt.2.context.Selects (.bare .stackUnderflow)
      (trier.context.handlerTo 2) [] := ⟨rfl, nofun, rfl, [], rfl, nofun⟩
  obtain ⟨atTry, armed, -, -, hturned, -⟩ := (fault_turns_to_handler_iff
    ⟨⟨OnlyValues.empty, rfl, rfl, rfl⟩, rfl, Arena.initial_sound⟩ hreached hfault hlive).2
    _ _ hselects
  exact ⟨hreached, hfault, hlive, hselects, _, hturned.2 (by decide +kernel)⟩

end Machine

/-! ### What is restored -/

namespace Machine

/-- **A fault was caught.** The context goes on as at the `try`: in the same function, with the same
callers and the same table. Loops that began since have ended, and what they walked is released;
operands that were added since are gone, and those that were in place when the fault was raised
stay. The fault is bound. Package definitions and spread arguments stay as they are when the fault
is raised, and the package is the one whose code the function ran then. -/
structure CaughtFor (atTry raised after : Machine) (f : Fault) : Prop where
  fp_eq : after.context.fp = atTry.context.fp
  lower_eq : after.context.lower = atTry.context.lower
  symbols_eq : after.context.symbols = atTry.context.symbols
  loops_le : after.context.loops.length ≤ atTry.context.loops.length
  released : raised.EndsLoops after
  size_le : after.context.stack.size ≤ atTry.context.stack.size
  intact : ∀ n ≤ atTry.context.stack.size,
    raised.context.stack.extract 0 n = atTry.context.stack.extract 0 n →
    after.context.stack.extract 0 n = atTry.context.stack.extract 0 n
  bound : after.world.scopes.getLocal? after.context.symbols "_error"
    = some (.error (f.raisedAt raised.context.code.name raised.context.line))
  packages_eq : after.context.packages = raised.context.packages
  extraArgs_eq : after.context.extraArgs = raised.context.extraArgs
  package_eq : ∃ a, raised.context.Active a ∧ a.fp = atTry.context.fp ∧
    after.context.package = a.package

variable {m m₁ : Machine} {f : Fault} {handler : Handler} {outer : List Handler}

/-! ### The slots of the function that executed the `try` -/

/-- While a handler is there, the function that armed it is not left. -/
theorem ArmedAt.inside {start atTry armed : Machine} {k n : Nat}
    (h : ArmedAt start m k n atTry armed) (hbegins : start.Begins) (hpos : 0 < atTry.context.fp) :
    m.Inside k atTry.context.lower := by
  have hframed := h.framed hbegins
  obtain ⟨address, -, hholds⟩ := h.arms.holds
  rw [← h.level_eq, ← h.position_eq] at hholds
  obtain ⟨address', -, journal, running, observer, harmed⟩ := h.arms.spec
  have hcontext : armed.contextAt k = armed.context :=
    contextAt_of_level (Nat.le_of_eq (by rw [h.level_eq, harmed]))
  have hfp : armed.context.fp = atTry.context.fp := by
    rw [harmed]
  have hsize : atTry.context.lower.size = atTry.context.fp := by
    have hlower := Context.size_lower hframed.running.fp_le
    rw [harmed] at hlower
    exact hlower
  -- The function of a handler is active.
  have hle : ∀ {s}, Trace (Guarded k n) armed s →
      atTry.context.lower.size ≤ (s.contextAt k).fp := by
    intro s hs
    obtain ⟨x, hat, hbecomes⟩ := (hs.holds hframed hholds).handler
    have hle := (((hs.mono fun _ hok => hok.hidden).framed hframed).contextAt k).handler_fp_le x
      (mem_of_handlerAt? hat)
    rw [hbecomes.fp_eq] at hle
    rw [hsize]
    exact hle
  refine Trace.inside ((h.since.also hle).mono fun s hok => ⟨hok.1.hidden, hok.1.level, hok.2⟩)
    hframed (by rw [hsize]; exact hpos) ⟨h.since.ok_first.level, hle (.start h.since.ok_first), ?_⟩
  rw [hcontext, harmed, hsize]
  rfl

/-- The callers of that function are as they were when a fault is raised. -/
theorem ArmedAt.lower_raised {start atTry armed : Machine} {n : Nat}
    (h : ArmedAt start m m₁.suspended.length n atTry armed) (hbegins : start.Begins)
    (hlevel : m₁.suspended.length = m.ready.suspended.length) (hclimbs : m.ready.Climbs False m₁) :
    m₁.context.stack.extract 0 atTry.context.fp = atTry.context.lower := by
  rcases Nat.eq_zero_or_pos atTry.context.fp with hzero | hpos
  · rw [Context.lower, hzero, Array.extract_zero, Array.extract_zero]
  have hinside := h.inside hbegins hpos
  have hsize : atTry.context.lower.size = atTry.context.fp := by
    obtain ⟨address, -, journal, running, observer, harmed⟩ := h.arms.spec
    have hlower := Context.size_lower (h.framed hbegins).running.fp_le
    rw [harmed] at hlower
    exact hlower
  have hcontext : m.contextAt m₁.suspended.length = m.ready.context := by
    rw [← contextAt_ready (Nat.le_of_eq hlevel), contextAt_of_level (Nat.le_of_eq hlevel.symm)]
  have hfp := hinside.fp_le
  have hlower := hinside.lower_eq
  rw [hcontext, hsize] at hfp hlower
  have hcut := hclimbs.lower
  rw [contextAt_of_level (Nat.le_of_eq hlevel)] at hcut
  exact (extract_lower hcut hfp).trans hlower

/-- Cutting operands off leaves those that were in place. -/
theorem Arrives.intact {there : Machine} (h : m₁.Arrives handler outer there) {stack : Array Slot}
    (hstack : handler.stackSize = stack.size)
    (hvalues : OnlyValues (stack.extract handler.fp stack.size)) {n : Nat} (hn : n ≤ stack.size)
    (hsame : m₁.context.stack.extract 0 n = stack.extract 0 n) :
    there.context.stack.extract 0 n = stack.extract 0 n := by
  obtain ⟨last, heap, journal, loops, observer, hsheds, -, rfl⟩ := h.reached
  have hsize : n ≤ m₁.context.stack.size := by
    have hsizes := congrArg Array.size hsame
    rw [Array.size_extract, Array.size_extract] at hsizes
    omega
  have hslot : ∀ i < n, m₁.context.stack[i]? = stack[i]? := by
    intro i hi
    have hat := congrArg (fun xs : Array Slot => xs[i]?) hsame
    simp only [Array.getElem?_extract] at hat
    rwa [if_pos (by omega), if_pos (by omega), Nat.zero_add] at hat
  -- No function was called above operands that are in place.
  have hlast : n ≤ last.context.stack.size := by
    refine hsheds.size_le hsize fun i hfp hi f hframe => ?_
    rw [hslot i hi] at hframe
    obtain ⟨v, hv⟩ := hvalues (.frame f) (Array.mem_of_getElem? (i := i - handler.fp) (by
      rw [Array.getElem?_extract, if_pos (by omega), Nat.add_sub_cancel' hfp]
      exact hframe))
    cases hv
  show (last.context.stack.extract 0 handler.stackSize).extract 0 n = stack.extract 0 n
  rw [hsheds.stack_eq.2, Array.extract_extract, Array.extract_extract, ← hsame]
  congr 1
  omega

/-- A fault that went to a handler was caught for the `try` that armed it. -/
theorem ArmedAt.caughtFor {start atTry armed there : Machine} {scopes : Arena}
    (h : ArmedAt start m m₁.suspended.length outer.length atTry armed) (hbegins : start.Begins)
    (hfault : m.attempt = (.error (.fault f), m₁)) (hselects : m₁.context.Selects f handler outer)
    (harrives : m₁.Arrives handler outer there)
    (hset : there.world.scopes.setAlways handler.symbols "_error"
      (.error (f.raisedAt m₁.context.code.name m₁.context.line)) = .ok scopes) :
    atTry.CaughtFor m₁ { there with world := { there.world with scopes } } f := by
  have hframed := h.trace.framed hbegins.framed
  have hlive := h.trace.ok_last
  obtain ⟨hclimbs, -, -⟩ := attempt_of_error hframed hlive hfault
  obtain ⟨hlevel, x, hat, hsame⟩ := handlerAt_of_selects hframed hlive hfault hselects
  obtain ⟨address, -, -, hsince⟩ := h.becomes hbegins hat
  obtain ⟨hfp, hstack, hsymbols, hloops, -⟩ := hsince.trans hsame
  have hgrounded := (h.reached.framed hbegins.framed).running.grounded
  have hintact : ∀ n ≤ atTry.context.stack.size,
      m₁.context.stack.extract 0 n = atTry.context.stack.extract 0 n →
      there.context.stack.extract 0 n = atTry.context.stack.extract 0 n := by
    refine fun n hn => harrives.intact hstack ?_ hn
    rw [hfp]
    exact hgrounded.values
  have hlower := hintact _ hgrounded.fp_le (h.lower_raised hbegins hlevel hclimbs)
  obtain ⟨ended, hends⟩ := harrives.endsLoops
  have hloops_le := harrives.loops_le
  obtain ⟨last, heap, journal, loops, observer, hsheds, hlast, rfl⟩ := harrives.reached
  have hfp' : last.context.fp = atTry.context.fp := hlast.trans hfp
  exact
    { fp_eq := hfp'
      lower_eq := by
        show (last.context.caughtAt handler outer loops observer).stack.extract 0
          last.context.fp = _
        rw [hfp']
        exact hlower
      symbols_eq := hsymbols
      loops_le := by
        rw [hloops] at hloops_le
        exact hloops_le
      released := ⟨ended, hends.loops_eq, hends.maps_eq, hends.arrays_eq⟩
      size_le := by
        show (last.context.stack.extract 0 handler.stackSize).size ≤ _
        rw [Array.size_extract, hstack]
        exact Nat.le_trans (Nat.sub_le _ _) (Nat.min_le_left _ _)
      intact := hintact
      bound := by
        rw [Arena.getLocal?_setAlways hset]
        exact if_pos ⟨rfl, rfl⟩
      packages_eq := hsheds.packages_eq
      extraArgs_eq := hsheds.extraArgs_eq
      package_eq := ⟨last.context.activation, hsheds.active .here, hfp', rfl⟩ }

/-- **What catching a fault restores**: a fault goes to a handler that was armed by a `try`, and the
context goes on there. Then it is caught for that `try`; and the package definitions that are open,
the package whose code runs and the spread arguments are those at the `try` if and only if the fault
was raised with the same definitions and spread arguments, and while the function that executed the
`try` ran code of the same package. -/
theorem caught_fault_restores_iff {start atTry armed : Machine} (hbegins : start.Begins)
    (harmed : ArmedAt start m m₁.suspended.length outer.length atTry armed)
    (hfault : m.attempt = (.error (.fault f), m₁)) (hselects : m₁.context.Selects f handler outer)
    (hgoing : m.step.1.ended = none) :
    atTry.CaughtFor m₁ m.step.1 f ∧
    (m.step.1.context.packages = atTry.context.packages ∧
        m.step.1.context.extraArgs = atTry.context.extraArgs ∧
        m.step.1.context.package = atTry.context.package ↔
      m₁.context.packages = atTry.context.packages ∧
        m₁.context.extraArgs = atTry.context.extraArgs ∧
        ∀ a, m₁.context.Active a → a.fp = atTry.context.fp →
          a.package = atTry.context.package) := by
  have hcaught : atTry.CaughtFor m₁ m.step.1 f := by
    rcases step_of_catcher (harmed.trace.framed hbegins.framed) harmed.trace.ok_last hfault
        (Context.selects_iff.1 hselects) with
      ⟨there, harrives, ⟨scopes, hset, hstep⟩ | ⟨-, hstep⟩⟩ | ⟨last, g, m₂, -, -, -, hstep⟩
    · rw [hstep]
      exact harmed.caughtFor hbegins hfault hselects harrives hset
    · rw [hstep] at hgoing
      cases hgoing
    · rw [hstep] at hgoing
      cases hgoing
  obtain ⟨a, hactive, hfp, hpackage⟩ := hcaught.package_eq
  refine ⟨hcaught, ?_⟩
  rw [hcaught.packages_eq, hcaught.extraArgs_eq, hpackage]
  refine and_congr_right fun _ => and_congr_right fun _ =>
    ⟨fun hsame b hb hbfp => ?_, fun hall => ?_⟩
  · rw [hb.unique hactive (hbfp.trans hfp.symm)]
    exact hsame
  · exact hall a hactive hfp

/-- The fault of the missing operands is caught with nothing left open. -/
theorem caught_fault_restores_of_trier :
    ArmedAt trier trier.step.1 0 0 trier trier.step.1 ∧
      trier.step.1.attempt = (.error (.fault (.bare .stackUnderflow)), trier.step.1.attempt.2) ∧
      trier.step.1.attempt.2.context.Selects (.bare .stackUnderflow)
        (trier.context.handlerTo 2) [] ∧
      trier.step.1.step.1.ended = none ∧
      trier.CaughtFor trier.step.1.attempt.2 trier.step.1.step.1 (.bare .stackUnderflow) ∧
      trier.step.1.step.1.context.packages = trier.context.packages := by
  have harmed : ArmedAt trier trier.step.1 0 0 trier trier.step.1 :=
    { reached := .start (hiddenLive_of_all rfl)
      arms := ⟨⟨rfl, _, rfl⟩, attempt_eq_ok rfl⟩
      level_eq := rfl
      position_eq := rfl
      since := .start ⟨hiddenLive_of_all rfl, Nat.zero_le _, by decide +kernel⟩ }
  have hfault : trier.step.1.attempt
      = (.error (.fault (.bare .stackUnderflow)), trier.step.1.attempt.2) := Prod.ext rfl rfl
  have hselects : trier.step.1.attempt.2.context.Selects (.bare .stackUnderflow)
      (trier.context.handlerTo 2) [] := ⟨rfl, nofun, rfl, [], rfl, nofun⟩
  have hgoing : trier.step.1.step.1.ended = none := by decide +kernel
  obtain ⟨hcaught, -⟩ := caught_fault_restores_iff
    ⟨⟨OnlyValues.empty, rfl, rfl, rfl⟩, rfl, Arena.initial_sound⟩ harmed hfault hselects hgoing
  exact ⟨harmed, hfault, hselects, hgoing, hcaught, hcaught.packages_eq.trans rfl⟩

end Machine

end ScriptMachine
