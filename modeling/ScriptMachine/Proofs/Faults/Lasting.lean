import ScriptMachine.Proofs.Faults.Failing

/-!
# Handlers that last

As long as a context has a handler at a position, it is the same one: it may be restricted to other
faults, and it may be disarmed, which is for good. Meanwhile the function that armed it stays
active.

* `Context.Hosts`: a function with some code is active.
* `Context.Retains`: what a context keeps of its handlers and of its functions.
* `settle_yields`: dealing with a fault leaves functions, and may disarm the handler that takes it.
* `Machine.Arms`: the next step arms a handler.
* `Machine.Holds`: which handler a context has at a position, and in which code it was armed.
* `Trace.holds`: as long as a context has a handler at a position, it is the same one.
* `Trace.armed`: every handler was armed by a `try`, and has been there since.
-/

namespace ScriptMachine

/-- A function with this frame pointer and code is active in a context. -/
def Context.Hosts (c : Context) (fp : Nat) (code : Code) : Prop :=
  ∃ a, c.Active a ∧ a.fp = fp ∧ a.code = code

namespace Context

variable {c c' c'' : Context} {fp : Nat} {code : Code}

theorem hosts_self (c : Context) : c.Hosts c.fp c.code := ⟨c.activation, .here, rfl, rfl⟩

/-- The function at the frame pointer is the one that runs. -/
theorem Hosts.code_eq (h : c.Hosts fp code) (hfp : c.fp ≤ fp) : c.code = code := by
  obtain ⟨a, hactive, rfl, rfl⟩ := h
  obtain rfl := Reaches.eq_of_fp hactive hfp
  rfl

/-- While a function runs, its callers and its code stay. -/
theorem Hosts.runs (h : c.Hosts fp code) (hcode : c'.code = c.code) (hfp : c'.fp = c.fp)
    (hlower : c'.lower = c.lower) : c'.Hosts fp code := by
  obtain ⟨a, hactive, rfl, rfl⟩ := h
  rcases Nat.lt_or_ge a.fp c.fp with hlt | hge
  · refine ⟨a, Reaches.withInner (Reaches.congr hactive ?_) hfp hlt, rfl, rfl⟩
    rw [lower, hfp] at hlower
    exact hlower
  · obtain rfl := Reaches.eq_of_fp hactive hge
    exact ⟨c'.activation, .here, hfp, hcode⟩

/-- The functions of a context that continues stay active. -/
theorem Continues.hosts {special : Prop} (h : c.Continues special c') (hhosts : c.Hosts fp code) :
    c'.Hosts fp code := by
  cases h with
  | runs code_eq fp_eq lower_eq _ => exact hhosts.runs code_eq fp_eq lower_eq
  | called below f lower_eq fp_lt code_eq fp_eq below_lower _ =>
    obtain ⟨a, hactive, rfl, rfl⟩ := hhosts
    rcases Nat.lt_or_ge a.fp c.fp with hlt | hge
    · refine ⟨a, .caller lower_eq fp_lt ?_, rfl, rfl⟩
      exact Reaches.withInner (Reaches.congr hactive below_lower) fp_eq hlt
    · obtain rfl := Reaches.eq_of_fp hactive hge
      exact ⟨f.activation, .caller lower_eq fp_lt .here, fp_eq, code_eq⟩

/-- What a context keeps of its functions and handlers; it has a further handler at most if one may
be armed. -/
structure Retains (arming : Prop) (c c' : Context) : Prop where
  hosts : ∀ {fp code}, c.Hosts fp code → fp ≤ c'.fp → c'.Hosts fp code
  outlasts : Outlasts c.handlers c'.handlers
  length_le : c'.handlers.length ≤ c.handlers.length ∨ arming

/-- Functions of a context may have been left, and handlers taken off or disarmed. -/
structure Yields (c c' : Context) : Prop where
  hosts : ∀ {fp code}, c.Hosts fp code → fp ≤ c'.fp → c'.Hosts fp code
  outlasts : Outlasts c.handlers c'.handlers
  length_le : c'.handlers.length ≤ c.handlers.length
  fp_le : c'.fp ≤ c.fp

variable {arming : Prop}

theorem Retains.refl (c : Context) : c.Retains arming c :=
  ⟨fun h _ => h, .refl _, .inl (Nat.le_refl _)⟩

theorem Continues.retains (h : c.Continues arming c') : c.Retains arming c' :=
  ⟨fun hhosts _ => h.hosts hhosts, h.outlasts, h.length_le⟩

theorem Yields.retains (h : c.Yields c') : c.Retains arming c' :=
  ⟨h.hosts, h.outlasts, .inl h.length_le⟩

theorem Retains.thenYields (h : c.Retains arming c') (h' : c'.Yields c'') :
    c.Retains arming c'' where
  hosts hhosts hfp := h'.hosts (h.hosts hhosts (Nat.le_trans hfp h'.fp_le)) hfp
  outlasts := h.outlasts.trans h'.outlasts h'.length_le
  length_le := h.length_le.imp_left (Nat.le_trans h'.length_le)

theorem Retains.imp {arming' : Prop} (h : c.Retains arming c') (himp : arming → arming') :
    c.Retains arming' c' := ⟨h.hosts, h.outlasts, h.length_le.imp_right himp⟩

theorem Yields.refl (c : Context) : c.Yields c :=
  ⟨fun h _ => h, .refl _, Nat.le_refl _, Nat.le_refl _⟩

theorem Yields.trans (h : c.Yields c') (h' : c'.Yields c'') : c.Yields c'' where
  hosts hhosts hfp := h'.hosts (h.hosts hhosts (Nat.le_trans hfp h'.fp_le)) hfp
  outlasts := h.outlasts.trans h'.outlasts h'.length_le
  length_le := Nat.le_trans h'.length_le h.length_le
  fp_le := Nat.le_trans h'.fp_le h.fp_le

/-- While the function runs on, inner handlers are taken off. -/
theorem Yields.ofRuns (hcode : c'.code = c.code) (hfp : c'.fp = c.fp) (hlower : c'.lower = c.lower)
    (houtlasts : Outlasts c.handlers c'.handlers)
    (hlength : c'.handlers.length ≤ c.handlers.length) : c.Yields c' :=
  ⟨fun hhosts _ => hhosts.runs hcode hfp hlower, houtlasts, hlength, Nat.le_of_eq hfp⟩

/-- The caller goes on, with what its callee returned. -/
theorem Yields.ofFrame {below : Array Slot} {f : Frame} (h : c.Framed)
    (hlower : c.lower = below.push (.frame f)) (hcode : c'.code = f.code) (hfp : c'.fp = f.fp)
    (hstack : c'.stack.extract 0 f.fp = below.extract 0 f.fp) (hlt : f.fp < c.fp)
    (hhandlers : c'.handlers = c.handlers.filter fun x => x.fp ≤ f.fp) : c.Yields c' := by
  obtain ⟨own, hown⟩ := Stacked.handlers_eq h f.fp
  rw [← hhandlers] at hown
  refine ⟨fun {fp code} hhosts hle => ?_, ?_, ?_, by omega⟩
  · obtain ⟨a, hactive, rfl, rfl⟩ := hhosts
    cases hactive with
    | here =>
      have hge : c.fp ≤ c'.fp := hle
      omega
    | caller lower fp_lt outer =>
      obtain ⟨hframe, rfl⟩ := Array.push_eq_push.1 (lower.symm.trans hlower)
      cases hframe
      rcases Nat.lt_or_ge a.fp f.fp with hlt | hge
      · exact ⟨a, Reaches.withInner (outer.congr hstack) hfp hlt, rfl, rfl⟩
      · obtain rfl := outer.eq_of_fp hge
        exact ⟨c'.activation, .here, hfp, hcode⟩
  · rw [hown]
    exact .ofSuffix own
  · rw [hown, List.length_append]
    omega

end Context

namespace Machine

variable {m m' last : Machine} {fp : Nat}

theorem Left.yields (h : m.Left m') (hframed : m.Framed) : m.context.Yields m'.context := by
  have hlt := h.fp_lt
  obtain ⟨below, f, world, loops, observer, hlower, rfl, -⟩ := h.caller
  exact .ofFrame hframed.running hlower rfl rfl rfl hlt rfl

theorem Sheds.yields (h : Sheds fp m last) : m.context.Yields last.context := by
  induction h with
  | none _ => exact .refl _
  | left framed _ left _ ih => exact (left.yields framed).trans ih

/-- On the way to a handler functions are left, and the handler is disarmed. -/
theorem Arrives.yields {there : Machine} {handler : Handler} {pre outer : List Handler}
    (h : m.Arrives handler outer there)
    (hhandlers : m.context.handlers = pre ++ handler :: outer) :
    m.context.Yields there.context := by
  have hle := h.fp_le
  obtain ⟨last, heap, journal, loops, observer, hsheds, hfp, rfl⟩ := h.reached
  have hruns : ∀ {fp code}, last.context.Hosts fp code →
      (last.context.caughtAt handler outer loops observer).Hosts fp code := fun hhosts =>
    hhosts.runs rfl rfl (by
      show (last.context.stack.extract 0 handler.stackSize).extract 0 last.context.fp = _
      rw [Array.extract_extract, Nat.zero_add, Nat.zero_add, Nat.min_eq_left (by omega)]
      rfl)
  refine ⟨fun hhosts hfp => hruns (hsheds.yields.hosts hhosts hfp), ?_, ?_, hsheds.fp_le⟩
  · rw [hhandlers]
    exact .replace pre ⟨rfl, rfl, rfl, rfl, .inr rfl⟩
  · rw [hhandlers, List.length_append]
    exact Nat.le_add_left _ _

end Machine

namespace Exec

open Machine

/-- **Dealing with a fault** leaves functions, and may disarm the handler that takes it. -/
theorem settle_yields {f : Fault} {m m' : Machine} (h : m.Framed)
    (hout : outcome (settle f) m = (.ok (), m')) (hlive : m'.HiddenLive) :
    m.context.Yields m'.context := by
  by_cases hstop : f.kind = .stop
  · obtain ⟨j, hfinish⟩ := outcome_finish m
    rw [settle, if_pos hstop, hfinish] at hout
    cases hout
    exact .ofRuns rfl rfl rfl (.refl _) (Nat.le_refl _)
  rw [outcome_settle hstop] at hout
  -- The context is as the attempt to recover left it.
  obtain ⟨r, m₁, hrecover, hcontext, hlive₁⟩ : ∃ r m₁, outcome (recover f) m = (r, m₁) ∧
      m'.context = m₁.context ∧ m₁.HiddenLive := by
    rcases hrecover : outcome (recover f) m with ⟨(g | _) | u, m₁⟩
    · rw [hrecover] at hout
      cases hout
      exact ⟨_, _, rfl, rfl, hlive⟩
    · rw [hrecover] at hout
      cases hout
    · rw [hrecover] at hout
      cases hout
      exact ⟨_, _, rfl, rfl, hlive⟩
  rw [hcontext]
  rw [outcome_recover] at hrecover
  split at hrecover
  · cases hrecover
    exact .refl _
  split at hrecover
  · rename_i handler outer hcatcher
    obtain ⟨-, -, pre, hpre, -⟩ := Context.catcher?_eq_some_iff.1 hcatcher
    rcases catchAt_cases h hpre with
      ⟨there, harrives, hbind⟩ | ⟨last, g, m₂, hsheds, hfp, hsticks, hstuck⟩
    · have hsame : m₁ = { there with world := m₁.world } := by
        have hbound := IsWorldly.storeIn handler.symbols "_error"
          (.error (f.raisedAt m.context.code.name m.context.line)) there
        rw [← hbind, hrecover] at hbound
        exact hbound
      rw [hsame]
      exact harrives.yields hpre
    · rw [hrecover] at hstuck
      cases hstuck
      exact absurd hsticks (not_sticks hsheds.framed (by omega) hlive₁)
  · have hgiven := outcome_abandon (f.raisedAt m.context.code.name m.context.line) m
    rw [hrecover] at hgiven
    obtain ⟨j, hj⟩ := m.traced_eq (f.raisedAt m.context.code.name m.context.line)
    have htraced := h.traced (f.raisedAt m.context.code.name m.context.line)
    rw [hj] at hgiven htraced
    obtain ⟨last, hsheds, ⟨-, hunwind⟩ | ⟨hfp, g, m₂, hsticks, hunwind⟩⟩ :=
      unwindTo_cases 0 htraced (Nat.le_succ_of_le h.running.fp_le)
    · rw [hunwind] at hgiven
      cases hgiven
      exact hsheds.yields.trans (.ofRuns rfl rfl rfl (.refl _) (Nat.le_refl _))
    · rw [hunwind] at hgiven
      cases hgiven
      exact absurd hsticks (not_sticks hsheds.framed hfp hlive₁)

end Exec

namespace Machine

variable {m m' m₁ : Machine} {k n address : Nat} {x : Handler} {code : Code}

/-! ### Arming -/

/-- The next step executes a `try`, which arms a handler. -/
structure Arms (m m' : Machine) : Prop where
  tries : m.Tries
  completes : m.attempt = (.ok (), m')

/-- Arming a handler leaves all else as it is. -/
theorem Arms.spec (h : m.Arms m') : ∃ address < m.context.code.size, ∃ journal running observer,
    m' = { m with
      world := { m.world with journal }
      context := { m.context with
        pc := m.context.pc + 1
        running
        observer
        handlers := m.context.handlerTo address :: m.context.handlers } } := by
  rcases h.tries.attempt_cases with
    ⟨e, j, running, observer, hattempt⟩ | ⟨address, hlt, journal, running, observer, hattempt⟩
  · rw [h.completes] at hattempt
    cases hattempt
  · exact ⟨address, hlt, journal, running, observer,
      (congrArg Prod.snd h.completes).symm.trans (congrArg Prod.snd hattempt)⟩

theorem Arms.step_eq (h : m.Arms m') : m.step.1 = m' := step_of_attempt_ok h.completes

/-! ### Steps -/

/-- The running context keeps its functions and handlers, but for what a step leaves and disarms; or
another context was set going. -/
structure Retains (arming : Prop) (m m' : Machine) : Prop where
  context : m.context.Retains arming (m'.contextAt m.suspended.length)
  waiting : m'.suspended = m.suspended ∨
    m'.context.handlers = [] ∧ ∃ s, m'.suspended = s :: m.suspended

theorem Climbs.retains {special : Prop} (h : m.Climbs special m') : m.Retains special m' := by
  refine ⟨h.continues.retains, ?_⟩
  rcases h.waiting with hsame | ⟨-, s, hcons⟩
  · exact .inl hsame
  · rcases h.fresh with hsame | hfresh
    · exact .inl hsame
    · exact .inr ⟨hfresh, s, hcons⟩

/-- Dealing with a fault takes from what the attempt retained. -/
theorem Retains.thenYields {arming : Prop} {m'' : Machine} (h : m.Retains arming m')
    (hyields : m'.context.Yields m''.context) (hsuspended : m''.suspended = m'.suspended) :
    m.Retains arming m'' := by
  rcases h.waiting with hsame | ⟨hfresh, s, hcons⟩
  · have hcontext := h.context
    rw [contextAt_of_level (Nat.le_of_eq (congrArg List.length hsame))] at hcontext
    have hsame' := hsuspended.trans hsame
    refine ⟨?_, .inl hsame'⟩
    rw [contextAt_of_level (Nat.le_of_eq (congrArg List.length hsame'))]
    exact hcontext.thenYields hyields
  · have hcons' := hsuspended.trans hcons
    refine ⟨?_, .inr ⟨?_, s, hcons'⟩⟩
    · rw [contextAt_of_cons hcons', ← contextAt_of_cons hcons]
      exact h.context
    · have hlength := hyields.length_le
      rw [hfresh] at hlength
      exact List.eq_nil_of_length_eq_zero (Nat.le_zero.1 hlength)

/-- A return leaves one function. -/
theorem yields_of_popFrame {journal : Journal} {pc : Nat} {running : Bool} {observer : Observer}
    {output : Sink} (h : m.Framed) (hlive : m.HiddenLive) (hfp : 0 < m.leaving.fp)
    (hpop : m.attempt = Exec.outcome Exec.popFrame { m.ready with
      world := { m.world with journal }
      context := { m.leaving with pc, running, observer, output } }) :
    m.ready.context.Yields m.attempt.2.context ∧ m.attempt.2.suspended = m.ready.suspended := by
  obtain ⟨hframed, hsame, hlower⟩ := leaving_spec h
  obtain ⟨hcode, hhandlers⟩ : m.leaving.code = m.ready.context.code ∧
      m.leaving.handlers = m.ready.context.handlers := by
    unfold leaving
    split
    · rename_i operand hended hnext
      rw [Machine.ready, hended]
      unfold Context.returning Context.takeResult
      split
      · split <;> exact ⟨rfl, rfl⟩
      · exact ⟨rfl, rfl⟩
    · exact ⟨rfl, rfl⟩
  obtain ⟨below, frame, hstack, hsize, -, hbelow, -⟩ := Stacked.frame hframed hfp
  have hle := hbelow.fp_le
  obtain ⟨world, loops, observer', hout, -⟩ := Exec.outcome_popFrame (m := { m.ready with
    world := { m.world with journal }
    context := { m.leaving with pc, running, observer, output } })
    ⟨hframed.grounded.fp_le, hframed.grounded.values⟩ hstack hfp h.sound hlive
  rw [hpop, hout]
  refine ⟨.ofFrame (f := frame) h.ready.running (hlower.symm.trans hstack) rfl rfl ?_ (by omega) ?_,
    rfl⟩
  · show (below ++ _).extract 0 frame.fp = _
    rw [Array.extract_append]
    simp only [Nat.zero_sub, Nat.sub_eq_zero_of_le hle, Array.extract_zero, Array.append_empty]
  · show (m.leaving.handlers.filter _) = _
    rw [hhandlers]

/-- **A step retains** the functions and handlers that it does not leave, and arms a handler at most
by a `try`. -/
theorem step_retains (h : m.Framed) (hlive : m.HiddenLive) (hafter : m.step.1.HiddenLive) :
    m.ready.Retains (m.Arms m.step.1) m.step.1 := by
  rcases m.step_cases with ⟨hok, -⟩ | ⟨f, m₁, hfault, hsettle, -⟩ | ⟨hwait, -⟩
  · rcases attempt_cases h with hclimbs | ⟨-, journal, pc, running, observer, output, hfp, hpop⟩
    · rw [hok] at hclimbs
      refine ⟨⟨hclimbs.retains.context.hosts, hclimbs.retains.context.outlasts, ?_⟩,
        hclimbs.retains.waiting⟩
      rcases hclimbs.retains.context.length_le with hle | htries | hfinishes
      · exact .inl hle
      · exact .inr ⟨htries, hok⟩
      · obtain ⟨j, hfinish⟩ := hfinishes.attempt_eq
        rw [hok] at hfinish
        have hafter := congrArg Prod.snd hfinish
        dsimp only at hafter
        rw [hafter, ready, hfinishes.1, contextAt_of_level (by exact Nat.le_refl _)]
        exact .inl (Nat.le_refl _)
    · obtain ⟨hyields, hsuspended⟩ := yields_of_popFrame h hlive hfp hpop
      rw [hok] at hyields hsuspended
      refine ⟨?_, .inl hsuspended⟩
      rw [contextAt_of_level (Nat.le_of_eq (congrArg List.length hsuspended))]
      exact hyields.retains
  · -- What deals with a fault takes off handlers only.
    obtain ⟨hclimbs, -, -⟩ := attempt_of_error h hlive hfault
    have hyields := Exec.settle_yields hclimbs.framed hsettle hafter
    have hunwound := Exec.settle_unwound (f := f) hclimbs.framed (by
      rw [hsettle]
      exact hafter)
    rw [hsettle] at hunwound
    have hretains := hclimbs.retains.thenYields hyields hunwound.suspended
    exact ⟨hretains.context.imp fun hnever => hnever.elim, hretains.waiting⟩
  · rw [hwait]
    exact ⟨by
      rw [contextAt_of_level (Nat.le_refl _)]
      exact .refl _, .inl rfl⟩

/-- **A context with handlers was there before**, and retains them. -/
theorem step_retains_at (h : m.Framed) (hlive : m.HiddenLive) (hafter : m.step.1.HiddenLive)
    (hk : k ≤ m.step.1.suspended.length) (hhas : (m.step.1.contextAt k).handlers ≠ []) :
    k ≤ m.suspended.length ∧ (m.contextAt k).Retains (m.Arms m.step.1 ∧ k = m.suspended.length)
      (m.step.1.contextAt k) := by
  have hretains := step_retains h hlive hafter
  have hk' : k ≤ m.ready.suspended.length := by
    rcases hretains.waiting with hsame | ⟨hfresh, s, hcons⟩
    · rwa [hsame] at hk
    · rcases Nat.lt_or_ge m.ready.suspended.length k with hlt | hge
      · rw [contextAt_of_level (by rw [hcons, List.length_cons]; omega)] at hhas
        exact absurd hfresh hhas
      · exact hge
  have hready := contextAt_ready hk'
  refine ⟨Nat.le_trans hk' m.length_ready_le, ?_⟩
  rw [← hready]
  rcases Nat.lt_or_eq_of_le hk' with hlt | rfl
  · have hsame : m.step.1.contextAt k = m.ready.contextAt k := by
      rcases hretains.waiting with hsame | ⟨-, s, hcons⟩
      · exact contextAt_of_append [] hsame hlt
      · exact contextAt_of_append [s] hcons hlt
    rw [hsame]
    exact .refl _
  · rw [contextAt_of_level (m := m.ready) (Nat.le_refl _)]
    refine hretains.context.imp fun harms => ⟨harms, ?_⟩
    rw [ready, harms.tries.1]

/-- Going on after a stop retains all contexts. -/
theorem resume_retains_at (m : Machine) (switches : Switches) (k : Nat) :
    (m.contextAt k).Retains False
      ({ m with context := switches.apply m.context }.resume.contextAt k) := by
  have hsuspended : { m with context := switches.apply m.context }.resume.suspended
      = m.suspended := rfl
  unfold contextAt
  rw [hsuspended]
  cases m.suspended.reverse[k]? with
  | some s => exact .refl _
  | none => exact ⟨fun hhosts _ => hhosts.runs rfl rfl rfl, .refl _, .inl (Nat.le_refl _)⟩

/-! ### As long as a handler is there -/

/-- The context at level `k` has a handler at position `n`, counted from the outermost; hidden
tables are live. -/
structure Guarded (k n : Nat) (m : Machine) : Prop where
  hidden : m.HiddenLive
  level : k ≤ m.suspended.length
  guarded : n < (m.contextAt k).handlers.length

/-- The context at level `k` has at position `n` what became of a handler that was armed in some
code, and the function that armed it is active. -/
structure Holds (k n : Nat) (armed : Handler) (code : Code) (m : Machine) : Prop where
  handler : ∃ x, handlerAt? (m.contextAt k).handlers n = some x ∧ armed.Becomes x
  hosts : (m.contextAt k).Hosts armed.fp code

theorem Guarded.handler (h : m.Guarded k n) :
    ∃ x, handlerAt? (m.contextAt k).handlers n = some x := by
  unfold handlerAt?
  exact ⟨_, List.getElem?_eq_getElem (by
    rw [List.length_reverse]
    exact h.guarded)⟩

/-- A handler that was armed. -/
theorem Arms.holds (h : m.Arms m') : ∃ address < m.context.code.size,
    m'.Holds m.suspended.length m.context.handlers.length (m.context.handlerTo address)
      m.context.code := by
  obtain ⟨address, hlt, journal, running, observer, rfl⟩ := h.spec
  refine ⟨address, hlt, ⟨_, ?_, .refl _⟩, ?_⟩
  · rw [contextAt_of_level (by exact Nat.le_refl _)]
    exact handlerAt?_cons _ _
  · rw [contextAt_of_level (by exact Nat.le_refl _)]
    exact (Context.hosts_self m.context).runs rfl rfl rfl

/-- A context that retains its handlers has the same one where it has one. -/
theorem Holds.retains {arming : Prop} (h : m.Holds k n x code) (hframed : m'.Framed)
    (hretains : (m.contextAt k).Retains arming (m'.contextAt k)) (hguarded : m'.Guarded k n) :
    m'.Holds k n x code := by
  obtain ⟨y, hat, hbecomes⟩ := h.handler
  obtain ⟨z, hat'⟩ := hguarded.handler
  obtain ⟨y', hat'', hbecomes'⟩ := hretains.outlasts n z hat' (lt_of_handlerAt? hat)
  cases hat.symm.trans hat''
  refine ⟨⟨z, hat', hbecomes.trans hbecomes'⟩, hretains.hosts h.hosts ?_⟩
  have hle := (hframed.contextAt k).handler_fp_le z (mem_of_handlerAt? hat')
  rwa [hbecomes'.fp_eq, hbecomes.fp_eq] at hle

theorem Guarded.handlers_ne_nil (h : m.Guarded k n) : (m.contextAt k).handlers ≠ [] := by
  have hlt := h.guarded
  intro hnil
  rw [hnil] at hlt
  exact absurd hlt (Nat.not_lt_zero _)

/-- **As long as a context has a handler at a position, it is the same one**, and the function that
armed it is active. -/
theorem Trace.holds {armed : Machine} (h : Trace (Guarded k n) armed m) (hframed : armed.Framed)
    (harmed : armed.Holds k n x code) : m.Holds k n x code := by
  have hframes : ∀ {m}, Trace (Guarded k n) armed m → m.Framed := fun h =>
    (h.mono fun _ hok => hok.hidden).framed hframed
  induction h with
  | start => exact harmed
  | step before hok ih =>
    obtain ⟨-, hretains⟩ := step_retains_at (hframes before) before.ok_last.hidden hok.hidden
      hok.level hok.handlers_ne_nil
    exact ih.retains (hframes (before.step hok)) hretains hok
  | @elsewhere m before world tasks hsound hok ih =>
    have hretains : (m.contextAt k).Retains False (m.contextAt k) := .refl _
    exact ih.retains (hframes (before.elsewhere world tasks hsound hok)) hretains hok
  | resume before switches hok ih =>
    exact ih.retains (hframes (before.resume switches hok)) (resume_retains_at _ _ _) hok

/-- A `try` was executed in a run and armed the handler of the context at level `k` at position `n`,
which has been there since. -/
structure ArmedAt (start m : Machine) (k n : Nat) (atTry armed : Machine) : Prop where
  reached : Trace HiddenLive start atTry
  arms : atTry.Arms armed
  level_eq : k = atTry.suspended.length
  position_eq : n = atTry.context.handlers.length
  since : Trace (Guarded k n) armed m

theorem ArmedAt.framed {start atTry armed : Machine} (h : ArmedAt start m k n atTry armed)
    (hbegins : start.Begins) : armed.Framed := by
  have hframed := (h.reached.step (by
    rw [h.arms.step_eq]
    exact h.since.ok_first.hidden)).framed hbegins.framed
  rwa [h.arms.step_eq] at hframed

theorem ArmedAt.trace {start atTry armed : Machine} (h : ArmedAt start m k n atTry armed) :
    Trace HiddenLive start m := by
  have hafter := h.reached.step (by
    rw [h.arms.step_eq]
    exact h.since.ok_first.hidden)
  rw [h.arms.step_eq] at hafter
  exact hafter.append (h.since.mono fun _ hok => hok.hidden)

/-- **Every handler was armed by a `try`**, and has been there since. -/
theorem Trace.armed {start : Machine} (h : Trace HiddenLive start m) (hbegins : start.Begins)
    (hk : k ≤ m.suspended.length) (hat : handlerAt? (m.contextAt k).handlers n = some x) :
    ∃ atTry armed, ArmedAt start m k n atTry armed := by
  induction h generalizing x with
  | start =>
    rw [contextAt_of_level (by rw [hbegins.alone]; exact Nat.zero_le _),
      hbegins.fresh.handlers_eq] at hat
    cases hat
  | @step m before hok ih =>
    have hlt := lt_of_handlerAt? hat
    have hguarded : m.step.1.Guarded k n := ⟨hok, hk, hlt⟩
    obtain ⟨hk', hretains⟩ := step_retains_at (before.framed hbegins.framed) before.ok_last hok hk
      hguarded.handlers_ne_nil
    rcases Nat.lt_or_ge n (m.contextAt k).handlers.length with hbefore | hnew
    · obtain ⟨y, hat', -⟩ := hretains.outlasts n x hat hbefore
      obtain ⟨atTry, armed, harmed⟩ := ih hk' hat'
      exact ⟨atTry, armed, { harmed with since := harmed.since.step hguarded }⟩
    · -- A handler more than before: the step armed it.
      obtain ⟨harms, hlevel⟩ : m.Arms m.step.1 ∧ k = m.suspended.length :=
        hretains.length_le.resolve_left (by omega)
      refine ⟨m, m.step.1, before, harms, hlevel, ?_, .start hguarded⟩
      rw [contextAt_of_level (Nat.le_of_eq hlevel.symm)] at hnew
      obtain ⟨address, -, journal, running, observer, hafter⟩ := harms.spec
      rw [hafter, contextAt_of_level (by exact Nat.le_of_eq hlevel.symm)] at hlt
      exact Nat.le_antisymm (Nat.lt_succ_iff.1 hlt) hnew
  | elsewhere before world tasks hsound hok ih =>
    obtain ⟨atTry, armed, harmed⟩ := ih hk hat
    exact ⟨atTry, armed, { harmed with
      since := harmed.since.elsewhere world tasks hsound ⟨hok, hk, lt_of_handlerAt? hat⟩ }⟩
  | @resume m before switches hok ih =>
    have hretains := resume_retains_at m switches k
    have hlt := lt_of_handlerAt? hat
    have hbefore : n < (m.contextAt k).handlers.length :=
      Nat.lt_of_lt_of_le hlt (hretains.length_le.resolve_right id)
    obtain ⟨y, hat', -⟩ := hretains.outlasts n x hat hbefore
    obtain ⟨atTry, armed, harmed⟩ := ih hk hat'
    exact ⟨atTry, armed, { harmed with since := harmed.since.resume switches ⟨hok, hk, hlt⟩ }⟩

end Machine

end ScriptMachine
