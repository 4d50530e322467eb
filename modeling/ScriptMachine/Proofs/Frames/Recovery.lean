import ScriptMachine.Proofs.Frames.Unwinding

/-!
# Recovery keeps the frames linked

Returning from a function, catching a fault and giving up all leave functions. As long as hidden
tables stay live, they leave an operand stack whose frames are linked.

* `Context.Framed`, `Machine.Framed`: the operand stacks of all contexts are stacks of activations.
* `Machine.Unwound`: functions were left, and the slots below the frame pointer stayed.
* `outcome_popFrame`: what a return does.
* `settle_framed`: dealing with a fault leaves a machine that is framed.
-/

namespace ScriptMachine

/-- The operand stack is a stack of activations. -/
def Context.Framed (c : Context) : Prop := Stacked c.stack c.fp c.frameDepth c.handlers

/-- The operand stacks of all contexts are stacks of activations, and the scopes are sound. -/
structure Machine.Framed (m : Machine) : Prop where
  running : m.context.Framed
  waiting : ∀ s ∈ m.suspended, s.context.Framed
  sound : m.world.scopes.Sound

theorem Context.Framed.grounded {c : Context} (h : c.Framed) : c.Grounded := ⟨h.fp_le, h.values⟩

/-- A fresh context is framed. -/
theorem Context.Fresh.framed {c : Context} (h : c.Fresh) : c.Framed := by
  unfold Context.Framed
  rw [h.fp_eq, h.frameDepth_eq, h.handlers_eq]
  exact .outermost h.values fun x hx => by cases hx

/-- The context that goes on at a handler. -/
def Context.caughtAt (c : Context) (handler : Handler) (outer : List Handler) (loops : List Loop)
    (observer : Observer) : Context :=
  { c with
    symbols := handler.symbols
    stack := c.stack.extract 0 handler.stackSize
    pc := handler.address.getD c.pc
    handlers := { handler with address := none } :: outer
    loops
    observer }

namespace Machine

/-- Functions of the running context may have been left. -/
structure Unwound (m m' : Machine) : Prop where
  framed : m'.Framed
  fp_le : m'.context.fp ≤ m.context.fp
  lower : m'.context.stack.extract 0 m'.context.fp = m.context.stack.extract 0 m'.context.fp
  suspended : m'.suspended = m.suspended

theorem Unwound.refl {m : Machine} (h : m.Framed) : m.Unwound m := ⟨h, Nat.le_refl _, rfl, rfl⟩

theorem Unwound.trans {m₁ m₂ m₃ : Machine} (h₁₂ : m₁.Unwound m₂) (h₂₃ : m₂.Unwound m₃) :
    m₁.Unwound m₃ where
  framed := h₂₃.framed
  fp_le := Nat.le_trans h₂₃.fp_le h₁₂.fp_le
  lower := by
    have hle := h₂₃.fp_le
    have hcut := congrArg (fun xs : Array Slot => xs.extract 0 m₃.context.fp) h₁₂.lower
    simp only [Array.extract_extract, Nat.zero_add, Nat.min_eq_left hle] at hcut
    rw [h₂₃.lower, hcut]
  suspended := h₂₃.suspended.trans h₁₂.suspended

end Machine

namespace Exec

/-- Leaving a function of a framed machine; the handlers of its callers remain. -/
theorem restoreFrame_unwound {m : Machine} (h : m.Framed) (hfp : 0 < m.context.fp)
    (hlive : (outcome restoreFrame m).2.HiddenLive) :
    ∃ m', outcome restoreFrame m = (.ok (), m') ∧ m.Unwound m' ∧
      m'.context.fp < m.context.fp ∧
      m'.context.handlers = m.context.handlers.filter (fun x => x.fp ≤ m'.context.fp) ∧
      ∀ x ∈ m.context.handlers, x.fp < m.context.fp → x.fp ≤ m'.context.fp := by
  obtain ⟨below, f, hstack, hsize, hdepth, hbelow, hhandlers⟩ := h.running.frame hfp
  have hsound := (IsFading.restoreFrame m).sound h.sound
  obtain ⟨world, loops, observer, hout, -⟩ := outcome_restoreFrame hstack hfp h.sound
    ((IsFading.restoreFrame m).hiddenLive hlive)
  rw [hout] at hsound
  have hle := hbelow.fp_le
  refine ⟨_, hout, ⟨⟨hbelow, h.waiting, hsound⟩, ?_, ?_, rfl⟩, ?_, rfl, hhandlers⟩
  · show f.fp ≤ m.context.fp
    omega
  · show below.extract 0 f.fp = m.context.stack.extract 0 f.fp
    have hcut := congrArg (fun xs : Array Slot => xs.extract 0 f.fp) hstack
    simp only [Array.extract_extract, Nat.zero_add] at hcut
    rw [Nat.min_eq_left (by omega), Array.extract_push_of_le hle] at hcut
    exact hcut.symm
  · show f.fp < m.context.fp
    omega

/-- So does leaving a function that a fault ended. -/
theorem unwindFrame_unwound {m : Machine} (h : m.Framed) (hfp : 0 < m.context.fp)
    (hlive : (outcome unwindFrame m).2.HiddenLive) :
    ∃ m', outcome unwindFrame m = (.ok (), m') ∧ m.Unwound m' ∧
      m'.context.fp < m.context.fp ∧
      m'.context.handlers = m.context.handlers.filter (fun x => x.fp ≤ m'.context.fp) ∧
      ∀ x ∈ m.context.handlers, x.fp < m.context.fp → x.fp ≤ m'.context.fp := by
  rw [unwindFrame, outcome_bind_ok (outcome_modifyContext _ m)] at hlive ⊢
  obtain ⟨m', hout, hunwound, hrest⟩ := restoreFrame_unwound
    (m := { m with context := { m.context with result := none } })
    ⟨h.running, h.waiting, h.sound⟩ hfp hlive
  exact ⟨m', hout, ⟨hunwound.framed, hunwound.fp_le, hunwound.lower, hunwound.suspended⟩, hrest⟩

namespace IsFading

theorem unwindFrame : IsFading Exec.unwindFrame := bind (modifyContext _) fun _ => restoreFrame

theorem unwindTo (fp fuel : Nat) : IsFading (Exec.unwindTo fp fuel) := by
  induction fuel with
  | zero => exact pure _
  | succ fuel ih =>
    exact bind Keeps.context fun c => Keeps.ite (bind unwindFrame fun _ => ih) (pure _)

end IsFading

/-- Leaving functions until the frame pointer is low enough stops at the functions of handlers. -/
theorem unwindTo_unwound {fp fuel : Nat} {m : Machine} (h : m.Framed)
    (hfuel : m.context.fp ≤ fuel) (hlive : (outcome (unwindTo fp fuel) m).2.HiddenLive) :
    ∃ m', outcome (unwindTo fp fuel) m = (.ok (), m') ∧ m.Unwound m' ∧ m'.context.fp ≤ fp ∧
      m'.context.handlers = m.context.handlers.filter (fun x => x.fp ≤ m'.context.fp) ∧
      ∀ x ∈ m.context.handlers, x.fp = fp → fp ≤ m'.context.fp := by
  have hstay : ∀ m : Machine, m.Framed →
      m.context.handlers = m.context.handlers.filter (fun x => x.fp ≤ m.context.fp) := by
    intro m h
    symm
    rw [List.filter_eq_self]
    exact fun x hx => decide_eq_true (h.running.handler_fp_le x hx)
  have hle : ∀ m : Machine, m.Framed → ∀ x ∈ m.context.handlers, x.fp = fp →
      fp ≤ m.context.fp := by
    rintro m h x hx rfl
    exact h.running.handler_fp_le x hx
  induction fuel generalizing m with
  | zero => exact ⟨m, rfl, .refl h, by omega, hstay m h, hle m h⟩
  | succ fuel ih =>
    rw [unwindTo, outcome_bind_ok (outcome_context m)] at hlive ⊢
    by_cases hlt : fp < m.context.fp
    · rw [if_pos hlt] at hlive ⊢
      have hlive₁ := hiddenLive_of_bind (fun _ => IsFading.unwindTo fp fuel) hlive
      obtain ⟨m₁, hout, hunwound, hdown, hhandlers, hkept⟩ :=
        unwindFrame_unwound h (by omega) hlive₁
      rw [outcome_bind_ok hout] at hlive ⊢
      obtain ⟨m₂, hout₂, hunwound₂, hfp₂, hhandlers₂, hkept₂⟩ :=
        ih hunwound.framed (by omega) hlive
      refine ⟨m₂, hout₂, hunwound.trans hunwound₂, hfp₂, ?_, ?_⟩
      · rw [hhandlers₂, hhandlers, List.filter_filter]
        have hle₂ := hunwound₂.fp_le
        apply List.filter_congr
        intro x _
        rw [← Bool.decide_and]
        congr 1
        apply propext
        exact ⟨fun hx => hx.1, fun hx => ⟨hx, Nat.le_trans hx hle₂⟩⟩
      · rintro x hx rfl
        refine hkept₂ x ?_ rfl
        rw [hhandlers]
        exact List.mem_filter.2 ⟨hx, decide_eq_true (hkept x hx (by omega))⟩
    · rw [if_neg hlt] at hlive ⊢
      exact ⟨m, rfl, .refl h, by omega, hstay m h, hle m h⟩

/-! ### Returns -/

/-- What a function returns: the values above its frame, or else its result. -/
def returnedSlots (c : Context) : Array Slot :=
  if c.operands.isEmpty then
    match c.result with
    | some v => #[.value v]
    | none => #[]
  else c.operands

theorem returnedSlots_values {c : Context} (h : c.Grounded) : OnlyValues (returnedSlots c) := by
  unfold returnedSlots
  split
  · split
    · exact OnlyValues.push .empty _
    · exact .empty
  · exact h.values

theorem IsFading.popFrame : IsFading Exec.popFrame := by
  refine IsFading.bind Keeps.context fun c => Keeps.ite (Keeps.fail _) ?_
  dsimp only
  refine IsFading.bind (IsFading.modifyContext _) fun _ => IsFading.bind restoreFrame fun _ =>
    Keeps.ite ?_ (IsFading.modifyContext _)
  split
  · exact IsFading.modifyContext _
  · exact IsFading.pure _

/-- **Returning from a function**: the caller's state is back, and what the function returns lies on
the caller's stack. -/
theorem outcome_popFrame {m : Machine} {below : Array Slot} {f : Frame} (h : m.context.Grounded)
    (hstack : m.context.stack.extract 0 m.context.fp = below.push (.frame f))
    (hfp : 0 < m.context.fp) (hsound : m.world.scopes.Sound) (hlive : m.HiddenLive) :
    ∃ world loops observer, outcome popFrame m = (.ok (), { m with
        world
        context := { m.context.resumed f with
          stack := below ++ returnedSlots m.context
          result := none
          frameDepth := m.context.frameDepth - 1
          loops
          observer } }) ∧
      world.scopes.outline = (m.world.scopes.dropTables
        (m.world.scopes.between m.context.symbols f.symbols)).outline := by
  have hle := h.fp_le
  have hstack₁ : (m.context.stack.extract 0 m.context.fp).extract 0 m.context.fp
      = below.push (.frame f) := by
    simp only [Array.extract_extract, Nat.zero_add, Nat.min_self]
    exact hstack
  obtain ⟨world, loops, observer, hout, houtline⟩ := outcome_restoreFrame (m := { m with
    context := { m.context with
      stack := m.context.stack.extract 0 m.context.fp, result := none } }) hstack₁ hfp hsound hlive
  refine ⟨world, loops, observer, ?_, houtline⟩
  rw [popFrame, outcome_bind_ok (outcome_context m), if_neg (by omega)]
  dsimp only
  rw [outcome_bind_ok (outcome_modifyContext _ m), outcome_bind_ok hout]
  unfold returnedSlots
  by_cases hempty : m.context.operands.isEmpty = true
  · rw [if_pos hempty, if_pos hempty]
    cases m.context.result with
    | some v =>
      dsimp only
      rw [Array.append_singleton]
      rfl
    | none =>
      dsimp only
      rw [Array.append_empty]
      rfl
  · rw [if_neg hempty, if_neg hempty]
    rfl

theorem popFrame_unwound {m : Machine} (h : m.Framed)
    (hlive : (outcome popFrame m).2.HiddenLive) : m.Unwound (outcome popFrame m).2 := by
  have hground := h.running.grounded
  by_cases hfp : m.context.fp = 0
  · rw [popFrame, outcome_bind_ok (outcome_context m), if_pos (.inl hfp)]
    exact .refl h
  · have hpos : 0 < m.context.fp := Nat.pos_of_ne_zero hfp
    obtain ⟨below, f, hstack, hsize, hdepth, hbelow, hhandlers⟩ := h.running.frame hpos
    obtain ⟨world, loops, observer, hout, -⟩ := outcome_popFrame hground hstack hpos h.sound
      ((IsFading.popFrame m).hiddenLive hlive)
    have hsound := (IsFading.popFrame m).sound h.sound
    rw [hout] at hsound ⊢
    have hle := hbelow.fp_le
    refine ⟨⟨?_, h.waiting, hsound⟩, ?_, ?_, rfl⟩
    · exact hbelow.append (returnedSlots_values hground)
    · show f.fp ≤ m.context.fp
      omega
    · show (below ++ returnedSlots m.context).extract 0 f.fp = m.context.stack.extract 0 f.fp
      have hcut := congrArg (fun xs : Array Slot => xs.extract 0 f.fp) hstack
      simp only [Array.extract_extract, Nat.zero_add] at hcut
      rw [Nat.min_eq_left (by omega), Array.extract_push_of_le hle] at hcut
      rw [hcut, Array.extract_append, Nat.sub_eq_zero_of_le hle]
      simp

/-! ### Faults -/

/-- What is done at a handler once the functions inside it are left. -/
def resumeHandler (handler : Handler) (outer : List Handler) (f : Fault) : Exec Unit := do
  dropScopesTo handler.symbols
  modifyContext fun c => { c with stack := c.stack.extract 0 handler.stackSize }
  endLoopsTo handler.loopDepth
  modifyContext fun c =>
    { c with
      pc := handler.address.getD c.pc
      handlers := { handler with address := none } :: outer }
  observe (.caught f.kind (← context).frameDepth)
  storeHere "_error" (.error f)

theorem catchAt_eq (handler : Handler) (outer : List Handler) (f : Fault) :
    catchAt handler outer f = (do
      unwindTo handler.fp ((← context).stack.size + 1)
      modifyContext fun c => { c with handlers := handler :: outer }
      resumeHandler handler outer f) := rfl

theorem IsFading.resumeHandler (handler : Handler) (outer : List Handler) (f : Fault) :
    IsFading (Exec.resumeHandler handler outer f) :=
  IsFading.bind (dropScopesTo _) fun _ => IsFading.bind (modifyContext _) fun _ =>
    IsFading.bind (IsFading.bind Keeps.context fun _ => endLoops _) fun _ =>
    IsFading.bind (modifyContext _) fun _ => IsFading.bind Keeps.context fun _ =>
    IsFading.bind (observe _) fun _ => IsFading.bind Keeps.context fun _ => storeIn _ _ _

theorem IsFading.catchAt (handler : Handler) (outer : List Handler) (f : Fault) :
    IsFading (Exec.catchAt handler outer f) := by
  rw [catchAt_eq]
  exact IsFading.bind Keeps.context fun _ => IsFading.bind (unwindTo _ _) fun _ =>
    IsFading.bind (modifyContext _) fun _ => resumeHandler handler outer f

/-- Resuming at a handler drops the tables up to the one in which it was armed, and the operands
that came later; then it binds the fault. -/
theorem outcome_resumeHandler_eq (handler : Handler) (outer : List Handler) (f : Fault)
    (m : Machine) :
    ∃ heap journal loops observer, loops.length ≤ handler.loopDepth ∧
      outcome (resumeHandler handler outer f) m
      = outcome (storeIn handler.symbols "_error" (.error f)) { m with
          world := { m.world with
            scopes := m.world.scopes.dropTables
              (m.world.scopes.between m.context.symbols handler.symbols)
            heap
            journal }
          context := m.context.caughtAt handler outer loops observer } := by
  obtain ⟨j₁, h₁⟩ := outcome_dropScopesTo handler.symbols m
  generalize m.world.scopes.dropTables
    (m.world.scopes.between m.context.symbols handler.symbols) = scopes at h₁ ⊢
  obtain ⟨heap, loops, hlength, h₂⟩ := outcome_endLoops
    (m.context.loops.length - handler.loopDepth) { m with
    world := { m.world with scopes, journal := j₁ }
    context := { m.context with
      symbols := handler.symbols
      stack := m.context.stack.extract 0 handler.stackSize } }
  obtain ⟨j₃, observer, h₃⟩ := outcome_observe (.caught f.kind m.context.frameDepth) { m with
    world := { m.world with scopes, heap, journal := j₁ }
    context := m.context.caughtAt handler outer loops m.context.observer }
  have hle : loops.length ≤ handler.loopDepth := by
    rw [hlength]
    show m.context.loops.length - (m.context.loops.length - handler.loopDepth) ≤ _
    omega
  refine ⟨heap, j₃, loops, observer, hle, ?_⟩
  rw [resumeHandler, outcome_bind_ok h₁, outcome_bind_ok (outcome_modifyContext _ _), endLoopsTo,
    bind_assoc, outcome_bind_ok (outcome_context _)]
  refine (outcome_bind_ok h₂).trans ?_
  rw [outcome_bind_ok (outcome_modifyContext _ _), outcome_bind_ok (outcome_context _)]
  exact outcome_bind_ok h₃

/-- **Resuming at a handler**: the tables up to the one in which it was armed are gone, and so are
the operands that came later. -/
theorem outcome_resumeHandler (handler : Handler) (outer : List Handler) (f : Fault)
    (m : Machine) :
    ∃ r world loops observer, outcome (resumeHandler handler outer f) m
        = (r, { m with world, context := m.context.caughtAt handler outer loops observer }) ∧
      world.scopes.outline = (m.world.scopes.dropTables
        (m.world.scopes.between m.context.symbols handler.symbols)).outline := by
  obtain ⟨heap, journal, loops, observer, -, hall⟩ := outcome_resumeHandler_eq handler outer f m
  generalize m.world.scopes.dropTables
    (m.world.scopes.between m.context.symbols handler.symbols) = scopes at hall ⊢
  rw [hall, outcome_storeIn]
  cases hset : scopes.setAlways handler.symbols "_error" (.error f) with
  | ok b =>
    exact ⟨.ok (), { m.world with scopes := b, heap, journal }, loops, observer, rfl,
      Arena.outline_of_setAlways hset⟩
  | error e =>
    exact ⟨.error (.fault e), { m.world with scopes, heap, journal }, loops, observer, rfl, rfl⟩

/-- Leaving functions for a handler leads to the one in which it was armed. -/
theorem unwindTo_handler {handler : Handler} {pre outer : List Handler} {m : Machine}
    (h : m.Framed) (hhandlers : m.context.handlers = pre ++ handler :: outer)
    (hlive : (outcome (unwindTo handler.fp (m.context.stack.size + 1)) m).2.HiddenLive) :
    ∃ m', outcome (unwindTo handler.fp (m.context.stack.size + 1)) m = (.ok (), m') ∧
      m.Unwound m' ∧ m'.context.fp ≤ handler.stackSize ∧
      Stacked m'.context.stack m'.context.fp m'.context.frameDepth (handler :: outer) := by
  have hle := h.running.fp_le
  obtain ⟨m₁, hout₁, hunwound, hfp, hfilter, hkept⟩ := unwindTo_unwound h (by omega) hlive
  have hmem : handler ∈ m.context.handlers := by
    rw [hhandlers]
    exact List.mem_append_right _ List.mem_cons_self
  have hfp₁ : m₁.context.fp = handler.fp := Nat.le_antisymm hfp (hkept handler hmem rfl)
  -- The handler and those around it are still armed where the function of the handler runs.
  have hstacked : Stacked m₁.context.stack m₁.context.fp m₁.context.frameDepth
      (handler :: outer) := by
    have hall : Stacked m.context.stack m.context.fp m.context.frameDepth (handler :: outer) := by
      have := h.running
      unfold Context.Framed at this
      rw [hhandlers] at this
      exact this.drop
    have houter : (handler :: outer).filter (fun x => decide (x.fp ≤ m₁.context.fp))
        = handler :: outer := by
      rw [List.filter_eq_self, hfp₁]
      intro x hx
      rcases List.mem_cons.1 hx with rfl | hx
      · exact decide_eq_true (Nat.le_refl _)
      · exact decide_eq_true (hall.handler_le_head x hx)
    have hframed := hunwound.framed.running
    unfold Context.Framed at hframed
    rw [hfilter, hhandlers, List.filter_append, houter] at hframed
    exact hframed.drop
  exact ⟨m₁, hout₁, hunwound, hstacked.fp_le_stackSize List.mem_cons_self hfp₁.symm, hstacked⟩

theorem catchAt_unwound {handler : Handler} {pre outer : List Handler} {f : Fault} {m : Machine}
    (h : m.Framed) (hhandlers : m.context.handlers = pre ++ handler :: outer)
    (hlive : (outcome (catchAt handler outer f) m).2.HiddenLive) :
    m.Unwound (outcome (catchAt handler outer f) m).2 := by
  have hfading := IsFading.catchAt handler outer f m
  rw [catchAt_eq, outcome_bind_ok (outcome_context m)] at hlive hfading ⊢
  have hlive₁ := hiddenLive_of_bind (fun _ => IsFading.bind (.modifyContext _) fun _ =>
    IsFading.resumeHandler handler outer f) hlive
  obtain ⟨m₁, hout₁, hunwound, hsize, hstacked⟩ := unwindTo_handler h hhandlers hlive₁
  obtain ⟨r, world, loops, observer, hout, -⟩ := outcome_resumeHandler handler outer f
    { m₁ with context := { m₁.context with handlers := handler :: outer } }
  rw [outcome_bind_ok hout₁, outcome_bind_ok (outcome_modifyContext _ m₁), hout] at hfading ⊢
  refine hunwound.trans
    ⟨⟨?_, hunwound.framed.waiting, hfading.sound h.sound⟩, Nat.le_refl _, ?_, rfl⟩
  · exact (hstacked.truncate hsize).replaceHead rfl rfl
  · show (m₁.context.stack.extract 0 handler.stackSize).extract 0 m₁.context.fp
      = m₁.context.stack.extract 0 m₁.context.fp
    simp only [Array.extract_extract, Nat.zero_add, Nat.min_eq_left hsize]

theorem findHandler_eq_some {f : Fault} {handlers outer : List Handler} {handler : Handler}
    (h : findHandler f handlers = some (handler, outer)) :
    ∃ pre, handlers = pre ++ handler :: outer := by
  induction handlers with
  | nil => cases h
  | cons x rest ih =>
    rw [findHandler] at h
    split at h
    · cases h
      exact ⟨[], rfl⟩
    · obtain ⟨pre, hpre⟩ := ih h
      exact ⟨x :: pre, by rw [hpre]; rfl⟩

theorem IsFading.abandon (f : Fault) : IsFading (Exec.abandon f) := by
  have hrest : ∀ c : Context, IsFading (do
      tryCatch (Exec.unwindTo 0 (c.stack.size + 1)) fun _ => Pure.pure ()
      Exec.modifyContext fun c => { c with running := false }
      Exec.fail f : Exec Unit) := fun c =>
    IsFading.bind (Keeps.tryCatch (unwindTo _ _) fun _ => pure _) fun _ =>
      IsFading.bind (modifyContext _) fun _ => Keeps.fail f
  refine IsFading.bind Keeps.context fun c => ?_
  dsimp only
  split
  · exact IsFading.bind (onWorld (fun _ => rfl) fun _ _ => rfl) fun _ => hrest c
  · exact hrest c

theorem abandon_unwound {f : Fault} {m : Machine} (h : m.Framed)
    (hlive : (outcome (abandon f) m).2.HiddenLive) : m.Unwound (outcome (abandon f) m).2 := by
  have hrest : ∀ m₀ : Machine, m₀.Framed → m₀.context = m.context →
      (outcome (do
        tryCatch (unwindTo 0 (m.context.stack.size + 1)) fun _ => pure ()
        modifyContext fun c => { c with running := false }
        fail f : Exec Unit) m₀).2.HiddenLive →
      m₀.Unwound (outcome (do
        tryCatch (unwindTo 0 (m.context.stack.size + 1)) fun _ => pure ()
        modifyContext fun c => { c with running := false }
        fail f : Exec Unit) m₀).2 := by
    intro m₀ h₀ hcontext hlive₀
    have hle := h₀.running.fp_le
    have hlive₁ := hiddenLive_of_bind (fun _ => IsFading.bind (.modifyContext _) fun _ =>
      Keeps.fail f) hlive₀
    have hlive₂ : (outcome (unwindTo 0 (m.context.stack.size + 1)) m₀).2.HiddenLive := by
      rw [outcome_tryCatch] at hlive₁
      rcases hout : outcome (unwindTo 0 (m.context.stack.size + 1)) m₀ with ⟨r | a, m₁⟩
      · rw [hout] at hlive₁
        exact hlive₁
      · rw [hout] at hlive₁
        exact hlive₁
    obtain ⟨m₁, hout, hunwound, -⟩ := unwindTo_unwound h₀ (by rw [hcontext] at hle ⊢; omega) hlive₂
    have htry : outcome (tryCatch (unwindTo 0 (m.context.stack.size + 1)) fun _ => pure ()) m₀
        = (.ok (), m₁) := by
      rw [outcome_tryCatch, hout]
    rw [outcome_bind_ok htry, outcome_bind_ok (outcome_modifyContext _ m₁)]
    exact ⟨⟨hunwound.framed.running, hunwound.framed.waiting, hunwound.framed.sound⟩,
      hunwound.fp_le, hunwound.lower, hunwound.suspended⟩
  rw [abandon, outcome_bind_ok (outcome_context m)] at hlive ⊢
  dsimp only at hlive ⊢
  by_cases htrace : m.context.stackTrace = true
  · rw [if_pos htrace, outcome_bind_ok (outcome_onWorld _ m)] at hlive ⊢
    have hunwound := hrest { m with world := ((World.emit .app
      s!"{f.message}\n{m.context.frameText none}").run m.world).2 }
      ⟨h.running, h.waiting, h.sound⟩ rfl hlive
    exact ⟨hunwound.framed, hunwound.fp_le, hunwound.lower, hunwound.suspended⟩
  · rw [if_neg htrace] at hlive ⊢
    exact hrest m h rfl hlive

theorem IsFading.recover (f : Fault) : IsFading (Exec.recover f) := by
  refine Keeps.ite (Keeps.fail f) (IsFading.bind Keeps.context fun c => ?_)
  dsimp only
  split
  · exact catchAt _ _ _
  · exact abandon _

theorem recover_unwound {f : Fault} {m : Machine} (h : m.Framed)
    (hlive : (outcome (recover f) m).2.HiddenLive) : m.Unwound (outcome (recover f) m).2 := by
  unfold recover at hlive ⊢
  split at hlive
  · rename_i hsignal
    rw [if_pos hsignal]
    exact .refl h
  · rename_i hsignal
    rw [if_neg hsignal, outcome_bind_ok (outcome_context m)] at *
    dsimp only at hlive ⊢
    generalize hcaught : (if (!((f.raisedAt m.context.code.name m.context.line).kind == .panic &&
      m.context.panics)) = true then findHandler (f.raisedAt m.context.code.name m.context.line)
        m.context.handlers else none) = caught at hlive ⊢
    cases caught with
    | none => exact abandon_unwound h hlive
    | some found =>
      obtain ⟨handler, outer⟩ := found
      split at hcaught
      · obtain ⟨pre, hpre⟩ := findHandler_eq_some hcaught
        exact catchAt_unwound h hpre hlive
      · cases hcaught

/-! ### Settling a step -/

theorem outcome_finish (m : Machine) : ∃ journal, outcome finish m = (.ok (), { m with
    world := { m.world with journal }
    context := { m.context with running := false }
    ended := some (.ok ()) }) := ⟨_, rfl⟩

theorem IsFading.settle (f : Fault) : IsFading (Exec.settle f) := by
  refine Keeps.ite (fun m => ?_) (Keeps.tryCatch (recover f) fun halt => ?_)
  · obtain ⟨j, hj⟩ := outcome_finish m
    rw [hj]
    exact .ofScopes rfl fun _ => rfl
  · cases halt with
    | fault g => exact fun m => .ofScopes rfl fun _ => rfl
    | blocked => exact Keeps.wait

/-- **Dealing with a fault only leaves functions.** -/
theorem settle_unwound {f : Fault} {m : Machine} (h : m.Framed)
    (hlive : (outcome (settle f) m).2.HiddenLive) : m.Unwound (outcome (settle f) m).2 := by
  unfold settle at hlive ⊢
  by_cases hstop : f.kind = .stop
  · rw [if_pos hstop]
    obtain ⟨j, hj⟩ := outcome_finish m
    rw [hj]
    exact ⟨⟨h.running, h.waiting, h.sound⟩, Nat.le_refl _, rfl, rfl⟩
  · rw [if_neg hstop, outcome_tryCatch] at hlive ⊢
    rcases hout : outcome (recover f) m with ⟨r | a, m'⟩
    · rw [hout] at hlive
      have hrecover : m.Unwound m' := by
        have hlive' : (outcome (recover f) m).2.HiddenLive := by
          rw [hout]
          cases r with
          | fault g => exact hlive
          | blocked => exact hlive
        have := recover_unwound h hlive'
        rwa [hout] at this
      cases r with
      | fault g =>
        exact ⟨⟨hrecover.framed.running, hrecover.framed.waiting, hrecover.framed.sound⟩,
          hrecover.fp_le, hrecover.lower, hrecover.suspended⟩
      | blocked => exact hrecover
    · rw [hout] at hlive
      have := recover_unwound h (by rw [hout]; exact hlive)
      rwa [hout] at this

end Exec

end ScriptMachine
