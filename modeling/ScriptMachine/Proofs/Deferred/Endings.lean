import ScriptMachine.Proofs.Deferred.Doings
import ScriptMachine.Proofs.Faults.Catching

/-!
# How callees end

A return takes the frame of the function off and puts values back. Where a fault is caught, the
functions inside are left one after the other, until the one runs that has the handler; then the
operands above those that the handler keeps are cut off.

* `Machine.Leaves.quits`: what a step does that returns from a function.
* `Machine.QuitsTo`: functions are left one after the other; `quitsTo_of_unwindTo`.
* `Machine.caught_of_selects`: what a step does by which a fault is caught.
-/

namespace ScriptMachine

namespace Machine

variable {m m' m₁ : Machine} {k fp : Nat}

/-! ### Returns -/

/-- **A step that returns from a function** takes its frame off, and leaves the receivers to that:
no deferred call is set going any more. -/
theorem Leaves.quits (h : m.Leaves k fp m') (hm : m.Layered) (hfp : fp ≤ m.ready.context.fp) :
    ∃ m₁ q f, m.regained.Tidies m₁ ∧ m₁.Layered ∧ Quits q f m₁ m' ∧ m'.suspended.length = k ∧
      m'.context.fp < fp := by
  obtain ⟨hreturns, hlevel, hattempt, hleft⟩ := h
  obtain ⟨m₁, hm₁⟩ := returning_of_returns hreturns hattempt
  obtain ⟨htidies, hreturn⟩ := tidies_of_returning hm₁
  have hlayered := htidies.toWorks.layered (regained_layered hm)
  have hfp₁ : m₁.context.fp = m.ready.context.fp := htidies.fp_eq.trans m.regained_fp
  have hlength : m₁.suspended.length = k := by
    rw [htidies.suspended_eq, m.regained_suspended, hlevel]
  rw [hattempt] at hreturn
  cases hdeferred : m₁.context.deferred with
  | cons d rest =>
    -- The function has not been left yet.
    obtain ⟨m₂, hout, hgoing, -⟩ := Exec.continueReturn_cons hdeferred
    rw [← hreturn] at hout
    cases hout
    have hcontext := contextAt_of_cons hgoing.suspended_eq
    rw [hlength] at hcontext
    rw [hcontext] at hleft
    have hstill : m₁.context.fp < fp := hleft
    omega
  | nil =>
    rw [Exec.continueReturn_nil hdeferred] at hreturn
    split at hreturn
    · obtain ⟨q, f, hquits⟩ := Exec.quits_of_popFrame hlayered.running hreturn.symm
      have hlength' : m'.suspended.length = k := by
        rw [hquits.suspended_eq, hlength]
      rw [contextAt_of_level (Nat.le_of_eq hlength')] at hleft
      exact ⟨m₁, q, f, htidies, hlayered, hquits, hlength', hleft⟩
    · exact absurd (Nat.lt_of_le_of_lt (Nat.zero_le _) hleft) (by omega)

/-! ### Faults -/

/-- Functions are left, one after the other, until the frame pointer has gone down, or no frame is
left. -/
inductive QuitsTo (fp : Nat) : Machine → Machine → Prop
  | stops {m : Machine} (hstops : m.context.fp ≤ fp ∨ ∀ j, m.context.frameAt j = none) :
      QuitsTo fp m m
  | leaves {m m₁ m' : Machine} {q : Nat} {f : Frame} (hlt : fp < m.context.fp)
      (hquits : Quits q f m m₁) (hrest : QuitsTo fp m₁ m') : QuitsTo fp m m'

theorem QuitsTo.suspended_eq (h : QuitsTo fp m m') : m'.suspended = m.suspended := by
  induction h with
  | stops => rfl
  | leaves _ hquits _ ih => exact ih.trans hquits.suspended_eq

/-- It is not looked at, when a function is left, what the last one has returned. -/
theorem Quits.of_cleared {q : Nat} {f : Frame}
    (h : Quits q f { m with context := { m.context with result := none } } m') : Quits q f m m' where
  suspended_eq := h.suspended_eq
  q_lt := h.q_lt
  frame := h.frame
  top := h.top
  fp_eq := h.fp_eq
  deferred_eq := h.deferred_eq
  stepping_eq := h.stepping_eq
  receivers_eq := h.receivers_eq
  fewer := h.fewer
  below := h.below
  output := h.output

end Machine

namespace Exec

open Machine

variable {m m' : Machine}

/-- **Functions are left one after the other**, if all goes well. -/
theorem quitsTo_of_unwindTo {fp fuel : Nat} {u : Unit}
    (hfuel : ∀ j f, m.context.frameAt j = some f → j < fuel)
    (hout : outcome (unwindTo fp fuel) m = (.ok u, m')) : QuitsTo fp m m' := by
  induction fuel generalizing m with
  | zero =>
    cases hout
    refine .stops (.inr fun j => Option.eq_none_iff_forall_ne_some.2 fun f hf => ?_)
    exact Nat.not_lt_zero j (hfuel j f hf)
  | succ fuel ih =>
    rw [unwindTo, outcome_bind_ok (outcome_context m)] at hout
    by_cases hlt : fp < m.context.fp
    · rw [if_pos hlt] at hout
      obtain ⟨_, m₁, hunwind, hrest⟩ := outcome_bind_eq_ok.1 hout
      rw [unwindFrame, outcome_bind_ok (outcome_modifyContext _ m)] at hunwind
      obtain ⟨q, f, hcleared⟩ := quits_of_restoreFrame hunwind
      have hquits := hcleared.of_cleared
      refine .leaves hlt hquits (ih (fun j g hg => ?_) hrest)
      have hj := (hquits.fewer j g hg).1
      have hq := hfuel q f hquits.frame
      omega
    · rw [if_neg hlt] at hout
      cases hout
      exact .stops (.inl (Nat.le_of_not_lt hlt))

/-- Where a fault is caught, the functions inside have been left, and the context goes on at the
handler. -/
theorem context_of_catchAt {handler : Handler} {outer : List Handler} {f : Fault} {u : Unit}
    (hout : outcome (catchAt handler outer f) m = (.ok u, m')) : ∃ last loops observer,
      QuitsTo handler.fp m last ∧ m'.suspended = last.suspended ∧
      m'.context = last.context.caughtAt handler outer loops observer := by
  rw [catchAt_eq, outcome_bind_ok (outcome_context m)] at hout
  obtain ⟨_, last, hunwind, hrest⟩ := outcome_bind_eq_ok.1 hout
  rw [outcome_bind_ok (outcome_modifyContext _ last)] at hrest
  obtain ⟨heap, journal, loops, observer, -, hresume⟩ := outcome_resumeHandler_eq handler outer f
    { last with context := { last.context with handlers := handler :: outer } }
  rw [hresume, outcome_storeIn] at hrest
  have hgone := quitsTo_of_unwindTo
    (fun j g hg => Nat.lt_succ_of_lt (Context.lt_size_of_frame hg)) hunwind
  refine ⟨last, loops, observer, hgone, ?_⟩
  split at hrest
  · cases hrest
    exact ⟨rfl, rfl⟩
  · cases hrest

end Exec

/-- At a handler, the frames are those below the operands that the handler keeps. -/
theorem Context.frameAt_caughtAt {c : Context} {handler : Handler} {outer : List Handler}
    {loops : List Loop} {observer : Observer} (j : Nat) :
    (c.caughtAt handler outer loops observer).frameAt j
      = if j < handler.stackSize then c.frameAt j else none := by
  rw [frameAt, show (c.caughtAt handler outer loops observer).stack
    = c.stack.extract 0 handler.stackSize from rfl, Array.getElem?_extract]
  by_cases hlt : j < handler.stackSize
  · rw [if_pos hlt]
    split
    · rw [Nat.zero_add]
      rfl
    · rw [frameAt, Array.getElem?_eq_none (by omega)]
  · rw [if_neg hlt, if_neg (by omega)]
    rfl

namespace Machine

variable {m m₁ : Machine}

/-- **A step by which a fault is caught** leaves the functions inside, and goes on at the handler
that the fault goes to. -/
theorem caught_of_selects {f : Fault} {handler : Handler} {outer : List Handler}
    (hfault : m.attempt = (.error (.fault f), m₁)) (hselects : m₁.context.Selects f handler outer)
    (hgoing : m.step.1.ended = none) : ∃ last loops observer,
      QuitsTo handler.fp m₁ last ∧ m.step.1.suspended = last.suspended ∧
      m.step.1.context = last.context.caughtAt handler outer loops observer := by
  have hstop : f.kind ≠ .stop := fun hkind => by
    have hsignal := hselects.noSignal
    rw [Fault.isSignal, hkind] at hsignal
    cases hsignal
  rcases m.step_settles with hok | ⟨g, m₂, hfault', hsettle⟩ | ⟨hblocked, -⟩
  · rw [hfault] at hok
    cases hok
  · rw [hfault] at hfault'
    cases hfault'
    rw [Exec.outcome_settle hstop, Exec.outcome_recover,
      if_neg (by rw [hselects.noSignal]; exact Bool.false_ne_true),
      Context.selects_iff.1 hselects] at hsettle
    dsimp only at hsettle
    split at hsettle
    · rename_i m₃ hcatch
      cases hsettle
      exact Exec.context_of_catchAt hcatch
    · have hended := congrArg (fun r => r.2.ended) hsettle
      rw [hgoing] at hended
      cases hended
    · cases hsettle
  · rw [hfault] at hblocked
    cases hblocked

end Machine

end ScriptMachine
