import ScriptMachine.Proofs.Frames.Restoring
import ScriptMachine.Proofs.Scopes.Nesting

/-!
# What a step does to the scopes

What a step attempts opens or closes at most one thing: a block, a package definition, the call of a
function or a context of its own.

* `Deed`, `Machine.deed`: what the attempt opened or closed.
* `Machine.Does`: what that does to the scopes.
* `attempt_does`: what a step attempts does what its deed tells; a fault leaves the scopes alone.
-/

namespace ScriptMachine

/-- What the attempt of a step opened or closed. -/
inductive Deed
  | nothing
  | openBlock
  | closeBlock
  /-- A block was closed, and scopes around it were passed over. -/
  | passBlock
  | define
  | undefine
  | enter
  | leave
  | suspend
deriving DecidableEq

namespace Machine

/-- The opcode of the instruction that comes next, unless the context has ended. -/
def opcode? (m : Machine) : Option Opcode :=
  match m.ended with
  | some _ => none
  | none => m.next?.map Instruction.op

/-- What the attempt of the next step opens or closes. -/
def deed (m : Machine) : Deed :=
  match m.attempt with
  | (.error _, _) => .nothing
  | (.ok (), m') =>
    match m.opcode? with
    | some .pushScope => .openBlock
    | some .popScope =>
      if m.ready.world.scopes.parent? m.ready.context.symbols = some m'.context.symbols then
        .closeBlock
      else .passBlock
    | some .pushPackage => .define
    | some .popPackage => .undefine
    | _ =>
      if m.ready.suspended.length < m'.suspended.length then .suspend
      else if m.ready.context.fp < m'.context.fp then .enter
      else if m'.context.fp < m.ready.context.fp then .leave
      else .nothing

/-- The machine has left a function for its caller. -/
structure LeavesScope (m m' : Machine) : Prop where
  frame : ∃ (below : Array Slot) (f : Frame), m.context.lower = below.push (.frame f) ∧
    m'.context.lower = below.extract 0 f.fp ∧ m'.context.symbols = f.symbols ∧
    m'.world.scopes.outline = (m.world.scopes.dropTables
      (m.world.scopes.between m.context.symbols f.symbols)).outline
  fp_lt : m'.context.fp < m.context.fp
  packages_eq : m'.context.packages = m.context.packages
  suspended_eq : m'.suspended = m.suspended

/-- The slots below the frame pointer and the waiting contexts are the same. -/
structure SameFrame (m m' : Machine) : Prop where
  fp_eq : m'.context.fp = m.context.fp
  lower_eq : m'.context.lower = m.context.lower
  suspended_eq : m'.suspended = m.suspended

/-- What a deed does to the scopes. -/
inductive Does (m m' : Machine) : Deed → Prop
  | nothing (same : m.SameScope m') : Does m m' .nothing
  | openBlock (frame : m.SameFrame m') (packages_eq : m'.context.packages = m.context.packages)
      (grows : m.world.scopes.Grows m'.world.scopes m.context.symbols m'.context.symbols
        [m'.context.symbols])
      (plain : m'.world.scopes.packageOf m'.context.symbols = "") : Does m m' .openBlock
  | closeBlock (frame : m.SameFrame m') (packages_eq : m'.context.packages = m.context.packages)
      (parent : m.world.scopes.parent? m.context.symbols = some m'.context.symbols)
      (scopes_eq : m'.world.scopes = m.world.scopes.remove m.context.symbols) :
      Does m m' .closeBlock
  | passBlock (frame : m.SameFrame m') : Does m m' .passBlock
  | define (frame : m.SameFrame m') (r : Ref .package) (scope : PackageScope)
      (packages_eq : m'.context.packages = scope :: m.context.packages)
      (saved_eq : scope.savedSymbols = m.context.symbols)
      (symbols_eq : m'.context.symbols = scope.table)
      (defines : Exec.DefinesPackage m.world m'.world r scope.table) : Does m m' .define
  | undefine (frame : m.SameFrame m') (scope : PackageScope)
      (packages_eq : m.context.packages = scope :: m'.context.packages)
      (symbols_eq : m'.context.symbols = scope.savedSymbols)
      (outline_eq : m'.world.scopes.outline = m.world.scopes.outline) : Does m m' .undefine
  | enter (enters : m.EntersScope m') : Does m m' .enter
  | leave (leaves : m.LeavesScope m') : Does m m' .leave
  | suspend (suspends : m.SuspendsScope m') : Does m m' .suspend

/-- Everything but blocks and definitions stays in the scope, or enters or leaves a function, or
sets another context going. -/
def Moves (m : Machine) (out : Except Halt Unit × Machine) : Prop :=
  m.SameScope out.2 ∨ out.1 = .ok () ∧
    (m.EntersScope out.2 ∨ m.LeavesScope out.2 ∨ m.SuspendsScope out.2)

theorem SameScope.toFrame {m m' : Machine} (h : m.SameScope m') (hm : m.context.Grounded) :
    m.SameFrame m' := ⟨h.fp_eq hm, h.lower_eq, h.suspended_eq⟩

theorem LeavesScope.after {m₁ m₂ m₃ : Machine} (h₁₂ : m₁.SameScope m₂)
    (hm : m₁.context.Grounded) (h₂₃ : m₂.LeavesScope m₃) : m₁.LeavesScope m₃ := by
  obtain ⟨below, f, hlower, hlower', hsymbols, houtline⟩ := h₂₃.frame
  refine ⟨⟨below, f, h₁₂.lower_eq.symm.trans hlower, hlower', hsymbols, houtline.trans ?_⟩, ?_,
    h₂₃.packages_eq.trans h₁₂.packages_eq, h₂₃.suspended_eq.trans h₁₂.suspended_eq⟩
  · rw [h₁₂.symbols_eq, Arena.between_congr h₁₂.outline_eq]
    exact Arena.dropTables_congr h₁₂.outline_eq _
  · rw [← h₁₂.fp_eq hm]
    exact h₂₃.fp_lt

theorem Moves.after {m₁ m₂ : Machine} {out : Except Halt Unit × Machine}
    (h₁₂ : m₁.SameScope m₂) (hm : m₁.context.Grounded) (h : m₂.Moves out) : m₁.Moves out := by
  obtain hsame | ⟨hok, henters | hleaves | hsuspends⟩ := h
  · exact .inl (h₁₂.trans hsame)
  · exact .inr ⟨hok, .inl (.after h₁₂ hm henters)⟩
  · exact .inr ⟨hok, .inr (.inl (.after h₁₂ hm hleaves))⟩
  · exact .inr ⟨hok, .inr (.inr (.after h₁₂ hsuspends))⟩

/-- Only calls raise the frame pointer. -/
theorem Does.enters {m m' : Machine} {deed : Deed} (h : m.Does m' deed)
    (hm : m.context.Grounded) (hfp : m.context.fp < m'.context.fp) : m.EntersScope m' := by
  have hflat : m.SameFrame m' → False := fun hframe => by
    have := hframe.fp_eq
    omega
  cases h with
  | nothing same => exact (hflat (same.toFrame hm)).elim
  | openBlock frame _ _ _ => exact (hflat frame).elim
  | closeBlock frame _ _ _ => exact (hflat frame).elim
  | passBlock frame => exact (hflat frame).elim
  | define frame _ _ _ _ _ _ => exact (hflat frame).elim
  | undefine frame _ _ _ _ => exact (hflat frame).elim
  | enter enters => exact enters
  | leave leaves => exact absurd leaves.fp_lt (by omega)
  | suspend suspends => exact absurd suspends.fresh.fp_eq (by omega)

/-- Only returns lower it, where no other context is set going. -/
theorem Does.leaves {m m' : Machine} {deed : Deed} (h : m.Does m' deed)
    (hm : m.context.Grounded) (hfp : (m'.contextAt m.suspended.length).fp < m.context.fp) :
    m.LeavesScope m' := by
  have hlevel : m'.suspended = m.suspended → m'.context.fp < m.context.fp := fun hsame => by
    rwa [contextAt_of_level (Nat.le_of_eq (congrArg List.length hsame))] at hfp
  have hflat : m.SameFrame m' → False := fun hframe => by
    have hlt := hlevel hframe.suspended_eq
    have := hframe.fp_eq
    omega
  cases h with
  | nothing same => exact (hflat (same.toFrame hm)).elim
  | openBlock frame _ _ _ => exact (hflat frame).elim
  | closeBlock frame _ _ _ => exact (hflat frame).elim
  | passBlock frame => exact (hflat frame).elim
  | define frame _ _ _ _ _ _ => exact (hflat frame).elim
  | undefine frame _ _ _ _ => exact (hflat frame).elim
  | enter enters =>
    have hlt := hlevel enters.suspended_eq
    have := enters.fp_lt hm
    omega
  | leave leaves => exact leaves
  | suspend suspends =>
    obtain ⟨s, hsuspended, -, -, hlower⟩ := suspends.waits
    rw [contextAt_of_cons hsuspended] at hfp
    have hsize := congrArg Array.size hlower
    rw [Context.size_lower hm.fp_le, Context.lower, Array.size_extract] at hsize
    omega

theorem moves_of_call {act : Exec Unit} (h : Exec.IsCallOfScope act) {m : Machine}
    (hm : m.context.Grounded) (hsound : m.world.scopes.Sound) : m.Moves (Exec.outcome act m) := by
  obtain hsame | ⟨⟨a, hok⟩, henters | hsuspends⟩ := h m hm hsound
  · exact .inl hsame
  · exact .inr ⟨hok, .inl henters⟩
  · exact .inr ⟨hok, .inr (.inr hsuspends)⟩

end Machine

namespace Exec

open Machine

/-! ### Leaving functions -/

/-- A function that a fault ended is left for its caller. -/
theorem unwindFrame_leaves {m : Machine} (h : m.Framed) (hfp : 0 < m.context.fp)
    (hlive : m.HiddenLive) : ∃ m', outcome unwindFrame m = (.ok (), m') ∧ m.LeavesScope m' ∧
      m'.context.frameDepth + 1 = m.context.frameDepth := by
  obtain ⟨below, f, hstack, hsize, hdepth, hbelow, hhandlers⟩ := h.running.frame hfp
  obtain ⟨world, loops, observer, hout, houtline⟩ := outcome_restoreFrame
    (m := { m with context := { m.context with result := none } }) hstack hfp h.sound hlive
  have hle := hbelow.fp_le
  rw [unwindFrame, outcome_bind_ok (outcome_modifyContext _ m)]
  refine ⟨_, hout, ⟨⟨below, f, hstack, rfl, rfl, houtline⟩, ?_, rfl, rfl⟩, ?_⟩
  · show f.fp < m.context.fp
    omega
  · show m.context.frameDepth - 1 + 1 = m.context.frameDepth
    omega

/-- So is one that returns. -/
theorem popFrame_leaves {m : Machine} (h : m.Framed) (hfp : 0 < m.context.fp)
    (hlive : m.HiddenLive) : (outcome popFrame m).1 = .ok () ∧
      m.LeavesScope (outcome popFrame m).2 := by
  obtain ⟨below, f, hstack, hsize, hdepth, hbelow, hhandlers⟩ := h.running.frame hfp
  obtain ⟨world, loops, observer, hout, houtline⟩ :=
    outcome_popFrame h.running.grounded hstack hfp h.sound hlive
  have hle := hbelow.fp_le
  rw [hout]
  refine ⟨rfl, ⟨below, f, hstack, ?_, rfl, houtline⟩, ?_, rfl, rfl⟩
  · show (below ++ returnedSlots m.context).extract 0 f.fp = below.extract 0 f.fp
    rw [Array.extract_append, Nat.sub_eq_zero_of_le hle]
    simp
  · show f.fp < m.context.fp
    omega

theorem continueReturn_moves {m : Machine} (h : m.Framed) (hlive : m.HiddenLive) :
    m.Moves (outcome continueReturn m) := by
  rw [continueReturn, outcome_bind_ok (outcome_context m)]
  cases hdeferred : m.context.deferred with
  | nil =>
    dsimp only
    by_cases hfp : 0 < m.context.fp
    · rw [if_pos hfp]
      obtain ⟨hok, hleaves⟩ := popFrame_leaves h hfp hlive
      exact .inr ⟨hok, .inr (.inl hleaves)⟩
    · rw [if_neg hfp]
      exact .inl ⟨⟨h.running.grounded.fp_le, h.running.grounded.values⟩, rfl, rfl, rfl, rfl, rfl⟩
  | cons d rest =>
    obtain ⟨j, hj⟩ := outcome_noteThread .trace (fun _ => "run deferred call")
      { m with context := { m.context with deferred := rest } }
    have hfresh := World.callContext_fresh m.context.symbols m.context.settings d.callable d.args
      { m.world with journal := j }
    dsimp only
    rw [outcome_bind_ok (outcome_modifyContext _ m), outcome_bind_ok hj,
      outcome_bind_ok (outcome_onWorld _ _), outcome_bind_ok (outcome_modifyContext _ _)]
    obtain ⟨⟨a, hok⟩, hsuspends⟩ := IsCallOfScope.enterScratch .deferred
      (c := { ((World.callContext m.context.symbols m.context.settings d.callable
        d.args).run { m.world with journal := j }).1 with output := m.context.output })
      (m := { m with
        world := ((World.callContext m.context.symbols m.context.settings d.callable d.args).run
          { m.world with journal := j }).2
        context := { m.context with deferred := rest, output := .discarded } })
      ⟨hfresh.values, hfresh.fp_eq, hfresh.frameDepth_eq, hfresh.handlers_eq⟩ ⟨_, rfl⟩ rfl rfl
    exact .inr ⟨hok, .inr (.inr ⟨hsuspends.calls, hsuspends.symbols_eq, hsuspends.outline_eq,
      hsuspends.packages_eq, hsuspends.fresh, hsuspends.waits⟩)⟩

theorem return_moves (operand : Value) {m : Machine} (h : m.Framed) (hlive : m.HiddenLive) :
    m.Moves (outcome (return_ operand) m) := by
  unfold return_
  dsimp only
  split
  · have hsame := IsLocal.popValue.isScoped m h.running.grounded
    rcases hout : outcome popValue m with ⟨e | v, m'⟩
    · rw [hout] at hsame
      rw [outcome_bind_error hout]
      exact .inl hsame
    · obtain ⟨hback, hm'⟩ := outcome_popValue hout
      have hclimbs : m.Climbs False (outcome popValue m).2 :=
        IsLocal.popValue.isSteady.climbs h (h.sound.congr hsame.outline_eq)
      rw [hout] at hsame hclimbs
      rw [outcome_bind_ok hout, outcome_bind_ok (outcome_modifyContext _ m')]
      have hmoves := continueReturn_moves
        (m := { m' with context := { m'.context with result := some v } })
        ⟨hclimbs.framed.running, hclimbs.framed.waiting, hclimbs.framed.sound⟩ (by
          rw [hm']
          exact hlive)
      refine .after ?_ h.running.grounded hmoves
      exact ⟨⟨hsame.grounded.fp_le, hsame.grounded.values⟩, hsame.lower_eq, hsame.symbols_eq,
        hsame.outline_eq, hsame.packages_eq, hsame.suspended_eq⟩
  · exact continueReturn_moves h hlive

theorem afterScratch_moves (awaiting : Awaiting) (scratch : Context) (result : Except Fault Unit)
    {m : Machine} (h : m.Framed) (hlive : m.HiddenLive) :
    m.Moves (outcome (afterScratch awaiting scratch result) m) := by
  have hground := h.running.grounded
  cases awaiting with
  | deferred =>
    have hsame : m.SameScope { m with context := { m.context with output := scratch.output } } :=
      ⟨⟨hground.fp_le, hground.values⟩, rfl, rfl, rfl, rfl, rfl⟩
    unfold afterScratch
    dsimp only
    rw [outcome_bind_ok (outcome_modifyContext _ m)]
    cases result with
    | error f => exact .inl hsame
    | ok => exact .after hsame hground (continueReturn_moves ⟨h.running, h.waiting, h.sound⟩ hlive)
  | ordering r less size i j =>
    unfold afterScratch
    dsimp only
    cases result with
    | error f => exact .inl ((IsCall.settleLibraryFault .sortSlice f).isScoped m hground)
    | ok =>
      exact moves_of_call (.afterScoped IsLocal.heap.isScoped fun _ =>
        .sortAfter r less size i j _) hground h.sound

/-- **What an instruction does to the scopes**, unless it concerns blocks or definitions. -/
theorem execute_moves {i : Instruction} (hblock : i.op ≠ .pushScope ∧ i.op ≠ .popScope)
    (hdefinition : i.op ≠ .pushPackage ∧ i.op ≠ .popPackage) {m : Machine} (h : m.Framed)
    (hlive : m.HiddenLive) : m.Moves (outcome (execute i) m) := by
  by_cases hscoped : i.op.isScoped = true
  · exact .inl (execute_isScoped hscoped m h.running.grounded)
  · obtain ⟨op, operand⟩ := i
    cases op with
    | call => exact moves_of_call (.call operand) h.running.grounded h.sound
    | localCall => exact moves_of_call (.localCall operand) h.running.grounded h.sound
    | entryPoint => exact moves_of_call (.entryPoint operand) h.running.grounded h.sound
    | «return» => exact return_moves operand h hlive
    | pushScope => exact absurd rfl hblock.1
    | popScope => exact absurd rfl hblock.2
    | pushPackage => exact absurd rfl hdefinition.1
    | popPackage => exact absurd rfl hdefinition.2
    | _ => exact absurd rfl hscoped

end Exec

namespace Machine

variable {m : Machine}

/-- What is recorded when an instruction begins does not concern the scopes. -/
theorem begun_sameScope (h : m.Framed) : m.ready.SameScope m.begun ∧ m.begun.Framed ∧
    (m.HiddenLive → m.begun.HiddenLive) := by
  have hready := h.ready
  unfold begun ready at *
  cases hended : m.ended with
  | some result =>
    rw [hended] at hready
    cases hsuspended : m.suspended with
    | nil => exact ⟨.refl h.running.grounded, h, id⟩
    | cons s rest =>
      rw [hsuspended] at hready
      exact ⟨.refl hready.running.grounded, hready, id⟩
  | none =>
    cases hnext : m.next? with
    | none => exact ⟨.refl h.running.grounded, h, id⟩
    | some i =>
      obtain ⟨j, running, observer, hbegin⟩ := Exec.outcome_begin i m
      dsimp only
      rw [hbegin]
      have hground := h.running.grounded
      exact ⟨⟨⟨hground.fp_le, hground.values⟩, rfl, rfl, rfl, rfl, rfl⟩,
        ⟨h.running, h.waiting, h.sound⟩, id⟩

theorem attempt_of_opcode {op : Opcode} (h : m.opcode? = some op) :
    m.ready = m ∧ ∃ operand journal running observer,
      m.attempt = Exec.outcome (Exec.execute ⟨op, operand⟩) { m with
        world := { m.world with journal }
        context := { m.context with pc := m.context.pc + 1, running, observer } } := by
  have hended : m.ended = none := by
    rw [opcode?] at h
    cases hended : m.ended with
    | none => rfl
    | some result =>
      rw [hended] at h
      cases h
  rw [opcode?, hended] at h
  obtain ⟨⟨op', operand⟩, hnext, rfl⟩ := Option.map_eq_some_iff.1 h
  obtain ⟨j, running, observer, hattempt⟩ := attempt_of_next hended hnext
  exact ⟨by rw [ready, hended], operand, j, running, observer, hattempt⟩

/-- What a step attempts moves, unless it concerns blocks or definitions. -/
theorem attempt_moves (h : m.Framed) (hlive : m.HiddenLive)
    (hblock : m.opcode? ≠ some .pushScope ∧ m.opcode? ≠ some .popScope)
    (hdefinition : m.opcode? ≠ some .pushPackage ∧ m.opcode? ≠ some .popPackage) :
    m.ready.Moves m.attempt := by
  obtain ⟨hsame, hbegun, hhidden⟩ := begun_sameScope h
  rw [attempt_eq]
  refine .after hsame h.ready.running.grounded ?_
  unfold opcode? at hblock hdefinition
  unfold body
  cases hended : m.ended with
  | some result =>
    cases hsuspended : m.suspended with
    | nil => exact .inl (.refl hbegun.running.grounded)
    | cons s rest => exact Exec.afterScratch_moves _ _ _ hbegun (hhidden hlive)
  | none =>
    rw [hended] at hblock hdefinition
    dsimp only at hblock hdefinition ⊢
    cases hnext : m.next? with
    | none =>
      obtain ⟨j, hj⟩ := Exec.outcome_finish m.begun
      dsimp only
      rw [hj]
      have hground := hbegun.running.grounded
      exact .inl ⟨⟨hground.fp_le, hground.values⟩, rfl, rfl, rfl, rfl, rfl⟩
    | some i =>
      rw [hnext] at hblock hdefinition
      exact Exec.execute_moves ⟨fun hop => hblock.1 (congrArg some hop),
        fun hop => hblock.2 (congrArg some hop)⟩ ⟨fun hop => hdefinition.1 (congrArg some hop),
        fun hop => hdefinition.2 (congrArg some hop)⟩ hbegun (hhidden hlive)

/-- An attempt that fails opens and closes nothing. -/
theorem deed_of_error {e : Halt} {m' : Machine} (hattempt : m.attempt = (.error e, m')) :
    m.deed = .nothing := by
  rw [deed, hattempt]

/-- An instruction that fails where it began has left the scopes alone. -/
theorem does_of_error {journal : Journal} {running : Bool} {observer : Observer} {e : Halt}
    (h : m.Framed) (hready : m.ready = m)
    (hattempt : m.attempt = (.error e, { m with
      world := { m.world with journal }
      context := { m.context with pc := m.context.pc + 1, running, observer } })) :
    m.ready.Does m.attempt.2 m.deed := by
  have hground := h.running.grounded
  rw [deed_of_error hattempt, hattempt, hready]
  exact .nothing ⟨⟨hground.fp_le, hground.values⟩, rfl, rfl, rfl, rfl, rfl⟩

theorem pushScope_does (h : m.Framed) (hop : m.opcode? = some .pushScope) :
    m.ready.Does m.attempt.2 m.deed := by
  obtain ⟨hready, operand, j, running, observer, hattempt⟩ := attempt_of_opcode hop
  obtain ⟨j', hout⟩ := Exec.outcome_pushScope { m with
    world := { m.world with journal := j }
    context := { m.context with pc := m.context.pc + 1, running, observer } }
  obtain ⟨id, b, hmade, hgrows, hplain⟩ :=
    Arena.newChild_grows h.sound "block" m.context.symbols false
  replace hattempt := hattempt.trans hout
  have hdeed : m.deed = .openBlock := by
    rw [deed, hattempt, hop]
  rw [hdeed, hattempt, hready]
  simp only [hmade]
  exact .openBlock ⟨rfl, rfl, rfl⟩ rfl hgrows hplain

/-- The block's scope is closed, and the one around it is current again or was passed over. -/
theorem popScope_does (h : m.Framed) (hop : m.opcode? = some .popScope) :
    m.ready.Does m.attempt.2 m.deed := by
  obtain ⟨hready, operand, j, running, observer, hattempt⟩ := attempt_of_opcode hop
  rcases Exec.outcome_popScope { m with
    world := { m.world with journal := j }
    context := { m.context with pc := m.context.pc + 1, running, observer } } with
    ⟨-, f, hout⟩ | ⟨parent, j', hparent, hout⟩
  · exact does_of_error h hready (hattempt.trans hout)
  · replace hattempt := hattempt.trans hout
    by_cases hback : m.ready.world.scopes.parent? m.ready.context.symbols
        = some m.attempt.2.context.symbols
    · have hdeed : m.deed = .closeBlock := by
        rw [hattempt] at hback
        rw [deed, hattempt, hop]
        exact if_pos hback
      rw [hdeed]
      rw [hattempt, hready] at hback ⊢
      exact .closeBlock ⟨rfl, rfl, rfl⟩ rfl hback rfl
    · have hdeed : m.deed = .passBlock := by
        rw [hattempt] at hback
        rw [deed, hattempt, hop]
        exact if_neg hback
      rw [hdeed, hattempt, hready]
      exact .passBlock ⟨rfl, rfl, rfl⟩

theorem pushPackage_does (h : m.Framed) (hop : m.opcode? = some .pushPackage) :
    m.ready.Does m.attempt.2 m.deed := by
  obtain ⟨hready, operand, j, running, observer, hattempt⟩ := attempt_of_opcode hop
  rcases Exec.outcome_pushPackage operand (m := { m with
    world := { m.world with journal := j }
    context := { m.context with pc := m.context.pc + 1, running, observer } }) h.sound with
    ⟨f, hout⟩ | ⟨name, r, table, world, hout, hdefines⟩
  · exact does_of_error h hready (hattempt.trans hout)
  · replace hattempt := hattempt.trans hout
    have hdeed : m.deed = .define := by
      rw [deed, hattempt, hop]
    rw [hdeed, hattempt, hready]
    exact .define ⟨rfl, rfl, rfl⟩ r _ rfl rfl rfl
      ⟨hdefines.sound, hdefines.live, hdefines.others, hdefines.table_eq, hdefines.hidden⟩

theorem popPackage_does (h : m.Framed) (hop : m.opcode? = some .popPackage) :
    m.ready.Does m.attempt.2 m.deed := by
  obtain ⟨hready, operand, j, running, observer, hattempt⟩ := attempt_of_opcode hop
  rcases Exec.outcome_popPackage (m := { m with
    world := { m.world with journal := j }
    context := { m.context with pc := m.context.pc + 1, running, observer } }) h.sound with
    ⟨-, f, hout⟩ | ⟨scope, rest, world, hpackages, houtline, -, hout⟩
  · exact does_of_error h hready (hattempt.trans hout)
  · replace hattempt := hattempt.trans hout
    have hdeed : m.deed = .undefine := by
      rw [deed, hattempt, hop]
    rw [hdeed, hattempt, hready]
    exact .undefine ⟨rfl, rfl, rfl⟩ scope hpackages rfl houtline

/-- Everything but blocks and definitions is told apart by the waiting contexts and the frame
pointer. -/
theorem does_of_moves (h : m.Framed) (hmoves : m.ready.Moves m.attempt)
    (hblock : m.opcode? ≠ some .pushScope ∧ m.opcode? ≠ some .popScope)
    (hdefinition : m.opcode? ≠ some .pushPackage ∧ m.opcode? ≠ some .popPackage) :
    m.ready.Does m.attempt.2 m.deed := by
  have hground := h.ready.running.grounded
  have hdeed : ∀ m', m.attempt = (.ok (), m') → m.deed
      = if m.ready.suspended.length < m'.suspended.length then .suspend
        else if m.ready.context.fp < m'.context.fp then .enter
        else if m'.context.fp < m.ready.context.fp then .leave
        else .nothing := by
    obtain ⟨hpush, hpop⟩ := hblock
    obtain ⟨hdefine, hundefine⟩ := hdefinition
    intro m' hattempt
    rw [deed, hattempt]
    dsimp only
    split
    all_goals first | contradiction | rfl
  rcases hattempt : m.attempt with ⟨e | u, m'⟩
  · rw [hattempt] at hmoves
    rw [deed_of_error hattempt]
    obtain hsame | ⟨hok, -⟩ := hmoves
    · exact .nothing hsame
    · cases hok
  · rw [hattempt] at hmoves
    rw [hdeed m' hattempt]
    obtain hsame | ⟨-, henters | hleaves | hsuspends⟩ := hmoves
    · have hfp : m'.context.fp = m.ready.context.fp := hsame.fp_eq hground
      rw [if_neg (by rw [hsame.suspended_eq]; exact Nat.lt_irrefl _), if_neg (by omega),
        if_neg (by omega)]
      exact .nothing hsame
    · have hfp := henters.fp_lt hground
      rw [if_neg (by rw [henters.suspended_eq]; exact Nat.lt_irrefl _), if_pos hfp]
      exact .enter henters
    · have hfp : m'.context.fp < m.ready.context.fp := hleaves.fp_lt
      rw [if_neg (by rw [hleaves.suspended_eq]; exact Nat.lt_irrefl _), if_neg (by omega),
        if_pos hfp]
      exact .leave hleaves
    · obtain ⟨s, hsuspended, -⟩ := hsuspends.waits
      rw [if_pos (by rw [hsuspended]; exact Nat.lt_succ_self _)]
      exact .suspend hsuspends

/-- **What a step attempts does what its deed tells**; if it fails, the scopes are the same. -/
theorem attempt_does (h : m.Framed) (hlive : m.HiddenLive) :
    m.ready.Does m.attempt.2 m.deed ∧ ((∃ e, m.attempt.1 = .error e) → m.deed = .nothing) := by
  refine ⟨?_, fun ⟨e, he⟩ => deed_of_error (Prod.ext he rfl)⟩
  by_cases hpush : m.opcode? = some .pushScope
  · exact pushScope_does h hpush
  by_cases hpop : m.opcode? = some .popScope
  · exact popScope_does h hpop
  by_cases hdefine : m.opcode? = some .pushPackage
  · exact pushPackage_does h hdefine
  by_cases hundefine : m.opcode? = some .popPackage
  · exact popPackage_does h hundefine
  exact does_of_moves h (attempt_moves h hlive ⟨hpush, hpop⟩ ⟨hdefine, hundefine⟩) ⟨hpush, hpop⟩
    ⟨hdefine, hundefine⟩

end Machine

end ScriptMachine
