import ScriptMachine.Proofs.Deferred.Leaving
import ScriptMachine.Proofs.Deferred.Promptness

/-!
# Steps and deferred calls

A `Defer` registers a call with the running function. A return sets the call going that was
registered last, in a context of its own that writes to the output of the function; when that call
has ended, the output is back, and the return goes on, or fails with the call.

* `Machine.registered?`, `Machine.returning?`, `Machine.launched?`: what the next step does with
  deferred calls.
* `Machine.SetsGoing`: a deferred call has been set going; `continueReturn_cons`.
* `undertakes`, `step_treats`: every step registers a call, or sets one going, or lets functions be
  entered and left.
-/

namespace ScriptMachine

/-- The call that lies on a stack: a callable, and its arguments above it. -/
def callOn (stack : Array Slot) : Option DeferredCall :=
  match Exec.slotValues stack with
  | callable :: args => some ⟨callable, args⟩
  | [] => none

/-- The slots of a call. -/
def DeferredCall.slots (d : DeferredCall) : Array Slot :=
  ((d.callable :: d.args).map Slot.value).toArray

theorem callOn_slots (d : DeferredCall) : callOn d.slots = some d := by
  have hvalues : Exec.slotValues d.slots = d.callable :: d.args := by
    rw [Exec.slotValues, DeferredCall.slots, List.toList_toArray, List.filterMap_map]
    exact List.filterMap_some
  rw [callOn, hvalues]

namespace Exec

/-- What a return does first: with `true` the top operand becomes the result. -/
def takeResult (operand : Value) : Exec Unit := do
  match operand.unwrapped with
  | .bool true => do
    let v ← popValue
    modifyContext fun c => { c with result := some v }
  | _ => pure ()

/-- Takes the call that is to be deferred off the stack. -/
def takeCall (operand : Value) : Exec DeferredCall := do
  let count ← operandCount operand 0
  let (callable, args) ← popCall count
  return ⟨callable, args⟩

theorem outcome_return (operand : Value) (m : Machine) :
    outcome (return_ operand) m = outcome (takeResult operand >>= fun _ => continueReturn) m := by
  unfold return_ takeResult
  generalize operand.unwrapped = given
  cases given with
  | bool b =>
    cases b with
    | false => rfl
    | true =>
      dsimp only
      rw [outcome_bind, outcome_bind, outcome_bind]
      rcases outcome popValue m with ⟨halt | v, m'⟩ <;> rfl
  | _ => rfl

theorem outcome_deferCall (operand : Value) (m : Machine) :
    outcome (deferCall operand) m = outcome (takeCall operand >>= fun d =>
      modifyContext fun c => { c with deferred := d :: c.deferred }) m := by
  unfold deferCall takeCall
  rw [outcome_bind, outcome_bind, outcome_bind]
  rcases outcome (operandCount operand 0) m with ⟨halt | count, m'⟩
  · rfl
  dsimp only
  rw [outcome_bind, outcome_bind]
  rcases outcome (popCall count) m' with ⟨halt | call, m''⟩ <;> rfl

end Exec

namespace Machine

/-- The machine ready for the next step; the output is back that a deferred call had. -/
def regained (m : Machine) : Machine :=
  match m.ended, m.suspended with
  | some _, ⟨c, .deferred⟩ :: rest =>
    { m with context := { c with output := m.context.output }, suspended := rest, ended := none }
  | _, _ => m.ready

/-- The call that the next step registers. -/
def registered? (m : Machine) : Option DeferredCall :=
  match m.ended, m.next? with
  | none, some ⟨.defer, operand⟩ => (Exec.outcome (Exec.takeCall operand) m.begun).1.toOption
  | _, _ => none

/-- The machine in which the next step turns to the deferred calls: it executes a return, or goes on
with one since a deferred call has ended well. -/
def returning? (m : Machine) : Option Machine :=
  match m.ended, m.suspended with
  | none, _ =>
    match m.next? with
    | some ⟨.return, operand⟩ =>
      match Exec.outcome (Exec.takeResult operand) m.begun with
      | (.ok (), m₁) => some m₁
      | (.error _, _) => none
    | _ => none
  | some (.ok ()), ⟨_, .deferred⟩ :: _ => some m.regained
  | _, _ => none

/-- The deferred call that the next step sets going: it lies on the stack of a new context. -/
def launched? (m : Machine) : Option DeferredCall :=
  match m.step.1.suspended with
  | ⟨_, .deferred⟩ :: rest =>
    if m.ready.suspended.length ≤ rest.length then callOn m.step.1.context.stack else none
  | _ => none

/-- A deferred call has been set going: it runs in a context of its own, in the table of the
function that returns and with its output, and the others are left. -/
structure SetsGoing (d : DeferredCall) (rest : List DeferredCall) (m m' : Machine) : Prop where
  suspended_eq : m'.suspended
    = ⟨{ m.context with deferred := rest, output := .discarded }, .deferred⟩ :: m.suspended
  ops_eq : m'.context.code.ops = #[⟨.call, .ofNat d.args.length⟩, .plain .stop]
  stack_eq : m'.context.stack = d.slots
  begins : m'.context.pc = 0 ∧ m'.context.fp = 0 ∧ m'.context.deferred = []
  running : m'.context.running = true ∧ m'.ended = m.ended
  symbols_eq : m'.context.symbols = m.context.symbols
  output_eq : m'.context.output = m.context.output

variable {m m' : Machine}

/-- No frame lies where it should not, in any context. -/
structure Layered (m : Machine) : Prop where
  running : m.context.Layered
  waiting : ∀ s ∈ m.suspended, s.context.Layered

end Machine

namespace Exec

open Machine

/-- **A return sets the deferred call going that was registered last.** -/
theorem continueReturn_cons {m : Machine} {d : DeferredCall} {rest : List DeferredCall}
    (h : m.context.deferred = d :: rest) :
    ∃ m', outcome continueReturn m = (.ok (), m') ∧ SetsGoing d rest m m' ∧
      m'.context.debugging = false := by
  obtain ⟨j, hj⟩ := outcome_noteThread .trace (fun _ => "run deferred call")
    { m with context := { m.context with deferred := rest } }
  rw [continueReturn, outcome_bind_ok (outcome_context m), h]
  dsimp only
  rw [outcome_bind_ok (outcome_modifyContext _ m), outcome_bind_ok hj,
    outcome_bind_ok (outcome_onWorld _ _), outcome_bind_ok (outcome_modifyContext _ _)]
  exact ⟨_, rfl, ⟨rfl, rfl, rfl, ⟨rfl, rfl, rfl⟩, ⟨rfl, rfl⟩, rfl, rfl⟩, rfl⟩

/-- Without any, it leaves the function; the outermost code ends the run. -/
theorem continueReturn_nil {m : Machine} (h : m.context.deferred = []) :
    outcome continueReturn m = if 0 < m.context.fp then outcome popFrame m
      else (.ok (), { m with context := { m.context with running := false } }) := by
  rw [continueReturn, outcome_bind_ok (outcome_context m), h]
  dsimp only
  split <;> rfl

theorem takeResult_isTidying (operand : Value) : IsTidying (takeResult operand) := by
  unfold takeResult
  split
  · exact .bind .popValue fun _ => .modifyContext fun _ => rfl
  · exact Keeps.pure _

theorem takeCall_isWork (operand : Value) : IsWork (takeCall operand) :=
  .bind (IsPlain.operandCount operand 0).isWork fun _ =>
    .bind (.bind (.popArgs _) fun _ => .bind IsPlain.popUnwrapped.isWork fun _ => .pure _) fun _ =>
      .pure _

end Exec

namespace Machine

variable {m m' m'' : Machine} {d : DeferredCall} {rest : List DeferredCall}

/-! ### Layers stay -/

theorem layered_of_fewer {c c' : Context} (h : c.Layered) (hfp : c'.fp = c.fp)
    (hfewer : ∀ j f, c'.frameAt j = some f → c.frameAt j = some f) : c'.Layered where
  top j hj := by
    rw [hfp] at hj
    exact Option.eq_none_iff_forall_ne_some.2 fun f hf => by
      have hnone := h.top j hj
      rw [hfewer j f hf] at hnone
      cases hnone
  between j f hf i hi hij := Option.eq_none_iff_forall_ne_some.2 fun g hg => by
    have hnone := h.between j f (hfewer j f hf) i hi hij
    rw [hfewer i g hg] at hnone
    cases hnone

theorem layered_of_no_frames {c : Context} (h : ∀ j, c.frameAt j = none) : c.Layered :=
  ⟨fun j _ => h j, fun j f hf => by rw [h j] at hf; cases hf⟩

theorem EntersFrame.frameAt {f : Frame} (h : m.EntersFrame m' f) (j : Nat) :
    m'.context.frameAt j = if j = m.context.stack.size then some f else m.context.frameAt j := by
  rw [Context.frameAt, h.stack_eq, Array.getElem?_push]
  split <;> rfl

theorem EntersFrame.layered {f : Frame} (h : m.EntersFrame m' f) (hm : m.context.Layered) :
    m'.context.Layered := by
  have hout : ∀ j, m.context.stack.size ≤ j → m.context.frameAt j = none := fun j hj => by
    rw [Context.frameAt, Array.getElem?_eq_none hj]
    rfl
  refine ⟨fun j hj => ?_, fun j g hg i hi hij => ?_⟩
  · rw [h.fp_eq] at hj
    rw [h.frameAt, if_neg (by omega)]
    exact hout j (by omega)
  · rw [h.frameAt] at hg ⊢
    split at hg
    · rename_i hj
      cases hg
      rw [if_neg (by omega)]
      rw [h.saves.1] at hi
      exact hm.top i hi
    · have hj : j < m.context.stack.size := Nat.lt_of_not_le fun hle => by
        rw [hout j hle] at hg
        cases hg
      rw [if_neg (by omega)]
      exact hm.between j g hg i hi hij

theorem Quits.layered {q : Nat} {f : Frame} (h : Quits q f m m') (hm : m.context.Layered) :
    m'.context.Layered := by
  refine ⟨fun j hj => ?_, fun j g hg i hi hij => ?_⟩
  · rw [h.fp_eq] at hj
    exact Option.eq_none_iff_forall_ne_some.2 fun g hg => by
      obtain ⟨hq, hback⟩ := h.fewer j g hg
      have hnone := hm.between q f h.frame j hj hq
      rw [hback] at hnone
      cases hnone
  · exact Option.eq_none_iff_forall_ne_some.2 fun g' hg' => by
      have hnone := hm.between j g (h.fewer j g hg).2 i hi hij
      rw [(h.fewer i g' hg').2] at hnone
      cases hnone

theorem Layered.congr (h : m.Layered) (hsuspended : m'.suspended = m.suspended)
    (hrunning : m'.context.Layered) : m'.Layered := ⟨hrunning, by rw [hsuspended]; exact h.waiting⟩

theorem Works.layered (h : m.Works m') (hm : m.Layered) : m'.Layered :=
  hm.congr h.suspended_eq (layered_of_fewer hm.running h.fp_eq h.fewer)

theorem Rises.layered (h : m.Rises m') (hm : m.Layered) : m'.Layered := by
  induction h with
  | refl => exact hm
  | tail _ hrise ih =>
    cases hrise with
    | works h => exact h.layered ih
    | enters h => exact ih.congr h.suspended_eq (h.layered ih.running)
    | asks h =>
      refine ⟨layered_of_no_frames h.frames, fun s hs => ?_⟩
      rw [h.suspended_eq, List.mem_cons] at hs
      rcases hs with rfl | hs
      · exact ih.running
      · exact ih.waiting s hs

theorem Falls.layered (h : m.Falls m') (hm : m.Layered) : m'.Layered := by
  induction h with
  | refl => exact hm
  | tail _ hfall ih =>
    cases hfall with
    | drops h => exact ih.congr h.suspended_eq (layered_of_fewer ih.running h.fp_eq h.fewer)
    | quits h => exact ih.congr h.suspended_eq (h.layered ih.running)

theorem SetsGoing.layered (h : SetsGoing d rest m m') (hm : m.Layered) : m'.Layered := by
  have hwaiting : Context.Layered { m.context with deferred := rest, output := .discarded } :=
    ⟨hm.running.top, hm.running.between⟩
  refine ⟨layered_of_no_frames fun j => ?_, fun s hs => ?_⟩
  · rw [Context.frameAt, h.stack_eq, DeferredCall.slots, List.getElem?_toArray, List.getElem?_map]
    cases (d.callable :: d.args)[j]? <;> rfl
  · rw [h.suspended_eq, List.mem_cons] at hs
    rcases hs with rfl | hs
    · exact hwaiting
    · exact hm.waiting s hs

/-! ### Waiting contexts -/

/-- What works, enters functions and asks for comparisons sets no deferred call going. -/
theorem Rises.suspended (h : m.Rises m') : ∃ extra, m'.suspended = extra ++ m.suspended ∧
    ∀ s ∈ extra, s.awaiting ≠ .deferred := by
  induction h with
  | refl => exact ⟨[], rfl, fun s hs => absurd hs List.not_mem_nil⟩
  | tail _ hrise ih =>
    obtain ⟨extra, heq, hextra⟩ := ih
    cases hrise with
    | works h => exact ⟨extra, h.suspended_eq.trans heq, hextra⟩
    | enters h => exact ⟨extra, h.suspended_eq.trans heq, hextra⟩
    | asks h =>
      refine ⟨_ :: extra, by rw [h.suspended_eq, heq]; rfl, fun s hs => ?_⟩
      rcases List.mem_cons.1 hs with rfl | hs
      · nofun
      · exact hextra s hs

theorem Falls.suspended_eq (h : m.Falls m') : m'.suspended = m.suspended := by
  induction h with
  | refl => rfl
  | tail _ hfall ih =>
    cases hfall with
    | drops h => exact h.suspended_eq.trans ih
    | quits h => exact h.suspended_eq.trans ih

theorem regained_suspended (m : Machine) : m.regained.suspended = m.ready.suspended := by
  unfold regained ready
  split <;> simp_all

theorem regained_of_going (h : m.ended = none) : m.regained = m := by
  rw [regained, h, ready, h]

theorem regained_of_deferred {result : Except Fault Unit} {c : Context} {rest : List Suspended}
    (hended : m.ended = some result) (hsuspended : m.suspended = ⟨c, .deferred⟩ :: rest) :
    m.regained = { m with
      context := { c with output := m.context.output }, suspended := rest, ended := none } := by
  rw [regained, hended, hsuspended]

/-- But for the output of its context, the machine is ready for the next step. -/
theorem regained_eq (m : Machine) : ∃ output,
    m.regained = { m.ready with context := { m.ready.context with output } } := by
  unfold regained ready
  cases m.ended with
  | none => exact ⟨m.context.output, rfl⟩
  | some result =>
    cases m.suspended with
    | nil => exact ⟨m.context.output, rfl⟩
    | cons s rest =>
      obtain ⟨c, awaiting⟩ := s
      cases awaiting with
      | deferred => exact ⟨m.context.output, rfl⟩
      | ordering => exact ⟨c.output, rfl⟩

theorem regained_layered (h : m.Layered) : m.regained.Layered := by
  obtain ⟨output, heq⟩ := m.regained_eq
  have hready : m.ready.Layered := by
    rcases m.ready_cases with hsame | ⟨s, rest, hcons, hready⟩
    · rwa [hsame]
    · rw [hready]
      exact ⟨h.waiting s (by rw [hcons]; exact List.mem_cons_self),
        fun s hs => h.waiting s (by rw [hcons]; exact List.mem_cons_of_mem _ hs)⟩
  rw [heq]
  exact ⟨⟨hready.running.top, hready.running.between⟩, hready.waiting⟩

/-! ### Steps -/

/-- What a step does with deferred calls. -/
inductive Treats (m m' : Machine) : Prop
  /-- A call is registered with the running function. -/
  | registers {d : DeferredCall} {m₁ : Machine} (hregistered : m.registered? = some d)
      (hworks : m.regained.Works m₁)
      (heq : m' = { m₁ with context := { m₁.context with deferred := d :: m₁.context.deferred } })
  /-- The call is set going that was registered last; no debugger attends to it. -/
  | launches {d : DeferredCall} {rest : List DeferredCall} {m₁ : Machine}
      (hreturning : m.returning? = some m₁) (hworks : m.regained.Works m₁)
      (hdeferred : m₁.context.deferred = d :: rest) (hgoing : SetsGoing d rest m₁ m')
      (halone : m'.context.debugging = false)
  /-- Functions are entered and left. -/
  | moves {m₁ : Machine} (hregistered : m.registered? = none)
      (hreturning : ∀ m₂, m.returning? = some m₂ → m₂.context.deferred = [])
      (hrises : m.regained.Rises m₁) (hfalls : m₁.Falls m')

/-- Dealing with the fault of an attempt leaves functions. -/
theorem attempt_falls (h : m.attempt.1 ≠ .error .blocked) : m.attempt.2.Falls m.step.1 := by
  rcases m.step_settles with hok | ⟨f, m₁, hfault, hsettle⟩ | ⟨hblocked, -⟩
  · rw [hok]
    exact Std.Refl.refl _
  · have hfalls := Exec.IsFalling.settle f m₁
    rw [hsettle] at hfalls
    rw [hfault]
    exact hfalls
  · exact absurd hblocked h

/-- What an attempt does with deferred calls. -/
inductive Undertakes (m : Machine) : Prop
  | registers {d : DeferredCall} {m₁ : Machine} (hregistered : m.registered? = some d)
      (hworks : m.regained.Works m₁) (hattempt : m.attempt = (.ok (), { m₁ with
        context := { m₁.context with deferred := d :: m₁.context.deferred } }))
  /-- A return begins, or goes on after a deferred call. -/
  | returns {m₁ : Machine} (hregistered : m.registered? = none)
      (hreturning : m.returning? = some m₁) (htidies : m.regained.Tidies m₁)
      (hattempt : m.attempt = Exec.outcome Exec.continueReturn m₁)
  /-- Functions may be entered; if it has to wait, nothing has happened. -/
  | rises (hregistered : m.registered? = none) (hreturning : m.returning? = none)
      (hregained : m.attempt.1 = .error .blocked → m.ready = m.regained)
      (hrises : m.regained.Rises m.attempt.2)

theorem begun_tidies {i : Instruction} (hgoing : m.ended = none) (hnext : m.next? = some i) :
    m.regained.Tidies m.begun ∧
      m.attempt = Exec.outcome (Exec.execute i) m.begun := by
  obtain ⟨j, running, o, hbegin⟩ := Exec.outcome_begin i m
  have hbegun : m.begun = (Exec.outcome (Exec.begin i) m).2 := by
    unfold begun
    rw [hgoing, hnext]
  rw [regained_of_going hgoing, attempt, action, hgoing, ready, hgoing, hnext, hbegun]
  dsimp only
  rw [Exec.outcome_bind_ok hbegin, hbegin]
  exact ⟨⟨.ofSame rfl rfl rfl rfl rfl rfl, rfl⟩, rfl⟩

theorem registered?_of_defer {operand : Value} (hgoing : m.ended = none)
    (hnext : m.next? = some ⟨.defer, operand⟩) :
    m.registered? = (Exec.outcome (Exec.takeCall operand) m.begun).1.toOption := by
  rw [registered?, hgoing, hnext]

theorem registered?_of_ne {i : Instruction} (hnext : m.next? = some i) (hop : i.op ≠ .defer) :
    m.registered? = none := by
  rw [registered?, hnext]
  split
  · rename_i heq
    exact absurd (congrArg Instruction.op (Option.some.inj heq)) hop
  · rfl

theorem returning?_of_return {operand : Value} (hgoing : m.ended = none)
    (hnext : m.next? = some ⟨.return, operand⟩) : m.returning? =
      match Exec.outcome (Exec.takeResult operand) m.begun with
      | (.ok (), m₁) => some m₁
      | (.error _, _) => none := by
  rw [returning?, hgoing, hnext]

theorem returning?_of_ne {i : Instruction} (hgoing : m.ended = none) (hnext : m.next? = some i)
    (hop : i.op ≠ .return) : m.returning? = none := by
  rw [returning?, hgoing, hnext]
  dsimp only
  split
  · rename_i heq
    exact absurd (congrArg Instruction.op (Option.some.inj heq)) hop
  · rfl

/-- What the next instruction does with deferred calls. -/
theorem undertakes_of_next {i : Instruction} (hgoing : m.ended = none) (hnext : m.next? = some i) :
    m.Undertakes := by
  obtain ⟨hbegun, hattempt⟩ := begun_tidies hgoing hnext
  have hregained : m.ready = m.regained := by rw [regained_of_going hgoing, ready, hgoing]
  obtain ⟨op, operand⟩ := i
  by_cases hdefer : op = .defer
  · subst hdefer
    have htakes := Exec.takeCall_isWork operand m.begun
    have hregisters := registered?_of_defer hgoing hnext
    rw [show Exec.execute ⟨.defer, operand⟩ = Exec.deferCall operand from rfl,
      Exec.outcome_deferCall, Exec.outcome_bind] at hattempt
    rcases hout : Exec.outcome (Exec.takeCall operand) m.begun with ⟨halt | d, m₁⟩
    · rw [hout] at hattempt hregisters htakes
      refine .rises hregisters (returning?_of_ne hgoing hnext Opcode.noConfusion)
        (fun _ => hregained) ?_
      rw [hattempt]
      exact (Trans.trans hbegun.toWorks htakes : m.regained.Works _).rises
    · rw [hout] at hattempt hregisters htakes
      exact .registers hregisters (Trans.trans hbegun.toWorks htakes) hattempt
  by_cases hreturn : op = .return
  · subst hreturn
    have htakes := Exec.takeResult_isTidying operand m.begun
    have hregisters := registered?_of_ne hnext hdefer
    have hreturns := returning?_of_return hgoing hnext
    rw [show Exec.execute ⟨.return, operand⟩ = Exec.return_ operand from rfl,
      Exec.outcome_return, Exec.outcome_bind] at hattempt
    rcases hout : Exec.outcome (Exec.takeResult operand) m.begun with ⟨halt | u, m₁⟩
    · rw [hout] at hattempt hreturns htakes
      refine .rises hregisters hreturns (fun _ => hregained) ?_
      rw [hattempt]
      exact (Trans.trans hbegun htakes : m.regained.Tidies _).toWorks.rises
    · rw [hout] at hattempt hreturns htakes
      exact .returns hregisters hreturns (Trans.trans hbegun htakes) hattempt
  · refine .rises (registered?_of_ne hnext hdefer) (returning?_of_ne hgoing hnext hreturn)
      (fun _ => hregained) ?_
    rw [hattempt]
    exact Trans.trans hbegun.toWorks.rises (Exec.execute_rises hdefer hreturn m.begun)

/-- After a deferred call the return goes on, unless the call failed. -/
theorem attempt_of_deferred {result : Except Fault Unit} {c : Context} {rest : List Suspended}
    (hended : m.ended = some result) (hsuspended : m.suspended = ⟨c, .deferred⟩ :: rest) :
    m.attempt = Exec.outcome (match result with
      | .ok () => Exec.continueReturn
      | .error f => Exec.fail f) m.regained := by
  rw [attempt, action, ready, regained, hended, hsuspended]
  rfl

/-- **Every attempt registers a call, or is a return**, or lets functions be entered. -/
theorem undertakes (m : Machine) : m.Undertakes := by
  cases hended : m.ended with
  | none =>
    cases hnext : m.next? with
    | some i => exact undertakes_of_next hended hnext
    | none =>
      have hregained : m.ready = m.regained := by rw [regained_of_going hended, ready, hended]
      refine .rises (by rw [registered?, hended, hnext]) (by rw [returning?, hended, hnext])
        (fun _ => hregained) ?_
      rw [attempt, action, hended, hnext, hregained]
      exact (Exec.IsWork.finish m.regained).rises
  | some result =>
    have hregistered : m.registered? = none := by rw [registered?, hended]
    cases hsuspended : m.suspended with
    | nil =>
      have hregained : m.ready = m.regained := by
        rw [regained, hended, hsuspended]
      refine .rises hregistered ?_ (fun _ => hregained) ?_
      · rw [returning?, hended, hsuspended]
        cases result <;> rfl
      · rw [attempt, action, hended, hsuspended, hregained]
        exact Std.Refl.refl _
    | cons s rest =>
      obtain ⟨c, awaiting⟩ := s
      cases awaiting with
      | deferred =>
        have hattempt := attempt_of_deferred hended hsuspended
        cases result with
        | ok u =>
          exact .returns hregistered (by rw [returning?, hended, hsuspended]) (Std.Refl.refl _)
            hattempt
        | error f =>
          refine .rises hregistered (by rw [returning?, hended, hsuspended]) (fun hblocked => ?_) ?_
          · rw [hattempt] at hblocked
            cases hblocked
          · rw [hattempt]
            exact Std.Refl.refl _
      | ordering r less size i j =>
        have hregained : m.ready = m.regained := by
          rw [regained, hended, hsuspended]
        refine .rises hregistered ?_ (fun _ => hregained) ?_
        · rw [returning?, hended, hsuspended]
          cases result <;> rfl
        · rw [attempt, action, hended, hsuspended, hregained]
          cases result with
          | ok u => exact (Exec.IsOrdinary.sortAfter r less size i j _).rises m.regained
          | error f => exact (Exec.IsOrdinary.settleLibraryFault _ f).rises m.regained

/-- A return without deferred calls leaves the function, or ends the outermost code. -/
theorem falls_of_return {m₁ : Machine} (h : m₁.Layered) (hdeferred : m₁.context.deferred = []) :
    m₁.Falls (Exec.outcome Exec.continueReturn m₁).2 := by
  rw [Exec.continueReturn_nil hdeferred]
  split
  · exact Exec.falls_popFrame h.running
  · exact Drops.falls ⟨rfl, rfl, rfl, rfl, fun _ _ h => h, .refl _⟩

/-- **What an attempt has done that is a fault**: functions have been entered and left. -/
theorem moves_of_fault {f : Fault} {m₁ : Machine} (h : m.Layered)
    (hfault : m.attempt = (.error (.fault f), m₁)) : ∃ m₀, m.regained.Rises m₀ ∧ m₀.Falls m₁ := by
  cases m.undertakes with
  | registers _ _ hattempt =>
    rw [hfault] at hattempt
    cases hattempt
  | @returns m₀ _ _ htidies hattempt =>
    have hworks := htidies.toWorks
    cases hdeferred : m₀.context.deferred with
    | cons d rest =>
      obtain ⟨m', hout, -⟩ := Exec.continueReturn_cons hdeferred
      rw [hfault, hout] at hattempt
      cases hattempt
    | nil =>
      have hfalls := falls_of_return (hworks.layered (regained_layered h)) hdeferred
      rw [← hattempt, hfault] at hfalls
      exact ⟨m₀, hworks.rises, hfalls⟩
  | rises _ _ _ hrises =>
    rw [hfault] at hrises
    exact ⟨m₁, hrises, Std.Refl.refl _⟩

/-- **Every step registers a call, or sets one going**, or lets functions be entered and left. -/
theorem step_treats (h : m.Layered) : m.Treats m.step.1 := by
  cases m.undertakes with
  | registers hregistered hworks hattempt =>
    rw [step_of_attempt_ok hattempt]
    exact .registers hregistered hworks rfl
  | @returns m₁ hregistered hreturning htidies hattempt =>
    have hworks := htidies.toWorks
    cases hdeferred : m₁.context.deferred with
    | cons d rest =>
      obtain ⟨m', hout, hgoing, halone⟩ := Exec.continueReturn_cons hdeferred
      rw [hout] at hattempt
      rw [step_of_attempt_ok hattempt]
      exact .launches hreturning hworks hdeferred hgoing halone
    | nil =>
      have hempty : ∀ m₂, m.returning? = some m₂ → m₂.context.deferred = [] := fun m₂ h₂ => by
        rw [hreturning] at h₂
        cases h₂
        exact hdeferred
      have hprompt : m.attempt.1 ≠ .error .blocked := by
        rw [hattempt]
        exact Exec.IsPrompt.continueReturn m₁
      have hleaves := falls_of_return (hworks.layered (regained_layered h)) hdeferred
      rw [← hattempt] at hleaves
      exact .moves hregistered hempty hworks.rises (Trans.trans hleaves (attempt_falls hprompt))
  | rises hregistered hreturning hregained hrises =>
    have hempty : ∀ m₂, m.returning? = some m₂ → m₂.context.deferred = [] := fun m₂ h₂ => by
      rw [hreturning] at h₂
      cases h₂
    by_cases hblocked : m.attempt.1 = .error .blocked
    · rcases m.step_settles with hok | ⟨f, m₁, hfault, -⟩ | ⟨-, hstep⟩
      · rw [hok] at hblocked
        cases hblocked
      · rw [hfault] at hblocked
        cases hblocked
      · rw [hstep, hregained hblocked]
        exact .moves hregistered hempty (Std.Refl.refl _) (Std.Refl.refl _)
    · exact .moves hregistered hempty hrises (attempt_falls hblocked)

end Machine

end ScriptMachine
