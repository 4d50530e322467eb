import ScriptMachine.Proofs.Action.Instructions

/-!
# Discreet actions

Actions that a veil does not touch: they neither read nor change what it covers, whether a debugger
attends to the outermost context or not, and they raise no signal of a debugger.

* `Machine.Tended`: only the outermost context may have a debugger, no number of instructions is
  set, there are no tasks, and the running thread has not ended with the signal of a debugger.
* `Exec.Mirrors`: under a veil, one action does what another one does without it.
* `Exec.IsDiscreet`: an action does under every veil what it does without it.
* `IsPlain.isDiscreet`: plain actions are discreet.
-/

namespace ScriptMachine

/-- No context of a thread has a debugger, but for the outermost one if `b` holds, and all may go on
for any number of instructions. -/
def Context.Attended (b : Bool) : Context → List Suspended → Prop
  | c, [] => c.debugging = b ∧ c.observer.allowance = none
  | c, s :: rest => c.debugging = false ∧ c.observer.allowance = none ∧ s.context.Attended b rest

/-- The running thread is attended to, there are no others, and no debugger has ended it. -/
structure Machine.Tended (b : Bool) (m : Machine) : Prop where
  attended : m.context.Attended b m.suspended
  tasks_eq : m.tasks = #[]
  quiet : ∀ f, m.ended = some (.error f) → f.IsQuiet

namespace Context.Attended

variable {b : Bool} {c c' : Context} {suspended : List Suspended}

theorem change (h : c.Attended b suspended) (hdebug : c'.debugging = c.debugging)
    (hallow : c.observer.allowance = none → c'.observer.allowance = none) :
    c'.Attended b suspended := by
  cases suspended with
  | nil => exact ⟨hdebug.trans h.1, hallow h.2⟩
  | cons s rest => exact ⟨hdebug.trans h.1, hallow h.2.1, h.2.2⟩

theorem allowance_eq (h : c.Attended b suspended) : c.observer.allowance = none := by
  cases suspended with
  | nil => exact h.2
  | cons s rest => exact h.2.1

/-- Without a debugger outside there is none inside. -/
theorem debugging_eq (h : c.Attended false suspended) : c.debugging = false := by
  cases suspended with
  | nil => exact h.1
  | cons s rest => exact h.1

/-- Under a veil there is no debugger. -/
theorem veiled (h : c.Attended b suspended) (k : Veil) :
    (c.veiled k).Attended false (suspended.map (Suspended.veiled k)) := by
  induction suspended generalizing c with
  | nil => exact ⟨rfl, h.2⟩
  | cons s rest ih => exact ⟨rfl, h.2.1, ih h.2.2⟩

end Context.Attended

theorem Machine.Tended.veiled {b : Bool} {m : Machine} (h : m.Tended b) (k : Veil) :
    (m.veiled k).Tended false := ⟨h.attended.veiled k, h.tasks_eq, h.quiet⟩

namespace Exec

variable {α β : Type} {b : Bool} {k : Veil}

/-- Under a veil, the second action does what the first one does without it. -/
def Mirrors (k : Veil) (b : Bool) (act act' : Exec α) : Prop :=
  ∀ m, m.Tended b → outcome act' (m.veiled k) = ((outcome act m).1, (outcome act m).2.veiled k) ∧
    (outcome act m).2.Tended b ∧ Halt.QuietIn (outcome act m).1

/-- An action does under every veil what it does without it. -/
def IsDiscreet (act : Exec α) : Prop := ∀ k b, Mirrors k b act act

namespace Mirrors

theorem bind {act act' : Exec α} {next next' : α → Exec β} (hact : Mirrors k b act act')
    (hnext : ∀ a, Mirrors k b (next a) (next' a)) :
    Mirrors k b (act >>= next) (act' >>= next') := by
  intro m hm
  obtain ⟨hcomm, hkeep, hquiet⟩ := hact m hm
  rw [outcome_bind, outcome_bind, hcomm]
  rcases hout : outcome act m with ⟨r | a, m'⟩
  · rw [hout] at hkeep hquiet
    exact ⟨rfl, hkeep, hquiet⟩
  · rw [hout] at hkeep
    exact hnext a m' hkeep

/-- Reading the machine. -/
theorem get_bind {next next' : Machine → Exec β}
    (hnext : ∀ m, m.Tended b → Mirrors k b (next m) (next' (m.veiled k))) :
    Mirrors k b (get >>= next) (get >>= next') := by
  intro m hm
  rw [outcome_bind_ok (outcome_get _), outcome_bind_ok (outcome_get _)]
  exact hnext m hm m hm

/-- Reading the context. -/
theorem context_bind {next next' : Context → Exec β}
    (hnext : ∀ c, Mirrors k b (next c) (next' (c.veiled k))) :
    Mirrors k b (context >>= next) (context >>= next') := by
  intro m hm
  rw [outcome_bind_ok (outcome_context _), outcome_bind_ok (outcome_context _)]
  exact hnext m.context m hm

theorem modifyContext {f f' : Context → Context} (hveil : ∀ c, f' (c.veiled k) = (f c).veiled k)
    (hdebug : ∀ c, (f c).debugging = c.debugging)
    (hallow : ∀ c, c.observer.allowance = none → (f c).observer.allowance = none) :
    Mirrors k b (Exec.modifyContext f) (Exec.modifyContext f') := by
  intro m hm
  refine ⟨?_, ⟨hm.attended.change (hdebug _) (hallow _), hm.tasks_eq, hm.quiet⟩, trivial⟩
  rw [outcome_modifyContext, outcome_modifyContext]
  simp only [Machine.veiled, hveil]

end Mirrors

namespace IsDiscreet

theorem pure (a : α) : IsDiscreet (Pure.pure a) := fun _ _ _ hm => ⟨rfl, hm, trivial⟩

theorem throw {h : Halt} (hquiet : h.IsQuiet) : IsDiscreet (MonadExcept.throw h : Exec α) :=
  fun _ _ _ hm => ⟨rfl, hm, hquiet⟩

theorem fail (f : Fault) (hquiet : f.IsQuiet) :
    IsDiscreet (Exec.fail f : Exec α) := throw hquiet

theorem wait : IsDiscreet (Exec.wait : Exec α) := throw trivial

/-- An outcome that is given. -/
theorem result {r : Except Halt α} (hquiet : Halt.QuietIn r) :
    IsDiscreet (ExceptT.mk (Pure.pure r) : Exec α) := fun _ _ _ hm => ⟨rfl, hm, hquiet⟩

theorem lift (r : Except Fault α) [hr : Quiet r] : IsDiscreet (liftM r : Exec α) := by
  cases r with
  | error f => exact fail f (hr.quiet f rfl)
  | ok a => exact pure a

theorem bind {act : Exec α} {next : α → Exec β} (hact : IsDiscreet act)
    (hnext : ∀ a, IsDiscreet (next a)) : IsDiscreet (act >>= next) :=
  fun k b => (hact k b).bind fun a => hnext a k b

theorem ite {p : Prop} [Decidable p] {yes no : Exec α} (hyes : IsDiscreet yes)
    (hno : IsDiscreet no) : IsDiscreet (if p then yes else no) := by
  split
  · exact hyes
  · exact hno

theorem compositional : Compositional (μ := Exec) fun _ => IsDiscreet := ⟨pure, bind⟩

theorem forIn {γ σ : Type} (xs : List γ) (body : γ → σ → Exec (ForInStep σ)) (init : σ)
    (hbody : ∀ x s, IsDiscreet (body x s)) : IsDiscreet (ForIn.forIn xs init body) :=
  compositional.forIn fun x _ => hbody x

theorem tryCatch {act : Exec α} {handle : Halt → Exec α} (hact : IsDiscreet act)
    (hhandle : ∀ h, h.IsQuiet → IsDiscreet (handle h)) :
    IsDiscreet (MonadExcept.tryCatch act handle) := by
  intro k b m hm
  obtain ⟨hcomm, hkeep, hquiet⟩ := hact k b m hm
  rw [outcome_tryCatch, outcome_tryCatch, hcomm]
  rcases hout : outcome act m with ⟨r | a, m'⟩
  · rw [hout] at hkeep hquiet
    exact hhandle r hquiet k b m' hkeep
  · rw [hout] at hkeep
    exact ⟨rfl, hkeep, trivial⟩

/-- Reading what no veil covers. -/
theorem get_bind {next : Machine → Exec β} (hveil : ∀ m k, next (m.veiled k) = next m)
    (hnext : ∀ m, IsDiscreet (next m)) : IsDiscreet (get >>= next) := by
  refine fun k b => Mirrors.get_bind fun m _ => ?_
  rw [hveil]
  exact hnext m k b

/-- Reading what no veil covers of the context. -/
theorem context_bind {next : Context → Exec β}
    (hveil : ∀ c k, next (Context.veiled k c) = next c) (hnext : ∀ c, IsDiscreet (next c)) :
    IsDiscreet (context >>= next) := by
  refine fun k b => Mirrors.context_bind fun c => ?_
  rw [hveil]
  exact hnext c k b

theorem heap : IsDiscreet Exec.heap := get_bind (fun _ _ => rfl) fun m => pure m.world.heap

theorem scopes : IsDiscreet Exec.scopes := get_bind (fun _ _ => rfl) fun m => pure m.world.scopes

/-- Changes of the machine that leave its threads as they are attended to. -/
theorem ofModify {f : Machine → Machine} (hveil : ∀ m k, f (m.veiled k) = (f m).veiled k)
    (hkeep : ∀ b m, m.Tended b → (f m).Tended b) : IsDiscreet (modify f) := by
  intro k b m hm
  rw [outcome_modify, outcome_modify, hveil]
  exact ⟨rfl, hkeep b m hm, trivial⟩

theorem setScopes (a : Arena) : IsDiscreet (Exec.setScopes a) :=
  ofModify (fun _ _ => rfl) fun _ _ h => ⟨h.attended, h.tasks_eq, h.quiet⟩

theorem modifyContext {f : Context → Context} (hveil : ∀ c k, f (c.veiled k) = (f c).veiled k)
    (hdebug : ∀ c, (f c).debugging = c.debugging)
    (hallow : ∀ c, c.observer.allowance = none → (f c).observer.allowance = none) :
    IsDiscreet (Exec.modifyContext f) :=
  fun k _ => Mirrors.modifyContext (fun c => hveil c k) hdebug hallow

/-- Changes of the context that have to do with no debugger. -/
theorem adjust {f : Context → Context} (hveil : ∀ c k, f (c.veiled k) = (f c).veiled k)
    (hsame : ∀ c, ((f c).debugging, (f c).observer) = (c.debugging, c.observer)) :
    IsDiscreet (Exec.modifyContext f) := by
  refine modifyContext hveil (fun c => congrArg Prod.fst (hsame c)) fun c hc => ?_
  have hobserver : (f c).observer = c.observer := congrArg Prod.snd (hsame c)
  rw [hobserver]
  exact hc

/-- Computations on the world that do not read the events of the journal. -/
theorem onWorld {act : WorldM α} (h : act.IsUnread) : IsDiscreet (Exec.onWorld act) := by
  intro k b m hm
  refine ⟨?_, ⟨hm.attended, hm.tasks_eq, hm.quiet⟩, trivial⟩
  rw [outcome_onWorld, outcome_onWorld]
  show (Except.ok (act.run (m.world.after k.events)).1, _) = _
  rw [h k.events m.world]
  show (_, { m.veiled k with world := (act.run (m.world.after k.events)).2 }) = _
  rw [h k.events m.world]
  rfl

/-- A computation on the world, and what follows for the results it can have. -/
theorem onWorld_bind {act : WorldM α} {next : α → Exec β} {P : α → Prop} (h : act.IsUnread)
    (hresult : ∀ w, P (act.run w).1) (hnext : ∀ a, P a → IsDiscreet (next a)) :
    IsDiscreet (Exec.onWorld act >>= next) := by
  intro k b m hm
  obtain ⟨hcomm, hkeep, -⟩ := onWorld h k b m hm
  rw [outcome_bind, outcome_bind, hcomm]
  exact hnext _ (hresult m.world) k b _ hkeep

/-! ### Plain actions -/

theorem push (v : Value) : IsDiscreet (Exec.push v) :=
  adjust (fun c k => by
    simp only [Context.veiled, Array.map_push]
    rfl) fun _ => rfl

theorem pop : IsDiscreet Exec.pop := by
  refine get_bind (fun m k => ?_) fun m => ite (fail _ (.of rfl)) ?_
  · show (if (m.context.veiled k).stack.size ≤ m.context.fp then _ else _) = _
    rw [Context.size_stack_veiled]
    have hback : (m.context.veiled k).stack.back? = m.context.stack.back?.map (Slot.veiled k) :=
      Array.back?_map ..
    have hshow : (m.veiled k).context.stack.back? = (m.context.veiled k).stack.back? := rfl
    rw [hshow, hback]
    rcases m.context.stack.back? with _ | (v | f) <;> rfl
  · split
    · refine bind (adjust (fun c k => ?_) fun _ => rfl) fun _ => pure _
      simp only [Context.veiled, Array.map_pop]
    · exact fail _ (.of rfl)

theorem peek : IsDiscreet Exec.peek := by
  refine context_bind (fun c k => ?_) fun c => ite (fail _ (.of rfl)) ?_
  · have hback : (c.veiled k).stack.back? = c.stack.back?.map (Slot.veiled k) :=
      Array.back?_map ..
    rw [Context.size_stack_veiled, hback]
    rcases c.stack.back? with _ | (v | f) <;> rfl
  · split
    · exact pure _
    · exact fail _ (.of rfl)

theorem popArgs (count : Nat) : IsDiscreet (Exec.popArgs count) := by
  refine context_bind (fun c k => ?_) fun c => ite (fail _ (.of rfl)) ?_
  · have hvalues : ∀ i j, slotValues ((c.veiled k).stack.extract i j)
        = slotValues (c.stack.extract i j) := by
      intro i j
      rw [← slotValues_veiled (c.stack.extract i j), Array.map_extract]
      rfl
    dsimp only
    rw [Context.size_stack_veiled, hvalues]
    rfl
  · refine bind (adjust (fun c' k => ?_) fun _ => rfl) fun _ =>
      ite (fail _ (.of rfl)) (pure _)
    simp only [Context.veiled, Array.map_extract]

theorem dropToMarker : IsDiscreet Exec.dropToMarker := by
  refine context_bind (fun c k => by rw [Context.size_stack_veiled]) fun c => ?_
  induction c.stack.size with
  | zero => exact pure ()
  | succ steps ih =>
    refine context_bind (fun c k => ?_) fun c => ite (pop.bind fun _ => ite ih (pure _)) (pure _)
    rw [Context.size_stack_veiled]
    rfl

end IsDiscreet

/-- Writing a name may only fail since the name is protected or its table is gone. -/
theorem quiet_assign (start : TableId) (name : String) (v : Value) (w : World) :
    Quiet ((World.assign start name v).run w).1 := by
  unfold World.assign
  simp only [StateT.run_bind, StateT.run_get, pure_bind]
  rcases hset : w.scopes.set start name v with f | p
  · exact .error ((Quiet.set w.scopes start name v).quiet f hset)
  · exact .ok ()

/-- **Plain actions are discreet.** -/
theorem IsPlain.isDiscreet {act : Exec α} (h : IsPlain True True act) : IsDiscreet act := by
  induction h with
  | pure a => exact .pure a
  | throw hquiet => exact .throw hquiet
  | bind _ _ ihact ihnext => exact .bind ihact ihnext
  | get_bind _ hveil _ _ ih => exact .get_bind hveil ih
  | push v => exact .push v
  | pop => exact .pop
  | peek => exact .peek
  | popArgs count => exact .popArgs count
  | dropToMarker => exact .dropToMarker
  | write text => exact .adjust (fun _ _ => rfl) fun _ => rfl
  | onWorld h => exact .onWorld h.unread
  | attempt toHalt h hquiet =>
    exact .onWorld_bind h.unread hquiet fun _ => .result
  | store _ name v =>
    refine .context_bind (fun _ _ => rfl) fun c =>
      .onWorld_bind (World.assign_isUnread c.symbols name v)
      (quiet_assign c.symbols name v) fun r hr => ?_
    cases r with
    | ok u => exact .pure u
    | error f => exact .fail f (hr.quiet f rfl)
  | changeScopes _ write _ =>
    exact IsDiscreet.scopes.bind fun a => (IsDiscreet.lift _).bind fun b => .setScopes b
  | branchTarget _ operand =>
    refine .get_bind (fun _ _ => rfl) fun m => ?_
    dsimp only
    split
    · exact .ite (.pure _) (.fail _ (.of rfl))
    · exact .fail _ (.of rfl)
  | goTo _ address => exact .adjust (fun _ _ => rfl) fun _ => rfl
  | adjust _ hadjusts hveil _ =>
    refine .modifyContext hveil (fun c => ?_) fun c hc => ?_
    · rw [hadjusts]
      rfl
    · rw [hadjusts]
      exact hc

end Exec

end ScriptMachine
