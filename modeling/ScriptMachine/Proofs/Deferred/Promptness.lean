import ScriptMachine.Proofs.Faults.Failing
import ScriptMachine.Proofs.Loops.Winding

/-!
# What need not wait for other tasks

Returns need not wait, and neither does dealing with a fault: a step that has to wait has done
nothing yet.

* `Exec.IsPrompt`: an action that never has to wait; `IsPrompt.afterDeferred`, `IsPrompt.settle`.
* `step_settles`: a step carries out its attempt, or deals with its fault, or the attempt has to
  wait.
-/

namespace ScriptMachine

namespace Exec

variable {α β : Type}

/-- An action that never has to wait. -/
def IsPrompt (act : Exec α) : Prop := ∀ m, (outcome act m).1 ≠ .error .blocked

namespace IsPrompt

theorem pure (a : α) : IsPrompt (Pure.pure a) := fun _ => nofun

theorem fail (f : Fault) : IsPrompt (Exec.fail f : Exec α) := fun _ => nofun

theorem context : IsPrompt Exec.context := fun _ => nofun

theorem heap : IsPrompt Exec.heap := fun _ => nofun

theorem scopes : IsPrompt Exec.scopes := fun _ => nofun

theorem get : IsPrompt (MonadState.get : Exec Machine) := fun _ => nofun

theorem change (f : Machine → Machine) : IsPrompt (modify f) := fun _ => nofun

theorem modifyContext (f : Context → Context) : IsPrompt (Exec.modifyContext f) := fun _ => nofun

theorem setScopes (a : Arena) : IsPrompt (Exec.setScopes a) := fun _ => nofun

theorem onWorld (act : WorldM α) : IsPrompt (Exec.onWorld act) := fun _ => nofun

theorem lift (r : Except Fault α) : IsPrompt (liftM r : Exec α) := by
  intro m
  rw [outcome_liftExcept]
  cases r <;> nofun

theorem bind {act : Exec α} {next : α → Exec β} (hact : IsPrompt act)
    (hnext : ∀ a, IsPrompt (next a)) : IsPrompt (act >>= next) := by
  intro m
  have hm := hact m
  rw [outcome_bind]
  rcases hout : outcome act m with ⟨halt | a, m'⟩
  · rw [hout] at hm
    exact fun h => hm (congrArg Except.error (Except.error.inj h))
  · exact hnext a m'

theorem ite {p : Prop} [Decidable p] {yes no : Exec α} (hyes : IsPrompt yes)
    (hno : IsPrompt no) : IsPrompt (if p then yes else no) := by
  split
  · exact hyes
  · exact hno

theorem tryCatch {act : Exec α} {handle : Halt → Exec α} (hact : IsPrompt act)
    (hhandle : ∀ f, IsPrompt (handle (.fault f))) :
    IsPrompt (MonadExcept.tryCatch act handle) := by
  intro m
  have hm := hact m
  rw [outcome_tryCatch]
  rcases hout : outcome act m with ⟨(f | _) | a, m'⟩
  · exact hhandle f m'
  · rw [hout] at hm
    exact absurd rfl hm
  · nofun

theorem compositional : Compositional (μ := Exec) fun _ => IsPrompt := ⟨pure, bind⟩

theorem forIn {γ σ : Type} (xs : List γ) (body : γ → σ → Exec (ForInStep σ)) (init : σ)
    (hbody : ∀ x s, IsPrompt (body x s)) : IsPrompt (ForIn.forIn xs init body) :=
  compositional.forIn fun x _ => hbody x

theorem noteThread (c : Category) (message : Unit → String) :
    IsPrompt (Exec.noteThread c message) := by
  intro m
  obtain ⟨j, hout⟩ := outcome_noteThread c message m
  rw [hout]
  nofun

theorem observe (x : Happening) : IsPrompt (Exec.observe x) := by
  intro m
  obtain ⟨j, o, hout⟩ := outcome_observe x m
  rw [hout]
  nofun

theorem storeIn (table : TableId) (name : String) (v : Value) :
    IsPrompt (Exec.storeIn table name v) :=
  bind scopes fun _ => bind (lift _) fun _ => setScopes _

/-! ### Functions are left -/

theorem publishVariable (scope : String) (package : Ref .package) (name : String) (v : Value) :
    IsPrompt (Exec.publishVariable scope package name v) := by
  refine bind (onWorld _) fun _ => bind heap fun _ => ?_
  split
  · exact bind (storeIn _ _ _) fun _ => bind heap fun _ => onWorld _
  · exact bind heap fun _ => onWorld _

theorem findPackage (name : String) (first second : TableId) :
    IsPrompt (Exec.findPackage name first second) := by
  refine bind scopes fun a => ?_
  dsimp only
  split <;> exact pure _

theorem publishPackages (stop : TableId) : IsPrompt (Exec.publishPackages stop) := by
  refine bind scopes fun a => bind context fun c => ?_
  dsimp only
  refine bind (forIn _ _ _ fun table _ => ?_) fun _ => pure _
  refine ite ?_ (pure _)
  refine bind (findPackage _ _ _) fun found => ?_
  split
  · refine bind scopes fun _ => bind (forIn _ _ _ fun p _ => ?_) fun _ => pure _
    exact ite (bind (publishVariable _ _ _ _) fun _ => pure _) (pure _)
  · exact pure _

theorem dropScopesTo (target : TableId) : IsPrompt (Exec.dropScopesTo target) := by
  intro m
  obtain ⟨j, hout⟩ := outcome_dropScopesTo target m
  rw [hout]
  nofun

theorem endLoops (count : Nat) : IsPrompt (Exec.endLoops count) := by
  induction count with
  | zero => exact pure _
  | succ count ih =>
    refine bind context fun c => ?_
    split
    · exact pure _
    · refine bind (modifyContext _) fun _ => bind ?_ fun _ => ih
      unfold Exec.release
      split
      · exact onWorld _
      · exact onWorld _
      · exact pure _
      · exact pure _

theorem takeFrame : IsPrompt Exec.takeFrame := by
  refine bind context fun c => ite (fail _) ?_
  dsimp only
  refine bind (modifyContext _) fun _ => ?_
  split
  · exact pure _
  · exact fail _

theorem restoreFrame : IsPrompt Exec.restoreFrame :=
  bind takeFrame fun _ => bind (publishPackages _) fun _ => bind (dropScopesTo _) fun _ =>
    bind (bind context fun _ => endLoops _) fun _ => bind (modifyContext _) fun _ =>
    bind (storeIn _ _ _) fun _ => bind (modifyContext _) fun _ => bind context fun _ =>
    bind (observe _) fun _ => bind context fun _ => noteThread _ _

theorem popFrame : IsPrompt Exec.popFrame := by
  refine bind context fun c => ite (fail _) ?_
  dsimp only
  refine bind (modifyContext _) fun _ => bind restoreFrame fun _ => ite ?_ (modifyContext _)
  split
  · exact modifyContext _
  · exact pure _

/-- So it is with returns. -/
theorem continueReturn : IsPrompt Exec.continueReturn := by
  refine bind context fun c => ?_
  split
  · exact bind (modifyContext _) fun _ => bind (noteThread _ _) fun _ => bind (onWorld _) fun _ =>
      bind (modifyContext _) fun _ => bind (onWorld _) fun _ => change _
  · exact ite popFrame (modifyContext _)

theorem afterDeferred (scratch : Context) (result : Except Fault Unit) :
    IsPrompt (Exec.afterScratch .deferred scratch result) := by
  refine bind (modifyContext _) fun _ => ?_
  cases result with
  | ok => exact continueReturn
  | error f => exact fail f

/-! ### Faults are dealt with -/

theorem unwindTo (fp fuel : Nat) : IsPrompt (Exec.unwindTo fp fuel) := by
  induction fuel with
  | zero => exact pure _
  | succ fuel ih =>
    exact bind context fun c =>
      ite (bind (bind (modifyContext _) fun _ => restoreFrame) fun _ => ih) (pure _)

theorem catchAt (handler : Handler) (outer : List Handler) (f : Fault) :
    IsPrompt (Exec.catchAt handler outer f) :=
  bind context fun _ => bind (unwindTo _ _) fun _ => bind (modifyContext _) fun _ =>
    bind (dropScopesTo _) fun _ => bind (modifyContext _) fun _ =>
    bind (bind context fun _ => endLoops _) fun _ => bind (modifyContext _) fun _ =>
    bind context fun _ => bind (observe _) fun _ => bind context fun _ => storeIn _ _ _

theorem abandon (f : Fault) : IsPrompt (Exec.abandon f) := by
  intro m
  rw [outcome_abandon]
  nofun

theorem recover (f : Fault) : IsPrompt (Exec.recover f) := by
  refine ite (fail f) (bind context fun c => ?_)
  dsimp only
  split
  · exact catchAt _ _ _
  · exact abandon _

end IsPrompt

/-- Dealing with a fault succeeds, and needs not wait for anything. -/
theorem settle_succeeds (f : Fault) (m : Machine) : ∃ m', outcome (settle f) m = (.ok (), m') := by
  by_cases hstop : f.kind = .stop
  · rw [settle, if_pos hstop]
    exact ⟨_, rfl⟩
  have hprompt := IsPrompt.recover f m
  rw [outcome_settle hstop]
  rcases hout : outcome (recover f) m with ⟨(g | _) | u, m'⟩
  · exact ⟨_, rfl⟩
  · rw [hout] at hprompt
    exact absurd rfl hprompt
  · exact ⟨_, rfl⟩

end Exec

namespace Machine

/-- **A step carries out what it attempts, or deals with its fault**; if the attempt has to wait,
nothing has happened. -/
theorem step_settles (m : Machine) : m.attempt = (.ok (), m.step.1) ∨
    (∃ f m₁, m.attempt = (.error (.fault f), m₁) ∧
      Exec.outcome (Exec.settle f) m₁ = (.ok (), m.step.1)) ∨
    m.attempt.1 = .error .blocked ∧ m.step.1 = m.ready := by
  rcases m.step_eq with ⟨result, hended, hsuspended, hstep⟩ | hstep
  · refine .inl ?_
    rw [hstep, attempt, action, ready, hended, hsuspended]
    rfl
  · rw [hstep, perform_eq]
    unfold attempt
    rcases Exec.outcome m.action m.ready with ⟨(f | _) | _, m'⟩
    · obtain ⟨m'', hsettle⟩ := Exec.settle_succeeds f m'
      simp only [hsettle]
      exact .inr (.inl ⟨f, m', rfl, hsettle⟩)
    · exact .inr (.inr ⟨rfl, rfl⟩)
    · exact .inl rfl

end Machine

end ScriptMachine
