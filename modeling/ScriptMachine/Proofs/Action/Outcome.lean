import ScriptMachine.Machine.Run
import ScriptMachine.Proofs.Action.Invariants

/-!
# Outcomes of actions

An action of the machine as a function: what it returns or why it halts, and the machine it leaves.

* `Exec.outcome`: the result of an action and the machine after it.
* `outcome_bind`, `outcome_tryCatch` and companions: outcomes of composed actions;
  `outcome_onObjects`: what computations on objects come to; `outcome_branchTarget_eq`: where branches go.
* `Exec.Keeps`: an action relates the machine before it to the machine after it, whether it
  succeeds or not; `Keeps.bind`, `Keeps.forIn` and companions compose this for a preorder.
-/

namespace ScriptMachine

/-- The machine with other objects. -/
def Machine.withHeap (m : Machine) (h : Heap) : Machine :=
  { m with world := { m.world with heap := h } }

namespace Exec

variable {α β : Type}

/-- What an action returns or why it halts, and the machine it leaves. -/
def outcome (act : Exec α) (m : Machine) : Except Halt α × Machine := act.run.run m

@[simp]
theorem outcome_pure (a : α) (m : Machine) : outcome (pure a) m = (.ok a, m) := rfl

@[simp]
theorem outcome_throw (h : Halt) (m : Machine) :
    outcome (throw h : Exec α) m = (.error h, m) := rfl

@[simp]
theorem outcome_fail (f : Fault) (m : Machine) :
    outcome (fail f : Exec α) m = (.error (.fault f), m) := rfl

@[simp]
theorem outcome_wait (m : Machine) : outcome (wait : Exec α) m = (.error .blocked, m) := rfl

@[simp]
theorem outcome_get (m : Machine) : outcome get m = (.ok m, m) := rfl

@[simp]
theorem outcome_modify (f : Machine → Machine) (m : Machine) :
    outcome (modify f) m = (.ok (), f m) := rfl

@[simp]
theorem outcome_modifyContext (f : Context → Context) (m : Machine) :
    outcome (modifyContext f) m = (.ok (), { m with context := f m.context }) := rfl

@[simp]
theorem outcome_context (m : Machine) : outcome context m = (.ok m.context, m) := rfl

@[simp]
theorem outcome_heap (m : Machine) : outcome heap m = (.ok m.world.heap, m) := rfl

@[simp]
theorem outcome_scopes (m : Machine) : outcome scopes m = (.ok m.world.scopes, m) := rfl

@[simp]
theorem outcome_setScopes (a : Arena) (m : Machine) :
    outcome (setScopes a) m = (.ok (), { m with world := { m.world with scopes := a } }) := rfl

@[simp]
theorem outcome_onWorld (act : WorldM α) (m : Machine) :
    outcome (onWorld act) m
      = (.ok (act.run m.world).1, { m with world := (act.run m.world).2 }) := rfl

@[simp]
theorem outcome_push (v : Value) (m : Machine) :
    outcome (push v) m
      = (.ok (), { m with context := { m.context with
          stack := m.context.stack.push (.value v) } }) := rfl

/-- A composed action stops where its first part halts. -/
theorem outcome_bind (act : Exec α) (next : α → Exec β) (m : Machine) :
    outcome (act >>= next) m =
      match outcome act m with
      | (.ok a, m') => outcome (next a) m'
      | (.error h, m') => (.error h, m') := by
  simp only [outcome, ExceptT.run_bind, StateT.run_bind]
  rcases act.run.run m with ⟨r | r, m'⟩ <;> rfl

theorem outcome_bind_ok {act : Exec α} {next : α → Exec β} {m m' : Machine} {a : α}
    (h : outcome act m = (.ok a, m')) : outcome (act >>= next) m = outcome (next a) m' := by
  rw [outcome_bind, h]

theorem outcome_bind_error {act : Exec α} {next : α → Exec β} {m m' : Machine} {e : Halt}
    (h : outcome act m = (.error e, m')) : outcome (act >>= next) m = (.error e, m') := by
  rw [outcome_bind, h]

/-- An action with two parts succeeds if both do. -/
theorem outcome_bind_eq_ok {act : Exec α} {next : α → Exec β} {m m' : Machine} {b : β} :
    outcome (act >>= next) m = (.ok b, m') ↔
      ∃ a m₁, outcome act m = (.ok a, m₁) ∧ outcome (next a) m₁ = (.ok b, m') := by
  rw [outcome_bind]
  rcases outcome act m with ⟨halt | a, m₁⟩
  · constructor
    · intro h
      cases h
    · rintro ⟨a, m₂, h, -⟩
      cases h
  · constructor
    · exact fun h => ⟨a, m₁, rfl, h⟩
    · rintro ⟨a', m₂, h, hnext⟩
      cases h
      exact hnext

/-- The machine keeps what a failed attempt did to it. -/
theorem outcome_tryCatch (act : Exec α) (handle : Halt → Exec α) (m : Machine) :
    outcome (tryCatch act handle) m =
      match outcome act m with
      | (.ok a, m') => (.ok a, m')
      | (.error h, m') => outcome (handle h) m' := by
  rcases h : act.run.run m with ⟨r | r, m'⟩
  all_goals
    have hrun : (show StateT Machine Id _ from act).run m = _ := h
    show (ExceptT.tryCatch act handle).run.run m = _
    simp only [outcome, ExceptT.tryCatch, ExceptT.run_mk, StateT.run_bind, h]
    rw [hrun]
    rfl

@[simp]
theorem outcome_liftExcept (r : Except Fault α) (m : Machine) :
    outcome (liftM r : Exec α) m = (r.mapError .fault, m) := by
  cases r <;> rfl

theorem outcome_onHeap {α : Type} (act : StateM Heap α) (m : Machine) :
    outcome (onHeap act) m
      = (.ok (act.run m.world.heap).1, m.withHeap (act.run m.world.heap).2) := rfl

/-- What a computation on objects comes to. -/
theorem outcome_onObjects {α : Type} (act : HeapM α) (m : Machine) :
    outcome (onObjects act) m
      = ((act.run.run m.world.heap).1.mapError .fault,
          m.withHeap (act.run.run m.world.heap).2) := by
  have hheap : outcome (onHeap act.run) m = (.ok (act.run.run m.world.heap).1,
      m.withHeap (act.run.run m.world.heap).2) := rfl
  rw [onObjects, outcome_bind_ok hheap]
  cases (act.run.run m.world.heap).1 <;> rfl

/-- A machine branches to the index of its operand, within its code. -/
theorem outcome_branchTarget_eq (operand : Value) (m : Machine) :
    outcome (branchTarget operand) m =
      match operand.toIndex with
      | .ok a =>
        if a < m.context.code.size then (.ok a, m)
        else (.error (.fault (.about .invalidBytecodeAddress (m.world.heap.display operand))), m)
      | .error _ =>
        (.error (.fault (.about .invalidBytecodeAddress (m.world.heap.display operand))), m) := by
  rw [branchTarget, outcome_bind_ok (outcome_get m)]
  cases operand.toIndex with
  | ok a =>
    dsimp only
    split <;> rfl
  | error f => rfl

theorem outcome_branchTarget_of_lt {operand : Value} {address : Nat} {m : Machine}
    (hindex : operand.toIndex = .ok address) (hlt : address < m.context.code.size) :
    outcome (branchTarget operand) m = (.ok address, m) := by
  rw [outcome_branchTarget_eq, hindex]
  exact if_pos hlt

theorem outcome_branchTarget_of_beyond {operand : Value} {m : Machine}
    (hbeyond : ∀ a, operand.toIndex = .ok a → m.context.code.size ≤ a) :
    outcome (branchTarget operand) m
      = (.error (.fault (.about .invalidBytecodeAddress (m.world.heap.display operand))), m) := by
  rw [outcome_branchTarget_eq]
  split
  · rename_i a hindex
    exact if_neg (Nat.not_lt.2 (hbeyond a hindex))
  · rfl

/-! ### What actions keep -/

/-- An action relates the machine before it to the machine after it, whether it succeeds or not. -/
def Keeps (R : Machine → Machine → Prop) (act : Exec α) : Prop := ∀ m, R m (outcome act m).2

namespace Keeps

variable {R : Machine → Machine → Prop}

section Refl

variable [hrefl : Std.Refl R]

theorem pure (a : α) : Keeps R (Pure.pure a) := fun m => hrefl.refl m

theorem throw (h : Halt) : Keeps R (MonadExcept.throw h : Exec α) := fun m => hrefl.refl m

theorem fail (f : Fault) : Keeps R (Exec.fail f : Exec α) := throw (.fault f)

theorem wait : Keeps R (Exec.wait : Exec α) := throw .blocked

theorem get : Keeps R (MonadState.get : Exec Machine) := fun m => hrefl.refl m

theorem context : Keeps R Exec.context := fun m => hrefl.refl m

theorem heap : Keeps R Exec.heap := fun m => hrefl.refl m

theorem scopes : Keeps R Exec.scopes := fun m => hrefl.refl m

theorem lift (r : Except Fault α) : Keeps R (liftM r : Exec α) := by
  intro m
  rw [outcome_liftExcept]
  exact hrefl.refl m

end Refl

theorem ite {p : Prop} [Decidable p] {yes no : Exec α} (hyes : Keeps R yes) (hno : Keeps R no) :
    Keeps R (if p then yes else no) := by
  split
  · exact hyes
  · exact hno

/-- What holds after the second part of an action, wherever the first one leads, may be weaker than
what holds after the first. -/
theorem weaken {S : Machine → Machine → Prop} {act : Exec α} {next : α → Exec β}
    (himp : ∀ {m m'}, R m m' → S m m') (htrans : ∀ {m m' m''}, R m m' → S m' m'' → S m m'')
    (hact : Keeps R act) (hnext : ∀ a, Keeps S (next a)) : Keeps S (act >>= next) := by
  intro m
  have hm := hact m
  rw [outcome_bind]
  rcases hout : outcome act m with ⟨r | a, m'⟩
  · rw [hout] at hm
    exact himp hm
  · rw [hout] at hm
    exact htrans hm (hnext a m')

section Trans

variable [htrans : Trans R R R]

theorem bind {act : Exec α} {next : α → Exec β} (hact : Keeps R act)
    (hnext : ∀ a, Keeps R (next a)) : Keeps R (act >>= next) :=
  weaken id htrans.trans hact hnext

theorem tryCatch {act : Exec α} {handle : Halt → Exec α} (hact : Keeps R act)
    (hhandle : ∀ h, Keeps R (handle h)) : Keeps R (MonadExcept.tryCatch act handle) := by
  intro m
  have hm := hact m
  rw [outcome_tryCatch]
  rcases hout : outcome act m with ⟨r | a, m'⟩
  · rw [hout] at hm
    exact htrans.trans hm (hhandle r m')
  · rw [hout] at hm
    exact hm

theorem compositional [Std.Refl R] : Compositional (μ := Exec) fun _ => Keeps R := ⟨pure, bind⟩

theorem forIn [Std.Refl R] {γ σ : Type} (xs : List γ) (body : γ → σ → Exec (ForInStep σ))
    (init : σ) (hbody : ∀ x s, Keeps R (body x s)) : Keeps R (ForIn.forIn xs init body) :=
  compositional.forIn fun x _ => hbody x

end Trans

end Keeps

end Exec

end ScriptMachine
