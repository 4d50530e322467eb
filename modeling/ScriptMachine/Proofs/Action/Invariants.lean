import Mathlib.Data.List.Basic
import ScriptMachine.World

/-!
# Invariants of computations

A computation on a state maintains an invariant: from states that satisfy it, it leads to such
states, and its results have a property that further computations can rely on.

* `Compositional`: a property that passes from parts to the whole, and so to loops.
* `Ensures`: a result that may be a fault has a property unless it is one.
* `Maintains`: a computation maintains an invariant, with the rules for composed computations.
* `Upholds`: the same of a computation that may halt.
-/

namespace ScriptMachine

/-- The elements of a part of an array are elements of the array. -/
theorem mem_of_mem_extract {γ : Type} {xs : Array γ} {i j : Nat} {x : γ}
    (h : x ∈ xs.extract i j) : x ∈ xs := by
  obtain ⟨k, hk, rfl⟩ := Array.mem_extract_iff_getElem.1 h
  exact Array.getElem_mem _

variable {σ ε α β γ : Type} {I : σ → Prop}

/-- A property that composed computations have when their parts have it. -/
structure Compositional {μ : Type → Type} [Monad μ] (P : (α : Type) → μ α → Prop) : Prop where
  pure {α : Type} (a : α) : P α (Pure.pure a)
  bind {α β : Type} {act : μ α} {next : α → μ β} (hact : P α act) (hnext : ∀ a, P β (next a)) :
    P β (act >>= next)

namespace Compositional

variable {μ : Type → Type} [Monad μ] {P : (α : Type) → μ α → Prop}

/-- **Loops** have it when each round has it. -/
theorem forIn (h : Compositional P) {xs : List γ} {body : γ → σ → μ (ForInStep σ)} {init : σ}
    (hbody : ∀ x ∈ xs, ∀ s, P _ (body x s)) : P σ (ForIn.forIn xs init body) := by
  induction xs generalizing init with
  | nil => exact h.pure init
  | cons x xs ih =>
    rw [List.forIn_cons]
    refine h.bind (hbody x List.mem_cons_self init) fun r => ?_
    cases r with
    | done s => exact h.pure s
    | yield s => exact ih fun y hy => hbody y (List.mem_cons_of_mem x hy)

theorem mapM [LawfulMonad μ] (h : Compositional P) {f : γ → μ α} {xs : List γ}
    (hf : ∀ x ∈ xs, P α (f x)) : P (List α) (xs.mapM f) := by
  induction xs with
  | nil =>
    rw [List.mapM_nil]
    exact h.pure []
  | cons x xs ih =>
    rw [List.mapM_cons]
    exact h.bind (hf x List.mem_cons_self) fun a =>
      h.bind (ih fun y hy => hf y (List.mem_cons_of_mem x hy)) fun as => h.pure (a :: as)

end Compositional

/-- A result satisfies `P` unless it is a fault. -/
def Ensures (r : Except ε α) (P : α → Prop) : Prop := ∀ a, r = .ok a → P a

namespace Ensures

variable {P : α → Prop} {Q : β → Prop}

theorem ok {a : α} (h : P a) : Ensures (.ok a : Except ε α) P := fun _ ha => by
  cases ha
  exact h

theorem error (e : ε) : Ensures (.error e) P := nofun

theorem bind {r : Except ε α} {next : α → Except ε β} (hr : Ensures r P)
    (hnext : ∀ a, P a → Ensures (next a) Q) : Ensures (r >>= next) Q := by
  cases r with
  | ok a => exact hnext a (hr a rfl)
  | error e => exact error e

theorem map {r : Except ε α} {f : α → β} (h : ∀ a, Q (f a)) : Ensures (r.map f) Q := by
  cases r with
  | ok a => exact ok (h a)
  | error e => exact error e

theorem ite {p : Prop} [Decidable p] {yes no : Except ε α} (hyes : Ensures yes P)
    (hno : Ensures no P) : Ensures (if p then yes else no) P := by
  split
  · exact hyes
  · exact hno

theorem any (r : Except ε α) : Ensures r fun _ => True := fun _ _ => trivial

theorem mapM {f : γ → Except ε α} {xs : List γ} (h : ∀ x ∈ xs, Ensures (f x) P) :
    Ensures (xs.mapM f) fun as => ∀ a ∈ as, P a := by
  induction xs with
  | nil => exact ok nofun
  | cons x xs ih =>
    rw [List.mapM_cons]
    refine (h x List.mem_cons_self).bind fun a ha =>
      (ih fun y hy => h y (List.mem_cons_of_mem x hy)).bind fun as has => ok ?_
    exact List.forall_mem_cons.2 ⟨ha, has⟩

end Ensures

/-- From states that satisfy `I`, a computation leads to such states, and its result satisfies
`P`. -/
def Maintains (I : σ → Prop) (act : StateM σ α) (P : α → Prop) : Prop :=
  ∀ s, I s → I (act.run s).2 ∧ P (act.run s).1

namespace Maintains

variable {P Q : α → Prop}

theorem pure {a : α} (h : P a) : Maintains I (Pure.pure a) P := fun _ hs => ⟨hs, h⟩

theorem get : Maintains I MonadState.get I := fun _ hs => ⟨hs, hs⟩

theorem write {f : σ → σ} (h : ∀ s, I s → I (f s)) : Maintains I (modify f) fun _ => True :=
  fun s hs => ⟨h s hs, trivial⟩

theorem bind {act : StateM σ α} {next : α → StateM σ β} {Q : β → Prop} (hact : Maintains I act P)
    (hnext : ∀ a, P a → Maintains I (next a) Q) : Maintains I (act >>= next) Q := by
  intro s hs
  obtain ⟨hI, hP⟩ := hact s hs
  exact hnext _ hP _ hI

theorem imp {act : StateM σ α} (h : Maintains I act P) (himp : ∀ a, P a → Q a) :
    Maintains I act Q := fun s hs => ⟨(h s hs).1, himp _ (h s hs).2⟩

theorem mapM {f : γ → StateM σ α} {xs : List γ} (h : ∀ x ∈ xs, Maintains I (f x) P) :
    Maintains I (xs.mapM f) fun as => ∀ a ∈ as, P a := by
  induction xs with
  | nil =>
    rw [List.mapM_nil]
    exact pure (by simp)
  | cons x xs ih =>
    rw [List.mapM_cons]
    refine (h x List.mem_cons_self).bind fun a ha =>
      (ih fun y hy => h y (List.mem_cons_of_mem x hy)).bind fun as has => pure ?_
    exact List.forall_mem_cons.2 ⟨ha, has⟩

theorem mapMArray {f : γ → StateM σ α} {xs : Array γ} (h : ∀ x ∈ xs, Maintains I (f x) P) :
    Maintains I (xs.mapM f) fun as => ∀ a ∈ as, P a := by
  rw [Array.mapM_eq_mapM_toList]
  intro s hs
  obtain ⟨hI, hP⟩ := mapM (fun x hx => h x (Array.mem_toList_iff.1 hx)) s hs
  exact ⟨hI, fun a ha => hP a (Array.mem_toList_iff.2 ha)⟩

theorem forIn {ς : Type} {S : ς → Prop} {xs : List γ} {body : γ → ς → StateM σ (ForInStep ς)}
    {init : ς} (hinit : S init)
    (hbody : ∀ x ∈ xs, ∀ s, S s → Maintains I (body x s) fun r => S r.value) :
    Maintains I (ForIn.forIn xs init body) S := by
  induction xs generalizing init with
  | nil => exact pure hinit
  | cons x xs ih =>
    rw [List.forIn_cons]
    refine (hbody x List.mem_cons_self init hinit).bind fun r hr => ?_
    cases r with
    | done s => exact pure hr
    | yield s => exact ih hr fun y hy => hbody y (List.mem_cons_of_mem x hy)

end Maintains

/-- A computation that may halt maintains an invariant in any case, and its result, if there is one,
satisfies `P`. -/
def Upholds (I : σ → Prop) (act : ExceptT ε (StateM σ) α) (P : α → Prop) : Prop :=
  Maintains I act.run fun r => Ensures r P

namespace Upholds

variable {P Q : α → Prop}

theorem pure {a : α} (h : P a) : Upholds I (Pure.pure a : ExceptT ε (StateM σ) α) P :=
  fun _ hs => ⟨hs, .ok h⟩

theorem throw (e : ε) : Upholds I (MonadExcept.throw e : ExceptT ε (StateM σ) α) P :=
  fun _ hs => ⟨hs, .error e⟩

theorem get : Upholds I (MonadState.get : ExceptT ε (StateM σ) σ) I := fun _ hs => ⟨hs, .ok hs⟩

theorem write {f : σ → σ} (h : ∀ s, I s → I (f s)) :
    Upholds I (modify f : ExceptT ε (StateM σ) PUnit) fun _ => True :=
  fun s hs => ⟨h s hs, .any _⟩

theorem lift {act : StateM σ α} (h : Maintains I act P) :
    Upholds I (ExceptT.lift act : ExceptT ε (StateM σ) α) P :=
  fun s hs => ⟨(h s hs).1, .ok (h s hs).2⟩

/-- A result that is there beforehand. -/
theorem ofExcept {r : Except ε α} (h : Ensures r P) :
    Upholds I (liftM r : ExceptT ε (StateM σ) α) P := by
  cases r with
  | ok a => exact pure (h a rfl)
  | error e => exact throw e

theorem bind {act : ExceptT ε (StateM σ) α} {next : α → ExceptT ε (StateM σ) β} {Q : β → Prop}
    (hact : Upholds I act P) (hnext : ∀ a, P a → Upholds I (next a) Q) :
    Upholds I (act >>= next) Q := by
  intro s hs
  obtain ⟨hI, hP⟩ := hact s hs
  simp only [ExceptT.run_bind, StateT.run_bind]
  rcases hrun : act.run.run s with ⟨e | a, s'⟩
  · rw [hrun] at hI
    exact ⟨hI, .error e⟩
  · rw [hrun] at hI hP
    exact hnext a (hP a rfl) s' hI

theorem imp {act : ExceptT ε (StateM σ) α} (h : Upholds I act P) (himp : ∀ a, P a → Q a) :
    Upholds I act Q := Maintains.imp h fun _ hr a ha => himp a (hr a ha)

theorem run_tryCatch (act : ExceptT ε (StateM σ) α) (handle : ε → ExceptT ε (StateM σ) α) (s : σ) :
    (MonadExcept.tryCatch act handle).run.run s =
      match act.run.run s with
      | (.ok a, s') => (.ok a, s')
      | (.error e, s') => (handle e).run.run s' := by
  show (ExceptT.tryCatch act handle).run.run s = _
  simp only [ExceptT.tryCatch, ExceptT.run_mk, StateT.run_bind]
  rcases hrun : (show StateT σ Id _ from act).run s with ⟨e | a, s'⟩ <;>
    rw [show act.run.run s = _ from hrun] <;> rfl

theorem tryCatch {act : ExceptT ε (StateM σ) α} {handle : ε → ExceptT ε (StateM σ) α}
    (hact : Upholds I act P) (hhandle : ∀ e, Upholds I (handle e) P) :
    Upholds I (MonadExcept.tryCatch act handle) P := by
  intro s hs
  obtain ⟨hI, hP⟩ := hact s hs
  rw [run_tryCatch]
  rcases hrun : act.run.run s with ⟨e | a, s'⟩ <;> rw [hrun] at hI hP
  · exact hhandle e s' hI
  · exact ⟨hI, hP⟩

theorem ite {p : Prop} [Decidable p] {yes no : ExceptT ε (StateM σ) α} (hyes : Upholds I yes P)
    (hno : Upholds I no P) : Upholds I (if p then yes else no) P := by
  split
  · exact hyes
  · exact hno

theorem mapM {f : γ → ExceptT ε (StateM σ) α} {xs : List γ} (h : ∀ x ∈ xs, Upholds I (f x) P) :
    Upholds I (xs.mapM f) fun as => ∀ a ∈ as, P a := by
  induction xs with
  | nil =>
    rw [List.mapM_nil]
    exact pure (by simp)
  | cons x xs ih =>
    rw [List.mapM_cons]
    refine (h x List.mem_cons_self).bind fun a ha =>
      (ih fun y hy => h y (List.mem_cons_of_mem x hy)).bind fun as has => pure ?_
    exact List.forall_mem_cons.2 ⟨ha, has⟩

/-- A loop without a state of its own. -/
theorem forIn {xs : List γ} {body : γ → PUnit → ExceptT ε (StateM σ) (ForInStep PUnit)}
    (hbody : ∀ x ∈ xs, Upholds I (body x ⟨⟩) fun _ => True) :
    Upholds I (ForIn.forIn xs ⟨⟩ body) fun _ => True :=
  have hcomposed : Compositional (μ := ExceptT ε (StateM σ)) fun _ act => Upholds I act fun _ => True :=
    ⟨fun _ => pure trivial, fun hact hnext => hact.bind fun a _ => hnext a⟩
  hcomposed.forIn fun x hx _ => hbody x hx

end Upholds

end ScriptMachine
