import ScriptMachine.Proofs.Action.Outcome
import ScriptMachine.Proofs.Scopes.Outline

/-!
# Local actions

Most instructions work on the operands of the running function and on what all code shares. They
neither read nor write what surrounds these: the slots below the frame pointer, the handlers, the
loops, the contexts that wait.

* `Exec.Respects`: an action commutes with a change of the machine, and keeps a property of it.
* `Surroundings`, `Machine.within`: what surrounds the operands, and the machine with other
  surroundings.
* `Exec.IsLocal`: an action does the same in all surroundings, leaves them alone, and keeps the
  current table, the code and the outline of the scopes; `IsLocal.surroundings_eq`.
* `Exec.IsBlind`: an action does not depend on slots below the frame pointer and leaves them alone.
-/

namespace ScriptMachine

namespace Exec

variable {α β : Type}

/-- An action commutes with a change of the machine on machines with a property, and keeps the
property. -/
def Respects (change : Machine → Machine) (P : Machine → Prop) (act : Exec α) : Prop :=
  ∀ m, P m → outcome act (change m) = ((outcome act m).1, change (outcome act m).2) ∧
    P (outcome act m).2

namespace Respects

variable {change : Machine → Machine} {P : Machine → Prop}

theorem pure (a : α) : Respects change P (Pure.pure a) := fun _ h => ⟨rfl, h⟩

theorem throw (h : Halt) : Respects change P (MonadExcept.throw h : Exec α) :=
  fun _ hm => ⟨rfl, hm⟩

theorem bind {act : Exec α} {next : α → Exec β} (hact : Respects change P act)
    (hnext : ∀ a, Respects change P (next a)) : Respects change P (act >>= next) := by
  intro m hm
  obtain ⟨hcomm, hkeep⟩ := hact m hm
  rw [outcome_bind, outcome_bind, hcomm]
  rcases hout : outcome act m with ⟨r | a, m'⟩
  · rw [hout] at hkeep
    exact ⟨rfl, hkeep⟩
  · rw [hout] at hkeep
    exact hnext a m' hkeep

/-- Reading the machine is harmless when what follows reads only what the change leaves alone. -/
theorem get_bind {next : Machine → Exec β} (hread : ∀ m, next (change m) = next m)
    (hnext : ∀ m, Respects change P (next m)) : Respects change P (get >>= next) := by
  intro m hm
  rw [outcome_bind, outcome_bind, outcome_get, outcome_get]
  show outcome (next (change m)) (change m) = _ ∧ _
  rw [hread]
  exact hnext m m hm

/-- Reading a part of the machine that the change leaves alone. -/
theorem read {act : Exec α} (part : Machine → α) (hout : ∀ m, outcome act m = (.ok (part m), m))
    (hpart : ∀ m, part (change m) = part m) : Respects change P act := by
  intro m hm
  rw [hout, hout, hpart]
  exact ⟨rfl, hm⟩

theorem ofModify {f : Machine → Machine} (hcomm : ∀ m, P m → f (change m) = change (f m))
    (hkeep : ∀ m, P m → P (f m)) : Respects change P (modify f : Exec Unit) := by
  intro m hm
  rw [outcome_modify, outcome_modify, hcomm m hm]
  exact ⟨rfl, hkeep m hm⟩

theorem compositional : Compositional (μ := Exec) fun _ => Respects change P := ⟨pure, bind⟩

theorem forIn {γ σ : Type} (xs : List γ) (body : γ → σ → Exec (ForInStep σ)) (init : σ)
    (hbody : ∀ x s, Respects change P (body x s)) :
    Respects change P (ForIn.forIn xs init body) :=
  compositional.forIn fun x _ => hbody x

theorem mapM {γ : Type} (f : γ → Exec α) (xs : List γ) (hf : ∀ x, Respects change P (f x)) :
    Respects change P (xs.mapM f) :=
  compositional.mapM fun x _ => hf x

end Respects

end Exec

/-! ### Surroundings -/

/-- What surrounds the operands of the running function. -/
structure Surroundings where
  /-- The slots below the frame pointer. -/
  lower : Array Slot
  frameDepth : Nat
  blockDepth : Nat
  handlers : List Handler
  loops : List Loop
  packages : List PackageScope
  deferred : List DeferredCall
  started : List Nat
  debugging : Bool
  singleStep : Bool
  stepOver : Bool
  breakOnReturn : Bool
  observer : Observer
  suspended : List Suspended
  ended : Option (Except Fault Unit)
  tasks : Array Task

/-- The context with its operands in other surroundings. -/
def Context.within (c : Context) (g : Surroundings) : Context :=
  { c with
    stack := g.lower ++ c.operands
    fp := g.lower.size
    frameDepth := g.frameDepth
    blockDepth := g.blockDepth
    handlers := g.handlers
    loops := g.loops
    packages := g.packages
    deferred := g.deferred
    tasks := g.started
    debugging := g.debugging
    singleStep := g.singleStep
    stepOver := g.stepOver
    breakOnReturn := g.breakOnReturn
    observer := g.observer }

/-- The machine with the operands of its running function in other surroundings. -/
def Machine.within (m : Machine) (g : Surroundings) : Machine :=
  { m with
    context := m.context.within g
    suspended := g.suspended
    ended := g.ended
    tasks := g.tasks }

/-- The slots below the frame pointer. -/
def Context.lower (c : Context) : Array Slot := c.stack.extract 0 c.fp

/-- The surroundings of the operands of the running function. -/
def Machine.surroundings (m : Machine) : Surroundings where
  lower := m.context.lower
  frameDepth := m.context.frameDepth
  blockDepth := m.context.blockDepth
  handlers := m.context.handlers
  loops := m.context.loops
  packages := m.context.packages
  deferred := m.context.deferred
  started := m.context.tasks
  debugging := m.context.debugging
  singleStep := m.context.singleStep
  stepOver := m.context.stepOver
  breakOnReturn := m.context.breakOnReturn
  observer := m.context.observer
  suspended := m.suspended
  ended := m.ended
  tasks := m.tasks

/-- The machine with another operand stack. -/
def Machine.withStack (m : Machine) (stack : Array Slot) : Machine :=
  { m with context := { m.context with stack } }

/-- Slots without frames. -/
def OnlyValues (slots : Array Slot) : Prop := ∀ s ∈ slots, ∃ v, s = .value v

/-- The operands of the running function lie above the frame pointer and are values. -/
structure Context.Grounded (c : Context) : Prop where
  fp_le : c.fp ≤ c.stack.size
  values : OnlyValues c.operands

namespace Context

variable {c : Context}

/-- A stack is what lies below the frame pointer with the operands on top. -/
theorem lower_append_operands (h : c.fp ≤ c.stack.size) : c.lower ++ c.operands = c.stack := by
  simp [lower, operands, h]

theorem size_lower (h : c.fp ≤ c.stack.size) : c.lower.size = c.fp := by
  simp [lower, h]

theorem size_operands (c : Context) : c.operands.size = c.stack.size - c.fp := by
  simp [operands]

theorem lower_append_extract {n : Nat} (hn : n ≤ c.operands.size) (h : c.fp ≤ c.stack.size) :
    c.lower ++ c.operands.extract 0 n = c.stack.extract 0 (c.fp + n) := by
  rw [size_operands] at hn
  rw [operands, lower, Array.extract_extract, Nat.add_zero, Nat.min_eq_left (by omega),
    Array.extract_append_extract, Nat.min_eq_left (by omega), Nat.max_eq_right (by omega)]

@[simp]
theorem operands_within (c : Context) (g : Surroundings) : (c.within g).operands = c.operands := by
  show (g.lower ++ c.operands).extract g.lower.size (g.lower ++ c.operands).size = c.operands
  rw [Array.extract_append, Nat.sub_self, Array.size_append, Nat.add_sub_cancel_left,
    Array.extract_empty_of_size_le_start (Nat.le_refl _), Array.empty_append, Array.extract_size]

@[simp]
theorem lower_within (c : Context) (g : Surroundings) : (c.within g).lower = g.lower := by
  simp [within, lower]

theorem operands_of_stack_eq {c : Context} {xs : Array Slot} (h : c.fp ≤ c.stack.size) :
    ({ c with stack := c.lower ++ xs } : Context).operands = xs := by
  have hlower := size_lower h
  simp [operands, ← hlower]

theorem lower_of_stack_eq {c : Context} {xs : Array Slot} (h : c.fp ≤ c.stack.size) :
    ({ c with stack := c.lower ++ xs } : Context).lower = c.lower := by
  have hsize := size_lower h
  show (c.lower ++ xs).extract 0 c.fp = c.lower
  rw [← hsize, Array.extract_append, Nat.sub_self]
  simp

theorem Grounded.within (h : c.Grounded) (g : Surroundings) : (c.within g).Grounded := by
  refine ⟨by simp [Context.within], ?_⟩
  rw [operands_within]
  exact h.values

end Context

theorem Machine.within_surroundings {m : Machine} (h : m.context.fp ≤ m.context.stack.size) :
    m.within m.surroundings = m := by
  have hstack := Context.lower_append_operands h
  have hfp := Context.size_lower h
  simp only [within, surroundings, Context.within, hstack, hfp]

@[simp]
theorem Machine.surroundings_within (m : Machine) (g : Surroundings) :
    (m.within g).surroundings = g := by
  simp [within, surroundings, Context.within, Context.lower]

/-- The running function is grounded, in a table, in its code and among scopes with an outline. -/
structure Machine.Settled (symbols : TableId) (code : Code) (outline : Arena) (m : Machine) :
    Prop where
  grounded : m.context.Grounded
  symbols_eq : m.context.symbols = symbols
  code_eq : m.context.code = code
  outline_eq : m.world.scopes.outline = outline

theorem Machine.settled_self {m : Machine} (h : m.context.Grounded) :
    m.Settled m.context.symbols m.context.code m.world.scopes.outline := ⟨h, rfl, rfl, rfl⟩

namespace Exec

variable {α β : Type}

/-- An action that does the same in all surroundings and leaves them alone, stays in the current
table and in its code, and keeps the outline of the scopes. -/
def IsLocal (act : Exec α) : Prop :=
  ∀ g symbols code outline, Respects (·.within g) (Machine.Settled symbols code outline) act

namespace IsLocal

theorem pure (a : α) : IsLocal (Pure.pure a) := fun _ _ _ _ => Respects.pure a

theorem throw (h : Halt) : IsLocal (MonadExcept.throw h : Exec α) :=
  fun _ _ _ _ => Respects.throw h

theorem fail (f : Fault) : IsLocal (Exec.fail f : Exec α) := throw (.fault f)

theorem wait : IsLocal (Exec.wait : Exec α) := throw .blocked

theorem bind {act : Exec α} {next : α → Exec β} (hact : IsLocal act)
    (hnext : ∀ a, IsLocal (next a)) : IsLocal (act >>= next) :=
  fun g symbols code outline =>
    (hact g symbols code outline).bind fun a => hnext a g symbols code outline

theorem ite {p : Prop} [Decidable p] {yes no : Exec α} (hyes : IsLocal yes) (hno : IsLocal no) :
    IsLocal (if p then yes else no) := by
  split
  · exact hyes
  · exact hno

theorem forIn {γ σ : Type} (xs : List γ) (body : γ → σ → Exec (ForInStep σ)) (init : σ)
    (hbody : ∀ x s, IsLocal (body x s)) : IsLocal (ForIn.forIn xs init body) :=
  fun g symbols code outline =>
    Respects.forIn xs body init fun x s => hbody x s g symbols code outline

theorem mapM {γ : Type} (f : γ → Exec α) (xs : List γ) (hf : ∀ x, IsLocal (f x)) :
    IsLocal (xs.mapM f) :=
  fun g symbols code outline => Respects.mapM f xs fun x => hf x g symbols code outline

theorem lift (r : Except Fault α) : IsLocal (liftM r : Exec α) := by
  cases r with
  | error f => exact throw (.fault f)
  | ok a => exact pure a

/-- Reading parts of the machine that are no surroundings. -/
theorem get_bind {next : Machine → Exec β} (hread : ∀ m g, next (m.within g) = next m)
    (hnext : ∀ m, IsLocal (next m)) : IsLocal (get >>= next) :=
  fun g symbols code outline => Respects.get_bind (fun m => hread m g) fun m =>
    hnext m g symbols code outline

/-- Reading parts of the context that are no surroundings. -/
theorem context_bind {next : Context → Exec β} (hread : ∀ c g, next (c.within g) = next c)
    (hnext : ∀ c, IsLocal (next c)) : IsLocal (context >>= next) := by
  have hget : (context >>= next) = (get >>= fun m => next m.context) := rfl
  rw [hget]
  exact get_bind (fun m g => hread m.context g) fun m => hnext m.context

theorem heap : IsLocal Exec.heap :=
  fun _ _ _ _ => Respects.read (·.world.heap) outcome_heap fun _ => rfl

theorem scopes : IsLocal Exec.scopes :=
  fun _ _ _ _ => Respects.read (·.world.scopes) outcome_scopes fun _ => rfl

/-- Computations on the world that keep the outline of the scopes. -/
theorem onWorld {act : WorldM α} (h : WorldM.KeepsOutline act) : IsLocal (Exec.onWorld act) := by
  intro g symbols code outline m hm
  refine ⟨rfl, hm.grounded, hm.symbols_eq, hm.code_eq, ?_⟩
  exact (h m.world).trans hm.outline_eq

theorem onHeap (act : StateM Heap α) : IsLocal (Exec.onHeap act) :=
  onWorld (World.keepsOutline_onHeap act)

theorem note (c : Category) (message : Unit → String) : IsLocal (Exec.note c message) :=
  onWorld (World.keepsOutline_note c message)

theorem noteThread (c : Category) (message : Unit → String) :
    IsLocal (Exec.noteThread c message) :=
  get_bind (fun _ _ => rfl) fun _ => ite (note c _) (pure ())

theorem onObjects (act : HeapM α) : IsLocal (Exec.onObjects act) := by
  refine (onHeap act.run).bind fun r => ?_
  cases r with
  | error f => exact throw (.fault f)
  | ok a => exact pure a

/-- Changes of the context that concern neither the stack nor the surroundings. -/
theorem modifyContext {f : Context → Context} (hcomm : ∀ c g, f (c.within g) = (f c).within g)
    (hstack : ∀ c, (f c).stack = c.stack) (hfp : ∀ c, (f c).fp = c.fp)
    (hsymbols : ∀ c, (f c).symbols = c.symbols)
    (hcode : ∀ c, (f c).code = c.code) :
    IsLocal (Exec.modifyContext f) := by
  intro g symbols code outline m hm
  refine ⟨?_, ⟨?_, ?_⟩, ?_, ?_, hm.outline_eq⟩
  · rw [outcome_modifyContext, outcome_modifyContext]
    show (_, _) = (_, _)
    simp only [Machine.within, hcomm]
  · show (f m.context).fp ≤ (f m.context).stack.size
    rw [hfp, hstack]
    exact hm.grounded.fp_le
  · show OnlyValues (f m.context).operands
    rw [Context.operands, hfp, hstack]
    exact hm.grounded.values
  · exact (hsymbols m.context).trans hm.symbols_eq
  · exact (hcode m.context).trans hm.code_eq

/-- An action that does no more than replace the operands, by what they alone determine. -/
theorem ofOperands {act : Exec α} (f : Array Slot → Except Halt α × Array Slot)
    (hout : ∀ m : Machine, m.context.Grounded → outcome act m =
      ((f m.context.operands).1, m.withStack (m.context.lower ++ (f m.context.operands).2)))
    (hvalues : ∀ xs, OnlyValues xs → OnlyValues (f xs).2) : IsLocal act := by
  intro g symbols code outline m hm
  have hfp := hm.grounded.fp_le
  rw [hout _ hm.grounded, hout (m.within g) (hm.grounded.within g)]
  show ((f (m.context.within g).operands).1, (m.within g).withStack
    ((m.context.within g).lower ++ (f (m.context.within g).operands).2)) = _ ∧ _
  rw [Context.operands_within, Context.lower_within]
  refine ⟨?_, ⟨?_, ?_⟩, hm.symbols_eq, hm.code_eq, hm.outline_eq⟩
  · simp only [Machine.withStack, Machine.within, Context.within,
      Context.operands_of_stack_eq hfp]
  · have := Context.size_lower hfp
    simp only [Machine.withStack, Array.size_append]
    omega
  · show OnlyValues ({ m.context with stack := _ } : Context).operands
    rw [Context.operands_of_stack_eq hfp]
    exact hvalues _ hm.grounded.values

end IsLocal

/-- A local action leaves the surroundings alone. -/
theorem IsLocal.surroundings_eq {act : Exec α} (h : IsLocal act) {m : Machine}
    (hm : m.context.Grounded) : (outcome act m).2.surroundings = m.surroundings := by
  obtain ⟨hcomm, -⟩ := h m.surroundings _ _ _ m (Machine.settled_self hm)
  simp only [Machine.within_surroundings hm.fp_le] at hcomm
  have hm' := congrArg (·.2.surroundings) hcomm
  simpa using hm'

end Exec

end ScriptMachine
