import ScriptMachine.Proofs.Action.Ordinary

/-!
# Actions that heed loops

All instructions but those of loops, and returns, leave the loops of every context alone and spare
what they walk. A context that is set going has no loops.

* `Machine.loopStacks`: the loops of the running context and of those that wait for it.
* `Machine.Spares`: what actions keep that have to do with no loop; `IsPlain.isSparing`.
* `Machine.Heeds`: contexts without loops may have been set going, and tasks started.
* `IsOrdinary.isHeedful`, `execute_isHeedful`: ordinary actions and instructions do no more.
-/

namespace ScriptMachine

/-- A task that has not begun. -/
def TaskStage.IsPending : TaskStage → Prop
  | .pending .. => True
  | _ => False

namespace Machine

/-- The loops of the running context and of those that wait for it, innermost context first. -/
def loopStacks (m : Machine) : List (List Loop) :=
  m.context.loops :: m.suspended.map (·.context.loops)

/-- Only parts that have to do with no loop have changed, and what loops walk is spared. -/
structure Spares (m m' : Machine) : Prop where
  loops_eq : m'.context.loops = m.context.loops
  suspended_eq : m'.suspended = m.suspended
  tasks_eq : m'.tasks = m.tasks
  heap : m.world.heap.Spares m'.world.heap

instance : Std.Refl Spares := ⟨fun m => ⟨rfl, rfl, rfl, .refl m.world.heap⟩⟩

instance : Trans Spares Spares Spares where
  trans h h' := ⟨h'.loops_eq.trans h.loops_eq, h'.suspended_eq.trans h.suspended_eq,
    h'.tasks_eq.trans h.tasks_eq, h.heap.trans h'.heap⟩

/-- Only parts that have to do with no loop have changed, and the objects are the same. -/
structure Rests (m m' : Machine) : Prop where
  loops_eq : m'.context.loops = m.context.loops
  suspended_eq : m'.suspended = m.suspended
  tasks_eq : m'.tasks = m.tasks
  heap_eq : m'.world.heap = m.world.heap

instance : Std.Refl Rests := ⟨fun _ => ⟨rfl, rfl, rfl, rfl⟩⟩

instance : Trans Rests Rests Rests where
  trans h h' := ⟨h'.loops_eq.trans h.loops_eq, h'.suspended_eq.trans h.suspended_eq,
    h'.tasks_eq.trans h.tasks_eq, h'.heap_eq.trans h.heap_eq⟩

theorem Rests.spares {m m' : Machine} (h : m.Rests m') : m.Spares m' where
  loops_eq := h.loops_eq
  suspended_eq := h.suspended_eq
  tasks_eq := h.tasks_eq
  heap := by
    rw [h.heap_eq]
    exact .refl _

/-- The loops have stayed and what they walk is spared; contexts without loops may have been set
going, and tasks started. -/
structure Heeds (m m' : Machine) : Prop where
  loopStacks_eq : ∃ fresh, m'.loopStacks = List.replicate fresh [] ++ m.loopStacks
  suspended : m.suspended <:+ m'.suspended
  tasks_eq : ∃ started : Array Task, (∀ t ∈ started, t.stage.IsPending) ∧
    m'.tasks = m.tasks ++ started
  heap : m.world.heap.Spares m'.world.heap

theorem Spares.heeds {m m' : Machine} (h : m.Spares m') : m.Heeds m' where
  loopStacks_eq := by
    refine ⟨0, ?_⟩
    rw [loopStacks, loopStacks, h.loops_eq, h.suspended_eq]
    rfl
  suspended := by rw [h.suspended_eq]
  tasks_eq := ⟨#[], fun t ht => absurd ht (Array.not_mem_empty t),
    by rw [h.tasks_eq, Array.append_empty]⟩
  heap := h.heap

instance : Std.Refl Heeds := ⟨fun m => (Std.Refl.refl (r := Spares) m).heeds⟩

instance : Trans Heeds Heeds Heeds where
  trans := by
    rintro m m' m'' ⟨⟨fresh, hstacks⟩, hsuspended, ⟨started, hpending, htasks⟩, hspares⟩
      ⟨⟨fresh', hstacks'⟩, hsuspended', ⟨started', hpending', htasks'⟩, hspares'⟩
    refine ⟨⟨fresh' + fresh, ?_⟩, hsuspended.trans hsuspended',
      ⟨started ++ started', fun t ht => ?_, ?_⟩, hspares.trans hspares'⟩
    · rw [hstacks', hstacks, ← List.append_assoc, List.replicate_append_replicate]
    · exact (Array.mem_append.1 ht).elim (hpending t) (hpending' t)
    · rw [htasks', htasks, Array.append_assoc]

end Machine

namespace Exec

open Machine

variable {α β : Type}

/-- An action that has to do with no loop, whether it succeeds or not. -/
abbrev IsSparing (act : Exec α) : Prop := Keeps Machine.Spares act

namespace IsSparing

theorem pure (a : α) : IsSparing (Pure.pure a) := Keeps.pure a

theorem bind {act : Exec α} {next : α → Exec β} (hact : IsSparing act)
    (hnext : ∀ a, IsSparing (next a)) : IsSparing (act >>= next) := Keeps.bind hact hnext

/-- Computations on the world that spare what loops walk. -/
theorem onWorld {act : WorldM α} (h : ∀ w : World, w.heap.Spares (act.run w).2.heap) :
    IsSparing (Exec.onWorld act) :=
  fun m => ⟨rfl, rfl, rfl, h m.world⟩

/-- Changes of the context that leave the loops alone. -/
theorem modifyContext {f : Context → Context} (hloops : ∀ c, (f c).loops = c.loops) :
    IsSparing (Exec.modifyContext f) :=
  fun m => ⟨hloops m.context, rfl, rfl, .refl m.world.heap⟩

theorem setScopes (a : Arena) : IsSparing (Exec.setScopes a) :=
  fun m => ⟨rfl, rfl, rfl, .refl m.world.heap⟩

theorem pop : IsSparing Exec.pop := by
  refine bind Keeps.get fun m => Keeps.ite (Keeps.fail _) ?_
  split
  · exact bind (modifyContext fun _ => rfl) fun _ => pure _
  · exact Keeps.fail _

theorem peek : IsSparing Exec.peek := by
  refine bind Keeps.context fun c => Keeps.ite (Keeps.fail _) ?_
  split
  · exact pure _
  · exact Keeps.fail _

theorem popArgs (count : Nat) : IsSparing (Exec.popArgs count) :=
  bind Keeps.context fun _ => Keeps.ite (Keeps.fail _)
    (bind (modifyContext fun _ => rfl) fun _ => Keeps.ite (Keeps.fail _) (pure _))

theorem dropToMarkerWithin (steps : Nat) : IsSparing (Exec.dropToMarkerWithin steps) := by
  induction steps with
  | zero => exact pure _
  | succ steps ih =>
    exact bind Keeps.context fun c => Keeps.ite (bind pop fun v => Keeps.ite ih (pure _)) (pure _)

end IsSparing

/-- **Plain actions have to do with no loop.** -/
theorem IsPlain.isSparing {act : Exec α} (h : IsPlain True True act) : IsSparing act := by
  induction h with
  | pure a => exact .pure a
  | throw _ => exact .throw _
  | bind _ _ ihact ihnext => exact .bind ihact ihnext
  | get_bind _ _ _ _ ih => exact fun m => ih m m
  | push v => exact .modifyContext fun _ => rfl
  | pop => exact .pop
  | peek => exact .peek
  | popArgs count => exact .popArgs count
  | dropToMarker => exact .bind Keeps.context fun _ => .dropToMarkerWithin _
  | write text => exact .modifyContext fun _ => rfl
  | onWorld h => exact .onWorld fun w => (h.keeps w).2
  | attempt toHalt h _ =>
    exact .bind (.onWorld fun w => (h.keeps w).2) fun r => Keeps.result (r.mapError toHalt)
  | store _ name v =>
    refine .bind Keeps.context fun c =>
      .bind (.onWorld (IsPlain.spares_assign c.symbols name v)) fun r => ?_
    cases r with
    | ok u => exact .pure u
    | error f => exact Keeps.fail f
  | changeScopes _ write _ =>
    exact .bind Keeps.scopes fun a => .bind (Keeps.lift _) fun b => .setScopes b
  | branchTarget _ operand =>
    refine .bind Keeps.get fun m => ?_
    dsimp only
    split
    · exact Keeps.ite (Keeps.pure _) (Keeps.fail _)
    · exact Keeps.fail _
  | goTo _ address => exact .modifyContext fun _ => rfl
  | adjust _ hadjusts _ _ =>
    refine .modifyContext fun c => ?_
    rw [hadjusts]
    rfl

theorem IsSparing.observe (x : Happening) : IsSparing (Exec.observe x) := by
  intro m
  obtain ⟨j, o, hout⟩ := outcome_observe x m
  rw [hout]
  exact ⟨rfl, rfl, rfl, .refl m.world.heap⟩

theorem IsSparing.finish : IsSparing Exec.finish :=
  bind (modifyContext fun _ => rfl) fun _ => bind Keeps.context fun _ =>
    bind (IsPlain.note _ _).isSparing fun _ m => ⟨rfl, rfl, rfl, .refl m.world.heap⟩

/-- An action that has to do with no loop and leaves the objects alone. -/
abbrev IsResting (act : Exec α) : Prop := Keeps Rests act

namespace IsResting

theorem bind {act : Exec α} {next : α → Exec β} (hact : IsResting act)
    (hnext : ∀ a, IsResting (next a)) : IsResting (act >>= next) := Keeps.bind hact hnext

theorem modifyContext {f : Context → Context} (hloops : ∀ c, (f c).loops = c.loops) :
    IsResting (Exec.modifyContext f) := fun m => ⟨hloops m.context, rfl, rfl, rfl⟩

/-- Waiting for tasks. -/
theorem joinTasks : IsResting Exec.joinTasks := by
  refine bind Keeps.get fun m => ?_
  split
  · exact Keeps.wait
  · refine bind (.modifyContext fun _ => rfl) fun _ => ?_
    split
    · exact Keeps.fail _
    · exact Keeps.pure _

end IsResting

theorem IsResting.isHeedful {act : Exec α} (h : IsResting act) : Keeps Heeds act :=
  fun m => (h m).spares.heeds

/-- An action that heeds loops, whether it succeeds or not. -/
abbrev IsHeedful (act : Exec α) : Prop := Keeps Heeds act

theorem IsSparing.isHeedful {act : Exec α} (h : IsSparing act) : IsHeedful act :=
  fun m => (h m).heeds

theorem IsPlain.isHeedful {act : Exec α} (h : IsPlain True True act) : IsHeedful act := h.isSparing.isHeedful

namespace IsHeedful

theorem pure (a : α) : IsHeedful (Pure.pure a) := Keeps.pure a

theorem bind {act : Exec α} {next : α → Exec β} (hact : IsHeedful act)
    (hnext : ∀ a, IsHeedful (next a)) : IsHeedful (act >>= next) := Keeps.bind hact hnext

theorem modifyContext {f : Context → Context} (hloops : ∀ c, (f c).loops = c.loops) :
    IsHeedful (Exec.modifyContext f) := (IsSparing.modifyContext hloops).isHeedful

/-- The context of a call begins without loops. -/
theorem callContext_bind (symbols : TableId) (settings : Settings) (callable : Value)
    (args : List Value) {next : Context → Exec α}
    (hnext : ∀ c, c.loops = [] → IsHeedful (next c)) :
    IsHeedful (Exec.onWorld (World.callContext symbols settings callable args) >>= next) := by
  intro m
  rw [outcome_bind_ok (outcome_onWorld _ m)]
  have hbegun : Spares m { m with
      world := ((World.callContext symbols settings callable args).run m.world).2 } :=
    ⟨rfl, rfl, rfl, .refl m.world.heap⟩
  exact Trans.trans hbegun.heeds (hnext _ rfl _)

theorem enterScratch {c : Context} (hloops : c.loops = []) (awaiting : Awaiting) :
    IsHeedful (Exec.enterScratch c awaiting) := by
  refine fun m => ⟨⟨1, ?_⟩, List.suffix_cons _ _,
    ⟨#[], fun t ht => absurd ht (Array.not_mem_empty t), ?_⟩, .refl m.world.heap⟩
  · exact congrArg (· :: m.loopStacks) hloops
  · exact Array.append_empty.symm

theorem askOrdering (r : Ref .array) (less : Value) (size i j : Nat) :
    IsHeedful (Exec.askOrdering r less size i j) :=
  bind Keeps.context fun _ => callContext_bind _ _ _ _ fun _ hloops => enterScratch hloops _

end IsHeedful

/-- **Ordinary actions heed loops.** -/
theorem IsOrdinary.isHeedful {act : Exec α} (h : IsOrdinary act) : IsHeedful act := by
  induction h with
  | plain h => exact h.isHeedful
  | throw halt => exact Keeps.throw halt
  | bind _ _ ihact ihnext => exact .bind ihact ihnext
  | get => exact Keeps.get
  | onWorld h => exact (IsSparing.onWorld h).isHeedful
  | setScopes a => exact (IsSparing.setScopes a).isHeedful
  | modifyContext hcore =>
    exact .modifyContext fun c => congrArg (fun core => core.2.2.2.1) (hcore c)
  | observe x => exact (IsSparing.observe x).isHeedful
  | pushFrame name table code pc =>
    exact .bind Keeps.context fun _ => .bind (IsPlain.noteThread _ _).isHeedful fun _ =>
      .bind (.modifyContext fun _ => rfl) fun _ => .bind Keeps.context fun _ =>
      (IsSparing.observe _).isHeedful
  | askOrdering r less size i j => exact .askOrdering r less size i j
  | startTask name callable args =>
    refine fun m => ⟨⟨0, rfl⟩, List.suffix_refl _,
      ⟨#[⟨"go " ++ name, .pending callable args m.context.settings⟩], fun t ht => ?_, rfl⟩,
      .refl m.world.heap⟩
    rw [Array.mem_singleton.1 ht]
    trivial

/-- **All instructions heed loops** but those that begin a loop, go on with it, or return. -/
theorem execute_isHeedful {i : Instruction} (hbegin : i.op ≠ .rangeInit) (hnext : i.op ≠ .rangeNext)
    (hreturn : i.op ≠ .return) : IsHeedful (execute i) := by
  by_cases hdefer : i.op = .defer
  · rw [show execute i = deferCall i.operand by simp only [execute, hdefer]]
    exact .bind (IsPlain.operandCount _ 0).isHeedful fun _ =>
      .bind (IsOrdinary.popCall _).isHeedful fun _ => .modifyContext fun _ => rfl
  · exact (execute_isOrdinary hbegin hnext hdefer hreturn).isHeedful

end Exec

end ScriptMachine
