import ScriptMachine.Machine.Run
import ScriptMachine.Proofs.Literals.Library

/-!
# Machines apart from literals

A machine whose values, wherever it keeps them, are apart from the literals of its code, and the
primitive actions that keep it so.

* `Context.Apart`, `Thread.Apart`, `Machine.Apart`: all that contexts, threads and machines hold.
* `Exec.Upholds`: an action keeps a machine so, and its result satisfies a property.
* `Upholds.push`, `Upholds.popArgs` and companions: one lemma for each primitive action.
-/

namespace ScriptMachine

/-! ### What machines hold -/

section

variable (L : Literals)

def Receiver.Apart (r : Receiver) : Prop := r.value.Apart L

structure DeferredCall.Apart (d : DeferredCall) : Prop where
  callable : d.callable.Apart L
  args : ∀ v ∈ d.args, v.Apart L

structure Frame.Apart (f : Frame) : Prop where
  code : f.code.Spells L
  receivers : ∀ r ∈ f.receivers, r.Apart L
  deferred : ∀ d ∈ f.deferred, d.Apart L

def Slot.Apart : Slot → Prop
  | .value v => v.Apart L
  | .frame f => f.Apart L

def Walked.Apart : Walked → Prop
  | .map r keys => (Value.map r).Apart L ∧ ∀ k ∈ keys, k.Apart L
  | .array r => (Value.array r).Apart L
  | .runes _ | .channel _ => True

/-- A context whose code spells literals, and whose values are apart from them. -/
structure Context.Apart (c : Context) : Prop where
  code : c.code.Spells L
  stack : ∀ s ∈ c.stack, s.Apart L
  receivers : ∀ r ∈ c.receivers, r.Apart L
  deferred : ∀ d ∈ c.deferred, d.Apart L
  result : ∀ v, c.result = some v → v.Apart L
  loops : ∀ l ∈ c.loops, l.walked.Apart L

def Awaiting.Apart : Awaiting → Prop
  | .deferred => True
  | .ordering r less _ _ _ => (Value.array r).Apart L ∧ less.Apart L

structure Suspended.Apart (s : Suspended) : Prop where
  context : s.context.Apart L
  awaiting : s.awaiting.Apart L

structure Thread.Apart (t : Thread) : Prop where
  context : t.context.Apart L
  suspended : ∀ s ∈ t.suspended, s.Apart L

def TaskStage.Apart : TaskStage → Prop
  | .pending callable args _ => callable.Apart L ∧ ∀ v ∈ args, v.Apart L
  | .running _ t => t.Apart L
  | .finished _ => True

/-- The containers of literals are reached through code alone: all code spells literals, and all
other values, wherever the machine holds them, are apart from them. -/
structure Machine.Apart (m : Machine) : Prop where
  world : m.world.Apart L
  context : m.context.Apart L
  suspended : ∀ s ∈ m.suspended, s.Apart L
  tasks : ∀ t ∈ m.tasks, t.stage.Apart L

/-- An action keeps a machine apart from the literals, and its result satisfies `P`. -/
abbrev Exec.Upholds {α : Type} (act : Exec α) (P : α → Prop) : Prop :=
  ScriptMachine.Upholds (Machine.Apart L) act P

end

namespace Exec.Upholds

variable {L : Literals} {α β : Type} {P : α → Prop} {v w : Value}

/-! ### Reading and checking -/

theorem fail (f : Fault) : Upholds L (Exec.fail f : Exec α) P := .throw _

theorem wait : Upholds L (Exec.wait : Exec α) P := .throw _

theorem lift {r : Except Fault α} (h : Ensures r P) : Upholds L (liftM r : Exec α) P := by
  cases r with
  | ok a => exact .pure (h a rfl)
  | error f => exact .throw _

theorem check (r : Except Fault α) : Upholds L (liftM r : Exec α) fun _ => True := lift (.any r)

theorem heap : Upholds L Exec.heap (Heap.Apart L) := .bind .get fun _ hm => .pure hm.world.heap

theorem scopes : Upholds L Exec.scopes (Arena.Apart L) :=
  .bind .get fun _ hm => .pure hm.world.scopes

theorem context : Upholds L Exec.context (Context.Apart L) := .bind .get fun _ hm => .pure hm.context

/-! ### The world -/

theorem onWorld {act : WorldM α} (h : Maintains (World.Apart L) act P) :
    Upholds L (Exec.onWorld act) P := fun m hm =>
  ⟨{ hm with world := (h m.world hm.world).1 }, .ok (h m.world hm.world).2⟩

theorem onHeap {act : StateM Heap α} (h : Maintains (Heap.Apart L) act P) :
    Upholds L (Exec.onHeap act) P := onWorld (World.Apart.onHeap h)

theorem onObjects {act : HeapM α} (h : ScriptMachine.Upholds (Heap.Apart L) act P) :
    Upholds L (Exec.onObjects act) P := by
  refine .bind (P := (Ensures · P)) (onHeap h) fun r hr => ?_
  cases r with
  | ok a => exact .pure (hr a rfl)
  | error f => exact .throw _

theorem ofWorldAction {act : WorldAction α} (h : WorldAction.Upholds L act P) :
    Upholds L (Exec.ofWorldAction act) P := by
  refine .bind (P := (Ensures · P)) (onWorld h) fun r hr => ?_
  cases r with
  | ok a => exact .pure (hr a rfl)
  | error halt => exact .throw halt

theorem setScopes {a : Arena} (ha : a.Apart L) : Upholds L (Exec.setScopes a) fun _ => True :=
  ScriptMachine.Upholds.write fun _ hm => { hm with world := ⟨hm.world.heap, ha⟩ }

/-- A write to the scopes, of a value that is apart. -/
theorem write (w : Arena.Write) (hv : w.value.Apart L) : Upholds L (do
    Exec.setScopes (← (← Exec.scopes).write w)) fun _ => True :=
  .bind scopes fun _ ha => .bind (lift fun _ hb => ha.write hv hb) fun _ hb => setScopes hb

theorem note (c : Category) (message : Unit → String) :
    Upholds L (Exec.note c message) fun _ => True := onWorld (World.Apart.note c message)

theorem noteThread (c : Category) (message : Unit → String) :
    Upholds L (Exec.noteThread c message) fun _ => True :=
  .bind .get fun _ _ => .ite (note c _) (.pure trivial)

/-! ### The context -/

theorem modifyContext {f : Context → Context} (h : ∀ c, c.Apart L → (f c).Apart L) :
    Upholds L (Exec.modifyContext f) fun _ => True :=
  ScriptMachine.Upholds.write fun m hm => { hm with context := h m.context hm.context }

theorem observe (x : Happening) : Upholds L (Exec.observe x) fun _ => True := by
  have hobserved : Upholds L (Exec.modifyContext fun c =>
      { c with observer := c.observer.observe x }) fun _ => True :=
    modifyContext fun _ hc => { hc with }
  refine .bind .get fun m _ => ?_
  dsimp only
  split
  · split
    · exact .bind (note _ _) fun _ _ => hobserved
    · exact hobserved
  · exact hobserved

theorem output (text : String) : Upholds L (Exec.write text) fun _ => True :=
  modifyContext fun _ hc => { hc with }

/-! ### Operands -/

theorem push (hv : v.Apart L) : Upholds L (Exec.push v) fun _ => True :=
  modifyContext fun _ hc => { hc with
    stack := fun s hs => (Array.mem_push.1 hs).elim (hc.stack s) fun heq => heq ▸ hv }

theorem mem_of_mem_pop {γ : Type} {xs : Array γ} {x : γ} (h : x ∈ xs.pop) : x ∈ xs := by
  obtain ⟨k, hk, rfl⟩ := Array.mem_iff_getElem.1 h
  rw [Array.getElem_pop]
  exact Array.getElem_mem _

theorem pop : Upholds L Exec.pop (Value.Apart L) := by
  refine .bind .get fun m hm => ?_
  split
  · exact fail _
  · split
    · rename_i v hv
      refine .bind (modifyContext fun c hc => { hc with
        stack := fun s hs => hc.stack s (mem_of_mem_pop hs) }) fun _ _ => .pure ?_
      exact hm.context.stack _ (Array.mem_of_back? hv)
    · exact fail _

theorem popValue : Upholds L Exec.popValue (Value.Apart L) :=
  .bind pop fun _ hv => .ite (fail _) (.pure hv)

theorem popUnwrapped : Upholds L Exec.popUnwrapped (Value.Apart L) :=
  .bind popValue fun _ hv => .pure hv.unwrapped

theorem peek : Upholds L Exec.peek (Value.Apart L) := by
  refine .bind context fun c hc => ?_
  split
  · exact fail _
  · split
    · rename_i v hv
      exact .pure (hc.stack _ (Array.mem_of_back? hv))
    · exact fail _

theorem slotValues {slots : Array Slot} (h : ∀ s ∈ slots, s.Apart L) :
    ∀ v ∈ Exec.slotValues slots, v.Apart L := by
  intro v hv
  obtain ⟨s, hs, hvalue⟩ := List.mem_filterMap.1 hv
  cases s with
  | frame f => cases hvalue
  | value u =>
    cases hvalue
    exact h _ (Array.mem_toList_iff.1 hs)

theorem popArgs (count : Nat) :
    Upholds L (Exec.popArgs count) fun args => ∀ v ∈ args, v.Apart L := by
  refine .bind context fun c hc => ?_
  split
  · exact fail _
  · refine .bind (modifyContext fun c' hc' => { hc' with
      stack := fun s hs => hc'.stack s (mem_of_mem_extract hs) }) fun _ _ => .ite (fail _) (.pure ?_)
    exact slotValues fun s hs => hc.stack s (mem_of_mem_extract hs)

theorem operands {c : Context} (hc : c.Apart L) : ∀ s ∈ c.operands, s.Apart L :=
  fun s hs => hc.stack s (mem_of_mem_extract hs)

/-! ### Instruction operands -/

theorem operandName (operand : Value) : Upholds L (Exec.operandName operand) fun _ => True := by
  unfold Exec.operandName
  split
  · exact .pure trivial
  · exact fail _

theorem operandCount (operand : Value) (default : Nat) :
    Upholds L (Exec.operandCount operand default) fun _ => True :=
  .ite (.pure trivial) (check _)

theorem branchTarget (operand : Value) : Upholds L (Exec.branchTarget operand) fun _ => True := by
  refine .bind .get fun m _ => ?_
  dsimp only
  split
  · exact .ite (.pure trivial) (fail _)
  · exact fail _

/-! ### Names -/

theorem lookup? (name : String) :
    Upholds L (Exec.lookup? name) fun found => ∀ v, found = some v → v.Apart L :=
  .bind .get fun _ hm => .pure fun _ hv => hm.world.scopes.get? hv

theorem lookup (name : String) : Upholds L (Exec.lookup name) (Value.Apart L) := by
  refine .bind (lookup? name) fun found hfound => ?_
  cases found with
  | some v => exact .pure (hfound v rfl)
  | none => exact fail _

theorem store (name : String) (hv : v.Apart L) : Upholds L (Exec.store name v) fun _ => True := by
  refine .bind context fun c _ => .bind (onWorld (World.Apart.assign c.symbols name hv)) fun r _ => ?_
  cases r with
  | ok u => exact .pure trivial
  | error f => exact fail f

theorem storeIn (table : TableId) (name : String) (hv : v.Apart L) :
    Upholds L (Exec.storeIn table name v) fun _ => True := write (.setAlways table name v) hv

theorem storeHere (name : String) (hv : v.Apart L) :
    Upholds L (Exec.storeHere name v) fun _ => True :=
  .bind context fun c _ => storeIn c.symbols name hv

/-- A write to the scopes that starts from the current table. -/
theorem writeHere (w : TableId → Arena.Write) (hv : ∀ id, (w id).value.Apart L) : Upholds L (do
    let a ← Exec.scopes
    let c ← Exec.context
    Exec.setScopes (← a.write (w c.symbols))) fun _ => True :=
  .bind scopes fun _ ha => .bind context fun c _ =>
    .bind (lift fun _ hb => ha.write (hv c.symbols) hb) fun _ hb => setScopes hb

theorem create (name : String) : Upholds L (Exec.create name) fun _ => True :=
  writeHere (fun id => .create id name) fun _ => .plain rfl rfl

/-! ### Values -/

theorem display (v : Value) : Upholds L (Exec.display v) fun _ => True :=
  .bind heap fun _ _ => .pure trivial

theorem truthy (v : Value) : Upholds L (Exec.truthy v) fun _ => True :=
  .bind heap fun _ _ => .pure trivial

theorem pushList {values : List Value} (h : ∀ v ∈ values, v.Apart L) :
    Upholds L (Exec.pushList values) fun _ => True :=
  .bind (onHeap (Heap.Apart.newList h)) fun _ hv => push hv

end Exec.Upholds

end ScriptMachine
