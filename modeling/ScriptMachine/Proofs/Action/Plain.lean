import ScriptMachine.Proofs.Action.Library
import ScriptMachine.Proofs.Action.Operands

/-!
# Plain actions

Most instructions are made of a few primitive actions on operands, names, objects and output. What
holds of these and lasts through composition holds of all such instructions.

* `WorldM.IsPlain`: a computation on the world that leaves the scopes alone, spares frozen
  containers and does not read the events of the journal.
* `Context.adjusted`: a context with the particulars of another one.
* `Machine.placed`: the machine at another place in code.
* `Exec.IsPlain`: an action is made of primitive ones, which may write symbols or not, and depend on
  the place in code or not.
* `IsPlain.isLocal`: plain actions are local.
* `Machine.StaysIn`, `IsPlain.staysIn`: those that write no symbols leave the scopes and the current
  one alone.
-/

namespace ScriptMachine

/-- A computation on the world that leaves the scopes alone, spares frozen containers and does not
read the events of the journal. -/
structure WorldM.IsPlain {α : Type} (act : WorldM α) : Prop where
  keeps : ∀ w : World, (act.run w).2.scopes = w.scopes ∧ w.heap.Spares (act.run w).2.heap
  unread : act.IsUnread

/-- The context with the particulars of another one: what plain actions change directly. -/
def Context.adjusted (c d : Context) : Context :=
  { c with
    pc := d.pc
    package := d.package
    line := d.line
    sourceFile := d.sourceFile
    timers := d.timers
    receivers := d.receivers
    result := d.result
    extraArgs := d.extraArgs
    staticTypes := d.staticTypes }

/-- The context at another place in code. -/
def Context.placed (c : Context) (code : Code) (pc : Nat) : Context := { c with code, pc }

/-- The machine at another place in code. -/
def Machine.placed (m : Machine) (code : Code) (pc : Nat) : Machine :=
  { m with context := m.context.placed code pc }

/-- The scopes and the current one stay as they are. -/
structure Machine.StaysIn (m m' : Machine) : Prop where
  scopes_eq : m'.world.scopes = m.world.scopes
  symbols_eq : m'.context.symbols = m.context.symbols

instance : Std.Refl Machine.StaysIn := ⟨fun _ => ⟨rfl, rfl⟩⟩

instance : Trans Machine.StaysIn Machine.StaysIn Machine.StaysIn :=
  ⟨fun h₁ h₂ => ⟨h₂.scopes_eq.trans h₁.scopes_eq, h₂.symbols_eq.trans h₁.symbols_eq⟩⟩

namespace Exec

/-- An outcome that is given leaves the machine as it is. -/
theorem Keeps.result {α : Type} {R : Machine → Machine → Prop} [hrefl : Std.Refl R]
    (r : Except Halt α) : Keeps R (ExceptT.mk (Pure.pure r) : Exec α) := fun m => hrefl.refl m

/-- An action made of primitive ones on operands, names, objects and output, among them writes to the
scopes if `W` holds, and branches if `B` holds; all others do the same wherever the code is. -/
inductive IsPlain (W B : Prop) : {α : Type} → Exec α → Prop
  | pure {α : Type} (a : α) : IsPlain W B (Pure.pure a)
  | throw {α : Type} {h : Halt} (hquiet : h.IsQuiet) : IsPlain W B (MonadExcept.throw h : Exec α)
  | bind {α β : Type} {act : Exec α} {next : α → Exec β} (hact : IsPlain W B act)
      (hnext : ∀ a, IsPlain W B (next a)) : IsPlain W B (act >>= next)
  /-- Reading parts of the machine that are no surroundings and that no veil covers, and not the
  place in code. -/
  | get_bind {β : Type} {next : Machine → Exec β} (hread : ∀ m g, next (m.within g) = next m)
      (hveil : ∀ m k, next (m.veiled k) = next m)
      (hplace : ∀ m code pc, next (m.placed code pc) = next m) (hnext : ∀ m, IsPlain W B (next m)) :
      IsPlain W B (get >>= next)
  | push (v : Value) : IsPlain W B (push v)
  | pop : IsPlain W B pop
  | peek : IsPlain W B peek
  | popArgs (count : Nat) : IsPlain W B (popArgs count)
  | dropToMarker : IsPlain W B dropToMarker
  | write (text : String) : IsPlain W B (write text)
  | onWorld {α : Type} {act : WorldM α} (h : act.IsPlain) : IsPlain W B (onWorld act)
  /-- A computation on the world that may not complete. -/
  | attempt {α ε : Type} {act : WorldM (Except ε α)} (toHalt : ε → Halt) (h : act.IsPlain)
      (hquiet : ∀ w, Halt.QuietIn ((act.run w).1.mapError toHalt)) :
      IsPlain W B (Exec.onWorld act >>= fun r => ExceptT.mk (Pure.pure (r.mapError toHalt)))
  /-- Writing a visible name, or defining it in the current table. -/
  | store (hW : W) (name : String) (v : Value) : IsPlain W B (Exec.store name v)
  /-- Writes to the scopes that keep their outline. -/
  | changeScopes (hW : W) (write : Arena → Except Fault Arena)
      (h : ∀ a b, write a = .ok b → b.outline = a.outline) [hquiet : ∀ a, Quiet (write a)] :
      IsPlain W B (do setScopes (← write (← scopes)))
  /-- Changes of the particulars of the context. -/
  | adjust {f : Context → Context} (hcomm : ∀ c g, f (c.within g) = (f c).within g)
      (hadjusts : ∀ c, f c = c.adjusted (f c))
      (hveil : ∀ c k, f (c.veiled k) = (f c).veiled k)
      (hplace : ∀ c code pc, f (c.placed code pc) = (f c).placed code pc) :
      IsPlain W B (modifyContext f)
  /-- Reading an operand as an address in the running code. -/
  | branchTarget (hB : B) (operand : Value) : IsPlain W B (branchTarget operand)
  /-- Going on at an address. -/
  | goTo (hB : B) (address : Nat) : IsPlain W B (modifyContext fun c => { c with pc := address })

namespace IsPlain

variable {W B : Prop} {α β : Type}

/-- Where writes are allowed, an action may make them. -/
theorem allowed {act : Exec α} (h : IsPlain True B act) (hW : W) : IsPlain W B act :=
  eq_true hW ▸ h

theorem fail (f : Fault) (hquiet : f.IsQuiet) :
    IsPlain W B (Exec.fail f : Exec α) := throw hquiet

theorem wait : IsPlain W B (Exec.wait : Exec α) := throw trivial

theorem ite {p : Prop} [Decidable p] {yes no : Exec α} (hyes : IsPlain W B yes) (hno : IsPlain W B no) :
    IsPlain W B (if p then yes else no) := by
  split
  · exact hyes
  · exact hno

theorem compositional : Compositional (μ := Exec) fun _ => IsPlain W B := ⟨pure, bind⟩

theorem forIn {γ σ : Type} (xs : List γ) (body : γ → σ → Exec (ForInStep σ)) (init : σ)
    (hbody : ∀ x s, IsPlain W B (body x s)) : IsPlain W B (ForIn.forIn xs init body) :=
  compositional.forIn fun x _ => hbody x

theorem mapM {γ : Type} (f : γ → Exec α) (xs : List γ) (hf : ∀ x, IsPlain W B (f x)) :
    IsPlain W B (xs.mapM f) :=
  compositional.mapM fun x _ => hf x

theorem lift (r : Except Fault α) [hr : Quiet r] : IsPlain W B (liftM r : Exec α) := by
  cases r with
  | error f => exact fail f (hr.quiet f rfl)
  | ok a => exact pure a

/-- A check, and what follows when it succeeds. -/
theorem lift_bind {r : Except Fault α} [hr : Quiet r] {next : α → Exec β}
    (hnext : ∀ a, r = .ok a → IsPlain W B (next a)) : IsPlain W B ((liftM r : Exec α) >>= next) := by
  cases r with
  | error f => exact throw (hr.quiet f rfl)
  | ok a => exact hnext a rfl

/-- Reading parts of the context that are no surroundings and that no veil covers. -/
theorem context_bind {next : Context → Exec β} (hread : ∀ c g, next (c.within g) = next c)
    (hveil : ∀ c k, next (Context.veiled k c) = next c)
    (hplace : ∀ c code pc, next (c.placed code pc) = next c) (hnext : ∀ c, IsPlain W B (next c)) :
    IsPlain W B (context >>= next) := by
  have hget : (context >>= next) = (get >>= fun m => next m.context) := rfl
  rw [hget]
  exact get_bind (fun m g => hread m.context g) (fun m k => hveil m.context k)
    (fun m code pc => hplace m.context code pc) fun m => hnext m.context

theorem heap : IsPlain W B Exec.heap :=
  get_bind (fun _ _ => rfl) (fun _ _ => rfl) (fun _ _ _ => rfl) fun m => pure m.world.heap

theorem scopes : IsPlain W B Exec.scopes :=
  get_bind (fun _ _ => rfl) (fun _ _ => rfl) (fun _ _ _ => rfl) fun m => pure m.world.scopes

theorem onHeap {act : StateM Heap α} (h : Heap.IsSparing act) : IsPlain W B (Exec.onHeap act) :=
  onWorld ⟨fun w => ⟨rfl, h w.heap⟩, World.onHeap_isUnread act⟩

theorem onObjects {act : HeapM α} (h : Heap.IsSparing act.run) [hact : Heap.Quiet act] :
    IsPlain W B (Exec.onObjects act) := by
  have hplain : WorldM.IsPlain (World.onHeap act.run) :=
    ⟨fun w => ⟨rfl, h w.heap⟩, World.onHeap_isUnread act.run⟩
  have hattempt : Exec.onObjects act = (Exec.onWorld (World.onHeap act.run) >>= fun r =>
      ExceptT.mk (Pure.pure (r.mapError Halt.fault))) :=
    bind_congr fun r => by cases r <;> rfl
  rw [hattempt]
  refine attempt Halt.fault hplain fun w => ?_
  show Halt.QuietIn ((act.run.run w.heap).1.mapError Halt.fault)
  rcases hresult : (act.run.run w.heap).1 with f | a
  · exact (hact.quiet w.heap).quiet f hresult
  · exact trivial

theorem ofWorldAction {act : WorldAction α} (h : act.IsPlain) :
    IsPlain W B (Exec.ofWorldAction act) := by
  have hattempt : Exec.ofWorldAction act = (Exec.onWorld act.run >>= fun r =>
      ExceptT.mk (Pure.pure (r.mapError id))) :=
    bind_congr fun r => by cases r <;> rfl
  rw [hattempt]
  refine attempt id ⟨h.keeps, h.unread⟩ fun w => ?_
  have hquiet := h.quiet w
  rcases hresult : (act.run.run w).1 with halt | a <;> rw [hresult] at hquiet
  · exact hquiet
  · exact trivial

theorem note (c : Category) (message : Unit → String) : IsPlain W B (Exec.note c message) :=
  onWorld ⟨fun w => ⟨rfl, .refl w.heap⟩, World.note_isUnread c message⟩

theorem noteThread (c : Category) (message : Unit → String) :
    IsPlain W B (Exec.noteThread c message) :=
  get_bind (fun _ _ => rfl) (fun _ _ => rfl) (fun _ _ _ => rfl) fun _ => ite (note c _) (pure ())

/-! ### Operands -/

theorem popValue : IsPlain W B Exec.popValue := pop.bind fun v => ite (fail _ (.of rfl)) (pure v)

theorem popUnwrapped : IsPlain W B Exec.popUnwrapped := popValue.bind fun v => pure v.unwrapped

theorem operandName (operand : Value) : IsPlain W B (Exec.operandName operand) := by
  unfold Exec.operandName
  split
  · exact pure _
  · exact fail _ (.of rfl)

theorem operandCount (operand : Value) (default : Nat) :
    IsPlain W B (Exec.operandCount operand default) :=
  ite (pure default) (lift operand.toIndex)

/-! ### Names -/

theorem lookup? (name : String) : IsPlain W B (Exec.lookup? name) :=
  get_bind (fun _ _ => rfl) (fun _ _ => rfl) (fun _ _ _ => rfl) fun _ => pure _

theorem lookup (name : String) : IsPlain W B (Exec.lookup name) := by
  refine (lookup? name).bind fun found => ?_
  cases found with
  | some v => exact pure v
  | none => exact fail _ (.of rfl)

theorem spares_assign (start : TableId) (name : String) (v : Value) (w : World) :
    w.heap.Spares ((World.assign start name v).run w).2.heap := by
  unfold World.assign
  simp only [StateT.run_bind, StateT.run_get, pure_bind]
  cases w.scopes.set start name v with
  | ok p => exact .refl w.heap
  | error f => exact .refl w.heap

theorem storeIn (table : TableId) (name : String) (v : Value) :
    IsPlain True B (Exec.storeIn table name v) :=
  changeScopes trivial _ fun _ _ => Arena.outline_of_setAlways

theorem storeHere (name : String) (v : Value) : IsPlain True B (Exec.storeHere name v) :=
  context_bind (fun _ _ => rfl) (fun _ _ => rfl) (fun _ _ _ => rfl) fun c => storeIn c.symbols name v

/-- Writes to the scopes that start from the current table and keep their outline. -/
theorem changeScopesHere (write : Arena → TableId → Except Fault Arena)
    (h : ∀ a id b, write a id = .ok b → b.outline = a.outline) [∀ a id, Quiet (write a id)] :
    IsPlain True B (do
      let a ← Exec.scopes
      let c ← context
      Exec.setScopes (← write a c.symbols)) := by
  have hout : (do
      let a ← Exec.scopes
      let c ← context
      Exec.setScopes (← write a c.symbols)) = (do
        let c ← context
        let a ← Exec.scopes
        Exec.setScopes (← write a c.symbols)) := rfl
  rw [hout]
  exact context_bind (fun _ _ => rfl) (fun _ _ => rfl) (fun _ _ _ => rfl) fun c =>
    changeScopes trivial (write · c.symbols) fun a b => h a c.symbols b

theorem create (name : String) : IsPlain True B (Exec.create name) :=
  changeScopesHere (fun a id => a.create id name) fun _ _ _ => Arena.outline_of_create

/-! ### Values -/

theorem display (v : Value) : IsPlain W B (Exec.display v) := heap.bind fun _ => pure _

theorem truthy (v : Value) : IsPlain W B (Exec.truthy v) := heap.bind fun _ => pure _

theorem pushList (values : List Value) : IsPlain W B (Exec.pushList values) :=
  (onHeap (.newList _)).bind push

/-! ### Locality -/

/-- Writing a visible name, or defining it in the current table, is local. -/
theorem store_isLocal (name : String) (v : Value) : IsLocal (Exec.store name v) := by
  refine .context_bind (fun _ _ => rfl) fun c => ?_
  refine (IsLocal.onWorld (World.keepsOutline_assign c.symbols name v)).bind fun r => ?_
  cases r with
  | error f => exact .fail f
  | ok u => exact .pure u

/-- Reading an address in the running code is local. -/
theorem branchTarget_isLocal (operand : Value) : IsLocal (Exec.branchTarget operand) := by
  refine .get_bind (fun _ _ => rfl) fun m => ?_
  dsimp only
  split
  · exact .ite (.pure _) (.fail _)
  · exact .fail _

/-- **Plain actions are local.** -/
theorem isLocal {act : Exec α} (h : IsPlain True True act) : IsLocal act := by
  induction h with
  | pure a => exact .pure a
  | throw _ => exact .throw _
  | bind _ _ ihact ihnext => exact ihact.bind ihnext
  | get_bind hread _ _ _ ih => exact .get_bind hread ih
  | push v => exact .push v
  | pop => exact .pop
  | peek => exact .peek
  | popArgs count => exact .popArgs count
  | dropToMarker => exact .dropToMarker
  | write text => exact .write text
  | onWorld h => exact .onWorld fun w => congrArg Arena.outline (h.keeps w).1
  | attempt toHalt h _ =>
    refine (IsLocal.onWorld fun w => congrArg Arena.outline (h.keeps w).1).bind fun r => ?_
    cases r with
    | ok a => exact .pure a
    | error e => exact .throw (toHalt e)
  | store _ name v => exact store_isLocal name v
  | changeScopes _ write h => exact .changeScopes write h
  | branchTarget _ operand => exact branchTarget_isLocal operand
  | goTo _ address =>
    refine .modifyContext ?_ ?_ ?_ ?_ ?_
    all_goals
      intros
      rfl
  | adjust hcomm hadjusts _ _ =>
    refine .modifyContext hcomm ?_ ?_ ?_ ?_
    all_goals
      intro c
      rw [hadjusts]
      rfl

/-! ### Scopes -/

theorem pop_staysIn : Keeps Machine.StaysIn Exec.pop := by
  refine Keeps.get.bind fun m => .ite (.fail _) ?_
  split
  · exact Keeps.bind (fun _ => ⟨rfl, rfl⟩) fun _ => .pure _
  · exact .fail _

theorem dropToMarker_staysIn : Keeps Machine.StaysIn Exec.dropToMarker := by
  refine Keeps.context.bind fun c => ?_
  induction c.stack.size with
  | zero => exact .pure ()
  | succ steps ih =>
    exact Keeps.context.bind fun _ => .ite (pop_staysIn.bind fun _ => .ite ih (.pure _)) (.pure _)

theorem branchTarget_staysIn (operand : Value) :
    Keeps Machine.StaysIn (Exec.branchTarget operand) := by
  refine Keeps.get.bind fun m => ?_
  dsimp only
  split
  · exact .ite (.pure _) (.fail _)
  · exact .fail _

/-- **Plain actions that write no symbols** leave the scopes and the current one alone. -/
theorem staysIn {act : Exec α} (h : IsPlain False True act) : Keeps Machine.StaysIn act := by
  induction h with
  | pure a => exact .pure a
  | throw _ => exact .throw _
  | bind _ _ ihact ihnext => exact ihact.bind ihnext
  | get_bind _ _ _ _ ih => exact Keeps.get.bind ih
  | push v => exact fun m => ⟨rfl, rfl⟩
  | pop => exact pop_staysIn
  | peek =>
    refine Keeps.context.bind fun c => .ite (.fail _) ?_
    split
    · exact .pure _
    · exact .fail _
  | popArgs count =>
    refine Keeps.context.bind fun c => .ite (.fail _) ?_
    exact Keeps.bind (fun _ => ⟨rfl, rfl⟩) fun _ => .ite (.fail _) (.pure _)
  | dropToMarker => exact dropToMarker_staysIn
  | write text => exact fun m => ⟨rfl, rfl⟩
  | onWorld h => exact fun m => ⟨(h.keeps m.world).1, rfl⟩
  | attempt _ h _ => exact Keeps.bind (fun m => ⟨(h.keeps m.world).1, rfl⟩) fun _ => .result _
  | store hW => exact hW.elim
  | changeScopes hW => exact hW.elim
  | branchTarget _ operand => exact branchTarget_staysIn operand
  | goTo _ address => exact fun m => ⟨rfl, rfl⟩
  | adjust _ hadjusts _ _ => exact fun m => ⟨rfl, by rw [outcome_modifyContext, hadjusts]; rfl⟩

end IsPlain

namespace IsLocal

variable {α : Type}

theorem popValue : IsLocal Exec.popValue := IsPlain.popValue.isLocal

theorem popUnwrapped : IsLocal Exec.popUnwrapped := IsPlain.popUnwrapped.isLocal

theorem operandName (operand : Value) : IsLocal (Exec.operandName operand) :=
  (IsPlain.operandName operand).isLocal

theorem operandCount (operand : Value) (default : Nat) :
    IsLocal (Exec.operandCount operand default) := (IsPlain.operandCount operand default).isLocal

theorem branchTarget (operand : Value) : IsLocal (Exec.branchTarget operand) :=
  (IsPlain.branchTarget trivial operand).isLocal

theorem lookup? (name : String) : IsLocal (Exec.lookup? name) := (IsPlain.lookup? name).isLocal

theorem lookup (name : String) : IsLocal (Exec.lookup name) := (IsPlain.lookup name).isLocal

theorem store (name : String) (v : Value) : IsLocal (Exec.store name v) :=
  (IsPlain.store trivial name v).isLocal

theorem storeIn (table : TableId) (name : String) (v : Value) :
    IsLocal (Exec.storeIn table name v) := (IsPlain.storeIn table name v).isLocal

theorem storeHere (name : String) (v : Value) : IsLocal (Exec.storeHere name v) :=
  (IsPlain.storeHere name v).isLocal

theorem create (name : String) : IsLocal (Exec.create name) := (IsPlain.create name).isLocal

theorem ofWorldAction {act : WorldAction α} (h : act.IsPlain) :
    IsLocal (Exec.ofWorldAction act) := (IsPlain.ofWorldAction h).isLocal

end IsLocal

end Exec

end ScriptMachine
