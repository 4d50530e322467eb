import ScriptMachine.Proofs.Action.Instructions
import ScriptMachine.Proofs.Frames.Unwinding

/-!
# Ordinary actions

All instructions but those of loops, `Defer` and `Return` are made of plain actions and a few others:
they enter functions, start tasks, set the comparison of a sort going in a context of its own, and
change parts of the machine that have to do neither with operands and output nor with loops and
deferred calls.

* `Context.core`: the operands, output, loops, deferred calls and the switches of the debugger.
* `Exec.IsOrdinary`: an action is made of such ones.
* `IsOrdinary.callValue`, `IsOrdinary.go` and companions: so are calls and the rest.
* `execute_isOrdinary`: so are the instructions.
-/

namespace ScriptMachine

/-- The switches of the debugger: whether it attends, steps, steps over calls, and stops after a
return. -/
def Context.stepping (c : Context) : Bool × Bool × Bool × Bool :=
  (c.debugging, c.singleStep, c.stepOver, c.breakOnReturn)

/-- What an ordinary action changes by plain actions and by calls alone. -/
def Context.core (c : Context) :
    Array Slot × Nat × List DeferredCall × List Loop × Sink × Bool × Bool × Bool × Bool :=
  (c.stack, c.fp, c.deferred, c.loops, c.output, c.stepping)

namespace Exec

/-- An action made of plain ones and of others that keep the core of the context, but for entering
functions and setting comparisons going. -/
inductive IsOrdinary : {α : Type} → Exec α → Prop
  | plain {α : Type} {act : Exec α} (h : IsPlain True True act) : IsOrdinary act
  | throw {α : Type} (h : Halt) : IsOrdinary (MonadExcept.throw h : Exec α)
  | bind {α β : Type} {act : Exec α} {next : α → Exec β} (hact : IsOrdinary act)
      (hnext : ∀ a, IsOrdinary (next a)) : IsOrdinary (act >>= next)
  | get : IsOrdinary (MonadState.get : Exec Machine)
  | onWorld {α : Type} {act : WorldM α} (h : ∀ w : World, w.heap.Spares (act.run w).2.heap) :
      IsOrdinary (onWorld act)
  | setScopes (a : Arena) : IsOrdinary (setScopes a)
  | modifyContext {f : Context → Context} (hcore : ∀ c, (f c).core = c.core) :
      IsOrdinary (modifyContext f)
  | observe (x : Happening) : IsOrdinary (observe x)
  | pushFrame (name : String) (table : TableId) (code : Code) (pc : Nat) :
      IsOrdinary (pushFrame name table code pc)
  | askOrdering (r : Ref .array) (less : Value) (size i j : Nat) :
      IsOrdinary (askOrdering r less size i j)
  | startTask (name : String) (callable : Value) (args : List Value) :
      IsOrdinary (modify fun m : Machine => { m with
        tasks := m.tasks.push ⟨"go " ++ name, .pending callable args m.context.settings⟩
        context := { m.context with tasks := m.tasks.size :: m.context.tasks } })

theorem IsPlain.isOrdinary {α : Type} {act : Exec α} (h : IsPlain True True act) : IsOrdinary act := .plain h

namespace IsOrdinary

variable {W B : Prop} {α β : Type}

theorem pure (a : α) : IsOrdinary (Pure.pure a) := plain (.pure a)

theorem fail (f : Fault) : IsOrdinary (Exec.fail f : Exec α) := throw (.fault f)

theorem wait : IsOrdinary (Exec.wait : Exec α) := plain .wait

theorem lift (r : Except Fault α) : IsOrdinary (liftM r : Exec α) := by
  cases r with
  | error f => exact fail f
  | ok a => exact pure a

theorem context : IsOrdinary Exec.context := bind get fun _ => pure _

theorem heap : IsOrdinary Exec.heap := plain .heap

theorem scopes : IsOrdinary Exec.scopes := plain .scopes

theorem ite {p : Prop} [Decidable p] {yes no : Exec α} (hyes : IsOrdinary yes)
    (hno : IsOrdinary no) : IsOrdinary (if p then yes else no) := by
  split
  · exact hyes
  · exact hno

theorem compositional : Compositional (μ := Exec) fun _ => IsOrdinary := ⟨pure, bind⟩

theorem forIn {γ σ : Type} (xs : List γ) (body : γ → σ → Exec (ForInStep σ)) (init : σ)
    (hbody : ∀ x s, IsOrdinary (body x s)) : IsOrdinary (ForIn.forIn xs init body) :=
  compositional.forIn fun x _ => hbody x

/-! ### Blocks, packages and handlers -/

theorem newChild (name : String) (parent : TableId) (boundary : Bool) :
    IsOrdinary (Exec.onWorld (World.newChild name parent boundary)) :=
  onWorld fun w => .refl w.heap

theorem remove (table : TableId) : IsOrdinary (Exec.onWorld (World.remove table)) := by
  refine onWorld fun w => ?_
  obtain ⟨j, hj⟩ := World.run_remove table w
  rw [hj]
  exact .refl w.heap

theorem pushScope : IsOrdinary Exec.pushScope :=
  bind context fun _ => bind (newChild _ _ _) fun _ => modifyContext fun _ => rfl

theorem popScope : IsOrdinary Exec.popScope := by
  refine bind context fun c => bind scopes fun a => ?_
  split
  · exact fail _
  · exact bind (remove _) fun _ => bind scopes fun _ =>
      bind (IsPlain.noteThread _ _).isOrdinary fun _ => modifyContext fun _ => rfl

theorem packageNamed (name : String) : IsOrdinary (Exec.packageNamed name) := by
  refine bind scopes fun a => ?_
  dsimp only
  split
  · exact pure _
  · exact (IsPlain.onHeap (.newPackage _)).isOrdinary

theorem packageTable (r : Ref .package) (name : String) :
    IsOrdinary (Exec.packageTable r name) := by
  refine bind heap fun h => ?_
  dsimp only
  refine bind scopes fun a => ?_
  split
  · exact pure _
  · exact bind (newChild _ _ _) fun table => bind scopes fun a => bind (lift _) fun _ =>
      bind (setScopes _) fun _ => bind (IsPlain.onHeap (.putPackage _ _)).isOrdinary fun _ => pure _

theorem pushPackage (operand : Value) : IsOrdinary (Exec.pushPackage operand) :=
  bind (IsPlain.operandName operand).isOrdinary fun name => bind (packageNamed name) fun r =>
    bind (packageTable r name) fun _ => modifyContext fun _ => rfl

theorem popPackage : IsOrdinary Exec.popPackage := by
  refine bind context fun c => ?_
  split
  · exact fail _
  · refine bind (modifyContext fun _ => rfl) fun _ => bind scopes fun a =>
      bind heap fun h => ?_
    dsimp only
    exact bind (IsPlain.onHeap (.putPackage _ _)).isOrdinary fun _ =>
      bind (IsPlain.noteThread _ _).isOrdinary fun _ =>
      bind (IsPlain.storeIn _ _ _).isOrdinary fun _ => modifyContext fun _ => rfl

theorem arm (operand : Value) : IsOrdinary (Exec.arm operand) :=
  bind (IsPlain.branchTarget trivial operand).isOrdinary fun _ => modifyContext fun _ => rfl

theorem disarm : IsOrdinary Exec.disarm := by
  refine bind context fun c => ?_
  split
  · exact fail _
  · exact bind (modifyContext fun _ => rfl) fun _ => bind scopes fun _ =>
      bind (lift _) fun _ => setScopes _

theorem narrow (operand : Value) : IsOrdinary (Exec.narrow operand) := by
  refine bind context fun c => ?_
  split
  · exact fail _
  · exact bind (lift _) fun _ => modifyContext fun _ => rfl

/-! ### Tasks and the debugger -/

theorem popCall (count : Nat) : IsPlain W B (Exec.popCall count) :=
  (IsPlain.popArgs count).bind fun _ => IsPlain.popUnwrapped.bind fun _ => IsPlain.pure _

theorem go (operand : Value) : IsOrdinary (Exec.go operand) := by
  refine bind (IsPlain.operandCount operand 0).isOrdinary fun count =>
    bind (IsPlain.popArgs count).isOrdinary fun args => bind IsPlain.popUnwrapped.isOrdinary fun v =>
    bind heap fun h => ?_
  dsimp only
  exact bind (IsPlain.noteThread _ _).isOrdinary fun _ => startTask _ v args

theorem joinTasks : IsOrdinary Exec.joinTasks := by
  refine bind get fun m => ?_
  split
  · exact wait
  · refine bind (modifyContext fun _ => rfl) fun _ => ?_
    split
    · exact fail _
    · exact pure _

theorem awaitTarget (target : Option Value) : IsOrdinary
    (match target.map Value.unwrapped with
      | some (.waitGroup r) => Exec.ofWorldAction (WorldAction.awaitZero r)
      | _ => Exec.joinTasks) := by
  split
  · exact (IsPlain.ofWorldAction (.awaitZero _)).isOrdinary
  · exact IsOrdinary.joinTasks

theorem await (operand : Value) : IsOrdinary (Exec.await operand) := by
  unfold Exec.await
  split
  · exact bind (pure _) awaitTarget
  · exact bind (IsPlain.lookup? _).isOrdinary awaitTarget
  · exact bind (pure _) awaitTarget

theorem atLine (operand : Value) : IsOrdinary (Exec.atLine operand) :=
  bind (lift _) fun _ => bind (modifyContext fun _ => rfl) fun _ =>
    bind context fun _ => ite (fail _) (pure _)

/-! ### Calls -/

theorem enterChild (name : String) (code : Code) (pc : Nat) (boundary : Bool) :
    IsOrdinary (Exec.enterChild name code pc boundary) :=
  bind context fun _ => bind (newChild _ _ _) fun _ => pushFrame _ _ _ _

theorem checkTypes (parameters : List Parameter) (args : List Value) : IsOrdinary (do
    let m ← MonadState.get
    if m.context.staticTypes then
      for (p, v) in parameters.zip args do
        if !p.type.accepts (m.world.heap.typeOf v) then
          Exec.fail (.about .argumentType p.name)) := by
  refine bind get fun m => ite ?_ (pure _)
  refine bind (forIn _ _ _ fun p _ => ?_) fun _ => pure _
  exact ite (bind (fail _) fun _ => pure _) (pure _)

theorem checkCall (code : Code) (args : List Value) : IsOrdinary (Exec.checkCall code args) := by
  unfold Exec.checkCall
  split
  · exact ite (bind (fail _) fun _ => checkTypes _ args) (checkTypes _ args)
  · exact pure _

theorem newList (args : List Value) : IsOrdinary (Exec.onHeap (Heap.newList args)) :=
  (IsPlain.onHeap (.newList args)).isOrdinary

theorem storeIn (table : TableId) (name : String) (v : Value) :
    IsOrdinary (Exec.storeIn table name v) := (IsPlain.storeIn table name v).isOrdinary

theorem callCode (code : Code) (args : List Value) : IsOrdinary (Exec.callCode code args) :=
  bind (checkCall code args) fun _ => bind context fun _ =>
    bind (enterChild _ code 0 _) fun _ => bind (newList args) fun _ =>
    bind context fun _ => storeIn _ _ _

theorem storeAllIn (table : TableId) (bindings : List (String × Value)) :
    IsOrdinary (Exec.storeAllIn table bindings) :=
  bind (forIn bindings _ _ fun p _ => bind (storeIn table p.1 p.2) fun _ => pure _)
    fun _ => pure _

theorem callMember (package : Ref .package) (code : Code) (args : List Value) :
    IsOrdinary (Exec.callMember package code args) := by
  have henter : ∀ (scope : TableId) (name : String), IsOrdinary (do
      let table ← Exec.onWorld (World.newChild code.name scope false)
      Exec.pushFrame code.name table code 0
      Exec.modifyContext fun c => { c with package := name }
      Exec.storeIn table "__args" (← Exec.onHeap (Heap.newList args))) :=
    fun scope name => bind (newChild _ _ _) fun _ => bind (pushFrame _ _ _ _) fun _ =>
      bind (modifyContext fun _ => rfl) fun _ => bind (newList args) fun _ => storeIn _ _ _
  refine bind (checkCall code args) fun _ => bind heap fun h => ?_
  dsimp only
  refine bind context fun _ => bind (newChild _ _ _) fun scope => bind scopes fun _ =>
    bind (lift _) fun _ => bind (setScopes _) fun _ => bind (storeAllIn scope _) fun _ => ?_
  split
  · exact bind scopes fun _ => bind (storeAllIn scope _) fun _ => henter scope _
  · exact henter scope _

/-! ### Library functions and types -/

theorem settleLibraryFault (f : Native) (fault : Fault) :
    IsOrdinary (Exec.settleLibraryFault f fault) :=
  bind context fun _ => ite (fail _)
    (bind (IsPlain.noteThread _ _).isOrdinary fun _ => (IsPlain.push _).isOrdinary)

theorem sortNext (r : Ref .array) (less : Value) (size i : Nat) :
    IsOrdinary (Exec.sortNext r less size i) :=
  ite (askOrdering r less size i i) (IsPlain.push _).isOrdinary

theorem exchange_isSparing (r : Ref .array) (j : Nat) :
    Heap.IsSparing (Exec.exchange r j).run := by
  refine .bindExcept (.lift .get) fun h => .bindExcept (.check _) fun _ =>
    .bindExcept (.check _) fun _ => .bindExcept (.setElement _ _ _) fun _ => .setElement _ _ _

theorem sortAfter (r : Ref .array) (less : Value) (size i j : Nat) (goesFirst : Bool) :
    IsOrdinary (Exec.sortAfter r less size i j goesFirst) := by
  refine ite (bind (IsPlain.onHeap (exchange_isSparing r j)).isOrdinary fun result => ?_)
    (sortNext r less size _)
  cases result with
  | ok => exact ite (askOrdering r less size i _) (sortNext r less size _)
  | error fault => exact settleLibraryFault _ fault

theorem beginSort (args : List Value) : IsOrdinary (Exec.beginSort args) := by
  unfold Exec.beginSort
  dsimp only
  split
  · exact bind heap fun _ => sortNext _ _ _ _
  · exact settleLibraryFault _ _

theorem callNative (f : Native) (receiver : Option Value) (args : List Value) :
    IsOrdinary (Exec.callNative f receiver args) := by
  refine ite (fail _) (ite (beginSort args) ?_)
  refine bind (onWorld fun w => ((WorldAction.IsPlain.apply f receiver args).keeps w).2) fun result => ?_
  split
  · exact (IsPlain.push _).isOrdinary
  · exact settleLibraryFault f _
  · exact wait

theorem setFields (r : Ref .struct) (fields : List (String × Value)) :
    IsPlain W B (Exec.setFields r fields) :=
  (IsPlain.forIn _ _ _ fun _ _ => (IsPlain.onObjects (.setField _ _ _)).bind fun _ =>
    IsPlain.pure _).bind fun _ => IsPlain.pure _

theorem setFieldsFrom (r : Ref .struct) (source : MapObject) :
    IsPlain W B (Exec.setFieldsFrom r source) :=
  (IsPlain.forIn _ _ _ fun _ _ => (IsPlain.lift _).bind fun _ => IsPlain.heap.bind fun _ =>
    (IsPlain.onObjects (.setField _ _ _)).bind fun _ => IsPlain.pure _).bind fun _ => IsPlain.pure _

theorem initialised (t : Ty) (fresh init : Value) : IsPlain W B (Exec.initialised t fresh init) := by
  unfold Exec.initialised
  split
  · exact IsPlain.heap.bind fun _ => (setFieldsFrom _ _).bind fun _ => IsPlain.pure _
  · exact IsPlain.heap.bind fun _ => (setFields _ _).bind fun _ => IsPlain.pure _
  · exact (IsPlain.onObjects (.mergeEntries _ _)).bind fun _ => IsPlain.pure _
  · exact IsPlain.onObjects (.coerce _ _)

theorem construct (t : Ty) (args : List Value) : IsPlain W B (Exec.construct t args) := by
  refine (IsPlain.onHeap (.zeroValue t)).bind fun fresh => ?_
  split
  · exact IsPlain.push _
  · exact (initialised t fresh _).bind fun v => IsPlain.push v
  · exact IsPlain.fail _ (.of rfl)

theorem callValue (callable : Value) (args : List Value) :
    IsOrdinary (Exec.callValue callable args) := by
  unfold Exec.callValue
  split
  · exact callCode _ args
  · exact callMember _ _ args
  · exact callNative _ _ args
  · exact (construct _ args).isOrdinary
  · exact fail _

theorem call (operand : Value) : IsOrdinary (Exec.call operand) :=
  bind (IsPlain.operandCount operand 0).isOrdinary fun _ => bind context fun _ =>
    bind (modifyContext fun _ => rfl) fun _ => bind (popCall _).isOrdinary fun _ => callValue _ _

theorem localCall (operand : Value) : IsOrdinary (Exec.localCall operand) :=
  bind (IsPlain.branchTarget trivial operand).isOrdinary fun _ => bind context fun _ =>
    enterChild _ _ _ _

theorem entryPoint (operand : Value) : IsOrdinary (Exec.entryPoint operand) :=
  bind (IsPlain.lookup _).isOrdinary fun _ => callValue _ _

end IsOrdinary

/-- **All instructions are ordinary** but those of loops, `Defer` and `Return`. -/
theorem execute_isOrdinary {i : Instruction} (hbegin : i.op ≠ .rangeInit)
    (hnext : i.op ≠ .rangeNext) (hdefer : i.op ≠ .defer) (hreturn : i.op ≠ .return) :
    IsOrdinary (execute i) := by
  by_cases hlocal : i.op.isLocal = true
  · exact (execute_isPlain hlocal (fun _ => trivial) fun _ => trivial).isOrdinary
  obtain ⟨op, operand⟩ := i
  cases op with
  | atLine => exact .atLine operand
  | call => exact .call operand
  | entryPoint => exact .entryPoint operand
  | go => exact .go operand
  | popPackage => exact .popPackage
  | popScope => exact .popScope
  | pushPackage => exact .pushPackage operand
  | pushScope => exact .pushScope
  | tryPop => exact .disarm
  | wait => exact .await operand
  | willCatch => exact .narrow operand
  | localCall => exact .localCall operand
  | «try» => exact .arm operand
  | rangeInit => exact absurd rfl hbegin
  | rangeNext => exact absurd rfl hnext
  | defer => exact absurd rfl hdefer
  | «return» => exact absurd rfl hreturn
  | _ => exact absurd rfl hlocal

end Exec

end ScriptMachine
