import ScriptMachine.Proofs.Action.Ordinary
import ScriptMachine.Proofs.Debugging.Discreet

/-!
# Discreet instructions

Every instruction is discreet but `AtLine`, which asks for the debugger, `Go`, which starts a task,
and `Return`, which takes a frame off the stack.

* `Context.IsBare`: a context that looks the same under every veil; the contexts of calls are.
* `IsDiscreet.callValue`, `IsDiscreet.beginLoop` and companions: calls, loops, blocks, packages and
  handlers.
* `execute_isDiscreet`: the instructions.
-/

namespace ScriptMachine

/-- A context without frames, flags of the debugger and a limit of instructions. -/
structure Context.IsBare (c : Context) : Prop where
  veiled_eq : ∀ k, c.veiled k = c
  debugging_eq : c.debugging = false
  allowance_eq : c.observer.allowance = none

theorem World.callContext_isBare (symbols : TableId) (settings : Settings) (callable : Value)
    (args : List Value) (w : World) :
    ((World.callContext symbols settings callable args).run w).1.IsBare := by
  refine ⟨fun k => ?_, rfl, rfl⟩
  have hstack : (((callable :: args).map Slot.value).toArray).map (Slot.veiled k)
      = ((callable :: args).map Slot.value).toArray := by
    rw [List.map_toArray, List.map_map]
    rfl
  have hcontext : ((World.callContext symbols settings callable args).run w).1.stack
      = ((callable :: args).map Slot.value).toArray := rfl
  rw [← hcontext] at hstack
  simp only [Context.veiled, hstack]
  rfl

namespace Exec

variable {α β : Type}

namespace IsDiscreet

/-! ### Blocks, packages and handlers -/

theorem onHeap (act : StateM Heap α) : IsDiscreet (Exec.onHeap act) :=
  onWorld (World.onHeap_isUnread act)

theorem noteThread (c : Category) (message : Unit → String) :
    IsDiscreet (Exec.noteThread c message) := (IsPlain.noteThread c message).isDiscreet

theorem newChild (name : String) (parent : TableId) (boundary : Bool) :
    IsDiscreet (Exec.onWorld (World.newChild name parent boundary)) :=
  onWorld (World.newChild_isUnread name parent boundary)

theorem storeIn (table : TableId) (name : String) (v : Value) :
    IsDiscreet (Exec.storeIn table name v) := (IsPlain.storeIn table name v).isDiscreet

theorem observe (x : Happening) : IsDiscreet (Exec.observe x) := by
  refine get_bind (fun _ _ => rfl) fun m => ?_
  dsimp only
  have hcount : IsDiscreet (Exec.modifyContext fun c =>
      { c with observer := c.observer.observe x }) :=
    modifyContext (fun _ _ => rfl) (fun _ => rfl) fun _ h => h
  split
  · split
    · exact bind (onWorld (World.note_isUnread _ _)) fun _ => hcount
    · exact hcount
  · exact hcount

theorem pushScope : IsDiscreet Exec.pushScope :=
  context_bind (fun _ _ => rfl) fun _ => (newChild _ _ _).bind fun _ =>
    adjust (fun _ _ => rfl) fun _ => rfl

theorem popScope : IsDiscreet Exec.popScope := by
  refine context_bind (fun _ _ => rfl) fun c => scopes.bind fun a => ?_
  split
  · exact fail _ (.of rfl)
  · exact (onWorld (World.remove_isUnread _)).bind fun _ => scopes.bind fun _ =>
      (noteThread _ _).bind fun _ => adjust (fun _ _ => rfl) fun _ => rfl

theorem packageNamed (name : String) : IsDiscreet (Exec.packageNamed name) := by
  refine scopes.bind fun a => ?_
  dsimp only
  split
  · exact pure _
  · exact onHeap _

theorem packageTable (r : Ref .package) (name : String) :
    IsDiscreet (Exec.packageTable r name) := by
  refine heap.bind fun h => ?_
  dsimp only
  refine scopes.bind fun a => ?_
  split
  · exact pure _
  · exact (newChild _ _ _).bind fun table => scopes.bind fun a => (lift _).bind fun _ =>
      (setScopes _).bind fun _ => (onHeap _).bind fun _ => pure _

theorem pushPackage (operand : Value) : IsDiscreet (Exec.pushPackage operand) :=
  (IsPlain.operandName operand).isDiscreet.bind fun name => (packageNamed name).bind fun r =>
    (packageTable r name).bind fun _ => adjust (fun _ _ => rfl) fun _ => rfl

theorem popPackage : IsDiscreet Exec.popPackage := by
  refine context_bind (fun _ _ => rfl) fun c => ?_
  split
  · exact fail _ (.of rfl)
  · refine bind (adjust (fun _ _ => rfl) fun _ => rfl) fun _ => scopes.bind fun a =>
      heap.bind fun h => ?_
    dsimp only
    exact (onHeap _).bind fun _ => (noteThread _ _).bind fun _ => (storeIn _ _ _).bind fun _ =>
      adjust (fun _ _ => rfl) fun _ => rfl

theorem arm (operand : Value) : IsDiscreet (Exec.arm operand) := by
  refine (IsPlain.branchTarget trivial operand).isDiscreet.bind fun _ => adjust (fun c k => ?_) fun _ => rfl
  dsimp only
  rw [Context.size_stack_veiled]
  rfl

theorem disarm : IsDiscreet Exec.disarm := by
  refine context_bind (fun _ _ => rfl) fun c => ?_
  split
  · exact fail _ (.of rfl)
  · exact bind (adjust (fun _ _ => rfl) fun _ => rfl) fun _ => scopes.bind fun _ =>
      (lift _).bind fun _ => setScopes _

theorem narrow (operand : Value) : IsDiscreet (Exec.narrow operand) := by
  refine context_bind (fun _ _ => rfl) fun c => ?_
  split
  · exact fail _ (.of rfl)
  · exact (lift _).bind fun _ => adjust (fun _ _ => rfl) fun _ => rfl

/-! ### Loops -/

theorem createLoopName (name : String) : IsDiscreet (Exec.createLoopName name) :=
  get_bind (fun _ _ => rfl) fun _ => ite (IsPlain.create name).isDiscreet (pure ())

theorem walkOver (v : Value) : IsDiscreet (Exec.walkOver v) := by
  unfold Exec.walkOver
  split
  · exact pure _
  · refine heap.bind fun h => ?_
    split
    · exact (onHeap _).bind fun _ => pure _
    · exact pure _
  · refine heap.bind fun h => ?_
    split
    · exact (onHeap _).bind fun _ => pure _
    · exact pure _
  · exact pure _
  · exact fail _ (.of rfl)

theorem beginLoop (operand : Value) : IsDiscreet (Exec.beginLoop operand) := by
  refine heap.bind fun h => ?_
  dsimp only
  exact (createLoopName _).bind fun _ => (createLoopName _).bind fun _ =>
    IsPlain.popUnwrapped.isDiscreet.bind fun _ => (walkOver _).bind fun _ =>
    adjust (fun _ _ => rfl) fun _ => rfl

theorem nextOf (l : Loop) : IsDiscreet (Exec.nextOf l) := by
  refine heap.bind fun h => ?_
  split
  · exact pure _
  · split
    · exact pure _
    · exact (lift _).bind fun _ => pure _
  · exact pure _
  · exact ite (pure _)
      ((IsPlain.ofWorldAction (.receive _)).isDiscreet.bind fun _ => pure _)

theorem release (l : Loop) : IsDiscreet (Exec.release l) := by
  unfold Exec.release
  split
  · exact onHeap _
  · exact onHeap _
  · exact pure _
  · exact pure _

theorem storeLoopName (name : String) (v : Value) : IsDiscreet (Exec.storeLoopName name v) :=
  ite (IsPlain.store trivial name v).isDiscreet (pure ())

theorem nextRound (operand : Value) : IsDiscreet (Exec.nextRound operand) := by
  refine (IsPlain.branchTarget trivial operand).isDiscreet.bind fun leave =>
    context_bind (fun _ _ => rfl) fun c => ?_
  split
  · exact adjust (fun _ _ => rfl) fun _ => rfl
  · refine (nextOf _).bind fun round => ?_
    split
    · exact bind (adjust (fun _ _ => rfl) fun _ => rfl) fun _ => release _
    · exact bind (adjust (fun _ _ => rfl) fun _ => rfl) fun _ =>
        (storeLoopName _ _).bind fun _ => storeLoopName _ _

/-! ### Waiting and deferring -/

theorem popCall (count : Nat) : IsDiscreet (Exec.popCall count) :=
  (IsOrdinary.popCall count).isDiscreet

theorem deferCall (operand : Value) : IsDiscreet (Exec.deferCall operand) :=
  (IsPlain.operandCount operand 0).isDiscreet.bind fun count => (popCall count).bind fun _ =>
    adjust (fun _ _ => rfl) fun _ => rfl

/-- Where there are no tasks there is nothing to wait for, or one has to wait for ever. -/
theorem joinTasks : IsDiscreet Exec.joinTasks := by
  refine fun k b => Mirrors.get_bind fun m hm => ?_
  dsimp only [Machine.veiled, Context.veiled]
  rw [hm.tasks_eq]
  cases m.context.tasks.reverse with
  | nil =>
    have hnone : IsDiscreet (do
        Exec.modifyContext fun c => { c with tasks := [] }
        return) := bind (adjust (fun _ _ => rfl) fun _ => rfl) fun _ => pure ()
    exact hnone k b
  | cons id ids => exact wait k b

theorem awaitTarget (target : Option Value) : IsDiscreet
    (match target.map Value.unwrapped with
      | some (.waitGroup r) => Exec.ofWorldAction (WorldAction.awaitZero r)
      | _ => Exec.joinTasks) := by
  split
  · exact (IsPlain.ofWorldAction (.awaitZero _)).isDiscreet
  · exact joinTasks

theorem await (operand : Value) : IsDiscreet (Exec.await operand) := by
  unfold Exec.await
  split
  · exact (pure _).bind awaitTarget
  · exact (IsPlain.lookup? _).isDiscreet.bind awaitTarget
  · exact (pure _).bind awaitTarget

/-! ### Calls -/

/-- The callee has single steps under a veil if it has them without it. -/
theorem pushFrame (name : String) (table : TableId) (code : Code) (pc : Nat) :
    IsDiscreet (Exec.pushFrame name table code pc) := by
  refine fun k b => Mirrors.context_bind fun c => (noteThread _ _ k b).bind fun _ => ?_
  refine Mirrors.bind (Mirrors.modifyContext (fun d => ?_) (fun _ => rfl) fun _ h => h) fun _ =>
    (context_bind (fun _ _ => rfl) fun _ => observe _ : IsDiscreet _) k b
  have hframe : (c.veiled k).saved name = (c.saved name).veiled k := rfl
  rw [hframe]
  simp only [Context.entered, Context.veiled, Array.map_push, Array.size_map, Veil.dim_and_not]
  rfl

theorem enterChild (name : String) (code : Code) (pc : Nat) (boundary : Bool) :
    IsDiscreet (Exec.enterChild name code pc boundary) :=
  context_bind (fun _ _ => rfl) fun _ => (newChild _ _ _).bind fun _ => pushFrame _ _ _ _

theorem checkTypes (parameters : List Parameter) (args : List Value) : IsDiscreet (do
    let m ← get
    if m.context.staticTypes then
      for (p, v) in parameters.zip args do
        if !p.type.accepts (m.world.heap.typeOf v) then
          Exec.fail (.about .argumentType p.name)) := by
  refine get_bind (fun _ _ => rfl) fun m => ite ?_ (pure _)
  refine bind (forIn _ _ _ fun p _ => ?_) fun _ => pure _
  exact ite (bind (fail _ (.of rfl)) fun _ => pure _) (pure _)

theorem checkCall (code : Code) (args : List Value) : IsDiscreet (Exec.checkCall code args) := by
  unfold Exec.checkCall
  split
  · exact ite (bind (fail _ (.of rfl)) fun _ => checkTypes _ args) (checkTypes _ args)
  · exact pure _

theorem callCode (code : Code) (args : List Value) : IsDiscreet (Exec.callCode code args) :=
  (checkCall code args).bind fun _ => context_bind (fun _ _ => rfl) fun _ =>
    (enterChild _ code 0 _).bind fun _ =>
    (onHeap _).bind fun _ => context_bind (fun _ _ => rfl) fun _ => storeIn _ _ _

theorem storeAllIn (table : TableId) (bindings : List (String × Value)) :
    IsDiscreet (Exec.storeAllIn table bindings) :=
  (forIn bindings _ _ fun p _ => (storeIn table p.1 p.2).bind fun _ => pure _).bind
    fun _ => pure _

theorem callMember (package : Ref .package) (code : Code) (args : List Value) :
    IsDiscreet (Exec.callMember package code args) := by
  have henter : ∀ (scope : TableId) (name : String), IsDiscreet (do
      let table ← Exec.onWorld (World.newChild code.name scope false)
      Exec.pushFrame code.name table code 0
      Exec.modifyContext fun c => { c with package := name }
      Exec.storeIn table "__args" (← Exec.onHeap (Heap.newList args))) :=
    fun scope name => (newChild _ _ _).bind fun _ => (pushFrame _ _ _ _).bind fun _ =>
      bind (adjust (fun _ _ => rfl) fun _ => rfl) fun _ => (onHeap _).bind fun _ => storeIn _ _ _
  refine (checkCall code args).bind fun _ => heap.bind fun h => ?_
  dsimp only
  refine context_bind (fun _ _ => rfl) fun _ => (newChild _ _ _).bind fun scope =>
    scopes.bind fun _ =>
    (lift _).bind fun _ => (setScopes _).bind fun _ => (storeAllIn scope _).bind fun _ => ?_
  split
  · exact scopes.bind fun _ => (storeAllIn scope _).bind fun _ => henter scope _
  · exact henter scope _

/-! ### Library functions and types -/

theorem settleLibraryFault (f : Native) {fault : Fault} (hquiet : fault.IsQuiet) :
    IsDiscreet (Exec.settleLibraryFault f fault) :=
  context_bind (fun _ _ => rfl) fun _ => ite (fail _ hquiet) ((noteThread _ _).bind fun _ => push _)

/-- A bare context may be set going. -/
theorem enterScratch {scratch : Context} (hbare : scratch.IsBare) (awaiting : Awaiting) :
    IsDiscreet (Exec.enterScratch scratch awaiting) := by
  refine onWorld_bind (P := Context.IsBare) (World.start_isUnread scratch 0)
    (fun w => ⟨fun k => ?_, hbare.debugging_eq, hbare.allowance_eq⟩) fun c hc => ?_
  · show ({ scratch.veiled k with pc := 0, running := true } : Context) = _
    rw [hbare.veiled_eq]
    rfl
  · refine ofModify (fun m k => ?_) fun b m hm =>
      ⟨⟨hc.debugging_eq, hc.allowance_eq, hm.attended⟩, hm.tasks_eq, hm.quiet⟩
    show _ = ({ m with context := c, suspended := _ } : Machine).veiled k
    simp only [Machine.veiled, hc.veiled_eq]
    rfl

theorem askOrdering (r : Ref .array) (less : Value) (size i j : Nat) :
    IsDiscreet (Exec.askOrdering r less size i j) :=
  context_bind (fun _ _ => rfl) fun _ => onWorld_bind (World.callContext_isUnread _ _ _ _)
    (World.callContext_isBare _ _ _ _) fun _ hbare => enterScratch hbare _

theorem sortNext (r : Ref .array) (less : Value) (size i : Nat) :
    IsDiscreet (Exec.sortNext r less size i) :=
  ite (askOrdering r less size i i) (push _)

theorem sortAfter (r : Ref .array) (less : Value) (size i j : Nat) (goesFirst : Bool) :
    IsDiscreet (Exec.sortAfter r less size i j goesFirst) := by
  have hexchange : ∀ w, Quiet ((World.onHeap (Exec.exchange r j).run).run w).1 :=
    fun w => (Heap.Quiet.exchange r j).quiet w.heap
  refine ite (onWorld_bind (World.onHeap_isUnread _) hexchange fun result hquiet => ?_)
    (sortNext r less size _)
  cases result with
  | ok => exact ite (askOrdering r less size i _) (sortNext r less size _)
  | error fault => exact settleLibraryFault _ (hquiet.quiet fault rfl)

theorem beginSort (args : List Value) : IsDiscreet (Exec.beginSort args) := by
  unfold Exec.beginSort
  dsimp only
  split
  · exact heap.bind fun _ => sortNext _ _ _ _
  · exact settleLibraryFault _ (of_decide_eq_true rfl)

theorem callNative (f : Native) (receiver : Option Value) (args : List Value) :
    IsDiscreet (Exec.callNative f receiver args) := by
  refine ite (fail _ (.of rfl)) (ite (beginSort args) ?_)
  have happly := WorldAction.IsPlain.apply f receiver args
  refine onWorld_bind happly.unread happly.quiet fun result hquiet => ?_
  split
  · exact push _
  · exact settleLibraryFault f hquiet
  · exact wait

theorem callValue (callable : Value) (args : List Value) :
    IsDiscreet (Exec.callValue callable args) := by
  unfold Exec.callValue
  split
  · exact callCode _ args
  · exact callMember _ _ args
  · exact callNative _ _ args
  · exact (IsOrdinary.construct _ args).isDiscreet
  · exact fail _ (.of rfl)

theorem call (operand : Value) : IsDiscreet (Exec.call operand) :=
  (IsPlain.operandCount operand 0).isDiscreet.bind fun _ => context_bind (fun _ _ => rfl) fun _ =>
    bind (adjust (fun _ _ => rfl) fun _ => rfl) fun _ => (popCall _).bind fun _ => callValue _ _

theorem localCall (operand : Value) : IsDiscreet (Exec.localCall operand) :=
  (IsPlain.branchTarget trivial operand).isDiscreet.bind fun _ => context_bind (fun _ _ => rfl) fun _ =>
    enterChild _ _ _ _

theorem entryPoint (operand : Value) : IsDiscreet (Exec.entryPoint operand) :=
  (IsPlain.lookup _).isDiscreet.bind fun _ => callValue _ _

end IsDiscreet

/-- **Every instruction is discreet** but `AtLine`, `Go` and `Return`. -/
theorem execute_isDiscreet {i : Instruction} (hline : i.op ≠ .atLine) (hgo : i.op ≠ .go)
    (hreturn : i.op ≠ .return) : IsDiscreet (execute i) := by
  by_cases hlocal : i.op.isLocal = true
  · exact (execute_isPlain hlocal (fun _ => trivial) fun _ => trivial).isDiscreet
  obtain ⟨op, operand⟩ := i
  cases op with
  | call => exact .call operand
  | defer => exact .deferCall operand
  | entryPoint => exact .entryPoint operand
  | popPackage => exact .popPackage
  | popScope => exact .popScope
  | pushPackage => exact .pushPackage operand
  | pushScope => exact .pushScope
  | rangeInit => exact .beginLoop operand
  | tryPop => exact .disarm
  | wait => exact .await operand
  | willCatch => exact .narrow operand
  | localCall => exact .localCall operand
  | rangeNext => exact .nextRound operand
  | «try» => exact .arm operand
  | atLine => exact absurd rfl hline
  | go => exact absurd rfl hgo
  | «return» => exact absurd rfl hreturn
  | _ => exact absurd rfl hlocal

end Exec

end ScriptMachine
