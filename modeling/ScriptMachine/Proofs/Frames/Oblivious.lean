import ScriptMachine.Proofs.Frames.Calls

/-!
# Actions that leave the callers' slots alone

An instruction other than a return does not change, remove or copy a slot below the frame pointer:
with other slots there, it does the same and leaves these other slots there. A call may set another
context going; the slots are then those of the context that waits.

* `Machine.contextAt`, `Machine.overlayAt`: the contexts of a machine are counted from the
  outermost one.
* `Exec.IsOblivious`: an action does the same whatever lies below the frame pointer.
* `Exec.execute_isOblivious`: so does every instruction but a return.
-/

namespace ScriptMachine

namespace Machine

/-- The context that `k` others wait for; the running one when there are no more. -/
def contextAt (m : Machine) (k : Nat) : Context :=
  match m.suspended.reverse[k]? with
  | some s => s.context
  | none => m.context

/-- The machine with other slots at the bottom of the stack of the context at level `k`. -/
def overlayAt (k : Nat) (bottom : Array Slot) (m : Machine) : Machine :=
  if m.suspended.length ≤ k then m.overlay bottom
  else
    { m with
      suspended := m.suspended.modify (m.suspended.length - 1 - k) fun s =>
        { s with context := s.context.overlay bottom } }

/-- The running function is grounded above the slots at the bottom, at level `k`. -/
structure Above (k : Nat) (bottom : Array Slot) (m : Machine) : Prop where
  level : m.suspended.length = k
  bottom_le : bottom.size ≤ m.context.fp
  grounded : m.context.Grounded

variable {m : Machine} {k : Nat} {bottom : Array Slot}

theorem contextAt_of_level (h : m.suspended.length ≤ k) : m.contextAt k = m.context := by
  rw [contextAt, List.getElem?_eq_none (by rw [List.length_reverse]; exact h)]

theorem overlayAt_of_level (h : m.suspended.length ≤ k) :
    m.overlayAt k bottom = m.overlay bottom := if_pos h

theorem above_of_has {s : Footing} (h : m.Has s) (hlevel : s.suspended.length = k)
    (hbottom : bottom.size ≤ s.fp) : m.Above k bottom := by
  refine ⟨?_, ?_, h.grounded⟩
  · rw [← hlevel]
    exact congrArg (fun s : Footing => s.suspended.length) h.footing_eq
  · rw [h.fp_eq]
    exact hbottom

end Machine

namespace Exec

variable {α β : Type}

/-- An action stays above the slots at the bottom and does not depend on them. -/
def IsAloft (act : Exec α) : Prop :=
  ∀ k bottom, Respects (·.overlayAt k bottom) (Machine.Above k bottom) act

/-- An action does the same whatever slots lie at the bottom, and leaves them there. -/
def IsOblivious (act : Exec α) : Prop :=
  ∀ (k : Nat) (bottom : Array Slot) (m : Machine), m.Above k bottom →
    outcome act (m.overlayAt k bottom)
      = ((outcome act m).1, (outcome act m).2.overlayAt k bottom)

theorem IsSteady.isAloft {act : Exec α} (h : IsSteady act) : IsAloft act := by
  intro k bottom m hm
  obtain ⟨hcomm, hhas⟩ := h m.footing bottom hm.bottom_le m (Machine.has_self hm.grounded)
  have habove := Machine.above_of_has hhas hm.level hm.bottom_le
  refine ⟨?_, habove⟩
  show outcome act (m.overlayAt k bottom) = (_, (outcome act m).2.overlayAt k bottom)
  rw [Machine.overlayAt_of_level (Nat.le_of_eq hm.level), hcomm,
    Machine.overlayAt_of_level (Nat.le_of_eq habove.level)]

theorem IsAloft.bind {act : Exec α} {next : α → Exec β} (hact : IsAloft act)
    (hnext : ∀ a, IsAloft (next a)) : IsAloft (act >>= next) :=
  fun k bottom => (hact k bottom).bind fun a => hnext a k bottom

namespace IsOblivious

theorem ofAloft {act : Exec α} (h : IsAloft act) : IsOblivious act :=
  fun k bottom m hm => (h k bottom m hm).1

theorem ofSteady {act : Exec α} (h : IsSteady act) : IsOblivious act := ofAloft h.isAloft

theorem bind {act : Exec α} {next : α → Exec β} (hact : IsAloft act)
    (hnext : ∀ a, IsOblivious (next a)) : IsOblivious (act >>= next) := by
  intro k bottom m hm
  obtain ⟨hcomm, hkeep⟩ := hact k bottom m hm
  dsimp only at hcomm
  rw [outcome_bind, outcome_bind, hcomm]
  rcases hout : outcome act m with ⟨r | a, m'⟩
  · rfl
  · rw [hout] at hkeep
    exact hnext a k bottom m' hkeep

theorem ite {p : Prop} [Decidable p] {yes no : Exec α} (hyes : IsOblivious yes)
    (hno : IsOblivious no) : IsOblivious (if p then yes else no) := by
  split
  · exact hyes
  · exact hno

/-- Reading parts of the context other than the stack. -/
theorem context_bind {next : Context → Exec β}
    (hread : ∀ c bottom, next (c.overlay bottom) = next c)
    (hnext : ∀ c, IsOblivious (next c)) : IsOblivious (context >>= next) := by
  intro k bottom m hm
  have hlevel : m.overlayAt k bottom = m.overlay bottom :=
    Machine.overlayAt_of_level (Nat.le_of_eq hm.level)
  rw [outcome_bind_ok (outcome_context m), outcome_bind_ok (outcome_context _)]
  have hsame : next (m.overlayAt k bottom).context = next m.context := by
    rw [hlevel]
    exact hread m.context bottom
  rw [hsame]
  exact hnext m.context k bottom m hm

end IsOblivious

namespace IsAloft

/-- Reading parts of the context other than the stack. -/
theorem context_bind {next : Context → Exec β}
    (hread : ∀ c bottom, next (c.overlay bottom) = next c)
    (hnext : ∀ c, IsAloft (next c)) : IsAloft (context >>= next) := by
  intro k bottom m hm
  refine ⟨?_, ?_⟩
  · exact IsOblivious.context_bind hread (fun c => .ofAloft (hnext c)) k bottom m hm
  · rw [outcome_bind_ok (outcome_context m)]
    exact (hnext m.context k bottom m hm).2

/-- Entering a function puts a frame above the slots at the bottom. -/
theorem entered (f : Frame) (table : TableId) (code : Code) (pc : Nat) :
    IsAloft (Exec.modifyContext fun c => c.entered f table code pc) := by
  intro k bottom
  refine Respects.ofModify (fun m hm => ?_) fun m hm => ?_
  · have hfp := hm.grounded.fp_le
    have hle := hm.bottom_le
    have hcontext : (m.context.overlay bottom).entered f table code pc
        = (m.context.entered f table code pc).overlay bottom := by
      have hsize : (m.context.overlay bottom).stack.size = m.context.stack.size :=
        Context.size_overlay (by omega)
      have hstack : (m.context.overlay bottom).stack.push (.frame f)
          = bottom ++ (m.context.stack.push (.frame f)).extract bottom.size
              (m.context.stack.push (.frame f)).size := by
        rw [Array.size_push, Array.extract_push, if_neg (by omega), if_pos (by omega),
          Context.overlay, Array.append_push]
      simp only [Context.entered, hsize, hstack]
      rfl
    rw [Machine.overlayAt_of_level (Nat.le_of_eq hm.level),
      Machine.overlayAt_of_level (by exact Nat.le_of_eq hm.level)]
    simp only [Machine.overlay, hcontext]
  · refine ⟨hm.level, ?_, ?_, ?_⟩
    · have hfp := hm.grounded.fp_le
      have hle := hm.bottom_le
      show bottom.size ≤ m.context.stack.size + 1
      omega
    · show m.context.stack.size + 1 ≤ (m.context.stack.push _).size
      exact Nat.le_of_eq (Array.size_push _).symm
    · have hnil : (m.context.entered f table code pc).operands = #[] := by
        apply Array.extract_empty_of_size_le_start
        show (m.context.stack.push _).size ≤ m.context.stack.size + 1
        exact Nat.le_of_eq (Array.size_push _)
      rw [hnil]
      exact OnlyValues.empty

theorem observe (x : Happening) : IsSteady (Exec.observe x) := by
  refine IsSteady.get_bind (fun _ _ => rfl) fun m => ?_
  dsimp only
  have hcount : IsSteady (Exec.modifyContext fun c =>
      { c with observer := c.observer.observe x }) :=
    .modifyContext (fun _ _ => rfl) (fun _ => rfl) (fun _ => rfl) (fun _ => rfl) (fun _ => rfl)
      fun _ => rfl
  split
  · split
    · exact .bind (.onWorld _) fun _ => hcount
    · exact hcount
  · exact hcount

theorem pushFrame (name : String) (table : TableId) (code : Code) (pc : Nat) :
    IsAloft (Exec.pushFrame name table code pc) :=
  context_bind (fun _ _ => rfl) fun _ =>
    (IsLocal.noteThread _ _).isSteady.isAloft.bind fun _ => (entered _ table code pc).bind fun _ =>
      context_bind (fun _ _ => rfl) fun _ => (observe _).isAloft

theorem enterChild (name : String) (code : Code) (pc : Nat) (boundary : Bool) :
    IsAloft (Exec.enterChild name code pc boundary) :=
  context_bind (fun _ _ => rfl) fun _ => (IsSteady.onWorld _).isAloft.bind fun table =>
    pushFrame name table code pc

theorem storeAllIn (table : TableId) (bindings : List (String × Value)) :
    IsLocal (Exec.storeAllIn table bindings) :=
  IsLocal.bind (IsLocal.forIn bindings _ _ fun p _ =>
    (IsLocal.storeIn table p.1 p.2).bind fun _ => IsLocal.pure _) fun _ => IsLocal.pure _

theorem checkTypes (parameters : List Parameter) (args : List Value) : IsLocal (do
    let m ← get
    if m.context.staticTypes then
      for (p, v) in parameters.zip args do
        if !p.type.accepts (m.world.heap.typeOf v) then
          Exec.fail (.about .argumentType p.name)) := by
  refine IsLocal.get_bind (fun _ _ => rfl) fun m => IsLocal.ite ?_ (IsLocal.pure _)
  refine IsLocal.bind (IsLocal.forIn _ _ _ fun p _ => ?_) fun _ => IsLocal.pure _
  exact IsLocal.ite (IsLocal.bind (IsLocal.fail _) fun _ => IsLocal.pure _) (IsLocal.pure _)

theorem checkArguments (d : Declaration) (args : List Value) :
    IsLocal (Exec.checkArguments d args) := by
  unfold Exec.checkArguments
  dsimp only
  exact IsLocal.ite (IsLocal.bind (IsLocal.fail _) fun _ => checkTypes _ args) (checkTypes _ args)

theorem checkCall (code : Code) (args : List Value) : IsLocal (Exec.checkCall code args) := by
  unfold Exec.checkCall
  split
  · exact checkArguments _ args
  · exact IsLocal.pure _

theorem bindArgs (args : List Value) : IsLocal (Exec.bindArgs args) :=
  (IsLocal.onHeap _).bind fun _ => IsLocal.storeHere _ _

theorem callCode (code : Code) (args : List Value) : IsAloft (Exec.callCode code args) :=
  (checkCall code args).isSteady.isAloft.bind fun _ => context_bind (fun _ _ => rfl) fun _ =>
    (enterChild _ code 0 _).bind fun _ => (bindArgs args).isSteady.isAloft

theorem callMember (package : Ref .package) (code : Code) (args : List Value) :
    IsAloft (Exec.callMember package code args) := by
  have henter : ∀ (scope : TableId) (name : String), IsAloft (do
      let table ← Exec.onWorld (World.newChild code.name scope false)
      Exec.pushFrame code.name table code 0
      Exec.modifyContext fun c => { c with package := name }
      Exec.storeIn table "__args" (← Exec.onHeap (Heap.newList args))) := by
    intro scope name
    refine (IsSteady.onWorld _).isAloft.bind fun table =>
      (pushFrame _ table code 0).bind fun _ => ?_
    refine bind (IsSteady.isAloft (.modifyContext (fun _ _ => rfl) (fun _ => rfl) (fun _ => rfl)
      (fun _ => rfl) (fun _ => rfl) fun _ => rfl)) fun _ => ?_
    exact ((IsLocal.onHeap _).bind fun v => IsLocal.storeIn _ _ v).isSteady.isAloft
  refine (checkCall code args).isSteady.isAloft.bind fun _ =>
    IsLocal.heap.isSteady.isAloft.bind fun h => ?_
  dsimp only
  refine context_bind (fun _ _ => rfl) fun c => (IsSteady.onWorld _).isAloft.bind fun scope =>
    IsLocal.scopes.isSteady.isAloft.bind fun a => (IsLocal.lift _).isSteady.isAloft.bind fun b =>
    (IsSteady.setScopes b).isAloft.bind fun _ => (storeAllIn scope _).isSteady.isAloft.bind fun _ =>
    ?_
  split
  · exact IsLocal.scopes.isSteady.isAloft.bind fun a =>
      (storeAllIn scope _).isSteady.isAloft.bind fun _ => henter scope _
  · exact henter scope _

end IsAloft

namespace IsOblivious

/-- The context that waits keeps its slots. -/
theorem enterScratch (scratch : Context) (awaiting : Awaiting) :
    IsOblivious (Exec.enterScratch scratch awaiting) := by
  intro k bottom m hm
  have hout : ∀ m : Machine, outcome (Exec.enterScratch scratch awaiting) m
      = (.ok (), { m with
          world := ((World.start scratch 0).run m.world).2
          context := ((World.start scratch 0).run m.world).1
          suspended := ⟨m.context, awaiting⟩ :: m.suspended }) := fun _ => rfl
  rw [hout, hout, Machine.overlayAt_of_level (Nat.le_of_eq hm.level)]
  have hdeep : ¬ (⟨m.context, awaiting⟩ :: m.suspended : List Suspended).length ≤ k := by
    rw [List.length_cons, hm.level]
    omega
  have hhead : (⟨m.context, awaiting⟩ :: m.suspended : List Suspended).length - 1 - k = 0 := by
    rw [List.length_cons, hm.level]
    omega
  rw [Machine.overlayAt, if_neg hdeep]
  simp only [hhead]
  rfl

theorem askOrdering (r : Ref .array) (less : Value) (size i j : Nat) :
    IsOblivious (Exec.askOrdering r less size i j) :=
  context_bind (fun _ _ => rfl) fun _ => bind (IsSteady.onWorld _).isAloft fun _ =>
    enterScratch _ _

theorem sortNext (r : Ref .array) (less : Value) (size i : Nat) :
    IsOblivious (Exec.sortNext r less size i) :=
  ite (askOrdering r less size i i) (ofSteady (IsLocal.push _).isSteady)

theorem beginSort (args : List Value) : IsOblivious (Exec.beginSort args) := by
  unfold Exec.beginSort
  dsimp only
  split
  · exact bind IsLocal.heap.isSteady.isAloft fun _ => sortNext _ _ _ _
  · exact ofSteady (IsCall.settleLibraryFault _ _).isSteady

theorem callNative (f : Native) (receiver : Option Value) (args : List Value) :
    IsOblivious (Exec.callNative f receiver args) := by
  refine ite (ofSteady (IsSteady.fail _)) (ite (beginSort args) ?_)
  refine bind (IsSteady.onWorld _).isAloft fun result => ?_
  split
  · exact ofSteady (IsLocal.push _).isSteady
  · exact ofSteady (IsCall.settleLibraryFault f _).isSteady
  · exact ofSteady IsSteady.wait

theorem callValue (callable : Value) (args : List Value) :
    IsOblivious (Exec.callValue callable args) := by
  unfold Exec.callValue
  split
  · exact ofAloft (IsAloft.callCode _ args)
  · exact ofAloft (IsAloft.callMember _ _ args)
  · exact callNative _ _ args
  · exact ofSteady (IsCall.construct _ args).isSteady
  · exact ofSteady (IsSteady.fail _)

theorem call (operand : Value) : IsOblivious (Exec.call operand) := by
  refine bind (IsLocal.operandCount operand 0).isSteady.isAloft fun count =>
    context_bind (fun _ _ => rfl) fun c => ?_
  refine bind (IsSteady.isAloft (.modifyContext (fun _ _ => rfl) (fun _ => rfl) (fun _ => rfl)
    (fun _ => rfl) (fun _ => rfl) fun _ => rfl)) fun _ => ?_
  exact bind (IsSteady.popCall _).isSteady.isAloft fun p => callValue p.1 p.2

theorem localCall (operand : Value) : IsOblivious (Exec.localCall operand) :=
  bind (IsLocal.branchTarget operand).isSteady.isAloft fun address =>
    context_bind (fun _ _ => rfl) fun _ => ofAloft (IsAloft.enterChild _ _ address _)

theorem entryPoint (operand : Value) : IsOblivious (Exec.entryPoint operand) :=
  bind (IsLocal.lookup _).isSteady.isAloft fun _ => callValue _ _

end IsOblivious

/-! ### Handlers -/

namespace IsAloft

/-- Changes of the context that keep the stack and the frame pointer. -/
theorem modifyContext {f : Context → Context}
    (hcomm : ∀ c bottom, bottom.size ≤ c.stack.size → f (c.overlay bottom) = (f c).overlay bottom)
    (hstack : ∀ c, (f c).stack = c.stack) (hfp : ∀ c, (f c).fp = c.fp) :
    IsAloft (Exec.modifyContext f) := by
  intro k bottom
  refine Respects.ofModify (fun m hm => ?_) fun m hm => ⟨hm.level, ?_, ?_, ?_⟩
  · have hle := hm.bottom_le
    have hfp := hm.grounded.fp_le
    rw [Machine.overlayAt_of_level (Nat.le_of_eq hm.level),
      Machine.overlayAt_of_level (by exact Nat.le_of_eq hm.level)]
    simp only [Machine.overlay, hcomm _ bottom (by omega : bottom.size ≤ m.context.stack.size)]
  · show bottom.size ≤ (f m.context).fp
    rw [hfp]
    exact hm.bottom_le
  · show (f m.context).fp ≤ (f m.context).stack.size
    rw [hfp, hstack]
    exact hm.grounded.fp_le
  · show OnlyValues (f m.context).operands
    rw [Context.operands, hfp, hstack]
    exact hm.grounded.values

theorem arm (operand : Value) : IsAloft (Exec.arm operand) := by
  refine (IsLocal.branchTarget operand).isSteady.isAloft.bind fun address => ?_
  refine modifyContext (fun c bottom hle => ?_) (fun _ => rfl) fun _ => rfl
  have hsize := Context.size_overlay hle
  simp only [hsize]
  rfl

theorem disarm : IsAloft Exec.disarm := by
  refine context_bind (fun _ _ => rfl) fun c => ?_
  split
  · exact (IsSteady.fail _).isAloft
  · refine bind (modifyContext (fun _ _ _ => rfl) (fun _ => rfl) fun _ => rfl) fun _ => ?_
    exact IsLocal.scopes.isSteady.isAloft.bind fun a => (IsLocal.lift _).isSteady.isAloft.bind
      fun _ => (IsSteady.setScopes _).isAloft

theorem narrow (operand : Value) : IsAloft (Exec.narrow operand) := by
  refine context_bind (fun _ _ => rfl) fun c => ?_
  split
  · exact (IsSteady.fail _).isAloft
  · refine (IsLocal.lift _).isSteady.isAloft.bind fun catches => ?_
    exact modifyContext (fun _ _ _ => rfl) (fun _ => rfl) fun _ => rfl

end IsAloft

/-- **Every instruction but a return does the same whatever lies below the frame pointer.** -/
theorem execute_isOblivious {i : Instruction} (h : i.op ≠ .return) : IsOblivious (execute i) := by
  by_cases hlocal : i.op.isLocal = true
  · exact .ofSteady (execute_isLocal hlocal).isSteady
  · obtain ⟨op, operand⟩ := i
    cases op with
    | atLine => exact .ofSteady (IsSteady.atLine operand)
    | call => exact .call operand
    | defer => exact .ofSteady (IsSteady.deferCall operand)
    | entryPoint => exact .entryPoint operand
    | go => exact .ofSteady (IsSteady.go operand)
    | popPackage => exact .ofSteady IsSteady.popPackage
    | popScope => exact .ofSteady IsSteady.popScope
    | pushPackage => exact .ofSteady (IsSteady.pushPackage operand)
    | pushScope => exact .ofSteady IsSteady.pushScope
    | rangeInit => exact .ofSteady (IsSteady.beginLoop operand)
    | «return» => exact absurd rfl h
    | tryPop => exact .ofAloft .disarm
    | wait => exact .ofSteady (IsSteady.await operand)
    | willCatch => exact .ofAloft (.narrow operand)
    | localCall => exact .localCall operand
    | rangeNext => exact .ofSteady (IsSteady.nextRound operand)
    | «try» => exact .ofAloft (.arm operand)
    | _ => exact absurd rfl hlocal

end Exec

end ScriptMachine
