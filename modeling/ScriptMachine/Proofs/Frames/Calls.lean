import ScriptMachine.Proofs.Frames.Chain
import ScriptMachine.Proofs.Frames.Steady

/-!
# The effect of calls

A call stays in the running function, or enters one of the program, or sets a fresh context going
while the present one waits.

* `Machine.SameButWorld`: nothing but the world has changed.
* `Context.Fresh`: a context that no function has been entered in yet.
* `CallEffect`, `Exec.IsCall`: the three effects of calls; `IsCall.callValue`.
* `Machine.overlayAt`, `Exec.Oblivious`: an action neither reads nor copies the slots at the bottom
  of the operand stack; `Oblivious.callValue`.
-/

namespace ScriptMachine

/-- Nothing but the world has changed. -/
def Machine.SameButWorld (m m' : Machine) : Prop := m' = { m with world := m'.world }

instance : Std.Refl Machine.SameButWorld := ⟨fun _ => rfl⟩

instance : Trans Machine.SameButWorld Machine.SameButWorld Machine.SameButWorld where
  trans {a b c} hab hbc := by
    unfold Machine.SameButWorld at *
    rw [hbc, hab]

/-- A context that no function has been entered in yet. -/
structure Context.Fresh (c : Context) : Prop where
  values : OnlyValues c.stack
  fp_eq : c.fp = 0
  frameDepth_eq : c.frameDepth = 0
  handlers_eq : c.handlers = []

/-- The effects that a call may have. -/
inductive CallEffect (m m' : Machine) : Prop
  | stays (has : m'.Has m.footing) (lower : m'.context.lower = m.context.lower)
  | enters (name : String) (table : TableId) (code : Code) (pc : Nat) (observer : Observer)
      (package : String)
      (context : m'.context = { m.context.entered (m.context.saved name) table code pc with
        observer, package })
      (suspended : m'.suspended = m.suspended) (ended : m'.ended = m.ended)
  | suspends (awaiting : Awaiting) (fresh : m'.context.Fresh)
      (suspended : m'.suspended = ⟨m.context, awaiting⟩ :: m.suspended)
      (ended : m'.ended = m.ended)

namespace CallEffect

variable {m m' m'' : Machine}

/-- What happened to the world before a call does not matter for its effect. -/
theorem afterWorld (h : m.SameButWorld m') (heffect : CallEffect m' m'') : CallEffect m m'' := by
  rw [Machine.SameButWorld] at h
  rw [h] at heffect
  cases heffect with
  | stays has lower => exact .stays has lower
  | enters name table code pc observer package context suspended ended =>
    exact .enters name table code pc observer package context suspended ended
  | suspends awaiting fresh suspended ended => exact .suspends awaiting fresh suspended ended

/-- Nor what happens to the world after it. -/
theorem thenWorld (heffect : CallEffect m m') (h : m'.SameButWorld m'') : CallEffect m m'' := by
  rw [Machine.SameButWorld] at h
  rw [h]
  cases heffect with
  | stays has lower => exact .stays ⟨has.grounded, has.footing_eq⟩ lower
  | enters name table code pc observer package context suspended ended =>
    exact .enters name table code pc observer package context suspended ended
  | suspends awaiting fresh suspended ended => exact .suspends awaiting fresh suspended ended

end CallEffect

namespace World

theorem callContext_fresh (symbols : TableId) (settings : Settings) (callable : Value)
    (args : List Value) (w : World) :
    ((callContext symbols settings callable args).run w).1.Fresh := by
  refine ⟨?_, rfl, rfl, rfl⟩
  intro s hs
  have hmem : s ∈ ((callable :: args).map Slot.value).toArray := hs
  rw [List.mem_toArray, List.mem_map] at hmem
  obtain ⟨v, -, rfl⟩ := hmem
  exact ⟨v, rfl⟩

theorem start_fresh {c : Context} (h : c.Fresh) (pc : Nat) (w : World) :
    ((start c pc).run w).1.Fresh := ⟨h.values, h.fp_eq, h.frameDepth_eq, h.handlers_eq⟩

end World

namespace Exec

variable {α β : Type}

/-! ### Actions on the world -/

/-- An action on the world alone. -/
abbrev IsWorldly (act : Exec α) : Prop := Keeps Machine.SameButWorld act

namespace IsWorldly

theorem pure (a : α) : IsWorldly (Pure.pure a) := Keeps.pure a

theorem bind {act : Exec α} {next : α → Exec β} (hact : IsWorldly act)
    (hnext : ∀ a, IsWorldly (next a)) : IsWorldly (act >>= next) := Keeps.bind hact hnext

theorem onWorld (act : WorldM α) : IsWorldly (Exec.onWorld act) := fun _ => rfl

theorem setScopes (a : Arena) : IsWorldly (Exec.setScopes a) := fun _ => rfl

theorem storeIn (table : TableId) (name : String) (v : Value) :
    IsWorldly (Exec.storeIn table name v) :=
  bind Keeps.scopes fun _ => bind (Keeps.lift _) fun _ => setScopes _

theorem storeHere (name : String) (v : Value) : IsWorldly (Exec.storeHere name v) :=
  bind Keeps.context fun _ => storeIn _ name v

theorem storeAllIn (table : TableId) (bindings : List (String × Value)) :
    IsWorldly (Exec.storeAllIn table bindings) :=
  bind (Keeps.forIn bindings _ _ fun p _ => bind (storeIn table p.1 p.2) fun _ => pure _)
    fun _ => pure _

theorem checkTypes (parameters : List Parameter) (args : List Value) : IsWorldly (do
    let m ← get
    if m.context.staticTypes then
      for (p, v) in parameters.zip args do
        if !p.type.accepts (m.world.heap.typeOf v) then
          Exec.fail (.about .argumentType p.name)) := by
  refine bind Keeps.get fun m => Keeps.ite ?_ (pure _)
  refine bind (Keeps.forIn _ _ _ fun p _ => ?_) fun _ => pure _
  exact Keeps.ite (bind (Keeps.fail _) fun _ => pure _) (pure _)

theorem checkArguments (d : Declaration) (args : List Value) :
    IsWorldly (Exec.checkArguments d args) := by
  unfold Exec.checkArguments
  dsimp only
  exact Keeps.ite (bind (Keeps.fail _) fun _ => checkTypes _ args) (checkTypes _ args)

theorem checkCall (code : Code) (args : List Value) : IsWorldly (Exec.checkCall code args) := by
  unfold Exec.checkCall
  split
  · exact checkArguments _ args
  · exact Keeps.pure _

theorem bindArgs (args : List Value) : IsWorldly (Exec.bindArgs args) :=
  bind (onWorld _) fun _ => storeHere _ _

end IsWorldly

/-! ### Calls -/

/-- An action that has the effect of a call on a running function that is grounded. -/
def IsCall (act : Exec α) : Prop :=
  ∀ m : Machine, m.context.Grounded → CallEffect m (outcome act m).2

theorem IsSteady.isCall {act : Exec α} (h : IsSteady act) : IsCall act := by
  intro m hm
  obtain ⟨-, hhas⟩ := h m.footing #[] (Nat.zero_le _) m (Machine.has_self hm)
  exact .stays hhas (h.lower_eq hm)

theorem outcome_noteThread (c : Category) (message : Unit → String) (m : Machine) :
    ∃ journal, outcome (noteThread c message) m
      = (.ok (), { m with world := { m.world with journal } }) := by
  rw [noteThread, outcome_bind, outcome_get]
  dsimp only
  split
  · exact ⟨_, rfl⟩
  · exact ⟨m.world.journal, rfl⟩

theorem outcome_observe (x : Happening) (m : Machine) :
    ∃ journal observer, outcome (observe x) m = (.ok (), { m with
      world := { m.world with journal }
      context := { m.context with observer } }) := by
  rw [observe, outcome_bind, outcome_get]
  dsimp only
  split
  · split
    · exact ⟨_, _, rfl⟩
    · exact ⟨m.world.journal, _, rfl⟩
  · exact ⟨m.world.journal, _, rfl⟩

/-- Entering code: the frame keeps the state of the caller. -/
theorem outcome_pushFrame (name : String) (table : TableId) (code : Code) (pc : Nat)
    (m : Machine) : ∃ journal observer, outcome (pushFrame name table code pc) m =
      (.ok (), { m with
        world := { m.world with journal }
        context := { m.context.entered (m.context.saved name) table code pc with observer } }) := by
  obtain ⟨j, hj⟩ := outcome_noteThread .symbol
    (fun _ => s!"push call frame {name} from {(m.context.saved name).origin}, table {table.text}") m
  have hentered := outcome_modifyContext
    (fun c => c.entered (m.context.saved name) table code pc)
    { m with world := { m.world with journal := j } }
  obtain ⟨j', o, ho⟩ := outcome_observe (.call name (m.context.frameDepth + 1))
    { m with
      world := { m.world with journal := j }
      context := m.context.entered (m.context.saved name) table code pc }
  refine ⟨j', o, ?_⟩
  rw [pushFrame, outcome_bind_ok (outcome_context m), outcome_bind_ok hj,
    outcome_bind_ok hentered, outcome_bind_ok (outcome_context _)]
  exact ho

namespace IsCall

theorem afterWorld {act : Exec α} {next : α → Exec β} (hact : IsWorldly act)
    (hnext : ∀ a, IsCall (next a)) : IsCall (act >>= next) := by
  intro m hm
  have hworld := hact m
  rw [outcome_bind]
  rcases hout : outcome act m with ⟨r | a, m'⟩
  · rw [hout] at hworld
    refine .thenWorld (.stays (Machine.has_self hm) rfl) hworld
  · rw [hout] at hworld
    have hcontext : m'.context = m.context := by
      rw [show m' = { m with world := m'.world } from hworld]
    exact (hnext a m' (by rw [hcontext]; exact hm)).afterWorld hworld

theorem thenWorld {act : Exec α} {next : α → Exec β} (hact : IsCall act)
    (hnext : ∀ a, IsWorldly (next a)) : IsCall (act >>= next) := by
  intro m hm
  have heffect := hact m hm
  rw [outcome_bind]
  rcases hout : outcome act m with ⟨r | a, m'⟩
  · rw [hout] at heffect
    exact heffect
  · rw [hout] at heffect
    exact heffect.thenWorld (hnext a m')

theorem ite {p : Prop} [Decidable p] {yes no : Exec α} (hyes : IsCall yes) (hno : IsCall no) :
    IsCall (if p then yes else no) := by
  split
  · exact hyes
  · exact hno

theorem pushFrame (name : String) (table : TableId) (code : Code) (pc : Nat) :
    IsCall (Exec.pushFrame name table code pc) := by
  intro m hm
  obtain ⟨w, o, h⟩ := outcome_pushFrame name table code pc m
  rw [h]
  exact .enters name table code pc o m.context.package rfl rfl rfl

/-- Entering code that runs in a package. -/
theorem pushFrame_inPackage (name : String) (table : TableId) (code : Code) (pc : Nat)
    (package : String) : IsCall (do
      Exec.pushFrame name table code pc
      Exec.modifyContext fun c => { c with package }) := by
  intro m hm
  obtain ⟨w, o, h⟩ := outcome_pushFrame name table code pc m
  rw [outcome_bind_ok h]
  exact .enters name table code pc o package rfl rfl rfl

theorem enterChild (name : String) (code : Code) (pc : Nat) (boundary : Bool) :
    IsCall (Exec.enterChild name code pc boundary) :=
  afterWorld Keeps.context fun _ => afterWorld (.onWorld _) fun _ => pushFrame name _ code pc

theorem callCode (code : Code) (args : List Value) : IsCall (Exec.callCode code args) :=
  afterWorld (.checkCall code args) fun _ => afterWorld Keeps.context fun _ =>
    thenWorld (enterChild _ code 0 _) fun _ => .bindArgs args

theorem callMember (package : Ref .package) (code : Code) (args : List Value) :
    IsCall (Exec.callMember package code args) := by
  have hfinish : ∀ (table : TableId) (name : String), IsCall (do
      Exec.pushFrame code.name table code 0
      Exec.modifyContext fun c => { c with package := name }
      Exec.storeIn table "__args" (← Exec.onHeap (Heap.newList args))) := by
    intro table name
    have hassoc := thenWorld (pushFrame_inPackage code.name table code 0 name)
      fun _ => IsWorldly.bind (.onWorld (World.onHeap (Heap.newList args))) fun v =>
        .storeIn table "__args" v
    rwa [bind_assoc] at hassoc
  have henter : ∀ (scope : TableId) (name : String), IsCall (do
      let table ← Exec.onWorld (World.newChild code.name scope false)
      Exec.pushFrame code.name table code 0
      Exec.modifyContext fun c => { c with package := name }
      Exec.storeIn table "__args" (← Exec.onHeap (Heap.newList args))) :=
    fun scope name => afterWorld (.onWorld _) fun table => hfinish table name
  refine afterWorld (.checkCall code args) fun _ => afterWorld Keeps.heap fun h => ?_
  dsimp only
  refine afterWorld Keeps.context fun c => afterWorld (.onWorld _) fun scope =>
    afterWorld Keeps.scopes fun a => afterWorld (Keeps.lift _) fun b =>
    afterWorld (.setScopes b) fun _ => afterWorld (.storeAllIn scope _) fun _ => ?_
  split
  · exact afterWorld Keeps.scopes fun a => afterWorld (.storeAllIn scope _) fun _ => henter scope _
  · exact henter scope _

/-! ### Library functions and types -/

theorem enterScratch {c : Context} (h : c.Fresh) (awaiting : Awaiting) :
    IsCall (Exec.enterScratch c awaiting) :=
  fun m _ => .suspends awaiting (World.start_fresh h 0 m.world) rfl rfl

theorem askOrdering (r : Ref .array) (less : Value) (size i j : Nat) :
    IsCall (Exec.askOrdering r less size i j) := by
  intro m hm
  have hfresh := World.callContext_fresh m.context.symbols m.context.settings less
    [.ofNat j, .ofNat (j - 1)] m.world
  rw [Exec.askOrdering, outcome_bind_ok (outcome_context m), outcome_bind_ok (outcome_onWorld _ m)]
  have heffect := enterScratch hfresh (.ordering r less size i j) { m with
    world := ((World.callContext m.context.symbols m.context.settings less
      [.ofNat j, .ofNat (j - 1)]).run m.world).2 } hm
  refine CallEffect.afterWorld ?_ heffect
  rfl

theorem settleLibraryFault (f : Native) (fault : Fault) :
    IsLocal (Exec.settleLibraryFault f fault) :=
  IsLocal.context_bind (fun _ _ => rfl) fun _ => IsLocal.ite (IsLocal.fail _)
    ((IsLocal.noteThread _ _).bind fun _ => IsLocal.push _)

theorem sortNext (r : Ref .array) (less : Value) (size i : Nat) :
    IsCall (Exec.sortNext r less size i) :=
  ite (askOrdering r less size i i) (IsLocal.push _).isSteady.isCall

theorem sortAfter (r : Ref .array) (less : Value) (size i j : Nat) (goesFirst : Bool) :
    IsCall (Exec.sortAfter r less size i j goesFirst) := by
  refine ite (afterWorld (.onWorld _) fun result => ?_) (sortNext r less size _)
  cases result with
  | ok => exact ite (askOrdering r less size i _) (sortNext r less size _)
  | error fault => exact (settleLibraryFault _ fault).isSteady.isCall

theorem beginSort (args : List Value) : IsCall (Exec.beginSort args) := by
  unfold Exec.beginSort
  dsimp only
  split
  · exact afterWorld Keeps.heap fun _ => sortNext _ _ _ _
  · exact (settleLibraryFault _ _).isSteady.isCall

theorem callNative (f : Native) (receiver : Option Value) (args : List Value) :
    IsCall (Exec.callNative f receiver args) := by
  refine ite (IsLocal.fail _).isSteady.isCall (ite (beginSort args) ?_)
  refine afterWorld (.onWorld _) fun result => ?_
  split
  · exact (IsLocal.push _).isSteady.isCall
  · exact (settleLibraryFault f _).isSteady.isCall
  · exact IsLocal.wait.isSteady.isCall

theorem construct (t : Ty) (args : List Value) : IsLocal (Exec.construct t args) := by
  have hinit : ∀ fresh init : Value, IsLocal (Exec.initialised t fresh init) := by
    intro fresh init
    have hfields : ∀ (r : Ref .struct) (fields : List (String × Value)),
        IsLocal (Exec.setFields r fields) := fun r fields =>
      IsLocal.bind (IsLocal.forIn fields _ _ fun p _ =>
        (IsLocal.onObjects _).bind fun _ => IsLocal.pure _) fun _ => IsLocal.pure _
    have hentries : ∀ (r : Ref .struct) (source : MapObject),
        IsLocal (Exec.setFieldsFrom r source) := fun r source =>
      IsLocal.bind (IsLocal.forIn source.keys _ _ fun key _ =>
        (IsLocal.lift _).bind fun _ => IsLocal.heap.bind fun _ =>
          (IsLocal.onObjects _).bind fun _ => IsLocal.pure _) fun _ => IsLocal.pure _
    unfold Exec.initialised
    split
    · exact IsLocal.heap.bind fun _ => (hentries _ _).bind fun _ => IsLocal.pure _
    · exact IsLocal.heap.bind fun _ => (hfields _ _).bind fun _ => IsLocal.pure _
    · exact (IsLocal.onObjects _).bind fun _ => IsLocal.pure _
    · exact IsLocal.onObjects _
  refine (IsLocal.onHeap _).bind fun fresh => ?_
  split
  · exact IsLocal.push _
  · exact (hinit _ _).bind fun v => IsLocal.push v
  · exact IsLocal.fail _

/-- **Calling a value has the effect of a call.** -/
theorem callValue (callable : Value) (args : List Value) :
    IsCall (Exec.callValue callable args) := by
  unfold Exec.callValue
  split
  · exact callCode _ args
  · exact callMember _ _ args
  · exact callNative _ _ args
  · exact (construct _ args).isSteady.isCall
  · exact (IsLocal.fail _).isSteady.isCall

end IsCall

/-! ### Instructions that call -/

/-- How many slots a call takes off the operand stack: the callable and its arguments. -/
def slotsTaken (i : Instruction) (c : Context) : Nat :=
  match i.op with
  | .call =>
    let count := if i.operand.isNull then 0 else i.operand.toIndex.toOption.getD 0
    ((count : Int) + c.extraArgs).toNat + 1
  | _ => 0

/-- The machine after a call has taken slots off the operand stack. -/
def withoutSlots (m : Machine) (taken : Nat) (extraArgs : Int) : Machine :=
  { m with context := { m.context with
      stack := m.context.stack.extract 0 (m.context.stack.size - taken)
      extraArgs } }

theorem withoutSlots_zero (m : Machine) : withoutSlots m 0 m.context.extraArgs = m := by
  simp [withoutSlots]

/-- Taking the top operand takes one slot and nothing else, or is a fault. -/
theorem outcome_popUnwrapped {m : Machine} (h : m.context.Grounded) :
    (∃ f, (outcome popUnwrapped m).1 = .error f) ∨
      ∃ v, m.context.fp < m.context.stack.size ∧ m.context.stack.back? = some (.value v) ∧
        outcome popUnwrapped m = (.ok v.unwrapped, m.withStack m.context.stack.pop) := by
  have hpop := outcome_pop h
  rcases h.operands_cases with ⟨-, hnil⟩ | ⟨xs, v, hlt, hpush, hback, hrest⟩
  · rw [hnil] at hpop
    have herror : outcome popValue m = (.error (.fault (.bare .stackUnderflow)), _) :=
      outcome_bind_error hpop
    exact .inl ⟨_, congrArg Prod.fst (outcome_bind_error herror)⟩
  · rw [hpush] at hpop
    simp only [popped, Array.back?_push, Array.pop_push, ← hrest] at hpop
    have hvalue : outcome popValue m = outcome (if v.isMarker then
        fail (.bare .functionReturnedVoid) else pure v) (m.withStack m.context.stack.pop) :=
      outcome_bind_ok hpop
    split at hvalue
    · exact .inl ⟨_, congrArg Prod.fst (outcome_bind_error hvalue)⟩
    · exact .inr ⟨v, hlt, hback, outcome_bind_ok hvalue⟩

/-- Taking a callable and its arguments takes these slots and nothing else, or is a fault. The
callable is in the lowest of them. -/
theorem outcome_popCall {m : Machine} (h : m.context.Grounded) (count : Nat) :
    (∃ f, (outcome (popCall count) m).1 = .error f) ∨
      ∃ callable args, m.context.fp + (count + 1) ≤ m.context.stack.size ∧
        m.context.stack[m.context.stack.size - (count + 1)]? = some (.value callable) ∧
        outcome (popCall count) m
          = (.ok (callable.unwrapped, args),
              withoutSlots m (count + 1) m.context.extraArgs) := by
  have hfp := h.fp_le
  have hargs := outcome_popArgs h count
  rcases hres : (poppedArgs count m.context.operands).1 with e | args
  · rw [hres] at hargs
    exact .inl ⟨e, congrArg Prod.fst (outcome_bind_error hargs)⟩
  · rw [hres] at hargs
    have hsize := m.context.size_operands
    have hcount : count ≤ m.context.operands.size := by
      rcases Nat.lt_or_ge m.context.operands.size count with hlt | hge
      · rw [poppedArgs, if_pos hlt] at hres
        cases hres
      · exact hge
    have hstack : m.context.lower ++ (poppedArgs count m.context.operands).2
        = m.context.stack.extract 0 (m.context.stack.size - count) := by
      rw [poppedArgs, if_neg (by omega)]
      dsimp only
      rw [Context.lower_append_extract (by omega) hfp]
      congr 1
      omega
    rw [hstack] at hargs
    have hground := (IsLocal.popArgs count m.surroundings _ _ _ m
      (Machine.settled_self h)).2.grounded
    rw [hargs] at hground
    rcases outcome_popUnwrapped hground with ⟨f, hf⟩ | ⟨v, hlt, hback, hv⟩
    · refine .inl ⟨f, ?_⟩
      rw [popCall, outcome_bind_ok hargs, outcome_bind_error (Prod.ext hf rfl)]
    · have hsmall : (m.context.stack.extract 0 (m.context.stack.size - count)).size
          = m.context.stack.size - count := by
        rw [Array.size_extract]
        omega
      have hlt' : m.context.fp < m.context.stack.size - count := by
        rw [← hsmall]
        exact hlt
      have hpop : (m.context.stack.extract 0 (m.context.stack.size - count)).pop
          = m.context.stack.extract 0 (m.context.stack.size - (count + 1)) := by
        rw [← Array.extract_eq_pop rfl, hsmall, Array.extract_extract]
        congr 1
        omega
      refine .inr ⟨v, args, by omega, ?_, ?_⟩
      · have hslot : (m.context.stack.extract 0 (m.context.stack.size - count)).back?
            = some (.value v) := hback
        rw [Array.back?_eq_getElem?, hsmall, Array.getElem?_extract, if_pos (by omega)] at hslot
        rw [← hslot]
        congr 1
        omega
      · rw [popCall, outcome_bind_ok hargs, outcome_bind_ok hv]
        show (_, m.withStack (m.context.stack.extract 0 (m.context.stack.size - count)).pop) = _
        rw [hpop]
        rfl

/-- The effect of an instruction that calls: the slots it takes are taken first. -/
def CallsAfter (i : Instruction) (act : Exec α) : Prop :=
  ∀ m : Machine, m.context.Grounded →
    ((outcome act m).2.Has m.footing ∧ (outcome act m).2.context.lower = m.context.lower) ∨
    ∃ extraArgs, m.context.fp + slotsTaken i m.context ≤ m.context.stack.size ∧
      CallEffect (withoutSlots m (slotsTaken i m.context) extraArgs) (outcome act m).2

theorem withoutSlots_grounded {m : Machine} (h : m.context.Grounded) {taken : Nat}
    (hle : m.context.fp + taken ≤ m.context.stack.size) (extraArgs : Int) :
    (withoutSlots m taken extraArgs).context.Grounded := by
  refine ⟨?_, ?_⟩
  · show m.context.fp ≤ (m.context.stack.extract 0 _).size
    rw [Array.size_extract]
    omega
  · show OnlyValues ((m.context.stack.extract 0 (m.context.stack.size - taken)).extract
      m.context.fp (m.context.stack.extract 0 (m.context.stack.size - taken)).size)
    have hcut : (m.context.stack.extract 0 (m.context.stack.size - taken)).extract m.context.fp
        (m.context.stack.extract 0 (m.context.stack.size - taken)).size
          = m.context.operands.extract 0 (m.context.stack.size - taken - m.context.fp) := by
      rw [Context.operands, Array.extract_extract, Array.extract_extract, Array.size_extract]
      congr 1 <;> omega
    rw [hcut]
    exact h.values.extract _ _

/-- What calls without operands on the stack do. -/
theorem CallsAfter.ofCall {i : Instruction} {act : Exec α} (hi : ∀ c, slotsTaken i c = 0)
    (h : IsCall act) : CallsAfter i act := by
  intro m hm
  refine .inr ⟨m.context.extraArgs, ?_, ?_⟩
  · rw [hi]
    exact hm.fp_le
  · rw [hi, withoutSlots_zero]
    exact h m hm

theorem localCall_callsAfter (operand : Value) :
    CallsAfter ⟨.localCall, operand⟩ (localCall operand) := by
  have htarget : IsWorldly (branchTarget operand) := by
    refine .bind Keeps.get fun m => ?_
    dsimp only
    split
    · exact Keeps.ite (.pure _) (Keeps.fail _)
    · exact Keeps.fail _
  exact .ofCall (fun _ => rfl) (.afterWorld htarget fun address =>
    .afterWorld Keeps.context fun c => .enterChild _ _ address _)

theorem entryPoint_callsAfter (operand : Value) :
    CallsAfter ⟨.entryPoint, operand⟩ (entryPoint operand) := by
  have hlookup : ∀ name, IsWorldly (lookup name) := by
    intro name
    refine .bind (.bind Keeps.get fun m => .pure _) fun found => ?_
    split
    · exact .pure _
    · exact Keeps.fail _
  refine .ofCall (fun _ => rfl) ?_
  exact .afterWorld (hlookup _) fun v => .callValue _ _

/-- A call takes a callable and its arguments, and calls it, or is a fault that leaves alone what
lies below. -/
theorem outcome_call (operand : Value) {m : Machine} (hm : m.context.Grounded) :
    ((∃ e, (outcome (call operand) m).1 = .error e) ∧
      (outcome (call operand) m).2.Has m.footing ∧
      (outcome (call operand) m).2.context.lower = m.context.lower) ∨
    ∃ callable args, m.context.fp + slotsTaken ⟨.call, operand⟩ m.context ≤ m.context.stack.size ∧
      m.context.stack[m.context.stack.size - slotsTaken ⟨.call, operand⟩ m.context]?
        = some (.value callable) ∧
      outcome (call operand) m = outcome (callValue callable.unwrapped args)
        (withoutSlots m (slotsTaken ⟨.call, operand⟩ m.context) 0) := by
  have hcount : (∃ f, outcome (operandCount operand 0) m = (.error f, m)) ∨
      outcome (operandCount operand 0) m
        = (.ok (if operand.isNull then 0 else operand.toIndex.toOption.getD 0), m) := by
    unfold operandCount
    split
    · exact .inr rfl
    · rw [outcome_liftExcept]
      cases operand.toIndex with
      | error f => exact .inl ⟨_, rfl⟩
      | ok n => exact .inr rfl
  rcases hcount with ⟨f, hf⟩ | hcount
  · rw [call, outcome_bind_error hf]
    exact .inl ⟨⟨f, rfl⟩, Machine.has_self hm, rfl⟩
  · rw [call, outcome_bind_ok hcount, outcome_bind_ok (outcome_context m),
      outcome_bind_ok (outcome_modifyContext _ m)]
    generalize hn : (((if operand.isNull then 0 else operand.toIndex.toOption.getD 0 : Nat) : Int)
      + m.context.extraArgs).toNat = n
    have htaken : slotsTaken ⟨.call, operand⟩ m.context = n + 1 := congrArg (· + 1) hn
    have hclear : { m with context := { m.context with extraArgs := 0 } }.context.Grounded :=
      ⟨hm.fp_le, hm.values⟩
    rcases outcome_popCall hclear n with ⟨f, hf⟩ | ⟨callable, args, hle, hslot, hp⟩
    · rw [outcome_bind_error (Prod.ext hf rfl)]
      have hsteady := IsSteady.popCall n
      exact .inl ⟨⟨f, rfl⟩, (hsteady.isSteady m.footing #[] (Nat.zero_le _) _ ⟨hclear, rfl⟩).2,
        hsteady.isSteady.lower_eq hclear⟩
    · rw [outcome_bind_ok hp, htaken]
      exact .inr ⟨callable, args, hle, hslot, rfl⟩

theorem call_callsAfter (operand : Value) : CallsAfter ⟨.call, operand⟩ (call operand) := by
  intro m hm
  rcases outcome_call operand hm with ⟨-, hfails⟩ | ⟨callable, args, hle, -, hcalls⟩
  · exact .inl hfails
  · rw [hcalls]
    exact .inr ⟨0, hle, IsCall.callValue _ args _ (withoutSlots_grounded hm hle 0)⟩

end Exec

end ScriptMachine
