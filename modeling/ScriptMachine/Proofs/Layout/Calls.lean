import ScriptMachine.Proofs.Debugging.Instructions
import ScriptMachine.Proofs.Frames.Entering
import ScriptMachine.Proofs.Layout.Actions
import ScriptMachine.Proofs.Loops.Winding

/-!
# Calls, blocks and loops on pairs of machines

The instructions that change what surrounds the operands, on paired machines: calls, blocks, packages,
handlers, loops and deferred calls. Those that name an address in the running code name addresses that
correspond.

* `Context.Paired.entered`: functions are entered at places that correspond.
* `Pairs.callValue`, `Pairs.beginLoop` and companions: calls, blocks, packages and loops.
* `Pairing.Leads`: two operands that name places that correspond, or one operand that is refused or
  is read in one code; `PairsAt.branch`, `PairsAt.localCall`, `PairsAt.nextRound`, `PairsAt.arm`.
* `Pairs.execute`: the instructions without an address, but `Go` and `Return`.
-/

namespace ScriptMachine

variable {K : Pairing}

/-- The frame of a caller, in two machines. -/
theorem Context.Paired.saved {c e : Context} (p : c.Paired K True e) (name : String) :
    (c.saved name).Paired K (e.saved name) := by
  refine ⟨?_, p.meets trivial⟩
  have hmodule : (e.saved name).module = (c.saved name).module := p.name_eq
  have hsaved : e.saved name = { c.saved name with
      module := (e.saved name).module, code := e.code, pc := e.pc } := by
    conv_lhs => rw [p.same]
    rfl
  rw [hsaved, hmodule]

/-- Two machines enter functions at places that correspond. -/
theorem Context.Paired.entered {c e : Context} (p : c.Paired K True e) (name : String)
    (table : TableId) {x y : Code} {a b : Nat} (hmeets : K.Meets x a y b) :
    (c.entered (c.saved name) table x a).Paired K True
      (e.entered (e.saved name) table y b) := by
  have hsize := p.size_stack_eq
  have hempty : ∀ (d : Context) (f : Frame) (z : Code) (k : Nat),
      (d.entered f table z k).operands = #[] := by
    intro d f z k
    refine Array.eq_empty_of_size_eq_zero ?_
    rw [Context.size_operands]
    show (d.stack.push (.frame f)).size - (d.stack.size + 1) = 0
    rw [Array.size_push, Nat.sub_self]
  refine ⟨?_, K.name_eq hmeets, Exec.grounded_entered _ _ _ _ _, (Exec.grounded_entered _ _ _ _ _).fp_le,
    by rw [hempty, hempty], ?_, fun _ => hmeets, p.allowance_eq, p.allowance_eq'⟩
  · generalize e.saved name = g
    conv_lhs => rw [p.same]
    simp only [Context.entered, hsize]
  · rw [Exec.lower_entered, Exec.lower_entered, p.stack_eq]
    have hlower : c.lower.size = c.fp := Context.size_lower p.grounded.fp_le
    have hbelow := p.below.enter p.grounded.values (p.saved name) rfl rfl hlower.symm x y
    rw [p.grounded.lower_append] at hbelow
    exact hbelow

/-- A fresh context is paired with itself. -/
theorem Context.Fresh.paired {c : Context} (h : c.Fresh) (hallowance : c.observer.allowance = none) :
    c.Paired K True c := by
  have hlower : c.lower = #[] := by
    rw [Context.lower, h.fp_eq]
    exact Array.extract_zero
  have hoperands : c.operands = c.stack := by
    rw [Context.operands, h.fp_eq, Array.extract_size]
  have hle : c.fp ≤ c.stack.size := by
    rw [h.fp_eq]
    exact Nat.zero_le _
  refine ⟨rfl, rfl, ⟨hle, hoperands ▸ h.values⟩, hle, rfl, ?_, fun _ => K.refl _ _, hallowance,
    hallowance⟩
  rw [hlower, h.handlers_eq]
  exact .outermost .nil (by simp)

namespace Exec

variable {α β : Type} {T T' : Prop}

/-- Where branches are allowed, an action need not make any. -/
theorem IsPlain.widen {W B : Prop} {act : Exec α} (h : IsPlain W False act) : IsPlain W B act := by
  induction h with
  | pure a => exact .pure a
  | throw hquiet => exact .throw hquiet
  | bind _ _ ihact ihnext => exact ihact.bind ihnext
  | get_bind hread hveil hplace _ ih => exact .get_bind hread hveil hplace ih
  | push v => exact .push v
  | pop => exact .pop
  | peek => exact .peek
  | popArgs count => exact .popArgs count
  | dropToMarker => exact .dropToMarker
  | write text => exact .write text
  | onWorld h => exact .onWorld h
  | attempt toHalt h hquiet => exact .attempt toHalt h hquiet
  | store hW name v => exact .store hW name v
  | changeScopes hW write h => exact .changeScopes hW write h
  | adjust hcomm hadjusts hveil hplace => exact .adjust hcomm hadjusts hveil hplace
  | branchTarget hB => exact hB.elim
  | goTo hB => exact hB.elim

/-- Other handlers are armed. -/
theorem PairsAt.setHandlers {m n : Machine} (p : m.Paired K T n) {own own' : List Handler}
    (below : PairedBelow K m.context.lower n.context.lower m.context.code n.context.code own own') :
    PairsAt K T (Exec.modifyContext fun c => { c with handlers := own })
      (Exec.modifyContext fun c => { c with handlers := own' }) m n :=
  .modifyContext p (p.context.withHandlers below)

theorem liftM_ok (a : α) : (liftM (Except.ok a : Except Fault α) : Exec α) = Pure.pure a := rfl

namespace Pairs

/-- Plain actions without branches. -/
theorem ofPlain {act : Exec α} (h : IsPlain True False act) : Pairs K T T act act :=
  .ofLocal h.widen.isLocal h.isAloof

theorem noteThread (c : Category) (message message' : Unit → String) :
    Pairs K T T (Exec.noteThread c message) (Exec.noteThread c message') :=
  .ofNoting (.noteThread c message) (.noteThread c message')

theorem observe (x y : Happening) : Pairs K T T (Exec.observe x) (Exec.observe y) :=
  .ofNoting (.observe x) (.observe y)

theorem newChild (name : String) (parent : TableId) (boundary : Bool) :
    Pairs K T T (Exec.onWorld (World.newChild name parent boundary))
      (Exec.onWorld (World.newChild name parent boundary)) :=
  onWorld (World.newChild_isUnread name parent boundary)

theorem storeIn (table : TableId) (name : String) (v : Value) :
    Pairs K T T (Exec.storeIn table name v) (Exec.storeIn table name v) :=
  ofPlain (.storeIn table name v)

theorem push (v : Value) : Pairs K T T (Exec.push v) (Exec.push v) := ofPlain (.push v)

/-! ### Blocks, packages and handlers -/

theorem pushScope : Pairs K T T Exec.pushScope Exec.pushScope :=
  read_bind (fun _ _ _ _ _ _ => rfl) fun _ => (newChild _ _ _).bind fun _ =>
    adjust (fun _ _ _ _ _ _ => rfl) fun _ => rfl

theorem popScope : Pairs K T T Exec.popScope Exec.popScope := by
  refine read_bind (fun _ _ _ _ _ _ => rfl) fun c => scopes.bind fun a => ?_
  split
  · exact fail _
  · exact (onWorld (World.remove_isUnread _)).bind fun _ => scopes.bind fun _ =>
      (noteThread _ _ _).bind fun _ => adjust (fun _ _ _ _ _ _ => rfl) fun _ => rfl

theorem packageNamed (name : String) :
    Pairs K T T (Exec.packageNamed name) (Exec.packageNamed name) := by
  refine scopes.bind fun a => ?_
  dsimp only
  split
  · exact pure _
  · exact onHeap _

theorem packageTable (r : Ref .package) (name : String) :
    Pairs K T T (Exec.packageTable r name) (Exec.packageTable r name) := by
  refine heap.bind fun h => ?_
  dsimp only
  refine scopes.bind fun a => ?_
  split
  · exact pure _
  · exact (newChild _ _ _).bind fun table => scopes.bind fun a => (lift _).bind fun _ =>
      (setScopes _).bind fun _ => (onHeap _).bind fun _ => pure _

theorem pushPackage (operand : Value) :
    Pairs K T T (Exec.pushPackage operand) (Exec.pushPackage operand) :=
  (ofPlain (.operandName operand)).bind fun name => (packageNamed name).bind fun r =>
    (packageTable r name).bind fun _ => adjust (fun _ _ _ _ _ _ => rfl) fun _ => rfl

theorem popPackage : Pairs K T T Exec.popPackage Exec.popPackage := by
  refine read_bind (fun _ _ _ _ _ _ => rfl) fun c => ?_
  split
  · exact fail _
  · refine bind (adjust (fun _ _ _ _ _ _ => rfl) fun _ => rfl) fun _ => scopes.bind fun a => heap.bind fun h => ?_
    dsimp only
    exact (onHeap _).bind fun _ => (noteThread _ _ _).bind fun _ => (storeIn _ _ _).bind fun _ =>
      adjust (fun _ _ _ _ _ _ => rfl) fun _ => rfl

theorem narrow (operand : Value) : Pairs K T T (Exec.narrow operand) (Exec.narrow operand) := by
  intro m n p
  have hbelow := p.context.below
  refine .context_bind ?_
  rcases hm : m.context.handlers with _ | ⟨h, rest⟩ <;>
    rcases hn : n.context.handlers with _ | ⟨k, rest'⟩ <;> rw [hm, hn] at hbelow
  · exact fail _ m n p
  · cases hbelow.length_eq
  · cases hbelow.length_eq
  · obtain ⟨_, _, hhead⟩ := hbelow.exists_head
    dsimp only
    rw [hhead.catches_eq]
    cases narrowed h.catches operand with
    | error f => exact fail f m n p
    | ok catches =>
      rw [liftM_ok, pure_bind]
      exact .setHandlers p (hbelow.withCatches catches)

theorem disarm : Pairs K T T Exec.disarm Exec.disarm := by
  intro m n p
  have hbelow := p.context.below
  refine .context_bind ?_
  rcases hm : m.context.handlers with _ | ⟨h, rest⟩ <;>
    rcases hn : n.context.handlers with _ | ⟨k, rest'⟩ <;> rw [hm, hn] at hbelow
  · exact fail _ m n p
  · cases hbelow.length_eq
  · cases hbelow.length_eq
  · have hsymbols : n.context.symbols = m.context.symbols := by rw [p.context.same]
    dsimp only
    rw [hsymbols]
    exact .bind (.setHandlers p hbelow.tail) fun _ m' n' _ _ p' =>
      (scopes.bind fun _ => (lift _).bind fun _ => setScopes _ : Pairs K T T _ _) m' n' p'

/-! ### Loops -/

theorem createLoopName (name : String) :
    Pairs K T T (Exec.createLoopName name) (Exec.createLoopName name) :=
  ofPlain (.get_bind (fun _ _ => rfl) (fun _ _ => rfl) (fun _ _ _ => rfl) fun _ =>
    .ite (.create name) (.pure ()))

theorem walkOver (v : Value) : Pairs K T T (Exec.walkOver v) (Exec.walkOver v) := by
  unfold Exec.walkOver
  split
  · exact pure _
  · refine heap.bind fun h => ?_
    split
    · exact (onHeap _).bind fun _ => pure _
    · exact pure _
  · refine heap.bind fun h => ?_
    split
    · exact (onHeap _).bind fun _ => pure _
    · exact pure _
  · exact pure _
  · exact fail _

theorem beginLoop (operand : Value) :
    Pairs K T T (Exec.beginLoop operand) (Exec.beginLoop operand) := by
  refine heap.bind fun h => ?_
  dsimp only
  exact (createLoopName _).bind fun _ => (createLoopName _).bind fun _ =>
    (ofPlain .popUnwrapped).bind fun _ => (walkOver _).bind fun _ => adjust (fun _ _ _ _ _ _ => rfl) fun _ => rfl

theorem release (l : Loop) : Pairs K T T (Exec.release l) (Exec.release l) := by
  unfold Exec.release
  split
  · exact onHeap _
  · exact onHeap _
  · exact pure _
  · exact pure _

theorem storeLoopName (name : String) (v : Value) :
    Pairs K T T (Exec.storeLoopName name v) (Exec.storeLoopName name v) :=
  ofPlain (.ite (.store trivial name v) (.pure ()))

/-! ### Waiting, deferring and line numbers -/

theorem popCall (count : Nat) : Pairs K T T (Exec.popCall count) (Exec.popCall count) :=
  ofPlain (IsOrdinary.popCall count)

theorem deferCall (operand : Value) :
    Pairs K T T (Exec.deferCall operand) (Exec.deferCall operand) :=
  (ofPlain (.operandCount operand 0)).bind fun count => (popCall count).bind fun _ =>
    adjust (fun _ _ _ _ _ _ => rfl) fun _ => rfl

/-- Where there are no tasks there is nothing to wait for, or one has to wait for ever. -/
theorem joinTasks : Pairs K T T Exec.joinTasks Exec.joinTasks := by
  intro m n p
  have hstarted : n.context.tasks = m.context.tasks := by rw [p.context.same]
  refine .get_bind ?_
  rw [p.tasks_eq, p.tasks_eq', hstarted]
  cases m.context.tasks.reverse with
  | nil =>
    refine (?_ : Pairs K T T _ _) m n p
    exact bind (adjust (fun _ _ _ _ _ _ => rfl) fun _ => rfl) fun _ => pure ()
  | cons id ids => exact wait m n p

theorem awaitTarget (target : Option Value) : Pairs K T T
    (match target.map Value.unwrapped with
      | some (.waitGroup r) => Exec.ofWorldAction (WorldAction.awaitZero r)
      | _ => Exec.joinTasks)
    (match target.map Value.unwrapped with
      | some (.waitGroup r) => Exec.ofWorldAction (WorldAction.awaitZero r)
      | _ => Exec.joinTasks) := by
  split
  · exact ofPlain (.ofWorldAction (.awaitZero _))
  · exact joinTasks

theorem await (operand : Value) : Pairs K T T (Exec.await operand) (Exec.await operand) := by
  unfold Exec.await
  split
  · exact (pure _).bind awaitTarget
  · exact (ofPlain (.lookup? _)).bind awaitTarget
  · exact (pure _).bind awaitTarget

theorem atLine (operand : Value) : Pairs K T T (Exec.atLine operand) (Exec.atLine operand) :=
  (lift _).bind fun _ => bind (adjust (fun _ _ _ _ _ _ => rfl) fun _ => rfl) fun _ =>
    read_bind (fun _ _ _ _ _ _ => rfl) fun _ => ite (fail _) (pure _)

/-! ### Calls -/

/-- A note leaves the context as it is. -/
theorem context_of_noteThread {c : Category} {message : Unit → String} {r : Except Halt Unit}
    {m m' : Machine} (h : outcome (Exec.noteThread c message) m = (r, m')) :
    m'.context = m.context := by
  obtain ⟨j, hj⟩ := outcome_noteThread c message m
  rw [hj] at h
  cases h
  rfl

theorem pushFrame (name : String) (table : TableId) {x y : Code} {a b : Nat}
    (hmeets : K.Meets x a y b) :
    Pairs K True True (Exec.pushFrame name table x a) (Exec.pushFrame name table y b) := by
  intro m n p
  refine .context_bind (.bind (noteThread _ _ _ m n p) fun _ m' n' hm hn p' => ?_)
  rw [← context_of_noteThread hm, ← context_of_noteThread hn]
  have hentered : PairsAt K True
      (Exec.modifyContext fun c => c.entered (m'.context.saved name) table x a)
      (Exec.modifyContext fun c => c.entered (n'.context.saved name) table y b) m' n' :=
    .modifyContext p' (p'.context.entered name table hmeets)
  exact hentered.bind fun _ m₁ n₁ _ _ p₁ =>
    (read_bind (fun _ _ _ _ _ _ => rfl) fun _ => observe _ _ : Pairs K True True _ _) m₁ n₁ p₁

theorem enterChild (name : String) {x y : Code} {a b : Nat} (boundary : Bool)
    (hmeets : K.Meets x a y b) :
    Pairs K True True (Exec.enterChild name x a boundary) (Exec.enterChild name y b boundary) := by
  exact read_bind (fun _ _ _ _ _ _ => rfl) fun _ => (newChild _ _ _).bind fun _ => pushFrame _ _ hmeets

theorem checkTypes (parameters : List Parameter) (args : List Value) : IsPlain True False (do
    let m ← get
    if m.context.staticTypes then
      for (p, v) in parameters.zip args do
        if !p.type.accepts (m.world.heap.typeOf v) then
          Exec.fail (.about .argumentType p.name)) := by
  refine .get_bind (fun _ _ => rfl) (fun _ _ => rfl) (fun _ _ _ => rfl) fun m => .ite ?_ (.pure _)
  refine .bind (.forIn _ _ _ fun p _ => ?_) fun _ => .pure _
  exact .ite (.bind (.fail _ (.of rfl)) fun _ => .pure _) (.pure _)

theorem checkCall (code : Code) (args : List Value) :
    Pairs K T T (Exec.checkCall code args) (Exec.checkCall code args) := by
  unfold Exec.checkCall
  split
  · exact ite ((fail _).bind fun _ => ofPlain (checkTypes _ args)) (ofPlain (checkTypes _ args))
  · exact pure _

theorem callCode (code : Code) (args : List Value) :
    Pairs K True True (Exec.callCode code args) (Exec.callCode code args) :=
  (checkCall code args).bind fun _ => read_bind (fun _ _ _ _ _ _ => rfl) fun _ =>
    (enterChild _ _ (K.refl code 0)).bind fun _ =>
    (onHeap _).bind fun _ => read_bind (fun _ _ _ _ _ _ => rfl) fun _ => storeIn _ _ _

theorem storeAllIn (table : TableId) (bindings : List (String × Value)) :
    Pairs K T T (Exec.storeAllIn table bindings) (Exec.storeAllIn table bindings) :=
  (forIn bindings _ fun p _ => (storeIn table p.1 p.2).bind fun _ => pure _).bind fun _ => pure _

theorem callMember (package : Ref .package) (code : Code) (args : List Value) :
    Pairs K True True (Exec.callMember package code args) (Exec.callMember package code args) := by
  have henter : ∀ (scope : TableId) (name : String), Pairs K True True (do
      let table ← Exec.onWorld (World.newChild code.name scope false)
      Exec.pushFrame code.name table code 0
      Exec.modifyContext fun c => { c with package := name }
      Exec.storeIn table "__args" (← Exec.onHeap (Heap.newList args))) (do
      let table ← Exec.onWorld (World.newChild code.name scope false)
      Exec.pushFrame code.name table code 0
      Exec.modifyContext fun c => { c with package := name }
      Exec.storeIn table "__args" (← Exec.onHeap (Heap.newList args))) :=
    fun scope name => (newChild _ _ _).bind fun _ => (pushFrame _ _ (K.refl code 0)).bind fun _ =>
      bind (adjust (fun _ _ _ _ _ _ => rfl) fun _ => rfl) fun _ => (onHeap _).bind fun _ => storeIn _ _ _
  refine (checkCall code args).bind fun _ => heap.bind fun h => ?_
  dsimp only
  refine read_bind (fun _ _ _ _ _ _ => rfl) fun _ => (newChild _ _ _).bind fun scope => scopes.bind fun _ =>
    (lift _).bind fun _ => (setScopes _).bind fun _ => (storeAllIn scope _).bind fun _ => ?_
  split
  · exact scopes.bind fun _ => (storeAllIn scope _).bind fun _ => henter scope _
  · exact henter scope _

theorem settleLibraryFault (f : Native) (fault : Fault) :
    Pairs K T T (Exec.settleLibraryFault f fault) (Exec.settleLibraryFault f fault) :=
  read_bind (fun _ _ _ _ _ _ => rfl) fun _ => ite (fail _) ((noteThread _ _ _).bind fun _ => push _)

/-- A computation on the world, and what follows for the results it can have. -/
theorem onWorld_bind {act : WorldM α} {next next' : α → Exec β} {P : α → Prop} (h : act.IsUnread)
    (hresult : ∀ w, P (act.run w).1) (hnext : ∀ a, P a → Pairs K T T' (next a) (next' a)) :
    Pairs K T T' (Exec.onWorld act >>= next) (Exec.onWorld act >>= next') :=
  fun m n p => (onWorld h m n p).bind fun a m' n' hm _ p' => by
    cases hm
    exact hnext _ (hresult _) _ n' p'

/-- A fresh context is set going, and those that run so far wait. -/
theorem enterScratch {scratch : Context} (hfresh : scratch.Fresh)
    (hallowance : scratch.observer.allowance = none) (awaiting : Awaiting) :
    Pairs K True True (Exec.enterScratch scratch awaiting) (Exec.enterScratch scratch awaiting) := by
  refine onWorld_bind (World.start_isUnread scratch 0)
    (P := fun c => c.Fresh ∧ c.observer.allowance = none)
    (fun w => ⟨World.start_fresh hfresh 0 w, hallowance⟩) fun c hc m n p => ⟨rfl, ?_⟩
  exact { p with
    context := (hc.1.paired hc.2).weaken fun _ => trivial
    suspended := .cons ⟨p.context, rfl⟩ p.suspended }

theorem askOrdering (r : Ref .array) (less : Value) (size i j : Nat) :
    Pairs K True True (Exec.askOrdering r less size i j) (Exec.askOrdering r less size i j) :=
  read_bind (fun _ _ _ _ _ _ => rfl) fun _ => onWorld_bind (P := fun c => c.Fresh ∧ c.observer.allowance = none)
    (World.callContext_isUnread _ _ _ _)
    (fun w => ⟨World.callContext_fresh _ _ _ _ w, (World.callContext_isBare _ _ _ _ w).allowance_eq⟩)
    fun _ h => enterScratch h.1 h.2 _

theorem sortNext (r : Ref .array) (less : Value) (size i : Nat) :
    Pairs K True True (Exec.sortNext r less size i) (Exec.sortNext r less size i) :=
  ite (askOrdering r less size i i) (push _)

theorem sortAfter (r : Ref .array) (less : Value) (size i j : Nat) (goesFirst : Bool) :
    Pairs K True True (Exec.sortAfter r less size i j goesFirst)
      (Exec.sortAfter r less size i j goesFirst) := by
  refine ite ((onHeap _).bind fun result => ?_) (sortNext r less size _)
  cases result with
  | ok => exact ite (askOrdering r less size i _) (sortNext r less size _)
  | error fault => exact settleLibraryFault _ fault

theorem beginSort (args : List Value) :
    Pairs K True True (Exec.beginSort args) (Exec.beginSort args) := by
  unfold Exec.beginSort
  dsimp only
  split
  · exact heap.bind fun _ => sortNext _ _ _ _
  · exact settleLibraryFault _ _

theorem callNative (f : Native) (receiver : Option Value) (args : List Value) :
    Pairs K True True (Exec.callNative f receiver args) (Exec.callNative f receiver args) := by
  refine ite (fail _) (ite (beginSort args) ?_)
  refine (onWorld (WorldAction.IsPlain.apply f receiver args).unread).bind fun result => ?_
  split
  · exact push _
  · exact settleLibraryFault f _
  · exact wait

theorem callValue (callable : Value) (args : List Value) :
    Pairs K True True (Exec.callValue callable args) (Exec.callValue callable args) := by
  unfold Exec.callValue
  split
  · exact callCode _ args
  · exact callMember _ _ args
  · exact callNative _ _ args
  · exact ofPlain (IsOrdinary.construct _ args)
  · exact fail _

theorem call (operand : Value) : Pairs K True True (Exec.call operand) (Exec.call operand) :=
  (ofPlain (.operandCount operand 0)).bind fun _ => read_bind (fun _ _ _ _ _ _ => rfl) fun _ =>
    bind (adjust (fun _ _ _ _ _ _ => rfl) fun _ => rfl) fun _ => (popCall _).bind fun _ => callValue _ _

theorem entryPoint (operand : Value) :
    Pairs K True True (Exec.entryPoint operand) (Exec.entryPoint operand) :=
  (ofPlain (.lookup _)).bind fun _ => callValue _ _

end Pairs

/-! ### Addresses -/

end Exec

/-- Two operands name places that correspond, or they are one operand that is an address in neither code
or in one and the same. -/
inductive Pairing.Leads (K : Pairing) (x y : Code) (v w : Value) : Prop
  | places {a b : Nat} (hv : v.toIndex = .ok a) (ha : a < x.size) (hw : w.toIndex = .ok b)
      (hb : b < y.size) (hmeets : K.Meets x a y b)
  | same (hcode : x = y) (hvalue : v = w)
  | refused (hnone : ∀ a, v.toIndex ≠ .ok a) (hvalue : v = w)

/-- The operands of the second of two paired contexts are values. -/
theorem Context.Paired.grounded' {T : Prop} {c e : Context} (p : c.Paired K T e) : e.Grounded :=
  ⟨p.fp_le, p.operands_eq ▸ p.grounded.values⟩

/-- Two machines go on at places that correspond. -/
theorem Context.Paired.goTo {T : Prop} {c e : Context} (p : c.Paired K T e) {a b : Nat}
    (hmeets : K.Meets c.code a e.code b) :
    ({ c with pc := a } : Context).Paired K True { e with pc := b } := by
  refine ⟨?_, p.name_eq, ⟨p.grounded.fp_le, p.grounded.values⟩, p.fp_le, p.operands_eq, p.below,
    fun _ => hmeets, p.allowance_eq, p.allowance_eq'⟩
  conv_lhs => rw [p.same]

namespace Exec

variable {α β : Type} {T T' : Prop} {m n : Machine} {v w : Value}

namespace PairsAt

/-- An address is read, and what follows for places that correspond. -/
theorem branchTarget_bind {next next' : Nat → Exec β} (p : m.Paired K T n)
    (hleads : K.Leads m.context.code n.context.code v w)
    (hnext : ∀ a b, K.Meets m.context.code a n.context.code b →
      PairsAt K T' (next a) (next' b) m n) :
    PairsAt K T' (branchTarget v >>= next) (branchTarget w >>= next') m n := by
  -- Operands that are no addresses are refused with the same words.
  have hrefused : v = w → (∀ a, v.toIndex = .ok a → m.context.code.size ≤ a) →
      (∀ a, v.toIndex = .ok a → n.context.code.size ≤ a) →
      PairsAt K T' (branchTarget v >>= next) (branchTarget w >>= next') m n := by
    rintro rfl hbeyond hbeyond'
    have hbad := outcome_branchTarget_of_beyond hbeyond'
    rw [p.world.heap_eq] at hbad
    exact .of_eq (outcome_bind_error (outcome_branchTarget_of_beyond hbeyond)) (outcome_bind_error hbad)
      (p.weaken fun hcompletes => by cases hcompletes.2)
  cases hleads with
  | @places a b hv ha hw hb hmeets =>
    exact (hnext a b hmeets).congr (outcome_bind_ok (outcome_branchTarget_of_lt hv ha))
      (outcome_bind_ok (outcome_branchTarget_of_lt hw hb))
  | same hcode hvalue =>
    by_cases hgood : ∃ a, v.toIndex = .ok a ∧ a < m.context.code.size
    · obtain ⟨a, hv, ha⟩ := hgood
      subst hvalue
      exact (hnext a a (hcode ▸ K.refl _ a)).congr (outcome_bind_ok (outcome_branchTarget_of_lt hv ha))
        (outcome_bind_ok (outcome_branchTarget_of_lt hv (hcode ▸ ha)))
    · have hbeyond : ∀ a, v.toIndex = .ok a → m.context.code.size ≤ a := fun a ha =>
        Nat.le_of_not_lt fun hlt => hgood ⟨a, ha, hlt⟩
      exact hrefused hvalue hbeyond (hcode ▸ hbeyond)
  | refused hnone hvalue =>
    exact hrefused hvalue (fun a ha => absurd ha (hnone a)) fun a ha => absurd ha (hnone a)

/-- Plain actions leave machines in their code. -/
theorem plain_bind {act : Exec α} {next next' : α → Exec β} (p : m.Paired K T n)
    (h : IsPlain True False act)
    (hnext : ∀ a m' n', m'.Paired K T n' → m'.context.code = m.context.code →
      n'.context.code = n.context.code → PairsAt K T' (next a) (next' a) m' n') :
    PairsAt K T' (act >>= next) (act >>= next') m n := by
  have hcode : ∀ {k k' : Machine} {r : Except Halt α}, k.context.Grounded →
      outcome act k = (r, k') → k'.context.code = k.context.code := by
    intro k k' r hk hout
    have hsettled := (h.widen.isLocal k.surroundings _ _ _ k (Machine.settled_self hk)).2.code_eq
    rwa [hout] at hsettled
  exact (Pairs.ofPlain h m n p).bind fun a m' n' hm hn p' =>
    hnext a m' n' p' (hcode p.context.grounded hm) (hcode p.context.grounded' hn)

theorem goTo {a b : Nat} (p : m.Paired K T n) (hmeets : K.Meets m.context.code a n.context.code b) :
    PairsAt K True (Exec.modifyContext fun c => { c with pc := a })
      (Exec.modifyContext fun c => { c with pc := b }) m n := .modifyContext p (p.context.goTo hmeets)

theorem branch (p : m.Paired K T n) (hleads : K.Leads m.context.code n.context.code v w) :
    PairsAt K True (Exec.branch v) (Exec.branch w) m n :=
  .branchTarget_bind p hleads fun _ _ hmeets => .goTo p hmeets

theorem branchIf (wanted : Bool) (p : m.Paired K True n)
    (hleads : K.Leads m.context.code n.context.code v w) :
    PairsAt K True (Exec.branchIf wanted v) (Exec.branchIf wanted w) m n := by
  refine .branchTarget_bind p hleads fun a b hmeets => ?_
  refine .plain_bind p .popValue fun u m' n' p' hcode hcode' => ?_
  refine .plain_bind p' (.truthy u) fun holds m₁ n₁ p₁ hcode₁ hcode₁' => ?_
  rw [← hcode, ← hcode', ← hcode₁, ← hcode₁'] at hmeets
  split
  · exact .goTo p₁ hmeets
  · exact Pairs.pure () m₁ n₁ p₁

theorem localCall (p : m.Paired K True n) (hleads : K.Leads m.context.code n.context.code v w) :
    PairsAt K True (Exec.localCall v) (Exec.localCall w) m n :=
  .branchTarget_bind p hleads fun _ _ hmeets =>
    .context_bind (Pairs.enterChild "local call" false hmeets m n p)

theorem arm (p : m.Paired K T n) (hleads : K.Leads m.context.code n.context.code v w) :
    PairsAt K T (Exec.arm v) (Exec.arm w) m n := by
  refine .branchTarget_bind p hleads fun a b hmeets => .modifyContext p ?_
  have hfp := Context.size_lower p.context.grounded.fp_le
  refine p.context.withHandlers (p.context.below.arm ⟨?_, .some hmeets⟩ hfp.symm ?_)
  · rw [p.context.fp_eq, p.context.size_stack_eq, p.context.same]
  · rw [hfp]
    exact p.context.grounded.fp_le

end PairsAt

theorem PairsAt.nextRound (p : m.Paired K True n)
    (hleads : K.Leads m.context.code n.context.code v w) :
    PairsAt K True (Exec.nextRound v) (Exec.nextRound w) m n := by
  refine .branchTarget_bind p hleads fun a b hmeets => .context_bind ?_
  have hloops : n.context.loops = m.context.loops := by rw [p.context.same]
  rw [hloops]
  cases m.context.loops with
  | nil => exact .goTo p hmeets
  | cons l rest =>
    refine .plain_bind p (nextOf_isPlain l) fun round m' n' p' hcode hcode' => ?_
    rw [← hcode, ← hcode'] at hmeets
    cases round with
    | none =>
      have hleave : PairsAt K True (Exec.modifyContext fun c => { c with pc := a, loops := rest })
          (Exec.modifyContext fun c => { c with pc := b, loops := rest }) m' n' :=
        .modifyContext p' ((p'.context.goTo hmeets).change (f := fun c => { c with loops := rest })
          (fun _ _ _ _ _ _ => rfl) fun _ => rfl)
      exact hleave.bind fun _ m₁ n₁ _ _ p₁ => Pairs.release l m₁ n₁ p₁
    | some values =>
      refine (?_ : Pairs K True True _ _) m' n' p'
      exact Pairs.bind (.adjust (fun _ _ _ _ _ _ => rfl) fun _ => rfl) fun _ =>
        (Pairs.storeLoopName _ _).bind fun _ => Pairs.storeLoopName _ _

/-- **Instructions without an address** do the same on paired machines, but for `Go` and `Return`. -/
theorem Pairs.execute {i : Instruction} (hbranch : i.op.isBranch = false) (hgo : i.op ≠ .go)
    (hreturn : i.op ≠ .return) : Pairs K True True (Exec.execute i) (Exec.execute i) := by
  by_cases hlocal : i.op.isLocal = true
  · exact .ofPlain (execute_isPlain hlocal (fun _ => trivial) fun htrue => by
      rw [hbranch] at htrue
      cases htrue)
  obtain ⟨op, operand⟩ := i
  cases op with
  | atLine => exact .atLine operand
  | call => exact .call operand
  | defer => exact .deferCall operand
  | entryPoint => exact .entryPoint operand
  | popPackage => exact .popPackage
  | popScope => exact .popScope
  | pushPackage => exact .pushPackage operand
  | pushScope => exact .pushScope
  | rangeInit => exact .beginLoop operand
  | tryPop => exact .disarm
  | wait => exact .await operand
  | willCatch => exact .narrow operand
  | go => exact absurd rfl hgo
  | «return» => exact absurd rfl hreturn
  | localCall | rangeNext | «try» => cases hbranch
  | _ => exact absurd rfl hlocal

/-- **Instructions with an address** do the same on paired machines if they name places that
correspond. -/
theorem PairsAt.execute {op : Opcode} (hbranch : op.isBranch = true) (p : m.Paired K True n)
    (hleads : K.Leads m.context.code n.context.code v w) :
    PairsAt K True (Exec.execute ⟨op, v⟩) (Exec.execute ⟨op, w⟩) m n := by
  cases op with
  | branch => exact .branch p hleads
  | branchTrue => exact .branchIf true p hleads
  | branchFalse => exact .branchIf false p hleads
  | localCall => exact .localCall p hleads
  | rangeNext => exact .nextRound p hleads
  | «try» => exact .arm p hleads
  | _ => cases hbranch

end Exec

end ScriptMachine
