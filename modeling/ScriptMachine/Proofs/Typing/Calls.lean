import ScriptMachine.Proofs.Typing.Instructions

/-!
# Typed arrays and calls

Blocks, packages, frames, handlers, loops, calls and tasks keep arrays to their types, and so does
every instruction other than `Add`.

* `KeepsTyped.popFrame`, `KeepsTyped.recover`: functions and faults.
* `KeepsTyped.beginLoop`, `KeepsTyped.nextRound`: loops, which freeze what they walk over.
* `KeepsTyped.callValue`, `KeepsTyped.continueReturn`, `KeepsTyped.afterScratch`: calls.
* `KeepsTyped.execute`: all instructions but one.
-/

namespace ScriptMachine

namespace Exec.KeepsTyped

variable {α : Type}

/-- A change of the machine that leaves the world alone. -/
theorem beside {f : Machine → Machine} (h : ∀ m, (f m).world = m.world) :
    KeepsTyped (modify f : Exec Unit) := elsewhere fun m => congrArg World.heap (h m)

/-! ### Blocks and packages -/

theorem newTable (name : String) (parent : TableId) (boundary : Bool) :
    KeepsTyped (Exec.onWorld (World.newChild name parent boundary)) :=
  onWorld (World.Typed.newChild name parent boundary)

theorem removeTable (id : TableId) : KeepsTyped (Exec.onWorld (World.remove id)) :=
  onWorld (World.Typed.remove id)

theorem pushScope : KeepsTyped Exec.pushScope :=
  context.bind fun _ => (newTable _ _ _).bind fun _ => modifyContext _

theorem popScope : KeepsTyped Exec.popScope := by
  refine context.bind fun c => scopes.bind fun a => ?_
  split
  · exact fail _
  · exact (removeTable _).bind fun _ => scopes.bind fun _ => (noteThread _ _).bind fun _ =>
      modifyContext _

theorem packageNamed (name : String) : KeepsTyped (Exec.packageNamed name) := by
  refine scopes.bind fun a => ?_
  dsimp only
  split
  · exact pure _
  · exact onHeap (Heap.Typed.newPackage _)

theorem packageTable (r : Ref .package) (name : String) :
    KeepsTyped (Exec.packageTable r name) := by
  refine heap.bind fun h => scopes.bind fun a => ?_
  split
  · exact pure _
  · exact (newTable _ _ _).bind fun _ => scopes.bind fun _ => (check _).bind fun _ =>
      (setScopes _).bind fun _ => (onHeap (Heap.Typed.putPackage _ _)).bind fun _ => pure _

theorem pushPackage (operand : Value) : KeepsTyped (Exec.pushPackage operand) :=
  (operandName operand).bind fun _ => (packageNamed _).bind fun _ => (packageTable _ _).bind fun _ =>
    modifyContext _

theorem popPackage : KeepsTyped Exec.popPackage := by
  refine context.bind fun c => ?_
  split
  · exact fail _
  · exact bind (modifyContext _) fun _ => scopes.bind fun _ => heap.bind fun _ =>
      (onHeap (Heap.Typed.putPackage _ _)).bind fun _ => (noteThread _ _).bind fun _ =>
      (storeIn _ _ _).bind fun _ => modifyContext _

/-! ### Frames -/

theorem pushFrame (name : String) (table : TableId) (code : Code) (pc : Nat) :
    KeepsTyped (Exec.pushFrame name table code pc) :=
  context.bind fun _ => (noteThread _ _).bind fun _ => bind (modifyContext _) fun _ =>
    context.bind fun _ => observe _

theorem enterChild (name : String) (code : Code) (pc : Nat) (boundary : Bool) :
    KeepsTyped (Exec.enterChild name code pc boundary) :=
  context.bind fun _ => (newTable _ _ _).bind fun _ => pushFrame _ _ _ _

/-- A loop that ends thaws what it walked over. -/
theorem release (l : Loop) : KeepsTyped (Exec.release l) := by
  obtain ⟨index, value, walked, position⟩ := l
  cases walked with
  | map r keys => exact onHeap (.bind .get fun h hh => Heap.Typed.putMap r ((hh.map r).freeze false))
  | array r =>
    exact onHeap (.bind .get fun h hh => Heap.Typed.putArray r ((hh.array r).freeze false))
  | runes items => exact pure ()
  | channel r => exact pure ()

theorem endLoops (count : Nat) : KeepsTyped (Exec.endLoops count) := by
  induction count with
  | zero => exact pure ()
  | succ count ih =>
    refine context.bind fun c => ?_
    split
    · exact pure ()
    · exact bind (modifyContext _) fun _ => (release _).bind fun _ => ih

theorem endLoopsTo (depth : Nat) : KeepsTyped (Exec.endLoopsTo depth) :=
  context.bind fun _ => endLoops _

theorem publishVariable (scope : String) (package : Ref .package) (name : String) (v : Value) :
    KeepsTyped (Exec.publishVariable scope package name v) := by
  have hitem : KeepsTyped (do
      Exec.onHeap (Heap.putPackage package (((← Exec.heap).package package).set name v))) :=
    heap.bind fun _ => onHeap (Heap.Typed.putPackage _ _)
  refine (note _ _).bind fun _ => heap.bind fun h => ?_
  dsimp only
  split
  · exact (storeIn _ _ _).bind fun _ => hitem
  · exact hitem

theorem findPackage (name : String) (first second : TableId) :
    KeepsTyped (Exec.findPackage name first second) := by
  refine scopes.bind fun a => ?_
  dsimp only
  split
  · exact pure _
  · exact pure _

theorem publishPackages (stop : TableId) : KeepsTyped (Exec.publishPackages stop) := by
  refine scopes.bind fun a => context.bind fun c => (forIn fun table => ?_).bind fun _ => pure _
  dsimp only
  refine ite ?_ (pure _)
  refine (findPackage _ _ _).bind fun found => ?_
  split
  · refine scopes.bind fun a => (forIn fun symbol => ?_).bind fun _ => pure _
    exact ite ((publishVariable _ _ _ _).bind fun _ => pure _) (pure _)
  · exact pure _

theorem dropScopesTo (target : TableId) : KeepsTyped (Exec.dropScopesTo target) :=
  scopes.bind fun _ => context.bind fun _ =>
    (forIn fun table => (removeTable table).bind fun _ => pure _).bind fun _ => modifyContext _

theorem takeFrame : KeepsTyped Exec.takeFrame := by
  refine context.bind fun c => ite (fail _) (bind (modifyContext _) fun _ => ?_)
  split
  · exact pure _
  · exact fail _

theorem restoreFrame : KeepsTyped Exec.restoreFrame :=
  takeFrame.bind fun _ => (publishPackages _).bind fun _ => (dropScopesTo _).bind fun _ =>
    (endLoopsTo _).bind fun _ => bind (modifyContext _) fun _ => (storeIn _ _ _).bind fun _ =>
    bind (modifyContext _) fun _ => context.bind fun _ => (observe _).bind fun _ =>
    context.bind fun _ => noteThread _ _

theorem popFrame : KeepsTyped Exec.popFrame := by
  refine context.bind fun c => ite (fail _) (bind (modifyContext _) fun _ =>
    restoreFrame.bind fun _ => ite ?_ (modifyContext _))
  split
  · exact push _
  · exact pure _

theorem unwindFrame : KeepsTyped Exec.unwindFrame := bind (modifyContext _) fun _ => restoreFrame

theorem unwindTo (fp fuel : Nat) : KeepsTyped (Exec.unwindTo fp fuel) := by
  induction fuel with
  | zero => exact pure ()
  | succ fuel ih => exact context.bind fun _ => ite (unwindFrame.bind fun _ => ih) (pure ())

/-! ### Handlers -/

theorem arm (operand : Value) : KeepsTyped (Exec.arm operand) :=
  (branchTarget operand).bind fun _ => modifyContext _

theorem disarm : KeepsTyped Exec.disarm := by
  refine context.bind fun c => ?_
  split
  · exact fail _
  · exact bind (modifyContext _) fun _ => scopes.bind fun _ => (check _).bind fun _ => setScopes _

theorem narrow (operand : Value) : KeepsTyped (Exec.narrow operand) := by
  refine context.bind fun c => ?_
  split
  · exact fail _
  · exact (check _).bind fun _ => modifyContext _

theorem catchAt (handler : Handler) (outer : List Handler) (f : Fault) :
    KeepsTyped (Exec.catchAt handler outer f) :=
  context.bind fun _ => (unwindTo _ _).bind fun _ => bind (modifyContext _) fun _ =>
    (dropScopesTo _).bind fun _ => bind (modifyContext _) fun _ => (endLoopsTo _).bind fun _ =>
    bind (modifyContext _) fun _ => context.bind fun _ => (observe _).bind fun _ => storeHere _ _

theorem tryCatch {act : Exec α} {handle : Halt → Exec α} (hact : KeepsTyped act)
    (hhandle : ∀ halt, KeepsTyped (handle halt)) :
    KeepsTyped (MonadExcept.tryCatch act handle) := ScriptMachine.Upholds.tryCatch hact hhandle

theorem abandon (f : Fault) : KeepsTyped (Exec.abandon f) := by
  have hleave : ∀ fuel, KeepsTyped (do
      MonadExcept.tryCatch (Exec.unwindTo 0 fuel) fun _ => return
      Exec.modifyContext fun c => { c with running := false }
      Exec.fail f : Exec Unit) := fun fuel =>
    (tryCatch (unwindTo 0 fuel) fun _ => pure ()).bind fun _ => bind (modifyContext _) fun _ => fail f
  exact context.bind fun c =>
    ite (bind (onWorld (World.Typed.emit _ _)) fun _ => hleave _) (hleave _)

theorem recover (f : Fault) : KeepsTyped (Exec.recover f) := by
  refine ite (fail _) (context.bind fun c => ?_)
  dsimp only
  split
  · exact catchAt _ _ _
  · exact abandon _

theorem finish : KeepsTyped Exec.finish :=
  bind (modifyContext _) fun _ => context.bind fun _ => (note _ _).bind fun _ => beside fun _ => rfl

theorem settle (f : Fault) : KeepsTyped (Exec.settle f) := by
  refine ite finish (tryCatch (recover f) fun halt => ?_)
  cases halt with
  | fault g => exact beside fun _ => rfl
  | blocked => exact wait

/-! ### Loops -/

theorem createLoopName (name : String) : KeepsTyped (Exec.createLoopName name) :=
  get.bind fun _ => ite (create name) (pure ())

/-- A loop over an array or a map freezes it. -/
theorem walkOver (v : Value) : KeepsTyped (Exec.walkOver v) := by
  unfold Exec.walkOver
  split
  · exact pure _
  · rename_i r
    refine objects_bind fun h hh => ?_
    split
    · rename_i m hm
      have hobject : m.Typed := hh.maps m (Array.mem_of_getElem? hm)
      exact (onHeap (Heap.Typed.putMap r (hobject.freeze true))).bind fun _ => pure _
    · exact pure _
  · rename_i r
    refine objects_bind fun h hh => ?_
    split
    · rename_i a ha
      have hobject : a.Typed := hh.arrays a (Array.mem_of_getElem? ha)
      exact (onHeap (Heap.Typed.putArray r (hobject.freeze true))).bind fun _ => pure _
    · exact pure _
  · exact pure _
  · exact fail _

theorem beginLoop (operand : Value) : KeepsTyped (Exec.beginLoop operand) :=
  heap.bind fun _ => (createLoopName _).bind fun _ => (createLoopName _).bind fun _ =>
    popUnwrapped.bind fun _ => (walkOver _).bind fun _ => modifyContext _

theorem nextOf (l : Loop) : KeepsTyped (Exec.nextOf l) := by
  obtain ⟨index, value, walked, position⟩ := l
  refine heap.bind fun h => ?_
  cases walked with
  | runes items => exact pure _
  | map r keys =>
    dsimp only
    split
    · exact pure _
    · exact (check _).bind fun _ => pure _
  | array r => exact pure _
  | channel r =>
    exact ite (pure _) ((ofWorldAction (WorldAction.KeepsTyped.receive r)).bind fun _ => pure _)

theorem storeLoopName (name : String) (v : Value) : KeepsTyped (Exec.storeLoopName name v) :=
  ite (store name v) (pure ())

theorem nextRound (operand : Value) : KeepsTyped (Exec.nextRound operand) := by
  refine (branchTarget operand).bind fun leave => context.bind fun c => ?_
  split
  · exact modifyContext _
  · refine (nextOf _).bind fun next => ?_
    split
    · exact bind (modifyContext _) fun _ => release _
    · exact bind (modifyContext _) fun _ => (storeLoopName _ _).bind fun _ => storeLoopName _ _

/-! ### Calls -/

theorem checkTypes (parameters : List Parameter) (args : List Value) : KeepsTyped (do
    let m ← MonadState.get
    if m.context.staticTypes then
      for (p, v) in parameters.zip args do
        if !p.type.accepts (m.world.heap.typeOf v) then
          Exec.fail (.about .argumentType p.name)
    : Exec Unit) := by
  refine get.bind fun m => ite ?_ (pure ())
  exact (forIn fun p => ite ((fail _).bind fun _ => pure _) (pure _)).bind fun _ => pure _

theorem checkArguments (d : Declaration) (args : List Value) :
    KeepsTyped (Exec.checkArguments d args) :=
  ite ((fail _).bind fun _ => checkTypes _ args) (checkTypes _ args)

theorem checkCall (code : Code) (args : List Value) : KeepsTyped (Exec.checkCall code args) := by
  unfold Exec.checkCall
  split
  · exact checkArguments _ _
  · exact pure ()

theorem bindArgs (args : List Value) : KeepsTyped (Exec.bindArgs args) :=
  (onHeap (Heap.Typed.newList _)).bind fun _ => storeHere _ _

theorem callCode (code : Code) (args : List Value) : KeepsTyped (Exec.callCode code args) :=
  (checkCall _ _).bind fun _ => context.bind fun _ => (enterChild _ _ _ _).bind fun _ => bindArgs _

theorem storeAllIn (table : TableId) (bindings : List (String × Value)) :
    KeepsTyped (Exec.storeAllIn table bindings) :=
  (forIn fun _ => (storeIn _ _ _).bind fun _ => pure _).bind fun _ => pure _

theorem callMember (package : Ref .package) (code : Code) (args : List Value) :
    KeepsTyped (Exec.callMember package code args) := by
  have henter : ∀ (scope : TableId) (name : String), KeepsTyped (do
      let table ← Exec.onWorld (World.newChild code.name scope false)
      Exec.pushFrame code.name table code 0
      Exec.modifyContext fun c => { c with package := name }
      Exec.storeIn table "__args" (← Exec.onHeap (Heap.newList args))) :=
    fun scope name => (newTable _ _ _).bind fun _ => (pushFrame _ _ _ _).bind fun _ =>
      bind (modifyContext _) fun _ => (onHeap (Heap.Typed.newList _)).bind fun _ => storeIn _ _ _
  refine (checkCall _ _).bind fun _ => heap.bind fun h => context.bind fun c =>
    (newTable _ _ _).bind fun scope => scopes.bind fun a => (check _).bind fun b =>
    (setScopes _).bind fun _ => (storeAllIn _ _).bind fun _ => ?_
  split
  · exact scopes.bind fun a => (storeAllIn _ _).bind fun _ => henter scope _
  · exact henter scope _

/-! ### Library functions and types -/

theorem setFields (r : Ref .struct) (fields : List (String × Value)) :
    KeepsTyped (Exec.setFields r fields) :=
  (forIn fun _ => (onObjects (Heap.Typed.setField r _ _)).bind fun _ => pure _).bind fun _ => pure _

theorem setFieldsFrom (r : Ref .struct) (source : MapObject) :
    KeepsTyped (Exec.setFieldsFrom r source) :=
  (forIn fun _ => (check _).bind fun _ => heap.bind fun _ =>
    (onObjects (Heap.Typed.setField r _ _)).bind fun _ => pure _).bind fun _ => pure _

theorem initialised (t : Ty) (fresh init : Value) : KeepsTyped (Exec.initialised t fresh init) := by
  unfold Exec.initialised
  split
  · exact heap.bind fun _ => (setFieldsFrom _ _).bind fun _ => pure _
  · exact heap.bind fun _ => (setFields _ _).bind fun _ => pure _
  · exact (onObjects (Heap.Typed.mergeEntries _ _)).bind fun _ => pure _
  · exact onObjects (Heap.Typed.coerce t _)

theorem construct (t : Ty) (args : List Value) : KeepsTyped (Exec.construct t args) := by
  refine (onHeap (Heap.Typed.zeroValue t)).bind fun fresh => ?_
  split
  · exact push _
  · exact (initialised _ _ _).bind push
  · exact fail _

/-! ### Contexts of their own -/

theorem newContext (symbols : TableId) (code : Code) (settings : Settings) :
    Maintains World.Typed (World.newContext symbols code settings) fun _ => True :=
  .bind (World.Typed.elsewhere fun _ => rfl) fun _ _ => .bind (World.Typed.note _ _) fun _ _ =>
    .bind .get fun _ _ => .pure trivial

theorem callContext (symbols : TableId) (settings : Settings) (callable : Value)
    (args : List Value) :
    Maintains World.Typed (World.callContext symbols settings callable args) fun _ => True :=
  .bind .get fun _ _ => .bind (newContext _ _ _) fun _ _ => .pure trivial

theorem start (c : Context) (pc : Nat) :
    Maintains World.Typed (World.start c pc) fun _ => True :=
  .bind (World.Typed.note _ _) fun _ _ => .pure trivial

theorem enterScratch (scratch : Context) (awaiting : Awaiting) :
    KeepsTyped (Exec.enterScratch scratch awaiting) :=
  bind (onWorld (start _ _)) fun _ => beside fun _ => rfl

theorem settleLibraryFault (f : Native) (fault : Fault) :
    KeepsTyped (Exec.settleLibraryFault f fault) :=
  context.bind fun _ => ite (fail _) ((noteThread _ _).bind fun _ => push _)

/-- Two elements change places, and each of them is checked again. -/
theorem exchange (r : Ref .array) (j : Nat) :
    ScriptMachine.Upholds Heap.Typed (Exec.exchange r j) fun _ => True :=
  .bind .get fun _ _ => .bind (.ofExcept (.any _)) fun _ _ => .bind (.ofExcept (.any _)) fun _ _ =>
    .bind (Heap.Typed.setElement r _ _) fun _ _ => Heap.Typed.setElement r _ _

theorem askOrdering (r : Ref .array) (less : Value) (size i j : Nat) :
    KeepsTyped (Exec.askOrdering r less size i j) :=
  context.bind fun _ => bind (onWorld (callContext _ _ _ _)) fun _ => enterScratch _ _

theorem sortNext (r : Ref .array) (less : Value) (size i : Nat) :
    KeepsTyped (Exec.sortNext r less size i) := ite (askOrdering _ _ _ _ _) (push _)

theorem sortAfter (r : Ref .array) (less : Value) (size i j : Nat) (goesFirst : Bool) :
    KeepsTyped (Exec.sortAfter r less size i j goesFirst) := by
  refine ite (ScriptMachine.Upholds.bind (onHeap (exchange r j)) fun result _ => ?_) (sortNext _ _ _ _)
  split
  · exact ite (askOrdering _ _ _ _ _) (sortNext _ _ _ _)
  · exact settleLibraryFault _ _

theorem beginSort (args : List Value) : KeepsTyped (Exec.beginSort args) := by
  unfold Exec.beginSort
  dsimp only
  split
  · exact heap.bind fun _ => sortNext _ _ _ _
  · exact settleLibraryFault _ _

theorem callNative (f : Native) (receiver : Option Value) (args : List Value) :
    KeepsTyped (Exec.callNative f receiver args) := by
  refine ite (fail _) (ite (beginSort args) ?_)
  refine ScriptMachine.Upholds.bind (onWorld (WorldAction.KeepsTyped.apply f receiver args))
    fun result _ => ?_
  split
  · exact push _
  · exact settleLibraryFault _ _
  · exact wait

theorem callValue (v : Value) (args : List Value) : KeepsTyped (Exec.callValue v args) := by
  unfold Exec.callValue
  split
  · exact callCode _ _
  · exact callMember _ _ _
  · exact callNative _ _ _
  · exact construct _ _
  · exact fail _

/-! ### Calls and returns -/

theorem popCall (count : Nat) : KeepsTyped (Exec.popCall count) :=
  (popArgs count).bind fun _ => popUnwrapped.bind fun _ => pure _

theorem call (operand : Value) : KeepsTyped (Exec.call operand) :=
  (operandCount operand 0).bind fun _ => context.bind fun _ => bind (modifyContext _) fun _ =>
    (popCall _).bind fun _ => callValue _ _

theorem localCall (operand : Value) : KeepsTyped (Exec.localCall operand) :=
  (branchTarget operand).bind fun _ => context.bind fun _ => enterChild _ _ _ _

theorem deferCall (operand : Value) : KeepsTyped (Exec.deferCall operand) :=
  (operandCount operand 0).bind fun _ => (popCall _).bind fun _ => modifyContext _

theorem continueReturn : KeepsTyped Exec.continueReturn := by
  refine context.bind fun c => ?_
  split
  · exact bind (modifyContext _) fun _ => (noteThread _ _).bind fun _ =>
      bind (onWorld (callContext _ _ _ _)) fun _ => bind (modifyContext _) fun _ => enterScratch _ _
  · exact ite popFrame (modifyContext _)

theorem return_ (operand : Value) : KeepsTyped (Exec.return_ operand) := by
  unfold Exec.return_
  split
  · exact popValue.bind fun _ => bind (modifyContext _) fun _ => continueReturn
  · exact continueReturn

theorem entryPoint (operand : Value) : KeepsTyped (Exec.entryPoint operand) :=
  (lookup _).bind fun _ => callValue _ _

theorem afterScratch (awaiting : Awaiting) (scratch : Context) (result : Except Fault Unit) :
    KeepsTyped (Exec.afterScratch awaiting scratch result) := by
  unfold Exec.afterScratch
  split
  · refine bind (modifyContext _) fun _ => ?_
    split
    · exact continueReturn
    · exact fail _
  · split
    · exact heap.bind fun _ => sortAfter _ _ _ _ _ _
    · exact settleLibraryFault _ _

/-! ### Tasks -/

theorem go (operand : Value) : KeepsTyped (Exec.go operand) :=
  (operandCount operand 0).bind fun _ => (popArgs _).bind fun _ => popUnwrapped.bind fun _ =>
    heap.bind fun _ => (noteThread _ _).bind fun _ => beside fun _ => rfl

theorem joinTasks : KeepsTyped Exec.joinTasks := by
  refine get.bind fun m => ?_
  split
  · exact wait
  · refine bind (modifyContext _) fun _ => ?_
    split
    · exact fail _
    · exact pure ()

theorem awaitTarget (target : Option Value) : KeepsTyped (
    match target.map Value.unwrapped with
    | some (.waitGroup r) => Exec.ofWorldAction (WorldAction.awaitZero r)
    | _ => Exec.joinTasks) := by
  split
  · exact ofWorldAction (WorldAction.KeepsTyped.awaitZero _)
  · exact joinTasks

theorem await (operand : Value) : KeepsTyped (Exec.await operand) := by
  unfold Exec.await
  split
  · exact (pure _).bind fun target => awaitTarget target
  · exact (lookup? _).bind fun target => awaitTarget target
  · exact (pure _).bind fun target => awaitTarget target

/-! ### Instructions -/

theorem dropToMarkerWithin (steps : Nat) : KeepsTyped (Exec.dropToMarkerWithin steps) := by
  induction steps with
  | zero => exact pure ()
  | succ steps ih =>
    refine context.bind fun c => ?_
    split
    · exact pop.bind fun _ => ite ih (pure ())
    · exact pure ()

theorem dropToMarker : KeepsTyped Exec.dropToMarker := context.bind fun _ => dropToMarkerWithin _

theorem atLine (operand : Value) : KeepsTyped (Exec.atLine operand) :=
  (check _).bind fun _ => bind (modifyContext _) fun _ => context.bind fun _ => ite (fail _) (pure ())

theorem begin (i : Instruction) : KeepsTyped (Exec.begin i) :=
  context.bind fun _ => bind (modifyContext _) fun _ => context.bind fun _ => (observe _).bind fun _ =>
    bind (modifyContext _) fun _ => get.bind fun _ => note _ _

/-- **Every instruction but `Add` keeps arrays to their types**, in static mode or not. -/
theorem execute {i : Instruction} (hop : i.op ≠ .add) : KeepsTyped (Exec.execute i) := by
  obtain ⟨op, operand⟩ := i
  cases op with
  | stop => exact fail _
  | atLine => exact atLine _
  | add => exact absurd rfl hop
  | addressOf => exact addressOf _
  | and => exact conjunction
  | argCheck => exact argCheck _
  | array => exact array _
  | auth => exact authorize _
  | bitAnd => exact bitOperator _
  | bitOr => exact bitOperator _
  | bitShift => exact bitShift
  | call => exact call _
  | coerce => exact coerceTop _
  | constant => exact storeConstant _
  | copy => exact copyTop
  | createAndStore => exact createAndStore _
  | defer => exact deferCall _
  | dereference => exact dereference
  | div => exact calculateWith _
  | drop => exact drop _
  | dropToMarker => exact dropToMarker
  | dup => exact duplicate
  | entryPoint => exact entryPoint _
  | equal => exact equality _
  | exp => exact power
  | explode => exact explode
  | flatten => exact flatten
  | fromFile => exact readFile _
  | getThis => exact getReceiver _
  | getVarArgs => exact varArgs _
  | go => exact go _
  | greaterThan => exact compareWith _
  | greaterThanOrEqual => exact compareWith _
  | «import» => exact importPackage _
  | inFile => exact enterFile _
  | inPackage => exact enterPackage _
  | lessThan => exact compareWith _
  | lessThanOrEqual => exact compareWith _
  | load => exact loadName _
  | loadIndex => exact loadIndex
  | loadSlice => exact loadSlice
  | loadThis => exact loadReceiver
  | log => exact logValue _
  | makeArray => exact makeArray
  | makeMap => exact makeMap _
  | member => exact member _
  | modeCheck => exact modeCheck _
  | modulo => exact calculateWith _
  | mul => exact mul
  | negate => exact negate
  | newline => exact output _
  | noOperation => exact pure ()
  | notEqual => exact equality _
  | or => exact disjunction
  | panic => exact panic
  | popPackage => exact popPackage
  | popScope => exact popScope
  | print => exact print _
  | push => exact pushLiteral _
  | pushPackage => exact pushPackage _
  | pushScope => exact pushScope
  | rangeInit => exact beginLoop _
  | readStack => exact readStack _
  | requiredType => exact requiredType _
  | response => exact respond
  | «return» => exact return_ _
  | say => exact say
  | setThis => exact setReceiver _
  | stackCheck => exact stackCheck _
  | staticTyping => exact staticTyping
  | store => exact storeName _
  | storeAlways => exact storeAlways _
  | storeBytecode => exact storeCode _
  | storeChan => exact transfer _
  | storeGlobal => exact storeGlobal _
  | storeIndex => exact storeIndex
  | storeInto => exact storeInto
  | storeViaPointer => exact storeThrough _
  | struct => exact makeStruct _
  | sub => exact sub
  | swap => exact swap
  | symbolCreate => exact createSymbol _
  | symbolDelete => exact deleteSymbol _
  | symbolOptCreate => exact createIfMissing _
  | template => exact template _
  | timer => exact timer _
  | tryPop => exact disarm
  | wait => exact await _
  | willCatch => exact narrow _
  | branchInstructions => exact fail _
  | branch => exact branch _
  | branchTrue => exact branchIf _ _
  | branchFalse => exact branchIf _ _
  | localCall => exact localCall _
  | rangeNext => exact nextRound _
  | «try» => exact arm _

end Exec.KeepsTyped

end ScriptMachine
