import ScriptMachine.Machine.Step
import ScriptMachine.Proofs.Action.Plain

/-!
# Plain instructions

Which instructions are plain actions: all but those that enter and leave functions, blocks and
packages, arm and disarm handlers, drive loops, defer calls, start tasks or wait for them, and ask
the debugger.

* `IsPlain.add`, `IsPlain.loadIndex` and companions: one lemma for each action of an instruction.
* `Opcode.isLocal`: the instructions that work on operands and shared state alone.
* `execute_isPlain`, `execute_isLocal`: executing one of them is a plain action, hence a local one.
-/

namespace ScriptMachine

namespace Exec.IsPlain

variable {W B : Prop} {α β : Type}

/-! ### The operand stack -/

theorem pushLiteral (operand : Value) : IsPlain W B (Exec.pushLiteral operand) :=
  (onHeap (.deepCopy _)).bind push

theorem dropMany (count : Nat) : IsPlain W B (Exec.dropMany count) := by
  induction count with
  | zero => exact pure ()
  | succ count ih => exact (pop.bind fun _ => pure ()).bind fun _ => ih

theorem drop (operand : Value) : IsPlain W B (Exec.drop operand) :=
  (operandCount operand 1).bind dropMany

theorem duplicate : IsPlain W B Exec.duplicate := peek.bind push

theorem copyTop : IsPlain W B Exec.copyTop :=
  pop.bind fun v => (onHeap (.deepCopy v)).bind push

theorem swap : IsPlain W B Exec.swap :=
  pop.bind fun upper => pop.bind fun lower => (push upper).bind fun _ => push lower

theorem readStack (operand : Value) : IsPlain W B (Exec.readStack operand) := by
  refine ite ?_ ?_
  · exact popValue.bind fun v =>
      adjust (fun _ _ => rfl) (fun _ => rfl) (fun _ _ => rfl) fun _ _ _ => rfl
  · refine (lift operand.toIndex).bind fun depth => ?_
    refine context_bind (fun c g => by rw [Context.operands_within])
      (fun c k => by rw [Context.operands_veiled, slotValues_veiled]) (fun _ _ _ => rfl) fun c => ?_
    dsimp only
    split
    · exact push _
    · exact fail _ (.of rfl)

/-! ### Operators -/

theorem popOperands : IsPlain W B Exec.popOperands :=
  popUnwrapped.bind fun _ => popUnwrapped.bind fun _ => ite (fail _ (.of rfl)) (pure _)

theorem checkElements (element : Ty) (values : List Value) :
    IsPlain W B (Exec.checkElements element values) := by
  refine get_bind (fun _ _ => rfl) (fun _ _ => rfl) (fun _ _ _ => rfl) fun m => ite ?_ (pure ())
  split
  · exact fail _ (.of rfl)
  · exact pure ()

theorem pushLike (r : Ref .array) (values : Array Value) : IsPlain W B (Exec.pushLike r values) :=
  heap.bind fun _ => (onHeap (.newArray rfl)).bind fun _ => push _

theorem add : IsPlain W B Exec.add := by
  refine popOperands.bind fun p => ?_
  split
  · exact (display _).bind fun _ => push _
  · exact heap.bind fun _ => (checkElements _ _).bind fun _ => pushLike _ _
  · exact heap.bind fun _ => (checkElements _ _).bind fun _ => pushLike _ _
  · refine (onHeap (.deepCopy _)).bind fun v => ?_
    split
    · exact (onObjects (.mergeEntries _ _)).bind fun _ => push _
    · exact push _
  · exact fail _ (.of rfl)
  · refine (lift _).bind fun q => ?_
    split
    · exact push _
    · exact push _
    · exact (lift _).bind push

theorem sub : IsPlain W B Exec.sub := by
  refine popOperands.bind fun p => ?_
  split
  · exact heap.bind fun _ => pushLike _ _
  · refine (lift _).bind fun q => ?_
    split
    · exact push _
    · exact (lift _).bind push

theorem mul : IsPlain W B Exec.mul := by
  refine popOperands.bind fun p => (lift _).bind fun q => ?_
  split
  · exact push _
  · exact (lift _).bind push

theorem calculateWith (op : Operation) : IsPlain W B (Exec.calculateWith op) :=
  popOperands.bind fun _ => (lift _).bind push

theorem power : IsPlain W B Exec.power :=
  popOperands.bind fun _ => (lift _).bind fun _ => (lift _).bind push

theorem conjunction : IsPlain W B Exec.conjunction :=
  popOperands.bind fun _ => heap.bind fun _ => push _

theorem disjunction : IsPlain W B Exec.disjunction :=
  popOperands.bind fun _ => heap.bind fun _ => push _

theorem negate : IsPlain W B Exec.negate := by
  refine popUnwrapped.bind fun v => ?_
  split
  · exact heap.bind fun _ => (onHeap (.newArray rfl)).bind fun _ => push _
  · exact (lift _).bind push

theorem bitOperator (f : Int64 → Int64 → Int64) : IsPlain W B (Exec.bitOperator f) :=
  popOperands.bind fun _ => (lift _).bind push

theorem bitShift : IsPlain W B Exec.bitShift :=
  popOperands.bind fun _ => (lift _).bind push

theorem compareWith (accept : Ordering → Bool) : IsPlain W B (Exec.compareWith accept) :=
  popValue.bind fun _ => popValue.bind fun _ => (lift _).bind fun _ => push _

theorem equality (wanted : Bool) : IsPlain W B (Exec.equality wanted) :=
  popValue.bind fun _ => popValue.bind fun _ => heap.bind fun _ => push _

/-! ### Containers -/

theorem resolveType (v : Value) : IsPlain W B (Exec.resolveType v) := by
  unfold Exec.resolveType
  split
  · exact pure _
  · refine (lookup? _).bind fun found => ?_
    split
    · exact pure _
    · exact fail _ (.of rfl)
  · exact fail _ (.of rfl)

theorem conform (t : Ty) (v : Value) : IsPlain W B (Exec.conform t v) :=
  context_bind (fun _ _ => rfl) (fun _ _ => rfl) (fun _ _ _ => rfl) fun _ => ite (pure v) (onObjects (.coerce _ _))

theorem elementAt (container index : Value) : IsPlain W B (Exec.elementAt container index) := by
  refine heap.bind fun h => ?_
  split
  · exact (lift _).bind fun _ => lift _
  · refine (lift _).bind fun found => ?_
    split
    · exact pure _
    · exact onHeap (.zeroValue _)
  · dsimp only
    split
    · exact pure _
    · exact fail _ (.of rfl)
  · dsimp only
    split
    · exact pure _
    · exact fail _ (.of rfl)
  · refine (lift _).bind fun offset => ?_
    split
    · exact pure _
    · exact fail _ (.of rfl)
  · exact fail _ (.of rfl)

theorem loadIndex : IsPlain W B Exec.loadIndex :=
  popUnwrapped.bind fun _ => popUnwrapped.bind fun _ => (elementAt _ _).bind fun _ => push _

theorem storeElement (container index value : Value) :
    IsPlain W B (Exec.storeElement container index value) := by
  unfold Exec.storeElement
  split
  · exact heap.bind fun _ => (conform _ _).bind fun _ => (checkElements _ _).bind fun _ =>
      (lift _).bind fun _ => onObjects (.setElement _ _ _)
  · exact heap.bind fun _ => (conform _ _).bind fun _ => (conform _ _).bind fun _ =>
      onObjects (.setEntry _ _ _)
  · exact (display _).bind fun _ => onObjects (.setField _ _ _)
  · exact fail _ (.of rfl)

theorem storeIndex : IsPlain W B Exec.storeIndex :=
  popUnwrapped.bind fun _ => popUnwrapped.bind fun _ => popUnwrapped.bind fun _ =>
    (storeElement _ _ _).bind fun _ => push _

theorem storeInto : IsPlain W B Exec.storeInto :=
  popUnwrapped.bind fun _ => popUnwrapped.bind fun _ => popUnwrapped.bind fun _ =>
    (storeElement _ _ _).bind fun _ => push _

theorem loadSlice : IsPlain W B Exec.loadSlice := by
  refine popUnwrapped.bind fun _ => popValue.bind fun _ => (lift _).bind fun _ =>
    popUnwrapped.bind fun v => ?_
  split
  · refine heap.bind fun h => lift_bind fun bound _ => lift_bind fun part hpart => ?_
    exact (onHeap (.newArray (ArrayObject.thawed_of_slice hpart))).bind fun _ => push _
  · exact (lift _).bind fun _ => (lift _).bind fun _ => push _
  · exact fail _ (.of rfl)

theorem arraySpec (operand : Value) : IsPlain W B (Exec.arraySpec operand) := by
  unfold Exec.arraySpec
  split
  · exact heap.bind fun _ => (lift _).bind fun _ => (lift _).bind fun _ => pure _
  · exact (operandCount _ _).bind fun _ => pure _

theorem array (operand : Value) : IsPlain W B (Exec.array operand) := by
  refine (arraySpec operand).bind fun p => (popArgs p.1).bind fun values => ?_
  refine context_bind (fun _ _ => rfl) (fun _ _ => rfl) (fun _ _ _ => rfl) fun c => ite ?_ (ite ?_ ?_)
  · exact (checkElements _ _).bind fun _ => (pure _).bind fun _ =>
      (onHeap (.newArray rfl)).bind fun _ => push _
  · exact (pure _).bind fun _ => (onHeap (.newArray rfl)).bind fun _ => push _
  · exact (mapM _ _ fun _ => onObjects (.coerce _ _)).bind fun _ =>
      (onHeap (.newArray rfl)).bind fun _ => push _

theorem makeArray : IsPlain W B Exec.makeArray :=
  popUnwrapped.bind fun _ => popValue.bind fun _ => (lift _).bind fun _ => heap.bind fun _ =>
    (onHeap (.filled _ _ _)).bind fun _ => push _

theorem makeMap (operand : Value) : IsPlain W B (Exec.makeMap operand) := by
  refine (operandCount operand 0).bind fun _ => (popArgs _).bind fun _ => popValue.bind fun _ =>
    (lift _).bind fun _ => popValue.bind fun _ => (lift _).bind fun _ =>
    (onHeap (.newMap _ _)).bind fun _ => ?_
  refine (forIn _ _ _ fun p _ => ?_).bind fun _ => push _
  exact (conform _ _).bind fun _ => (conform _ _).bind fun _ =>
    (onObjects (.setEntry _ _ _)).bind fun _ => pure _

theorem typedStruct (t : Ty) (fields : List (String × Value)) :
    IsPlain W B (Exec.typedStruct t fields) := by
  refine ite (fail _ (.of rfl)) ((onHeap (.instantiate _)).bind fun _ =>
    context_bind (fun _ _ => rfl) (fun _ _ => rfl) (fun _ _ _ => rfl) fun _ => heap.bind fun _ =>
    (onHeap (.putStruct _ _)).bind fun _ => ?_)
  refine (forIn _ _ _ fun p _ => ?_).bind fun _ => pure _
  exact (onObjects (.setField _ _ _)).bind fun _ => pure _

theorem makeStruct (operand : Value) : IsPlain W B (Exec.makeStruct operand) := by
  refine (operandCount operand 0).bind fun _ => (popArgs _).bind fun _ => heap.bind fun _ => ?_
  dsimp only
  split
  · exact (resolveType _).bind fun _ => (typedStruct _ _).bind fun _ => heap.bind fun _ =>
      (onHeap (.putStruct _ _)).bind fun _ => push _
  · exact (onHeap (.ofFields _)).bind fun _ => heap.bind fun _ =>
      (onHeap (.putStruct _ _)).bind fun _ => push _

theorem explode : IsPlain True B Exec.explode := by
  refine popUnwrapped.bind fun v => ?_
  split
  · refine heap.bind fun _ => (forIn _ _ _ fun key _ => ?_).bind fun _ => pure _
    exact (lift _).bind fun _ => (display _).bind fun _ => (storeHere _ _).bind fun _ => pure _
  · exact fail _ (.of rfl)

theorem flatten : IsPlain W B Exec.flatten := by
  refine popUnwrapped.bind fun v => ?_
  split
  · refine heap.bind fun _ => ?_
    dsimp only
    refine bind (adjust (fun _ _ => rfl) (fun _ => rfl) (fun _ _ => rfl) fun _ _ _ => rfl) fun _ => ?_
    exact (forIn _ _ _ fun v _ => (push v).bind fun _ => pure _).bind fun _ => pure _
  · exact push _

/-! ### Names and pointers -/

theorem loadName (operand : Value) : IsPlain W B (Exec.loadName operand) :=
  (operandName operand).bind fun _ => (lookup _).bind fun _ => push _

theorem checkStoreType (name : String) (v : Value) : IsPlain W B (Exec.checkStoreType name v) := by
  refine get_bind (fun _ _ => rfl) (fun _ _ => rfl) (fun _ _ _ => rfl) fun m => ite ?_ (pure ())
  split
  · exact ite (fail _ (.of rfl)) (pure ())
  · exact pure ()

theorem storeName (operand : Value) : IsPlain True B (Exec.storeName operand) := by
  refine (operandName operand).bind fun name => popValue.bind fun v => ite (pure ()) ?_
  refine (checkStoreType name v).bind fun _ => ?_
  have hstore : IsPlain True B (Exec.store name v) := store trivial name v
  exact (lookup? name).bind fun _ => ite ((fail _ (.of rfl)).bind fun _ => hstore) hstore

theorem storeAlways (operand : Value) : IsPlain True B (Exec.storeAlways operand) :=
  (operandName operand).bind fun name => popValue.bind fun v => storeHere name v

theorem storeGlobal (operand : Value) : IsPlain True B (Exec.storeGlobal operand) :=
  (operandName operand).bind fun name => popValue.bind fun v => storeIn .root name v

theorem createAndStore (operand : Value) : IsPlain True B (Exec.createAndStore operand) :=
  (operandName operand).bind fun name => popValue.bind fun v =>
    ite (pure ()) ((create name).bind fun _ => store trivial name v)

theorem createSymbol (operand : Value) : IsPlain True B (Exec.createSymbol operand) :=
  (operandName operand).bind create

theorem createIfMissing (operand : Value) : IsPlain True B (Exec.createIfMissing operand) :=
  (operandName operand).bind fun name => get_bind (fun _ _ => rfl) (fun _ _ => rfl) (fun _ _ _ => rfl) fun _ =>
    ite (create name) (pure ())

theorem deleteSymbol (operand : Value) : IsPlain True B (Exec.deleteSymbol operand) :=
  (operandName operand).bind fun name =>
    changeScopesHere (fun a id => a.delete id name false)
      fun _ _ _ => Arena.outline_of_delete

theorem storeConstant (operand : Value) : IsPlain True B (Exec.storeConstant operand) :=
  (operandName operand).bind fun name => popValue.bind fun v =>
    changeScopesHere (fun a id => a.setConstant id name (.constant v.unwrapped))
      fun _ _ _ => Arena.outline_of_setConstant

theorem storeMethod (typeName method : String) (code : Code) :
    IsPlain W B (Exec.storeMethod typeName method code) := by
  refine (lookup typeName).bind fun v => ?_
  split
  · exact (note _ _).bind fun _ => onHeap (.addMethod _ _ _)
  · exact fail _ (.of rfl)

theorem storeCode (operand : Value) : IsPlain True B (Exec.storeCode operand) := by
  refine (operandName operand).bind fun name => popUnwrapped.bind fun v => ?_
  split
  · split
    · exact storeMethod _ _ _
    · exact storeHere _ _
  · exact fail _ (.of rfl)

theorem addressOf (operand : Value) : IsPlain W B (Exec.addressOf operand) :=
  (operandName operand).bind fun _ => scopes.bind fun _ =>
    context_bind (fun _ _ => rfl) (fun _ _ => rfl) (fun _ _ _ => rfl) fun _ => (lift _).bind fun _ => push _

theorem dereference : IsPlain W B Exec.dereference := by
  refine popUnwrapped.bind fun v => ?_
  split
  · exact fail _ (.of rfl)
  · exact scopes.bind fun _ => (lift _).bind fun _ => push _
  · exact fail _ (.of rfl)

theorem storeThrough (operand : Value) : IsPlain True B (Exec.storeThrough operand) := by
  refine (operandName operand).bind fun name => (lookup name).bind fun v => ?_
  split
  · exact fail _ (.of rfl)
  · exact popValue.bind fun v => changeScopes trivial (·.storeVia _ v)
      fun _ _ => Arena.outline_of_storeVia
  · exact fail _ (.of rfl)

/-! ### Members, receivers, packages and files -/

theorem memberOf (container : Value) (name : String) :
    IsPlain W B (Exec.memberOf container name) := by
  refine get_bind (fun _ _ => rfl) (fun _ _ => rfl) (fun _ _ _ => rfl) fun m => ?_
  dsimp only
  split
  · refine (lift _).bind fun found => ?_
    split
    · exact pure _
    · exact lift _
  · exact lift _
  · exact lift _
  · split
    · exact pure _
    · exact lift _
  · exact lift _

theorem member (operand : Value) : IsPlain W B (Exec.member operand) := by
  refine ite ?_ ?_
  · exact popValue.bind fun _ => (display _).bind fun _ => popUnwrapped.bind fun _ =>
      (memberOf _ _).bind fun _ => push _
  · exact (pure _).bind fun _ => (display _).bind fun _ => popUnwrapped.bind fun _ =>
      (memberOf _ _).bind fun _ => push _

theorem pushReceiver (name : String) (value : Value) : IsPlain W B (Exec.pushReceiver name value) :=
  (noteThread _ _).bind fun _ =>
    adjust (fun _ _ => rfl) (fun _ => rfl) (fun _ _ => rfl) fun _ _ _ => rfl

theorem freshReceiverName : IsPlain W B (Exec.onWorld Exec.freshReceiverName) :=
  onWorld ⟨fun w => ⟨rfl, .refl w.heap⟩, fun _ _ => rfl⟩

theorem setReceiver (operand : Value) : IsPlain True B (Exec.setReceiver operand) := by
  refine ite ?_ ?_
  · exact popValue.bind fun _ => (push _).bind fun _ => freshReceiverName.bind fun _ =>
      (storeHere _ _).bind fun _ => pushReceiver _ _
  · exact (operandName operand).bind fun _ => (lookup _).bind fun _ => pushReceiver _ _

theorem getReceiver (operand : Value) : IsPlain True B (Exec.getReceiver operand) := by
  refine (operandName operand).bind fun name =>
    context_bind (fun _ _ => rfl) (fun _ _ => rfl) (fun _ _ _ => rfl) fun c => ?_
  split
  · exact pure _
  · refine bind (adjust (fun _ _ => rfl) (fun _ => rfl) (fun _ _ => rfl) fun _ _ _ => rfl) fun _ => ?_
    exact (noteThread _ _).bind fun _ => storeHere _ _

theorem loadReceiver : IsPlain W B Exec.loadReceiver := by
  refine context_bind (fun _ _ => rfl) (fun _ _ => rfl) (fun _ _ _ => rfl) fun c => ?_
  split
  · exact fail _ (.of rfl)
  · exact push _

theorem importPackage (operand : Value) : IsPlain True B (Exec.importPackage operand) := by
  refine (operandName operand).bind fun path => scopes.bind fun a => ?_
  dsimp only
  split
  · exact (noteThread _ _).bind fun _ => storeHere _ _
  · exact fail _ (.of rfl)

theorem enterPackage (operand : Value) : IsPlain W B (Exec.enterPackage operand) :=
  (operandName operand).bind fun _ =>
    adjust (fun _ _ => rfl) (fun _ => rfl) (fun _ _ => rfl) fun _ _ _ => rfl

theorem enterFile (operand : Value) : IsPlain W B (Exec.enterFile operand) :=
  (operandName operand).bind fun _ =>
    adjust (fun _ _ => rfl) (fun _ => rfl) (fun _ _ => rfl) fun _ _ _ => rfl

theorem readPath (path : String) : IsPlain W B (get >>= fun m : Machine =>
    match m.world.files.read path with
    | .ok text => Exec.push (.string text)
    | .error reason =>
      Exec.fail (.about .invalidFileIdentifier s!"{path}: {reason.message}")) := by
  refine get_bind (fun _ _ => rfl) (fun _ _ => rfl) (fun _ _ _ => rfl) fun m => ?_
  split
  · exact push _
  · exact fail _ (.of rfl)

theorem readFile (operand : Value) : IsPlain W B (Exec.readFile operand) := by
  refine ite ?_ ?_
  · exact popValue.bind fun _ => (display _).bind readPath
  · exact (operandName operand).bind readPath

/-! ### Checks and conversions -/

theorem arguments : IsPlain W B Exec.arguments := by
  refine (lookup? _).bind fun found => ?_
  split
  · exact heap.bind fun _ => pure _
  · exact pure _

theorem argumentBounds (operand : Value) : IsPlain W B (Exec.argumentBounds operand) := by
  unfold Exec.argumentBounds
  split
  · exact heap.bind fun _ => (lift _).bind fun _ => (lift _).bind fun _ => pure _
  · exact (lift _).bind fun _ => pure _

theorem argCheck (operand : Value) : IsPlain W B (Exec.argCheck operand) :=
  (argumentBounds operand).bind fun _ => arguments.bind fun _ => ite (fail _ (.of rfl)) (pure _)

theorem varArgs (operand : Value) : IsPlain W B (Exec.varArgs operand) :=
  (lift _).bind fun _ => arguments.bind fun _ => pushList _

theorem modeCheck (operand : Value) : IsPlain W B (Exec.modeCheck operand) := by
  refine (operandName operand).bind fun wanted => (lookup? _).bind fun found => ?_
  split
  · exact fail _ (.of rfl)
  · exact ite ((display _).bind fun _ => fail _ (.of rfl)) (pure _)

theorem stackCheck (operand : Value) : IsPlain W B (Exec.stackCheck operand) := by
  refine (lift _).bind fun wanted => ?_
  exact context_bind (fun c g => by rw [Context.operands_within])
    (fun c k => by rw [Context.operands_veiled, slotValues_veiled]) (fun _ _ _ => rfl)
    fun c => ite (fail _ (.of rfl)) (pure _)

theorem operandType (operand : Value) : IsPlain W B (Exec.operandType operand) :=
  ite (fail _ (.of rfl)) (resolveType operand)

theorem requiredType (operand : Value) : IsPlain W B (Exec.requiredType operand) :=
  (operandType operand).bind fun _ => popUnwrapped.bind fun _ =>
    context_bind (fun _ _ => rfl) (fun _ _ => rfl) (fun _ _ _ => rfl) fun _ =>
    ite (heap.bind fun _ => ite (fail _ (.of rfl)) (push _))
      ((onObjects (.coerce _ _)).bind fun _ => push _)

theorem coerceTop (operand : Value) : IsPlain W B (Exec.coerceTop operand) :=
  (operandType operand).bind fun _ => popValue.bind fun _ =>
    (onObjects (.coerce _ _)).bind fun _ => push _

theorem staticTyping : IsPlain True B Exec.staticTyping := by
  refine popValue.bind fun v => (truthy v).bind fun on => ?_
  exact bind (adjust (fun _ _ => rfl) (fun _ => rfl) (fun _ _ => rfl) fun _ _ _ => rfl) fun _ => storeHere _ _

/-! ### Output and the outside world -/

theorem print (operand : Value) : IsPlain W B (Exec.print operand) :=
  (operandCount operand 1).bind fun _ => (popArgs _).bind fun _ => heap.bind fun _ => write _

theorem say : IsPlain W B Exec.say := popValue.bind fun _ => (display _).bind fun _ => write _

theorem logValue (operand : Value) : IsPlain W B (Exec.logValue operand) := by
  refine (operandName operand).bind fun name => ?_
  split
  · exact fail _ (.of rfl)
  · exact popValue.bind fun _ => heap.bind fun _ => note _ _

theorem timer (operand : Value) : IsPlain W B (Exec.timer operand) := by
  refine (lift _).bind fun n => ?_
  split
  · exact adjust (fun _ _ => rfl) (fun _ => rfl) (fun _ _ => rfl) fun _ _ _ => rfl
  · have hstop : IsPlain W B (do
        Exec.modifyContext fun c => { c with timers := c.timers - 1 }
        Exec.push (.string Exec.elapsedText)) :=
      bind (adjust (fun _ _ => rfl) (fun _ => rfl) (fun _ _ => rfl) fun _ _ _ => rfl) fun _ => push _
    exact context_bind (fun _ _ => rfl) (fun _ _ => rfl) (fun _ _ _ => rfl) fun c =>
      ite ((fail _ (.of rfl)).bind fun _ => hstop) hstop
  · exact fail _ (.of rfl)

theorem template (operand : Value) : IsPlain W B (Exec.template operand) := by
  refine (operandName operand).bind fun name => (lookup? name).bind fun found => ?_
  split
  · exact popValue.bind fun _ => heap.bind fun _ => (lift _).bind fun _ => push _
  · exact fail _ (.of rfl)

theorem respond : IsPlain True B Exec.respond :=
  popUnwrapped.bind fun _ => heap.bind fun _ => (write _).bind fun _ => storeIn _ _ _

theorem isSet (name : String) : IsPlain W B (Exec.isSet name) := by
  refine (lookup? name).bind fun found => ?_
  split
  · exact truthy _
  · exact pure _

theorem authorize (operand : Value) : IsPlain True B (Exec.authorize operand) := by
  refine (operandName operand).bind fun _ => (isSet _).bind fun _ => (isSet _).bind fun _ =>
    (isSet _).bind fun _ => (lift _).bind fun r => ?_
  split
  · exact pure _
  · refine bind (onWorld ⟨fun w => ⟨rfl, .refl w.heap⟩, World.emit_isUnread _ _⟩) fun _ => ?_
    exact (storeIn _ _ _).bind fun _ => fail _ (.of rfl)

/-! ### Channels and branches -/

theorem transfer (operand : Value) : IsPlain True B (Exec.transfer operand) := by
  refine (operandName operand).bind fun name => (lookup? name).bind fun found => ?_
  split
  · exact popValue.bind fun v => ofWorldAction (.send _ v)
  · refine popUnwrapped.bind fun v => ?_
    split
    · exact (ofWorldAction (.receive _)).bind fun _ => ite (store trivial _ _) (pure _)
    · exact fail _ (.of rfl)

theorem branch (hB : B) (operand : Value) : IsPlain W B (Exec.branch operand) :=
  (branchTarget hB operand).bind fun _ => goTo hB _

theorem branchIf (hB : B) (wanted : Bool) (operand : Value) :
    IsPlain W B (Exec.branchIf wanted operand) :=
  (branchTarget hB operand).bind fun _ => popValue.bind fun _ => (truthy _).bind fun _ =>
    ite (goTo hB _) (pure _)

theorem panic : IsPlain W B Exec.panic :=
  pop.bind fun _ => (display _).bind fun _ => fail _ (.of rfl)

end Exec.IsPlain

/-- The instructions that work on operands and shared state alone: all but those that enter and
leave functions, blocks and packages, arm and disarm handlers, drive loops, defer calls, start
tasks or wait for them, and ask the debugger. -/
def Opcode.isLocal : Opcode → Bool
  | .atLine | .call | .defer | .entryPoint | .go | .popPackage | .popScope | .pushPackage
  | .pushScope | .rangeInit | .return | .tryPop | .wait | .willCatch | .localCall | .rangeNext
  | .try => false
  | _ => true

/-- The local instructions that write symbols. -/
def Opcode.writesSymbols : Opcode → Bool
  | .auth | .constant | .createAndStore | .explode | .getThis | .import | .response | .setThis
  | .staticTyping | .store | .storeAlways | .storeBytecode | .storeChan | .storeGlobal
  | .storeViaPointer | .symbolCreate | .symbolDelete | .symbolOptCreate => true
  | _ => false

namespace Exec

/-- **Executing such an instruction is a plain action.** -/
theorem execute_isPlain {W B : Prop} {i : Instruction} (h : i.op.isLocal = true)
    (hW : i.op.writesSymbols = true → W) (hB : i.op.isBranch = true → B) :
    IsPlain W B (execute i) := by
  obtain ⟨op, operand⟩ := i
  cases op with
  | stop => exact IsPlain.fail _ (.of rfl)
  | add => exact IsPlain.add
  | addressOf => exact IsPlain.addressOf _
  | and => exact IsPlain.conjunction
  | argCheck => exact IsPlain.argCheck _
  | array => exact IsPlain.array _
  | auth => exact (IsPlain.authorize _).allowed (hW rfl)
  | bitAnd => exact IsPlain.bitOperator _
  | bitOr => exact IsPlain.bitOperator _
  | bitShift => exact IsPlain.bitShift
  | coerce => exact IsPlain.coerceTop _
  | constant => exact (IsPlain.storeConstant _).allowed (hW rfl)
  | copy => exact IsPlain.copyTop
  | createAndStore => exact (IsPlain.createAndStore _).allowed (hW rfl)
  | dereference => exact IsPlain.dereference
  | div => exact IsPlain.calculateWith _
  | drop => exact IsPlain.drop _
  | dropToMarker => exact IsPlain.dropToMarker
  | dup => exact IsPlain.duplicate
  | equal => exact IsPlain.equality _
  | exp => exact IsPlain.power
  | explode => exact IsPlain.explode.allowed (hW rfl)
  | flatten => exact IsPlain.flatten
  | fromFile => exact IsPlain.readFile _
  | getThis => exact (IsPlain.getReceiver _).allowed (hW rfl)
  | getVarArgs => exact IsPlain.varArgs _
  | greaterThan => exact IsPlain.compareWith _
  | greaterThanOrEqual => exact IsPlain.compareWith _
  | «import» => exact (IsPlain.importPackage _).allowed (hW rfl)
  | inFile => exact IsPlain.enterFile _
  | inPackage => exact IsPlain.enterPackage _
  | lessThan => exact IsPlain.compareWith _
  | lessThanOrEqual => exact IsPlain.compareWith _
  | load => exact IsPlain.loadName _
  | loadIndex => exact IsPlain.loadIndex
  | loadSlice => exact IsPlain.loadSlice
  | loadThis => exact IsPlain.loadReceiver
  | log => exact IsPlain.logValue _
  | makeArray => exact IsPlain.makeArray
  | makeMap => exact IsPlain.makeMap _
  | member => exact IsPlain.member _
  | modeCheck => exact IsPlain.modeCheck _
  | modulo => exact IsPlain.calculateWith _
  | mul => exact IsPlain.mul
  | negate => exact IsPlain.negate
  | newline => exact IsPlain.write _
  | noOperation => exact IsPlain.pure ()
  | notEqual => exact IsPlain.equality _
  | or => exact IsPlain.disjunction
  | panic => exact IsPlain.panic
  | print => exact IsPlain.print _
  | push => exact IsPlain.pushLiteral _
  | readStack => exact IsPlain.readStack _
  | requiredType => exact IsPlain.requiredType _
  | response => exact IsPlain.respond.allowed (hW rfl)
  | say => exact IsPlain.say
  | setThis => exact (IsPlain.setReceiver _).allowed (hW rfl)
  | stackCheck => exact IsPlain.stackCheck _
  | staticTyping => exact IsPlain.staticTyping.allowed (hW rfl)
  | store => exact (IsPlain.storeName _).allowed (hW rfl)
  | storeAlways => exact (IsPlain.storeAlways _).allowed (hW rfl)
  | storeBytecode => exact (IsPlain.storeCode _).allowed (hW rfl)
  | storeChan => exact (IsPlain.transfer _).allowed (hW rfl)
  | storeGlobal => exact (IsPlain.storeGlobal _).allowed (hW rfl)
  | storeIndex => exact IsPlain.storeIndex
  | storeInto => exact IsPlain.storeInto
  | storeViaPointer => exact (IsPlain.storeThrough _).allowed (hW rfl)
  | struct => exact IsPlain.makeStruct _
  | sub => exact IsPlain.sub
  | swap => exact IsPlain.swap
  | symbolCreate => exact (IsPlain.createSymbol _).allowed (hW rfl)
  | symbolDelete => exact (IsPlain.deleteSymbol _).allowed (hW rfl)
  | symbolOptCreate => exact (IsPlain.createIfMissing _).allowed (hW rfl)
  | template => exact IsPlain.template _
  | timer => exact IsPlain.timer _
  | branchInstructions => exact IsPlain.fail _ (.of rfl)
  | branch => exact IsPlain.branch (hB rfl) _
  | branchTrue => exact IsPlain.branchIf (hB rfl) _ _
  | branchFalse => exact IsPlain.branchIf (hB rfl) _ _
  | _ => cases h

/-- Executing such an instruction is a local action. -/
theorem execute_isLocal {i : Instruction} (h : i.op.isLocal = true) : IsLocal (execute i) :=
  (execute_isPlain h (fun _ => trivial) fun _ => trivial).isLocal

end Exec

end ScriptMachine
