import ScriptMachine.Machine.Step
import ScriptMachine.Proofs.Action.Outcome
import ScriptMachine.Proofs.Typing.Library

/-!
# Typed arrays and instructions

What instructions do on operands, names, objects and output keeps arrays to their types. Instructions
that make an array of a type convert or check the elements, or take them from an array of that type.
`Add` checks what it adds in static mode alone.

* `Machine.Typed`, `Exec.KeepsTyped`: an action keeps the arrays of a machine to their types.
* `KeepsTyped.array`, `KeepsTyped.storeIndex` and companions: one lemma for each action of an
  instruction.
* `typed_add`: an addition does so, if what it adds without a check belongs.
-/

namespace ScriptMachine

/-- The arrays of the world hold what belongs in them. -/
def Machine.Typed (m : Machine) : Prop := m.world.Typed

namespace Exec

/-- An action keeps arrays to their types, whether it succeeds or not. -/
abbrev KeepsTyped {α : Type} (act : Exec α) : Prop := ScriptMachine.Upholds Machine.Typed act fun _ => True

namespace KeepsTyped

variable {α β : Type} {P : α → Prop} {v w : Value}

/-! ### Composed actions -/

theorem typed {act : Exec α} (h : KeepsTyped act) {m : Machine} (hm : m.Typed) :
    (outcome act m).2.Typed := (h m hm).1

theorem pure (a : α) : KeepsTyped (Pure.pure a) := ScriptMachine.Upholds.pure trivial

theorem bind {act : Exec α} {next : α → Exec β} (hact : KeepsTyped act)
    (hnext : ∀ a, KeepsTyped (next a)) : KeepsTyped (act >>= next) :=
  ScriptMachine.Upholds.bind hact fun a _ => hnext a

theorem fail (f : Fault) : KeepsTyped (Exec.fail f : Exec α) := .throw _

theorem wait : KeepsTyped (Exec.wait : Exec α) := .throw _

theorem ite {p : Prop} [Decidable p] {yes no : Exec α} (hyes : KeepsTyped yes)
    (hno : KeepsTyped no) : KeepsTyped (if p then yes else no) := ScriptMachine.Upholds.ite hyes hno

theorem forIn {γ : Type} {xs : List γ} {body : γ → PUnit → Exec (ForInStep PUnit)}
    (hbody : ∀ x, KeepsTyped (body x ⟨⟩)) : KeepsTyped (ForIn.forIn xs ⟨⟩ body) :=
  ScriptMachine.Upholds.forIn fun x _ => hbody x

theorem check (r : Except Fault α) : KeepsTyped (liftM r : Exec α) := by
  cases r with
  | ok a => exact pure a
  | error f => exact fail f

/-- A result with a property, as far as it is no fault. -/
theorem lift {r : Except Fault α} (h : Ensures r P) :
    ScriptMachine.Upholds Machine.Typed (liftM r : Exec α) P := by
  cases r with
  | ok a => exact ScriptMachine.Upholds.pure (h a rfl)
  | error f => exact .throw _

theorem get : KeepsTyped (MonadState.get : Exec Machine) := fun _ hm => ⟨hm, .any _⟩

theorem context : KeepsTyped Exec.context := get.bind fun _ => pure _

theorem scopes : KeepsTyped Exec.scopes := get.bind fun _ => pure _

theorem heap : KeepsTyped Exec.heap := get.bind fun _ => pure _

/-- The objects that are read hold what belongs in them. -/
theorem objects_bind {next : Heap → Exec β} (hnext : ∀ h, h.Typed → KeepsTyped (next h)) :
    KeepsTyped (Exec.heap >>= next) := fun m hm => hnext m.world.heap hm m hm

/-- What is done with the objects that are read first. -/
theorem heap_bind {next : Heap → Exec β}
    (hnext : ∀ m : Machine, m.Typed → (outcome (next m.world.heap) m).2.Typed) :
    KeepsTyped (Exec.heap >>= next) := fun m hm => ⟨hnext m hm, .any _⟩

/-- What is done with the context that is read first. -/
theorem context_bind {next : Context → Exec β}
    (hnext : ∀ m : Machine, m.Typed → (outcome (next m.context) m).2.Typed) :
    KeepsTyped (Exec.context >>= next) := fun m hm => ⟨hnext m hm, .any _⟩

/-! ### The world and the context -/

/-- An action that leaves the objects alone. -/
theorem elsewhere {act : Exec α} (h : ∀ m, (outcome act m).2.world.heap = m.world.heap) :
    KeepsTyped act := fun m hm => by
  refine ⟨?_, .any _⟩
  show Heap.Typed (outcome act m).2.world.heap
  rwa [h m]

theorem onWorld {act : WorldM α} (h : Maintains World.Typed act P) :
    ScriptMachine.Upholds Machine.Typed (Exec.onWorld act) P := fun m hm =>
  ⟨(h m.world hm).1, .ok (h m.world hm).2⟩

theorem onHeap {act : StateM Heap α} (h : Maintains Heap.Typed act P) :
    KeepsTyped (Exec.onHeap act) := (onWorld (World.Typed.onHeap h)).imp fun _ _ => trivial

/-- A computation on objects that may fault, with what its result satisfies. -/
theorem converted {act : HeapM α} (h : ScriptMachine.Upholds Heap.Typed act P) :
    ScriptMachine.Upholds Machine.Typed (Exec.onObjects act) P := by
  refine .bind (P := (Ensures · P)) (onWorld (World.Typed.onHeap h)) fun r hr => ?_
  cases r with
  | ok a => exact .pure (hr a rfl)
  | error f => exact .throw _

theorem onObjects {act : HeapM α} (h : ScriptMachine.Upholds Heap.Typed act P) :
    KeepsTyped (Exec.onObjects act) := (converted h).imp fun _ _ => trivial

theorem ofWorldAction {act : WorldAction α} (h : WorldAction.KeepsTyped act) :
    KeepsTyped (Exec.ofWorldAction act) := by
  refine ScriptMachine.Upholds.bind (onWorld h) fun r _ => ?_
  cases r with
  | ok a => exact pure a
  | error halt => exact .throw halt

theorem setScopes (a : Arena) : KeepsTyped (Exec.setScopes a) := elsewhere fun _ => rfl

theorem modifyContext (f : Context → Context) : KeepsTyped (Exec.modifyContext f) :=
  elsewhere fun _ => rfl

theorem note (c : Category) (message : Unit → String) : KeepsTyped (Exec.note c message) :=
  elsewhere fun _ => rfl

theorem noteThread (c : Category) (message : Unit → String) :
    KeepsTyped (Exec.noteThread c message) := get.bind fun _ => ite (note c _) (pure _)

theorem observe (x : Happening) : KeepsTyped (Exec.observe x) := by
  refine get.bind fun m => ?_
  dsimp only
  split
  · split
    · exact (note _ _).bind fun _ => modifyContext _
    · exact modifyContext _
  · exact modifyContext _

theorem output (text : String) : KeepsTyped (Exec.write text) := modifyContext _

/-! ### Operands -/

theorem push (v : Value) : KeepsTyped (Exec.push v) := modifyContext _

theorem pop : KeepsTyped Exec.pop := by
  refine get.bind fun m => ite (fail _) ?_
  split
  · exact (modifyContext _).bind fun _ => pure _
  · exact fail _

theorem popValue : KeepsTyped Exec.popValue := pop.bind fun v => ite (fail _) (pure v)

theorem popUnwrapped : KeepsTyped Exec.popUnwrapped := popValue.bind fun v => pure v.unwrapped

theorem peek : KeepsTyped Exec.peek := by
  refine context.bind fun c => ite (fail _) ?_
  split
  · exact pure _
  · exact fail _

theorem popArgs (count : Nat) : KeepsTyped (Exec.popArgs count) :=
  context.bind fun _ => ite (fail _) ((modifyContext _).bind fun _ => ite (fail _) (pure _))

theorem operandName (operand : Value) : KeepsTyped (Exec.operandName operand) := by
  unfold Exec.operandName
  split
  · exact pure _
  · exact fail _

theorem operandCount (operand : Value) (default : Nat) :
    KeepsTyped (Exec.operandCount operand default) := ite (pure default) (check _)

theorem branchTarget (operand : Value) : KeepsTyped (Exec.branchTarget operand) := by
  refine get.bind fun m => ?_
  dsimp only
  split
  · exact ite (pure _) (fail _)
  · exact fail _

/-! ### Names and values -/

theorem lookup? (name : String) : KeepsTyped (Exec.lookup? name) := get.bind fun _ => pure _

theorem lookup (name : String) : KeepsTyped (Exec.lookup name) := by
  refine (lookup? name).bind fun found => ?_
  cases found with
  | some v => exact pure v
  | none => exact fail _

theorem store (name : String) (v : Value) : KeepsTyped (Exec.store name v) := by
  refine context.bind fun c => bind (onWorld (World.Typed.assign c.symbols name v)) fun r => ?_
  cases r with
  | ok u => exact pure u
  | error f => exact fail f

/-- A write to the scopes that starts from the current table. -/
theorem writeHere (write : Arena → TableId → Except Fault Arena) : KeepsTyped (do
    let a ← Exec.scopes
    let c ← Exec.context
    Exec.setScopes (← write a c.symbols)) :=
  scopes.bind fun _ => context.bind fun _ => (check _).bind fun _ => setScopes _

theorem storeIn (table : TableId) (name : String) (v : Value) :
    KeepsTyped (Exec.storeIn table name v) :=
  scopes.bind fun _ => (check _).bind fun _ => setScopes _

theorem storeHere (name : String) (v : Value) : KeepsTyped (Exec.storeHere name v) :=
  context.bind fun c => storeIn c.symbols name v

theorem create (name : String) : KeepsTyped (Exec.create name) :=
  writeHere fun a id => a.create id name

theorem display (v : Value) : KeepsTyped (Exec.display v) := heap.bind fun _ => pure _

theorem truthy (v : Value) : KeepsTyped (Exec.truthy v) := heap.bind fun _ => pure _

theorem pushList (values : List Value) : KeepsTyped (Exec.pushList values) :=
  (onHeap (Heap.Typed.newList _)).bind push


/-! ### The operand stack -/

theorem pushLiteral (operand : Value) : KeepsTyped (Exec.pushLiteral operand) :=
  (onHeap (Heap.Typed.deepCopy _)).bind push

theorem dropMany (count : Nat) : KeepsTyped (Exec.dropMany count) := by
  induction count with
  | zero => exact pure ()
  | succ count ih => exact (pop.bind fun _ => pure ()).bind fun _ => ih

theorem drop (operand : Value) : KeepsTyped (Exec.drop operand) :=
  (operandCount operand 1).bind dropMany

theorem duplicate : KeepsTyped Exec.duplicate := peek.bind push

theorem copyTop : KeepsTyped Exec.copyTop :=
  pop.bind fun v => (onHeap (Heap.Typed.deepCopy v)).bind push

theorem swap : KeepsTyped Exec.swap :=
  pop.bind fun upper => pop.bind fun lower => (push upper).bind fun _ => push lower

theorem readStack (operand : Value) : KeepsTyped (Exec.readStack operand) := by
  refine ite ?_ ?_
  · exact popValue.bind fun _ => modifyContext _
  · refine (check _).bind fun depth => context.bind fun c => ?_
    dsimp only
    split
    · exact push _
    · exact fail _

/-! ### Operators -/

theorem popOperands : KeepsTyped Exec.popOperands :=
  popUnwrapped.bind fun _ => popUnwrapped.bind fun _ => ite (fail _) (pure _)

/-- A check leaves the machine alone, and in static mode what has passed it belongs. -/
theorem checkElements_cases {m : Machine} (hm : m.Typed) (element : Ty) (values : List Value) :
    (∃ f, outcome (Exec.checkElements element values) m = (.error (.fault f), m)) ∨
      outcome (Exec.checkElements element values) m = (.ok (), m) ∧
        (m.context.staticTypes = true → ∀ v ∈ values, v.Belongs element) := by
  unfold Exec.checkElements
  rw [outcome_bind_ok (outcome_get m)]
  split
  · split
    · exact .inl ⟨_, rfl⟩
    · rename_i hnone
      refine .inr ⟨rfl, fun _ v hv => hm.belongs_of_accepts ?_⟩
      simpa using List.find?_eq_none.1 hnone v hv
  · rename_i hoff
    refine .inr ⟨rfl, fun hstatic v _ => .of_isInterface ?_⟩
    simpa [hstatic] using hoff

theorem checkElements (element : Ty) (values : List Value) :
    KeepsTyped (Exec.checkElements element values) := fun m hm => by
  rcases checkElements_cases hm element values with ⟨f, hout⟩ | ⟨hout, -⟩
  · exact ⟨(congrArg (·.2.Typed) hout).mpr hm, .any _⟩
  · exact ⟨(congrArg (·.2.Typed) hout).mpr hm, .any _⟩

/-- A new array of the type of another one has to be given what belongs in that. -/
theorem typed_pushLike {m : Machine} (hm : m.Typed) {r : Ref .array} {values : Array Value}
    (h : ∀ v ∈ values, v.Belongs (m.world.heap.array r).element) :
    (outcome (Exec.pushLike r values) m).2.Typed := by
  have ha : ArrayObject.Typed { element := (m.world.heap.array r).element, values } := h
  have hpushed : KeepsTyped (do
      Exec.push (.array (← Exec.onHeap (Heap.newArray
        { element := (m.world.heap.array r).element, values })))) :=
    (onHeap (Heap.Typed.newArray ha)).bind fun _ => push _
  exact hpushed.typed hm

/-- A new array of elements of another one and of others, which are checked in static mode. -/
theorem typed_extended {m : Machine} (hm : m.Typed) {r : Ref .array} {values : Array Value}
    {added : List Value} (hfit : m.context.staticTypes = true ∨
      ∀ v ∈ added, v.Belongs (m.world.heap.array r).element)
    (hvalues : ∀ v ∈ values, v ∈ (m.world.heap.array r).values ∨ v ∈ added) :
    (outcome (do
      Exec.checkElements (m.world.heap.array r).element added
      Exec.pushLike r values) m).2.Typed := by
  rcases checkElements_cases hm (m.world.heap.array r).element added with
    ⟨f, hcheck⟩ | ⟨hcheck, hbelongs⟩
  · rw [outcome_bind_error hcheck]
    exact hm
  · rw [outcome_bind_ok hcheck]
    refine typed_pushLike hm fun v hv => (hvalues v hv).elim (hm.array r v) fun hadded => ?_
    exact hfit.elim (fun hstatic => hbelongs hstatic v hadded) fun hall => hall v hadded

/-- **An addition keeps arrays to their types**, if static mode is on or what it adds to an array
belongs there. -/
theorem typed_add {m : Machine} (hm : m.Typed)
    (hfit : ∀ r v m', outcome Exec.popOperands m = (.ok (.array r, v), m') →
      m'.context.staticTypes = true ∨
        ∀ w ∈ Native.elementsOf m'.world.heap v, w.Belongs (m'.world.heap.array r).element) :
    (outcome Exec.add m).2.Typed := by
  have hpopped := popOperands.typed hm
  unfold Exec.add
  rcases hout : outcome Exec.popOperands m with ⟨halt | ⟨a, b⟩, m'⟩ <;> rw [hout] at hpopped
  · rw [outcome_bind_error hout]
    exact hpopped
  rw [outcome_bind_ok hout]
  split
  · rename_i f b heq
    cases heq
    exact ((display b).bind fun text => push (.string (f.message ++ text))).typed hpopped
  · rename_i r q heq
    cases heq
    rw [outcome_bind_ok (outcome_heap m')]
    refine typed_extended hpopped (hfit r (.array q) m' hout) fun w hw => ?_
    exact (Array.mem_append.1 hw).imp_right Array.mem_toList_iff.2
  · rename_i r b hother heq
    cases heq
    have helements : Native.elementsOf m'.world.heap b = [b] := by
      unfold Native.elementsOf
      split
      · exact absurd rfl (hother _)
      · rfl
    have hsingle := hfit r b m' hout
    rw [helements] at hsingle
    rw [outcome_bind_ok (outcome_heap m')]
    exact typed_extended hpopped hsingle fun w hw => (Array.mem_push.1 hw).imp_right List.mem_singleton.2
  · refine ((onHeap (Heap.Typed.deepCopy _)).bind fun copy => ?_).typed hpopped
    split
    · exact (onObjects (Heap.Typed.mergeEntries _ _)).bind fun _ => push _
    · exact push _
  · exact hpopped
  · refine ((check _).bind fun q => ?_).typed hpopped
    split
    · exact push _
    · exact push _
    · exact (check _).bind push

theorem sub : KeepsTyped Exec.sub := by
  refine popOperands.bind fun p => ?_
  split
  · exact heap_bind fun m hm => typed_pushLike hm fun v hv =>
      hm.array _ v (Array.mem_filter.1 hv).1
  · refine (check _).bind fun q => ?_
    split
    · exact push _
    · exact (check _).bind push

theorem mul : KeepsTyped Exec.mul := by
  refine popOperands.bind fun p => (check _).bind fun q => ?_
  split
  · exact push _
  · exact (check _).bind push

theorem calculateWith (op : Operation) : KeepsTyped (Exec.calculateWith op) :=
  popOperands.bind fun _ => (check _).bind push

theorem power : KeepsTyped Exec.power :=
  popOperands.bind fun _ => (check _).bind fun _ => (check _).bind push

theorem conjunction : KeepsTyped Exec.conjunction :=
  popOperands.bind fun _ => heap.bind fun _ => push _

theorem disjunction : KeepsTyped Exec.disjunction :=
  popOperands.bind fun _ => heap.bind fun _ => push _

theorem negate : KeepsTyped Exec.negate := by
  refine popUnwrapped.bind fun v => ?_
  split
  · exact objects_bind fun h hh => (onHeap (Heap.Typed.newArray (hh.array _).reversed)).bind
      fun _ => push _
  · exact (check _).bind push

theorem bitOperator (f : Int64 → Int64 → Int64) : KeepsTyped (Exec.bitOperator f) :=
  popOperands.bind fun _ => (check _).bind push

theorem bitShift : KeepsTyped Exec.bitShift :=
  popOperands.bind fun _ => (check _).bind push

theorem compareWith (accept : Ordering → Bool) : KeepsTyped (Exec.compareWith accept) :=
  popValue.bind fun _ => popValue.bind fun _ => (check _).bind fun _ => push _

theorem equality (wanted : Bool) : KeepsTyped (Exec.equality wanted) :=
  popValue.bind fun _ => popValue.bind fun _ => heap.bind fun _ => push _

/-! ### Containers -/

theorem resolveType (v : Value) : KeepsTyped (Exec.resolveType v) := by
  unfold Exec.resolveType
  split
  · exact pure _
  · refine (lookup? _).bind fun found => ?_
    split
    · exact pure _
    · exact fail _
  · exact fail _

theorem conform (t : Ty) (v : Value) : KeepsTyped (Exec.conform t v) :=
  context.bind fun _ => ite (pure v) (onObjects (Heap.Typed.coerce _ _))

theorem elementAt (container index : Value) : KeepsTyped (Exec.elementAt container index) := by
  refine heap.bind fun h => ?_
  split
  · exact (check _).bind fun _ => check _
  · refine (check _).bind fun found => ?_
    split
    · exact pure _
    · exact onHeap (Heap.Typed.zeroValue _)
  · dsimp only
    split
    · exact pure _
    · exact fail _
  · dsimp only
    split
    · exact pure _
    · exact fail _
  · refine (check _).bind fun offset => ?_
    split
    · exact pure _
    · exact fail _
  · exact fail _

theorem loadIndex : KeepsTyped Exec.loadIndex :=
  popUnwrapped.bind fun _ => popUnwrapped.bind fun _ => (elementAt _ _).bind fun _ => push _

theorem storeElement (container index value : Value) :
    KeepsTyped (Exec.storeElement container index value) := by
  unfold Exec.storeElement
  split
  · exact heap.bind fun _ => (conform _ _).bind fun _ => (checkElements _ _).bind fun _ =>
      (check _).bind fun _ => onObjects (Heap.Typed.setElement _ _ _)
  · exact heap.bind fun _ => (conform _ _).bind fun _ => (conform _ _).bind fun _ =>
      onObjects (Heap.Typed.setEntry _ _ _)
  · exact (display _).bind fun _ => onObjects (Heap.Typed.setField _ _ _)
  · exact fail _

theorem storeIndex : KeepsTyped Exec.storeIndex :=
  popUnwrapped.bind fun _ => popUnwrapped.bind fun _ => popUnwrapped.bind fun _ =>
    (storeElement _ _ _).bind fun _ => push _

theorem storeInto : KeepsTyped Exec.storeInto :=
  popUnwrapped.bind fun _ => popUnwrapped.bind fun _ => popUnwrapped.bind fun _ =>
    (storeElement _ _ _).bind fun _ => push _

theorem loadSlice : KeepsTyped Exec.loadSlice := by
  refine popUnwrapped.bind fun _ => popValue.bind fun _ => (check _).bind fun _ =>
    popUnwrapped.bind fun v => ?_
  split
  · exact objects_bind fun h hh => (check _).bind fun _ =>
      ScriptMachine.Upholds.bind (lift ((hh.array _).slice _ _)) fun part hpart =>
        (onHeap (Heap.Typed.newArray hpart)).bind fun _ => push _
  · exact (check _).bind fun _ => (check _).bind fun _ => push _
  · exact fail _

theorem arraySpec (operand : Value) : KeepsTyped (Exec.arraySpec operand) := by
  unfold Exec.arraySpec
  split
  · exact heap.bind fun _ => (check _).bind fun _ => (check _).bind fun _ => pure _
  · exact (operandCount _ _).bind fun _ => pure _

theorem array (operand : Value) : KeepsTyped (Exec.array operand) := by
  refine (arraySpec operand).bind fun p => (popArgs p.1).bind fun values => ?_
  have hbuilt : ∀ vs : List Value, (∀ v ∈ vs, v.Belongs p.2) → KeepsTyped (do
      Exec.push (.array (← Exec.onHeap (Heap.newArray { element := p.2, values := vs.toArray })))) :=
    fun vs hvs => (onHeap (Heap.Typed.newArray fun v hv => hvs v (by simpa using hv))).bind
      fun _ => push _
  refine context_bind fun m hm => ?_
  split
  · rename_i hstatic
    rcases checkElements_cases hm p.2 values with ⟨f, hcheck⟩ | ⟨hcheck, hbelongs⟩
    · rw [outcome_bind_error hcheck]
      exact hm
    · rw [outcome_bind_ok hcheck]
      exact (hbuilt values (hbelongs hstatic)).typed hm
  · split
    · rename_i hopen
      exact (hbuilt values (fun _ _ => .of_isInterface hopen)).typed hm
    · have hconverted : KeepsTyped ((values.mapM fun v => Exec.onObjects (Heap.coerce p.2 v)) >>=
          fun vs => do
            Exec.push (.array (← Exec.onHeap
              (Heap.newArray { element := p.2, values := vs.toArray })))) :=
        ScriptMachine.Upholds.bind (.mapM fun v _ => converted (Heap.Typed.coerce p.2 v)) hbuilt
      exact hconverted.typed hm

theorem makeArray : KeepsTyped Exec.makeArray := by
  refine popUnwrapped.bind fun v => popValue.bind fun _ => (check _).bind fun size =>
    objects_bind fun h hh => (onHeap (Heap.Typed.filled size ?_)).bind fun _ => push _
  split
  · exact .of_isInterface rfl
  · exact hh.belongs_typeOf v

theorem makeMap (operand : Value) : KeepsTyped (Exec.makeMap operand) := by
  refine (operandCount operand 0).bind fun _ => (popArgs _).bind fun _ => popValue.bind fun _ =>
    (check _).bind fun _ => popValue.bind fun _ => (check _).bind fun _ =>
    (onHeap (Heap.Typed.newMap (.empty _ _))).bind fun _ => ?_
  refine (forIn fun p => ?_).bind fun _ => push _
  exact (conform _ _).bind fun _ => (conform _ _).bind fun _ =>
    (onObjects (Heap.Typed.setEntry _ _ _)).bind fun _ => pure _

theorem typedStruct (t : Ty) (fields : List (String × Value)) :
    KeepsTyped (Exec.typedStruct t fields) := by
  unfold Exec.typedStruct
  split
  · exact fail _
  · rename_i hbase
    refine (onHeap (Heap.Typed.instantiate (not_not.1 hbase))).bind fun r => context.bind fun _ =>
      objects_bind fun h hh => (onHeap (Heap.Typed.putStruct r ?_)).bind fun _ => ?_
    · exact hh.struct r
    · exact (forIn fun p => (onObjects (Heap.Typed.setField _ _ _)).bind fun _ => pure _).bind
        fun _ => pure _

theorem makeStruct (operand : Value) : KeepsTyped (Exec.makeStruct operand) := by
  refine (operandCount operand 0).bind fun _ => (popArgs _).bind fun _ => heap.bind fun _ => ?_
  dsimp only
  split
  · refine (resolveType _).bind fun _ => (typedStruct _ _).bind fun r => objects_bind fun h hh =>
      (onHeap (Heap.Typed.putStruct r ?_)).bind fun _ => push _
    exact hh.struct r
  · refine (onHeap (Heap.Typed.ofFields _)).bind fun r => objects_bind fun h hh =>
      (onHeap (Heap.Typed.putStruct r ?_)).bind fun _ => push _
    exact hh.struct r

theorem explode : KeepsTyped Exec.explode := by
  refine popUnwrapped.bind fun v => ?_
  split
  · refine heap.bind fun _ => (forIn fun key => ?_).bind fun _ => pure _
    exact (check _).bind fun _ => (display _).bind fun _ => (storeHere _ _).bind fun _ => pure _
  · exact fail _

theorem flatten : KeepsTyped Exec.flatten := by
  refine popUnwrapped.bind fun v => ?_
  split
  · refine heap.bind fun _ => ?_
    dsimp only
    refine bind (modifyContext _) fun _ => ?_
    exact (forIn fun v => (push v).bind fun _ => pure _).bind fun _ => pure _
  · exact push _

/-! ### Names and pointers -/

theorem loadName (operand : Value) : KeepsTyped (Exec.loadName operand) :=
  (operandName operand).bind fun _ => (lookup _).bind fun _ => push _

theorem checkStoreType (name : String) (v : Value) : KeepsTyped (Exec.checkStoreType name v) := by
  refine get.bind fun m => ite ?_ (pure ())
  split
  · exact ite (fail _) (pure ())
  · exact pure ()

theorem storeName (operand : Value) : KeepsTyped (Exec.storeName operand) := by
  refine (operandName operand).bind fun name => popValue.bind fun v => ite (pure ()) ?_
  refine (checkStoreType name v).bind fun _ => ?_
  have hstore : KeepsTyped (Exec.store name v) := store name v
  exact (lookup? name).bind fun _ => ite ((fail _).bind fun _ => hstore) hstore

theorem storeAlways (operand : Value) : KeepsTyped (Exec.storeAlways operand) :=
  (operandName operand).bind fun name => popValue.bind fun v => storeHere name v

theorem storeGlobal (operand : Value) : KeepsTyped (Exec.storeGlobal operand) :=
  (operandName operand).bind fun name => popValue.bind fun v => storeIn .root name v

theorem createAndStore (operand : Value) : KeepsTyped (Exec.createAndStore operand) :=
  (operandName operand).bind fun name => popValue.bind fun v =>
    ite (pure ()) ((create name).bind fun _ => store name v)

theorem createSymbol (operand : Value) : KeepsTyped (Exec.createSymbol operand) :=
  (operandName operand).bind create

theorem createIfMissing (operand : Value) : KeepsTyped (Exec.createIfMissing operand) :=
  (operandName operand).bind fun name => get.bind fun _ =>
    ite (create name) (pure ())

theorem deleteSymbol (operand : Value) : KeepsTyped (Exec.deleteSymbol operand) :=
  (operandName operand).bind fun name => writeHere fun a id => a.delete id name false

theorem storeConstant (operand : Value) : KeepsTyped (Exec.storeConstant operand) :=
  (operandName operand).bind fun name => popValue.bind fun v =>
    writeHere fun a id => a.setConstant id name (.constant v.unwrapped)

theorem storeMethod (typeName method : String) (code : Code) :
    KeepsTyped (Exec.storeMethod typeName method code) := by
  refine (lookup typeName).bind fun v => ?_
  split
  · exact (note _ _).bind fun _ => onHeap (Heap.Typed.addMethod _ _ _)
  · exact fail _

theorem storeCode (operand : Value) : KeepsTyped (Exec.storeCode operand) := by
  refine (operandName operand).bind fun name => popUnwrapped.bind fun v => ?_
  split
  · split
    · exact storeMethod _ _ _
    · exact storeHere _ _
  · exact fail _

theorem addressOf (operand : Value) : KeepsTyped (Exec.addressOf operand) :=
  (operandName operand).bind fun _ => scopes.bind fun _ =>
    context.bind fun _ => (check _).bind fun _ => push _

theorem dereference : KeepsTyped Exec.dereference := by
  refine popUnwrapped.bind fun v => ?_
  split
  · exact fail _
  · exact scopes.bind fun _ => (check _).bind fun _ => push _
  · exact fail _

theorem storeThrough (operand : Value) : KeepsTyped (Exec.storeThrough operand) := by
  refine (operandName operand).bind fun name => (lookup name).bind fun v => ?_
  split
  · exact fail _
  · exact popValue.bind fun _ => scopes.bind fun _ => (check _).bind fun _ => setScopes _
  · exact fail _

/-! ### Members, receivers, packages and files -/

theorem memberOf (container : Value) (name : String) :
    KeepsTyped (Exec.memberOf container name) := by
  refine get.bind fun m => ?_
  dsimp only
  split
  · refine (check _).bind fun found => ?_
    split
    · exact pure _
    · exact check _
  · exact check _
  · exact check _
  · split
    · exact pure _
    · exact check _
  · exact check _

theorem member (operand : Value) : KeepsTyped (Exec.member operand) := by
  refine ite ?_ ?_
  · exact popValue.bind fun _ => (display _).bind fun _ => popUnwrapped.bind fun _ =>
      (memberOf _ _).bind fun _ => push _
  · exact (pure _).bind fun _ => (display _).bind fun _ => popUnwrapped.bind fun _ =>
      (memberOf _ _).bind fun _ => push _

theorem pushReceiver (name : String) (value : Value) : KeepsTyped (Exec.pushReceiver name value) :=
  (noteThread _ _).bind fun _ =>
    modifyContext _

theorem freshReceiverName : KeepsTyped (Exec.onWorld Exec.freshReceiverName) :=
  elsewhere fun _ => rfl

theorem setReceiver (operand : Value) : KeepsTyped (Exec.setReceiver operand) := by
  refine ite ?_ ?_
  · exact popValue.bind fun _ => (push _).bind fun _ => freshReceiverName.bind fun _ =>
      (storeHere _ _).bind fun _ => pushReceiver _ _
  · exact (operandName operand).bind fun _ => (lookup _).bind fun _ => pushReceiver _ _

theorem getReceiver (operand : Value) : KeepsTyped (Exec.getReceiver operand) := by
  refine (operandName operand).bind fun name =>
    context.bind fun c => ?_
  split
  · exact pure _
  · refine bind (modifyContext _) fun _ => ?_
    exact (noteThread _ _).bind fun _ => storeHere _ _

theorem loadReceiver : KeepsTyped Exec.loadReceiver := by
  refine context.bind fun c => ?_
  split
  · exact fail _
  · exact push _

theorem importPackage (operand : Value) : KeepsTyped (Exec.importPackage operand) := by
  refine (operandName operand).bind fun path => scopes.bind fun a => ?_
  dsimp only
  split
  · exact (noteThread _ _).bind fun _ => storeHere _ _
  · exact fail _

theorem enterPackage (operand : Value) : KeepsTyped (Exec.enterPackage operand) :=
  (operandName operand).bind fun _ =>
    modifyContext _

theorem enterFile (operand : Value) : KeepsTyped (Exec.enterFile operand) :=
  (operandName operand).bind fun _ =>
    modifyContext _

theorem readPath (path : String) : KeepsTyped (MonadState.get >>= fun m : Machine =>
    match m.world.files.read path with
    | .ok text => Exec.push (.string text)
    | .error reason =>
      Exec.fail (.about .invalidFileIdentifier s!"{path}: {reason.message}")) := by
  refine get.bind fun m => ?_
  split
  · exact push _
  · exact fail _

theorem readFile (operand : Value) : KeepsTyped (Exec.readFile operand) := by
  refine ite ?_ ?_
  · exact popValue.bind fun _ => (display _).bind readPath
  · exact (operandName operand).bind readPath

/-! ### Checks and conversions -/

theorem arguments : KeepsTyped Exec.arguments := by
  refine (lookup? _).bind fun found => ?_
  split
  · exact heap.bind fun _ => pure _
  · exact pure _

theorem argumentBounds (operand : Value) : KeepsTyped (Exec.argumentBounds operand) := by
  unfold Exec.argumentBounds
  split
  · exact heap.bind fun _ => (check _).bind fun _ => (check _).bind fun _ => pure _
  · exact (check _).bind fun _ => pure _

theorem argCheck (operand : Value) : KeepsTyped (Exec.argCheck operand) :=
  (argumentBounds operand).bind fun _ => arguments.bind fun _ => ite (fail _) (pure _)

theorem varArgs (operand : Value) : KeepsTyped (Exec.varArgs operand) :=
  (check _).bind fun _ => arguments.bind fun _ => pushList _

theorem modeCheck (operand : Value) : KeepsTyped (Exec.modeCheck operand) := by
  refine (operandName operand).bind fun wanted => (lookup? _).bind fun found => ?_
  split
  · exact fail _
  · exact ite ((display _).bind fun _ => fail _) (pure _)

theorem stackCheck (operand : Value) : KeepsTyped (Exec.stackCheck operand) :=
  (check _).bind fun _ => context.bind fun _ => ite (fail _) (pure _)

theorem operandType (operand : Value) : KeepsTyped (Exec.operandType operand) :=
  ite (fail _) (resolveType operand)

theorem requiredType (operand : Value) : KeepsTyped (Exec.requiredType operand) :=
  (operandType operand).bind fun _ => popUnwrapped.bind fun _ =>
    context.bind fun _ =>
    ite (heap.bind fun _ => ite (fail _) (push _))
      ((onObjects (Heap.Typed.coerce _ _)).bind fun _ => push _)

theorem coerceTop (operand : Value) : KeepsTyped (Exec.coerceTop operand) :=
  (operandType operand).bind fun _ => popValue.bind fun _ =>
    (onObjects (Heap.Typed.coerce _ _)).bind fun _ => push _

theorem staticTyping : KeepsTyped Exec.staticTyping := by
  refine popValue.bind fun v => (truthy v).bind fun on => ?_
  exact bind (modifyContext _) fun _ => storeHere _ _

/-! ### Output and the outside world -/

theorem print (operand : Value) : KeepsTyped (Exec.print operand) :=
  (operandCount operand 1).bind fun _ => (popArgs _).bind fun _ => heap.bind fun _ => output _

theorem say : KeepsTyped Exec.say := popValue.bind fun _ => (display _).bind fun _ => output _

theorem logValue (operand : Value) : KeepsTyped (Exec.logValue operand) := by
  refine (operandName operand).bind fun name => ?_
  split
  · exact fail _
  · exact popValue.bind fun _ => heap.bind fun _ => note _ _

theorem timer (operand : Value) : KeepsTyped (Exec.timer operand) := by
  refine (check _).bind fun n => ?_
  split
  · exact modifyContext _
  · have hstop : KeepsTyped (do
        Exec.modifyContext fun c => { c with timers := c.timers - 1 }
        Exec.push (.string Exec.elapsedText)) :=
      bind (modifyContext _) fun _ => push _
    exact context.bind fun c =>
      ite ((fail _).bind fun _ => hstop) hstop
  · exact fail _

theorem template (operand : Value) : KeepsTyped (Exec.template operand) := by
  refine (operandName operand).bind fun name => (lookup? name).bind fun found => ?_
  split
  · exact popValue.bind fun _ => heap.bind fun _ => (check _).bind fun _ => push _
  · exact fail _

theorem respond : KeepsTyped Exec.respond :=
  popUnwrapped.bind fun _ => heap.bind fun _ => (output _).bind fun _ => storeIn _ _ _

theorem isSet (name : String) : KeepsTyped (Exec.isSet name) := by
  refine (lookup? name).bind fun found => ?_
  split
  · exact truthy _
  · exact pure _

theorem authorize (operand : Value) : KeepsTyped (Exec.authorize operand) := by
  refine (operandName operand).bind fun _ => (isSet _).bind fun _ => (isSet _).bind fun _ =>
    (isSet _).bind fun _ => (check _).bind fun r => ?_
  split
  · exact pure _
  · exact bind (elsewhere fun _ => rfl) fun _ => (storeIn _ _ _).bind fun _ => fail _

/-! ### Channels and branches -/

theorem transfer (operand : Value) : KeepsTyped (Exec.transfer operand) := by
  refine (operandName operand).bind fun name => (lookup? name).bind fun found => ?_
  split
  · exact popValue.bind fun v => ofWorldAction (WorldAction.KeepsTyped.send _ v)
  · refine popUnwrapped.bind fun v => ?_
    split
    · exact (ofWorldAction (WorldAction.KeepsTyped.receive _)).bind fun _ => ite (store _ _) (pure _)
    · exact fail _

theorem branch (operand : Value) : KeepsTyped (Exec.branch operand) :=
  (branchTarget operand).bind fun _ =>
    modifyContext _

theorem branchIf (wanted : Bool) (operand : Value) : KeepsTyped (Exec.branchIf wanted operand) :=
  (branchTarget operand).bind fun _ => popValue.bind fun _ => (truthy _).bind fun _ =>
    ite (modifyContext _) (pure _)

theorem panic : KeepsTyped Exec.panic :=
  pop.bind fun _ => (display _).bind fun _ => fail _

end KeepsTyped

end Exec

end ScriptMachine
