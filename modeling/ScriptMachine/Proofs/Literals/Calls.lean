import ScriptMachine.Proofs.Literals.Frames

/-!
# Calls apart from literals

Loops, calls, returns and tasks keep a machine apart from the literals of its code, and so does every
instruction.

* `Upholds.beginLoop`, `Upholds.nextRound`: loops.
* `Upholds.callValue`, `Upholds.continueReturn`, `Upholds.afterScratch`: calls.
* `Upholds.go`, `Upholds.await`: tasks.
* `Upholds.execute`: all instructions whose operand spells a literal.
-/

namespace ScriptMachine

namespace Exec.Upholds

variable {L : Literals} {v w : Value}

/-! ### Loops -/

theorem createLoopName (name : String) : Upholds L (Exec.createLoopName name) fun _ => True :=
  .bind .get fun _ _ => .ite (create name) (.pure trivial)

theorem walkOver (hv : v.Apart L) : Upholds L (Exec.walkOver v) (Walked.Apart L) := by
  unfold Exec.walkOver
  split
  · exact .pure trivial
  · rename_i r
    refine .bind heap fun h hh => ?_
    split
    · rename_i m hm
      have hobject : m.Apart L := by
        have hread := hh.map hv
        rwa [Heap.map, hm] at hread
      exact .bind (onHeap (Heap.Apart.putMap hv hobject)) fun _ _ =>
        .pure ⟨hv, MapObject.Apart.keys m⟩
    · exact .pure trivial
  · rename_i r
    refine .bind heap fun h hh => ?_
    split
    · rename_i a ha
      have hobject : a.Apart L := by
        have hread := hh.array hv
        rwa [Heap.array, ha] at hread
      exact .bind (onHeap (Heap.Apart.putArray hv hobject)) fun _ _ => .pure hv
    · exact .pure trivial
  · exact .pure trivial
  · exact fail _

theorem beginLoop (operand : Value) : Upholds L (Exec.beginLoop operand) fun _ => True :=
  .bind heap fun _ _ => .bind (createLoopName _) fun _ _ => .bind (createLoopName _) fun _ _ =>
    .bind popUnwrapped fun _ hv => .bind (walkOver hv) fun _ hwalked =>
    modifyContext fun _ hc => { hc with loops := List.forall_mem_cons.2 ⟨hwalked, hc.loops⟩ }

theorem nextOf {l : Loop} (hl : l.walked.Apart L) :
    Upholds L (Exec.nextOf l) fun next => ∀ p, next = some p → p.1.Apart L ∧ p.2.Apart L := by
  obtain ⟨index, value, walked, position⟩ := l
  refine .bind heap fun h hh => ?_
  cases walked with
  | runes items =>
    refine .pure fun p hp => ?_
    obtain ⟨r, -, rfl⟩ := Option.map_eq_some_iff.1 hp
    exact ⟨.ofNat _, .plain rfl rfl⟩
  | map r keys =>
    dsimp only
    split
    · exact .pure fun _ h => absurd h (Option.some_ne_none _).symm
    · rename_i key hkey
      refine .bind (lift ((hh.map hl.1).get key)) fun found hfound => .pure ?_
      rintro _ ⟨⟩
      refine ⟨hl.2 key (List.mem_of_getElem? hkey), ?_⟩
      cases found with
      | none => exact .plain rfl rfl
      | some u => exact hfound u rfl
  | array r =>
    refine .pure fun p hp => ?_
    obtain ⟨u, hu, rfl⟩ := Option.map_eq_some_iff.1 hp
    exact ⟨.ofNat _, hh.array hl u (Array.mem_of_getElem? hu)⟩
  | channel r =>
    refine .ite (.pure fun _ h => absurd h (Option.some_ne_none _).symm)
      (.bind (ofWorldAction (WorldAction.Upholds.receive r)) fun u hu => ?_)
    refine .pure ?_
    rintro _ ⟨⟩
    exact ⟨.ofNat _, hu⟩

theorem storeLoopName (name : String) (hv : v.Apart L) :
    Upholds L (Exec.storeLoopName name v) fun _ => True := .ite (store name hv) (.pure trivial)

theorem nextRound (operand : Value) : Upholds L (Exec.nextRound operand) fun _ => True := by
  refine .bind (branchTarget operand) fun leave _ => .bind context fun c hc => ?_
  split
  · exact modifyContext fun _ hc => { hc with }
  · rename_i l rest hloops
    have hall := hc.loops
    rw [hloops] at hall
    obtain ⟨hl, hrest⟩ := List.forall_mem_cons.1 hall
    refine .bind (nextOf hl) fun next hnext => ?_
    split
    · exact .bind (modifyContext fun _ hc => { hc with loops := hrest }) fun _ _ => release hl
    · obtain ⟨hindex, hvalue⟩ := hnext _ rfl
      exact .bind (modifyContext fun _ hc => { hc with
        loops := List.forall_mem_cons.2 ⟨hl, hrest⟩ }) fun _ _ =>
        .bind (storeLoopName _ hindex) fun _ _ => storeLoopName _ hvalue

/-! ### Calls -/

theorem checkTypes (parameters : List Parameter) (args : List Value) :
    Upholds L (do
      let m ← get
      if m.context.staticTypes then
        for (p, v) in parameters.zip args do
          if !p.type.accepts (m.world.heap.typeOf v) then
            Exec.fail (.about .argumentType p.name)
      : Exec Unit) fun _ => True := by
  refine .bind .get fun m _ => .ite ?_ (.pure trivial)
  exact .bind (.forIn fun p _ => .ite (.bind (fail _) fun _ (_ : True) => .pure trivial)
    (.pure trivial)) fun _ _ => .pure trivial

theorem checkArguments (d : Declaration) (args : List Value) :
    Upholds L (Exec.checkArguments d args) fun _ => True :=
  .ite (.bind (fail _) fun _ (_ : True) => checkTypes _ args) (checkTypes _ args)

theorem checkCall (code : Code) (args : List Value) :
    Upholds L (Exec.checkCall code args) fun _ => True := by
  unfold Exec.checkCall
  split
  · exact checkArguments _ _
  · exact .pure trivial

variable {args : List Value}

theorem bindArgs (hargs : ∀ v ∈ args, v.Apart L) :
    Upholds L (Exec.bindArgs args) fun _ => True :=
  .bind (onHeap (Heap.Apart.newList hargs)) fun _ hv => storeHere _ hv

theorem callCode {code : Code} (hcode : code.Spells L) (hargs : ∀ v ∈ args, v.Apart L) :
    Upholds L (Exec.callCode code args) fun _ => True :=
  .bind (checkCall _ _) fun _ _ => .bind context fun _ _ => .bind (enterChild _ hcode _ _) fun _ _ =>
    bindArgs hargs

theorem storeAllIn (table : TableId) {bindings : List (String × Value)}
    (h : ∀ p ∈ bindings, p.2.Apart L) :
    Upholds L (Exec.storeAllIn table bindings) fun _ => True :=
  .bind (.forIn fun p hp => .bind (storeIn _ _ (h p hp)) fun _ _ => .pure trivial) fun _ _ =>
    .pure trivial

theorem callMember (package : Ref .package) {code : Code} (hcode : code.Spells L)
    (hargs : ∀ v ∈ args, v.Apart L) :
    Upholds L (Exec.callMember package code args) fun _ => True := by
  have henter : ∀ (scope : TableId) (name : String), Upholds L (do
      let table ← Exec.onWorld (World.newChild code.name scope false)
      Exec.pushFrame code.name table code 0
      Exec.modifyContext fun c => { c with package := name }
      Exec.storeIn table "__args" (← Exec.onHeap (Heap.newList args))) fun _ => True :=
    fun scope name => .bind (newTable _ _ _) fun table _ => .bind (pushFrame _ _ hcode _) fun _ _ =>
      .bind (modifyContext fun _ hc => { hc with }) fun _ _ =>
      .bind (onHeap (Heap.Apart.newList hargs)) fun _ hv => storeIn table _ hv
  refine .bind (checkCall _ _) fun _ _ => .bind heap fun h hh => .bind context fun c _ =>
    .bind (newTable _ _ _) fun scope _ => .bind scopes fun a ha =>
    .bind (lift (labelled ha scope _)) fun b hb => .bind (setScopes hb) fun _ _ =>
    .bind (storeAllIn scope (hh.package package)) fun _ _ => ?_
  split
  · exact .bind scopes fun a ha => .bind (storeAllIn scope (ha.localSymbols _)) fun _ _ =>
      henter scope _
  · exact henter scope _

/-! ### Library functions and types -/

theorem setFields {r : Ref .struct} (hr : (Value.struct r).Apart L)
    {fields : List (String × Value)} (h : ∀ p ∈ fields, p.2.Apart L) :
    Upholds L (Exec.setFields r fields) fun _ => True :=
  .bind (.forIn fun p hp => .bind (onObjects (Heap.Apart.setField hr _ (h p hp))) fun _ _ =>
    .pure trivial) fun _ _ => .pure trivial

theorem setFieldsFrom {r : Ref .struct} (hr : (Value.struct r).Apart L) {source : MapObject}
    (hsource : source.Apart L) : Upholds L (Exec.setFieldsFrom r source) fun _ => True := by
  refine .bind (.forIn fun key _ => .bind (lift (hsource.get key)) fun found hfound =>
    .bind heap fun _ _ => .bind (onObjects (Heap.Apart.setField hr _ ?_)) fun _ _ =>
    .pure trivial) fun _ _ => .pure trivial
  cases found with
  | none => exact .plain rfl rfl
  | some u => exact hfound u rfl

theorem initialised (t : Ty) {fresh init : Value} (hfresh : fresh.Apart L) (hinit : init.Apart L) :
    Upholds L (Exec.initialised t fresh init) (Value.Apart L) := by
  unfold Exec.initialised
  split
  · exact .bind heap fun h hh => .bind (setFieldsFrom hfresh (hh.map hinit)) fun _ _ => .pure hfresh
  · refine .bind heap fun h hh => .bind (setFields hfresh fun p hp => ?_) fun _ _ => .pure hfresh
    exact hh.struct hinit p (List.mem_filter.1 hp).1
  · exact .bind (onObjects (Heap.Apart.mergeEntries hfresh hinit)) fun _ _ => .pure hfresh
  · exact onObjects (Heap.Apart.coerce t hinit)

theorem construct (t : Ty) (hargs : ∀ v ∈ args, v.Apart L) :
    Upholds L (Exec.construct t args) fun _ => True := by
  refine .bind (onHeap (Heap.Apart.zeroValue t)) fun fresh hfresh => ?_
  split
  · exact push hfresh
  · exact .bind (initialised t hfresh (hargs _ List.mem_cons_self).unwrapped) fun _ hv => push hv
  · exact fail _

/-! ### Contexts of their own -/

theorem newContext (symbols : TableId) {code : Code} (hcode : code.Spells L) (settings : Settings) :
    Maintains (World.Apart L) (World.newContext symbols code settings) (Context.Apart L) :=
  .bind (P := fun _ => True) (fun _ hw => ⟨⟨hw.heap, hw.scopes⟩, trivial⟩) fun _ _ =>
    .bind (World.Apart.note _ _) fun _ _ => .bind .get fun _ _ =>
    .pure ⟨hcode, nofun, nofun, nofun, nofun, nofun⟩

theorem callContext (symbols : TableId) (settings : Settings) {callable : Value}
    (hcallable : callable.Apart L) (hargs : ∀ v ∈ args, v.Apart L) :
    Maintains (World.Apart L) (World.callContext symbols settings callable args)
      (Context.Apart L) := by
  have hcode : ∀ name, Code.Spells L ⟨name, #[⟨.call, .ofNat args.length⟩, .plain .stop], none,
      true, false⟩ := by
    refine fun name => .operands 0 fun i hi => ?_
    rcases List.mem_pair.1 (Array.mem_toList_iff.2 hi) with rfl | rfl
    · exact .apart (.ofNat _)
    · exact .apart (.plain rfl rfl)
  refine .bind .get fun w _ => .bind (newContext _ (hcode _) _) fun c hc =>
    .pure { hc with stack := fun s hs => ?_ }
  obtain ⟨v, hv, rfl⟩ := List.mem_map.1 (List.mem_toArray.1 hs)
  exact (List.forall_mem_cons.2 ⟨hcallable, hargs⟩ : ∀ v ∈ callable :: args, v.Apart L) v hv

theorem start {c : Context} (hc : c.Apart L) (pc : Nat) :
    Maintains (World.Apart L) (World.start c pc) (Context.Apart L) :=
  .bind (World.Apart.note _ _) fun _ _ => .pure { hc with }

theorem enterScratch {scratch : Context} {awaiting : Awaiting} (hscratch : scratch.Apart L)
    (hawaiting : awaiting.Apart L) :
    Upholds L (Exec.enterScratch scratch awaiting) fun _ => True :=
  .bind (onWorld (start hscratch 0)) fun _ hstarted => ScriptMachine.Upholds.write fun _ hm =>
    { hm with
      context := hstarted
      suspended := List.forall_mem_cons.2 ⟨⟨hm.context, hawaiting⟩, hm.suspended⟩ }

theorem settleLibraryFault (f : Native) (fault : Fault) :
    Upholds L (Exec.settleLibraryFault f fault) fun _ => True :=
  .bind context fun _ _ => .ite (fail _) (.bind (noteThread _ _) fun _ _ => pushPlain rfl rfl)

section

variable {r : Ref .array} {less : Value} (hr : (Value.array r).Apart L) (hless : less.Apart L)

include hr

theorem exchange (j : Nat) :
    ScriptMachine.Upholds (Heap.Apart L) (Exec.exchange r j) fun _ => True :=
  .bind .get fun _ hh => .bind (.ofExcept ((hh.array hr).get j)) fun _ hupper =>
    .bind (.ofExcept ((hh.array hr).get (j - 1))) fun _ hlower =>
    .bind (Heap.Apart.setElement hr _ hlower) fun _ _ => Heap.Apart.setElement hr _ hupper

include hless

theorem askOrdering (size i j : Nat) :
    Upholds L (Exec.askOrdering r less size i j) fun _ => True := by
  refine .bind context fun _ _ => .bind (onWorld (callContext _ _ hless ?_)) fun _ hscratch =>
    enterScratch hscratch ⟨hr, hless⟩
  intro v hv
  rcases List.mem_pair.1 hv with rfl | rfl
  · exact .ofNat _
  · exact .ofNat _

theorem sortNext (size i : Nat) : Upholds L (Exec.sortNext r less size i) fun _ => True :=
  .ite (askOrdering hr hless _ _ _) (pushPlain rfl rfl)

theorem sortAfter (size i j : Nat) (goesFirst : Bool) :
    Upholds L (Exec.sortAfter r less size i j goesFirst) fun _ => True := by
  refine .ite (.bind (P := fun _ => True) (onHeap fun h hh => ?_) fun result _ => ?_)
    (sortNext hr hless _ _)
  · exact ⟨(exchange hr j h hh).1, trivial⟩
  · split
    · exact .ite (askOrdering hr hless _ _ _) (sortNext hr hless _ _)
    · exact settleLibraryFault _ _

end

theorem beginSort (hargs : ∀ v ∈ args, v.Apart L) :
    Upholds L (Exec.beginSort args) fun _ => True := by
  have harg : ∀ i, (args.getD i .null).Apart L := by
    intro i
    rw [List.getD_eq_getElem?_getD]
    cases hi : args[i]? with
    | none => exact .plain rfl rfl
    | some v => exact hargs v (List.mem_of_getElem? hi)
  have hfirst : (args.headD .null).unwrapped.Apart L := by
    rw [List.headD_eq_getD]
    exact (harg 0).unwrapped
  unfold Exec.beginSort
  dsimp only
  split
  · rename_i r hr
    exact .bind heap fun _ _ => sortNext (hr ▸ hfirst) (harg 1) _ _
  · exact settleLibraryFault _ _

theorem callNative (f : Native) {receiver : Option Value}
    (hreceiver : ∀ v, receiver = some v → v.Apart L) (hargs : ∀ v ∈ args, v.Apart L) :
    Upholds L (Exec.callNative f receiver args) fun _ => True := by
  refine .ite (fail _) (.ite (beginSort hargs) ?_)
  refine .bind (P := (Ensures · (Value.Apart L)))
    (onWorld (WorldAction.Upholds.apply f hreceiver hargs)) fun result hresult => ?_
  split
  · exact push (hresult _ rfl)
  · exact settleLibraryFault _ _
  · exact wait

theorem callValue (hv : v.Apart L) (hargs : ∀ v ∈ args, v.Apart L) :
    Upholds L (Exec.callValue v args) fun _ => True := by
  unfold Exec.callValue
  split
  · exact callCode hv.of_code hargs
  · cases hv with
    | plain hplain => cases hplain
    | member hcode => exact callMember _ hcode hargs
  · cases hv with
    | plain hplain => cases hplain
    | native hreceiver => exact callNative _ hreceiver hargs
  · exact construct _ hargs
  · exact fail _

/-! ### Calls and returns -/

theorem popCall (count : Nat) :
    Upholds L (Exec.popCall count) fun p => p.1.Apart L ∧ ∀ v ∈ p.2, v.Apart L :=
  .bind (popArgs count) fun _ hargs => .bind popUnwrapped fun _ hv => .pure ⟨hv, hargs⟩

theorem call (operand : Value) : Upholds L (Exec.call operand) fun _ => True :=
  .bind (operandCount operand 0) fun _ _ => .bind context fun _ _ =>
    .bind (modifyContext fun _ hc => { hc with }) fun _ _ => .bind (popCall _) fun _ hp =>
    callValue hp.1 hp.2

theorem localCall (operand : Value) : Upholds L (Exec.localCall operand) fun _ => True :=
  .bind (branchTarget operand) fun _ _ => .bind context fun _ hc => enterChild _ hc.code _ _

theorem deferCall (operand : Value) : Upholds L (Exec.deferCall operand) fun _ => True :=
  .bind (operandCount operand 0) fun _ _ => .bind (popCall _) fun _ hp =>
    modifyContext fun _ hc => { hc with
      deferred := List.forall_mem_cons.2 ⟨⟨hp.1, hp.2⟩, hc.deferred⟩ }

theorem continueReturn : Upholds L Exec.continueReturn fun _ => True := by
  refine .bind context fun c hc => ?_
  split
  · rename_i d rest hdeferred
    have hall := hc.deferred
    rw [hdeferred] at hall
    obtain ⟨hd, hrest⟩ := List.forall_mem_cons.1 hall
    exact .bind (modifyContext fun _ hc => { hc with deferred := hrest }) fun _ _ =>
      .bind (noteThread _ _) fun _ _ => .bind (onWorld (callContext _ _ hd.callable hd.args))
      fun _ hscratch => .bind (modifyContext fun _ hc => { hc with }) fun _ _ =>
      enterScratch { hscratch with } trivial
  · exact .ite popFrame (modifyContext fun _ hc => { hc with })

theorem return_ (operand : Value) : Upholds L (Exec.return_ operand) fun _ => True := by
  unfold Exec.return_
  split
  · refine .bind popValue fun v hv => .bind (modifyContext fun _ hc => { hc with result := ?_ })
      fun _ _ => continueReturn
    rintro _ ⟨⟩
    exact hv
  · exact continueReturn

theorem entryPoint (operand : Value) : Upholds L (Exec.entryPoint operand) fun _ => True :=
  .bind (lookup _) fun _ hv => callValue hv.unwrapped nofun

theorem afterScratch {awaiting : Awaiting} (hawaiting : awaiting.Apart L) (scratch : Context)
    (result : Except Fault Unit) :
    Upholds L (Exec.afterScratch awaiting scratch result) fun _ => True := by
  unfold Exec.afterScratch
  split
  · refine .bind (modifyContext fun _ hc => { hc with }) fun _ _ => ?_
    split
    · exact continueReturn
    · exact fail _
  · split
    · exact .bind heap fun _ _ => sortAfter hawaiting.1 hawaiting.2 _ _ _ _
    · exact settleLibraryFault _ _

/-! ### Tasks -/

theorem go (operand : Value) : Upholds L (Exec.go operand) fun _ => True := by
  refine .bind (operandCount operand 0) fun _ _ => .bind (popArgs _) fun args hargs =>
    .bind popUnwrapped fun v hv => .bind heap fun _ _ => .bind (noteThread _ _) fun _ _ =>
    ScriptMachine.Upholds.write fun m hm => { hm with context := { hm.context with }, tasks := ?_ }
  exact fun t ht => (Array.mem_push.1 ht).elim (hm.tasks t) fun heq => heq ▸ ⟨hv, hargs⟩

theorem joinTasks : Upholds L Exec.joinTasks fun _ => True := by
  refine .bind .get fun m _ => ?_
  split
  · exact wait
  · refine .bind (modifyContext fun _ hc => { hc with }) fun _ _ => ?_
    split
    · exact fail _
    · exact .pure trivial

theorem awaitTarget (target : Option Value) : Upholds L (
    match target.map Value.unwrapped with
    | some (.waitGroup r) => Exec.ofWorldAction (WorldAction.awaitZero r)
    | _ => Exec.joinTasks) fun _ => True := by
  split
  · exact ofWorldAction (WorldAction.Upholds.awaitZero _)
  · exact joinTasks

theorem await (operand : Value) : Upholds L (Exec.await operand) fun _ => True := by
  unfold Exec.await
  split
  · exact .bind (.pure trivial) fun target (_ : True) => awaitTarget target
  · exact .bind (lookup? _) fun target _ => awaitTarget target
  · exact .bind (.pure trivial) fun target (_ : True) => awaitTarget target

/-! ### Instructions -/

theorem begin (i : Instruction) : Upholds L (Exec.begin i) fun _ => True :=
  .bind context fun _ _ => .bind (modifyContext fun _ hc => { hc with }) fun _ _ =>
    .bind context fun _ _ => .bind (observe _) fun _ _ =>
    .bind (modifyContext fun _ hc => { hc with }) fun _ _ => .bind .get fun _ _ => note _ _

/-- **Every instruction** whose operand spells a literal keeps the machine apart from literals. -/
theorem execute {i : Instruction} {n : Nat} (hoperand : i.operand.Spells L n) :
    Upholds L (Exec.execute i) fun _ => True := by
  obtain ⟨op, operand⟩ := i
  cases op with
  | stop => exact fail _
  | atLine => exact atLine _
  | add => exact add
  | addressOf => exact addressOf _
  | and => exact conjunction
  | argCheck => exact argCheck _
  | array => exact array _
  | auth => exact authorize _
  | bitAnd => exact bitOperator _
  | bitOr => exact bitOperator _
  | bitShift => exact bitShift
  | call => exact call _
  | coerce => exact coerceTop _
  | constant => exact storeConstant _
  | copy => exact copyTop
  | createAndStore => exact createAndStore _
  | defer => exact deferCall _
  | dereference => exact dereference
  | div => exact calculateWith _
  | drop => exact drop _
  | dropToMarker => exact dropToMarker
  | dup => exact duplicate
  | entryPoint => exact entryPoint _
  | equal => exact equality _
  | exp => exact power
  | explode => exact explode
  | flatten => exact flatten
  | fromFile => exact readFile _
  | getThis => exact getReceiver _
  | getVarArgs => exact varArgs _
  | go => exact go _
  | greaterThan => exact compareWith _
  | greaterThanOrEqual => exact compareWith _
  | «import» => exact importPackage _
  | inFile => exact enterFile _
  | inPackage => exact enterPackage _
  | lessThan => exact compareWith _
  | lessThanOrEqual => exact compareWith _
  | load => exact loadName _
  | loadIndex => exact loadIndex
  | loadSlice => exact loadSlice
  | loadThis => exact loadReceiver
  | log => exact logValue _
  | makeArray => exact makeArray
  | makeMap => exact makeMap _
  | member => exact member _
  | modeCheck => exact modeCheck _
  | modulo => exact calculateWith _
  | mul => exact mul
  | negate => exact negate
  | newline => exact output _
  | noOperation => exact .pure trivial
  | notEqual => exact equality _
  | or => exact disjunction
  | panic => exact panic
  | popPackage => exact popPackage
  | popScope => exact popScope
  | print => exact print _
  | push => exact pushLiteral hoperand
  | pushPackage => exact pushPackage _
  | pushScope => exact pushScope
  | rangeInit => exact beginLoop _
  | readStack => exact readStack _
  | requiredType => exact requiredType _
  | response => exact respond
  | «return» => exact return_ _
  | say => exact say
  | setThis => exact setReceiver _
  | stackCheck => exact stackCheck _
  | staticTyping => exact staticTyping
  | store => exact storeName _
  | storeAlways => exact storeAlways _
  | storeBytecode => exact storeCode _
  | storeChan => exact transfer _
  | storeGlobal => exact storeGlobal _
  | storeIndex => exact storeIndex
  | storeInto => exact storeInto
  | storeViaPointer => exact storeThrough _
  | struct => exact makeStruct _
  | sub => exact sub
  | swap => exact swap
  | symbolCreate => exact createSymbol _
  | symbolDelete => exact deleteSymbol _
  | symbolOptCreate => exact createIfMissing _
  | template => exact template _
  | timer => exact timer _
  | tryPop => exact disarm
  | wait => exact await _
  | willCatch => exact narrow _
  | branchInstructions => exact fail _
  | branch => exact branch _
  | branchTrue => exact branchIf _ _
  | branchFalse => exact branchIf _ _
  | localCall => exact localCall _
  | rangeNext => exact nextRound _
  | «try» => exact arm _

end Exec.Upholds

end ScriptMachine
