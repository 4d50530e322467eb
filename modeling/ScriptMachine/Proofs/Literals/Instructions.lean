import ScriptMachine.Proofs.Literals.Machines
import ScriptMachine.Machine.Step

/-!
# Instructions apart from literals

What instructions do on operands, names, objects and output keeps a machine apart from the literals
of its code. `Push` copies its operand; the other instructions take no value from theirs.

* `Ensures.arithmetic` and companions: what operators make of scalars.
* `Upholds.pushLiteral`, `Upholds.add`, `Upholds.loadIndex` and companions: one lemma for each action
  of an instruction.
-/

namespace ScriptMachine

variable {L : Literals} {v w : Value}

/-! ### Operators -/

namespace Value.Apart

theorem arithmetic (op : Operation) (v w : Value) :
    Ensures (ScriptMachine.arithmetic op v w) (Value.Apart L) := by
  unfold ScriptMachine.arithmetic
  split
  · exact .map fun _ => .plain rfl rfl
  · exact .map fun _ => .plain rfl rfl
  · split
    · exact .bind (.any _) fun _ _ => .bind (.any _) fun _ _ => .bind (.any _) fun _ _ =>
        .ok (.ofInt64 _ _)
    · exact .error _

theorem calculate (op : Operation) (v w : Value) :
    Ensures (ScriptMachine.calculate op v w) (Value.Apart L) :=
  .bind (.any _) fun _ _ => arithmetic op _ _

theorem raised (v w : Value) : Ensures (ScriptMachine.raised v w) (Value.Apart L) := by
  unfold ScriptMachine.raised
  split
  · exact .ok (.plain rfl rfl)
  · exact .ok (.plain rfl rfl)
  · split
    · refine .bind (.any _) fun _ _ => .bind (.any _) fun _ _ => ?_
      split
      · exact .ok (.plain rfl rfl)
      · split
        · exact .ok (.ofInt64 _ _)
        · exact .error _
    · exact .error _

theorem bitwise (f : Int64 → Int64 → Int64) (v w : Value) :
    Ensures (ScriptMachine.bitwise f v w) (Value.Apart L) :=
  .bind (.any _) fun _ _ => .ite (.bind (.any _) fun _ _ => .bind (.any _) fun _ _ =>
    .ok (ofInt64 _ _)) (.error _)

theorem shifted (v w : Value) : Ensures (ScriptMachine.shifted v w) (Value.Apart L) := by
  have hrest : ∀ n : Int64, Ensures (do
      let x ← v.toInt64
      return Value.ofInt64 v.kind (if n < 0 then x <<< (-n) else x >>> n)) (Value.Apart L) :=
    fun n => .bind (.any _) fun _ _ => .ok (ofInt64 _ _)
  have hbounded : Ensures (do
      let n ← w.toInt64
      if n.toInt < -63 ∨ 63 < n.toInt then
        throw (.about .invalidValue s!"bit shift {n.toInt}")
      let x ← v.toInt64
      return Value.ofInt64 v.kind (if n < 0 then x <<< (-n) else x >>> n)) (Value.Apart L) :=
    .bind (.any _) fun n _ => .ite (.bind (.any _) fun _ _ => hrest n) (hrest n)
  exact .ite (.bind (.any _) fun _ _ => hbounded) hbounded

theorem negated (v : Value) : Ensures (ScriptMachine.negated v) (Value.Apart L) := by
  unfold ScriptMachine.negated
  split <;> first | exact .ok (.plain rfl rfl) | exact .error _

end Value.Apart

namespace Exec.Upholds

/-! ### The operand stack -/

/-- What is pushed is a copy, apart from the literal. -/
theorem pushLiteral {n : Nat} (hv : v.Spells L n) :
    Upholds L (Exec.pushLiteral v) fun _ => True := by
  refine .bind (onHeap (P := Value.Apart L) fun h hh => ?_) fun w hw => push hw
  have hcopied := hv.unwrapped.deepCopy hh
  exact ⟨hcopied.apart, hcopied.fresh⟩

theorem dropMany (count : Nat) : Upholds L (Exec.dropMany count) fun _ => True := by
  induction count with
  | zero => exact .pure trivial
  | succ count ih =>
    exact .bind (.bind pop fun _ _ => .pure trivial) fun _ (_ : True) => ih

theorem drop (operand : Value) : Upholds L (Exec.drop operand) fun _ => True :=
  .bind (operandCount operand 1) fun count _ => dropMany count

theorem dropToMarkerWithin (steps : Nat) :
    Upholds L (Exec.dropToMarkerWithin steps) fun _ => True := by
  induction steps with
  | zero => exact .pure trivial
  | succ steps ih =>
    refine .bind context fun c _ => ?_
    split
    · exact .bind pop fun _ _ => .ite ih (.pure trivial)
    · exact .pure trivial

theorem dropToMarker : Upholds L Exec.dropToMarker fun _ => True :=
  .bind context fun _ _ => dropToMarkerWithin _

theorem duplicate : Upholds L Exec.duplicate fun _ => True := .bind peek fun _ hv => push hv

theorem copyTop : Upholds L Exec.copyTop fun _ => True :=
  .bind pop fun _ hv => .bind (onHeap (Heap.Apart.deepCopy hv)) fun _ hw => push hw

theorem swap : Upholds L Exec.swap fun _ => True :=
  .bind pop fun _ hupper => .bind pop fun _ hlower => .bind (push hupper) fun _ _ => push hlower

theorem readStack (operand : Value) : Upholds L (Exec.readStack operand) fun _ => True := by
  refine .ite ?_ ?_
  · refine .bind popValue fun v hv => modifyContext fun _ hc => { hc with result := ?_ }
    rintro _ ⟨⟩
    exact hv
  · refine .bind (check _) fun depth _ => .bind context fun c hc => ?_
    dsimp only
    split
    · rename_i v hv
      exact push (slotValues (operands hc) v (List.mem_reverse.1 (List.mem_of_getElem? hv)))
    · exact fail _

/-! ### Operators -/

theorem popOperands : Upholds L Exec.popOperands fun p => p.1.Apart L ∧ p.2.Apart L :=
  .bind popUnwrapped fun _ hb => .bind popUnwrapped fun _ ha => .ite (fail _) (.pure ⟨ha, hb⟩)

theorem checkElements (element : Ty) (values : List Value) :
    Upholds L (Exec.checkElements element values) fun _ => True := by
  refine .bind .get fun m _ => .ite ?_ (.pure trivial)
  split
  · exact fail _
  · exact .pure trivial

theorem pushLike (r : Ref .array) {values : Array Value} (h : ∀ v ∈ values, v.Apart L) :
    Upholds L (Exec.pushLike r values) fun _ => True :=
  .bind heap fun _ _ => .bind (onHeap (Heap.Apart.newArray h)) fun _ hr => push hr

/-- A scalar that an operator makes of scalars. -/
theorem pushResult {r : Except Fault Value} (h : Ensures r (Value.Apart L)) :
    Upholds L (do Exec.push (← (liftM r : Exec Value))) fun _ => True :=
  .bind (lift h) fun _ hv => push hv

theorem pushPlain (hplain : v.isPlain = true) (hnone : L.contents? v = none) :
    Upholds L (Exec.push v) fun _ => True := push (.plain hplain hnone)

theorem add : Upholds L Exec.add fun _ => True := by
  refine .bind popOperands fun p hp => ?_
  split
  · exact .bind (display _) fun _ _ => pushPlain rfl rfl
  · refine .bind heap fun h hh => .bind (checkElements _ _) fun _ _ => pushLike _ fun v hv => ?_
    exact (Array.mem_append.1 hv).elim (hh.array hp.1 v) (hh.array hp.2 v)
  · refine .bind heap fun h hh => .bind (checkElements _ _) fun _ _ => pushLike _ fun v hv => ?_
    exact (Array.mem_push.1 hv).elim (hh.array hp.1 v) fun heq => heq ▸ hp.2
  · refine .bind (onHeap (Heap.Apart.deepCopy hp.1)) fun copy hcopy => ?_
    split
    · exact .bind (onObjects (Heap.Apart.mergeEntries hcopy hp.2)) fun _ _ => push hcopy
    · exact push hcopy
  · exact fail _
  · refine .bind (lift (hp.1.normalize hp.2)) fun q hq => ?_
    split
    · exact pushPlain rfl rfl
    · exact pushPlain rfl rfl
    · exact pushResult (Value.Apart.arithmetic _ _ _)

theorem sub : Upholds L Exec.sub fun _ => True := by
  refine .bind popOperands fun p hp => ?_
  split
  · refine .bind heap fun h hh => pushLike _ fun v hv => hh.array hp.1 v ?_
    exact (Array.mem_filter.1 hv).1
  · refine .bind (lift (hp.1.normalize hp.2)) fun q hq => ?_
    split
    · exact pushPlain rfl rfl
    · exact pushResult (Value.Apart.arithmetic _ _ _)

theorem mul : Upholds L Exec.mul fun _ => True := by
  refine .bind popOperands fun p hp => .bind (check _) fun q _ => ?_
  split
  · exact pushPlain rfl rfl
  · exact pushResult (Value.Apart.arithmetic _ _ _)

theorem calculateWith (op : Operation) : Upholds L (Exec.calculateWith op) fun _ => True :=
  .bind popOperands fun _ _ => pushResult (Value.Apart.calculate op _ _)

theorem power : Upholds L Exec.power fun _ => True :=
  .bind popOperands fun _ _ => .bind (check _) fun _ _ => pushResult (Value.Apart.raised _ _)

theorem conjunction : Upholds L Exec.conjunction fun _ => True :=
  .bind popOperands fun _ _ => .bind heap fun _ _ => pushPlain rfl rfl

theorem disjunction : Upholds L Exec.disjunction fun _ => True :=
  .bind popOperands fun _ _ => .bind heap fun _ _ => pushPlain rfl rfl

theorem negate : Upholds L Exec.negate fun _ => True := by
  refine .bind popUnwrapped fun v hv => ?_
  split
  · exact .bind heap fun h hh => .bind (onHeap (Heap.Apart.newArray (hh.array hv).reversed))
      fun _ hr => push hr
  · exact pushResult (Value.Apart.negated _)

theorem bitOperator (f : Int64 → Int64 → Int64) :
    Upholds L (Exec.bitOperator f) fun _ => True :=
  .bind popOperands fun _ _ => pushResult (Value.Apart.bitwise f _ _)

theorem bitShift : Upholds L Exec.bitShift fun _ => True :=
  .bind popOperands fun _ _ => pushResult (Value.Apart.shifted _ _)

theorem compareWith (accept : Ordering → Bool) : Upholds L (Exec.compareWith accept) fun _ => True :=
  .bind popValue fun _ _ => .bind popValue fun _ _ => .bind (check _) fun _ _ => pushPlain rfl rfl

theorem equality (wanted : Bool) : Upholds L (Exec.equality wanted) fun _ => True :=
  .bind popValue fun _ _ => .bind popValue fun _ _ => .bind heap fun _ _ => pushPlain rfl rfl

/-! ### Containers -/

theorem resolveType (v : Value) : Upholds L (Exec.resolveType v) fun _ => True := by
  unfold Exec.resolveType
  split
  · exact .pure trivial
  · refine .bind (lookup? _) fun found _ => ?_
    split
    · exact .pure trivial
    · exact fail _
  · exact fail _

theorem conform (t : Ty) (hv : v.Apart L) : Upholds L (Exec.conform t v) (Value.Apart L) :=
  .bind context fun _ _ => .ite (.pure hv) (onObjects (Heap.Apart.coerce t hv))

theorem elementAt (hv : v.Apart L) (index : Value) :
    Upholds L (Exec.elementAt v index) (Value.Apart L) := by
  refine .bind heap fun h hh => ?_
  split
  · exact .bind (check _) fun _ _ => lift ((hh.array hv).get _)
  · refine .bind (lift ((hh.map hv).get _)) fun found hfound => ?_
    split
    · exact .pure (hfound _ rfl)
    · exact onHeap (Heap.Apart.zeroValue _)
  · dsimp only
    split
    · rename_i hget
      exact .pure ((hh.struct hv).get? hget)
    · exact fail _
  · dsimp only
    split
    · rename_i hget
      exact .pure ((hh.package _).get? hget)
    · exact fail _
  · refine .bind (check _) fun offset _ => ?_
    split
    · exact .pure (.plain rfl rfl)
    · exact fail _
  · exact fail _

theorem loadIndex : Upholds L Exec.loadIndex fun _ => True :=
  .bind popUnwrapped fun _ _ => .bind popUnwrapped fun _ hv => .bind (elementAt hv _) fun _ hw =>
    push hw.unwrapped

theorem storeElement {u : Value} (hv : v.Apart L) (hw : w.Apart L) (hu : u.Apart L) :
    Upholds L (Exec.storeElement v w u) fun _ => True := by
  unfold Exec.storeElement
  split
  · exact .bind heap fun _ _ => .bind (conform _ hu) fun _ hu => .bind (checkElements _ _) fun _ _ =>
      .bind (check _) fun _ _ => onObjects (Heap.Apart.setElement hv _ hu)
  · exact .bind heap fun _ _ => .bind (conform _ hw) fun _ _ => .bind (conform _ hu) fun _ hu =>
      onObjects (Heap.Apart.setEntry hv _ hu)
  · exact .bind (display _) fun _ _ => onObjects (Heap.Apart.setField hv _ hu)
  · exact fail _

theorem storeIndex : Upholds L Exec.storeIndex fun _ => True :=
  .bind popUnwrapped fun _ hindex => .bind popUnwrapped fun _ hcontainer =>
    .bind popUnwrapped fun _ hv => .bind (storeElement hcontainer hindex hv) fun _ _ =>
    push hcontainer

theorem storeInto : Upholds L Exec.storeInto fun _ => True :=
  .bind popUnwrapped fun _ hkey => .bind popUnwrapped fun _ hv =>
    .bind popUnwrapped fun _ hcontainer => .bind (storeElement hcontainer hkey hv) fun _ _ =>
    push hcontainer

theorem sliceString (s : String) (start stop : Nat) :
    Ensures (Exec.sliceString s start stop) (Value.Apart L) := by
  refine .ite (.error _) ?_
  split
  · exact .ok (.plain rfl rfl)
  · exact .error _

theorem loadSlice : Upholds L Exec.loadSlice fun _ => True := by
  refine .bind popUnwrapped fun _ _ => .bind popValue fun _ _ => .bind (check _) fun _ _ =>
    .bind popUnwrapped fun v hv => ?_
  split
  · exact .bind heap fun h hh => .bind (check _) fun _ _ => .bind (lift ((hh.array hv).slice _ _))
      fun _ ha => .bind (onHeap (Heap.Apart.newArray ha)) fun _ hr => push hr
  · exact .bind (check _) fun _ _ => pushResult (sliceString _ _ _)
  · exact fail _

theorem arraySpec (operand : Value) : Upholds L (Exec.arraySpec operand) fun _ => True := by
  unfold Exec.arraySpec
  split
  · exact .bind heap fun _ _ => .bind (check _) fun _ _ => .bind (check _) fun _ _ => .pure trivial
  · exact .bind (operandCount _ _) fun _ _ => .pure trivial

theorem array (operand : Value) : Upholds L (Exec.array operand) fun _ => True := by
  have hbuild : ∀ (element : Ty) (values : List Value), (∀ v ∈ values, v.Apart L) → Upholds L (do
      Exec.push (.array (← Exec.onHeap (Heap.newArray { element, values := values.toArray }))))
      fun _ => True := fun element values hvalues =>
    .bind (onHeap (Heap.Apart.newArray fun v hv => hvalues v (by simpa using hv))) fun _ hr => push hr
  refine .bind (arraySpec operand) fun p _ => .bind (popArgs p.1) fun values hvalues =>
    .bind context fun c _ => .ite ?_ (.ite ?_ ?_)
  · exact .bind (checkElements _ _) fun _ _ => .bind (.pure hvalues) (hbuild p.2)
  · exact .bind (.pure hvalues) (hbuild p.2)
  · exact .bind (.mapM fun v hv => onObjects (Heap.Apart.coerce _ (hvalues v hv))) (hbuild p.2)

theorem makeArray : Upholds L Exec.makeArray fun _ => True :=
  .bind popUnwrapped fun _ hv => .bind popValue fun _ _ => .bind (check _) fun _ _ =>
    .bind heap fun _ _ => .bind (onHeap (Heap.Apart.filled _ _ hv)) fun _ hw => push hw

theorem pairUp {values : List Value} (h : ∀ v ∈ values, v.Apart L) :
    ∀ p ∈ ScriptMachine.pairUp values, p.1.Apart L ∧ p.2.Apart L := by
  fun_induction ScriptMachine.pairUp values with
  | case1 a b rest ih =>
    obtain ⟨ha, hothers⟩ := List.forall_mem_cons.1 h
    obtain ⟨hb, hrest⟩ := List.forall_mem_cons.1 hothers
    exact List.forall_mem_cons.2 ⟨⟨ha, hb⟩, ih hrest⟩
  | case2 => exact nofun

theorem makeMap (operand : Value) : Upholds L (Exec.makeMap operand) fun _ => True := by
  refine .bind (operandCount operand 0) fun _ _ => .bind (popArgs _) fun entries hentries =>
    .bind popValue fun _ _ => .bind (check _) fun _ _ => .bind popValue fun _ _ =>
    .bind (check _) fun _ _ => .bind (onHeap (Heap.Apart.newMap nofun)) fun r hr =>
    .bind (.forIn fun p hp => ?_) fun _ _ => push hr
  obtain ⟨hkey, hvalue⟩ := pairUp hentries p hp
  exact .bind (conform _ hkey.unwrapped) fun _ _ => .bind (conform _ hvalue.unwrapped) fun _ hv =>
    .bind (onObjects (Heap.Apart.setEntry hr _ hv)) fun _ _ => .pure trivial

theorem typedStruct (t : Ty) {fields : List (String × Value)} (h : ∀ p ∈ fields, p.2.Apart L) :
    Upholds L (Exec.typedStruct t fields) fun r => (Value.struct r).Apart L := by
  refine .ite (fail _) ?_
  refine .bind (onHeap (Heap.Apart.instantiate t)) fun r hr => .bind context fun _ _ =>
    .bind heap fun _ hh => .bind (onHeap (Heap.Apart.putStruct hr (hh.struct hr))) fun _ _ =>
    .bind (.forIn fun p hp => ?_) fun _ _ => .pure hr
  exact .bind (onObjects (Heap.Apart.setField hr _ (h p hp))) fun _ _ => .pure trivial

theorem makeStruct (operand : Value) : Upholds L (Exec.makeStruct operand) fun _ => True := by
  refine .bind (operandCount operand 0) fun _ _ => .bind (popArgs _) fun parts hparts =>
    .bind heap fun h _ => ?_
  have hnamed : ∀ p ∈ (ScriptMachine.pairUp parts).foldl (fun fields p =>
      Assoc.insert (h.display p.1) p.2.unwrapped fields) [], p.2.Apart L :=
    List.foldlRecOn (motive := fun fields : List (String × Value) => ∀ p ∈ fields, p.2.Apart L)
      _ _ (by simp) fun _ hfields p hp => Assoc.forall_insert hfields _ (pairUp hparts p hp).2.unwrapped
  have hfields := List.foldlRecOn
    (motive := fun fields : List (String × Value) => ∀ p ∈ fields, p.2.Apart L)
    [typeField, staticField, readonlyField] (fun fields name => Assoc.erase name fields) hnamed
    fun _ h name _ => Assoc.forall_erase h name
  dsimp only
  split
  · exact .bind (resolveType _) fun t _ => .bind (typedStruct t hfields) fun r hr =>
      .bind heap fun _ hh => .bind (onHeap (Heap.Apart.putStruct hr (hh.struct hr))) fun _ _ => push hr
  · exact .bind (onHeap (Heap.Apart.ofFields hfields)) fun r hr =>
      .bind heap fun _ hh => .bind (onHeap (Heap.Apart.putStruct hr (hh.struct hr))) fun _ _ => push hr

theorem explode : Upholds L Exec.explode fun _ => True := by
  refine .bind popUnwrapped fun v hv => ?_
  split
  · refine .bind heap fun h hh => .bind (.forIn fun key _ => ?_) fun _ _ => .pure trivial
    refine .bind (lift ((hh.map hv).get key)) fun found hfound => .bind (display _) fun name _ =>
      .bind (storeHere name ?_) fun _ _ => .pure trivial
    cases found with
    | none => exact .plain rfl rfl
    | some u => exact hfound u rfl
  · exact fail _

theorem flatten : Upholds L Exec.flatten fun _ => True := by
  refine .bind popUnwrapped fun v hv => ?_
  split
  · refine .bind heap fun h hh => .bind (modifyContext fun _ hc => { hc with }) fun _ _ =>
      .bind (.forIn fun u hu => ?_) fun _ _ => .pure trivial
    exact .bind (push (hh.array hv u (Array.mem_toList_iff.1 hu))) fun _ _ => .pure trivial
  · exact push hv

/-! ### Names and pointers -/

theorem loadName (operand : Value) : Upholds L (Exec.loadName operand) fun _ => True :=
  .bind (operandName operand) fun _ _ => .bind (lookup _) fun _ hv => push hv.unwrapped

theorem checkStoreType (name : String) (v : Value) :
    Upholds L (Exec.checkStoreType name v) fun _ => True := by
  refine .bind .get fun m _ => .ite ?_ (.pure trivial)
  split
  · exact .ite (fail _) (.pure trivial)
  · exact .pure trivial

theorem storeName (operand : Value) : Upholds L (Exec.storeName operand) fun _ => True := by
  refine .bind (operandName operand) fun name _ => .bind popValue fun v hv => .ite (.pure trivial) ?_
  refine .bind (checkStoreType name v) fun _ _ => .bind (lookup? name) fun _ _ => .ite ?_ ?_
  · exact .bind (fail _) fun _ (_ : True) => store name hv
  · exact store name hv

theorem storeAlways (operand : Value) : Upholds L (Exec.storeAlways operand) fun _ => True :=
  .bind (operandName operand) fun name _ => .bind popValue fun _ hv => storeHere name hv

theorem storeGlobal (operand : Value) : Upholds L (Exec.storeGlobal operand) fun _ => True :=
  .bind (operandName operand) fun name _ => .bind popValue fun _ hv => storeIn .root name hv

theorem createAndStore (operand : Value) :
    Upholds L (Exec.createAndStore operand) fun _ => True :=
  .bind (operandName operand) fun name _ => .bind popValue fun _ hv =>
    .ite (.pure trivial) (.bind (create name) fun _ _ => store name hv)

theorem createSymbol (operand : Value) : Upholds L (Exec.createSymbol operand) fun _ => True :=
  .bind (operandName operand) fun name _ => create name

theorem createIfMissing (operand : Value) :
    Upholds L (Exec.createIfMissing operand) fun _ => True :=
  .bind (operandName operand) fun name _ => .bind .get fun _ _ => .ite (create name) (.pure trivial)

theorem deleteSymbol (operand : Value) : Upholds L (Exec.deleteSymbol operand) fun _ => True :=
  .bind (operandName operand) fun name _ =>
    writeHere (fun id => .delete id name false) fun _ => .plain rfl rfl

theorem storeConstant (operand : Value) : Upholds L (Exec.storeConstant operand) fun _ => True :=
  .bind (operandName operand) fun name _ => .bind popValue fun v hv =>
    writeHere (fun id => .setConstant id name (.constant v.unwrapped)) fun _ => .constant hv.unwrapped

theorem storeMethod (typeName method : String) {code : Code} (hcode : code.Spells L) :
    Upholds L (Exec.storeMethod typeName method code) fun _ => True := by
  refine .bind (lookup typeName) fun v _ => ?_
  split
  · exact .bind (note _ _) fun _ _ => onHeap (Heap.Apart.addMethod _ _ (.code (hcode.named method)))
  · exact fail _

theorem storeCode (operand : Value) : Upholds L (Exec.storeCode operand) fun _ => True := by
  refine .bind (operandName operand) fun name _ => .bind popUnwrapped fun v hv => ?_
  split
  · have hcode := hv.of_code
    split
    · exact storeMethod _ _ hcode
    · exact storeHere _ (.code (hcode.named name))
  · exact fail _

theorem addressOf (operand : Value) : Upholds L (Exec.addressOf operand) fun _ => True :=
  .bind (operandName operand) fun _ _ => .bind scopes fun _ _ => .bind context fun _ _ =>
    .bind (check _) fun _ _ => pushPlain rfl rfl

theorem dereference : Upholds L Exec.dereference fun _ => True := by
  refine .bind popUnwrapped fun v _ => ?_
  split
  · exact fail _
  · exact .bind scopes fun a ha => .bind (lift fun _ hv => ha.deref hv) fun _ hv => push hv.unwrapped
  · exact fail _

theorem storeThrough (operand : Value) : Upholds L (Exec.storeThrough operand) fun _ => True := by
  refine .bind (operandName operand) fun name _ => .bind (lookup name) fun v _ => ?_
  split
  · exact fail _
  · rename_i p _
    exact .bind popValue fun v hv => write (.storeVia p v) hv
  · exact fail _

/-! ### Members, receivers, packages and files -/

theorem methodOf {h : Heap} (hh : h.Apart L) (hv : v.Apart L) (name : String) :
    Ensures (ScriptMachine.methodOf h v name) (Value.Apart L) := by
  unfold ScriptMachine.methodOf
  split
  · refine .ok (.native ?_)
    rintro _ ⟨⟩
    exact hv
  · split
    · rename_i hmethod
      exact .ok (hh.method? hmethod)
    · exact .error _

theorem structMember {h : Heap} (hh : h.Apart L) (package : String) {s : StructObject}
    (hs : s.Apart L) (name : String) :
    Ensures (ScriptMachine.structMember h package s name) (Value.Apart L) := by
  unfold ScriptMachine.structMember
  split
  · exact .error _
  · rename_i member hmember
    refine .ite (.error _) (.ok ?_)
    cases hget : s.get? name with
    | some v =>
      rw [hget] at hmember
      cases hmember
      exact hs.get? hget
    | none =>
      rw [hget] at hmember
      exact hh.method? hmember

theorem packageMember {w : World} (hw : w.Apart L) (r : Ref .package) (name : String) :
    Ensures (ScriptMachine.packageMember w r name) (Value.Apart L) := by
  unfold ScriptMachine.packageMember
  dsimp only
  split
  · exact .error _
  · rename_i member hmember
    have hapart : member.Apart L := by
      rcases (Option.orElse_eq_some _ _ _).1 hmember with hexported | ⟨-, hitem⟩
      · split at hexported
        · obtain ⟨table, -, hget⟩ := Option.bind_eq_some_iff.1 hexported
          exact hw.scopes.getLocal? hget
        · cases hexported
      · exact (hw.heap.package r).get? hitem
    have hunwrapped := hapart.unwrapped
    split
    · rename_i code hcode
      rw [hcode] at hunwrapped
      exact .ok (.member hunwrapped.of_code)
    · exact .ok hunwrapped

theorem memberOf (hv : v.Apart L) (name : String) :
    Upholds L (Exec.memberOf v name) (Value.Apart L) := by
  refine .bind .get fun m hm => ?_
  dsimp only
  split
  · refine .bind (lift ((hm.world.heap.map hv).get _)) fun found hfound => ?_
    split
    · exact .pure (hfound _ rfl)
    · exact lift (methodOf hm.world.heap hv name)
  · exact lift (structMember hm.world.heap _ (hm.world.heap.struct hv) name)
  · exact lift (packageMember hm.world _ name)
  · split
    · rename_i hmethod
      exact .pure (hm.world.heap.method? hmethod)
    · exact lift (methodOf hm.world.heap hv name)
  · exact lift (methodOf hm.world.heap hv name)

theorem member (operand : Value) : Upholds L (Exec.member operand) fun _ => True := by
  have hrest : ∀ named : Value, Upholds L (do
      let name ← Exec.display named
      let container ← Exec.popUnwrapped
      Exec.push (← Exec.memberOf container name).unwrapped) fun _ => True := fun named =>
    .bind (display named) fun name _ => .bind popUnwrapped fun _ hv =>
      .bind (memberOf hv name) fun _ hw => push hw.unwrapped
  refine .ite ?_ ?_
  · exact .bind popValue fun v _ => hrest v
  · exact .bind (.pure trivial) fun v (_ : True) => hrest v

theorem pushReceiver (name : String) (hv : v.Apart L) :
    Upholds L (Exec.pushReceiver name v) fun _ => True :=
  .bind (noteThread _ _) fun _ _ => modifyContext fun _ hc =>
    { hc with receivers := List.forall_mem_cons.2 ⟨hv, hc.receivers⟩ }

theorem freshReceiverName : Upholds L (Exec.onWorld Exec.freshReceiverName) fun _ => True :=
  onWorld fun _ hw => ⟨⟨hw.heap, hw.scopes⟩, trivial⟩

theorem setReceiver (operand : Value) : Upholds L (Exec.setReceiver operand) fun _ => True := by
  refine .ite ?_ ?_
  · exact .bind popValue fun v hv => .bind (push hv) fun _ _ => .bind freshReceiverName fun name _ =>
      .bind (storeHere name hv) fun _ _ => pushReceiver name hv
  · exact .bind (operandName operand) fun name _ => .bind (lookup name) fun v hv =>
      pushReceiver name hv

theorem getReceiver (operand : Value) : Upholds L (Exec.getReceiver operand) fun _ => True := by
  refine .bind (operandName operand) fun name _ => .bind context fun c hc => ?_
  split
  · exact .pure trivial
  · rename_i receiver rest hreceivers
    have hall := hc.receivers
    rw [hreceivers] at hall
    obtain ⟨hfirst, hrest⟩ := List.forall_mem_cons.1 hall
    exact .bind (modifyContext fun _ hc => { hc with receivers := hrest }) fun _ _ =>
      .bind (noteThread _ _) fun _ _ => storeHere name hfirst

theorem loadReceiver : Upholds L Exec.loadReceiver fun _ => True := by
  refine .bind context fun c hc => ?_
  split
  · exact fail _
  · rename_i receiver rest hreceivers
    have hall := hc.receivers
    rw [hreceivers] at hall
    exact push (List.forall_mem_cons.1 hall).1

theorem importPackage (operand : Value) : Upholds L (Exec.importPackage operand) fun _ => True := by
  refine .bind (operandName operand) fun path _ => .bind scopes fun a _ => ?_
  dsimp only
  split
  · exact .bind (noteThread _ _) fun _ _ => storeHere _ (.plain rfl rfl)
  · exact fail _

theorem enterPackage (operand : Value) : Upholds L (Exec.enterPackage operand) fun _ => True :=
  .bind (operandName operand) fun _ _ => modifyContext fun _ hc => { hc with }

theorem enterFile (operand : Value) : Upholds L (Exec.enterFile operand) fun _ => True :=
  .bind (operandName operand) fun _ _ => modifyContext fun _ hc => { hc with }

theorem readPath (path : String) : Upholds L (get >>= fun m : Machine =>
    match m.world.files.read path with
    | .ok text => Exec.push (.string text)
    | .error reason => Exec.fail (.about .invalidFileIdentifier s!"{path}: {reason.message}"))
    fun _ => True := by
  refine .bind .get fun m _ => ?_
  split
  · exact pushPlain rfl rfl
  · exact fail _

theorem readFile (operand : Value) : Upholds L (Exec.readFile operand) fun _ => True := by
  refine .ite ?_ ?_
  · exact .bind popValue fun v _ => .bind (display v) fun path _ => readPath path
  · exact .bind (operandName operand) fun path _ => readPath path

/-! ### Checks and conversions -/

theorem arguments : Upholds L Exec.arguments fun args => ∀ v ∈ args, v.Apart L := by
  refine .bind (lookup? _) fun found hfound => ?_
  split
  · rename_i r hr
    obtain ⟨v, rfl, hv⟩ := Option.map_eq_some_iff.1 hr
    refine .bind heap fun h hh => .pure fun u hu => ?_
    exact hh.array (hv ▸ (hfound v rfl).unwrapped) u (Array.mem_toList_iff.1 hu)
  · exact .pure nofun

theorem argumentBounds (operand : Value) :
    Upholds L (Exec.argumentBounds operand) fun _ => True := by
  unfold Exec.argumentBounds
  split
  · exact .bind heap fun _ _ => .bind (check _) fun _ _ => .bind (check _) fun _ _ => .pure trivial
  · exact .bind (check _) fun _ _ => .pure trivial

theorem argCheck (operand : Value) : Upholds L (Exec.argCheck operand) fun _ => True :=
  .bind (argumentBounds operand) fun _ _ => .bind arguments fun _ _ => .ite (fail _) (.pure trivial)

theorem varArgs (operand : Value) : Upholds L (Exec.varArgs operand) fun _ => True :=
  .bind (check _) fun _ _ => .bind arguments fun _ hargs =>
    pushList fun v hv => hargs v (List.mem_of_mem_drop hv)

theorem modeCheck (operand : Value) : Upholds L (Exec.modeCheck operand) fun _ => True := by
  refine .bind (operandName operand) fun _ _ => .bind (lookup? _) fun found _ => ?_
  split
  · exact fail _
  · exact .ite (.bind (display _) fun _ _ => fail _) (.pure trivial)

theorem stackCheck (operand : Value) : Upholds L (Exec.stackCheck operand) fun _ => True :=
  .bind (check _) fun _ _ => .bind context fun _ _ => .ite (fail _) (.pure trivial)

theorem operandType (operand : Value) : Upholds L (Exec.operandType operand) fun _ => True :=
  .ite (fail _) (resolveType operand)

theorem requiredType (operand : Value) : Upholds L (Exec.requiredType operand) fun _ => True :=
  .bind (operandType operand) fun _ _ => .bind popUnwrapped fun _ hv => .bind context fun _ _ =>
    .ite (.bind heap fun _ _ => .ite (fail _) (push hv))
      (.bind (onObjects (Heap.Apart.coerce _ hv)) fun _ hw => push hw)

theorem coerceTop (operand : Value) : Upholds L (Exec.coerceTop operand) fun _ => True :=
  .bind (operandType operand) fun _ _ => .bind popValue fun _ hv =>
    .bind (onObjects (Heap.Apart.coerce _ hv)) fun _ hw => push hw

theorem staticTyping : Upholds L Exec.staticTyping fun _ => True :=
  .bind popValue fun v _ => .bind (truthy v) fun _ _ =>
    .bind (modifyContext fun _ hc => { hc with }) fun _ _ => storeHere _ (.plain rfl rfl)

/-! ### Output and the outside world -/

theorem print (operand : Value) : Upholds L (Exec.print operand) fun _ => True :=
  .bind (operandCount operand 1) fun _ _ => .bind (popArgs _) fun _ _ => .bind heap fun _ _ =>
    output _

theorem say : Upholds L Exec.say fun _ => True :=
  .bind popValue fun v _ => .bind (display v) fun _ _ => output _

theorem logValue (operand : Value) : Upholds L (Exec.logValue operand) fun _ => True := by
  refine .bind (operandName operand) fun _ _ => ?_
  split
  · exact fail _
  · exact .bind popValue fun _ _ => .bind heap fun _ _ => note _ _

theorem timer (operand : Value) : Upholds L (Exec.timer operand) fun _ => True := by
  refine .bind (check _) fun n _ => ?_
  split
  · exact modifyContext fun _ hc => { hc with }
  · have hrest : Upholds L (do
        Exec.modifyContext fun c => { c with timers := c.timers - 1 }
        Exec.push (.string Exec.elapsedText)) fun _ => True :=
      .bind (modifyContext fun _ hc => { hc with }) fun _ _ => pushPlain rfl rfl
    exact .bind context fun _ _ => .ite (.bind (fail _) fun _ (_ : True) => hrest) hrest
  · exact fail _

theorem template (operand : Value) : Upholds L (Exec.template operand) fun _ => True := by
  refine .bind (operandName operand) fun _ _ => .bind (lookup? _) fun found _ => ?_
  split
  · exact .bind popValue fun _ _ => .bind heap fun _ _ => .bind (check _) fun _ _ =>
      pushPlain rfl rfl
  · exact fail _

theorem respond : Upholds L Exec.respond fun _ => True :=
  .bind popUnwrapped fun _ _ => .bind heap fun _ _ => .bind (output _) fun _ _ =>
    storeIn _ _ (.plain rfl rfl)

theorem isSet (name : String) : Upholds L (Exec.isSet name) fun _ => True := by
  refine .bind (lookup? name) fun found _ => ?_
  split
  · exact truthy _
  · exact .pure trivial

theorem authorize (operand : Value) : Upholds L (Exec.authorize operand) fun _ => True := by
  refine .bind (operandName operand) fun _ _ => .bind (isSet _) fun _ _ => .bind (isSet _) fun _ _ =>
    .bind (isSet _) fun _ _ => .bind (check _) fun status _ => ?_
  split
  · exact .pure trivial
  · exact .bind (onWorld (World.Apart.emit _ _)) fun _ _ =>
      .bind (storeIn _ _ (.ofNat _)) fun _ _ => fail _

/-! ### Channels, tasks and the flow of control -/

theorem transfer (operand : Value) : Upholds L (Exec.transfer operand) fun _ => True := by
  refine .bind (operandName operand) fun name _ => .bind (lookup? name) fun found _ => ?_
  split
  · exact .bind popValue fun v hv => ofWorldAction (WorldAction.Upholds.send _ hv)
  · refine .bind popUnwrapped fun v _ => ?_
    split
    · exact .bind (ofWorldAction (WorldAction.Upholds.receive _)) fun v hv =>
        .ite (store name hv) (.pure trivial)
    · exact fail _

theorem branch (operand : Value) : Upholds L (Exec.branch operand) fun _ => True :=
  .bind (branchTarget operand) fun _ _ => modifyContext fun _ hc => { hc with }

theorem branchIf (wanted : Bool) (operand : Value) :
    Upholds L (Exec.branchIf wanted operand) fun _ => True :=
  .bind (branchTarget operand) fun _ _ => .bind popValue fun v _ => .bind (truthy v) fun _ _ =>
    .ite (modifyContext fun _ hc => { hc with }) (.pure trivial)

theorem panic : Upholds L Exec.panic fun _ => True :=
  .bind pop fun v _ => .bind (display v) fun _ _ => fail _

theorem atLine (operand : Value) : Upholds L (Exec.atLine operand) fun _ => True :=
  .bind (check _) fun _ _ => .bind (modifyContext fun _ hc => { hc with }) fun _ _ =>
    .bind context fun _ _ => .ite (fail _) (.pure trivial)

end Exec.Upholds

end ScriptMachine
