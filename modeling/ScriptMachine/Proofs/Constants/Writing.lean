import ScriptMachine.Proofs.Action.Ordinary
import ScriptMachine.Proofs.Constants.Bindings

/-!
# Instructions that write symbols

What the instructions that work on operands and shared state do to constants. Ordinary assignment,
creation and deletion respect them; the instructions that bind a name whatever its protection leave
those alone whose name or table is another one.

* `IsReserved`: the names that the machine itself binds.
* `Machine.Fixes`: a machine with constants, and with a property of the current table.
* `Exec.Fixing`: an action keeps a machine so.
* `Fixing.storeName`, `Fixing.createAndStore`, `Fixing.deleteSymbol`, `Fixing.transfer`: what
  respects protection.
* `Fixing.storeAlways`, `Fixing.storeThrough` and others: what does not, under the condition that it
  is about another name, another table or another address.
-/

namespace ScriptMachine

/-- A name that the machine itself binds, whatever its protection. -/
def IsReserved (name : String) : Prop :=
  name ∈ ["__args", "__extensions", staticTypesName, "_error", Exec.responseName, Exec.statusName] ∨
    ∃ n : Nat, name = s!"$this{n}"

/-- The tables of constants are live and bind them, and the current table satisfies `S`. -/
structure Machine.Fixes (K : Set Constant) (S : TableId → Prop) (m : Machine) : Prop where
  scopes : m.world.scopes.FixesAll K
  current : S m.context.symbols

/-- An action keeps constants bound, and its result satisfies `P`. -/
abbrev Exec.Fixing {α : Type} (K : Set Constant) (S : TableId → Prop) (act : Exec α)
    (P : α → Prop) : Prop := ScriptMachine.Upholds (Machine.Fixes K S) act P

namespace Exec.Fixing

variable {K : Set Constant} {S : TableId → Prop} {α β : Type} {P : α → Prop} {name : String}
  {v : Value}

/-! ### Primitive actions -/

theorem fail (f : Fault) : Fixing K S (Exec.fail f : Exec α) P := .throw _

theorem check {I : Machine → Prop} (r : Except Fault α) :
    ScriptMachine.Upholds I (liftM r : Exec α) fun a => r = .ok a := by
  cases r with
  | ok a => exact .pure rfl
  | error f => exact .throw _

/-- Plain actions that write no symbols. -/
theorem quiet {act : Exec α} (h : IsPlain False True act) : Fixing K S act fun _ => True := by
  intro m hm
  obtain ⟨hscopes, hsymbols⟩ := h.staysIn m
  exact ⟨⟨hscopes ▸ hm.scopes, hsymbols ▸ hm.current⟩, .any _⟩

theorem operandName (operand : Value) :
    Fixing K S (Exec.operandName operand) fun name => operand.string? = some name := by
  unfold Exec.operandName
  split
  · rename_i name hname
    exact .pure hname
  · exact fail _

theorem context : Fixing K S Exec.context fun c => S c.symbols :=
  .bind .get fun _ hm => .pure hm.current

theorem scopes : Fixing K S Exec.scopes (Arena.FixesAll K) := .bind .get fun _ hm => .pure hm.scopes

theorem modifyContext {f : Context → Context} (h : ∀ c, S c.symbols → S (f c).symbols) :
    Fixing K S (Exec.modifyContext f) fun _ => True :=
  .write fun _ hm => ⟨hm.scopes, h _ hm.current⟩

theorem setScopes {a : Arena} (ha : a.FixesAll K) : Fixing K S (Exec.setScopes a) fun _ => True :=
  .write fun _ hm => ⟨ha, hm.current⟩

/-- A write that respects the protection of constants. -/
theorem write (w : Arena.Write) (hmiss : ∀ k ∈ K, ¬ w.Hits k) :
    Fixing K S (do Exec.setScopes (← (← Exec.scopes).write w)) fun _ => True :=
  .bind scopes fun _ ha => .bind (check _) fun _ hb => setScopes (ha.write hmiss hb)

/-- Such a write that is made to the current table. -/
theorem writeHere (w : TableId → Arena.Write) (hmiss : ∀ id, S id → ∀ k ∈ K, ¬ (w id).Hits k) :
    Fixing K S (do
      let a ← Exec.scopes
      let c ← Exec.context
      Exec.setScopes (← a.write (w c.symbols))) fun _ => True :=
  .bind scopes fun _ ha => .bind context fun _ hc => .bind (check _) fun _ hb =>
    setScopes (ha.write (hmiss _ hc) hb)

theorem storeIn (table : TableId) (name : String) (v : Value)
    (hmiss : ∀ k ∈ K, table = k.address.table → name ≠ k.name) :
    Fixing K S (Exec.storeIn table name v) fun _ => True :=
  write (.setAlways table name v) fun k hk hits => hmiss k hk hits.1 hits.2

theorem storeHere (name : String) (v : Value)
    (hmiss : ∀ k ∈ K, S k.address.table → name ≠ k.name) :
    Fixing K S (Exec.storeHere name v) fun _ => True :=
  .bind context fun _ hc => storeIn _ _ _ fun k hk htable => hmiss k hk (htable ▸ hc)

/-- Ordinary assignment. -/
theorem store (name : String) (v : Value) : Fixing K S (Exec.store name v) fun _ => True := by
  have hassign : ∀ start, Fixing K S (Exec.onWorld (World.assign start name v)) fun _ => True := by
    intro start m hm
    refine ⟨⟨?_, hm.current⟩, .any _⟩
    show (World.assign start name v |>.run m.world).2.scopes.FixesAll K
    unfold World.assign
    simp only [StateT.run_bind, StateT.run_get, pure_bind]
    cases hset : m.world.scopes.set start name v with
    | error f => exact hm.scopes
    | ok r =>
      have hwrite : m.world.scopes.write (.set start name v) = .ok r.2 := by
        show (m.world.scopes.set start name v).map (·.2) = _
        rw [hset]
        rfl
      exact hm.scopes.write (fun _ _ => id) hwrite
  refine .bind context fun c _ => .bind (hassign c.symbols) fun r _ => ?_
  cases r with
  | ok u => exact .pure trivial
  | error f => exact fail f

theorem create (name : String) : Fixing K S (Exec.create name) fun _ => True :=
  writeHere (fun id => .create id name) fun _ _ _ _ => id

/-! ### Instructions that respect protection -/

theorem storeName (operand : Value) : Fixing K S (Exec.storeName operand) fun _ => True := by
  refine .bind (operandName operand) fun name _ => .bind (quiet .popValue) fun v _ =>
    .ite (.pure trivial) ?_
  refine .bind (quiet (.checkStoreType name v)) fun _ _ => ?_
  exact .bind (quiet (.lookup? name)) fun _ _ =>
    .ite (.bind (fail (P := fun _ => True) _) fun _ _ => store name v) (store name v)

theorem createAndStore (operand : Value) :
    Fixing K S (Exec.createAndStore operand) fun _ => True :=
  .bind (operandName operand) fun name _ => .bind (quiet .popValue) fun v _ =>
    .ite (.pure trivial) (.bind (create name) fun _ _ => store name v)

theorem createSymbol (operand : Value) : Fixing K S (Exec.createSymbol operand) fun _ => True :=
  .bind (operandName operand) fun name _ => create name

theorem createIfMissing (operand : Value) :
    Fixing K S (Exec.createIfMissing operand) fun _ => True :=
  .bind (operandName operand) fun name _ => .bind .get fun _ _ => .ite (create name) (.pure trivial)

theorem deleteSymbol (operand : Value) : Fixing K S (Exec.deleteSymbol operand) fun _ => True :=
  .bind (operandName operand) fun name _ =>
    writeHere (fun id => .delete id name false) fun _ _ _ _ hits => Bool.false_ne_true hits.1

theorem transfer (operand : Value) : Fixing K S (Exec.transfer operand) fun _ => True := by
  refine .bind (operandName operand) fun name _ => .bind (quiet (.lookup? name)) fun found _ => ?_
  split
  · exact .bind (quiet .popValue) fun v _ => quiet (.ofWorldAction (.send _ v))
  · refine .bind (quiet .popUnwrapped) fun v _ => ?_
    split
    · exact .bind (quiet (.ofWorldAction (.receive _))) fun _ _ => .ite (store _ _) (.pure trivial)
    · exact fail _

/-! ### Instructions that bind reserved names -/

section

variable (hfree : ∀ k ∈ K, ¬ IsReserved k.name)

include hfree

theorem ne_of_reserved {name : String} (hname : IsReserved name) : ∀ k ∈ K, name ≠ k.name :=
  fun k hk heq => hfree k hk (heq ▸ hname)

theorem respond : Fixing K S Exec.respond fun _ => True :=
  .bind (quiet .popUnwrapped) fun _ _ => .bind (quiet .heap) fun _ _ =>
    .bind (quiet (.write _)) fun _ _ => storeIn _ _ _ fun k hk _ =>
      ne_of_reserved hfree (.inl (by simp)) k hk

theorem authorize (operand : Value) : Fixing K S (Exec.authorize operand) fun _ => True := by
  refine .bind (operandName operand) fun _ _ => .bind (quiet (.isSet _)) fun _ _ =>
    .bind (quiet (.isSet _)) fun _ _ => .bind (quiet (.isSet _)) fun _ _ =>
    .bind (check _) fun r _ => ?_
  split
  · exact .pure trivial
  · refine .bind (quiet (.onWorld ⟨fun w => ⟨rfl, .refl w.heap⟩, World.emit_isUnread _ _⟩))
      fun _ _ => ?_
    exact .bind (storeIn _ _ _ fun k hk _ => ne_of_reserved hfree (.inl (by simp)) k hk) fun _ _ =>
      fail _

theorem staticTyping : Fixing K S Exec.staticTyping fun _ => True :=
  .bind (quiet .popValue) fun v _ => .bind (quiet (.truthy v)) fun on _ =>
    .bind (modifyContext fun _ hc => hc) fun _ _ =>
    storeHere _ _ fun k hk _ => ne_of_reserved hfree (.inl (by simp)) k hk

theorem setReceiver (operand : Value) : Fixing K S (Exec.setReceiver operand) fun _ => True := by
  have hname : Fixing K S (Exec.onWorld Exec.freshReceiverName) IsReserved := fun m hm =>
    ⟨⟨hm.scopes, hm.current⟩, .ok (.inr ⟨m.world.receivers + 1, rfl⟩)⟩
  refine .ite ?_ ?_
  · exact .bind (quiet .popValue) fun _ _ => .bind (quiet (.push _)) fun _ _ =>
      .bind hname fun name hname => .bind (storeHere _ _ fun k hk _ =>
        ne_of_reserved hfree hname k hk) fun _ _ => quiet (.pushReceiver _ _)
  · exact .bind (operandName operand) fun _ _ => .bind (quiet (.lookup _)) fun _ _ =>
      quiet (.pushReceiver _ _)

end

/-! ### Instructions that bind names whatever their protection -/

theorem storeAlways (operand : Value)
    (hmiss : ∀ k ∈ K, S k.address.table → operand.string? ≠ some k.name) :
    Fixing K S (Exec.storeAlways operand) fun _ => True :=
  .bind (operandName operand) fun name hname => .bind (quiet .popValue) fun v _ =>
    storeHere name v fun k hk htable heq => hmiss k hk htable (heq ▸ hname)

theorem storeGlobal (operand : Value)
    (hmiss : ∀ k ∈ K, .root = k.address.table → operand.string? ≠ some k.name) :
    Fixing K S (Exec.storeGlobal operand) fun _ => True :=
  .bind (operandName operand) fun name hname => .bind (quiet .popValue) fun v _ =>
    storeIn .root name v fun k hk htable heq => hmiss k hk htable (heq ▸ hname)

theorem storeConstant (operand : Value)
    (hmiss : ∀ k ∈ K, S k.address.table → operand.string? ≠ some k.name) :
    Fixing K S (Exec.storeConstant operand) fun _ => True :=
  .bind (operandName operand) fun name hname => .bind (quiet .popValue) fun v _ =>
    writeHere (fun id => .setConstant id name (.constant v.unwrapped)) fun _ hid k hk hits =>
      hmiss k hk (hits.1 ▸ hid) (hits.2 ▸ hname)

/-- Making a name constant, with the table that results. -/
theorem outcome_storeConstant {operand : Value} {m m' : Machine} {a : Arena}
    (hname : operand.string? = some name) (hpop : outcome Exec.popValue m = (.ok v, m'))
    (ha : m'.world.scopes.setConstant m'.context.symbols name (.constant v.unwrapped) = .ok a) :
    outcome (Exec.storeConstant operand) m =
      (.ok (), { m' with world := { m'.world with scopes := a } }) := by
  have hcheck : outcome (liftM (m'.world.scopes.setConstant m'.context.symbols name
      (.constant v.unwrapped)) : Exec Arena) m' = (.ok a, m') := by
    rw [outcome_liftExcept, ha]
    rfl
  unfold Exec.storeConstant Exec.operandName
  rw [hname]
  dsimp only
  rw [outcome_bind_ok (outcome_pure _ _), outcome_bind_ok hpop, outcome_bind_ok (outcome_scopes _),
    outcome_bind_ok (outcome_context _), outcome_bind_ok hcheck, outcome_setScopes]

theorem storeCode (operand : Value)
    (hmiss : ∀ k ∈ K, S k.address.table → operand.string? ≠ some k.name) :
    Fixing K S (Exec.storeCode operand) fun _ => True := by
  refine .bind (operandName operand) fun name hname => .bind (quiet .popUnwrapped) fun v _ => ?_
  split
  · split
    · exact quiet (.storeMethod _ _ _)
    · exact storeHere _ _ fun k hk htable heq => hmiss k hk htable (heq ▸ hname)
  · exact fail _

theorem getReceiver (operand : Value)
    (hmiss : ∀ k ∈ K, S k.address.table → operand.string? ≠ some k.name) :
    Fixing K S (Exec.getReceiver operand) fun _ => True := by
  refine .bind (operandName operand) fun name hname => .bind context fun c _ => ?_
  split
  · exact .pure trivial
  · exact .bind (modifyContext fun _ hc => hc) fun _ _ => .bind (quiet (.noteThread _ _)) fun _ _ =>
      storeHere _ _ fun k hk htable heq => hmiss k hk htable (heq ▸ hname)

/-- The name under which a package is imported. -/
theorem importPackage (operand : Value) (hmiss : ∀ k ∈ K, S k.address.table → ∀ path,
      operand.string? = some path → (path.splitOn "/").getLastD path ≠ k.name) :
    Fixing K S (Exec.importPackage operand) fun _ => True := by
  refine .bind (operandName operand) fun path hpath => .bind scopes fun a _ => ?_
  dsimp only
  split
  · exact .bind (quiet (.noteThread _ _)) fun _ _ =>
      storeHere _ _ fun k hk htable => hmiss k hk htable path hpath
  · exact fail _

/-! ### Instructions that take the names or the address from the machine -/

variable {m : Machine}

/-- The top operand, taken without its constant wrappers. -/
theorem outcome_popUnwrapped_eq_ok {u : Value} {m' : Machine}
    (h : outcome Exec.popUnwrapped m = (.ok u, m')) :
    ∃ v, m.context.stack.back? = some (.value v) ∧ v.unwrapped = u ∧
      m' = m.withStack m.context.stack.pop := by
  unfold Exec.popUnwrapped at h
  rw [outcome_bind] at h
  split at h
  · rename_i v m₁ hpop
    obtain ⟨hback, rfl⟩ := outcome_popValue hpop
    cases h
    exact ⟨v, hback, rfl, rfl⟩
  · cases h

theorem heap_storeHere (name : String) (v : Value) (m : Machine) :
    (outcome (Exec.storeHere name v) m).2.world.heap = m.world.heap := by
  unfold Exec.storeHere Exec.storeIn
  rw [outcome_bind_ok (outcome_context m), outcome_bind_ok (outcome_scopes m), outcome_bind,
    outcome_liftExcept]
  cases m.world.scopes.setAlways m.context.symbols name v <;> rfl

/-- The names that are taken from the keys of a map; the objects stay the same meanwhile. -/
theorem bindKeys (source : MapObject) (h : Heap)
    (hmiss : ∀ k ∈ K, S k.address.table → ∀ key ∈ source.keys, h.display key ≠ k.name) :
    ScriptMachine.Upholds (fun m => m.Fixes K S ∧ m.world.heap = h) (do
      for key in source.keys do
        let found ← source.get key
        Exec.storeHere (← Exec.display key) (found.getD .null) : Exec Unit) fun _ => True := by
  refine .bind (.forIn fun key hkey => ?_) fun _ _ => .pure trivial
  refine .bind (check _) fun found _ => ?_
  have hdisplay : ScriptMachine.Upholds (fun m => m.Fixes K S ∧ m.world.heap = h)
      (Exec.display key)
      fun name => name = h.display key := fun m hm =>
    ⟨hm, .ok (congrArg (fun g : Heap => g.display key) hm.2)⟩
  have hstore : ScriptMachine.Upholds (fun m => m.Fixes K S ∧ m.world.heap = h)
      (Exec.storeHere (h.display key) (found.getD .null)) fun _ => True := fun m hm =>
    ⟨⟨(storeHere _ _ (fun k hk htable => hmiss k hk htable key hkey) m hm.1).1,
      (heap_storeHere _ _ m).trans hm.2⟩, .any _⟩
  refine .bind hdisplay fun name hname => ?_
  rw [hname]
  exact .bind hstore fun _ _ => .pure trivial

theorem explode (hm : m.Fixes K (· = m.context.symbols))
    (hmiss : ∀ k ∈ K, k.address.table = m.context.symbols → ∀ v r,
      m.context.stack.back? = some (.value v) → v.unwrapped = .map r →
      ∀ key ∈ (m.world.heap.map r).keys, m.world.heap.display key ≠ k.name) :
    (outcome Exec.explode m).2.Fixes K (· = m.context.symbols) := by
  have hquiet := (quiet (S := (· = m.context.symbols)) .popUnwrapped m hm).1
  unfold Exec.explode
  rw [outcome_bind]
  change (outcome Exec.popUnwrapped m).2.Fixes K _ at hquiet
  rcases hpop : outcome Exec.popUnwrapped m with ⟨e | u, m'⟩ <;> rw [hpop] at hquiet
  · exact hquiet
  · obtain ⟨v, hback, hunwrapped, rfl⟩ := outcome_popUnwrapped_eq_ok hpop
    dsimp only
    split
    · rename_i r
      rw [outcome_bind_ok (outcome_heap _)]
      exact (bindKeys _ _ (fun k hk htable => hmiss k hk htable v r hback hunwrapped) _
        ⟨hquiet, rfl⟩).1.1
    · exact hquiet

theorem outcome_lookup (name : String) (m : Machine) : outcome (Exec.lookup name) m =
    match m.world.scopes.get? m.context.symbols name with
    | some v => (.ok v, m)
    | none => (.error (.fault (.about .unknownSymbol name)), m) := by
  show outcome (match m.world.scopes.get? m.context.symbols name with
    | some v => Pure.pure v
    | none => Exec.fail (.about .unknownSymbol name)) m = _
  cases m.world.scopes.get? m.context.symbols name <;> rfl

/-- The address that is taken from a name. -/
theorem storeThrough (operand : Value) (hm : m.Fixes K S)
    (hmiss : ∀ k ∈ K, ∀ name v, operand.string? = some name →
      m.world.scopes.get? m.context.symbols name = some v → v.unwrapped ≠ .pointer k.address) :
    (outcome (Exec.storeThrough operand) m).2.Fixes K S := by
  unfold Exec.storeThrough Exec.operandName
  split
  · rename_i name hname
    rw [outcome_bind_ok (outcome_pure name m), outcome_bind, outcome_lookup]
    cases hfound : m.world.scopes.get? m.context.symbols name with
    | none => exact hm
    | some v =>
      dsimp only
      split
      · exact hm
      · rename_i p hp
        have hstore : Fixing K S (do
            let w ← Exec.popValue
            Exec.setScopes (← (← Exec.scopes).storeVia p w)) fun _ => True :=
          .bind (quiet .popValue) fun w _ => write (.storeVia p w) fun k hk hits =>
            hmiss k hk name v hname hfound (hits ▸ hp)
        exact (hstore m hm).1
      · exact hm
  · exact hm

end Exec.Fixing

end ScriptMachine
