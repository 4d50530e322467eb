import ScriptMachine.Machine.Step
import ScriptMachine.Proofs.Action.Results
import ScriptMachine.Proofs.Arena.Assignments
import ScriptMachine.Proofs.Loops.Binding

/-!
# Types of variables

In static mode a variable that is not nil keeps its type. Four instructions assign to variables that
exist already, and one of them asks for the type.

* `Heap.KeepsTypes`: no variable that is not nil gets a value of a type it does not accept;
  `keepsTypes_iff`.
* `Machine.assignments`: the slots that an instruction assigns to, and their values.
* `Machine.receives_assignments`: what the instruction does to the slots.
* `Machine.static_types_kept_iff`: when the four instructions keep the types of variables.
-/

namespace ScriptMachine

/-! ### Types that are kept -/

namespace Heap

variable {h : Heap} {a b : Arena} {ws : List (Pointer × Value)}

/-- A value may replace another one in a variable: one of them is nil, or the type of the old one
accepts the new one. -/
def Suits (h : Heap) (old new : Value) : Prop :=
  old.isNull = true ∨ new.isNull = true ∨ (h.typeOf old).accepts (h.typeOf new) = true

theorem suits_refl (h : Heap) (v : Value) : h.Suits v v := .inr (.inr (Ty.accepts_refl _))

/-- Every variable that is there before and after has a value that suits the one it had. -/
def KeepsTypes (h : Heap) (a b : Arena) : Prop :=
  ∀ p old new, a.deref p = .ok old → b.deref p = .ok new → h.Suits old new

/-- Types are kept exactly when the assigned values suit. -/
theorem keepsTypes_iff (hreceives : a.Receives b ws) : h.KeepsTypes a b ↔
    ∀ p v old, ws.lookup p = some v → a.deref p = .ok old → h.Suits old v := by
  constructor
  · intro hkeeps p v old hlookup hold
    refine hkeeps p old v hold ?_
    rw [hreceives p old hold, hlookup]
    rfl
  · intro hsuits p old new hold hnew
    rw [hreceives p old hold] at hnew
    cases hnew
    cases hlookup : ws.lookup p with
    | none => exact h.suits_refl old
    | some v => exact hsuits p v old hlookup hold

end Heap

/-! ### What instructions assign -/

/-- The index and the value that the next round of a loop binds. -/
def Heap.round? (h : Heap) (l : Loop) : Option (Value × Value) :=
  match l.walked with
  | .runes items => items[l.position]?.map fun r => (.ofNat r.1, .string (String.singleton r.2))
  | .map r keys =>
    keys[l.position]?.map fun key => (key, (((h.map r).get key).toOption.join).getD .null)
  | .array r => (h.array r).values[l.position]?.map fun v => (.ofNat l.position, v)
  | .channel r =>
    if (h.channel r).isDrained then none
    else (h.channel r).queue.head?.map fun v => (.ofNat l.position, v)

namespace Machine

variable (m : Machine)

/-- The value on top of the stack. -/
def top? : Option Value :=
  match m.context.stack.back? with
  | some (.value v) => some v
  | _ => none

/-- What a name holds, without constant wrappers. -/
def held? (name : String) : Option Value :=
  (m.world.scopes.get? m.context.symbols name).map Value.unwrapped

/-- What an ordinary assignment, an assignment through a pointer, a transfer or a round of a loop
assigns to variables that exist, by address. In a round the value comes after the index. -/
def assignments (i : Instruction) : List (Pointer × Value) :=
  let assigned (binds : Bool) (name : String) (v : Value) : List (Pointer × Value) :=
    m.world.scopes.assigned binds m.context.symbols name v
  match i.op, i.operand.string? with
  | .store, some name =>
    match m.top? with
    | some v => assigned (name != discardName) name v
    | none => []
  | .storeViaPointer, some name =>
    match m.held? name, m.top? with
    | some (.pointer p), some v => [(p, v)]
    | _, _ => []
  | .storeChan, some name =>
    match m.held? name, m.top?.map Value.unwrapped with
    | some (.channel _), _ => []
    | _, some (.channel r) =>
      match (m.world.heap.channel r).queue.head? with
      | some v => assigned (name != discardName) name v
      | none => []
    | _, _ => []
  | .rangeNext, _ =>
    match m.context.loops.head? >>= fun l => (m.world.heap.round? l).map (l, ·) with
    | some (l, index, value) =>
      assigned (Exec.isLoopName l.valueName) l.valueName value ++
        assigned (Exec.isLoopName l.indexName) l.indexName index
    | none => []
  | _, _ => []

end Machine

/-! ### Instructions -/

namespace Exec.Yields

variable {m : Machine}

/-- What the round of a loop binds is as expected. -/
theorem nextOf (l : Loop) : Yields (Exec.nextOf l) m fun found m' =>
    found = m.world.heap.round? l ∧ m'.world.scopes = m.world.scopes ∧ m'.context = m.context := by
  unfold Exec.nextOf Heap.round?
  refine bind (Q := fun h n => h = m.world.heap ∧ n = m)
    (of_outcome (outcome_heap m) ⟨rfl, rfl⟩) ?_
  rintro h n ⟨rfl, rfl⟩
  cases l.walked with
  | runes items => exact of_outcome (outcome_pure _ n) ⟨rfl, rfl, rfl⟩
  | map r keys =>
    dsimp only
    cases hkey : keys[l.position]? with
    | none => exact of_outcome (outcome_pure _ n) ⟨rfl, rfl, rfl⟩
    | some key =>
      dsimp only
      cases hget : (n.world.heap.map r).get key with
      | ok found =>
        refine of_outcome rfl ⟨?_, rfl, rfl⟩
        simp only [Option.map_some, hget]
        rfl
      | error f => exact fun _ _ hout => nomatch hout
  | array r => exact of_outcome (outcome_pure _ n) ⟨rfl, rfl, rfl⟩
  | channel r =>
    dsimp only
    split
    · exact of_outcome (outcome_pure _ n) ⟨rfl, rfl, rfl⟩
    · refine (receive r).bind ?_
      rintro v n' ⟨hhead, hscopes, hcontext⟩
      refine of_outcome (outcome_pure _ n') ⟨?_, hscopes, hcontext⟩
      rw [hhead]
      rfl

/-- A name is assigned to, or binds nothing. -/
theorem storeUnless (binds : Bool) (name : String) (v : Value) :
    Yields (if binds then Exec.store name v else pure ()) m fun _ m' =>
      m.world.scopes.Sets binds m.context.symbols name v m'.world.scopes ∧
        m'.context = m.context := by
  cases binds with
  | false => exact of_outcome (outcome_pure () m) ⟨rfl, rfl⟩
  | true => exact (store name v).imp fun _ _ ⟨id, hset, hcontext⟩ => ⟨⟨id, hset⟩, hcontext⟩

theorem storeLoopName (name : String) (v : Value) : Yields (Exec.storeLoopName name v) m fun _ m' =>
    m.world.scopes.Sets (isLoopName name) m.context.symbols name v m'.world.scopes ∧
      m'.context = m.context :=
  storeUnless (isLoopName name) name v

/-- In static mode the check of an assignment lets suiting values pass. -/
theorem checkStoreType (name : String) (v : Value) : Yields (Exec.checkStoreType name v) m fun _ m' =>
    m' = m ∧ (m.context.staticTypes = true → ∀ old,
      m.world.scopes.get? m.context.symbols name = some old → m.world.heap.Suits old v) := by
  unfold Exec.checkStoreType
  refine bind (Q := fun n n' => n = m ∧ n' = m) (of_outcome (outcome_get m) ⟨rfl, rfl⟩) ?_
  rintro n n' ⟨rfl, rfl⟩
  dsimp only
  split
  · cases hfound : n'.world.scopes.get? n'.context.symbols name with
    | none => exact of_outcome (outcome_pure () n') ⟨rfl, fun _ _ hold => nomatch hold⟩
    | some old =>
      dsimp only
      split
      · exact fail _
      · rename_i hpass
        refine of_outcome (outcome_pure () n') ⟨rfl, fun _ old' hold => ?_⟩
        cases hold
        unfold Heap.Suits
        grind
  · rename_i hskip
    refine of_outcome (outcome_pure () n') ⟨rfl, fun hstatic old _ => ?_⟩
    unfold Heap.Suits
    grind

theorem storeName (operand : Value) : Yields (Exec.storeName operand) m fun _ m' =>
    m.world.scopes.Receives m'.world.scopes (m.assignments ⟨.store, operand⟩) ∧
      (m.context.staticTypes = true →
        ∀ p v old, (m.assignments ⟨.store, operand⟩).lookup p = some v →
          m.world.scopes.deref p = .ok old → m.world.heap.Suits old v) := by
  unfold Exec.storeName
  refine (operandName operand).bind ?_
  rintro name m ⟨hname, rfl⟩
  refine popValue.bind ?_
  rintro v n ⟨hback, hn⟩
  have hassignments : m.assignments ⟨.store, operand⟩ =
      m.world.scopes.assigned (name != discardName) m.context.symbols name v := by
    simp [Machine.assignments, Machine.top?, hname, hback]
  have hscopes : n.world.scopes = m.world.scopes := by rw [hn]; rfl
  have hsymbols : n.context.symbols = m.context.symbols := by rw [hn]; rfl
  rw [hassignments]
  split
  · rename_i hdiscard
    subst hdiscard
    exact of_outcome (outcome_pure () n)
      ⟨hscopes ▸ m.world.scopes.receives_refl, fun _ _ _ _ h => nomatch h⟩
  · rename_i hdiscard
    have hbinds : (name != discardName) = true := by simpa using hdiscard
    refine (checkStoreType name v).bind ?_
    rintro ⟨⟩ _ ⟨rfl, hsuits⟩
    refine (lookup? name).bind ?_
    rintro found n ⟨-, rfl⟩
    dsimp only
    split
    · exact bind (Q := fun _ _ => False) (fail _) fun _ _ hfalse => hfalse.elim
    · have hstore := storeUnless (m := n) (name != discardName) name v
      rw [hbinds] at hstore
      refine hstore.imp ?_
      rintro _ m' ⟨hsets, -⟩
      rw [hscopes, hsymbols] at hsets
      rw [hbinds]
      refine ⟨hsets.receives, fun hstatic p w old hlookup hold => ?_⟩
      obtain ⟨haddress, rfl⟩ := Arena.eq_of_lookup_bound hlookup
      obtain ⟨u, hget, -, hderef, -⟩ := Arena.get?_of_addressOf haddress
      obtain rfl : u = old := Except.ok.inj (hderef.symm.trans hold)
      rw [hscopes, hsymbols, hn] at hsuits
      exact hsuits hstatic u hget

theorem storeThrough (operand : Value) : Yields (Exec.storeThrough operand) m fun _ m' =>
    m.world.scopes.Receives m'.world.scopes (m.assignments ⟨.storeViaPointer, operand⟩) := by
  unfold Exec.storeThrough
  refine (operandName operand).bind ?_
  rintro name m ⟨hname, rfl⟩
  refine (lookup name).bind ?_
  rintro held m ⟨hheld, rfl⟩
  split
  · exact fail _
  · rename_i p hp
    refine popValue.bind ?_
    rintro v n ⟨hback, rfl⟩
    have hassignments : m.assignments ⟨.storeViaPointer, operand⟩ = [(p, v)] := by
      simp [Machine.assignments, Machine.held?, Machine.top?, hname, hback, hheld, hp]
    rw [hassignments]
    refine bind (Q := fun a n' => a = m.world.scopes ∧ n' = m.withStack m.context.stack.pop)
      (of_outcome (outcome_scopes _) ⟨rfl, rfl⟩) ?_
    rintro a n ⟨rfl, rfl⟩
    cases hstore : m.world.scopes.storeVia p v with
    | ok b => exact of_outcome rfl (Arena.receives_storeVia hstore)
    | error f => exact fun _ _ hout => nomatch hout
  · exact fail _

theorem transfer (operand : Value) : Yields (Exec.transfer operand) m fun _ m' =>
    m.world.scopes.Receives m'.world.scopes (m.assignments ⟨.storeChan, operand⟩) := by
  unfold Exec.transfer
  refine (operandName operand).bind ?_
  rintro name m ⟨hname, rfl⟩
  refine (lookup? name).bind ?_
  rintro found m ⟨hfound, rfl⟩
  have hheld : m.held? name = found.map Value.unwrapped := by rw [hfound]; rfl
  split
  · rename_i r hr
    have hassignments : m.assignments ⟨.storeChan, operand⟩ = [] := by
      simp [Machine.assignments, hname, hheld, hr]
    rw [hassignments]
    refine popValue.bind ?_
    rintro v n ⟨-, rfl⟩
    exact (send r v).imp fun _ m' hscopes => hscopes ▸ m.world.scopes.receives_refl
  · rename_i hother
    refine popUnwrapped.bind ?_
    rintro u n ⟨v, hback, rfl, hn⟩
    split
    · rename_i r hr
      refine (receive r).bind ?_
      rintro w n' ⟨hhead, hscopes, hcontext⟩
      rw [hn] at hhead hscopes hcontext
      have hassignments : m.assignments ⟨.storeChan, operand⟩
          = m.world.scopes.assigned (name != discardName) m.context.symbols name w := by
        have htop : m.top?.map Value.unwrapped = some (.channel r) := by
          rw [Machine.top?, hback]
          exact congrArg some hr
        simp only [Machine.assignments, hname, hheld, htop]
        rw [show (m.world.heap.channel r).queue.head? = some w from hhead]
      have hbinds : (if name ≠ discardName then Exec.store name w else pure ())
          = if name != discardName then Exec.store name w else pure () := by simp
      rw [hassignments, hbinds]
      refine (storeUnless (name != discardName) name w).imp ?_
      rintro _ m' ⟨hsets, -⟩
      rw [hscopes, hcontext] at hsets
      exact hsets.receives
    · exact fail _

theorem nextRound (operand : Value) : Yields (Exec.nextRound operand) m fun _ m' =>
    m.world.scopes.Receives m'.world.scopes (m.assignments ⟨.rangeNext, operand⟩) := by
  unfold Exec.nextRound
  refine (branchTarget operand).bind ?_
  rintro leave m rfl
  refine bind (Q := fun c n => m.context = c ∧ m = n)
    (of_outcome (outcome_context m) ⟨rfl, rfl⟩) ?_
  rintro c m ⟨rfl, rfl⟩
  cases hloops : m.context.loops with
  | nil =>
    have hassignments : m.assignments ⟨.rangeNext, operand⟩ = [] := by
      simp [Machine.assignments, hloops]
    rw [hassignments]
    exact of_outcome (outcome_modifyContext _ m) m.world.scopes.receives_refl
  | cons l rest =>
    refine (nextOf l).bind ?_
    rintro found n ⟨rfl, hscopes, hcontext⟩
    cases hround : m.world.heap.round? l with
    | none =>
      have hassignments : m.assignments ⟨.rangeNext, operand⟩ = [] := by
        simp [Machine.assignments, hloops, hround]
      rw [hassignments]
      refine bind (of_outcome (outcome_modifyContext _ n) rfl : Yields _ n fun _ n' =>
        n'.world.scopes = n.world.scopes) ?_
      rintro ⟨⟩ n' hn'
      obtain ⟨heap, hrelease⟩ := outcome_release l n'
      exact of_outcome hrelease ((hn'.trans hscopes) ▸ m.world.scopes.receives_refl)
    | some pair =>
      obtain ⟨index, value⟩ := pair
      have hassignments : m.assignments ⟨.rangeNext, operand⟩
          = m.world.scopes.assigned (isLoopName l.valueName) m.context.symbols l.valueName value ++
            m.world.scopes.assigned (isLoopName l.indexName) m.context.symbols l.indexName
              index := by
        simp [Machine.assignments, hloops, hround]
      rw [hassignments]
      refine bind (of_outcome (outcome_modifyContext _ n) ⟨rfl, rfl⟩ : Yields _ n fun _ n' =>
        n'.world.scopes = n.world.scopes ∧ n'.context.symbols = n.context.symbols) ?_
      rintro ⟨⟩ n' ⟨hscopes', hsymbols'⟩
      rw [hscopes] at hscopes'
      rw [hcontext] at hsymbols'
      refine (storeLoopName l.indexName index).bind ?_
      rintro ⟨⟩ n'' ⟨hindex, hsame⟩
      refine (storeLoopName l.valueName value).imp ?_
      rintro ⟨⟩ m' ⟨hvalue, -⟩
      rw [hsame, hsymbols'] at hvalue
      rw [hscopes', hsymbols'] at hindex
      exact hindex.receives_then hvalue

end Exec.Yields

namespace Machine

open Exec

variable {m m' : Machine} {i : Instruction}

/-- The instructions that assign to variables, and ask no more than whether the name is protected. -/
def IsAssignment (op : Opcode) : Prop :=
  op = .store ∨ op = .storeViaPointer ∨ op = .storeChan ∨ op = .rangeNext

/-- **The slots that an assignment writes.** The slots of its assignments have their values, and all
others keep theirs. -/
theorem receives_assignments (hop : IsAssignment i.op)
    (hout : outcome (execute i) m = (.ok (), m')) :
    m.world.scopes.Receives m'.world.scopes (m.assignments i) := by
  obtain ⟨op, operand⟩ := i
  rcases hop with rfl | rfl | rfl | rfl
  · exact (Yields.storeName operand () m' hout).1
  · exact Yields.storeThrough operand () m' hout
  · exact Yields.transfer operand () m' hout
  · exact Yields.nextRound operand () m' hout

/-- **Only an assignment by name asks for the type.** In static mode an ordinary assignment that
succeeds gives no variable a value of a type that the type of its old value does not accept, unless
one of the two is nil. An assignment through a pointer, a value received from a channel and a round
of a loop leave the types of variables as they are exactly when the values that they assign happen to
suit. -/
theorem static_types_kept_iff (hop : IsAssignment i.op) (hstatic : m.context.staticTypes = true)
    (hout : outcome (execute i) m = (.ok (), m')) :
    m.world.heap.KeepsTypes m.world.scopes m'.world.scopes ↔
      i.op = .store ∨ ∀ p v old, (m.assignments i).lookup p = some v →
        m.world.scopes.deref p = .ok old → m.world.heap.Suits old v := by
  have hkeeps := Heap.keepsTypes_iff (h := m.world.heap) (receives_assignments hop hout)
  refine ⟨fun h => .inr (hkeeps.1 h), fun h => hkeeps.2 ?_⟩
  rcases h with hstore | hsuits
  · obtain ⟨op, operand⟩ := i
    obtain rfl : op = .store := hstore
    exact (Yields.storeName operand () m' hout).2 hstatic
  · exact hsuits

/-- A machine in static mode with a text on its stack, a number in the variable `n` and a pointer to
it in the variable `p`. -/
def retyper : Machine where
  world := { scopes := Arena.initial.put .root (globals.store "p" (.pointer ⟨.root, 0⟩)) }
  context := { (default : Context) with
    symbols := .root
    staticTypes := true
    stack := #[.value (.string "text")] }
where
  globals : Table :=
    ({ name := "Root", parent := none, shared := true, isRoot := true } : Table).store "n" (.ofNat 7)

/-- The assignment through the pointer succeeds, and the number becomes a text. -/
theorem static_types_kept_iff_of_retyper :
    IsAssignment .storeViaPointer ∧ retyper.context.staticTypes = true ∧
      outcome (execute ⟨.storeViaPointer, .string "p"⟩) retyper
        = (.ok (), (outcome (execute ⟨.storeViaPointer, .string "p"⟩) retyper).2) ∧
      ¬ retyper.world.heap.KeepsTypes retyper.world.scopes
        (outcome (execute ⟨.storeViaPointer, .string "p"⟩) retyper).2.world.scopes := by
  have hout : outcome (execute ⟨.storeViaPointer, .string "p"⟩) retyper
      = (.ok (), (outcome (execute ⟨.storeViaPointer, .string "p"⟩) retyper).2) := by
    with_unfolding_all rfl
  refine ⟨.inr (.inl rfl), rfl, hout, fun hkeeps => ?_⟩
  rcases (static_types_kept_iff (i := ⟨.storeViaPointer, .string "p"⟩) (.inr (.inl rfl)) rfl
    hout).1 hkeeps with hstore | hsuits
  · cases hstore
  · have hlookup : (retyper.assignments ⟨.storeViaPointer, .string "p"⟩).lookup ⟨.root, 0⟩
        = some (.string "text") := by with_unfolding_all rfl
    have hold : retyper.world.scopes.deref ⟨.root, 0⟩ = .ok (.ofNat 7) := by with_unfolding_all rfl
    have hnot : ¬ retyper.world.heap.Suits (.ofNat 7) (.string "text") := by
      unfold Heap.Suits
      decide +kernel
    exact hnot (hsuits _ _ _ hlookup hold)

end Machine

end ScriptMachine
