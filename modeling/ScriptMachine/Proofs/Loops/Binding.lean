import ScriptMachine.Proofs.Arena.Pointers
import ScriptMachine.Proofs.Arena.Views
import ScriptMachine.Proofs.Frames.Restoring
import ScriptMachine.Proofs.Loops.Rounds
import ScriptMachine.Proofs.Loops.Winding

/-!
# Names that loops bind

A name may be assigned to when the table it is looked up from is live, and its visible definition,
if it has one, is not protected. An assignment leaves it so. What the head of a loop does when its
names are such: it binds them to what the loop shows next, or leaves the loop.

* `Arena.Assignable`: such a name.
* `Arena.set_of_assignable`: assigning to it succeeds, and what is read of it then.
* `Exec.outcome_storeLoopName`, `Exec.outcome_createLoopName`: the names of a loop.
* `Machine.Loops`: such a head comes next.
* `Finds`: what a loop shows next.
* `Machine.step_binds`: a round binds the names.
* `Machine.step_leaves`: after the last one the loop is left.
-/

namespace ScriptMachine

namespace Table

/-- Binding a name leaves the symbols of the others as they are. -/
theorem symbol?_store_ne (t : Table) {name other : String} (hne : other ≠ name) (v : Value) :
    (t.store name v).symbol? other = t.symbol? other := by
  unfold store
  split
  · rfl
  · show (t.symbols ++ [(⟨name, t.size, false, false⟩ : Symbol)]).find? _ = _
    rw [List.find?_append, List.find?_cons_of_neg (by simpa using hne.symm), List.find?_nil,
      Option.or_none]
    rfl

/-- A name that is bound keeps its symbol, or gets one without protection. -/
theorem symbol?_store_self (t : Table) (name : String) (v : Value) :
    (t.store name v).symbol? name = some ((t.symbol? name).getD ⟨name, t.size, false, false⟩) := by
  unfold store
  split
  · rename_i s hsymbol
    have hsame : (t.writeSlot s.slot v).symbol? name = t.symbol? name := rfl
    rw [hsame, hsymbol]
    rfl
  · rename_i hnone
    have hfind : t.symbols.find? (fun s => s.name == name) = none := hnone
    show (t.symbols ++ [(⟨name, t.size, false, false⟩ : Symbol)]).find? _
      = some ((t.symbols.find? _).getD _)
    rw [List.find?_append, hfind, Option.none_or,
      List.find?_cons_of_pos (by exact beq_self_eq_true _)]
    rfl

theorem passes_store (t : Table) (name : String) (v : Value) :
    (t.store name v).passes = t.passes := by
  unfold store
  split <;> rfl

theorem parent_store (t : Table) (name : String) (v : Value) :
    (t.store name v).parent = t.parent := by
  unfold store
  split <;> rfl

end Table

namespace Arena

variable {a b : Arena} {id start : TableId} {t : Table} {name other : String} {v : Value}
  {p : Pointer}

/-- A name that may be assigned to from a table. -/
structure Assignable (a : Arena) (start : TableId) (name : String) : Prop where
  live : a.contains start = true
  writable : ∀ id s, a.resolve start name = some (id, s) → s.isProtected = false

/-- Lookups of a name whose symbol stayed find the same. -/
theorem resolve_put (ht : a.table? id = some t) {u : Table}
    (hsymbol : u.symbol? other = t.symbol? other) (hpasses : u.passes = t.passes)
    (hparent : u.parent = t.parent) (start : TableId) :
    (a.put id u).resolve start other = a.resolve start other := by
  have hwalk : ∀ steps x, (a.put id u).walk other steps x = a.walk other steps x := by
    intro steps
    induction steps with
    | zero => exact fun _ => rfl
    | succ steps ih =>
      intro x
      rw [walk, walk, table?_put ht]
      by_cases hx : x = id
      · subst hx
        rw [if_pos rfl, ht]
        dsimp only
        rw [hsymbol, hpasses, hparent]
        split
        · rfl
        · split
          · cases t.parent with
            | none => rfl
            | some p => exact ih p
          · rfl
      · rw [if_neg hx]
        cases a.table? x with
        | none => rfl
        | some w =>
          dsimp only
          split
          · rfl
          · split
            · cases w.parent with
              | none => rfl
              | some p => exact ih p
            · rfl
  have hroot : ((a.put id u).table? .root >>= (·.symbol? other))
      = (a.table? .root >>= (·.symbol? other)) := by
    rw [table?_put ht]
    split
    · rename_i hid
      rw [hid, ht]
      exact hsymbol
    · rfl
  have hsize : (a.put id u).places.size = a.places.size := Array.size_modify
  rw [resolve, resolve, hsize, hwalk, hroot]

theorem addressOf_put (ht : a.table? id = some t) {u : Table}
    (hsymbol : u.symbol? other = t.symbol? other) (hpasses : u.passes = t.passes)
    (hparent : u.parent = t.parent) (start : TableId) :
    (a.put id u).addressOf start other = a.addressOf start other := by
  rw [addressOf, addressOf, resolve_put ht hsymbol hpasses hparent]

/-- A name that a table has is found there. -/
theorem resolve_of_symbol? (ht : a.table? id = some t) {s : Symbol}
    (hsymbol : t.symbol? name = some s) : a.resolve id name = some (id, s) := by
  rw [resolve, walk, ht]
  dsimp only
  rw [hsymbol]

theorem symbol?_of_resolve_eq_none (ht : a.table? id = some t) (h : a.resolve id name = none) :
    t.symbol? name = none := by
  cases hsymbol : t.symbol? name with
  | none => rfl
  | some s =>
    rw [resolve_of_symbol? ht hsymbol] at h
    cases h

/-- Binding a name concerns no lookup of another one. -/
theorem resolve_store_ne (ht : a.table? id = some t) (hother : other ≠ name) (x : TableId) :
    (a.put id (t.store name v)).resolve x other = a.resolve x other :=
  resolve_put ht (t.symbol?_store_ne hother v) (t.passes_store name v) (t.parent_store name v) x

theorem addressOf_store_ne (ht : a.table? id = some t) (hother : other ≠ name) (x : TableId) :
    (a.put id (t.store name v)).addressOf x other = a.addressOf x other := by
  rw [addressOf, addressOf, resolve_store_ne ht hother]

/-- What is read in the slots that were not written is what was read. -/
theorem Assigns.get?_of_addressOf_eq (h : a.Assigns b p name v) {x : TableId}
    (hsame : b.addressOf x other = a.addressOf x other) (hne : b.addressOf x other ≠ .ok p) :
    b.get? x other = a.get? x other := by
  rw [get?_eq_deref, get?_eq_deref, ← hsame]
  cases hq : b.addressOf x other with
  | error f => rfl
  | ok q =>
    refine congrArg Except.toOption ((h.deref q).trans (if_neg ?_))
    rintro rfl
    exact hne hq

theorem Assigns.get?_of_addressOf (h : a.Assigns b p name v) {x : TableId}
    (haddress : b.addressOf x other = .ok p) : b.get? x other = some v := by
  rw [get?_eq_deref, haddress]
  exact congrArg Except.toOption ((h.deref p).trans (if_pos rfl))

/-- What an assignment to a name has done. -/
structure Assigned (a b : Arena) (start : TableId) (name : String) (v : Value) : Prop where
  get?_self : b.get? start name = some v
  get?_other : ∀ other, other ≠ name → b.get? start other = a.get? start other
  assignable : ∀ other, a.Assignable start other → b.Assignable start other
  outline : b.outline = a.outline

/-- The table that is written has the name already, or it is the one the lookup starts from. The name
is found there afterwards, without protection. -/
theorem exists_store_of_assignable (h : a.Assignable start name) (v : Value) :
    ∃ id t s, a.table? id = some t ∧ a.set start name v = .ok (id, a.put id (t.store name v)) ∧
      (a.put id (t.store name v)).resolve start name = some (id, s) ∧
      s.slot = t.slotFor name ∧ s.isProtected = false := by
  cases hfound : a.resolve start name with
  | some found =>
    obtain ⟨id, s⟩ := found
    obtain ⟨⟨t, ht, hsymbol⟩, -⟩ := resolve_eq_some hfound
    have hopen := h.writable id s hfound
    have hstays : (t.store name v).symbol? name = t.symbol? name := by
      rw [Table.symbol?_store_self, hsymbol]
      rfl
    refine ⟨id, t, s, ht, ?_, ?_, ?_, hopen⟩
    · rw [set, hfound]
      dsimp only
      rw [hopen, update_of_table? ht]
      rfl
    · rw [resolve_put ht hstays (t.passes_store name v) (t.parent_store name v), hfound]
    · rw [Table.slotFor, Table.slot?, hsymbol]
      rfl
  | none =>
    obtain ⟨t, ht⟩ := Option.isSome_iff_exists.1 h.live
    have hnone := symbol?_of_resolve_eq_none ht hfound
    have hnew : (t.store name v).symbol? name = some ⟨name, t.size, false, false⟩ := by
      rw [Table.symbol?_store_self, hnone]
      rfl
    refine ⟨start, t, _, ht, ?_, resolve_of_symbol? (table?_put_self ht) hnew, ?_, rfl⟩
    · rw [set, hfound]
      dsimp only
      rw [update_of_table? ht]
      rfl
    · rw [Table.slotFor, Table.slot?, hnone]
      rfl

/-- **Assigning to such a name succeeds.** -/
theorem set_of_assignable (h : a.Assignable start name) (v : Value) :
    ∃ id b, a.set start name v = .ok (id, b) ∧ a.Assigned b start name v := by
  obtain ⟨id, t, s, ht, hset, hfinds, hslot, hopen⟩ := exists_store_of_assignable h v
  have hassigns := assigns_store ht name v
  have haddress : (a.put id (t.store name v)).addressOf start name
      = .ok ⟨id, t.slotFor name⟩ := by
    rw [addressOf, hfinds, ← hslot]
  refine ⟨id, _, hset, hassigns.get?_of_addressOf haddress, fun other hne => ?_,
    fun other hother => ⟨?_, fun x s' hs => ?_⟩, hassigns.outline⟩
  · refine hassigns.get?_of_addressOf_eq (addressOf_store_ne ht hne start) fun hsame => ?_
    rw [addressOf_store_ne ht hne] at hsame
    obtain ⟨-, -, -, -, w, hw, hslotq⟩ := get?_of_addressOf hsame
    rw [ht] at hw
    cases hw
    exact Table.ne_slotFor hslotq hne rfl
  · rw [contains_congr hassigns.outline]
    exact hother.live
  · by_cases hne : other = name
    · subst hne
      rw [hfinds] at hs
      cases hs
      exact hopen
    · rw [resolve_store_ne ht hne] at hs
      exact hother.writable x s' hs

/-- Defining a name that the table lacks succeeds while it is live. -/
theorem create_of_live (h : a.contains start = true) (hnew : a.isLocal start name = false) :
    ∃ b, a.create start name = .ok b := by
  obtain ⟨t, ht⟩ := Option.isSome_iff_exists.1 h
  have hnone : t.symbol? name = none := by
    rw [isLocal, ht] at hnew
    exact Option.isNone_iff_eq_none.1 (by simpa using hnew)
  exact ⟨a.put start (t.store name .null), by simp [create, table, ht, hnone, bind, Except.bind, pure, Except.pure]⟩

end Arena

namespace Exec

open Machine

/-- **A name that may be assigned to gets the value.** -/
theorem outcome_storeLoopName {name : String} (hname : isLoopName name = true) {m : Machine}
    (h : m.world.scopes.Assignable m.context.symbols name) (v : Value) :
    ∃ scopes journal, outcome (storeLoopName name v) m
        = (.ok (), { m with world := { m.world with scopes, journal } }) ∧
      m.world.scopes.Assigned scopes m.context.symbols name v := by
  obtain ⟨id, b, hset, hassigned⟩ := Arena.set_of_assignable h v
  have hassign : ∃ journal, (World.assign m.context.symbols name v).run m.world
      = (.ok (), { m.world with scopes := b, journal }) := by
    unfold World.assign
    simp only [StateT.run_bind, StateT.run_get, pure_bind, hset]
    exact ⟨_, rfl⟩
  obtain ⟨journal, hassign⟩ := hassign
  refine ⟨b, journal, ?_, hassigned⟩
  rw [storeLoopName, if_pos hname, store, outcome_bind_ok (outcome_context m),
    outcome_bind_ok (outcome_onWorld _ m), hassign]
  rfl

/-- The names of a loop are defined where its code runs. -/
theorem outcome_createLoopName (name : String) {m : Machine}
    (h : m.world.scopes.contains m.context.symbols = true) :
    ∃ scopes, outcome (createLoopName name) m
        = (.ok (), { m with world := { m.world with scopes } }) ∧
      scopes.outline = m.world.scopes.outline := by
  rw [createLoopName, outcome_bind_ok (outcome_get m)]
  by_cases hneeded : (isLoopName name && !m.world.scopes.isLocal m.context.symbols name) = true
  · rw [Bool.and_eq_true, Bool.not_eq_true'] at hneeded
    obtain ⟨b, hb⟩ := Arena.create_of_live h hneeded.2
    refine ⟨b, ?_, Arena.outline_of_create hb⟩
    rw [if_pos (by rw [hneeded.1, hneeded.2]; rfl), create, outcome_bind_ok (outcome_scopes m),
      outcome_bind_ok (outcome_context m), outcome_bind, outcome_liftExcept, hb]
    rfl
  · rw [if_neg hneeded]
    exact ⟨m.world.scopes, rfl, rfl⟩

end Exec

/-! ### At the head of a loop -/

/-- What a loop shows next; it depends on the objects alone. -/
def Loop.Finds (l : Loop) (h : Heap) (found : Option (Value × Value)) : Prop :=
  ∀ m : Machine, m.world.heap = h → Exec.outcome (Exec.nextOf l) m = (.ok found, m)

namespace Exec

variable {m : Machine} {operand index value : Value} {l : Loop} {rest : List Loop} {exit : Nat}

theorem outcome_nextRound_of_some (hexit : operand.toIndex = .ok exit)
    (hlt : exit < m.context.code.size) (hloops : m.context.loops = l :: rest)
    (hfinds : l.Finds m.world.heap (some (index, value))) :
    outcome (nextRound operand) m = outcome (do
      storeLoopName l.indexName index
      storeLoopName l.valueName value)
      { m with context := { m.context with loops := l.advanced :: rest } } := by
  rw [nextRound, outcome_bind_ok (outcome_branchTarget_of_lt hexit hlt),
    outcome_bind_ok (outcome_context m)]
  dsimp only
  rw [hloops]
  dsimp only
  rw [outcome_bind_ok (hfinds m rfl)]
  rfl

theorem outcome_nextRound_of_none (hexit : operand.toIndex = .ok exit)
    (hlt : exit < m.context.code.size) (hloops : m.context.loops = l :: rest)
    (hfinds : l.Finds m.world.heap none) :
    outcome (nextRound operand) m
      = outcome (release l) { m with context := { m.context with pc := exit, loops := rest } } := by
  rw [nextRound, outcome_bind_ok (outcome_branchTarget_of_lt hexit hlt),
    outcome_bind_ok (outcome_context m)]
  dsimp only
  rw [hloops]
  dsimp only
  rw [outcome_bind_ok (hfinds m rfl)]
  rfl

/-- Releasing what a loop walked changes the objects alone. -/
theorem outcome_release (l : Loop) (m : Machine) : ∃ heap, outcome (release l) m
    = (.ok (), { m with world := { m.world with heap } }) := by
  obtain ⟨i, x, walked, position⟩ := l
  cases walked <;> exact ⟨_, rfl⟩

end Exec

namespace Machine

/-- The head of a loop over two names comes next. It leads out to an address, and the names may be
assigned to. -/
structure Loops (m : Machine) (indexName valueName : String) (exit : Nat) : Prop where
  going : m.ended = none
  leads : ∃ operand, m.next? = some ⟨.rangeNext, operand⟩ ∧ operand.toIndex = .ok exit
  exit_lt : exit < m.context.code.size
  index : m.world.scopes.Assignable m.context.symbols indexName
  value : m.world.scopes.Assignable m.context.symbols valueName

/-- The names of a loop have their values, and its body comes next. -/
structure Binds (m m' : Machine) (indexName valueName : String) (index value : Value) : Prop where
  pc_eq : m'.context.pc = m.context.pc + 1
  symbols_eq : m'.context.symbols = m.context.symbols
  value_eq : m'.world.scopes.get? m'.context.symbols valueName = some value
  index_eq : indexName ≠ valueName →
    m'.world.scopes.get? m'.context.symbols indexName = some index

variable {m : Machine} {l : Loop} {rest : List Loop} {exit : Nat} {index value : Value}

/-- **A round binds the names** of the loop to what it shows. -/
theorem step_binds (h : m.Loops l.indexName l.valueName exit)
    (hindex : Exec.isLoopName l.indexName = true) (hvalue : Exec.isLoopName l.valueName = true)
    (hloops : m.context.loops = l :: rest) (hfinds : l.Finds m.world.heap (some (index, value))) :
    m.Binds m.step.1 l.indexName l.valueName index value ∧
      m.step.1.context.loops = l.advanced :: rest ∧ m.step.1.suspended = m.suspended := by
  obtain ⟨operand, hnext, hexit⟩ := h.leads
  obtain ⟨journal, running, observer, hattempt⟩ := attempt_of_next h.going hnext
  have hround := hattempt.trans (Exec.outcome_nextRound_of_some hexit h.exit_lt hloops hfinds)
  obtain ⟨scopes₁, journal₁, hfirst, hassigned₁⟩ := Exec.outcome_storeLoopName hindex
    (m := { m with
      world := { m.world with journal }
      context := { m.context with
        pc := m.context.pc + 1, running, observer, loops := l.advanced :: rest } }) h.index index
  rw [Exec.outcome_bind_ok hfirst] at hround
  obtain ⟨scopes₂, journal₂, hsecond, hassigned₂⟩ := Exec.outcome_storeLoopName hvalue
    (m := { m with
      world := { m.world with scopes := scopes₁, journal := journal₁ }
      context := { m.context with
        pc := m.context.pc + 1, running, observer, loops := l.advanced :: rest } })
    (hassigned₁.assignable _ h.value) value
  rw [hsecond] at hround
  rw [step_of_attempt_ok hround]
  refine ⟨⟨rfl, rfl, hassigned₂.get?_self, fun hne => ?_⟩, rfl, rfl⟩
  exact (hassigned₂.get?_other _ hne).trans hassigned₁.get?_self

/-- **After the last round the loop is left**, and what it walked is released. -/
theorem step_leaves (h : m.Loops l.indexName l.valueName exit)
    (hloops : m.context.loops = l :: rest) (hfinds : l.Finds m.world.heap none) :
    m.step.1.context.pc = exit ∧ m.step.1.context.loops = rest ∧
      m.step.1.suspended = m.suspended ∧ ∀ c, m.step.1.world.heap.freezes c
        = m.world.heap.freezes c - if l.walks c then 1 else 0 := by
  obtain ⟨operand, hnext, hexit⟩ := h.leads
  obtain ⟨journal, running, observer, hattempt⟩ := attempt_of_next h.going hnext
  have hround := hattempt.trans (Exec.outcome_nextRound_of_none hexit h.exit_lt hloops hfinds)
  obtain ⟨m', hrelease, -, hends⟩ := Exec.release_ends l rest (m := { m with
      world := { m.world with journal }
      context := { m.context with pc := exit, running, observer } }) hloops
  obtain ⟨heap, hheap⟩ := Exec.outcome_release l { m with
      world := { m.world with journal }
      context := { m.context with pc := exit, running, observer, loops := rest } }
  have hstep := step_of_attempt_ok (hround.trans hheap)
  rw [hheap] at hrelease
  obtain rfl := (Prod.mk.inj hrelease).2
  rw [hstep]
  refine ⟨rfl, rfl, rfl, fun c => ?_⟩
  have hfreezes := hends.freezes_eq c
  rwa [List.countP_singleton] at hfreezes

end Machine

end ScriptMachine
