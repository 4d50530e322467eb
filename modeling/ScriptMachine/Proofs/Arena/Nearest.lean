import ScriptMachine.Proofs.Arena.Assignments
import ScriptMachine.Proofs.Arena.Handles

/-!
# The nearest definition

An assignment by name writes the nearest definition of the name, or makes one where the lookup
started. The new definition hides nothing: it is found by the lookups that come to its table before
they meet another definition, and all of these found none.

* `Arena.Climbs`, `Arena.Reaches`: a lookup comes to a table before it meets a definition.
* `finds_put_of_climbs`, `climbs_or_finds_of_put`, `finds_put_or_climbs`: walks before and after a
  table got a name that it did not have.
* `resolve_of_reaches`, `resolve_of_not_reaches`: so the lookups.
* `Arena.SetsNearest`: what an assignment that succeeds does to the slots and to all lookups.
* `set_writes_nearest_definition`: when assignments succeed, and what they do.
-/

namespace ScriptMachine

namespace Arena

/-- The visible definition of a name may not be assigned to. -/
def Protected (a : Arena) (start : TableId) (name : String) : Prop :=
  ∃ id s, a.resolve start name = some (id, s) ∧ s.isProtected = true

/-- A walk comes from a table to `goal`; the tables that it leaves behind do not have the name, and
let it pass. -/
inductive Climbs (a : Arena) (name : String) (goal : TableId) : TableId → Prop
  | here : Climbs a name goal goal
  | up {id parent : TableId} {t : Table} (h : a.table? id = some t)
      (hsymbol : t.symbol? name = none) (hpasses : t.passes = true)
      (hparent : t.parent = some parent) (outer : Climbs a name goal parent) : Climbs a name goal id

/-- A lookup comes to `goal` before it meets a definition of the name: on its walk, or by the last
look at the root. -/
def Reaches (a : Arena) (name : String) (goal id : TableId) : Prop :=
  a.Climbs name goal id ∨ goal = .root ∧ a.resolve id name = none

variable {a b : Arena} {id x goal start : TableId} {t u : Table} {name other : String} {s : Symbol}
  {v : Value} {p : Pointer} {tables : List TableId} {found : TableId × Symbol}

/-! ### A table gets a name -/

/-- What comes to the table finds the name there. -/
theorem finds_put_of_climbs (ht : a.table? goal = some t) (hu : u.symbol? name = some s)
    (h : a.Climbs name goal x) : ∃ tables, (a.put goal u).Finds name x tables (goal, s) := by
  have hgoal : (a.put goal u).table? goal = some u := table?_put_self ht
  induction h with
  | here => exact ⟨[goal], .here hgoal hu⟩
  | @up id parent w hw hsymbol hpasses hparent _ ih =>
    by_cases hid : id = goal
    · subst hid
      exact ⟨[id], .here hgoal hu⟩
    · obtain ⟨tables, hfinds⟩ := ih
      have hkept : (a.put goal u).table? id = some w := by rw [table?_put ht, if_neg hid, hw]
      exact ⟨id :: tables, .up hkept hsymbol hpasses hparent hfinds⟩

/-- A walk that finds the name has come to the table, or went as it did before. -/
theorem climbs_or_finds_of_put (ht : a.table? goal = some t) (hu : u.symbol? name = some s)
    (h : (a.put goal u).Finds name x tables found) :
    a.Climbs name goal x ∧ found = (goal, s) ∨ a.Finds name x tables found := by
  have hgoal : (a.put goal u).table? goal = some u := table?_put_self ht
  induction h with
  | @here id w s' hw hsymbol =>
    by_cases hid : id = goal
    · subst hid
      rw [hgoal] at hw
      cases hw
      rw [hu] at hsymbol
      cases hsymbol
      exact .inl ⟨.here, rfl⟩
    · rw [table?_put ht, if_neg hid] at hw
      exact .inr (.here hw hsymbol)
  | @up id parent w tables found hw hsymbol hpasses hparent _ ih =>
    have hid : id ≠ goal := by
      rintro rfl
      rw [hgoal] at hw
      cases hw
      rw [hu] at hsymbol
      cases hsymbol
    rw [table?_put ht, if_neg hid] at hw
    rcases ih with ⟨hclimbs, hfound⟩ | hfinds
    · exact .inl ⟨.up hw hsymbol hpasses hparent hclimbs, hfound⟩
    · exact .inr (.up hw hsymbol hpasses hparent hfinds)

/-- A walk that found the name goes as before, unless it comes to the table. -/
theorem finds_put_or_climbs (ht : a.table? goal = some t) (hmissing : t.symbol? name = none)
    (h : a.Finds name x tables found) :
    (a.put goal u).Finds name x tables found ∨ a.Climbs name goal x := by
  induction h with
  | @here id w s' hw hsymbol =>
    have hid : id ≠ goal := by
      rintro rfl
      rw [ht] at hw
      cases hw
      rw [hmissing] at hsymbol
      cases hsymbol
    have hkept : (a.put goal u).table? id = some w := by rw [table?_put ht, if_neg hid, hw]
    exact .inl (.here hkept hsymbol)
  | @up id parent w tables found hw hsymbol hpasses hparent _ ih =>
    by_cases hid : id = goal
    · subst hid
      exact .inr .here
    · have hkept : (a.put goal u).table? id = some w := by rw [table?_put ht, if_neg hid, hw]
      rcases ih with hfinds | hclimbs
      · exact .inl (.up hkept hsymbol hpasses hparent hfinds)
      · exact .inr (.up hw hsymbol hpasses hparent hclimbs)

/-- **A lookup that reaches the table** finds the name there. -/
theorem resolve_of_reaches (ht : a.table? goal = some t) (hu : u.symbol? name = some s)
    (h : a.Reaches name goal x) : (a.put goal u).resolve x name = some (goal, s) := by
  rcases h with hclimbs | ⟨rfl, hnone⟩
  · obtain ⟨tables, hfinds⟩ := finds_put_of_climbs ht hu hclimbs
    exact resolve_of_finds hfinds
  · cases hwalk : (a.put .root u).walk name ((a.put .root u).places.size + 1) x with
    | some found =>
      obtain ⟨tables, hfinds⟩ := walk_places_eq_some_iff.1 hwalk
      rcases climbs_or_finds_of_put ht hu hfinds with ⟨-, rfl⟩ | hbefore
      · exact resolve_of_finds hfinds
      · rw [resolve_of_finds hbefore] at hnone
        cases hnone
    | none =>
      rw [resolve_of_walk_eq_none hwalk, table?_put_self ht]
      exact congrArg (Option.map _) hu

/-- **A lookup that does not reach the table** finds what it found. -/
theorem resolve_of_not_reaches (ht : a.table? goal = some t) (hmissing : t.symbol? name = none)
    (hu : u.symbol? name = some s) (h : ¬ a.Reaches name goal x) :
    (a.put goal u).resolve x name = a.resolve x name := by
  have hclimbs : ¬ a.Climbs name goal x := fun hclimbs => h (.inl hclimbs)
  have hwalk : (a.put goal u).walk name ((a.put goal u).places.size + 1) x
      = a.walk name (a.places.size + 1) x := by
    refine Option.ext fun found => ?_
    rw [walk_places_eq_some_iff, walk_places_eq_some_iff]
    constructor
    · rintro ⟨tables, hfinds⟩
      rcases climbs_or_finds_of_put ht hu hfinds with ⟨hcomes, -⟩ | hbefore
      · exact absurd hcomes hclimbs
      · exact ⟨tables, hbefore⟩
    · rintro ⟨tables, hfinds⟩
      exact ⟨tables, (finds_put_or_climbs ht hmissing hfinds).resolve_right hclimbs⟩
  cases hfound : a.walk name (a.places.size + 1) x with
  | some found => rw [resolve, resolve, hwalk, hfound]
  | none =>
    rw [resolve_of_walk_eq_none (hwalk.trans hfound), resolve_of_walk_eq_none hfound,
      table?_put ht]
    split
    · -- The last look at the root would have reached it.
      rename_i hroot
      have hnone : a.resolve x name = none := by
        rw [resolve_of_walk_eq_none hfound, hroot, ht]
        exact congrArg (Option.map _) hmissing
      exact absurd (.inr ⟨hroot.symm, hnone⟩) h
    · rfl

/-- The new definition is seen exactly from where lookups reach its table; from elsewhere the name is
where it was. -/
theorem addressOf_put_new (ht : a.table? goal = some t) (hmissing : t.symbol? name = none)
    (hu : u.symbol? name = some s) (x : TableId) :
    ((a.put goal u).addressOf x name = .ok ⟨goal, s.slot⟩ ↔ a.Reaches name goal x) ∧
      (¬ a.Reaches name goal x → (a.put goal u).addressOf x name = a.addressOf x name) := by
  have helsewhere : ¬ a.Reaches name goal x →
      (a.put goal u).addressOf x name = a.addressOf x name := by
    intro h
    rw [addressOf, addressOf, resolve_of_not_reaches ht hmissing hu h]
  refine ⟨⟨fun haddress => ?_, fun h => ?_⟩, helsewhere⟩
  · by_contra h
    rw [helsewhere h] at haddress
    obtain ⟨-, -, -, -, w, hw, hslot⟩ := get?_of_addressOf haddress
    obtain ⟨s', hs', -⟩ := Table.slot?_eq_some_iff.1 hslot
    rw [ht] at hw
    cases hw
    rw [hmissing] at hs'
    cases hs'
  · rw [addressOf, resolve_of_reaches ht hu h]

/-! ### Assignments -/

/-- An assignment has written the slot `p`, and nothing else. -/
structure SetsNearest (a b : Arena) (start : TableId) (name : String) (v : Value) (p : Pointer) :
    Prop extends Assigns a b p name v where
  /-- The slot is that of the visible definition; if there is none, it is the next slot of the table
  that the assignment started from. -/
  place : a.addressOf start name = .ok p ∨ a.resolve start name = none ∧ p.table = start ∧
    ∃ t, a.table? start = some t ∧ p.slot = t.size
  get?_self : b.get? start name = some v
  /-- A definition keeps its protection, a new one has none. -/
  symbol?_self : (b.table? p.table >>= (·.symbol? name))
    = some ((a.table? p.table >>= (·.symbol? name)).getD ⟨name, p.slot, false, false⟩)
  symbol?_other : ∀ x other, ¬ (x = p.table ∧ other = name) →
    (b.table? x >>= (·.symbol? other)) = (a.table? x >>= (·.symbol? other))
  /-- A lookup that ends at the slot reads the value. -/
  get?_of_address : ∀ x other, b.addressOf x other = .ok p → b.get? x other = some v
  /-- A lookup that does not end there ends where it did, and reads what it read. -/
  unseen : ∀ x other, b.addressOf x other ≠ .ok p →
    b.addressOf x other = a.addressOf x other ∧ b.get? x other = a.get? x other
  /-- A definition that was there is found by the lookups that found it. -/
  addressOf_of_visible : a.addressOf start name = .ok p → ∀ x other,
    b.addressOf x other = a.addressOf x other
  /-- A new definition is found by the lookups of its name that come to the table before they meet
  another definition. -/
  seen_iff : a.resolve start name = none → ∀ x other,
    b.addressOf x other = .ok p ↔ other = name ∧ a.Reaches name start x

/-- A table whose names are those of another, but for one. -/
theorem symbol?_put (ht : a.table? id = some t)
    (hothers : ∀ other, other ≠ name → u.symbol? other = t.symbol? other) (x : TableId)
    (hne : ¬ (x = id ∧ other = name)) :
    ((a.put id u).table? x >>= (·.symbol? other)) = (a.table? x >>= (·.symbol? other)) := by
  rw [table?_put ht]
  split
  · rename_i hx
    rw [hx, ht]
    exact hothers other fun hother => hne ⟨hx, hother⟩
  · rfl

/-- Where the name has a definition, all lookups end where they did. -/
theorem addressOf_store_of_symbol? (ht : a.table? id = some t) (hs : t.symbol? name = some s)
    (x : TableId) (other : String) :
    (a.put id (t.store name v)).addressOf x other = a.addressOf x other := by
  by_cases hother : other = name
  · subst hother
    refine addressOf_put ht ?_ (t.passes_store other v) (t.parent_store other v) x
    rw [Table.symbol?_store_self, hs]
    rfl
  · exact addressOf_store_ne ht hother x

/-- Where it has none, the new definition is seen exactly from where lookups of the name reach its
table; all other lookups end where they did. -/
theorem addressOf_store_new (ht : a.table? id = some t) (hmissing : t.symbol? name = none)
    (x : TableId) (other : String) :
    ((a.put id (t.store name v)).addressOf x other = .ok ⟨id, t.size⟩ ↔
      other = name ∧ a.Reaches name id x) ∧
      ((a.put id (t.store name v)).addressOf x other ≠ .ok ⟨id, t.size⟩ →
        (a.put id (t.store name v)).addressOf x other = a.addressOf x other) := by
  have hnew : (t.store name v).symbol? name = some ⟨name, t.size, false, false⟩ := by
    rw [Table.symbol?_store_self, hmissing]
    rfl
  obtain ⟨hself, helsewhere⟩ := addressOf_put_new ht hmissing hnew x
  by_cases hother : other = name
  · subst hother
    exact ⟨by simpa only [true_and] using hself, fun hne => helsewhere fun h => hne (hself.2 h)⟩
  · refine ⟨iff_of_false (fun haddress => ?_) fun h => hother h.1,
      fun _ => addressOf_store_ne ht hother x⟩
    -- The slot was not handed out before.
    rw [addressOf_store_ne ht hother] at haddress
    obtain ⟨_, -, -, hderef, -⟩ := get?_of_addressOf haddress
    exact absurd (lt_of_deref ht hderef) (Nat.lt_irrefl _)

/-- The definition that the table has of the name then. -/
theorem symbol?_put_store (ht : a.table? id = some t) :
    ((a.put id (t.store name v)).table? id >>= (·.symbol? name))
      = some ((a.table? id >>= (·.symbol? name)).getD ⟨name, t.slotFor name, false, false⟩) := by
  rw [table?_put_self ht, ht]
  refine (t.symbol?_store_self name v).trans ?_
  show some ((t.symbol? name).getD _) = some ((t.symbol? name).getD _)
  cases hsymbol : t.symbol? name with
  | none =>
    rw [Table.slotFor, Table.slot?, hsymbol]
    rfl
  | some s => rfl

/-- **An assignment that succeeds** writes the nearest definition, or makes one. -/
theorem setsNearest_of_set (hset : a.set start name v = .ok (id, b)) :
    ∃ slot, a.SetsNearest b start name v ⟨id, slot⟩ := by
  obtain ⟨t, ht, rfl, hafter, hbefore⟩ := address_of_set hset
  have hassigns := assigns_store ht name v
  have hothers : ∀ x other, ¬ (x = id ∧ other = name) →
      ((a.put id (t.store name v)).table? x >>= (·.symbol? other))
        = (a.table? x >>= (·.symbol? other)) := fun x other =>
    symbol?_put ht (fun other hother => t.symbol?_store_ne hother v) x
  refine ⟨t.slotFor name, ?_⟩
  rcases hbefore with hvisible | ⟨⟨f, hf⟩, hslot⟩
  · -- The definition is there: all lookups end where they did.
    obtain ⟨-, -, -, -, w, hw, hslot⟩ := get?_of_addressOf hvisible
    obtain ⟨s, hs, -⟩ := Table.slot?_eq_some_iff.1 hslot
    rw [ht] at hw
    cases hw
    have hsame := addressOf_store_of_symbol? (v := v) ht hs
    exact {
      toAssigns := hassigns
      place := .inl hvisible
      get?_self := hassigns.get?_of_addressOf hafter
      symbol?_self := symbol?_put_store ht
      symbol?_other := hothers
      get?_of_address := fun x other => hassigns.get?_of_addressOf
      unseen := fun x other hne =>
        ⟨hsame x other, hassigns.get?_of_addressOf_eq (hsame x other) hne⟩
      addressOf_of_visible := fun _ => hsame
      seen_iff := fun hnone => by
        rw [addressOf, hnone] at hvisible
        cases hvisible }
  · -- There is none: the table that the assignment started from gets one.
    have hnone : a.resolve start name = none := by
      unfold addressOf at hf
      split at hf
      · cases hf
      · assumption
    obtain rfl : id = start := by
      have hid : id = ((a.resolve start name).map (·.1)).getD start := (set_eq_ok hset).1
      rw [hnone] at hid
      exact hid
    have hnew := addressOf_store_new (v := v) ht (symbol?_of_resolve_eq_none ht hnone)
    rw [← hslot] at hnew
    exact {
      toAssigns := hassigns
      place := .inr ⟨hnone, rfl, t, ht, hslot⟩
      get?_self := hassigns.get?_of_addressOf hafter
      symbol?_self := symbol?_put_store ht
      symbol?_other := hothers
      get?_of_address := fun x other => hassigns.get?_of_addressOf
      unseen := fun x other hne => by
        have hsame := (hnew x other).2 hne
        exact ⟨hsame, hassigns.get?_of_addressOf_eq hsame hne⟩
      addressOf_of_visible := fun hvisible => by
        rw [hf] at hvisible
        cases hvisible
      seen_iff := fun _ x other => (hnew x other).1 }

/-- An assignment from a table without a visible definition of the name. -/
theorem set_of_resolve_eq_none (h : a.resolve start name = none) (v : Value) :
    a.set start name v = (a.update start (·.store name v)).map (start, ·) := by
  rw [set, h]

/-- A name that is not visible from a table that is gone is not in the root either. -/
theorem resolve_eq_none_of_gone (hgone : a.contains start = false) :
    a.resolve start name = none ↔ a.isLocal .root name = false := by
  have hnone : a.table? start = none := by simpa [contains] using hgone
  rw [resolve_of_gone hnone, isLocal]
  cases (a.table? .root >>= (·.symbol? name)) <;> simp

/-- **How an assignment ends.** -/
theorem set_cases (a : Arena) (start : TableId) (name : String) (v : Value) :
    (a.Protected start name ∧ a.set start name v = .error (.about .readOnly name)) ∨
    (¬ a.Protected start name ∧ a.contains start = false ∧ a.isLocal .root name = false ∧
      a.set start name v = .error (.about .invalidValue ("symbol table " ++ start.text))) ∨
    ¬ a.Protected start name ∧ (a.contains start = true ∨ a.isLocal .root name = true) ∧
      ∃ id b, a.set start name v = .ok (id, b) := by
  cases hfound : a.resolve start name with
  | some found =>
    obtain ⟨id, s⟩ := found
    obtain ⟨⟨t, ht, -⟩, -⟩ := resolve_eq_some hfound
    cases hprotected : s.isProtected with
    | true =>
      refine .inl ⟨⟨id, s, hfound, hprotected⟩, ?_⟩
      simp only [set, hfound, if_pos hprotected]
    | false =>
      refine .inr (.inr ⟨?_, ?_, id, a.put id (t.store name v), ?_⟩)
      · rintro ⟨id', s', hfound', hprotected'⟩
        rw [hfound] at hfound'
        cases hfound'
        rw [hprotected] at hprotected'
        cases hprotected'
      · by_contra hneither
        rw [not_or, Bool.not_eq_true, Bool.not_eq_true] at hneither
        rw [(resolve_eq_none_of_gone hneither.1).2 hneither.2] at hfound
        cases hfound
      · simp only [set, hfound, hprotected, update_of_table? ht]
        rfl
  | none =>
    have hfree : ¬ a.Protected start name := by
      rintro ⟨id, s, hfound', -⟩
      rw [hfound] at hfound'
      cases hfound'
    cases ht : a.table? start with
    | none =>
      have hgone : a.contains start = false := by rw [contains, ht]; rfl
      refine .inr (.inl ⟨hfree, hgone, (resolve_eq_none_of_gone hgone).1 hfound, ?_⟩)
      rw [set_of_resolve_eq_none hfound, update_of_gone ht]
      rfl
    | some t =>
      refine .inr (.inr ⟨hfree, .inl (contains_iff.2 ⟨t, ht⟩), start, a.put start (t.store name v),
        ?_⟩)
      rw [set_of_resolve_eq_none hfound, update_of_table? ht]
      rfl

theorem perform_of_set_eq_ok (h : a.set start name v = .ok (id, b)) :
    (a.perform (.write (.set start name v))).2 = b := by
  have hwrite : a.write (.set start name v) = .ok b := by
    show (a.set start name v).map (·.2) = _
    rw [h]
    rfl
  simp only [perform, hwrite]

/-- What is refused changes nothing. -/
theorem perform_of_set_eq_error {f : Fault} (h : a.set start name v = .error f) :
    (a.perform (.write (.set start name v))).2 = a := by
  have hwrite : a.write (.set start name v) = .error f := by
    show (a.set start name v).map (·.2) = _
    rw [h]
    rfl
  simp only [perform, hwrite]

/-- **Assignments write the nearest definition.** In every arena, whatever its boundaries, shared
tables and dead links, and from every table: an assignment is refused as one to a protected name
exactly if the visible definition is protected; it is refused as one in a table that is gone exactly
if the table is gone and the root does not have the name; there is no other refusal, and a refused
assignment changes nothing. An assignment that succeeds writes one slot, that of the visible
definition or a new one of the table, and changes what is read there and nowhere else. -/
theorem set_writes_nearest_definition (a : Arena) (start : TableId) (name : String) (v : Value) :
    (a.set start name v = .error (.about .readOnly name) ↔ a.Protected start name) ∧
    (a.set start name v = .error (.about .invalidValue ("symbol table " ++ start.text)) ↔
      a.contains start = false ∧ a.isLocal .root name = false) ∧
    (∀ f, a.set start name v = .error f →
      (f = .about .readOnly name ∨ f = .about .invalidValue ("symbol table " ++ start.text)) ∧
      (a.perform (.write (.set start name v))).2 = a) ∧
    ∀ id b, a.set start name v = .ok (id, b) → (a.perform (.write (.set start name v))).2 = b ∧
      ∃ slot, a.SetsNearest b start name v ⟨id, slot⟩ := by
  refine ⟨?_, ?_, ?_, fun id b hset => ⟨perform_of_set_eq_ok hset, setsNearest_of_set hset⟩⟩ <;>
    rcases set_cases a start name v with ⟨hprotected, hset⟩ | ⟨hfree, hgone, hroot, hset⟩ |
      ⟨hfree, hthere, id, b, hset⟩
  · exact iff_of_true hset hprotected
  · exact iff_of_false (by rw [hset]; nofun) hfree
  · exact iff_of_false (by rw [hset]; nofun) hfree
  · refine iff_of_false (by rw [hset]; nofun) fun ⟨hgone, hroot⟩ => ?_
    -- What is protected is visible, though nothing is visible from here.
    obtain ⟨id, s, hfound, -⟩ := hprotected
    rw [(resolve_eq_none_of_gone hgone).2 hroot] at hfound
    cases hfound
  · exact iff_of_true hset ⟨hgone, hroot⟩
  · refine iff_of_false (by rw [hset]; nofun) fun ⟨hgone, hroot⟩ => ?_
    rcases hthere with hlive | hlocal
    · rw [hgone] at hlive
      cases hlive
    · rw [hroot] at hlocal
      cases hlocal
  · intro f hf
    rw [hset] at hf
    cases hf
    exact ⟨.inl rfl, perform_of_set_eq_error hset⟩
  · intro f hf
    rw [hset] at hf
    cases hf
    exact ⟨.inr rfl, perform_of_set_eq_error hset⟩
  · intro f hf
    rw [hset] at hf
    cases hf

/-- What lies behind a boundary is not the nearest definition: the block gets a name of its own. -/
example : (History.called.arena.set ⟨3, 0⟩ "local" (.int 2)).map (·.1) = .ok ⟨3, 0⟩ := rfl

end Arena

end ScriptMachine
