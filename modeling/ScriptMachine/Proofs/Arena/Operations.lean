import ScriptMachine.Proofs.Scopes.Growth

/-!
# Operations on arenas

What may be done to an arena of symbol tables, as data. Each operation has one of four effects: a
table is made, a table is removed, a live table is rewritten, or nothing happens.

* `Arena.Write`, `Arena.Operation`: writes, and operations in general.
* `Arena.Write.onTable`, `Arena.target`: what a write makes of which table.
* `Arena.write_eq_ok`: a write that succeeds rewrites its target and nothing else.
* `Arena.perform_effect`: the effect of an operation.
* `Arena.Touches`, `table?_perform`: a table that an operation does not touch stays as it is.
-/

namespace ScriptMachine

/-- What keeps the outline of a table keeps its place in the scope chain. -/
theorem Table.place_of_outline {t u : Table} (h : u.outline = t.outline) :
    u.parent = t.parent ∧ u.isRoot = t.isRoot := by
  have hparent : u.outline.parent = t.outline.parent := congrArg Table.parent h
  have hroot : u.outline.isRoot = t.outline.isRoot := congrArg Table.isRoot h
  exact ⟨hparent, hroot⟩

namespace Arena

/-- A write: to the names of a table, through an address, or to the attributes of a table. -/
inductive Write where
  | set (start : TableId) (name : String) (v : Value)
  | setAlways (id : TableId) (name : String) (v : Value)
  | setConstant (id : TableId) (name : String) (v : Value)
  | setReadonly (id : TableId) (name : String) (readonly : Bool)
  | create (id : TableId) (name : String)
  | delete (id : TableId) (name : String) (always : Bool)
  | storeVia (p : Pointer) (v : Value)
  | setBoundary (id : TableId) (boundary : Bool)
  | setShared (id : TableId) (shared : Bool)
  | setPackage (id : TableId) (package : String)

/-- An operation on an arena. Reads are none: they change nothing. -/
inductive Operation where
  | newChild (name : String) (parent : TableId) (boundary : Bool)
  | newTable (name : String)
  | clone (source : TableId) (name : String)
  | remove (id : TableId)
  | write (w : Write)

/-- The handle that a write is made through. -/
def Write.handle : Write → TableId
  | .set start _ _ => start
  | .storeVia p _ => p.table
  | .setAlways id _ _ | .setConstant id _ _ | .setReadonly id _ _ | .create id _ | .delete id _ _
  | .setBoundary id _ | .setShared id _ | .setPackage id _ => id

/-- The handles that an operation uses. -/
def Operation.handles : Operation → List TableId
  | .newChild _ parent _ => [parent]
  | .newTable _ => []
  | .clone source _ => [source]
  | .remove id => [id]
  | .write w => [w.handle]

/-- What a write makes of the table that it is made to. -/
def Write.onTable (t : Table) : Write → Table
  | .set _ name v | .setAlways _ name v => t.store name v
  | .setConstant _ name v => (t.store name v).mark name fun s => { s with constant := true }
  | .setReadonly _ name readonly => t.mark name fun s => { s with readonly }
  | .create _ name => t.store name .null
  | .delete _ name _ => t.forget name
  | .storeVia p v => t.writeSlot p.slot v
  | .setBoundary _ boundary => { t with boundary }
  | .setShared _ shared => { t with shared }
  | .setPackage _ package => { t with package }

/-- Writes keep a table in its place in the scope chain. -/
theorem Write.place_onTable (t : Table) (w : Write) :
    (w.onTable t).parent = t.parent ∧ (w.onTable t).isRoot = t.isRoot := by
  cases w with
  | set start name v => exact Table.place_of_outline (t.outline_store name v)
  | setAlways id name v => exact Table.place_of_outline (t.outline_store name v)
  | setConstant id name v => exact Table.place_of_outline (t.outline_store name v)
  | create id name => exact Table.place_of_outline (t.outline_store name .null)
  | delete id name always => exact Table.place_of_outline (t.outline_forget name)
  | _ => exact ⟨rfl, rfl⟩

variable {a b : Arena} {id x : TableId} {t : Table}

/-- The table that a write is made to. -/
def target (a : Arena) (w : Write) : TableId :=
  match w with
  | .set start name _ => ((a.resolve start name).map (·.1)).getD start
  | w => w.handle

/-- A write, or the fault that refuses it. -/
def write (a : Arena) : Write → Except Fault Arena
  | .set start name v => (a.set start name v).map (·.2)
  | .setAlways id name v => a.setAlways id name v
  | .setConstant id name v => a.setConstant id name v
  | .setReadonly id name readonly => a.setReadonly id name readonly
  | .create id name => a.create id name
  | .delete id name always => a.delete id name always
  | .storeVia p v => a.storeVia p v
  | .setBoundary id boundary => a.setBoundary id boundary
  | .setShared id shared => a.setShared id shared
  | .setPackage id package => a.setPackage id package

/-- The handle of the table that an operation makes, and the arena afterwards; what is refused
changes nothing. -/
def perform (a : Arena) : Operation → Option TableId × Arena
  | .newChild name parent boundary =>
    let (id, b) := a.newChild name parent boundary
    (some id, b)
  | .newTable name =>
    let (id, b) := a.newTable name
    (some id, b)
  | .clone source name =>
    match a.clone source name with
    | .ok (id, b) => (some id, b)
    | .error _ => (none, a)
  | .remove id => (none, a.remove id)
  | .write w =>
    match a.write w with
    | .ok b => (none, b)
    | .error _ => (none, a)

/-- The handle of the table that an operation removes: the root stays, and what is gone cannot be
removed again. -/
def removal (a : Arena) : Operation → Option TableId
  | .remove id => if id ≠ .root ∧ a.contains id = true then some id else none
  | _ => none

theorem parent?_of_table? (h : a.table? id = some t) : a.parent? id = t.parent := by
  simp [parent?, h]

/-- Putting back what is there changes nothing. -/
theorem put_self (h : a.table? id = some t) : a.put id t = a := by
  have hplace := place_of_table? h
  unfold put
  congr
  apply Array.ext_getElem?
  intro i
  rw [Array.getElem?_modify]
  by_cases hi : id.index = i
  · rw [if_pos hi, ← hi, hplace]
    rfl
  · rw [if_neg hi]

/-- What is done to a table succeeds only if the table is live. -/
theorem table_bind_eq_ok {α : Type} {f : Table → Except Fault α} {r : α}
    (h : a.table id >>= f = .ok r) : ∃ t, a.table? id = some t ∧ f t = .ok r := by
  cases ht : a.table id with
  | error e =>
    rw [ht] at h
    cases h
  | ok t =>
    rw [ht] at h
    exact ⟨t, table?_of_table ht, h⟩

theorem update_eq_ok {f : Table → Table} (h : a.update id f = .ok b) :
    ∃ t, a.table? id = some t ∧ b = a.put id (f t) := by
  obtain ⟨t, ht, hput⟩ := table_bind_eq_ok h
  cases hput
  exact ⟨t, ht, rfl⟩

theorem setReadonly_eq_ok {name : String} {readonly : Bool}
    (h : a.setReadonly id name readonly = .ok b) : ∃ t, a.table? id = some t ∧
      b = a.put id (t.mark name fun s => { s with readonly }) := by
  obtain ⟨t, ht, hmark⟩ := table_bind_eq_ok h
  split at hmark
  · cases hmark
    exact ⟨t, ht, rfl⟩
  · cases hmark

theorem create_eq_ok {name : String} (h : a.create id name = .ok b) :
    ∃ t, a.table? id = some t ∧ t.symbol? name = none ∧ b = a.put id (t.store name .null) := by
  obtain ⟨t, ht, hstore⟩ := table_bind_eq_ok h
  split at hstore
  · cases hstore
  · rename_i hnew
    cases hstore
    exact ⟨t, ht, by simpa using hnew, rfl⟩

/-- A name that is not there may be deleted too: that changes nothing. -/
theorem delete_eq_ok {name : String} {always : Bool} (h : a.delete id name always = .ok b) :
    ∃ t, a.table? id = some t ∧ b = a.put id (t.forget name) := by
  obtain ⟨t, ht, hforget⟩ := table_bind_eq_ok h
  split at hforget
  · rename_i hmissing
    split at hforget
    · cases hforget
      have hsame : t.forget name = t := by
        unfold Table.forget
        split
        · rename_i s hs
          rw [hmissing] at hs
          cases hs
        · rfl
      exact ⟨t, ht, by rw [hsame, put_self ht]⟩
    · cases hforget
  · split at hforget
    · cases hforget
    · cases hforget
      exact ⟨t, ht, rfl⟩

theorem storeVia_eq_ok {p : Pointer} {v : Value} (h : a.storeVia p v = .ok b) :
    ∃ t, a.table? p.table = some t ∧ p.slot < t.size ∧
      b = a.put p.table (t.writeSlot p.slot v) := by
  unfold storeVia at h
  split at h
  · rename_i t ht
    split at h
    · rename_i hslot
      cases h
      exact ⟨t, ht, hslot, rfl⟩
    · cases h
  · cases h

/-- An assignment binds the name in its target. -/
theorem set_eq_ok {start : TableId} {name : String} {v : Value}
    (h : a.set start name v = .ok (id, b)) : id = a.target (.set start name v) ∧
      ∃ t, a.table? id = some t ∧ b = a.put id (t.store name v) := by
  have hupdate : ∀ {i : TableId}, (a.update i (·.store name v)).map (i, ·) = .ok (id, b) →
      id = i ∧ ∃ t, a.table? id = some t ∧ b = a.put id (t.store name v) := by
    intro i hmap
    cases hr : a.update i (·.store name v) with
    | error e =>
      rw [hr] at hmap
      cases hmap
    | ok c =>
      rw [hr] at hmap
      cases hmap
      exact ⟨rfl, update_eq_ok hr⟩
  unfold set at h
  unfold target
  split at h
  · rename_i found s hfound
    split at h
    · cases h
    · simpa [hfound] using hupdate h
  · rename_i hnone
    simpa [hnone] using hupdate h

/-- **A write that succeeds rewrites the table that it is made to**, and nothing else. -/
theorem write_eq_ok {w : Write} (h : a.write w = .ok b) :
    ∃ t, a.table? (a.target w) = some t ∧ b = a.put (a.target w) (w.onTable t) := by
  cases w with
  | set start name v =>
    change (a.set start name v).map (·.2) = .ok b at h
    cases hset : a.set start name v with
    | error e =>
      rw [hset] at h
      cases h
    | ok r =>
      obtain ⟨id, c⟩ := r
      rw [hset] at h
      cases h
      obtain ⟨rfl, t, ht, rfl⟩ := set_eq_ok hset
      exact ⟨t, ht, rfl⟩
  | setAlways id name v => exact update_eq_ok h
  | setConstant id name v => exact update_eq_ok h
  | setReadonly id name readonly => exact setReadonly_eq_ok h
  | create id name =>
    obtain ⟨t, ht, -, hb⟩ := create_eq_ok h
    exact ⟨t, ht, hb⟩
  | delete id name always => exact delete_eq_ok h
  | storeVia p v =>
    obtain ⟨t, ht, -, hb⟩ := storeVia_eq_ok h
    exact ⟨t, ht, hb⟩
  | setBoundary id boundary => exact update_eq_ok h
  | setShared id shared => exact update_eq_ok h
  | setPackage id package => exact update_eq_ok h

/-- A clone is a new table with the parent of its source. -/
theorem clone_eq_ok {source : TableId} {name : String} {made : TableId × Arena}
    (h : a.clone source name = .ok made) : ∃ s t, a.table? source = some s ∧
      t.parent = s.parent ∧ t.isRoot = false ∧ made = a.insert t := by
  obtain ⟨s, hs, hmade⟩ := table_bind_eq_ok h
  cases hmade
  -- The symbols of the source are bound in the clone one after the other.
  have hfold : ∀ {f : Table → Symbol → Table}, (∀ c u, (f c u).outline = c.outline) →
      ∀ (symbols : List Symbol) (c : Table), (symbols.foldl f c).outline = c.outline := by
    intro f hf symbols
    induction symbols with
    | nil => exact fun _ => rfl
    | cons u rest ih => exact fun c => (ih (f c u)).trans (hf c u)
  refine ⟨s, _, hs, ?_, ?_, rfl⟩
  · exact (Table.place_of_outline (hfold (fun c u => by simp) s.symbols _)).1
  · exact (Table.place_of_outline (hfold (fun c u => by simp) s.symbols _)).2

/-- The effect of an operation on an arena: the handle of the table that it makes, that of the table
that it removes, and the arena afterwards. -/
inductive Operation.Effect (a : Arena) :
    Operation → Option TableId → Option TableId → Arena → Prop
  /-- A table is made; its parent is a handle that was used, or the parent of such a table. -/
  | creates {op : Operation} (t : Table) (plain : t.isRoot = false)
      (parent : ∀ p, t.parent = some p →
        p ∈ op.handles ∨ ∃ source ∈ op.handles, a.parent? source = some p) :
      Effect a op (some (a.insert t).1) none (a.insert t).2
  | removes {id : TableId} (inner : id ≠ .root) (live : a.contains id = true) :
      Effect a (.remove id) none (some id) (a.remove id)
  | writes {w : Write} {t : Table} (live : a.table? (a.target w) = some t)
      (succeeds : a.write w = .ok (a.put (a.target w) (w.onTable t))) :
      Effect a (.write w) none none (a.put (a.target w) (w.onTable t))
  | nothing {op : Operation} : Effect a op none none a

/-- **Every operation has one of four effects.** -/
theorem perform_effect (a : Arena) (op : Operation) :
    op.Effect a (a.perform op).1 (a.removal op) (a.perform op).2 := by
  cases op with
  | newChild name parent boundary =>
    refine .creates _ rfl fun p hp => .inl ?_
    cases hp
    exact List.mem_singleton.2 rfl
  | newTable name =>
    refine .creates _ rfl fun p hp => ?_
    cases hp
  | clone source name =>
    cases h : a.clone source name with
    | error f =>
      simp only [perform, h]
      exact .nothing
    | ok made =>
      obtain ⟨s, t, hs, hparent, hroot, rfl⟩ := clone_eq_ok h
      simp only [perform, h]
      refine .creates t hroot fun p hp => .inr ⟨source, by simp [Operation.handles], ?_⟩
      rw [parent?_of_table? hs, ← hparent]
      exact hp
  | remove id =>
    by_cases h : id ≠ .root ∧ a.contains id = true
    · simp only [perform, removal, if_pos h]
      exact .removes h.1 h.2
    · have hkept : a.remove id = a := by
        unfold remove
        rw [if_pos]
        by_cases hid : id = .root
        · exact .inl hid
        · exact .inr (by simpa [hid] using h)
      simp only [perform, removal, if_neg h, hkept]
      exact .nothing
  | write w =>
    cases h : a.write w with
    | error f =>
      simp only [perform, h]
      exact .nothing
    | ok b =>
      obtain ⟨t, ht, rfl⟩ := write_eq_ok h
      simp only [perform, h]
      exact .writes ht h

/-- An operation makes, removes or writes a table. -/
def Touches (a : Arena) (op : Operation) (id : TableId) : Prop :=
  (a.perform op).1 = some id ∨ a.removal op = some id ∨
    ∃ w b, op = .write w ∧ a.write w = .ok b ∧ a.target w = id

/-- **What an operation does not touch** stays as it is. -/
theorem table?_perform (hsound : a.Sound) {op : Operation} (h : ¬ a.Touches op id) :
    (a.perform op).2.table? id = a.table? id := by
  have heffect := a.perform_effect op
  unfold Touches at h
  generalize (a.perform op).1 = made, a.removal op = gone, (a.perform op).2 = after at heffect h
  cases heffect with
  | creates t plain parent =>
    rw [table?_insert hsound, if_neg fun hid => h (.inl (congrArg some hid.symm))]
  | removes inner live =>
    rw [table?_remove inner, if_neg fun hid => h (.inr (.inl (congrArg some hid.symm)))]
  | writes live succeeds =>
    rw [table?_put live, if_neg fun hid => h (.inr (.inr ⟨_, _, rfl, succeeds, hid.symm⟩))]
  | nothing => rfl

/-- A live table that is not removed stays as it is, or a write makes of it what it makes. -/
theorem table?_perform_of_live (hsound : a.Sound) {op : Operation} (ht : a.table? id = some t)
    (hkept : a.removal op ≠ some id) : (a.perform op).2.table? id = some t ∨
      ∃ w b, op = .write w ∧ a.write w = .ok b ∧ a.target w = id ∧
        (a.perform op).2.table? id = some (w.onTable t) := by
  have heffect := a.perform_effect op
  generalize (a.perform op).1 = made, a.removal op = gone, (a.perform op).2 = after
    at heffect hkept
  cases heffect with
  | creates u plain parent =>
    refine .inl ?_
    rw [table?_insert hsound, if_neg, ht]
    intro hid
    have hfresh := table?_insert_fresh hsound u
    rw [← hid, ht] at hfresh
    cases hfresh
  | removes inner live =>
    refine .inl ?_
    rw [table?_remove inner, if_neg fun hid => hkept (congrArg some hid.symm), ht]
  | @writes w u live succeeds =>
    by_cases hid : id = a.target w
    · subst hid
      rw [ht] at live
      cases live
      exact .inr ⟨w, _, rfl, succeeds, rfl, table?_put_self ht⟩
    · refine .inl ?_
      rw [table?_put live, if_neg hid, ht]
  | nothing => exact .inl ht

end Arena

end ScriptMachine
