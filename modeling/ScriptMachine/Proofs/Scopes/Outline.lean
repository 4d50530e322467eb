import ScriptMachine.World

/-!
# The outline of the scopes

Most writes to symbol tables bind or forget names. They leave the outline of the arena as it is:
which handles are live, and how the tables are linked, named and bounded.

* `Table.outline`, `Arena.outline`: a table and an arena without symbols and slots.
* `outline_of_set`, `outline_of_delete` and companions: writes of names keep the outline.
* `table?_outline`, `parent?_congr` and companions: what can be read off the outline alone.
-/

namespace ScriptMachine

/-- A table without its symbols. -/
def Table.outline (t : Table) : Table := { t with symbols := [], slots := .empty, ordered := .empty }

/-- A place with the outline of its table. -/
def Place.outline (p : Place) : Place := { p with table := p.table.map Table.outline }

/-- An arena whose tables are outlines. -/
def Arena.outline (a : Arena) : Arena := { a with places := a.places.map Place.outline }

namespace Table

@[simp]
theorem outline_writeSlot (t : Table) (slot : Nat) (v : Value) :
    (t.writeSlot slot v).outline = t.outline := rfl

@[simp]
theorem outline_store (t : Table) (name : String) (v : Value) :
    (t.store name v).outline = t.outline := by
  unfold store
  split <;> rfl

@[simp]
theorem outline_mark (t : Table) (name : String) (f : Symbol → Symbol) :
    (t.mark name f).outline = t.outline := rfl

@[simp]
theorem outline_forget (t : Table) (name : String) : (t.forget name).outline = t.outline := by
  unfold forget
  split <;> rfl

end Table

namespace Arena

theorem table?_outline (a : Arena) (id : TableId) :
    a.outline.table? id = (a.table? id).map Table.outline := by
  unfold table? outline
  rw [Array.getElem?_map]
  cases a.places[id.index]? with
  | none => rfl
  | some p =>
    by_cases h : p.generation = id.generation <;> simp [Place.outline, h]

/-- A write to a live table that keeps its outline keeps that of the arena. -/
theorem outline_put {a : Arena} {id : TableId} {t u : Table} (hlive : a.table? id = some u)
    (h : t.outline = u.outline) : (a.put id t).outline = a.outline := by
  unfold table? at hlive
  split at hlive
  · rename_i p hp
    split at hlive
    · have hplace : ({ p with table := some t } : Place).outline = p.outline := by
        simp [Place.outline, hlive, h]
      simp only [outline, put, mk.injEq, and_true]
      apply Array.ext_getElem?
      intro i
      rw [Array.getElem?_map, Array.getElem?_map, Array.getElem?_modify]
      by_cases hi : id.index = i
      · rw [if_pos hi, ← hi, hp]
        exact congrArg some hplace
      · rw [if_neg hi]
    · cases hlive
  · cases hlive

theorem table?_of_table {a : Arena} {id : TableId} {t : Table} (h : a.table id = .ok t) :
    a.table? id = some t := by
  unfold table at h
  split at h
  · cases h
    assumption
  · cases h

theorem outline_of_update {a b : Arena} {id : TableId} {f : Table → Table}
    (h : a.update id f = .ok b) (hf : ∀ t, (f t).outline = t.outline) : b.outline = a.outline := by
  unfold update at h
  cases ht : a.table id with
  | error e =>
    rw [ht] at h
    cases h
  | ok t =>
    rw [ht] at h
    cases h
    exact outline_put (table?_of_table ht) (hf t)

theorem outline_of_setAlways {a b : Arena} {id : TableId} {name : String} {v : Value}
    (h : a.setAlways id name v = .ok b) : b.outline = a.outline :=
  outline_of_update h fun t => t.outline_store name v

theorem outline_of_setConstant {a b : Arena} {id : TableId} {name : String} {v : Value}
    (h : a.setConstant id name v = .ok b) : b.outline = a.outline :=
  outline_of_update h fun t => by simp

theorem outline_of_set {a b : Arena} {start id : TableId} {name : String} {v : Value}
    (h : a.set start name v = .ok (id, b)) : b.outline = a.outline := by
  have hupdate : ∀ {i : TableId} {r : Except Fault Arena}, r = a.update i (·.store name v) →
      r.map (i, ·) = .ok (id, b) → b.outline = a.outline := by
    intro i r hr hmap
    cases r with
    | error e => cases hmap
    | ok c =>
      cases hmap
      exact outline_of_update hr.symm fun t => t.outline_store name v
  unfold set at h
  split at h
  · split at h
    · cases h
    · exact hupdate rfl h
  · exact hupdate rfl h

theorem outline_of_create {a b : Arena} {id : TableId} {name : String}
    (h : a.create id name = .ok b) : b.outline = a.outline := by
  unfold create at h
  cases ht : a.table id with
  | error e =>
    rw [ht] at h
    cases h
  | ok t =>
    rw [ht] at h
    simp only [bind, Except.bind] at h
    split at h
    · cases h
    · cases h
      exact outline_put (table?_of_table ht) (t.outline_store name .null)

theorem outline_of_delete {a b : Arena} {id : TableId} {name : String} {always : Bool}
    (h : a.delete id name always = .ok b) : b.outline = a.outline := by
  unfold delete at h
  cases ht : a.table id with
  | error e =>
    rw [ht] at h
    cases h
  | ok t =>
    rw [ht] at h
    simp only [bind, Except.bind] at h
    split at h
    · split at h
      · cases h
        rfl
      · cases h
    · split at h
      · cases h
      · cases h
        exact outline_put (table?_of_table ht) (t.outline_forget name)

theorem outline_of_storeVia {a b : Arena} {p : Pointer} {v : Value}
    (h : a.storeVia p v = .ok b) : b.outline = a.outline := by
  unfold storeVia at h
  split at h
  · rename_i t ht
    split at h
    · cases h
      exact outline_put ht (t.outline_writeSlot p.slot v)
    · cases h
  · cases h

/-! ### Reading the outline -/

variable {a b : Arena}

theorem contains_congr (h : a.outline = b.outline) (id : TableId) :
    a.contains id = b.contains id := by
  have ha := a.table?_outline id
  have hb := b.table?_outline id
  rw [h, hb] at ha
  simpa [contains] using (congrArg Option.isSome ha).symm

theorem parent?_congr (h : a.outline = b.outline) (id : TableId) :
    a.parent? id = b.parent? id := by
  have hparent : ∀ c : Arena, c.parent? id = c.outline.parent? id := by
    intro c
    unfold parent?
    rw [c.table?_outline id]
    cases c.table? id <;> rfl
  rw [hparent a, hparent b, h]

theorem size_places_congr (h : a.outline = b.outline) : a.places.size = b.places.size := by
  simpa [outline] using congrArg (fun c : Arena => c.places.size) h

end Arena

/-! ### The scopes of a world -/

/-- A computation on the world that keeps the outline of the scopes. -/
def WorldM.KeepsOutline {α : Type} (act : WorldM α) : Prop :=
  ∀ w, (act.run w).2.scopes.outline = w.scopes.outline

namespace World

theorem keepsOutline_onHeap {α : Type} (act : StateM Heap α) :
    WorldM.KeepsOutline (onHeap act) := fun _ => rfl

theorem keepsOutline_note (c : Category) (message : Unit → String) :
    WorldM.KeepsOutline (note c message) := fun _ => rfl

theorem keepsOutline_assign (start : TableId) (name : String) (v : Value) :
    WorldM.KeepsOutline (assign start name v) := by
  intro w
  cases h : w.scopes.set start name v with
  | error f =>
    simp only [assign, StateT.run_bind, StateT.run_get, pure_bind, h, StateT.run_pure]
    rfl
  | ok r =>
    obtain ⟨id, scopes⟩ := r
    have hrun : ((assign start name v).run w).2.scopes = scopes := by
      simp only [assign, StateT.run_bind, StateT.run_get, pure_bind, h]
      rfl
    rw [hrun]
    exact Arena.outline_of_set h

end World

end ScriptMachine
