import ScriptMachine.Machine.Frames
import ScriptMachine.Proofs.Scopes.Outline

/-!
# The life of tables

What making and removing a table does to all handles.

* `Arena.Sound`: the root is live, and the free places hold no table.
* `table?_insert`: a new table gets a handle that was stale, and all other handles keep theirs.
* `table?_remove`: a removed table is gone, and all others stay.
-/

namespace ScriptMachine

namespace Arena

/-- The root is live, and the free places are vacant and listed once. -/
structure Sound (a : Arena) : Prop where
  root : a.contains .root = true
  vacant : ∀ i ∈ a.free, ∃ p, a.places[i]? = some p ∧ p.table = none
  nodup : a.free.Nodup

theorem initial_sound : initial.Sound where
  root := rfl
  vacant _ hi := by cases hi
  nodup := List.nodup_nil

variable {a b : Arena}

theorem contains_iff {id : TableId} : a.contains id = true ↔ ∃ t, a.table? id = some t := by
  rw [contains, Option.isSome_iff_exists]

/-- A live handle and its place. -/
theorem place_of_table? {id : TableId} {t : Table} (h : a.table? id = some t) :
    a.places[id.index]? = some ⟨id.generation, some t⟩ := by
  unfold table? at h
  split at h
  · rename_i p hp
    split at h
    · rename_i hg
      rw [hp, ← hg, ← h]
    · cases h
  · cases h

theorem table?_of_place {id : TableId} {p : Place} (h : a.places[id.index]? = some p)
    (hp : p.table = none) : a.table? id = none := by
  unfold table?
  rw [h]
  dsimp only
  rw [hp, ite_self]

/-- What the outline alone decides stays when the outline stays. -/
theorem Sound.congr (h : a.Sound) (houtline : b.outline = a.outline) : b.Sound := by
  have hfree : b.free = a.free := by
    show b.outline.free = a.outline.free
    rw [houtline]
  refine ⟨?_, ?_, ?_⟩
  · rw [contains_congr houtline]
    exact h.root
  · intro i hi
    rw [hfree] at hi
    obtain ⟨p, hp, hnone⟩ := h.vacant i hi
    have hplaces : b.places.map Place.outline = a.places.map Place.outline := by
      show b.outline.places = a.outline.places
      rw [houtline]
    have hi' := congrArg (fun ps : Array Place => ps[i]?) hplaces
    simp only [Array.getElem?_map, hp, Option.map_some] at hi'
    obtain ⟨q, hq, hqp⟩ := Option.map_eq_some_iff.1 hi'
    refine ⟨q, hq, ?_⟩
    have htable : q.table.map Table.outline = p.table.map Table.outline := congrArg Place.table hqp
    rw [hnone] at htable
    exact Option.map_eq_none_iff.1 htable
  · rw [hfree]
    exact h.nodup

/-- A write to a live table concerns its handle only. -/
theorem table?_put {id : TableId} {u : Table} (h : a.table? id = some u) (t : Table)
    (x : TableId) : (a.put id t).table? x = if x = id then some t else a.table? x := by
  by_cases hx : x = id
  · rw [if_pos hx, hx, table?_put_self h]
  · rw [if_neg hx]
    by_cases hindex : x.index = id.index
    · have hplace := place_of_table? h
      have hg : id.generation ≠ x.generation := by
        intro hg
        obtain ⟨i, g⟩ := x
        obtain ⟨j, k⟩ := id
        cases hindex
        cases hg
        exact hx rfl
      unfold table? put
      simp only [hindex, Array.getElem?_modify, hplace, Option.map_some, if_true, if_neg hg]
    · exact table?_put_ne a hindex t

/-! ### New tables -/

/-- A new table takes a stale handle; all other handles find what they found before. -/
theorem table?_insert (h : a.Sound) (t : Table) (id : TableId) :
    (a.insert t).2.table? id = if id = (a.insert t).1 then some t else a.table? id := by
  unfold insert
  split
  · rename_i index rest hfree
    obtain ⟨p, hp, hnone⟩ := h.vacant index (by rw [hfree]; exact List.mem_cons_self)
    simp only [hp, Option.map_some, Option.getD_some]
    by_cases hindex : id.index = index
    · unfold table?
      simp only [put, hindex, Array.getElem?_modify, hp, Option.map_some, if_true]
      by_cases hg : p.generation = id.generation
      · rw [if_pos hg, if_pos]
        rw [hg, ← hindex]
      · rw [if_neg hg, if_neg, hnone]
        · exact (ite_self _).symm
        · intro hid
          exact hg (congrArg TableId.generation hid).symm
    · rw [table?_put_ne _ hindex, if_neg]
      · rfl
      · intro hid
        exact hindex (congrArg TableId.index hid)
  · dsimp only
    unfold table?
    simp only [Array.getElem?_push]
    by_cases hindex : id.index = a.places.size
    · rw [if_pos hindex, Array.getElem?_eq_none (by omega)]
      dsimp only
      by_cases hg : (0 : UInt32) = id.generation
      · rw [if_pos hg, if_pos]
        rw [hg, ← hindex]
      · rw [if_neg hg, if_neg]
        intro hid
        exact hg (congrArg TableId.generation hid).symm
    · rw [if_neg hindex, if_neg]
      intro hid
      exact hindex (congrArg TableId.index hid)

/-- The handle of a new table was stale before. -/
theorem table?_insert_fresh (h : a.Sound) (t : Table) : a.table? (a.insert t).1 = none := by
  unfold insert
  split
  · rename_i index rest hfree
    obtain ⟨p, hp, hnone⟩ := h.vacant index (by rw [hfree]; exact List.mem_cons_self)
    exact table?_of_place hp hnone
  · unfold table?
    rw [Array.getElem?_eq_none (Nat.le_refl _)]

theorem Sound.insert (h : a.Sound) (t : Table) : (a.insert t).2.Sound := by
  refine ⟨?_, ?_, ?_⟩
  · rw [contains, table?_insert h]
    split
    · rfl
    · exact h.root
  · intro i hi
    unfold Arena.insert at hi ⊢
    split at hi
    · rename_i index rest hfree
      have hnodup := h.nodup
      rw [hfree, List.nodup_cons] at hnodup
      obtain ⟨p, hp, hnone⟩ := h.vacant i (by rw [hfree]; exact List.mem_cons_of_mem _ hi)
      refine ⟨p, ?_, hnone⟩
      have hne : index ≠ i := by
        rintro rfl
        exact hnodup.1 hi
      simp only [put, Array.getElem?_modify, if_neg hne]
      exact hp
    · rename_i hfree
      rw [hfree] at hi
      cases hi
  · unfold Arena.insert
    have hnodup := h.nodup
    split
    · rename_i index rest hfree
      rw [hfree, List.nodup_cons] at hnodup
      exact hnodup.2
    · exact hnodup

/-! ### Removed tables -/

/-- A removed table is gone for good; all other handles find what they found before. -/
theorem table?_remove {id : TableId} (hid : id ≠ .root) (x : TableId) :
    (a.remove id).table? x = if x = id then none else a.table? x := by
  unfold remove
  by_cases hlive : a.contains id = true
  · rw [if_neg (by simp [hid, hlive])]
    obtain ⟨t, ht⟩ := contains_iff.1 hlive
    have hplace := place_of_table? ht
    by_cases hindex : x.index = id.index
    · have hafter : (⟨a.places.modify id.index fun p => ⟨p.generation + 1, none⟩,
          id.index :: a.free⟩ : Arena).table? x = none := by
        refine table?_of_place (p := ⟨id.generation + 1, none⟩) ?_ rfl
        simp only [hindex, Array.getElem?_modify, hplace, Option.map_some, if_true]
      rw [hafter]
      by_cases hx : x = id
      · rw [if_pos hx]
      · rw [if_neg hx]
        unfold table?
        rw [hindex, hplace]
        dsimp only
        rw [if_neg]
        intro hg
        obtain ⟨i, g⟩ := x
        obtain ⟨j, k⟩ := id
        cases hindex
        cases hg
        exact hx rfl
    · rw [if_neg (fun hx => hindex (congrArg TableId.index hx))]
      unfold table?
      simp only [Array.getElem?_modify, if_neg (fun h => hindex (Eq.symm h))]
  · rw [if_pos (by simp [hlive])]
    split
    · rename_i hx
      rw [hx]
      simpa [contains] using hlive
    · rfl

theorem Sound.remove (h : a.Sound) (id : TableId) : (a.remove id).Sound := by
  by_cases hid : id = .root
  · rw [hid, remove_root]
    exact h
  · by_cases hlive : a.contains id = true
    · obtain ⟨t, ht⟩ := contains_iff.1 hlive
      have hplace := place_of_table? ht
      have hremove : a.remove id = ⟨a.places.modify id.index fun p => ⟨p.generation + 1, none⟩,
          id.index :: a.free⟩ := by
        unfold Arena.remove
        rw [if_neg (by simp [hid, hlive])]
      have hused : id.index ∉ a.free := by
        intro hmem
        obtain ⟨p, hp, hnone⟩ := h.vacant _ hmem
        rw [hplace] at hp
        cases hp
        cases hnone
      refine ⟨?_, ?_, ?_⟩
      · rw [contains, table?_remove hid, if_neg (fun hroot => hid hroot.symm)]
        exact h.root
      · rw [hremove]
        intro i hi
        rcases List.mem_cons.1 hi with rfl | hi
        · refine ⟨⟨id.generation + 1, none⟩, ?_, rfl⟩
          simp only [Array.getElem?_modify, hplace, Option.map_some, if_true]
        · obtain ⟨p, hp, hnone⟩ := h.vacant i hi
          refine ⟨p, ?_, hnone⟩
          have hne : id.index ≠ i := by
            rintro rfl
            exact hused hi
          simp only [Array.getElem?_modify, if_neg hne]
          exact hp
      · rw [hremove]
        exact List.nodup_cons.2 ⟨hused, h.nodup⟩
    · have hremove : a.remove id = a := by
        unfold Arena.remove
        rw [if_pos (by simp [hlive])]
      rw [hremove]
      exact h

/-- A write to a live table keeps the arena sound. -/
theorem Sound.put (h : a.Sound) {id : TableId} {u : Table} (hu : a.table? id = some u)
    (t : Table) : (a.put id t).Sound := by
  have hplace := place_of_table? hu
  refine ⟨?_, ?_, h.nodup⟩
  · rw [contains, table?_put hu]
    split
    · rfl
    · exact h.root
  · intro i hi
    obtain ⟨p, hp, hnone⟩ := h.vacant i hi
    have hne : id.index ≠ i := by
      rintro rfl
      rw [hplace] at hp
      cases hp
      cases hnone
    refine ⟨p, ?_, hnone⟩
    simp only [Arena.put, Array.getElem?_modify, if_neg hne]
    exact hp

/-- Naming the package of a live table. -/
theorem setPackage_of_live (h : a.Sound) {id : TableId} {t : Table} (ht : a.table? id = some t)
    (package : String) : ∃ b, a.setPackage id package = .ok b ∧ b.Sound ∧
      ∀ x, b.table? x = if x = id then some { t with package } else a.table? x := by
  refine ⟨a.put id { t with package }, ?_, h.put ht _, fun x => table?_put ht _ x⟩
  simp only [setPackage, update, table, ht]
  rfl

/-- A new child of a table. -/
theorem newChild_spec (h : a.Sound) (name : String) (parent : TableId) (boundary : Bool) :
    ∃ id b, a.newChild name parent boundary = (id, b) ∧ b.Sound ∧ a.table? id = none ∧
      ∀ x, b.table? x = if x = id then some { name, parent := some parent, boundary }
        else a.table? x :=
  ⟨_, _, rfl, h.insert _, table?_insert_fresh h _, fun x => table?_insert h _ x⟩

/-! ### Lineages -/

/-- Removing a table commutes with taking the outline. -/
theorem outline_remove (a : Arena) (id : TableId) :
    (a.remove id).outline = a.outline.remove id := by
  have hlive : a.outline.contains id = a.contains id := by
    rw [contains, table?_outline, contains, Option.isSome_map]
  unfold remove
  rw [hlive]
  split
  · rfl
  · simp only [outline, Arena.mk.injEq, and_true]
    apply Array.ext_getElem?
    intro i
    simp only [Array.getElem?_map, Array.getElem?_modify]
    split
    · cases a.places[i]? <;> rfl
    · rfl

theorem outline_remove_congr (h : a.outline = b.outline) (id : TableId) :
    (a.remove id).outline = (b.remove id).outline := by
  rw [outline_remove, outline_remove, h]

theorem lineage_congr (h : a.outline = b.outline) (stop : TableId) (steps : Nat) (id : TableId) :
    a.lineage stop steps id = b.lineage stop steps id := by
  induction steps generalizing id with
  | zero => rfl
  | succ steps ih =>
    rw [lineage, lineage, parent?_congr h]
    simp only [ih]

theorem between_congr (h : a.outline = b.outline) (current stop : TableId) :
    a.between current stop = b.between current stop := by
  rw [between, between, size_places_congr h, lineage_congr h]

/-! ### Writes to live tables -/

theorem setAlways_of_live {id : TableId} (h : a.contains id = true) (name : String) (v : Value) :
    ∃ b, a.setAlways id name v = .ok b := by
  obtain ⟨t, ht⟩ := contains_iff.1 h
  refine ⟨a.put id (t.store name v), ?_⟩
  simp only [setAlways, update, table, ht]
  rfl

/-- A write that is refused finds no table. -/
theorem gone_of_setAlways {id : TableId} {name : String} {v : Value} {f : Fault}
    (h : a.setAlways id name v = .error f) :
    a.contains id = false ∧ f = .about .invalidValue ("symbol table " ++ id.text) := by
  unfold setAlways update table at h
  cases ht : a.table? id with
  | none =>
    rw [ht] at h
    cases h
    exact ⟨by rw [contains, ht]; rfl, rfl⟩
  | some t =>
    rw [ht] at h
    cases h

theorem live_of_setAlways {id : TableId} {name : String} {v : Value}
    (h : a.setAlways id name v = .ok b) : a.contains id = true := by
  unfold setAlways update at h
  cases ht : a.table id with
  | error e =>
    rw [ht] at h
    cases h
  | ok t => exact contains_iff.2 ⟨t, table?_of_table ht⟩

end Arena

namespace World

/-- Making a table, and a line in the journal. -/
theorem run_newChild (name : String) (parent : TableId) (boundary : Bool) (w : World) :
    ∃ journal, (newChild name parent boundary).run w
      = ((w.scopes.newChild name parent boundary).1,
          { w with scopes := (w.scopes.newChild name parent boundary).2, journal }) := ⟨_, rfl⟩

/-- Removing a table, and a line in the journal if it was live. -/
theorem run_remove (id : TableId) (w : World) :
    ∃ journal, (remove id).run w = ((), { w with scopes := w.scopes.remove id, journal }) := by
  unfold remove
  simp only [StateT.run_bind, StateT.run_get, StateT.run_modify, pure_bind]
  by_cases h : (w.scopes.contains id && id != .root) = true
  · rw [if_pos h]
    exact ⟨w.journal.note .symbol fun _ => s!"--- removed table {id.text}", rfl⟩
  · rw [if_neg h]
    exact ⟨w.journal, rfl⟩

end World

end ScriptMachine
