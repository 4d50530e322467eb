import ScriptMachine.Proofs.Scopes.Lifetime

/-!
# Ways between tables

A table leads by way of its parents to the tables around it. New tables lead to an old one; removing
all tables on a way leaves the others as they are.

* `Arena.Leads`: the tables on the way from one table to another.
* `Arena.SameTable`: a handle finds a table with the same outline.
* `Arena.Grows`: new tables lead to an old one, and all other tables are as they were.
* `Leads.between_eq`, `table?_dropTables`: the walk from one table to another and what removing the
  tables on it does.
-/

namespace ScriptMachine

namespace Arena

/-- The tables from a handle on, by way of parents, up to but not including `stop`. -/
inductive Leads (a : Arena) (stop : TableId) : TableId → List TableId → Prop
  | here : Leads a stop stop []
  | up {id parent : TableId} {rest : List TableId} (hne : id ≠ stop)
      (hparent : a.parent? id = some parent) (houter : Leads a stop parent rest) :
      Leads a stop id (id :: rest)

/-- A handle finds a table with the same outline in both arenas, or in neither. -/
def SameTable (a b : Arena) (id : TableId) : Prop :=
  (b.table? id).map Table.outline = (a.table? id).map Table.outline

/-- Tables were made that lead from `id` to `stop`, if that is live; all others are as they
were. -/
structure Grows (a b : Arena) (stop id : TableId) (made : List TableId) : Prop where
  sound : b.Sound
  leads : a.contains stop = true → b.Leads stop id made
  fresh : ∀ x ∈ made, a.contains x = false
  live : ∀ x ∈ made, b.contains x = true
  nodup : made.Nodup
  others : ∀ x, x ∉ made → a.SameTable b x

theorem SameTable.refl (a : Arena) (id : TableId) : a.SameTable a id := rfl

theorem SameTable.trans {a b c : Arena} {id : TableId} (hab : a.SameTable b id)
    (hbc : b.SameTable c id) : a.SameTable c id := Eq.trans hbc hab

theorem SameTable.symm {a b : Arena} {id : TableId} (h : a.SameTable b id) : b.SameTable a id := Eq.symm h

theorem SameTable.ofOutline {a b : Arena} (h : b.outline = a.outline) (id : TableId) :
    a.SameTable b id := by
  unfold SameTable
  rw [← table?_outline, ← table?_outline, h]

theorem SameTable.parent?_eq {a b : Arena} {id : TableId} (h : a.SameTable b id) :
    b.parent? id = a.parent? id := by
  have hparent : ∀ c : Arena, c.parent? id = (c.table? id).map Table.outline >>= (·.parent) := by
    intro c
    unfold parent?
    cases c.table? id <;> rfl
  rw [hparent, hparent, h]

theorem SameTable.contains_eq {a b : Arena} {id : TableId} (h : a.SameTable b id) :
    b.contains id = a.contains id := by
  have hlive : ∀ c : Arena, c.contains id = ((c.table? id).map Table.outline).isSome := by
    intro c
    rw [contains, Option.isSome_map]
  rw [hlive, hlive, h]

theorem SameTable.packageOf_eq {a b : Arena} {id : TableId} (h : a.SameTable b id) :
    b.packageOf id = a.packageOf id := by
  have hpackage : ∀ c : Arena,
      c.packageOf id = (((c.table? id).map Table.outline).map (·.package)).getD "" := by
    intro c
    unfold packageOf
    cases c.table? id <;> rfl
  rw [hpackage, hpackage, h]

/-- The same table in another arena has the same name, and lookups pass it alike. -/
theorem SameTable.table? {a b : Arena} {id : TableId} (h : a.SameTable b id) {t : Table}
    (ht : a.table? id = some t) :
    ∃ u, b.table? id = some u ∧ u.name = t.name ∧ u.passes = t.passes ∧ u.parent = t.parent := by
  unfold SameTable at h
  rw [ht] at h
  obtain ⟨u, hu, houtline⟩ := Option.map_eq_some_iff.1 h
  have hname : u.outline.name = t.outline.name := congrArg Table.name houtline
  have hpasses : u.outline.passes = t.outline.passes := congrArg Table.passes houtline
  have hparent : u.outline.parent = t.outline.parent := congrArg Table.parent houtline
  exact ⟨u, hu, hname, hpasses, hparent⟩

theorem Leads.congr {a b : Arena} {stop id : TableId} {tables : List TableId}
    (h : a.Leads stop id tables) (hsame : ∀ x ∈ tables, a.SameTable b x) :
    b.Leads stop id tables := by
  induction h with
  | here => exact .here
  | @up id parent rest hne hparent _ ih =>
    refine .up hne ?_ (ih fun x hx => hsame x (List.mem_cons_of_mem _ hx))
    rw [(hsame id List.mem_cons_self).parent?_eq, hparent]

/-- The second table on a way is the parent of the first. -/
theorem Leads.parent?_eq {a : Arena} {stop id x parent : TableId} {rest : List TableId}
    (h : a.Leads stop id (x :: parent :: rest)) : a.parent? id = some parent := by
  cases h with
  | up _ hparent houter =>
    cases houter with
    | up _ _ _ => exact hparent

/-- Ways from one table to another are the same. -/
theorem Leads.tables_eq {a : Arena} {stop id : TableId} {tables tables' : List TableId}
    (h : a.Leads stop id tables) (h' : a.Leads stop id tables') : tables = tables' := by
  induction h generalizing tables' with
  | here =>
    cases h' with
    | here => rfl
    | up hne _ _ => exact absurd rfl hne
  | up hne hparent _ ih =>
    cases h' with
    | here => exact absurd rfl hne
    | up _ hparent' houter' =>
      rw [hparent] at hparent'
      cases hparent'
      rw [ih houter']

/-- From each table on a way, the rest of it leads on. -/
theorem Leads.rest {a : Arena} {stop id x : TableId} {tables inner outer : List TableId}
    (h : a.Leads stop id tables) (htables : tables = inner ++ x :: outer) :
    a.Leads stop x (x :: outer) := by
  induction h generalizing inner with
  | here => simp at htables
  | up hne hparent houter ih =>
    cases inner with
    | nil =>
      cases htables
      exact .up hne hparent houter
    | cons y inner =>
      rw [List.cons_append, List.cons.injEq] at htables
      exact ih htables.2

/-- A way comes to no table twice: from there it would go on as before. -/
theorem Leads.nodup {a : Arena} {stop id : TableId} {tables : List TableId}
    (h : a.Leads stop id tables) : tables.Nodup := by
  induction h with
  | here => exact List.nodup_nil
  | up hne hparent houter ih =>
    refine List.nodup_cons.2 ⟨fun hmem => ?_, ih⟩
    obtain ⟨inner, outer, htables⟩ := List.append_of_mem hmem
    have hlength := congrArg List.length ((up hne hparent houter).tables_eq (houter.rest htables))
    rw [htables] at hlength
    simp only [List.length_cons, List.length_append] at hlength
    omega

/-- One way leads on to another. -/
theorem Leads.trans {a : Arena} {stop middle id : TableId} {inner outer : List TableId}
    (hinner : a.Leads middle id inner) (houter : a.Leads stop middle outer)
    (hstop : stop ∉ inner) : a.Leads stop id (inner ++ outer) := by
  induction hinner with
  | here => exact houter
  | up _ hparent _ ih =>
    rw [List.mem_cons, not_or] at hstop
    exact .up (fun h => hstop.1 h.symm) hparent (ih hstop.2)

/-- One new table leads to its parent. -/
theorem grows_of_lookup {a b : Arena} {parent id : TableId} {t : Table} (hsound : b.Sound)
    (hfresh : a.table? id = none) (hself : b.table? id = some t) (hparent : t.parent = some parent)
    (hothers : ∀ x, x ≠ id → b.table? x = a.table? x) : a.Grows b parent id [id] := by
  have hstale : a.contains id = false := by
    rw [contains, hfresh]
    rfl
  refine ⟨hsound, fun hlive => ?_, fun x hx => ?_, fun x hx => ?_, by simp, fun x hx => ?_⟩
  · refine .up ?_ ?_ .here
    · rintro rfl
      rw [hstale] at hlive
      cases hlive
    · rw [parent?, hself]
      exact hparent
  · rwa [List.mem_singleton.1 hx]
  · rw [List.mem_singleton.1 hx]
    exact contains_iff.2 ⟨_, hself⟩
  · rw [List.mem_singleton] at hx
    unfold SameTable
    rw [hothers x hx]

/-- A new child leads to its parent. -/
theorem newChild_grows {a : Arena} (h : a.Sound) (name : String) (parent : TableId)
    (boundary : Bool) : ∃ id b, a.newChild name parent boundary = (id, b) ∧
      a.Grows b parent id [id] ∧ b.packageOf id = "" := by
  obtain ⟨id, b, hmade, hsound, hfresh, hlookup⟩ := newChild_spec h name parent boundary
  have hself := (hlookup id).trans (if_pos rfl)
  refine ⟨id, b, hmade, grows_of_lookup hsound hfresh hself rfl fun x hx => ?_, ?_⟩
  · rw [hlookup, if_neg hx]
  · rw [packageOf, hself]
    rfl

namespace Grows

variable {a b c : Arena} {stop middle id : TableId} {made outer inner : List TableId}

/-- What keeps the outline afterwards does not matter. -/
theorem thenOutline (h : a.Grows b stop id made) (houtline : c.outline = b.outline) :
    a.Grows c stop id made where
  sound := h.sound.congr houtline
  leads hlive := (h.leads hlive).congr fun x _ => .ofOutline houtline x
  fresh := h.fresh
  live x hx := by
    rw [contains_congr houtline]
    exact h.live x hx
  nodup := h.nodup
  others x hx := (h.others x hx).trans (.ofOutline houtline x)

/-- Nor what keeps it before. -/
theorem afterOutline (houtline : b.outline = a.outline) (h : b.Grows c stop id made) :
    a.Grows c stop id made where
  sound := h.sound
  leads hlive := h.leads (by rw [contains_congr houtline]; exact hlive)
  fresh x hx := by
    rw [← contains_congr houtline]
    exact h.fresh x hx
  live := h.live
  nodup := h.nodup
  others x hx := (SameTable.ofOutline houtline x).trans (h.others x hx)

/-- Live tables are not among those that are made later. -/
theorem not_mem_of_live (h : a.Grows b stop id made) {x : TableId} (hx : a.contains x = true) :
    x ∉ made := by
  intro hmem
  rw [h.fresh x hmem] at hx
  cases hx

/-- A new child has the table for its parent that it was made for. -/
theorem parent?_eq (h : a.Grows b stop id [id]) (hlive : a.contains stop = true) :
    b.parent? id = some stop := by
  cases h.leads hlive with
  | up _ hparent houter =>
    cases houter with
    | here => exact hparent

/-- The tables made first lead on to where those made later lead. -/
theorem trans (hab : a.Grows b stop middle outer) (hbc : b.Grows c middle id inner)
    (hmiddle : b.contains middle = true) : a.Grows c stop id (inner ++ outer) := by
  have hdisjoint : ∀ x ∈ outer, x ∉ inner := fun x hx => hbc.not_mem_of_live (hab.live x hx)
  refine ⟨hbc.sound, fun hstop => ?_, fun x hx => ?_, fun x hx => ?_, ?_, fun x hx => ?_⟩
  · have hstop' : b.contains stop = true := by
      rw [(hab.others stop (hab.not_mem_of_live hstop)).contains_eq]
      exact hstop
    exact (hbc.leads hmiddle).trans
      ((hab.leads hstop).congr fun x hx => hbc.others x (hdisjoint x hx))
      (hbc.not_mem_of_live hstop')
  · rcases List.mem_append.1 hx with hx | hx
    · have hout : x ∉ outer := fun hx' => hdisjoint x hx' hx
      rw [← (hab.others x hout).contains_eq]
      exact hbc.fresh x hx
    · exact hab.fresh x hx
  · rcases List.mem_append.1 hx with hx | hx
    · exact hbc.live x hx
    · rw [(hbc.others x (hdisjoint x hx)).contains_eq]
      exact hab.live x hx
  · exact List.nodup_append.2 ⟨hbc.nodup, hab.nodup, fun x hx y hy hxy =>
      hdisjoint y hy (hxy ▸ hx)⟩
  · rw [List.mem_append, not_or] at hx
    exact (hab.others x hx.2).trans (hbc.others x hx.1)

end Grows

/-! ### Removing the tables on a way -/

/-- The arena without some tables. -/
def dropTables (a : Arena) (tables : List TableId) : Arena := tables.foldl remove a

theorem dropTables_congr {a b : Arena} (h : a.outline = b.outline) (tables : List TableId) :
    (a.dropTables tables).outline = (b.dropTables tables).outline := by
  induction tables generalizing a b with
  | nil => exact h
  | cons table tables ih => exact ih (outline_remove_congr h table)

theorem Sound.dropTables {a : Arena} (h : a.Sound) (tables : List TableId) :
    (a.dropTables tables).Sound := by
  induction tables generalizing a with
  | nil => exact h
  | cons table tables ih => exact ih (h.remove table)

/-- The tables that were dropped are gone, and all others stay. -/
theorem table?_dropTables {a : Arena} {tables : List TableId} (hroot : TableId.root ∉ tables)
    (x : TableId) : (a.dropTables tables).table? x = if x ∈ tables then none else a.table? x := by
  induction tables generalizing a with
  | nil => simp [dropTables]
  | cons id tables ih =>
    rw [List.mem_cons, not_or] at hroot
    show ((a.remove id).dropTables tables).table? x = _
    rw [ih hroot.2, table?_remove (fun h => hroot.1 h.symm)]
    by_cases hx : x = id
    · simp [hx]
    · simp [hx]

/-- There are no more live handles than places. -/
theorem length_le_size_places {a : Arena} {tables : List TableId} (hnodup : tables.Nodup)
    (hlive : ∀ x ∈ tables, a.contains x = true) : tables.length ≤ a.places.size := by
  have hindices : (tables.map TableId.index).Nodup := by
    rw [List.Nodup, List.pairwise_map]
    refine List.Pairwise.imp_of_mem ?_ hnodup
    intro x y hx hy hne hindex
    obtain ⟨t, ht⟩ := contains_iff.1 (hlive x hx)
    obtain ⟨u, hu⟩ := contains_iff.1 (hlive y hy)
    have hplace := place_of_table? ht
    rw [hindex, place_of_table? hu] at hplace
    cases x
    cases y
    cases hindex
    cases hplace
    exact hne rfl
  have hsub : tables.map TableId.index ⊆ List.range a.places.size := by
    intro i hi
    obtain ⟨x, hx, rfl⟩ := List.mem_map.1 hi
    obtain ⟨t, ht⟩ := contains_iff.1 (hlive x hx)
    exact List.mem_range.2 (Array.getElem?_eq_some_iff.1 (place_of_table? ht)).1
  have hlength := hindices.length_le_of_subset hsub
  rwa [List.length_map, List.length_range] at hlength

theorem Leads.lineage_eq {a : Arena} {stop id : TableId} {tables : List TableId}
    (h : a.Leads stop id tables) (hroot : TableId.root ∉ tables) {steps : Nat}
    (hsteps : tables.length < steps) : a.lineage stop steps id = tables := by
  induction h generalizing steps with
  | here =>
    obtain ⟨n, rfl⟩ := Nat.exists_eq_succ_of_ne_zero (by omega : steps ≠ 0)
    rw [lineage, if_pos (.inl rfl)]
  | @up id parent rest hne hparent _ ih =>
    obtain ⟨n, rfl⟩ := Nat.exists_eq_succ_of_ne_zero (by omega : steps ≠ 0)
    rw [List.mem_cons, not_or] at hroot
    rw [lineage, if_neg (by
      rintro (h | h)
      · exact hne h
      · exact hroot.1 h.symm), hparent]
    dsimp only
    rw [ih hroot.2 (by simpa using hsteps)]

/-- The number of tables from a handle on, by way of parents, up to but not including `stop`. -/
def distance? (a : Arena) (stop : TableId) : Nat → TableId → Option Nat
  | 0, _ => none
  | steps + 1, id =>
    if id = stop then some 0
    else
      match a.parent? id with
      | some parent => (distance? a stop steps parent).map (· + 1)
      | none => none

theorem leads_of_distance? {a : Arena} {stop : TableId} {steps n : Nat} {id : TableId}
    (h : a.distance? stop steps id = some n) : ∃ tables, a.Leads stop id tables ∧
      tables.length = n := by
  induction steps generalizing id n with
  | zero => cases h
  | succ steps ih =>
    rw [distance?] at h
    split at h
    · rename_i hstop
      cases h
      subst hstop
      exact ⟨[], .here, rfl⟩
    · rename_i hne
      split at h
      · rename_i parent hparent
        obtain ⟨k, hk, rfl⟩ := Option.map_eq_some_iff.1 h
        obtain ⟨tables, hleads, hlength⟩ := ih hk
        exact ⟨id :: tables, .up hne hparent hleads, congrArg (· + 1) hlength⟩
      · cases h

/-- Ways of one length from one table lead to the same table. -/
theorem Leads.unique {a : Arena} {stop stop' id : TableId} {tables tables' : List TableId}
    (h : a.Leads stop id tables) (h' : a.Leads stop' id tables')
    (hlength : tables.length = tables'.length) : stop = stop' := by
  induction h generalizing tables' with
  | here =>
    cases h' with
    | here => rfl
    | up _ _ _ => cases hlength
  | up _ hparent _ ih =>
    cases h' with
    | here => cases hlength
    | up _ hparent' houter' =>
      rw [hparent] at hparent'
      cases hparent'
      exact ih houter' (Nat.succ.inj hlength)

/-- **The walk from a table to one that it leads to finds the tables on the way.** -/
theorem Leads.between_eq {a : Arena} {stop id : TableId} {tables : List TableId}
    (h : a.Leads stop id tables) (hroot : TableId.root ∉ tables)
    (hlive : ∀ x ∈ tables, a.contains x = true) : a.between id stop = tables :=
  h.lineage_eq hroot (Nat.lt_succ_of_le (length_le_size_places h.nodup hlive))

end Arena

end ScriptMachine
