import ScriptMachine.Proofs.Arena.Operations
import ScriptMachine.Proofs.Scopes.Slots

/-!
# Lookups

A lookup depends on nothing but the tables that it looks at: their names, whether it may go on from
them, and where to.

* `Arena.Finds`: the tables that a walk looks at, the last of which has the name.
* `walk_eq_some_iff`: the walk over a bounded number of tables is the walk over them all.
* `Arena.SameNames`: a handle finds the same names, and leads to the same place, in two arenas.
* `Arena.InSight`, `isSome_resolve_iff`: the tables that lookups see; the visible names are theirs.
* `resolve_congr`: lookups in two arenas that agree on what the lookup sees.
* `mem_of_resolve`: what a lookup finds.
-/

namespace ScriptMachine

namespace Arena

/-- A walk from a handle looks at some tables, and finds a name in the last of them. -/
inductive Finds (a : Arena) (name : String) : TableId → List TableId → TableId × Symbol → Prop
  | here {id : TableId} {t : Table} {s : Symbol} (h : a.table? id = some t)
      (hsymbol : t.symbol? name = some s) : Finds a name id [id] (id, s)
  | up {id parent : TableId} {t : Table} {tables : List TableId} {found : TableId × Symbol}
      (h : a.table? id = some t) (hsymbol : t.symbol? name = none) (hpasses : t.passes = true)
      (hparent : t.parent = some parent) (outer : Finds a name parent tables found) :
      Finds a name id (id :: tables) found

/-- What a lookup sees of a table: its names, whether it goes on, and where to. -/
def signs (a : Arena) (id : TableId) : Option (List Symbol × Bool × Option TableId) :=
  (a.table? id).map fun t => (t.symbols, t.passes, t.parent)

/-- A lookup sees the same through a handle in both arenas. -/
def SameNames (a b : Arena) (id : TableId) : Prop := b.signs id = a.signs id

/-- A lookup comes from a table to another one, if it finds nothing before. -/
inductive Sees (a : Arena) (start : TableId) : TableId → Prop
  | here : Sees a start start
  | up {id parent : TableId} {t : Table} (inner : Sees a start id) (h : a.table? id = some t)
      (hpasses : t.passes = true) (hparent : t.parent = some parent) : Sees a start parent

/-- What is in sight of a table: the tables to which its lookups come, and the root. -/
def InSight (a : Arena) (start id : TableId) : Prop := a.Sees start id ∨ id = .root

variable {a b : Arena} {name : String} {id x start : TableId} {tables : List TableId}
  {found : TableId × Symbol} {s : Symbol}

namespace Finds

theorem unique {other : List TableId} {found' : TableId × Symbol} (h : a.Finds name id tables found)
    (h' : a.Finds name id other found') : tables = other ∧ found = found' := by
  induction h generalizing other with
  | here ht hsymbol =>
    cases h' with
    | here ht' hsymbol' =>
      rw [ht] at ht'
      cases ht'
      rw [hsymbol] at hsymbol'
      cases hsymbol'
      exact ⟨rfl, rfl⟩
    | up ht' hsymbol' _ _ _ =>
      rw [ht] at ht'
      cases ht'
      rw [hsymbol] at hsymbol'
      cases hsymbol'
  | up ht hsymbol _ hparent _ ih =>
    cases h' with
    | here ht' hsymbol' =>
      rw [ht] at ht'
      cases ht'
      rw [hsymbol] at hsymbol'
      cases hsymbol'
    | up ht' _ _ hparent' outer' =>
      rw [ht] at ht'
      cases ht'
      rw [hparent] at hparent'
      cases hparent'
      obtain ⟨rfl, rfl⟩ := ih outer'
      exact ⟨rfl, rfl⟩

/-- The rest of a walk is a walk. -/
theorem rest (h : a.Finds name id tables found) {inner outer : List TableId}
    (htables : tables = inner ++ x :: outer) : a.Finds name x (x :: outer) found := by
  induction h generalizing inner with
  | here ht hsymbol =>
    cases inner with
    | nil =>
      cases htables
      exact .here ht hsymbol
    | cons y inner => simp at htables
  | up ht hsymbol hpasses hparent outer' ih =>
    cases inner with
    | nil =>
      cases htables
      exact .up ht hsymbol hpasses hparent outer'
    | cons y inner =>
      rw [List.cons_append, List.cons.injEq] at htables
      exact ih htables.2

/-- A walk that finds a name looks at no table twice: from there it would go on as before. -/
theorem nodup (h : a.Finds name id tables found) : tables.Nodup := by
  induction h with
  | here _ _ => exact List.pairwise_singleton _ _
  | up ht hsymbol hpasses hparent outer ih =>
    refine List.nodup_cons.2 ⟨fun hmem => ?_, ih⟩
    obtain ⟨inner, rest', htables⟩ := List.append_of_mem hmem
    have hagain := outer.rest htables
    have hlength := congrArg List.length ((up ht hsymbol hpasses hparent outer).unique hagain).1
    rw [htables] at hlength
    simp only [List.length_cons, List.length_append] at hlength
    omega

theorem live (h : a.Finds name id tables found) : ∀ x ∈ tables, a.contains x = true := by
  induction h with
  | here ht _ =>
    intro x hx
    rw [List.mem_singleton.1 hx]
    exact contains_iff.2 ⟨_, ht⟩
  | up ht _ _ _ _ ih =>
    intro x hx
    rcases List.mem_cons.1 hx with rfl | hx
    · exact contains_iff.2 ⟨_, ht⟩
    · exact ih x hx

theorem length_le (h : a.Finds name id tables found) : tables.length ≤ a.places.size :=
  length_le_size_places h.nodup h.live

/-- The name is found in a table that has it. -/
theorem symbol?_eq (h : a.Finds name id tables found) :
    ∃ t, a.table? found.1 = some t ∧ t.symbol? name = some found.2 := by
  induction h with
  | here ht hsymbol => exact ⟨_, ht, hsymbol⟩
  | up _ _ _ _ _ ih => exact ih

end Finds

theorem walk_eq_some_iff {steps : Nat} : a.walk name steps id = some found ↔
    ∃ tables, a.Finds name id tables found ∧ tables.length ≤ steps := by
  induction steps generalizing id with
  | zero =>
    refine ⟨nofun, fun ⟨tables, hfinds, hlength⟩ => ?_⟩
    cases hfinds <;> simp at hlength
  | succ steps ih =>
    constructor
    · intro hfound
      rw [walk] at hfound
      split at hfound
      · cases hfound
      · rename_i t ht
        split at hfound
        · rename_i s hsymbol
          cases hfound
          exact ⟨[id], .here ht hsymbol, by simp⟩
        · rename_i hsymbol
          split at hfound
          · rename_i hpasses
            obtain ⟨p, hparent, hrest⟩ := Option.bind_eq_some_iff.1 hfound
            obtain ⟨tables, hfinds, hlength⟩ := ih.1 hrest
            exact ⟨id :: tables, .up ht hsymbol hpasses hparent hfinds, by simpa using hlength⟩
          · cases hfound
    · rintro ⟨tables, hfinds, hlength⟩
      cases hfinds with
      | here ht hsymbol => simp only [walk, ht, hsymbol]
      | up ht hsymbol hpasses hparent outer =>
        simp only [walk, ht, hsymbol, if_pos hpasses, hparent, bind, Option.bind]
        exact ih.2 ⟨_, outer, by simpa using hlength⟩

/-- **The bounded walk** finds whatever a walk without bound finds. -/
theorem walk_places_eq_some_iff :
    a.walk name (a.places.size + 1) id = some found ↔ ∃ tables, a.Finds name id tables found := by
  rw [walk_eq_some_iff]
  refine ⟨fun ⟨tables, hfinds, _⟩ => ⟨tables, hfinds⟩, fun ⟨tables, hfinds⟩ => ?_⟩
  exact ⟨tables, hfinds, Nat.le_succ_of_le hfinds.length_le⟩

theorem resolve_of_finds (h : a.Finds name id tables found) : a.resolve id name = some found := by
  rw [resolve, walk_places_eq_some_iff.2 ⟨tables, h⟩]

theorem resolve_of_walk_eq_none (h : a.walk name (a.places.size + 1) id = none) :
    a.resolve id name = (a.table? .root >>= (·.symbol? name)).map (.root, ·) := by
  rw [resolve, h]

/-- A visible name is defined in the table that it is found in, which is the last one on a walk or
the root. -/
theorem resolve_eq_some (h : a.resolve id name = some found) :
    (∃ t, a.table? found.1 = some t ∧ t.symbol? name = some found.2) ∧
      ((∃ tables, a.Finds name id tables found) ∨ found.1 = .root) := by
  unfold resolve at h
  cases hwalk : a.walk name (a.places.size + 1) id with
  | some other =>
    rw [hwalk] at h
    cases h
    obtain ⟨tables, hfinds⟩ := walk_places_eq_some_iff.1 hwalk
    exact ⟨hfinds.symbol?_eq, .inl ⟨tables, hfinds⟩⟩
  | none =>
    rw [hwalk] at h
    obtain ⟨s, hs, rfl⟩ := Option.map_eq_some_iff.1 h
    obtain ⟨t, ht, hsymbol⟩ := Option.bind_eq_some_iff.1 hs
    exact ⟨⟨t, ht, hsymbol⟩, .inr rfl⟩

/-! ### Names in sight -/

theorem Finds.sees (h : a.Finds name id tables found) (hid : a.Sees start id) :
    a.Sees start found.1 := by
  induction h with
  | here _ _ => exact hid
  | up ht _ hpasses hparent _ ih => exact ih (hid.up ht hpasses hparent)

/-- What is found from a table in sight is found from the start, or something nearer is. -/
theorem Sees.finds (h : a.Sees start x) (hx : ∃ tables found, a.Finds name x tables found) :
    ∃ tables found, a.Finds name start tables found := by
  induction h with
  | here => exact hx
  | @up id parent t _ ht hpasses hparent ih =>
    obtain ⟨tables, found, houter⟩ := hx
    refine ih ?_
    cases hsymbol : t.symbol? name with
    | some s => exact ⟨[id], (id, s), .here ht hsymbol⟩
    | none => exact ⟨id :: tables, found, .up ht hsymbol hpasses hparent houter⟩

theorem isLocal_iff : a.isLocal id name = true ↔
    ∃ t s, a.table? id = some t ∧ t.symbol? name = some s := by
  unfold isLocal
  cases a.table? id with
  | none => simp [bind, Option.bind]
  | some t => simp [bind, Option.bind, Option.isSome_iff_exists]

/-- **The visible names** are those of the tables in sight. -/
theorem isSome_resolve_iff : (a.resolve start name).isSome = true ↔
    ∃ x, a.InSight start x ∧ a.isLocal x name = true := by
  constructor
  · intro h
    obtain ⟨found, hfound⟩ := Option.isSome_iff_exists.1 h
    obtain ⟨⟨t, ht, hsymbol⟩, hplace⟩ := resolve_eq_some hfound
    refine ⟨found.1, hplace.imp_left fun ⟨tables, hfinds⟩ => hfinds.sees .here, ?_⟩
    exact isLocal_iff.2 ⟨t, found.2, ht, hsymbol⟩
  · rintro ⟨x, hsees, hlocal⟩
    obtain ⟨t, s, ht, hsymbol⟩ := isLocal_iff.1 hlocal
    rcases hsees with hsees | rfl
    · obtain ⟨tables, found, hfinds⟩ := hsees.finds ⟨[x], (x, s), .here ht hsymbol⟩
      rw [resolve_of_finds hfinds]
      rfl
    · cases hwalk : a.walk name (a.places.size + 1) start with
      | some found =>
        rw [resolve, hwalk]
        rfl
      | none =>
        rw [resolve_of_walk_eq_none hwalk, ht]
        simp only [bind, Option.bind, hsymbol]
        rfl

/-! ### Lookups in two arenas -/

/-- What a lookup sees of a live table in one arena, it sees in the other. -/
theorem SameNames.table? (h : a.SameNames b id) {t : Table} (ht : a.table? id = some t) :
    ∃ u, b.table? id = some u ∧ u.symbols = t.symbols ∧ u.passes = t.passes ∧
      u.parent = t.parent := by
  unfold SameNames signs at h
  rw [ht] at h
  obtain ⟨u, hu, hsigns⟩ := Option.map_eq_some_iff.1 h
  rw [Prod.mk.injEq, Prod.mk.injEq] at hsigns
  exact ⟨u, hu, hsigns.1, hsigns.2.1, hsigns.2.2⟩

/-- A walk in one arena is a walk in another one, if the tables look the same. -/
theorem Finds.congr (h : a.Finds name id tables found) {seen : TableId → Prop} (hid : seen id)
    (hsame : ∀ x, seen x → a.SameNames b x)
    (honward : ∀ x t p, seen x → a.table? x = some t → t.passes = true → t.parent = some p →
      seen p) :
    b.Finds name id tables found ∧ seen found.1 := by
  induction h with
  | @here id t s ht hsymbol =>
    obtain ⟨u, hu, hsymbols, -, -⟩ := (hsame id hid).table? ht
    refine ⟨.here hu ?_, hid⟩
    rw [Table.symbol?, hsymbols]
    exact hsymbol
  | @up id parent t tables found ht hsymbol hpasses hparent _ ih =>
    obtain ⟨u, hu, hsymbols, hpasses', hparent'⟩ := (hsame id hid).table? ht
    obtain ⟨houter, hseen⟩ := ih (honward id t parent hid ht hpasses hparent)
    refine ⟨.up hu ?_ (hpasses'.trans hpasses) (hparent'.trans hparent) houter, hseen⟩
    rw [Table.symbol?, hsymbols]
    exact hsymbol

/-- **Lookups agree** in two arenas that look the same wherever the lookup may come, and in the
root. -/
theorem resolve_congr {seen : TableId → Prop} (hid : seen id)
    (hsame : ∀ x, seen x → a.SameNames b x) (hroot : a.SameNames b .root)
    (honward : ∀ x t p, seen x → a.table? x = some t → t.passes = true → t.parent = some p →
      seen p) (name : String) : b.resolve id name = a.resolve id name := by
  have hback : ∀ x t p, seen x → b.table? x = some t → t.passes = true → t.parent = some p →
      seen p := by
    intro x t p hx ht hpasses hparent
    obtain ⟨u, hu, -, hpasses', hparent'⟩ := SameNames.table? (a := b) (b := a) (hsame x hx).symm ht
    exact honward x u p hx hu (hpasses'.trans hpasses) (hparent'.trans hparent)
  have hwalk : b.walk name (b.places.size + 1) id = a.walk name (a.places.size + 1) id := by
    refine Option.ext fun found => ?_
    rw [walk_places_eq_some_iff, walk_places_eq_some_iff]
    constructor
    · rintro ⟨tables, hfinds⟩
      exact ⟨tables, (hfinds.congr hid (fun x hx => (hsame x hx).symm) hback).1⟩
    · rintro ⟨tables, hfinds⟩
      exact ⟨tables, (hfinds.congr hid hsame honward).1⟩
  have hrootSymbol : (b.table? .root >>= (·.symbol? name)) = (a.table? .root >>= (·.symbol? name)) := by
    have hsigns : ∀ c : Arena, (c.table? .root >>= (·.symbol? name))
        = c.signs .root >>= fun signs => signs.1.find? fun s => s.name == name := by
      intro c
      unfold signs
      cases c.table? .root <;> rfl
    rw [hsigns, hsigns, hroot]
  unfold resolve
  rw [hwalk, hrootSymbol]

/-- What is found on a walk is where the lookup may come. -/
theorem seen_of_resolve {seen : TableId → Prop} (hid : seen id)
    (honward : ∀ x t p, seen x → a.table? x = some t → t.passes = true → t.parent = some p →
      seen p) (h : a.resolve id name = some found) : seen found.1 ∨ found.1 = .root := by
  rcases (resolve_eq_some h).2 with ⟨tables, hfinds⟩ | hroot
  · exact .inl (hfinds.congr hid (fun _ _ => rfl) honward).2
  · exact .inr hroot

end Arena

end ScriptMachine
