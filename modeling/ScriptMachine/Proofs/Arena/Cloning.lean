import ScriptMachine.Proofs.Arena.Nearest
import ScriptMachine.Proofs.Arena.Walks

/-!
# Clones of tables

A clone has the names of its source, with their values and their protection, and lies in the same
scope. The slots need not be those of the source: the clone has none for names that were forgotten.
From then on the two live apart. The clone is younger than all other tables, so it is on the way up
from none of them, and neither is the source on the way up from its own parent.

* `Table.Copies`, `copies_clone`: the table that a clone is.
* `Arena.Mirrors`, `mirrors_of_copies`: two tables that read alike and may be written alike.
* `Write.ByName`, `History.Spares`: writes to the names of a table, and what they leave to another.
* `spares_of_not_onWalk`, `spares_sibling`: they leave all that is read through a table that is not
  below it, and so through a sibling.
* `clone_stands_alone`: a clone mirrors its source, and each of the two is spared by the other.
-/

namespace ScriptMachine

namespace Table

/-- How a name of the table is protected. -/
def protection? (t : Table) (name : String) : Option (Bool × Bool) :=
  (t.symbol? name).map fun s => (s.readonly, s.constant)

/-- A table with the names of another, their values and protection, and its place in the scopes. -/
structure Copies (t u : Table) : Prop where
  parent : u.parent = t.parent
  boundary : u.boundary = t.boundary
  shared : u.shared = t.shared
  package : u.package = t.package
  plain : u.isRoot = false
  get? : ∀ name, u.get? name = t.get? name
  protection? : ∀ name, u.protection? name = t.protection? name

/-- Binds a symbol of `t` in `c`, with its value and protection. -/
def bindCopy (t c : Table) (s : Symbol) : Table :=
  (c.store s.name ((t.value? s.slot).getD .null)).mark s.name fun u =>
    { u with readonly := s.readonly, constant := s.constant }

variable {t u : Table} {name other : String} {s : Symbol}

theorem symbol?_mark (t : Table) (name : String) (f : Symbol → Symbol) (other : String) :
    (t.mark name f).symbol? other = (t.symbol? other).map fun s =>
      if s.name == name then { f s with name := s.name, slot := s.slot } else s := by
  unfold symbol? mark
  dsimp only
  generalize t.symbols = symbols
  induction symbols with
  | nil => rfl
  | cons s rest ih =>
    have hname : (if s.name == name then { f s with name := s.name, slot := s.slot } else s).name
        = s.name := by split <;> rfl
    rw [List.map_cons, List.find?_cons, List.find?_cons, hname]
    cases s.name == other with
    | true => rfl
    | false => exact ih

theorem protection?_bindCopy (t c : Table) (s : Symbol) (name : String) :
    (t.bindCopy c s).protection? name =
      if name = s.name then some (s.readonly, s.constant) else c.protection? name := by
  unfold protection? bindCopy
  rw [symbol?_mark]
  split
  · rename_i hname
    subst hname
    have hkeeps : ((c.symbol? s.name).getD ⟨s.name, c.size, false, false⟩).name = s.name := by
      cases hsymbol : c.symbol? s.name with
      | none => rfl
      | some u => exact (mem_of_symbol? hsymbol).2
    rw [symbol?_store_self, Option.map_some, Option.map_some, if_pos (by rw [hkeeps, beq_self_eq_true])]
  · rename_i hname
    rw [symbol?_store_ne c hname]
    cases hsymbol : c.symbol? name with
    | none => rfl
    | some u =>
      rw [Option.map_some, Option.map_some, if_neg]
      · rfl
      · rw [(mem_of_symbol? hsymbol).2]
        simpa using hname

theorem get?_bindCopy (t c : Table) (s : Symbol) (name : String) :
    (t.bindCopy c s).get? name =
      if name = s.name then some ((t.value? s.slot).getD .null) else c.get? name := by
  have hmark : (t.bindCopy c s).get? name
      = (c.store s.name ((t.value? s.slot).getD .null)).get? name := by
    rw [get?_eq, get?_eq, bindCopy, slot?_mark]
    rfl
  rw [hmark]
  split
  · rename_i hname
    rw [hname, get?_store_self]
  · rename_i hname
    rw [get?_store_ne c hname]

@[simp]
theorem outline_bindCopy (t c : Table) (s : Symbol) : (t.bindCopy c s).outline = c.outline := by
  simp [bindCopy]

/-- **The symbols of a list, bound one after the other.** Each is there with its value and its
protection; what the table had besides stays. -/
theorem foldl_bindCopy (t : Table) {symbols : List Symbol} (hnames : (symbols.map (·.name)).Nodup)
    (c : Table) (name : String) :
    (symbols.foldl t.bindCopy c).protection? name
        = ((symbols.find? fun s => s.name == name).map fun s => (s.readonly, s.constant)).or
          (c.protection? name) ∧
      (symbols.foldl t.bindCopy c).get? name
        = ((symbols.find? fun s => s.name == name).map fun s => (t.value? s.slot).getD .null).or
          (c.get? name) := by
  induction symbols generalizing c with
  | nil => exact ⟨rfl, rfl⟩
  | cons s rest ih =>
    rw [List.map_cons, List.nodup_cons] at hnames
    obtain ⟨hprotection, hget⟩ := ih hnames.2 (t.bindCopy c s)
    rw [List.foldl_cons, hprotection, hget, protection?_bindCopy, get?_bindCopy]
    by_cases hname : name = s.name
    · subst hname
      have hmissing : rest.find? (fun u => u.name == s.name) = none := by
        rw [List.find?_eq_none]
        intro u hu heq
        exact hnames.1 (List.mem_map.2 ⟨u, hu, eq_of_beq heq⟩)
      rw [hmissing, List.find?_cons_of_pos (by exact beq_self_eq_true _), if_pos rfl, if_pos rfl]
      exact ⟨rfl, rfl⟩
    · rw [List.find?_cons_of_neg (by simpa using Ne.symm hname), if_neg hname, if_neg hname]
      exact ⟨rfl, rfl⟩

/-- A name of a table, with what is in its slot. -/
theorem get?_of_symbol? (h : t.symbol? name = some s) :
    t.get? name = some ((t.value? s.slot).getD .null) := by
  have hlt := t.ordered.bounded s (mem_of_symbol? h).1
  obtain ⟨v, hv⟩ := Option.isSome_iff_exists.1 (Bins.isSome_get?_iff.2 hlt)
  have hvalue : t.value? s.slot = some v := hv
  simp [get?, h, hvalue]

/-- A table without names, in the place of another. -/
def emptied (t : Table) (name : String) : Table :=
  { name, parent := t.parent, boundary := t.boundary, shared := t.shared, package := t.package }

theorem copies_foldl (t : Table) (name : String) :
    t.Copies (t.symbols.foldl t.bindCopy (t.emptied name)) := by
  have houtline : ∀ (symbols : List Symbol) (c : Table),
      (symbols.foldl t.bindCopy c).outline = c.outline := by
    intro symbols
    induction symbols with
    | nil => exact fun _ => rfl
    | cons s rest ih => exact fun c => (ih _).trans (t.outline_bindCopy c s)
  have hcopy := houtline t.symbols (t.emptied name)
  have hfold := foldl_bindCopy t t.ordered.names (t.emptied name)
  refine ⟨(congrArg Table.parent hcopy :), (congrArg Table.boundary hcopy :),
    (congrArg Table.shared hcopy :), (congrArg Table.package hcopy :),
    (congrArg Table.isRoot hcopy :), fun other => ?_, fun other => ?_⟩
  · rw [(hfold other).2]
    show ((t.symbol? other).map _).or none = _
    rw [Option.or_none]
    cases hsymbol : t.symbol? other with
    | none => simp [Table.get?, hsymbol]
    | some s => rw [get?_of_symbol? hsymbol, Option.map_some]
  · rw [(hfold other).1]
    show ((t.symbol? other).map _).or none = _
    rw [Option.or_none]
    rfl

theorem Copies.passes (h : t.Copies u) (hplain : t.isRoot = false) : u.passes = t.passes := by
  rw [Table.passes, Table.passes, h.plain, hplain, h.boundary, h.shared]

/-- The name is there in both tables, with the same protection, or in neither. -/
theorem Copies.symbol?_cases (h : t.Copies u) (name : String) :
    (∃ s s', t.symbol? name = some s ∧ u.symbol? name = some s' ∧
      s'.isProtected = s.isProtected) ∨
    t.symbol? name = none ∧ u.symbol? name = none := by
  have hsame := h.protection? name
  unfold Table.protection? at hsame
  cases hs : t.symbol? name with
  | none =>
    rw [hs] at hsame
    exact .inr ⟨rfl, Option.map_eq_none_iff.1 hsame⟩
  | some s =>
    rw [hs] at hsame
    obtain ⟨s', hs', hflags⟩ := Option.map_eq_some_iff.1 hsame
    rw [Prod.mk.injEq] at hflags
    exact .inl ⟨s, s', rfl, hs', by rw [Symbol.isProtected, Symbol.isProtected, hflags.1, hflags.2]⟩

end Table

namespace Arena

variable {a b : Arena} {id c x start one other : TableId} {t u : Table} {name : String} {v : Value}

/-- A clone of a live table is a new table that copies it. -/
theorem copies_clone (ht : a.table? id = some t) (name : String) :
    ∃ u, t.Copies u ∧ a.clone id name = .ok (a.insert u) := by
  refine ⟨_, t.copies_foldl name, ?_⟩
  unfold clone table
  rw [ht]
  rfl

/-! ### Tables that mirror each other -/

/-- Two tables cannot be told apart by reading names, and take and refuse the same writes. -/
structure Mirrors (a : Arena) (id c : TableId) : Prop where
  get? : ∀ name, a.get? c name = a.get? id name
  getLocal? : ∀ name, a.getLocal? c name = a.getLocal? id name
  set : ∀ name v f, a.set c name v = .error f ↔ a.set id name v = .error f
  delete : ∀ name always f, a.delete c name always = .error f ↔ a.delete id name always = .error f

/-- Two tables without a name look for it in the same place. -/
theorem resolve_congr_of_missing (ht : a.table? id = some t) (hu : a.table? c = some u)
    (hmissing : t.symbol? name = none) (hmissing' : u.symbol? name = none)
    (hpasses : u.passes = t.passes) (hparent : u.parent = t.parent) :
    a.resolve c name = a.resolve id name := by
  have hwalk : ∀ found, (∃ tables, a.Finds name c tables found) ↔
      ∃ tables, a.Finds name id tables found := by
    intro found
    constructor
    · rintro ⟨tables, hfinds⟩
      cases hfinds with
      | here h hsymbol =>
        rw [hu] at h
        cases h
        rw [hmissing'] at hsymbol
        cases hsymbol
      | up h _ hpasses' hparent' outer =>
        rw [hu] at h
        cases h
        exact ⟨_, .up ht hmissing (hpasses.symm.trans hpasses') (hparent.symm.trans hparent') outer⟩
    · rintro ⟨tables, hfinds⟩
      cases hfinds with
      | here h hsymbol =>
        rw [ht] at h
        cases h
        rw [hmissing] at hsymbol
        cases hsymbol
      | up h _ hpasses' hparent' outer =>
        rw [ht] at h
        cases h
        exact ⟨_, .up hu hmissing' (hpasses.trans hpasses') (hparent.trans hparent') outer⟩
  have hsame : a.walk name (a.places.size + 1) c = a.walk name (a.places.size + 1) id := by
    refine Option.ext fun found => ?_
    rw [walk_places_eq_some_iff, walk_places_eq_some_iff, hwalk]
  rw [resolve, resolve, hsame]

/-- From a live table only what is protected is refused. -/
theorem set_eq_error_iff (hlive : a.contains id = true) {f : Fault} :
    a.set id name v = .error f ↔ f = .about .readOnly name ∧ a.Protected id name := by
  rcases set_cases a id name v with ⟨hprotected, hset⟩ | ⟨-, hgone, -⟩ | ⟨hfree, -, x, b, hset⟩
  · rw [hset]
    exact ⟨fun h => ⟨(Except.error.inj h).symm, hprotected⟩, fun h => congrArg _ h.1.symm⟩
  · rw [hlive] at hgone
    cases hgone
  · rw [hset]
    exact ⟨nofun, fun h => absurd h.2 hfree⟩

/-- A deletion from a live table is refused for what the name is there. -/
theorem delete_of_table? (ht : a.table? id = some t) (name : String) (always : Bool) :
    a.delete id name always = match t.symbol? name with
      | none => if always then .ok a else .error (.about .unknownSymbol name)
      | some s =>
        if !always && s.isProtected then .error (.about .readOnly name)
        else .ok (a.put id (t.forget name)) := by
  unfold delete table
  rw [ht]
  rfl

/-- What is found in a table is what the table has. -/
theorem get?_of_resolve {x : TableId} (h : a.resolve start name = some (x, s)) :
    a.get? start name = a.getLocal? x name := by
  obtain ⟨⟨w, hw, hsymbol⟩, -⟩ := resolve_eq_some h
  have hslot : w.symbol? name = some s := hsymbol
  simp [Arena.get?, getLocal?, h, hw, Table.get?, hslot]

/-- From a copy beside its source, a name is found in the copy where it is found in the source, with
the same protection; all other names are found alike. -/
theorem resolve_of_copies (ht : a.table? id = some t) (hu : a.table? c = some u)
    (hcopies : t.Copies u) (hplain : t.isRoot = false) (name : String) :
    (∃ s s', a.resolve id name = some (id, s) ∧ a.resolve c name = some (c, s') ∧
      s'.isProtected = s.isProtected) ∨ a.resolve c name = a.resolve id name := by
  rcases hcopies.symbol?_cases name with ⟨s, s', hs, hs', hsame⟩ | ⟨hs, hs'⟩
  · exact .inl ⟨s, s', resolve_of_symbol? ht hs, resolve_of_symbol? hu hs', hsame⟩
  · exact .inr (resolve_congr_of_missing ht hu hs hs' (hcopies.passes hplain) hcopies.parent)

/-- The same names are protected. -/
theorem protected_iff_of_copies (ht : a.table? id = some t) (hu : a.table? c = some u)
    (hcopies : t.Copies u) (hplain : t.isRoot = false) (name : String) :
    a.Protected c name ↔ a.Protected id name := by
  rcases resolve_of_copies ht hu hcopies hplain name with ⟨s, s', hid, hc, hsame⟩ | hsame
  · constructor
    · rintro ⟨x, r, hfound, hr⟩
      rw [hc] at hfound
      cases hfound
      exact ⟨id, s, hid, hsame ▸ hr⟩
    · rintro ⟨x, r, hfound, hr⟩
      rw [hid] at hfound
      cases hfound
      exact ⟨c, s', hc, hsame.trans hr⟩
  · rw [Protected, Protected, hsame]

/-- **A copy beside its source** mirrors it. -/
theorem mirrors_of_copies (ht : a.table? id = some t) (hu : a.table? c = some u)
    (hcopies : t.Copies u) (hplain : t.isRoot = false) : a.Mirrors id c := by
  have hlocal : ∀ name, a.getLocal? c name = a.getLocal? id name := by
    intro name
    rw [getLocal?, getLocal?, ht, hu]
    exact hcopies.get? name
  refine ⟨fun name => ?_, hlocal, fun name v f => ?_, fun name always f => ?_⟩
  · rcases resolve_of_copies ht hu hcopies hplain name with ⟨s, s', hid, hc, -⟩ | hsame
    · rw [get?_of_resolve hc, get?_of_resolve hid, hlocal]
    · rw [Arena.get?, Arena.get?, hsame]
  · rw [set_eq_error_iff (contains_iff.2 ⟨u, hu⟩), set_eq_error_iff (contains_iff.2 ⟨t, ht⟩),
      protected_iff_of_copies ht hu hcopies hplain]
  · rw [delete_of_table? hu, delete_of_table? ht]
    rcases hcopies.symbol?_cases name with ⟨s, s', hs, hs', hsame⟩ | ⟨hs, hs'⟩
    · rw [hs, hs']
      dsimp only
      rw [hsame]
      split <;> simp
    · rw [hs, hs']

/-! ### Writes to the names of one table -/

/-- A write to the names of a table: one that binds, protects, creates or deletes a name there, or
an assignment to a name that the table has. -/
def Write.ByName (a : Arena) (id : TableId) : Write → Prop
  | .set start name _ => start = id ∧ a.isLocal id name = true
  | .setAlways x _ _ | .setConstant x _ _ | .setReadonly x _ _ | .create x _ | .delete x _ _ => x = id
  | _ => False

theorem Write.ByName.target {w : Write} (h : w.ByName a id) : a.target w = id := by
  cases w with
  | set start name v =>
    obtain ⟨rfl, hlocal⟩ := h
    unfold isLocal at hlocal
    obtain ⟨s, hs⟩ := Option.isSome_iff_exists.1 hlocal
    obtain ⟨t, ht, hsymbol⟩ := Option.bind_eq_some_iff.1 hs
    show ((a.resolve start name).map (·.1)).getD start = start
    rw [resolve_of_symbol? ht hsymbol]
    rfl
  | setAlways x name v => exact h
  | setConstant x name v => exact h
  | setReadonly x name readonly => exact h
  | create x name => exact h
  | delete x name always => exact h
  | _ => exact h.elim

theorem Write.ByName.outline_onTable {w : Write} (h : w.ByName a id) (t : Table) :
    (w.onTable t).outline = t.outline := by
  cases w with
  | set start name v => exact t.outline_store name v
  | setAlways x name v => exact t.outline_store name v
  | setConstant x name v => exact (Table.outline_mark _ name _).trans (t.outline_store name v)
  | setReadonly x name readonly => exact t.outline_mark name _
  | create x name => exact t.outline_store name .null
  | delete x name always => exact t.outline_forget name
  | _ => exact h.elim

/-- A write to the names of a table touches no other. -/
theorem Write.ByName.not_touches {w : Write} (h : w.ByName a id) (hne : x ≠ id) :
    ¬ a.Touches (.write w) x := by
  rintro (hmade | hgone | ⟨w', b, hw, -, htarget⟩)
  · unfold perform at hmade
    dsimp only at hmade
    split at hmade <;> cases hmade
  · cases hgone
  · cases hw
    exact hne (htarget.symm.trans h.target)

theorem Write.ByName.outline_perform {w : Write} (h : w.ByName a id) :
    (a.perform (.write w)).2.outline = a.outline := by
  cases hwrite : a.write w with
  | error f => simp only [perform, hwrite]
  | ok b =>
    obtain ⟨t, ht, rfl⟩ := write_eq_ok hwrite
    simp only [perform, hwrite]
    exact outline_put ht (h.outline_onTable t)

/-- The scope outside a function is decided by the outline. -/
theorem nextScope_congr (h : b.outline = a.outline) (id : TableId) :
    b.nextScope id = a.nextScope id := by
  have hwalk : ∀ (e : Arena) (steps : Nat) (x : TableId),
      e.outline.walkOut steps x = e.walkOut steps x := by
    intro e steps
    induction steps with
    | zero => exact fun _ => rfl
    | succ steps ih =>
      intro x
      have hcontains : ∀ p, e.outline.contains p = e.contains p := by
        intro p
        rw [contains, contains, table?_outline, Option.isSome_map]
      rw [walkOut, walkOut, table?_outline]
      cases e.table? x with
      | none => rfl
      | some t =>
        show (if t.boundary then _ else _) = if t.boundary then _ else _
        cases hparent : t.parent with
        | none => simp [Table.outline, hparent]
        | some p => simp [Table.outline, hparent, hcontains, ih p]
  rw [nextScope, nextScope, size_places_congr h, ← hwalk b, ← hwalk a, h]

namespace History

variable {h : History} {ops : List Operation} {p : TableId}

/-- Whatever is done to the names of one table, all that is read through the other stays: the table
itself, what its names stand for and where, the scope outside its function, and what is taken or
refused. -/
def Spares (h : History) (one other : TableId) : Prop :=
  ∀ ops, (h.Throughout ops fun a op => ∃ w, op = .write w ∧ w.ByName a one) →
    (h.run ops).arena.table? other = h.arena.table? other ∧
    h.arena.LooksLike (h.run ops).arena other ∧
    (h.run ops).arena.nextScope other = h.arena.nextScope other

/-- Writes to names leave the outline of all tables. -/
theorem outline_run_byName
    (hnames : h.Throughout ops fun a op => ∃ w, op = .write w ∧ w.ByName a one) :
    (h.run ops).arena.outline = h.arena.outline := by
  induction ops generalizing h with
  | nil => rfl
  | cons op ops ih =>
    obtain ⟨w, rfl, hbyName⟩ := hnames.head
    exact (ih hnames.tail).trans hbyName.outline_perform

/-- **A table that is not on the walk from another** may have its names written. -/
theorem spares_of_not_onWalk (hreg : h.Regular) (hinner : one ≠ .root) (hne : other ≠ one)
    (hwalk : ¬ h.arena.OnWalk other one) : h.Spares one other := by
  intro ops hnames
  have hquiet : h.Throughout ops fun a op => ∀ x, x ≠ one → ¬ a.Touches op x := by
    intro before op after hops x hx
    obtain ⟨w, rfl, hbyName⟩ := hnames before op after hops
    exact hbyName.not_touches hx
  have hothers : ∀ x, x ≠ one → (h.run ops).arena.table? x = h.arena.table? x := fun x hx =>
    table?_run (P := (· ≠ one)) hreg hquiet hx
  refine ⟨hothers other hne, looksLike_of_view hreg.isRoot_iff fun x hview => hothers x ?_,
    nextScope_congr (outline_run_byName hnames) other⟩
  rintro rfl
  rcases hview with honWalk | hroot
  · exact hwalk honWalk
  · exact hinner hroot

/-- What is on the walk from a table is the table itself, or as old as its parent or older. -/
theorem Accounted.age_le_of_onWalk (hacc : h.Accounted) (hwalk : h.arena.OnWalk start x) :
    x = start ∨ ∃ p, h.arena.parent? start = some p ∧ h.age x ≤ h.age p := by
  induction hwalk with
  | start => exact .inl rfl
  | @up id parent t _ ht _ _ hparent ih =>
    have hlink : h.arena.parent? id = some parent := by rw [parent?_of_table? ht, hparent]
    rcases ih with rfl | ⟨p, hp, hle⟩
    · exact .inr ⟨parent, hlink, Nat.le_refl _⟩
    · exact .inr ⟨p, hp, Nat.le_trans (Nat.le_of_lt (hacc.age_lt hlink)) hle⟩

/-- A table is not on the walk from a sibling that is another table. -/
theorem Accounted.not_onWalk_sibling (hacc : h.Accounted) (hne : other ≠ one)
    (hsibling : h.arena.parent? other = h.arena.parent? one) : ¬ h.arena.OnWalk other one := by
  intro hwalk
  rcases hacc.age_le_of_onWalk hwalk with heq | ⟨p, hp, hle⟩
  · exact hne heq.symm
  · exact absurd (hacc.age_lt (hsibling.symm.trans hp)) (Nat.not_lt.2 hle)

/-- **Siblings live apart**, at any time: the names of one may be written without a trace in the
other. -/
theorem Accounted.spares_sibling (hacc : h.Accounted) (hinner : one ≠ .root) (hne : other ≠ one)
    (hsibling : h.arena.parent? other = h.arena.parent? one) : h.Spares one other :=
  spares_of_not_onWalk hacc.toRegular hinner hne (hacc.not_onWalk_sibling hne hsibling)

/-- What is in view of a table that was given was given itself. -/
theorem Accounted.mem_issued_of_inView (hacc : h.Accounted) (hstart : start ∈ h.issued)
    (hview : h.arena.InView start x) : x ∈ h.issued := by
  rcases hview with hwalk | rfl
  · induction hwalk with
    | start => exact hstart
    | @up id parent t _ ht _ _ hparent _ =>
      exact hacc.mem_issued_of_parent? ((parent?_of_table? ht).trans hparent)
  · exact List.mem_append_right _ List.mem_cons_self

/-- **A clone mirrors its source, and the two live apart.** A clone of a live table other than the
root, after any operations, is a new live table; the other tables stay as they are; names read the
same through the clone as through the source, and assignments and deletions are taken or refused
alike. As long as only handles that were given are used and no place has used up its generations, the
handle of the clone was never given before, the source looks as it did, and whatever is then done to
the names of one of the two leaves all that is read through the other. -/
theorem clone_stands_alone (ops : List Operation) {id : TableId}
    (hlive : (run {} ops).arena.contains id = true) (hinner : id ≠ .root) (name : String) :
    ∃ c b, (run {} ops).arena.clone id name = .ok (c, b) ∧
      ((run {} ops).perform (.clone id name)).arena = b ∧
      (run {} ops).arena.contains c = false ∧ b.contains c = true ∧
      (∀ x, x ≠ c → b.table? x = (run {} ops).arena.table? x) ∧
      b.Mirrors id c ∧
      (Proper {} ops → (run {} ops).Tame →
        c ∉ (run {} ops).issued ∧ (run {} ops).arena.LooksLike b id ∧
        ((run {} ops).perform (.clone id name)).Spares id c ∧
        ((run {} ops).perform (.clone id name)).Spares c id) := by
  have hreg : (run {} ops).Regular := Reachable.regular ⟨ops, rfl⟩
  have hproper : Proper {} ops → (run {} ops).Tame → (run {} ops).Accounted :=
    accounted_run accounted_initial
  generalize run {} ops = h at hlive hreg hproper ⊢
  obtain ⟨t, ht⟩ := contains_iff.1 hlive
  have hplain : t.isRoot = false := by
    by_contra hroot
    exact hinner ((hreg.isRoot_iff id t ht).1 (by simpa using hroot))
  obtain ⟨u, hcopies, hclone⟩ := copies_clone ht name
  have hfresh := table?_insert_fresh hreg.sound u
  have htables := table?_insert hreg.sound u
  have hperform : h.perform (.clone id name)
      = ⟨(h.arena.insert u).2, (h.arena.insert u).1 :: h.created, h.removed⟩ := by
    simp only [perform, Arena.perform, removal, hclone, Option.toList_some, Option.toList_none,
      List.nil_append, List.singleton_append]
  have hne : (h.arena.insert u).1 ≠ id := by
    intro heq
    rw [heq, ht] at hfresh
    cases hfresh
  have hu : (h.arena.insert u).2.table? (h.arena.insert u).1 = some u := by
    rw [htables, if_pos rfl]
  have ht' : (h.arena.insert u).2.table? id = some t := by rw [htables, if_neg hne.symm, ht]
  refine ⟨(h.arena.insert u).1, (h.arena.insert u).2, hclone, congrArg History.arena hperform, ?_,
    contains_iff.2 ⟨u, hu⟩, fun x hx => by rw [htables, if_neg hx],
    mirrors_of_copies ht' hu hcopies hplain, fun hops htame => ?_⟩
  · rw [contains, hfresh]
    rfl
  · have hacc := hproper hops htame
    have hnew := hacc.fresh htame u
    have hacc' : (h.perform (.clone id name)).Accounted := by
      refine accounted_perform hacc htame fun x hx => ?_
      rw [List.mem_singleton.1 hx]
      exact ((hacc.live_iff id).1 hlive).1
    have hsibling : (h.perform (.clone id name)).arena.parent? (h.arena.insert u).1
        = (h.perform (.clone id name)).arena.parent? id := by
      rw [hperform, parent?_of_table? hu, parent?_of_table? ht', hcopies.parent]
    have hcInner : (h.arena.insert u).1 ≠ .root := by
      rintro hroot
      exact hnew (hroot ▸ List.mem_append_right _ List.mem_cons_self)
    refine ⟨hnew, looksLike_of_view hreg.isRoot_iff fun x hview => ?_,
      hacc'.spares_sibling hinner hne hsibling,
      hacc'.spares_sibling hcInner hne.symm hsibling.symm⟩
    -- What the source sees was there before, and the clone was not.
    rw [htables, if_neg]
    rintro rfl
    exact hnew (hacc.mem_issued_of_inView ((hacc.live_iff id).1 hlive).1 hview)

/-- A table with a name, after another was forgotten. -/
def pruned : List Operation :=
  [.newChild "t" .root false, .write (.setAlways ⟨1, 0⟩ "x" (.int 1)),
    .write (.setConstant ⟨1, 0⟩ "y" (.int 2)), .write (.delete ⟨1, 0⟩ "x" true)]

theorem clone_stands_alone_of_pruned :
    (run {} pruned).arena.contains ⟨1, 0⟩ = true ∧ Proper {} pruned ∧ (run {} pruned).Tame ∧
      ∃ c b, (run {} pruned).arena.clone ⟨1, 0⟩ "copy" = .ok (c, b) ∧ b.Mirrors ⟨1, 0⟩ c ∧
        b.get? c "y" = some (.int 2) ∧
        (((run {} pruned).perform (.clone ⟨1, 0⟩ "copy")).run
          [.write (.setAlways ⟨1, 0⟩ "y" (.int 3))]).arena.get? c "y" = some (.int 2) := by
  have hlive : (run {} pruned).arena.contains ⟨1, 0⟩ = true := rfl
  have hproper : Proper {} pruned := by decide
  have htame : (run {} pruned).Tame := tame_of_length (by decide)
  obtain ⟨c, b, hclone, rfl, -, -, -, hmirrors, hapart⟩ :=
    clone_stands_alone pruned hlive (by decide) "copy"
  obtain ⟨-, -, hspares, -⟩ := hapart hproper htame
  have hvalue : ((run {} pruned).perform (.clone ⟨1, 0⟩ "copy")).arena.get? c "y" = some (.int 2) := by
    rw [hmirrors.get?]
    rfl
  have hwritten := hspares [.write (.setAlways ⟨1, 0⟩ "y" (.int 3))]
    (.cons ⟨_, rfl, rfl⟩ (.nil _ _))
  exact ⟨hlive, hproper, htame, c, _, hclone, hmirrors, hvalue,
    (hwritten.2.1.get? "y").trans hvalue⟩

end History

end Arena

end ScriptMachine
