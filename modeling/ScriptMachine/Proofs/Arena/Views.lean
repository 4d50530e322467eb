import ScriptMachine.Proofs.Arena.Pointers

/-!
# Views

What can be seen from a table is decided by the tables on the walk from it to the nearest boundary,
and by the root. Reads, addresses and assignments follow the same walk; what happens to any other
table is neither seen nor done through this one.

* `Arena.OnWalk`, `Arena.InView`: the tables on the walk, and these with the root.
* `Arena.LooksLike`: two arenas cannot be told apart from a table.
* `resolve_of_view`, `looksLike_of_view`: arenas that agree on the tables in view look alike.
* `view_decides`: so do an arena and any later one, as long as no table in view is touched.
-/

namespace ScriptMachine

namespace Arena

/-- The walk from a table goes from parent to parent, up to the first table that is the root, or a
boundary that is not shared, or gone. -/
inductive OnWalk (a : Arena) (start : TableId) : TableId → Prop
  | start : OnWalk a start start
  | up {id parent : TableId} {t : Table} (inner : OnWalk a start id) (h : a.table? id = some t)
      (hroot : id ≠ .root) (hopen : t.boundary = true → t.shared = true)
      (hparent : t.parent = some parent) : OnWalk a start parent

/-- The tables in view of a table: those on its walk, and the root. -/
def InView (a : Arena) (start id : TableId) : Prop := a.OnWalk start id ∨ id = .root

/-- Two arenas cannot be told apart from a table: names read the same and have the same addresses,
and an assignment fails alike or writes the same slot, one in view. -/
structure LooksLike (a b : Arena) (start : TableId) : Prop where
  get? : ∀ name, b.get? start name = a.get? start name
  addressOf : ∀ name, b.addressOf start name = a.addressOf start name
  set : ∀ name v,
    (∃ f, a.set start name v = .error f ∧ b.set start name v = .error f) ∨
    ∃ p a' b', a.set start name v = .ok (p.table, a') ∧ b.set start name v = .ok (p.table, b') ∧
      a.InView start p.table ∧ a.Assigns a' p name v ∧ b.Assigns b' p name v ∧
      b'.table? p.table = a'.table? p.table

variable {a b : Arena} {start id : TableId} {t : Table} {name : String}

/-- An update of a live table. -/
theorem update_of_table? (ht : a.table? id = some t) (f : Table → Table) :
    a.update id f = .ok (a.put id (f t)) := by
  simp only [update, table, ht]
  rfl

/-- An update of a table that is gone. -/
theorem update_of_gone (h : a.table? id = none) (f : Table → Table) :
    a.update id f = .error (.about .invalidValue ("symbol table " ++ id.text)) := by
  simp only [update, table, h]
  rfl

/-- A lookup goes on only where the walk does. -/
theorem OnWalk.onward (hroots : ∀ id t, a.table? id = some t → (t.isRoot = true ↔ id = .root))
    {x p : TableId} (hx : a.OnWalk start x) (ht : a.table? x = some t) (hpasses : t.passes = true)
    (hparent : t.parent = some p) : a.OnWalk start p := by
  have hflags : t.isRoot = false ∧ (t.boundary = false ∨ t.shared = true) := by
    simpa [Table.passes] using hpasses
  refine hx.up ht (fun hroot => ?_) (fun hboundary => ?_) hparent
  · have htrue := (hroots x t ht).2 hroot
    rw [hflags.1] at htrue
    cases htrue
  · rcases hflags.2 with hopen | hshared
    · rw [hopen] at hboundary
      cases hboundary
    · exact hshared

/-- **Lookups agree** in arenas that agree on the tables in view, and find what is in view. -/
theorem resolve_of_view (hroots : ∀ id t, a.table? id = some t → (t.isRoot = true ↔ id = .root))
    (hagree : ∀ x, a.InView start x → b.table? x = a.table? x) (name : String) :
    b.resolve start name = a.resolve start name ∧
      ∀ found, a.resolve start name = some found → a.InView start found.1 := by
  have hsame : ∀ x, a.InView start x → a.SameNames b x := by
    intro x hx
    unfold SameNames signs
    rw [hagree x hx]
  have honward : ∀ x t p, a.OnWalk start x → a.table? x = some t → t.passes = true →
      t.parent = some p → a.OnWalk start p := fun x t p hx => OnWalk.onward hroots hx
  refine ⟨resolve_congr .start (fun x hx => hsame x (.inl hx)) (hsame .root (.inr rfl)) honward name,
    fun found hfound => ?_⟩
  exact seen_of_resolve .start honward hfound

/-- Binding a name in a table in view fails alike in arenas that agree on the table, or writes the same
slot. -/
theorem update_alike (hview : a.InView start id) (hagree : b.table? id = a.table? id) (name : String)
    (v : Value) :
    (∃ f, (a.update id (·.store name v)).map (id, ·) = .error f ∧
      (b.update id (·.store name v)).map (id, ·) = .error f) ∨
    ∃ p a' b', (a.update id (·.store name v)).map (id, ·) = .ok (p.table, a') ∧
      (b.update id (·.store name v)).map (id, ·) = .ok (p.table, b') ∧
      a.InView start p.table ∧ a.Assigns a' p name v ∧ b.Assigns b' p name v ∧
      b'.table? p.table = a'.table? p.table := by
  cases ht : a.table? id with
  | none =>
    refine .inl ⟨.about .invalidValue ("symbol table " ++ id.text), ?_, ?_⟩
    · rw [update_of_gone ht]
      rfl
    · rw [update_of_gone (hagree.trans ht)]
      rfl
  | some t =>
    have ht' := hagree.trans ht
    refine .inr ⟨⟨id, t.slotFor name⟩, a.put id (t.store name v), b.put id (t.store name v), ?_, ?_,
      hview, assigns_store ht name v, assigns_store ht' name v, ?_⟩
    · rw [update_of_table? ht]
      rfl
    · rw [update_of_table? ht']
      rfl
    · exact (table?_put_self ht').trans (table?_put_self ht).symm

/-- **Arenas that agree on the tables in view** cannot be told apart. -/
theorem looksLike_of_view (hroots : ∀ id t, a.table? id = some t → (t.isRoot = true ↔ id = .root))
    (hagree : ∀ x, a.InView start x → b.table? x = a.table? x) : a.LooksLike b start := by
  have haddress : ∀ name, b.addressOf start name = a.addressOf start name := by
    intro name
    unfold addressOf
    rw [(resolve_of_view hroots hagree name).1]
  refine ⟨fun name => ?_, haddress, fun name v => ?_⟩
  · rw [get?_eq_deref, get?_eq_deref, haddress]
    cases hp : a.addressOf start name with
    | error f => rfl
    | ok p =>
      have hview : a.InView start p.table := by
        unfold addressOf at hp
        split at hp
        · rename_i id s hfound
          cases hp
          exact (resolve_of_view hroots hagree name).2 _ hfound
        · cases hp
      have hderef : b.deref p = a.deref p := by
        unfold deref
        rw [hagree p.table hview]
      exact congrArg Except.toOption hderef
  · obtain ⟨hresolve, hview⟩ := resolve_of_view hroots hagree name
    unfold set
    rw [hresolve]
    cases hfound : a.resolve start name with
    | none => exact update_alike (.inl .start) (hagree start (.inl .start)) name v
    | some found =>
      obtain ⟨id, s⟩ := found
      dsimp only
      split
      · exact .inl ⟨_, rfl, rfl⟩
      · exact update_alike (hview _ hfound) (hagree id (hview _ hfound)) name v

namespace History

variable {h : History} {ops : List Operation}

/-- Tables that no operation touches stay as they are. -/
theorem table?_run {P : TableId → Prop} (hreg : h.Regular)
    (hquiet : h.Throughout ops fun a op => ∀ x, P x → ¬ a.Touches op x) {x : TableId} (hx : P x) :
    (h.run ops).arena.table? x = h.arena.table? x := by
  induction ops generalizing h with
  | nil => rfl
  | cons op ops ih =>
    exact (ih (regular_perform hreg op) hquiet.tail).trans
      (table?_perform hreg.sound (hquiet.head x hx))

/-- **The tables in view decide** what is read and done through a table. In every reachable arena: an
arena that agrees on the tables in view looks alike from there, whatever its other tables are; so
operations on other tables cannot be observed. -/
theorem view_decides (hreach : h.Reachable) (start : TableId) :
    (∀ b, (∀ x, h.arena.InView start x → b.table? x = h.arena.table? x) →
      h.arena.LooksLike b start) ∧
    ∀ ops, (h.Throughout ops fun a op => ∀ x, h.arena.InView start x → ¬ a.Touches op x) →
      h.arena.LooksLike (h.run ops).arena start := by
  have hreg := hreach.regular
  refine ⟨fun b hagree => looksLike_of_view hreg.isRoot_iff hagree, fun ops hquiet => ?_⟩
  exact looksLike_of_view hreg.isRoot_iff fun x hx => table?_run hreg hquiet hx

/-- A block in a function that is called from a table with a local name. -/
def called : History :=
  run {} [.newChild "caller" .root false, .write (.setAlways ⟨1, 0⟩ "local" (.int 1)),
    .newChild "function" ⟨1, 0⟩ true, .newChild "block" ⟨2, 0⟩ false]

theorem inView_called {x : TableId} (h : called.arena.InView ⟨3, 0⟩ x) :
    x = ⟨3, 0⟩ ∨ x = ⟨2, 0⟩ ∨ x = .root := by
  rcases h with h | h
  · induction h with
    | start => exact .inl rfl
    | up _ ht hroot hopen hparent ih =>
      rcases ih with rfl | rfl | rfl
      · cases ht
        cases hparent
        exact .inr (.inl rfl)
      · cases ht
        exact absurd (hopen rfl) (by decide)
      · exact absurd rfl hroot
  · exact .inr (.inr h)

theorem view_decides_of_called :
    called.Reachable ∧
      called.arena.LooksLike
        (called.run [.write (.setAlways ⟨1, 0⟩ "local" (.int 2)), .remove ⟨1, 0⟩]).arena ⟨3, 0⟩ := by
  have hreach : called.Reachable := ⟨_, rfl⟩
  refine ⟨hreach, (view_decides hreach ⟨3, 0⟩).2 _ (.cons (fun x hx => ?_) (.cons (fun x hx => ?_)
    (.nil _ _)))⟩
  · rintro (hmade | hgone | ⟨w, b, hw, -, rfl⟩)
    · cases hmade
    · cases hgone
    · cases hw
      exact absurd (inView_called hx) (by decide)
  · rintro (hmade | hgone | ⟨w, b, hw, -⟩)
    · cases hmade
    · cases hgone
      exact absurd (inView_called hx) (by decide)
    · cases hw

end History

end Arena

end ScriptMachine
