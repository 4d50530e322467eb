import Mathlib.Data.Set.Basic
import ScriptMachine.Proofs.Action.Invariants
import ScriptMachine.Proofs.Arena.Pointers

/-!
# Bindings of constants

A constant keeps its slot and its value under every write by name that respects protection. There
are writes that do not: those that bind or delete a name whatever its protection, and the write
through an address.

* `Constant`: a name, the address of its slot, and its value.
* `Table.Fixes`, `Arena.Fixes`: a table binds a constant; so do the tables of several constants, as
  long as they are live.
* `Arena.Write.Hits`: a write that does not respect the protection of a constant.
* `Arena.Fixes.write`, `Arena.Fixes.remove`, `Arena.FixesAll.newChild`: all other changes leave the
  constants bound.
-/

namespace ScriptMachine

/-- A name with the address of its slot, and the value that it is to keep. -/
structure Constant where
  address : Pointer
  name : String
  value : Value

variable {k : Constant} {K : Set Constant}

/-! ### In a table -/

/-- A table binds a constant: its symbol is protected, and its slot has the value. -/
structure Table.Fixes (k : Constant) (t : Table) : Prop where
  symbol : ∃ s ∈ t.symbols, s.name = k.name ∧ s.slot = k.address.slot ∧ s.constant = true
  value : t.value? k.address.slot = some (.constant k.value)

namespace Table.Fixes

variable {t : Table} {s : Symbol}

theorem slot? (h : t.Fixes k) : t.slot? k.name = some k.address.slot := by
  obtain ⟨s, hs, hname, hslot, -⟩ := h.symbol
  exact Table.slot?_eq_some_iff.2 ⟨s, hname ▸ symbol?_of_mem hs, hslot⟩

theorem isProtected (h : t.Fixes k) (hs : t.symbol? k.name = some s) : s.isProtected = true := by
  obtain ⟨u, hu, hname, -, hconstant⟩ := h.symbol
  have hfound := symbol?_of_mem hu
  rw [hname, hs] at hfound
  cases hfound
  rw [Symbol.isProtected, hconstant, Bool.or_true]

/-- The symbol is there as long as the name is not deleted. -/
theorem symbol_onTable (h : t.Fixes k) {w : Arena.Write} (hkept : ¬ w.Deletes k.name) :
    ∃ s ∈ (w.onTable t).symbols, s.name = k.name ∧ s.slot = k.address.slot ∧
      s.constant = true := by
  obtain ⟨s, hs, hname, hslot, hconstant⟩ := h.symbol
  have hstore : ∀ name v, s ∈ (t.store name v).symbols := by
    intro name v
    unfold store
    split
    · exact hs
    · exact List.mem_append_left _ hs
  -- Marks change neither the name nor the slot, and no mark of a write takes the protection away.
  have hmark : ∀ {u : Table} name (f : Symbol → Symbol), s ∈ u.symbols →
      (f s).constant = true → ∃ x ∈ (u.mark name f).symbols, x.name = k.name ∧
        x.slot = k.address.slot ∧ x.constant = true := by
    intro u name f hmem hf
    refine ⟨_, List.mem_map_of_mem hmem, ?_, ?_, ?_⟩
    all_goals split <;> assumption
  cases w with
  | set start name v => exact ⟨s, hstore name v, hname, hslot, hconstant⟩
  | setAlways id name v => exact ⟨s, hstore name v, hname, hslot, hconstant⟩
  | setConstant id name v => exact hmark name _ (hstore name v) rfl
  | setReadonly id name readonly => exact hmark name _ hs hconstant
  | create id name => exact ⟨s, hstore name .null, hname, hslot, hconstant⟩
  | delete id name always =>
    refine ⟨s, ?_, hname, hslot, hconstant⟩
    show s ∈ (t.forget name).symbols
    unfold forget
    split
    · refine List.mem_filter.2 ⟨hs, ?_⟩
      rw [hname, bne_iff_ne]
      exact fun heq => hkept heq.symm
    · exact hs
  | _ => exact ⟨s, hs, hname, hslot, hconstant⟩

theorem onTable (h : t.Fixes k) {w : Arena.Write} (hkept : ¬ w.Deletes k.name)
    (hquiet : ¬ w.Overwrites k.name k.address.slot) (hnew : ∀ id, w ≠ .create id k.name) :
    (w.onTable t).Fixes k where
  symbol := h.symbol_onTable hkept
  value := (Arena.Write.value?_onTable h.slot? hkept hquiet hnew).trans h.value

end Table.Fixes

/-! ### In an arena -/

/-- An arena is sound, and the tables of some constants bind them, as long as they are live. -/
structure Arena.Fixes (K : Set Constant) (a : Arena) : Prop where
  sound : a.Sound
  bound : ∀ k ∈ K, ∀ t, a.table? k.address.table = some t → t.Fixes k

/-- In addition, the tables of the constants are live. -/
structure Arena.FixesAll (K : Set Constant) (a : Arena) : Prop extends Arena.Fixes K a where
  live : ∀ k ∈ K, a.contains k.address.table = true

namespace Arena

/-- A write to a constant that does not respect its protection: one that binds or deletes the name
in its table whatever the protection, or a write through the address. -/
def Write.Hits (k : Constant) : Write → Prop
  | .setAlways id name _ | .setConstant id name _ => id = k.address.table ∧ name = k.name
  | .delete id name always => always = true ∧ id = k.address.table ∧ name = k.name
  | .storeVia p _ => p = k.address
  | _ => False

variable {a b : Arena} {id : TableId} {name : String} {v : Value}

/-- A name that a table has is visible there. -/
theorem resolve_of_slot? {start : TableId} {t : Table} {slot : Nat}
    (ht : a.table? start = some t) (hslot : t.slot? name = some slot) :
    ∃ s, t.symbol? name = some s ∧ a.resolve start name = some (start, s) := by
  obtain ⟨s, hs, -⟩ := Table.slot?_eq_some_iff.1 hslot
  refine ⟨s, hs, ?_⟩
  simp only [resolve, walk, ht, hs]

/-- An assignment that succeeds is to no constant. -/
theorem Fixes.ne_of_set (h : a.Fixes K) {start : TableId} (hset : a.set start name v = .ok (id, b))
    (hk : k ∈ K) (hid : id = k.address.table) : name ≠ k.name := by
  rintro rfl
  obtain ⟨htarget, t, ht, -⟩ := set_eq_ok hset
  have hfixes := h.bound k hk t (hid ▸ ht)
  unfold set at hset
  split at hset
  · rename_i found s hfound
    split at hset
    · cases hset
    · rename_i hplain
      have hfoundId : id = found := by
        rw [htarget, target, hfound]
        rfl
      obtain ⟨⟨u, hu, hs⟩, -⟩ := resolve_eq_some hfound
      rw [← hfoundId, ht] at hu
      cases hu
      exact hplain (hfixes.isProtected hs)
  · rename_i hnone
    have hstart : id = start := by
      rw [htarget, target, hnone]
      rfl
    obtain ⟨s, -, hfound⟩ := resolve_of_slot? (hstart ▸ ht) hfixes.slot?
    rw [hnone] at hfound
    cases hfound

/-- What a write that respects the protection does to the table of a constant. -/
theorem Fixes.onTable (h : a.Fixes K) {w : Write} (hwrite : a.write w = .ok b) (hk : k ∈ K)
    (hmiss : ¬ w.Hits k) (htarget : a.target w = k.address.table) {t : Table}
    (ht : a.table? (a.target w) = some t) : (w.onTable t).Fixes k := by
  have hfixes := h.bound k hk t (htarget ▸ ht)
  refine hfixes.onTable (fun hdeletes => ?_) (fun hoverwrites => ?_) ?_
  · cases w with
    | delete id name always =>
      obtain rfl : name = k.name := hdeletes
      cases always with
      | true => exact hmiss ⟨rfl, htarget, rfl⟩
      | false =>
        obtain ⟨u, hu, hforget⟩ := table_bind_eq_ok (show a.delete id k.name false = .ok b from hwrite)
        have hut : u = t := Option.some.inj (hu.symm.trans ht)
        subst hut
        split at hforget
        · rename_i hmissing
          obtain ⟨s, hs, -⟩ := Table.slot?_eq_some_iff.1 hfixes.slot?
          rw [hmissing] at hs
          cases hs
        · rename_i s hs
          rw [hfixes.isProtected hs] at hforget
          cases hforget
    | _ => exact hdeletes
  · cases w with
    | set start name v =>
      obtain rfl : name = k.name := hoverwrites
      change (a.set start _ v).map (·.2) = .ok b at hwrite
      cases hset : a.set start k.name v with
      | error f =>
        rw [hset] at hwrite
        cases hwrite
      | ok r =>
        obtain ⟨id, c⟩ := r
        exact h.ne_of_set hset hk ((set_eq_ok hset).1.trans htarget) rfl
    | setAlways id name v => exact hmiss ⟨htarget, hoverwrites⟩
    | setConstant id name v => exact hmiss ⟨htarget, hoverwrites⟩
    | storeVia p v =>
      refine hmiss ?_
      obtain ⟨table, slot⟩ := p
      obtain rfl : slot = k.address.slot := hoverwrites
      obtain rfl : table = k.address.table := htarget
      rfl
    | _ => exact hoverwrites
  · rintro id rfl
    obtain ⟨u, hu, hmissing, -⟩ := create_eq_ok (show a.create id k.name = .ok b from hwrite)
    have hut : u = t := Option.some.inj (hu.symm.trans ht)
    subst hut
    obtain ⟨s, hs, -⟩ := Table.slot?_eq_some_iff.1 hfixes.slot?
    rw [hmissing] at hs
    cases hs

/-- **A write that respects the protection** of constants leaves them bound. -/
theorem Fixes.write (h : a.Fixes K) {w : Write} (hmiss : ∀ k ∈ K, ¬ w.Hits k)
    (hwrite : a.write w = .ok b) : b.Fixes K := by
  obtain ⟨t, ht, rfl⟩ := write_eq_ok hwrite
  refine ⟨h.sound.put ht _, fun k hk u hu => ?_⟩
  rw [table?_put ht] at hu
  split at hu
  · rename_i htarget
    cases hu
    exact h.onTable hwrite hk (hmiss k hk) htarget.symm ht
  · exact h.bound k hk u hu

/-- Writes remove no table. -/
theorem FixesAll.write (h : a.FixesAll K) {w : Write} (hmiss : ∀ k ∈ K, ¬ w.Hits k)
    (hwrite : a.write w = .ok b) : b.FixesAll K where
  toFixes := h.toFixes.write hmiss hwrite
  live k hk := by
    obtain ⟨t, ht, rfl⟩ := write_eq_ok hwrite
    rw [contains, table?_put ht]
    split
    · rfl
    · exact h.live k hk

/-- A new table is that of no constant. -/
theorem FixesAll.newChild (h : a.FixesAll K) (name : String) (parent : TableId) (boundary : Bool) :
    (a.newChild name parent boundary).2.FixesAll K ∧
      ∀ k ∈ K, (a.newChild name parent boundary).1 ≠ k.address.table := by
  obtain ⟨id, b, hnew, hsound, hfresh, hafter⟩ := newChild_spec h.sound name parent boundary
  have hne : ∀ k ∈ K, id ≠ k.address.table := by
    rintro k hk rfl
    obtain ⟨t, ht⟩ := contains_iff.1 (h.live k hk)
    rw [hfresh] at ht
    cases ht
  rw [hnew]
  refine ⟨⟨⟨hsound, fun k hk t ht => ?_⟩, fun k hk => ?_⟩, hne⟩
  · rw [hafter, if_neg (hne k hk).symm] at ht
    exact h.bound k hk t ht
  · rw [contains, hafter, if_neg (hne k hk).symm]
    exact h.live k hk

theorem Fixes.remove (h : a.Fixes K) (id : TableId) : (a.remove id).Fixes K := by
  refine ⟨h.sound.remove id, fun k hk t ht => h.bound k hk t ?_⟩
  by_cases hid : id = .root
  · rwa [hid, remove_root] at ht
  · rw [table?_remove hid] at ht
    split at ht
    · cases ht
    · exact ht

/-! ### Constants that are read -/

/-- **A constant is read** wherever its name is resolved to its table. -/
theorem Fixes.get? (h : a.Fixes K) (hk : k ∈ K) {start : TableId} {s : Symbol}
    (hresolve : a.resolve start k.name = some (k.address.table, s)) :
    a.get? start k.name = some (.constant k.value) := by
  obtain ⟨⟨t, ht, hs⟩, -⟩ := resolve_eq_some hresolve
  have hfixes := h.bound k hk t ht
  have hslot : s.slot = k.address.slot :=
    Option.some.inj ((Table.slot?_eq_some_iff.2 ⟨s, hs, rfl⟩).symm.trans hfixes.slot?)
  simp only [Arena.get?, hresolve, Option.bind_eq_bind, Option.bind_some, ht, hslot, hfixes.value]

/-- Making a name constant in a live table binds the constant. -/
theorem fixes_of_setConstant (h : a.Sound) {t : Table} (ht : a.table? id = some t)
    (hset : a.setConstant id name (.constant v) = .ok b) :
    b.Fixes {⟨⟨id, t.slotFor name⟩, name, v⟩} ∧ b.contains id = true := by
  obtain ⟨u, hu, rfl⟩ := update_eq_ok hset
  have hut : u = t := Option.some.inj (hu.symm.trans ht)
  subst hut
  have hafter : (a.put id ((u.store name (.constant v)).mark name fun s =>
      { s with constant := true })).table? id = _ := table?_put_self hu
  refine ⟨⟨h.put hu _, ?_⟩, contains_iff.2 ⟨_, hafter⟩⟩
  rintro k rfl w hw
  obtain rfl := Option.some.inj (hafter.symm.trans hw)
  have hslot : (u.store name (.constant v)).slot? name = some (u.slotFor name) := by
    rw [Table.slot?_store, if_pos rfl]
  obtain ⟨s, hs, hsslot⟩ := Table.slot?_eq_some_iff.1 hslot
  obtain ⟨hmem, hname⟩ := Table.mem_of_symbol? hs
  refine ⟨⟨_, List.mem_map_of_mem hmem, ?_⟩, ?_⟩
  · rw [if_pos (beq_iff_eq.2 hname)]
    exact ⟨hname, hsslot, rfl⟩
  · exact (Table.value?_store u name _ _).trans (if_pos rfl)

end Arena

end ScriptMachine
