import ScriptMachine.Proofs.Scopes.Growth

/-!
# Names and their slots

In a table each name has a slot of its own. Binding a name is seen by whoever reads that name in
that table, and by no one else.

* `get?_store_self`, `get?_store_ne`: reading a table after a name was bound.
* `Table.slot?`, `Table.slotFor`: the slot of a name, and the one that it is bound in.
* `slot?_store`, `value?_store` and companions: what the writes do to names and slots.
* `getLocal?_setAlways`: reading a name in some table after one was bound.
* `Arena.Binds`: names were bound in a table, each once.
* `mem_localSymbols_iff`, `lookup_localSymbols`: the names of a table with their values.
-/

namespace ScriptMachine

namespace Table

variable {t : Table} {name : String} {v : Value} {s u : Symbol}

theorem mem_of_symbol? (h : t.symbol? name = some s) : s ∈ t.symbols ∧ s.name = name :=
  ⟨List.mem_of_find?_eq_some h,
    eq_of_beq (List.find?_some (p := fun s : Symbol => s.name == name) h)⟩

/-- A name is found by its symbol. -/
theorem symbol?_of_mem (hs : s ∈ t.symbols) : t.symbol? s.name = some s := by
  have hnames := t.ordered.names
  unfold symbol?
  generalize t.symbols = symbols at hs hnames
  induction symbols with
  | nil => cases hs
  | cons x rest ih =>
    rw [List.map_cons, List.nodup_cons] at hnames
    rcases List.mem_cons.1 hs with rfl | hmem
    · rw [List.find?_cons_of_pos (by exact beq_self_eq_true _)]
    · have hne : x.name ≠ s.name := by
        intro heq
        rw [heq] at hnames
        exact hnames.1 (List.mem_map_of_mem hmem)
      rw [List.find?_cons_of_neg (by simpa using hne)]
      exact ih hmem hnames.2

/-- Different names have different slots. -/
theorem slot_ne (hs : s ∈ t.symbols) (hu : u ∈ t.symbols) (hne : s.name ≠ u.name) :
    s.slot ≠ u.slot := by
  have hslots := t.ordered.slots
  generalize t.symbols = symbols at hs hu hslots
  induction hslots with
  | nil => cases hs
  | @cons x rest hlt _ ih =>
    rcases List.mem_cons.1 hs with rfl | hs'
    · rcases List.mem_cons.1 hu with rfl | hu'
      · exact absurd rfl hne
      · exact Nat.ne_of_lt (hlt u hu')
    · rcases List.mem_cons.1 hu with rfl | hu'
      · exact Nat.ne_of_gt (hlt s hs')
      · exact ih hs' hu'

/-- A name that was bound has its value. -/
theorem get?_store_self (t : Table) (name : String) (v : Value) :
    (t.store name v).get? name = some v := by
  unfold store
  split
  · rename_i s hsymbol
    have hbounded := t.ordered.bounded s (mem_of_symbol? hsymbol).1
    show (t.symbol? name).bind (fun s => (t.slots.set _ v).get? s.slot) = some v
    rw [hsymbol, Option.bind_some, Bins.get?_set_self hbounded]
  · rename_i hsymbol
    have hfind : t.symbols.find? (fun s => s.name == name) = none := hsymbol
    show ((t.symbols ++ [(⟨name, t.slots.size, false, false⟩ : Symbol)]).find? _).bind
      (fun s => (t.slots.push v).get? s.slot) = some v
    rw [List.find?_append, hfind, Option.none_or,
      List.find?_cons_of_pos (by exact beq_self_eq_true _),
      Option.bind_some, Bins.get?_push_size]

/-- Binding a name leaves the others as they are. -/
theorem get?_store_ne (t : Table) {other : String} (hne : other ≠ name) (v : Value) :
    (t.store name v).get? other = t.get? other := by
  unfold store
  split
  · rename_i s hsymbol
    obtain ⟨hs, hname⟩ := mem_of_symbol? hsymbol
    show (t.symbol? other).bind (fun u => (t.slots.set s.slot v).get? u.slot)
      = (t.symbol? other).bind fun u => t.slots.get? u.slot
    cases hother : t.symbol? other with
    | none => rfl
    | some u =>
      obtain ⟨hu, hname'⟩ := mem_of_symbol? hother
      have hslot := slot_ne hs hu (by rw [hname, hname']; exact hne.symm)
      rw [Option.bind_some, Option.bind_some, Bins.get?_set_ne hslot.symm]
  · show ((t.symbols ++ [(⟨name, t.slots.size, false, false⟩ : Symbol)]).find? _).bind
      (fun u => (t.slots.push v).get? u.slot) = (t.symbols.find? _).bind fun u => t.slots.get? u.slot
    rw [List.find?_append, List.find?_cons_of_neg (by simpa using hne.symm), List.find?_nil,
      Option.or_none]
    cases hother : t.symbols.find? (fun s => s.name == other) with
    | none => rfl
    | some u =>
      have hbounded := t.ordered.bounded u (List.mem_of_find?_eq_some hother)
      rw [Option.bind_some, Option.bind_some, Bins.get?_push_lt hbounded]

/-! ### The slot of a name -/

/-- The slot of a name. -/
def slot? (t : Table) (name : String) : Option Nat := (t.symbol? name).map (·.slot)

/-- The slot that a name is bound in: its own, or the next one. -/
def slotFor (t : Table) (name : String) : Nat := (t.slot? name).getD t.size

variable {other : String} {k : Nat}

theorem slot?_eq_some_iff : t.slot? name = some k ↔ ∃ s, t.symbol? name = some s ∧ s.slot = k :=
  Option.map_eq_some_iff

theorem slot?_lt (h : t.slot? name = some k) : k < t.size := by
  obtain ⟨s, hs, rfl⟩ := slot?_eq_some_iff.1 h
  exact t.ordered.bounded s (mem_of_symbol? hs).1

/-- A slot belongs to one name. -/
theorem eq_of_slot? (h : t.slot? name = some k) (h' : t.slot? other = some k) : name = other := by
  obtain ⟨s, hs, rfl⟩ := slot?_eq_some_iff.1 h
  obtain ⟨u, hu, hslot⟩ := slot?_eq_some_iff.1 h'
  obtain ⟨hmem, rfl⟩ := mem_of_symbol? hs
  obtain ⟨hmem', rfl⟩ := mem_of_symbol? hu
  by_cases hne : s.name = u.name
  · exact hne
  · exact absurd hslot.symm (slot_ne hmem hmem' hne)

theorem get?_eq (t : Table) (name : String) : t.get? name = t.slot? name >>= t.value? := by
  unfold get? slot?
  cases t.symbol? name <;> rfl

theorem slot?_mark (t : Table) (name : String) (f : Symbol → Symbol) (other : String) :
    (t.mark name f).slot? other = t.slot? other := by
  unfold slot? symbol? mark
  dsimp only
  generalize t.symbols = symbols
  induction symbols with
  | nil => rfl
  | cons s rest ih =>
    have hname : (if s.name == name then { f s with name := s.name, slot := s.slot } else s).name
        = s.name := by split <;> rfl
    have hslot : (if s.name == name then { f s with name := s.name, slot := s.slot } else s).slot
        = s.slot := by split <;> rfl
    rw [List.map_cons, List.find?_cons, List.find?_cons, hname]
    cases s.name == other with
    | true => exact congrArg some hslot
    | false => exact ih

/-- A name that is bound keeps its slot or gets the next one; the others keep theirs. -/
theorem slot?_store (t : Table) (name : String) (v : Value) (other : String) :
    (t.store name v).slot? other = if other = name then some (t.slotFor name) else t.slot? other := by
  unfold store
  split
  · rename_i s hsymbol
    have hsame : (t.writeSlot s.slot v).slot? other = t.slot? other := rfl
    rw [hsame]
    split
    · rename_i hother
      rw [hother, slotFor, slot?, hsymbol]
      rfl
    · rfl
  · rename_i hsymbol
    have hfind : t.symbols.find? (fun s => s.name == name) = none := hsymbol
    show ((t.symbols ++ [(⟨name, t.size, false, false⟩ : Symbol)]).find? _).map (·.slot) = _
    rw [List.find?_append]
    split
    · rename_i hother
      rw [hother, hfind, slotFor, slot?, hsymbol]
      simp
    · rename_i hother
      rw [List.find?_cons_of_neg (by simpa using Ne.symm hother)]
      simp [slot?, symbol?]

/-- A name that is forgotten has no slot; the others keep theirs. -/
theorem slot?_forget (t : Table) (name other : String) :
    (t.forget name).slot? other = if other = name then none else t.slot? other := by
  split
  · rename_i hother
    rw [hother, slot?, symbol?_forget_self]
    rfl
  · rename_i hother
    unfold forget
    split
    · unfold slot? symbol?
      dsimp only
      rw [List.find?_filter]
      congr 2
      funext s
      by_cases hs : s.name = other
      · simp [hs, hother]
      · simp [hs]
    · rfl

theorem value?_writeSlot (t : Table) (k : Nat) (v : Value) (j : Nat) :
    (t.writeSlot k v).value? j = if j = k ∧ k < t.size then some v else t.value? j := by
  show (t.slots.set k v).get? j = if j = k ∧ k < t.slots.size then some v else t.slots.get? j
  by_cases hj : j = k
  · subst hj
    by_cases hlt : j < t.slots.size
    · rw [if_pos ⟨rfl, hlt⟩, Bins.get?_set_self hlt]
    · rw [if_neg fun hboth => hlt hboth.2, Bins.set, if_neg hlt]
  · rw [if_neg fun hboth => hj hboth.1, Bins.get?_set_ne hj]

/-- Binding a name writes its slot and no other. -/
theorem value?_store (t : Table) (name : String) (v : Value) (j : Nat) :
    (t.store name v).value? j = if j = t.slotFor name then some v else t.value? j := by
  unfold store
  split
  · rename_i s hsymbol
    have hslot : t.slotFor name = s.slot := by
      rw [slotFor, slot?, hsymbol]
      rfl
    have hlt : s.slot < t.size := t.ordered.bounded s (mem_of_symbol? hsymbol).1
    rw [value?_writeSlot, hslot]
    simp only [hlt, and_true]
  · rename_i hsymbol
    have hslot : t.slotFor name = t.slots.size := by
      rw [slotFor, slot?, hsymbol]
      rfl
    show (t.slots.push v).get? j = if j = t.slotFor name then some v else t.slots.get? j
    rw [hslot]
    rcases Nat.lt_trichotomy j t.slots.size with hlt | heq | hgt
    · rw [if_neg (Nat.ne_of_lt hlt), Bins.get?_push_lt hlt]
    · rw [if_pos heq, heq, Bins.get?_push_size]
    · rw [if_neg (Nat.ne_of_gt hgt), Bins.get?_eq_none (by rw [Bins.size_push]; exact hgt),
        Bins.get?_eq_none (Nat.le_of_lt hgt)]

/-- Forgetting a name clears its slot and no other. -/
theorem value?_forget (t : Table) (name : String) (j : Nat) :
    (t.forget name).value? j = if t.slot? name = some j then some .null else t.value? j := by
  unfold forget
  split
  · rename_i s hsymbol
    have hlt : s.slot < t.size := t.ordered.bounded s (mem_of_symbol? hsymbol).1
    have hslot : t.slot? name = some s.slot := by
      rw [slot?, hsymbol]
      rfl
    show (t.writeSlot s.slot .null).value? j = _
    rw [value?_writeSlot, hslot]
    simp only [hlt, and_true, Option.some.injEq, eq_comm]
  · rename_i hsymbol
    rw [slot?, hsymbol]
    rfl

end Table

namespace Arena

variable {a b : Arena} {id x : TableId} {name other : String} {v : Value}

/-- A write that succeeds binds the name in one table. -/
theorem table?_setAlways (h : a.setAlways id name v = .ok b) : ∃ t, a.table? id = some t ∧
    ∀ x, b.table? x = if x = id then some (t.store name v) else a.table? x := by
  unfold setAlways update at h
  cases ht : a.table id with
  | error e =>
    rw [ht] at h
    cases h
  | ok t =>
    rw [ht] at h
    cases h
    exact ⟨t, table?_of_table ht, table?_put (table?_of_table ht) _⟩

/-- **Binding a name** is seen where it was bound, and nowhere else. -/
theorem getLocal?_setAlways (hset : a.setAlways id name v = .ok b) (x : TableId) (other : String) :
    b.getLocal? x other = if x = id ∧ other = name then some v else a.getLocal? x other := by
  obtain ⟨t, ht, hafter⟩ := table?_setAlways hset
  unfold getLocal?
  rw [hafter]
  by_cases hx : x = id
  · subst hx
    rw [if_pos rfl, ht]
    by_cases hname : other = name
    · subst hname
      rw [if_pos ⟨rfl, rfl⟩]
      exact t.get?_store_self _ _
    · rw [if_neg (fun hboth => hname hboth.2)]
      exact t.get?_store_ne hname _
  · rw [if_neg hx, if_neg (fun hboth => hx hboth.1)]

/-- The names in a table stay while others are removed. -/
theorem getLocal?_remove (hlive : (a.remove id).contains x = true) (name : String) :
    (a.remove id).getLocal? x name = a.getLocal? x name := by
  by_cases hid : id = .root
  · rw [hid, remove_root]
  · unfold getLocal?
    rw [contains, table?_remove hid] at hlive
    rw [table?_remove hid]
    split at hlive
    · cases hlive
    · rename_i hne
      rw [if_neg hne]

/-- Names were bound in a table. -/
structure Binds (a b : Arena) (table : TableId) (bindings : List (String × Value)) : Prop where
  outline_eq : b.outline = a.outline
  getLocal?_eq : ∀ x name, b.getLocal? x name =
    if x = table then (bindings.lookup name).or (a.getLocal? x name) else a.getLocal? x name

theorem Binds.nil (a : Arena) (table : TableId) : a.Binds a table [] :=
  ⟨rfl, fun x name => by split <;> rfl⟩

/-- One name is bound, and then others. -/
theorem Binds.cons {c : Arena} {rest : List (String × Value)}
    (hset : a.setAlways id name v = .ok b) (hrest : b.Binds c id rest)
    (hnew : name ∉ rest.map (·.1)) : a.Binds c id ((name, v) :: rest) where
  outline_eq := hrest.outline_eq.trans (outline_of_setAlways hset)
  getLocal?_eq x other := by
    rw [hrest.getLocal?_eq, getLocal?_setAlways hset]
    by_cases hx : x = id
    · rw [if_pos hx, if_pos hx, Assoc.lookup_cons]
      by_cases hother : other = name
      · have hnone : rest.lookup other = none := by
          rw [List.lookup_eq_none_iff]
          rintro p hp
          rw [bne_iff_ne]
          rintro rfl
          exact hnew (hother ▸ List.mem_map_of_mem hp)
        rw [if_pos ⟨hx, hother⟩, if_pos (beq_iff_eq.2 hother), hnone]
        rfl
      · rw [if_neg fun hboth => hother hboth.2, if_neg fun heq => hother (eq_of_beq heq)]
    · rw [if_neg hx, if_neg hx, if_neg fun hboth => hx hboth.1]

/-- The names of a table with their values. -/
theorem mem_localSymbols_iff : (name, v) ∈ a.localSymbols id ↔ a.getLocal? id name = some v := by
  unfold localSymbols getLocal?
  cases ht : a.table? id with
  | none => exact ⟨fun hmem => absurd hmem List.not_mem_nil, fun hsome => nomatch hsome⟩
  | some t =>
    show (name, v) ∈ t.sorted.map _ ↔ t.get? name = some v
    unfold Table.get?
    rw [List.mem_map]
    constructor
    · rintro ⟨⟨s, w⟩, hmem, heq⟩
      cases heq
      rw [t.sorted_perm.mem_iff, List.mem_filterMap] at hmem
      obtain ⟨u, hu, hvalue⟩ := hmem
      obtain ⟨w', hw', heq⟩ := Option.map_eq_some_iff.1 hvalue
      cases heq
      rw [Table.symbol?_of_mem hu]
      exact hw'
    · intro hsome
      obtain ⟨s, hsymbol, hvalue⟩ := Option.bind_eq_some_iff.1 hsome
      obtain ⟨hs, rfl⟩ := Table.mem_of_symbol? hsymbol
      refine ⟨(s, v), ?_, rfl⟩
      rw [t.sorted_perm.mem_iff, List.mem_filterMap]
      exact ⟨s, hs, by rw [hvalue]; rfl⟩

/-- Each name is listed once. -/
theorem nodup_localSymbols (a : Arena) (id : TableId) :
    ((a.localSymbols id).map Prod.fst).Nodup := by
  unfold localSymbols
  cases ht : a.table? id with
  | none => exact List.nodup_nil
  | some t =>
    show ((t.sorted.map _).map Prod.fst).Nodup
    rw [List.map_map, List.Nodup, List.pairwise_map]
    have hnames := t.ordered.names
    rw [List.Nodup, List.pairwise_map] at hnames
    refine (List.Perm.pairwise_iff (fun hne => hne.symm) t.sorted_perm).2 ?_
    rw [List.pairwise_filterMap]
    refine hnames.imp fun hne p hp q hq => ?_
    obtain ⟨v, -, rfl⟩ := Option.map_eq_some_iff.1 hp
    obtain ⟨w, -, rfl⟩ := Option.map_eq_some_iff.1 hq
    exact hne

/-- Among the names of a table, a name has its value. -/
theorem lookup_localSymbols (a : Arena) (id : TableId) (name : String) :
    (a.localSymbols id).lookup name = a.getLocal? id name := by
  have hnodup := a.nodup_localSymbols id
  cases hvalue : a.getLocal? id name with
  | none =>
    rw [List.lookup_eq_none_iff]
    rintro ⟨other, v⟩ hmem
    rw [bne_iff_ne]
    rintro rfl
    rw [mem_localSymbols_iff, hvalue] at hmem
    cases hmem
  | some v =>
    have hmem := mem_localSymbols_iff.2 hvalue
    generalize a.localSymbols id = symbols at hnodup hmem
    induction symbols with
    | nil => cases hmem
    | cons p rest ih =>
      rw [List.map_cons, List.nodup_cons] at hnodup
      rw [Assoc.lookup_cons]
      rcases List.mem_cons.1 hmem with rfl | hrest
      · exact if_pos (beq_self_eq_true _)
      · rw [if_neg, ih hnodup.2 hrest]
        intro heq
        exact hnodup.1 (eq_of_beq heq ▸ List.mem_map_of_mem hrest)

end Arena

end ScriptMachine
