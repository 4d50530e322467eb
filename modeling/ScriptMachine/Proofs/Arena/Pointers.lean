import ScriptMachine.Proofs.Arena.Histories
import ScriptMachine.Proofs.Arena.Lookups

/-!
# Addresses of slots

A slot belongs to one name, as long as it belongs to any: slots are handed out one after the other,
and none is handed out again. So an address keeps to the name that it was taken of. What is read and
written through it is the value of that name, and once the name is deleted it is nobody's.

* `Table.Follows`: names with an old slot are those that had it before.
* `Arena.Names`: an address is that of a name.
* `Arena.Assigns`, `Arena.StoresTo`: a name, and nothing else, gets a value.
* `names_run`, `follows_run`: what any operations leave of an address and of a table.
* `History.KeepsTo`, `pointer_keeps_to_its_name`: reads and writes through an address, at any later
  time.
-/

namespace ScriptMachine

/-- A table later on: it has no fewer slots, and a name with a slot that was handed out before is the
one that had it. -/
structure Table.Follows (t u : Table) : Prop where
  size_le : t.size ≤ u.size
  owner : ∀ name k, u.slot? name = some k → k < t.size → t.slot? name = some k

namespace Table

variable {t u : Table} {name other : String} {k : Nat} {v : Value}

theorem Follows.refl (t : Table) : t.Follows t := ⟨Nat.le_refl _, fun _ _ h _ => h⟩

theorem Follows.trans {w : Table} (htu : t.Follows u) (huw : u.Follows w) : t.Follows w where
  size_le := Nat.le_trans htu.size_le huw.size_le
  owner name k hslot hk :=
    htu.owner name k (huw.owner name k hslot (Nat.lt_of_lt_of_le hk htu.size_le)) hk

/-- Another name is bound in another slot. -/
theorem ne_slotFor (hslot : t.slot? name = some k) (hne : name ≠ other) : k ≠ t.slotFor other := by
  intro hk
  unfold slotFor at hk
  cases hother : t.slot? other with
  | none =>
    rw [hother] at hk
    exact Nat.ne_of_lt (slot?_lt hslot) hk
  | some j =>
    rw [hother] at hk
    cases hk
    exact hne (eq_of_slot? hslot hother)

theorem slotFor_of_slot? (hslot : t.slot? name = some k) : t.slotFor name = k := by
  rw [slotFor, hslot]
  rfl

theorem follows_store (t : Table) (name : String) (v : Value) : t.Follows (t.store name v) where
  size_le := t.size_le_size_store name v
  owner other k hslot hk := by
    rw [slot?_store] at hslot
    split at hslot
    · rename_i hother
      cases hslot
      rw [hother]
      unfold slotFor at hk ⊢
      cases hname : t.slot? name with
      | none =>
        rw [hname] at hk
        exact absurd hk (Nat.lt_irrefl _)
      | some j => rfl
    · exact hslot

theorem follows_mark (t : Table) (name : String) (f : Symbol → Symbol) : t.Follows (t.mark name f) where
  size_le := Nat.le_refl _
  owner other k hslot _ := by rwa [slot?_mark] at hslot

theorem follows_forget (t : Table) (name : String) : t.Follows (t.forget name) where
  size_le := Nat.le_of_eq (t.size_forget name).symm
  owner other k hslot _ := by
    rw [slot?_forget] at hslot
    split at hslot
    · cases hslot
    · exact hslot

theorem follows_writeSlot (t : Table) (k : Nat) (v : Value) : t.Follows (t.writeSlot k v) :=
  ⟨Nat.le_of_eq (t.size_writeSlot k v).symm, fun _ _ h _ => h⟩

/-- A name reads the slot that it has, so one in another slot does not see a write. -/
theorem get?_writeSlot_of_ne (hslot : t.slot? other ≠ some k) (v : Value) :
    (t.writeSlot k v).get? other = t.get? other := by
  have hsame : (t.writeSlot k v).slot? other = t.slot? other := rfl
  rw [get?_eq, get?_eq, hsame]
  cases hother : t.slot? other with
  | none => rfl
  | some j =>
    show (t.writeSlot k v).value? j = t.value? j
    rw [value?_writeSlot, if_neg]
    rintro ⟨rfl, -⟩
    exact hslot hother

/-- The value in a slot, or the fault of reading where there is none. -/
def deref (t : Table) (k : Nat) : Except Fault Value :=
  match t.value? k with
  | some v => .ok v
  | none => .error (.bare .nilPointerReference)

theorem deref_congr {j : Nat} (h : u.value? j = t.value? k) : u.deref j = t.deref k := by
  rw [deref, h]
  rfl

end Table

namespace Arena

/-! ### What a write does to a slot -/

/-- The write deletes a name. -/
def Write.Deletes (name : String) : Write → Prop
  | .delete _ other _ => other = name
  | _ => False

/-- The write is one to the slot of a name: by the name, or through the address. -/
def Write.Overwrites (name : String) (k : Nat) : Write → Prop
  | .set _ other _ | .setAlways _ other _ | .setConstant _ other _ => other = name
  | .storeVia p _ => p.slot = k
  | _ => False

variable {a b : Arena} {id x : TableId} {t u : Table} {name other : String} {k : Nat} {v : Value}
  {p : Pointer} {op : Operation}

theorem Write.follows_onTable (t : Table) (w : Write) : t.Follows (w.onTable t) := by
  cases w with
  | set start name v => exact t.follows_store name v
  | setAlways id name v => exact t.follows_store name v
  | setConstant id name v => exact (t.follows_store name v).trans (Table.follows_mark _ name _)
  | setReadonly id name readonly => exact t.follows_mark name _
  | create id name => exact t.follows_store name .null
  | delete id name always => exact t.follows_forget name
  | storeVia p v => exact t.follows_writeSlot p.slot v
  | _ => exact ⟨Nat.le_refl _, fun _ _ h _ => h⟩

/-- A name that is not deleted keeps its slot. -/
theorem Write.slot?_onTable (hslot : t.slot? name = some k) {w : Write}
    (hkept : ¬ w.Deletes name) : (w.onTable t).slot? name = some k := by
  have hstore : ∀ other v, (t.store other v).slot? name = some k := by
    intro other v
    rw [Table.slot?_store]
    split
    · rename_i hother
      rw [← hother, Table.slotFor_of_slot? hslot]
    · exact hslot
  cases w with
  | set start other v => exact hstore other v
  | setAlways id other v => exact hstore other v
  | setConstant id other v => exact (Table.slot?_mark _ other _ name).trans (hstore other v)
  | setReadonly id other readonly => exact (t.slot?_mark other _ name).trans hslot
  | create id other => exact hstore other .null
  | delete id other always =>
    have hne : name ≠ other := fun heq => hkept heq.symm
    exact (t.slot?_forget other name).trans ((if_neg hne).trans hslot)
  | _ => exact hslot

/-- A slot that is not written keeps its value. -/
theorem Write.value?_onTable (hslot : t.slot? name = some k) {w : Write}
    (hkept : ¬ w.Deletes name) (hquiet : ¬ w.Overwrites name k) (hnew : ∀ id, w ≠ .create id name) :
    (w.onTable t).value? k = t.value? k := by
  have hstore : ∀ other v, other ≠ name → (t.store other v).value? k = t.value? k := by
    intro other v hne
    rw [Table.value?_store, if_neg (Table.ne_slotFor hslot (Ne.symm hne))]
  cases w with
  | set start other v => exact hstore other v hquiet
  | setAlways id other v => exact hstore other v hquiet
  | setConstant id other v => exact hstore other v hquiet
  | setReadonly id other readonly => rfl
  | create id other => exact hstore other .null fun heq => hnew id (heq ▸ rfl)
  | delete id other always =>
    refine (t.value?_forget other k).trans (if_neg fun hother => hkept ?_)
    exact Table.eq_of_slot? hother hslot
  | storeVia p v =>
    refine (t.value?_writeSlot p.slot v k).trans (if_neg fun hboth => hquiet hboth.1.symm)
  | _ => rfl

/-! ### Addresses of names -/

/-- An address is that of a name. -/
def Names (a : Arena) (p : Pointer) (name : String) : Prop :=
  ∃ t, a.table? p.table = some t ∧ t.slot? name = some p.slot

/-- An operation removes a table. -/
def Removes (a : Arena) (id : TableId) (op : Operation) : Prop := a.removal op = some id

/-- An operation deletes a name from a table. -/
def Deletes (a : Arena) (id : TableId) (name : String) (op : Operation) : Prop :=
  ∃ w b, op = .write w ∧ a.write w = .ok b ∧ a.target w = id ∧ w.Deletes name

/-- An operation writes the slot of a name. -/
def Overwrites (a : Arena) (p : Pointer) (name : String) (op : Operation) : Prop :=
  ∃ w b, op = .write w ∧ a.write w = .ok b ∧ a.target w = p.table ∧ w.Overwrites name p.slot

/-- A name gets a value, and nothing else changes. -/
structure Assigns (a b : Arena) (p : Pointer) (name : String) (v : Value) : Prop where
  names : b.Names p name
  deref : ∀ q, b.deref q = if q = p then .ok v else a.deref q
  getLocal? : ∀ x other,
    b.getLocal? x other = if x = p.table ∧ other = name then some v else a.getLocal? x other
  table? : ∀ x, x ≠ p.table → b.table? x = a.table? x
  outline : b.outline = a.outline

/-- A name gets a value through its address: this is read wherever the name is visible, and nothing
else that can be read or looked up changes. -/
structure StoresTo (a b : Arena) (p : Pointer) (name : String) (v : Value) : Prop
    extends Assigns a b p name v where
  sameNames : ∀ x, a.SameNames b x
  get?_of_address : ∀ start other, a.addressOf start other = .ok p → b.get? start other = some v
  get?_of_other : ∀ start other, a.addressOf start other ≠ .ok p →
    b.get? start other = a.get? start other

theorem deref_of_table? (ht : a.table? p.table = some t) : a.deref p = t.deref p.slot := by
  unfold deref
  rw [ht]
  rfl

/-- Reading through an address of a table that was rewritten. -/
theorem deref_put (ht : a.table? id = some t) (u : Table) (q : Pointer) :
    (a.put id u).deref q = if q.table = id then u.deref q.slot else a.deref q := by
  split
  · rename_i hq
    exact deref_of_table? (by rw [table?_put ht, if_pos hq])
  · rename_i hq
    unfold deref
    rw [table?_put ht, if_neg hq]

/-- A table is rewritten so that a name gets a value. -/
theorem assigns_put (ht : a.table? p.table = some t) (houtline : u.outline = t.outline)
    (hslot : u.slot? name = some p.slot)
    (hslots : ∀ other, other ≠ name → u.slot? other = t.slot? other)
    (hvalue : ∀ j, u.value? j = if j = p.slot then some v else t.value? j)
    (hothers : ∀ other, other ≠ name → t.slot? other ≠ some p.slot) :
    a.Assigns (a.put p.table u) p name v where
  names := ⟨u, table?_put_self ht, hslot⟩
  deref q := by
    rw [deref_put ht]
    by_cases hq : q = p
    · subst hq
      rw [if_pos rfl, if_pos rfl, Table.deref, hvalue, if_pos rfl]
    · rw [if_neg hq]
      split
      · rename_i htable
        rw [deref_of_table? (htable ▸ ht)]
        refine Table.deref_congr ((hvalue q.slot).trans (if_neg fun hslotq => hq ?_))
        obtain ⟨qt, qk⟩ := q
        obtain ⟨pt, pk⟩ := p
        cases htable
        cases hslotq
        rfl
      · rfl
  getLocal? x other := by
    unfold Arena.getLocal?
    rw [table?_put ht]
    by_cases hx : x = p.table
    · subst hx
      rw [if_pos rfl, ht]
      show u.get? other = if _ then some v else t.get? other
      rw [Table.get?_eq, Table.get?_eq]
      by_cases hother : other = name
      · subst hother
        rw [if_pos ⟨rfl, rfl⟩, hslot]
        exact (hvalue p.slot).trans (if_pos rfl)
      · rw [if_neg fun hboth => hother hboth.2, hslots other hother]
        cases hj : t.slot? other with
        | none => rfl
        | some j =>
          refine (hvalue j).trans (if_neg ?_)
          rintro rfl
          exact hothers other hother hj
    · rw [if_neg hx, if_neg fun hboth => hx hboth.1]
  table? x hx := by rw [table?_put ht, if_neg hx]
  outline := outline_put ht houtline

/-- Binding a name assigns it. -/
theorem assigns_store (ht : a.table? id = some t) (name : String) (v : Value) :
    a.Assigns (a.put id (t.store name v)) ⟨id, t.slotFor name⟩ name v := by
  refine assigns_put (p := ⟨id, t.slotFor name⟩) ht (t.outline_store name v) ?_ ?_
    (t.value?_store name v) ?_
  · rw [Table.slot?_store, if_pos rfl]
  · exact fun other hother => by rw [Table.slot?_store, if_neg hother]
  · exact fun other hother hslot => Table.ne_slotFor hslot hother rfl

/-- A write to a slot changes nothing that lookups see. -/
theorem sameNames_writeSlot (ht : a.table? id = some t) (k : Nat) (v : Value) (x : TableId) :
    a.SameNames (a.put id (t.writeSlot k v)) x := by
  unfold SameNames signs
  rw [table?_put ht]
  split
  · rename_i hx
    rw [hx, ht]
    rfl
  · rfl

/-- The address of a name is where its value is. -/
theorem get?_of_addressOf {start : TableId} (h : a.addressOf start name = .ok p) :
    ∃ v, a.get? start name = some v ∧ a.getLocal? p.table name = some v ∧ a.deref p = .ok v ∧
      a.Names p name := by
  unfold addressOf at h
  cases hfound : a.resolve start name with
  | none =>
    rw [hfound] at h
    cases h
  | some found =>
    obtain ⟨id, s⟩ := found
    rw [hfound] at h
    cases h
    obtain ⟨⟨t, ht, hsymbol⟩, -⟩ := resolve_eq_some hfound
    have hslot : t.slot? name = some s.slot := Table.slot?_eq_some_iff.2 ⟨s, hsymbol, rfl⟩
    obtain ⟨v, hv⟩ := Option.isSome_iff_exists.1 (Bins.isSome_get?_iff.2 (Table.slot?_lt hslot))
    have hvalue : t.value? s.slot = some v := hv
    refine ⟨v, ?_, ?_, ?_, t, ht, hslot⟩
    · simp [get?, hfound, ht, hvalue]
    · simp [getLocal?, ht, Table.get?_eq, hslot, hvalue]
    · simp [deref, ht, hvalue]

/-- What a name reads is behind its address. -/
theorem get?_eq_deref (a : Arena) (start : TableId) (name : String) :
    a.get? start name = ((a.addressOf start name).bind a.deref).toOption := by
  cases haddress : a.addressOf start name with
  | ok p =>
    obtain ⟨v, hget, -, hderef, -⟩ := get?_of_addressOf haddress
    rw [hget]
    simp [Except.bind, hderef, Except.toOption]
  | error f =>
    have hnone : a.resolve start name = none := by
      unfold addressOf at haddress
      split at haddress
      · cases haddress
      · assumption
    simp [get?, hnone, Except.bind, Except.toOption]

theorem addressOf_congr (h : ∀ x, a.SameNames b x) (start : TableId) (name : String) :
    b.addressOf start name = a.addressOf start name := by
  have hresolve : b.resolve start name = a.resolve start name :=
    @resolve_congr a b start (fun _ => True) trivial (fun x _ => h x) (h .root)
      (fun _ _ _ _ _ _ _ => trivial) name
  unfold addressOf
  rw [hresolve]

/-- Writing through the address of a name assigns it. -/
theorem storeVia_storesTo (h : a.Names p name) (v : Value) :
    ∃ b, a.storeVia p v = .ok b ∧ a.StoresTo b p name v := by
  obtain ⟨t, ht, hslot⟩ := h
  have hlt := Table.slot?_lt hslot
  have hsame := sameNames_writeSlot ht p.slot v
  have hassigns : a.Assigns (a.put p.table (t.writeSlot p.slot v)) p name v := by
    refine assigns_put ht (t.outline_writeSlot p.slot v) hslot (fun _ _ => rfl) (fun j => ?_)
      fun other hother hslot' => hother (Table.eq_of_slot? hslot' hslot)
    rw [Table.value?_writeSlot]
    simp only [hlt, and_true]
  refine ⟨_, by simp only [storeVia, ht, if_pos hlt], hassigns, hsame, ?_, ?_⟩
  · intro start other haddress
    rw [get?_eq_deref, addressOf_congr hsame, haddress]
    exact congrArg Except.toOption ((hassigns.deref p).trans (if_pos rfl))
  · intro start other haddress
    rw [get?_eq_deref, get?_eq_deref, addressOf_congr hsame]
    cases hother : a.addressOf start other with
    | error f => rfl
    | ok q =>
      refine congrArg Except.toOption ((hassigns.deref q).trans (if_neg ?_))
      rintro rfl
      exact haddress hother

/-- Writing to a slot that no name has is seen by no name. -/
theorem storeVia_unnamed (hfree : ∀ other, ¬ a.Names p other) (hstore : a.storeVia p v = .ok b) :
    (∀ x other, b.getLocal? x other = a.getLocal? x other) ∧
      ∀ start other, b.get? start other = a.get? start other := by
  obtain ⟨t, ht, -, rfl⟩ := storeVia_eq_ok hstore
  refine ⟨fun x other => ?_, fun start other => ?_⟩
  · unfold getLocal?
    rw [table?_put ht]
    split
    · rename_i hx
      rw [hx, ht]
      exact Table.get?_writeSlot_of_ne (fun hslot => hfree other ⟨t, ht, hslot⟩) v
    · rfl
  · rw [get?_eq_deref, get?_eq_deref, addressOf_congr (sameNames_writeSlot ht p.slot v)]
    cases haddress : a.addressOf start other with
    | error f => rfl
    | ok q =>
      obtain ⟨-, -, -, -, hnames⟩ := get?_of_addressOf haddress
      refine congrArg Except.toOption ((deref_put ht _ q).trans ?_)
      show (if q.table = p.table then _ else a.deref q) = a.deref q
      split
      · rename_i htable
        rw [deref_of_table? (htable ▸ ht)]
        refine Table.deref_congr ((t.value?_writeSlot p.slot v q.slot).trans (if_neg ?_))
        rintro ⟨hslot, -⟩
        obtain ⟨u, hu, hother⟩ := hnames
        exact hfree other ⟨u, htable ▸ hu, hslot ▸ hother⟩
      · rfl

/-- **One operation** that neither removes the table nor deletes the name leaves the address to the
name, and if it does not write the slot either, the value. -/
theorem Names.perform (h : a.Names p name) (hsound : a.Sound) (hkept : ¬ a.Removes p.table op)
    (hnamed : ¬ a.Deletes p.table name op) : (a.perform op).2.Names p name ∧
      (¬ a.Overwrites p name op → (a.perform op).2.deref p = a.deref p) := by
  obtain ⟨t, ht, hslot⟩ := h
  rcases table?_perform_of_live hsound ht hkept with hsame | ⟨w, b, rfl, hwrite, htarget, hafter⟩
  · exact ⟨⟨t, hsame, hslot⟩, fun _ => by rw [deref_of_table? hsame, deref_of_table? ht]⟩
  · have hdelete : ¬ w.Deletes name := fun hdeletes =>
      hnamed ⟨w, b, rfl, hwrite, htarget, hdeletes⟩
    refine ⟨⟨_, hafter, Write.slot?_onTable hslot hdelete⟩, fun hquiet => ?_⟩
    rw [deref_of_table? hafter, deref_of_table? ht]
    refine Table.deref_congr (Write.value?_onTable hslot hdelete ?_ ?_)
    · exact fun hoverwrites => hquiet ⟨w, b, rfl, hwrite, htarget, hoverwrites⟩
    · -- A name that is there cannot be created.
      rintro id rfl
      obtain ⟨u, hu, hmissing, -⟩ := create_eq_ok hwrite
      obtain rfl : id = p.table := htarget
      rw [ht] at hu
      cases hu
      obtain ⟨s, hs, -⟩ := Table.slot?_eq_some_iff.1 hslot
      rw [hmissing] at hs
      cases hs

namespace History

variable {h : History} {ops : List Operation}

/-- **Any operations** that neither remove the table nor delete the name. -/
theorem names_run (hreg : h.Regular) (hnames : h.arena.Names p name)
    (hkept : h.Throughout ops fun a op => ¬ a.Removes p.table op)
    (hnamed : h.Throughout ops fun a op => ¬ a.Deletes p.table name op) :
    (h.run ops).arena.Names p name ∧
      ((h.Throughout ops fun a op => ¬ a.Overwrites p name op) →
        (h.run ops).arena.deref p = h.arena.deref p) := by
  induction ops generalizing h with
  | nil => exact ⟨hnames, fun _ => rfl⟩
  | cons op ops ih =>
    obtain ⟨hnext, hvalue⟩ := hnames.perform hreg.sound hkept.head hnamed.head
    obtain ⟨hlater, hvalues⟩ := ih (regular_perform hreg op) hnext hkept.tail hnamed.tail
    exact ⟨hlater, fun hquiet => (hvalues hquiet.tail).trans (hvalue hquiet.head)⟩

/-- **Any operations** that do not remove a table: no slot is handed out again. -/
theorem follows_run (hreg : h.Regular) (ht : h.arena.table? id = some t)
    (hkept : h.Throughout ops fun a op => ¬ a.Removes id op) :
    ∃ u, (h.run ops).arena.table? id = some u ∧ t.Follows u := by
  induction ops generalizing h t with
  | nil => exact ⟨t, ht, .refl t⟩
  | cons op ops ih =>
    rcases table?_perform_of_live hreg.sound ht hkept.head with hsame | ⟨w, b, -, -, -, hafter⟩
    · exact ih (regular_perform hreg op) hsame hkept.tail
    · obtain ⟨u, hu, hfollows⟩ := ih (regular_perform hreg op) hafter hkept.tail
      exact ⟨u, hu, (w.follows_onTable t).trans hfollows⟩

theorem removals_le_run (h : History) (ops : List Operation) (i : Nat) :
    h.removals i ≤ (h.run ops).removals i :=
  (h.run_suffix ops).2.sublist.countP_le

/-- A handle that is live before and after was live all along, unless its place was emptied as often
as there are generations. -/
theorem follows_of_live (hreg : h.Regular) (ht : h.arena.table? id = some t)
    (hu : (h.run ops).arena.table? id = some u)
    (hbound : (h.run ops).removals id.index < h.removals id.index + UInt32.size) : t.Follows u := by
  have hkept : h.Throughout ops fun a op => ¬ a.Removes id op := by
    rintro before op after rfl hremoves
    -- The generation of the place would be another one by now.
    have hbefore := hreg.generation id.index
    have hafter := (regular_run hreg (before ++ op :: after)).generation id.index
    rw [generation_of_live ht] at hbefore
    rw [generation_of_live hu] at hafter
    rw [run_append, run_cons] at hafter hbound
    have hfirst := h.removals_le_run before id.index
    have hthen := ((h.run before).perform op).removals_le_run after id.index
    have hstep : ((h.run before).perform op).removals id.index
        = (h.run before).removals id.index + 1 := by
      have hremoval : (h.run before).arena.removal op = some id := hremoves
      unfold History.perform
      rw [hremoval]
      exact (removals_cons _ _ _ id id.index).trans (by rw [if_pos rfl]; rfl)
    unfold UInt32.size at hbefore hafter hbound
    omega
  obtain ⟨u', hu', hfollows⟩ := follows_run hreg ht hkept
  rw [hu] at hu'
  cases hu'
  exact hfollows

/-- **Once a name is deleted**, no name has its slot, now or later. -/
theorem unnamed_of_deletes {before after : List Operation} (hreg : h.Regular)
    (hnames : h.arena.Names p name) (hdeletes : (h.run before).arena.Deletes p.table name op)
    (hbound : (h.run (before ++ op :: after)).removals p.table.index
      < h.removals p.table.index + UInt32.size) (other : String) :
    ¬ (h.run (before ++ op :: after)).arena.Names p other := by
  rintro ⟨w, hw, hother⟩
  obtain ⟨t, ht, hslot⟩ := hnames
  have hlt := Table.slot?_lt hslot
  have hfirst := h.removals_le_run before p.table.index
  rw [run_append, run_cons] at hw hbound
  have hthen := ((h.run before).perform op).removals_le_run after p.table.index
  have hwithin := (h.run before).removals_le_run [op] p.table.index
  -- The table that the name is deleted from has followed the one of the address.
  obtain ⟨write, b, rfl, hwrite, htarget, hdelete⟩ := hdeletes
  obtain ⟨u, hu, -⟩ := write_eq_ok hwrite
  rw [htarget] at hu
  have htu : t.Follows u := by
    refine follows_of_live hreg ht hu ?_
    have hlast : ((h.run before).run [.write write]).removals p.table.index
      ≤ (((h.run before).perform (.write write)).run after).removals p.table.index := hthen
    omega
  have hafter : ((h.run before).perform (.write write)).arena.table? p.table
      = some (u.forget name) := by
    obtain ⟨u', hu', rfl⟩ := write_eq_ok hwrite
    rw [htarget, hu] at hu'
    cases hu'
    have hforget : write.onTable u = u.forget name := by
      cases write with
      | delete id deleted always =>
        obtain rfl : deleted = name := hdelete
        rfl
      | _ => exact hdelete.elim
    show ((h.run before).arena.perform (.write write)).2.table? p.table = _
    simp only [Arena.perform, hwrite]
    rw [htarget, table?_put_self hu, hforget]
  have huw : (u.forget name).Follows w :=
    follows_of_live (regular_perform (regular_run hreg before) _) hafter hw (by
      have hlast : ((h.run before).run [.write write]).removals p.table.index
        = ((h.run before).perform (.write write)).removals p.table.index := rfl
      omega)
  have hsize : p.slot < (u.forget name).size := by
    rw [Table.size_forget]
    exact Nat.lt_of_lt_of_le hlt htu.size_le
  have hforgotten := huw.owner other p.slot hother hsize
  rw [Table.slot?_forget] at hforgotten
  split at hforgotten
  · cases hforgotten
  · rename_i hne
    exact hne (Table.eq_of_slot? (htu.owner other p.slot hforgotten hlt) hslot)

/-- What an address that was taken of a name does after any further operations. -/
structure KeepsTo (h : History) (p : Pointer) (name : String) (value : Value) : Prop where
  /-- It reads the value of the name, until the table is removed, or the name deleted or written. -/
  reads : ∀ ops, (h.Throughout ops fun a op => ¬ a.Removes p.table op) →
    (h.Throughout ops fun a op => ¬ a.Deletes p.table name op) →
    (h.Throughout ops fun a op => ¬ a.Overwrites p name op) →
    (h.run ops).arena.deref p = .ok value
  /-- A write through it is one to the name, until the table is removed or the name deleted. -/
  writes : ∀ ops v, (h.Throughout ops fun a op => ¬ a.Removes p.table op) →
    (h.Throughout ops fun a op => ¬ a.Deletes p.table name op) →
    ∃ b, (h.run ops).arena.storeVia p v = .ok b ∧ (h.run ops).arena.StoresTo b p name v
  /-- Once the name is deleted, no name sees a write through it, unless the place of the table was
  emptied as often as there are generations, so that the handle may belong to another table. -/
  unseen : ∀ before op after, (h.run before).arena.Deletes p.table name op →
    (h.run (before ++ op :: after)).removals p.table.index < h.removals p.table.index + UInt32.size →
    ∀ v b, (h.run (before ++ op :: after)).arena.storeVia p v = .ok b →
      (∀ x other, b.getLocal? x other
        = (h.run (before ++ op :: after)).arena.getLocal? x other) ∧
      ∀ start other, b.get? start other = (h.run (before ++ op :: after)).arena.get? start other

/-- **An address keeps to its name.** In every reachable arena the names of a live table have slots
of their own, all below its size; each of these lies in a bin that is there, and is handed out once.
And an address that is taken of a name is an address of this name's value, and of nothing else, after
any operations. -/
theorem pointer_keeps_to_its_name {h : History} (hreach : h.Reachable) :
    (∀ id t, h.arena.table? id = some t →
      (∀ name k, t.slot? name = some k →
        k < t.size ∧ ∀ other, t.slot? other = some k → other = name) ∧
      (∀ k, k < t.size → k / Bins.width < t.bins ∧ ∃ v, t.value? k = some v) ∧
      ∀ ops, (h.Throughout ops fun a op => ¬ a.Removes id op) →
        ∃ u, (h.run ops).arena.table? id = some u ∧ t.Follows u) ∧
    ∀ start name p, h.arena.addressOf start name = .ok p →
      ∃ value, h.arena.get? start name = some value ∧
        h.arena.getLocal? p.table name = some value ∧ h.KeepsTo p name value := by
  have hreg := hreach.regular
  refine ⟨fun id t ht => ⟨fun name k hslot => ?_, fun k hk => ?_, fun ops => ?_⟩,
    fun start name p haddress => ?_⟩
  · exact ⟨Table.slot?_lt hslot, fun other hother => Table.eq_of_slot? hother hslot⟩
  · exact ⟨t.slots.bin_lt hk, Option.isSome_iff_exists.1 (Bins.isSome_get?_iff.2 hk)⟩
  · exact follows_run hreg ht
  · obtain ⟨value, hget, hlocal, hderef, hnames⟩ := get?_of_addressOf haddress
    refine ⟨value, hget, hlocal, fun ops hkept hnamed hquiet => ?_, fun ops v hkept hnamed => ?_,
      fun before op after hdeletes hbound v b hstore => ?_⟩
    · exact ((names_run hreg hnames hkept hnamed).2 hquiet).trans hderef
    · exact storeVia_storesTo (names_run hreg hnames hkept hnamed).1 v
    · exact storeVia_unnamed (unnamed_of_deletes hreg hnames hdeletes hbound) hstore

/-- A table with one name. -/
def lodged : History := run {} [.newChild "t" .root false, .write (.setAlways ⟨1, 0⟩ "x" (.int 1))]

/-- The name gets a neighbour, and is then replaced by another of the same name. -/
def replacement : List Operation :=
  [.write (.setAlways ⟨1, 0⟩ "y" (.int 2)), .write (.delete ⟨1, 0⟩ "x" true),
    .write (.setAlways ⟨1, 0⟩ "x" (.int 3))]

theorem pointer_keeps_to_its_name_of_lodged :
    lodged.Reachable ∧ lodged.arena.addressOf ⟨1, 0⟩ "x" = .ok ⟨⟨1, 0⟩, 0⟩ ∧
      lodged.KeepsTo ⟨⟨1, 0⟩, 0⟩ "x" (.int 1) ∧
      (lodged.run (replacement.take 1)).arena.deref ⟨⟨1, 0⟩, 0⟩ = .ok (.int 1) ∧
      ∀ b, (lodged.run replacement).arena.storeVia ⟨⟨1, 0⟩, 0⟩ (.int 9) = .ok b →
        b.getLocal? ⟨1, 0⟩ "x" = some (.int 3) := by
  have hreach : lodged.Reachable := ⟨_, rfl⟩
  have haddress : lodged.arena.addressOf ⟨1, 0⟩ "x" = .ok ⟨⟨1, 0⟩, 0⟩ := rfl
  obtain ⟨value, hget, -, hkeeps⟩ := (pointer_keeps_to_its_name hreach).2 _ _ _ haddress
  have hvalue : lodged.arena.get? ⟨1, 0⟩ "x" = some (.int 1) := rfl
  rw [hvalue] at hget
  cases hget
  refine ⟨hreach, haddress, hkeeps, hkeeps.reads _ (.cons nofun (.nil _ _)) (.cons ?_ (.nil _ _))
    (.cons ?_ (.nil _ _)), fun b hstore => ?_⟩
  · rintro ⟨w, b, hw, -, -, hdeletes⟩
    cases hw
    exact hdeletes
  · rintro ⟨w, b, hw, -, -, hoverwrites⟩
    cases hw
    have hname : "y" = "x" := hoverwrites
    exact absurd hname (by decide)
  · have hdeletes : (lodged.run (replacement.take 1)).arena.Deletes ⟨1, 0⟩ "x"
        (.write (.delete ⟨1, 0⟩ "x" true)) := ⟨_, _, rfl, rfl, rfl, rfl⟩
    obtain ⟨hunseen, -⟩ := hkeeps.unseen _ _ [.write (.setAlways ⟨1, 0⟩ "x" (.int 3))] hdeletes
      (by decide) (.int 9) b hstore
    exact hunseen ⟨1, 0⟩ "x"

end History

end Arena

end ScriptMachine
