import ScriptMachine.Proofs.Loops.Binding

/-!
# What assignments do to slots

An assignment to a visible name writes the slot behind its address. An assignment to a name that is
not visible makes a new slot, and leaves all that can be read.

* `Arena.Receives`: some slots get values, the others keep theirs.
* `Arena.address_of_set`: the table and the slot that an assignment writes.
* `Arena.receives_set`, `Arena.receives_storeVia`: assignments by name and by address.
* `Arena.Sets.receives_then`: two assignments, one after the other.
-/

namespace ScriptMachine

/-! ### Slots that get values -/

namespace Arena

variable {a b c : Arena} {id start : TableId} {name other : String} {p : Pointer} {v old : Value}
  {ws : List (Pointer × Value)}

/-- The slots of `ws` have their values, of several for one slot the first; the other slots that
there were keep theirs. -/
def Receives (a b : Arena) (ws : List (Pointer × Value)) : Prop :=
  ∀ p old, a.deref p = .ok old → b.deref p = .ok ((ws.lookup p).getD old)

/-- What an assignment to a visible name amounts to. A name that is yet to be defined has no slot. -/
def bound (a : Arena) (start : TableId) (name : String) (v : Value) : List (Pointer × Value) :=
  match a.addressOf start name with
  | .ok p => [(p, v)]
  | .error _ => []

theorem receives_refl (a : Arena) : a.Receives a [] := fun _ _ h => h

theorem lookup_bound_self (haddress : a.addressOf start name = .ok p) (v : Value) :
    (a.bound start name v).lookup p = some v := by
  unfold bound
  rw [haddress]
  exact (Assoc.lookup_cons p (p, v) []).trans (if_pos (beq_self_eq_true p))

theorem lookup_bound_ne (haddress : a.addressOf start name ≠ .ok p) (v : Value) :
    (a.bound start name v).lookup p = none := by
  unfold bound
  split
  · rename_i q hq
    have hne : p ≠ q := by
      rintro rfl
      exact haddress hq
    exact (Assoc.lookup_cons p (q, v) []).trans (if_neg (by simpa using hne))
  · rfl

theorem eq_of_lookup_bound {w : Value} (h : (a.bound start name v).lookup p = some w) :
    a.addressOf start name = .ok p ∧ w = v := by
  by_cases haddress : a.addressOf start name = .ok p
  · rw [lookup_bound_self haddress] at h
    exact ⟨haddress, (Option.some.inj h).symm⟩
  · rw [lookup_bound_ne haddress] at h
    cases h

/-- The slots of a table that can be read were handed out. -/
theorem lt_of_deref {t : Table} {slot : Nat} (ht : a.table? id = some t)
    (hold : a.deref ⟨id, slot⟩ = .ok old) : slot < t.size := by
  rcases Nat.lt_or_ge slot t.size with hlt | hge
  · exact hlt
  · have hnone : t.value? slot = none := Bins.get?_eq_none hge
    rw [deref_of_table? (p := ⟨id, slot⟩) ht, Table.deref, hnone] at hold
    cases hold

/-- **The table and the slot that an assignment writes.** Where the name is visible, this is its
address; where it is not, the slot is new. -/
theorem address_of_set (hset : a.set start name v = .ok (id, b)) : ∃ t,
    a.table? id = some t ∧ b = a.put id (t.store name v) ∧
      b.addressOf start name = .ok ⟨id, t.slotFor name⟩ ∧
      (a.addressOf start name = .ok ⟨id, t.slotFor name⟩ ∨
        (∃ f, a.addressOf start name = .error f) ∧ t.slotFor name = t.size) := by
  obtain ⟨hid, t, ht, rfl⟩ := set_eq_ok hset
  refine ⟨t, ht, rfl, ?_⟩
  have hid : id = ((a.resolve start name).map (·.1)).getD start := hid
  cases hfound : a.resolve start name with
  | some found =>
    obtain ⟨id', s⟩ := found
    rw [hfound] at hid
    obtain rfl : id = id' := hid
    obtain ⟨⟨t', ht', hsymbol⟩, -⟩ := resolve_eq_some hfound
    obtain rfl : t = t' := Option.some.inj (ht.symm.trans ht')
    have hslot : t.slotFor name = s.slot := by
      rw [Table.slotFor, Table.slot?, hsymbol]
      rfl
    have hstays : (t.store name v).symbol? name = t.symbol? name := by
      rw [Table.symbol?_store_self, hsymbol]
      rfl
    have haddress : a.addressOf start name = .ok ⟨id, t.slotFor name⟩ := by
      rw [addressOf, hfound, hslot]
    exact ⟨(addressOf_put ht hstays (t.passes_store name v) (t.parent_store name v) start).trans
      haddress, .inl haddress⟩
  | none =>
    rw [hfound] at hid
    obtain rfl : id = start := hid
    have hnone := symbol?_of_resolve_eq_none ht hfound
    have hslot : t.slotFor name = t.size := by
      rw [Table.slotFor, Table.slot?, hnone]
      rfl
    have hnew : (t.store name v).symbol? name = some ⟨name, t.size, false, false⟩ := by
      rw [Table.symbol?_store_self, hnone]
      rfl
    refine ⟨?_, .inr ⟨⟨_, by rw [addressOf, hfound]⟩, hslot⟩⟩
    rw [addressOf, resolve_of_symbol? (table?_put_self ht) hnew, hslot]

theorem receives_set (hset : a.set start name v = .ok (id, b)) :
    a.Receives b (a.bound start name v) := by
  obtain ⟨t, ht, rfl, -, hbefore⟩ := address_of_set hset
  intro q old hold
  rw [(assigns_store ht name v).deref]
  by_cases hq : q = ⟨id, t.slotFor name⟩
  · subst hq
    rcases hbefore with haddress | ⟨-, hslot⟩
    · rw [if_pos rfl, lookup_bound_self haddress]
      rfl
    · exact absurd (lt_of_deref ht hold) (by omega)
  · have haddress : a.addressOf start name ≠ .ok q := by
      rcases hbefore with haddress | ⟨⟨f, hf⟩, -⟩
      · rw [haddress]
        exact fun heq => hq (Except.ok.inj heq).symm
      · rw [hf]
        exact nofun
    rw [if_neg hq, lookup_bound_ne haddress]
    exact hold

/-- Slots that there were are the addresses of the same names after an assignment. -/
theorem addressOf_of_set (hset : a.set start name v = .ok (id, b)) (hold : a.deref p = .ok old) :
    b.addressOf start other = .ok p ↔ a.addressOf start other = .ok p := by
  obtain ⟨t, ht, rfl, hafter, hbefore⟩ := address_of_set hset
  by_cases hother : other = name
  · subst hother
    rcases hbefore with haddress | ⟨⟨f, hf⟩, hslot⟩
    · rw [hafter, haddress]
    · rw [hafter, hf]
      refine ⟨fun hp => ?_, nofun⟩
      cases hp
      exact absurd (lt_of_deref ht hold) (by omega)
  · rw [addressOf_put ht (t.symbol?_store_ne hother v) (t.passes_store name v)
      (t.parent_store name v)]

theorem receives_storeVia (hstore : a.storeVia p v = .ok b) : a.Receives b [(p, v)] := by
  obtain ⟨t, ht, hslot, rfl⟩ := storeVia_eq_ok hstore
  intro q old hold
  rw [deref_put ht, Assoc.lookup_cons]
  by_cases hq : q = p
  · subst hq
    rw [if_pos rfl, if_pos (beq_self_eq_true q), Table.deref, Table.value?_writeSlot,
      if_pos ⟨rfl, hslot⟩]
    rfl
  · rw [if_neg (c := (q == p) = true) (by simpa using hq)]
    split
    · rename_i htable
      have hne : ¬ (q.slot = p.slot ∧ p.slot < t.size) := by
        rintro ⟨hsame, -⟩
        refine hq ?_
        obtain ⟨qt, qk⟩ := q
        obtain ⟨pt, pk⟩ := p
        cases htable
        cases hsame
        rfl
      have hvalue : (t.writeSlot p.slot v).value? q.slot = t.value? q.slot := by
        rw [Table.value?_writeSlot, if_neg hne]
      rw [Table.deref_congr hvalue, ← deref_of_table? (p := q) (htable ▸ ht)]
      exact hold
    · exact hold

/-- A second assignment comes first. -/
theorem receives_set_set {x : TableId} {w : Value} (hfirst : a.set start name v = .ok (id, b))
    (hsecond : b.set start other w = .ok (x, c)) :
    a.Receives c (a.bound start other w ++ a.bound start name v) := by
  intro p old hold
  have hthen := receives_set hsecond p _ (receives_set hfirst p old hold)
  have haddress : b.addressOf start other = .ok p ↔ a.addressOf start other = .ok p :=
    addressOf_of_set hfirst hold
  rw [hthen, List.lookup_append]
  by_cases hp : a.addressOf start other = .ok p
  · rw [lookup_bound_self hp, lookup_bound_self (haddress.2 hp)]
    rfl
  · rw [lookup_bound_ne hp, lookup_bound_ne fun hb => hp (haddress.1 hb)]
    rfl

/-- An assignment to a name, unless the name is one that binds nothing. -/
def Sets (a : Arena) (binds : Bool) (start : TableId) (name : String) (v : Value) (b : Arena) :
    Prop :=
  if binds then ∃ id, a.set start name v = .ok (id, b) else b = a

/-- What it amounts to. -/
def assigned (a : Arena) (binds : Bool) (start : TableId) (name : String) (v : Value) :
    List (Pointer × Value) :=
  if binds then a.bound start name v else []

namespace Sets

variable {binds rebinds : Bool} {w : Value}

theorem receives (h : a.Sets binds start name v b) :
    a.Receives b (a.assigned binds start name v) := by
  cases binds with
  | true => exact receives_set h.choose_spec
  | false =>
    obtain rfl : b = a := h
    exact b.receives_refl

theorem receives_then (hfirst : a.Sets binds start name v b)
    (hsecond : b.Sets rebinds start other w c) :
    a.Receives c (a.assigned rebinds start other w ++ a.assigned binds start name v) := by
  cases rebinds with
  | false =>
    obtain rfl : c = b := hsecond
    exact hfirst.receives
  | true =>
    cases binds with
    | true => exact receives_set_set hfirst.choose_spec hsecond.choose_spec
    | false =>
      obtain rfl : b = a := hfirst
      rw [show b.assigned false start name v = [] from rfl, List.append_nil]
      exact hsecond.receives

end Sets

end Arena

end ScriptMachine
