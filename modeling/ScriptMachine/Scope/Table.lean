import ScriptMachine.Value

/-!
# Symbol tables

One scope of named values. A name owns a slot, slots are handed out once, and a forgotten name
leaves its slot behind as nil.

The slots of a table lie in bins of a fixed width. The next slot gets a new bin when those there are
have no room left; no bin is ever moved, so a slot stays where it is.

* `Bins`: the bins and the number of slots handed out; `Bins.get?`, `Bins.set`: reading and writing a
  slot; `Bins.push`: hands out the next slot.
* `Symbol`: a name, its slot and its protection.
* `OrderedSymbols`: symbols with a name and a slot each of their own.
* `Table`: the symbols in slot order, the slots, and the place of the table in the scope chain.
* `Table.store`, `Table.forget`: the two changes to the names of a table.
-/

namespace ScriptMachine

/-! ### Bins of slots -/

/-- The number of slots that are stored together. -/
def Bins.width : Nat := 32

/-- Slots in bins; there are just as many bins as the slots handed out need. -/
structure Bins where
  bins : Array (Vector Value Bins.width)
  /-- The number of slots ever handed out. -/
  size : Nat
  covered : size ≤ Bins.width * bins.size
  snug : Bins.width * bins.size < size + Bins.width

namespace Bins

/-- No slots, and no bins yet. -/
def empty : Bins where
  bins := #[]
  size := 0
  covered := Nat.zero_le _
  snug := Nat.zero_lt_succ _

instance : Inhabited Bins := ⟨.empty⟩

variable (b : Bins)

/-- The bin of a slot that was handed out. -/
theorem bin_lt {slot : Nat} (h : slot < b.size) : slot / width < b.bins.size := by
  have hcovered := b.covered
  rw [Nat.div_lt_iff_lt_mul (by decide : 0 < width), Nat.mul_comm]
  exact Nat.lt_of_lt_of_le h hcovered

/-- The value in a slot. -/
def get? (slot : Nat) : Option Value :=
  if slot < b.size then b.bins[slot / width]? >>= (·[slot % width]?) else none

/-- Writes a slot that was handed out. -/
def set (slot : Nat) (v : Value) : Bins :=
  if slot < b.size then
    { b with
      bins := b.bins.modify (slot / width) (·.setIfInBounds (slot % width) v)
      covered := by
        rw [Array.size_modify]
        exact b.covered
      snug := by
        rw [Array.size_modify]
        exact b.snug }
  else b

/-- The bins with room for one more slot. -/
def withRoom : Array (Vector Value width) :=
  if b.size / width = b.bins.size then b.bins.push (Vector.replicate width .null) else b.bins

/-- There is a new bin just when those there were are full. -/
theorem size_withRoom :
    b.withRoom.size = if b.size = width * b.bins.size then b.bins.size + 1 else b.bins.size := by
  have hcovered := b.covered
  have hsnug := b.snug
  have hfull : b.size / width = b.bins.size ↔ b.size = width * b.bins.size := by
    simp only [width] at *
    omega
  unfold withRoom
  simp only [hfull]
  split
  · exact Array.size_push _
  · rfl

/-- Hands out the next slot. -/
def allocate : Bins where
  bins := b.withRoom
  size := b.size + 1
  covered := by
    have hcovered := b.covered
    rw [size_withRoom]
    split
    · simp only [width] at *
      omega
    · omega
  snug := by
    have hsnug := b.snug
    rw [size_withRoom]
    split
    · simp only [width] at *
      omega
    · omega

/-- Hands out the next slot, with a value. -/
def push (v : Value) : Bins := b.allocate.set b.size v

@[simp]
theorem size_set (slot : Nat) (v : Value) : (b.set slot v).size = b.size := by
  unfold set
  split <;> rfl

@[simp]
theorem size_allocate : b.allocate.size = b.size + 1 := rfl

@[simp]
theorem size_push (v : Value) : (b.push v).size = b.size + 1 := by
  simp [push]

variable {b} {slot other : Nat} {v : Value}

/-- Just the slots that were handed out have a value. -/
theorem isSome_get?_iff : (b.get? slot).isSome = true ↔ slot < b.size := by
  constructor
  · intro hsome
    unfold get? at hsome
    split at hsome
    · assumption
    · cases hsome
  · intro hlt
    have hbin := b.bin_lt hlt
    have hoffset : slot % width < width := Nat.mod_lt _ (by decide)
    simp [get?, hlt, Array.getElem?_eq_getElem hbin, Vector.getElem?_eq_getElem hoffset]

theorem get?_eq_none (h : b.size ≤ slot) : b.get? slot = none :=
  if_neg (Nat.not_lt.2 h)

/-- A slot that was written has its value. -/
theorem get?_set_self (h : slot < b.size) : (b.set slot v).get? slot = some v := by
  have hbin := b.bin_lt h
  have hoffset : slot % width < width := Nat.mod_lt _ (by decide)
  simp [get?, set, h, Array.getElem?_modify, Array.getElem?_eq_getElem hbin, hoffset]

/-- The other slots are left alone: they lie in other bins or in other places of the bin. -/
theorem get?_set_ne (h : other ≠ slot) : (b.set slot v).get? other = b.get? other := by
  unfold set
  split
  · unfold get?
    by_cases hbin : slot / width = other / width
    · have hoffset : slot % width ≠ other % width := by
        simp only [width] at *
        omega
      simp only [Array.getElem?_modify, if_pos hbin]
      cases b.bins[other / width]? with
      | none => rfl
      | some bin => simp [Vector.getElem?_setIfInBounds_ne hoffset]
    · simp only [Array.getElem?_modify, if_neg hbin]
  · rfl

/-- A new bin comes after those there were. -/
theorem get?_allocate (h : slot < b.size) : b.allocate.get? slot = b.get? slot := by
  have hbin := b.bin_lt h
  have hroom : b.withRoom[slot / width]? = b.bins[slot / width]? := by
    unfold withRoom
    split
    · exact Array.getElem?_push_lt hbin ▸ (Array.getElem?_eq_getElem hbin).symm
    · rfl
  have hlt : slot < b.allocate.size := Nat.lt_succ_of_lt h
  unfold get?
  rw [if_pos h, if_pos hlt]
  exact congrArg (· >>= _) hroom

/-- The slot handed out last has its value. -/
theorem get?_push_size : (b.push v).get? b.size = some v :=
  get?_set_self (Nat.lt_succ_self b.size)

/-- Slots stay as they are when the next one is handed out. -/
theorem get?_push_lt (h : slot < b.size) : (b.push v).get? slot = b.get? slot := by
  rw [push, get?_set_ne (Nat.ne_of_lt h), get?_allocate h]

end Bins

/-! ### Tables -/

/-- A name bound to a slot. -/
structure Symbol where
  name : String
  slot : Nat
  readonly : Bool := false
  constant : Bool := false
deriving DecidableEq, Inhabited

/-- Whether ordinary writes to a symbol are refused. -/
def Symbol.isProtected (s : Symbol) : Bool := s.readonly || s.constant

/-- Symbols with different names, in the order of their slots, which are among the first `size`. -/
structure OrderedSymbols (symbols : List Symbol) (size : Nat) : Prop where
  names : (symbols.map (·.name)).Nodup
  slots : symbols.Pairwise fun s u => s.slot < u.slot
  bounded : ∀ s ∈ symbols, s.slot < size

namespace OrderedSymbols

variable {symbols : List Symbol} {size : Nat}

theorem empty : OrderedSymbols [] Bins.empty.size := ⟨List.nodup_nil, .nil, nofun⟩

/-- A new name gets the next slot. -/
theorem append (h : OrderedSymbols symbols size) {name : String}
    (hnew : symbols.find? (fun s => s.name == name) = none) (readonly constant : Bool) :
    OrderedSymbols (symbols ++ [⟨name, size, readonly, constant⟩]) (size + 1) where
  names := by
    rw [List.map_append, List.nodup_append]
    refine ⟨h.names, by simp, fun a ha b hb => ?_⟩
    obtain ⟨s, hs, rfl⟩ := List.mem_map.1 ha
    obtain rfl := List.mem_singleton.1 hb
    intro heq
    exact List.find?_eq_none.1 hnew s hs (beq_iff_eq.2 heq)
  slots := by
    rw [List.pairwise_append]
    refine ⟨h.slots, List.pairwise_singleton _ _, fun s hs u hu => ?_⟩
    obtain rfl := List.mem_singleton.1 hu
    exact h.bounded s hs
  bounded u hu := by
    rcases List.mem_append.1 hu with hu | hu
    · exact Nat.lt_succ_of_lt (h.bounded u hu)
    · obtain rfl := List.mem_singleton.1 hu
      exact Nat.lt_succ_self _

/-- Changes of symbols that concern neither names nor slots. -/
theorem map (h : OrderedSymbols symbols size) {f : Symbol → Symbol}
    (hname : ∀ s, (f s).name = s.name) (hslot : ∀ s, (f s).slot = s.slot) :
    OrderedSymbols (symbols.map f) size where
  names := by
    have hsame : (symbols.map f).map (·.name) = symbols.map (·.name) := by
      rw [List.map_map]
      exact List.map_congr_left fun s _ => hname s
    rw [hsame]
    exact h.names
  slots := by
    rw [List.pairwise_map]
    exact h.slots.imp fun hlt => by rwa [hslot, hslot]
  bounded u hu := by
    obtain ⟨s, hs, rfl⟩ := List.mem_map.1 hu
    rw [hslot]
    exact h.bounded s hs

theorem filter (h : OrderedSymbols symbols size) (p : Symbol → Bool) :
    OrderedSymbols (symbols.filter p) size where
  names := h.names.sublist (List.filter_sublist.map _)
  slots := h.slots.sublist List.filter_sublist
  bounded s hs := h.bounded s (List.mem_filter.1 hs).1

end OrderedSymbols

/-- A scope of named values. -/
structure Table where
  name : String
  parent : Option TableId
  /-- Reads do not walk past this table, unless it is shared. -/
  boundary : Bool := false
  shared : Bool := false
  isRoot : Bool := false
  /-- The package whose functions run in this scope. -/
  package : String := ""
  /-- The symbols, in the order of their slots. -/
  symbols : List Symbol := []
  slots : Bins := .empty
  ordered : OrderedSymbols symbols slots.size := by exact OrderedSymbols.empty

instance : Inhabited Table := ⟨{ name := "", parent := none }⟩

/-- Puts a symbol and its value before the first one with no lesser name. -/
def insertByName (p : Symbol × Value) : List (Symbol × Value) → List (Symbol × Value)
  | [] => [p]
  | q :: rest => if p.1.name ≤ q.1.name then p :: q :: rest else q :: insertByName p rest

namespace Table

variable (t : Table)

/-- The number of slots ever handed out. -/
def size : Nat := t.slots.size

/-- The number of bins that hold the slots. -/
def bins : Nat := t.slots.bins.size

def symbol? (name : String) : Option Symbol := t.symbols.find? fun s => s.name == name

def value? (slot : Nat) : Option Value := t.slots.get? slot

def get? (name : String) : Option Value := t.symbol? name >>= fun s => t.value? s.slot

/-- Writes a slot. -/
def writeSlot (slot : Nat) (v : Value) : Table :=
  { t with
    slots := t.slots.set slot v
    ordered := by
      rw [Bins.size_set]
      exact t.ordered }

/-- Binds a name: in its slot if it has one, else in the next slot. -/
def store (name : String) (v : Value) : Table :=
  match h : t.symbol? name with
  | some s => t.writeSlot s.slot v
  | none =>
    { t with
      symbols := t.symbols ++ [⟨name, t.size, false, false⟩]
      slots := t.slots.push v
      ordered := by
        rw [Bins.size_push]
        exact t.ordered.append h false false }

/-- Changes the protection of a name. -/
def mark (name : String) (f : Symbol → Symbol) : Table :=
  { t with
    symbols := t.symbols.map fun s =>
      if s.name == name then { f s with name := s.name, slot := s.slot } else s
    ordered := t.ordered.map (fun s => by split <;> rfl) fun s => by split <;> rfl }

/-- Forgets a name; its slot keeps nil and is not handed out again. -/
def forget (name : String) : Table :=
  match t.symbol? name with
  | some s =>
    { t.writeSlot s.slot .null with
      symbols := t.symbols.filter fun u => u.name != name
      ordered := (t.writeSlot s.slot .null).ordered.filter _ }
  | none => t

/-- The symbols with their values, by name in ascending order. -/
def sorted : List (Symbol × Value) :=
  (t.symbols.filterMap fun s => (t.value? s.slot).map (s, ·)).foldr insertByName []

/-- The names, in ascending order. -/
def names : List String := (t.symbols.map (·.name)).mergeSort fun a b => a ≤ b

/-- Whether a lookup that found nothing here goes on to the parent. -/
def passes : Bool := !t.isRoot && (!t.boundary || t.shared)

@[simp]
theorem size_writeSlot (t : Table) (slot : Nat) (v : Value) :
    (t.writeSlot slot v).size = t.size := by
  simp [writeSlot, size]

@[simp]
theorem size_mark (t : Table) (name : String) (f : Symbol → Symbol) :
    (t.mark name f).size = t.size := rfl

@[simp]
theorem size_forget (t : Table) (name : String) : (t.forget name).size = t.size := by
  unfold forget
  split
  · exact size_writeSlot t _ _
  · rfl

/-- Slots are never taken back. -/
theorem size_le_size_store (t : Table) (name : String) (v : Value) :
    t.size ≤ (t.store name v).size := by
  unfold store
  split
  · exact Nat.le_of_eq (size_writeSlot t _ _).symm
  · simp [size]

/-- Sorting the symbols rearranges them. -/
theorem sorted_perm (t : Table) :
    t.sorted.Perm (t.symbols.filterMap fun s => (t.value? s.slot).map (s, ·)) := by
  have hinsert : ∀ (p : Symbol × Value) (l : List (Symbol × Value)),
      (insertByName p l).Perm (p :: l) := by
    intro p l
    induction l with
    | nil => exact .refl _
    | cons q rest ih =>
      unfold insertByName
      split
      · exact .refl _
      · exact (ih.cons q).trans (.swap p q rest)
  unfold sorted
  generalize t.symbols.filterMap _ = l
  induction l with
  | nil => exact .refl _
  | cons p rest ih => exact (hinsert p _).trans (ih.cons p)

/-- A forgotten name is not found. -/
theorem symbol?_forget_self (t : Table) (name : String) :
    (t.forget name).symbol? name = none := by
  unfold forget
  split
  · simp [symbol?, List.find?_filter]
  · assumption

end Table

end ScriptMachine
