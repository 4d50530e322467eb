import ScriptMachine.Heap
import ScriptMachine.Proofs.Action.Invariants
import ScriptMachine.Proofs.Arena.Operations

/-!
# Literals

The arrays, maps and structs that belong to the operands of code, and the values that keep apart from
them; symbol tables that hold such values, what is read from them and written to them.

* `Literals`: such objects, with what they hold.
* `Value.Apart`: a value that leads to none of them but through code.
* `Value.Spells`: an operand whose containers are all among them.
* `Code.Spells`: code with such operands.
* `Apart.toScalar`, `Apart.normalize` and companions: what is computed from scalars is apart.
* `Table.Apart`, `Arena.Apart`: all slots of a table, and of all tables, hold values apart.
* `Arena.Apart.get?` and companions: so what is read is such a value.
* `Arena.Apart.write`: writing such values keeps it so, as does making and removing tables.
-/

namespace ScriptMachine

/-- The objects that belong to literals, with what they hold. -/
structure Literals where
  array? : Ref .array → Option ArrayObject
  map? : Ref .map → Option MapObject
  struct? : Ref .struct → Option StructObject

/-- What a container of the literals holds; none for any other value. -/
def Literals.contents? (L : Literals) : Value → Option (List Value)
  | .array r => (L.array? r).map (·.values.toList)
  | .map r => (L.map? r).map fun m => m.entries.map (·.2)
  | .struct r => (L.struct? r).map fun s => s.fields.map (·.2)
  | _ => none

namespace Value

/-- Whether a value is neither a function nor wrapped. -/
def isPlain : Value → Bool
  | .native .. | .member .. | .code _ | .constant _ => false
  | _ => true

/-- Whether a value is no container, wrapped or not. -/
def isLeaf : Value → Bool
  | .array _ | .map _ | .struct _ => false
  | .constant v => v.isLeaf
  | _ => true

end Value

mutual

/-- A value that leads to no container of the literals, through constants and receivers; the code of
functions may have literals as operands. -/
inductive Value.Apart (L : Literals) : Value → Prop
  | plain {v : Value} (hplain : v.isPlain = true) (h : L.contents? v = none) : Value.Apart L v
  | constant {v : Value} (h : Value.Apart L v) : Value.Apart L (.constant v)
  | native {f : Native} {receiver : Option Value}
      (h : ∀ v, receiver = some v → Value.Apart L v) : Value.Apart L (.native f receiver)
  | member {p : Ref .package} {c : Code} (h : Code.Spells L c) : Value.Apart L (.member p c)
  | code {c : Code} (h : Code.Spells L c) : Value.Apart L (.code c)

/-- A literal: its containers, nested at most `depth` deep, belong to the literals, and what else is
in it is apart from them. -/
inductive Value.Spells (L : Literals) : Nat → Value → Prop
  | apart {depth : Nat} {v : Value} (h : Value.Apart L v) : Value.Spells L depth v
  | constant {depth : Nat} {v : Value} (h : Value.Spells L depth v) :
      Value.Spells L depth (.constant v)
  | container {depth : Nat} {v : Value} {inner : List Value} (h : L.contents? v = some inner)
      (hinner : ∀ x ∈ inner, Value.Spells L depth x) : Value.Spells L (depth + 1) v

/-- Code whose operands are literals. -/
inductive Code.Spells (L : Literals) : Code → Prop
  | operands {c : Code} (depth : Nat) (h : ∀ i ∈ c.ops, Value.Spells L depth i.operand) :
      Code.Spells L c

end

/-- Only the operands of code matter. -/
theorem Code.Spells.named {L : Literals} {c : Code} (h : c.Spells L) (name : String) :
    ({ c with name } : Code).Spells L := by
  obtain ⟨depth, h⟩ := h
  exact .operands depth h

namespace Value

variable {L : Literals} {v w : Value} {depth : Nat}

namespace Apart

theorem of_constant (h : (Value.constant v).Apart L) : v.Apart L := by
  cases h with
  | plain hplain => cases hplain
  | constant h => exact h

theorem unwrapped (h : v.Apart L) : v.unwrapped.Apart L := by
  fun_induction Value.unwrapped v with
  | case1 v ih => exact ih h.of_constant
  | case2 v => exact h

theorem array_iff {r : Ref .array} : (Value.array r).Apart L ↔ L.array? r = none := by
  constructor
  · rintro ⟨_, h⟩
    simpa [Literals.contents?] using h
  · exact fun h => .plain rfl (by simp [Literals.contents?, h])

theorem map_iff {r : Ref .map} : (Value.map r).Apart L ↔ L.map? r = none := by
  constructor
  · rintro ⟨_, h⟩
    simpa [Literals.contents?] using h
  · exact fun h => .plain rfl (by simp [Literals.contents?, h])

theorem struct_iff {r : Ref .struct} : (Value.struct r).Apart L ↔ L.struct? r = none := by
  constructor
  · rintro ⟨_, h⟩
    simpa [Literals.contents?] using h
  · exact fun h => .plain rfl (by simp [Literals.contents?, h])

theorem contents?_eq_none (h : v.Apart L) : L.contents? v = none := by
  cases h with
  | plain _ h => exact h
  | _ => rfl

theorem of_code {c : Code} (h : (Value.code c).Apart L) : c.Spells L := by
  cases h with
  | plain hplain => cases hplain
  | code h => exact h

/-! ### Scalars -/

theorem ofNat (n : Nat) : (Value.ofNat n).Apart L := .plain rfl rfl

theorem ofInt64 (k : Kind) (n : Int64) : (Value.ofInt64 k n).Apart L := by
  unfold Value.ofInt64
  split <;> exact .plain rfl rfl

theorem toNumber (v : Value) (k : Kind) : Ensures (v.toNumber k) (Apart L) := by
  unfold Value.toNumber
  split
  · exact .map (ofInt64 _)
  · exact .map (ofInt64 _)
  · exact .map (ofInt64 _)
  · exact .map (ofInt64 _)
  · exact .map fun _ => .plain rfl rfl
  · exact .map fun _ => .plain rfl rfl
  · exact .error _

theorem toBool (v : Value) : Ensures v.toBool (Apart L) := by
  unfold Value.toBool
  dsimp only
  split
  · split
    · exact .ok (.plain rfl rfl)
    · split
      · exact .ok (.plain rfl rfl)
      · exact .error _
  · split
    · exact .ok (.plain rfl rfl)
    · exact .error _

theorem toScalar (h : v.Apart L) (k : Kind) : Ensures (v.toScalar k) (Apart L) := by
  unfold Value.toScalar
  split
  · exact .ok h
  · split
    · exact toBool v
    · split
      · exact toNumber _ k
      · split
        · split
          · exact toNumber _ k
          · exact .error _
        · exact toNumber _ k
      · split
        · exact toNumber _ k
        · exact .error _

theorem ofKey (type : Ty) (k : Key) : (k.toValue type).Apart L := by
  have hwidest : k.widest.Apart L := by
    cases k <;> exact .plain rfl rfl
  unfold Key.toValue
  split
  · rename_i w h
    exact hwidest.toScalar _ w h
  · exact hwidest

theorem normalize (hv : v.Apart L) (hw : w.Apart L) :
    Ensures (ScriptMachine.normalize v w) fun p => p.1.Apart L ∧ p.2.Apart L := by
  unfold ScriptMachine.normalize
  dsimp only
  split
  · exact .ok ⟨hv.unwrapped, hw.unwrapped⟩
  · split
    · split
      · exact .ok ⟨.plain rfl rfl, .plain rfl rfl⟩
      · exact .error _
    · split
      · exact (toNumber _ _).bind fun x hx => (toNumber _ _).bind fun y hy => .ok ⟨hx, hy⟩
      · exact .error _

end Apart

end Value

variable {L : Literals} {v : Value} {name : String}

/-! ### Slots of symbols -/

def Bins.Apart (L : Literals) (b : Bins) : Prop := ∀ slot v, b.get? slot = some v → v.Apart L

namespace Bins.Apart

variable {b : Bins}

theorem empty : Bins.empty.Apart L := fun slot v hv => by
  rw [Bins.get?_eq_none (Nat.zero_le slot)] at hv
  cases hv

theorem set (hb : b.Apart L) (slot : Nat) (hv : v.Apart L) : (b.set slot v).Apart L := by
  intro i w hw
  by_cases hi : i = slot
  · subst hi
    have hlt : i < b.size := by
      rw [← Bins.size_set b i v]
      exact Bins.isSome_get?_iff.1 (by rw [hw]; rfl)
    rw [Bins.get?_set_self hlt] at hw
    cases hw
    exact hv
  · rw [Bins.get?_set_ne hi] at hw
    exact hb i w hw

theorem push (hb : b.Apart L) (hv : v.Apart L) : (b.push v).Apart L := by
  intro i w hw
  have hlt : i < b.size + 1 := by
    rw [← Bins.size_push b v]
    exact Bins.isSome_get?_iff.1 (by rw [hw]; rfl)
  by_cases hi : i = b.size
  · rw [hi, Bins.get?_push_size] at hw
    cases hw
    exact hv
  · rw [Bins.get?_push_lt (by omega)] at hw
    exact hb i w hw

end Bins.Apart

/-! ### Tables -/

def Table.Apart (L : Literals) (t : Table) : Prop := t.slots.Apart L

namespace Table.Apart

variable {t : Table}

theorem value? (ht : t.Apart L) {slot : Nat} (hv : t.value? slot = some v) : v.Apart L :=
  ht slot v hv

theorem get? (ht : t.Apart L) (hv : t.get? name = some v) : v.Apart L := by
  obtain ⟨s, -, hs⟩ := Option.bind_eq_some_iff.1 hv
  exact ht.value? hs

theorem sorted (ht : t.Apart L) : ∀ p ∈ t.sorted, p.2.Apart L := by
  intro p hp
  obtain ⟨s, -, hs⟩ := List.mem_filterMap.1 (t.sorted_perm.mem_iff.1 hp)
  obtain ⟨v, hv, rfl⟩ := Option.map_eq_some_iff.1 hs
  exact ht.value? hv

theorem store (ht : t.Apart L) (name : String) (hv : v.Apart L) : (t.store name v).Apart L := by
  unfold Table.store
  split
  · exact Bins.Apart.set ht _ hv
  · exact Bins.Apart.push ht hv

theorem forget (ht : t.Apart L) (name : String) : (t.forget name).Apart L := by
  unfold Table.forget
  split
  · exact Bins.Apart.set ht _ (.plain rfl rfl)
  · exact ht

end Table.Apart

/-! ### The arena -/

/-- All tables hold values apart from the literals. -/
def Arena.Apart (L : Literals) (a : Arena) : Prop :=
  ∀ p ∈ a.places, ∀ t, p.table = some t → t.Apart L

/-- The value that a write puts into a table. -/
def Arena.Write.value : Arena.Write → Value
  | .set _ _ v | .setAlways _ _ v | .setConstant _ _ v | .storeVia _ v => v
  | _ => .null

theorem Table.Apart.onTable {t : Table} (ht : t.Apart L) (w : Arena.Write)
    (hv : w.value.Apart L) : (w.onTable t).Apart L := by
  cases w with
  | set start name v => exact ht.store name hv
  | setAlways id name v => exact ht.store name hv
  | setConstant id name v => exact ht.store name hv
  | create id name => exact ht.store name (.plain rfl rfl)
  | delete id name always => exact ht.forget name
  | storeVia p v => exact Bins.Apart.set ht p.slot hv
  | _ => exact ht

namespace Arena.Apart

variable {a b : Arena} {id : TableId} {t : Table}

/-! #### What is read -/

theorem table? (ha : a.Apart L) (ht : a.table? id = some t) : t.Apart L := by
  unfold Arena.table? at ht
  split at ht
  · rename_i p hp
    split at ht
    · exact ha p (Array.mem_of_getElem? hp) t ht
    · cases ht
  · cases ht

theorem get? (ha : a.Apart L) (hv : a.get? id name = some v) : v.Apart L := by
  obtain ⟨⟨table, s⟩, -, hs⟩ := Option.bind_eq_some_iff.1 hv
  obtain ⟨t, ht, hslot⟩ := Option.bind_eq_some_iff.1 hs
  exact (ha.table? ht).value? hslot

theorem getLocal? (ha : a.Apart L) (hv : a.getLocal? id name = some v) : v.Apart L := by
  obtain ⟨t, ht, hget⟩ := Option.bind_eq_some_iff.1 hv
  exact (ha.table? ht).get? hget

theorem deref (ha : a.Apart L) {p : Pointer} (hv : a.deref p = .ok v) : v.Apart L := by
  unfold Arena.deref at hv
  split at hv
  · rename_i w hw
    cases hv
    obtain ⟨t, ht, hslot⟩ := Option.bind_eq_some_iff.1 hw
    exact (ha.table? ht).value? hslot
  · cases hv

theorem localSymbols (ha : a.Apart L) (id : TableId) : ∀ p ∈ a.localSymbols id, p.2.Apart L := by
  unfold Arena.localSymbols
  split
  · rename_i t ht
    intro p hp
    obtain ⟨q, hq, rfl⟩ := List.mem_map.1 hp
    exact (ha.table? ht).sorted q hq
  · exact fun _ h => absurd h List.not_mem_nil

/-! #### What is written -/

theorem initial : Arena.initial.Apart L := by
  intro p hp t ht
  obtain rfl := List.mem_singleton.1 (Array.mem_toList_iff.2 hp)
  cases ht
  exact Bins.Apart.empty

theorem put (ha : a.Apart L) (id : TableId) (ht : t.Apart L) : (a.put id t).Apart L := by
  intro p hp u hu
  obtain ⟨i, hi, rfl⟩ := Array.mem_iff_getElem.1 hp
  simp only [Arena.put, Array.getElem_modify] at hu
  split at hu
  · cases hu
    exact ht
  · exact ha _ (Array.getElem_mem _) u hu

theorem insert (ha : a.Apart L) (ht : t.Apart L) : (a.insert t).2.Apart L := by
  unfold Arena.insert
  split
  · exact put (a := { a with free := _ }) ha _ ht
  · intro p hp u hu
    rcases Array.mem_push.1 hp with hp | rfl
    · exact ha p hp u hu
    · cases hu
      exact ht

theorem newChild (ha : a.Apart L) (name : String) (parent : TableId) (boundary : Bool) :
    (a.newChild name parent boundary).2.Apart L := ha.insert Bins.Apart.empty

theorem remove (ha : a.Apart L) (id : TableId) : (a.remove id).Apart L := by
  unfold Arena.remove
  split
  · exact ha
  · intro p hp u hu
    obtain ⟨i, hi, rfl⟩ := Array.mem_iff_getElem.1 hp
    simp only [Array.getElem_modify] at hu
    split at hu
    · cases hu
    · exact ha _ (Array.getElem_mem _) u hu

/-- **Writing a value that is apart** leaves all values apart. -/
theorem write (ha : a.Apart L) {w : Arena.Write} (hv : w.value.Apart L) (h : a.write w = .ok b) :
    b.Apart L := by
  obtain ⟨t, ht, rfl⟩ := Arena.write_eq_ok h
  exact ha.put _ ((ha.table? ht).onTable w hv)

end Arena.Apart

end ScriptMachine
