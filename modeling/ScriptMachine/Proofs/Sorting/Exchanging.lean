import ScriptMachine.Proofs.Action.Sequences
import ScriptMachine.Proofs.Frames.Calls
import ScriptMachine.Proofs.Loops.Winding
import ScriptMachine.Proofs.Sorting.Insertion

/-!
# The parts of a sort

What the actions do that a sort is made of. Two elements are exchanged by two writes, and either may
be refused; if it is the second one, the element above is lost.

* `Heap.withValues`: the heap with other elements in an array.
* `Heap.Admits`: an element can be written into an array.
* `Heap.run_exchange`: an exchange whose writes are admitted; `Heap.run_exchange_of_refused` and
  `Heap.run_exchange_of_half`: the others.
* `Machine.Asks`, `Machine.GivesBack`: a comparison is asked for, or a result is pushed.
* `Machine.GoesOn`: how a sort goes on; `Exec.outcome_sortNext`, `Exec.outcome_sortAfter`.
-/

namespace ScriptMachine

namespace Heap

variable {h : Heap} {r : Ref .array} {v upper lower : Value} {values : Array Value} {i k : Nat}

/-- The heap with other elements in an array. -/
def withValues (h : Heap) (r : Ref .array) (values : Array Value) : Heap :=
  ((putArray r { h.array r with values }).run h).2

/-- A value can be written into an array: no loop walks the array, and its type allows the value. -/
def Admits (h : Heap) (r : Ref .array) (v : Value) : Prop :=
  (h.array r).isFrozen = false ∧ (h.array r).checkElement v (h.typeOf v) = .ok ()

/-- Only arrays of the heap have elements. -/
theorem lt_size_arrays (hi : i < (h.array r).values.size) : r.id < h.arrays.size := by
  by_contra hge
  rw [array, Array.getElem?_eq_none (Nat.le_of_not_lt hge)] at hi
  exact absurd hi (Nat.not_lt_zero i)

theorem array_withValues (hr : r.id < h.arrays.size) (values : Array Value) (q : Ref .array) :
    (h.withValues r values).array q = if r = q then { h.array r with values } else h.array q :=
  array_putArray_of_lt hr _ q

theorem values_withValues (hr : r.id < h.arrays.size) (values : Array Value) :
    ((h.withValues r values).array r).values = values := by
  rw [array_withValues hr, if_pos rfl]

theorem withValues_withValues (hr : r.id < h.arrays.size) (values values' : Array Value) :
    (h.withValues r values).withValues r values' = h.withValues r values' := by
  have hsame : ({ (h.withValues r values).array r with values := values' } : ArrayObject)
      = { h.array r with values := values' } := by rw [array_withValues hr, if_pos rfl]
  rw [withValues, hsame]
  show ({ h with arrays := (h.arrays.setIfInBounds r.id _).setIfInBounds r.id _ } : Heap) = _
  rw [Array.setIfInBounds_setIfInBounds]
  rfl

/-- Types have to do with no element. -/
theorem typeOf_withValues (hr : r.id < h.arrays.size) (values : Array Value) (v : Value) :
    (h.withValues r values).typeOf v = h.typeOf v := by
  unfold typeOf
  split
  · rename_i q _
    rw [array_withValues hr]
    split
    · rename_i hq
      rw [hq]
    · rfl
  · rfl
  · rfl
  · rfl
  · rfl

/-- Other elements make no difference to what an array admits. -/
theorem admits_withValues (hr : r.id < h.arrays.size) (values : Array Value) (v : Value) :
    (h.withValues r values).Admits r v ↔ h.Admits r v := by
  rw [Admits, Admits, typeOf_withValues hr, array_withValues hr, if_pos rfl]
  rfl

/-- An element that is admitted is written. -/
theorem run_setElement (hadmits : h.Admits r v) (hi : i < (h.array r).values.size) :
    (setElement r i v).run.run h
      = (.ok (), h.withValues r ((h.array r).values.setIfInBounds i v)) := by
  have hset : (h.array r).set i v (h.typeOf v)
      = .ok { h.array r with values := (h.array r).values.setIfInBounds i v } := by
    simp [ArrayObject.set, ArrayObject.checkThawed, hadmits.1, hadmits.2, hi, bind, Except.bind]
  show (do putArray r (← (h.array r).set i v (h.typeOf v)) : HeapM Unit).run.run h = _
  rw [hset]
  rfl

/-- An element that is not admitted changes nothing. -/
theorem run_setElement_of_refused (hrefused : ¬ h.Admits r v) (i : Nat) :
    ∃ f, (setElement r i v).run.run h = (.error f, h) := by
  obtain ⟨f, hset⟩ : ∃ f, (h.array r).set i v (h.typeOf v) = .error f := by
    by_cases hfrozen : (h.array r).isFrozen = true
    · exact ⟨_, ArrayObject.set_frozen hfrozen i v _⟩
    · have hthawed := Bool.eq_false_iff.2 hfrozen
      cases hcheck : (h.array r).checkElement v (h.typeOf v) with
      | ok u => exact absurd ⟨hthawed, hcheck⟩ hrefused
      | error f =>
        exact ⟨f, by simp [ArrayObject.set, ArrayObject.checkThawed, hthawed, hcheck, bind,
          Except.bind]⟩
  refine ⟨f, ?_⟩
  show (do putArray r (← (h.array r).set i v (h.typeOf v)) : HeapM Unit).run.run h = _
  rw [hset]
  rfl

/-! ### Exchanges -/

/-- An exchange is two writes. -/
theorem run_exchange_eq (hupper : (h.array r).values[k + 1]? = some upper)
    (hlower : (h.array r).values[k]? = some lower) :
    (Exec.exchange r (k + 1)).run.run h
      = (do setElement r (k + 1) lower; setElement r k upper : HeapM Unit).run.run h := by
  have hget : ∀ {i v}, (h.array r).values[i]? = some v → (h.array r).get i = .ok v :=
    ArrayObject.get_eq_ok_iff.2
  show (do
    let upper ← (h.array r).get (k + 1)
    let lower ← (h.array r).get (k + 1 - 1)
    setElement r (k + 1) lower
    setElement r (k + 1 - 1) upper : HeapM Unit).run.run h = _
  rw [Nat.add_sub_cancel, hget hupper, hget hlower]
  rfl

/-- **Elements that are admitted are exchanged.** -/
theorem run_exchange (hupper : (h.array r).values[k + 1]? = some upper)
    (hlower : (h.array r).values[k]? = some lower) (hadmitsUpper : h.Admits r upper)
    (hadmitsLower : h.Admits r lower) : (Exec.exchange r (k + 1)).run.run h
      = (.ok (), h.withValues r ((h.array r).values.swapIfInBounds k (k + 1))) := by
  obtain ⟨hk, rfl⟩ := Array.getElem?_eq_some_iff.1 hupper
  obtain ⟨hk', rfl⟩ := Array.getElem?_eq_some_iff.1 hlower
  have hr := lt_size_arrays hk
  rw [run_exchange_eq hupper hlower, ExceptT.run_bind, StateT.run_bind,
    run_setElement hadmitsLower hk]
  show (setElement r k _).run.run _ = _
  rw [run_setElement ((admits_withValues hr _ _).2 hadmitsUpper)
    (by rw [values_withValues hr, Array.size_setIfInBounds]; exact hk'),
    values_withValues hr, withValues_withValues hr]
  refine congrArg (fun values => (_, h.withValues r values)) ?_
  rw [Array.swapIfInBounds, dif_pos hk', dif_pos hk]
  apply Array.ext_getElem?
  intro p
  rw [Array.getElem?_swap, Array.getElem?_setIfInBounds, Array.getElem?_setIfInBounds]
  by_cases hp : p = k
  · subst hp
    simp [hk']
  · by_cases hp' : p = k + 1
    · subst hp'
      simp [hk]
    · simp [Ne.symm hp, Ne.symm hp']

/-- If the lower element is not admitted, nothing has changed. -/
theorem run_exchange_of_refused (hupper : (h.array r).values[k + 1]? = some upper)
    (hlower : (h.array r).values[k]? = some lower) (hrefused : ¬ h.Admits r lower) :
    ∃ f, (Exec.exchange r (k + 1)).run.run h = (.error f, h) := by
  obtain ⟨f, hset⟩ := run_setElement_of_refused hrefused (k + 1)
  refine ⟨f, ?_⟩
  rw [run_exchange_eq hupper hlower, ExceptT.run_bind, StateT.run_bind, hset]
  rfl

/-- If only the lower element is admitted, it has taken the place of the upper one. -/
theorem run_exchange_of_half (hupper : (h.array r).values[k + 1]? = some upper)
    (hlower : (h.array r).values[k]? = some lower) (hadmits : h.Admits r lower)
    (hrefused : ¬ h.Admits r upper) : ∃ f, (Exec.exchange r (k + 1)).run.run h
      = (.error f, h.withValues r ((h.array r).values.setIfInBounds (k + 1) lower)) := by
  have hk := (Array.getElem?_eq_some_iff.1 hupper).1
  have hr := lt_size_arrays hk
  obtain ⟨f, hset⟩ := run_setElement_of_refused (h := h.withValues r
    ((h.array r).values.setIfInBounds (k + 1) lower)) (mt (admits_withValues hr _ _).1 hrefused) k
  refine ⟨f, ?_⟩
  rw [run_exchange_eq hupper hlower, ExceptT.run_bind, StateT.run_bind, run_setElement hadmits hk]
  exact hset

end Heap

/-! ### What a sort does -/

namespace Machine

/-- The machine with other elements in an array. -/
def withValues (m : Machine) (r : Ref .array) (values : Array Value) : Machine :=
  { m with world := { m.world with heap := m.world.heap.withValues r values } }

/-- It has been asked whether the element at `j` goes before the one below it. -/
structure Asks (r : Ref .array) (less : Value) (size i j : Nat) (m m' : Machine) : Prop where
  suspended_eq : ∃ c, m'.suspended = ⟨c, .ordering r less size i j⟩ :: m.suspended
  heap_eq : m'.world.heap = m.world.heap

/-- A call has left its result. -/
structure GivesBack (v : Value) (m m' : Machine) : Prop where
  top : m'.context.stack.back? = some (.value v)
  suspended_eq : m'.suspended = m.suspended
  heap_eq : m'.world.heap = m.world.heap

/-- How a sort goes on when the element found at `i` has come down to `j`, where `0` stands for any
place where it stays: with that element, with the next one, or with its result. -/
inductive GoesOn (r : Ref .array) (less : Value) (size i : Nat) :
    Nat → Machine → Machine → Prop
  | down {k : Nat} {m m' : Machine} (h : m.Asks r less size i (k + 1) m') :
      GoesOn r less size i (k + 1) m m'
  | next {m m' : Machine} (hlt : i + 1 < size) (h : m.Asks r less size (i + 1) (i + 1) m') :
      GoesOn r less size i 0 m m'
  | done {m m' : Machine} (hle : size ≤ i + 1) (h : m.GivesBack .null m') :
      GoesOn r less size i 0 m m'

theorem GoesOn.heap_eq {r : Ref .array} {less : Value} {size i j : Nat} {m m' : Machine}
    (h : GoesOn r less size i j m m') : m'.world.heap = m.world.heap := by
  cases h with
  | down h => exact h.heap_eq
  | next _ h => exact h.heap_eq
  | done _ h => exact h.heap_eq

end Machine

namespace Exec

open Machine

variable {r : Ref .array} {less upper lower : Value} {i k : Nat} {m : Machine}

theorem outcome_askOrdering (r : Ref .array) (less : Value) (size i j : Nat) (m : Machine) :
    ∃ m', outcome (askOrdering r less size i j) m = (.ok (), m') ∧ m.Asks r less size i j m' := by
  rw [askOrdering, outcome_bind_ok (outcome_context m), outcome_bind_ok (outcome_onWorld _ m)]
  exact ⟨_, rfl, ⟨_, rfl⟩, rfl⟩

/-- The next element is taken up. -/
theorem outcome_sortNext (r : Ref .array) (less : Value) (size i : Nat) (m : Machine) :
    ∃ m', outcome (sortNext r less size (i + 1)) m = (.ok (), m') ∧
      GoesOn r less size i 0 m m' := by
  unfold sortNext
  split
  · rename_i hlt
    obtain ⟨m', hout, hasks⟩ := outcome_askOrdering r less size (i + 1) (i + 1) m
    exact ⟨m', hout, .next hlt hasks⟩
  · rename_i hge
    exact ⟨_, outcome_push _ m, .done (Nat.le_of_not_lt hge) ⟨Array.back?_push, rfl, rfl⟩⟩

/-- A fault of a library function is its result, or it is raised. -/
theorem settleLibraryFault_cases (f : Native) (fault : Fault) (m : Machine) :
    (∃ m', outcome (settleLibraryFault f fault) m = (.ok (), m') ∧ m.GivesBack (.error fault) m') ∨
      outcome (settleLibraryFault f fault) m = (.error (.fault fault), m) := by
  rw [settleLibraryFault, outcome_bind_ok (outcome_context m)]
  split
  · exact .inr rfl
  · obtain ⟨j, hout⟩ := outcome_noteThread .trace (fun _ => s!"{f.name} returned {fault.message}") m
    rw [outcome_bind_ok hout]
    exact .inl ⟨_, rfl, Array.back?_push, rfl, rfl⟩

/-- An element that does not go first stays where it is. -/
theorem outcome_sortAfter_false (r : Ref .array) (less : Value) (size i j : Nat) (m : Machine) :
    ∃ m', outcome (sortAfter r less size i j false) m = (.ok (), m') ∧
      GoesOn r less size i 0 m m' := outcome_sortNext r less size i m

/-- An element that goes first is exchanged with the one below it. -/
theorem outcome_exchange {heap : Heap} {result : Except Fault Unit} (size : Nat)
    (hrun : (exchange r (k + 1)).run.run m.world.heap = (result, heap)) :
    outcome (sortAfter r less size i (k + 1) true) m =
      outcome (match result with
        | .ok () => if 1 < k + 1 then askOrdering r less size i k else sortNext r less size (i + 1)
        | .error fault => settleLibraryFault .sortSlice fault)
        { m with world := { m.world with heap } } := by
  have hout : outcome (onHeap (exchange r (k + 1)).run) m
      = (.ok result, { m with world := { m.world with heap } }) := by
    show (_, { m with world := { m.world with
      heap := ((exchange r (k + 1)).run.run m.world.heap).2 } }) = _
    rw [hrun]
    show (Except.ok ((exchange r (k + 1)).run.run m.world.heap).1, _) = _
    rw [hrun]
  rw [sortAfter, if_pos rfl, outcome_bind_ok hout]
  cases result <;> rfl

/-- **An element that goes first passes the one below it**, if both are admitted. -/
theorem outcome_sortAfter_true (less : Value) (size i : Nat)
    (hupper : (m.world.heap.array r).values[k + 1]? = some upper)
    (hlower : (m.world.heap.array r).values[k]? = some lower)
    (hadmitsUpper : m.world.heap.Admits r upper) (hadmitsLower : m.world.heap.Admits r lower) :
    ∃ m', outcome (sortAfter r less size i (k + 1) true) m = (.ok (), m') ∧
      GoesOn r less size i k
        (m.withValues r ((m.world.heap.array r).values.swapIfInBounds k (k + 1))) m' := by
  rw [outcome_exchange size (Heap.run_exchange hupper hlower hadmitsUpper hadmitsLower)]
  dsimp only
  cases k with
  | zero =>
    rw [if_neg (by omega)]
    exact outcome_sortNext r less size i _
  | succ k =>
    rw [if_pos (by omega)]
    obtain ⟨m', hout, hasks⟩ := outcome_askOrdering r less size i (k + 1) _
    exact ⟨m', hout, .down hasks⟩

end Exec

end ScriptMachine
