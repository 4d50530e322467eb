/-!
# Association lists in insertion order

Lists of pairs in which a key keeps the place of its first insertion.

* `Assoc.insert`: replaces the value in place, or appends a new pair.
* `Assoc.erase`: removes a pair; the others keep their order.
* Reading is `List.lookup`.
-/

namespace ScriptMachine.Assoc

variable {κ ν : Type} [BEq κ]

/-- Binds a key: the value is replaced in place, a new key comes last. -/
def insert (k : κ) (v : ν) : List (κ × ν) → List (κ × ν)
  | [] => [(k, v)]
  | (l, w) :: rest => if k == l then (l, v) :: rest else (l, w) :: insert k v rest

/-- Removes the pair of a key. -/
def erase (k : κ) : List (κ × ν) → List (κ × ν)
  | [] => []
  | (l, w) :: rest => if k == l then rest else (l, w) :: erase k rest

/-- Whether a key is bound. -/
def contains (k : κ) (l : List (κ × ν)) : Bool := (l.lookup k).isSome

/-- Several bindings, one after the other. -/
def insertAll (pairs : List (κ × ν)) : List (κ × ν) :=
  pairs.foldl (fun l p => insert p.1 p.2 l) []

theorem lookup_cons (k : κ) (p : κ × ν) (l : List (κ × ν)) :
    (p :: l).lookup k = if k == p.1 then some p.2 else l.lookup k := by
  obtain ⟨m, w⟩ := p
  rw [List.lookup_cons]
  cases k == m <;> rfl

@[simp]
theorem lookup_insert_self [ReflBEq κ] (k : κ) (v : ν) (l : List (κ × ν)) :
    (insert k v l).lookup k = some v := by
  induction l with
  | nil => simp [insert]
  | cons p rest ih =>
    by_cases h : (k == p.1) = true
    · simp [insert, h, lookup_cons]
    · simp [insert, h, lookup_cons, ih]

theorem lookup_insert_ne [LawfulBEq κ] {k m : κ} (h : m ≠ k) (v : ν) (l : List (κ × ν)) :
    (insert k v l).lookup m = l.lookup m := by
  have hm : (m == k) = false := beq_false_of_ne h
  induction l with
  | nil => simp [insert, lookup_cons, hm]
  | cons p rest ih =>
    by_cases hk : (k == p.1) = true
    · have hp : (m == p.1) = false := by rw [← eq_of_beq hk, hm]
      simp [insert, hk, lookup_cons, hp]
    · simp [insert, hk, lookup_cons, ih]

/-- Rebinding keeps the keys; a new key comes last. -/
theorem map_fst_insert (k : κ) (v : ν) (l : List (κ × ν)) :
    (insert k v l).map (·.1) =
      if contains k l then l.map (·.1) else l.map (·.1) ++ [k] := by
  induction l with
  | nil => simp [insert, contains]
  | cons p rest ih =>
    by_cases h : (k == p.1) = true
    · simp [insert, contains, h, lookup_cons]
    · have hc : contains k (p :: rest) = contains k rest := by
        simp [contains, lookup_cons, h]
      rw [hc]
      simp only [insert, h, Bool.false_eq_true, if_false, List.map_cons, ih]
      split <;> simp

/-- A key that is bound is among the keys. -/
theorem contains_iff_mem [LawfulBEq κ] (k : κ) (l : List (κ × ν)) :
    contains k l = true ↔ k ∈ l.map (·.1) := by
  rw [contains, List.lookup_isSome_iff]
  simp

/-- Keys stay different. -/
theorem nodup_insert [LawfulBEq κ] {l : List (κ × ν)} (h : (l.map (·.1)).Nodup) (k : κ) (v : ν) :
    ((insert k v l).map (·.1)).Nodup := by
  rw [map_fst_insert]
  split
  · exact h
  · rename_i hnew
    rw [contains_iff_mem] at hnew
    exact List.nodup_append.2 ⟨h, by simp, fun a ha b hb heq =>
      hnew (List.mem_singleton.1 hb ▸ heq ▸ ha)⟩

theorem nodup_insertAll [LawfulBEq κ] (pairs : List (κ × ν)) :
    ((insertAll pairs).map (·.1)).Nodup := by
  have hfold : ∀ (pairs l : List (κ × ν)), (l.map (·.1)).Nodup →
      ((pairs.foldl (fun l p => insert p.1 p.2 l) l).map (·.1)).Nodup := by
    intro pairs
    induction pairs with
    | nil => exact fun _ h => h
    | cons p pairs ih => exact fun l h => ih _ (nodup_insert h p.1 p.2)
  exact hfold pairs [] List.nodup_nil

end ScriptMachine.Assoc
