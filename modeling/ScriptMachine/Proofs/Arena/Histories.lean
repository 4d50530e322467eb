import ScriptMachine.Proofs.Arena.Operations

/-!
# Histories of arenas

An arena as it was used from the start, with the handles of all tables that were made in it and
removed from it. As long as no place has used up its generations, no handle is given twice, and a
table is live if and only if it was made and not removed.

* `History`: an arena with the handles given and removed so far.
* `History.Proper`, `History.Tame`: only handles that were given are used; no place is emptied as
  often as there are generations.
* `History.Regular`, `regular_run`: what holds of places, root and number of tables after any
  operations.
* `History.Accounted`, `accounted_run`: the arena agrees with the handles given and removed, as long
  as the operations are proper and tame.
-/

namespace ScriptMachine

namespace Arena

variable {a : Arena} {id : TableId} {t u : Table}

/-! ### Generations -/

/-- The generation of the next handle to a place. -/
def generation (a : Arena) (index : Nat) : UInt32 :=
  (a.places[index]?.map (·.generation)).getD 0

theorem generation_of_live (h : a.table? id = some t) : a.generation id.index = id.generation := by
  rw [generation, place_of_table? h]
  rfl

theorem generation_put (a : Arena) (id : TableId) (t : Table) (i : Nat) :
    (a.put id t).generation i = a.generation i := by
  simp only [generation, put, Array.getElem?_modify]
  split
  · cases a.places[i]? <;> rfl
  · rfl

theorem generation_insert (a : Arena) (t : Table) (i : Nat) :
    (a.insert t).2.generation i = a.generation i := by
  unfold insert
  split
  · exact generation_put _ _ t i
  · simp only [generation, Array.getElem?_push]
    split
    · rename_i hi
      rw [hi, Array.getElem?_eq_none (Nat.le_refl _)]
      rfl
    · rfl

/-- A new table gets the next handle to its place. -/
theorem generation_insert_fst (a : Arena) (t : Table) :
    (a.insert t).1.generation = a.generation (a.insert t).1.index := by
  unfold insert
  split
  · rfl
  · dsimp only
    rw [generation, Array.getElem?_eq_none (Nat.le_refl _)]
    rfl

theorem remove_of_live (hinner : id ≠ .root) (hlive : a.contains id = true) :
    a.remove id =
      ⟨a.places.modify id.index fun p => ⟨p.generation + 1, none⟩, id.index :: a.free⟩ := by
  unfold remove
  rw [if_neg (by simp [hinner, hlive])]

/-- A removal uses up a generation. -/
theorem generation_remove (hinner : id ≠ .root) (hlive : a.contains id = true) (i : Nat) :
    (a.remove id).generation i =
      if i = id.index then id.generation + 1 else a.generation i := by
  obtain ⟨t, ht⟩ := contains_iff.1 hlive
  rw [remove_of_live hinner hlive]
  simp only [generation, Array.getElem?_modify]
  by_cases hi : i = id.index
  · rw [if_pos hi, if_pos hi.symm, hi, place_of_table? ht]
    rfl
  · rw [if_neg hi, if_neg (Ne.symm hi)]

/-! ### Vacant places -/

/-- All places without a table are free to be used again. -/
def Tight (a : Arena) : Prop :=
  ∀ (i : Nat) (p : Place), a.places[i]? = some p → p.table = none → i ∈ a.free

theorem initial_tight : initial.Tight := by
  intro i p hp hvacant
  have hi : i < 1 := (Array.getElem?_eq_some_iff.1 hp).1
  obtain rfl := Nat.lt_one_iff.1 hi
  cases hp
  cases hvacant

theorem Tight.put (h : a.Tight) (hu : a.table? id = some u) (t : Table) : (a.put id t).Tight := by
  intro i p hp hvacant
  simp only [Arena.put, Array.getElem?_modify] at hp
  split at hp
  · rename_i hi
    rw [← hi, place_of_table? hu] at hp
    cases hp
    cases hvacant
  · exact h i p hp hvacant

theorem Tight.insert (h : a.Tight) (hsound : a.Sound) (t : Table) : (a.insert t).2.Tight := by
  intro i p hp hvacant
  unfold Arena.insert at hp ⊢
  split at hp
  · rename_i index free hfree
    obtain ⟨q, hq, -⟩ := hsound.vacant index (by rw [hfree]; exact List.mem_cons_self)
    simp only [Arena.put, Array.getElem?_modify] at hp
    split at hp
    · rename_i hi
      rw [← hi, hq] at hp
      cases hp
      cases hvacant
    · rename_i hi
      have hmem := h i p hp hvacant
      rw [hfree] at hmem
      exact (List.mem_cons.1 hmem).resolve_left (Ne.symm hi)
  · rename_i hfree
    simp only [Array.getElem?_push] at hp
    split at hp
    · cases hp
      cases hvacant
    · exact h i p hp hvacant

theorem Tight.remove (h : a.Tight) (hinner : id ≠ .root) (hlive : a.contains id = true) :
    (a.remove id).Tight := by
  intro i p hp hvacant
  rw [remove_of_live hinner hlive] at hp ⊢
  simp only [Array.getElem?_modify] at hp
  split at hp
  · rename_i hi
    rw [← hi]
    exact List.mem_cons_self
  · exact List.mem_cons_of_mem _ (h i p hp hvacant)

/-! ### The number of tables -/

/-- One change to a list counts on both sides. -/
theorem countP_modify_add {α : Type} (q : α → Bool) (f : α → α) {l : List α} {i : Nat} {x : α}
    (h : l[i]? = some x) :
    (l.modify i f).countP q + (if q x then 1 else 0) = l.countP q + if q (f x) then 1 else 0 := by
  induction l generalizing i with
  | nil => cases h
  | cons y rest ih =>
    cases i with
    | zero =>
      cases h
      simp only [List.modify_zero_cons, List.countP_cons]
      omega
    | succ i =>
      have hrest := ih (i := i) h
      simp only [List.modify_succ_cons, List.countP_cons]
      omega

theorem count_eq (a : Arena) : a.count = a.places.toList.countP (·.table.isSome) := by
  have hfold : ∀ (l : List Place) (n : Nat),
      l.foldl (fun n p => if p.table.isSome then n + 1 else n) n
        = n + l.countP (·.table.isSome) := by
    intro l
    induction l with
    | nil => exact fun _ => rfl
    | cons p rest ih =>
      intro n
      rw [List.foldl_cons, ih, List.countP_cons]
      by_cases hp : p.table.isSome = true
      · rw [if_pos hp, if_pos hp]
        omega
      · rw [if_neg hp, if_neg hp]
        omega
  rw [count, ← Array.foldl_toList, hfold, Nat.zero_add]

theorem place_toList {p : Place} {i : Nat} (h : a.places[i]? = some p) :
    a.places.toList[i]? = some p := by
  rw [Array.getElem?_toList, h]

theorem count_put (h : a.table? id = some u) (t : Table) : (a.put id t).count = a.count := by
  have hcount := countP_modify_add (·.table.isSome) (fun p : Place => { p with table := some t })
    (place_toList (place_of_table? h))
  rw [count_eq, count_eq, put, Array.toList_modify]
  simpa using hcount

theorem count_insert (h : a.Sound) (t : Table) : (a.insert t).2.count = a.count + 1 := by
  rw [count_eq, count_eq]
  unfold insert
  split
  · rename_i index free hfree
    obtain ⟨p, hp, hvacant⟩ := h.vacant index (by rw [hfree]; exact List.mem_cons_self)
    have hcount := countP_modify_add (·.table.isSome) (fun p : Place => { p with table := some t })
      (place_toList hp)
    simpa [put, Array.toList_modify, hvacant] using hcount
  · simp [List.countP_append]

theorem count_remove (hinner : id ≠ .root) (hlive : a.contains id = true) :
    (a.remove id).count + 1 = a.count := by
  obtain ⟨t, ht⟩ := contains_iff.1 hlive
  have hcount := countP_modify_add (·.table.isSome)
    (fun p : Place => ⟨p.generation + 1, none⟩) (place_toList (place_of_table? ht))
  rw [count_eq, count_eq, remove_of_live hinner hlive, Array.toList_modify]
  simpa using hcount

/-! ### Histories -/

/-- An arena with the handles of the tables made in it and removed from it, the latest first. -/
structure History where
  arena : Arena := .initial
  created : List TableId := []
  removed : List TableId := []

namespace History

/-- The handles given so far, the latest first; that of the root was there from the start. -/
def issued (h : History) : List TableId := h.created ++ [.root]

/-- What happened, and one operation more. -/
def perform (h : History) (op : Operation) : History where
  arena := (h.arena.perform op).2
  created := (h.arena.perform op).1.toList ++ h.created
  removed := (h.arena.removal op).toList ++ h.removed

/-- What happened, and some operations more. -/
def run (h : History) (ops : List Operation) : History := ops.foldl perform h

/-- A history that begins with the root alone. -/
def Reachable (h : History) : Prop := ∃ ops, h = run {} ops

/-- The operations use only handles that were given before. -/
def Proper (h : History) : List Operation → Prop
  | [] => True
  | op :: ops => (∀ id ∈ op.handles, id ∈ h.issued) ∧ (h.perform op).Proper ops

instance Proper.decidable : ∀ (h : History) (ops : List Operation), Decidable (h.Proper ops)
  | _, [] => inferInstanceAs (Decidable True)
  | h, op :: ops =>
    have := Proper.decidable (h.perform op) ops
    inferInstanceAs (Decidable ((∀ id ∈ op.handles, id ∈ h.issued) ∧ (h.perform op).Proper ops))

/-- Something holds of every operation and the arena in which it is performed. -/
def Throughout (h : History) (ops : List Operation) (P : Arena → Operation → Prop) : Prop :=
  ∀ before op after, ops = before ++ op :: after → P (h.run before).arena op

/-- How often a table was removed from a place. -/
def removals (h : History) (index : Nat) : Nat := h.removed.countP (·.index == index)

/-- No place was emptied as often as there are generations. -/
def Tame (h : History) : Prop := ∀ index, h.removals index < UInt32.size

/-- A handle was given before another one. -/
def Older (h : History) (id than : TableId) : Prop :=
  ∃ newer older, h.issued = newer ++ than :: older ∧ id ∈ older

/-- What holds after any operations: of the places, of the root and of the number of tables. -/
structure Regular (h : History) : Prop where
  sound : h.arena.Sound
  tight : h.arena.Tight
  /-- Each removal uses up a generation. -/
  generation : ∀ i, (h.arena.generation i).toNat = h.removals i % UInt32.size
  isRoot_iff : ∀ id t, h.arena.table? id = some t → (t.isRoot = true ↔ id = .root)
  count : h.arena.count + h.removed.length = 1 + h.created.length

/-- The arena agrees with the handles given and removed. -/
structure Accounted (h : History) : Prop extends Regular h where
  /-- No handle is given twice, nor removed twice. -/
  issued_nodup : h.issued.Nodup
  removed_nodup : h.removed.Nodup
  live_iff : ∀ id, h.arena.contains id = true ↔ id ∈ h.issued ∧ id ∉ h.removed
  removed_created : ∀ id ∈ h.removed, id ∈ h.created
  /-- The generations of what was removed are past. -/
  past : ∀ id ∈ h.removed, id.generation.toNat < h.removals id.index
  /-- Parents are older than their children. -/
  older : ∀ id p, h.arena.parent? id = some p → h.Older p id

variable {h : History} {ops : List Operation} {op : Operation} {id p : TableId}

theorem run_cons (h : History) (op : Operation) (ops : List Operation) :
    h.run (op :: ops) = (h.perform op).run ops := rfl

theorem run_append (h : History) (before after : List Operation) :
    h.run (before ++ after) = (h.run before).run after := List.foldl_append

theorem proper_append {before after : List Operation} :
    h.Proper (before ++ after) ↔ h.Proper before ∧ (h.run before).Proper after := by
  induction before generalizing h with
  | nil => exact ⟨fun hproper => ⟨trivial, hproper⟩, fun hboth => hboth.2⟩
  | cons op before ih =>
    rw [List.cons_append, Proper, Proper, ih, run_cons, and_assoc]

theorem Throughout.nil (h : History) (P : Arena → Operation → Prop) : h.Throughout [] P := by
  intro before op after hops
  cases before <;> cases hops

theorem Throughout.cons {P : Arena → Operation → Prop} (hfirst : P h.arena op)
    (hrest : (h.perform op).Throughout ops P) : h.Throughout (op :: ops) P := by
  intro before next after hops
  cases before with
  | nil =>
    cases hops
    exact hfirst
  | cons first before =>
    cases hops
    exact hrest before next after rfl

theorem Throughout.head {P : Arena → Operation → Prop} (hall : h.Throughout (op :: ops) P) :
    P h.arena op := hall [] op ops rfl

theorem Throughout.tail {P : Arena → Operation → Prop} (hall : h.Throughout (op :: ops) P) :
    (h.perform op).Throughout ops P := fun before next after hops =>
  hall (op :: before) next after (congrArg (op :: ·) hops)

/-- What one operation adds to a history, by the effect of the operation. -/
theorem perform_cases {motive : History → Prop} (h : History) (op : Operation)
    (creates : ∀ t : Table, t.isRoot = false →
      (∀ p, t.parent = some p →
        p ∈ op.handles ∨ ∃ source ∈ op.handles, h.arena.parent? source = some p) →
      motive ⟨(h.arena.insert t).2, (h.arena.insert t).1 :: h.created, h.removed⟩)
    (removes : ∀ id, op = .remove id → id ≠ .root → h.arena.contains id = true →
      motive ⟨h.arena.remove id, h.created, id :: h.removed⟩)
    (writes : ∀ (w : Write) (t : Table), op = .write w →
      h.arena.table? (h.arena.target w) = some t →
      h.arena.write w = .ok (h.arena.put (h.arena.target w) (w.onTable t)) →
      motive ⟨h.arena.put (h.arena.target w) (w.onTable t), h.created, h.removed⟩)
    (nothing : motive h) : motive (h.perform op) := by
  have heffect := h.arena.perform_effect op
  unfold perform
  generalize (h.arena.perform op).1 = made, h.arena.removal op = gone,
    (h.arena.perform op).2 = after at heffect
  cases heffect with
  | creates t plain parent => exact creates t plain parent
  | removes inner live => exact removes _ rfl inner live
  | writes live succeeds => exact writes _ _ rfl live succeeds
  | nothing => exact nothing

/-- Handles that were given or removed stay so. -/
theorem perform_suffix (h : History) (op : Operation) :
    h.issued <:+ (h.perform op).issued ∧ h.removed <:+ (h.perform op).removed := by
  refine ⟨?_, List.suffix_append _ _⟩
  unfold issued perform
  rw [List.append_assoc]
  exact List.suffix_append _ _

theorem run_suffix (h : History) (ops : List Operation) :
    h.issued <:+ (h.run ops).issued ∧ h.removed <:+ (h.run ops).removed := by
  induction ops generalizing h with
  | nil => exact ⟨List.suffix_refl _, List.suffix_refl _⟩
  | cons op ops ih =>
    have hfirst := h.perform_suffix op
    have hrest := ih (h.perform op)
    exact ⟨hfirst.1.trans hrest.1, hfirst.2.trans hrest.2⟩

/-- What is tame in the end was tame all along. -/
theorem Tame.before (htame : (h.run ops).Tame) : h.Tame := fun i =>
  Nat.lt_of_le_of_lt (h.run_suffix ops).2.sublist.countP_le (htame i)

/-- Few removals cannot use up the generations of a place. -/
theorem tame_of_length (hlength : h.removed.length < UInt32.size) : h.Tame := fun _ =>
  Nat.lt_of_le_of_lt List.countP_le_length hlength

theorem Older.mem (holder : h.Older p id) : p ∈ h.issued := by
  obtain ⟨newer, older, hissued, hp⟩ := holder
  rw [hissued]
  exact List.mem_append_right _ (List.mem_cons_of_mem _ hp)

/-- Handles keep their order while others are given. -/
theorem Older.later {h' : History} (holder : h.Older p id) (hsuffix : h.issued <:+ h'.issued) :
    h'.Older p id := by
  obtain ⟨newer, older, hissued, hp⟩ := holder
  obtain ⟨newest, hnewest⟩ := hsuffix
  exact ⟨newest ++ newer, older, by rw [← hnewest, hissued, List.append_assoc], hp⟩

/-- One removal more from a place. -/
theorem removals_cons (a : Arena) (created removed : List TableId) (id : TableId) (i : Nat) :
    History.removals ⟨a, created, id :: removed⟩ i
      = History.removals ⟨a, created, removed⟩ i + if i = id.index then 1 else 0 := by
  have hindex : (id.index == i) = decide (i = id.index) := by
    rw [← Bool.beq_comm]
    rfl
  simp [removals, List.countP_cons, hindex]

/-- In the beginning there is the root alone. -/
theorem table?_initial (ht : Arena.initial.table? id = some t) :
    id = .root ∧ t.isRoot = true ∧ t.parent = none := by
  have hplace := place_of_table? ht
  have hindex : id.index < 1 := (Array.getElem?_eq_some_iff.1 hplace).1
  obtain ⟨index, generation⟩ := id
  obtain rfl : index = 0 := Nat.lt_one_iff.1 hindex
  cases hplace
  exact ⟨rfl, rfl, rfl⟩

/-! ### After any operations -/

theorem regular_initial : Regular {} where
  sound := initial_sound
  tight := initial_tight
  generation i := by cases i <;> rfl
  isRoot_iff id t ht := by
    obtain ⟨hid, hroot, -⟩ := table?_initial ht
    exact ⟨fun _ => hid, fun _ => hroot⟩
  count := rfl

namespace Regular

theorem creates (hreg : h.Regular) {t : Table} (hplain : t.isRoot = false) :
    Regular ⟨(h.arena.insert t).2, (h.arena.insert t).1 :: h.created, h.removed⟩ := by
  have hlookup := table?_insert hreg.sound t
  refine ⟨hreg.sound.insert t, hreg.tight.insert hreg.sound t, fun i => ?_, fun x u hu => ?_, ?_⟩
  · rw [generation_insert]
    exact hreg.generation i
  · rw [hlookup] at hu
    split at hu
    · rename_i hx
      cases hu
      refine ⟨fun hroot => absurd hroot (by simp [hplain]), fun hroot => ?_⟩
      have hfresh := table?_insert_fresh hreg.sound t
      obtain ⟨r, hr⟩ := contains_iff.1 hreg.sound.root
      rw [← hx, hroot, hr] at hfresh
      cases hfresh
    · exact hreg.isRoot_iff x u hu
  · have hcount := hreg.count
    show (h.arena.insert t).2.count + h.removed.length = 1 + (h.created.length + 1)
    rw [count_insert hreg.sound]
    omega

theorem removes (hreg : h.Regular) (hinner : id ≠ .root) (hlive : h.arena.contains id = true) :
    Regular ⟨h.arena.remove id, h.created, id :: h.removed⟩ := by
  obtain ⟨t, ht⟩ := contains_iff.1 hlive
  have hremovals := removals_cons (h.arena.remove id) h.created h.removed id
  refine ⟨hreg.sound.remove id, hreg.tight.remove hinner hlive, fun i => ?_, fun x u hu => ?_, ?_⟩
  · show ((h.arena.remove id).generation i).toNat = _
    have hbefore : (h.arena.generation i).toNat =
        History.removals ⟨h.arena.remove id, h.created, h.removed⟩ i % UInt32.size := hreg.generation i
    rw [hremovals, generation_remove hinner hlive]
    by_cases hi : i = id.index
    · rw [if_pos hi, if_pos hi, UInt32.toNat_add, ← generation_of_live ht, ← hi, hbefore]
      exact (Nat.add_mod _ 1 _).symm
    · rw [if_neg hi, if_neg hi, hbefore]
      rfl
  · rw [table?_remove hinner] at hu
    split at hu
    · cases hu
    · exact hreg.isRoot_iff x u hu
  · have hcount := hreg.count
    have hremove := count_remove hinner hlive
    show (h.arena.remove id).count + (h.removed.length + 1) = 1 + h.created.length
    omega

theorem writes (hreg : h.Regular) {t u : Table} (ht : h.arena.table? id = some t)
    (hroot : u.isRoot = t.isRoot) : Regular ⟨h.arena.put id u, h.created, h.removed⟩ := by
  refine ⟨hreg.sound.put ht u, hreg.tight.put ht u, fun i => ?_, fun x v hv => ?_, ?_⟩
  · rw [generation_put]
    exact hreg.generation i
  · rw [table?_put ht u] at hv
    split at hv
    · rename_i hx
      cases hv
      rw [hroot, hx]
      exact hreg.isRoot_iff id t ht
    · exact hreg.isRoot_iff x v hv
  · exact (congrArg (· + h.removed.length) (count_put ht u)).trans hreg.count

theorem root (hreg : h.Regular) : ∃ r, h.arena.table? .root = some r ∧ r.isRoot = true := by
  obtain ⟨r, hr⟩ := contains_iff.1 hreg.sound.root
  exact ⟨r, hr, (hreg.isRoot_iff .root r hr).2 rfl⟩

end Regular

theorem regular_perform (hreg : h.Regular) (op : Operation) : (h.perform op).Regular := by
  refine h.perform_cases op ?_ ?_ ?_ hreg
  · exact fun t hplain _ => hreg.creates hplain
  · exact fun id _ hinner hlive => hreg.removes hinner hlive
  · exact fun w t _ ht _ => hreg.writes ht (w.place_onTable t).2

theorem regular_run (hreg : h.Regular) (ops : List Operation) : (h.run ops).Regular := by
  induction ops generalizing h with
  | nil => exact hreg
  | cons op ops ih => exact ih (regular_perform hreg op)

theorem Reachable.regular (hreach : h.Reachable) : h.Regular := by
  obtain ⟨ops, rfl⟩ := hreach
  exact regular_run regular_initial ops

/-! ### After operations with handles that were given -/

theorem accounted_initial : Accounted {} where
  toRegular := regular_initial
  issued_nodup := by decide
  removed_nodup := List.nodup_nil
  live_iff id := by
    constructor
    · intro hlive
      obtain ⟨t, ht⟩ := contains_iff.1 hlive
      exact ⟨List.mem_singleton.2 (table?_initial ht).1, List.not_mem_nil⟩
    · rintro ⟨hissued, -⟩
      rw [List.mem_singleton.1 hissued]
      rfl
  removed_created _ hid := absurd hid List.not_mem_nil
  past _ hid := absurd hid List.not_mem_nil
  older id p hp := by
    cases ht : Arena.initial.table? id with
    | none => simp [parent?, ht] at hp
    | some t => simp [parent?, ht, (table?_initial ht).2.2] at hp

namespace Accounted

/-- A new table gets a handle that was never given. -/
theorem fresh (hacc : h.Accounted) (htame : h.Tame) (t : Table) :
    (h.arena.insert t).1 ∉ h.issued := by
  intro hissued
  -- A handle that was given is live or past, and the next one to its place is neither.
  have hstale := table?_insert_fresh hacc.sound t
  have hremoved : (h.arena.insert t).1 ∈ h.removed := by
    by_cases hmem : (h.arena.insert t).1 ∈ h.removed
    · exact hmem
    · obtain ⟨u, hu⟩ := contains_iff.1 ((hacc.live_iff _).2 ⟨hissued, hmem⟩)
      rw [hstale] at hu
      cases hu
  have hpast := hacc.past _ hremoved
  rw [generation_insert_fst, hacc.generation, Nat.mod_eq_of_lt (htame _)] at hpast
  exact Nat.lt_irrefl _ hpast

theorem mem_issued_of_parent? (hacc : h.Accounted) (hp : h.arena.parent? id = some p) :
    p ∈ h.issued :=
  (hacc.older id p hp).mem

/-- The account of a new table. -/
theorem creates (hacc : h.Accounted) (htame : h.Tame) {t : Table} (hplain : t.isRoot = false)
    (hparent : ∀ p, t.parent = some p → p ∈ h.issued) :
    Accounted ⟨(h.arena.insert t).2, (h.arena.insert t).1 :: h.created, h.removed⟩ := by
  have hfresh := hacc.fresh htame t
  have hlookup := table?_insert hacc.sound t
  have hissued : History.issued ⟨(h.arena.insert t).2, (h.arena.insert t).1 :: h.created,
      h.removed⟩ = (h.arena.insert t).1 :: h.issued := rfl
  refine ⟨hacc.toRegular.creates hplain, ?_, hacc.removed_nodup, fun x => ?_,
    fun x hx => List.mem_cons_of_mem _ (hacc.removed_created x hx), hacc.past, fun x p hp => ?_⟩
  · rw [hissued]
    exact List.nodup_cons.2 ⟨hfresh, hacc.issued_nodup⟩
  · rw [hissued, contains, hlookup, List.mem_cons]
    by_cases hx : x = (h.arena.insert t).1
    · rw [if_pos hx]
      refine ⟨fun _ => ⟨.inl hx, fun hremoved => hfresh ?_⟩, fun _ => rfl⟩
      rw [← hx]
      exact List.mem_append_left _ (hacc.removed_created x hremoved)
    · rw [if_neg hx]
      refine (hacc.live_iff x).trans ⟨fun hlive => ⟨.inr hlive.1, hlive.2⟩, fun hlive => ?_⟩
      exact ⟨hlive.1.resolve_left hx, hlive.2⟩
  · rw [parent?, hlookup] at hp
    split at hp
    · rename_i hx
      exact ⟨[], h.issued, by rw [hissued, hx, List.nil_append], hparent p hp⟩
    · exact (hacc.older x p hp).later ⟨[(h.arena.insert t).1], rfl⟩

/-- The account of a removed table. -/
theorem removes (hacc : h.Accounted) (htame : h.Tame) (hinner : id ≠ .root)
    (hlive : h.arena.contains id = true) :
    Accounted ⟨h.arena.remove id, h.created, id :: h.removed⟩ := by
  have hlookup := fun x => table?_remove (a := h.arena) hinner x
  obtain ⟨hissued, hkept⟩ := (hacc.live_iff id).1 hlive
  obtain ⟨t, ht⟩ := contains_iff.1 hlive
  have hgeneration : id.generation.toNat = h.removals id.index := by
    rw [← Nat.mod_eq_of_lt (htame id.index), ← hacc.generation, generation_of_live ht]
  have hremovals := removals_cons (h.arena.remove id) h.created h.removed id
  refine ⟨hacc.toRegular.removes hinner hlive, hacc.issued_nodup,
    List.nodup_cons.2 ⟨hkept, hacc.removed_nodup⟩, fun x => ?_, fun x hx => ?_, fun x hx => ?_,
    fun x p hp => ?_⟩
  · show (h.arena.remove id).contains x = true ↔ x ∈ h.issued ∧ x ∉ id :: h.removed
    rw [contains, hlookup, List.mem_cons, not_or]
    by_cases hx : x = id
    · rw [if_pos hx]
      exact ⟨fun hnone => absurd hnone Bool.false_ne_true, fun hboth => absurd hx hboth.2.1⟩
    · rw [if_neg hx]
      refine (hacc.live_iff x).trans ⟨fun hboth => ⟨hboth.1, hx, hboth.2⟩, fun hboth => ?_⟩
      exact ⟨hboth.1, hboth.2.2⟩
  · rcases List.mem_cons.1 hx with rfl | hx
    · rcases List.mem_append.1 hissued with hcreated | hroot
      · exact hcreated
      · exact absurd (List.mem_singleton.1 hroot) hinner
    · exact hacc.removed_created x hx
  · rw [hremovals]
    rcases List.mem_cons.1 hx with rfl | hx
    · rw [if_pos rfl, hgeneration]
      exact Nat.lt_succ_self _
    · exact Nat.lt_of_lt_of_le (hacc.past x hx) (Nat.le_add_right _ _)
  · rw [parent?, hlookup] at hp
    split at hp
    · cases hp
    · exact (hacc.older x p hp).later (List.suffix_refl _)

/-- The account of a table that was rewritten in its place. -/
theorem writes (hacc : h.Accounted) {t u : Table} (ht : h.arena.table? id = some t)
    (hparent : u.parent = t.parent) (hroot : u.isRoot = t.isRoot) :
    Accounted ⟨h.arena.put id u, h.created, h.removed⟩ := by
  have hlookup := table?_put ht u
  refine ⟨hacc.toRegular.writes ht hroot, hacc.issued_nodup, hacc.removed_nodup, fun x => ?_,
    hacc.removed_created, hacc.past, fun x p hp => ?_⟩
  · refine Iff.trans ?_ (hacc.live_iff x)
    rw [contains, contains, hlookup]
    split
    · rename_i hx
      rw [hx, ht]
      exact Iff.rfl
    · exact Iff.rfl
  · refine (hacc.older x p ?_).later (List.suffix_refl _)
    rw [parent?, hlookup] at hp
    split at hp
    · rename_i hx
      rw [hx, parent?_of_table? ht, ← hparent]
      exact hp
    · exact hp

end Accounted

/-- One operation with handles that were given keeps the account. -/
theorem accounted_perform (hacc : h.Accounted) (htame : h.Tame)
    (hgiven : ∀ id ∈ op.handles, id ∈ h.issued) : (h.perform op).Accounted := by
  refine h.perform_cases op ?_ ?_ ?_ hacc
  · intro t hplain hparent
    refine hacc.creates htame hplain fun p hp => ?_
    rcases hparent p hp with hused | ⟨source, -, hsource⟩
    · exact hgiven p hused
    · exact hacc.mem_issued_of_parent? hsource
  · intro id _ hinner hlive
    exact hacc.removes htame hinner hlive
  · intro w t _ ht _
    obtain ⟨hparent, hroot⟩ := w.place_onTable t
    exact hacc.writes ht hparent hroot

/-- **The account is kept** as long as only handles that were given are used and generations are
not used up. -/
theorem accounted_run (hacc : h.Accounted) (hproper : h.Proper ops) (htame : (h.run ops).Tame) :
    (h.run ops).Accounted := by
  induction ops generalizing h with
  | nil => exact hacc
  | cons op ops ih =>
    exact ih (accounted_perform hacc (Tame.before htame) hproper.1) hproper.2 htame

end History

end Arena

end ScriptMachine
