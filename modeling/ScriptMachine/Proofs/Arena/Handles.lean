import ScriptMachine.Proofs.Arena.Histories
import ScriptMachine.Scope.Dump

/-!
# Handles of removed tables

A handle is live from the moment it is given until its table is removed, and never again. Whatever
looks at the table of a removed handle finds it gone; a walk that starts there goes straight to the
root.

* `Arena.Gone`: what reads and writes through a handle without a table do.
* `Arena.gone_of_stale`: they do so through every handle without a table.
* `History.mem_removed_run_iff`: a live table is removed by the first removal of its handle.
* `History.live_until_removed`: the life of one handle.
* `handle_live_until_removed`: the life of all handles in all histories.
-/

namespace ScriptMachine

namespace Arena

variable {a : Arena} {id x : TableId} {name : String} {v : Value}

/-! ### Reads and writes through a stale handle -/

/-- A handle without a table: what looks at its table finds it gone, what walks from it finds the
names of the root, and no write through it concerns a table other than the root. -/
structure Gone (a : Arena) (id : TableId) : Prop where
  contains : a.contains id = false
  table : a.table id = .error (.about .invalidValue ("symbol table " ++ id.text))
  parent? : a.parent? id = none
  packageOf : a.packageOf id = ""
  getLocal? : ∀ name, a.getLocal? id name = none
  isLocal : ∀ name, a.isLocal id name = false
  localSymbols : a.localSymbols id = []
  deref : ∀ slot, a.deref ⟨id, slot⟩ = .error (.bare .nilPointerReference)
  clone : ∀ name, a.clone id name = .error (.about .invalidValue ("symbol table " ++ id.text))
  remove : a.remove id = a
  dump : ∀ heap, a.dump heap id = s!"<removed table {id.text}>"
  get? : ∀ name, a.get? id name = a.getLocal? .root name
  addressOf : ∀ name, a.addressOf id name = a.addressOf .root name
  nextScope : a.nextScope id = .root
  /-- An assignment is one to the root if that has the name, and otherwise refused. -/
  set : ∀ name v, a.set id name v =
    if a.isLocal .root name then a.set .root name v
    else .error (.about .invalidValue ("symbol table " ++ id.text))
  refuses : ∀ w : Write, w.handle = id → (∀ name v, w ≠ .set id name v) →
    ∃ f, a.write w = .error f
  spares : ∀ w : Write, w.handle = id → ∀ x, x ≠ .root →
    (a.perform (.write w)).2.table? x = a.table? x

theorem walk_of_gone (h : a.table? id = none) (name : String) (steps : Nat) :
    a.walk name steps id = none := by
  cases steps with
  | zero => rfl
  | succ steps => simp only [walk, h]

/-- A walk from a handle without a table ends at the root. -/
theorem resolve_of_gone (h : a.table? id = none) (name : String) :
    a.resolve id name = (a.table? .root >>= (·.symbol? name)).map (.root, ·) := by
  simp only [resolve, walk_of_gone h]

/-- So does one from the root. -/
theorem resolve_root {r : Table} (hr : a.table? .root = some r) (hroot : r.isRoot = true)
    (name : String) :
    a.resolve .root name = (a.table? .root >>= (·.symbol? name)).map (.root, ·) := by
  have hends : r.passes = false := by simp [Table.passes, hroot]
  simp only [resolve, walk, hr, hends]
  cases hsymbol : r.symbol? name with
  | none => simp [hsymbol]
  | some s => simp [hsymbol]

theorem table_of_gone (h : a.table? id = none) :
    a.table id = .error (.about .invalidValue ("symbol table " ++ id.text)) := by
  simp only [Arena.table, h]

/-- Every write through a handle without a table is refused, or is an assignment to the root. -/
theorem write_of_gone (h : a.table? id = none) {w : Write} (hw : w.handle = id) :
    (∃ f, a.write w = .error f) ∨ ∃ name v, w = .set id name v ∧ a.target w = .root := by
  cases hwrite : a.write w with
  | error f => exact .inl ⟨f, rfl⟩
  | ok b =>
    obtain ⟨t, ht, -⟩ := write_eq_ok hwrite
    have htarget : a.target w ≠ id := by
      intro heq
      rw [heq, h] at ht
      cases ht
    cases w with
    | set start name v =>
      obtain rfl : start = id := hw
      refine .inr ⟨name, v, rfl, ?_⟩
      rw [target, resolve_of_gone h] at htarget ⊢
      cases hsymbol : a.table? .root >>= (·.symbol? name) with
      | none => simp [hsymbol] at htarget
      | some s => rfl
    | _ => exact absurd hw htarget

/-- **Through a handle without a table** nothing but the root is found or written. -/
theorem gone_of_stale {r : Table} (hr : a.table? .root = some r) (hroot : r.isRoot = true)
    (h : a.table? id = none) : a.Gone id where
  contains := by rw [Arena.contains, h]; rfl
  table := table_of_gone h
  parent? := by rw [Arena.parent?, h]; rfl
  packageOf := by rw [Arena.packageOf, h]; rfl
  getLocal? name := by rw [Arena.getLocal?, h]; rfl
  isLocal name := by rw [Arena.isLocal, h]; rfl
  localSymbols := by simp only [Arena.localSymbols, h]
  deref slot := by simp only [Arena.deref, h]; rfl
  clone name := by rw [Arena.clone, table_of_gone h]; rfl
  remove := by
    unfold Arena.remove
    rw [if_pos (.inr (by rw [Arena.contains, h]; rfl))]
  dump heap := by simp only [Arena.dump, h]
  get? name := by
    rw [Arena.get?, resolve_of_gone h, Arena.getLocal?, hr]
    cases hsymbol : r.symbol? name with
    | none => simp [Table.get?, hsymbol]
    | some s => simp [Table.get?, hsymbol, hr]
  addressOf name := by rw [Arena.addressOf, Arena.addressOf, resolve_of_gone h, resolve_root hr hroot]
  nextScope := by simp only [Arena.nextScope, walkOut, h]
  set name v := by
    rw [Arena.set, Arena.set, resolve_of_gone h, resolve_root hr hroot, Arena.isLocal, hr]
    cases hsymbol : r.symbol? name with
    | none => simp [hsymbol, update, table_of_gone h, Except.map, bind, Except.bind]
    | some s => simp [hsymbol]
  refuses w hw hset := by
    rcases write_of_gone h hw with hrefused | ⟨name, v, rfl, -⟩
    · exact hrefused
    · exact absurd rfl (hset name v)
  spares w hw x hx := by
    cases hwrite : a.write w with
    | error f => simp only [perform, hwrite]
    | ok b =>
      obtain ⟨t, ht, rfl⟩ := write_eq_ok hwrite
      rcases write_of_gone h hw with ⟨f, hf⟩ | ⟨name, v, -, htarget⟩
      · rw [hwrite] at hf
        cases hf
      · simp only [perform, hwrite]
        rw [table?_put ht, htarget, if_neg hx]

namespace History

variable {h : History} {ops : List Operation} {op : Operation}

/-- Just the removal of a live table other than the root removes one. -/
theorem removal_eq_some_iff {op : Operation} :
    a.removal op = some id ↔ op = .remove id ∧ id ≠ .root ∧ a.contains id = true := by
  constructor
  · intro hgone
    have heffect := a.perform_effect op
    rw [hgone] at heffect
    generalize (a.perform op).1 = made, (a.perform op).2 = after at heffect
    cases heffect with
    | removes inner live => exact ⟨rfl, inner, live⟩
  · rintro ⟨rfl, hlive⟩
    exact if_pos hlive

/-- **A live table is gone** once its handle was removed, and not before. -/
theorem mem_removed_run_iff (hacc : h.Accounted) (hproper : h.Proper ops)
    (htame : (h.run ops).Tame) (hinner : id ≠ .root) (hlive : h.arena.contains id = true) :
    id ∈ (h.run ops).removed ↔ .remove id ∈ ops := by
  induction ops generalizing h with
  | nil => exact ⟨fun hid => absurd hid ((hacc.live_iff id).1 hlive).2, fun hid => nomatch hid⟩
  | cons op ops ih =>
    have hacc' := accounted_perform hacc (Tame.before htame) hproper.1
    by_cases hop : op = .remove id
    · have hgone : id ∈ (h.perform op).removed := by
        have hremoval := removal_eq_some_iff.2 ⟨hop, hinner, hlive⟩
        simp [perform, hremoval]
      refine ⟨fun _ => by rw [hop]; exact List.mem_cons_self, fun _ => ?_⟩
      exact ((h.perform op).run_suffix ops).2.subset hgone
    · have hlive' : (h.perform op).arena.contains id = true := by
        refine (hacc'.live_iff id).2 ⟨(h.perform_suffix op).1.subset
          ((hacc.live_iff id).1 hlive).1, fun hid => ?_⟩
        rcases List.mem_append.1 hid with hid | hid
        · exact hop (removal_eq_some_iff.1 (Option.mem_toList.1 hid)).1
        · exact ((hacc.live_iff id).1 hlive).2 hid
      rw [run_cons, ih hacc' hproper.2 htame hlive', List.mem_cons]
      exact ⟨.inr, fun hid => hid.resolve_left fun heq => hop heq.symm⟩

/-- The table of a new handle is live; the handle is not that of the root. -/
theorem Accounted.made (hacc : h.Accounted) (htame : h.Tame)
    (hmade : (h.arena.perform op).1 = some id) :
    id ≠ .root ∧ (h.perform op).arena.contains id = true := by
  have heffect := h.arena.perform_effect op
  unfold perform
  rw [hmade] at heffect
  generalize h.arena.removal op = gone at heffect
  generalize (h.arena.perform op).2 = after at heffect ⊢
  cases heffect with
  | creates t plain parent =>
    refine ⟨fun hroot => hacc.fresh htame t ?_, ?_⟩
    · rw [hroot]
      exact List.mem_append_right _ (List.mem_singleton.2 rfl)
    · rw [Arena.contains, table?_insert hacc.sound, if_pos rfl]
      rfl

/-- **The life of a handle**: its table is live until the first removal, and gone after it. -/
theorem live_until_removed {before after : List Operation}
    (hproper : Proper {} (before ++ op :: after)) (htame : (run {} (before ++ op :: after)).Tame)
    (hmade : ((run {} before).arena.perform op).1 = some id) :
    ((run {} (before ++ op :: after)).arena.contains id = true ↔ .remove id ∉ after) ∧
      (.remove id ∈ after → (run {} (before ++ op :: after)).arena.Gone id) := by
  have hacc := accounted_run accounted_initial hproper htame
  rw [run_append, run_cons] at htame hacc ⊢
  obtain ⟨hbefore, hgiven, hafter⟩ := proper_append.1 hproper
  have htame₁ : ((run {} before).run [op]).Tame := Tame.before htame
  have hacc₀ := accounted_run accounted_initial hbefore htame₁.before
  have hacc₁ := accounted_perform hacc₀ htame₁.before hgiven
  obtain ⟨hinner, hmadeLive⟩ := hacc₀.made htame₁.before hmade
  have hremoved := mem_removed_run_iff hacc₁ hafter htame hinner hmadeLive
  have hissued := (((run {} before).perform op).run_suffix after).1.subset
    ((hacc₁.live_iff id).1 hmadeLive).1
  have hlive : (((run {} before).perform op).run after).arena.contains id = true ↔
      .remove id ∉ after := by
    rw [hacc.live_iff, hremoved]
    exact and_iff_right hissued
  refine ⟨hlive, fun hremove => ?_⟩
  obtain ⟨r, hr, hroot⟩ := hacc.root
  refine gone_of_stale hr hroot ?_
  cases ht : (((run {} before).perform op).run after).arena.table? id with
  | none => rfl
  | some t => exact absurd hremove (hlive.1 (contains_iff.2 ⟨t, ht⟩))

/-- **Handles.** After any operations with handles that were given: the root is live; the free
places are the vacant ones, each listed once; no handle was given twice; every other handle is live
from when it was given until its first removal, and gone ever after; and the tables are counted. -/
theorem handle_live_until_removed {ops : List Operation} (hproper : Proper {} ops)
    (htame : (run {} ops).Tame) :
    (run {} ops).arena.contains ⟨0, 0⟩ = true ∧
    (run {} ops).arena.free.Nodup ∧
    (∀ i, i ∈ (run {} ops).arena.free ↔
      ∃ p, (run {} ops).arena.places[i]? = some p ∧ p.table = none) ∧
    (run {} ops).issued.Nodup ∧
    (∀ before op after id, ops = before ++ op :: after →
      ((run {} before).arena.perform op).1 = some id →
      ((run {} ops).arena.contains id = true ↔ .remove id ∉ after) ∧
      (.remove id ∈ after → (run {} ops).arena.Gone id)) ∧
    (run {} ops).arena.count + (run {} ops).removed.length = 1 + (run {} ops).created.length := by
  have hacc := accounted_run accounted_initial hproper htame
  refine ⟨hacc.sound.root, hacc.sound.nodup, fun i => ⟨hacc.sound.vacant i, ?_⟩,
    hacc.issued_nodup, ?_, hacc.count⟩
  · rintro ⟨p, hp, hvacant⟩
    exact hacc.tight i p hp hvacant
  · rintro before op after id rfl hmade
    exact live_until_removed hproper htame hmade

/-- Two tables that are made in one place, the first of them removed before. -/
def successors : List Operation :=
  [.newChild "a" .root false, .write (.setAlways ⟨1, 0⟩ "x" (.int 1)), .remove ⟨1, 0⟩,
    .newChild "b" .root false]

theorem handle_live_until_removed_of_successors :
    Proper {} successors ∧ (run {} successors).Tame ∧
      (run {} successors).arena.contains ⟨1, 1⟩ = true ∧
      (run {} successors).arena.Gone ⟨1, 0⟩ ∧ (run {} successors).arena.count = 2 := by
  have hproper : Proper {} successors := by decide
  have htame : (run {} successors).Tame := tame_of_length (by decide)
  obtain ⟨-, -, -, -, hhandles, hcount⟩ := handle_live_until_removed hproper htame
  refine ⟨hproper, htame, ?_, ?_, ?_⟩
  · refine (hhandles (successors.take 3) _ [] ⟨1, 1⟩ rfl (by decide)).1.2 ?_
    exact List.not_mem_nil
  · refine (hhandles [] _ _ ⟨1, 0⟩ rfl (by decide)).2 ?_
    exact List.mem_cons_of_mem _ List.mem_cons_self
  · have hcreated : (run {} successors).created.length = 2 := by decide
    have hremoved : (run {} successors).removed.length = 1 := by decide
    omega

end History

end Arena

end ScriptMachine
