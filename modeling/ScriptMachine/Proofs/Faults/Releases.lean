import ScriptMachine.Proofs.Frames.Recovery

/-!
# Loops that are given up

A fault may pass through loops. Those that it gives up are ended one by one, and what they walked is
released; no other container changes.

* `Loop.walksMap`, `Loop.walksArray`: which container a loop holds frozen.
* `Machine.Ends`: loops have ended, and each has released what it walked.
* `IsReleasing.catchAt`: catching a fault ends loops, and changes no container otherwise.
-/

namespace ScriptMachine

/-- Whether a loop walks a map. -/
def Loop.walksMap (l : Loop) (r : Ref .map) : Bool :=
  match l.walked with
  | .map q _ => q == r
  | _ => false

/-- Whether a loop walks an array. -/
def Loop.walksArray (l : Loop) (r : Ref .array) : Bool :=
  match l.walked with
  | .array q => q == r
  | _ => false

/-- A map after as many loops over it have ended. -/
def MapObject.released (m : MapObject) (count : Nat) : MapObject :=
  { m with freezes := m.freezes - count }

/-- An array after as many loops over it have ended. -/
def ArrayObject.released (a : ArrayObject) (count : Nat) : ArrayObject :=
  { a with freezes := a.freezes - count }

theorem MapObject.released_released (m : MapObject) (j k : Nat) :
    (m.released j).released k = m.released (j + k) := by
  simp only [released, Nat.sub_sub]

theorem ArrayObject.released_released (a : ArrayObject) (j k : Nat) :
    (a.released j).released k = a.released (j + k) := by
  simp only [released, Nat.sub_sub]

namespace Heap

theorem map_putMap (h : Heap) (r q : Ref .map) :
    ((Heap.putMap r ((h.map r).freeze false)).run h).2.map q
      = (h.map q).released (if r == q then 1 else 0) := by
  show ((h.maps.setIfInBounds r.id ((h.map r).freeze false))[q.id]?).getD _ = _
  rw [Array.getElem?_setIfInBounds]
  by_cases hr : r = q
  · subst hr
    rw [if_pos rfl, if_pos (beq_self_eq_true r)]
    split
    · rfl
    · rename_i hlt
      rw [map, Array.getElem?_eq_none (by omega)]
      rfl
  · have hid : r.id ≠ q.id := fun h => hr (by cases r; cases q; cases h; rfl)
    rw [if_neg hid, if_neg (by simpa using hr)]
    rfl

theorem array_putArray (h : Heap) (r q : Ref .array) :
    ((Heap.putArray r ((h.array r).freeze false)).run h).2.array q
      = (h.array q).released (if r == q then 1 else 0) := by
  show ((h.arrays.setIfInBounds r.id ((h.array r).freeze false))[q.id]?).getD _ = _
  rw [Array.getElem?_setIfInBounds]
  by_cases hr : r = q
  · subst hr
    rw [if_pos rfl, if_pos (beq_self_eq_true r)]
    split
    · rfl
    · rename_i hlt
      rw [array, Array.getElem?_eq_none (by omega)]
      rfl
  · have hid : r.id ≠ q.id := fun h => hr (by cases r; cases q; cases h; rfl)
    rw [if_neg hid, if_neg (by simpa using hr)]
    rfl

end Heap

namespace Machine

/-- The innermost loops have ended, and what each of them walked is released; other containers are
as before. -/
structure Ends (ended : List Loop) (m m' : Machine) : Prop where
  loops_eq : m.context.loops = ended ++ m'.context.loops
  maps_eq : ∀ r, m'.world.heap.map r
    = (m.world.heap.map r).released (ended.countP (·.walksMap r))
  arrays_eq : ∀ r, m'.world.heap.array r
    = (m.world.heap.array r).released (ended.countP (·.walksArray r))

variable {m m' m'' : Machine}

/-- Neither loops nor containers have changed. -/
theorem Ends.ofSame (hloops : m'.context.loops = m.context.loops)
    (hmaps : m'.world.heap.maps = m.world.heap.maps)
    (harrays : m'.world.heap.arrays = m.world.heap.arrays) : Ends [] m m' where
  loops_eq := hloops.symm
  maps_eq r := by
    rw [Heap.map, hmaps]
    rfl
  arrays_eq r := by
    rw [Heap.array, harrays]
    rfl

theorem Ends.trans {ended ended' : List Loop} (h : Ends ended m m') (h' : Ends ended' m' m'') :
    Ends (ended ++ ended') m m'' where
  loops_eq := by rw [h.loops_eq, h'.loops_eq, List.append_assoc]
  maps_eq r := by rw [h'.maps_eq, h.maps_eq, MapObject.released_released, List.countP_append]
  arrays_eq r := by
    rw [h'.arrays_eq, h.arrays_eq, ArrayObject.released_released, List.countP_append]

/-- Some loops have ended. -/
def EndsLoops (m m' : Machine) : Prop := ∃ ended, Ends ended m m'

instance : Std.Refl EndsLoops := ⟨fun _ => ⟨[], .ofSame rfl rfl rfl⟩⟩

instance : Trans EndsLoops EndsLoops EndsLoops where
  trans := fun ⟨_, h⟩ ⟨_, h'⟩ => ⟨_, h.trans h'⟩

end Machine

namespace Exec

open Machine

variable {α β : Type}

/-- An action that ends loops, and changes no container otherwise. -/
abbrev IsReleasing (act : Exec α) : Prop := Keeps EndsLoops act

/-- Ending the innermost loop. -/
theorem release_ends (l : Loop) (rest : List Loop) {m : Machine}
    (hloops : m.context.loops = l :: rest) :
    ∃ m', outcome (release l) { m with context := { m.context with loops := rest } }
      = (.ok (), m') ∧
      m'.context.loops = rest ∧ Ends [l] m m' := by
  obtain ⟨index, value, walked, position⟩ := l
  cases walked with
  | runes items => exact ⟨_, rfl, rfl, hloops, fun _ => rfl, fun _ => rfl⟩
  | map q keys =>
    refine ⟨_, rfl, rfl, hloops, fun r => ?_, fun _ => rfl⟩
    rw [List.countP_singleton]
    exact Heap.map_putMap m.world.heap q r
  | array q =>
    refine ⟨_, rfl, rfl, hloops, fun _ => rfl, fun r => ?_⟩
    rw [List.countP_singleton]
    exact Heap.array_putArray m.world.heap q r
  | channel q => exact ⟨_, rfl, rfl, hloops, fun _ => rfl, fun _ => rfl⟩

/-- **Ending loops** takes the innermost ones away. -/
theorem endLoops_ends (count : Nat) (m : Machine) :
    Ends (m.context.loops.take count) m (outcome (endLoops count) m).2 := by
  induction count generalizing m with
  | zero => exact .ofSame rfl rfl rfl
  | succ count ih =>
    rw [endLoops, outcome_bind_ok (outcome_context m)]
    cases hloops : m.context.loops with
    | nil => exact .ofSame rfl rfl rfl
    | cons l rest =>
      obtain ⟨m', hout, hrest, hends⟩ := release_ends l rest hloops
      dsimp only
      rw [outcome_bind_ok (outcome_modifyContext _ m), outcome_bind_ok hout]
      have hafter := ih m'
      rw [hrest] at hafter
      exact hends.trans hafter

namespace IsReleasing

theorem pure (a : α) : IsReleasing (Pure.pure a) := Keeps.pure a

theorem bind {act : Exec α} {next : α → Exec β} (hact : IsReleasing act)
    (hnext : ∀ a, IsReleasing (next a)) : IsReleasing (act >>= next) := Keeps.bind hact hnext

/-- Computations on the world that leave the containers alone. -/
theorem onWorld {act : WorldM α} (hmaps : ∀ w, (act.run w).2.heap.maps = w.heap.maps)
    (harrays : ∀ w, (act.run w).2.heap.arrays = w.heap.arrays) :
    IsReleasing (Exec.onWorld act) :=
  fun m => ⟨[], .ofSame rfl (hmaps m.world) (harrays m.world)⟩

/-- Changes of the context that leave the loops alone. -/
theorem modifyContext {f : Context → Context} (hloops : ∀ c, (f c).loops = c.loops) :
    IsReleasing (Exec.modifyContext f) :=
  fun m => ⟨[], .ofSame (hloops m.context) rfl rfl⟩

theorem note (c : Category) (message : Unit → String) : IsReleasing (Exec.note c message) :=
  onWorld (fun _ => rfl) fun _ => rfl

theorem noteThread (c : Category) (message : Unit → String) :
    IsReleasing (Exec.noteThread c message) :=
  bind Keeps.get fun _ => Keeps.ite (note c _) (pure ())

theorem observe (x : Happening) : IsReleasing (Exec.observe x) := by
  intro m
  obtain ⟨j, o, hout⟩ := outcome_observe x m
  rw [hout]
  exact ⟨[], .ofSame rfl rfl rfl⟩

theorem storeIn (table : TableId) (name : String) (v : Value) :
    IsReleasing (Exec.storeIn table name v) :=
  bind Keeps.scopes fun _ => bind (Keeps.lift _) fun _ => fun _ => ⟨[], .ofSame rfl rfl rfl⟩

theorem endLoopsTo (depth : Nat) : IsReleasing (Exec.endLoopsTo depth) :=
  bind Keeps.context fun _ m => ⟨_, endLoops_ends _ m⟩

theorem dropScopesTo (target : TableId) : IsReleasing (Exec.dropScopesTo target) := by
  intro m
  obtain ⟨j, hout⟩ := outcome_dropScopesTo target m
  rw [hout]
  exact ⟨[], .ofSame rfl rfl rfl⟩

theorem publishVariable (scope : String) (package : Ref .package) (name : String) (v : Value) :
    IsReleasing (Exec.publishVariable scope package name v) := by
  refine bind (note _ _) fun _ => bind Keeps.heap fun h => ?_
  dsimp only
  have hput : IsReleasing (do
      Exec.onHeap (Heap.putPackage package (((← Exec.heap).package package).set name v))) :=
    bind Keeps.heap fun _ => onWorld (fun _ => rfl) fun _ => rfl
  split
  · exact bind (storeIn _ name v) fun _ => hput
  · exact hput

theorem publishPackages (stop : TableId) : IsReleasing (Exec.publishPackages stop) := by
  refine bind Keeps.scopes fun a => bind Keeps.context fun c => ?_
  dsimp only
  refine bind (Keeps.forIn _ _ _ fun table _ => Keeps.ite ?_ (pure _)) fun _ => pure _
  refine bind (bind Keeps.scopes fun b => ?_) fun found => ?_
  · dsimp only
    split
    · exact pure _
    · exact pure _
  · split
    · refine bind Keeps.scopes fun b => bind (Keeps.forIn _ _ _ fun p _ => ?_) fun _ => pure _
      exact Keeps.ite (bind (publishVariable _ _ _ _) fun _ => pure _) (pure _)
    · exact pure _

theorem takeFrame : IsReleasing Exec.takeFrame := by
  refine bind Keeps.context fun c => Keeps.ite (Keeps.fail _) ?_
  dsimp only
  refine bind (modifyContext fun _ => rfl) fun _ => ?_
  split
  · exact pure _
  · exact Keeps.fail _

theorem restoreFrame : IsReleasing Exec.restoreFrame := by
  rw [restoreFrame_eq]
  refine bind takeFrame fun f => bind (publishPackages _) fun _ => bind (dropScopesTo _) fun _ =>
    bind (endLoopsTo _) fun _ => ?_
  refine bind (modifyContext fun _ => rfl) fun _ => bind (storeIn _ _ _) fun _ => ?_
  refine bind (modifyContext fun _ => rfl) fun _ => bind Keeps.context fun _ => ?_
  exact bind (observe _) fun _ => bind Keeps.context fun _ => noteThread _ _

theorem unwindTo (fp fuel : Nat) : IsReleasing (Exec.unwindTo fp fuel) := by
  induction fuel with
  | zero => exact pure _
  | succ fuel ih =>
    refine bind Keeps.context fun c => Keeps.ite (bind ?_ fun _ => ih) (pure _)
    exact bind (modifyContext fun _ => rfl) fun _ => restoreFrame

theorem catchAt (handler : Handler) (outer : List Handler) (f : Fault) :
    IsReleasing (Exec.catchAt handler outer f) := by
  refine bind Keeps.context fun _ => bind (unwindTo _ _) fun _ => ?_
  refine bind (modifyContext fun _ => rfl) fun _ => bind (dropScopesTo _) fun _ => ?_
  refine bind (modifyContext fun _ => rfl) fun _ => bind (endLoopsTo _) fun _ => ?_
  refine bind (modifyContext fun _ => rfl) fun _ => bind Keeps.context fun _ => ?_
  exact bind (observe _) fun _ => bind Keeps.context fun _ => storeIn _ _ _

end IsReleasing

end Exec

end ScriptMachine
