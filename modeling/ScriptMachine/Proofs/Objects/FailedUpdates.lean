import ScriptMachine.Proofs.Objects.FiniteMaps
import ScriptMachine.Proofs.Sorting.Exchanging

/-!
# Updates that fail

What is left of an update of an array, a map or a struct that fails. A single write checks everything
before it changes anything. Several writes one after the other, by the method that appends all its
arguments or by a merge of maps, stop at the first that fails and keep those before it.

* `Heap.eq_of_setElement_error` and companions: a single write.
* `Exec.Spotless`: where an action fails, the world is as it was; `Spotless.storeElement`.
* `Heap.AppendsUpTo`, `Native.run_appendAll_error`: an array after some of the arguments.
* `Heap.run_mergeEntries_error`: a map after some of the entries.
* `Exec.Fails`, `Exec.objectsAfter`: a call that fails, and the objects after it.
* `Machine.SettlesFailures`, `Machine.failed_updates`: what is left of an update that fails.
-/

namespace ScriptMachine

/-! ### Single writes -/

namespace Heap

variable {h h' : Heap} {r : Ref .array} {v : Value} {e : Fault}

/-- A write of what was computed beforehand fails before it changes anything. -/
theorem eq_of_write_error {α β : Type} {result : Except Fault α} (write : α → StateM Heap β)
    (hwrite : (do return ← write (← result) : HeapM β).run.run h = (.error e, h')) : h' = h := by
  cases result with
  | error f =>
    cases hwrite
    rfl
  | ok a => cases hwrite

theorem eq_of_setElement_error {index : Nat}
    (hset : (setElement r index v).run.run h = (.error e, h')) : h' = h :=
  eq_of_write_error (putArray r) hset

theorem eq_of_appendElement_error (happend : (appendElement r v).run.run h = (.error e, h')) :
    h' = h := eq_of_write_error (putArray r) happend

theorem eq_of_setField_error {s : Ref .struct} {name : String}
    (hset : (setField s name v).run.run h = (.error e, h')) : h' = h :=
  eq_of_write_error (putStruct s) hset

theorem eq_of_deleteElement_error {index : Nat}
    (hdelete : (deleteElement r index).run.run h = (.error e, h')) : h' = h :=
  eq_of_write_error (fun p : Value × ArrayObject => do putArray r p.2; return p.1) hdelete

/-- Conversion to a number makes no objects. -/
theorem state_coerce_of_isNumeric {t : Ty} (ht : t.kind.isNumeric = true) (h : Heap) (v : Value) :
    ((coerce t v).run.run h).2 = h := by
  have hread : ∀ f : Heap → Except Fault Value,
      ((do let h ← get; liftM (f h) : HeapM Value).run.run h).2 = h := by
    intro f
    show ((liftM (f h) : HeapM Value).run.run h).2 = h
    cases f h <;> rfl
  cases t with
  | basic d k =>
    have hscalar : coerceToKind v.unwrapped k
        = (do let h ← get; liftM (coerceScalar h v.unwrapped k)) := by
      cases k <;> first | (cases ht; done) | rfl
    rw [coerce, coerceUnwrapped, hscalar]
    exact hread fun h => coerceScalar h v.unwrapped k
  | _ => cases ht

end Heap

/-- Two machines of one world. -/
def Machine.SameWorld (m m' : Machine) : Prop := m'.world = m.world

instance : Std.Refl Machine.SameWorld := ⟨fun _ => rfl⟩

instance : Trans Machine.SameWorld Machine.SameWorld Machine.SameWorld :=
  ⟨fun h h' => Eq.trans h' h⟩

namespace Exec

variable {α β : Type}

/-- Where an action fails, the world is as it was. -/
def Spotless (act : Exec α) : Prop :=
  ∀ m halt m', outcome act m = (.error halt, m') → m'.world = m.world

namespace Spotless

/-- An action may go on with one that fails without a trace, if it has left none itself. -/
theorem bind {act : Exec α} {next : α → Exec β} (hact : Keeps Machine.SameWorld act)
    (hnext : ∀ a, Spotless (next a)) : Spotless (act >>= next) := by
  intro m halt m' hfails
  have hm := hact m
  rw [outcome_bind] at hfails
  rcases hout : outcome act m with ⟨e | a, m₁⟩ <;> rw [hout] at hfails hm
  · cases hfails
    exact hm
  · exact (hnext a m₁ halt m' hfails).trans hm

theorem keeps {act : Exec α} (hact : Keeps Machine.SameWorld act) : Spotless act := by
  intro m halt m' hfails
  have hm := hact m
  rw [hfails] at hm
  exact hm

/-- What cannot fail may come last. -/
theorem push {act : Exec PUnit} (hact : Spotless act) (v : Value) :
    Spotless (do act; Exec.push v) := by
  intro m halt m' hfails
  rw [outcome_bind] at hfails
  rcases hout : outcome act m with ⟨e | a, m₁⟩ <;> rw [hout] at hfails
  · cases hfails
    exact hact m halt m' hout
  · cases hfails

theorem onObjects {act : HeapM α}
    (hact : ∀ h e h', act.run.run h = (.error e, h') → h' = h) : Spotless (Exec.onObjects act) := by
  intro m halt m' hfails
  rw [outcome_onObjects] at hfails
  rcases hrun : act.run.run m.world.heap with ⟨e | a, h'⟩ <;> rw [hrun] at hfails
  · cases hfails
    exact congrArg (fun h => { m.world with heap := h }) (hact _ e h' hrun)
  · cases hfails

end Spotless

section SameWorld

open Machine (SameWorld)

theorem keeps_pop : Keeps SameWorld pop := by
  refine .bind .get fun m => .ite (.fail _) ?_
  split
  · exact .bind (fun _ => rfl) fun _ => .pure _
  · exact .fail _

theorem keeps_popUnwrapped : Keeps SameWorld popUnwrapped := by
  refine .bind (.bind keeps_pop fun v => ?_) fun v => .pure _
  exact .ite (.fail _) (.pure _)

theorem keeps_checkElements (element : Ty) (values : List Value) :
    Keeps SameWorld (checkElements element values) := by
  refine .bind .get fun m => ?_
  split
  · split
    · exact .fail _
    · exact .pure _
  · exact .pure _

/-- Numbers are converted without a trace. -/
theorem keeps_conform (t : Ty) (v : Value) : Keeps SameWorld (conform t v) := by
  intro m
  rw [conform, outcome_bind_ok (outcome_context m)]
  split
  · rfl
  · rename_i hnumbers
    have ht : t.kind.isNumeric = true := by
      cases hkind : t.kind.isNumeric with
      | true => rfl
      | false => simp [hkind] at hnumbers
    rw [outcome_onObjects, Heap.state_coerce_of_isNumeric ht]
    rfl

/-- **A write of one part of a container** fails before it changes anything. -/
theorem Spotless.storeElement (container index value : Value) :
    Spotless (Exec.storeElement container index value) := by
  unfold Exec.storeElement
  split
  · refine .bind .heap fun h => .bind (keeps_conform _ _) fun v =>
      .bind (keeps_checkElements _ _) fun _ => .bind (.lift _) fun i => ?_
    exact .onObjects fun _ _ _ => Heap.eq_of_setElement_error
  · refine .bind .heap fun h => .bind (keeps_conform _ _) fun k => .bind (keeps_conform _ _) fun v => ?_
    exact .onObjects fun _ _ _ => Heap.eq_of_setEntry_error
  · refine .bind (.bind .heap fun h => .pure _) fun name => ?_
    exact .onObjects fun _ _ _ => Heap.eq_of_setField_error
  · exact .keeps (.fail _)

theorem Spotless.storeIndex : Spotless Exec.storeIndex :=
  .bind keeps_popUnwrapped fun i => .bind keeps_popUnwrapped fun c =>
    .bind keeps_popUnwrapped fun v => .push (.storeElement c i v) c

theorem Spotless.storeInto : Spotless Exec.storeInto :=
  .bind keeps_popUnwrapped fun k => .bind keeps_popUnwrapped fun v =>
    .bind keeps_popUnwrapped fun c => .push (.storeElement c k v) c

end SameWorld

end Exec

/-! ### Arguments appended one after the other -/

namespace Heap

variable {h : Heap} {r : Ref .array} {v : Value}

/-- Only an array of the heap refuses an element. -/
theorem lt_size_of_not_admits (hrefused : ¬ h.Admits r v) : r.id < h.arrays.size := by
  by_contra hge
  have hempty : h.array r = ⟨.interface, #[], 0⟩ := by
    rw [array, Array.getElem?_eq_none (Nat.le_of_not_lt hge)]
    rfl
  exact hrefused ⟨by rw [hempty]; rfl, by rw [hempty]; rfl⟩

theorem withValues_values (h : Heap) (r : Ref .array) : h.withValues r (h.array r).values = h := by
  show ({ h with arrays := h.arrays.setIfInBounds r.id (h.array r) } : Heap) = h
  have hsame : h.arrays.setIfInBounds r.id (h.array r) = h.arrays := by
    refine Array.ext (by simp) fun i hi hi' => ?_
    rw [Array.getElem_setIfInBounds]
    split
    · rename_i hri
      subst hri
      rw [array, Array.getElem?_eq_getElem hi', Option.getD_some]
    · rfl
  rw [hsame]

theorem run_appendElement (hadmits : h.Admits r v) :
    (appendElement r v).run.run h = (.ok (), h.withValues r ((h.array r).values.push v)) := by
  have happend : (h.array r).append v (h.typeOf v)
      = .ok { h.array r with values := (h.array r).values.push v } := by
    simp [ArrayObject.append, ArrayObject.checkThawed, hadmits.1, hadmits.2, bind, Except.bind]
  show (do putArray r (← (h.array r).append v (h.typeOf v)) : HeapM Unit).run.run h = _
  rw [happend]
  rfl

theorem run_appendElement_of_refused (hrefused : ¬ h.Admits r v) :
    ∃ f, (appendElement r v).run.run h = (.error f, h) := by
  obtain ⟨f, happend⟩ : ∃ f, (h.array r).append v (h.typeOf v) = .error f := by
    unfold ArrayObject.append ArrayObject.checkThawed
    cases hfrozen : (h.array r).isFrozen with
    | true => exact ⟨_, rfl⟩
    | false =>
      cases hcheck : (h.array r).checkElement v (h.typeOf v) with
      | ok u => exact absurd ⟨hfrozen, hcheck⟩ hrefused
      | error f => exact ⟨f, rfl⟩
  refine ⟨f, ?_⟩
  show (do putArray r (← (h.array r).append v (h.typeOf v)) : HeapM Unit).run.run h = _
  rw [happend]
  rfl

/-- Of values to append to an array, those before the first that it refuses were appended. -/
def AppendsUpTo (h h' : Heap) (r : Ref .array) (args : List Value) : Prop :=
  ∃ done v rest, args = done ++ v :: rest ∧ (∀ d ∈ done, h.Admits r d) ∧ ¬ h.Admits r v ∧
    h' = h.withValues r ((h.array r).values ++ done.toArray)

/-- Where the first value is refused, nothing was appended. -/
theorem AppendsUpTo.eq {h' : Heap} {args : List Value} (happends : h.AppendsUpTo h' r args)
    (hnone : (h.array r).isFrozen = true ∨ args.length ≤ 1) : h' = h := by
  obtain ⟨done, v, rest, rfl, hdone, -, rfl⟩ := happends
  cases done with
  | nil => simp [withValues_values]
  | cons d done =>
    rcases hnone with hfrozen | hlength
    · have hthawed := (hdone d List.mem_cons_self).1
      rw [hfrozen] at hthawed
      cases hthawed
    · simp at hlength

end Heap

/-- What a computation on objects comes to among the actions on the world. -/
theorem WorldAction.run_onObjects {α : Type} (act : HeapM α) (w : World) :
    (onObjects act).run.run w = ((act.run.run w.heap).1.mapError .fault,
      { w with heap := (act.run.run w.heap).2 }) := by
  show (orFail (act.run.run w.heap).1).run.run
    { w with heap := (act.run.run w.heap).2 } = _
  cases (act.run.run w.heap).1 <;> rfl

namespace Native

variable {w w' : World} {r : Ref .array} {args : List Value} {halt : Halt} {receiver : Option Value}
  {result : Except Halt Value}

theorem run_appendAll_cons (w : World) (r : Ref .array) (v : Value) (args : List Value) :
    (appendAll r (v :: args)).run.run w =
      match (Heap.appendElement r v).run.run w.heap with
      | (.ok _, h) => (appendAll r args).run.run { w with heap := h }
      | (.error f, h) => (.error (.fault f), { w with heap := h }) := by
  have hcons : appendAll r (v :: args)
      = (do WorldAction.onObjects (Heap.appendElement r v); appendAll r args) := by
    simp only [appendAll, List.forIn_cons, bind_assoc, pure_bind]
  rw [hcons, ExceptT.run_bind, StateT.run_bind, WorldAction.run_onObjects]
  rcases (Heap.appendElement r v).run.run w.heap with ⟨f | u, h⟩ <;> rfl

/-- **Arguments are appended up to the first that is refused**, and those before it stay. -/
theorem run_appendAll_error (hfails : (appendAll r args).run.run w = (.error halt, w')) :
    w.heap.AppendsUpTo w'.heap r args := by
  induction args generalizing w with
  | nil => cases hfails
  | cons v args ih =>
    rw [run_appendAll_cons] at hfails
    by_cases hadmits : w.heap.Admits r v
    · rw [Heap.run_appendElement hadmits] at hfails
      obtain ⟨done, v', rest, rfl, hdone, hrefused, hheap⟩ := ih hfails
      have hr : r.id < w.heap.arrays.size := by
        have hsize : (w.heap.withValues r ((w.heap.array r).values.push v)).arrays.size
            = w.heap.arrays.size := Array.size_setIfInBounds
        exact hsize ▸ Heap.lt_size_of_not_admits hrefused
      refine ⟨v :: done, v', rest, rfl, ?_, ?_, ?_⟩
      · refine List.forall_mem_cons.2 ⟨hadmits, fun d hd => ?_⟩
        exact (Heap.admits_withValues hr _ d).1 (hdone d hd)
      · exact fun hv => hrefused ((Heap.admits_withValues hr _ v').2 hv)
      · rw [hheap, Heap.values_withValues hr, Heap.withValues_withValues hr]
        simp
    · obtain ⟨f, hrun⟩ := Heap.run_appendElement_of_refused hadmits
      rw [hrun] at hfails
      cases hfails
      exact ⟨[], v, args, rfl, nofun, hadmits, by simp [Heap.withValues_values]⟩

/-- **What the method of an array leaves that appends its arguments.** It returns the array, or fails
up to where it has come. -/
theorem run_apply_arrayAppend (hrun : (apply .arrayAppend receiver args).run.run w = (result, w')) :
    (∃ r, result = .ok (.array r)) ∨ ∃ halt, result = .error halt ∧ (w'.heap = w.heap ∨
      ∃ r, receiver.map Value.unwrapped = some (.array r) ∧
        w.heap.AppendsUpTo w'.heap r args) := by
  cases receiver with
  | none =>
    cases hrun
    exact .inr ⟨_, rfl, .inl rfl⟩
  | some this =>
    change (applyContainer .arrayAppend this.unwrapped args).run.run w = _ at hrun
    unfold applyContainer at hrun
    split at hrun
    · rename_i hother _
      cases hother
    · rename_i r _ harray
      rw [ExceptT.run_bind, StateT.run_bind] at hrun
      rcases hall : (appendAll r args).run.run w with ⟨f | u, w₁⟩ <;> rw [hall] at hrun
      · cases hrun
        exact .inr ⟨_, rfl, .inr ⟨r, congrArg some harray, run_appendAll_error hall⟩⟩
      · cases hrun
        exact .inl ⟨r, rfl⟩
    iterate 3
      · rename_i hother _
        cases hother
    · cases hrun
      exact .inr ⟨_, rfl, .inl rfl⟩

/-- **A removal tells whether there was something to remove, or it fails** and nothing has changed. -/
theorem run_deleted (container key : Value)
    (hrun : (deleted container key).run.run w = (result, w')) :
    (∃ b, result = .ok (.bool b)) ∨ ∃ halt, result = .error halt ∧ w'.heap = w.heap := by
  unfold deleted at hrun
  split at hrun
  · rename_i r
    rw [ExceptT.run_bind, StateT.run_bind, WorldAction.run_onObjects] at hrun
    rcases hdelete : (Heap.deleteEntry r key).run.run w.heap with ⟨f | b, h⟩ <;>
      rw [hdelete] at hrun <;> cases hrun
    · exact .inr ⟨_, rfl, Heap.eq_of_deleteEntry_error hdelete⟩
    · exact .inl ⟨b, rfl⟩
  · rename_i r
    rcases hindex : key.toIndex with f | index <;> rw [hindex] at hrun
    · cases hrun
      exact .inr ⟨_, rfl, rfl⟩
    · change (WorldAction.onObjects (Heap.deleteElement r index) >>= fun _ =>
        pure (Value.bool true)).run.run w = _ at hrun
      rw [ExceptT.run_bind, StateT.run_bind, WorldAction.run_onObjects] at hrun
      rcases hdelete : (Heap.deleteElement r index).run.run w.heap with ⟨f | v, h⟩ <;>
        rw [hdelete] at hrun <;> cases hrun
      · exact .inr ⟨_, rfl, Heap.eq_of_deleteElement_error hdelete⟩
      · exact .inl ⟨true, rfl⟩
  · cases hrun
    exact .inr ⟨_, rfl, rfl⟩

theorem run_apply_delete (hrun : (apply .delete receiver args).run.run w = (result, w')) :
    (∃ b, result = .ok (.bool b)) ∨ ∃ halt, result = .error halt ∧ w'.heap = w.heap :=
  run_deleted (args[0]?.getD Value.null).unwrapped (args[1]?.getD Value.null) hrun

end Native

/-! ### Entries merged one after the other -/

namespace Heap

variable {h h' : Heap} {r source : Ref .map} {e : Fault}

theorem withMap_map (h : Heap) (r : Ref .map) : h.withMap r (h.map r) = h := by
  have hsame : h.maps.setIfInBounds r.id (h.map r) = h.maps := by
    refine Array.ext (by simp) fun i hi hi' => ?_
    rw [Array.getElem_setIfInBounds]
    split
    · rename_i hri
      subst hri
      rw [map, Array.getElem?_eq_getElem hi', Option.getD_some]
    · rfl
  rw [withMap, hsame]

theorem withMap_withMap (h : Heap) (r : Ref .map) (m m' : MapObject) :
    (h.withMap r m).withMap r m' = h.withMap r m' := by
  rw [withMap, withMap, withMap, Array.setIfInBounds_setIfInBounds]

/-- Whatever entries are set, the map has other entries and nothing else has changed. -/
theorem exists_withMap_setAll {entries : List (Value × Value)} {result : Except Fault Unit}
    (hall : (setAll r entries).run.run h = (result, h')) :
    ∃ es, h' = h.withMap r { h.map r with entries := es } := by
  induction entries generalizing h with
  | nil =>
    cases hall
    exact ⟨(h'.map r).entries, (h'.withMap_map r).symm⟩
  | cons p entries ih =>
    rw [run_setAll_cons] at hall
    rcases hset : (setEntry r p.1 p.2).run.run h with ⟨f | u, h₁⟩ <;> rw [hset] at hall
    · cases hall
      obtain rfl := eq_of_setEntry_error hset
      exact ⟨(h'.map r).entries, (h'.withMap_map r).symm⟩
    · obtain ⟨es, rfl⟩ := ih hall
      rw [run_setEntry] at hset
      split at hset
      · rename_i m hm
        obtain ⟨-, -, k, -, -, rfl⟩ := MapObject.set_eq_ok_iff.1 hm
        cases hset
        refine ⟨es, ?_⟩
        rw [withMap_withMap, map_withMap]
        split <;> rfl
      · cases hset

/-- **Entries are set up to the first that is refused**, and those before it stay. -/
theorem run_setAll_error {entries : List (Value × Value)}
    (hfails : (setAll r entries).run.run h = (.error e, h')) :
    ∃ done p rest, entries = done ++ p :: rest ∧ (setAll r done).run.run h = (.ok (), h') ∧
      (setEntry r p.1 p.2).run.run h' = (.error e, h') := by
  induction entries generalizing h with
  | nil => cases hfails
  | cons p entries ih =>
    rw [run_setAll_cons] at hfails
    rcases hset : (setEntry r p.1 p.2).run.run h with ⟨f | u, h₁⟩ <;> rw [hset] at hfails
    · cases hfails
      obtain rfl := eq_of_setEntry_error hset
      exact ⟨[], p, entries, rfl, rfl, hset⟩
    · obtain ⟨done, q, rest, rfl, hdone, hrefused⟩ := ih hfails
      refine ⟨p :: done, q, rest, rfl, ?_, hrefused⟩
      rw [run_setAll_cons, hset]
      exact hdone

/-- **A merge that fails** has set the entries of the other map up to the first that is refused. -/
theorem run_mergeEntries_error (hfails : (mergeEntries r source).run.run h = (.error e, h')) :
    ∃ done p rest, (h.map source).pairs = done ++ p :: rest ∧
      (setAll r done).run.run h = (.ok (), h') ∧ (setEntry r p.1 p.2).run.run h' = (.error e, h') ∧
      ∃ es, h' = h.withMap r { h.map r with entries := es } := by
  by_cases hself : r = source
  · subst hself
    rw [run_mergeEntries_self] at hfails
    cases hfails
  · rw [run_mergeEntries hself] at hfails
    obtain ⟨done, p, rest, hpairs, hdone, hrefused⟩ := run_setAll_error hfails
    exact ⟨done, p, rest, hpairs, hdone, hrefused, exists_withMap_setAll hdone⟩

end Heap

/-! ### Instructions and calls -/

namespace Exec

/-- The objects after an action, whether it succeeds or not. -/
def objectsAfter {α : Type} (act : Exec α) (m : Machine) : Heap := (outcome act m).2.world.heap

/-- An update fails: a fault is raised, or it is pushed as the result of a library function. -/
def Fails (act : Exec Unit) (m : Machine) : Prop :=
  (∃ halt, (outcome act m).1 = .error halt) ∨
    ∃ f, (outcome act m).2.context.stack.back? = some (.value (.error f))

variable {m : Machine} {f : Native} {receiver : Option Value} {args : List Value}

/-- The fault of a library function changes no objects, whatever becomes of it. -/
theorem objectsAfter_settleLibraryFault (f : Native) (fault : Fault) (m : Machine) :
    objectsAfter (settleLibraryFault f fault) m = m.world.heap := by
  rw [objectsAfter, settleLibraryFault, outcome_bind_ok (outcome_context m)]
  split
  · rfl
  · rw [noteThread, bind_assoc, outcome_bind_ok (outcome_get m)]
    split <;> rfl

/-- **A library function that fails** leaves the objects as it has left them itself. -/
theorem objectsAfter_callNative (hsort : f ≠ .sortSlice)
    (hresult : ∀ v w, (f.apply receiver args).run.run m.world = (.ok v, w) → v.kind ≠ .error)
    (hfails : Fails (callNative f receiver args) m) :
    objectsAfter (callNative f receiver args) m = m.world.heap ∨
      ∃ halt w, (f.apply receiver args).run.run m.world = (.error halt, w) ∧
        objectsAfter (callNative f receiver args) m = w.heap := by
  rw [objectsAfter, callNative]
  rw [Fails, callNative] at hfails
  by_cases htakes : (!f.takes args.length) = true
  · rw [if_pos htakes]
    exact .inl rfl
  rw [if_neg htakes, if_neg hsort, outcome_bind_ok (outcome_onWorld _ m)] at hfails ⊢
  rcases hrun : (f.apply receiver args).run.run m.world with ⟨halt | v, w⟩
  · refine .inr ⟨halt, w, rfl, ?_⟩
    cases halt with
    | fault fault => exact objectsAfter_settleLibraryFault f fault _
    | blocked => rfl
  · -- What was pushed is the result, which is no fault.
    rw [hrun] at hfails
    rcases hfails with ⟨halt, hraised⟩ | ⟨fault, hpushed⟩
    · cases hraised
    · have htop : v = .error fault := by
        have hback : (m.context.stack.push (.value v)).back? = some (.value (.error fault)) := hpushed
        rw [Array.back?_push] at hback
        cases hback
        rfl
      exact absurd (congrArg Value.kind htop) (hresult v w hrun)

theorem objectsAfter_delete (hfails : Fails (callValue (.native .delete receiver) args) m) :
    objectsAfter (callValue (.native .delete receiver) args) m = m.world.heap := by
  have hresult : ∀ v w, (Native.delete.apply receiver args).run.run m.world = (.ok v, w) →
      v.kind ≠ .error := by
    intro v w hrun
    rcases Native.run_apply_delete hrun with ⟨b, hok⟩ | ⟨halt, herror, -⟩
    · cases hok
      nofun
    · cases herror
  rcases objectsAfter_callNative (by decide) hresult hfails with hsame | ⟨halt, w, hrun, hleft⟩
  · exact hsame
  · rcases Native.run_apply_delete hrun with ⟨b, hok⟩ | ⟨-, -, hsame⟩
    · cases hok
    · exact hleft.trans hsame

theorem objectsAfter_arrayAppend (hfails : Fails (callValue (.native .arrayAppend receiver) args) m) :
    objectsAfter (callValue (.native .arrayAppend receiver) args) m = m.world.heap ∨
      ∃ r, receiver.map Value.unwrapped = some (.array r) ∧ m.world.heap.AppendsUpTo
        (objectsAfter (callValue (.native .arrayAppend receiver) args) m) r args := by
  have hresult : ∀ v w, (Native.arrayAppend.apply receiver args).run.run m.world = (.ok v, w) →
      v.kind ≠ .error := by
    intro v w hrun
    rcases Native.run_apply_arrayAppend hrun with ⟨r, hok⟩ | ⟨halt, herror, -⟩
    · cases hok
      nofun
    · cases herror
  rcases objectsAfter_callNative (by decide) hresult hfails with hsame | ⟨halt, w, hrun, hleft⟩
  · exact .inl hsame
  · rw [callValue, hleft]
    rcases Native.run_apply_arrayAppend hrun with ⟨r, hok⟩ | ⟨-, -, hrest⟩
    · cases hok
    · exact hrest

end Exec

namespace Machine

/-- What is left of an update that fails: nothing of a write or a removal, and of several writes those
before the first that is refused. So it is nothing, where the very first is refused. -/
structure SettlesFailures (m : Machine) : Prop where
  storeIndex : ∀ (operand : Value) (halt : Halt) (m' : Machine),
    Exec.outcome (Exec.execute ⟨.storeIndex, operand⟩) m = (.error halt, m') → m'.world = m.world
  storeInto : ∀ (operand : Value) (halt : Halt) (m' : Machine),
    Exec.outcome (Exec.execute ⟨.storeInto, operand⟩) m = (.error halt, m') → m'.world = m.world
  delete : ∀ (receiver : Option Value) (args : List Value),
    Exec.Fails (Exec.callValue (.native .delete receiver) args) m →
    Exec.objectsAfter (Exec.callValue (.native .delete receiver) args) m = m.world.heap
  append : ∀ (receiver : Option Value) (args : List Value),
    Exec.Fails (Exec.callValue (.native .arrayAppend receiver) args) m →
    Exec.objectsAfter (Exec.callValue (.native .arrayAppend receiver) args) m = m.world.heap ∨
      ∃ r, receiver.map Value.unwrapped = some (.array r) ∧ m.world.heap.AppendsUpTo
        (Exec.objectsAfter (Exec.callValue (.native .arrayAppend receiver) args) m) r args
  appendNone : ∀ (this : Value) (r : Ref .array) (args : List Value), this.unwrapped = .array r →
    (m.world.heap.array r).isFrozen = true ∨ args.length ≤ 1 →
    Exec.Fails (Exec.callValue (.native .arrayAppend (some this)) args) m →
    Exec.objectsAfter (Exec.callValue (.native .arrayAppend (some this)) args) m = m.world.heap
  merge : ∀ (r source : Ref .map) (e : Fault) (h : Heap),
    (Heap.mergeEntries r source).run.run m.world.heap = (.error e, h) →
    ∃ done p rest, (m.world.heap.map source).pairs = done ++ p :: rest ∧
      (Heap.setAll r done).run.run m.world.heap = (.ok (), h) ∧
      (Heap.setEntry r p.1 p.2).run.run h = (.error e, h) ∧
      ∃ es, h = m.world.heap.withMap r { m.world.heap.map r with entries := es }

/-- **Updates that fail** leave the objects as they were, but for those that consist of several writes:
the method that appends all its arguments, and a merge of maps, keep what came before the first write
that was refused. -/
theorem failed_updates (m : Machine) : m.SettlesFailures where
  storeIndex _ := Exec.Spotless.storeIndex m
  storeInto _ := Exec.Spotless.storeInto m
  delete _ _ := Exec.objectsAfter_delete
  append _ _ := Exec.objectsAfter_arrayAppend
  appendNone this r args hthis hnone hfails := by
    rcases Exec.objectsAfter_arrayAppend hfails with hsame | ⟨q, hq, happends⟩
    · exact hsame
    · obtain rfl : r = q := by
        rw [Option.map_some, hthis] at hq
        cases hq
        rfl
      exact happends.eq hnone
  merge _ _ _ _ := Heap.run_mergeEntries_error

/-- A machine whose heap holds one array of integers. -/
def intKeeper : Machine :=
  { (default : Machine) with
    world.heap := ((Heap.newArray { element := .ofKind .int, values := #[.int 1] }).run {}).2 }

/-- **The first of two arguments stays appended**, although the call fails. -/
theorem failed_append_keeps_first :
    Exec.Fails (Exec.callValue (.native .arrayAppend (some (.array ⟨0⟩))) [.int 2, .string "x"])
        intKeeper ∧
      (intKeeper.world.heap.array ⟨0⟩).values.size = 1 ∧
      ((Exec.objectsAfter (Exec.callValue (.native .arrayAppend (some (.array ⟨0⟩)))
        [.int 2, .string "x"]) intKeeper).array ⟨0⟩).values.size = 2 := by
  refine ⟨.inl ?_, rfl, rfl⟩
  cases hraised : (Exec.outcome (Exec.callValue (.native .arrayAppend (some (.array ⟨0⟩)))
      [.int 2, .string "x"]) intKeeper).1 with
  | error halt => exact ⟨halt, rfl⟩
  | ok u =>
    have hnot : (Exec.outcome (Exec.callValue (.native .arrayAppend (some (.array ⟨0⟩)))
        [.int 2, .string "x"]) intKeeper).1.isOk = false := rfl
    rw [hraised] at hnot
    cases hnot

end Machine

end ScriptMachine
