import ScriptMachine.Machine.Step
import ScriptMachine.Proofs.Action.Operands

/-!
# Fields that are not exported

Four instructions reach the fields of a struct. Only one of them looks at the package of its type.

* `Machine.Hides`: a field that code outside the package of its type is not to see.
* `Machine.Accesses`: an instruction is about to reach a field by its name.
* `StructObject.set_of_admits`, `StructObject.set_of_not_admits`: when a present field is written.
* `Machine.hidden_field_access`: what each of the four instructions does to a hidden field.
-/

namespace ScriptMachine

/-! ### Writing a present field -/

namespace StructObject

variable {s : StructObject} {name : String} {v w : Value} {t : Ty}

/-- The flags of a struct let a present field have a value of type `t`. -/
def Admits (s : StructObject) (name : String) (w : Value) (t : Ty) : Prop :=
  s.readonly = false ∧ name.startsWith "_" = false ∧ (s.strong = true → s.suits name w t = true)

instance : Decidable (s.Admits name w t) := inferInstanceAs (Decidable (_ ∧ _))

theorem contains_of_get? (hfield : s.get? name = some v) :
    Assoc.contains name s.fields = true := by
  unfold Assoc.contains
  rw [show s.fields.lookup name = some v from hfield]
  rfl

theorem set_of_admits (hfield : s.get? name = some v) (h : s.Admits name w t) :
    s.set name w t = .ok (s.setAlways name w) := by
  obtain ⟨hreadonly, hname, hstrong⟩ := h
  have hpresent := contains_of_get? hfield
  cases hs : s.strong with
  | false => simp [set, setAlways, hreadonly, hname, hpresent, hs]
  | true => simp [set, setAlways, hreadonly, hname, hpresent, hs, hstrong hs]

theorem set_of_not_admits (hfield : s.get? name = some v) (h : ¬ s.Admits name w t) :
    ∃ f, s.set name w t = .error f := by
  have hpresent := contains_of_get? hfield
  cases hset : s.set name w t with
  | error f => exact ⟨f, rfl⟩
  | ok s' =>
    refine absurd ?_ h
    simp only [set, hpresent] at hset
    grind [Admits]

end StructObject

namespace Heap

variable {h : Heap} {r : Ref .struct} {name : String} {v w : Value}

/-- A struct that has a field is one of the heap. -/
theorem lt_of_field (hfield : (h.struct r).get? name = some v) : r.id < h.structs.size := by
  rcases Nat.lt_or_ge r.id h.structs.size with hlt | hge
  · exact hlt
  · unfold struct at hfield
    rw [Array.getElem?_eq_none hge] at hfield
    cases hfield

/-- The heap with another value of a field. -/
def withField (h : Heap) (r : Ref .struct) (name : String) (w : Value) : Heap :=
  { h with structs := h.structs.setIfInBounds r.id ((h.struct r).setAlways name w) }

/-- The field then reads as the value. -/
theorem get?_withField (hfield : (h.struct r).get? name = some v) (w : Value) :
    ((h.withField r name w).struct r).get? name = some w := by
  have hlt := lt_of_field hfield
  have hstruct : (h.withField r name w).struct r = (h.struct r).setAlways name w := by
    show (h.structs.setIfInBounds r.id ((h.struct r).setAlways name w))[r.id]?.getD _ = _
    rw [Array.getElem?_setIfInBounds_self_of_lt hlt]
    rfl
  rw [hstruct, StructObject.get?_setAlways_self]

end Heap

/-! ### Reaching a field -/

/-- How an instruction reaches a field. -/
inductive FieldAccess
  | member
  | read
  | write (w : Value)

namespace Machine

variable {m : Machine} {r : Ref .struct} {name : String} {v : Value} {base : Array Slot}
  {i : Instruction} {a : FieldAccess}

/-- A field that the running code is not to see: its name is not exported, and the type of the
struct was declared in another package. -/
structure Hides (m : Machine) (r : Ref .struct) (name : String) (v : Value) : Prop where
  field : (m.world.heap.struct r).get? name = some v
  declared : (m.world.heap.struct r).type.package?.getD "" ≠ ""
  elsewhere : (m.world.heap.struct r).type.package?.getD "" ≠ m.context.package
  unexported : isExported name = false

/-- The instruction reaches the field `name` of the struct `r`. Its operands, among them the struct
and the name, lie on top of `base`; any of them may be wrapped as a constant. -/
inductive Accesses (m : Machine) (r : Ref .struct) (name : String) (base : Array Slot) :
    Instruction → FieldAccess → Prop
  | member {operand c : Value} :
      operand.isNull = false → m.world.heap.display operand.unwrapped = name →
      c.unwrapped = .struct r → m.context.stack = base.push (.value c) →
      Accesses m r name base ⟨.member, operand⟩ .member
  | memberOnTop {operand c n : Value} :
      operand.isNull = true → n.isMarker = false → m.world.heap.display n = name →
      c.unwrapped = .struct r → m.context.stack = (base.push (.value c)).push (.value n) →
      Accesses m r name base ⟨.member, operand⟩ .member
  | loadIndex {operand c n : Value} :
      n.isMarker = false → m.world.heap.display n.unwrapped = name → c.unwrapped = .struct r →
      m.context.stack = (base.push (.value c)).push (.value n) →
      Accesses m r name base ⟨.loadIndex, operand⟩ .read
  | storeIndex {operand c n w : Value} :
      n.isMarker = false → m.world.heap.display n.unwrapped = name → c.unwrapped = .struct r →
      w.isMarker = false →
      m.context.stack = ((base.push (.value w)).push (.value c)).push (.value n) →
      Accesses m r name base ⟨.storeIndex, operand⟩ (.write w.unwrapped)
  | storeInto {operand c n w : Value} :
      n.isMarker = false → m.world.heap.display n.unwrapped = name → c.unwrapped = .struct r →
      w.isMarker = false →
      m.context.stack = ((base.push (.value c)).push (.value w)).push (.value n) →
      Accesses m r name base ⟨.storeInto, operand⟩ (.write w.unwrapped)

end Machine

namespace Exec

variable {m : Machine} {r : Ref .struct} {name : String} {v : Value} {base : Array Slot}

theorem fp_le_push (hfp : m.context.fp ≤ base.size) (s : Slot) :
    m.context.fp ≤ (base.push s).size := by
  rw [Array.size_push]
  omega

theorem outcome_popValue_of_push {u : Value} (hfp : m.context.fp ≤ base.size)
    (hu : u.isMarker = false) :
    outcome popValue (m.withStack (base.push (.value u))) = (.ok u, m.withStack base) := by
  have hpop := outcome_popValue_of_back? (m := m.withStack (base.push (.value u))) (v := u)
    (Nat.lt_of_le_of_lt hfp (by simp [Machine.withStack])) Array.back?_push hu
  rw [hpop]
  show (_, m.withStack (base.push (.value u)).pop) = _
  rw [Array.pop_push]

theorem outcome_popUnwrapped_of_push {u : Value} (hfp : m.context.fp ≤ base.size)
    (hu : u.isMarker = false) :
    outcome popUnwrapped (m.withStack (base.push (.value u)))
      = (.ok u.unwrapped, m.withStack base) := by
  rw [popUnwrapped, outcome_bind_ok (outcome_popValue_of_push hfp hu)]
  rfl

theorem isMarker_of_struct {c : Value} (h : c.unwrapped = .struct r) : c.isMarker = false := by
  cases c with
  | marker => cases h
  | _ => rfl

/-- The rule for members: a name that is not exported is refused outside the package. -/
theorem structMember_of_hides (h : m.Hides r name v) :
    structMember m.world.heap m.context.package (m.world.heap.struct r) name
      = .error (.about .symbolNotExported name) := by
  have hunexported : (!isExported name) = true := by rw [h.unexported]; rfl
  unfold structMember
  rw [h.field]
  exact if_pos ⟨h.declared, h.elsewhere, hunexported⟩

theorem outcome_memberOf_of_hides (h : m.Hides r name v) :
    outcome (memberOf (.struct r) name) m
      = (.error (.fault (.about .symbolNotExported name)), m) := by
  rw [memberOf, outcome_bind_ok (outcome_get m)]
  dsimp only
  rw [structMember_of_hides h, outcome_liftExcept]
  rfl

/-- Reading a field by its name does not ask for packages. -/
theorem outcome_elementAt_of_field {n : Value} (hname : m.world.heap.display n = name)
    (hfield : (m.world.heap.struct r).get? name = some v) :
    outcome (elementAt (.struct r) n) m = (.ok v, m) := by
  rw [elementAt, outcome_bind_ok (outcome_heap m)]
  dsimp only
  rw [hname, hfield]
  rfl

/-- What writing a field comes to is for the flags of the struct to decide. -/
theorem outcome_setField (r : Ref .struct) (name : String) (v : Value) (m : Machine) :
    outcome (onObjects (Heap.setField r name v)) m =
      match (m.world.heap.struct r).set name v (m.world.heap.typeOf v) with
      | .ok s => (.ok (), m.withHeap
          { m.world.heap with structs := m.world.heap.structs.setIfInBounds r.id s })
      | .error f => (.error (.fault f), m) := by
  have hset : (Heap.setField r name v).run.run m.world.heap =
      match (m.world.heap.struct r).set name v (m.world.heap.typeOf v) with
      | .ok s => (.ok (), { m.world.heap with
          structs := m.world.heap.structs.setIfInBounds r.id s })
      | .error f => (.error f, m.world.heap) := by
    show ((liftM ((m.world.heap.struct r).set name v (m.world.heap.typeOf v)) : HeapM _) >>=
      fun s => liftM (Heap.putStruct r s)).run.run m.world.heap = _
    cases (m.world.heap.struct r).set name v (m.world.heap.typeOf v) <;> rfl
  rw [outcome_onObjects, hset]
  cases (m.world.heap.struct r).set name v (m.world.heap.typeOf v) <;> rfl

/-- Neither does writing a field; the flags of the struct decide. -/
theorem outcome_storeElement_of_field {n w : Value} (hname : m.world.heap.display n = name) :
    outcome (storeElement (.struct r) n w) m =
      match (m.world.heap.struct r).set name w (m.world.heap.typeOf w) with
      | .ok s => (.ok (), m.withHeap
          { m.world.heap with structs := m.world.heap.structs.setIfInBounds r.id s })
      | .error f => (.error (.fault f), m) := by
  have hdisplay : outcome (display n) m = (.ok name, m) := by
    rw [← hname]
    rfl
  rw [storeElement, outcome_bind_ok hdisplay]
  exact outcome_setField r name w m

end Exec

namespace Machine

variable {m : Machine} {r : Ref .struct} {name : String} {v : Value} {base : Array Slot}
  {i : Instruction} {a : FieldAccess}

open Exec

/-- What an access to a hidden field comes to. A member is refused; a read gives the field's value;
a write is made whenever the flags of the struct allow it. -/
def Reaching (m : Machine) (r : Ref .struct) (name : String) (v : Value) (base : Array Slot) :
    FieldAccess → Except Halt Unit × Machine → Prop
  | .member, result =>
    result = (.error (.fault (.about .symbolNotExported name)), m.withStack base)
  | .read, result => result = (.ok (), m.withStack (base.push (.value v.unwrapped)))
  | .write w, result =>
    if (m.world.heap.struct r).Admits name w (m.world.heap.typeOf w) then
      result = (.ok (), (m.withHeap (m.world.heap.withField r name w)).withStack
        (base.push (.value (.struct r))))
    else ∃ f, result = (.error (.fault f), m.withStack base)

/-- Both instructions that write fields end in this way. -/
theorem reaching_write {n w : Value} (hm : m.Hides r name v)
    (hname : m.world.heap.display n = name) :
    m.Reaching r name v base (.write w) (outcome (do
      storeElement (.struct r) n w
      push (.struct r)) (m.withStack base)) := by
  have hstore := outcome_storeElement_of_field (m := m.withStack base) (r := r) (w := w) hname
  show if (m.world.heap.struct r).Admits name w (m.world.heap.typeOf w) then _ else _
  split
  · rename_i hadmits
    have hset := StructObject.set_of_admits hm.field hadmits
    rw [show (m.withStack base).world.heap = m.world.heap from rfl, hset] at hstore
    rw [outcome_bind_ok hstore]
    rfl
  · rename_i hadmits
    obtain ⟨f, hset⟩ := StructObject.set_of_not_admits hm.field hadmits
    rw [show (m.withStack base).world.heap = m.world.heap from rfl, hset] at hstore
    exact ⟨f, outcome_bind_error hstore⟩

/-- Taking the member, once the operand that names it is known. -/
theorem reaching_member {named c : Value} (hm : m.Hides r name v)
    (hname : m.world.heap.display named = name) (hc : c.unwrapped = .struct r)
    (hfp : m.context.fp ≤ base.size) :
    m.Reaching r name v base .member (outcome (do
      let name ← display named
      let container ← popUnwrapped
      push (← memberOf container name).unwrapped) (m.withStack (base.push (.value c)))) := by
  have hdisplay : outcome (display named) (m.withStack (base.push (.value c)))
      = (.ok name, m.withStack (base.push (.value c))) := by
    rw [← hname]
    rfl
  have hpop := outcome_popUnwrapped_of_push hfp (isMarker_of_struct hc)
  have hrefused := outcome_memberOf_of_hides (m := m.withStack base) (r := r)
    ⟨hm.field, hm.declared, hm.elsewhere, hm.unexported⟩
  show outcome _ _ = _
  rw [outcome_bind_ok hdisplay, outcome_bind_ok hpop, hc]
  exact outcome_bind_error hrefused

/-- **Only one instruction asks whether a field is exported.** For a field that is hidden from the
running code, taking a member is refused, without any effect but that its operands are gone; loading
by index gives the value of the field; and both instructions that store by name or index replace it
unless the struct is read-only, the name starts with an underscore, or the value does not suit the
declared type of a field that keeps it. -/
theorem hidden_field_access (hm : m.Hides r name v) (hfp : m.context.fp ≤ base.size)
    (h : m.Accesses r name base i a) :
    m.Reaching r name v base a (outcome (execute i) m) := by
  cases h with
  | @member operand c hnull hname hc hstack =>
    show m.Reaching r name v base .member
      (outcome (Exec.member operand) (m.withStack m.context.stack))
    rw [hstack]
    unfold Exec.member
    simp only [hnull, Bool.false_eq_true, if_false]
    rw [outcome_bind_ok (outcome_pure _ _)]
    exact reaching_member hm hname hc hfp
  | @memberOnTop operand c n hnull hn hname hc hstack =>
    show m.Reaching r name v base .member
      (outcome (Exec.member operand) (m.withStack m.context.stack))
    rw [hstack]
    unfold Exec.member
    simp only [hnull, if_true]
    rw [outcome_bind_ok (outcome_popValue_of_push (fp_le_push hfp _) hn)]
    exact reaching_member hm hname hc hfp
  | @loadIndex operand c n hn hname hc hstack =>
    have hread := outcome_elementAt_of_field (m := m.withStack base) hname hm.field
    show m.Reaching r name v base .read
      (outcome Exec.loadIndex (m.withStack m.context.stack))
    rw [hstack]
    unfold Exec.loadIndex
    rw [outcome_bind_ok (outcome_popUnwrapped_of_push (fp_le_push hfp _) hn),
      outcome_bind_ok (outcome_popUnwrapped_of_push hfp (isMarker_of_struct hc)), hc]
    exact outcome_bind_ok hread
  | @storeIndex operand c n w hn hname hc hw hstack =>
    show m.Reaching r name v base (.write w.unwrapped)
      (outcome Exec.storeIndex (m.withStack m.context.stack))
    rw [hstack]
    unfold Exec.storeIndex
    rw [outcome_bind_ok (outcome_popUnwrapped_of_push (fp_le_push (fp_le_push hfp _) _) hn),
      outcome_bind_ok (outcome_popUnwrapped_of_push (fp_le_push hfp _) (isMarker_of_struct hc)),
      outcome_bind_ok (outcome_popUnwrapped_of_push hfp hw), hc]
    exact reaching_write hm hname
  | @storeInto operand c n w hn hname hc hw hstack =>
    show m.Reaching r name v base (.write w.unwrapped)
      (outcome Exec.storeInto (m.withStack m.context.stack))
    rw [hstack]
    unfold Exec.storeInto
    rw [outcome_bind_ok (outcome_popUnwrapped_of_push (fp_le_push (fp_le_push hfp _) _) hn),
      outcome_bind_ok (outcome_popUnwrapped_of_push (fp_le_push hfp _) hw),
      outcome_bind_ok (outcome_popUnwrapped_of_push hfp (isMarker_of_struct hc)), hc]
    exact reaching_write hm hname

/-- Code outside all packages, with a value, a struct of a type from the package `p` and the name of
a field on its stack. -/
def outsider : Machine where
  world := { heap := { structs := #[{
    type := .user none "T" (some "p") (.struct none [("x", .ofKind .int)])
    fields := [("x", .int 1)] }] } }
  context := { (default : Context) with
    stack := #[.value (.int 5), .value (.struct ⟨0⟩), .value (.string "x")] }

theorem outsider_hides : outsider.Hides ⟨0⟩ "x" (.int 1) where
  field := rfl
  declared := by decide
  elsewhere := by decide
  unexported := by decide

/-- The field is not exported, and storing by index replaces it all the same. -/
theorem hidden_field_access_of_outsider :
    outsider.Hides ⟨0⟩ "x" (.int 1) ∧ outsider.context.fp ≤ (#[] : Array Slot).size ∧
      outsider.Accesses ⟨0⟩ "x" #[] ⟨.storeIndex, .null⟩ (.write (.int 5)) ∧
      ((outcome (execute ⟨.storeIndex, .null⟩) outsider).2.world.heap.struct ⟨0⟩).get? "x"
        = some (.int 5) := by
  have haccess : outsider.Accesses ⟨0⟩ "x" #[] ⟨.storeIndex, .null⟩ (.write (.int 5)) :=
    .storeIndex (c := .struct ⟨0⟩) (n := .string "x") (w := .int 5) rfl (by rfl) rfl rfl rfl
  have hadmits : (outsider.world.heap.struct ⟨0⟩).Admits "x" (.int 5)
      (outsider.world.heap.typeOf (.int 5)) := by decide +kernel
  refine ⟨outsider_hides, Nat.le_refl _, haccess, ?_⟩
  have hreach := hidden_field_access outsider_hides (Nat.le_refl _) haccess
  rw [(if_pos hadmits).mp hreach]
  exact Heap.get?_withField outsider_hides.field _

end Machine

end ScriptMachine
