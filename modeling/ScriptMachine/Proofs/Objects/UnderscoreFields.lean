import ScriptMachine.Proofs.Objects.PlainKeys
import ScriptMachine.Proofs.Objects.StructHistories
import ScriptMachine.Proofs.Peephole.Structs

/-!
# Fields that are written once

A field whose name starts with an underscore takes no write once it is there. How it comes to be
there is what matters. A struct of a type has the fields that the type declares from the beginning,
with zero values, so a program never gets to write them, not even where it builds the struct. Any
other field is written once.

* `Machine.FieldWrites`: a history of a struct, with the attempts of the program to write fields.
* `Machine.NeverWritten`, `Machine.WrittenOnce`: what may come of them; `neverWritten_of_field` and
  `writtenOnce_of_lets` say which it is.
* `Machine.Builds`: a literal or a call of a type builds a struct; `exists_builds_literal`,
  `exists_builds_construct`.
* `Machine.OnceLaws`, `Machine.once_laws`: which fields are written once.
-/

namespace ScriptMachine

/-! ### One attempt -/

theorem Assoc.lookup_eq_none_iff {κ ν : Type} [BEq κ] [LawfulBEq κ] {k : κ} {l : List (κ × ν)} :
    l.lookup k = none ↔ k ∉ l.map (·.1) := by
  rw [← contains_iff_mem, contains, Option.not_isSome_iff_eq_none]

namespace StructObject

variable {s s' : StructObject} {name other : String} {u v : Value} {t : Ty}

/-- The name starts with one underscore. -/
structure IsOnce (name : String) : Prop where
  guarded : name.startsWith "_" = true
  visible : name.startsWith "__" = false

/-- A field that is there takes no write. -/
theorem set_of_once (hname : IsOnce name) (hfield : s.get? name = some u) (v : Value) (t : Ty) :
    s.set name v t = .error (.about .readOnly name) := by
  have hpresent := contains_of_get? hfield
  unfold set
  dsimp only
  rw [hname.guarded, hpresent]
  split <;> rfl

/-- The struct takes a field that is not there: nothing of this type is declared for it. -/
structure Lets (s : StructObject) (name : String) : Prop where
  absent : s.get? name = none
  readonly : s.readonly = false
  static : s.static = false
  undeclared : s.type.field? name = none

theorem Lets.takes (h : s.Lets name) (v : Value) (t : Ty) : s.Takes name v t where
  writable := h.readonly
  once _ := by
    unfold Assoc.contains
    rw [show s.fields.lookup name = none from h.absent]
    rfl
  present hstatic := by
    rw [h.static] at hstatic
    cases hstatic
  suited _ := by rw [suits, h.undeclared]

/-- The same fields of the same type, under flags that are no stricter. -/
structure Eases (s s' : StructObject) : Prop where
  fields : s'.fields = s.fields
  type : s'.type = s.type
  readonly : s'.readonly = true → s.readonly = true
  static : s'.static = true → s.static = true

namespace Eases

theorem refl (s : StructObject) : s.Eases s := ⟨rfl, rfl, id, id⟩

theorem get?_eq (h : s.Eases s') (name : String) : s'.get? name = s.get? name := by
  rw [get?, h.fields, get?]

theorem lets (h : s.Eases s') (hlets : s.Lets name) : s'.Lets name where
  absent := (h.get?_eq name).trans hlets.absent
  readonly := by
    by_contra hreadonly
    have hbefore := h.readonly (Bool.eq_true_of_not_eq_false hreadonly)
    rw [hlets.readonly] at hbefore
    cases hbefore
  static := by
    by_contra hstatic
    have hbefore := h.static (Bool.eq_true_of_not_eq_false hstatic)
    rw [hlets.static] at hbefore
    cases hbefore
  undeclared := by rw [h.type, hlets.undeclared]

end Eases

/-- Another field changes nothing for this one. -/
theorem Lets.setAlways (h : s.Lets name) (hne : name ≠ other) (v : Value) :
    (s.setAlways other v).Lets name :=
  ⟨(get?_setAlways_ne hne v).trans h.absent, h.readonly, h.static, h.undeclared⟩

end StructObject

/-! ### Histories of attempts -/

/-- An attempt of a program to write a field, and what came of it. -/
structure FieldWrite where
  name : String
  value : Value
  result : Except Halt Unit

namespace FieldWrite

variable {a b : FieldWrite} {tries : List FieldWrite} {name : String}

/-- The write was refused because the field is there. -/
def IsLate (a : FieldWrite) : Prop := a.result = .error (.fault (.about .readOnly a.name))

/-- The attempts to write one field. -/
def of (name : String) (tries : List FieldWrite) : List FieldWrite :=
  tries.filter fun a => a.name == name

theorem of_cons_self (a : FieldWrite) (tries : List FieldWrite) :
    of a.name (a :: tries) = a :: of a.name tries := by
  rw [of, List.filter_cons, if_pos (beq_self_eq_true _), of]

theorem of_cons_ne (hne : a.name ≠ name) : of name (a :: tries) = of name tries := by
  rw [of, List.filter_cons, if_neg (fun heq => hne (eq_of_beq heq)), of]

theorem mem_of_iff : b ∈ of name tries ↔ b ∈ tries ∧ b.name = name := by
  rw [of, List.mem_filter, beq_iff_eq]

end FieldWrite

namespace Machine

open Exec

variable {m m' n : Machine} {r : Ref .struct} {name : String} {u v : Value} {t : Ty}
  {tries later : List FieldWrite} {fields given : List (String × Value)}

/-- A history of the struct `r`: the attempts to write fields of it, whatever came of them, with
anything in between that leaves the struct alone, except that it may drop flags. -/
inductive FieldWrites (r : Ref .struct) : Machine → List FieldWrite → Machine → Prop
  | done (m : Machine) : FieldWrites r m [] m
  | write {m m' : Machine} {later : List FieldWrite} (name : String) (v : Value)
      (hlater : FieldWrites r (outcome (onObjects (Heap.setField r name v)) m).2 later m') :
      FieldWrites r m (⟨name, v, (outcome (onObjects (Heap.setField r name v)) m).1⟩ :: later) m'
  | elsewhere {m n m' : Machine} {later : List FieldWrite}
      (hkeeps : m.world.heap.RetainsTypes n.world.heap)
      (heases : (m.world.heap.struct r).Eases (n.world.heap.struct r))
      (hlater : FieldWrites r n later m') : FieldWrites r m later m'

/-- All attempts come too late, and the field keeps the value that it has. -/
structure NeverWritten (m : Machine) (r : Ref .struct) (name : String) : Prop where
  there : (m.world.heap.struct r).get? name ≠ none
  late : ∀ tries m', FieldWrites r m tries m' → ∀ a ∈ tries, a.name = name → a.IsLate
  kept : ∀ tries m', FieldWrites r m tries m' →
    (m'.world.heap.struct r).get? name = (m.world.heap.struct r).get? name

/-- The first attempt succeeds, all others come too late, and the field keeps the first value. -/
def WrittenOnce (m : Machine) (r : Ref .struct) (name : String) : Prop :=
  ∀ tries m', FieldWrites r m tries m' → ∀ a later,
    FieldWrite.of name tries = a :: later →
      a.result = .ok () ∧ (∀ b ∈ later, b.IsLate) ∧
        (m'.world.heap.struct r).get? name = some a.value

/-- **A field that is there** is not written. -/
theorem late_of_fieldWrites (hname : StructObject.IsOnce name) (hhistory : FieldWrites r m tries m')
    (hr : m.world.heap.Knows (.struct r)) (hfield : (m.world.heap.struct r).get? name = some u) :
    (∀ a ∈ tries, a.name = name → a.IsLate) ∧
      (m'.world.heap.struct r).get? name = some u := by
  induction hhistory with
  | done m => exact ⟨List.forall_mem_nil _, hfield⟩
  | @write m m' later other v _ ih =>
    have hrewrites := Heap.Rewrites.setField r r other v m.world.heap
    have hheap : (outcome (onObjects (Heap.setField r other v)) m).2.world.heap
        = ((Heap.setField r other v).run.run m.world.heap).2 := by
      rw [outcome_onObjects]
      rfl
    rw [← hheap] at hrewrites
    obtain ⟨hlate, hkept⟩ := ih ((hrewrites.knows_iff _).2 hr)
      (hrewrites.guards.once name u hname.guarded hfield)
    refine ⟨List.forall_mem_cons.2 ⟨?_, hlate⟩, hkept⟩
    rintro rfl
    show (outcome (onObjects (Heap.setField r other v)) m).1 = _
    rw [outcome_setField, StructObject.set_of_once hname hfield]
  | elsewhere hkeeps heases _ ih =>
    exact ih (hkeeps _ hr).1 ((heases.get?_eq name).trans hfield)

theorem neverWritten_of_field (hname : StructObject.IsOnce name)
    (hr : m.world.heap.Knows (.struct r)) (hfield : (m.world.heap.struct r).get? name = some u) :
    m.NeverWritten r name where
  there := by rw [hfield]; nofun
  late _ _ hhistory := (late_of_fieldWrites hname hhistory hr hfield).1
  kept _ _ hhistory := by rw [hfield, (late_of_fieldWrites hname hhistory hr hfield).2]

/-- A write that is let through. -/
theorem outcome_setField_of_takes
    (h : (m.world.heap.struct r).Takes name v (m.world.heap.typeOf v)) :
    outcome (onObjects (Heap.setField r name v)) m = (.ok (), m.withHeap
      (m.world.heap.withStruct r ((m.world.heap.struct r).setAlways name v))) := by
  rw [outcome_setField, StructObject.set_of_takes h]
  rfl

theorem struct_withStruct_self (hr : m.world.heap.Knows (.struct r)) (s : StructObject) :
    (m.world.heap.withStruct r s).struct r = s := by
  rw [Heap.struct_withStruct, if_pos ⟨rfl, hr⟩]

/-- **A field that is let in** is written once. -/
theorem writtenOnce_of_lets (hname : StructObject.IsOnce name)
    (hr : m.world.heap.Knows (.struct r)) (hlets : (m.world.heap.struct r).Lets name) :
    m.WrittenOnce r name := by
  intro tries m' hhistory a later hfirst
  induction hhistory with
  | done m => cases hfirst
  | @write m m' rest other v hrest ih =>
    by_cases hother : other = name
    · -- This is the first write of the field, and what follows comes too late.
      subst hother
      obtain ⟨rfl, rfl⟩ := List.cons.inj ((FieldWrite.of_cons_self _ rest).symm.trans hfirst)
      have hwritten := outcome_setField_of_takes (hlets.takes v (m.world.heap.typeOf v))
      rw [hwritten] at hrest
      obtain ⟨hlate, hkept⟩ := late_of_fieldWrites (u := v) hname hrest
        ((Heap.knows_withStruct _ _ _ _).2 hr) (by
          show ((m.world.heap.withStruct r _).struct r).get? other = _
          rw [struct_withStruct_self hr, StructObject.get?_setAlways_self])
      refine ⟨congrArg Prod.fst hwritten, fun b hb => ?_, hkept⟩
      obtain ⟨hmem, heq⟩ := FieldWrite.mem_of_iff.1 hb
      exact hlate b hmem heq
    · rw [FieldWrite.of_cons_ne hother] at hfirst
      refine ih ?_ ?_ hfirst
      · rw [outcome_setField]
        split
        · exact (Heap.knows_withStruct _ _ _ _).2 hr
        · exact hr
      · rw [outcome_setField]
        split
        · rename_i s hset
          obtain ⟨-, rfl⟩ := StructObject.set_eq_ok_iff.1 hset
          show ((m.world.heap.withStruct r _).struct r).Lets name
          rw [struct_withStruct_self hr]
          exact hlets.setAlways (Ne.symm hother) v
        · exact hlets
  | elsewhere hkeeps heases _ ih => exact ih (hkeeps _ hr).1 (heases.lets hlets) hfirst

/-- It is one or the other. -/
theorem NeverWritten.not_writtenOnce (h : m.NeverWritten r name) : ¬ m.WrittenOnce r name := by
  intro honce
  have hhistory : FieldWrites r m _ _ := .write name .null (.done _)
  have hlate := h.late _ _ hhistory _ List.mem_cons_self rfl
  have hsucceeds := (honce _ _ hhistory _ [] (FieldWrite.of_cons_self _ [])).1
  rw [FieldWrite.IsLate, hsucceeds] at hlate
  cases hlate

/-! ### Structs that are built -/

/-- The writes of fields one after the other, up to the first that is refused. -/
inductive InTurn : List (String × Value) → List FieldWrite → Except Halt Unit → Prop
  | done : InTurn [] [] (.ok ())
  | onward {fields : List (String × Value)} {later : List FieldWrite} {result : Except Halt Unit}
      (name : String) (v : Value) (hlater : InTurn fields later result) :
      InTurn ((name, v) :: fields) (⟨name, v, .ok ()⟩ :: later) result
  | halted (name : String) (v : Value) (fields : List (String × Value)) (e : Halt) :
      InTurn ((name, v) :: fields) [⟨name, v, .error e⟩] (.error e)

/-- All have succeeded if they did as a whole. -/
theorem InTurn.mem_of_ok {result : Except Halt Unit} (h : InTurn fields tries result)
    (hok : result = .ok ()) {p : String × Value} (hp : p ∈ fields) :
    (⟨p.1, p.2, .ok ()⟩ : FieldWrite) ∈ tries := by
  induction h with
  | done => cases hp
  | onward name v _ ih =>
    rcases List.mem_cons.1 hp with rfl | hp
    · exact List.mem_cons_self
    · exact List.mem_cons_of_mem _ (ih hok hp)
  | halted => cases hok

theorem setFields_cons (r : Ref .struct) (name : String) (v : Value)
    (fields : List (String × Value)) : setFields r ((name, v) :: fields) =
      onObjects (Heap.setField r name v) >>= fun _ => setFields r fields := by
  unfold setFields
  rw [List.forIn_cons, bind_assoc]
  simp only [bind_assoc, pure_bind]

/-- **Writing fields in turn** is a history of attempts. -/
theorem exists_fieldWrites_setFields (r : Ref .struct) (fields : List (String × Value))
    (m : Machine) : ∃ tries, FieldWrites r m tries (outcome (setFields r fields) m).2 ∧
      InTurn fields tries (outcome (setFields r fields) m).1 := by
  induction fields generalizing m with
  | nil => exact ⟨[], .done m, .done⟩
  | cons p fields ih =>
    obtain ⟨name, v⟩ := p
    have hfirst : ∀ {later m'}, _ → FieldWrites r m (_ :: later) m' := .write name v
    rw [setFields_cons]
    rcases hwrite : outcome (onObjects (Heap.setField r name v)) m with ⟨e | u, n⟩
    · rw [outcome_bind_error hwrite]
      rw [hwrite] at hfirst
      exact ⟨_, hfirst (.done n), .halted name v fields e⟩
    · rw [outcome_bind_ok hwrite]
      rw [hwrite] at hfirst
      obtain ⟨tries, hhistory, hturn⟩ := ih n
      exact ⟨_, hfirst hhistory, .onward name v hturn⟩

theorem FieldWrites.trans (hfirst : FieldWrites r m tries n) (hsecond : FieldWrites r n later m') :
    FieldWrites r m (tries ++ later) m' := by
  induction hfirst with
  | done => exact hsecond
  | write name v _ ih => exact .write name v (ih hsecond)
  | elsewhere hkeeps heases _ ih => exact .elsewhere hkeeps heases (ih hsecond)

/-- A struct `r` of type `t` is built on the machine `m`, and `made` is what comes of it. In the
machine `birth` the struct is new, with the zero values of its type. From there the fields `given`
are written in turn, and if none is refused the struct is pushed. -/
structure Builds (m : Machine) (made : Except Halt Unit × Machine) (t : Ty) (r : Ref .struct)
    (birth : Machine) (given : List (String × Value)) : Prop where
  fresh : ¬ m.world.heap.Knows (.struct r)
  known : birth.world.heap.Knows (.struct r)
  type : (birth.world.heap.struct r).type = t
  names : (birth.world.heap.struct r).names = t.fields.map (·.1)
  readonly : (birth.world.heap.struct r).readonly = false
  static : (birth.world.heap.struct r).static = !t.fields.isEmpty
  filled : ∃ tries, FieldWrites r birth tries made.2 ∧ InTurn given tries made.1
  pushed : made.1 = .ok () → made.2.context.stack = m.context.stack.push (.value (.struct r))

variable {made : Except Halt Unit × Machine} {birth : Machine}

/-- **A declared field** is there from the beginning. -/
theorem Builds.neverWritten (h : m.Builds made t r birth given) (hname : StructObject.IsOnce name)
    (hdeclared : t.field? name ≠ none) : birth.NeverWritten r name := by
  rw [Ty.field?, Ne, Assoc.lookup_eq_none_iff, ← h.names, StructObject.names,
    ← Assoc.lookup_eq_none_iff] at hdeclared
  obtain ⟨u, hu⟩ := Option.ne_none_iff_exists'.1 hdeclared
  exact neverWritten_of_field hname h.known hu

/-- **Which fields are written once** from the beginning. -/
theorem Builds.writtenOnce_iff (h : m.Builds made t r birth given)
    (hname : StructObject.IsOnce name) (hopen : t.field? name ≠ none ∨ t.fields = []) :
    birth.WrittenOnce r name ↔ t.field? name = none := by
  constructor
  · intro honce
    by_contra hdeclared
    exact (h.neverWritten hname hdeclared).not_writtenOnce honce
  · intro hundeclared
    have hfields : t.fields = [] := hopen.resolve_left (not_not_intro hundeclared)
    refine writtenOnce_of_lets hname h.known ⟨?_, h.readonly, ?_, ?_⟩
    · rw [StructObject.get?, Assoc.lookup_eq_none_iff, ← StructObject.names, h.names, hfields]
      exact List.not_mem_nil
    · rw [h.static, hfields]
      rfl
    · rw [h.type, hundeclared]

/-- A declared field that is given where the struct is built is refused, so none is built. -/
theorem Builds.exists_error (h : m.Builds made t r birth given) (hname : StructObject.IsOnce name)
    (hdeclared : t.field? name ≠ none) (hgiven : name ∈ given.map (·.1)) :
    ∃ e, made.1 = .error e := by
  obtain ⟨tries, hhistory, hturn⟩ := h.filled
  cases hmade : made.1 with
  | error e => exact ⟨e, rfl⟩
  | ok u =>
    obtain ⟨p, hp, rfl⟩ := List.mem_map.1 hgiven
    have hmem := hturn.mem_of_ok hmade hp
    have hlate := (h.neverWritten hname hdeclared).late _ _ hhistory _ hmem rfl
    cases hlate

/-- The struct is pushed with the fields that it has, and it may lose flags. -/
def Pushes (r : Ref .struct) (finish : Exec Unit) (n : Machine) : Prop :=
  ∃ n', outcome finish n = (.ok (), n') ∧ n.world.heap.RetainsTypes n'.world.heap ∧
    (n.world.heap.struct r).Eases (n'.world.heap.struct r) ∧
    n'.context.stack = n.context.stack.push (.value (.struct r))

theorem pushes_push (r : Ref .struct) (n : Machine) : Pushes r (push (.struct r)) n :=
  ⟨_, outcome_push _ _, .refl _, .refl _, rfl⟩

theorem context_setFields (r : Ref .struct) (fields : List (String × Value)) (m : Machine) :
    (outcome (setFields r fields) m).2.context = m.context := by
  induction fields generalizing m with
  | nil => rfl
  | cons p fields ih =>
    have hfirst : (outcome (onObjects (Heap.setField r p.1 p.2)) m).2.context = m.context := by
      rw [outcome_onObjects]
      rfl
    rw [setFields_cons]
    rcases hwrite : outcome (onObjects (Heap.setField r p.1 p.2)) m with ⟨e | u, n⟩
    · rw [outcome_bind_error hwrite, ← hfirst, hwrite]
    · rw [outcome_bind_ok hwrite, ih, ← hfirst, hwrite]

/-- **A new instance whose fields are written in turn** is a struct that is built. -/
theorem builds_of_outcome_eq (finish : Exec Unit) {h' : Heap}
    (hfresh : m.world.heap.structs.size ≤ r.id) (hknown : r.id < h'.structs.size)
    (htype : (h'.struct r).type = t) (hnames : (h'.struct r).names = t.fields.map (·.1))
    (hreadonly : (h'.struct r).readonly = false)
    (hstatic : (h'.struct r).static = !t.fields.isEmpty)
    (hfinish : ∀ n, (h'.struct r).Guards (n.world.heap.struct r) → Pushes r finish n)
    (hmade : made = outcome (setFields r given >>= fun _ => finish) (m.withHeap h')) :
    m.Builds made t r (m.withHeap h') given := by
  obtain ⟨tries, hhistory, hturn⟩ := exists_fieldWrites_setFields r given (m.withHeap h')
  have hguards := (rewrites_setFields (r := r) r given (m.withHeap h')).guards
  have hcontext := context_setFields r given (m.withHeap h')
  have hfilled :
      (∃ tries, FieldWrites r (m.withHeap h') tries made.2 ∧ InTurn given tries made.1) ∧
      (made.1 = .ok () → made.2.context.stack = m.context.stack.push (.value (.struct r))) := by
    rcases hset : outcome (setFields r given) (m.withHeap h') with ⟨e | u, n⟩
    · rw [hset] at hhistory hturn
      rw [hmade, outcome_bind_error hset]
      exact ⟨⟨tries, hhistory, hturn⟩, nofun⟩
    · rw [hset] at hhistory hturn hguards hcontext
      obtain ⟨n', hpush, hkeeps, heases, hstack⟩ := hfinish n hguards
      rw [hmade, outcome_bind_ok hset, hpush]
      refine ⟨⟨tries, ?_, hturn⟩, fun _ => ?_⟩
      · rw [← List.append_nil tries]
        exact hhistory.trans (.elsewhere hkeeps heases (.done n'))
      · rw [hstack, show n.context = m.context from hcontext]
  exact ⟨Nat.not_lt_of_le hfresh, hknown, htype, hnames, hreadonly, hstatic, hfilled.1, hfilled.2⟩

/-! ### Literals -/

/-- The names and values of a struct literal are on top of the stack. -/
structure HasLiteral (m : Machine) (operand : Value) (values : List Value) : Prop where
  ground : m.context.fp ≤ m.context.stack.size
  proper : ∀ v ∈ values, v.isMarker = false
  counted : ∃ n, operand.count? 0 = some n ∧ n * 2 = values.length

/-- What a literal gives, by names; of several values for a name it is the last. -/
def literalNames (m : Machine) (values : List Value) : List (String × Value) :=
  Peephole.namedFields m.world.heap.display (pairUp values)

/-- What a literal gives without its type and its flags. -/
def literalFields (m : Machine) (values : List Value) : List (String × Value) :=
  [typeField, staticField, readonlyField].foldl (fun fields name => Assoc.erase name fields)
    (m.literalNames values)

/-- The value of a flag of a literal. -/
def literalFlag? (m : Machine) (values : List Value) (flag : String) : Option Bool :=
  ((m.literalNames values).lookup flag).map m.world.heap.truthy

/-- The last value that is given for a name. -/
def lastGiven? (m : Machine) (values : List Value) (name : String) : Option Value :=
  ((pairUp values).reverse.find? fun p => m.world.heap.display p.1 == name).map (·.2.unwrapped)

theorem lookup_literalNames (m : Machine) (values : List Value) (name : String) :
    (m.literalNames values).lookup name = m.lastGiven? values name := by
  unfold literalNames lastGiven?
  induction pairUp values using List.reverseRecOn with
  | nil => rfl
  | append_singleton parts p ih =>
    rw [Peephole.namedFields, List.foldl_append, List.reverse_append]
    show (Assoc.insert (m.world.heap.display p.1) p.2.unwrapped
      (Peephole.namedFields m.world.heap.display parts)).lookup name
      = ((p :: parts.reverse).find? _).map _
    by_cases hname : m.world.heap.display p.1 = name
    · rw [List.find?_cons_of_pos (by simpa using hname), ← hname, Assoc.lookup_insert_self]
      rfl
    · rw [List.find?_cons_of_neg (by simpa using hname), Assoc.lookup_insert_ne (Ne.symm hname), ih]

/-- Neither the type nor the flags are meant by such a name. -/
theorem lookup_literalFields (hname : StructObject.IsOnce name) (m : Machine)
    (values : List Value) :
    (m.literalFields values).lookup name = (m.literalNames values).lookup name := by
  have hspecial : ∀ special : String, special.startsWith "__" = true → name ≠ special := by
    rintro special hspecial rfl
    rw [hname.visible] at hspecial
    cases hspecial
  unfold literalFields
  show (Assoc.erase readonlyField
    (Assoc.erase staticField (Assoc.erase typeField _))).lookup name = _
  rw [Assoc.lookup_erase_ne (hspecial readonlyField (by decide +kernel)),
    Assoc.lookup_erase_ne (hspecial staticField (by decide +kernel)),
    Assoc.lookup_erase_ne (hspecial typeField (by decide +kernel))]

/-- The flags are set, and the struct is pushed. -/
def finishLiteral (m : Machine) (values : List Value) (r : Ref .struct) : Exec Unit := do
  let s := (← heap).struct r
  let static := (m.literalFlag? values staticField).getD s.static
  let readonly := (m.literalFlag? values readonlyField).getD s.readonly
  onHeap (Heap.putStruct r { s with static, readonly })
  push (.struct r)

variable {operand : Value} {values : List Value}

theorem outcome_finishLiteral (m : Machine) (values : List Value) (r : Ref .struct) (n : Machine) :
    outcome (m.finishLiteral values r) n = (.ok (), (n.withHeap (n.world.heap.withStruct r
      { n.world.heap.struct r with
        static := (m.literalFlag? values staticField).getD (n.world.heap.struct r).static
        readonly :=
          (m.literalFlag? values readonlyField).getD (n.world.heap.struct r).readonly })).withStack
      (n.context.stack.push (.value (.struct r)))) := rfl

theorem outcome_literal (h : m.HasLiteral operand values) :
    outcome (execute ⟨.struct, operand⟩) (m.onto values) =
      outcome (Peephole.buildStruct (m.literalNames values) >>= m.finishLiteral values) m := by
  obtain ⟨n, hcount, hlen⟩ := h.counted
  exact Peephole.outcome_makeStruct_onto h.ground h.proper hcount hlen

/-- A flag is on if a literal puts it on or it was on before. -/
theorem eq_some_true_or {flag? : Option Bool} {before : Bool} (h : flag?.getD before = true) :
    flag? = some true ∨ before = true := by
  cases flag? with
  | none => exact .inr h
  | some b => exact .inl (congrArg some h)

/-- Which type a value stands for changes nothing. -/
theorem outcome_resolveType_snd (v : Value) (m : Machine) : (outcome (resolveType v) m).2 = m := by
  unfold resolveType
  split
  · rfl
  · rename_i name _
    show (outcome (lookup? name >>= _) m).2 = m
    rw [outcome_bind_ok (show outcome (lookup? name) m = (.ok _, m) from rfl)]
    split <;> rfl
  · rfl

/-- **A literal of a type** builds a struct of that type. -/
theorem exists_builds_literal {v : Value} (h : m.HasLiteral operand values)
    (htype : (m.literalNames values).lookup typeField = some v)
    (hresolves : (outcome (resolveType v) m).1 = .ok t) (hkind : t.base.kind = .struct)
    (hstatic : m.literalFlag? values staticField = some true → t.fields ≠ [])
    (hreadonly : m.literalFlag? values readonlyField ≠ some true) :
    ∃ r birth, m.Builds (outcome (execute ⟨.struct, operand⟩) (m.onto values)) t r birth
      (m.literalFields values) := by
  obtain ⟨r, h₁, hrun, hfresh, hlt, htyped, hfillable⟩ := Heap.run_instantiate t m.world.heap
  have hinstance : outcome (onHeap (Heap.instantiate t)) m = (.ok r, m.withHeap h₁) := by
    rw [outcome_onHeap, hrun]
  have hresolve : outcome (resolveType v) m = (.ok t, m) :=
    Prod.ext hresolves (outcome_resolveType_snd v m)
  generalize hstrong : m.context.staticTypes = strong
  have hread : (h₁.withStruct r { h₁.struct r with strong }).struct r
      = { h₁.struct r with strong } := by
    rw [Heap.struct_withStruct, if_pos ⟨rfl, hlt⟩]
  have hsize : (h₁.withStruct r { h₁.struct r with strong }).structs.size = h₁.structs.size :=
    Array.size_setIfInBounds
  refine ⟨r, m.withHeap (h₁.withStruct r { h₁.struct r with strong }),
    builds_of_outcome_eq (m.finishLiteral values r) hfresh (hsize ▸ hlt) ?_ ?_ ?_ ?_ ?_ ?_⟩
  · rw [hread, ← htyped]
  · rw [hread]
    exact hfillable.names_eq
  · rw [hread]
    exact hfillable.readonly_eq
  · rw [hread]
    exact hfillable.static_eq
  · -- The flags that the literal sets are no stricter than those of the instance.
    intro n hguards
    rw [hread] at hguards
    refine ⟨_, outcome_finishLiteral m values r n, fun u hu => ⟨?_, ?_⟩, ?_, rfl⟩
    · exact (Heap.knows_withStruct _ _ _ _).2 hu
    · refine Heap.typeOf_withStruct ?_ u
      rfl
    · show (n.world.heap.struct r).Eases ((n.world.heap.withStruct r _).struct r)
      rw [Heap.struct_withStruct]
      split
      · refine ⟨rfl, rfl, fun hset => ?_, fun hset => ?_⟩
        · exact (eq_some_true_or hset).resolve_left hreadonly
        · refine (eq_some_true_or hset).elim (fun hflag => ?_) id
          rw [hguards.static_eq]
          show (h₁.struct r).static = true
          rw [hfillable.static_eq, Bool.not_eq_true', List.isEmpty_eq_false_iff]
          exact hstatic hflag
      · exact .refl _
  · have hbuild : Peephole.buildStruct (m.literalNames values)
        = resolveType v >>= fun t => typedStruct t (m.literalFields values) := by
      unfold Peephole.buildStruct
      dsimp only
      rw [htype]
      rfl
    have htypedStruct : outcome (typedStruct t (m.literalFields values)) m
        = outcome (setFields r (m.literalFields values) >>= fun _ => pure r)
          (m.withHeap (h₁.withStruct r { h₁.struct r with strong })) := by
      rw [typedStruct, if_neg (not_not.2 hkind), outcome_bind_ok hinstance, ← hstrong]
      unfold setFields
      rw [bind_assoc]
      rfl
    rw [outcome_literal h, hbuild, bind_assoc, outcome_bind_ok hresolve, outcome_bind, htypedStruct,
      ← outcome_bind, bind_assoc]
    rfl

/-- **A literal without a type** builds a struct of the fields that it gives. -/
theorem exists_outcome_anonymous (h : m.HasLiteral operand values)
    (htype : (m.literalNames values).lookup typeField = none) : ∃ r m',
    outcome (execute ⟨.struct, operand⟩) (m.onto values) = (.ok (), m') ∧
      ¬ m.world.heap.Knows (.struct r) ∧ m'.world.heap.Knows (.struct r) ∧
      m'.context.stack = m.context.stack.push (.value (.struct r)) ∧
      m'.world.heap.struct r =
        { type := .struct none
            ((m.literalFields values).map fun p => (p.1, m.world.heap.typeOf p.2))
          fields := m.literalFields values
          static := (m.literalFlag? values staticField).getD false
          readonly := (m.literalFlag? values readonlyField).getD false } := by
  have hbuild : Peephole.buildStruct (m.literalNames values)
      = onHeap (Heap.ofFields (m.literalFields values)) := by
    unfold Peephole.buildStruct
    dsimp only
    rw [htype]
    rfl
  obtain ⟨s, hs⟩ : ∃ s : StructObject, s =
      { type := .struct none ((m.literalFields values).map fun p => (p.1, m.world.heap.typeOf p.2))
        fields := m.literalFields values } := ⟨_, rfl⟩
  generalize hr : (⟨m.world.heap.structs.size⟩ : Ref .struct) = r
  generalize hh : { m.world.heap with structs := m.world.heap.structs.push s } = h'
  have hnew : outcome (onHeap (Heap.ofFields (m.literalFields values))) m
      = (.ok r, m.withHeap h') := by
    rw [← hr, ← hh, hs]
    rfl
  have hlt : r.id < h'.structs.size := by
    rw [← hr, ← hh]
    show m.world.heap.structs.size < (m.world.heap.structs.push s).size
    rw [Array.size_push]
    exact Nat.lt_succ_self _
  have hread : h'.struct r = s := by
    rw [← hr, ← hh]
    show ((m.world.heap.structs.push s)[m.world.heap.structs.size]?).getD _ = s
    rw [Array.getElem?_push_size, Option.getD_some]
  have hmade := outcome_literal h
  rw [hbuild, outcome_bind_ok hnew, outcome_finishLiteral] at hmade
  refine ⟨r, _, hmade, ?_, (Heap.knows_withStruct _ _ _ _).2 hlt, rfl, ?_⟩
  · rw [← hr]
    exact Nat.lt_irrefl _
  · refine (Heap.struct_withStruct _ _ _ _).trans ((if_pos ⟨rfl, hlt⟩).trans ?_)
    rw [show (m.withHeap h').world.heap.struct r = s from hread, hs]

/-! ### Calls of types -/

/-- The zero value of a type of structs is an instance. -/
theorem zeroValue_of_struct (ht : t.base.kind = .struct) (h : Heap) :
    (Heap.zeroValue t).run h =
      (.struct ((Heap.instantiate t).run h).1, ((Heap.instantiate t).run h).2) := by
  cases t with
  | basic d k =>
    obtain rfl : k = .struct := ht
    rw [Heap.zeroValue]
    rfl
  | struct d fs =>
    rw [Heap.zeroValue]
    unfold Heap.instantiate
    rw [Heap.zeroFieldsOf]
    rfl
  | user d n p b =>
    rw [Heap.zeroValue, if_pos (show b.base.kind = .struct from ht)]
    unfold Heap.instantiate
    rw [Heap.zeroFieldsOf]
    rfl
  | _ => cases ht

/-- What the arguments of a call of a type give: nothing, the entries of a map, or the fields of a
struct, that are there. -/
inductive Gives (h : Heap) : List Value → List (String × Value) → Prop
  | nothing : Gives h [] []
  | map {init : Value} {q : Ref .map} (hinit : init.unwrapped = .map q) (hq : q.id < h.maps.size)
      (hkeyed : (h.map q).Keyed) : Gives h [init]
        ((h.map q).keys.map fun key => (h.display key, (h.map q).getOrNull key))
  | struct {init : Value} {q : Ref .struct} (hinit : init.unwrapped = .struct q)
      (hq : q.id < h.structs.size) : Gives h [init] (h.struct q).visible

/-- Loops come to the same if their rounds do. -/
theorem outcome_forIn_map {α β : Type} {φ : α → β} {f : α → Exec (ForInStep PUnit)}
    {g : β → Exec (ForInStep PUnit)} {xs : List α}
    (hround : ∀ x ∈ xs, ∀ m, outcome (f x) m = outcome (g (φ x)) m) (m : Machine) :
    outcome (forIn xs PUnit.unit fun x _ => f x) m
      = outcome (forIn (xs.map φ) PUnit.unit fun y _ => g y) m := by
  induction xs generalizing m with
  | nil => rfl
  | cons x xs ih =>
    obtain ⟨hfirst, hrest⟩ := List.forall_mem_cons.1 hround
    rw [List.map_cons, List.forIn_cons, List.forIn_cons, outcome_bind, outcome_bind, hfirst]
    rcases outcome (g (φ x)) m with ⟨e | _ | _, n⟩
    · rfl
    · rfl
    · exact ih hrest n

/-- The entries of a map are written in turn. -/
theorem outcome_setFieldsFrom {source : MapObject} (hkeyed : source.Keyed) (r : Ref .struct)
    (h : Heap) (m : Machine) : outcome (setFieldsFrom r source) m = outcome (setFields r
      (source.keys.map fun key => (h.display key, source.getOrNull key))) m := by
  rw [setFieldsFrom, setFields, outcome_bind, outcome_bind, outcome_forIn_map
    (φ := fun key => (h.display key, source.getOrNull key)) (g := fun p => do
      onObjects (Heap.setField r p.1 p.2)
      pure (.yield PUnit.unit))]
  intro key hkey m
  obtain ⟨k, hk, rfl⟩ := List.mem_map.1 hkey
  have hget := hkeyed.get_toValue hk source
  have hplain : (k.toValue source.keyType).IsPlain := .inl (Key.isScalar_toValue _ k)
  have hfound : outcome (liftM (source.get (k.toValue source.keyType)) : Exec (Option Value)) m
      = (.ok (source.entries.lookup k), m) := by
    rw [hget, outcome_liftExcept]
    rfl
  rw [outcome_bind_ok hfound, outcome_bind_ok (outcome_heap m), hplain.display_eq _ h,
    MapObject.getOrNull, hget]
  cases source.entries.lookup k <;> rfl

/-- **A call of a type** builds a struct of that type. -/
theorem exists_builds_construct {args : List Value} (hkind : t.base.kind = .struct)
    (hgives : Gives m.world.heap args given) :
    ∃ r birth, m.Builds (outcome (callValue (.type t) args) m) t r birth given := by
  obtain ⟨r, h₁, hrun, hfresh, hlt, htyped, hfillable⟩ := Heap.run_instantiate t m.world.heap
  have hgrows : m.world.heap.Grows h₁ := by
    have := (Heap.Grows.instantiate (h := m.world.heap) t _ (.refl _)).1
    rwa [hrun] at this
  have hinstance : outcome (onHeap (Heap.zeroValue t)) m = (.ok (.struct r), m.withHeap h₁) := by
    rw [outcome_onHeap, zeroValue_of_struct hkind, hrun]
  refine ⟨r, m.withHeap h₁, builds_of_outcome_eq (push (.struct r)) hfresh hlt htyped
    hfillable.names_eq hfillable.readonly_eq hfillable.static_eq (fun n _ => pushes_push r n) ?_⟩
  show outcome (construct t args) m = _
  unfold construct
  rw [outcome_bind_ok hinstance]
  cases hgives with
  | nothing => rfl
  | @map init q hinit hq hkeyed =>
    have hinitialised : initialised t (.struct r) (.map q) = (do
        setFieldsFrom r ((← heap).map q)
        return .struct r) := rfl
    dsimp only
    rw [← hgrows.map_eq hq] at hkeyed ⊢
    rw [hinit, hinitialised, bind_assoc, outcome_bind_ok (outcome_heap _), bind_assoc, outcome_bind,
      show (m.withHeap h₁).world.heap.map q = h₁.map q from rfl,
      outcome_setFieldsFrom hkeyed r m.world.heap, ← outcome_bind]
    simp only [pure_bind]
  | @struct init q hinit hq =>
    dsimp only
    rw [hinit, ← hgrows.struct_eq hq]
    show outcome ((setFields r (h₁.struct q).visible >>= fun _ => pure (.struct r)) >>= push)
      (m.withHeap h₁) = _
    rw [bind_assoc]
    rfl

/-! ### The laws -/

/-- An instruction that stores makes one attempt. -/
theorem exists_fieldWrites_of_accesses {i : Instruction} {w : Value} {base : Array Slot}
    (haccesses : m.Accesses r name base i (.write w)) (hfp : m.context.fp ≤ base.size) :
    ∃ result, (outcome (execute i) m).1 = result ∧
      FieldWrites r m [⟨name, w, result⟩] (outcome (execute i) m).2 := by
  have hbefore : ∀ {later m'}, FieldWrites r (m.withStack base) later m' →
      FieldWrites r m later m' := .elsewhere (.refl _) (.refl _)
  have hfirst : ∀ {later m'}, _ → FieldWrites r (m.withStack base) (_ :: later) m' := .write name w
  rw [outcome_of_accesses haccesses hfp]
  rcases hwrite : outcome (onObjects (Heap.setField r name w)) (m.withStack base) with ⟨e | u, n⟩
  · rw [hwrite] at hfirst
    rw [outcome_bind_error hwrite]
    exact ⟨_, rfl, hbefore (hfirst (.done n))⟩
  · rw [hwrite] at hfirst
    obtain ⟨n', hpush, hkeeps, heases, -⟩ := pushes_push r n
    rw [outcome_bind_ok hwrite, hpush]
    exact ⟨_, rfl, hbefore (hfirst (.elsewhere hkeeps heases (.done n')))⟩

/-- Which fields with a name are written once, and how they come to be there. -/
structure OnceLaws (name : String) : Prop where
  /-- The instructions that store make an attempt each. -/
  store : ∀ {m : Machine} {r i w base}, m.Accesses r name base i (.write w) →
    m.context.fp ≤ base.size → ∃ result, (outcome (execute i) m).1 = result ∧
      FieldWrites r m [⟨name, w, result⟩] (outcome (execute i) m).2
  /-- A field that is there is not written any more; -/
  there : ∀ {m : Machine} {r u}, m.world.heap.Knows (.struct r) →
    (m.world.heap.struct r).get? name = some u → m.NeverWritten r name
  /-- one that is let in is written once. -/
  absent : ∀ {m : Machine} {r}, m.world.heap.Knows (.struct r) → (m.world.heap.struct r).Lets name →
    m.WrittenOnce r name
  /-- A literal without a type has written the fields that it gives, with the last values, and the
  struct may get others, unless its flags forbid it. -/
  anonymous : ∀ {m : Machine} {operand values}, m.HasLiteral operand values →
    (m.literalNames values).lookup typeField = none →
    ∃ r m', outcome (execute ⟨.struct, operand⟩) (m.onto values) = (.ok (), m') ∧
      ¬ m.world.heap.Knows (.struct r) ∧
      m'.context.stack = m.context.stack.push (.value (.struct r)) ∧
      match m.lastGiven? values name with
      | some v => (m'.world.heap.struct r).get? name = some v ∧ m'.NeverWritten r name
      | none => m.literalFlag? values staticField ≠ some true →
          m.literalFlag? values readonlyField ≠ some true → m'.WrittenOnce r name
  /-- Literals of a type build a struct of that type, -/
  literal : ∀ {m : Machine} {operand values v t}, m.HasLiteral operand values →
    (m.literalNames values).lookup typeField = some v → (outcome (resolveType v) m).1 = .ok t →
    t.base.kind = .struct → (m.literalFlag? values staticField = some true → t.fields ≠ []) →
    m.literalFlag? values readonlyField ≠ some true →
    ∃ r birth, m.Builds (outcome (execute ⟨.struct, operand⟩) (m.onto values)) t r birth
      (m.literalFields values)
  /-- and so do calls of a type. -/
  construct : ∀ {m : Machine} {t args given}, t.base.kind = .struct →
    Gives m.world.heap args given →
    ∃ r birth, m.Builds (outcome (callValue (.type t) args) m) t r birth given
  /-- A struct of a type has its declared fields from the beginning. They are never written, and
  where they are given none is built. -/
  declared : ∀ {m : Machine} {made t r birth given}, m.Builds made t r birth given →
    t.field? name ≠ none →
    birth.NeverWritten r name ∧ (name ∈ given.map (·.1) → ∃ e, made.1 = .error e)
  /-- So of the fields that the struct has or may get only those are written once that are not
  declared. -/
  once_iff : ∀ {m : Machine} {made t r birth given}, m.Builds made t r birth given →
    t.field? name ≠ none ∨ t.fields = [] → (birth.WrittenOnce r name ↔ t.field? name = none)

/-- **Fields whose name starts with one underscore** follow the laws. -/
theorem once_laws (hname : StructObject.IsOnce name) : OnceLaws name where
  store := exists_fieldWrites_of_accesses
  there := neverWritten_of_field hname
  absent := writtenOnce_of_lets hname
  anonymous {m operand values} hliteral htype := by
    obtain ⟨r, m', hmade, hfresh, hknown, hstack, hstruct⟩ :=
      exists_outcome_anonymous hliteral htype
    refine ⟨r, m', hmade, hfresh, hstack, ?_⟩
    have hget : (m'.world.heap.struct r).get? name = m.lastGiven? values name := by
      rw [hstruct, ← lookup_literalNames, ← lookup_literalFields hname, StructObject.get?]
    split
    · rename_i v hv
      rw [hv] at hget
      exact ⟨hget, neverWritten_of_field hname hknown hget⟩
    · rename_i hnone
      rw [hnone] at hget
      intro hstatic hreadonly
      refine writtenOnce_of_lets hname hknown ⟨hget, ?_, ?_, ?_⟩
      · rw [hstruct]
        exact Bool.eq_false_iff.2 fun hset => (eq_some_true_or hset).elim hreadonly (by rintro ⟨⟩)
      · rw [hstruct]
        exact Bool.eq_false_iff.2 fun hset => (eq_some_true_or hset).elim hstatic (by rintro ⟨⟩)
      · rw [StructObject.get?, hstruct, Assoc.lookup_eq_none_iff] at hget
        rw [hstruct, Ty.field?, Ty.fields, Assoc.lookup_eq_none_iff, List.map_map]
        exact hget
  literal := exists_builds_literal
  construct := exists_builds_construct
  declared hbuilds hdeclared :=
    ⟨hbuilds.neverWritten hname hdeclared, hbuilds.exists_error hname hdeclared⟩
  once_iff hbuilds hopen := hbuilds.writtenOnce_iff hname hopen

theorem once_laws_of_id : OnceLaws "_id" := once_laws ⟨by decide +kernel, by decide +kernel⟩

end Machine

end ScriptMachine
