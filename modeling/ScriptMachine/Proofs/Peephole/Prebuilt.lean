import ScriptMachine.Proofs.Peephole.Exchanges
import ScriptMachine.Proofs.Rendering.KeyTexts

/-!
# Structs pushed instead of made

A struct of literals that was built in advance is copied when it is pushed, and the copy is what the
instructions would have made.

* `structOf`: the struct that literals and types make; `outcome_makeStruct_plain`: it is made of them.
* `IsLiteral`: pushes and a struct instruction that make such a struct; `exists_isLiteral`.
* `run_structFragment`: so it is what is found in advance, in every world.
* `outcome_push_struct`: it is what the push of a literal makes.
* `IsLiteral.alike`: making it is the same as pushing it.
-/

namespace ScriptMachine

/-! ### Texts of literals -/

/-- No literal but a string is spelled like the field that tells the type of a struct. -/
theorem Value.string?_of_display {v : Value} (hv : v.kind.isScalar = true) {h : Heap}
    (htext : h.display v = typeField) : v.string? = some typeField := by
  have hname : typeField = String.ofList ['_', '_', 't', 'y', 'p', 'e'] := rfl
  have hnumeral : ∀ {neg digit : Bool} {cs : List Char}, Numeral.Starts digit cs →
      (digit = false → cs = ['N', 'a', 'N'] ∨ cs = ['i', 'n', 'f']) →
      String.ofList (Numeral.signed neg cs) ≠ typeField := by
    rintro neg digit cs ⟨c, rest, rfl, -, hdigit⟩ hwords hsame
    rw [hname, String.ofList_inj] at hsame
    cases neg with
    | true => cases hsame
    | false =>
      cases hsame
      cases digit with
      | true => cases hdigit
      | false => rcases hwords rfl with hword | hword <;> cases hword
  have hinteger : ∀ i : Int, toString i ≠ typeField := by
    intro i
    rw [toString_int]
    exact hnumeral (Numeral.starts_toDigits _) nofun
  have hfloat : ∀ (f : Format) (a : Nat), f.displayText a ≠ typeField := by
    intro f a
    rw [Format.displayText_eq]
    refine hnumeral (f.starts_unsignedText a) fun hlarge => ?_
    rw [decide_eq_false_iff_not, Nat.not_lt] at hlarge
    rw [Format.unsignedText_of_le hlarge]
    split
    · exact .inl rfl
    · exact .inr rfl
  have hplain : v.unwrapped.scalarText = typeField := by
    have hscalar := hv
    rw [← Value.kind_unwrapped] at hscalar
    unfold Heap.display Heap.depth at htext
    rw [Heap.displayWithin] at htext
    generalize v.unwrapped = u at hscalar htext
    cases u <;> first | exact htext | cases hscalar
  have hscalar := hv
  rw [← Value.kind_unwrapped] at hscalar
  have hbare := Key.unwrapped_ne_constant v
  unfold Value.string?
  revert hplain hscalar hbare
  cases v.unwrapped with
  | string s => exact fun hplain _ _ => congrArg some hplain
  | bool b =>
    have hword : (Value.bool b).scalarText ≠ typeField := by cases b <;> decide
    exact fun hplain => absurd hplain hword
  | byte n => exact fun hplain => absurd hplain (hinteger (n.toNat : Int))
  | int32 n | int n | int64 n => exact fun hplain => absurd hplain (hinteger _)
  | float32 x | float64 x => exact fun hplain => absurd hplain (hfloat _ _)
  | constant u => exact fun _ _ hbare => absurd rfl (hbare u)
  | _ =>
    intro _ hscalar
    cases hscalar

theorem mem_snd_of_mem_pairUp {p : Value × Value} : ∀ {values : List Value}, p ∈ pairUp values →
    p.2 ∈ values
  | [], hp | [_], hp => by cases hp
  | a :: b :: rest, hp => by
    rcases List.mem_cons.1 hp with rfl | hp
    · exact .tail _ (.head _)
    · exact .tail _ (.tail _ (mem_snd_of_mem_pairUp hp))

theorem pairUp_map (f : Value → Value) : ∀ values : List Value,
    pairUp (values.map f) = (pairUp values).map (Prod.map f f)
  | [] | [_] => rfl
  | a :: b :: rest => congrArg ((f a, f b) :: ·) (pairUp_map f rest)

namespace Peephole

open Exec

variable {values : List Value} {operand : Value} {m : Machine} {h : Heap} {L : Literals}

/-! ### The struct that literals make -/

/-- The fields of a struct literal, with the flags among them. -/
def plainNames (values : List Value) : List (String × Value) :=
  namedFields ({} : Heap).display (pairUp values)

/-- The struct that literals and types make, if none of them names its type. -/
def structOf (values : List Value) : StructObject :=
  let fields := [typeField, staticField, readonlyField].foldl
    (fun fields name => Assoc.erase name fields) (plainNames values)
  { type := .struct none (fields.map fun p => (p.1, ({} : Heap).typeOf p.2))
    fields
    static := (((plainNames values).lookup staticField).map ({} : Heap).truthy).getD false
    readonly := (((plainNames values).lookup readonlyField).map ({} : Heap).truthy).getD false }

/-- The objects with this struct as a new one. -/
def withStructOf (h : Heap) (values : List Value) : Heap :=
  { h with structs := h.structs.push (structOf values) }

/-- A property of all values, without constants around them, is one of all fields. -/
theorem forall_mem_plainNames {P : Value → Prop} (hvalues : ∀ v ∈ values, P v.unwrapped) :
    ∀ p ∈ plainNames values, P p.2 := by
  unfold plainNames namedFields
  have hpairs : ∀ p ∈ pairUp values, P p.2.unwrapped := fun p hp =>
    hvalues _ (mem_snd_of_mem_pairUp hp)
  revert hpairs
  induction pairUp values using List.reverseRecOn with
  | nil => exact fun _ => nofun
  | append_singleton parts p ih =>
    intro hpairs
    rw [List.foldl_append]
    exact Assoc.forall_insert (ih fun q hq => hpairs q (List.mem_append_left _ hq)) _
      (hpairs p (List.mem_append_right _ (List.mem_singleton_self p)))

theorem forall_mem_structOf {P : Value → Prop} (hvalues : ∀ v ∈ values, P v.unwrapped) :
    ∀ p ∈ (structOf values).fields, P p.2 :=
  Assoc.forall_erase (Assoc.forall_erase (Assoc.forall_erase (forall_mem_plainNames hvalues) _) _) _

/-- What no name is spelled like names no field. -/
theorem lookup_plainNames {name : String}
    (hnames : ∀ p ∈ pairUp values, ({} : Heap).display p.1 ≠ name) :
    (plainNames values).lookup name = none := by
  unfold plainNames namedFields
  revert hnames
  induction pairUp values using List.reverseRecOn with
  | nil => exact fun _ => rfl
  | append_singleton parts p ih =>
    intro hnames
    rw [List.foldl_append]
    show (Assoc.insert _ _ _).lookup name = none
    rw [Assoc.lookup_insert_ne (hnames p (List.mem_append_right _ (List.mem_singleton_self p))).symm]
    exact ih fun q hq => hnames q (List.mem_append_left _ hq)

/-- The flags that plain values are taken for do not depend on the heap. -/
theorem truthy_plainNames (hvalues : ∀ v ∈ values, v.IsPlain) (h h' : Heap) (name : String) :
    ((plainNames values).lookup name).map h.truthy = ((plainNames values).lookup name).map h'.truthy := by
  cases hfound : (plainNames values).lookup name with
  | none => rfl
  | some v =>
    have hv : v.IsPlain :=
      Assoc.of_lookup (forall_mem_plainNames fun v hv => (hvalues v hv).unwrapped) hfound
    exact congrArg some (hv.truthy_eq h h')

/-- Nor do the types of its fields. -/
theorem typeOf_structOf (hvalues : ∀ v ∈ values, v.IsPlain) (h h' : Heap) :
    (structOf values).fields.map (fun p => (p.1, h.typeOf p.2))
      = (structOf values).fields.map fun p => (p.1, h'.typeOf p.2) := by
  refine List.map_congr_left fun p hp => ?_
  have hp' : p.2.IsPlain := forall_mem_structOf (fun v hv => (hvalues v hv).unwrapped) p hp
  exact congrArg (Prod.mk p.1) (hp'.typeOf_eq h h')

/-- **A struct instruction** on literals and types that do not name its type makes this struct. -/
theorem outcome_makeStruct_plain (hfp : m.context.fp ≤ m.context.stack.size)
    (hvalues : ∀ v ∈ values, v.IsPlain)
    (huntyped : ∀ p ∈ pairUp values, ({} : Heap).display p.1 ≠ typeField) {n : Nat}
    (hcount : operand.count? 0 = some n) (hlen : n * 2 = values.length) :
    outcome (makeStruct operand) (m.onto values)
      = (.ok (), (m.withHeap (withStructOf m.world.heap values)).onto
          [.struct ⟨m.world.heap.structs.size⟩]) := by
  have hbuild : buildStruct (plainNames values)
      = onHeap (Heap.ofFields (structOf values).fields) := by
    unfold buildStruct
    dsimp only
    rw [lookup_plainNames huntyped]
    rfl
  -- The struct is made without its flags, which are set then.
  obtain ⟨bare, hbare⟩ : ∃ s : StructObject, s =
      { type := .struct none ((structOf values).fields.map fun p => (p.1, m.world.heap.typeOf p.2))
        fields := (structOf values).fields } := ⟨_, rfl⟩
  have hmade : outcome (onHeap (Heap.ofFields (structOf values).fields)) m
      = (.ok ⟨m.world.heap.structs.size⟩, m.withHeap { m.world.heap with
          structs := m.world.heap.structs.push bare }) := by
    rw [hbare]
    rfl
  rw [outcome_makeStruct_onto hfp (fun v hv => (hvalues v hv).isMarker) hcount hlen,
    namedFields_display hvalues m.world.heap {}]
  dsimp only
  have hnames : namedFields ({} : Heap).display (pairUp values) = plainNames values := rfl
  rw [hnames, hbuild, outcome_bind_ok hmade, outcome_bind_ok (outcome_heap _),
    truthy_plainNames hvalues _ {} staticField, truthy_plainNames hvalues _ {} readonlyField]
  have hread : (m.withHeap { m.world.heap with
      structs := m.world.heap.structs.push bare }).world.heap.struct ⟨m.world.heap.structs.size⟩
      = bare := by
    show ((m.world.heap.structs.push bare)[m.world.heap.structs.size]?).getD _ = bare
    rw [Array.getElem?_push_size, Option.getD_some]
  have hset : (m.world.heap.structs.push bare).setIfInBounds m.world.heap.structs.size
      (structOf values) = m.world.heap.structs.push (structOf values) := by
    have hlt : m.world.heap.structs.size < (m.world.heap.structs.push bare).size := by
      rw [Array.size_push]
      exact Nat.lt_succ_self _
    rw [Array.setIfInBounds_def, dif_pos hlt, Array.set_push, dif_neg (Nat.lt_irrefl _)]
  have hdone : ({ bare with
      static := (((plainNames values).lookup staticField).map ({} : Heap).truthy).getD bare.static
      readonly := (((plainNames values).lookup readonlyField).map ({} : Heap).truthy).getD
        bare.readonly } : StructObject) = structOf values := by
    rw [hbare, typeOf_structOf hvalues _ {}]
    rfl
  rw [hread, hdone, outcome_bind_ok (outcome_onHeap _ _), outcome_push_onto]
  show (_, (m.withHeap { m.world.heap with
    structs := (m.world.heap.structs.push bare).setIfInBounds _ _ }).onto _) = _
  rw [hset]
  rfl

/-! ### Making a struct and pushing it -/

/-- The names and values that are pushed. -/
def pushedBy (pushes : List Instruction) : List Value := pushes.map fun i => i.operand.unwrapped

/-- Pushes of literals and types, and the operand of a struct instruction that makes a struct of them:
the names and values are all there is, and no name is spelled like the one that tells the type. -/
structure IsLiteral (pushes : List Instruction) (operand : Value) : Prop where
  plain : ∀ i ∈ pushes, i.op = .push ∧ i.operand.IsPlain
  counted : ∃ n, operand.count? 0 = some n ∧ n * 2 = pushes.length
  untyped : ∀ p ∈ pairUp (pushedBy pushes),
    ({} : Heap).display p.1 ≠ typeField

/-- What can be built in advance is such a literal, if no type is named as the field for types is. -/
theorem exists_isLiteral {c : Code} {address start : Nat}
    (hstart : structStart? c address = some start) (hproper : ∀ i ∈ c.ops, i.IsProper) :
    ∃ pushes operand, (c.ops.extract start (address + 1)).toList = pushes ++ [⟨.struct, operand⟩] ∧
      IsLiteral pushes operand := by
  obtain ⟨i, fields, hi, -, -, -, -, -, huntyped, -⟩ := structStart?_eq_some_iff.1 hstart
  obtain ⟨hle, -⟩ := lt_size_of_structStart? hstart
  obtain ⟨pushes, operand, n, hops, hpushes, hcount, hlen⟩ := pushes_of_structStart? hstart
  have hfront : (c.ops.extract start address).toList = pushes := by
    rw [extract_succ hle hi, Array.toList_push] at hops
    exact (List.append_inj' hops rfl).1
  refine ⟨pushes, operand, hops, hpushes, ⟨n, hcount, hlen⟩, fun p hp htext => ?_⟩
  rw [hfront] at huntyped
  have hmap : pushedBy pushes
      = (pushes.map (·.operand)).map Value.unwrapped := by
    rw [List.map_map]
    rfl
  rw [hmap, pairUp_map] at hp
  obtain ⟨q, hq, rfl⟩ := List.mem_map.1 hp
  obtain ⟨j, hj, hoperand⟩ := List.mem_map.1 (mem_of_mem_pairUp hq)
  obtain ⟨hpush, hplain⟩ := hpushes j hj
  have hmem : j ∈ c.ops := by
    rw [← hfront] at hj
    exact mem_of_mem_extract (Array.mem_toList_iff.1 hj)
  have htext' : ({} : Heap).display j.operand.unwrapped = typeField := by
    rw [hoperand]
    exact htext
  rcases hplain.unwrapped with hscalar | ⟨t, ht⟩
  · have hname := Value.string?_of_display hscalar htext'
    have hfound : (q.1.string? == some typeField) = true := by
      rw [← hoperand, beq_iff_eq, ← hname]
      unfold Value.string?
      rw [Value.unwrapped_unwrapped]
    rw [List.any_eq_false] at huntyped
    exact huntyped q hq hfound
  · rw [ht] at htext'
    exact (hproper j hmem).unnamed hpush t ht htext'

namespace IsLiteral

variable {pushes : List Instruction}

theorem isPlain (hlit : IsLiteral pushes operand) : ∀ v ∈ pushedBy pushes, v.IsPlain := by
  intro v hv
  obtain ⟨i, hi, rfl⟩ := List.mem_map.1 hv
  exact (hlit.plain i hi).2.unwrapped

/-- Pushes of literals put them on the stack. -/
theorem outcome_pushes (hpushes : ∀ i ∈ pushes, i.op = .push ∧ i.operand.IsPlain)
    (rest : List Instruction) (m : Machine) :
    outcome (executeAll (pushes ++ rest)) m = outcome (executeAll rest) (m.onto (pushedBy pushes)) := by
  induction pushes generalizing m with
  | nil => rw [List.nil_append, pushedBy, List.map_nil, Machine.onto_nil]
  | cons i pushes ih =>
    obtain ⟨op, v⟩ := i
    obtain ⟨hop, hplain⟩ := hpushes _ (.head _)
    cases hop
    rw [List.cons_append, executeAll, outcome_bind_ok (outcome_push_leaf hplain.isLeaf m),
      ih fun j hj => hpushes j (.tail _ hj), pushedBy, pushedBy, List.map_cons, ← Machine.onto_cons]

/-- **Making the struct** on any machine. -/
theorem outcome_eq (hlit : IsLiteral pushes operand) (hfp : m.context.fp ≤ m.context.stack.size) :
    outcome (executeAll (pushes ++ [⟨.struct, operand⟩])) m
      = (.ok (), (m.withHeap (withStructOf m.world.heap (pushedBy pushes))).onto
          [.struct ⟨m.world.heap.structs.size⟩]) := by
  obtain ⟨n, hcount, hlen⟩ := hlit.counted
  rw [outcome_pushes hlit.plain, executeAll_singleton]
  exact outcome_makeStruct_plain hfp hlit.isPlain hlit.untyped hcount
    (by rw [hlen, pushedBy, List.length_map])

/-- **What is found in advance** is the struct, in every world. -/
theorem run_fragment {ops : Array Instruction} (hlit : IsLiteral pushes operand)
    (hops : ops.toList = pushes ++ [⟨.struct, operand⟩]) (w : World) :
    ((runFragment ops).run w).1 = .ok (.struct ⟨w.heap.structs.size⟩) ∧
      ((runFragment ops).run w).2.heap = withStructOf w.heap (pushedBy pushes) := by
  obtain ⟨n, hcount, hlen⟩ := hlit.counted
  have hcomputation : Computation (fun h' r => h' = withStructOf w.heap (pushedBy pushes) ∧
      r = some (.struct ⟨w.heap.structs.size⟩)) ops.toList w.heap [] := by
    rw [hops]
    refine .pushes hlit.plain ?_
    refine .step (fun h' values' => h' = withStructOf w.heap (pushedBy pushes) ∧
      values' = [.struct ⟨w.heap.structs.size⟩]) rfl ?_ ?_
    · rintro code k m hm hheap hstack
      refine ⟨_, _, ⟨rfl, rfl⟩, ?_⟩
      have hmake := outcome_makeStruct_plain (m := m.withStack #[]) (Nat.le_of_eq hm.fp_eq)
        hlit.isPlain hlit.untyped hcount (by rw [hlen, pushedBy, List.length_map])
      have hvalues : m.context.stack = ((pushedBy pushes).map Slot.value).toArray := hstack
      rw [Machine.withStack_onto hvalues, Machine.onto] at hmake
      refine hmake.trans ?_
      rw [← hheap]
      show (_, (m.withHeap _).withStack (#[] ++ _)) = _
      rw [Array.empty_append]
      rfl
    · rintro h' values' ⟨rfl, rfl⟩
      exact .done ⟨rfl, rfl⟩
  obtain ⟨hheap, hvalue⟩ := run_runFragment_of_computation hcomputation
  refine ⟨?_, hheap⟩
  cases hrun : ((runFragment ops).run w).1 with
  | error f =>
    rw [hrun] at hvalue
    cases hvalue
  | ok v =>
    rw [hrun] at hvalue
    exact congrArg Except.ok (Option.some.inj hvalue)

/-! #### Pushing it -/

theorem run_mapM_of_isLeaf {κ : Type} (depth : Nat) {l : List (κ × Value)}
    (hl : ∀ p ∈ l, p.2.isLeaf = true) (h : Heap) :
    (l.mapM fun p => (return (p.1, ← Heap.copyWithin depth p.2) : StateM Heap (κ × Value))).run h
      = (l, h) := by
  induction l with
  | nil => rfl
  | cons p rest ih =>
    obtain ⟨hp, hrest⟩ := List.forall_mem_cons.1 hl
    have hcopy := Heap.copyWithin_of_isLeaf hp depth h
    rw [List.mapM_cons, StateT.run_bind, StateT.run_bind, hcopy]
    show StateT.run (m := Id) (_ >>= _) h = _
    rw [StateT.run_bind, ih hrest]
    rfl

/-- **Pushing a struct of literals** makes the same struct again. -/
theorem outcome_push (hlit : IsLiteral pushes operand) {r : Ref .struct}
    (hr : m.world.heap.struct r = structOf (pushedBy pushes)) :
    outcome (execute ⟨.push, .struct r⟩) m
      = (.ok (), (m.withHeap (withStructOf m.world.heap (pushedBy pushes))).onto
          [.struct ⟨m.world.heap.structs.size⟩]) := by
  have hleaf : ∀ p ∈ (structOf (pushedBy pushes)).fields, p.2.isLeaf = true :=
    forall_mem_structOf (P := fun v => v.isLeaf = true) fun v hv => (hlit.isPlain v hv).isLeaf
  have hcopy : (Heap.deepCopy (.struct r)).run m.world.heap
      = (.struct ⟨m.world.heap.structs.size⟩, withStructOf m.world.heap (pushedBy pushes)) := by
    unfold Heap.deepCopy Heap.depth
    rw [StateT.run_bind, StateT.run_get, pure_bind]
    dsimp only
    rw [Heap.copyWithin, Heap.underConstants]
    · simp only [StateT.run_bind, StateT.run_get, pure_bind, hr, run_mapM_of_isLeaf _ hleaf]
      rfl
    · nofun
  show outcome (onHeap (Heap.deepCopy (.struct r)) >>= push) m = _
  rw [outcome_bind_ok (outcome_onHeap _ _), hcopy, outcome_push_onto]

/-- **Making a struct of literals** is the same as pushing it, where it was built in advance. -/
theorem alike (hlit : IsLiteral pushes operand) {r : Ref .struct}
    (hr : m.world.heap.struct r = structOf (pushedBy pushes))
    (hfp : m.context.fp ≤ m.context.stack.size) :
    outcome (executeAll (pushes ++ [⟨.struct, operand⟩])) m
      = outcome (executeAll [⟨.push, .struct r⟩]) m := by
  rw [hlit.outcome_eq hfp, executeAll_singleton, hlit.outcome_push hr]

/-- The struct is a literal in its own right. -/
theorem spells (hlit : IsLiteral pushes operand) {r : Ref .struct}
    (hr : L.struct? r = some (structOf (pushedBy pushes))) : (Value.struct r).Spells L 1 := by
  refine .container (by rw [Literals.contents?, hr]; rfl) fun v hv => ?_
  obtain ⟨p, hp, rfl⟩ := List.mem_map.1 hv
  exact .apart (forall_mem_structOf (P := Value.Apart L) (fun v hv => (hlit.isPlain v hv).unwrapped.apart)
    p hp)

end IsLiteral

end Peephole

end ScriptMachine
