import ScriptMachine.Machine.Step
import ScriptMachine.Proofs.Action.Operands

/-!
# Sequences of instructions

Instructions executed one after the other, and operands put on a stack and taken off again.

* `Exec.executeAll`: what a list of instructions does.
* `Exec.operandCount_eq`: the count that an instruction reads from its operand.
* `Machine.onto`: a machine with further operands.
* `Exec.outcome_popCall_onto`, `Exec.outcome_popOperands_onto`: a callable and its arguments, or the
  operands of an operator, are taken with nothing else.
-/

namespace ScriptMachine

/-- The machine with further operands on its stack. -/
def Machine.onto (m : Machine) (values : List Value) : Machine :=
  m.withStack (m.context.stack ++ (values.map Slot.value).toArray)

namespace Machine

variable {m : Machine}

theorem onto_nil (m : Machine) : m.onto [] = m := by
  simp only [onto, List.map_nil, Array.append_empty]
  rfl

theorem onto_append (m : Machine) (vs ws : List Value) : (m.onto vs).onto ws = m.onto (vs ++ ws) := by
  simp [onto, withStack, Array.append_assoc]

theorem onto_cons (m : Machine) (v : Value) (vs : List Value) :
    m.onto (v :: vs) = (m.onto [v]).onto vs := (onto_append m [v] vs).symm

/-- Where the stack has values only, these are on top of an empty one. -/
theorem withStack_onto {values : List Value}
    (h : m.context.stack = (values.map Slot.value).toArray) :
    (m.withStack #[]).onto values = m := by
  unfold onto withStack
  dsimp only
  rw [Array.empty_append, ← h]

theorem size_stack_onto (m : Machine) (vs : List Value) :
    (m.onto vs).context.stack.size = m.context.stack.size + vs.length := by
  simp [onto, withStack]

theorem fp_le_onto (h : m.context.fp ≤ m.context.stack.size) (vs : List Value) :
    (m.onto vs).context.fp ≤ (m.onto vs).context.stack.size := by
  rw [size_stack_onto]
  exact Nat.le_add_right_of_le h

end Machine

/-- The count that an operand stands for, if it stands for one. -/
def Value.count? (default : Nat) (v : Value) : Option Nat :=
  if v.isNull then some default else v.toIndex.toOption

namespace Exec

/-- Executes instructions one after the other. -/
def executeAll : List Instruction → Exec Unit
  | [] => return
  | i :: rest => do
    execute i
    executeAll rest

variable {m : Machine} {v f : Value} {args : List Value}

theorem executeAll_singleton (i : Instruction) : executeAll [i] = execute i := bind_pure (execute i)

theorem operandCount_eq {default count : Nat} (h : v.count? default = some count) :
    operandCount v default = pure count := by
  unfold Value.count? at h
  unfold operandCount
  split at h
  · rename_i hnull
    cases h
    rw [if_pos hnull]
  · rename_i hnull
    rw [if_neg hnull]
    cases hindex : v.toIndex with
    | error f => simp [hindex, Except.toOption] at h
    | ok a =>
      rw [hindex] at h
      cases h
      rfl

theorem outcome_pushAll (m : Machine) (values : List Value) :
    outcome (forIn values PUnit.unit fun v _ => do push v; return .yield .unit) m
      = (.ok .unit, m.onto values) := by
  induction values generalizing m with
  | nil => rw [List.forIn_nil, Machine.onto_nil]; rfl
  | cons v values ih =>
    rw [List.forIn_cons, Machine.onto_cons]
    exact ih (m.onto [v])

theorem outcome_popArgs_onto (hm : m.context.fp ≤ m.context.stack.size)
    (hargs : ∀ a ∈ args, a.isMarker = false) :
    outcome (popArgs args.length) (m.onto args) = (.ok args, m) := by
  have hsize := m.size_stack_onto args
  have hfp : (m.onto args).context.fp = m.context.fp := rfl
  have hrest : (m.onto args).context.stack.extract 0 m.context.stack.size = m.context.stack := by
    simp [Machine.onto, Machine.withStack]
  have hvalues : slotValues ((m.onto args).context.stack.extract m.context.stack.size
      (m.context.stack.size + args.length)) = args := by
    have htaken : (m.onto args).context.stack.extract m.context.stack.size
        (m.context.stack.size + args.length) = (args.map Slot.value).toArray := by
      simp [Machine.onto, Machine.withStack, Array.extract_append, List.take_of_length_le]
    rw [htaken, slotValues, List.filterMap_map]
    exact List.filterMap_some
  rw [popArgs, outcome_bind_ok (outcome_context _)]
  dsimp only
  rw [if_neg (by omega), outcome_bind_ok (outcome_modifyContext _ _), hsize,
    Nat.add_sub_cancel, hvalues, if_neg (by simpa using hargs)]
  show (_, m.withStack ((m.onto args).context.stack.extract 0 _)) = _
  rw [hrest]
  rfl

/-- The value on top is taken with nothing else. -/
theorem outcome_popValue_onto (hm : m.context.fp ≤ m.context.stack.size)
    (hv : v.isMarker = false) : outcome popValue (m.onto [v]) = (.ok v, m) := by
  have hstack : (m.onto [v]).context.stack = m.context.stack.push (.value v) := by
    simp [Machine.onto, Machine.withStack]
  have hpop : outcome popValue (m.onto [v]) = (.ok v, (m.onto [v]).withStack
      (m.onto [v]).context.stack.pop) := by
    refine outcome_popValue_of_back? ?_ (by rw [hstack, Array.back?_push]) hv
    rw [hstack, Array.size_push]
    exact Nat.lt_succ_of_le hm
  rw [hpop, hstack, Array.pop_push]
  rfl

theorem outcome_popUnwrapped_onto (hm : m.context.fp ≤ m.context.stack.size)
    (hv : v.isMarker = false) : outcome popUnwrapped (m.onto [v]) = (.ok v.unwrapped, m) := by
  rw [popUnwrapped, outcome_bind_ok (outcome_popValue_onto hm hv)]
  rfl

/-- The operands of an operator are taken with nothing else. -/
theorem outcome_popOperands_onto {a b : Value} (hm : m.context.fp ≤ m.context.stack.size)
    (ha : a.isMarker = false) (hb : b.isMarker = false) (ha' : a.isNull = false)
    (hb' : b.isNull = false) :
    outcome popOperands (m.onto [a, b]) = (.ok (a.unwrapped, b.unwrapped), m) := by
  have hnull : (a.unwrapped.isNull || b.unwrapped.isNull) = false := by
    simpa [Value.isNull] using And.intro ha' hb'
  rw [Machine.onto_cons, popOperands,
    outcome_bind_ok (outcome_popUnwrapped_onto (Machine.fp_le_onto hm [a]) hb),
    outcome_bind_ok (outcome_popUnwrapped_onto hm ha), if_neg (by simp [hnull])]
  rfl

/-- A callable and its arguments are taken with nothing else. -/
theorem outcome_popCall_onto (hm : m.context.fp ≤ m.context.stack.size) (hf : f.isMarker = false)
    (hargs : ∀ a ∈ args, a.isMarker = false) :
    outcome (popCall args.length) (m.onto (f :: args)) = (.ok (f.unwrapped, args), m) := by
  rw [Machine.onto_cons, popCall,
    outcome_bind_ok (outcome_popArgs_onto (Machine.fp_le_onto hm [f]) hargs),
    outcome_bind_ok (outcome_popUnwrapped_onto hm hf)]
  rfl

end Exec

end ScriptMachine
