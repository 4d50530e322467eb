import Mathlib.Algebra.Ring.Int.Defs
import ScriptMachine.Program.Peephole
import ScriptMachine.Proofs.Action.Sequences
import ScriptMachine.Proofs.Code.Relocation

/-!
# Merged drops

Two drops in a row become one. The rule adds the integers that the operands convert to, and so takes
numerals, booleans and negative numbers as well; the machine drops as many operands as the index of
the operand says, and has none for these.

* `Value.dropCount?`: how many operands a drop takes off the stack.
* `Value.summand?`: what the rule adds for a drop.
* `Exec.Agree`: two outcomes on the operand stack that a program cannot tell apart.
* `drops_merge_iff`: the drops that are merged soundly.
-/

namespace ScriptMachine

namespace Value

/-- How many operands a drop with this operand takes; none if it refuses the operand. -/
def dropCount? (v : Value) : Option Nat := v.count? 1

/-- The integer that the rule for drops adds for an operand; none if it does not fire. -/
def summand? (v : Value) : Option Int64 := if v.isNull then some 1 else v.toInt64.toOption

variable {v : Value} {n : Nat} {k : Int64}

/-- A count is the integer that the rule adds. -/
theorem toInt_summand (hsum : v.summand? = some k) (hcount : v.dropCount? = some n) :
    k.toInt = n := by
  unfold summand? at hsum
  unfold dropCount? count? at hcount
  split at hsum
  · rename_i hnull
    rw [if_pos hnull] at hcount
    cases hsum
    cases hcount
    rfl
  · rename_i hnull
    rw [if_neg hnull] at hcount
    obtain ⟨hnumeric, hindex⟩ : v.kind.isNumeric = true ∧ v.toIndex = .ok n := by
      cases hindex : v.toIndex with
      | error f => simp [hindex, Except.toOption] at hcount
      | ok a =>
        rw [hindex] at hcount
        cases hcount
        refine ⟨?_, rfl⟩
        by_contra hnot
        simp [toIndex, hnot] at hindex
    have hint : v.toInt64 = .ok k := by
      cases hint : v.toInt64 with
      | error f => simp [hint, Except.toOption] at hsum
      | ok a =>
        rw [hint] at hsum
        cases hsum
        rfl
    exact (toIndex_eq_ok_iff hnumeric hint).1 hindex

/-- An integer is a count unless it is negative. -/
theorem dropCount?_int (k : Int64) :
    (Value.int k).dropCount? = if 0 ≤ k.toInt then some k.toInt.toNat else none := by
  have hindex : (Value.int k).toIndex = if 0 ≤ k.toInt then .ok k.toInt.toNat
      else .error (.about .arrayIndex (toString k.toInt)) := rfl
  have hcount : (Value.int k).dropCount? = (Value.int k).toIndex.toOption := rfl
  rw [hcount, hindex]
  split <;> rfl

/-- What is no index is refused as one. -/
theorem kind_of_toIndex {f : Fault} (h : v.toIndex = .error f) : f.kind = .arrayIndex := by
  unfold toIndex at h
  split at h
  · rename_i hnumeric
    obtain ⟨k, hint⟩ : ∃ k, v.toInt64 = .ok k := by
      unfold kind at hnumeric
      unfold toInt64
      cases hvalue : v.unwrapped with
      | byte n | int32 n | int n | int64 n | float32 n | float64 n => exact ⟨_, rfl⟩
      | _ => simp [hvalue, Kind.isNumeric, Kind.rank] at hnumeric
    rw [hint] at h
    simp only [Bind.bind, Except.bind] at h
    split at h
    · cases h
    · cases h
      rfl
  · cases h
    rfl

end Value

/-- The kind of a fault. -/
def Halt.kind? : Halt → Option FaultKind
  | .fault f => some f.kind
  | .blocked => none

namespace Exec

/-- Both succeed, or both fail with a fault of the same kind, and leave the same operand stack. -/
def Agree (r s : Except Halt Unit × Machine) : Prop :=
  r.1.mapError Halt.kind? = s.1.mapError Halt.kind? ∧ r.2.context.stack = s.2.context.stack

variable {v : Value} {n : Nat}

theorem execute_drop (h : v.dropCount? = some n) : execute ⟨.drop, v⟩ = dropMany n := by
  show (operandCount v 1 >>= dropMany) = dropMany n
  rw [operandCount_eq h, pure_bind]

/-- A drop that refuses its operand takes nothing. -/
theorem outcome_drop_of_refused (h : v.dropCount? = none) (m : Machine) :
    ∃ f : Fault, f.kind = .arrayIndex ∧
      outcome (execute ⟨.drop, v⟩) m = (.error (.fault f), m) := by
  unfold Value.dropCount? Value.count? at h
  split at h
  · cases h
  · rename_i hnull
    cases hindex : v.toIndex with
    | ok a => simp [hindex, Except.toOption] at h
    | error f =>
      refine ⟨f, Value.kind_of_toIndex hindex, ?_⟩
      have hcount : outcome (operandCount v 1) m = (.error (.fault f), m) := by
        rw [operandCount, if_neg hnull, hindex]
        rfl
      exact outcome_bind_error hcount

theorem dropMany_add (j k : Nat) :
    dropMany (j + k) = dropMany j >>= fun _ => dropMany k := by
  induction j with
  | zero => rw [Nat.zero_add, dropMany, pure_bind]
  | succ j ih => simp only [Nat.succ_add, dropMany, ih, bind_assoc]

/-- Two drops that take their operands are the drop of both counts. -/
theorem executeAll_drops {a b : Value} {j k : Nat} (ha : a.dropCount? = some j)
    (hb : b.dropCount? = some k) :
    executeAll [⟨.drop, a⟩, ⟨.drop, b⟩] = dropMany (j + k) := by
  rw [executeAll, executeAll_singleton, execute_drop ha, execute_drop hb, dropMany_add]

/-- Where a drop refuses its operand, what follows is not executed. -/
theorem outcome_executeAll_of_refused (h : v.dropCount? = none) (rest : List Instruction)
    (m : Machine) : ∃ f : Fault, f.kind = .arrayIndex ∧
      outcome (executeAll (⟨.drop, v⟩ :: rest)) m = (.error (.fault f), m) := by
  obtain ⟨f, hkind, hout⟩ := outcome_drop_of_refused h m
  exact ⟨f, hkind, outcome_bind_error hout⟩

/-- Where the second of two drops refuses its operand, the first has been executed. -/
theorem outcome_executeAll_of_second_refused {a b : Value} (ha : a.dropCount? = some n)
    (hb : b.dropCount? = none) {m m' : Machine} (h : outcome (dropMany n) m = (.ok (), m')) :
    ∃ f : Fault, f.kind = .arrayIndex ∧
      outcome (executeAll [⟨.drop, a⟩, ⟨.drop, b⟩]) m = (.error (.fault f), m') := by
  obtain ⟨f, hkind, hout⟩ := outcome_executeAll_of_refused hb [] m'
  refine ⟨f, hkind, ?_⟩
  rw [executeAll, execute_drop ha, outcome_bind_ok h, hout]

/-! ### Drops on a stack of some size -/

/-- A machine whose running function has `n` operands. -/
def laden (n : Nat) : Machine :=
  { (default : Machine) with
    context := { (default : Context) with stack := Array.replicate n (.value .null) } }

theorem outcome_dropMany_laden (k n : Nat) :
    outcome (dropMany k) (laden n) =
      if k ≤ n then (.ok (), laden (n - k))
      else (.error (.fault (.bare .stackUnderflow)), laden 0) := by
  induction k generalizing n with
  | zero => rfl
  | succ k ih =>
    cases n with
    | zero => rfl
    | succ n =>
      have hpop : outcome (discard pop) (laden (n + 1)) = (.ok (), laden n) := by
        have htop : outcome pop (laden (n + 1)) = (.ok .null, laden n) := by
          have hstack : (laden (n + 1)).context.stack
              = (laden n).context.stack.push (.value .null) := Array.replicate_succ
          have hsize : (laden (n + 1)).context.stack.size = n + 1 := Array.size_replicate
          have hfp : (laden (n + 1)).context.fp = 0 := rfl
          rw [pop, outcome_bind_ok (outcome_get _), if_neg (by omega), hstack, Array.back?_push]
          show (_, (laden (n + 1)).withStack (laden (n + 1)).context.stack.pop) = _
          rw [hstack, Array.pop_push]
          rfl
        show outcome (pop >>= fun _ => Pure.pure ()) _ = _
        rw [outcome_bind_ok htop]
        rfl
      rw [dropMany, outcome_bind_ok hpop, ih, Nat.add_sub_add_right]
      simp only [Nat.add_le_add_iff_right]

end Exec

namespace Peephole

open Exec

/-- The rule that merges drops. -/
def mergeDrops : Rule :=
  ⟨"Sequential Drops", [(.drop, .summed 0), (.drop, .summed 0)], [(.drop, .register 0)]⟩

variable {h : Heap} {a b : Value} {registers : Registers}

/-- The rule fires on operands with summands, and finds their sum. -/
theorem summands_of_match (hmatch : mergeDrops.match? h [⟨.drop, a⟩, ⟨.drop, b⟩] = some registers) :
    ∃ j k, a.summand? = some j ∧ b.summand? = some k ∧ registers = [(0, .int (j + k))] := by
  have hsummed : ∀ (v : Value) (held : Registers), matchOperand h held v (.summed 0)
      = v.summand?.map fun n => Assoc.insert 0
        (.int (((held.lookup 0).bind fun u => u.toInt64.toOption).getD 0 + n)) held := by
    intro v held
    unfold matchOperand Value.summand?
    dsimp only
    split
    · rename_i n hstep
      split at hstep
      · rename_i hnull
        cases hstep
        rw [if_pos hnull]
        rfl
      · rename_i hnull
        rw [if_neg hnull, hstep]
        rfl
    · rename_i f hstep
      split at hstep
      · cases hstep
      · rename_i hnull
        rw [if_neg hnull, hstep]
        rfl
  have hall : mergeDrops.match? h [⟨.drop, a⟩, ⟨.drop, b⟩]
      = (matchOperand h [] a (.summed 0)).bind fun held =>
        (matchOperand h held b (.summed 0)).bind fun held => some held := rfl
  rw [hall, hsummed] at hmatch
  cases ha : a.summand? with
  | none => simp [ha] at hmatch
  | some j =>
    rw [ha, Option.map_some, Option.bind_some, hsummed] at hmatch
    cases hb : b.summand? with
    | none => simp [hb] at hmatch
    | some k =>
      rw [hb] at hmatch
      refine ⟨j, k, rfl, rfl, ?_⟩
      cases hmatch
      show [(0, Value.int (0 + j + k))] = _
      rw [Int64.zero_add]

/-- What the rule puts in place of two drops. -/
theorem run_replacementFor_mergeDrops (ops : List Instruction) (registers : Registers) (w : World) :
    (replacementFor ops registers mergeDrops.replacement).run w
      = (some [⟨.drop, (registers.lookup 0).getD .null⟩], w) := rfl

/-- The sum of the summands fits the integer that holds it, and the merged drop does on every machine
what the two drops do one after the other. -/
def MergesSoundly (a b : Value) (j k : Int64) (merged : List Instruction) : Prop :=
  -2 ^ 63 ≤ j.toInt + k.toInt ∧ j.toInt + k.toInt < 2 ^ 63 ∧
    ∀ m : Machine, Agree (outcome (executeAll merged) m)
      (outcome (executeAll [⟨.drop, a⟩, ⟨.drop, b⟩]) m)

/-- The drops that the rule merges soundly: both take their operands, or the first does nothing and
the sum is refused as well. -/
def Mergeable (a b : Value) (j k : Int64) : Prop :=
  (∃ n l, a.dropCount? = some n ∧ b.dropCount? = some l ∧ n + l < 2 ^ 63) ∨
    ((a.dropCount? = none ∨ a.dropCount? = some 0) ∧
      -2 ^ 63 ≤ j.toInt + k.toInt ∧ j.toInt + k.toInt < 0)

section

variable {j k : Int64}

theorem toInt_add (hlow : -2 ^ 63 ≤ j.toInt + k.toInt) (hhigh : j.toInt + k.toInt < 2 ^ 63) :
    (j + k).toInt = j.toInt + k.toInt := by
  rw [Int64.toInt_add]
  exact Int.bmod_eq_of_le (by omega) (by omega)

/-- Drops that both take their operands are merged soundly, if the sum fits. -/
theorem mergesSoundly_of_counts {n l : Nat} (ha : a.dropCount? = some n) (hb : b.dropCount? = some l)
    (hj : j.toInt = n) (hk : k.toInt = l) (hfits : n + l < 2 ^ 63) :
    MergesSoundly a b j k [⟨.drop, .int (j + k)⟩] := by
  have hlow : -2 ^ 63 ≤ j.toInt + k.toInt := by omega
  have hhigh : j.toInt + k.toInt < 2 ^ 63 := by omega
  have hsum : (Value.int (j + k)).dropCount? = some (n + l) := by
    rw [Value.dropCount?_int, toInt_add hlow hhigh, if_pos (by omega)]
    congr 1
    omega
  have hmerged : executeAll [⟨.drop, .int (j + k)⟩] = executeAll [⟨.drop, a⟩, ⟨.drop, b⟩] := by
    rw [executeAll_drops ha hb, executeAll_singleton, execute_drop hsum]
  exact ⟨hlow, hhigh, fun m => by rw [hmerged]; exact ⟨rfl, rfl⟩⟩

/-- A sum that is no count has to come of a first drop that does nothing. -/
theorem idle_of_refused (hrefused : (Value.int (j + k)).dropCount? = none)
    (h : ∀ m : Machine, Agree (outcome (executeAll [⟨.drop, .int (j + k)⟩]) m)
      (outcome (executeAll [⟨.drop, a⟩, ⟨.drop, b⟩]) m)) :
    a.dropCount? = none ∨ a.dropCount? = some 0 := by
  rcases ha : a.dropCount? with - | - | n
  · exact .inl rfl
  · exact .inr rfl
  · obtain ⟨f, hkind, hmerged⟩ := outcome_executeAll_of_refused hrefused [] (laden 0)
    have hboth : outcome (executeAll [⟨.drop, a⟩, ⟨.drop, b⟩]) (laden 0)
        = (.error (.fault (.bare .stackUnderflow)), laden 0) := by
      refine outcome_bind_error ?_
      rw [execute_drop ha, outcome_dropMany_laden, if_neg (by omega)]
    have hagree := (h (laden 0)).1
    rw [hmerged, hboth] at hagree
    have hkinds : some f.kind = some FaultKind.stackUnderflow := Except.error.inj hagree
    rw [hkind] at hkinds
    cases hkinds

/-- A sum that is a count has to come of two counts. -/
theorem counts_of_count {n : Nat} (hsum : (Value.int (j + k)).dropCount? = some n)
    (h : ∀ m : Machine, Agree (outcome (executeAll [⟨.drop, .int (j + k)⟩]) m)
      (outcome (executeAll [⟨.drop, a⟩, ⟨.drop, b⟩]) m)) :
    ∃ p q, a.dropCount? = some p ∧ b.dropCount? = some q := by
  have hmerged : executeAll [⟨.drop, .int (j + k)⟩] = dropMany n := by
    rw [executeAll_singleton, execute_drop hsum]
  rw [hmerged] at h
  rcases ha : a.dropCount? with - | p
  · obtain ⟨f, -, hboth⟩ := outcome_executeAll_of_refused ha [⟨.drop, b⟩] (laden n)
    have hagree := (h (laden n)).1
    rw [hboth, outcome_dropMany_laden, if_pos (Nat.le_refl n)] at hagree
    cases hagree
  rcases hb : b.dropCount? with - | q
  · have hfirst : outcome (dropMany p) (laden (p + n)) = (.ok (), laden n) := by
      rw [outcome_dropMany_laden, if_pos (by omega), Nat.add_sub_cancel_left]
    obtain ⟨f, -, hboth⟩ := outcome_executeAll_of_second_refused ha hb hfirst
    have hagree := (h (laden (p + n))).1
    rw [hboth, outcome_dropMany_laden, if_pos (by omega)] at hagree
    cases hagree
  · exact ⟨p, q, rfl, rfl⟩

/-- **The drops that are merged soundly.** -/
theorem mergesSoundly_iff (ha : a.summand? = some j) (hb : b.summand? = some k) :
    MergesSoundly a b j k [⟨.drop, .int (j + k)⟩] ↔ Mergeable a b j k := by
  have hsum := Value.dropCount?_int (j + k)
  constructor
  · rintro ⟨hlow, hhigh, hagree⟩
    rw [toInt_add hlow hhigh] at hsum
    split at hsum
    · obtain ⟨p, q, hp, hq⟩ := counts_of_count hsum hagree
      have hj := Value.toInt_summand ha hp
      have hk := Value.toInt_summand hb hq
      exact .inl ⟨p, q, hp, hq, by omega⟩
    · exact .inr ⟨idle_of_refused hsum hagree, hlow, by omega⟩
  · rintro (⟨p, q, hp, hq, hfits⟩ | ⟨hidle, hlow, hneg⟩)
    · exact mergesSoundly_of_counts hp hq (Value.toInt_summand ha hp) (Value.toInt_summand hb hq)
        hfits
    · have hhigh : j.toInt + k.toInt < 2 ^ 63 := by omega
      rw [toInt_add hlow hhigh, if_neg (by omega)] at hsum
      refine ⟨hlow, hhigh, fun m => ?_⟩
      obtain ⟨f, hkind, hmerged⟩ := outcome_executeAll_of_refused hsum [] m
      obtain ⟨g, hgkind, hboth⟩ : ∃ g : Fault, g.kind = .arrayIndex ∧
          outcome (executeAll [⟨.drop, a⟩, ⟨.drop, b⟩]) m = (.error (.fault g), m) := by
        rcases hidle with hnone | hzero
        · exact outcome_executeAll_of_refused hnone _ m
        · -- the second summand alone is negative, and so no count
          have hj := Value.toInt_summand ha hzero
          refine outcome_executeAll_of_second_refused hzero ?_ rfl
          rcases hq : b.dropCount? with - | q
          · rfl
          · have hk := Value.toInt_summand hb hq
            omega
      rw [hmerged, hboth]
      refine ⟨?_, rfl⟩
      show Except.error (some f.kind) = Except.error (some g.kind)
      rw [hkind, hgkind]

end

/-- **Which merged drops are sound.** Where the rule fires on two drops, it puts one drop in their
place. That the sum fits the integer and that the merged drop succeeds, fails in the same way and
leaves the same stack as the two drops, on every machine, holds if and only if both drops take their
operands and the counts together fit, or the first drop does nothing and the sum is negative. -/
theorem drops_merge_iff (hmatch : mergeDrops.match? h [⟨.drop, a⟩, ⟨.drop, b⟩] = some registers)
    (w : World) : ∃ j k merged, a.summand? = some j ∧ b.summand? = some k ∧
      (replacementFor [⟨.drop, a⟩, ⟨.drop, b⟩] registers mergeDrops.replacement).run w
        = (some [merged], w) ∧
      (MergesSoundly a b j k [merged] ↔ Mergeable a b j k) := by
  obtain ⟨j, k, ha, hb, rfl⟩ := summands_of_match hmatch
  exact ⟨j, k, _, ha, hb, run_replacementFor_mergeDrops _ _ w, mergesSoundly_iff ha hb⟩

/-- Dropping minus one operand is a fault, and so is not what dropping one operand less does. -/
theorem drops_merge_iff_of_negative :
    mergeDrops.match? {} [⟨.drop, .int (-1)⟩, ⟨.drop, .int 2⟩] = some [(0, .int 1)] ∧
      ¬ MergesSoundly (.int (-1)) (.int 2) (-1) 2 [⟨.drop, .int 1⟩] := by
  have hmatch : mergeDrops.match? {} [⟨.drop, .int (-1)⟩, ⟨.drop, .int 2⟩]
      = some [(0, .int 1)] := by rfl
  refine ⟨hmatch, fun hsound => ?_⟩
  obtain ⟨j, k, merged, hj, hk, hrun, hiff⟩ := drops_merge_iff hmatch {}
  cases hj
  cases hk
  cases hrun
  rcases hiff.1 hsound with ⟨n, l, hn, -⟩ | ⟨-, -, hneg⟩
  · rw [Value.dropCount?_int, if_neg (by decide)] at hn
    cases hn
  · revert hneg
    decide

end Peephole

end ScriptMachine
