import ScriptMachine.Proofs.Literals.Copies
import ScriptMachine.Proofs.Peephole.Sweeps

/-!
# Values found in advance

Operators on literals come to the same on every machine, and so do the fragments by which their values
are found in advance. The search for a rule does not depend on the world but for this.

* `SettlesOn`: an instruction that takes operands and pushes a value or fails, on every machine.
* `exists_comesTo`, `steady_folded`: what operators on literals come to.
* `outcome_of_folded`: a value that was folded is what the instructions push.
* `run_findReplacement`: the replacement that is found at an address.
-/

namespace ScriptMachine

namespace Peephole

open Exec

variable {m : Machine} {h : Heap} {w : World} {i : Instruction} {ops : List Instruction}
  {values : List Value} {a b v : Value} {op : Opcode} {rule : Rule}

/-! ### Literals -/

/-- A scalar is a boolean, a number or a string. -/
theorem isLeaf_of_isScalar (hv : v.kind.isScalar = true) : v.unwrapped.isLeaf = true := by
  unfold Value.kind at hv
  revert hv
  cases v.unwrapped <;> intro hv <;> first | rfl | cases hv

theorem isMarker_of_isScalar (hv : v.kind.isScalar = true) : v.isMarker = false := by
  cases v with
  | marker l => cases hv
  | _ => rfl

theorem isNull_of_isScalar (hv : v.kind.isScalar = true) : v.isNull = false := by
  unfold Value.isNull
  unfold Value.kind at hv
  revert hv
  cases v.unwrapped <;> intro hv <;> first | rfl | cases hv

/-- The value is a scalar, and not wrapped. -/
structure Bare (v : Value) : Prop where
  isScalar : v.kind.isScalar = true
  unwrapped_eq : v.unwrapped = v

theorem bare_ofInt64 (k : Kind) (n : Int64) : Bare (Value.ofInt64 k n) := by
  unfold Value.ofInt64
  split <;> exact ⟨rfl, rfl⟩

theorem bare_arithmetic (op : Operation) (a b : Value) :
    Ensures (ScriptMachine.arithmetic op a b) Bare := by
  unfold ScriptMachine.arithmetic
  split
  · exact .map fun _ => ⟨rfl, rfl⟩
  · exact .map fun _ => ⟨rfl, rfl⟩
  · split
    · exact .bind (.any _) fun _ _ => .bind (.any _) fun _ _ => .bind (.any _) fun _ _ =>
        .ok (bare_ofInt64 _ _)
    · exact .error _

theorem bare_negated (v : Value) : Ensures (ScriptMachine.negated v) Bare := by
  unfold ScriptMachine.negated
  split <;> first | exact .ok ⟨rfl, rfl⟩ | exact .error _

/-- A push of what is no container. -/
theorem outcome_push_leaf (hv : v.unwrapped.isLeaf = true) (m : Machine) :
    outcome (execute ⟨.push, v⟩) m = (.ok (), m.onto [v.unwrapped]) := by
  have hcopy : outcome (onHeap (Heap.deepCopy v.unwrapped)) m = (.ok v.unwrapped, m) := by
    have hrun : (Heap.deepCopy v.unwrapped).run m.world.heap = (v.unwrapped, m.world.heap) :=
      Heap.copyWithin_of_isLeaf hv _ _
    show (Except.ok ((Heap.deepCopy v.unwrapped).run m.world.heap).1, { m with
      world := { m.world with heap := ((Heap.deepCopy v.unwrapped).run m.world.heap).2 } }) = _
    rw [hrun]
  show outcome (onHeap (Heap.deepCopy v.unwrapped) >>= push) m = _
  rw [outcome_bind_ok hcopy, outcome_push, Machine.onto, List.map_singleton, ← Array.push_eq_append]
  rfl

theorem computes_push (hv : v.unwrapped.isLeaf = true) :
    Computes ⟨.push, v⟩ h values fun h' values' => h' = h ∧ values' = values ++ [v.unwrapped] := by
  intro code k m hm hheap hstack
  refine ⟨h, _, ⟨rfl, rfl⟩, ?_⟩
  rw [outcome_push_leaf hv, Machine.onto, hstack, ← hheap, List.append_toArray, ← List.map_append]
  rfl

/-- The opcodes of operators that are computed in advance. -/
def isOperator (op : Opcode) : Bool := op = .add || op = .sub || op = .mul || op = .div

/-- The result of an action that pushes a value or fails. -/
def settled (m : Machine) : Except Fault Value → Except Halt Unit × Machine
  | .ok v => (.ok (), m.onto [v])
  | .error f => (.error (.fault f), m)

/-- Whatever the machine, an action pushes a certain value or fails with a certain fault. -/
structure SettlesAs (act : Machine → Except Halt Unit × Machine) (r : Except Fault Value) : Prop where
  bare : Ensures r Bare
  eq : ∀ m : Machine, m.context.fp ≤ m.context.stack.size → act m = settled m r

/-- Once it has taken its operands, an action pushes a value or fails, whatever else the machine
holds. -/
def Settles (act : Exec Unit) : Prop := ∃ r, SettlesAs (outcome act) r

/-- An instruction takes the given operands and pushes a value or fails. -/
def SettlesOn (i : Instruction) (values : List Value) : Prop :=
  ∃ r, SettlesAs (fun m => outcome (execute i) (m.onto values)) r

theorem settles_push (hv : Bare v) : Settles (push v) := by
  refine ⟨.ok v, .ok hv, fun m _ => ?_⟩
  rw [outcome_push, settled, Machine.onto, List.map_singleton, ← Array.push_eq_append]
  rfl

theorem settles_lift {α : Type} {next : α → Exec Unit} (r : Except Fault α)
    (hnext : ∀ a, r = .ok a → Settles (next a)) : Settles ((liftM r : Exec α) >>= next) := by
  cases r with
  | error f => exact ⟨.error f, .error f, fun _ _ => rfl⟩
  | ok a => exact hnext a rfl

/-- A value is computed and pushed. -/
theorem settles_computed {r : Except Fault Value} (hr : Ensures r Bare) :
    Settles ((liftM r : Exec Value) >>= push) := settles_lift r fun v hv => settles_push (hr v hv)

/-- An operator on two scalars comes to the same in every world. -/
theorem operator_settlesOn (hop : isOperator op = true) (operand : Value)
    (ha : a.kind.isScalar = true) (hb : b.kind.isScalar = true) :
    SettlesOn ⟨op, operand⟩ [a, b] := by
  have hpop : ∀ {next : Value × Value → Exec Unit}, Settles (next (a.unwrapped, b.unwrapped)) →
      ∃ r, SettlesAs (fun m => outcome (popOperands >>= next) (m.onto [a, b])) r := by
    rintro next ⟨r, hbare, hr⟩
    exact ⟨r, hbare, fun m hfp => (outcome_bind_ok (outcome_popOperands_onto hfp
      (isMarker_of_isScalar ha) (isMarker_of_isScalar hb) (isNull_of_isScalar ha)
      (isNull_of_isScalar hb))).trans (hr m hfp)⟩
  have hfirst : ∀ {x y : Value}, (a.unwrapped, b.unwrapped) = (x, y) → x.kind.isScalar = true := by
    intro x y h
    rw [← (Prod.mk.inj h).1, Value.kind_unwrapped]
    exact ha
  cases op with
  | add =>
    refine hpop ?_
    split
    iterate 5
      · rename_i h
        cases hfirst h
    · refine settles_lift _ fun p _ => ?_
      split
      · exact settles_push ⟨rfl, rfl⟩
      · exact settles_push ⟨rfl, rfl⟩
      · exact settles_computed (bare_arithmetic _ _ _)
  | sub =>
    refine hpop ?_
    split
    · rename_i h
      cases hfirst h
    · refine settles_lift _ fun p _ => ?_
      split
      · exact settles_push ⟨rfl, rfl⟩
      · exact settles_computed (bare_arithmetic _ _ _)
  | mul =>
    refine hpop (settles_lift _ fun p _ => ?_)
    split
    · exact settles_push ⟨rfl, rfl⟩
    · exact settles_computed (bare_arithmetic _ _ _)
  | div => exact hpop (settles_computed (.bind (.any _) fun _ _ => bare_arithmetic _ _ _))
  | _ => cases hop

theorem negate_settlesOn (operand : Value) (ha : a.kind.isScalar = true) :
    SettlesOn ⟨.negate, operand⟩ [a] := by
  have hpop : ∀ {next : Value → Exec Unit}, Settles (next a.unwrapped) →
      ∃ r, SettlesAs (fun m => outcome (popUnwrapped >>= next) (m.onto [a])) r := by
    rintro next ⟨r, hbare, hr⟩
    exact ⟨r, hbare, fun m hfp =>
      (outcome_bind_ok (outcome_popUnwrapped_onto hfp (isMarker_of_isScalar ha))).trans (hr m hfp)⟩
  refine hpop ?_
  split
  · rename_i h
    rw [← Value.kind_unwrapped, h] at ha
    cases ha
  · exact settles_computed (bare_negated _)

/-! ### What fragments come to -/

/-- A computation that comes to the same in every world and leaves the objects alone. -/
def Steady {α : Type} (act : WorldM α) : Prop :=
  ∃ a, ∀ w : World, (act.run w).1 = a ∧ (act.run w).2.heap = w.heap

theorem Steady.pure {α : Type} (a : α) : Steady (Pure.pure a : WorldM α) := ⟨a, fun _ => ⟨rfl, rfl⟩⟩

theorem Steady.bind {α β : Type} {act : WorldM α} {next : α → WorldM β} (hact : Steady act)
    (hnext : ∀ a, Steady (next a)) : Steady (act >>= next) := by
  obtain ⟨a, ha⟩ := hact
  obtain ⟨b, hb⟩ := hnext a
  refine ⟨b, fun w => ?_⟩
  obtain ⟨hvalue, hheap⟩ := ha w
  rw [StateT.run_bind]
  show ((next (act.run w).1).run (act.run w).2).1 = b ∧
    ((next (act.run w).1).run (act.run w).2).2.heap = w.heap
  rw [hvalue, ← hheap]
  exact hb _

/-- An instruction that settles on its operands computes the same on all objects. -/
theorem computation_of_settlesAs {r : Except Fault Value} (hdirect : i.op.isDirect = true)
    (hi : SettlesAs (fun m => outcome (execute i) (m.onto values)) r) (h : Heap) :
    Computation (fun h' r' => h' = h ∧ r' = r.toOption) [i] h values := by
  have hout : ∀ {m : Machine}, m.context.fp = 0 → m.context.stack = (values.map Slot.value).toArray →
      outcome (execute i) m = settled (m.withStack #[]) r := by
    intro m hfp hstack
    have hall := hi.eq (m.withStack #[]) (Nat.le_of_eq hfp)
    rwa [Machine.withStack_onto hstack] at hall
  cases r with
  | ok v =>
    refine .step (fun h' values' => h' = h ∧ values' = [v]) hdirect ?_ ?_
    · rintro code k m hm rfl hstack
      refine ⟨_, _, ⟨rfl, rfl⟩, (hout hm.fp_eq hstack).trans ?_⟩
      rw [settled, Machine.onto]
      show (_, m.withStack (#[] ++ _)) = _
      rw [Array.empty_append]
      rfl
    · rintro h' values' ⟨rfl, rfl⟩
      exact .done ⟨rfl, rfl⟩
  | error f =>
    refine .refuse hdirect ?_
    rintro code k m hm rfl hstack
    exact ⟨f, _, hout hm.fp_eq hstack, ⟨rfl, rfl⟩, rfl⟩

theorem Computation.push {post : Heap → Option Value → Prop} (hv : v.unwrapped.isLeaf = true)
    (hrest : Computation post ops h (values ++ [v.unwrapped])) :
    Computation post (⟨.push, v⟩ :: ops) h values := by
  refine .step _ rfl (computes_push hv) ?_
  rintro h' values' ⟨rfl, rfl⟩
  exact hrest

/-- The runs of instructions whose value is found in advance. -/
inductive IsFolded : List Instruction → Prop
  | operator {op : Opcode} {a b operand : Value} (hop : isOperator op = true) :
      IsFolded [⟨.push, a⟩, ⟨.push, b⟩, ⟨op, operand⟩]
  | negation {a operand : Value} : IsFolded [⟨.push, a⟩, ⟨.negate, operand⟩]

theorem isDirect_of_isOperator (hop : isOperator op = true) : op.isDirect = true := by
  cases op <;> first | rfl | cases hop

/-- What operators on literals come to: on every machine, and as a fragment in every world. -/
structure ComesTo (ops : List Instruction) (r : Except Fault Value) : Prop where
  settles : SettlesAs (outcome (executeAll ops)) r
  fragment : ∀ h, Computation (fun h' r' => h' = h ∧ r' = r.toOption) ops h []

/-- **Operators on literals** come to the same everywhere. -/
theorem exists_comesTo (hops : IsFolded ops)
    (hliterals : ∀ v, (⟨.push, v⟩ : Instruction) ∈ ops → v.kind.isScalar = true) :
    ∃ r, ComesTo ops r := by
  have hscalar : ∀ v, (⟨.push, v⟩ : Instruction) ∈ ops → v.unwrapped.kind.isScalar = true :=
    fun v hv => (congrArg Kind.isScalar v.kind_unwrapped).trans (hliterals v hv)
  have hleaf : ∀ v, (⟨.push, v⟩ : Instruction) ∈ ops → v.unwrapped.isLeaf = true :=
    fun v hv => isLeaf_of_isScalar (hliterals v hv)
  cases hops with
  | @operator op a b operand hop =>
    have ha := hleaf a (.head _)
    have hb := hleaf b (.tail _ (.head _))
    obtain ⟨r, hr⟩ :=
      operator_settlesOn hop operand (hscalar a (.head _)) (hscalar b (.tail _ (.head _)))
    refine ⟨r, ⟨hr.bare, fun m hfp => ?_⟩, fun h =>
      .push ha (.push hb (computation_of_settlesAs (isDirect_of_isOperator hop) hr h))⟩
    rw [executeAll, outcome_bind_ok (outcome_push_leaf ha m), executeAll,
      outcome_bind_ok (outcome_push_leaf hb _), executeAll_singleton, ← Machine.onto_cons]
    exact hr.eq m hfp
  | @negation a operand =>
    have ha := hleaf a (.head _)
    obtain ⟨r, hr⟩ := negate_settlesOn operand (hscalar a (.head _))
    refine ⟨r, ⟨hr.bare, fun m hfp => ?_⟩, fun h => .push ha (computation_of_settlesAs rfl hr h)⟩
    rw [executeAll, outcome_bind_ok (outcome_push_leaf ha m), executeAll_singleton]
    exact hr.eq m hfp

/-- The literals that are folded. -/
theorem literals_of_all (hall : (ops.all fun i => i.op ≠ .push || isLiteral i.operand) = true) :
    ∀ v, (⟨.push, v⟩ : Instruction) ∈ ops → v.kind.isScalar = true := by
  intro v hv
  simpa [isLiteral] using List.all_eq_true.1 hall _ hv

/-- What is folded is what the fragment comes to, and the objects stay as they are. -/
theorem run_folded_of_comesTo {r : Except Fault Value} (hr : ComesTo ops r) (w : World) :
    (StateT.run (m := Id) (do return (← runFragment ops.toArray).toOption) w).1 = r.toOption ∧
      (StateT.run (m := Id) (do return (← runFragment ops.toArray).toOption) w).2.heap = w.heap :=
  (run_runFragment_of_computation (w := w) (hr.fragment w.heap)).symm

/-- **The value of operators on literals** is the same in every world. -/
theorem steady_folded (hops : IsFolded ops) : Steady (folded ops) := by
  unfold folded
  split
  · rename_i hall
    obtain ⟨r, hr⟩ := exists_comesTo hops (literals_of_all hall)
    exact ⟨r.toOption, run_folded_of_comesTo hr⟩
  · exact .pure none

/-- **A value that was folded** is what the instructions push on every machine. -/
theorem outcome_of_folded (hops : IsFolded ops) (hfolded : ((folded ops).run w).1 = some v) :
    Bare v ∧ ∀ m : Machine, m.context.fp ≤ m.context.stack.size →
      outcome (executeAll ops) m = (.ok (), m.onto [v]) := by
  unfold folded at hfolded
  split at hfolded
  · rename_i hall
    obtain ⟨r, hr⟩ := exists_comesTo hops (literals_of_all hall)
    rw [(run_folded_of_comesTo hr w).1] at hfolded
    cases r with
    | error f => cases hfolded
    | ok u =>
      cases hfolded
      exact ⟨hr.settles.bare _ rfl, hr.settles.eq⟩
  · cases hfolded

/-! ### The search for a rule -/

/-- A rule that computes a value matches operators on pushes. -/
theorem isFolded_of_mem (hrule : rule ∈ rules) (hfolds : ∃ p ∈ rule.replacement, p.2 = .folded)
    (hops : ops.map (·.op) = rule.pattern.map (·.1)) : IsFolded ops := by
  have hpatterns : ∀ rule ∈ rules, (∃ p ∈ rule.replacement, p.2 = OperandSource.folded) →
      rule.pattern.map (·.1) = [.push, .negate] ∨
        ∃ op ∈ [Opcode.add, .sub, .mul, .div], rule.pattern.map (·.1) = [.push, .push, op] := by
    decide
  have hoperator : ∀ op ∈ [Opcode.add, .sub, .mul, .div], isOperator op = true := by decide
  rcases hpatterns rule hrule hfolds with hnegate | ⟨op, hop, hbinary⟩
  · rw [hnegate] at hops
    obtain ⟨⟨_, a⟩, rest, rfl, rfl, hrest⟩ := List.map_eq_cons_iff.1 hops
    obtain ⟨⟨_, operand⟩, rest, rfl, rfl, hnil⟩ := List.map_eq_cons_iff.1 hrest
    cases List.map_eq_nil_iff.1 hnil
    exact .negation
  · rw [hbinary] at hops
    obtain ⟨⟨_, a⟩, tail, rfl, rfl, htail⟩ := List.map_eq_cons_iff.1 hops
    obtain ⟨⟨_, b⟩, last, rfl, rfl, hlast⟩ := List.map_eq_cons_iff.1 htail
    obtain ⟨⟨_, operand⟩, rest, rfl, rfl, hnil⟩ := List.map_eq_cons_iff.1 hlast
    cases List.map_eq_nil_iff.1 hnil
    exact .operator (hoperator _ hop)

/-- The replacement of a rule is built in the same way in every world. -/
theorem steady_replacementFor {sources : List (Opcode × OperandSource)} (registers : Registers)
    (h : (∃ p ∈ sources, p.2 = .folded) → IsFolded ops) :
    Steady (replacementFor ops registers sources) := by
  induction sources with
  | nil => exact .pure _
  | cons p sources ih =>
    obtain ⟨op, source⟩ := p
    have hoperand : Steady (operandFrom ops registers source) := by
      cases source with
      | absent => exact .pure _
      | register r => exact .pure _
      | folded => exact steady_folded (h ⟨_, .head _, rfl⟩)
    refine hoperand.bind fun operand => ?_
    cases operand with
    | none => exact .pure _
    | some operand =>
      exact (ih fun ⟨p, hp, hfolds⟩ => h ⟨p, .tail _ hp, hfolds⟩).bind fun _ => .pure _

/-- A rule applies at an address: the run is open, the pattern matches it, and the replacement can
be built. -/
structure Applies (h : Heap) (c : Code) (address : Nat) (rule : Rule) : Prop where
  open_eq : isOpen c address rule = true
  builds : ∃ registers, rule.match? h (window c address rule) = some registers ∧
    ∃ (w : World) (replacement : List Instruction),
      ((replacementFor (window c address rule) registers rule.replacement).run w).1
        = some replacement

/-- **The search for a rule** leaves the objects alone and finds one exactly if one applies. -/
theorem run_findReplacement {candidates : List Rule} (hcandidates : candidates ⊆ rules)
    (c : Code) (address : Nat) (w : World) :
    ((findReplacement c address candidates).run w).2.heap = w.heap ∧
      (((findReplacement c address candidates).run w).1 = none ↔
        ∀ rule ∈ candidates, ¬ Applies w.heap c address rule) := by
  induction candidates generalizing w with
  | nil => exact ⟨rfl, iff_of_true rfl nofun⟩
  | cons rule rest ih =>
    have hrule : rule ∈ rules := hcandidates (.head _)
    have hlater := ih (List.subset_of_cons_subset hcandidates)
    have hforall : (∀ candidate ∈ rule :: rest, ¬ Applies w.heap c address candidate) ↔
        ¬ Applies w.heap c address rule ∧
          ∀ candidate ∈ rest, ¬ Applies w.heap c address candidate := List.forall_mem_cons
    rw [run_findReplacement_cons, hforall]
    split
    · rename_i hnone
      have hnot : ¬ Applies w.heap c address rule := by
        rintro ⟨hopen, registers, hmatch, -⟩
        rw [if_pos hopen, hmatch] at hnone
        cases hnone
      exact ⟨(hlater w).1, by rw [(hlater w).2, and_iff_right hnot]⟩
    · rename_i registers hsome
      split at hsome
      · rename_i hopen
        have hsteady : Steady
            (replacementFor (window c address rule) registers rule.replacement) :=
          steady_replacementFor registers fun hfolds =>
            isFolded_of_mem hrule hfolds (ops_window hopen hsome)
        -- The rule finds the same replacement in every world, so this one tells whether it applies.
        obtain ⟨built, hbuilt⟩ := hsteady
        obtain ⟨hvalue, hheap⟩ := hbuilt w
        split
        · rename_i w₁ hrun
          rw [hrun] at hvalue hheap
          have hnot : ¬ Applies w.heap c address rule := by
            rintro ⟨-, registers', hmatch, v, replacement, hsome'⟩
            rw [hsome] at hmatch
            cases hmatch
            rw [(hbuilt v).1, ← hvalue] at hsome'
            cases hsome'
          refine ⟨(hlater w₁).1.trans hheap, ?_⟩
          rw [(hlater w₁).2, and_iff_right hnot]
          dsimp only at hheap
          rw [hheap]
        · rename_i replacement w₁ hrun
          rw [hrun] at hheap
          refine ⟨hheap, iff_of_false (Option.some_ne_none _) fun hnone => hnone.1 ?_⟩
          exact ⟨hopen, registers, hsome, w, replacement, by rw [hrun]⟩
      · cases hsome

end Peephole

end ScriptMachine
