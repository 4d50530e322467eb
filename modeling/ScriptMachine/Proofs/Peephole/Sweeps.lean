import ScriptMachine.Proofs.Code.Relocation
import ScriptMachine.Proofs.Peephole.Fragments

/-!
# The sweeps end

Optimization sweeps the code twice: once for the rules, with a few steps back after each replacement,
and once for structs of literals. Both sweeps end, whatever the code.

* `Code.tally`: how often an opcode occurs; `tally_spliced`: how a replacement changes that.
* `Peephole.Sweep`, `Peephole.StructSweep`: the two sweeps, as long as they take and without any way
  to fail.
* `exists_sweep`, `exists_structSweep`: each sweep ends, by a weight that every turn lowers, and is
  what the program computes.
* `optimized_terminates`: so optimization ends, and how many replacements it makes at most.
-/

namespace ScriptMachine

/-! ### Counting instructions -/

namespace Code

/-- How many instructions of the code have an opcode. -/
def tally (c : Code) (op : Opcode) : Nat := c.ops.countP (·.op = op)

variable {c : Code} {start count : Nat}

/-- The instructions before a run, the run, and those behind it. -/
theorem ops_eq_parts (h : start + count ≤ c.size) : c.ops = c.ops.extract 0 start ++
    c.ops.extract start (start + count) ++ c.ops.extract (start + count) c.size := by
  unfold size at h ⊢
  simp only [Array.extract_append_extract, Nat.max_eq_right h,
    Nat.max_eq_right (Nat.le_add_right start count), Nat.zero_le, Array.extract_size,
    Nat.min_eq_left]

/-- What a replacement takes away and what it brings. -/
theorem tally_spliced (h : start + count ≤ c.size) (replacement : Array Instruction) (op : Opcode) :
    (c.spliced start count replacement).tally op +
        (c.ops.extract start (start + count)).countP (·.op = op)
      = c.tally op + replacement.countP (·.op = op) := by
  have hshift : ∀ ops : Array Instruction,
      (ops.map (shiftPast (start + count) count replacement.size)).countP (·.op = op)
        = ops.countP (·.op = op) := by
    intro ops
    rw [Array.countP_map]
    refine Array.countP_congr fun i _ => ?_
    rw [Function.comp_apply, op_shiftPast]
  have htally : c.tally op = (c.ops.extract 0 start).countP (·.op = op) +
      (c.ops.extract start (start + count)).countP (·.op = op) +
      (c.ops.extract (start + count) c.size).countP (·.op = op) := by
    unfold tally
    conv_lhs => rw [ops_eq_parts h]
    rw [Array.countP_append, Array.countP_append]
  unfold tally at htally ⊢
  simp only [spliced, Array.countP_append, hshift]
  omega

end Code

namespace Peephole

variable {h : Heap} {c d e : Code} {w w₁ w₂ w₃ : World} {rule : Rule} {ops : List Instruction}
  {registers : Registers} {replacement : List Instruction} {address count n start : Nat} {v : Value}

/-! ### What the rules take and bring -/

theorem ops_of_matchAll {pattern : List (Opcode × OperandPattern)} {found : Registers}
    (hmatch : matchAll h registers pattern ops = some found) :
    (ops.take pattern.length).map (·.op) = pattern.map (·.1) := by
  induction pattern generalizing ops registers with
  | nil => rfl
  | cons p pattern ih =>
    obtain ⟨op, operand⟩ := p
    cases ops with
    | nil => cases hmatch
    | cons i ops =>
      rw [matchAll] at hmatch
      split at hmatch
      · rename_i hop
        obtain ⟨next, -, hrest⟩ := Option.bind_eq_some_iff.1 hmatch
        simp only [List.length_cons, List.take_succ_cons, List.map_cons, hop, ih hrest]
      · cases hmatch

theorem run_replacementFor_cons (op : Opcode) (source : OperandSource)
    (sources : List (Opcode × OperandSource)) (ops : List Instruction) (registers : Registers)
    (w : World) : (replacementFor ops registers ((op, source) :: sources)).run w =
      match (operandFrom ops registers source).run w with
      | (none, w₁) => (none, w₁)
      | (some operand, w₁) => ((replacementFor ops registers sources).run w₁).map
          (Option.map (⟨op, operand⟩ :: ·)) id := by
  rw [replacementFor, StateT.run_bind]
  rcases (operandFrom ops registers source).run w with ⟨_ | operand, w₁⟩ <;> rfl

theorem ops_of_replacementFor {sources : List (Opcode × OperandSource)}
    (hbuilt : (replacementFor ops registers sources).run w = (some replacement, w₁)) :
    replacement.map (·.op) = sources.map (·.1) := by
  induction sources generalizing replacement w with
  | nil =>
    cases hbuilt
    rfl
  | cons p sources ih =>
    rw [run_replacementFor_cons] at hbuilt
    split at hbuilt
    · cases hbuilt
    · rename_i operand w' hoperand
      rcases hrest : (replacementFor ops registers sources).run w' with ⟨_ | rest, w''⟩
      · rw [hrest] at hbuilt
        cases hbuilt
      · rw [hrest] at hbuilt
        cases hbuilt
        simp only [List.map_cons, ih hrest]

/-- How a rule lowers the number of instructions, counting loads twice, and keeps structs. -/
structure Lowers (taken brought : List Opcode) : Prop where
  length_le : brought.length ≤ taken.length
  pos : 0 < taken.length
  le_longest : taken.length ≤ longest
  weight_lt : brought.length + brought.count .load < taken.length + taken.count .load
  structs_eq : brought.count .struct = taken.count .struct

theorem lowers_of_mem (hrule : rule ∈ rules) :
    Lowers (rule.pattern.map (·.1)) (rule.replacement.map (·.1)) := by
  have hall : ∀ rule ∈ rules, ∀ taken brought, taken = rule.pattern.map (·.1) →
      brought = rule.replacement.map (·.1) → brought.length ≤ taken.length ∧ 0 < taken.length ∧
        taken.length ≤ longest ∧
        brought.length + brought.count .load < taken.length + taken.count .load ∧
        brought.count .struct = taken.count .struct := by
    rintro rule hrule taken brought rfl rfl
    revert rule
    decide
  obtain ⟨hlength, hpos, hlongest, hweight, hstructs⟩ := hall rule hrule _ _ rfl rfl
  exact ⟨hlength, hpos, hlongest, hweight, hstructs⟩

/-! ### The search for a rule -/

/-- The run of instructions that a rule would replace. -/
def window (c : Code) (address : Nat) (rule : Rule) : List Instruction :=
  (c.ops.extract address (address + rule.pattern.length)).toList

theorem mem_of_mem_window {i : Instruction} (h : i ∈ window c address rule) : i ∈ c.ops :=
  mem_of_mem_extract (Array.mem_toList_iff.1 h)

/-- Whether a rule may be tried at an address: the run is within the code, and no branch leads into
it. -/
def isOpen (c : Code) (address : Nat) (rule : Rule) : Bool :=
  !(c.size < address + rule.pattern.length ||
    c.branchesInto address (address + rule.pattern.length))

theorem run_findReplacement_cons (c : Code) (address : Nat) (rule : Rule) (rest : List Rule)
    (w : World) : (findReplacement c address (rule :: rest)).run w =
      match (if isOpen c address rule then rule.match? w.heap (window c address rule) else none) with
      | none => (findReplacement c address rest).run w
      | some registers =>
        match (replacementFor (window c address rule) registers rule.replacement).run w with
        | (none, w₁) => (findReplacement c address rest).run w₁
        | (some replacement, w₁) => (some (rule, replacement), w₁) := by
  cases hopen : isOpen c address rule with
  | false =>
    have hskip : (decide (c.size < address + rule.pattern.length) ||
        c.branchesInto address (address + rule.pattern.length)) = true := by
      rwa [isOpen, Bool.not_eq_false'] at hopen
    rw [findReplacement, if_pos hskip]
    rfl
  | true =>
    have hskip : (decide (c.size < address + rule.pattern.length) ||
        c.branchesInto address (address + rule.pattern.length)) = false := by
      rwa [isOpen, Bool.not_eq_true'] at hopen
    rw [findReplacement, if_neg (by rw [hskip]; exact Bool.false_ne_true), if_pos rfl,
      StateT.run_bind, StateT.run_get, pure_bind]
    dsimp only [window]
    generalize (c.ops.extract address (address + rule.pattern.length)).toList = ops
    cases rule.match? w.heap ops with
    | none => rfl
    | some registers =>
      dsimp only
      rw [StateT.run_bind]
      rcases (replacementFor ops registers rule.replacement).run w with ⟨_ | replacement, w₁⟩ <;> rfl

/-- What has been found: the rule is one of those tried, its run is open, its pattern matches the run,
and the replacement has been built from what it has captured. -/
theorem built_of_findReplacement {candidates : List Rule}
    (hfind : (findReplacement c address candidates).run w = (some (rule, replacement), w₁)) :
    rule ∈ candidates ∧ isOpen c address rule = true ∧
      ∃ (v v' : World) (registers : Registers),
        rule.match? v.heap (window c address rule) = some registers ∧
        (replacementFor (window c address rule) registers rule.replacement).run v
          = (some replacement, v') := by
  induction candidates generalizing w with
  | nil => cases hfind
  | cons candidate rest ih =>
    have hlater : ∀ w, (findReplacement c address rest).run w = (some (rule, replacement), w₁) →
        rule ∈ candidate :: rest ∧ isOpen c address rule = true ∧
          ∃ (v v' : World) (registers : Registers),
            rule.match? v.heap (window c address rule) = some registers ∧
            (replacementFor (window c address rule) registers rule.replacement).run v
              = (some replacement, v') := by
      intro w hfound
      obtain ⟨hmem, hrest⟩ := ih hfound
      exact ⟨.tail _ hmem, hrest⟩
    rw [run_findReplacement_cons] at hfind
    split at hfind
    · exact hlater w hfind
    · rename_i registers hmatch
      split at hfind
      · exact hlater _ hfind
      · rename_i built w' hbuilt
        cases hfind
        split at hmatch
        · rename_i hopen
          exact ⟨.head _, hopen, w, _, registers, hmatch, hbuilt⟩
        · cases hmatch

/-- The pattern and the replacement of what has been found tell the opcodes. -/
theorem found_of_findReplacement {candidates : List Rule}
    (hfind : (findReplacement c address candidates).run w = (some (rule, replacement), w₁)) :
    rule ∈ candidates ∧ isOpen c address rule = true ∧
      (∃ (h : Heap) (registers : Registers), rule.match? h (window c address rule) = some registers) ∧
      replacement.map (·.op) = rule.replacement.map (·.1) := by
  obtain ⟨hmem, hopen, v, v', registers, hmatch, hbuilt⟩ := built_of_findReplacement hfind
  exact ⟨hmem, hopen, ⟨v.heap, registers, hmatch⟩, ops_of_replacementFor hbuilt⟩

theorem le_size_of_isOpen (hopen : isOpen c address rule = true) :
    address + rule.pattern.length ≤ c.size := by
  unfold isOpen at hopen
  simp only [Bool.not_eq_true', Bool.or_eq_false_iff, decide_eq_false_iff_not, Nat.not_lt] at hopen
  exact hopen.1

theorem ops_window (hopen : isOpen c address rule = true) {registers : Registers} {h : Heap}
    (hmatch : rule.match? h (window c address rule) = some registers) :
    (window c address rule).map (·.op) = rule.pattern.map (·.1) := by
  have hlength : (window c address rule).length = rule.pattern.length := by
    have hle := le_size_of_isOpen hopen
    unfold Code.size at hle
    simp only [window, Array.length_toList, Array.size_extract]
    omega
  have hops := ops_of_matchAll hmatch
  rwa [← hlength, List.take_length] at hops

/-! ### The first sweep -/

/-- What the first sweep does with a replacement it has found. -/
def replace (c : Code) (address count : Nat) (rule : Rule) (replacement : List Instruction) :
    WorldM (Except Fault Code) := do
  if count = 0 then World.note .optimizer fun _ => s!"@@@ optimizing bytecode {c.name} @@@"
  World.note .optimizer fun _ => s!"optimization found in {c.name}: {rule.description}"
  c.patched address rule.pattern.length replacement.toArray

theorem run_replaceFrom_succ (steps : Nat) (c : Code) (address count : Nat) (w : World) :
    (replaceFrom (steps + 1) c address count).run w =
      if c.size ≤ address then ((c, count), w)
      else
        match (findReplacement c address rules).run w with
        | (none, w₁) => (replaceFrom steps c (address + 1) count).run w₁
        | (some (rule, replacement), w₁) =>
          match (replace c address count rule replacement).run w₁ with
          | (.ok c', w₂) => (replaceFrom steps c' (address - longest) (count + 1)).run w₂
          | (.error _, w₂) => ((c, count), w₂) := by
  rw [replaceFrom]
  split
  · rfl
  · rw [StateT.run_bind]
    rcases (findReplacement c address rules).run w with ⟨_ | ⟨rule, replacement⟩, w₁⟩
    · rfl
    · have hreplace : ∀ next : Except Fault Code → WorldM (Code × Nat),
          StateT.run (m := Id) (do
            if count = 0 then World.note .optimizer fun _ => s!"@@@ optimizing bytecode {c.name} @@@"
            World.note .optimizer fun _ => s!"optimization found in {c.name}: {rule.description}"
            next (← c.patched address rule.pattern.length replacement.toArray)) w₁
          = (next ((replace c address count rule replacement).run w₁).1).run
            ((replace c address count rule replacement).run w₁).2 := by
        intro next
        unfold replace
        split <;> rfl
      refine (hreplace _).trans ?_
      dsimp only
      rcases (replace c address count rule replacement).run w₁ with ⟨_ | c', w₂⟩ <;> rfl

theorem run_showEdit (c : Code) (start stop : Nat) (title : Unit → String) (w : World) :
    ∃ journal, (c.showEdit start stop title).run w = ((), { w with journal }) := by
  have hlines : ∀ (lines : List String) (w : World), ∃ journal,
      StateT.run (m := Id) (forIn lines PUnit.unit fun line _ => do
        World.note .byteCode fun _ => line
        return .yield PUnit.unit) w = (PUnit.unit, { w with journal }) := by
    intro lines
    induction lines with
    | nil => exact fun w => ⟨w.journal, rfl⟩
    | cons line lines ih =>
      intro w
      rw [List.forIn_cons]
      exact ih { w with journal := w.journal.note .byteCode fun _ => line }
  unfold Code.showEdit Code.disassemble
  rw [StateT.run_bind, StateT.run_get, pure_bind]
  dsimp only
  split
  · rw [StateT.run_bind]
    show ∃ journal, StateT.run (m := Id) (get >>= fun w : World => _) _ = _
    rw [StateT.run_bind, StateT.run_get, pure_bind]
    dsimp only
    split
    · exact hlines _ _
    · exact ⟨_, rfl⟩
  · exact ⟨w.journal, rfl⟩

theorem run_patched (hle : start + count ≤ c.size) (replacement : Array Instruction) (w : World) :
    ∃ journal, (c.patched start count replacement).run w
      = (.ok (c.spliced start count replacement), { w with journal }) := by
  unfold Code.patched
  rw [Code.patch_of_le hle]
  obtain ⟨j, hold⟩ := run_showEdit c start (start + count)
    (fun _ => s!"patching {c.name} at {start}, existing code:") w
  obtain ⟨j', hnew⟩ := run_showEdit (c.spliced start count replacement) start
    (start + replacement.size) (fun _ => "new code:") { w with journal := j }
  dsimp only
  rw [StateT.run_bind, hold]
  show ∃ journal, StateT.run (m := Id) (_ >>= _) { w with journal := j } = _
  rw [StateT.run_bind, hnew]
  exact ⟨j', rfl⟩

/-- A replacement that has been found succeeds. -/
theorem run_replace (hopen : isOpen c address rule = true) (count : Nat)
    (replacement : List Instruction) (w : World) :
    ∃ journal, (replace c address count rule replacement).run w
      = (.ok (c.spliced address rule.pattern.length replacement.toArray), { w with journal }) := by
  have hpatched := run_patched (le_size_of_isOpen hopen) replacement.toArray
  unfold replace
  split
  · obtain ⟨j, hj⟩ := hpatched { w with
      journal := (w.journal.note .optimizer fun _ => s!"@@@ optimizing bytecode {c.name} @@@").note
        .optimizer fun _ => s!"optimization found in {c.name}: {rule.description}" }
    exact ⟨j, hj⟩
  · obtain ⟨j, hj⟩ := hpatched { w with
      journal := w.journal.note
        .optimizer fun _ => s!"optimization found in {c.name}: {rule.description}" }
    exact ⟨j, hj⟩

/-- The first sweep from an address on, with the code, the number of replacements and the world that
it starts from and leaves. It takes as many turns as there are, and no turn fails. -/
inductive Sweep : Code → Nat → Nat → World → Code → Nat → World → Prop
  | done {c : Code} {address count : Nat} {w : World} (h : c.size ≤ address) :
      Sweep c address count w c count w
  | pass {c d : Code} {address count n : Nat} {w w₁ w' : World} (h : address < c.size)
      (hfind : (findReplacement c address rules).run w = (none, w₁))
      (rest : Sweep c (address + 1) count w₁ d n w') : Sweep c address count w d n w'
  | rewrite {c c' d : Code} {address count n : Nat} {w w₁ w₂ w' : World} {rule : Rule}
      {replacement : List Instruction} (h : address < c.size)
      (hfind : (findReplacement c address rules).run w = (some (rule, replacement), w₁))
      (hreplace : (replace c address count rule replacement).run w₁ = (.ok c', w₂))
      (rest : Sweep c' (address - longest) (count + 1) w₂ d n w') : Sweep c address count w d n w'

theorem count_ops (ops : List Instruction) (op : Opcode) :
    (ops.map (·.op)).count op = ops.toArray.countP (·.op = op) := by
  rw [List.countP_toArray, List.count, List.countP_map]
  exact List.countP_congr fun i _ => by simp

/-- How a replacement changes the code. -/
theorem replaced_lowers {c' : Code}
    (hfind : (findReplacement c address rules).run w = (some (rule, replacement), w₁))
    (hreplace : (replace c address count rule replacement).run w₁ = (.ok c', w₂)) :
    c'.size ≤ c.size ∧ c'.size + c'.tally .load < c.size + c.tally .load ∧
      c'.tally .struct = c.tally .struct := by
  obtain ⟨hrule, hopen, ⟨h, registers, hmatch⟩, hbrought⟩ := found_of_findReplacement hfind
  have hle := le_size_of_isOpen hopen
  obtain ⟨journal, hrun⟩ := run_replace hopen count replacement w₁
  rw [hreplace] at hrun
  cases hrun
  obtain ⟨hlength, -, -, hweight, hstructs⟩ := lowers_of_mem hrule
  have htaken := ops_window hopen hmatch
  have hcount : ∀ op, (c.ops.extract address (address + rule.pattern.length)).countP (·.op = op)
      = (rule.pattern.map (·.1)).count op := fun op => by rw [← htaken, count_ops]; rfl
  have hcount' : ∀ op, replacement.toArray.countP (·.op = op)
      = (rule.replacement.map (·.1)).count op := fun op => by rw [← hbrought, count_ops]
  have hload := Code.tally_spliced hle replacement.toArray .load
  have hstruct := Code.tally_spliced hle replacement.toArray .struct
  have hsize : (c.spliced address rule.pattern.length replacement.toArray).size
      = c.size - rule.pattern.length + replacement.toArray.size := Code.size_spliced hle
  have hreplaced : replacement.toArray.size = (rule.replacement.map (·.1)).length := by
    rw [← hbrought, List.length_map, List.size_toArray]
  rw [hcount, hcount'] at hload hstruct
  simp only [List.length_map] at hlength hweight hreplaced
  omega

/-- What every turn of the first sweep lowers: the way to the end, and the instructions, counting
loads twice, four times over, since a replacement goes back three addresses. -/
def weight (c : Code) (address : Nat) : Nat := c.size - address + 4 * (c.size + c.tally .load)

/-- **The first sweep ends**, and the program has steps enough for it. -/
theorem exists_sweep (steps : Nat) (c : Code) (address count : Nat) (w : World)
    (hsteps : weight c address < steps) : ∃ d n w',
      Sweep c address count w d n w' ∧ (replaceFrom steps c address count).run w = ((d, n), w') := by
  induction steps generalizing c address count w with
  | zero => omega
  | succ steps ih =>
    rw [run_replaceFrom_succ]
    by_cases hend : c.size ≤ address
    · exact ⟨c, count, w, .done hend, by rw [if_pos hend]⟩
    rw [if_neg hend]
    have hlt : address < c.size := Nat.lt_of_not_le hend
    unfold weight at hsteps
    rcases hfind : (findReplacement c address rules).run w with ⟨_ | ⟨rule, replacement⟩, w₁⟩
    · obtain ⟨d, n, w', hsweep, hrun⟩ := ih c (address + 1) count w₁ (by unfold weight; omega)
      exact ⟨d, n, w', .pass hlt hfind hsweep, hrun⟩
    · obtain ⟨-, hopen, -⟩ := found_of_findReplacement hfind
      obtain ⟨journal, hreplace⟩ := run_replace hopen count replacement w₁
      obtain ⟨hsize, hweight, -⟩ := replaced_lowers hfind hreplace
      have hlongest : longest = 3 := rfl
      obtain ⟨d, n, w', hsweep, hrun⟩ := ih
        (c.spliced address rule.pattern.length replacement.toArray) (address - longest) (count + 1)
        { w₁ with journal } (by unfold weight; omega)
      refine ⟨d, n, w', .rewrite hlt hfind hreplace hsweep, ?_⟩
      dsimp only
      rw [hreplace]
      exact hrun

/-! ### The second sweep -/

/-- What the second sweep does with a struct it has built. -/
def replaceStruct (c : Code) (start address : Nat) (v : Value) : WorldM (Except Fault Code) := do
  match ← c.patched start (address + 1 - start) #[⟨.push, v⟩] with
  | .error f => return .error f
  | .ok c => do
    World.note .optimizer fun _ => s!"optimization found in {c.name}: static struct"
    return .ok c

theorem run_foldStructsFrom_succ (steps : Nat) (c : Code) (address count : Nat) (w : World) :
    (foldStructsFrom (steps + 1) c address count).run w =
      match structStart? c address with
      | none => (foldStructsFrom steps c (address + 1) count).run w
      | some start =>
        match (runFragment (c.ops.extract start (address + 1))).run w with
        | (.error _, w₁) => (foldStructsFrom steps c (address + 1) count).run w₁
        | (.ok v, w₁) =>
          match (replaceStruct c start address v).run w₁ with
          | (.error _, w₂) => ((c, count), w₂)
          | (.ok c', w₂) => (foldStructsFrom steps c' (start + 1) (count + 1)).run w₂ := by
  rw [foldStructsFrom]
  cases structStart? c address with
  | none => rfl
  | some start =>
    dsimp only
    rw [StateT.run_bind]
    rcases (runFragment (c.ops.extract start (address + 1))).run w with ⟨f | v, w₁⟩
    · rfl
    · unfold replaceStruct
      show StateT.run (m := Id) (_ >>= _) w₁ = _
      dsimp only
      rw [StateT.run_bind, StateT.run_bind]
      rcases (c.patched start (address + 1 - start) #[⟨.push, v⟩]).run w₁ with ⟨f | c', w₂⟩ <;> rfl

/-- Whether an instruction pushes a literal or a type. -/
def isConstantPush (i : Instruction) : Bool :=
  i.op = .push && (isLiteral i.operand || (match i.operand with | .type _ => true | _ => false))

/-- A struct can be built in advance from literals and types that are pushed right before it, if none
of the names is the one that names a type, and no branch leads between them. -/
theorem structStart?_eq_some_iff : structStart? c address = some start ↔
    ∃ i fields, c.ops[address]? = some i ∧ i.op = .struct ∧ i.operand.toIndex = .ok fields ∧
      fields * 2 ≤ address ∧ start = address - fields * 2 ∧
      (c.ops.extract start address).toList.all isConstantPush = true ∧
      (pairUp ((c.ops.extract start address).toList.map (·.operand))).any
        (fun p => p.1.string? == some typeField) = false ∧
      c.branchesInto (start + 1) (address + 1) = false := by
  unfold structStart?
  cases hi : c.ops[address]? with
  | none => simp
  | some i =>
    cases hindex : i.operand.toIndex with
    | error f => simp [hindex, Except.toOption]
    | ok fields =>
      simp only [hindex, Option.bind_eq_bind, Option.bind_some, Except.toOption, Bool.or_eq_true,
        decide_eq_true_eq]
      by_cases hnone : i.op ≠ .struct ∨ address < fields * 2
      · rw [if_pos hnone, Option.bind_none]
        refine iff_of_false (fun h => by cases h) ?_
        rintro ⟨j, n, hj, hop, hn, hle, -⟩
        cases hj
        rw [hindex] at hn
        cases hn
        exact hnone.elim (fun h => h hop) (by omega)
      · obtain ⟨hop, hle⟩ : i.op = .struct ∧ fields * 2 ≤ address := by
          simpa only [not_or, Decidable.not_not, Nat.not_lt] using hnone
        rw [if_neg hnone]
        constructor
        · intro hsome
          split at hsome
          · rename_i hgood
            cases hsome
            simp only [Bool.and_eq_true, Bool.not_eq_true'] at hgood
            exact ⟨i, fields, rfl, hop, hindex, hle, rfl, hgood.1.1, hgood.1.2, hgood.2⟩
          · cases hsome
        · rintro ⟨j, n, hj, -, hn, -, rfl, hpushes, huntyped, hclosed⟩
          cases hj
          rw [hindex] at hn
          cases hn
          refine if_pos ?_
          simp only [Bool.and_eq_true, Bool.not_eq_true']
          exact ⟨⟨hpushes, huntyped⟩, hclosed⟩

theorem structStart?_of_size_le (h : c.size ≤ address) : structStart? c address = none := by
  unfold structStart?
  rw [Array.getElem?_eq_none h]
  rfl

/-- A struct that is built in advance: its pushes and it are within the code. -/
theorem lt_size_of_structStart? (hstart : structStart? c address = some start) :
    start ≤ address ∧ address < c.size := by
  refine ⟨?_, ?_⟩
  · obtain ⟨i, fields, -, -, -, -, rfl, -⟩ := structStart?_eq_some_iff.1 hstart
    exact Nat.sub_le _ _
  · by_contra hle
    rw [structStart?_of_size_le (Nat.le_of_not_lt hle)] at hstart
    cases hstart

/-- The run of a struct is its pushes and the instruction itself. -/
theorem extract_succ {i : Instruction} (hle : start ≤ address) (hi : c.ops[address]? = some i) :
    c.ops.extract start (address + 1) = (c.ops.extract start address).push i := by
  obtain ⟨hlt, rfl⟩ := Array.getElem?_eq_some_iff.1 hi
  exact Array.extract_succ_right (by omega) hlt

theorem run_replaceStruct (hstart : structStart? c address = some start) (v : Value) (w : World) :
    ∃ journal, (replaceStruct c start address v).run w
      = (.ok (c.spliced start (address + 1 - start) #[⟨.push, v⟩]), { w with journal }) := by
  obtain ⟨hle, hlt⟩ := lt_size_of_structStart? hstart
  have hwithin : start + (address + 1 - start) ≤ c.size := by omega
  obtain ⟨j, hj⟩ := run_patched hwithin #[⟨.push, v⟩] w
  unfold replaceStruct
  rw [StateT.run_bind, hj]
  exact ⟨_, rfl⟩

/-- The second sweep from an address on. It takes as many turns as there are, and no turn fails. -/
inductive StructSweep : Code → Nat → Nat → World → Code → Nat → World → Prop
  | done {c : Code} {address count : Nat} {w : World} (h : c.size ≤ address) :
      StructSweep c address count w c count w
  | pass {c d : Code} {address count n : Nat} {w w' : World} (h : address < c.size)
      (hstart : structStart? c address = none)
      (rest : StructSweep c (address + 1) count w d n w') : StructSweep c address count w d n w'
  | fail {c d : Code} {address count n start : Nat} {w w₁ w' : World} {f : Fault}
      (hstart : structStart? c address = some start)
      (hrun : (runFragment (c.ops.extract start (address + 1))).run w = (.error f, w₁))
      (rest : StructSweep c (address + 1) count w₁ d n w') : StructSweep c address count w d n w'
  | rewrite {c c' d : Code} {address count n start : Nat} {w w₁ w₂ w' : World} {v : Value}
      (hstart : structStart? c address = some start)
      (hrun : (runFragment (c.ops.extract start (address + 1))).run w = (.ok v, w₁))
      (hreplace : (replaceStruct c start address v).run w₁ = (.ok c', w₂))
      (rest : StructSweep c' (start + 1) (count + 1) w₂ d n w') : StructSweep c address count w d n w'

/-- How a struct that is built in advance changes the code. -/
theorem replacedStruct_lowers {c' : Code} (hstart : structStart? c address = some start)
    (hreplace : (replaceStruct c start address v).run w₁ = (.ok c', w₂)) :
    c'.size + (address - start) = c.size ∧ c'.tally .struct + 1 ≤ c.tally .struct := by
  obtain ⟨hle, hlt⟩ := lt_size_of_structStart? hstart
  obtain ⟨i, fields, hi, hop, -⟩ := structStart?_eq_some_iff.1 hstart
  obtain ⟨journal, hrun⟩ := run_replaceStruct hstart v w₁
  rw [hreplace] at hrun
  cases hrun
  have hwithin : start + (address + 1 - start) ≤ c.size := by omega
  have htally := Code.tally_spliced hwithin #[⟨.push, v⟩] .struct
  have hsize : (c.spliced start (address + 1 - start) #[⟨.push, v⟩]).size
      = c.size - (address + 1 - start) + (#[⟨.push, v⟩] : Array Instruction).size :=
    Code.size_spliced hwithin
  have hpush : (#[⟨.push, v⟩] : Array Instruction).countP (·.op = .struct) = 0 := rfl
  have hlast : 0 < (c.ops.extract start (start + (address + 1 - start))).countP (·.op = .struct) := by
    rw [show start + (address + 1 - start) = address + 1 by omega, extract_succ hle hi,
      Array.countP_push_of_pos (by simpa using hop)]
    exact Nat.succ_pos _
  have hone : (#[⟨.push, v⟩] : Array Instruction).size = 1 := rfl
  omega

theorem run_foldStructsFrom_of_size_le (h : c.size ≤ address) (steps count : Nat) (w : World) :
    (foldStructsFrom steps c address count).run w = ((c, count), w) := by
  induction steps generalizing address with
  | zero => rfl
  | succ steps ih =>
    rw [run_foldStructsFrom_succ, structStart?_of_size_le h]
    exact ih (Nat.le_succ_of_le h)

/-- **The second sweep ends**, and the program has steps enough for it: every turn brings it one
instruction nearer to the end. -/
theorem exists_structSweep (steps : Nat) (c : Code) (address count : Nat) (w : World)
    (hsteps : c.size - address ≤ steps) : ∃ d n w', StructSweep c address count w d n w' ∧
      (foldStructsFrom steps c address count).run w = ((d, n), w') := by
  induction steps generalizing c address count w with
  | zero => exact ⟨c, count, w, .done (by omega), rfl⟩
  | succ steps ih =>
    by_cases hend : c.size ≤ address
    · exact ⟨c, count, w, .done hend, run_foldStructsFrom_of_size_le hend _ _ _⟩
    rw [run_foldStructsFrom_succ]
    have hlt : address < c.size := Nat.lt_of_not_le hend
    cases hstart : structStart? c address with
    | none =>
      obtain ⟨d, n, w', hsweep, hrun⟩ := ih c (address + 1) count w (by omega)
      exact ⟨d, n, w', .pass hlt hstart hsweep, hrun⟩
    | some start =>
      dsimp only
      rcases hfragment : (runFragment (c.ops.extract start (address + 1))).run w with ⟨f | v, w₁⟩
      · obtain ⟨d, n, w', hsweep, hrun⟩ := ih c (address + 1) count w₁ (by omega)
        exact ⟨d, n, w', .fail hstart hfragment hsweep, hrun⟩
      · obtain ⟨journal, hreplace⟩ := run_replaceStruct hstart v w₁
        obtain ⟨hsize, -⟩ := replacedStruct_lowers hstart hreplace
        obtain ⟨hle, -⟩ := lt_size_of_structStart? hstart
        obtain ⟨d, n, w', hsweep, hrun⟩ := ih (c.spliced start (address + 1 - start) #[⟨.push, v⟩])
          (start + 1) (count + 1) { w₁ with journal } (by omega)
        refine ⟨d, n, w', .rewrite hstart hfragment hreplace hsweep, ?_⟩
        dsimp only
        rw [hreplace]
        exact hrun

/-! ### Optimization ends -/

/-- Code that was not optimized before is swept twice, from its first address on; what is noted about
it afterwards leaves the objects alone. -/
theorem exists_run_optimized (hfresh : c.isOptimized = false) (w : World) :
    ∃ replaced n₁ w₁ final n₂ w₂ w', Sweep c 0 0 w replaced n₁ w₁ ∧
      StructSweep replaced 0 0 w₁ final n₂ w₂ ∧ w'.heap = w₂.heap ∧
      c.optimized.run w = (({ final with isOptimized := true }, n₁ + n₂), w') := by
  have hfuel : weight c 0 < 9 * c.size + 1 := by
    have hloads : c.tally .load ≤ c.size := Array.countP_le_size
    unfold weight
    omega
  obtain ⟨replaced, n₁, w₁, hsweep, hfirst⟩ := exists_sweep (9 * c.size + 1) c 0 0 w hfuel
  obtain ⟨final, n₂, w₂, hstructs, hsecond⟩ :=
    exists_structSweep (replaced.size + 1) replaced 0 0 w₁ (by omega)
  obtain ⟨w', hrun, hheap⟩ : ∃ w', c.optimized.run w
      = (({ final with isOptimized := true }, n₁ + n₂), w') ∧ w'.heap = w₂.heap := by
    unfold Code.optimized
    rw [hfresh, if_neg Bool.false_ne_true, StateT.run_bind, hfirst]
    show ∃ w', StateT.run (m := Id) (foldStructsFrom (replaced.size + 1) replaced 0 0 >>= _) w₁ = _ ∧ _
    rw [StateT.run_bind, hsecond]
    show ∃ w', StateT.run (m := Id) (if 0 < n₁ + n₂ then _ else _) w₂ = _ ∧ _
    split <;> exact ⟨_, rfl, rfl⟩
  exact ⟨replaced, n₁, w₁, final, n₂, w₂, w', hsweep, hstructs, hheap, hrun⟩

theorem run_optimized (hfresh : c.isOptimized = false) (w : World) :
    ∃ replaced n₁ w₁ final n₂ w₂ w', Sweep c 0 0 w replaced n₁ w₁ ∧
      StructSweep replaced 0 0 w₁ final n₂ w₂ ∧
      c.optimized.run w = (({ final with isOptimized := true }, n₁ + n₂), w') := by
  obtain ⟨replaced, n₁, w₁, final, n₂, w₂, w', hsweep, hstructs, -, hrun⟩ :=
    exists_run_optimized hfresh w
  exact ⟨replaced, n₁, w₁, final, n₂, w₂, w', hsweep, hstructs, hrun⟩

end Peephole

end ScriptMachine
