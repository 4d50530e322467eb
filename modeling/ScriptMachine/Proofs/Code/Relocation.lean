import Mathlib.Algebra.Ring.Nat
import Mathlib.Tactic.Common
import ScriptMachine.Code.Listing
import ScriptMachine.Proofs.Action.Outcome

/-!
# Moving branches

Two readings of a branch operand: the one by which code is moved, `Instruction.destination?`, and
the one by which the machine branches, `Exec.branchTarget`. They agree on the wide integers; a
byte or a floating-point number is an address to the machine only. So when code is joined or
patched, a branch with a wide operand goes where it went, wherever that now is; a branch with a byte
or a floating-point number keeps its operand and goes elsewhere.

* `Code.Accepts`, `Code.Rejects`: what every machine that runs the code makes of an operand.
* `Value.IsWide`: the operands on which the two readings agree.
* `Code.append_relocates_iff`: which branches of appended code are relocated.
* `Code.patch_keeps_targets_iff`: which branches keep their target when a run is replaced.
-/

namespace ScriptMachine

/-! ### Addresses in operands -/

/-- Every machine that runs the code takes the operand for the address. -/
def Code.Accepts (c : Code) (operand : Value) (address : Nat) : Prop :=
  ∀ m : Machine, m.context.code = c →
    Exec.outcome (Exec.branchTarget operand) m = (.ok address, m)

/-- Every machine that runs the code fails on the operand. -/
def Code.Rejects (c : Code) (operand : Value) : Prop :=
  ∀ m : Machine, m.context.code = c → ∃ f : Fault, f.kind = .invalidBytecodeAddress ∧
    Exec.outcome (Exec.branchTarget operand) m = (.error (.fault f), m)

namespace Value

/-- Whether the value is one of the integers that code is moved by, wrapped or not. -/
def IsWide (v : Value) : Prop := v.kind = .int ∨ v.kind = .int32 ∨ v.kind = .int64

instance (v : Value) : Decidable v.IsWide :=
  inferInstanceAs (Decidable (v.kind = .int ∨ v.kind = .int32 ∨ v.kind = .int64))

variable {v : Value} {n a : Nat}

theorem isWide_ofNat (n : Nat) : (ofNat n).IsWide := .inl rfl

/-- The index of a number is its integer, if that is not negative. -/
theorem toIndex_eq_ok_iff {k : Int64} (hnumeric : v.kind.isNumeric = true)
    (hint : v.toInt64 = .ok k) : v.toIndex = .ok a ↔ k.toInt = a := by
  rw [toIndex, if_pos hnumeric, hint]
  simp only [Bind.bind, Except.bind]
  split
  · simp only [Except.ok.injEq]
    omega
  · simp only [reduceCtorEq, false_iff]
    omega

/-- An index fits a signed word. -/
theorem lt_of_toIndex (h : v.toIndex = .ok a) : a < 2 ^ 63 := by
  have hnumeric : v.kind.isNumeric = true := by
    by_contra hn
    simp [toIndex, hn] at h
  cases hint : v.toInt64 with
  | error f => simp [toIndex, hnumeric, hint, Bind.bind, Except.bind] at h
  | ok k =>
    have hlt : k.toInt < 2 ^ 63 := k.toInt_lt
    have heq : k.toInt = a := (toIndex_eq_ok_iff hnumeric hint).mp h
    omega

/-- The integer of a count has that count as its index, unless it wraps to a negative integer. -/
theorem toIndex_ofNat_eq_ok_iff (h : n < 2 ^ 64) :
    (ofNat n).toIndex = .ok a ↔ n = a ∧ n < 2 ^ 63 := by
  have hint : (Int64.ofNat n).toInt = if n < 2 ^ 63 then (n : Int) else n - 2 ^ 64 := by
    rw [Int64.toInt_ofNat', Int.bmod_def, Int64.size]
    split <;> split <;> omega
  have hindex : (ofNat n).toIndex = .ok a ↔ (Int64.ofNat n).toInt = a :=
    toIndex_eq_ok_iff rfl rfl
  rw [hindex, hint]
  split <;> omega

end Value

namespace Instruction

variable {i : Instruction}

theorem destination?_of_not_branch (h : i.op.isBranch = false) : i.destination? = none := by
  simp [destination?, h]

theorem destination?_of_not_wide (h : ¬ i.operand.IsWide) : i.destination? = none := by
  unfold destination?
  split
  · split
    all_goals first | rfl | simp_all [Value.IsWide, Value.kind]
  · rfl

/-- On a wide operand the two readings agree. -/
theorem destination?_of_wide (hbranch : i.op.isBranch = true) (hwide : i.operand.IsWide)
    {a : Nat} : i.destination? = some a ↔ i.operand.toIndex = .ok a := by
  obtain ⟨k, hint, hdestination⟩ : ∃ k : Int64, i.operand.toInt64 = .ok k ∧
      i.destination? = k.toInt.toNat? := by
    unfold Value.IsWide Value.kind at hwide
    unfold destination? Value.toInt64
    rw [if_pos hbranch]
    cases hvalue : i.operand.unwrapped with
    | int n | int64 n | int32 n => simp
    | _ => simp [hvalue] at hwide
  have hnumeric : i.operand.kind.isNumeric = true := by
    rcases hwide with h | h | h <;> rw [h] <;> rfl
  rw [Value.toIndex_eq_ok_iff hnumeric hint, hdestination]
  exact Int.mem_toNat?

end Instruction

/-! ### What the machine makes of an operand -/

namespace Code

variable {c : Code} {operand : Value} {address : Nat}

open Exec

theorem accepts_iff :
    c.Accepts operand address ↔ operand.toIndex = .ok address ∧ address < c.size := by
  constructor
  · intro h
    have hrun := h { (default : Machine) with
      context := { (default : Machine).context with code := c } } rfl
    rw [outcome_branchTarget_eq] at hrun
    split at hrun
    · split at hrun
      · rename_i a hindex hlt
        obtain rfl : a = address := by simpa using hrun
        exact ⟨hindex, hlt⟩
      · simp at hrun
    · simp at hrun
  · rintro ⟨hindex, hlt⟩ m rfl
    simp [outcome_branchTarget_eq, hindex, hlt]

theorem rejects_iff : c.Rejects operand ↔ ∀ a, operand.toIndex = .ok a → c.size ≤ a := by
  constructor
  · intro h a hindex
    obtain ⟨f, -, hrun⟩ := h { (default : Machine) with
      context := { (default : Machine).context with code := c } } rfl
    rw [outcome_branchTarget_eq, hindex] at hrun
    by_contra hlt
    simp [Nat.not_le.mp hlt] at hrun
  · rintro h m rfl
    refine ⟨.about .invalidBytecodeAddress (m.world.heap.display operand), rfl, ?_⟩
    rw [outcome_branchTarget_eq]
    split
    · rename_i a hindex
      rw [if_neg (Nat.not_lt.mpr (h a hindex))]
    · rfl

end Code

namespace Code

variable {c d : Code} {i : Instruction} {operand moved : Value} {a start count inserted : Nat}

/-! ### Moving one instruction -/

@[simp]
theorem op_relocate (move : Nat → Nat) (i : Instruction) : (relocate move i).op = i.op := by
  unfold relocate
  split <;> rfl

theorem relocate_of_none {move : Nat → Nat} (h : i.destination? = none) : relocate move i = i := by
  simp [relocate, h]

theorem relocate_of_some {move : Nat → Nat} (h : i.destination? = some a) :
    relocate move i = { i with operand := .ofNat (move a) } := by
  simp [relocate, h]

/-- The index of a relocated branch is the moved index, unless that wraps. -/
theorem toIndex_relocate_iff {move : Nat → Nat} (hbranch : i.op.isBranch = true)
    (hwide : i.operand.IsWide) (hmove : ∀ a < 2 ^ 63, move a < 2 ^ 64) {b : Nat} :
    (relocate move i).operand.toIndex = .ok b ↔
      ∃ a, i.operand.toIndex = .ok a ∧ move a = b ∧ b < 2 ^ 63 := by
  cases hdestination : i.destination? with
  | none =>
    have hnone : ∀ a, i.operand.toIndex ≠ .ok a := fun a ha => by
      rw [← Instruction.destination?_of_wide hbranch hwide, hdestination] at ha
      cases ha
    simp [relocate_of_none hdestination, hnone]
  | some a =>
    have hindex : i.operand.toIndex = .ok a :=
      (Instruction.destination?_of_wide hbranch hwide).mp hdestination
    have hlt : move a < 2 ^ 64 := hmove a (Value.lt_of_toIndex hindex)
    rw [relocate_of_some hdestination, Value.toIndex_ofNat_eq_ok_iff hlt, hindex]
    constructor
    · rintro ⟨rfl, h⟩
      exact ⟨a, rfl, rfl, h⟩
    · rintro ⟨a', ha', rfl, h⟩
      cases ha'
      exact ⟨rfl, h⟩

/-! ### Joining code -/

/-- Behind `c`, the moved operand is what the operand is in `d`: an address that `d` accepts has
moved along, and what `d` rejects is rejected. -/
structure Relocates (c d : Code) (operand moved : Value) : Prop where
  accepts : ∀ a, d.Accepts operand a → (c.append d).Accepts moved (c.size + a)
  rejects : d.Rejects operand → (c.append d).Rejects moved

theorem relocates_of_toIndex
    (h : ∀ b, moved.toIndex = .ok b ↔ ∃ a, operand.toIndex = .ok a ∧ a + c.size = b ∧ b < 2 ^ 63)
    (hsize : c.size + d.size ≤ 2 ^ 63) : c.Relocates d operand moved where
  accepts a ha := by
    obtain ⟨hindex, hlt⟩ := accepts_iff.mp ha
    rw [accepts_iff, size_append]
    exact ⟨(h _).mpr ⟨a, hindex, Nat.add_comm _ _, by omega⟩, by omega⟩
  rejects hd := by
    rw [rejects_iff] at hd ⊢
    rw [size_append]
    intro b hb
    obtain ⟨a, ha, rfl, -⟩ := (h b).mp hb
    have hle : d.size ≤ a := hd a ha
    omega

/-- An operand that is kept is right only if nothing precedes, or it is no address anywhere. -/
theorem relocates_self_iff : c.Relocates d operand operand ↔
    c.size = 0 ∨ ∀ a, operand.toIndex = .ok a → c.size + d.size ≤ a := by
  constructor
  · intro h
    by_contra hnot
    obtain ⟨hc, a, ha, hlt⟩ : c.size ≠ 0 ∧ ∃ a, operand.toIndex = .ok a ∧ a < c.size + d.size := by
      simpa using hnot
    by_cases had : a < d.size
    · have hmoved := (accepts_iff.mp (h.accepts a (accepts_iff.mpr ⟨ha, had⟩))).1
      rw [ha] at hmoved
      have : a = c.size + a := Except.ok.inj hmoved
      omega
    · have hrejects : d.Rejects operand := rejects_iff.mpr fun b hb => by
        obtain rfl : a = b := Except.ok.inj (ha.symm.trans hb)
        omega
      have hle := rejects_iff.mp (h.rejects hrejects) a ha
      rw [size_append] at hle
      omega
  · rintro (hc | hfar)
    · refine ⟨fun a ha => ?_, fun hd => ?_⟩
      · rw [accepts_iff] at ha ⊢
        simpa [hc] using ha
      · rw [rejects_iff] at hd ⊢
        simpa [hc] using hd
    · refine ⟨fun a ha => ?_, fun _ => rejects_iff.mpr fun a ha => ?_⟩
      · obtain ⟨hindex, hlt⟩ := accepts_iff.mp ha
        have := hfar a hindex
        omega
      · rw [size_append]
        exact hfar a ha

theorem getElem?_append_of_lt {k : Nat} (h : k < c.size) : (c.append d).ops[k]? = c.ops[k]? :=
  Array.getElem?_append_left h

theorem getElem?_append_of_some {k : Nat} (h : d.ops[k]? = some i) :
    (c.append d).ops[c.size + k]? = some (relocate (· + c.size) i) := by
  rw [append, size, Array.getElem?_append_right (Nat.le_add_right _ _)]
  simp [h]

/-- Appended code behind code: what precedes stays, and of what is appended only branches are
changed. A branch is relocated, for the machine, if and only if its operand is a wide integer, or
nothing precedes, or the operand is no address of the joined code at all. The bound says that the
joined code fits in memory. -/
theorem append_relocates_iff (hsize : c.size + d.size ≤ 2 ^ 63) :
    (∀ k < c.size, (c.append d).ops[k]? = c.ops[k]?) ∧
      ∀ k i, d.ops[k]? = some i →
        ∃ j, (c.append d).ops[c.size + k]? = some j ∧ j.op = i.op ∧
          (i.op.isBranch = false → j = i) ∧
          (i.op.isBranch = true → (c.Relocates d i.operand j.operand ↔
            i.operand.IsWide ∨ c.size = 0 ∨
              ∀ a, i.operand.toIndex = .ok a → c.size + d.size ≤ a)) := by
  refine ⟨fun k hk => getElem?_append_of_lt hk, fun k i hi => ?_⟩
  refine ⟨_, getElem?_append_of_some hi, op_relocate _ i, fun hbranch => ?_, fun hbranch => ?_⟩
  · exact relocate_of_none (Instruction.destination?_of_not_branch hbranch)
  · by_cases hwide : i.operand.IsWide
    · have hmove : ∀ a < 2 ^ 63, a + c.size < 2 ^ 64 := fun a ha => by omega
      have hindex := fun b => @toIndex_relocate_iff i (· + c.size) hbranch hwide hmove b
      exact iff_of_true (relocates_of_toIndex hindex hsize) (.inl hwide)
    · rw [relocate_of_none (Instruction.destination?_of_not_wide hwide), relocates_self_iff]
      exact (or_iff_right hwide).symm

/-- Two pushes, and a branch to its own address that is given as a byte. -/
def pushes : Code :=
  ((empty "a").emit .push (.int 1)).emit .push (.int 2)

@[inherit_doc pushes]
def byteLoop : Code := (empty "b").emit .branch (.byte 0)

/-- Behind the pushes, the branch leads to the first of them. -/
theorem append_relocates_iff_of_byteLoop : pushes.size + byteLoop.size ≤ 2 ^ 63 ∧
    ∃ j, (pushes.append byteLoop).ops[2]? = some j ∧
      ¬ pushes.Relocates byteLoop (.byte 0) j.operand := by
  have hsize : pushes.size + byteLoop.size ≤ 2 ^ 63 := by decide
  obtain ⟨j, hj, -, -, hiff⟩ := (append_relocates_iff hsize).2 0 ⟨.branch, .byte 0⟩ rfl
  refine ⟨hsize, j, hj, fun h => ?_⟩
  rcases (hiff rfl).mp h with hwide | hempty | hfar
  · revert hwide
    decide
  · revert hempty
    decide
  · exact absurd (hfar 0 rfl) (by decide)

/-! ### Replacing a run -/

/-- Where an address is after `inserted` instructions have replaced the `count` ones from `start`
on. -/
def landing (start count inserted a : Nat) : Nat :=
  if a < start + count then a else a - count + inserted

@[simp]
theorem op_shiftPast (stop removed : Nat) (i : Instruction) :
    (shiftPast stop removed inserted i).op = i.op := by
  unfold shiftPast
  split
  · split <;> rfl
  · rfl

theorem shiftPast_of_none {stop removed : Nat} (h : i.destination? = none) :
    shiftPast stop removed inserted i = i := by
  simp [shiftPast, h]

/-- The index of a shifted branch is where its address is now. -/
theorem toIndex_shiftPast (hbranch : i.op.isBranch = true) (hwide : i.operand.IsWide)
    (hindex : i.operand.toIndex = .ok a) (ha : a < 2 ^ 62) (hinserted : inserted < 2 ^ 62) :
    (shiftPast (start + count) count inserted i).operand.toIndex
      = .ok (landing start count inserted a) := by
  have hdestination : i.destination? = some a :=
    (Instruction.destination?_of_wide hbranch hwide).mpr hindex
  unfold shiftPast landing
  rw [hdestination]
  by_cases hle : start + count ≤ a
  · simp only [if_pos hle, if_neg (Nat.not_lt.mpr hle)]
    exact (Value.toIndex_ofNat_eq_ok_iff (by omega)).mpr ⟨rfl, by omega⟩
  · simp only [if_neg hle, if_pos (Nat.not_le.mp hle)]
    exact hindex

/-- The code of a patch: what precedes the run, the replacement, and what follows the run. -/
def spliced (c : Code) (start count : Nat) (replacement : Array Instruction) : Code :=
  { c with
    ops := (c.ops.extract 0 start).map (shiftPast (start + count) count replacement.size) ++
      replacement ++
      (c.ops.extract (start + count) c.size).map
        (shiftPast (start + count) count replacement.size) }

variable {replacement : Array Instruction} {k : Nat}

theorem patch_of_le (h : start + count ≤ c.size) :
    c.patch start count replacement = .ok (c.spliced start count replacement) := by
  simp [patch, spliced, Nat.not_lt.mpr h]

theorem size_spliced (h : start + count ≤ c.size) :
    (c.spliced start count replacement).size = c.size - count + replacement.size := by
  unfold size at h ⊢
  simp only [spliced, Array.size_append, Array.size_map, Array.size_extract, size]
  omega

theorem getElem?_spliced_of_replacement (h : start + count ≤ c.size) (hk : k < replacement.size) :
    (c.spliced start count replacement).ops[start + k]? = replacement[k]? := by
  unfold size at h
  have hlen : ((c.ops.extract 0 start).map
      (shiftPast (start + count) count replacement.size)).size = start := by
    simp only [Array.size_map, Array.size_extract]
    omega
  unfold spliced
  rw [Array.getElem?_append_left (by rw [Array.size_append, hlen]; omega),
    Array.getElem?_append_right (by rw [hlen]; omega), hlen, Nat.add_sub_cancel_left]

/-- An instruction outside the run is found where its address is now. -/
theorem getElem?_spliced_of_outside (h : start + count ≤ c.size) (hi : c.ops[k]? = some i)
    (hk : k < start ∨ start + count ≤ k) :
    (c.spliced start count replacement).ops[landing start count replacement.size k]?
      = some (shiftPast (start + count) count replacement.size i) := by
  unfold size at h
  obtain ⟨hlt, rfl⟩ := Array.getElem?_eq_some_iff.mp hi
  have hlen : ((c.ops.extract 0 start).map
      (shiftPast (start + count) count replacement.size)).size = start := by
    simp only [Array.size_map, Array.size_extract]
    omega
  unfold spliced landing
  rcases hk with hbefore | hafter
  · rw [if_pos (by omega), Array.getElem?_append_left (by rw [Array.size_append, hlen]; omega),
      Array.getElem?_append_left (by rw [hlen]; exact hbefore), Array.getElem?_map,
      Array.getElem?_extract_of_lt (by omega)]
    simp
  · rw [if_neg (Nat.not_lt.mpr hafter), Array.getElem?_append_right (by
      rw [Array.size_append, hlen]; omega), Array.size_append, hlen, Array.getElem?_map,
      Array.getElem?_extract_of_lt (by unfold size; omega)]
    have hindex : start + count + (k - count + replacement.size - (start + replacement.size)) = k :=
      by omega
    simp [hindex]

/-- After a run of `c` was replaced, which gave `p`, the moved operand names the place that the
operand named: the address is where it is now, the machine goes to it if it went to an instruction
that is still there, and an address beyond the end is as far from the end as before. -/
structure KeepsTarget (c p : Code) (start count inserted : Nat) (operand moved : Value) : Prop where
  index : ∀ a < 2 ^ 62, operand.toIndex = .ok a →
    moved.toIndex = .ok (landing start count inserted a)
  accepts : ∀ a < 2 ^ 62, a < start ∨ start + count ≤ a → c.Accepts operand a →
    p.Accepts moved (landing start count inserted a)
  beyond : ∀ a < 2 ^ 62, c.size ≤ a → operand.toIndex = .ok a →
    moved.toIndex = .ok (p.size + (a - c.size))

/-- The place is kept as soon as the index is. -/
theorem keepsTarget_of_index (h : start + count ≤ c.size)
    (hindex : ∀ a < 2 ^ 62, operand.toIndex = .ok a →
      moved.toIndex = .ok (landing start count replacement.size a)) :
    c.KeepsTarget (c.spliced start count replacement) start count replacement.size operand
      moved where
  index := hindex
  accepts a ha hsurvives haccepts := by
    obtain ⟨hoperand, hlt⟩ := accepts_iff.mp haccepts
    refine accepts_iff.mpr ⟨hindex a ha hoperand, ?_⟩
    rw [size_spliced h]
    unfold landing
    split <;> omega
  beyond a ha hle hoperand := by
    have hland : landing start count replacement.size a
        = (c.spliced start count replacement).size + (a - c.size) := by
      rw [landing, if_neg (by omega), size_spliced h]
      omega
    rw [hindex a ha hoperand, hland]

/-- An operand that is kept is right only where addresses do not move. -/
theorem keepsTarget_self_iff (h : start + count ≤ c.size) :
    c.KeepsTarget (c.spliced start count replacement) start count replacement.size operand operand ↔
      count = replacement.size ∨
        ∀ a < 2 ^ 62, operand.toIndex = .ok a → a < start + count := by
  constructor
  · intro hkeeps
    by_contra hnot
    obtain ⟨hne, a, ha, hoperand, hle⟩ : count ≠ replacement.size ∧
        ∃ a < 2 ^ 62, operand.toIndex = .ok a ∧ start + count ≤ a := by
      simpa using hnot
    have hindex := hkeeps.index a ha hoperand
    rw [hoperand, landing, if_neg (Nat.not_lt.mpr hle)] at hindex
    have : a = a - count + replacement.size := Except.ok.inj hindex
    omega
  · intro hfixed
    refine keepsTarget_of_index h fun a ha hoperand => ?_
    have hland : landing start count replacement.size a = a := by
      unfold landing
      split
      · rfl
      · rcases hfixed with heq | hbelow
        · omega
        · exact absurd (hbelow a ha hoperand) ‹_›
    rw [hland, hoperand]

/-- Replacing a run fails if the run leaves the code. Otherwise the replacement stands in its
place as given, and every other instruction is where its address is now, with its opcode; only
branches with a wide operand are changed. A branch keeps its target, for the machine, if and only
if its operand is a wide integer, or the length stays, or the branch leads to no address behind
the run. The bound says that the replacement fits in memory. -/
theorem patch_keeps_targets_iff (hreplacement : replacement.size < 2 ^ 62) :
    (c.size < start + count → ∃ f : Fault, f.kind = .invalidBytecodeAddress ∧
      c.patch start count replacement = .error f) ∧
    (start + count ≤ c.size → ∃ p, c.patch start count replacement = .ok p ∧
      p.size = c.size - count + replacement.size ∧
      (∀ k < replacement.size, p.ops[start + k]? = replacement[k]?) ∧
      ∀ k i, c.ops[k]? = some i → k < start ∨ start + count ≤ k →
        ∃ j, p.ops[landing start count replacement.size k]? = some j ∧ j.op = i.op ∧
          (¬ (i.op.isBranch = true ∧ i.operand.IsWide) → j = i) ∧
          (i.op.isBranch = true →
            (c.KeepsTarget p start count replacement.size i.operand j.operand ↔
              i.operand.IsWide ∨ count = replacement.size ∨
                ∀ a < 2 ^ 62, i.operand.toIndex = .ok a → a < start + count))) := by
  refine ⟨fun hlt => ?_, fun hle => ?_⟩
  · refine ⟨.about .invalidBytecodeAddress s!"{start}..{start + count}", rfl, ?_⟩
    simp [patch, hlt]
  refine ⟨_, patch_of_le hle, size_spliced hle,
    fun k hk => getElem?_spliced_of_replacement hle hk, fun k i hi houtside => ?_⟩
  refine ⟨_, getElem?_spliced_of_outside hle hi houtside, op_shiftPast _ _ i, fun hnot => ?_,
    fun hbranch => ?_⟩
  · refine shiftPast_of_none ?_
    by_cases hbranch : i.op.isBranch = true
    · exact Instruction.destination?_of_not_wide fun hwide => hnot ⟨hbranch, hwide⟩
    · exact Instruction.destination?_of_not_branch (by simpa using hbranch)
  · by_cases hwide : i.operand.IsWide
    · refine iff_of_true (keepsTarget_of_index hle fun a ha hindex => ?_) (.inl hwide)
      exact toIndex_shiftPast hbranch hwide hindex ha hreplacement
    · rw [shiftPast_of_none (Instruction.destination?_of_not_wide hwide), keepsTarget_self_iff hle]
      exact (or_iff_right hwide).symm

/-- A branch to the stop at the end, given as a byte, with an addition between. -/
def byteExit : Code :=
  (((((empty "patch").emit .branch (.byte 4)).emit .push (.int 1)).emit .push (.int 2)).emit
    .add .null).emit .stop .null

/-- With one push in the place of the addition, the branch leads behind the end of the code. -/
theorem patch_keeps_targets_iff_of_byteExit :
    (#[⟨.push, .int 3⟩] : Array Instruction).size < 2 ^ 62 ∧
      ∃ p, byteExit.patch 1 3 #[⟨.push, .int 3⟩] = .ok p ∧ ∃ j, p.ops[0]? = some j ∧
        ¬ byteExit.KeepsTarget p 1 3 1 (.byte 4) j.operand := by
  have hbound : (#[⟨.push, .int 3⟩] : Array Instruction).size < 2 ^ 62 := by decide
  obtain ⟨p, hp, -, -, hother⟩ :=
    (@patch_keeps_targets_iff byteExit 1 3 _ hbound).2 (by decide)
  obtain ⟨j, hj, -, -, hiff⟩ := hother 0 ⟨.branch, .byte 4⟩ rfl (.inl (by decide))
  refine ⟨hbound, p, hp, j, hj, fun h => ?_⟩
  rcases (hiff rfl).mp h with hwide | hlength | hbelow
  · revert hwide
    decide
  · revert hlength
    decide
  · exact absurd (hbelow 4 (by decide) rfl) (by decide)

end Code

end ScriptMachine
