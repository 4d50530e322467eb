import ScriptMachine.Proofs.Layout.Replacing
import ScriptMachine.Proofs.Peephole.Fixpoints
import ScriptMachine.Proofs.Peephole.Prebuilt

/-!
# Optimized code in place of the code

What optimization makes of code may be put in its place. Every replacement exchanges one straight run
for another that does the same, and leaves instructions that the next one may rely on.

* `Code.IsSober`: code on which the rules may be relied.
* `forall_mem_spliced`, `dropTotal_spliced`: what instructions there are after a replacement.
* `replaces_of_findReplacement`, `replaces_of_structStart?`: one replacement of either sweep.
* `Sweep.replaces`, `StructSweep.replaces`: all replacements of a sweep.
* `Code.optimized_replaces`: optimized code may be put in place of the code.
-/

namespace ScriptMachine

variable {L : Literals}

/-! ### The instructions after a replacement -/

namespace Code

variable {c : Code} {start count : Nat} {replacement : Array Instruction}

/-- Code on which the rules may be relied: its instructions are sober, it pushes no containers if it
swaps operands or drops single ones, and its drops together take no more operands than an integer can
count. -/
structure IsSober (c : Code) : Prop where
  sober : ∀ i ∈ c.ops, i.IsSober
  leaves : (∃ i ∈ c.ops, i.MovesTop) → ∀ i ∈ c.ops, i.PushesLeaf
  fits : dropTotal c.ops.toList < 2 ^ 63

/-- A branch that is moved has another integer for its operand, and nothing else changes. -/
theorem shiftPast_cases (stop removed inserted : Nat) (i : Instruction) :
    shiftPast stop removed inserted i = i ∨
      i.op.isBranch = true ∧ ∃ n, shiftPast stop removed inserted i = ⟨i.op, .ofNat n⟩ := by
  unfold shiftPast
  cases hdestination : i.destination? with
  | none => exact .inl rfl
  | some a =>
    dsimp only
    split
    · refine .inr ⟨?_, _, rfl⟩
      by_contra hnot
      rw [Instruction.destination?_of_not_branch (Bool.eq_false_iff.2 hnot)] at hdestination
      cases hdestination
    · exact .inl rfl

theorem forall_mem_spliced {P : Instruction → Prop} (hc : ∀ i ∈ c.ops, P i)
    (hbrought : ∀ i ∈ replacement, P i)
    (hmoved : ∀ (i : Instruction) (n : Nat), P i → i.op.isBranch = true → P ⟨i.op, .ofNat n⟩) :
    ∀ i ∈ (c.spliced start count replacement).ops, P i := by
  have hshift : ∀ lo hi, ∀ i ∈ (c.ops.extract lo hi).map
      (shiftPast (start + count) count replacement.size), P i := by
    intro lo hi i hmem
    obtain ⟨j, hj, rfl⟩ := Array.mem_map.1 hmem
    have hp := hc j (mem_of_mem_extract hj)
    rcases shiftPast_cases (start + count) count replacement.size j with
      hsame | ⟨hbranch, n, hn⟩
    · rw [hsame]
      exact hp
    · rw [hn]
      exact hmoved _ n hp hbranch
  intro i hi
  rcases Array.mem_append.1 hi with hi | hi
  · rcases Array.mem_append.1 hi with hi | hi
    · exact hshift _ _ i hi
    · exact hbrought i hi
  · exact hshift _ _ i hi

/-- What a replacement does to the number of operands that are dropped. -/
theorem dropTotal_spliced (h : start + count ≤ c.size) (replacement : Array Instruction) :
    dropTotal (c.spliced start count replacement).ops.toList +
        dropTotal (c.ops.extract start (start + count)).toList
      = dropTotal c.ops.toList + dropTotal replacement.toList := by
  have hshift : ∀ ops : List Instruction,
      dropTotal (ops.map (shiftPast (start + count) count replacement.size)) = dropTotal ops := by
    intro ops
    unfold dropTotal
    rw [List.map_map]
    congr 1
    refine List.map_congr_left fun i _ => ?_
    rcases shiftPast_cases (start + count) count replacement.size i with hsame | ⟨hbranch, n, hn⟩
    · rw [Function.comp_apply, hsame]
    · have hnot : i.op ≠ .drop := by
        intro hdrop
        rw [hdrop] at hbranch
        cases hbranch
      rw [Function.comp_apply, hn, if_neg hnot, if_neg hnot]
  have htotal : dropTotal c.ops.toList = dropTotal (c.ops.extract 0 start).toList +
      dropTotal (c.ops.extract start (start + count)).toList +
      dropTotal (c.ops.extract (start + count) c.size).toList := by
    conv_lhs => rw [Code.ops_eq_parts h]
    rw [Array.toList_append, Array.toList_append, dropTotal_append, dropTotal_append]
  rw [htotal]
  simp only [spliced, Array.toList_append, Array.toList_map, dropTotal_append, hshift]
  omega

end Code

namespace Instruction

variable {i : Instruction}

theorem ne_of_isBranch (hbranch : i.op.isBranch = true) {op : Opcode} (hplain : op.isBranch = false) :
    i.op ≠ op := by
  rintro rfl
  rw [hbranch] at hplain
  cases hplain

/-- A branch that has been moved. -/
theorem isSober_ofNat (n : Nat) (hbranch : i.op.isBranch = true) :
    (⟨i.op, .ofNat n⟩ : Instruction).IsSober :=
  ⟨⟨fun _ => Value.isWide_ofNat n, fun h => absurd h (ne_of_isBranch hbranch rfl)⟩,
    fun h => absurd h (ne_of_isBranch hbranch rfl)⟩

theorem pushesLeaf_of_isBranch (hbranch : i.op.isBranch = true) : i.PushesLeaf :=
  fun h => absurd h (ne_of_isBranch hbranch rfl)

theorem not_movesTop_of_isBranch (hbranch : i.op.isBranch = true) : ¬ i.MovesTop := by
  rintro (h | ⟨h, -⟩)
  · exact ne_of_isBranch hbranch rfl h
  · exact ne_of_isBranch hbranch rfl h

end Instruction

/-! ### The first sweep -/

namespace Peephole

open Exec

variable {c c' d : Code} {w w₁ w₂ w' : World} {rule : Rule} {built : List Instruction}
  {address start count n : Nat}

/-- No branch leads into a range. -/
theorem avoids_of_branchesInto {lo hi : Nat} (hclosed : c.branchesInto lo hi = false) :
    ∀ i ∈ c.ops, ∀ a, i.destination? = some a → a < lo ∨ hi ≤ a := by
  intro i hmem a ha
  unfold Code.branchesInto at hclosed
  have hnot := Array.any_eq_false.1 hclosed
  obtain ⟨k, hk, rfl⟩ := Array.mem_iff_getElem.1 hmem
  have hk' := hnot k hk
  rw [ha] at hk'
  simp only [Bool.and_eq_true, decide_eq_true_eq] at hk'
  omega

theorem branchesInto_of_isOpen (hopen : isOpen c address rule = true) :
    c.branchesInto address (address + rule.pattern.length) = false := by
  unfold isOpen at hopen
  rw [Bool.not_eq_true', Bool.or_eq_false_iff] at hopen
  exact hopen.2

/-- **A rule that is applied**: the code may be replaced by what has come of it, and the rules may be
relied on again. -/
theorem replaces_of_findReplacement (hc : c.IsSober)
    (hfind : (findReplacement c address rules).run w = (some (rule, built), w₁)) :
    (c.spliced address rule.pattern.length built.toArray).IsSober ∧
      c.Replaces L (c.spliced address rule.pattern.length built.toArray) := by
  obtain ⟨-, hopen, -⟩ := found_of_findReplacement hfind
  have hle := le_size_of_isOpen hopen
  have hx := exchange_of_findReplacement hfind
  have hsober : ∀ i ∈ window c address rule, i.IsSober := fun i hi =>
    hc.sober i (mem_of_mem_window hi)
  have hleaves : (∃ i ∈ window c address rule, i.MovesTop) →
      ∀ i ∈ window c address rule, i.PushesLeaf := by
    rintro ⟨j, hj, hmoves⟩ i hi
    exact hc.leaves ⟨j, mem_of_mem_window hj, hmoves⟩ i (mem_of_mem_window hi)
  have htotal := Code.dropTotal_spliced hle built.toArray
  have hall := hc.fits
  have hpart : dropTotal (window c address rule) ≤ dropTotal c.ops.toList := by
    rw [Code.ops_eq_parts hle, Array.toList_append, Array.toList_append, dropTotal_append,
      dropTotal_append, window]
    omega
  have hfits := Nat.lt_of_le_of_lt hpart hall
  obtain ⟨hbuilt, hless⟩ := hx.sober hsober hfits
  have hresplices : c.Resplices (c.spliced address rule.pattern.length built.toArray) address
      rule.pattern.length built :=
    .of_spliced rfl rfl (splices_of_findReplacement hfind)
      (fun i hi a ha =>
        (avoids_of_branchesInto (branchesInto_of_isOpen hopen) i hi a ha).imp_right .inl)
      (fun i hi => (hc.sober i hi).wide) hx.straight.1 hx.straight.2
      fun front i back hsplit m m' hfront => hx.calm hleaves hsplit hfront
  refine ⟨⟨Code.forall_mem_spliced hc.sober (fun i hi => hbuilt i (List.mem_toArray.1 hi))
    fun i n _ => Instruction.isSober_ofNat n, ?_, ?_⟩, hresplices.replaces ?_ fun m _ hm => ?_⟩
  · -- What moves operands has been there before.
    obtain ⟨hstill, hpushes⟩ := hx.leaves
    rintro ⟨j, hj, hmoves⟩
    have hold : ∃ i ∈ c.ops, i.MovesTop := by
      by_contra hnone
      push Not at hnone
      exact Code.forall_mem_spliced hnone (fun i hi => hstill i (List.mem_toArray.1 hi))
        (fun i n _ hbranch => Instruction.not_movesTop_of_isBranch hbranch) j hj hmoves
    have hall := hc.leaves hold
    exact Code.forall_mem_spliced hall
      (fun i hi => hpushes (fun i hi => hall i (mem_of_mem_window hi)) i (List.mem_toArray.1 hi))
      fun i n _ hbranch => Instruction.pushesLeaf_of_isBranch hbranch
  · unfold window at hless
    dsimp only at htotal
    omega
  · rintro ⟨depth, hspells⟩
    exact .operands depth (Code.forall_mem_spliced hspells
      (fun i hi => hx.spells (fun j hj => hspells j (mem_of_mem_window hj)) i (List.mem_toArray.1 hi))
      fun i n _ _ => .apart (.ofNat n))
  · exact hx.alike hsober hleaves hfits hm.fp_le

/-- **What the first sweep makes of code** may be put in its place. -/
theorem Sweep.replaces (hsweep : Sweep c address count w d n w') (hc : c.IsSober) :
    d.IsSober ∧ c.Replaces L d := by
  induction hsweep with
  | done => exact ⟨hc, .refl _⟩
  | pass hlt hfind rest ih => exact ih hc
  | @rewrite c c' d address count n w w₁ w₂ w' rule built hlt hfind hreplace rest ih =>
    obtain ⟨hsober, hreplaces⟩ := replaces_of_findReplacement (L := L) hc hfind
    obtain ⟨-, hopen, -⟩ := found_of_findReplacement hfind
    obtain ⟨journal, hrun⟩ := run_replace hopen count built w₁
    rw [hreplace] at hrun
    cases hrun
    obtain ⟨hd, hlater⟩ := ih hsober
    exact ⟨hd, hreplaces.trans hlater⟩

/-! ### The second sweep -/

theorem proper_of_structStart? (hc : ∀ i ∈ c.ops, i.IsProper) {r : Ref .struct} :
    ∀ i ∈ (c.spliced start count #[⟨.push, .struct r⟩]).ops, i.IsProper := by
  refine Code.forall_mem_spliced hc (fun i hi => ?_)
    fun i n _ hbranch => (Instruction.isSober_ofNat n hbranch).toIsProper
  rw [List.mem_singleton.1 (List.mem_toArray.1 hi)]
  exact ⟨nofun, fun _ t ht => by cases ht⟩

/-- **A struct that is built in advance**: the code may be replaced by the push of it, if it is among
the literals. -/
theorem replaces_of_structStart? (hc : ∀ i ∈ c.ops, i.IsProper)
    (hstart : structStart? c address = some start) {pushes : List Instruction} {operand : Value}
    (hops : (c.ops.extract start (address + 1)).toList = pushes ++ [⟨.struct, operand⟩])
    (hlit : IsLiteral pushes operand) {r : Ref .struct}
    (hr : L.struct? r = some (structOf (pushedBy pushes))) :
    c.Replaces L (c.spliced start (address + 1 - start) #[⟨.push, .struct r⟩]) := by
  obtain ⟨hle, hlt⟩ := lt_size_of_structStart? hstart
  obtain ⟨-, -, -, -, -, -, -, -, -, hclosed⟩ := structStart?_eq_some_iff.1 hstart
  have hstop : start + (address + 1 - start) = address + 1 := by omega
  have hresplices : c.Resplices (c.spliced start (address + 1 - start) #[⟨.push, .struct r⟩]) start
      (address + 1 - start) [⟨.push, .struct r⟩] := by
    refine .of_spliced rfl rfl (splices_of_structStart? hstart _) (fun i hi a ha => ?_)
      (fun i hi => (hc i hi).wide) ?_ (List.forall_mem_singleton.2 rfl) ?_
    · have haway := avoids_of_branchesInto hclosed i hi a ha
      have hpos : 0 < [(⟨.push, .struct r⟩ : Instruction)].length := Nat.succ_pos 0
      omega
    · rw [hstop, hops]
      intro i hi
      rcases List.mem_append.1 hi with hi | hi
      · rw [(hlit.plain i hi).1]
        rfl
      · rw [List.mem_singleton.1 hi]
        rfl
    · intro front i back hsplit m m' hfront
      have hnone : front = [] := by
        have hlength := congrArg List.length hsplit
        rw [List.length_singleton, List.length_append, List.length_cons] at hlength
        exact List.length_eq_zero_iff.1 (by omega)
      rw [hnone] at hfront
      cases hfront
      rfl
  refine hresplices.replaces ?_ fun m hapart hm => ?_
  · rintro ⟨depth, hspells⟩
    refine .operands (max depth 1) (Code.forall_mem_spliced
      (fun i hi => (hspells i hi).mono (Nat.le_max_left _ _)) (fun i hi => ?_)
      fun i n _ _ => .apart (.ofNat n))
    rw [List.mem_singleton.1 (List.mem_toArray.1 hi)]
    exact (hlit.spells hr).mono (Nat.le_max_right _ _)
  · rw [hstop, hops]
    refine hlit.alike ?_ hm.fp_le
    rw [Heap.struct, hapart.world.heap.literals.struct r _ hr, Option.getD_some]

/-- **What the second sweep makes of code** may be put in its place, where the structs that it has built
are literals. It leaves all structs as they are. -/
theorem StructSweep.replaces (hsweep : StructSweep c address count w d n w')
    (hc : ∀ i ∈ c.ops, i.IsProper) :
    (∀ (i : Nat) (s : StructObject), w.heap.structs[i]? = some s → w'.heap.structs[i]? = some s) ∧
      (∀ i ∈ d.ops, i.IsProper) ∧
      ∀ L : Literals, (∀ (r : Ref .struct) (s : StructObject), w.heap.structs.size ≤ r.id →
        w'.heap.structs[r.id]? = some s → L.struct? r = some s) → c.Replaces L d := by
  induction hsweep with
  | done => exact ⟨fun _ _ => id, hc, fun _ _ => .refl _⟩
  | pass hlt hstart rest ih => exact ih hc
  | @fail c d address count n start w w₁ w' f hstart hrun rest ih =>
    obtain ⟨pushes, operand, hops, hlit⟩ := exists_isLiteral hstart hc
    have hmade := (hlit.run_fragment hops w).1
    rw [hrun] at hmade
    cases hmade
  | @rewrite c c' d address count n start w w₁ w₂ w' v hstart hrun hreplace rest ih =>
    obtain ⟨pushes, operand, hops, hlit⟩ := exists_isLiteral hstart hc
    obtain ⟨hmade, hheap⟩ := hlit.run_fragment hops w
    rw [hrun] at hmade hheap
    cases hmade
    obtain ⟨journal, hpatched⟩ := run_replaceStruct hstart (.struct ⟨w.heap.structs.size⟩) w₁
    rw [hreplace] at hpatched
    cases hpatched
    dsimp only at hheap ih
    rw [hheap] at ih
    have hproper : ∀ i ∈ (c.spliced start (address + 1 - start)
        #[⟨.push, .struct ⟨w.heap.structs.size⟩⟩]).ops, i.IsProper :=
      proper_of_structStart? hc
    obtain ⟨hgrows, hd, hlater⟩ := ih hproper
    have hsize : w.heap.structs.size ≤ (withStructOf w.heap (pushedBy pushes)).structs.size := by
      show _ ≤ (w.heap.structs.push _).size
      rw [Array.size_push]
      exact Nat.le_succ _
    refine ⟨fun i s hs => hgrows i s (Heap.Grows.getElem?_push _ hs), hd, fun L hL => ?_⟩
    have hr : L.struct? ⟨w.heap.structs.size⟩ = some (structOf (pushedBy pushes)) :=
      hL _ _ (Nat.le_refl _) (hgrows _ _ Array.getElem?_push_size)
    exact (replaces_of_structStart? hc hstart hops hlit hr).trans
      (hlater L fun r s hsize' => hL r s (Nat.le_trans hsize hsize'))

end Peephole

open Peephole

/-! ### Optimized code -/

/-- The structs that are there beyond those that were. -/
def Literals.since (h h' : Heap) : Literals where
  array? _ := none
  map? _ := none
  struct? r := if h.structs.size ≤ r.id then h'.structs[r.id]? else none

theorem Literals.struct?_since {h h' : Heap} {r : Ref .struct} (hr : h.structs.size ≤ r.id) :
    (since h h').struct? r = h'.structs[r.id]? := if_pos hr

/-- Optimized code may be put in place of the code, where the structs built for it are literals. -/
theorem Code.replaces_optimized {c : Code} (hc : c.IsSober) (w : World) :
    ∃ d n w', c.optimized.run w = ((d, n), w') ∧ c.Replaces (.since w.heap w'.heap) d := by
  by_cases hdone : c.isOptimized = true
  · refine ⟨c, 0, w, ?_, .refl c⟩
    unfold Code.optimized
    rw [if_pos hdone]
    rfl
  · obtain ⟨replaced, n₁, w₁, final, n₂, w₂, w', hsweep, hstructs, hheap, hrun⟩ :=
      exists_run_optimized (Bool.eq_false_iff.2 hdone) w
    obtain ⟨hsame, -⟩ := hsweep.settles nofun
    obtain ⟨hreplaced, hfirst⟩ := hsweep.replaces (L := .since w.heap w'.heap) hc
    obtain ⟨-, hfinal, hsecond⟩ := hstructs.replaces fun i hi => (hreplaced.sober i hi).toIsProper
    refine ⟨_, _, w', hrun, (hfirst.trans (hsecond _ fun r s hsize hs => ?_)).trans
      (.of_ops rfl rfl fun i hi => (hfinal i hi).wide)⟩
    rw [hsame] at hsize
    rw [← hheap] at hs
    exact (Literals.struct?_since hsize).trans hs

/-- **Optimized code does what the code does.** Let branches have integers for operands, drops take
counts that together fit an integer, and pushes be of no type that is named as the field for types, and
of no containers if the code swaps operands or drops single ones. A machine starts with the code, in a
world where nothing but its code leads to the structs that were built in advance. As long as the hidden
tables of its packages are live, and it starts no task and branches nowhere beyond the end of its code,
the same machine with the optimized code comes to an end if and only if it does, with the same result,
the same objects, symbols, operands and output; frames on the stack may lead back to other places in
code. -/
theorem Code.optimized_preserves {c : Code} (hc : c.IsSober) (w : World) :
    ∃ d n w', c.optimized.run w = ((d, n), w') ∧
      ∀ m : Machine, m.Starts c → m.Apart (.since w.heap w'.heap) → (∀ k, (m.later k).Decent) →
        ∀ result, (∀ m', m.ComesTo result m' →
            ∃ n', (m.withCode d).ComesTo result n' ∧ m'.Resembles n') ∧
          ∀ n', (m.withCode d).ComesTo result n' → ∃ m', m.ComesTo result m' ∧ m'.Resembles n' := by
  obtain ⟨d, n, w', hrun, hreplaces⟩ := replaces_optimized hc w
  exact ⟨d, n, w', hrun, fun m hstarts hapart hdecent => (hreplaces.runs hstarts hapart hdecent).2⟩

/-- A branch over an instruction that does nothing, behind which a struct is made of a name and a sum. -/
def Code.detour : Code :=
  ⟨"detour", #[⟨.branch, .int 2⟩, .plain .noOperation, ⟨.push, .int 7⟩, ⟨.push, .string "a"⟩,
    ⟨.push, .int 2⟩, ⟨.push, .int 3⟩, .plain .add, ⟨.struct, .int 1⟩, .plain .stop], none, true, false⟩

theorem Code.detour_isSober : detour.IsSober := by
  have hall : ∀ i ∈ detour.ops, i.IsSober ∧ i.PushesLeaf := by
    intro i hi
    have hcases := Array.mem_toList_iff.2 hi
    simp only [detour, List.mem_cons, List.not_mem_nil, or_false] at hcases
    rcases hcases with rfl | rfl | rfl | rfl | rfl | rfl | rfl | rfl | rfl
    · exact ⟨⟨⟨fun _ => .inl rfl, nofun⟩, nofun⟩, nofun⟩
    all_goals exact ⟨⟨⟨nofun, nofun⟩, nofun⟩, fun _ => rfl⟩
  exact ⟨fun i hi => (hall i hi).1, fun _ i hi => (hall i hi).2, by decide +kernel⟩

/-- A machine that is about to run it, where the struct is there that was built in advance. -/
def Machine.detouring : Machine :=
  .ofContext { heap := (Code.detour.optimized.run {}).2.heap } {
    name := "main"
    thread := 1
    symbols := .root
    code := .detour
    running := true }

namespace Machine

theorem detouring_starts : detouring.Starts .detour :=
  ⟨rfl, rfl, ⟨nofun, rfl, rfl, rfl⟩, rfl, rfl, rfl, Arena.initial_sound⟩

theorem detouring_decent (k : Nat) : (detouring.later k).Decent := by
  have hchecks : ∀ {m : Machine}, m.world.heap.packages.toList.all
      (fun p => p.symbols.all m.world.scopes.contains) = true →
      (m.next?.all fun i => i.op != .go && (!i.op.isBranch ||
        i.operand.toIndex.toOption.all fun a => decide (a < m.context.code.size))) = true → m.Decent := by
    intro m hlive hnext
    refine ⟨hiddenLive_of_all hlive, fun _ i hi => ?_, fun _ i hi hbranch a ha => ?_⟩
    · rw [hi, Option.all_some, Bool.and_eq_true] at hnext
      exact bne_iff_ne.1 hnext.1
    · rw [hi, Option.all_some, Bool.and_eq_true, hbranch, ha] at hnext
      simpa [Except.toOption] using hnext.2
  have hlive : ∀ k < 9, (detouring.later k).world.heap.packages.toList.all
      (fun p => p.symbols.all (detouring.later k).world.scopes.contains) = true := by decide +kernel
  have hnext : ∀ k < 9, ((detouring.later k).next?.all fun i => i.op != .go && (!i.op.isBranch ||
      i.operand.toIndex.toOption.all fun a => decide (a < (detouring.later k).context.code.size)))
      = true := by decide +kernel
  exact always_of_over 8 (fun k hk => hchecks (hlive k (by omega)) (hnext k (by omega)))
    (by decide +kernel) (by decide +kernel) (hchecks (hlive 8 (by decide)) (hnext 8 (by decide))) k

theorem detouring_apart :
    detouring.Apart (.since {} (Code.detour.optimized.run {}).2.heap) := by
  have hnone : ∀ {α : Type} {xs : Array α}, xs.size = 0 → xs = #[] := Array.eq_empty_of_size_eq_zero
  have harrays : (Code.detour.optimized.run {}).2.heap.arrays = #[] := hnone (by decide +kernel)
  have hmaps : (Code.detour.optimized.run {}).2.heap.maps = #[] := hnone (by decide +kernel)
  have hpackages : (Code.detour.optimized.run {}).2.heap.packages = #[] := hnone (by decide +kernel)
  have hchannels : (Code.detour.optimized.run {}).2.heap.channels = #[] := hnone (by decide +kernel)
  have hmethods : (Code.detour.optimized.run {}).2.heap.methods = #[] := hnone (by decide +kernel)
  refine .ofCode ⟨⟨?_, ?_, ?_, ?_, ?_, ?_⟩, .initial⟩ (.operands 0 fun i hi => .apart ?_) .root
  · rw [harrays]
    exact .empty fun _ hv => absurd hv (Array.not_mem_empty _)
  · rw [hmaps]
    exact .empty fun _ hp => absurd hp List.not_mem_nil
  · have hthere : ∀ i, (Literals.since {} (Code.detour.optimized.run {}).2.heap).struct? ⟨i⟩
        = (Code.detour.optimized.run {}).2.heap.structs[i]? := fun i =>
      Literals.struct?_since (h := {}) (r := ⟨i⟩) (Nat.zero_le i)
    refine ⟨fun i s hs => (hthere i).symm.trans hs, fun i hi => ?_⟩
    rw [(hthere i).symm.trans hi]
    exact fun _ hp => absurd hp List.not_mem_nil
  · rw [hpackages]
    exact .empty fun _ hp => absurd hp List.not_mem_nil
  · rw [hchannels]
    exact .empty fun _ hp => absurd hp List.not_mem_nil
  · rw [hmethods]
    exact .empty fun _ hp => absurd hp List.not_mem_nil
  · have hcases := Array.mem_toList_iff.2 hi
    simp only [Code.detour, List.mem_cons, List.not_mem_nil, or_false] at hcases
    rcases hcases with rfl | rfl | rfl | rfl | rfl | rfl | rfl | rfl | rfl <;> exact .plain rfl rfl

theorem detouring_ends : ∃ m', detouring.ComesTo (.ok ()) m' := by
  have htasks : ∀ k < 9, (detouring.later k).tasks.size = 0 := by decide +kernel
  have halone : detouring.Alone := fun k => Array.eq_empty_of_size_eq_zero <|
    always_of_over (P := fun m => m.tasks.size = 0) 8 (fun k hk => htasks k (by omega))
      (by decide +kernel) (by decide +kernel) (htasks 8 (by decide)) k
  have hresult : (detouring.run 1).2 = some (.ok ()) := by decide +kernel
  rcases hrun : detouring.run 1 with ⟨m', result⟩
  rw [hrun] at hresult
  cases hresult
  exact ⟨m', comesTo_of_run halone hrun⟩

end Machine

open Machine

/-- The machine takes the detour and makes the struct, and with the optimized code it pushes it. -/
theorem Code.optimized_preserves_of_detour : detour.IsSober ∧
    ∃ d n w', detour.optimized.run {} = ((d, n), w') ∧ d.size = 4 ∧
      detouring.Starts detour ∧ detouring.Apart (.since {} w'.heap) ∧
      (∀ k, (detouring.later k).Decent) ∧ ∃ m' n', detouring.ComesTo (.ok ()) m' ∧
        (detouring.withCode d).ComesTo (.ok ()) n' ∧ m'.Resembles n' := by
  obtain ⟨d, n, w', hrun, hpreserves⟩ := optimized_preserves detour_isSober {}
  have hsize : (detour.optimized.run {}).1.1.size = 4 := by decide +kernel
  have hapart := detouring_apart
  rw [hrun] at hsize hapart
  obtain ⟨m', hm'⟩ := detouring_ends
  obtain ⟨n', hn', hresembles⟩ :=
    (hpreserves detouring detouring_starts hapart detouring_decent (.ok ())).1 m' hm'
  exact ⟨detour_isSober, d, n, w', hrun, hsize, detouring_starts, hapart, detouring_decent, m', n',
    hm', hn', hresembles⟩

end ScriptMachine
