import ScriptMachine.Proofs.Peephole.Structs

/-!
# What optimization leaves undone

After the first sweep no rule applies anywhere: it goes back far enough after a replacement to see
every run that this can have changed. The second sweep makes pushes and does not look at the rules
again, so that some of them may apply to what it has made.

* `applies_of_spliced`: a rule that applies outside a replaced run applied there before.
* `Sweep.settles`: after the first sweep no rule applies.
* `StructSweep.settles`: after the second, no struct can be built in advance, and a rule applies
  only to runs with a struct that was built.
* `optimized_settles_iff`: when optimized code is a fixpoint.
-/

namespace ScriptMachine

namespace Instruction

variable {i : Instruction} {stop removed inserted a : Nat}

/-- The address of a branch that is moved back. -/
theorem destination?_shiftPast (hi : i.destination? = some a) (h : inserted ≤ removed)
    (hstop : removed ≤ stop) :
    (Code.shiftPast stop removed inserted i).destination?
      = some (if stop ≤ a then a - removed + inserted else a) := by
  unfold Code.shiftPast
  rw [hi]
  dsimp only
  split
  · have hbranch : i.op.isBranch = true := by
      by_contra hnot
      rw [destination?_of_not_branch (Bool.eq_false_iff.2 hnot)] at hi
      cases hi
    have hwide : i.operand.IsWide := by
      by_contra hnot
      rw [destination?_of_not_wide hnot] at hi
      cases hi
    have hlt := Value.lt_of_toIndex ((destination?_of_wide hbranch hwide).1 hi)
    refine (destination?_of_wide (i := ⟨i.op, .ofNat (a - removed + inserted)⟩) hbranch
      (Value.isWide_ofNat _)).2 ?_
    exact (Value.toIndex_ofNat_eq_ok_iff (by omega)).2 ⟨rfl, by omega⟩
  · exact hi

end Instruction

namespace Code

variable {c : Code} {start count lo hi p len : Nat} {replacement : Array Instruction}

/-- The run that is replaced has no branches, and what replaces it is no longer. -/
structure Splices (c : Code) (start count : Nat) (replacement : Array Instruction) : Prop where
  le_size : start + count ≤ c.size
  size_le : replacement.size ≤ count
  straight : ∀ k i, start ≤ k → k < start + count → c.ops[k]? = some i → i.op.isBranch = false

/-- A branch into a range that has moved leads into the range where it is now. -/
theorem branchesInto_spliced (h : c.Splices start count replacement) {lo' hi' : Nat}
    (hrange : ∀ a, lo ≤ a → a < hi → lo' ≤ landing start count replacement.size a ∧
      landing start count replacement.size a < hi')
    (hinto : c.branchesInto lo hi = true) :
    (c.spliced start count replacement).branchesInto lo' hi' = true := by
  obtain ⟨k, hk, hbranch⟩ := Array.any_eq_true.1 hinto
  cases hdestination : c.ops[k].destination? with
  | none =>
    rw [hdestination] at hbranch
    cases hbranch
  | some a =>
    rw [hdestination] at hbranch
    simp only [Bool.and_eq_true, decide_eq_true_eq] at hbranch
    have hget : c.ops[k]? = some c.ops[k] := Array.getElem?_eq_getElem hk
    have houtside : k < start ∨ start + count ≤ k := by
      by_contra hinside
      rw [not_or, Nat.not_lt, Nat.not_le] at hinside
      have hstraight := h.straight k _ hinside.1 hinside.2 hget
      rw [Instruction.destination?_of_not_branch hstraight] at hdestination
      cases hdestination
    have hmoved : (c.spliced start count replacement).ops[
        landing start count replacement.size k]?
        = some (shiftPast (start + count) count replacement.size c.ops[k]) :=
      getElem?_spliced_of_outside h.le_size hget houtside
    obtain ⟨hlt, hat⟩ := Array.getElem?_eq_some_iff.1 hmoved
    refine Array.any_eq_true.2 ⟨_, hlt, ?_⟩
    rw [hat, Instruction.destination?_shiftPast hdestination h.size_le (Nat.le_add_left _ _)]
    obtain ⟨hlow, hhigh⟩ := hrange a hbranch.1 hbranch.2
    unfold landing at hlow hhigh
    simp only [Bool.and_eq_true, decide_eq_true_eq]
    by_cases hpast : start + count ≤ a
    · rw [if_pos hpast]
      rw [if_neg (Nat.not_lt.2 hpast)] at hlow hhigh
      exact ⟨hlow, hhigh⟩
    · rw [if_neg hpast]
      rw [if_pos (Nat.lt_of_not_le hpast)] at hlow hhigh
      exact ⟨hlow, hhigh⟩

/-- Instructions outside the run are where they have landed. -/
theorem extract_spliced (h : start + count ≤ c.size) (hp : p + len ≤ c.size)
    (houtside : p + len ≤ start ∨ start + count ≤ p) (hlen : 0 < len) :
    (c.spliced start count replacement).ops.extract (landing start count replacement.size p)
        (landing start count replacement.size p + len)
      = (c.ops.extract p (p + len)).map (shiftPast (start + count) count replacement.size) := by
  have hlanding : ∀ k < len, landing start count replacement.size (p + k)
      = landing start count replacement.size p + k := by
    intro k hk
    unfold landing
    split <;> split <;> omega
  have hget : ∀ k < len, (c.spliced start count replacement).ops[
      landing start count replacement.size p + k]?
      = (c.ops[p + k]?).map (shiftPast (start + count) count replacement.size) := by
    intro k hk
    have hlt : p + k < c.ops.size := Nat.lt_of_lt_of_le (Nat.add_lt_add_left hk p) hp
    rw [← hlanding k hk, getElem?_spliced_of_outside h (Array.getElem?_eq_getElem hlt) (by omega),
      Array.getElem?_eq_getElem hlt]
    rfl
  refine Array.ext_getElem? fun k => ?_
  rw [Array.getElem?_map, Array.getElem?_extract, Array.getElem?_extract]
  unfold size at hp
  by_cases hk : k < len
  · have hsome := hget k hk
    rw [Array.getElem?_eq_getElem (by omega : p + k < c.ops.size)] at hsome
    obtain ⟨hlt, -⟩ := Array.getElem?_eq_some_iff.1 hsome
    rw [if_pos (by omega), if_pos (by omega), hget k hk]
  · rw [if_neg (by omega), if_neg (by omega)]
    rfl

/-- Instructions before the run stay where they are. -/
theorem extract_spliced_before (h : start + count ≤ c.size) (hlow : lo < hi) (hhigh : hi ≤ start) :
    (c.spliced start count replacement).ops.extract lo hi
      = (c.ops.extract lo hi).map (shiftPast (start + count) count replacement.size) := by
  obtain ⟨len, rfl⟩ := Nat.exists_eq_add_of_lt hlow
  have hmoved := @extract_spliced c start count lo (len + 1) replacement h (by omega) (.inl hhigh)
    (Nat.succ_pos len)
  rwa [landing, if_pos (by omega)] at hmoved

/-- Only branches are moved. -/
theorem shiftPast_of_not_branch {i : Instruction} {stop removed inserted : Nat}
    (h : i.op.isBranch = false) : shiftPast stop removed inserted i = i :=
  shiftPast_of_none (Instruction.destination?_of_not_branch h)

/-- Instructions that are no branches stay the same. -/
theorem map_shiftPast {ops : List Instruction} {stop removed inserted : Nat}
    (h : ∀ i ∈ ops.map (shiftPast stop removed inserted), i.op.isBranch = false) :
    ops.map (shiftPast stop removed inserted) = ops := by
  refine (List.map_congr_left fun i hi => ?_).trans (List.map_id ops)
  have hmoved := h _ (List.mem_map_of_mem hi)
  rw [op_shiftPast] at hmoved
  exact shiftPast_of_not_branch hmoved

end Code

namespace Peephole

open Code

variable {h : Heap} {c d : Code} {w w' : World} {rule : Rule} {replacement : Array Instruction}
  {address count start p n : Nat}

/-! ### Outside a replaced run -/

theorem not_isBranch_of_mem_window (hrule : rule ∈ rules) (hopen : isOpen c p rule = true)
    {registers : Registers} (hmatch : rule.match? h (window c p rule) = some registers) :
    ∀ i ∈ window c p rule, i.op.isBranch = false := by
  have hall : ∀ rule ∈ rules, ∀ op ∈ rule.pattern.map (·.1), op.isBranch = false := by decide
  intro i hi
  refine hall rule hrule i.op ?_
  rw [← ops_window hopen hmatch]
  exact List.mem_map_of_mem hi

/-- **A rule that applies outside a replaced run applied there before**, to the same instructions. -/
theorem applies_of_spliced (hrule : rule ∈ rules) (hsplices : c.Splices start count replacement)
    (houtside : p + rule.pattern.length ≤ start ∨ start + count ≤ p)
    (happlies : Applies h (c.spliced start count replacement)
      (landing start count replacement.size p) rule) :
    Applies h c p rule ∧ window (c.spliced start count replacement)
      (landing start count replacement.size p) rule = window c p rule := by
  obtain ⟨hopen, registers, hmatch, w, built, hbuilt⟩ := happlies
  have hle := hsplices.le_size
  have hsize := hsplices.size_le
  have hpos : 0 < rule.pattern.length := by simpa using (lowers_of_mem hrule).pos
  have hlanding : ∀ a, p ≤ a → a < p + rule.pattern.length →
      landing start count replacement.size a
        = landing start count replacement.size p + (a - p) := by
    intro a hlow hhigh
    unfold landing
    split <;> split <;> omega
  have hwithin : p + rule.pattern.length ≤ c.size := by
    have hmoved := le_size_of_isOpen hopen
    rw [size_spliced hle] at hmoved
    unfold landing at hmoved
    split at hmoved <;> omega
  have hwindow : window (c.spliced start count replacement)
      (landing start count replacement.size p) rule
      = (window c p rule).map (shiftPast (start + count) count replacement.size) := by
    unfold window
    rw [extract_spliced hle hwithin houtside hpos, Array.toList_map]
  -- What matches a pattern has no branches, so that nothing in the window was moved.
  have hsame : window (c.spliced start count replacement)
      (landing start count replacement.size p) rule = window c p rule := by
    have hstraight := not_isBranch_of_mem_window hrule hopen hmatch
    rw [hwindow] at hstraight ⊢
    exact map_shiftPast hstraight
  rw [hsame] at hmatch hbuilt
  refine ⟨⟨?_, registers, hmatch, w, built, hbuilt⟩, hsame⟩
  unfold isOpen at hopen ⊢
  rw [Bool.not_eq_true', Bool.or_eq_false_iff, decide_eq_false_iff_not] at hopen ⊢
  refine ⟨Nat.not_lt.2 hwithin, Bool.eq_false_iff.2 fun hinto => ?_⟩
  have hmoved : (c.spliced start count replacement).branchesInto
      (landing start count replacement.size p)
      (landing start count replacement.size p + rule.pattern.length) = true := by
    refine branchesInto_spliced hsplices (fun a hlow hhigh => ?_) hinto
    rw [hlanding a hlow hhigh]
    omega
  rw [hopen.2] at hmoved
  cases hmoved

/-- A struct that can be built before a replaced run could be built there before. -/
theorem structStart?_of_spliced (hsplices : c.Splices start count replacement) (hp : p < start)
    {s : Nat} (hstart : structStart? (c.spliced start count replacement) p = some s) :
    structStart? c p = some s ∧
      (c.spliced start count replacement).ops.extract s (p + 1) = c.ops.extract s (p + 1) := by
  have hle := hsplices.le_size
  obtain ⟨hsp, hlt⟩ := lt_size_of_structStart? hstart
  have hlanding : ∀ a < start, landing start count replacement.size a = a := fun a ha =>
    if_pos (Nat.lt_add_right count ha)
  -- The run has pushes and a struct instruction, so that nothing in it was moved.
  have hsame : (c.spliced start count replacement).ops.extract s (p + 1)
      = c.ops.extract s (p + 1) := by
    obtain ⟨pushes, operand, -, hops, hpushes, -, -⟩ := pushes_of_structStart? hstart
    have hstraight : ∀ i ∈ ((c.spliced start count replacement).ops.extract s (p + 1)).toList,
        i.op.isBranch = false := by
      intro i hi
      rw [hops, List.mem_append, List.mem_singleton] at hi
      rcases hi with hi | rfl
      · rw [(hpushes i hi).1]
        rfl
      · rfl
    have hextract := @extract_spliced_before c start count s (p + 1) replacement hle
      (Nat.lt_succ_of_le hsp) hp
    rw [hextract, Array.toList_map] at hstraight
    rw [hextract]
    exact Array.toList_inj.1 ((Array.toList_map ..).trans (map_shiftPast hstraight))
  refine ⟨?_, hsame⟩
  have hshorter : (c.spliced start count replacement).ops.extract s p = c.ops.extract s p := by
    have hfirst := congrArg (·.extract 0 (p - s)) hsame
    simpa only [Array.extract_extract, Nat.add_zero, Nat.add_sub_cancel' hsp,
      Nat.min_eq_left (Nat.le_succ p)] using hfirst
  have hget : (c.spliced start count replacement).ops[p]? = c.ops[p]? := by
    have hlast := congrArg (·[p - s]?) hsame
    unfold Code.size at hle hlt
    rwa [Array.getElem?_extract, if_pos (by omega), Array.getElem?_extract, if_pos (by omega),
      Nat.add_sub_cancel' hsp] at hlast
  obtain ⟨i, fields, hi, hop, hindex, hfields, rfl, hpushes, huntyped, hclosed⟩ :=
    structStart?_eq_some_iff.1 hstart
  rw [hshorter] at hpushes huntyped
  rw [hget] at hi
  refine structStart?_eq_some_iff.2
    ⟨i, fields, hi, hop, hindex, hfields, rfl, hpushes, huntyped, Bool.eq_false_iff.2 fun hinto => ?_⟩
  have hmoved : (c.spliced start count replacement).branchesInto (p - fields * 2 + 1) (p + 1) = true := by
    refine branchesInto_spliced hsplices (fun a hlow hhigh => ?_) hinto
    rw [hlanding a (by omega)]
    exact ⟨hlow, hhigh⟩
  rw [hclosed] at hmoved
  cases hmoved

/-! ### The first sweep -/

/-- A replacement takes the place of instructions that are no branches, and is no longer. -/
theorem splices_of_findReplacement {built : List Instruction}
    (hfind : (findReplacement c address rules).run w = (some (rule, built), w')) :
    c.Splices address rule.pattern.length built.toArray := by
  obtain ⟨hrule, hopen, ⟨h, registers, hmatch⟩, hbuilt⟩ := found_of_findReplacement hfind
  have hle := le_size_of_isOpen hopen
  refine ⟨hle, ?_, fun k i hlow hhigh hk => ?_⟩
  · have hlength := (lowers_of_mem hrule).length_le
    rw [← hbuilt] at hlength
    simpa using hlength
  · refine not_isBranch_of_mem_window hrule hopen hmatch i ?_
    unfold Code.size at hle
    refine Array.mem_toList_iff.2 (Array.mem_of_getElem? (i := k - address) ?_)
    rw [Array.getElem?_extract, if_pos (by omega), Nat.add_sub_cancel' hlow, hk]

/-- No rule applies beyond the end of the code. -/
theorem lt_size_of_applies (hrule : rule ∈ rules) (happlies : Applies h c p rule) : p < c.size := by
  have hpos : 0 < rule.pattern.length := by simpa using (lowers_of_mem hrule).pos
  have hle := le_size_of_isOpen happlies.open_eq
  omega

/-- **After the first sweep no rule applies.** The sweep leaves the objects alone, and no rule applies
before the address that it has come to: a replacement can make a rule apply only to runs that end
behind where it begins, and these begin where the sweep goes on. -/
theorem Sweep.settles (hsweep : Sweep c address count w d n w')
    (hpassed : ∀ p < address, ∀ rule ∈ rules, ¬ Applies w.heap c p rule) :
    w'.heap = w.heap ∧ ∀ p, ∀ rule ∈ rules, ¬ Applies w.heap d p rule := by
  induction hsweep with
  | done hend =>
    refine ⟨rfl, fun p rule hrule happlies => hpassed p ?_ rule hrule happlies⟩
    exact Nat.lt_of_lt_of_le (lt_size_of_applies hrule happlies) hend
  | @pass c d address count n w w₁ w' hlt hfind rest ih =>
    obtain ⟨hheap, hnone⟩ := run_findReplacement (List.Subset.refl _) c address w
    rw [hfind] at hheap hnone
    dsimp only at hheap
    rw [← hheap] at hpassed hnone ⊢
    refine ih fun p hp => ?_
    rcases Nat.lt_or_eq_of_le (Nat.le_of_lt_succ hp) with hp | rfl
    · exact hpassed p hp
    · exact hnone.1 rfl
  | @rewrite c c' d address count n w w₁ w₂ w' rule built hlt hfind hreplace rest ih =>
    obtain ⟨hheap, -⟩ := run_findReplacement (List.Subset.refl _) c address w
    obtain ⟨-, hopen, -⟩ := found_of_findReplacement hfind
    obtain ⟨journal, hrun⟩ := run_replace hopen count built w₁
    rw [hfind] at hheap
    rw [hreplace] at hrun
    cases hrun
    dsimp only at hheap ih
    rw [← hheap] at hpassed ⊢
    refine ih fun p hp candidate hcandidate happlies => ?_
    -- The sweep goes back so far that no run before that address reaches the replaced one.
    have hlength : candidate.pattern.length ≤ longest := by
      simpa using (lowers_of_mem hcandidate).le_longest
    refine hpassed p (by omega) candidate hcandidate
      (applies_of_spliced hcandidate (splices_of_findReplacement hfind) (.inl (by omega)) ?_).1
    rwa [landing, if_pos (by omega)]

/-! ### The second sweep -/

/-- Among the instructions is the push of a struct that is not one of the first `n`. -/
def PushesBuilt (n : Nat) (ops : List Instruction) : Prop :=
  ∃ r : Ref .struct, (⟨.push, .struct r⟩ : Instruction) ∈ ops ∧ n ≤ r.id

/-- In no world is the fragment worth a value. -/
def Unbuildable (ops : Array Instruction) : Prop :=
  ∀ w : World, ∃ f w', (runFragment ops).run w = (.error f, w')

/-- A struct that is built in advance takes the place of instructions that are no branches. -/
theorem splices_of_structStart? (hstart : structStart? c address = some start) (i : Instruction) :
    c.Splices start (address + 1 - start) #[i] := by
  obtain ⟨hle, hlt⟩ := lt_size_of_structStart? hstart
  obtain ⟨pushes, operand, -, hops, hpushes, -, -⟩ := pushes_of_structStart? hstart
  refine ⟨by omega, by rw [List.size_toArray, List.length_singleton]; omega, fun k j hlow hhigh hk => ?_⟩
  have hj : j ∈ pushes ++ [⟨.struct, operand⟩] := by
    rw [← hops, Array.mem_toList_iff]
    refine Array.mem_of_getElem? (i := k - start) ?_
    unfold Code.size at hlt
    rw [Array.getElem?_extract, if_pos (by omega), Nat.add_sub_cancel' hlow, hk]
  rw [List.mem_append, List.mem_singleton] at hj
  rcases hj with hj | rfl
  · rw [(hpushes j hj).1]
    rfl
  · rfl

/-- What is settled about code, up to an address, when the structs from `n` on have been built. -/
structure SettledTo (h : Heap) (n : Nat) (c : Code) (address : Nat) : Prop where
  late : ∀ p, ∀ rule ∈ rules, Applies h c p rule → PushesBuilt n (window c p rule)
  unbuildable : ∀ p < address, ∀ s, structStart? c p = some s →
    Unbuildable (c.ops.extract s (p + 1))

/-- A struct that is built in advance leaves settled what is before it. -/
theorem SettledTo.spliced (hsettled : SettledTo h n c address)
    (hstart : structStart? c address = some start) {r : Ref .struct} (hr : n ≤ r.id) :
    SettledTo h n (c.spliced start (address + 1 - start) #[⟨.push, .struct r⟩]) (start + 1) := by
  have hsplices := splices_of_structStart? hstart ⟨.push, .struct r⟩
  obtain ⟨hle, hlt⟩ := lt_size_of_structStart? hstart
  have hpush : (c.spliced start (address + 1 - start) #[⟨.push, .struct r⟩]).ops[start]?
      = some ⟨.push, .struct r⟩ := getElem?_spliced_of_replacement (k := 0) hsplices.le_size
    Nat.zero_lt_one
  have hsize : (#[⟨.push, .struct r⟩] : Array Instruction).size = 1 := rfl
  refine ⟨fun p rule hrule happlies => ?_, fun p hp s hs => ?_⟩
  · have houtside : ∀ q, landing start (address + 1 - start) 1 q = p →
        q + rule.pattern.length ≤ start ∨ start + (address + 1 - start) ≤ q →
        PushesBuilt n
          (window (c.spliced start (address + 1 - start) #[⟨.push, .struct r⟩]) p rule) := by
      rintro q rfl hq
      obtain ⟨hbefore, hsame⟩ := applies_of_spliced hrule hsplices hq happlies
      have hwindow := hsettled.late q rule hrule hbefore
      rwa [← hsame] at hwindow
    rcases Nat.lt_or_ge start p with hafter | hbefore
    · refine houtside (p - 1 + (address + 1 - start)) ?_ (.inr (by omega))
      unfold landing
      rw [if_neg (by omega)]
      omega
    rcases Nat.lt_or_ge start (p + rule.pattern.length) with hover | hwhole
    · -- the run has the struct in it
      refine ⟨r, ?_, hr⟩
      refine Array.mem_toList_iff.2 (Array.mem_of_getElem? (i := start - p) ?_)
      have hwithin := le_size_of_isOpen happlies.open_eq
      unfold Code.size at hwithin
      rw [Array.getElem?_extract, if_pos (by omega), Nat.add_sub_cancel' hbefore, hpush]
    · refine houtside p ?_ (.inl hwhole)
      unfold landing
      rw [if_pos (by omega)]
  · rcases Nat.lt_or_eq_of_le (Nat.le_of_lt_succ hp) with hp | rfl
    · obtain ⟨hbefore, hsame⟩ := structStart?_of_spliced hsplices hp hs
      rw [hsame]
      exact hsettled.unbuildable p (by omega) s hbefore
    · obtain ⟨i, -, hi, hop, -⟩ := structStart?_eq_some_iff.1 hs
      rw [hpush] at hi
      cases hi
      cases hop

/-- **After the second sweep** no struct can be built in advance, and a rule that applies has a struct
before it that the sweep has built. -/
theorem StructSweep.settles {k : Nat} (hsweep : StructSweep c address count w d n w')
    (hk : k ≤ w.heap.structs.size) (hsettled : SettledTo h k c address) :
    ∀ p, SettledTo h k d p := by
  induction hsweep with
  | done hend =>
    refine fun p => ⟨hsettled.late, fun q hq s hs => hsettled.unbuildable q ?_ s hs⟩
    exact Nat.lt_of_lt_of_le (lt_size_of_structStart? hs).2 hend
  | @pass c d address count n w w' hlt hstart rest ih =>
    refine ih hk ⟨hsettled.late, fun p hp s hs => ?_⟩
    rcases Nat.lt_or_eq_of_le (Nat.le_of_lt_succ hp) with hp | rfl
    · exact hsettled.unbuildable p hp s hs
    · rw [hstart] at hs
      cases hs
  | @fail c d address count n start w w₁ w' f hstart hrun rest ih =>
    obtain ⟨built, hbuilt⟩ := exists_run_structFragment hstart
    obtain ⟨hgrows, hnone, -⟩ := hbuilt w
    rw [hrun] at hgrows hnone
    refine ih (Nat.le_trans hk hgrows) ⟨hsettled.late, fun p hp s hs => ?_⟩
    rcases Nat.lt_or_eq_of_le (Nat.le_of_lt_succ hp) with hp | rfl
    · exact hsettled.unbuildable p hp s hs
    · rw [hstart] at hs
      cases hs
      -- Whether a fragment is worth a struct is the same in every world.
      intro u
      obtain ⟨-, hsome, -⟩ := hbuilt u
      rw [← hnone] at hsome
      rcases hresult : (runFragment (c.ops.extract start (p + 1))).run u with ⟨g | v, u'⟩
      · exact ⟨g, u', rfl⟩
      · rw [hresult] at hsome
        cases hsome
  | @rewrite c c' d address count n start w w₁ w₂ w' v hstart hrun hreplace rest ih =>
    obtain ⟨built, hbuilt⟩ := exists_run_structFragment hstart
    obtain ⟨hgrows, -, hstruct⟩ := hbuilt w
    rw [hrun] at hgrows hstruct
    obtain ⟨r, rfl, hr⟩ := hstruct v rfl
    obtain ⟨journal, hpatched⟩ := run_replaceStruct hstart (.struct r) w₁
    rw [hreplace] at hpatched
    cases hpatched
    exact ih (Nat.le_trans hk hgrows) (hsettled.spliced hstart (Nat.le_trans hk hr))

/-! ### On other objects -/

/-- Whether no register of a pattern is captured a second time. -/
def capturesOnce : List Nat → List (Opcode × OperandPattern) → Bool
  | _, [] => true
  | seen, (_, .captured r) :: pattern => !seen.contains r && capturesOnce (r :: seen) pattern
  | seen, (_, .summed r) :: pattern => capturesOnce (r :: seen) pattern
  | seen, _ :: pattern => capturesOnce seen pattern

theorem sameOperand_null (h h' : Heap) (v : Value) :
    sameOperand h .null v = sameOperand h' .null v := by
  have hnull : ∀ h : Heap, h.equal .null .null = true := by
    intro h
    unfold Heap.equal
    cases h.depth <;> rfl
  cases v with
  | null => rw [sameOperand, sameOperand, hnull, hnull]
  | _ => rfl

/-- The objects matter only to a register that is captured twice. -/
theorem matchAll_congr (h h' : Heap) {seen : List Nat} {pattern : List (Opcode × OperandPattern)}
    {registers : Registers} (hregisters : ∀ r, r ∉ seen → registers.lookup r = none)
    (honce : capturesOnce seen pattern = true) (ops : List Instruction) :
    matchAll h registers pattern ops = matchAll h' registers pattern ops := by
  have hinsert : ∀ {seen : List Nat} {registers : Registers} (r : Nat) (v : Value),
      (∀ r, r ∉ seen → registers.lookup r = none) →
      ∀ q, q ∉ r :: seen → (Assoc.insert r v registers).lookup q = none := by
    intro seen registers r v hnone q hq
    rw [List.mem_cons, not_or] at hq
    rw [Assoc.lookup_insert_ne hq.1]
    exact hnone q hq.2
  induction pattern generalizing seen registers ops with
  | nil => rfl
  | cons p pattern ih =>
    obtain ⟨op, operand⟩ := p
    cases ops with
    | nil => rfl
    | cons i ops =>
      rw [matchAll, matchAll]
      split
      · cases operand with
        | anything => exact ih hregisters honce ops
        | absent =>
          rw [matchOperand, matchOperand, sameOperand_null h h']
          split
          · exact ih hregisters honce ops
          · rfl
        | captured r =>
          rw [capturesOnce, Bool.and_eq_true, Bool.not_eq_true'] at honce
          have hnone := hregisters r (by simpa using honce.1)
          rw [matchOperand, matchOperand, hnone]
          exact ih (hinsert r _ hregisters) honce.2 ops
        | summed r =>
          rw [matchOperand, matchOperand]
          dsimp only
          split
          · exact ih (hinsert r _ hregisters) honce ops
          · rfl
      · rfl

/-- Loads that are the same on some objects are so on others. -/
def LoadsAgree (c : Code) (h h' : Heap) : Prop :=
  ∀ i ∈ c.ops, ∀ j ∈ c.ops, i.op = .load → j.op = .load →
    sameOperand h i.operand j.operand = true → sameOperand h' i.operand j.operand = true

/-- **A rule applies on other objects as well**, if loads are the same there. -/
theorem Applies.of_loadsAgree {h' : Heap} (happlies : Applies h c p rule) (hrule : rule ∈ rules)
    (hloads : LoadsAgree c h h') : Applies h' c p rule := by
  obtain ⟨hopen, registers, hmatch, hbuilds⟩ := happlies
  refine ⟨hopen, registers, ?_, hbuilds⟩
  have hall : ∀ rule ∈ rules, capturesOnce [] rule.pattern = true ∨
      rule.pattern = [(.load, .captured 0), (.load, .captured 0)] := by decide
  unfold Rule.match? at hmatch ⊢
  rcases hall rule hrule with honce | hpattern
  · rwa [matchAll_congr h' h (fun _ _ => rfl) honce]
  · have hmem : ∀ i ∈ window c p rule, i ∈ c.ops := fun i hi => mem_of_mem_window hi
    rw [hpattern] at hmatch ⊢
    generalize window c p rule = ops at hmatch hmem
    match ops with
    | [] => cases hmatch
    | [i] =>
      rw [matchAll] at hmatch
      split at hmatch <;> cases hmatch
    | i :: j :: ops =>
      rw [matchAll] at hmatch ⊢
      split at hmatch
      · rename_i hi
        rw [if_pos hi]
        change (matchAll h [(0, i.operand)] [(.load, .captured 0)] (j :: ops)) = some registers
          at hmatch
        change (matchAll h' [(0, i.operand)] [(.load, .captured 0)] (j :: ops)) = some registers
        rw [matchAll] at hmatch ⊢
        split at hmatch
        · rename_i hj
          rw [if_pos hj]
          change (if sameOperand h i.operand j.operand then some [(0, i.operand)] else none).bind _
            = some registers at hmatch
          change (if sameOperand h' i.operand j.operand then some [(0, i.operand)] else none).bind _
            = some registers
          split at hmatch
          · rename_i hsame
            rw [if_pos (hloads i (hmem i (.head _)) j (hmem j (.tail _ (.head _))) hi hj hsame)]
            exact hmatch
          · cases hmatch
        · cases hmatch
      · cases hmatch

/-! ### Optimizing again -/

theorem run_folded_of_push {ops : List Instruction} {v : Value}
    (hv : (⟨.push, v⟩ : Instruction) ∈ ops) (hliteral : isLiteral v = false) (w : World) :
    (folded ops).run w = (none, w) := by
  have hnot : ¬ (ops.all fun i => i.op ≠ .push || isLiteral i.operand) = true := by
    intro hall
    have hpush := List.all_eq_true.1 hall _ hv
    rw [hliteral] at hpush
    cases hpush
  rw [folded, if_neg hnot]
  rfl

/-- The rules that apply to pushes of structs: those that compute nothing. -/
theorem pattern_of_pushesBuilt (hrule : rule ∈ rules) (happlies : Applies h c p rule)
    (hpushes : PushesBuilt n (window c p rule)) :
    rule.pattern.map (·.1) = [.push, .drop] ∨ rule.pattern.map (·.1) = [.push, .push, .swap] := by
  have hall : ∀ rule ∈ rules, .push ∈ rule.pattern.map (·.1) →
      rule.replacement = [(.push, .folded)] ∨ rule.pattern.map (·.1) = [.push, .drop] ∨
        rule.pattern.map (·.1) = [.push, .push, .swap] := by decide
  obtain ⟨r, hpush, -⟩ := hpushes
  obtain ⟨hopen, registers, hmatch, w, built, hbuilt⟩ := happlies
  have hmem : Opcode.push ∈ rule.pattern.map (·.1) := by
    rw [← ops_window hopen hmatch]
    exact List.mem_map_of_mem hpush
  rcases hall rule hrule hmem with hfolds | hlate
  · rw [hfolds, run_replacementFor_cons] at hbuilt
    rw [operandFrom, run_folded_of_push hpush rfl] at hbuilt
    cases hbuilt
  · exact hlate

/-- Whether a rule applies is for the instructions to tell. -/
theorem Applies.of_ops (happlies : Applies h c p rule) (hops : c.ops = d.ops) :
    Applies h d p rule := by
  obtain ⟨hopen, hbuilds⟩ := happlies
  unfold isOpen Code.size Code.branchesInto at hopen
  unfold window at hbuilds
  rw [hops] at hopen hbuilds
  exact ⟨hopen, hbuilds⟩

theorem structStart?_of_ops (hops : c.ops = d.ops) : structStart? c p = structStart? d p := by
  unfold structStart? Code.branchesInto
  rw [hops]

theorem Sweep.count_le (hsweep : Sweep c address count w d n w') : count ≤ n := by
  induction hsweep with
  | done => exact Nat.le_refl _
  | pass _ _ _ ih => exact ih
  | rewrite _ _ _ _ ih => exact Nat.le_of_succ_le ih

theorem StructSweep.count_le (hsweep : StructSweep c address count w d n w') : count ≤ n := by
  induction hsweep with
  | done => exact Nat.le_refl _
  | pass _ _ _ ih => exact ih
  | fail _ _ _ ih => exact ih
  | rewrite _ _ _ _ ih => exact Nat.le_of_succ_le ih

/-- The first sweep makes no replacement exactly if no rule applies; then it changes nothing. -/
theorem Sweep.count_eq_iff (hsweep : Sweep c address count w d n w') :
    (n = count ↔ ∀ p, address ≤ p → ∀ rule ∈ rules, ¬ Applies w.heap c p rule) ∧
      (n = count → d = c) := by
  induction hsweep with
  | @done c address count w hend =>
    refine ⟨iff_of_true rfl fun p hp rule hrule happlies => ?_, fun _ => rfl⟩
    exact absurd (lt_size_of_applies hrule happlies) (Nat.not_lt.2 (Nat.le_trans hend hp))
  | @pass c d address count n w w₁ w' hlt hfind rest ih =>
    obtain ⟨hheap, hnone⟩ := run_findReplacement (List.Subset.refl _) c address w
    rw [hfind] at hheap hnone
    dsimp only at hheap
    rw [← hheap] at hnone ⊢
    refine ⟨ih.1.trans ⟨fun hlater p hp => ?_, fun hall p hp => hall p (Nat.le_of_succ_le hp)⟩, ih.2⟩
    rcases Nat.eq_or_lt_of_le hp with rfl | hp
    · exact hnone.1 rfl
    · exact hlater p hp
  | @rewrite c c' d address count n w w₁ w₂ w' rule built hlt hfind hreplace rest ih =>
    have hmore : count < n := rest.count_le
    have hnone := (run_findReplacement (List.Subset.refl _) c address w).2
    rw [hfind] at hnone
    refine ⟨iff_of_false (Nat.ne_of_gt hmore) fun hall => ?_, fun heq => absurd heq (Nat.ne_of_gt hmore)⟩
    cases hnone.2 (hall address (Nat.le_refl _))

/-- The second sweep makes no replacement if no struct can be built in advance. -/
theorem StructSweep.idle (hsweep : StructSweep c address count w d n w')
    (hnone : ∀ p s, structStart? c p = some s → Unbuildable (c.ops.extract s (p + 1))) :
    d = c ∧ n = count := by
  induction hsweep with
  | done => exact ⟨rfl, rfl⟩
  | pass _ _ _ ih => exact ih hnone
  | fail _ _ _ ih => exact ih hnone
  | @rewrite c c' d address count n start w w₁ w₂ w' v hstart hrun hreplace rest ih =>
    obtain ⟨f, u, hfails⟩ := hnone address start hstart w
    rw [hfails] at hrun
    cases hrun

end Peephole

open Peephole

/-- **When optimized code is a fixpoint.** After code has been optimized no struct of it can be built
in advance. A rule may still apply, in any world in which loads are the same as they were: only a
push that is followed by a drop, or two that are followed by a swap, and only with a struct that was
built in advance. Optimizing the instructions once more makes no replacement if and only if no rule
applies, and then leaves them as they are. -/
theorem Code.optimized_settles_iff (c : Code) (w : World) (hfresh : c.isOptimized = false) :
    ∃ d n w', c.optimized.run w = ((d, n), w') ∧
      (∀ p start, structStart? d p = some start → Unbuildable (d.ops.extract start (p + 1))) ∧
      ∀ v : World, LoadsAgree d v.heap w.heap →
        (∀ p, ∀ rule ∈ rules, Applies v.heap d p rule →
          (rule.pattern.map (·.1) = [.push, .drop] ∨
            rule.pattern.map (·.1) = [.push, .push, .swap]) ∧
          PushesBuilt w.heap.structs.size (window d p rule)) ∧
        ∃ e k v', ({ d with isOptimized := false } : Code).optimized.run v = ((e, k), v') ∧
          (k = 0 ↔ ∀ p, ∀ rule ∈ rules, ¬ Applies v.heap d p rule) ∧ (k = 0 → e = d) := by
  obtain ⟨replaced, n₁, w₁, final, n₂, w₂, w', hsweep, hstructs, hrun⟩ := run_optimized hfresh w
  obtain ⟨hheap, hnone⟩ := hsweep.settles nofun
  have hsettled : SettledTo w.heap w.heap.structs.size replaced 0 :=
    ⟨fun p rule hrule happlies => absurd happlies (hnone p rule hrule), nofun⟩
  have hfinal := hstructs.settles (by rw [hheap]) hsettled
  have hunbuildable : ∀ c : Code, c.ops = final.ops → ∀ p start, structStart? c p = some start →
      Unbuildable (c.ops.extract start (p + 1)) := by
    intro c hops p start hstart
    rw [structStart?_of_ops hops] at hstart
    rw [hops]
    exact (hfinal (p + 1)).unbuildable p (Nat.lt_succ_self p) start hstart
  refine ⟨_, _, w', hrun, hunbuildable _ rfl, fun v hloads => ⟨fun p rule hrule happlies => ?_, ?_⟩⟩
  · have hlate := (hfinal 0).late p rule hrule
      ((happlies.of_loadsAgree hrule hloads).of_ops (d := final) rfl)
    exact ⟨pattern_of_pushesBuilt hrule happlies hlate, hlate⟩
  · obtain ⟨again, k₁, v₁, last, k₂, v₂, v', hsweep', hstructs', hrun'⟩ :=
      run_optimized (c := { final with isOptimized := false }) rfl v
    obtain ⟨hidle, hsame⟩ := hsweep'.count_eq_iff
    have hstill : k₁ = 0 → last = { final with isOptimized := false } ∧ k₂ = 0 := by
      intro hk
      obtain rfl := hsame hk
      exact hstructs'.idle (hunbuildable _ rfl)
    refine ⟨_, _, v', hrun', ⟨fun hk p rule hrule happlies => ?_, fun hall => ?_⟩, fun hk => ?_⟩
    · exact hidle.1 (by omega) p (Nat.zero_le p) rule hrule (happlies.of_ops rfl)
    · have hk := hidle.2 fun p _ rule hrule happlies => hall p rule hrule (happlies.of_ops rfl)
      rw [hk, (hstill hk).2]
    · rw [(hstill (by omega)).1]

/-- A struct of literals that is dropped at once. -/
def Code.discarded : Code :=
  ((((empty "discarded").emit .push (.string "a")).emit .push (.int 1)).emit .struct (.int 1)).emit
    .drop .null

/-- The struct is built in advance, and its push and the drop are left to the next optimization. -/
theorem Code.optimized_settles_iff_of_discarded : discarded.isOptimized = false ∧
    ∃ d n w', discarded.optimized.run {} = ((d, n), w') ∧ LoadsAgree d w'.heap {} ∧
      ¬ ∀ p, ∀ rule ∈ rules, ¬ Applies w'.heap d p rule := by
  obtain ⟨d, n, w', hrun, -, hlate⟩ := optimized_settles_iff discarded {} rfl
  have hloads : LoadsAgree d w'.heap {} := by
    have hnone : (discarded.optimized.run {}).1.1.ops.all (fun i => i.op ≠ .load) = true := by
      decide +kernel
    rw [hrun] at hnone
    intro i hi j _ hload
    simpa [hload] using Array.all_eq_true'.1 hnone i hi
  obtain ⟨-, e, k, v', hagain, hk, -⟩ := hlate w' hloads
  refine ⟨rfl, d, n, w', hrun, hloads, fun hnone => ?_⟩
  have hone : (({ (discarded.optimized.run {}).1.1 with isOptimized := false } : Code).optimized.run
      (discarded.optimized.run {}).2).1.2 = 1 := by
    decide +kernel
  rw [hrun] at hone
  dsimp only at hone
  rw [hagain, hk.2 hnone] at hone
  cases hone

end ScriptMachine
