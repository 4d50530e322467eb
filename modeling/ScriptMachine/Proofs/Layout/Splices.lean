import ScriptMachine.Proofs.Layout.Steps
import ScriptMachine.Proofs.Peephole.Fixpoints

/-!
# Code with a run of instructions replaced

One straight run of instructions has been replaced by another that does the same. Two machines, one with
the code as it was and one with the code as it is, go from place to place that correspond: outside the
run step by step, and across the run one by the instructions that were there and the other one by those
that have replaced them.

* `Machine.Round`: two machines come to a step that they take alike.
* `Round.comesTo`, `Round.always`: where there is always a further round, the machines end alike, and
  the second has what each round gives it in all its states.
* `Machine.Decent`: what is asked of each state of the first machine.
* `Code.Resplices`: code with a run replaced; `Resplices.pairing`: the places that correspond.
* `Resplices.tallies_or_window`: the next instructions do the same, or both machines are at the run.
* `Resplices.Follows`: a machine with the one code, and one with the other at the same place.
* `Resplices.round`: there is always a further round; `Resplices.runs`: the two runs.
-/

namespace ScriptMachine

namespace Machine

variable {G G' : Machine → Prop} {R : Machine → Machine → Prop} {m m' n n' : Machine}
  {result : Except Fault Unit} {i j k : Nat}

/-! ### Rounds -/

namespace RunsTo

theorem mono (h : m.RunsTo G i m') (himp : ∀ m, G m → G' m) : m.RunsTo G' i m' := by
  induction h with
  | refl => exact .refl _
  | step hm hstep _ ih => exact .step (himp _ hm) hstep ih

theorem later_eq (h : m.RunsTo G i m') : m.later i = m' := by
  induction h with
  | refl => rfl
  | step _ hstep _ ih => rw [later, hstep, ih]

theorem always (h : m.RunsTo G i m') : ∀ k < i, G (m.later k) := by
  induction h with
  | refl => nofun
  | step hm hstep _ ih =>
    intro k hk
    cases k with
    | zero => exact hm
    | succ k =>
      rw [later, hstep]
      exact ih k (Nat.lt_of_succ_lt_succ hk)

theorem comesTo (h : m.RunsTo G i m') (hends : m'.ComesTo result n) : m.ComesTo result n := by
  induction h with
  | refl => exact hends
  | step _ hstep _ ih => exact LeadsTo.of_step hstep _ _ (ih hends)

/-- What a machine comes to, it comes to from any state on the way. -/
theorem rest (h : m.RunsTo G i m') (hends : ComesToIn k m result n) :
    ∃ k', k = i + k' ∧ ComesToIn k' m' result n := by
  induction h generalizing k with
  | refl => exact ⟨k, (Nat.zero_add k).symm, hends⟩
  | @step steps m next m' _ hstep _ ih =>
    cases hends with
    | ended hended =>
      rw [hstep] at hended
      cases hended
    | step hfirst hrest =>
      rw [hstep] at hfirst
      cases hfirst
      obtain ⟨k', rfl, hlast⟩ := ih hrest
      exact ⟨k', Nat.add_right_comm steps k' 1, hlast⟩

end RunsTo

/-- Two machines come to a step that they take alike, the second over states with a property. -/
def Round (R : Machine → Machine → Prop) (G : Machine → Prop) (m n : Machine) : Prop :=
  ∃ j i m₁ n₁, m.RunsTo (fun _ => True) j m₁ ∧ n.RunsTo G i n₁ ∧ G n₁ ∧ n₁.step.2 = m₁.step.2 ∧
    R m₁.step.1 n₁.step.1

namespace Round

/-- Steps before a round. -/
theorem after (hm : m.RunsTo (fun _ => True) j m') (hn : n.RunsTo G i n') (h : m'.Round R G n') :
    m.Round R G n := by
  obtain ⟨j', i', m₁, n₁, hm', hn', hrest⟩ := h
  exact ⟨j + j', i + i', m₁, n₁, hm.trans hm', hn.trans hn', hrest⟩

theorem flip (h : m.Round R G n) : n.Round (fun n m => R m n) (fun _ => True) m := by
  obtain ⟨j, i, m₁, n₁, hm, hn, -, hprogress, hnext⟩ := h
  exact ⟨i, j, n₁, m₁, hn.mono fun _ _ => trivial, hm, trivial, hprogress.symm, hnext⟩

/-- **Where there is always a further round**, the second machine ends as the first one does. -/
theorem comesTo (hround : ∀ m n, R m n → m.Round R G n) (h : R m n) (hends : m.ComesTo result m') :
    ∃ n', n.ComesTo result n' ∧ R m' n' := by
  obtain ⟨k, hends⟩ := hends
  induction k using Nat.strong_induction_on generalizing m n with
  | _ k ih =>
    obtain ⟨j, i, m₁, n₁, hm, hn, -, hprogress, hnext⟩ := hround m n h
    obtain ⟨k', rfl, hlast⟩ := hm.rest hends
    cases hlast with
    | ended hended =>
      rw [hended] at hprogress hnext
      exact ⟨n₁.step.1, hn.comesTo ⟨0, .ended (Prod.ext rfl hprogress)⟩, hnext⟩
    | @step steps _ next _ _ hstep hrest =>
      rw [hstep] at hprogress hnext
      obtain ⟨n', hends', hlast⟩ := ih steps (by omega) hnext hrest
      exact ⟨n', hn.comesTo (LeadsTo.of_step (Prod.ext rfl hprogress) _ _ hends'), hlast⟩

/-- And all its states have the property. -/
theorem always (hround : ∀ m n, R m n → m.Round R G n) (h : R m n) (k : Nat) : G (n.later k) := by
  induction k using Nat.strong_induction_on generalizing m n with
  | _ k ih =>
    obtain ⟨j, i, m₁, n₁, -, hn, hn₁, -, hnext⟩ := hround m n h
    rcases Nat.lt_trichotomy k i with hlt | rfl | hgt
    · exact hn.always k hlt
    · rw [hn.later_eq]
      exact hn₁
    · obtain ⟨l, rfl⟩ := Nat.exists_eq_add_of_lt hgt
      rw [Nat.add_assoc, later_add, hn.later_eq, Nat.add_comm, later_add]
      exact ih l (by omega) hnext

end Round

/-! ### States of a run -/

/-- The hidden tables of packages are live, and the next step starts no task and makes no branch beyond
the end of the code. -/
structure Decent (m : Machine) : Prop where
  live : m.HiddenLive
  alone : m.StaysAlone
  reaches : m.ended = none → ∀ i, m.next? = some i → i.op.isBranch = true →
    ∀ a, i.operand.toIndex = .ok a → a < m.context.code.size

/-- A state before a straight instruction. -/
theorem Decent.of_straight {i : Instruction} (hlive : m.HiddenLive) (hnext : m.next? = some i)
    (hstraight : i.op.isStraight = true) : m.Decent := by
  refine ⟨hlive, fun _ j hj => ?_, fun _ j hj hbranch => ?_⟩ <;> rw [hnext] at hj <;> cases hj
  · exact Opcode.ne_go_of_isStraight hstraight
  · rw [Opcode.isBranch_of_isStraight hstraight] at hbranch
    cases hbranch

/-- A machine stays framed while the hidden tables are live. -/
theorem Framed.later (h : m.Framed) (hlive : ∀ k, (m.later k).HiddenLive) (k : Nat) :
    (m.later k).Framed := by
  induction k generalizing m with
  | zero => exact h
  | succ k ih => exact ih (step_follows h (hlive 1)).framed fun k => hlive (k + 1)

/-- Of two paired machines whose next instructions do the same, the second is in a decent state if the
first one is. -/
theorem Paired.decent {K : Pairing} {T : Prop} (p : m.Paired K T n)
    (htallies : m.ended = none → m.Tallies K n) (h : m.Decent) : n.Decent := by
  refine ⟨p.world.hiddenLive h.live, fun hended j hj => ?_, fun hended j hj hbranch a ha => ?_⟩
  · rw [p.ended_eq] at hended
    have hnext := (htallies hended).next
    rcases hi : m.next? with _ | i <;> rw [hi, hj] at hnext <;> cases hnext
    rename_i hpaired
    have hgo := h.alone hended i hi
    cases hpaired <;> exact hgo
  · rw [p.ended_eq] at hended
    have hnext := (htallies hended).next
    rcases hi : m.next? with _ | i <;> rw [hi, hj] at hnext <;> cases hnext
    rename_i hpaired
    have hreaches := h.reaches hended i hi
    cases hpaired with
    | same hplain =>
      rw [hplain] at hbranch
      cases hbranch
    | branch _ hleads =>
      cases hleads with
      | places _ _ hw hb _ =>
        rw [hw] at ha
        cases ha
        exact hb
      | same hcode hvalue =>
        rw [← hcode]
        exact hreaches hbranch a (hvalue ▸ ha)
      | refused hnone hvalue => exact absurd (hvalue ▸ ha) (hnone a)

end Machine

end ScriptMachine

/-! ### Replaced runs -/

namespace ScriptMachine

open Exec

/-- Code in which a straight run of instructions was replaced by another, or none by none. All other
instructions are where they have landed, with branches moved along. No branch leads into the run, or to
its start if nothing is put there, and branches have integers for operands. Before its last instruction
the replacement leaves the world as it is. -/
structure Code.Resplices (c d : Code) (start count : Nat) (replacement : List Instruction) : Prop where
  name_eq : d.name = c.name
  le_size : start + count ≤ c.size
  length_le : replacement.length ≤ count
  size_eq : d.size = c.size - count + replacement.length
  moved : ∀ k i, c.ops[k]? = some i → k < start ∨ start + count ≤ k →
    ∃ j, d.ops[landing start count replacement.length k]? = some j ∧ j.op = i.op ∧
      (i.destination? = none → j = i) ∧ ∀ a, i.destination? = some a →
        j.destination? = some (landing start count replacement.length a)
  there : ∀ k < replacement.length, d.ops[start + k]? = replacement[k]?
  avoids : ∀ i ∈ c.ops, ∀ a, i.destination? = some a →
    a < start ∨ start + count ≤ a ∨ a = start ∧ 0 < replacement.length
  wide : ∀ i ∈ c.ops, i.op.isBranch = true → i.operand.IsWide
  taken : ∀ i ∈ (c.ops.extract start (start + count)).toList, i.op.isStraight = true
  brought : ∀ i ∈ replacement, i.op.isStraight = true
  calm : ∀ front i back, replacement = front ++ i :: back → ∀ m m',
    outcome (executeAll front) m = (.ok (), m') → m'.world = m.world

namespace Code.Resplices

variable {c d : Code} {start count : Nat} {replacement : List Instruction}

/-- The places that correspond: those outside the run and where they have landed, and each place in
other code and itself. -/
def pairing (h : c.Resplices d start count replacement) : Pairing where
  Meets x p y q := x = y ∧ p = q ∨ x = c ∧ y = d ∧ (p ≤ start ∨ start + count ≤ p) ∧
    q = landing start count replacement.length p
  refl _ _ := .inl ⟨rfl, rfl⟩
  name_eq := by
    rintro x y p q (⟨rfl, -⟩ | ⟨rfl, rfl, -⟩)
    · rfl
    · exact h.name_eq

/-- Instructions outside the run do the same where they have landed. -/
theorem paired (h : c.Resplices d start count replacement) {k : Nat} {i : Instruction}
    (hi : c.ops[k]? = some i) (hk : k < start ∨ start + count ≤ k)
    (hreaches : i.op.isBranch = true → ∀ a, i.operand.toIndex = .ok a → a < c.size) :
    ∃ j, d.ops[landing start count replacement.length k]? = some j ∧ i.Paired h.pairing c d j := by
  obtain ⟨j, hj, hop, hstays, hmoves⟩ := h.moved k i hi hk
  refine ⟨j, hj, ?_⟩
  have hmem := Array.mem_of_getElem? hi
  by_cases hbranch : i.op.isBranch = true
  · have hwide := h.wide i hmem hbranch
    obtain ⟨op, v⟩ := i
    obtain ⟨op', w⟩ := j
    obtain rfl : op' = op := hop
    cases hindex : v.toIndex with
    | error f =>
      have hnone : (⟨op', v⟩ : Instruction).destination? = none := by
        rw [Option.eq_none_iff_forall_ne_some]
        intro a ha
        rw [(Instruction.destination?_of_wide hbranch hwide).1 ha] at hindex
        cases hindex
      cases hstays hnone
      exact .branch hbranch (.refused (fun a ha => by rw [ha] at hindex; cases hindex) rfl)
    | ok a =>
      have hdestination := (Instruction.destination?_of_wide hbranch hwide).2 hindex
      have hlt := hreaches hbranch a hindex
      have haway := h.avoids _ hmem a hdestination
      have hmoved := hmoves a hdestination
      have hwide' : w.IsWide := by
        by_contra hnot
        have hnone : (⟨op', w⟩ : Instruction).destination? = none :=
          Instruction.destination?_of_not_wide hnot
        rw [hnone] at hmoved
        cases hmoved
      have hindex' := (Instruction.destination?_of_wide (i := ⟨op', w⟩) hbranch hwide').1 hmoved
      refine .branch hbranch (.places hindex hlt hindex' ?_ (.inr ⟨rfl, rfl, by omega, rfl⟩))
      have hle := h.le_size
      rw [h.size_eq, landing]
      split <;> omega
  · have hplain : i.op.isBranch = false := by simpa using hbranch
    cases hstays (Instruction.destination?_of_not_branch hplain)
    exact .same hplain

/-- Code with a run replaced as a patch does it. -/
theorem of_spliced (hname : d.name = c.name) (hops : d.ops = (c.spliced start count replacement.toArray).ops)
    (hsplices : c.Splices start count replacement.toArray)
    (havoids : ∀ i ∈ c.ops, ∀ a, i.destination? = some a →
      a < start ∨ start + count ≤ a ∨ a = start ∧ 0 < replacement.length)
    (hwide : ∀ i ∈ c.ops, i.op.isBranch = true → i.operand.IsWide)
    (htaken : ∀ i ∈ (c.ops.extract start (start + count)).toList, i.op.isStraight = true)
    (hbrought : ∀ i ∈ replacement, i.op.isStraight = true)
    (hcalm : ∀ front i back, replacement = front ++ i :: back → ∀ m m',
      outcome (executeAll front) m = (.ok (), m') → m'.world = m.world) :
    c.Resplices d start count replacement := by
  have hle := hsplices.le_size
  have hlength : replacement.length ≤ count := by
    have hle := hsplices.size_le
    rwa [List.size_toArray] at hle
  refine ⟨hname, hle, hlength, ?_, fun k i hi hk => ?_, fun k hk => ?_, havoids, hwide, htaken, hbrought,
    hcalm⟩
  · have hsize : (c.spliced start count replacement.toArray).size = c.size - count + replacement.length :=
      size_spliced hle
    rw [← hsize, Code.size, Code.size, hops]
  · have hget : (c.spliced start count replacement.toArray).ops[landing start count replacement.length k]?
        = some (shiftPast (start + count) count replacement.length i) :=
      getElem?_spliced_of_outside hle hi hk
    rw [← hops] at hget
    refine ⟨_, hget, op_shiftPast _ _ _, shiftPast_of_none, fun a ha => ?_⟩
    rw [Instruction.destination?_shiftPast ha hlength (Nat.le_add_left count start), landing]
    congr 1
    split <;> split <;> omega
  · rw [hops, getElem?_spliced_of_replacement hle (by rw [List.size_toArray]; exact hk),
      List.getElem?_toArray]

/-- Code with the same instructions. -/
theorem of_ops (hname : d.name = c.name) (hops : d.ops = c.ops)
    (hwide : ∀ i ∈ c.ops, i.op.isBranch = true → i.operand.IsWide) : c.Resplices d 0 0 [] := by
  have hlanding : ∀ k, landing 0 0 ([] : List Instruction).length k = k := by
    intro k
    unfold landing
    split
    · rfl
    · exact Nat.add_zero _
  refine ⟨hname, Nat.zero_le _, Nat.le_refl _, ?_, fun k i hi _ => ?_, nofun,
    fun i _ a _ => .inr (.inl (Nat.zero_le a)), hwide, ?_, nofun, ?_⟩
  · rw [Code.size, Code.size, hops]
    rfl
  · rw [hlanding, hops]
    exact ⟨i, hi, rfl, fun _ => rfl, fun a ha => by rw [hlanding]; exact ha⟩
  · intro i hi
    simp at hi
  · intro front i back hsplit
    simp at hsplit

/-- **The next instructions do the same**, or both machines are at the run. -/
theorem tallies_or_window (h : c.Resplices d start count replacement) {m n : Machine} {T : Prop}
    (p : m.Paired h.pairing T n) (hT : T) (hdecent : m.Decent) (hended : m.ended = none) :
    m.Tallies h.pairing n ∨ 0 < count ∧ m.context.running = true ∧ m.context.code = c ∧
      n.context.code = d ∧ m.context.pc = start ∧ n.context.pc = start := by
  have hrunning : n.context.running = m.context.running := by rw [p.context.same]
  have hnext : ∀ {k : Machine}, k.context.running = true → k.next? = k.context.code.ops[k.context.pc]? :=
    fun hk => if_pos hk
  by_cases hruns : m.context.running = true
  · have hruns' := hrunning.trans hruns
    have hreaches := hdecent.reaches hended
    rcases p.context.meets hT with ⟨hcode, hpc⟩ | ⟨hc, hd, hp, hq⟩
    · have hsame : n.next? = m.next? := by rw [hnext hruns, hnext hruns', hcode, hpc]
      refine .inl ⟨?_, fun _ => .inl ⟨hcode, by rw [hpc]⟩⟩
      rw [hsame]
      cases hi : m.next? with
      | none => exact .none
      | some i =>
        obtain ⟨op, operand⟩ := i
        refine .some ?_
        by_cases hbranch : op.isBranch = true
        · exact .branch hbranch (.same hcode rfl)
        · exact .same (by simpa using hbranch)
    · by_cases hat : 0 < count ∧ m.context.pc = start
      · refine .inr ⟨hat.1, hruns, hc, hd, hat.2, ?_⟩
        rw [hq, hat.2, landing, if_pos (by omega)]
      · rw [hnext hruns, hc] at hreaches
        have houtside : m.context.pc < start ∨ start + count ≤ m.context.pc := by omega
        refine .inl ⟨?_, fun _ => .inr ⟨hc, hd, by omega, ?_⟩⟩
        · rw [hnext hruns, hnext hruns', hc, hd, hq]
          cases hi : c.ops[m.context.pc]? with
          | none =>
            have hbeyond := Array.getElem?_eq_none_iff.1 hi
            have hle := h.le_size
            have hsize := h.size_eq
            unfold Code.size at hle hsize
            have hnone : d.ops[landing start count replacement.length m.context.pc]? = none := by
              rw [Array.getElem?_eq_none_iff, hsize, landing]
              split <;> omega
            rw [hnone]
            exact .none
          | some i =>
            obtain ⟨j, hj, hpaired⟩ := h.paired hi houtside (hreaches i hi)
            rw [hj]
            exact .some hpaired
        · have hlength := h.length_le
          rw [hq]
          unfold landing
          split <;> split <;> omega
  · have hstops : ∀ {k : Machine}, ¬ k.context.running = true → k.next? = none := fun hk => if_neg hk
    have hnone := hstops hruns
    have hnone' : n.next? = none := hstops (by rw [hrunning]; exact hruns)
    refine .inl ⟨?_, fun hsome => ?_⟩
    · rw [hnone, hnone']
      exact .none
    · rw [hnone] at hsome
      cases hsome

/-! ### Following -/

/-- A machine with the code as it was, and one with the code as it is, at places that correspond. The
first is in a decent state at any time, and in one that satisfies `I`. -/
structure Follows (h : c.Resplices d start count replacement) (I : Machine → Prop) (m n : Machine) :
    Prop where
  paired : m.Paired h.pairing (m.ended = none) n
  framed : m.Framed
  decent : ∀ k, (m.later k).Decent
  satisfies : ∀ k, I (m.later k)

variable {h : c.Resplices d start count replacement} {I : Machine → Prop} {m n m₁ n₁ : Machine}

theorem Follows.later (hf : h.Follows I m n) (j : Nat)
    (p : (m.later j).Paired h.pairing ((m.later j).ended = none) n₁) :
    h.Follows I (m.later j) n₁ where
  paired := p
  framed := hf.framed.later (fun k => (hf.decent k).live) j
  decent k := by
    rw [← Machine.later_add]
    exact hf.decent (j + k)
  satisfies k := by
    rw [← Machine.later_add]
    exact hf.satisfies (j + k)

/-- Where the next instructions do the same, so do the steps. -/
theorem Follows.round_of_tallies (hf : h.Follows I m n)
    (htallies : m.ended = none → m.Tallies h.pairing n) : m.Round (h.Follows I) Machine.Decent n := by
  obtain ⟨hprogress, hpaired⟩ := hf.paired.step htallies hf.framed (hf.decent 0).alone
    (hf.decent 1).live
  exact ⟨0, 0, m, n, .refl m, .refl n, hf.paired.decent htallies (hf.decent 0), hprogress,
    hf.later 1 hpaired⟩

/-- The instructions that were there, in the code. -/
theorem getElem?_taken (h : c.Resplices d start count replacement) :
    (c.ops.extract start (start + count)).toList.length = count ∧
      ∀ k < count, c.ops[start + k]? = (c.ops.extract start (start + count)).toList[k]? := by
  have hle := h.le_size
  unfold Code.size at hle
  refine ⟨by simp only [Array.length_toList, Array.size_extract]; omega, fun k hk => ?_⟩
  rw [Array.getElem?_toList, Array.getElem?_extract_of_lt (by omega),
    Array.getElem?_eq_getElem (by omega)]

/-- Where the run and what is in its place fail alike, the machines come to the instructions that do. -/
theorem Follows.round_of_fault {T : Prop} {f : Fault} {length length' pc pc' : Nat}
    (hf : h.Follows I m n) (hpaired : m₁.Paired h.pairing T n₁) (hkeeps : m.SameButOperands m₁)
    (hruns : Machine.Carries (fun _ => True) length m pc (.error (.fault f), m₁))
    (hruns' : Machine.Carries Machine.Decent length' n pc' (.error (.fault f), n₁)) :
    m.Round (h.Follows I) Machine.Decent n := by
  obtain ⟨j, -, y, at₁, observer, events, hnone, hy, -, -, hfault⟩ := hruns
  obtain ⟨i, -, z, at₂, observer', events', hnone', hz, hgood, -, hfault'⟩ := hruns'
  have hsound : m₁.world.scopes.Sound := by
    rw [hkeeps]
    exact hf.framed.sound
  have hlive : y.step.1.HiddenLive := by
    rw [← hy.later_eq]
    have hnext := (hf.decent (j + 1)).live
    rwa [Machine.later_add] at hnext
  have hdrifted : (m₁.drifted at₁ observer events).Paired h.pairing False
      (n₁.drifted at₂ observer' events') :=
    hpaired.drifted events events' hnone hnone' False.elim
  obtain ⟨hprogress, hnext⟩ := Machine.Paired.step_of_faults hfault hfault' hdrifted hsound hlive
  refine ⟨j, i, y, z, hy, hz, hgood, hprogress, ?_⟩
  have hlater : m.later (j + 1) = y.step.1 := by
    rw [Machine.later_add, hy.later_eq]
    rfl
  rw [← hlater] at hnext ⊢
  exact hf.later (j + 1) hnext

/-- Where the run and what is in its place are carried out, the machines do the same behind them. -/
theorem Follows.round_of_ok {T : Prop} (hf : h.Follows I m n) (hpaired : m₁.Paired h.pairing T n₁)
    (hpos : 0 < count) (hc : m₁.context.code = c) (hd : n₁.context.code = d)
    (hruns : Machine.Carries (fun _ => True) count m start (.ok (), m₁))
    (hruns' : Machine.Carries Machine.Decent replacement.length n start (.ok (), n₁)) :
    m.Round (h.Follows I) Machine.Decent n := by
  obtain ⟨observer, events, hnone, hy⟩ := hruns
  obtain ⟨observer', events', hnone', hz⟩ := hruns'
  have hmeets : h.pairing.Meets m₁.context.code (start + count) n₁.context.code
      (start + replacement.length) := by
    refine .inr ⟨hc, hd, .inr (Nat.le_refl _), ?_⟩
    rw [landing, if_neg (Nat.lt_irrefl _), Nat.add_sub_cancel]
  have hlater : (m.later count).Paired h.pairing ((m.later count).ended = none)
      (n₁.drifted (start + replacement.length) observer' events') := by
    rw [hy.later_eq]
    exact hpaired.drifted events events' hnone hnone' fun _ => hmeets
  have hbehind := hf.later count hlater
  rw [hy.later_eq] at hbehind
  refine .after hy hz (hbehind.round_of_tallies fun hgoes => ?_)
  refine (h.tallies_or_window hbehind.paired hgoes (hbehind.decent 0) hgoes).resolve_right ?_
  rintro ⟨-, -, -, -, hat, -⟩
  have hat' : start + count = start := hat
  omega

/-- **Across the run** the machines go by different instructions. -/
theorem Follows.round_of_window (hf : h.Follows I m n)
    (halike : ∀ m, I m → m.context.Grounded →
      outcome (executeAll (c.ops.extract start (start + count)).toList) m
        = outcome (executeAll replacement) m)
    (hended : m.ended = none) (hpos : 0 < count) (hrunning : m.context.running = true)
    (hcode : m.context.code = c) (hcode' : n.context.code = d) (hpc : m.context.pc = start)
    (hpc' : n.context.pc = start) : m.Round (h.Follows I) Machine.Decent n := by
  have p := hf.paired
  have hground := p.context.grounded
  have hended' := p.ended_eq.trans hended
  have hrunning' : n.context.running = true := by rw [p.context.same]; exact hrunning
  obtain ⟨hlength, htaken⟩ := h.getElem?_taken
  have hstraight := executeAll_isStraight h.brought
  -- What the instructions do in a row, on either machine.
  have hsame := halike m (hf.satisfies 0) hground
  obtain ⟨hresult, hpaired⟩ := Pairs.ofLocal (T := False) hstraight.isLocal hstraight.aloof m n
    (p.weaken False.elim)
  have hkeeps := hstraight.direct.keeps m
  have hkeeps' := hstraight.direct.keeps n
  -- How they are carried out.
  have hruns := Machine.runs_straight (G := fun _ => True) h.taken hground hended hrunning
    start m.context.observer m.world.journal.events
    p.context.allowance_eq (by rw [hcode, hlength]; exact htaken) fun _ _ _ _ _ _ _ _ _ _ _ => trivial
  have hruns' := Machine.runs_straight (G := Machine.Decent) h.brought p.context.grounded' hended'
    hrunning' start n.context.observer n.world.journal.events
    p.context.allowance_eq' (fun k hk => by
      rw [hcode']
      exact h.there k hk)
    fun front i back hsplit n' hfront _ _ _ _ hnext => by
      have hworld := h.calm front i back hsplit n n' hfront
      refine .of_straight ?_ hnext (h.brought i (by rw [hsplit]; simp))
      have hlive : n'.world.HiddenLive := by
        rw [hworld]
        exact p.world.hiddenLive (hf.decent 0).live
      exact World.Agrees.hiddenLive (w := n'.world) rfl hlive
  rw [← hpc, m.drifted_self, hpc, hsame, hlength] at hruns
  rw [← hpc', n.drifted_self, hpc'] at hruns'
  rcases hout : outcome (executeAll replacement) m with ⟨r, m₁⟩
  rcases hout' : outcome (executeAll replacement) n with ⟨r', n₁⟩
  rw [hout, hout'] at hresult hpaired
  rw [hout] at hruns hkeeps
  rw [hout'] at hruns' hkeeps'
  obtain rfl : r' = r := hresult
  dsimp only at hkeeps hkeeps' hpaired
  rcases r' with (f | _) | u
  · exact hf.round_of_fault hpaired hkeeps hruns hruns'
  · exact hruns.elim
  · exact hf.round_of_ok hpaired hpos (by rw [hkeeps]; exact hcode) (by rw [hkeeps']; exact hcode')
      hruns hruns'

/-- **There is always a further round.** -/
theorem Follows.round (halike : ∀ m, I m → m.context.Grounded →
      outcome (executeAll (c.ops.extract start (start + count)).toList) m
        = outcome (executeAll replacement) m) (hf : h.Follows I m n) :
    m.Round (h.Follows I) Machine.Decent n := by
  by_cases hended : m.ended = none
  · rcases h.tallies_or_window hf.paired hended (hf.decent 0) hended with
      htallies | ⟨hpos, hrunning, hcode, hcode', hpc, hpc'⟩
    · exact hf.round_of_tallies fun _ => htallies
    · exact hf.round_of_window halike hended hpos hrunning hcode hcode' hpc hpc'
  · exact hf.round_of_tallies fun hnone => absurd hnone hended

/-- **The two runs**: the states of the second are decent, and each machine ends as the other one does. -/
theorem Follows.runs (halike : ∀ m, I m → m.context.Grounded →
      outcome (executeAll (c.ops.extract start (start + count)).toList) m
        = outcome (executeAll replacement) m) (hf : h.Follows I m n) :
    (∀ k, (n.later k).Decent) ∧ ∀ result,
      (∀ m', m.ComesTo result m' → ∃ n', n.ComesTo result n' ∧ h.Follows I m' n') ∧
      ∀ n', n.ComesTo result n' → ∃ m', m.ComesTo result m' ∧ h.Follows I m' n' := by
  have hround : ∀ m n, h.Follows I m n → m.Round (h.Follows I) Machine.Decent n :=
    fun m n hf => hf.round halike
  exact ⟨Machine.Round.always hround hf, fun result =>
    ⟨fun m' hends => Machine.Round.comesTo hround hf hends, fun n' hends =>
      Machine.Round.comesTo (fun n m hf => (hround m n hf).flip) hf hends⟩⟩

end Code.Resplices

end ScriptMachine
