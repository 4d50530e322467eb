import ScriptMachine.Proofs.Layout.Recovery
import ScriptMachine.Proofs.Peephole.Fragments

/-!
# Steps of paired machines

Paired machines whose next instructions do the same take a step alike: both go on, both end, or both
have to wait, and they are paired again. Where the next instructions only move operands and objects, a
machine carries them out one after the other: after as many steps it has done what they do in a row,
or it has come to the one that fails.

* `Instruction.Paired`: instructions that do the same in two pieces of code.
* `Machine.Tallies`: the next instructions of two machines do the same, and lead to the same place if
  they do not branch.
* `Machine.Paired.attempt`, `Machine.Paired.step`: what two machines attempt, and their steps.
* `Opcode.isStraight`: the instructions that optimization replaces and puts in.
* `Machine.drifted`: a machine elsewhere in its code; `Exec.outcome_drifted`: what straight
  instructions do there.
* `Machine.RunsTo`: some steps of the running thread, over machines with a property.
* `Machine.runs_straight`: the steps that carry out a straight run.
-/

namespace ScriptMachine

/-- Instructions that do the same in two pieces of code: they are one, without an address, or they name
places that correspond. -/
inductive Instruction.Paired (K : Pairing) (x y : Code) : Instruction → Instruction → Prop
  | same {i : Instruction} (hbranch : i.op.isBranch = false) : Instruction.Paired K x y i i
  | branch {op : Opcode} {v w : Value} (hbranch : op.isBranch = true) (hleads : K.Leads x y v w) :
      Instruction.Paired K x y ⟨op, v⟩ ⟨op, w⟩

/-- The next instructions of two machines do the same, and the places after them correspond. -/
structure Machine.Tallies (K : Pairing) (m n : Machine) : Prop where
  next : Option.Rel (Instruction.Paired K m.context.code n.context.code) m.next? n.next?
  after : m.next?.isSome = true →
    K.Meets m.context.code (m.context.pc + 1) n.context.code (n.context.pc + 1)

variable {K : Pairing} {T T' : Prop} {m n : Machine}

/-- A return need not wait. -/
theorem Exec.IsPrompt.return_ (operand : Value) : IsPrompt (Exec.return_ operand) := by
  unfold Exec.return_
  split
  · exact bind IsDirect.popValue.prompt fun _ => bind (modifyContext _) fun _ => continueReturn
  · exact continueReturn

namespace Exec.PairsAt

/-- Both machines take note of an instruction that begins. -/
theorem begin (i j : Instruction) (p : m.Paired K T n)
    (hafter : K.Meets m.context.code (m.context.pc + 1) n.context.code (n.context.pc + 1)) :
    PairsAt K True (Exec.begin i) (Exec.begin j) m n := by
  obtain ⟨hdone, hnoted⟩ := begin_noted i p.context.allowance_eq
  obtain ⟨hdone', hnoted'⟩ := begin_noted j p.context.allowance_eq'
  have hmoved : (m.placed m.context.code (m.context.pc + 1)).Paired K True
      (n.placed n.context.code (n.context.pc + 1)) := p.withContexts (p.context.goTo hafter)
  exact ⟨hdone'.trans hdone.symm, (hmoved.noted hnoted hnoted').weaken And.left⟩

/-- Instructions that do the same are executed alike. -/
theorem instruction {i j : Instruction} (p : m.Paired K True n)
    (hpaired : Instruction.Paired K m.context.code n.context.code i j) (hgo : i.op ≠ .go)
    (hsound : m.world.scopes.Sound) (hlive : (outcome (Exec.execute i) m).1 ≠ .error .blocked →
      (outcome (Exec.execute i) m).2.HiddenLive) :
    PairsAt K True (Exec.execute i) (Exec.execute j) m n := by
  cases hpaired with
  | branch hbranch hleads => exact .execute hbranch p hleads
  | same hbranch =>
    by_cases hreturn : i.op = .return
    · obtain ⟨op, operand⟩ := i
      obtain rfl : op = .return := hreturn
      exact .return_ operand p hsound (hlive (IsPrompt.return_ operand m))
    · exact Pairs.execute hbranch hgo hreturn m n p

end Exec.PairsAt

/-- A step that fails goes on to deal with its fault. -/
theorem Machine.step_of_attempt_fault {f : Fault} {m₁ : Machine} (h : m.attempt = (.error (.fault f), m₁)) :
    m.step = ((Exec.outcome (Exec.settle f) m₁).2, .running) := by
  obtain ⟨m₂, hsettle⟩ := Exec.settle_succeeds f m₁
  rcases m.step_eq with ⟨result, hended, hsuspended, hstep⟩ | hstep
  · unfold Machine.attempt Machine.action at h
    rw [hended, hsuspended] at h
    cases h
  · have hout : Exec.outcome m.action m.ready = (.error (.fault f), m₁) := h
    rw [hstep, perform_eq, hout]
    simp only [hsettle]

namespace Machine.Paired

open Exec

/-- Paired machines that fail with the same fault go on in the same way. -/
theorem step_of_faults {f : Fault} {m₁ n₁ : Machine} (h : m.attempt = (.error (.fault f), m₁))
    (h' : n.attempt = (.error (.fault f), n₁)) (p : m₁.Paired K T n₁) (hsound : m₁.world.scopes.Sound)
    (hlive : m.step.1.HiddenLive) :
    n.step.2 = m.step.2 ∧ m.step.1.Paired K (m.step.1.ended = none) n.step.1 := by
  rw [step_of_attempt_fault h, step_of_attempt_fault h']
  rw [step_of_attempt_fault h] at hlive
  obtain ⟨m₂, hsettle⟩ := settle_succeeds f m₁
  obtain ⟨-, hpaired⟩ := PairsAt.settle f p hsound hlive
  exact ⟨rfl, hpaired.weaken fun hgoes => ⟨hgoes, by rw [hsettle]; rfl⟩⟩

/-- **Paired machines attempt the same.** -/
theorem attempt (p : m.Paired K (m.ended = none) n) (htallies : m.ended = none → m.Tallies K n)
    (hsound : m.world.scopes.Sound) (halone : m.StaysAlone)
    (hlive : m.attempt.1 ≠ .error .blocked → m.attempt.2.HiddenLive) :
    PairsAt K (m.attempt.2.ended = none) m.action n.action m.ready n.ready := by
  have hended := p.ended_eq
  have hsuspended := p.suspended
  unfold Machine.attempt Machine.action Machine.ready at *
  cases hm : m.ended with
  | some result =>
    rw [hm] at hended hlive
    rw [hended]
    rcases hs : m.suspended with _ | ⟨s, rest⟩ <;> rcases ht : n.suspended with _ | ⟨t, rest'⟩ <;>
      rw [hs, ht] at hsuspended <;> cases hsuspended
    · exact (Pairs.pure () m n p).imp fun hnone => hnone
    · rename_i hst hrest
      rw [hs] at hlive
      dsimp only at hlive ⊢
      rw [hst.awaiting_eq]
      have pready : ({ m with context := s.context, suspended := rest, ended := none } :
          Machine).Paired K True
          { n with context := t.context, suspended := rest', ended := none } :=
        ⟨p.world, hst.context, hrest, rfl, p.tasks_eq, p.tasks_eq'⟩
      exact (PairsAt.afterScratch s.awaiting result p.context pready hsound
        (hlive (IsPrompt.afterScratch _ _ _ _))).imp fun _ => trivial
  | none =>
    rw [hm] at hended hlive
    rw [hended]
    dsimp only at hlive ⊢
    have hnext := (htallies hm).next
    rcases hi : m.next? with _ | i <;> rcases hj : n.next? with _ | j <;> rw [hi, hj] at hnext <;>
      cases hnext
    · refine (PairsAt.finish p).imp fun hgoes => ?_
      obtain ⟨journal, hout⟩ := outcome_finish m
      rw [hout] at hgoes
      cases hgoes
    · rename_i hpaired
      rw [hi] at hlive
      dsimp only at hlive ⊢
      have hafter := (htallies hm).after (by rw [hi]; rfl)
      refine ((PairsAt.begin i j p hafter).bind fun _ m' n' hm' hn' p' => ?_).imp fun _ => trivial
      rw [outcome_bind_ok hm'] at hlive
      obtain ⟨journal, running, observer, hbegin⟩ := outcome_begin i m
      obtain ⟨journal', running', observer', hbegin'⟩ := outcome_begin j n
      rw [hbegin] at hm'
      rw [hbegin'] at hn'
      cases hm'
      cases hn'
      exact .instruction p' hpaired (halone hm i hi) hsound hlive

/-- **Paired machines take a step alike.** -/
theorem step (p : m.Paired K (m.ended = none) n) (htallies : m.ended = none → m.Tallies K n)
    (hframed : m.Framed) (halone : m.StaysAlone) (hlive : m.step.1.HiddenLive) :
    n.step.2 = m.step.2 ∧ m.step.1.Paired K (m.step.1.ended = none) n.step.1 := by
  by_cases hover : ∃ result, m.ended = some result ∧ m.suspended = []
  · obtain ⟨result, hended, hsuspended⟩ := hover
    have hsuspended' : n.suspended = [] := by
      have hall := p.suspended
      rw [hsuspended] at hall
      exact List.forall₂_nil_left_iff.1 hall
    rw [step_of_over hended hsuspended, step_of_over (p.ended_eq.trans hended) hsuspended']
    exact ⟨rfl, p⟩
  have hstep : m.step = m.ready.perform m.action := m.step_eq.resolve_left
    fun ⟨result, hended, hsuspended, _⟩ => hover ⟨result, hended, hsuspended⟩
  have hstep' : n.step = n.ready.perform n.action := n.step_eq.resolve_left
    fun ⟨result, hended, hsuspended, _⟩ => hover ⟨result, p.ended_eq.symm.trans hended, by
      have hall := p.suspended
      rw [hsuspended] at hall
      exact List.forall₂_nil_right_iff.1 hall⟩
  -- What the attempt leaves is live unless it has to wait.
  have hlive' : m.attempt.1 ≠ .error .blocked → m.attempt.2.HiddenLive := by
    intro hgoes
    rcases m.step_settles with hok | ⟨f, m₁, hfault, hsettle⟩ | ⟨hwait, -⟩
    · rw [hok]
      exact hlive
    · have hfades := IsFading.settle f m₁
      rw [hsettle] at hfades
      rw [hfault]
      exact hfades.hiddenLive hlive
    · exact absurd hwait hgoes
  obtain ⟨hresult, hpaired⟩ := p.attempt htallies hframed.sound halone hlive'
  have hattempt : m.attempt = outcome m.action m.ready := rfl
  have hattempt' : n.attempt = outcome n.action n.ready := rfl
  rcases hm : outcome m.action m.ready with ⟨r, m₁⟩
  rcases hn : outcome n.action n.ready with ⟨r', n₁⟩
  rw [hm] at hattempt
  rw [hn] at hattempt'
  rw [hattempt] at hlive'
  rw [hm, hn] at hresult
  rw [hattempt, hm, hn] at hpaired
  obtain rfl : r' = r := hresult
  rcases r' with (f | _) | u
  · have hframed₁ : m₁.Framed := by
      have hcases := attempt_climbs_or_unwound hframed (by rw [hattempt]; exact hlive' nofun)
      rw [hattempt] at hcases
      exact hcases.elim (·.framed) (·.framed)
    exact step_of_faults hattempt hattempt' hpaired hframed₁.sound hlive
  · rw [perform_eq, hm] at hstep
    rw [perform_eq, hn] at hstep'
    rw [step_of_blocked (congrArg Prod.snd hstep), step_of_blocked (congrArg Prod.snd hstep')]
    exact ⟨rfl, p⟩
  · rw [perform_eq, hm] at hstep
    rw [perform_eq, hn] at hstep'
    rw [hstep, hstep']
    exact ⟨rfl, hpaired.weaken fun hgoes => ⟨hgoes, rfl⟩⟩

end Machine.Paired

end ScriptMachine

/-! ### Straight instructions -/

namespace ScriptMachine

/-- The opcodes of the runs that optimization replaces and of what it puts in their place. -/
def Opcode.isStraight : Opcode → Bool
  | .push | .drop | .add | .sub | .mul | .div | .negate | .load | .dup | .swap | .noOperation
  | .struct => true
  | _ => false

namespace Opcode

variable {op : Opcode}

theorem isLocal_of_isStraight (h : op.isStraight = true) : op.isLocal = true := by
  cases op <;> first | rfl | cases h

theorem isBranch_of_isStraight (h : op.isStraight = true) : op.isBranch = false := by
  cases op <;> first | rfl | cases h

theorem ne_go_of_isStraight (h : op.isStraight = true) : op ≠ .go := by
  rintro rfl
  cases h

end Opcode

namespace Exec

namespace IsDirect

theorem operandName (operand : Value) : IsDirect (Exec.operandName operand) := by
  unfold Exec.operandName
  split
  · exact pure _
  · exact fail _

theorem loadName (operand : Value) : IsDirect (Exec.loadName operand) := by
  refine bind (operandName operand) fun name => bind (bind (lookup? name) fun found => ?_) fun _ =>
    push _
  cases found with
  | some v => exact pure v
  | none => exact fail _

theorem dropMany (count : Nat) : IsDirect (Exec.dropMany count) := by
  induction count with
  | zero => exact pure ()
  | succ count ih => exact bind (bind pop fun _ => pure ()) fun _ => ih

theorem duplicate : IsDirect Exec.duplicate := by
  refine bind (bind context fun c => ite (fail _) ?_) push
  split
  · exact pure _
  · exact fail _

theorem swap : IsDirect Exec.swap :=
  bind pop fun _ => bind pop fun _ => bind (push _) fun _ => push _

end IsDirect

/-- **Straight instructions are direct.** -/
theorem isDirect_of_isStraight {i : Instruction} (h : i.op.isStraight = true) :
    IsDirect (execute i) := by
  obtain ⟨op, operand⟩ := i
  cases op with
  | drop => exact .bind (.operandCount operand 1) .dropMany
  | load => exact .loadName operand
  | dup => exact .duplicate
  | swap => exact .swap
  | noOperation => exact .pure ()
  | push | add | sub | mul | div | negate | struct => exact execute_isDirect rfl
  | _ => cases h

/-- Executing an instruction is an action that does the same everywhere in code and whatever surrounds
the operands. -/
structure IsStraight {α : Type} (act : Exec α) : Prop where
  direct : IsDirect act
  isLocal : IsLocal act
  aloof : IsAloof act

theorem execute_isStraight {i : Instruction} (h : i.op.isStraight = true) : IsStraight (execute i) :=
  ⟨isDirect_of_isStraight h, execute_isLocal (Opcode.isLocal_of_isStraight h),
    execute_isAloof (Opcode.isLocal_of_isStraight h) (Opcode.isBranch_of_isStraight h)⟩

theorem executeAll_isStraight {ops : List Instruction} (h : ∀ i ∈ ops, i.op.isStraight = true) :
    IsStraight (executeAll ops) := by
  induction ops with
  | nil => exact ⟨.pure (), .pure (), .pure ()⟩
  | cons i ops ih =>
    have hfirst := execute_isStraight (h i List.mem_cons_self)
    have hrest := ih fun j hj => h j (List.mem_cons_of_mem _ hj)
    exact ⟨.bind hfirst.direct fun _ => hrest.direct, .bind hfirst.isLocal fun _ => hrest.isLocal,
      .bind hfirst.aloof fun _ => hrest.aloof⟩

end Exec

/-! ### Elsewhere in code -/

/-- The machine elsewhere in its code, with other events in its journal and before another observer. -/
def Machine.drifted (m : Machine) (pc : Nat) (observer : Observer) (events : Array Event) : Machine :=
  { m with world := m.world.hushed.after events, context := { m.context with pc, observer } }

/-- A machine drifts nowhere where it is. -/
theorem Machine.drifted_self (m : Machine) :
    m.drifted m.context.pc m.context.observer m.world.journal.events = m := by
  unfold Machine.drifted
  rw [World.after_hushed]

/-- Paired machines that drift to places that correspond. -/
theorem Machine.Paired.drifted {K : Pairing} {T T' : Prop} {m n : Machine} (p : m.Paired K T n)
    {pc pc' : Nat} {observer observer' : Observer} (events events' : Array Event)
    (hallowance : observer.allowance = none) (hallowance' : observer'.allowance = none)
    (hmeets : T' → K.Meets m.context.code pc n.context.code pc') :
    (m.drifted pc observer events).Paired K T' (n.drifted pc' observer' events') := by
  refine ⟨p.world, ⟨?_, p.context.name_eq, ⟨p.context.grounded.fp_le, p.context.grounded.values⟩,
    p.context.fp_le, p.context.operands_eq, p.context.below, hmeets, hallowance, hallowance'⟩,
    p.suspended, p.ended_eq, p.tasks_eq, p.tasks_eq'⟩
  show ({ n.context with pc := pc', observer := observer' } : Context) = _
  conv_lhs => rw [p.context.same]
  rfl

namespace Exec

variable {α : Type} {act : Exec α} {m : Machine}

/-- **What straight instructions do elsewhere in code** they do here. -/
theorem outcome_drifted (h : IsStraight act) (hm : m.context.Grounded) (pc : Nat)
    (observer : Observer) (events : Array Event) :
    outcome act (m.drifted pc observer events)
      = ((outcome act m).1, (outcome act m).2.drifted pc observer events) := by
  -- Both machines are one machine with an empty journal, at two places.
  let base : Machine := { m with world := m.world.hushed }
  have hbase : base.context.Grounded := hm
  have hm' : m = base.moved m.context.code m.context.pc m.world.journal.events := by
    show m = { m with world := m.world.hushed.after m.world.journal.events }
    rw [World.after_hushed]
  have hwithin : ∀ {k : Machine}, k.context.Grounded → k.surroundings = m.surroundings →
      { k.moved m.context.code pc events with
        context := { (k.moved m.context.code pc events).context with observer } }
        = (k.moved m.context.code pc events).within { m.surroundings with observer } := by
    intro k hk hsame
    have hself := Machine.within_surroundings (m := k.moved m.context.code pc events) hk.fp_le
    conv_lhs => rw [← hself]
    rw [← hsame]
    rfl
  have hmoved : (base.moved m.context.code pc events).context.Grounded := ⟨hm.fp_le, hm.values⟩
  obtain ⟨hhere, -⟩ := h.aloof m.context.code m.context.pc m.world.journal.events base trivial
  obtain ⟨hthere, -⟩ := h.aloof m.context.code pc events base trivial
  obtain ⟨hcomm, -⟩ := h.isLocal { m.surroundings with observer } _ _ _ _ (Machine.settled_self hmoved)
  have hleft := (h.isLocal m.surroundings _ _ _ base (Machine.settled_self hbase)).2
  have hquiet : (outcome act base).2.world.hushed = (outcome act base).2.world := by
    rw [h.direct.keeps base]
    rfl
  rw [← hm'] at hhere
  have hdrifted : m.drifted pc observer events
      = (base.moved m.context.code pc events).within { m.surroundings with observer } :=
    hwithin hbase rfl
  rw [hdrifted, hcomm, hthere, hhere]
  refine Prod.ext rfl ((hwithin hleft.grounded (h.isLocal.surroundings_eq hbase)).symm.trans ?_)
  show _ = { (outcome act base).2 with
    world := (outcome act base).2.world.hushed.after events
    context := { (outcome act base).2.context with code := m.context.code, pc, observer } }
  rw [hquiet]
  rfl

/-- When an instruction begins, a machine moves on in its code, and nothing else is to be seen. -/
theorem begin_drifts (i : Instruction) (pc : Nat) {observer : Observer} (events : Array Event)
    (h : observer.allowance = none) : ∃ observer' events', observer'.allowance = none ∧
      outcome (begin i) (m.drifted pc observer events)
        = (.ok (), m.drifted (pc + 1) observer' events') := by
  obtain ⟨hdone, hnoted⟩ := begin_noted i (m := m.drifted pc observer events) h
  rcases hout : outcome (begin i) (m.drifted pc observer events) with ⟨r, m'⟩
  rw [hout] at hdone hnoted
  obtain rfl : r = .ok () := hdone
  dsimp only at hnoted
  have hworld : m'.world = m.world.hushed.after m'.world.journal.events := by
    have hagrees : m.world.hushed = m'.world.hushed := hnoted.agrees
    have hafter := World.after_hushed m'.world
    rw [← hagrees] at hafter
    exact hafter.symm
  refine ⟨m'.context.observer, m'.world.journal.events, hnoted.allowance_eq.trans h,
    Prod.ext rfl ?_⟩
  show m' = _
  conv_lhs => rw [hnoted.same, hworld]
  rfl

end Exec

/-! ### Steps in a row -/

/-- The running thread takes some steps and is still running; each of them starts from a machine with a
property. -/
inductive Machine.RunsTo (G : Machine → Prop) : Nat → Machine → Machine → Prop
  | refl (m : Machine) : RunsTo G 0 m m
  | step {steps : Nat} {m next m' : Machine} (hm : G m) (h : m.step = (next, .running))
      (rest : RunsTo G steps next m') : RunsTo G (steps + 1) m m'

namespace Machine

variable {G : Machine → Prop} {m m' m'' : Machine}

theorem RunsTo.trans {i j : Nat} (h : m.RunsTo G i m') (h' : m'.RunsTo G j m'') :
    m.RunsTo G (i + j) m'' := by
  induction h with
  | refl => rwa [Nat.zero_add]
  | step hm hstep _ ih => rw [Nat.add_right_comm]; exact .step hm hstep (ih h')

/-- A step that executes an instruction without a fault. -/
theorem step_of_execute {i : Instruction} {next : Machine} (hended : m.ended = none)
    (hnext : m.next? = some i) (hbegin : Exec.outcome (Exec.begin i) m = (.ok (), m'))
    (hexecute : Exec.outcome (Exec.execute i) m' = (.ok (), next)) : m.step = (next, .running) := by
  have hstep : m.step = m.perform (do Exec.begin i; Exec.execute i) := by
    unfold Machine.step
    rw [hended, hnext]
  rw [hstep, perform_eq, Exec.outcome_bind_ok hbegin, hexecute]

theorem attempt_of_execute {i : Instruction} (hended : m.ended = none) (hnext : m.next? = some i)
    (hbegin : Exec.outcome (Exec.begin i) m = (.ok (), m')) :
    m.attempt = Exec.outcome (Exec.execute i) m' := by
  unfold Machine.attempt Machine.action Machine.ready
  rw [hended, hnext]
  exact Exec.outcome_bind_ok hbegin

open Exec

/-- What a machine has come to that carries out a straight run: its end, or the instruction that
fails. -/
def Carries (G : Machine → Prop) (length : Nat) (x : Machine) (pc : Nat)
    (r : Except Halt Unit × Machine) : Prop :=
  match r with
  | (.ok (), m) => ∃ observer events, observer.allowance = none ∧
    x.RunsTo G length (m.drifted (pc + length) observer events)
  | (.error (.fault f), m) => ∃ steps < length, ∃ y pc observer events, observer.allowance = none ∧
    x.RunsTo G steps y ∧ G y ∧ y.ended = none ∧
    y.attempt = (.error (.fault f), m.drifted pc observer events)
  | (.error .blocked, _) => False

/-- **A straight run is carried out step by step.** -/
theorem runs_straight {ops : List Instruction} (hops : ∀ i ∈ ops, i.op.isStraight = true)
    (hm : m.context.Grounded) (hended : m.ended = none) (hrunning : m.context.running = true)
    (pc : Nat) (observer : Observer) (events : Array Event) (hallowance : observer.allowance = none)
    (hat : ∀ k < ops.length, m.context.code.ops[pc + k]? = ops[k]?)
    (hG : ∀ front i back, ops = front ++ i :: back → ∀ m', outcome (executeAll front) m = (.ok (), m') →
      ∀ pc observer events, m'.ended = none → (m'.drifted pc observer events).next? = some i →
        G (m'.drifted pc observer events)) :
    Carries G ops.length (m.drifted pc observer events) pc (outcome (executeAll ops) m) := by
  induction ops generalizing m pc observer events with
  | nil => exact ⟨observer, events, hallowance, .refl _⟩
  | cons i rest ih =>
    have hfirst := execute_isStraight (hops i List.mem_cons_self)
    have hnext : (m.drifted pc observer events).next? = some i := by
      have hget := hat 0 (Nat.zero_lt_succ _)
      show (if m.context.running then m.context.code.ops[pc]? else none) = _
      rw [if_pos hrunning]
      exact hget
    have hhere : G (m.drifted pc observer events) :=
      hG [] i rest rfl m rfl pc observer events hended hnext
    obtain ⟨observer', events', hallowance', hbegin⟩ := begin_drifts (m := m) i pc events hallowance
    have hexecute := outcome_drifted hfirst hm (pc + 1) observer' events'
    have hattempt := attempt_of_execute (m := m.drifted pc observer events) hended hnext hbegin
    rw [hexecute] at hattempt
    rcases hout : outcome (execute i) m with ⟨(f | _) | u, m₁⟩ <;> rw [hout] at hexecute hattempt
    · rw [executeAll, outcome_bind_error hout]
      exact ⟨0, Nat.zero_lt_succ _, _, _, _, _, hallowance', .refl _, hhere, hended, hattempt⟩
    · have hprompt := hfirst.direct.prompt m
      rw [hout] at hprompt
      exact absurd rfl hprompt
    · have hstep := step_of_execute (m := m.drifted pc observer events) hended hnext hbegin hexecute
      have hkeeps : m.SameButOperands m₁ := by
        have hall := hfirst.direct.keeps m
        rwa [hout] at hall
      have hgrounded : m₁.context.Grounded := by
        have hall := (hfirst.isLocal m.surroundings _ _ _ m (settled_self hm)).2.grounded
        rwa [hout] at hall
      have hcode : m₁.context.code = m.context.code := by rw [hkeeps]
      have hcarries := ih (fun j hj => hops j (List.mem_cons_of_mem _ hj)) hgrounded
        (by rw [hkeeps]; exact hended) (by rw [hkeeps]; exact hrunning) (pc + 1) observer' events' hallowance' (fun k hk => by
          have hget := hat (k + 1) (Nat.succ_lt_succ hk)
          rw [hcode, Nat.add_assoc, Nat.add_comm 1 k]
          exact hget) (fun front j back hsplit m' hfront =>
            hG (i :: front) j back (by rw [hsplit]; rfl) m' (by
              rw [executeAll, outcome_bind_ok hout, hfront]))
      rw [executeAll, outcome_bind_ok hout]
      unfold Carries at hcarries ⊢
      split at hcarries
      · obtain ⟨o, e, hnone, hruns⟩ := hcarries
        refine ⟨o, e, hnone, .step hhere hstep ?_⟩
        rw [List.length_cons, Nat.add_comm rest.length 1, ← Nat.add_assoc]
        exact hruns
      · obtain ⟨steps, hlt, y, pc', o, e, hnone, hruns, hy, hyended, hfault⟩ := hcarries
        exact ⟨steps + 1, Nat.succ_lt_succ hlt, y, pc', o, e, hnone, .step hhere hstep hruns, hy,
          hyended, hfault⟩
      · exact hcarries

end Machine

end ScriptMachine
