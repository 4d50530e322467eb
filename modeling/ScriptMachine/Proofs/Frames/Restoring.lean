import ScriptMachine.Proofs.Frames.Linked

/-!
# Returns restore callers

Whatever a function does before it returns, its caller goes on as it stood at the call: with its
table, its code and its flags, right after the call, and with what the function returned on the
operand stack in place of the callable and the arguments.

* `Machine.Enters`: the next step calls a function of the program.
* `Machine.Within`: the callee is not left yet.
* `Machine.Leaves`: the next step returns from the callee.
* `Context.RestoredFrom`: the caller as a return restores it.
* `return_restores_caller`: this is what the matching return leaves.
-/

namespace ScriptMachine

/-- The instructions that call. -/
def Opcode.isCall (op : Opcode) : Bool := op matches .call | .localCall | .entryPoint

/-- A caller after the return of a callee: as at the call, but after it, and with what the callee
returned instead of the slots that the call took. -/
structure Context.RestoredFrom (c : Context) (atCall callee : Context) (taken : Nat) : Prop where
  symbols : c.symbols = atCall.symbols
  code : c.code = atCall.code
  pc : c.pc = atCall.pc + 1
  fp : c.fp = atCall.fp
  line : c.line = atCall.line
  package : c.package = atCall.package
  blockDepth : c.blockDepth = atCall.blockDepth
  deferred : c.deferred = atCall.deferred
  singleStep : c.singleStep = (atCall.singleStep || callee.breakOnReturn)
  breakOnReturn : c.breakOnReturn = atCall.breakOnReturn
  extensions : c.extensions = atCall.extensions
  taken_le : atCall.fp + taken ≤ atCall.stack.size
  stack : c.stack = atCall.stack.extract 0 (atCall.stack.size - taken) ++ Exec.returnedSlots callee

/-- The state of the caller, saved in a frame, as it stood when an instruction began. -/
structure Frame.Saves (f : Frame) (c : Context) : Prop where
  symbols : f.symbols = c.symbols
  code : f.code = c.code
  pc : f.pc = c.pc + 1
  fp : f.fp = c.fp
  line : f.line = c.line
  package : f.package = c.package
  blockDepth : f.blockDepth = c.blockDepth
  deferred : f.deferred = c.deferred
  singleStep : f.singleStep = c.singleStep
  breakOnReturn : f.breakOnReturn = c.breakOnReturn
  extensions : f.extensions = c.extensions
  receivers : f.receivers = c.receivers

/-- A function called inside another one saved a frame pointer that is not below that one's. -/
theorem Context.Linked.saved_fp_le {c : Context} (h : c.Linked)
    {below : Array Slot} {f g : Frame} {n : Nat}
    (hstack : c.stack.extract 0 c.fp = below.push (.frame f))
    (hframe : c.stack[n]? = some (.frame g)) (hlt : n + 1 < c.fp) : n + 1 ≤ f.fp := by
  obtain ⟨positions, hchain, hframes, -⟩ := h.chain
  have hmem : n ∈ positions := (hframes n).1 ⟨g, hframe⟩
  have hle := h.fp_le
  have hsize : below.size + 1 = c.fp := by
    have hsizes := congrArg Array.size hstack
    rw [Array.size_extract, Array.size_push] at hsizes
    omega
  have htop : c.stack[below.size]? = some (.frame f) := by
    have hget := congrArg (·[below.size]?) hstack
    simp only [Array.getElem?_push_size, Array.getElem?_extract] at hget
    rwa [if_pos (by omega), Nat.zero_add] at hget
  rw [← hsize] at hchain hlt
  cases hchain with
  | inner frame descends outer =>
    rw [htop] at frame
    cases frame
    rcases List.mem_cons.1 hmem with rfl | hmem
    · omega
    · exact outer.lt_fp n hmem

namespace Machine

/-- The next step executes an instruction that calls, without a fault, and enters a function of the
program. -/
structure Enters (m : Machine) (i : Instruction) (m' : Machine) : Prop where
  going : m.ended = none
  next : m.next? = some i
  calls : i.op.isCall = true
  completes : m.attempt = (.ok (), m')
  same : m'.suspended = m.suspended
  deeper : m.context.fp < m'.context.fp

/-- The function at a frame pointer of the context at level `k` is not left yet, and hidden tables
are live. -/
structure Within (k fp : Nat) (m : Machine) : Prop where
  hidden : m.HiddenLive
  level : k ≤ m.suspended.length
  fp_le : fp ≤ (m.contextAt k).fp

/-- The next step makes the context at level `k` return from the function at a frame pointer,
without a fault. -/
structure Leaves (k fp : Nat) (m m' : Machine) : Prop where
  returns : m.Returns
  level : m.ready.suspended.length = k
  completes : m.attempt = (.ok (), m')
  left : (m'.contextAt k).fp < fp

theorem attempt_of_next {m : Machine} {i : Instruction} (hgoing : m.ended = none)
    (hnext : m.next? = some i) : ∃ journal running observer,
      m.attempt = Exec.outcome (Exec.execute i) { m with
        world := { m.world with journal }
        context := { m.context with pc := m.context.pc + 1, running, observer } } := by
  obtain ⟨j, running, observer, hbegin⟩ := Exec.outcome_begin i m
  have hready : m.ready = m := by
    rw [ready, hgoing]
  have haction : m.action = (do
      Exec.begin i
      Exec.execute i) := by
    rw [action, hgoing]
    dsimp only
    rw [hnext]
  refine ⟨j, running, observer, ?_⟩
  rw [attempt, haction, hready, Exec.outcome_bind_ok hbegin]

variable {m m' : Machine} {i : Instruction}

/-- **Entering a function** puts a frame with the state of the caller in place of the slots that
the call takes; the callee gets the receivers of the caller. -/
theorem Enters.spec_of_grounded (h : m.Enters i m') (hgrounded : m.context.Grounded) :
    m.context.fp + Exec.slotsTaken i m.context ≤ m.context.stack.size ∧
    m'.context.receivers = m.context.receivers ∧
    ∃ f : Frame, f.Saves m.context ∧
      m'.context.fp = m.context.stack.size - Exec.slotsTaken i m.context + 1 ∧
      m'.context.stack
        = (m.context.stack.extract 0 (m.context.stack.size - Exec.slotsTaken i m.context)).push
          (.frame f) := by
  obtain ⟨j, running, observer, hattempt⟩ := attempt_of_next h.going h.next
  have hcalls : Exec.CallsAfter i (Exec.execute i) := by
    have hop := h.calls
    obtain ⟨op, operand⟩ := i
    cases op with
    | call => exact Exec.call_callsAfter operand
    | localCall => exact Exec.localCall_callsAfter operand
    | entryPoint => exact Exec.entryPoint_callsAfter operand
    | _ => cases hop
  have hdeeper := h.deeper
  have hcases := hcalls { m with
    world := { m.world with journal := j }
    context := { m.context with pc := m.context.pc + 1, running, observer } }
    ⟨hgrounded.fp_le, hgrounded.values⟩
  rw [← hattempt, h.completes] at hcases
  rcases hcases with ⟨hhas, -⟩ | ⟨extraArgs, hle, heffect⟩
  · -- The call of a library function stays in the running function.
    have hfp : m'.context.fp = m.context.fp := hhas.fp_eq
    omega
  · refine ⟨hle, ?_⟩
    cases heffect with
    | stays has lower =>
      have hfp : m'.context.fp = m.context.fp := has.fp_eq
      omega
    | suspends awaiting fresh suspended ended =>
      have hlength := congrArg List.length (suspended.symm.trans h.same)
      have hcons : m.suspended.length + 1 = m.suspended.length := hlength
      omega
    | enters name table code pc observer package context suspended ended =>
      rw [context]
      have hsize : (m.context.stack.extract 0
          (m.context.stack.size - Exec.slotsTaken i m.context)).size
            = m.context.stack.size - Exec.slotsTaken i m.context := by
        rw [Array.size_extract]
        omega
      refine ⟨rfl, _, ⟨rfl, rfl, rfl, rfl, rfl, rfl, rfl, rfl, rfl, rfl, rfl, rfl⟩, ?_, rfl⟩
      exact congrArg (· + 1) hsize

theorem Enters.spec (h : m.Enters i m') (hframed : m.Framed) :
    m.context.fp + Exec.slotsTaken i m.context ≤ m.context.stack.size ∧
    ∃ f : Frame, f.Saves m.context ∧
      m'.context.fp = m.context.stack.size - Exec.slotsTaken i m.context + 1 ∧
      m'.context.stack
        = (m.context.stack.extract 0 (m.context.stack.size - Exec.slotsTaken i m.context)).push
          (.frame f) := by
  obtain ⟨hle, -, hframe⟩ := h.spec_of_grounded hframed.running.grounded
  exact ⟨hle, hframe⟩

/-- **Returning from a function** turns back to the caller that its frame saved. -/
theorem Leaves.spec {k : Nat} {below : Array Slot} {f : Frame}
    (h : m.Leaves k (below.size + 1) m') (hframed : m.Framed) (hhidden : m.HiddenLive)
    (hinside : m.Inside k (below.push (.frame f))) :
    ∃ pc running observer output loops observer', m'.context =
      { ({ m.leaving with pc, running, observer, output } : Context).resumed f with
        stack := below ++ Exec.returnedSlots m.leaving
        result := none
        frameDepth := m.leaving.frameDepth - 1
        loops
        observer := observer' } := by
  have hcontext : m.contextAt k = m.ready.context := by
    rw [← contextAt_ready (Nat.le_of_eq h.level.symm),
      contextAt_of_level (Nat.le_of_eq h.level)]
  have hfp := hinside.fp_le
  have hlower := hinside.lower_eq
  rw [hcontext, Array.size_push] at hfp hlower
  have hleft := h.left
  rcases attempt_cases hframed with hclimbs | ⟨-, j, pc, running, observer, output, hpos, hpop⟩
  · -- What climbs does not leave the function.
    rw [h.completes] at hclimbs
    have hle : m.ready.context.fp ≤ (m'.contextAt m.ready.suspended.length).fp := hclimbs.fp_le
    rw [h.level] at hle
    omega
  · obtain ⟨hlinked, hsame, hslots⟩ := leaving_spec hframed
    rw [h.completes] at hpop
    obtain ⟨below', f', hstack, hsize, -⟩ := hlinked.frame hpos
    obtain ⟨world, loops, observer', hout, -⟩ := Exec.outcome_popFrame (m := { m.ready with
      world := { m.world with journal := j }
      context := { m.leaving with pc, running, observer, output } })
      ⟨hlinked.grounded.fp_le, hlinked.grounded.values⟩ hstack hpos hframed.sound hhidden
    rw [hout] at hpop
    cases hpop
    rw [contextAt_of_level (by exact Nat.le_of_eq h.level)] at hleft
    have hleft' : f'.fp < below.size + 1 := hleft
    have hcut : m.leaving.stack.extract 0 (below.size + 1) = below.push (.frame f) := by
      rw [Context.lower, Context.lower, hsame] at hslots
      rw [extract_lower hslots hfp, hlower]
    have hmine : m.leaving.fp = below.size + 1 := by
      rcases Nat.lt_or_eq_of_le (hsame ▸ hfp) with hlt | heq
      · have hget := congrArg (·[below.size]?) hcut
        simp only [Array.getElem?_push_size, Array.getElem?_extract] at hget
        have hle := hlinked.fp_le
        rw [if_pos (by omega), Nat.zero_add] at hget
        have := hlinked.linked.saved_fp_le hstack hget hlt
        omega
      · exact heq.symm
    rw [hmine, hcut] at hstack
    obtain ⟨hf, rfl⟩ := Array.push_eq_push.1 hstack
    cases hf
    exact ⟨pc, running, observer, output, loops, observer', rfl⟩

/-- **Returns restore callers**: when a call of a function of the program is followed by whatever
the function does, its matching return leaves the caller as it stood at the call, but after it, and
with what the function returned on the operand stack. -/
theorem return_restores_caller {start atCall entered leaving after : Machine} {i : Instruction}
    (hbegins : start.Begins) (hreached : Trace HiddenLive start atCall)
    (henters : atCall.Enters i entered)
    (hbody : Trace (Within atCall.suspended.length entered.context.fp) entered leaving)
    (hleaves : leaving.Leaves atCall.suspended.length entered.context.fp after) :
    after.context.RestoredFrom atCall.context leaving.leaving
      (Exec.slotsTaken i atCall.context) := by
  have hframed := hreached.framed hbegins.framed
  obtain ⟨htaken, f, hsaves, hfp, hstack⟩ := henters.spec hframed
  generalize hbelow : atCall.context.stack.extract 0
    (atCall.context.stack.size - Exec.slotsTaken i atCall.context) = below at hstack
  have hsize : entered.context.fp = below.size + 1 := by
    rw [hfp, ← hbelow, Array.size_extract]
    omega
  have hentered : entered.Framed := by
    have hstep := step_of_attempt_ok henters.completes
    rw [← hstep]
    refine (hreached.step ?_).framed hbegins.framed
    rw [hstep]
    exact hbody.ok_first.hidden
  have hstart : entered.Inside atCall.suspended.length (below.push (.frame f)) := by
    have hlevel := contextAt_of_level (Nat.le_of_eq (congrArg List.length henters.same))
    refine ⟨Nat.le_of_eq (congrArg List.length henters.same).symm, ?_, ?_⟩
    · exact Nat.le_of_eq (by rw [hlevel, Array.size_push, hsize])
    · rw [hlevel, hstack, Array.extract_size]
  have hinside := Trace.inside (hbody.mono fun _ hwithin => ⟨hwithin.hidden, hwithin.level, by
    rw [Array.size_push, ← hsize]
    exact hwithin.fp_le⟩) hentered (by rw [Array.size_push]; omega) hstart
  have hleaving := (hbody.mono fun _ hwithin => hwithin.hidden).framed hentered
  rw [hsize] at hleaves
  obtain ⟨pc, running, observer, output, loops, observer', hafter⟩ := hleaves.spec hleaving
    hbody.ok_last.hidden hinside
  rw [hafter]
  exact ⟨hsaves.symbols, hsaves.code, hsaves.pc, hsaves.fp, hsaves.line, hsaves.package,
    hsaves.blockDepth, hsaves.deferred,
    congrArg (· || leaving.leaving.breakOnReturn) hsaves.singleStep, hsaves.breakOnReturn,
    hsaves.extensions, htaken, by rw [hbelow]⟩

/-- The subroutine returns its operand to the outermost code. -/
theorem return_restores_caller_of_subroutine :
    Trace HiddenLive subroutine subroutine ∧
      subroutine.Enters ⟨.localCall, .ofNat 2⟩ subroutine.step.1 ∧
      Trace (Within 0 1) subroutine.step.1 subroutine.step.1.step.1 ∧
      subroutine.step.1.step.1.Leaves 0 1 subroutine.step.1.step.1.step.1 ∧
      subroutine.step.1.step.1.step.1.context.RestoredFrom subroutine.context
        subroutine.step.1.step.1.leaving 0 := by
  have hreached : Trace HiddenLive subroutine subroutine :=
    .start (hiddenLive_of_no_packages rfl)
  have henters : subroutine.Enters ⟨.localCall, .ofNat 2⟩ subroutine.step.1 :=
    ⟨rfl, rfl, rfl, rfl, rfl, Nat.zero_lt_one⟩
  have hbody : Trace (Within 0 1) subroutine.step.1 subroutine.step.1.step.1 :=
    .step (.start ⟨hiddenLive_of_no_packages rfl, Nat.zero_le _, Nat.le_refl 1⟩)
      ⟨hiddenLive_of_no_packages rfl, Nat.zero_le _, Nat.le_refl 1⟩
  have hleaves : subroutine.step.1.step.1.Leaves 0 1 subroutine.step.1.step.1.step.1 :=
    ⟨⟨.null, rfl⟩, rfl, rfl, Nat.zero_lt_one⟩
  exact ⟨hreached, henters, hbody, hleaves,
    return_restores_caller subroutine_begins hreached henters hbody hleaves⟩

end Machine

end ScriptMachine
