import ScriptMachine.Proofs.Faults.Failing
import ScriptMachine.Proofs.Layout.Leaving

/-!
# Faults and returns on pairs of machines

While the hidden tables of all packages are live, paired machines deal with a fault in the same way, and
return in the same way: a handler is found at the same depth, and leads to an address that corresponds.

* `Context.Paired.catcher?_cases`: the handlers that take a fault.
* `PairsAt.catchAt`, `PairsAt.settle`: what is done about a fault.
* `PairsAt.return_`, `PairsAt.afterScratch`: returns, with deferred calls.
-/

namespace ScriptMachine

variable {K : Pairing} {T T' : Prop} {m n : Machine}

/-- What is written before a run is given up is a note. -/
theorem Machine.noted_traced (m : Machine) (f : Fault) : m.Noted (m.traced f) := by
  unfold Machine.traced
  split
  · exact ⟨rfl, World.agrees_emit _ _ m.world, rfl⟩
  · exact Std.Refl.refl (r := Machine.Noted) m

/-! ### Finding a handler -/

theorem PairedBelow.findHandler_cases {lower lower' : Array Slot} {x y : Code} (f : Fault) :
    ∀ {handlers handlers' : List Handler}, PairedBelow K lower lower' x y handlers handlers' →
      Exec.findHandler f handlers = none ∧ Exec.findHandler f handlers' = none ∨
      ∃ h k outer outer', Exec.findHandler f handlers = some (h, outer) ∧
        Exec.findHandler f handlers' = some (k, outer') ∧ h.address.isSome = true ∧
        PairedBelow K lower lower' x y (h :: outer) (k :: outer')
  | [], [], _ => .inl ⟨rfl, rfl⟩
  | [], _ :: _, p => nomatch p.length_eq
  | _ :: _, [], p => nomatch p.length_eq
  | h :: rest, k :: rest', p => by
    obtain ⟨_, _, hhead⟩ := p.exists_head
    have htakes : k.takes f = h.takes f := by
      unfold Handler.takes
      rw [hhead.isSome_eq, hhead.catches_eq]
    rw [Exec.findHandler, Exec.findHandler, htakes]
    split
    · rename_i hf
      rw [Handler.takes, Bool.and_eq_true] at hf
      exact .inr ⟨h, k, rest, rest', rfl, rfl, hf.1, p⟩
    · exact p.tail.findHandler_cases f

/-- **The handlers that take a fault** in paired contexts. -/
theorem Context.Paired.catcher?_cases {c e : Context} (p : c.Paired K T e) (f : Fault) :
    c.catcher? f = none ∧ e.catcher? f = none ∨
      ∃ h k outer outer', c.catcher? f = some (h, outer) ∧ e.catcher? f = some (k, outer') ∧
        h.address.isSome = true ∧
        PairedBelow K c.lower e.lower c.code e.code (h :: outer) (k :: outer') := by
  unfold Context.catcher?
  rw [p.name_eq, show e.line = c.line by rw [p.same], show e.panics = c.panics by rw [p.same]]
  split
  · exact .inl ⟨rfl, rfl⟩
  · dsimp only
    split
    · exact p.below.findHandler_cases _
    · exact .inl ⟨rfl, rfl⟩

namespace Context.Paired

variable {c e : Context} {h k : Handler} {outer outer' : List Handler}

/-- The innermost handlers, if they belong to the running function. -/
theorem head (p : c.Paired K T e) (hhandlers : c.handlers = h :: outer)
    (hhandlers' : e.handlers = k :: outer') (hfp : h.fp = c.fp) :
    h.Paired K c.code e.code k ∧ c.fp ≤ h.stackSize := by
  have hsize := Context.size_lower p.grounded.fp_le
  have hbelow := p.below
  rw [hhandlers, hhandlers'] at hbelow
  obtain ⟨hpaired, hstack⟩ := hbelow.head (hfp.trans hsize.symm)
  exact ⟨hpaired, hsize ▸ hstack⟩

/-- They are disarmed, and the functions go on at addresses that correspond. -/
theorem caughtAt (p : c.Paired K T e) (hhandlers : c.handlers = h :: outer)
    (hhandlers' : e.handlers = k :: outer') (hfp : h.fp = c.fp)
    (harmed : h.address.isSome = true) :
    ({ c with
        pc := h.address.getD c.pc, handlers := { h with address := none } :: outer } : Context).Paired
      K True
      { e with pc := k.address.getD e.pc, handlers := { k with address := none } :: outer' } := by
  obtain ⟨hpaired, hstack⟩ := p.head hhandlers hhandlers' hfp
  have hsize := Context.size_lower p.grounded.fp_le
  have hbelow := p.below
  rw [hhandlers, hhandlers'] at hbelow
  have harm := hbelow.tail.arm hpaired.disarmed (hfp.trans hsize.symm)
    (Nat.le_trans (Nat.le_of_eq hsize) hstack)
  have haddress := hpaired.address
  obtain ⟨a, ha⟩ := Option.isSome_iff_exists.1 harmed
  rw [ha] at haddress ⊢
  rcases hk : k.address with _ | b <;> rw [hk] at haddress
  · cases haddress
  · cases haddress with
    | some hmeets => exact (p.goTo hmeets).withHandlers harm

end Context.Paired

namespace Exec

variable {α β : Type}

namespace PairsAt

/-- After a cleaning action both machines are cleaned in the same way. -/
theorem cleaning_bind {act : Exec α} {next next' : α → Exec β} (p : m.Paired K T n)
    (h : IsCleaning act)
    (hnext : ∀ a left, PairsAt K T' (next a) (next' a) (m.cleaned left) (n.cleaned left)) :
    PairsAt K T' (act >>= next) (act >>= next') m n := by
  obtain ⟨r, left, hm, hn⟩ := h.outcome_eq p.world (by rw [p.context.same]) (by rw [p.context.same])
  cases r with
  | error e =>
    exact .of_eq (outcome_bind_error hm) (outcome_bind_error hn)
      ((p.cleaned left).weaken fun hcompletes => by cases hcompletes.2)
  | ok a => exact (hnext a left).congr (outcome_bind_ok hm) (outcome_bind_ok hn)

/-- Changing the contexts, before something else. -/
theorem modifyContext_bind {f f' : Context → Context} {next next' : Exec β}
    (h : PairsAt K T' next next' { m with context := f m.context } { n with context := f' n.context }) :
    PairsAt K T' (Exec.modifyContext f >>= fun _ => next) (Exec.modifyContext f' >>= fun _ => next')
      m n := ⟨h.result_eq, h.paired⟩

/-! ### Dealing with a fault -/

/-- Paired machines go on at handlers whose addresses correspond. -/
theorem resumeHandler {h k : Handler} {outer outer' : List Handler} (f : Fault)
    (p : m.Paired K T n) (hhandlers : m.context.handlers = h :: outer)
    (hhandlers' : n.context.handlers = k :: outer') (hfp : h.fp = m.context.fp)
    (harmed : h.address.isSome = true) :
    PairsAt K True (Exec.resumeHandler h outer f) (Exec.resumeHandler k outer' f) m n := by
  obtain ⟨hpaired, hstack⟩ := p.context.head hhandlers hhandlers' hfp
  have hdrop : dropScopesTo k.symbols = dropScopesTo h.symbols := by rw [hpaired.symbols_eq]
  have hcut : (fun c : Context => { c with stack := c.stack.extract 0 k.stackSize })
      = fun c => { c with stack := c.stack.extract 0 h.stackSize } := by rw [hpaired.stackSize_eq]
  have hend : endLoopsTo k.loopDepth = endLoopsTo h.loopDepth := by rw [hpaired.loopDepth_eq]
  unfold Exec.resumeHandler
  rw [hdrop, hcut, hend]
  refine cleaning_bind p (.dropScopesTo _) fun _ left => modifyContext_bind ?_
  have p₁ := p.cleaned left
  have p₂ := p₁.withContexts (p₁.context.truncate hstack)
  refine cleaning_bind p₂ (.endLoopsTo _) fun _ left₁ => modifyContext_bind ?_
  have p₃ := p₂.cleaned left₁
  have p₄ := p₃.withContexts (p₃.context.caughtAt hhandlers hhandlers' hfp harmed)
  refine (?_ : Pairs K True True _ _) _ _ p₄
  exact Pairs.read_bind (fun _ _ _ _ _ _ => rfl) fun _ => (Pairs.observe _ _).bind fun _ =>
    Pairs.read_bind (fun _ _ _ _ _ _ => rfl) fun _ => Pairs.storeIn _ _ _

/-- **Paired machines turn to handlers** that they have found. -/
theorem catchAt {h k : Handler} {outer outer' : List Handler} (f : Fault) (p : m.Paired K T n)
    (hbelow : PairedBelow K m.context.lower n.context.lower m.context.code n.context.code (h :: outer)
      (k :: outer')) (harmed : h.address.isSome = true) (hsound : m.world.scopes.Sound)
    (hlive : (outcome (Exec.catchAt h outer f) m).2.HiddenLive) :
    PairsAt K True (Exec.catchAt h outer f) (Exec.catchAt k outer' f) m n := by
  obtain ⟨_, _, hhead⟩ := hbelow.exists_head
  have hle := p.context.grounded.fp_le
  rw [catchAt_eq, outcome_bind_ok (outcome_context m)] at hlive
  have hlive₁ := hiddenLive_of_bind (fun _ => IsFading.bind (.modifyContext _) fun _ =>
    IsFading.resumeHandler h outer f) hlive
  obtain ⟨m₁, n₁, hm₁, hn₁, p₁, hdown, hkeep⟩ := unwindTo_paired p (by omega) hsound hlive₁
  have hbelow₁ := hkeep hbelow (Nat.le_refl _)
  have hfp : h.fp = m₁.context.fp := by
    have hup := hbelow₁.handler_fp_le h List.mem_cons_self
    rw [Context.size_lower p₁.context.grounded.fp_le] at hup
    exact Nat.le_antisymm hup hdown
  have p₂ := p₁.withContexts (p₁.context.withHandlers hbelow₁)
  refine (resumeHandler f p₂ rfl rfl hfp harmed).congr ?_ ?_
  · rw [catchAt_eq, outcome_bind_ok (outcome_context m), outcome_bind_ok hm₁,
      outcome_bind_ok (outcome_modifyContext _ m₁)]
  · rw [catchAt_eq, outcome_bind_ok (outcome_context n), hhead.fp_eq, p.context.size_stack_eq,
      outcome_bind_ok hn₁, outcome_bind_ok (outcome_modifyContext _ n₁)]

/-- Paired machines give up in the same way. -/
theorem abandon (f : Fault) (p : m.Paired K T n) (hsound : m.world.scopes.Sound)
    (hlive : (outcome (Exec.abandon f) m).2.HiddenLive) :
    PairsAt K T' (Exec.abandon f) (Exec.abandon f) m n := by
  have hle := p.context.grounded.fp_le
  have ptraced := p.noted (m.noted_traced f) (n.noted_traced f)
  rw [outcome_abandon] at hlive
  have hsize : m.context.stack.size = (m.traced f).context.stack.size := by
    rw [(m.noted_traced f).same]
  obtain ⟨m₁, n₁, hm₁, hn₁, p₁, -⟩ := unwindTo_paired ptraced
    (by rw [hsize]; exact Nat.le_succ_of_le ptraced.context.grounded.fp_le)
    (by rw [(m.noted_traced f).agrees.scopes_eq]; exact hsound) hlive
  have hm : outcome (Exec.abandon f) m = (.error (.fault f), m₁.stopped) := by
    rw [outcome_abandon, hm₁]
  have hn : outcome (Exec.abandon f) n = (.error (.fault f), n₁.stopped) := by
    rw [outcome_abandon, p.context.size_stack_eq, hn₁]
  have pstopped : m₁.stopped.Paired K T n₁.stopped := p₁.withContexts
    (p₁.context.change (f := fun c => { c with running := false }) (fun _ _ _ _ _ _ => rfl) fun _ => rfl)
  exact .of_eq hm hn (pstopped.weaken fun hcompletes => by cases hcompletes.2)

/-- **Paired machines recover from a fault** in the same way, or neither does. -/
theorem recover (f : Fault) (p : m.Paired K T n) (hsound : m.world.scopes.Sound)
    (hlive : (outcome (Exec.recover f) m).2.HiddenLive) :
    PairsAt K True (Exec.recover f) (Exec.recover f) m n := by
  have hraised : f.raisedAt n.context.code.name n.context.line
      = f.raisedAt m.context.code.name m.context.line := by
    rw [p.context.name_eq, show n.context.line = m.context.line by rw [p.context.same]]
  have hm := outcome_recover f m
  have hn := outcome_recover f n
  by_cases hsignal : f.isSignal = true
  · rw [if_pos hsignal] at hm hn
    exact .of_eq hm hn (p.weaken fun hcompletes => by cases hcompletes.2)
  · rw [if_neg hsignal] at hm hn
    rw [hraised] at hn
    rcases p.context.catcher?_cases f with ⟨hnone, hnone'⟩ |
      ⟨h, k, outer, outer', hsome, hsome', harmed, hbelow⟩
    · rw [hnone] at hm
      rw [hnone'] at hn
      rw [hm] at hlive
      exact (abandon _ p hsound hlive).congr hm hn
    · rw [hsome] at hm
      rw [hsome'] at hn
      rw [hm] at hlive
      exact (catchAt _ p hbelow harmed hsound hlive).congr hm hn

/-- A context ends. -/
theorem finish (p : m.Paired K T n) : PairsAt K False Exec.finish Exec.finish m n := by
  have hnote : Pairs K False False (do
      Exec.modifyContext fun c => { c with running := false }
      let c ← context
      Exec.note .trace fun _ => s!"*** ({c.thread}) {c.name} ended") (do
      Exec.modifyContext fun c => { c with running := false }
      let c ← context
      Exec.note .trace fun _ => s!"*** ({c.thread}) {c.name} ended") :=
    .bind (.adjust (fun _ _ _ _ _ _ => rfl) fun _ => rfl) fun _ =>
      .read_bind (fun _ _ _ _ _ _ => rfl) fun _ => .ofNoting (.note _ _) (.note _ _)
  have hend := (hnote m n (p.weaken False.elim)).bind fun _ m' n' _ _ p' =>
    (⟨rfl, { p'.weaken And.left with ended_eq := rfl }⟩ : PairsAt K False
      (modify fun m => { m with ended := some (.ok ()) })
      (modify fun m => { m with ended := some (.ok ()) }) m' n')
  simp only [bind_assoc] at hend
  exact hend

/-- **Paired machines deal with a fault** in the same way; unless their contexts end by it, they go on
at places that correspond. -/
theorem settle (f : Fault) (p : m.Paired K T n) (hsound : m.world.scopes.Sound)
    (hlive : (outcome (Exec.settle f) m).2.HiddenLive) :
    PairsAt K ((outcome (Exec.settle f) m).2.ended = none) (Exec.settle f) (Exec.settle f) m n := by
  by_cases hstop : f.kind = .stop
  · have hfinish : Exec.settle f = Exec.finish := if_pos hstop
    rw [hfinish]
    refine (finish p).imp fun hgoes => ?_
    obtain ⟨j, hj⟩ := outcome_finish m
    rw [hj] at hgoes
    cases hgoes
  have hm := outcome_settle hstop m
  have hn := outcome_settle hstop n
  rw [hm] at hlive
  have hlive₁ : (outcome (Exec.recover f) m).2.HiddenLive := by
    rcases hout : outcome (Exec.recover f) m with ⟨(g | _) | u, m₁⟩ <;> rw [hout] at hlive <;>
      exact hlive
  obtain ⟨hresult, hpaired⟩ := recover f p hsound hlive₁
  rcases hout : outcome (Exec.recover f) m with ⟨r, m₁⟩
  rcases hout' : outcome (Exec.recover f) n with ⟨r', n₁⟩
  rw [hout, hout'] at hresult hpaired
  rw [hout] at hm
  rw [hout'] at hn
  obtain rfl : r' = r := hresult
  rcases r' with (g | _) | u
  · refine .of_eq hm hn { hpaired with
      ended_eq := rfl
      context := hpaired.context.weaken fun hgoes => ?_ }
    rw [hm] at hgoes
    cases hgoes.1
  · exact .of_eq hm hn (hpaired.weaken fun hcompletes => by cases hcompletes.2)
  · exact .of_eq hm hn (hpaired.weaken fun _ => ⟨trivial, rfl⟩)

/-! ### Returns -/

/-- A deferred call is set going. -/
theorem launch (c : Context) (d : DeferredCall) (rest : List DeferredCall) (p : m.Paired K True n) :
    PairsAt K True (do
      Exec.modifyContext fun c => { c with deferred := rest }
      noteThread .trace fun _ => "run deferred call"
      let scratch ← onWorld (World.callContext c.symbols c.settings d.callable d.args)
      Exec.modifyContext fun c => { c with output := .discarded }
      enterScratch { scratch with output := c.output } .deferred) (do
      Exec.modifyContext fun c => { c with deferred := rest }
      noteThread .trace fun _ => "run deferred call"
      let scratch ← onWorld (World.callContext c.symbols c.settings d.callable d.args)
      Exec.modifyContext fun c => { c with output := .discarded }
      enterScratch { scratch with output := c.output } .deferred) m n := by
  refine (?_ : Pairs K True True _ _) m n p
  refine Pairs.bind (.adjust (fun _ _ _ _ _ _ => rfl) fun _ => rfl) fun _ =>
    (Pairs.noteThread _ _ _).bind fun _ =>
      Pairs.onWorld_bind (P := fun c => c.Fresh ∧ c.observer.allowance = none)
        (World.callContext_isUnread _ _ _ _) (fun w => ⟨World.callContext_fresh _ _ _ _ w,
          (World.callContext_isBare _ _ _ _ w).allowance_eq⟩)
        fun scratch h => Pairs.bind (.adjust (fun _ _ _ _ _ _ => rfl) fun _ => rfl) fun _ => ?_
  have hfresh : Context.Fresh { scratch with output := c.output } :=
    ⟨h.1.values, h.1.fp_eq, h.1.frameDepth_eq, h.1.handlers_eq⟩
  exact Pairs.enterScratch hfresh h.2 .deferred

/-- A return goes on with the last deferred call, or leaves the function. -/
theorem continueReturn (p : m.Paired K True n) (hsound : m.world.scopes.Sound)
    (hlive : (outcome Exec.continueReturn m).2.HiddenLive) :
    PairsAt K True Exec.continueReturn Exec.continueReturn m n := by
  have hdeferred : n.context.deferred = m.context.deferred := by rw [p.context.same]
  refine .context_bind ?_
  rw [Exec.continueReturn, outcome_bind_ok (outcome_context m)] at hlive
  rw [hdeferred]
  cases hcalls : m.context.deferred with
  | nil =>
    rw [hcalls] at hlive
    dsimp only at hlive ⊢
    rw [p.context.fp_eq]
    split at hlive
    · rename_i hpos
      rw [if_pos hpos]
      exact popFrame p hsound hlive
    · rename_i hzero
      rw [if_neg hzero]
      refine (?_ : Pairs K True True _ _) m n p
      exact Pairs.adjust (fun _ _ _ _ _ _ => rfl) fun _ => rfl
  | cons d rest =>
    dsimp only
    rw [show n.context.symbols = m.context.symbols by rw [p.context.same],
      show n.context.settings = m.context.settings by rw [p.context.same],
      show n.context.output = m.context.output by rw [p.context.same]]
    exact launch m.context d rest p

/-- **Paired machines return** in the same way: to callers that are paired, or with the next deferred
call. -/
theorem return_ (operand : Value) (p : m.Paired K True n) (hsound : m.world.scopes.Sound)
    (hlive : (outcome (Exec.return_ operand) m).2.HiddenLive) :
    PairsAt K True (Exec.return_ operand) (Exec.return_ operand) m n := by
  unfold Exec.return_ at hlive ⊢
  generalize operand.unwrapped = given at hlive ⊢
  cases given with
  | bool b =>
    cases b with
    | false => exact continueReturn p hsound hlive
    | true =>
      dsimp only at hlive ⊢
      refine (Pairs.ofPlain .popValue m n p).bind fun v m' n' hm _ p' => modifyContext_bind ?_
      rw [outcome_bind_ok hm, outcome_bind_ok (outcome_modifyContext _ m')] at hlive
      obtain ⟨-, hm'⟩ := outcome_popValue hm
      refine continueReturn (p'.withContexts (p'.context.withResult (some v))) ?_ hlive
      show m'.world.scopes.Sound
      rw [hm']
      exact hsound
  | _ => exact continueReturn p hsound hlive

/-- Paired contexts leave the same at the top of their stacks. -/
theorem leftTrue_eq {c e : Context} (p : c.Paired K T e) (h : Heap) : leftTrue h e = leftTrue h c := by
  have hback : e.stack.back? = c.operands.back?.or e.lower.back? := by
    rw [p.stack_eq, Array.back?_append]
  have hback' : c.stack.back? = c.operands.back?.or c.lower.back? := by
    conv_lhs => rw [← Context.lower_append_operands p.grounded.fp_le]
    rw [Array.back?_append]
  unfold leftTrue
  rw [show e.result = c.result by rw [p.same], hback, hback']
  cases c.operands.back? with
  | some s => rfl
  | none =>
    rw [Option.none_or, Option.none_or]
    rcases p.below.back?_cases with ⟨hnone, hnone'⟩ | ⟨f, g, hsome, hsome'⟩
    · rw [hnone, hnone']
    · rw [hsome, hsome']

/-- **Paired machines go on** once a call has ended that they waited for. -/
theorem afterScratch (awaiting : Awaiting) {c e : Context} (result : Except Fault Unit)
    (q : c.Paired K T e) (p : m.Paired K True n) (hsound : m.world.scopes.Sound)
    (hlive : (outcome (Exec.afterScratch awaiting c result) m).2.HiddenLive) :
    PairsAt K True (Exec.afterScratch awaiting c result) (Exec.afterScratch awaiting e result) m n := by
  cases awaiting with
  | deferred =>
    have houtput : e.output = c.output := by rw [q.same]
    unfold Exec.afterScratch at hlive ⊢
    dsimp only at hlive ⊢
    rw [houtput]
    rw [outcome_bind_ok (outcome_modifyContext _ m)] at hlive
    refine modifyContext_bind ?_
    have p₁ := p.withContexts (p.context.change (f := fun d => { d with output := c.output })
      (fun _ _ _ _ _ _ => rfl) fun _ => rfl)
    cases result with
    | error f => exact Pairs.fail f _ _ p₁
    | ok => exact continueReturn p₁ hsound hlive
  | ordering r less size i j =>
    unfold Exec.afterScratch
    dsimp only
    cases result with
    | error f => exact Pairs.settleLibraryFault _ f m n p
    | ok =>
      refine (Pairs.heap m n p).bind fun h m' n' _ _ p' => ?_
      rw [leftTrue_eq q]
      exact Pairs.sortAfter r less size i j _ m' n' p'

end PairsAt

end Exec

end ScriptMachine
