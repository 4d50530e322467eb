import ScriptMachine.Proofs.Frames.Recovery
import ScriptMachine.Proofs.Layout.Calls

/-!
# Leaving functions on pairs of machines

While the hidden tables of all packages are live, paired machines leave a function in the same way, for
callers that are paired. What is done about scopes and loops in between concerns neither the stack nor
the place in code.

* `Exec.IsCleaning`: an action works on the world, the current table and the loops alone;
  `Pairs.ofCleaning`: such an action does the same on paired machines.
* `Context.Paired.resumed`: the callers of paired machines are paired.
* `restoreFrame_paired`, `unwindTo_paired`: one function is left, or all down to a place in the stack.
* `PairsAt.popFrame`: returns.
-/

namespace ScriptMachine

/-- A machine with the world, the current table and the loops of another one, after its own events. -/
def Machine.cleaned (n m : Machine) : Machine :=
  { n with
    world := m.world.after n.world.journal.events
    context := { n.context with symbols := m.context.symbols, loops := m.context.loops } }

theorem Machine.cleaned_self (m : Machine) : m.cleaned { m with world := m.world.hushed } = m := by
  unfold Machine.cleaned
  dsimp only
  rw [World.after_hushed]

namespace Exec

variable {α β : Type} {K : Pairing} {T T' : Prop}

/-- An action works on the world, the current table and the loops alone. -/
def IsCleaning (act : Exec α) : Prop := ∀ n, Respects (Machine.cleaned n) (fun _ => True) act

namespace IsCleaning

theorem pure (a : α) : IsCleaning (Pure.pure a) := fun _ => .pure a

theorem throw (h : Halt) : IsCleaning (MonadExcept.throw h : Exec α) := fun _ => .throw h

theorem bind {act : Exec α} {next : α → Exec β} (hact : IsCleaning act)
    (hnext : ∀ a, IsCleaning (next a)) : IsCleaning (act >>= next) :=
  fun n => (hact n).bind fun a => hnext a n

theorem ite {p : Prop} [Decidable p] {yes no : Exec α} (hyes : IsCleaning yes) (hno : IsCleaning no) :
    IsCleaning (if p then yes else no) := by
  split
  · exact hyes
  · exact hno

theorem forIn {γ σ : Type} (xs : List γ) (body : γ → σ → Exec (ForInStep σ)) (init : σ)
    (hbody : ∀ x s, IsCleaning (body x s)) : IsCleaning (ForIn.forIn xs init body) :=
  fun n => Respects.forIn xs body init fun x s => hbody x s n

theorem lift (r : Except Fault α) : IsCleaning (liftM r : Exec α) := by
  cases r with
  | error f => exact throw (.fault f)
  | ok a => exact pure a

theorem heap : IsCleaning Exec.heap :=
  fun _ => Respects.read (·.world.heap) outcome_heap fun _ => rfl

theorem scopes : IsCleaning Exec.scopes :=
  fun _ => Respects.read (·.world.scopes) outcome_scopes fun _ => rfl

theorem setScopes (a : Arena) : IsCleaning (Exec.setScopes a) :=
  fun _ => .ofModify (fun _ _ => rfl) fun _ h => h

/-- Reading the current table and the loops. -/
theorem context_bind {next : Context → Exec β}
    (hread : ∀ c d : Context, next { d with symbols := c.symbols, loops := c.loops } = next c)
    (hnext : ∀ c, IsCleaning (next c)) : IsCleaning (context >>= next) := by
  have hget : (context >>= next) = (get >>= fun m => next m.context) := rfl
  rw [hget]
  exact fun n => Respects.get_bind (fun m => hread m.context n.context) fun m => hnext m.context n

theorem onWorld {act : WorldM α} (h : act.IsUnread) : IsCleaning (Exec.onWorld act) := by
  intro n m _
  refine ⟨?_, trivial⟩
  rw [outcome_onWorld, outcome_onWorld]
  show (Except.ok (act.run (m.world.after n.world.journal.events)).1, _) = _
  rw [h _ m.world]
  show (_, { n.cleaned m with world := (act.run (m.world.after n.world.journal.events)).2 }) = _
  rw [h _ m.world]
  rfl

theorem onHeap (act : StateM Heap α) : IsCleaning (Exec.onHeap act) :=
  onWorld (World.onHeap_isUnread act)

theorem storeIn (table : TableId) (name : String) (v : Value) :
    IsCleaning (Exec.storeIn table name v) :=
  scopes.bind fun _ => (lift _).bind fun a => setScopes a

/-! ### What is done while functions are left -/

theorem release (l : Loop) : IsCleaning (Exec.release l) := by
  unfold Exec.release
  split
  · exact onHeap _
  · exact onHeap _
  · exact pure _
  · exact pure _

theorem setLoops (loops : List Loop) :
    IsCleaning (Exec.modifyContext fun c => { c with loops }) :=
  fun _ => .ofModify (fun _ _ => rfl) fun _ h => h

theorem endLoops (count : Nat) : IsCleaning (Exec.endLoops count) := by
  induction count with
  | zero => exact pure _
  | succ count ih =>
    refine context_bind (fun _ _ => rfl) fun c => ?_
    split
    · exact pure _
    · exact (setLoops _).bind fun _ => (release _).bind fun _ => ih

theorem endLoopsTo (depth : Nat) : IsCleaning (Exec.endLoopsTo depth) :=
  context_bind (fun _ _ => rfl) fun _ => endLoops _

theorem dropScopesTo (target : TableId) : IsCleaning (Exec.dropScopesTo target) := by
  have hgo : IsCleaning (Exec.modifyContext fun c => { c with symbols := target }) :=
    fun _ => .ofModify (fun _ _ => rfl) fun _ h => h
  refine scopes.bind fun a => context_bind (fun _ _ => rfl) fun c => ?_
  exact (forIn _ _ _ fun table _ => (onWorld (World.remove_isUnread table)).bind fun _ =>
    pure _).bind fun _ => hgo

theorem publishVariable (scope : String) (package : Ref .package) (name : String) (v : Value) :
    IsCleaning (Exec.publishVariable scope package name v) := by
  refine (onWorld (World.note_isUnread _ _)).bind fun _ => heap.bind fun _ => ?_
  split
  · exact (storeIn _ _ _).bind fun _ => heap.bind fun _ => onHeap _
  · exact heap.bind fun _ => onHeap _

theorem findPackage (name : String) (first second : TableId) :
    IsCleaning (Exec.findPackage name first second) := by
  refine scopes.bind fun a => ?_
  dsimp only
  split <;> exact pure _

theorem publishPackages (stop : TableId) : IsCleaning (Exec.publishPackages stop) := by
  refine scopes.bind fun a => context_bind (fun _ _ => rfl) fun c => ?_
  refine (forIn _ _ _ fun table _ => ite ?_ (pure _)).bind fun _ => pure _
  refine (findPackage _ _ _).bind fun found => ?_
  split
  · refine scopes.bind fun _ => (forIn _ _ _ fun p _ => ?_).bind fun _ => pure _
    exact ite ((publishVariable _ _ _ _).bind fun _ => pure _) (pure _)
  · exact pure _

/-! ### On two machines -/

variable {act : Exec α} {m n : Machine}

/-- What a cleaning action does on one machine it does on another one that agrees with it. -/
theorem outcome_eq (h : IsCleaning act) (hworld : m.world.Agrees n.world)
    (hsymbols : n.context.symbols = m.context.symbols) (hloops : n.context.loops = m.context.loops) :
    ∃ r left, outcome act m = (r, m.cleaned left) ∧ outcome act n = (r, n.cleaned left) := by
  have hn : n.cleaned { m with world := m.world.hushed } = n := by
    unfold Machine.cleaned
    dsimp only
    rw [show m.world.hushed = n.world.hushed from hworld, World.after_hushed, ← hsymbols, ← hloops]
  have hhere := (h m { m with world := m.world.hushed } trivial).1
  have hthere := (h n { m with world := m.world.hushed } trivial).1
  rw [m.cleaned_self] at hhere
  rw [hn] at hthere
  exact ⟨_, _, hhere, hthere⟩

end IsCleaning

end Exec

/-- Machines that are cleaned in the same way stay paired. -/
theorem Machine.Paired.cleaned {K : Pairing} {T : Prop} {m n : Machine} (p : m.Paired K T n)
    (left : Machine) : (m.cleaned left).Paired K T (n.cleaned left) := by
  refine ⟨rfl, ?_, p.suspended, p.ended_eq, p.tasks_eq, p.tasks_eq'⟩
  exact p.context.change (f := fun c => { c with
    symbols := left.context.symbols, loops := left.context.loops }) (fun _ _ _ _ _ _ => rfl) fun _ => rfl

namespace Exec

variable {α β : Type} {K : Pairing} {T T' : Prop}

end Exec

/-! ### Leaving a function -/

theorem World.Agrees.hiddenLive {w w' : World} (h : w.Agrees w') (hlive : w.HiddenLive) :
    w'.HiddenLive := by
  unfold World.HiddenLive at hlive ⊢
  rw [h.heap_eq, h.scopes_eq]
  exact hlive

/-- Paired contexts turn back to callers that are paired. -/
theorem Context.Paired.resumed {K : Pairing} {T : Prop} {c e : Context} (p : c.Paired K T e)
    {below below' values : Array Slot} {f g : Frame}
    (hlower : c.lower = (below ++ values).push (.frame f))
    (hlower' : e.lower = (below' ++ values).push (.frame g)) (hframe : f.Paired K g)
    (hfp : f.fp = below.size) (hsize : below'.size = below.size) (hvalues : OnlyValues values) :
    (({ c with stack := below ++ values } : Context).resumed f).Paired K True
      (({ e with stack := below' ++ values } : Context).resumed g) := by
  have hfp' : g.fp = below'.size := by
    rw [hframe.same, hsize]
    exact hfp
  have hoperands : ∀ (d : Context) {xs : Array Slot} {x : Frame}, x.fp = xs.size →
      (({ d with stack := xs ++ values } : Context).resumed x).operands = values := by
    intro d xs x hx
    show (xs ++ values).extract x.fp (xs ++ values).size = values
    rw [hx, Array.extract_append]
    simp
  have hcut : ∀ (d : Context) {xs : Array Slot} {x : Frame}, x.fp = xs.size →
      (({ d with stack := xs ++ values } : Context).resumed x).lower = xs := by
    intro d xs x hx
    show (xs ++ values).extract 0 x.fp = xs
    rw [hx, Array.extract_append]
    simp
  have hle : ∀ {xs : Array Slot} {x : Frame}, x.fp = xs.size → x.fp ≤ (xs ++ values).size := by
    intro xs x hx
    rw [hx, Array.size_append]
    exact Nat.le_add_right _ _
  refine ⟨?_, K.name_eq hframe.meets, ⟨hle hfp, ?_⟩, hle hfp', ?_, ?_, fun _ => hframe.meets,
    p.allowance_eq, p.allowance_eq'⟩
  · generalize e.handlers.filter (fun h => decide (h.fp ≤ g.fp)) = own
    rw [hframe.same, p.same]
    rfl
  · rw [hoperands c hfp]
    exact hvalues
  · rw [hoperands c hfp, hoperands e hfp']
  · rw [hcut c hfp, hcut e hfp']
    show PairedBelow K below below' f.code g.code (c.handlers.filter fun h => h.fp ≤ f.fp)
      (e.handlers.filter fun h => h.fp ≤ g.fp)
    rw [show g.fp = f.fp by rw [hframe.same]]
    exact (p.below.caller hlower hlower' hfp hsize).1

namespace Exec

variable {K : Pairing} {T : Prop}

/-- What is done about scopes and loops between the frame and its caller. -/
def leaveScopes (f : Frame) : Exec Unit := do
  publishPackages f.symbols
  dropScopesTo f.symbols
  endLoopsTo f.loopDepth

/-- What is done once the state of the caller is back. -/
def announceReturn (f : Frame) : Exec Unit := do
  storeIn .root "__extensions" (.bool f.extensions)
  modifyContext fun c => { c with frameDepth := c.frameDepth - 1 }
  observe (.ret (← context).frameDepth)
  let c ← context
  noteThread .symbol fun _ => s!"pop call frame {f.name}, resume {c.code.name} at {c.pc}"

theorem restoreCaller_eq (f : Frame) : restoreCaller f = (do
    leaveScopes f
    modifyContext fun c => c.resumed f
    announceReturn f) := by
  simp only [restoreCaller, leaveScopes, announceReturn, bind_assoc]

theorem outcome_restoreFrame_eq {m : Machine} {below : Array Slot} {f : Frame}
    (hfp : 0 < m.context.fp) (hlower : m.context.lower = below.push (.frame f)) :
    outcome restoreFrame m = outcome (do
      leaveScopes f
      modifyContext fun c => c.resumed f
      announceReturn f) (m.withStack below) := by
  rw [restoreFrame_eq, outcome_bind_ok (outcome_takeFrame hlower hfp), restoreCaller_eq]
  rfl

theorem IsCleaning.leaveScopes (f : Frame) : IsCleaning (Exec.leaveScopes f) :=
  (publishPackages _).bind fun _ => (dropScopesTo _).bind fun _ => endLoopsTo _

theorem Pairs.announceReturn {f g : Frame} (h : f.Paired K g) :
    Pairs K T T (Exec.announceReturn f) (Exec.announceReturn g) := by
  have hextensions : g.extensions = f.extensions := by rw [h.same]
  unfold Exec.announceReturn
  rw [hextensions]
  exact (storeIn _ _ _).bind fun _ => bind (adjust (fun _ _ _ _ _ _ => rfl) fun _ => rfl) fun _ =>
    read_bind (fun _ _ _ _ _ _ => rfl) fun _ => (observe _ _).bind fun _ =>
      context_bind fun _ _ _ => noteThread _ _ _

/-- Once scopes and loops are cleaned up, leaving a function turns back to the caller. -/
theorem outcome_restoreFrame_of_cleaned {m : Machine} {stack : Array Slot} {f : Frame}
    {left : Machine} (hpos : 0 < m.context.fp) (hlower : m.context.lower = stack.push (.frame f))
    (hleave : outcome (leaveScopes f) (m.withStack stack)
      = (.ok (), (m.withStack stack).cleaned left)) :
    outcome restoreFrame m = outcome (do
      modifyContext fun c => ({ c with stack } : Context).resumed f
      announceReturn f) (m.cleaned left) := by
  rw [outcome_restoreFrame_eq hpos hlower, outcome_bind_ok hleave]
  rfl

/-- **Paired machines leave a function** for callers that are paired; handlers of the callers remain
as they were. -/
theorem restoreFrame_paired {m n : Machine} (p : m.Paired K T n) (hpos : 0 < m.context.fp)
    (hsound : m.world.scopes.Sound) (hlive : (outcome restoreFrame m).2.HiddenLive) :
    ∃ m' n', outcome restoreFrame m = (.ok (), m') ∧ outcome restoreFrame n = (.ok (), n') ∧
      m'.Paired K True n' ∧ m'.context.fp < m.context.fp ∧
      ∀ {h k : Handler} {outer outer' : List Handler},
        PairedBelow K m.context.lower n.context.lower m.context.code n.context.code (h :: outer)
          (k :: outer') → h.fp < m.context.fp →
        PairedBelow K m'.context.lower n'.context.lower m'.context.code n'.context.code (h :: outer)
          (k :: outer') := by
  have hlower_size := Context.size_lower p.context.grounded.fp_le
  obtain ⟨below, below', values, f, g, hlower, hlower', hframe, hfp, hsize, hvalues⟩ :=
    p.context.below.frame (by rw [hlower_size]; exact hpos)
  have hlive₀ : m.HiddenLive := (IsFading.restoreFrame m).hiddenLive hlive
  have hpos' : 0 < n.context.fp := by
    rw [p.context.fp_eq]
    exact hpos
  -- What both machines come to, but for worlds, loops and observers.
  obtain ⟨w, loops, observer, hm, -⟩ := outcome_restoreFrame hlower hpos hsound hlive₀
  obtain ⟨w', loops', observer', hn, -⟩ := outcome_restoreFrame hlower' hpos'
    (by rw [p.world.scopes_eq]; exact hsound) (p.world.hiddenLive hlive₀)
  -- Both do the same about scopes and loops, and then turn back to callers that are paired.
  obtain ⟨r, left, hleave, hleave'⟩ := (IsCleaning.leaveScopes f).outcome_eq
    (m := m.withStack (below ++ values)) (n := n.withStack (below' ++ values)) p.world
    (by show n.context.symbols = m.context.symbols; rw [p.context.same])
    (by show n.context.loops = m.context.loops; rw [p.context.same])
  have hsame : leaveScopes f = leaveScopes g := by
    rw [hframe.same]
    rfl
  rw [hsame] at hleave'
  cases r with
  | error e =>
    rw [outcome_restoreFrame_eq hpos hlower, outcome_bind_error hleave] at hm
    cases hm
  | ok u =>
    have p' := p.cleaned left
    have hturn : PairsAt K True
        (modifyContext fun c => ({ c with stack := below ++ values } : Context).resumed f)
        (modifyContext fun c => ({ c with stack := below' ++ values } : Context).resumed g)
        (m.cleaned left) (n.cleaned left) :=
      .modifyContext p' (p'.context.resumed hlower hlower' hframe hfp hsize hvalues)
    have hpairs := hturn.bind fun _ m₁ n₁ _ _ p₁ => Pairs.announceReturn hframe m₁ n₁ p₁
    have hpaired := (hpairs.congr (outcome_restoreFrame_of_cleaned hpos hlower hleave)
      (outcome_restoreFrame_of_cleaned hpos' hlower' hleave')).paired
    rw [hm, hn] at hpaired
    have hcut : ∀ {xs : Array Slot} {x : Frame}, x.fp = xs.size →
        (xs ++ values).extract 0 x.fp = xs := by
      intro xs x hx
      rw [hx, Array.extract_append]
      simp
    have hfp' : g.fp = below'.size := by
      rw [hframe.same, hsize]
      exact hfp
    refine ⟨_, _, hm, hn, hpaired.weaken fun _ => ⟨trivial, rfl⟩, ?_, fun {h k outer outer'} hbelow hlt => ?_⟩
    · show f.fp < m.context.fp
      rw [← hlower_size, hlower, Array.size_push, Array.size_append, hfp]
      omega
    · show PairedBelow K ((below ++ values).extract 0 f.fp) ((below' ++ values).extract 0 g.fp) f.code
        g.code (h :: outer) (k :: outer')
      rw [hcut hfp, hcut hfp']
      exact hbelow.caller_of_lt hlower hlower' hfp hsize (by rw [hlower_size]; exact hlt)

end Exec

/-! ### Other operands -/

namespace Context.Paired

variable {K : Pairing} {T : Prop} {c e : Context} {xs : Array Slot}

/-- The results may be others. -/
theorem withResult (p : c.Paired K T e) (result : Option Value) :
    ({ c with result } : Context).Paired K T { e with result } :=
  p.change (f := fun c => { c with result }) (fun _ _ _ _ _ _ => rfl) fun _ => rfl

/-- The operands may be others. -/
theorem restack (p : c.Paired K T e) (hxs : OnlyValues xs) :
    ({ c with stack := c.lower ++ xs } : Context).Paired K T { e with stack := e.lower ++ xs } := by
  have hle := p.grounded.fp_le
  have hle' := p.fp_le
  have hbelow := p.below
  have hlower : ({ c with stack := c.lower ++ xs } : Context).lower = c.lower := lower_of_stack_eq hle
  have hlower' : ({ e with stack := e.lower ++ xs } : Context).lower = e.lower := lower_of_stack_eq hle'
  rw [← hlower, ← hlower'] at hbelow
  refine ⟨?_, p.name_eq, ⟨?_, ?_⟩, ?_, ?_, hbelow, p.meets, p.allowance_eq, p.allowance_eq'⟩
  · generalize e.lower ++ xs = stack
    rw [p.same]
  · show c.fp ≤ (c.lower ++ xs).size
    rw [Array.size_append, size_lower hle]
    exact Nat.le_add_right _ _
  · rw [operands_of_stack_eq hle]
    exact hxs
  · show e.fp ≤ (e.lower ++ xs).size
    rw [Array.size_append, size_lower hle']
    exact Nat.le_add_right _ _
  · rw [operands_of_stack_eq hle, operands_of_stack_eq hle']

/-- Values may be put on top. -/
theorem append (p : c.Paired K T e) (hxs : OnlyValues xs) :
    ({ c with stack := c.stack ++ xs } : Context).Paired K T { e with stack := e.stack ++ xs } := by
  have hall := p.restack (p.grounded.values.append hxs)
  rw [← Array.append_assoc, ← Array.append_assoc, lower_append_operands p.grounded.fp_le,
    ← p.stack_eq] at hall
  exact hall

/-- Operands may be cut off. -/
theorem truncate (p : c.Paired K T e) {size : Nat} (hsize : c.fp ≤ size) :
    ({ c with stack := c.stack.extract 0 size } : Context).Paired K T
      { e with stack := e.stack.extract 0 size } := by
  have hcut : ∀ {d : Context}, d.fp ≤ d.stack.size → d.fp ≤ size →
      d.stack.extract 0 size = d.lower ++ d.operands.extract 0 (size - d.fp) := by
    intro d hd hle
    conv_lhs => rw [← lower_append_operands hd]
    rw [Array.extract_append, size_lower hd, Array.extract_eq_self_of_le]
    · simp
    · rw [size_lower hd]
      exact hle
  have hcut' := hcut p.fp_le (by rw [p.fp_eq]; exact hsize)
  rw [p.operands_eq, p.fp_eq] at hcut'
  have hall := p.restack (p.grounded.values.extract 0 (size - c.fp))
  rw [← hcut p.grounded.fp_le hsize, ← hcut'] at hall
  exact hall

/-- All operands and the result may go. -/
theorem cleared (p : c.Paired K T e) :
    ({ c with stack := c.stack.extract 0 c.fp, result := none } : Context).Paired K T
      { e with stack := e.stack.extract 0 e.fp, result := none } := by
  have hall := (p.restack .empty).withResult none
  rw [Array.append_empty, Array.append_empty] at hall
  exact hall

end Context.Paired

namespace Exec

variable {K : Pairing} {T : Prop} {m n : Machine}

/-! ### Returns and faults -/

/-- **Returns** of paired machines. -/
theorem PairsAt.popFrame (p : m.Paired K T n) (hsound : m.world.scopes.Sound)
    (hlive : (outcome Exec.popFrame m).2.HiddenLive) :
    PairsAt K True Exec.popFrame Exec.popFrame m n := by
  refine .context_bind ?_
  rw [Exec.popFrame, outcome_bind_ok (outcome_context m)] at hlive
  dsimp only at hlive ⊢
  rw [p.context.fp_eq, p.context.size_stack_eq, p.context.operands_eq,
    show n.context.result = m.context.result by rw [p.context.same]]
  split at hlive
  · rename_i hnone
    rw [if_pos hnone]
    exact Pairs.fail _ m n p
  · rename_i hsome
    rw [if_neg hsome]
    have p₁ : Machine.Paired K T { m with context := { m.context with
          stack := m.context.stack.extract 0 m.context.fp, result := none } }
        { n with context := { n.context with
          stack := n.context.stack.extract 0 n.context.fp, result := none } } :=
      { p with context := p.context.cleared }
    have hpos : 0 < m.context.fp := by omega
    rw [outcome_bind_ok (outcome_modifyContext _ m)] at hlive
    have hlive₁ := hiddenLive_of_bind (fun _ => Keeps.ite (by
      cases m.context.result with
      | none => exact IsFading.pure _
      | some v => exact IsFading.modifyContext _) (IsFading.modifyContext _)) hlive
    obtain ⟨m₂, n₂, hm₂, hn₂, p₂, -⟩ := restoreFrame_paired p₁ hpos hsound hlive₁
    refine PairsAt.congr ?_ ((outcome_bind_ok (outcome_modifyContext _ m)).trans
      (outcome_bind_ok hm₂)) ((outcome_bind_ok (outcome_modifyContext _ n)).trans (outcome_bind_ok hn₂))
    split
    · cases m.context.result with
      | none => exact Pairs.pure () m₂ n₂ p₂
      | some v => exact Pairs.push v m₂ n₂ p₂
    · exact .modifyContext p₂ (p₂.context.append p.context.grounded.values)

/-- Functions of paired machines that a fault ended are left, down to a place in the stack. -/
theorem unwindTo_paired {fp fuel : Nat} (p : m.Paired K T n) (hfuel : m.context.fp ≤ fuel)
    (hsound : m.world.scopes.Sound) (hlive : (outcome (unwindTo fp fuel) m).2.HiddenLive) :
    ∃ m' n', outcome (unwindTo fp fuel) m = (.ok (), m') ∧ outcome (unwindTo fp fuel) n = (.ok (), n') ∧
      m'.Paired K T n' ∧ m'.context.fp ≤ fp ∧
      ∀ {h k : Handler} {outer outer' : List Handler},
        PairedBelow K m.context.lower n.context.lower m.context.code n.context.code (h :: outer)
          (k :: outer') → h.fp ≤ fp →
        PairedBelow K m'.context.lower n'.context.lower m'.context.code n'.context.code (h :: outer)
          (k :: outer') := by
  induction fuel generalizing m n with
  | zero => exact ⟨m, n, rfl, rfl, p, by omega, fun hbelow _ => hbelow⟩
  | succ fuel ih =>
    rw [unwindTo, outcome_bind_ok (outcome_context m)] at hlive ⊢
    rw [outcome_bind_ok (outcome_context n), p.context.fp_eq]
    by_cases hlt : fp < m.context.fp
    · rw [if_pos hlt] at hlive ⊢
      have hlive₁ := hiddenLive_of_bind (fun _ => IsFading.unwindTo fp fuel) hlive
      have p₀ : Machine.Paired K T { m with context := { m.context with result := none } }
          { n with context := { n.context with result := none } } :=
        { p with context := p.context.withResult none }
      obtain ⟨m₁, n₁, hm₁, hn₁, p₁, hdown, hkeep₁⟩ := restoreFrame_paired p₀
        (by show 0 < m.context.fp; omega) hsound hlive₁
      have hfirst : outcome unwindFrame m = (.ok (), m₁) := hm₁
      have hfirst' : outcome unwindFrame n = (.ok (), n₁) := hn₁
      have hsound₁ := (IsFading.unwindFrame m).sound hsound
      rw [hfirst] at hsound₁
      rw [outcome_bind_ok hfirst] at hlive ⊢
      rw [outcome_bind_ok hfirst']
      have hdown' : m₁.context.fp < m.context.fp := hdown
      obtain ⟨m₂, n₂, hm₂, hn₂, p₂, hle, hkeep₂⟩ :=
        ih (p₁.weaken fun _ => trivial) (by omega) hsound₁ hlive
      exact ⟨m₂, n₂, hm₂, hn₂, p₂, hle, fun hbelow hfp =>
        hkeep₂ (hkeep₁ hbelow (Nat.lt_of_le_of_lt hfp hlt)) hfp⟩
    · rw [if_neg hlt] at hlive ⊢
      exact ⟨m, n, rfl, rfl, p, by omega, fun hbelow _ => hbelow⟩

end Exec

end ScriptMachine
