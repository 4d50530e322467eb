import ScriptMachine.Machine.Step
import ScriptMachine.Proofs.Layout.Pairs

/-!
# Actions on pairs of machines

Actions that do the same on paired machines and leave them paired. Actions that do not depend on the
place in code do so as they are; notes and what an observer is told may differ.

* `Exec.IsAloof`: an action does the same at every place in code, whatever the journal holds;
  `IsPlain.isAloof`: so do plain actions without branches.
* `Exec.Pairs`: two actions have the same result on paired machines, and leave them paired.
* `Pairs.ofLocal`: local actions that are aloof pair with themselves.
* `Exec.IsNoting`: an action writes notes and tells the observer of something; `Pairs.ofNoting`.
-/

namespace ScriptMachine

/-- The machine at another place in code, after other events. -/
def Machine.moved (code : Code) (pc : Nat) (events : Array Event) (m : Machine) : Machine :=
  { m.placed code pc with world := m.world.after events }

namespace Exec

variable {α β : Type}

/-! ### Aloof actions -/

/-- An action does the same at every place in code, whatever the journal holds. -/
def IsAloof (act : Exec α) : Prop :=
  ∀ code pc events, Respects (Machine.moved code pc events) (fun _ => True) act

namespace IsAloof

theorem pure (a : α) : IsAloof (Pure.pure a) := fun _ _ _ => .pure a

theorem throw (h : Halt) : IsAloof (MonadExcept.throw h : Exec α) := fun _ _ _ => .throw h

theorem fail (f : Fault) : IsAloof (Exec.fail f : Exec α) := throw (.fault f)

theorem bind {act : Exec α} {next : α → Exec β} (hact : IsAloof act)
    (hnext : ∀ a, IsAloof (next a)) : IsAloof (act >>= next) :=
  fun code pc events => (hact code pc events).bind fun a => hnext a code pc events

theorem ite {p : Prop} [Decidable p] {yes no : Exec α} (hyes : IsAloof yes) (hno : IsAloof no) :
    IsAloof (if p then yes else no) := by
  split
  · exact hyes
  · exact hno

theorem lift (r : Except Fault α) : IsAloof (liftM r : Exec α) := by
  cases r with
  | error f => exact throw (.fault f)
  | ok a => exact pure a

/-- Reading parts of the machine that the place in code and the events of the journal are not. -/
theorem get_bind {next : Machine → Exec β}
    (hread : ∀ m code pc events, next (Machine.moved code pc events m) = next m)
    (hnext : ∀ m, IsAloof (next m)) : IsAloof (get >>= next) :=
  fun code pc events => Respects.get_bind (fun m => hread m code pc events) fun m =>
    hnext m code pc events

theorem context_bind {next : Context → Exec β}
    (hread : ∀ c code pc, next (Context.placed c code pc) = next c)
    (hnext : ∀ c, IsAloof (next c)) : IsAloof (context >>= next) := by
  have hget : (context >>= next) = (get >>= fun m => next m.context) := rfl
  rw [hget]
  exact get_bind (fun m code pc _ => hread m.context code pc) fun m => hnext m.context

theorem ofModify {f : Machine → Machine}
    (hcomm : ∀ m code pc events, f (Machine.moved code pc events m)
      = Machine.moved code pc events (f m)) : IsAloof (modify f) :=
  fun code pc events => .ofModify (fun m _ => hcomm m code pc events) fun _ h => h

theorem modifyContext {f : Context → Context}
    (hcomm : ∀ c code pc, f (Context.placed c code pc) = (f c).placed code pc) :
    IsAloof (Exec.modifyContext f) :=
  ofModify fun m code pc _ => by
    simp only [Machine.moved, Machine.placed, hcomm]

theorem onWorld {act : WorldM α} (h : act.IsUnread) : IsAloof (Exec.onWorld act) := by
  intro code pc events m _
  refine ⟨?_, trivial⟩
  rw [outcome_onWorld, outcome_onWorld]
  show (Except.ok (act.run (m.world.after events)).1, _) = _
  rw [h events m.world]
  show (_, { m.placed code pc with world := (act.run (m.world.after events)).2 }) = _
  rw [h events m.world]
  rfl

theorem scopes : IsAloof Exec.scopes := get_bind (fun _ _ _ _ => rfl) fun _ => pure _

theorem setScopes (a : Arena) : IsAloof (Exec.setScopes a) := ofModify fun _ _ _ _ => rfl

theorem pop : IsAloof Exec.pop := by
  refine get_bind (fun _ _ _ _ => rfl) fun m => ite (fail _) ?_
  split
  · exact bind (modifyContext fun _ _ _ => rfl) fun _ => pure _
  · exact fail _

theorem peek : IsAloof Exec.peek := by
  refine context_bind (fun _ _ _ => rfl) fun c => ite (fail _) ?_
  split
  · exact pure _
  · exact fail _

theorem popArgs (count : Nat) : IsAloof (Exec.popArgs count) :=
  context_bind (fun _ _ _ => rfl) fun _ => ite (fail _)
    (bind (modifyContext fun _ _ _ => rfl) fun _ => ite (fail _) (pure _))

theorem dropToMarker : IsAloof Exec.dropToMarker := by
  refine context_bind (fun _ _ _ => rfl) fun c => ?_
  induction c.stack.size with
  | zero => exact pure ()
  | succ steps ih =>
    exact context_bind (fun _ _ _ => rfl) fun _ => ite (pop.bind fun _ => ite ih (pure _)) (pure _)

end IsAloof

/-- What reads neither the debugger nor the events under a veil does not read the events. -/
theorem eq_of_veiled {γ : Type} {next : Machine → γ} (hveil : ∀ m k, next (m.veiled k) = next m)
    (m : Machine) (events : Array Event) : next { m with world := m.world.after events } = next m := by
  have hsame : ({ m with world := m.world.after events } : Machine).veiled ⟨#[], false⟩
      = m.veiled ⟨events, false⟩ := by
    simp only [Machine.veiled, World.after, Array.empty_append]
    rfl
  rw [← hveil _ ⟨#[], false⟩, hsame, hveil]

/-- **Plain actions without branches are aloof.** -/
theorem IsPlain.isAloof {act : Exec α} (h : IsPlain True False act) : IsAloof act := by
  induction h with
  | pure a => exact .pure a
  | throw _ => exact .throw _
  | bind _ _ ihact ihnext => exact .bind ihact ihnext
  | get_bind _ hveil hplace _ ih =>
    refine .get_bind (fun m code pc events => ?_) ih
    exact (eq_of_veiled hveil (m.placed code pc) events).trans (hplace m code pc)
  | push v => exact .modifyContext fun _ _ _ => rfl
  | pop => exact .pop
  | peek => exact .peek
  | popArgs count => exact .popArgs count
  | dropToMarker => exact .dropToMarker
  | write text => exact .modifyContext fun _ _ _ => rfl
  | onWorld h => exact .onWorld h.unread
  | attempt toHalt h _ =>
    refine (IsAloof.onWorld h.unread).bind fun r => ?_
    cases r with
    | ok a => exact .pure a
    | error e => exact .throw (toHalt e)
  | store _ name v =>
    refine .context_bind (fun _ _ _ => rfl) fun c =>
      .bind (.onWorld (World.assign_isUnread c.symbols name v)) fun r => ?_
    cases r with
    | ok u => exact .pure u
    | error f => exact .fail f
  | changeScopes _ write _ =>
    exact IsAloof.scopes.bind fun a => (IsAloof.lift _).bind fun b => .setScopes b
  | adjust _ _ _ hplace => exact .modifyContext hplace
  | branchTarget hB => exact hB.elim
  | goTo hB => exact hB.elim

/-- Executing an instruction that works on operands and shared state alone, and does not branch, is
aloof. -/
theorem execute_isAloof {i : Instruction} (h : i.op.isLocal = true) (hbranch : i.op.isBranch = false) :
    IsAloof (execute i) :=
  (execute_isPlain h (fun _ => trivial) fun htrue => by
    rw [hbranch] at htrue
    cases htrue).isAloof

/-! ### Pairs of actions -/

/-- Two actions have the same result on two machines and leave them paired: at places that
correspond if `T'` holds and they complete. -/
structure PairsAt (K : Pairing) (T' : Prop) (act act' : Exec α) (m n : Machine) : Prop where
  result_eq : (outcome act' n).1 = (outcome act m).1
  paired : (outcome act m).2.Paired K (T' ∧ (outcome act m).1.isOk = true) (outcome act' n).2

/-- The same on all paired machines. -/
def Pairs (K : Pairing) (T T' : Prop) (act act' : Exec α) : Prop :=
  ∀ m n : Machine, m.Paired K T n → PairsAt K T' act act' m n

namespace PairsAt

variable {K : Pairing} {T' T'' : Prop} {m n : Machine}

theorem of_eq {act act' : Exec α} {r : Except Halt α} {m' n' : Machine}
    (h : outcome act m = (r, m')) (h' : outcome act' n = (r, n'))
    (p : m'.Paired K (T' ∧ r.isOk = true) n') : PairsAt K T' act act' m n := by
  constructor <;> rw [h, h']
  exact p

/-- Less is said about the places. -/
theorem imp {act act' : Exec α} (h : PairsAt K T' act act' m n) (himp : T'' → T') :
    PairsAt K T'' act act' m n :=
  ⟨h.result_eq, h.paired.weaken fun hcompletes => ⟨himp hcompletes.1, hcompletes.2⟩⟩

/-- Actions that come to what paired ones come to. -/
theorem congr {act act' first second : Exec α} {m' n' : Machine}
    (h : PairsAt K T' act act' m' n') (hfirst : outcome first m = outcome act m')
    (hsecond : outcome second n = outcome act' n') : PairsAt K T' first second m n := by
  constructor <;> rw [hfirst, hsecond]
  · exact h.result_eq
  · exact h.paired

/-- Reading the contexts. -/
theorem context_bind {next next' : Context → Exec β}
    (h : PairsAt K T' (next m.context) (next' n.context) m n) :
    PairsAt K T' (context >>= next) (context >>= next') m n := ⟨h.result_eq, h.paired⟩

/-- Reading the machines. -/
theorem get_bind {next next' : Machine → Exec β} (h : PairsAt K T' (next m) (next' n) m n) :
    PairsAt K T' (get >>= next) (get >>= next') m n := ⟨h.result_eq, h.paired⟩

/-- Changing the contexts. -/
theorem modifyContext {f f' : Context → Context} {T : Prop} (p : m.Paired K T n)
    (h : (f m.context).Paired K T' (f' n.context)) :
    PairsAt K T' (Exec.modifyContext f) (Exec.modifyContext f') m n :=
  ⟨rfl, { p with context := h.weaken And.left }⟩

/-- What follows happens on the machines that the first parts leave. -/
theorem bind {act act' : Exec α} {next next' : α → Exec β} (h : PairsAt K T' act act' m n)
    (hnext : ∀ a m' n', outcome act m = (.ok a, m') → outcome act' n = (.ok a, n') →
      m'.Paired K T' n' → PairsAt K T'' (next a) (next' a) m' n') :
    PairsAt K T'' (act >>= next) (act' >>= next') m n := by
  obtain ⟨hresult, hpaired⟩ := h
  rcases hout : outcome act m with ⟨r | a, m'⟩ <;> rcases hout' : outcome act' n with ⟨r' | a', n'⟩ <;>
    rw [hout, hout'] at hresult hpaired <;> cases hresult
  · have hfirst : outcome (act >>= next) m = (.error r, m') := outcome_bind_error hout
    have hsecond : outcome (act' >>= next') n = (.error r, n') := outcome_bind_error hout'
    refine ⟨by rw [hfirst, hsecond], ?_⟩
    rw [hfirst, hsecond]
    exact hpaired.weaken fun hcompletes => by cases hcompletes.2
  · obtain ⟨hlast, hleft⟩ := hnext a m' n' hout hout' (hpaired.weaken fun hT => ⟨hT, rfl⟩)
    have hfirst : outcome (act >>= next) m = outcome (next a) m' := outcome_bind_ok hout
    have hsecond : outcome (act' >>= next') n = outcome (next' a) n' := outcome_bind_ok hout'
    exact ⟨by rw [hfirst, hsecond, hlast], by rw [hfirst, hsecond]; exact hleft⟩

end PairsAt

namespace Pairs

variable {K : Pairing} {T T' T'' : Prop}

theorem pure (a : α) : Pairs K T T (Pure.pure a) (Pure.pure a) :=
  fun _ _ p => ⟨rfl, p.weaken And.left⟩

theorem throw (h : Halt) : Pairs K T T' (MonadExcept.throw h : Exec α) (MonadExcept.throw h) :=
  fun _ _ p => ⟨rfl, p.weaken fun hcompletes => by cases hcompletes.2⟩

theorem fail (f : Fault) : Pairs K T T' (Exec.fail f : Exec α) (Exec.fail f) := throw (.fault f)

theorem wait : Pairs K T T' (Exec.wait : Exec α) Exec.wait := throw .blocked

theorem bind {act act' : Exec α} {next next' : α → Exec β} (hact : Pairs K T T' act act')
    (hnext : ∀ a, Pairs K T' T'' (next a) (next' a)) :
    Pairs K T T'' (act >>= next) (act' >>= next') :=
  fun m n p => (hact m n p).bind fun a m' n' _ _ p' => hnext a m' n' p'

theorem ite {p : Prop} [Decidable p] {yes yes' no no' : Exec α} (hyes : Pairs K T T' yes yes')
    (hno : Pairs K T T' no no') : Pairs K T T' (if p then yes else no) (if p then yes' else no') := by
  split
  · exact hyes
  · exact hno

theorem lift (r : Except Fault α) : Pairs K T T (liftM r : Exec α) (liftM r) := by
  cases r with
  | error f => exact throw (.fault f)
  | ok a => exact pure a

theorem forIn {γ σ : Type} (xs : List γ) {body body' : γ → σ → Exec (ForInStep σ)} (init : σ)
    (hbody : ∀ x s, Pairs K T T (body x s) (body' x s)) :
    Pairs K T T (ForIn.forIn xs init body) (ForIn.forIn xs init body') := by
  induction xs generalizing init with
  | nil => exact pure init
  | cons x xs ih =>
    rw [List.forIn_cons, List.forIn_cons]
    refine bind (hbody x init) fun r => ?_
    cases r with
    | done s => exact pure s
    | yield s => exact ih s

/-- Reading the contexts. -/
theorem context_bind {next next' : Context → Exec β}
    (hnext : ∀ c e, c.Paired K T e → Pairs K T T' (next c) (next' e)) :
    Pairs K T T' (context >>= next) (context >>= next') := fun m n p =>
  .context_bind (hnext m.context n.context p.context m n p)

theorem heap : Pairs K T T Exec.heap Exec.heap := fun _ _ p =>
  ⟨congrArg Except.ok p.world.heap_eq, p.weaken And.left⟩

theorem scopes : Pairs K T T Exec.scopes Exec.scopes := fun _ _ p =>
  ⟨congrArg Except.ok p.world.scopes_eq, p.weaken And.left⟩

/-- Changes of the contexts. -/
theorem modifyContext {f f' : Context → Context}
    (h : ∀ c e, c.Paired K T e → (f c).Paired K T' (f' e)) :
    Pairs K T T' (Exec.modifyContext f) (Exec.modifyContext f') :=
  fun _ _ p => .modifyContext p (h _ _ p.context)

/-- Computations on the world that do not read the events of the journal. -/
theorem onWorld {act : WorldM α} (h : act.IsUnread) :
    Pairs K T T (Exec.onWorld act) (Exec.onWorld act) := by
  intro m n p
  obtain ⟨hresult, hagrees⟩ := p.world.run h
  refine ⟨congrArg Except.ok hresult, ?_⟩
  exact { p.weaken And.left with world := hagrees }

theorem onHeap (act : StateM Heap α) : Pairs K T T (Exec.onHeap act) (Exec.onHeap act) :=
  onWorld (World.onHeap_isUnread act)

theorem setScopes (a : Arena) : Pairs K T T (Exec.setScopes a) (Exec.setScopes a) :=
  fun _ _ p => ⟨rfl, { p.weaken And.left with
    world := congrArg (fun w : World => ({ w with scopes := a } : World)) p.world }⟩

end Pairs

end Exec

/-! ### Actions that do the same everywhere -/

/-- Paired machines have the same surroundings but for slots, handlers, observers and contexts that
wait. -/
theorem Machine.Paired.surroundings_eq {K : Pairing} {T : Prop} {m n : Machine}
    (p : m.Paired K T n) : n.surroundings = { m.surroundings with
      lower := n.context.lower
      handlers := n.context.handlers
      observer := n.context.observer
      suspended := n.suspended } := by
  have hended := p.ended_eq
  have htasks := p.tasks_eq'.trans p.tasks_eq.symm
  have hsame := p.context.same
  generalize n.context.code = code, n.context.pc = pc, n.context.stack = stack,
    n.context.handlers = handlers, n.context.observer = observer at hsame
  simp only [Machine.surroundings, hended, htasks, hsame]

/-- The second of two paired machines is the first one at another place in code, after other events
and in other surroundings. -/
theorem Machine.Paired.eq_moved {K : Pairing} {T : Prop} {m n : Machine} (p : m.Paired K T n) :
    n = (Machine.moved n.context.code n.context.pc n.world.journal.events
      { m with world := m.world.hushed }).within n.surroundings := by
  have hstack := p.context.stack_eq
  have hfp : m.context.fp = n.context.lower.size := by
    rw [Context.size_lower p.context.fp_le, p.context.fp_eq]
  have hcontext : n.context = (m.context.placed n.context.code n.context.pc).within
      n.surroundings := by
    rw [p.surroundings_eq]
    conv_lhs => rw [p.context.same, hstack, hfp]
    rfl
  have hworld : n.world = m.world.hushed.after n.world.journal.events := by
    rw [show m.world.hushed = n.world.hushed from p.world, World.after_hushed]
  conv_lhs => rw [show n = ⟨n.world, n.context, n.suspended, n.ended, n.tasks⟩ from rfl, hworld,
    hcontext]
  rfl

/-- A machine in the surroundings of the first of two paired machines is paired with itself, at the
places of the two, in the surroundings of the second. -/
theorem Machine.Paired.follow {K : Pairing} {T : Prop} {m n m' : Machine} (p : m.Paired K T n)
    (hsame : m'.surroundings = m.surroundings) (hground : m'.context.Grounded)
    (events events' : Array Event) :
    (m'.moved m.context.code m.context.pc events).Paired K T
      ((m'.moved n.context.code n.context.pc events').within n.surroundings) := by
  have hlower : m'.context.lower = m.context.lower := congrArg Surroundings.lower hsame
  have hhandlers : m'.context.handlers = m.context.handlers := congrArg Surroundings.handlers hsame
  have hobserver : m'.context.observer = m.context.observer := congrArg Surroundings.observer hsame
  have hfp : n.context.lower.size = m'.context.fp := by
    rw [Context.size_lower p.context.fp_le, p.context.fp_eq,
      ← Context.size_lower p.context.grounded.fp_le, ← hlower, Context.size_lower hground.fp_le]
  have hoperands := (m'.context.placed n.context.code n.context.pc).operands_within n.surroundings
  have hbelow := p.context.below
  rw [← hlower, ← hhandlers] at hbelow
  refine ⟨rfl, ⟨?_, p.context.name_eq, ⟨hground.fp_le, hground.values⟩, ?_, hoperands, ?_,
    p.context.meets, hobserver ▸ p.context.allowance_eq, p.context.allowance_eq'⟩, ?_, ?_, ?_,
    p.tasks_eq'⟩
  · show (m'.context.placed n.context.code n.context.pc).within n.surroundings = _
    rw [p.surroundings_eq, ← hsame]
    simp only [Context.within, Machine.surroundings, hfp]
    rfl
  · show n.context.lower.size ≤ (n.context.lower ++ _).size
    rw [Array.size_append]
    exact Nat.le_add_right _ _
  · have hlower' := (m'.context.placed n.context.code n.context.pc).lower_within n.surroundings
    show PairedBelow K m'.context.lower
      ((m'.context.placed n.context.code n.context.pc).within n.surroundings).lower _ _ _ _
    rw [hlower']
    exact hbelow
  · have hsuspended : m'.suspended = m.suspended := congrArg Surroundings.suspended hsame
    show List.Forall₂ _ m'.suspended n.suspended
    rw [hsuspended]
    exact p.suspended
  · exact p.ended_eq.trans (congrArg Surroundings.ended hsame).symm
  · exact (congrArg Surroundings.tasks hsame).trans p.tasks_eq

namespace Exec

variable {α β : Type} {K : Pairing} {T : Prop}

/-- **Local actions that are aloof** do the same on paired machines. -/
theorem Pairs.ofLocal {act : Exec α} (hlocal : IsLocal act) (haloof : IsAloof act) :
    Pairs K T T act act := by
  intro m n p
  -- Both machines are one machine at different places and in different surroundings.
  let base : Machine := { m with world := m.world.hushed }
  have hground : base.context.Grounded := p.context.grounded
  have hm : m = base.moved m.context.code m.context.pc m.world.journal.events := by
    show m = { m with world := m.world.hushed.after m.world.journal.events }
    rw [World.after_hushed]
  have hn := p.eq_moved
  have hground' : (base.moved n.context.code n.context.pc n.world.journal.events).context.Grounded :=
    ⟨hground.fp_le, hground.values⟩
  obtain ⟨hcomm, -⟩ := hlocal n.surroundings _ _ _ _ (Machine.settled_self hground')
  obtain ⟨hthere, -⟩ := haloof n.context.code n.context.pc n.world.journal.events base trivial
  obtain ⟨hhere, -⟩ := haloof m.context.code m.context.pc m.world.journal.events base trivial
  have hsame := hlocal.surroundings_eq hground
  have hbase := (hlocal n.surroundings _ _ _ base (Machine.settled_self hground)).2.grounded
  dsimp only at hcomm
  rw [hthere, ← hn] at hcomm
  rw [← hm] at hhere
  exact .of_eq hhere hcomm ((p.follow hsame hbase _ _).weaken And.left)

end Exec

/-! ### Notes -/

/-- Notes were written, and the observer was told of something. -/
structure Machine.Noted (m m' : Machine) : Prop where
  same : m' = { m with
    world := m'.world
    context := { m.context with observer := m'.context.observer } }
  agrees : m.world.Agrees m'.world
  allowance_eq : m'.context.observer.allowance = m.context.observer.allowance

instance : Std.Refl Machine.Noted := ⟨fun _ => ⟨rfl, rfl, rfl⟩⟩

instance : Trans Machine.Noted Machine.Noted Machine.Noted where
  trans hab hbc := ⟨by rw [hbc.same, hab.same], hab.agrees.trans hbc.agrees,
    hbc.allowance_eq.trans hab.allowance_eq⟩

/-- Notes do not come between paired machines. -/
theorem Machine.Paired.noted {K : Pairing} {T : Prop} {m m' n n' : Machine} (p : m.Paired K T n)
    (hm : m.Noted m') (hn : n.Noted n') : m'.Paired K T n' := by
  rw [hm.same, hn.same]
  refine ⟨(hm.agrees.symm.trans p.world).trans hn.agrees, ⟨?_, p.context.name_eq,
    ⟨p.context.grounded.fp_le, p.context.grounded.values⟩, p.context.fp_le, p.context.operands_eq,
    p.context.below, p.context.meets, hm.allowance_eq.trans p.context.allowance_eq,
    hn.allowance_eq.trans p.context.allowance_eq'⟩, p.suspended, p.ended_eq, p.tasks_eq, p.tasks_eq'⟩
  conv_lhs => rw [p.context.same]

namespace Exec

variable {K : Pairing} {T : Prop}

/-- An action that does no more than write notes and tell the observer of something. -/
structure IsNoting (act : Exec Unit) : Prop where
  completes : ∀ m, (outcome act m).1 = .ok ()
  keeps : Keeps Machine.Noted act

namespace IsNoting

theorem pure : IsNoting (Pure.pure ()) := ⟨fun _ => rfl, .pure ()⟩

theorem bind {act : Exec Unit} {next : Unit → Exec Unit} (hact : IsNoting act)
    (hnext : IsNoting (next ())) : IsNoting (act >>= next) :=
  ⟨fun m => by
    rw [outcome_bind_ok (Prod.ext (hact.completes m) rfl)]
    exact hnext.completes _, .bind hact.keeps fun _ => hnext.keeps⟩

theorem get_bind {next : Machine → Exec Unit} (hnext : ∀ m, IsNoting (next m)) :
    IsNoting (get >>= next) := ⟨fun m => (hnext m).completes m, fun m => (hnext m).keeps m⟩

theorem context_bind {next : Context → Exec Unit} (hnext : ∀ c, IsNoting (next c)) :
    IsNoting (context >>= next) :=
  ⟨fun m => (hnext m.context).completes m, fun m => (hnext m.context).keeps m⟩

theorem note (c : Category) (message : Unit → String) : IsNoting (Exec.note c message) :=
  ⟨fun _ => rfl, fun m => ⟨rfl, World.agrees_note c message m.world, rfl⟩⟩

theorem emit (c : Category) (message : String) : IsNoting (onWorld (World.emit c message)) :=
  ⟨fun _ => rfl, fun m => ⟨rfl, World.agrees_emit c message m.world, rfl⟩⟩

theorem noteThread (c : Category) (message : Unit → String) :
    IsNoting (Exec.noteThread c message) := by
  refine get_bind fun m => ?_
  split
  · exact note c _
  · exact pure

theorem observe (x : Happening) : IsNoting (Exec.observe x) := by
  have hcount : IsNoting (Exec.modifyContext fun c =>
      { c with observer := c.observer.observe x }) := ⟨fun _ => rfl, fun _ => ⟨rfl, rfl, rfl⟩⟩
  refine get_bind fun m => ?_
  dsimp only
  split
  · split
    · exact (note _ _).bind hcount
    · exact hcount
  · exact hcount

end IsNoting

/-- **Notes** may differ. -/
theorem Pairs.ofNoting {act act' : Exec Unit} (h : IsNoting act) (h' : IsNoting act') :
    Pairs K T T act act' := fun m n p =>
  ⟨(h'.completes n).trans (h.completes m).symm, (p.noted (h.keeps m) (h'.keeps n)).weaken And.left⟩

/-- When an instruction begins, a machine that may go on for any number of instructions moves on. -/
theorem begin_noted (i : Instruction) {m : Machine} (h : m.context.observer.allowance = none) :
    (outcome (begin i) m).1 = .ok () ∧
      (m.placed m.context.code (m.context.pc + 1)).Noted (outcome (begin i) m).2 := by
  have hobserve := IsNoting.observe (.instruction m.context.pc i.op m.context.stack.size)
  let begun : Machine := { m with context := { m.context with pc := m.context.pc + 1 } }
  have hdone := hobserve.completes begun
  have hnoted := hobserve.keeps begun
  rcases hout : outcome (observe (.instruction m.context.pc i.op m.context.stack.size))
    begun with ⟨r, m₁⟩
  rw [hout] at hdone hnoted
  cases hdone
  have hallowance : m₁.context.observer.allowance = none := hnoted.allowance_eq.trans h
  have hlast : m₁.context.observer.isLast = false := by rw [Observer.isLast, hallowance]; rfl
  have hspent : m₁.Noted { m₁ with context := { m₁.context with
      running := m₁.context.running && !m₁.context.observer.isLast
      observer := m₁.context.observer.spend } } := by
    rw [hlast, Bool.not_false, Bool.and_true]
    refine ⟨rfl, rfl, ?_⟩
    show m₁.context.observer.allowance.map (· - 1) = _
    rw [hallowance]
    rfl
  rw [begin, outcome_bind_ok (outcome_context m), outcome_bind_ok (outcome_modifyContext _ m),
    outcome_bind_ok (outcome_context _), outcome_bind_ok hout,
    outcome_bind_ok (outcome_modifyContext _ _), outcome_bind_ok (outcome_get _)]
  exact ⟨rfl, Trans.trans hnoted (Trans.trans hspent ((IsNoting.note _ _).keeps _))⟩

end Exec

/-! ### Reading and changing what paired machines have in common -/

/-- The context with another stack and other handlers, elsewhere in code, before another observer. -/
def Context.recast (c : Context) (code : Code) (pc : Nat) (stack : Array Slot)
    (handlers : List Handler) (observer : Observer) : Context :=
  { c with code, pc, stack, handlers, observer }

/-- What paired contexts have in common is changed in the same way. -/
theorem Context.Paired.change {K : Pairing} {T : Prop} {c e : Context} (p : c.Paired K T e)
    {f : Context → Context} (hcomm : ∀ c code pc stack handlers observer,
      f (c.recast code pc stack handlers observer) = (f c).recast code pc stack handlers observer)
    (hfp : ∀ c, (f c).fp = c.fp) : (f c).Paired K T (f e) := by
  have hself : f c = (f c).recast c.code c.pc c.stack c.handlers c.observer :=
    hcomm c c.code c.pc c.stack c.handlers c.observer
  have hsame : f e = (f c).recast e.code e.pc e.stack e.handlers e.observer := by
    rw [← hcomm]
    exact congrArg f p.same
  have hcode : (f c).code = c.code := by rw [hself]; rfl
  have hpc : (f c).pc = c.pc := by rw [hself]; rfl
  have hstack : (f c).stack = c.stack := by rw [hself]; rfl
  have hhandlers : (f c).handlers = c.handlers := by rw [hself]; rfl
  have hobserver : (f c).observer = c.observer := by rw [hself]; rfl
  have hlower : (f c).lower = c.lower := by rw [Context.lower, hstack, hfp c]; rfl
  have hoperands : (f c).operands = c.operands := by rw [Context.operands, hstack, hfp c]; rfl
  have hfp' : (f c).fp = e.fp := (hfp c).trans p.fp_eq.symm
  have hlower' : ((f c).recast e.code e.pc e.stack e.handlers e.observer).lower = e.lower :=
    congrArg (fun fp => e.stack.extract 0 fp) hfp'
  have hoperands' : ((f c).recast e.code e.pc e.stack e.handlers e.observer).operands
      = e.operands := congrArg (fun fp => e.stack.extract fp e.stack.size) hfp'
  rw [hsame]
  refine ⟨rfl, ?_, ⟨?_, ?_⟩, ?_, ?_, ?_, ?_, ?_, p.allowance_eq'⟩
  · rw [hcode]
    exact p.name_eq
  · rw [hfp, hstack]
    exact p.grounded.fp_le
  · rw [hoperands]
    exact p.grounded.values
  · show (f c).fp ≤ e.stack.size
    rw [hfp']
    exact p.fp_le
  · rw [hoperands', hoperands, p.operands_eq]
  · rw [hlower, hlower', hcode, hhandlers]
    exact p.below
  · rw [hcode, hpc]
    exact p.meets
  · rw [hobserver]
    exact p.allowance_eq

namespace Exec.Pairs

variable {α : Type} {K : Pairing} {T T' : Prop}

/-- Changes of what the contexts have in common. -/
theorem adjust {f : Context → Context} (hcomm : ∀ c code pc stack handlers observer,
      f (c.recast code pc stack handlers observer) = (f c).recast code pc stack handlers observer)
    (hfp : ∀ c, (f c).fp = c.fp) :
    Pairs K T T (Exec.modifyContext f) (Exec.modifyContext f) :=
  modifyContext fun _ _ p => p.change hcomm hfp

/-- Reading what the contexts have in common. -/
theorem read_bind {next next' : Context → Exec α}
    (hread : ∀ c code pc stack handlers observer,
      next' (c.recast code pc stack handlers observer) = next' c)
    (hnext : ∀ c, Pairs K T T' (next c) (next' c)) :
    Pairs K T T' (context >>= next) (context >>= next') := by
  refine context_bind fun c e p => ?_
  have hsame : next' e = next' c := (congrArg next' p.same).trans (hread c _ _ _ _ _)
  rw [hsame]
  exact hnext c

end Exec.Pairs

end ScriptMachine
