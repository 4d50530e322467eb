import ScriptMachine.Proofs.Deferred.Owing
import ScriptMachine.Proofs.Deferred.Returning

/-!
# What an activation does with deferred calls

An activation registers calls, returns, and runs the calls it owes; when one of them fails, so does
the return. A context that waits for a deferred call has lent its sink to the context of that call,
which may have lent it on, so what has been written for a context lies with the innermost of them.

* `Machine.sinkAt`: the sink of a context, wherever it is now.
* `Rises.sinkAt`, `Falls.sinkAt`, `step_sinkAt`: nothing of what was written is ever lost.
* `sinkAt_regained`: when the context goes on, it has its sink back.
* `Doing`, `Machine.doings`: what a step does.
* `Orderly`: what an activation does in order: every return runs calls that were registered last and
  have not run yet, in reverse order.
* `Machine.Acts`: the step is one of the activation; `owes_step_of_not_acts`, `owes_step_of_acts`:
  what an activation owes after it.
-/

/-! ### Where output goes -/

namespace ScriptMachine

/-- The sink of the first of these waiting contexts; the running one is the last of all. -/
def sinkFrom (running : Context) : List Suspended → Sink
  | [] => running.output
  | ⟨_, .deferred⟩ :: inner => sinkFrom running inner
  | ⟨c, .ordering ..⟩ :: _ => c.output

theorem sinkFrom_extends {c c' : Context} (h : c.output.Extends c'.output)
    (waiting : List Suspended) : (sinkFrom c waiting).Extends (sinkFrom c' waiting) := by
  induction waiting with
  | nil => exact h
  | cons s inner ih =>
    obtain ⟨outer, awaiting⟩ := s
    cases awaiting with
    | deferred => exact ih
    | ordering => exact .refl _

/-- The context of a deferred call writes to the sink that it was lent. -/
theorem sinkFrom_deferred {c c' outer : Context} (h : c'.output = c.output)
    (waiting : List Suspended) :
    sinkFrom c' (waiting ++ [⟨outer, .deferred⟩]) = sinkFrom c waiting := by
  induction waiting with
  | nil => exact h
  | cons s inner ih =>
    obtain ⟨outer', awaiting⟩ := s
    cases awaiting with
    | deferred => exact ih
    | ordering => rfl

/-- The context of a comparison does not. -/
theorem sinkFrom_ordering (c c' : Context) (r : Ref .array) (less : Value) (size i j : Nat)
    (waiting : List Suspended) :
    sinkFrom c' (waiting ++ [⟨c, .ordering r less size i j⟩]) = sinkFrom c waiting := by
  induction waiting with
  | nil => rfl
  | cons s inner ih =>
    obtain ⟨outer', awaiting⟩ := s
    cases awaiting with
    | deferred => exact ih
    | ordering => rfl

namespace Machine

/-- The sink of the context at a level: a deferred call that it waits for has it. -/
def sinkAt (k : Nat) (m : Machine) : Sink := sinkFrom m.context (m.suspended.reverse.drop k)

variable {m m' : Machine} {k : Nat}

theorem sinkAt_of_level (h : m.suspended.length ≤ k) : m.sinkAt k = m.context.output := by
  rw [sinkAt, List.drop_eq_nil_of_le (by rw [List.length_reverse]; exact h), sinkFrom]

/-- While a deferred call runs that the context has set going, it has the sink. -/
theorem sinkAt_of_deferred {c : Context} {rest : List Suspended}
    (h : m.suspended = ⟨c, .deferred⟩ :: rest) (hk : rest.length = k) :
    m.sinkAt k = m.context.output := by
  rw [sinkAt, h, List.reverse_cons, List.drop_append_of_le_length (by simp [hk]),
    List.drop_eq_nil_of_le (by simp [hk]), List.nil_append, sinkFrom, sinkFrom]

theorem drop_reverse_cons {s : Suspended} (h : m'.suspended = s :: m.suspended)
    (hk : k ≤ m.suspended.length) :
    m'.suspended.reverse.drop k = m.suspended.reverse.drop k ++ [s] := by
  rw [h, List.reverse_cons, List.drop_append_of_le_length (by rw [List.length_reverse]; exact hk)]

theorem sinkAt_extends (hsuspended : m'.suspended = m.suspended)
    (houtput : m.context.output.Extends m'.context.output) :
    (m.sinkAt k).Extends (m'.sinkAt k) := by
  rw [sinkAt, sinkAt, hsuspended]
  exact sinkFrom_extends houtput _

theorem Rise.sinkAt (h : m.Rise m') (hk : k ≤ m.suspended.length) :
    (m.sinkAt k).Extends (m'.sinkAt k) := by
  cases h with
  | works h => exact sinkAt_extends h.suspended_eq h.output
  | enters h =>
    refine sinkAt_extends h.suspended_eq ?_
    rw [h.output_eq]
    exact .refl _
  | asks h =>
    rw [Machine.sinkAt, Machine.sinkAt, drop_reverse_cons h.suspended_eq hk, sinkFrom_ordering]
    exact .refl _

theorem Rise.level_le (h : m.Rise m') : m.suspended.length ≤ m'.suspended.length := by
  cases h with
  | works h => rw [h.suspended_eq]
  | enters h => rw [h.suspended_eq]
  | asks h =>
    rw [h.suspended_eq]
    exact Nat.le_succ _

theorem Rises.sinkAt (h : m.Rises m') (hk : k ≤ m.suspended.length) :
    k ≤ m'.suspended.length ∧ (m.sinkAt k).Extends (m'.sinkAt k) := by
  induction h with
  | refl => exact ⟨hk, .refl _⟩
  | tail _ hrise ih => exact ⟨Nat.le_trans ih.1 hrise.level_le, ih.2.trans (hrise.sinkAt ih.1)⟩

theorem Falls.sinkAt (h : m.Falls m') : (m.sinkAt k).Extends (m'.sinkAt k) := by
  induction h with
  | refl => exact .refl _
  | tail _ hfall ih =>
    refine ih.trans ?_
    cases hfall with
    | drops h => exact sinkAt_extends h.suspended_eq h.output
    | quits h => exact sinkAt_extends h.suspended_eq h.output

/-- The context of a deferred call is lent the sink. -/
theorem SetsGoing.sinkAt {d : DeferredCall} {rest : List DeferredCall}
    (h : SetsGoing d rest m m') (hk : k ≤ m.suspended.length) : m'.sinkAt k = m.sinkAt k := by
  rw [Machine.sinkAt, Machine.sinkAt, drop_reverse_cons h.suspended_eq hk,
    sinkFrom_deferred h.output_eq]

/-- **A context that goes on has its sink back**, with all that was written to it. -/
theorem sinkAt_regained (hk : k ≤ m.ready.suspended.length) :
    m.regained.sinkAt k = m.sinkAt k := by
  cases hended : m.ended with
  | none => rw [regained_of_going hended]
  | some result =>
    cases hcases : m.suspended with
    | nil => rw [regained, ready, hended, hcases]
    | cons s rest =>
      obtain ⟨c, awaiting⟩ := s
      have hready : m.ready = { m with context := c, suspended := rest, ended := none } := by
        rw [ready, hended, hcases]
      rw [hready] at hk
      have hdrop : m.suspended.reverse.drop k = m.ready.suspended.reverse.drop k
          ++ [⟨c, awaiting⟩] :=
        drop_reverse_cons (by rw [hready]; exact hcases) (by rw [hready]; exact hk)
      rw [hready] at hdrop
      cases awaiting with
      | deferred =>
        have hback : m.context.output = Context.output { c with output := m.context.output } := rfl
        rw [regained_of_deferred hended hcases, sinkAt, sinkAt, hdrop]
        exact (sinkFrom_deferred hback _).symm
      | ordering =>
        rw [regained, hended, hcases, hready, sinkAt, sinkAt, hdrop, sinkFrom_ordering]

/-- **Nothing of what was written to a sink is lost** in a step. -/
theorem step_sinkAt (h : m.Layered) (hk : k ≤ m.ready.suspended.length) :
    (m.sinkAt k).Extends (m.step.1.sinkAt k) := by
  rw [← sinkAt_regained hk]
  rw [← regained_suspended] at hk
  cases step_treats h with
  | registers _ hworks heq =>
    rw [heq]
    exact sinkAt_extends hworks.suspended_eq hworks.output
  | launches _ hworks _ hgoing =>
    rw [hgoing.sinkAt (by rw [hworks.suspended_eq]; exact hk)]
    exact sinkAt_extends hworks.suspended_eq hworks.output
  | moves _ _ hrises hfalls => exact (hrises.sinkAt hk).2.trans hfalls.sinkAt

end Machine

end ScriptMachine

/-! ### Registered calls -/

namespace ScriptMachine

/-- What an activation does with deferred calls. -/
inductive Doing
  | registers (d : DeferredCall)
  /-- A return is executed. -/
  | returns
  /-- The return runs a deferred call. -/
  | runs (d : DeferredCall)
  /-- A deferred call has failed, and the return with it. -/
  | fails (f : Fault)

/-- In this order an activation does things, and these are the calls that it still owes, the one
registered last first. A return runs the first of those that were owed, one after the other. -/
inductive Orderly : List Doing → List DeferredCall → Prop
  | begins : Orderly [] []
  | registers {done : List Doing} {owed : List DeferredCall} (before : Orderly done owed)
      (d : DeferredCall) : Orderly (done ++ [.registers d]) (d :: owed)
  | returns {done : List Doing} {ran owed : List DeferredCall}
      (before : Orderly done (ran ++ owed)) : Orderly (done ++ .returns :: ran.map .runs) owed
  | fails {done : List Doing} {ran owed : List DeferredCall}
      (before : Orderly done (ran ++ owed)) (hran : ran ≠ []) (f : Fault) :
      Orderly (done ++ .returns :: ran.map .runs ++ [.fails f]) owed

namespace Machine

/-- The next step executes a return. -/
def startsReturn (m : Machine) : Bool := m.ended.isNone && m.returning?.isSome

/-- The fault of a deferred call that has failed. -/
def failed? (m : Machine) : Option Fault :=
  match m.ended, m.suspended with
  | some (.error f), ⟨_, .deferred⟩ :: _ => some f
  | _, _ => none

/-- What the next step does with deferred calls. -/
def doings (m : Machine) : List Doing :=
  (m.registered?.map Doing.registers).toList ++ (if m.startsReturn then [.returns] else []) ++
    (m.launched?.map Doing.runs).toList ++ (m.failed?.map Doing.fails).toList

/-- The next step is one of the activation at a level with some frame pointer. -/
def Acts (k fp : Nat) (m : Machine) : Prop :=
  m.ready.suspended.length = k ∧ m.ready.context.fp = fp

instance (k fp : Nat) (m : Machine) : Decidable (m.Acts k fp) := inferInstanceAs (Decidable (_ ∧ _))

/-- What the next step does with deferred calls of the activation. -/
def doingsOf (k fp : Nat) (m : Machine) : List Doing := if m.Acts k fp then m.doings else []

/-- The context at a level waits for a deferred call. -/
def Waits (k : Nat) (m : Machine) : Prop :=
  ∃ s, m.suspended.reverse[k]? = some s ∧ s.awaiting = .deferred

variable {m m' : Machine} {k fp : Nat} {ds : List DeferredCall} {d : DeferredCall}

/-! ### What a step does -/

theorem launched?_eq_none (extra : List Suspended)
    (h : m.step.1.suspended = extra ++ m.ready.suspended)
    (hextra : ∀ s ∈ extra, s.awaiting ≠ .deferred) : m.launched? = none := by
  rw [launched?]
  split
  · rename_i c rest hcons
    rw [if_neg fun hle => ?_]
    cases extra with
    | nil =>
      rw [List.nil_append] at h
      rw [h] at hcons
      rw [hcons, List.length_cons] at hle
      omega
    | cons s extra =>
      rw [h, List.cons_append, List.cons.injEq] at hcons
      exact hextra s List.mem_cons_self (by rw [hcons.1])
  · rfl

theorem launched?_of_setsGoing {m₁ : Machine} {rest : List DeferredCall}
    (hworks : m.regained.Works m₁) (hgoing : SetsGoing d rest m₁ m.step.1) :
    m.launched? = some d := by
  have hsuspended := hworks.suspended_eq.trans m.regained_suspended
  rw [launched?, hgoing.suspended_eq]
  dsimp only
  rw [if_pos (by rw [hsuspended]), hgoing.stack_eq, callOn_slots]

theorem defer_of_registered (h : m.registered? = some d) :
    ∃ operand, m.ended = none ∧ m.next? = some ⟨.defer, operand⟩ := by
  rw [registered?] at h
  split at h
  · rename_i hended hnext
    exact ⟨_, hended, hnext⟩
  · cases h

/-- Where a call is registered, nothing else happens to deferred calls. -/
theorem doings_of_registered (hregistered : m.registered? = some d)
    (hstep : m.step.1.suspended = m.ready.suspended) : m.doings = [.registers d] := by
  have hlaunched := launched?_eq_none [] hstep fun s hs => absurd hs List.not_mem_nil
  obtain ⟨operand, hended, hnext⟩ := defer_of_registered hregistered
  have hreturning := returning?_of_ne hended hnext Opcode.noConfusion
  have hfailed : m.failed? = none := by rw [failed?, hended]
  rw [doings, hregistered, startsReturn, hreturning, hlaunched, hfailed]
  simp

/-- A deferred call has failed: its fault is raised by the return. -/
theorem attempt_of_failed {f : Fault} (h : m.failed? = some f) :
    m.attempt = (.error (.fault f), m.regained) := by
  rw [failed?] at h
  split at h
  · rename_i g c rest hended hsuspended
    cases h
    rw [attempt, action, ready, regained, hended, hsuspended]
    rfl
  · cases h

/-- A deferred call has ended, well or not. -/
theorem waits_of_ended {result : Except Fault Unit} {c : Context} {rest : List Suspended}
    (hended : m.ended = some result) (hsuspended : m.suspended = ⟨c, .deferred⟩ :: rest) :
    m.Waits m.ready.suspended.length := by
  have hready : m.ready.suspended = rest := by rw [ready, hended, hsuspended]
  exact ⟨⟨c, .deferred⟩, by rw [hready, hsuspended]; simp, rfl⟩

theorem waits_of_failed {f : Fault} (h : m.failed? = some f) :
    m.Waits m.ready.suspended.length := by
  rw [failed?] at h
  split at h
  · rename_i g c rest hended hsuspended
    exact waits_of_ended hended hsuspended
  · cases h

/-- A return that is not just being executed goes on since a deferred call has ended. -/
theorem waits_of_returning {m₁ : Machine} (h : m.returning? = some m₁)
    (hstarts : m.startsReturn = false) : m.Waits m.ready.suspended.length := by
  have hended : m.ended ≠ none := fun hended => by
    rw [startsReturn, hended, h] at hstarts
    cases hstarts
  rw [returning?] at h
  split at h
  · exact absurd ‹_› hended
  · exact waits_of_ended ‹_› ‹_›
  · cases h

/-- What a return has done before it turns to the deferred calls. -/
theorem tidies_of_returning {m₁ : Machine} (h : m.returning? = some m₁) :
    m.regained.Tidies m₁ ∧ m.attempt = Exec.outcome Exec.continueReturn m₁ := by
  cases m.undertakes with
  | returns _ hreturning htidies hattempt =>
    rw [hreturning] at h
    cases h
    exact ⟨htidies, hattempt⟩
  | rises _ hreturning =>
    rw [hreturning] at h
    cases h
  | registers hregistered =>
    obtain ⟨operand, hgoing, hnext⟩ := defer_of_registered hregistered
    rw [returning?_of_ne hgoing hnext Opcode.noConfusion] at h
    cases h

theorem works_of_returning {m₁ : Machine} (h : m.returning? = some m₁) :
    m.regained.Works m₁ ∧ m.attempt = Exec.outcome Exec.continueReturn m₁ :=
  ⟨(tidies_of_returning h).1.toWorks, (tidies_of_returning h).2⟩

/-- A return that goes through has turned to the deferred calls. -/
theorem returning_of_returns (h : m.Returns) (hattempt : m.attempt = (.ok (), m')) :
    ∃ m₁, m.returning? = some m₁ := by
  cases m.undertakes with
  | returns _ hreturning => exact ⟨_, hreturning⟩
  | registers hregistered =>
    obtain ⟨operand, hgoing, hnext⟩ := defer_of_registered hregistered
    rw [Returns, hgoing] at h
    obtain ⟨_, hreturn⟩ := h
    rw [hnext] at hreturn
    cases hreturn
  | rises _ hreturning =>
    rw [Returns] at h
    split at h
    · exact h.elim
    · rename_i result s rest hended hsuspended
      obtain ⟨c, awaiting⟩ := s
      cases h
      cases result with
      | ok u =>
        rw [returning?, hended, hsuspended] at hreturning
        cases hreturning
      | error f =>
        rw [attempt_of_deferred hended hsuspended] at hattempt
        cases hattempt
    · rename_i hgoing
      obtain ⟨operand, hnext⟩ := h
      obtain ⟨-, hbegun⟩ := begun_tidies hgoing hnext
      rw [show Exec.execute ⟨.return, operand⟩ = Exec.return_ operand from rfl,
        Exec.outcome_return, hattempt, eq_comm] at hbegun
      obtain ⟨_, m₁, htake, -⟩ := Exec.outcome_bind_eq_ok.1 hbegun
      rw [returning?_of_return hgoing hnext, htake] at hreturning
      cases hreturning

theorem registered?_of_returning {m₁ : Machine} (h : m.returning? = some m₁) :
    m.registered? = none := by
  cases hended : m.ended with
  | none =>
    rw [returning?, hended] at h
    dsimp only at h
    split at h
    · rename_i hnext
      exact registered?_of_ne hnext Opcode.noConfusion
    · cases h
  | some result => rw [registered?, hended]

theorem failed?_of_returning {m₁ : Machine} (h : m.returning? = some m₁) : m.failed? = none := by
  rw [returning?] at h
  split at h
  · rename_i hended
    rw [failed?, hended]
  · rename_i hended hsuspended
    rw [failed?, hended]
  · cases h

/-! ### What is owed after a step -/

/-- The machine that is ready owes what it owed. -/
theorem Owes.regained (h : m.Owes k fp ds) (hk : k ≤ m.ready.suspended.length) :
    m.regained.Owes k fp ds := by
  obtain ⟨output, heq⟩ := m.regained_eq
  have hready : m.ready.Owes k fp ds := ⟨hk, by rw [contextAt_ready hk]; exact h.context⟩
  have hsuspended := m.regained_suspended
  rcases Nat.lt_or_eq_of_le hk with hlt | rfl
  · exact (owes_of_append [] hsuspended hlt).2 hready
  · refine (owes_of_level (congrArg List.length hsuspended)).2 ?_
    rw [heq]
    exact ((owes_of_level rfl).1 hready).congr (fun _ _ hf => hf) rfl rfl

theorem regained_fp (m : Machine) : m.regained.context.fp = m.ready.context.fp := by
  obtain ⟨output, heq⟩ := m.regained_eq
  rw [heq]

/-- The machine in which the step of an activation turns to deferred calls. -/
theorem Owes.worked {m₁ : Machine} (h : m.Owes k fp ds) (hm : m.Layered)
    (hk : k ≤ m.ready.suspended.length) (hworks : m.regained.Works m₁) :
    m₁.Owes k fp ds ∧ m₁.suspended = m.ready.suspended ∧
      m₁.context.fp = m.ready.context.fp :=
  ⟨Rises.owes hworks.rises (regained_layered hm) (h.regained hk),
    hworks.suspended_eq.trans m.regained_suspended, hworks.fp_eq.trans m.regained_fp⟩

/-- What an activation owes that runs. -/
theorem Owes.deferred_eq (h : m.Owes k fp ds) (hm : m.context.Layered)
    (hk : m.suspended.length = k) (hfp : m.context.fp = fp) : m.context.deferred = ds := by
  have hrunning := (owes_of_level hk).1 h
  subst hfp
  exact Context.Owes.unique hm ⟨hrunning.own, .inl ⟨rfl, rfl⟩⟩ hrunning

/-- What the activations owe once the running one has registered a call. -/
theorem owes_of_registers {ds' : List DeferredCall} (h : m.Owes k fp ds)
    (heq : m' = { m with context := { m.context with deferred := ds' } }) :
    m'.Owes k fp (if m.suspended.length = k ∧ m.context.fp = fp then ds' else ds) := by
  have hsuspended : m'.suspended = m.suspended := by rw [heq]
  rcases Nat.lt_or_eq_of_le h.level with hlt | rfl
  · rw [if_neg (by omega)]
    exact (owes_of_append [] hsuspended hlt).2 h
  · simp only [true_and]
    refine (owes_of_level (congrArg List.length hsuspended)).2 ?_
    rw [heq]
    exact ((owes_of_level rfl).1 h).update (fun _ _ hf => hf) rfl rfl

/-- What the activations owe once a deferred call of the running one has been set going. -/
theorem owes_of_setsGoing {rest : List DeferredCall} (h : m.Owes k fp ds)
    (hgoing : SetsGoing d rest m m') :
    m'.Owes k fp (if m.suspended.length = k ∧ m.context.fp = fp then rest else ds) := by
  rcases Nat.lt_or_eq_of_le h.level with hlt | rfl
  · rw [if_neg (by omega)]
    exact (owes_of_append [_] hgoing.suspended_eq hlt).2 h
  · simp only [true_and]
    refine (owes_of_cons hgoing.suspended_eq).2 ?_
    exact ((owes_of_level rfl).1 h).update (fun _ _ hf => hf) rfl rfl

/-- What the activations owe once functions have been entered and left. -/
theorem owes_of_moves {m₁ : Machine} (h : m.Owes k fp ds) (hm : m.Layered) (hrises : m.Rises m₁)
    (hfalls : m₁.Falls m') (hhosts : m'.Hosts k fp) : m'.Owes k fp ds := by
  obtain ⟨ds', hafter⟩ := hhosts
  have hbetween := hrises.owes hm h
  rwa [hbetween.unique (hrises.layered hm) (hfalls.owes_back hafter)]

/-- **A step changes what the activation owes whose step it is**, and no other. -/
theorem owes_step_of_not_acts (h : m.Owes k fp ds) (hm : m.Layered)
    (hk : k ≤ m.ready.suspended.length) (hacts : ¬m.Acts k fp) (hhosts : m.step.1.Hosts k fp) :
    m.step.1.Owes k fp ds := by
  have hnot : ∀ {m₁ : Machine}, m₁.suspended = m.ready.suspended →
      m₁.context.fp = m.ready.context.fp → ¬(m₁.suspended.length = k ∧ m₁.context.fp = fp) :=
    fun hsuspended hfp heq => hacts ⟨hsuspended ▸ heq.1, hfp ▸ heq.2⟩
  cases step_treats hm with
  | registers _ hworks heq =>
    obtain ⟨howes, hsuspended, hfp⟩ := h.worked hm hk hworks
    have hafter := owes_of_registers howes heq
    rwa [if_neg (hnot hsuspended hfp)] at hafter
  | launches _ hworks _ hgoing =>
    obtain ⟨howes, hsuspended, hfp⟩ := h.worked hm hk hworks
    have hafter := owes_of_setsGoing howes hgoing
    rwa [if_neg (hnot hsuspended hfp)] at hafter
  | moves _ _ hrises hfalls =>
    exact owes_of_moves (h.regained hk) (regained_layered hm) hrises hfalls hhosts

/-- What a step of an activation does about the calls that it owes. -/
inductive Pays (k fp : Nat) (ds : List DeferredCall) (m : Machine) : Prop
  | registers {d : DeferredCall} (hdoings : m.doings = [.registers d])
      (howes : m.step.1.Owes k fp (d :: ds)) (hwaits : ¬m.step.1.Waits k)
  | runs {d : DeferredCall} {rest : List DeferredCall} (hds : ds = d :: rest)
      (hdoings : m.doings = (if m.startsReturn then [.returns] else []) ++ [.runs d])
      (hreturning : m.startsReturn = false → m.Waits k) (howes : m.step.1.Owes k fp rest)
  | keeps (hdoings : m.doings =
        (if m.startsReturn then [.returns] else []) ++ (m.failed?.map Doing.fails).toList)
      (hreturning : m.startsReturn = true → ds = [])
      (hstays : m.step.1.Hosts k fp → m.step.1.Owes k fp ds) (hwaits : ¬m.step.1.Waits k)

theorem not_waits (extra : List Suspended) (h : m'.suspended = extra ++ m.suspended)
    (hextra : ∀ s ∈ extra, s.awaiting ≠ .deferred) (hk : m.suspended.length ≤ k) :
    ¬m'.Waits k := by
  rintro ⟨s, hs, hdeferred⟩
  rw [h, List.reverse_append,
    List.getElem?_append_right (by rw [List.length_reverse]; exact hk)] at hs
  exact hextra s (List.mem_reverse.1 (List.mem_of_getElem? hs)) hdeferred

/-- **What a step of an activation does about the calls that it owes.** -/
theorem step_pays (h : m.Owes k fp ds) (hm : m.Layered) (hacts : m.Acts k fp) :
    m.Pays k fp ds := by
  obtain ⟨rfl, rfl⟩ := hacts
  have hk := Nat.le_refl m.ready.suspended.length
  cases step_treats hm with
  | @registers d m₁ hregistered hworks heq =>
    obtain ⟨howes, hsuspended, hfp⟩ := h.worked hm hk hworks
    have hstep : m.step.1.suspended = m.ready.suspended := by rw [heq]; exact hsuspended
    have hafter := owes_of_registers howes heq
    rw [if_pos ⟨congrArg List.length hsuspended, hfp⟩,
      howes.deferred_eq (hworks.layered (regained_layered hm)).running
        (congrArg List.length hsuspended) hfp] at hafter
    exact .registers (doings_of_registered hregistered hstep) hafter
      (not_waits [] hstep (fun s hs => absurd hs List.not_mem_nil) hk)
  | @launches d rest m₁ hreturning hworks hdeferred hgoing =>
    obtain ⟨howes, hsuspended, hfp⟩ := h.worked hm hk hworks
    have hafter := owes_of_setsGoing howes hgoing
    rw [if_pos ⟨congrArg List.length hsuspended, hfp⟩] at hafter
    have hds := howes.deferred_eq (hworks.layered (regained_layered hm)).running
      (congrArg List.length hsuspended) hfp
    refine .runs (hds.symm.trans hdeferred) ?_ (waits_of_returning hreturning) hafter
    rw [doings, registered?_of_returning hreturning, failed?_of_returning hreturning,
      launched?_of_setsGoing hworks hgoing]
    simp
  | @moves m₁ hregistered hreturning hrises hfalls =>
    obtain ⟨extra, hextra, hasks⟩ := hrises.suspended
    have hstep : m.step.1.suspended = extra ++ m.ready.suspended := by
      rw [hfalls.suspended_eq, hextra, m.regained_suspended]
    refine .keeps ?_ (fun hstarts => ?_)
      (owes_of_moves (h.regained hk) (regained_layered hm) hrises hfalls)
      (not_waits extra hstep hasks hk)
    · rw [doings, hregistered, launched?_eq_none extra hstep hasks]
      simp
    · rw [startsReturn, Bool.and_eq_true] at hstarts
      obtain ⟨m₂, hm₂⟩ := Option.isSome_iff_exists.1 hstarts.2
      obtain ⟨hworks, -⟩ := works_of_returning hm₂
      obtain ⟨howes, hsuspended, hfp⟩ := h.worked hm hk hworks
      rw [← howes.deferred_eq (hworks.layered (regained_layered hm)).running
        (congrArg List.length hsuspended) hfp]
      exact hreturning m₂ hm₂

end Machine

end ScriptMachine
