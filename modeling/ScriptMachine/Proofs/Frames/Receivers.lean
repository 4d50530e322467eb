import Mathlib.Order.Bounds.Basic
import ScriptMachine.Proofs.Deferred.Courses
import ScriptMachine.Proofs.Deferred.Endings
import ScriptMachine.Proofs.Frames.Restoring

/-!
# Receivers after a call

A callee starts with the receivers of its caller, may take them and push its own. When it ends, the
caller has its oldest receivers back: as many as there are at the end. Those that the callee has
taken stay taken only if it has not pushed others in their place.

* `Context.oldest`: the oldest receivers of a context.
* `Machine.Tenure`: the states for which a callee is there, and how few receivers there were.
* `Quits.receivers_of_bottom`, `QuitsTo.receivers`: what the caller has after a return, and after a
  fault that it catches.
* `receivers_after_call_iff`: both, and when that agrees with the fewest that there were.
-/

namespace ScriptMachine

namespace Context

/-- The oldest receivers of a context, as many as are asked for. -/
def oldest (c : Context) (count : Nat) : List Receiver :=
  c.receivers.drop (c.receivers.length - count)

variable {c : Context} {count other : Nat}

theorem length_oldest : (c.oldest count).length = min c.receivers.length count := by
  rw [oldest, List.length_drop]
  omega

/-- How many receivers are asked for matters only up to as many as there are. -/
theorem oldest_eq_iff : c.oldest count = c.oldest other
    ↔ min c.receivers.length count = min c.receivers.length other := by
  constructor
  · intro h
    rw [← length_oldest, ← length_oldest, h]
  · intro h
    rw [oldest, oldest, show c.receivers.length - count = c.receivers.length - other by omega]

/-- How many receivers the frames from some position on hold. -/
def savedDepths (q : Nat) (c : Context) : Set Nat :=
  {d | ∃ j f, q ≤ j ∧ c.frameAt j = some f ∧ d = f.receivers.length}

/-- How many receivers there are, and how many the frames from some position on hold. -/
def depths (q : Nat) (c : Context) : Set Nat := insert c.receivers.length (c.savedDepths q)

/-- Two members of a set may be taken as the lesser one. -/
theorem isLeast_insert_min {a b d : Nat} {s : Set Nat} :
    IsLeast (insert (min a b) s) d ↔ IsLeast (insert a (insert b s)) d := by
  simp only [IsLeast, Set.mem_insert_iff, mem_lowerBounds, forall_eq_or_imp]
  grind

end Context

namespace Machine

variable {m m' m₁ first : Machine} {k fp q n d : Nat} {f g : Frame}

/-! ### Functions are left -/

theorem Quits.length_receivers (h : Quits q f m m') :
    m'.context.receivers.length = min f.receivers.length m.context.receivers.length := by
  rw [h.receivers_eq, List.length_drop]
  omega

/-- The frame that goes is the last one. -/
theorem Quits.savedDepths (h : Quits q f m m') (hm : m.context.Layered) :
    m.context.savedDepths q = {f.receivers.length} := by
  ext d
  constructor
  · rintro ⟨j, g, hj, hg, rfl⟩
    rcases Nat.lt_or_eq_of_le hj with hlt | rfl
    · rw [h.top j hlt (hm.fp_le_of_frame hg)] at hg
      cases hg
    · rw [h.frame] at hg
      cases hg
      rfl
  · rintro rfl
    exact ⟨q, f, Nat.le_refl q, h.frame, rfl⟩

/-- When a function inside is left, there are as many receivers as before at the fewest. -/
theorem Quits.isLeast_depths {p : Nat} (h : Quits p g m m') (hm : m.context.Layered)
    (hlt : q < p) :
    IsLeast (m'.context.depths q) d ↔ IsLeast (m.context.depths q) d := by
  have hsaved : m.context.savedDepths q
      = insert g.receivers.length (m'.context.savedDepths q) := by
    ext d
    constructor
    · rintro ⟨j, x, hj, hx, rfl⟩
      rcases Nat.lt_trichotomy j p with hjp | rfl | hjp
      · refine .inr ⟨j, x, hj, ?_, rfl⟩
        rcases Nat.lt_or_ge j g.fp with hbelow | hbetween
        · rwa [h.below j hjp hbelow]
        · rw [hm.between p g h.frame j hbetween hjp] at hx
          cases hx
      · rw [h.frame] at hx
        cases hx
        exact .inl rfl
      · rw [h.top j hjp (hm.fp_le_of_frame hx)] at hx
        cases hx
    · rintro (rfl | ⟨j, x, hj, hx, rfl⟩)
      · exact ⟨p, g, Nat.le_of_lt hlt, h.frame, rfl⟩
      · exact ⟨j, x, hj, (h.fewer j x hx).2, rfl⟩
  rw [Context.depths, Context.depths, hsaved, h.length_receivers, min_comm,
    Context.isLeast_insert_min]

/-- A frame below the one that goes is still there, unless the function is left that it belongs
to. -/
theorem Quits.frame_below {p : Nat} (h : Quits p g m m') (hm : m.context.Layered)
    (hq : m.context.frameAt q = some f) (hlt : q < p) : m'.context.frameAt q = some f := by
  rw [h.below q hlt ?_, hq]
  refine Nat.lt_of_not_le fun hle => ?_
  rw [hm.between p g h.frame q hle hlt] at hq
  cases hq

/-- **A callee and what it has called are left because of a fault**: the caller has the oldest of
its receivers, as many as there have been at the fewest between two calls and at the end. -/
theorem QuitsTo.receivers (h : QuitsTo f.fp m m') (hm : m.context.Layered)
    (hq : m.context.frameAt q = some f) (hfp : f.fp ≤ q) :
    ∃ d, IsLeast (m.context.depths q) d ∧
      m'.context.receivers = f.receivers.drop (f.receivers.length - d) := by
  induction h with
  | stops hstops =>
    rcases hstops with hle | hnone
    · have hlt := hm.fp_le_of_frame hq
      omega
    · rw [hnone] at hq
      cases hq
  | @leaves m m₁ m' p g hlt hquits hrest ih =>
    rcases Nat.lt_trichotomy q p with hqp | rfl | hpq
    · obtain ⟨d, hleast, hreceivers⟩ :=
        ih (hquits.layered hm) (hquits.frame_below hm hq hqp)
      exact ⟨d, (hquits.isLeast_depths hm hqp).1 hleast, hreceivers⟩
    · have hsame : f = g := Option.some.inj (hq.symm.trans hquits.frame)
      subst hsame
      have hdone : m' = m₁ := by
        cases hrest with
        | stops => rfl
        | leaves hmore =>
          rw [hquits.fp_eq] at hmore
          exact absurd hmore (Nat.lt_irrefl _)
      refine ⟨m'.context.receivers.length, ?_, ?_⟩
      · rw [hdone, hquits.length_receivers, Context.depths, hquits.savedDepths hm, min_comm]
        exact isLeast_pair
      · rw [hdone, hquits.length_receivers, hquits.receivers_eq]
        congr 1
        omega
    · rw [hquits.top q hpq (hm.fp_le_of_frame hq)] at hq
      cases hq

/-! ### Callees -/

/-- At a level, a frame lies at some position: the function that it belongs to is there. -/
structure Bears (k q : Nat) (f : Frame) (m : Machine) : Prop where
  level : k ≤ m.suspended.length
  frame : (m.contextAt k).frameAt q = some f

/-- The running context goes on. -/
theorem Bears.run (h : m.Bears k q f) (hsuspended : m'.suspended = m.suspended)
    (hframe : m.context.frameAt q = some f → m'.context.frameAt q = some f) : m'.Bears k q f := by
  have hlength := congrArg List.length hsuspended
  refine ⟨by rw [hlength]; exact h.level, ?_⟩
  rcases Nat.lt_or_eq_of_le h.level with hlt | heq
  · rw [contextAt_of_append [] hsuspended hlt]
    exact h.frame
  · rw [contextAt_of_level (by omega)]
    exact hframe (contextAt_of_level (Nat.le_of_eq heq.symm) ▸ h.frame)

/-- The running context waits for another one. -/
theorem Bears.wait {s : Suspended} (h : m.Bears k q f)
    (hsuspended : m'.suspended = s :: m.suspended)
    (hframe : m.context.frameAt q = some f → s.context.frameAt q = some f) : m'.Bears k q f := by
  have hlevel := h.level
  refine ⟨by rw [hsuspended, List.length_cons]; omega, ?_⟩
  rcases Nat.lt_or_eq_of_le hlevel with hlt | rfl
  · rw [contextAt_of_append [s] hsuspended hlt]
    exact h.frame
  · rw [contextAt_of_cons hsuspended]
    exact hframe (contextAt_of_level (Nat.le_refl _) ▸ h.frame)

theorem Works.bears (h : m.Works m') (hm : m.Layered) (hbears : m.Bears k q f) :
    m'.Bears k q f := hbears.run h.suspended_eq (h.frames hm.running q f)

/-- When functions are entered, the frames below stay. -/
theorem Rises.bears (h : m.Rises m') (hm : m.Layered) (hbears : m.Bears k q f) :
    m'.Bears k q f := by
  induction h with
  | refl => exact hbears
  | tail hrises hrise ih =>
    cases hrise with
    | works h => exact h.bears (Rises.layered hrises hm) ih
    | enters h => exact ih.run h.suspended_eq (h.frames q f)
    | asks h => exact ih.wait h.suspended_eq id

/-- When functions are left, no frame comes instead. -/
theorem Falls.bears_back (h : m.Falls m') (hbears : m'.Bears k q f) : m.Bears k q f := by
  induction h with
  | refl => exact hbears
  | tail _ hfall ih =>
    refine ih ?_
    cases hfall with
    | drops h => exact hbears.run h.suspended_eq.symm (h.fewer q f)
    | quits h => exact hbears.run h.suspended_eq.symm fun hf => (h.fewer q f hf).2

/-- The frame of a function that is there lies below its operands. -/
theorem Hosts.bears (h : m.Hosts k (q + 1)) : ∃ f, m.Bears k q f := by
  obtain ⟨ds, howes⟩ := h
  obtain ⟨f, hf⟩ := howes.context.own.resolve_left (Nat.succ_ne_zero q)
  exact ⟨f, howes.level, hf⟩

/-- As long as a function is there, its frame is the same. -/
theorem Falls.bears (h : m.Falls m') (hbears : m.Bears k q f) (hhosts : m'.Hosts k (q + 1)) :
    m'.Bears k q f := by
  obtain ⟨g, hg⟩ := hhosts.bears
  have hsame : g = f := Option.some.inj ((h.bears_back hg).frame.symm.trans hbears.frame)
  exact hsame ▸ hg

theorem Bears.regained (h : m.Bears k q f) (hk : k ≤ m.ready.suspended.length) :
    m.regained.Bears k q f := by
  obtain ⟨output, heq⟩ := m.regained_eq
  have hready : m.ready.Bears k q f := ⟨hk, by rw [contextAt_ready hk]; exact h.frame⟩
  refine hready.run m.regained_suspended fun hf => ?_
  rw [heq]
  exact hf

/-- **From step to step** a function that is there keeps its frame. -/
theorem step_bears (h : m.Bears k q f) (hm : m.Layered) (hk : k ≤ m.ready.suspended.length)
    (hhosts : m.step.1.Hosts k (q + 1)) : m.step.1.Bears k q f := by
  have hregained := h.regained hk
  have hlayered := regained_layered hm
  cases step_treats hm with
  | registers _ hworks heq =>
    rw [heq]
    exact (hworks.bears hlayered hregained).run rfl id
  | launches _ hworks _ hgoing _ =>
    exact (hworks.bears hlayered hregained).wait hgoing.suspended_eq id
  | moves _ _ hrises hfalls => exact hfalls.bears (hrises.bears hlayered hregained) hhosts

/-- How many receivers there are at a level. -/
def depthAt (k : Nat) (m : Machine) : Nat := (m.contextAt k).receivers.length

/-- The states from one on, as long as the function is there that has some frame pointer, and how
many receivers there have been at the fewest. Other threads may change the world and the tasks. -/
inductive Tenure (k fp : Nat) (first : Machine) : Machine → Nat → Prop
  | start : Tenure k fp first first (first.depthAt k)
  | step {m : Machine} {n : Nat} (before : Tenure k fp first m n)
      (hlevel : k ≤ m.ready.suspended.length) (hstays : m.step.1.Hosts k fp) :
      Tenure k fp first m.step.1 (min n (m.step.1.depthAt k))
  | elsewhere {m : Machine} {n : Nat} (before : Tenure k fp first m n) (world : World)
      (tasks : Array Task) (hsound : world.scopes.Sound) :
      Tenure k fp first { m with world, tasks } n
  | resume {m : Machine} {n : Nat} (before : Tenure k fp first m n) (switches : Switches) :
      Tenure k fp first { m with context := switches.apply m.context }.resume n

/-- **For a whole tenure** the callee has its frame. -/
theorem Tenure.spec (h : Tenure k (q + 1) first m n) (hfirst : first.Layered)
    (hbears : first.Bears k q f) : m.Layered ∧ m.Bears k q f ∧ n ≤ first.depthAt k := by
  induction h with
  | start => exact ⟨hfirst, hbears, Nat.le_refl _⟩
  | step _ hlevel hstays ih =>
    obtain ⟨hm, hframe, hle⟩ := ih
    exact ⟨(step_treats hm).layered hm, step_bears hframe hm hlevel hstays,
      Nat.le_trans (Nat.min_le_left _ _) hle⟩
  | elsewhere _ world tasks _ ih =>
    obtain ⟨hm, hframe, hle⟩ := ih
    exact ⟨⟨hm.running, hm.waiting⟩, ⟨hframe.level, hframe.frame⟩, hle⟩
  | resume _ switches ih =>
    obtain ⟨hm, hframe, hle⟩ := ih
    exact ⟨⟨⟨hm.running.top, hm.running.between⟩, hm.waiting⟩, hframe.run rfl id, hle⟩

/-! ### The ends of callees -/

/-- What the caller has after a return is what its frame had saved. -/
theorem Bears.receivers_of_leaves (h : m.Bears k q f) (hm : m.Layered) (hfp : f.fp ≤ q)
    (hleaves : m.Leaves k (q + 1) m') : m'.context.receivers
      = f.receivers.drop (f.receivers.length - m.ready.context.receivers.length) := by
  have hregained := h.regained (Nat.le_of_eq hleaves.level.symm)
  have hlength : m.regained.suspended.length = k := by
    rw [m.regained_suspended, hleaves.level]
  have hframe := hregained.frame
  rw [contextAt_of_level (Nat.le_of_eq hlength)] at hframe
  have hlt := (regained_layered hm).running.fp_le_of_frame hframe
  obtain ⟨m₁, p, g, htidies, hm₁, hquits, -, hback⟩ :=
    hleaves.quits hm (by rw [← m.regained_fp]; exact hlt)
  have hbefore := htidies.toWorks.frames (regained_layered hm).running q f hframe
  have hle : q ≤ p := Nat.le_of_not_lt fun hpq => by
    rw [hquits.top q hpq (hm₁.running.fp_le_of_frame hbefore)] at hbefore
    cases hbefore
  have hgfp : g.fp ≤ q := by
    rw [← hquits.fp_eq]
    exact Nat.lt_succ_iff.1 hback
  obtain rfl := hm₁.running.frame_unique hquits.frame hbefore hgfp (hfp.trans hle)
  have hsame : g = f := Option.some.inj (hquits.frame.symm.trans hbefore)
  obtain ⟨output, heq⟩ := m.regained_eq
  rw [hquits.receivers_eq, htidies.receivers_eq, heq, hsame]

/-- What the caller has after it has caught a fault. -/
theorem Bears.receivers_of_caught {x : Fault} {handler : Handler} {outer : List Handler}
    (h : m.Bears k q f) (hm : m.Layered) (hfp : f.fp ≤ q) (hk : k ≤ m.ready.suspended.length)
    (hfault : m.attempt = (.error (.fault x), m₁)) (hlevel : m₁.suspended.length = k)
    (hhosts : m₁.Hosts k (q + 1)) (hselects : m₁.context.Selects x handler outer)
    (hcaller : handler.fp = f.fp) (hgoing : m.step.1.ended = none) :
    ∃ d, IsLeast (m₁.context.depths q) d ∧ d ≤ f.receivers.length ∧
      m.step.1.context.receivers = f.receivers.drop (f.receivers.length - d) := by
  obtain ⟨m₀, hrises, hfalls⟩ := moves_of_fault hm hfault
  have hlayered := regained_layered hm
  have hm₁ := hfalls.layered (hrises.layered hlayered)
  have hframe := (hfalls.bears (hrises.bears hlayered (h.regained hk)) hhosts).frame
  rw [contextAt_of_level (Nat.le_of_eq hlevel)] at hframe
  obtain ⟨last, loops, observer, hquits, -, hcontext⟩ := caught_of_selects hfault hselects hgoing
  rw [hcaller] at hquits
  obtain ⟨d, hleast, hreceivers⟩ := hquits.receivers hm₁.running hframe hfp
  refine ⟨d, hleast, hleast.2 (.inr ⟨q, f, Nat.le_refl q, hframe, rfl⟩), ?_⟩
  rw [hcontext, ← hreceivers]
  rfl

/-- An activation that is there has values alone for operands. -/
theorem Layered.grounded (hm : m.Layered) (h : m.Hosts m.suspended.length m.context.fp) :
    m.context.Grounded := by
  obtain ⟨ds, howes⟩ := h
  refine ⟨((owes_of_level rfl).1 howes).fp_le_size, fun s hs => ?_⟩
  obtain ⟨j, hj⟩ := Array.getElem?_of_mem hs
  have hnone := Exec.frame?_operands hm.running j
  rw [hj] at hnone
  cases s with
  | value v => exact ⟨v, rfl⟩
  | frame g => cases hnone

/-- A callee has a frame with the receivers of its caller, and has these receivers itself. -/
theorem Enters.bears {i : Instruction} (h : m.Enters i m') (hm : m.Layered)
    (hhosts : m.Hosts m.suspended.length m.context.fp) :
    ∃ q f, m'.context.fp = q + 1 ∧ m'.Bears m.suspended.length q f ∧ f.fp ≤ q ∧
      f.fp = m.context.fp ∧ f.receivers = m.context.receivers ∧
      m'.depthAt m.suspended.length = m.context.receivers.length := by
  obtain ⟨hle, hreceivers, f, hsaves, hfp, hstack⟩ := h.spec_of_grounded (hm.grounded hhosts)
  have hlevel : m'.suspended.length = m.suspended.length := congrArg List.length h.same
  have hcontext := contextAt_of_level (Nat.le_of_eq hlevel)
  refine ⟨_, f, hfp, ⟨Nat.le_of_eq hlevel.symm, ?_⟩, ?_, hsaves.fp, hsaves.receivers, ?_⟩
  · have hsize : (m.context.stack.extract 0
        (m.context.stack.size - Exec.slotsTaken i m.context)).size
          = m.context.stack.size - Exec.slotsTaken i m.context := by
      rw [Array.size_extract]
      omega
    rw [hcontext, Context.frameAt_eq_some, hstack, Array.getElem?_push, if_pos hsize.symm]
  · rw [hsaves.fp]
    omega
  · rw [depthAt, hcontext, hreceivers]

/-- **What receivers a caller has after a call.** A function of the program has been called, and is
still there; `n` is the fewest receivers that there have been since. If it returns now, the caller
has its oldest receivers, as many as there are in the end. So those that were taken stay taken if and
only if the callee ends with the fewest that there were, or has taken none: a receiver that it pushes
gives one back. If a fault goes to a handler of the caller instead, the caller has its oldest
receivers too, as many as there are at the fewest in the end and at those calls that have not
returned; the same holds of them. -/
theorem receivers_after_call_iff {start atCall entered : Machine} {i : Instruction}
    (hbegins : start.Begins) (hreached : Trace (fun _ => True) start atCall)
    (hcaller : atCall.Hosts atCall.suspended.length atCall.context.fp)
    (henters : atCall.Enters i entered)
    (htenure : Tenure atCall.suspended.length entered.context.fp entered m n) :
    (∀ m', m.Leaves atCall.suspended.length entered.context.fp m' →
      m'.context.receivers = atCall.context.oldest m.ready.context.receivers.length ∧
      (m'.context.receivers = atCall.context.oldest n ↔
        min atCall.context.receivers.length m.ready.context.receivers.length = n)) ∧
    ∀ x m₁ handler outer, m.attempt = (.error (.fault x), m₁) →
      atCall.suspended.length ≤ m.ready.suspended.length →
      m₁.suspended.length = atCall.suspended.length →
      m₁.Hosts atCall.suspended.length entered.context.fp →
      m₁.context.Selects x handler outer → handler.fp = atCall.context.fp →
      m.step.1.ended = none →
      ∃ d, IsLeast (m₁.context.depths (entered.context.fp - 1)) d ∧
        m.step.1.context.receivers = atCall.context.oldest d ∧
        (m.step.1.context.receivers = atCall.context.oldest (min n m₁.context.receivers.length) ↔
          d = min n m₁.context.receivers.length) := by
  have hatCall := hreached.layered hbegins.layered
  have hentered : entered.Layered := by
    rw [← step_of_attempt_ok henters.completes]
    exact (step_treats hatCall).layered hatCall
  obtain ⟨q, f, hfp, hbears, hle, hback, hreceivers, hdepth⟩ := henters.bears hatCall hcaller
  rw [hfp] at htenure ⊢
  obtain ⟨hm, hframe, hn⟩ := htenure.spec hentered hbears
  rw [hdepth] at hn
  refine ⟨fun m' hleaves => ?_, fun x m₁ handler outer hfault hk hlevel hhosts hselects hhandler
    hgoing => ?_⟩
  · have hafter := hframe.receivers_of_leaves hm hle hleaves
    rw [hreceivers] at hafter
    rw [hafter]
    refine ⟨rfl, Context.oldest_eq_iff.trans ?_⟩
    rw [Nat.min_eq_right hn]
  · obtain ⟨d, hleast, hd, hafter⟩ := hframe.receivers_of_caught hm hle hk hfault hlevel hhosts
      hselects (hhandler.trans hback.symm) hgoing
    rw [hreceivers] at hd hafter
    refine ⟨d, hleast, hafter, ?_⟩
    rw [hafter]
    refine Context.oldest_eq_iff.trans ?_
    rw [Nat.min_eq_right hd, Nat.min_eq_right (Nat.le_trans (Nat.min_le_left _ _) hn)]

/-- A machine with a receiver about to run `LocalCall 2; Stop; GetThis "self"; SetThis "self";
Return`. -/
def borrower : Machine :=
  ofContext {} {
    name := "main"
    thread := 1
    symbols := .root
    code := ⟨"main", #[⟨.localCall, .int 2⟩, .plain .stop, ⟨.getThis, .string "self"⟩,
      ⟨.setThis, .string "self"⟩, .plain .return], none, true, false⟩
    receivers := [⟨"r", .int 1⟩]
    running := true }

/-- The subroutine takes the receiver of its caller, and gives it back by pushing another one. -/
theorem receivers_after_call_of_borrower :
    borrower.Enters ⟨.localCall, .int 2⟩ borrower.step.1 ∧
      Tenure 0 1 borrower.step.1 borrower.step.1.step.1.step.1 0 ∧
      borrower.step.1.step.1.step.1.Leaves 0 1 borrower.step.1.step.1.step.1.step.1 ∧
      borrower.step.1.step.1.step.1.step.1.context.receivers = borrower.context.oldest 1 ∧
      borrower.step.1.step.1.step.1.step.1.context.receivers ≠ borrower.context.oldest 0 := by
  have hbegins : borrower.Begins := ⟨⟨OnlyValues.empty, rfl, rfl, rfl⟩, rfl, Arena.initial_sound⟩
  have hcaller : borrower.Hosts 0 0 := ⟨[], Nat.zero_le _, .inl rfl, .inl ⟨rfl, rfl⟩⟩
  have henters : borrower.Enters ⟨.localCall, .int 2⟩ borrower.step.1 :=
    ⟨rfl, rfl, rfl, attempt_eq_ok rfl, rfl, Nat.zero_lt_one⟩
  have hcalled : ∀ (m : Machine) (f : Frame), (m.contextAt 0).frameAt 0 = some f →
      (m.contextAt 0).fp = 1 → m.Hosts 0 1 := fun m f hf hfp =>
    ⟨_, Nat.zero_le _, .inr ⟨f, hf⟩, .inl ⟨hfp, rfl⟩⟩
  have hfirst : Tenure 0 1 borrower.step.1 borrower.step.1 (borrower.step.1.depthAt 0) := .start
  have hsecond := hfirst.step (Nat.zero_le _) (hcalled _ _ rfl rfl)
  have hthird := hsecond.step (Nat.zero_le _) (hcalled _ _ rfl rfl)
  have hfewest : min (min (borrower.step.1.depthAt 0) (borrower.step.1.step.1.depthAt 0))
      (borrower.step.1.step.1.step.1.depthAt 0) = 0 := by decide +kernel
  rw [hfewest] at hthird
  have hleaves : borrower.step.1.step.1.step.1.Leaves 0 1
      borrower.step.1.step.1.step.1.step.1 :=
    ⟨⟨.null, rfl⟩, rfl, attempt_eq_ok rfl, Nat.zero_lt_one⟩
  obtain ⟨hreceivers, hiff⟩ :=
    (receivers_after_call_iff hbegins (.start trivial) hcaller henters hthird).1 _ hleaves
  exact ⟨henters, hthird, hleaves, hreceivers, fun hsame => absurd (hiff.1 hsame) (by decide +kernel)⟩

end Machine

end ScriptMachine
