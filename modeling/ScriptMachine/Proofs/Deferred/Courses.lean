import ScriptMachine.Proofs.Deferred.Doings

/-!
# The course of an activation

An activation begins, and other functions, contexts and threads run while it is there. All that time
it does things about deferred calls in order, and no one else has a say in what it owes.

* `Machine.Course`: the states from the beginning of an activation on, and what it has done.
* `owes_nothing_yet`: an activation begins without deferred calls.
* `Machine.Abides`, `Course.abides`: the invariant of a course.
* `deferred_calls_run`: what holds of every activation at any time, and what comes next.
-/

namespace ScriptMachine

theorem Context.Fresh.layered {c : Context} (h : c.Fresh) : c.Layered := by
  refine Machine.layered_of_no_frames fun j => Option.eq_none_iff_forall_ne_some.2 fun f hf => ?_
  rw [frameAt_eq_some] at hf
  obtain ⟨v, hv⟩ := h.values _ (Array.mem_of_getElem? hf)
  cases hv

namespace Machine

variable {first start m m' : Machine} {k fp : Nat} {done : List Doing} {ds owed : List DeferredCall}

theorem Begins.layered (h : m.Begins) : m.Layered :=
  ⟨h.fresh.layered, fun s hs => by rw [h.alone] at hs; cases hs⟩

theorem Treats.layered (h : m.Treats m') (hm : m.Layered) : m'.Layered := by
  have hregained := regained_layered hm
  cases h with
  | registers _ hworks heq =>
    have hafter := hworks.layered hregained
    rw [heq]
    exact ⟨⟨hafter.running.top, hafter.running.between⟩, hafter.waiting⟩
  | launches _ hworks _ hgoing => exact hgoing.layered (hworks.layered hregained)
  | moves _ _ hrises hfalls => exact hfalls.layered (hrises.layered hregained)

/-- **No frame ever lies where it should not.** -/
theorem Trace.layered {ok : Machine → Prop} (h : Trace ok first m) (hfirst : first.Layered) :
    m.Layered := by
  induction h with
  | start => exact hfirst
  | step _ _ ih => exact (step_treats ih).layered ih
  | elsewhere _ world tasks _ _ ih => exact ⟨ih.running, ih.waiting⟩
  | resume _ switches _ ih => exact ⟨⟨ih.running.top, ih.running.between⟩, ih.waiting⟩

/-! ### Activations begin -/

/-- Whether an activation is there is a matter of frames. -/
theorem hosts_of_frames (h : m.Hosts k fp) (hsuspended : m'.suspended = m.suspended)
    (hframes : ∀ j, m'.context.frameAt j = m.context.frameAt j)
    (hfp : m'.context.fp = m.context.fp) : m'.Hosts k fp := by
  obtain ⟨ds, h⟩ := h
  rcases Nat.lt_or_eq_of_le h.level with hlt | rfl
  · exact ⟨ds, (owes_of_append [] hsuspended hlt).2 h⟩
  · have hafter := ((owes_of_level rfl).1 h).update (fun j f hf => (hframes j).trans hf) hfp rfl
    exact ⟨_, (owes_of_level (congrArg List.length hsuspended)).2 hafter⟩

theorem hosts_of_works (h : m'.Hosts k fp) (hworks : m.Works m') : m.Hosts k fp := by
  obtain ⟨ds, h⟩ := h
  have hlevel := h.level
  rw [hworks.suspended_eq] at hlevel
  rcases Nat.lt_or_eq_of_le hlevel with hlt | rfl
  · exact ⟨ds, (owes_of_append [] hworks.suspended_eq hlt).1 h⟩
  · have hrunning := (owes_of_level (congrArg List.length hworks.suspended_eq)).1 h
    exact ⟨ds, (owes_of_level rfl).2
      (hrunning.of_fewer hworks.fewer hworks.fp_eq hworks.deferred_eq)⟩

theorem hosts_ready (h : m.regained.Hosts k fp) : m.ready.Hosts k fp := by
  obtain ⟨output, heq⟩ := m.regained_eq
  refine hosts_of_frames h m.regained_suspended.symm (fun j => ?_) m.regained_fp.symm
  rw [heq]
  rfl

theorem SetsGoing.hosts_back {d : DeferredCall} {rest : List DeferredCall}
    (h : SetsGoing d rest m m') (howes : m'.Owes k fp ds) (hk : k ≤ m.suspended.length) :
    m.Hosts k fp := by
  rcases Nat.lt_or_eq_of_le hk with hlt | rfl
  · exact ⟨ds, (owes_of_append [_] h.suspended_eq hlt).1 howes⟩
  · have hcaller := (owes_of_cons h.suspended_eq).1 howes
    exact ⟨_, (owes_of_level rfl).2 (hcaller.update (fun _ _ hf => hf) rfl rfl)⟩

/-- The context of a deferred call owes nothing yet. -/
theorem SetsGoing.owes_nothing {d : DeferredCall} {rest : List DeferredCall}
    (h : SetsGoing d rest m m') (howes : m'.Owes k fp ds) (hk : m.suspended.length < k) :
    ds = [] := by
  have hlevel := howes.level
  have hlast : m'.suspended.length = k := by
    rw [h.suspended_eq, List.length_cons] at hlevel ⊢
    omega
  rcases ((owes_of_level hlast).1 howes).keeps with ⟨-, rfl⟩ | ⟨j, f, -, hf, -⟩
  · exact h.begins.2.2
  · rw [Context.frameAt, h.stack_eq, DeferredCall.slots, List.getElem?_toArray,
      List.getElem?_map] at hf
    cases hslot : (d.callable :: d.args)[j]? <;> rw [hslot] at hf <;> cases hf

/-- **An activation begins without deferred calls.** -/
theorem owes_nothing_yet (hm : m.Layered) (hnew : ¬m.ready.Hosts k fp)
    (howes : m.step.1.Owes k fp ds) : ds = [] := by
  cases step_treats hm with
  | @registers d m₁ _ hworks heq =>
    have hbefore : m₁.Hosts k fp := hosts_of_frames ⟨ds, howes⟩ (by rw [heq])
      (fun j => by rw [heq]; rfl) (by rw [heq])
    exact absurd (hosts_ready (hosts_of_works hbefore hworks)) hnew
  | @launches d rest m₁ _ hworks _ hgoing =>
    rcases Nat.lt_or_ge m₁.suspended.length k with hlt | hle
    · exact hgoing.owes_nothing howes hlt
    · exact absurd (hosts_ready (hosts_of_works (hgoing.hosts_back howes hle) hworks)) hnew
  | moves _ _ hrises hfalls =>
    rcases hrises.owes_back (hfalls.owes_back howes) with hbefore | hnil
    · exact absurd (hosts_ready ⟨ds, hbefore⟩) hnew
    · exact hnil

/-! ### Contexts that wait -/

theorem waits_of_append (extra : List Suspended) (h : m'.suspended = extra ++ m.suspended)
    (hk : k < m.suspended.length) : m'.Waits k ↔ m.Waits k := by
  rw [Waits, Waits, h, List.reverse_append, List.getElem?_append_left (by simpa using hk)]

/-- A context that waits stays as it is, and goes on waiting. -/
theorem step_of_waiting (hk : k < m.ready.suspended.length) :
    m.step.1.contextAt k = m.contextAt k ∧ (m.step.1.Waits k ↔ m.Waits k) := by
  obtain ⟨extra, hextra⟩ := m.suspended_step
  rw [contextAt_of_append extra hextra.symm hk, waits_of_append extra hextra.symm hk,
    contextAt_ready (Nat.le_of_lt hk)]
  refine ⟨rfl, ?_⟩
  rcases m.ready_cases with hready | ⟨s, rest, hcons, hready⟩
  · rw [hready]
  · refine (waits_of_append [s] ?_ hk).symm
    rw [hcons, hready]
    rfl

/-- The context that begins to wait for a deferred call is still in the function that returns. -/
theorem fp_of_waits (hm : m.Layered) (hwaits : m.step.1.Waits m.ready.suspended.length) :
    (m.step.1.contextAt m.ready.suspended.length).fp = m.ready.context.fp := by
  cases step_treats hm with
  | registers _ hworks heq =>
    refine absurd hwaits (not_waits [] ?_ (fun s hs => absurd hs List.not_mem_nil) (Nat.le_refl _))
    rw [heq]
    exact hworks.suspended_eq.trans m.regained_suspended
  | @launches _ _ m₁ _ hworks _ hgoing =>
    have hsuspended := hworks.suspended_eq.trans m.regained_suspended
    rw [← hsuspended, contextAt_of_cons hgoing.suspended_eq]
    exact hworks.fp_eq.trans m.regained_fp
  | moves _ _ hrises hfalls =>
    obtain ⟨extra, hextra, hasks⟩ := hrises.suspended
    refine absurd hwaits (not_waits extra ?_ hasks (Nat.le_refl _))
    rw [hfalls.suspended_eq, hextra, m.regained_suspended]

/-- A context does not begin to wait for a deferred call where an activation begins. -/
theorem not_waits_of_new (hm : m.Layered) (hnew : ¬m.ready.Hosts k fp)
    (howes : m.step.1.Owes k fp ds) : ¬m.step.1.Waits k := by
  intro hwaits
  rcases Nat.lt_or_ge k m.ready.suspended.length with hlt | hge
  · refine hnew ⟨ds, Nat.le_of_lt hlt, ?_⟩
    rw [contextAt_ready (Nat.le_of_lt hlt), ← (step_of_waiting hlt).1]
    exact howes.context
  cases step_treats hm with
  | registers _ hworks heq =>
    refine not_waits [] ?_ (fun s hs => absurd hs List.not_mem_nil) hge hwaits
    rw [heq]
    exact hworks.suspended_eq.trans m.regained_suspended
  | @launches _ _ m₁ _ hworks _ hgoing =>
    rcases Nat.lt_or_ge m₁.suspended.length k with hlt | hle
    · obtain ⟨s, hs, -⟩ := hwaits
      rw [hgoing.suspended_eq, List.getElem?_eq_none (by
        rw [List.length_reverse, List.length_cons]
        exact hlt)] at hs
      cases hs
    · exact hnew (hosts_ready (hosts_of_works (hgoing.hosts_back howes hle) hworks))
  | moves _ _ hrises hfalls =>
    obtain ⟨extra, hextra, hasks⟩ := hrises.suspended
    refine not_waits extra ?_ hasks hge hwaits
    rw [hfalls.suspended_eq, hextra, m.regained_suspended]

/-! ### Courses -/

/-- The states from the beginning of an activation on, as long as it is there, and what it has done
about deferred calls. Other threads may change the world and the tasks. -/
inductive Course (k fp : Nat) (first : Machine) : Machine → List Doing → Machine → Prop
  /-- The outermost code of the thread begins with it. -/
  | outermost (hlevel : k = 0) (hfp : fp = 0) (hnone : first.context.deferred = []) :
      Course k fp first first [] first
  /-- A function is entered, or another context begins. -/
  | opens {m : Machine} (before : Trace (fun _ => True) first m) (hnew : ¬m.ready.Hosts k fp)
      (hopens : m.step.1.Hosts k fp) : Course k fp first m.step.1 [] m.step.1
  | step {start m : Machine} {done : List Doing} (before : Course k fp first start done m)
      (hlevel : k ≤ m.ready.suspended.length) (hstays : m.step.1.Hosts k fp) :
      Course k fp first start (done ++ m.doingsOf k fp) m.step.1
  | elsewhere {start m : Machine} {done : List Doing} (before : Course k fp first start done m)
      (world : World) (tasks : Array Task) (hsound : world.scopes.Sound) :
      Course k fp first start done { m with world, tasks }
  | resume {start m : Machine} {done : List Doing} (before : Course k fp first start done m)
      (switches : Switches) :
      Course k fp first start done { m with context := switches.apply m.context }.resume

theorem Course.trace (h : Course k fp first start done m) : Trace (fun _ => True) first m := by
  induction h with
  | outermost => exact .start trivial
  | opens before => exact .step before trivial
  | step _ _ _ ih => exact .step ih trivial
  | elsewhere _ world tasks hsound ih => exact .elsewhere ih world tasks hsound trivial
  | resume _ switches ih => exact .resume ih switches trivial

/-- An activation has done things in order; while its context waits for a deferred call, the last
thing that it did was a return that has run calls. -/
structure Abides (k fp : Nat) (done : List Doing) (owed : List DeferredCall) (m : Machine) :
    Prop where
  owes : m.Owes k fp owed
  orderly : Orderly done owed
  returning : m.Waits k → (m.contextAt k).fp = fp → ∃ earlier ran,
    done = earlier ++ .returns :: ran.map .runs ∧ ran ≠ [] ∧ Orderly earlier (ran ++ owed)

/-- Only waiting contexts, frames and deferred calls matter. -/
theorem Abides.congr (h : m.Abides k fp done owed) (hsuspended : m'.suspended = m.suspended)
    (hstack : m'.context.stack = m.context.stack) (hfp : m'.context.fp = m.context.fp)
    (hdeferred : m'.context.deferred = m.context.deferred) : m'.Abides k fp done owed := by
  have hframes : ∀ j, m'.context.frameAt j = m.context.frameAt j := fun j => by
    rw [Context.frameAt, hstack, Context.frameAt]
  have hwaits : m'.Waits k ↔ m.Waits k := by rw [Waits, hsuspended, Waits]
  rcases Nat.lt_or_eq_of_le h.owes.level with hlt | rfl
  · have hcontext := contextAt_of_append [] hsuspended hlt
    refine ⟨(owes_of_append [] hsuspended hlt).2 h.owes, h.orderly, fun hw hk => ?_⟩
    exact h.returning (hwaits.1 hw) (hcontext ▸ hk)
  · have hlevel := congrArg List.length hsuspended
    refine ⟨(owes_of_level hlevel).2 (((owes_of_level rfl).1 h.owes).congr
      (fun j f hf => (hframes j).trans hf) hfp hdeferred), h.orderly, fun hw hk => ?_⟩
    refine h.returning (hwaits.1 hw) ?_
    rw [contextAt_of_level (Nat.le_of_eq hlevel), hfp] at hk
    rw [contextAt_of_level (Nat.le_refl _), hk]

/-- Steps of others leave an activation in order. -/
theorem Abides.step_of_not_acts (h : m.Abides k fp done owed) (hm : m.Layered)
    (hk : k ≤ m.ready.suspended.length) (hacts : ¬m.Acts k fp) (hstays : m.step.1.Hosts k fp) :
    m.step.1.Abides k fp done owed := by
  refine ⟨owes_step_of_not_acts h.owes hm hk hacts hstays, h.orderly, fun hwaits hfp => ?_⟩
  rcases Nat.lt_or_eq_of_le hk with hlt | rfl
  · obtain ⟨hcontext, hiff⟩ := step_of_waiting hlt
    rw [hcontext] at hfp
    exact h.returning (hiff.1 hwaits) hfp
  · rw [fp_of_waits hm hwaits] at hfp
    exact absurd ⟨rfl, hfp⟩ hacts

/-- A return that goes on has run calls already. -/
theorem Abides.ran (h : m.Abides k fp done owed) (hacts : m.Acts k fp) (hwaits : m.Waits k) :
    ∃ earlier ran, done = earlier ++ .returns :: ran.map .runs ∧ ran ≠ [] ∧
      Orderly earlier (ran ++ owed) := by
  obtain ⟨rfl, rfl⟩ := hacts
  refine h.returning hwaits ?_
  rw [← contextAt_ready (Nat.le_refl _), contextAt_of_level (Nat.le_refl _)]

/-- So do its own steps. -/
theorem Abides.step_of_acts (h : m.Abides k fp done owed) (hm : m.Layered) (hacts : m.Acts k fp)
    (hstays : m.step.1.Hosts k fp) : ∃ owed', m.step.1.Abides k fp (done ++ m.doings) owed' := by
  cases step_pays h.owes hm hacts with
  | @registers d hdoings howes hwaits =>
    rw [hdoings]
    exact ⟨d :: owed, howes, .registers h.orderly d, fun hw => absurd hw hwaits⟩
  | @runs d rest hds hdoings hreturning howes =>
    subst hds
    rw [hdoings]
    cases hstarts : m.startsReturn with
    | true =>
      have hran : Orderly done ([d] ++ rest) := h.orderly
      exact ⟨rest, howes, .returns hran, fun _ _ => ⟨done, [d], rfl, by simp, hran⟩⟩
    | false =>
      obtain ⟨earlier, ran, rfl, -, hran⟩ := h.ran hacts (hreturning hstarts)
      have hmore : Orderly earlier ((ran ++ [d]) ++ rest) := by simpa using hran
      have hdone : earlier ++ .returns :: ran.map .runs ++ ([] ++ [.runs d])
          = earlier ++ .returns :: (ran ++ [d]).map .runs := by simp
      refine ⟨rest, howes, ?_, fun _ _ => ⟨earlier, ran ++ [d], ?_, by simp, hmore⟩⟩
      · exact hdone ▸ .returns hmore
      · exact hdone
  | keeps hdoings hreturning hkeeps hwaits =>
    rw [hdoings]
    refine ⟨owed, hkeeps hstays, ?_, fun hw => absurd hw hwaits⟩
    cases hstarts : m.startsReturn with
    | true =>
      obtain ⟨m₁, hm₁⟩ : ∃ m₁, m.returning? = some m₁ := by
        rw [startsReturn, Bool.and_eq_true] at hstarts
        exact Option.isSome_iff_exists.1 hstarts.2
      rw [failed?_of_returning hm₁]
      have hran : Orderly done ([] ++ owed) := h.orderly
      exact .returns hran
    | false =>
      cases hfailed : m.failed? with
      | none => simpa using h.orderly
      | some f =>
        have hwaited := waits_of_failed hfailed
        rw [hacts.1] at hwaited
        obtain ⟨earlier, ran, rfl, hran, horderly⟩ := h.ran hacts hwaited
        exact .fails horderly hran f

/-- **Along its course an activation does things in order.** -/
theorem Course.abides (h : Course k fp first start done m) (hfirst : first.Begins) :
    ∃ owed, m.Abides k fp done owed := by
  induction h with
  | outermost hlevel hfp hnone =>
    subst hlevel hfp
    have hnil : first.suspended.length = 0 := by rw [hfirst.alone]; rfl
    refine ⟨[], ⟨Nat.zero_le _, .inl rfl, .inl ?_⟩, .begins, fun ⟨s, hs, _⟩ => ?_⟩
    · rw [contextAt_of_level (Nat.le_of_eq hnil)]
      exact ⟨hfirst.fresh.fp_eq, hnone⟩
    · rw [hfirst.alone] at hs
      cases hs
  | @opens m before hnew hopens =>
    have hm := before.layered hfirst.layered
    obtain ⟨ds, howes⟩ := hopens
    obtain rfl := owes_nothing_yet hm hnew howes
    exact ⟨[], howes, .begins, fun hwaits _ => absurd hwaits (not_waits_of_new hm hnew howes)⟩
  | @step start m done before hlevel hstays ih =>
    obtain ⟨owed, h⟩ := ih
    have hm := before.trace.layered hfirst.layered
    rw [doingsOf]
    split
    · exact h.step_of_acts hm ‹_› hstays
    · rw [List.append_nil]
      exact ⟨owed, h.step_of_not_acts hm hlevel ‹_› hstays⟩
  | elsewhere _ world tasks _ ih =>
    obtain ⟨owed, h⟩ := ih
    exact ⟨owed, h.congr rfl rfl rfl rfl⟩
  | resume _ switches ih =>
    obtain ⟨owed, h⟩ := ih
    exact ⟨owed, h.congr rfl rfl rfl rfl⟩

/-- **Along its course nothing is lost that was written to the sink of its context.** -/
theorem Course.sinkAt (h : Course k fp first start done m) (hfirst : first.Begins) :
    (start.sinkAt k).Extends (m.sinkAt k) := by
  induction h with
  | outermost => exact .refl _
  | opens => exact .refl _
  | step before hlevel _ ih =>
    exact ih.trans (step_sinkAt (before.trace.layered hfirst.layered) hlevel)
  | elsewhere _ world tasks _ ih => exact ih.trans (sinkAt_extends rfl (.refl _))
  | resume _ switches ih => exact ih.trans (sinkAt_extends rfl (.refl _))

/-! ### What comes next -/

/-- What the next step of an activation does about the calls that it owes. -/
structure Dispatches (k fp : Nat) (owed : List DeferredCall) (m : Machine) : Prop where
  /-- A return sets the call going that was registered last. -/
  launches : ∀ m₁ d rest, m.returning? = some m₁ → owed = d :: rest → SetsGoing d rest m₁ m.step.1
  /-- It leaves the function, or ends the outermost code, only when nothing is owed. -/
  leaves : ∀ m₁, m.returning? = some m₁ → owed = [] →
    m.attempt = if 0 < fp then Exec.outcome Exec.popFrame m₁
      else (.ok (), { m₁ with context := { m₁.context with running := false } })
  /-- The fault of a deferred call is raised by the return, which goes no further. -/
  raises : ∀ f, m.failed? = some f → m.attempt = (.error (.fault f), m.regained)
  /-- An activation that a fault discards runs none of its calls. -/
  discarded : ¬m.step.1.Hosts k fp → m.launched? = none
  /-- The sink is back that a deferred call has had. -/
  output : m.regained.context.output = m.sinkAt k

theorem runs_mem_doings {d : DeferredCall} (h : m.launched? = some d) : .runs d ∈ m.doings := by
  rw [doings, h]
  simp

theorem Owes.dispatches (h : m.Owes k fp owed) (hm : m.Layered) (hacts : m.Acts k fp) :
    m.Dispatches k fp owed := by
  have hpays := step_pays h hm hacts
  obtain ⟨rfl, rfl⟩ := hacts
  have hk := Nat.le_refl m.ready.suspended.length
  have hworked : ∀ m₁, m.returning? = some m₁ → m₁.context.deferred = owed ∧
      m₁.context.fp = m.ready.context.fp ∧ m.attempt = Exec.outcome Exec.continueReturn m₁ := by
    intro m₁ hm₁
    obtain ⟨hworks, hattempt⟩ := works_of_returning hm₁
    obtain ⟨howes, hsuspended, hfp⟩ := h.worked hm hk hworks
    have hlayered := hworks.layered (regained_layered hm)
    exact ⟨howes.deferred_eq hlayered.running (congrArg List.length hsuspended) hfp, hfp, hattempt⟩
  refine ⟨fun m₁ d rest hm₁ howed => ?_, fun m₁ hm₁ howed => ?_, fun f => attempt_of_failed,
    fun hgone => ?_, ?_⟩
  · obtain ⟨hdeferred, -, hattempt⟩ := hworked m₁ hm₁
    obtain ⟨m', hout, hgoing, -⟩ := Exec.continueReturn_cons (hdeferred.trans howed)
    rw [step_of_attempt_ok (hattempt.trans hout)]
    exact hgoing
  · obtain ⟨hdeferred, hfp, hattempt⟩ := hworked m₁ hm₁
    rw [hattempt, Exec.continueReturn_nil (hdeferred.trans howed), hfp]
  · refine Option.eq_none_iff_forall_ne_some.2 fun d hd => ?_
    have hmem := runs_mem_doings hd
    cases hpays with
    | registers hdoings => simp [hdoings] at hmem
    | runs _ _ _ howes => exact hgone ⟨_, howes⟩
    | keeps hdoings => simp [hdoings] at hmem
  · rw [← sinkAt_regained hk, sinkAt_of_level (by rw [m.regained_suspended])]

/-- **Deferred calls run when their function returns, the last one first.** Whatever an activation
and all others do, each of its returns runs calls that it has registered itself, in reverse order,
and none of them twice. A return leaves the function only when all have run; if one fails, the
return fails with its fault and runs no other. What they write goes to the sink of the context, which
is back when the return goes on or fails. No one else has a say in what the activation owes, and an
activation that is discarded runs nothing and leaves to its caller what that owes. -/
theorem deferred_calls_run (hfirst : first.Begins) (h : Course k fp first start done m) :
    ∃ owed, Orderly done owed ∧ m.Owes k fp owed ∧ (m.Acts k fp → m.Dispatches k fp owed) ∧
      (k < m.ready.suspended.length → m.step.1.contextAt k = m.contextAt k) ∧
      (start.sinkAt k).Extends (m.sinkAt k) ∧
      (∀ c rest, m.suspended = ⟨c, .deferred⟩ :: rest → rest.length = k →
        m.context.output = m.sinkAt k) ∧
      ∀ k' fp' owed', k' ≤ m.ready.suspended.length → ¬m.Acts k' fp' → m.Owes k' fp' owed' →
        m.step.1.Hosts k' fp' → m.step.1.Owes k' fp' owed' := by
  have hm := h.trace.layered hfirst.layered
  obtain ⟨owed, habides⟩ := h.abides hfirst
  exact ⟨owed, habides.orderly, habides.owes, habides.owes.dispatches hm,
    fun hk => (step_of_waiting hk).1, h.sinkAt hfirst,
    fun c rest hsuspended hk => (sinkAt_of_deferred hsuspended hk).symm,
    fun k' fp' owed' hk hacts howes hstays => owes_step_of_not_acts howes hm hk hacts hstays⟩

/-- Code that prints a greeting and returns. -/
def greeting : Code :=
  ⟨"greet", #[⟨.push, .string "hi"⟩, ⟨.print, .null⟩, .plain .return], none, true, false⟩

/-- A machine about to run `Defer 0; Return` with code on its stack that greets. -/
def deferrer : Machine :=
  ofContext {} {
    name := "main"
    thread := 1
    symbols := .root
    stack := #[.value (.code greeting)]
    code := ⟨"main", #[⟨.defer, .int 0⟩, .plain .return], none, true, false⟩
    running := true
    output := .collected "" }

theorem deferrer_begins : deferrer.Begins := by
  refine ⟨⟨fun s hs => ?_, rfl, rfl, rfl⟩, rfl, Arena.initial_sound⟩
  exact ⟨.code greeting, by simpa [deferrer, ofContext] using hs⟩

/-- The machine after the greeting has been deferred and run up to its own return. -/
def greeted : Machine := deferrer.step.1.step.1.step.1.step.1.step.1

/-- The outermost code defers the greeting and returns; the greeting runs, and goes to its sink. -/
theorem deferred_calls_run_of_deferrer : deferrer.Begins ∧
    Course 0 0 deferrer deferrer [.registers ⟨.code greeting, []⟩, .returns,
      .runs ⟨.code greeting, []⟩] greeted ∧
    (greeted.sinkAt 0).text = "hi" := by
  have hhosts : ∀ (m : Machine) (ds : List DeferredCall), (m.contextAt 0).fp = 0 →
      (m.contextAt 0).deferred = ds → m.Hosts 0 0 := fun m ds hfp hds =>
    ⟨ds, Nat.zero_le _, .inl rfl, .inl ⟨hfp, hds⟩⟩
  have hcourse : Course 0 0 deferrer deferrer [.registers ⟨.code greeting, []⟩, .returns,
      .runs ⟨.code greeting, []⟩] greeted :=
    .step (.step (.step (.step (.step (.outermost rfl rfl rfl)
      (Nat.zero_le _) (hhosts _ _ rfl rfl)) (Nat.zero_le _) (hhosts _ _ rfl rfl))
      (Nat.zero_le _) (hhosts _ _ rfl rfl)) (Nat.zero_le _) (hhosts _ _ rfl rfl))
      (Nat.zero_le _) (hhosts _ _ rfl rfl)
  obtain ⟨owed, -, -, -, -, -, hlent, -⟩ := deferred_calls_run deferrer_begins hcourse
  have hsink := hlent _ [] rfl rfl
  refine ⟨deferrer_begins, hcourse, ?_⟩
  rw [← hsink]
  decide +kernel

end Machine

end ScriptMachine
