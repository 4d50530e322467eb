import ScriptMachine.Proofs.Deferred.Courses

/-!
# Stepping over calls

A debugger may step in one function and over those that it calls. A call then saves the single steps
in its frame, and turns them off; they are back when the frame is left, whatever functions were
entered and left in between. Contexts that others wait for are not attended to.

* `Context.PassesOver`: single steps wait in a frame.
* `Context.Strides`, `Machine.Strides`: an activation is there, and steps over what it calls.
* `Rises.strides`, `Falls.strides`: it does so as long as it is there.
* `step_strides`: also from step to step.
-/

namespace ScriptMachine

namespace Context

/-- Functions run that the one with some frame pointer has called, and single steps are off: they
wait for the caller in the frame at `q`, and in no frame above that. -/
structure PassesOver (fp q : Nat) (f : Frame) (c : Context) : Prop where
  fp_le : fp ≤ q
  frame : c.frameAt q = some f
  saves : f.fp = fp ∧ f.singleStep = true ∧ f.breakOnReturn = false
  stepping : c.stepping = (true, false, true, false)
  above : ∀ j g, q < j → c.frameAt j = some g → g.singleStep = false ∧ g.breakOnReturn = false

/-- The activation with some frame pointer is there and steps over what it calls: single steps are
on while it runs itself, and off while others do that it has called. -/
structure Strides (fp : Nat) (c : Context) : Prop where
  own : fp = 0 ∨ ∃ f, c.frameAt (fp - 1) = some f
  place : c.fp = fp ∧ c.stepping = (true, true, true, false) ∨ ∃ q f, c.PassesOver fp q f

variable {c c' : Context} {fp : Nat} {ds : List DeferredCall}

theorem Strides.owes (h : c.Strides fp) : ∃ ds, c.Owes fp ds := by
  rcases h.place with ⟨hfp, -⟩ | ⟨q, f, hpasses⟩
  · exact ⟨_, h.own, .inl ⟨hfp, rfl⟩⟩
  · exact ⟨_, h.own, .inr ⟨q, f, hpasses.fp_le, hpasses.frame, hpasses.saves.1, rfl⟩⟩

theorem Strides.fp_le (hc : c.Layered) (h : c.Strides fp) : fp ≤ c.fp := by
  obtain ⟨ds, howes⟩ := h.owes
  exact howes.fp_le hc

/-- Only frames, the frame pointer and the switches matter. -/
theorem Strides.congr (h : c.Strides fp)
    (hframes : ∀ j f, c.frameAt j = some f → c'.frameAt j = some f)
    (hfewer : ∀ j f, c'.frameAt j = some f → c.frameAt j = some f) (hfp : c'.fp = c.fp)
    (hstepping : c'.stepping = c.stepping) : c'.Strides fp := by
  refine ⟨h.own.imp_right (Exists.imp fun f hf => hframes _ f hf), ?_⟩
  rcases h.place with ⟨hplace, hsteps⟩ | ⟨q, f, hpasses⟩
  · exact .inl ⟨hfp.trans hplace, hstepping.trans hsteps⟩
  · exact .inr ⟨q, f, hpasses.fp_le, hframes q f hpasses.frame, hpasses.saves,
      hstepping.trans hpasses.stepping, fun j g hj hg => hpasses.above j g hj (hfewer j g hg)⟩

/-- Frames may have gone, as long as the activation is still there. -/
theorem Strides.of_fewer (h : c.Strides fp) (hc : c.Layered) (howes : c'.Owes fp ds)
    (hfewer : ∀ j f, c'.frameAt j = some f → c.frameAt j = some f) (hfp : c'.fp = c.fp)
    (hstepping : c'.stepping = c.stepping) : c'.Strides fp := by
  refine ⟨howes.own, ?_⟩
  rcases h.place with ⟨hplace, hsteps⟩ | ⟨q, f, hpasses⟩
  · exact .inl ⟨hfp.trans hplace, hstepping.trans hsteps⟩
  have hlt := hc.fp_le_of_frame hpasses.frame
  have hle := hpasses.fp_le
  rcases howes.keeps with ⟨hrun, -⟩ | ⟨j, g, hj, hg, hgfp, -⟩
  · omega
  -- The frame of the callee that is still there is the one that holds the single steps.
  have hback := hfewer j g hg
  obtain rfl := hc.frame_unique hpasses.frame hback (by rw [hpasses.saves.1]; exact hj) (by omega)
  rw [hpasses.frame] at hback
  cases hback
  exact .inr ⟨q, f, hle, hg, hpasses.saves, hstepping.trans hpasses.stepping,
    fun i x hi hx => hpasses.above i x hi (hfewer i x hx)⟩

end Context

namespace Machine

variable {m m' : Machine} {k fp : Nat}

/-! ### Functions are entered -/

theorem Works.strides (h : m.Works m') (hm : m.context.Layered) (hs : m.context.Strides fp) :
    m'.context.Strides fp :=
  hs.congr (h.frames hm) h.fewer h.fp_eq h.stepping_eq

/-- A call of the activation saves its single steps; further calls find none to save. -/
theorem EntersFrame.strides {f : Frame} (h : m.EntersFrame m' f) (hs : m.context.Strides fp) :
    m'.context.Strides fp := by
  obtain ⟨ds, howes⟩ := hs.owes
  have hstepping := h.stepping_eq
  have hout : ∀ j, m.context.stack.size < j → m'.context.frameAt j = none := fun j hj => by
    rw [h.frameAt, if_neg (by omega), Context.frameAt_of_size_le (by omega)]
  refine ⟨hs.own.imp_right (Exists.imp fun g hg => h.frames _ g hg), .inr ?_⟩
  rcases hs.place with ⟨hplace, hsteps⟩ | ⟨q, g, hpasses⟩
  · simp only [Context.stepping, Prod.mk.injEq] at hsteps
    obtain ⟨hdebugging, hsingle, hover, hbreak⟩ := hsteps
    rw [hdebugging, hsingle, hover] at hstepping
    refine ⟨m.context.stack.size, f, howes.fp_le_size, by rw [h.frameAt, if_pos rfl],
      ⟨h.saves.1.trans hplace, h.saves_steps.1.trans hsingle, h.saves_steps.2.trans hbreak⟩,
      hstepping, fun j g hj hg => ?_⟩
    rw [hout j hj] at hg
    cases hg
  · have hsteps := hpasses.stepping
    simp only [Context.stepping, Prod.mk.injEq] at hsteps
    obtain ⟨hdebugging, hsingle, hover, hbreak⟩ := hsteps
    rw [hdebugging, hsingle, hover] at hstepping
    refine ⟨q, g, hpasses.fp_le, h.frames q g hpasses.frame, hpasses.saves, hstepping,
      fun j x hj hx => ?_⟩
    rw [h.frameAt] at hx
    split at hx
    · cases hx
      exact ⟨h.saves_steps.1.trans hsingle, h.saves_steps.2.trans hbreak⟩
    · exact hpasses.above j x hj hx

/-! ### Functions are left -/

/-- A callee that is left gives the single steps back to the activation that called it; a function
that others have called has none to give. -/
theorem Quits.strides_of_passes {p q : Nat} {f g : Frame} (h : Quits p g m m')
    (hm : m.context.Layered) (hs : m.context.Strides fp) (hpasses : m.context.PassesOver fp q f) :
    m'.context.Strides fp := by
  have hle := hpasses.fp_le
  have hlt := hm.fp_le_of_frame hpasses.frame
  have hsteps := hpasses.stepping
  simp only [Context.stepping, Prod.mk.injEq] at hsteps
  obtain ⟨hdebugging, -, hover, hbreak⟩ := hsteps
  have hafter := h.stepping_eq
  rw [Context.steppingAfter, hdebugging, hover, hbreak, Bool.or_false] at hafter
  rcases Nat.lt_trichotomy p q with hpq | rfl | hpq
  · -- The frame that is taken lies on top.
    have htop := h.top q hpq hlt
    rw [hpasses.frame] at htop
    cases htop
  · have hsame := h.frame
    rw [hpasses.frame] at hsame
    cases hsame
    obtain ⟨hfp, hsingle, hnone⟩ := hpasses.saves
    rw [hsingle, hnone] at hafter
    refine ⟨?_, .inl ⟨h.fp_eq.trans hfp, hafter⟩⟩
    rcases Nat.eq_zero_or_pos fp with hzero | hpos
    · exact .inl hzero
    · refine hs.own.imp_right (Exists.imp fun x hx => ?_)
      rw [h.below (fp - 1) (by omega) (by omega)]
      exact hx
  · have hgfp : q < g.fp := Nat.lt_of_not_le fun hge => by
      have hnone := hm.between p g h.frame q hge hpq
      rw [hpasses.frame] at hnone
      cases hnone
    obtain ⟨hsingle, hnone⟩ := hpasses.above p g hpq h.frame
    rw [hsingle, hnone] at hafter
    refine ⟨?_, .inr ⟨q, f, hle, ?_, hpasses.saves, hafter,
      fun j x hj hx => hpasses.above j x hj (h.fewer j x hx).2⟩⟩
    · rcases Nat.eq_zero_or_pos fp with hzero | hpos
      · exact .inl hzero
      · refine hs.own.imp_right (Exists.imp fun x hx => ?_)
        rw [h.below (fp - 1) (by omega) (by omega)]
        exact hx
    · rw [h.below q hpq hgfp]
      exact hpasses.frame

/-- The activation that steps is there until it is left itself. -/
theorem Quits.strides {p : Nat} {g : Frame} {ds : List DeferredCall} (h : Quits p g m m')
    (hm : m.context.Layered) (hs : m.context.Strides fp) (howes : m'.context.Owes fp ds) :
    m'.context.Strides fp := by
  rcases hs.place with ⟨hplace, -⟩ | ⟨q, f, hpasses⟩
  · have hlt := h.q_lt
    rcases howes.own with hzero | ⟨x, hx⟩
    · omega
    · have := (h.fewer _ x hx).1
      omega
  · exact h.strides_of_passes hm hs hpasses

/-! ### All contexts of a thread -/

/-- The activation at a level with some frame pointer is there and steps over what it calls; no
debugger attends to the contexts that others wait for. -/
structure Strides (k fp : Nat) (m : Machine) : Prop where
  level : k ≤ m.suspended.length
  context : (m.contextAt k).Strides fp
  alone : ∀ j, k < j → j ≤ m.suspended.length → (m.contextAt j).debugging = false

theorem Strides.hosts (h : m.Strides k fp) : m.Hosts k fp := by
  obtain ⟨ds, howes⟩ := h.context.owes
  exact ⟨ds, h.level, howes⟩

/-- The running context goes on. -/
theorem Strides.run (h : m.Strides k fp) (hsuspended : m'.suspended = m.suspended)
    (hdebugging : m'.context.debugging = m.context.debugging)
    (hcontext : m.suspended.length = k → m.context.Strides fp → m'.context.Strides fp) :
    m'.Strides k fp := by
  have hlength := congrArg List.length hsuspended
  refine ⟨by rw [hlength]; exact h.level, ?_, fun j hk hj => ?_⟩
  · have hbefore := h.context
    rcases Nat.lt_or_eq_of_le h.level with hlt | heq
    · rwa [contextAt_of_append [] hsuspended hlt]
    · rw [contextAt_of_level (Nat.le_of_eq heq.symm)] at hbefore
      rw [contextAt_of_level (by omega)]
      exact hcontext heq.symm hbefore
  · rw [hlength] at hj
    have halone := h.alone j hk hj
    rcases Nat.lt_or_eq_of_le hj with hlt | heq
    · rwa [contextAt_of_append [] hsuspended hlt]
    · rw [contextAt_of_level (Nat.le_of_eq heq.symm)] at halone
      rw [contextAt_of_level (by omega), hdebugging]
      exact halone

/-- The running context waits for another one. -/
theorem Strides.wait {s : Suspended} (h : m.Strides k fp)
    (hsuspended : m'.suspended = s :: m.suspended)
    (hdebugging : s.context.debugging = m.context.debugging)
    (hcontext : m.context.Strides fp → s.context.Strides fp)
    (halone : m'.context.debugging = false) : m'.Strides k fp := by
  have hlength : m'.suspended.length = m.suspended.length + 1 := by
    rw [hsuspended, List.length_cons]
  have hlevel := h.level
  refine ⟨by omega, ?_, fun j hk hj => ?_⟩
  · have hbefore := h.context
    rcases Nat.lt_or_eq_of_le h.level with hlt | rfl
    · rwa [contextAt_of_append [s] hsuspended hlt]
    · rw [contextAt_of_level (Nat.le_refl _)] at hbefore
      rw [contextAt_of_cons hsuspended]
      exact hcontext hbefore
  · rcases Nat.lt_or_ge m.suspended.length j with hlt | hge
    · rw [contextAt_of_level (by omega)]
      exact halone
    have hbefore := h.alone j hk hge
    rcases Nat.lt_or_eq_of_le hge with hlt | rfl
    · rwa [contextAt_of_append [s] hsuspended hlt]
    · rw [contextAt_of_level (Nat.le_refl _)] at hbefore
      rw [contextAt_of_cons hsuspended, hdebugging]
      exact hbefore

theorem debugging_of_stepping {c c' : Context} (h : c'.stepping = c.stepping) :
    c'.debugging = c.debugging := congrArg Prod.fst h

theorem Works.stridesOn (h : m.Works m') (hm : m.Layered) (hs : m.Strides k fp) :
    m'.Strides k fp :=
  hs.run h.suspended_eq (debugging_of_stepping h.stepping_eq) fun _ => h.strides hm.running

theorem Rise.strides (h : m.Rise m') (hm : m.Layered) (hs : m.Strides k fp) : m'.Strides k fp := by
  cases h with
  | works h => exact h.stridesOn hm hs
  | enters h =>
    exact hs.run h.suspended_eq (congrArg Prod.fst h.stepping_eq) fun _ => h.strides
  | asks h => exact hs.wait h.suspended_eq rfl id h.debugging_eq

/-- **Calls are stepped over** by the activation that makes them. -/
theorem Rises.strides (h : m.Rises m') (hm : m.Layered) (hs : m.Strides k fp) :
    m'.Strides k fp := by
  induction h with
  | refl => exact hs
  | tail hrises hrise ih => exact hrise.strides (Rises.layered hrises hm) ih

theorem Fall.strides (h : m.Fall m') (hm : m.Layered) (hs : m.Strides k fp)
    (hhosts : m'.Hosts k fp) : m'.Strides k fp := by
  obtain ⟨ds, howes⟩ := hhosts
  cases h with
  | drops h =>
    refine hs.run h.suspended_eq (debugging_of_stepping h.stepping_eq) fun hk hrun => ?_
    have hrunning := (owes_of_level ((congrArg List.length h.suspended_eq).trans hk)).1 howes
    exact hrun.of_fewer hm.running hrunning h.fewer h.fp_eq h.stepping_eq
  | quits h =>
    refine hs.run h.suspended_eq (congrArg Prod.fst h.stepping_eq) fun hk hrun => ?_
    have hrunning := (owes_of_level ((congrArg List.length h.suspended_eq).trans hk)).1 howes
    exact h.strides hm.running hrun hrunning

/-- **When callees are left, the activation goes on stepping**, as long as it is there itself. -/
theorem Falls.strides (h : m.Falls m') (hm : m.Layered) (hs : m.Strides k fp)
    (hhosts : m'.Hosts k fp) : m'.Strides k fp := by
  induction h with
  | refl => exact hs
  | tail hfalls hfall ih =>
    obtain ⟨ds, howes⟩ := hhosts
    have hbefore := hfall.owes_back howes
    exact hfall.strides (Falls.layered hfalls hm) (ih ⟨ds, hbefore⟩) ⟨ds, howes⟩

/-! ### Steps -/

theorem Strides.ready (h : m.Strides k fp) (hk : k ≤ m.ready.suspended.length) :
    m.ready.Strides k fp := by
  refine ⟨hk, ?_, fun j hlt hj => ?_⟩
  · rw [contextAt_ready hk]
    exact h.context
  · rw [contextAt_ready hj]
    exact h.alone j hlt (Nat.le_trans hj m.length_ready_le)

theorem Strides.regained (h : m.Strides k fp) (hk : k ≤ m.ready.suspended.length) :
    m.regained.Strides k fp := by
  obtain ⟨output, heq⟩ := m.regained_eq
  rw [heq]
  exact (h.ready hk).run rfl rfl fun _ hrun =>
    hrun.congr (fun _ _ hf => hf) (fun _ _ hf => hf) rfl rfl

/-- **From step to step** an activation steps over what it calls, as long as it is there. -/
theorem step_strides (h : m.Strides k fp) (hm : m.Layered) (hk : k ≤ m.ready.suspended.length)
    (hhosts : m.step.1.Hosts k fp) : m.step.1.Strides k fp := by
  have hregained := h.regained hk
  have hlayered := regained_layered hm
  cases step_treats hm with
  | registers _ hworks heq =>
    rw [heq]
    exact (hworks.stridesOn hlayered hregained).run rfl rfl fun _ hrun =>
      hrun.congr (fun _ _ hf => hf) (fun _ _ hf => hf) rfl rfl
  | launches _ hworks _ hgoing halone =>
    exact (hworks.stridesOn hlayered hregained).wait hgoing.suspended_eq rfl
      (fun hrun => hrun.congr (fun _ _ hf => hf) (fun _ _ hf => hf) rfl rfl) halone
  | moves _ _ hrises hfalls =>
    exact hfalls.strides (hrises.layered hlayered) (hrises.strides hlayered hregained) hhosts

end Machine

end ScriptMachine
