import ScriptMachine.Proofs.Deferred.Returning

/-!
# Activations and their deferred calls

An activation is a function that has been entered and not been left, or the outermost code of a
context. Its deferred calls are those of its context while it runs, and lie in a frame while it waits
for a function that it has called.

* `Context.Owes`, `Machine.Owes`: an activation has these deferred calls; `Owes.unique`.
* `Rises.owes`, `Falls.owes_back`: entering functions keeps the deferred calls of the activations
  that there are; leaving functions changes none.
* `Rises.owes_back`: an activation begins without any.
-/

namespace ScriptMachine

namespace Context

/-- The activation with some frame pointer is there, and has these deferred calls. -/
structure Owes (fp : Nat) (ds : List DeferredCall) (c : Context) : Prop where
  own : fp = 0 ∨ ∃ f, c.frameAt (fp - 1) = some f
  keeps : c.fp = fp ∧ c.deferred = ds ∨
    ∃ j f, fp ≤ j ∧ c.frameAt j = some f ∧ f.fp = fp ∧ f.deferred = ds

variable {c c' : Context} {fp : Nat} {ds ds' : List DeferredCall}

theorem Layered.fp_le_of_frame (h : c.Layered) {j : Nat} {f : Frame} (hf : c.frameAt j = some f) :
    j < c.fp := by
  refine Nat.lt_of_not_le fun hle => ?_
  rw [h.top j hle] at hf
  cases hf

/-- The frame of one callee does not lie above that of another one. -/
theorem Layered.frame_unique (h : c.Layered) {i j : Nat} {f g : Frame} (hi : c.frameAt i = some f)
    (hj : c.frameAt j = some g) (hfi : f.fp ≤ j) (hgj : g.fp ≤ i) : i = j := by
  rcases Nat.lt_trichotomy i j with hlt | rfl | hlt
  · rw [h.between j g hj i hgj hlt] at hi
    cases hi
  · rfl
  · rw [h.between i f hi j hfi hlt] at hj
    cases hj

/-- **An activation has one list of deferred calls.** -/
theorem Owes.unique (hc : c.Layered) (h : c.Owes fp ds) (h' : c.Owes fp ds') : ds = ds' := by
  rcases h.keeps with ⟨hfp, rfl⟩ | ⟨j, f, hle, hf, hfp, rfl⟩ <;>
    rcases h'.keeps with ⟨hfp', rfl⟩ | ⟨j', f', hle', hf', hfp', rfl⟩
  · rfl
  · have := hc.fp_le_of_frame hf'
    omega
  · have := hc.fp_le_of_frame hf
    omega
  · obtain rfl := hc.frame_unique hf hf' (by omega) (by omega)
    cases hf.symm.trans hf'
    rfl

theorem Owes.fp_le (hc : c.Layered) (h : c.Owes fp ds) : fp ≤ c.fp := by
  rcases h.keeps with ⟨hfp, -⟩ | ⟨j, f, hle, hf, -⟩
  · exact Nat.le_of_eq hfp.symm
  · exact Nat.le_trans hle (Nat.le_of_lt (hc.fp_le_of_frame hf))

/-- As long as frames stay, and the frame pointer and the deferred calls of the running function. -/
theorem Owes.congr (h : c.Owes fp ds)
    (hframes : ∀ j f, c.frameAt j = some f → c'.frameAt j = some f) (hfp : c'.fp = c.fp)
    (hdeferred : c'.deferred = c.deferred) : c'.Owes fp ds := by
  refine ⟨h.own.imp id fun ⟨f, hf⟩ => ⟨f, hframes _ f hf⟩, ?_⟩
  rcases h.keeps with ⟨heq, rfl⟩ | ⟨j, f, hj, hf, hkept⟩
  · exact .inl ⟨hfp.trans heq, hdeferred⟩
  · exact .inr ⟨j, f, hj, hframes j f hf, hkept⟩

/-- If the deferred calls of the running function change, no other function is concerned. -/
theorem Owes.update (h : c.Owes fp ds)
    (hframes : ∀ j f, c.frameAt j = some f → c'.frameAt j = some f) (hfp : c'.fp = c.fp)
    (hdeferred : c'.deferred = ds') : c'.Owes fp (if c.fp = fp then ds' else ds) := by
  refine ⟨h.own.imp id fun ⟨f, hf⟩ => ⟨f, hframes _ f hf⟩, ?_⟩
  split
  · rename_i heq
    exact .inl ⟨hfp.trans heq, hdeferred⟩
  · rename_i hne
    rcases h.keeps with ⟨heq, -⟩ | ⟨j, f, hj, hf, hkept⟩
    · exact absurd heq hne
    · exact .inr ⟨j, f, hj, hframes j f hf, hkept⟩

theorem frameAt_of_size_le {j : Nat} (hj : c.stack.size ≤ j) : c.frameAt j = none := by
  rw [frameAt, Array.getElem?_eq_none hj]
  rfl

theorem lt_size_of_frame {j : Nat} {f : Frame} (hf : c.frameAt j = some f) :
    j < c.stack.size := by
  refine Nat.lt_of_not_le fun hle => ?_
  rw [frameAt_of_size_le hle] at hf
  cases hf

theorem Owes.fp_le_size (h : c.Owes fp ds) : fp ≤ c.stack.size := by
  rcases h.own with rfl | ⟨f, hf⟩
  · exact Nat.zero_le _
  · have := lt_size_of_frame hf
    omega

/-- An activation that is there after frames have gone was there before. -/
theorem Owes.of_fewer (h : c'.Owes fp ds)
    (hfewer : ∀ j f, c'.frameAt j = some f → c.frameAt j = some f) (hfp : c'.fp = c.fp)
    (hdeferred : c'.deferred = c.deferred) : c.Owes fp ds := by
  refine ⟨h.own.imp id fun ⟨f, hf⟩ => ⟨f, hfewer _ f hf⟩, ?_⟩
  rcases h.keeps with ⟨heq, rfl⟩ | ⟨j, f, hj, hf, hkept⟩
  · exact .inl ⟨hfp.symm.trans heq, hdeferred.symm⟩
  · exact .inr ⟨j, f, hj, hfewer j f hf, hkept⟩

end Context

namespace Machine

/-- The activation at a level with some frame pointer is there, and has these deferred calls. -/
structure Owes (k fp : Nat) (ds : List DeferredCall) (m : Machine) : Prop where
  level : k ≤ m.suspended.length
  context : (m.contextAt k).Owes fp ds

/-- The activation at a level with some frame pointer is there. -/
def Hosts (k fp : Nat) (m : Machine) : Prop := ∃ ds, m.Owes k fp ds

variable {m m' m'' : Machine} {k fp : Nat} {ds ds' : List DeferredCall}

theorem Layered.contextAt (h : m.Layered) (k : Nat) : (m.contextAt k).Layered := by
  unfold Machine.contextAt
  split
  · rename_i s hs
    exact h.waiting s (List.mem_reverse.1 (List.mem_of_getElem? hs))
  · exact h.running

theorem Owes.unique (hm : m.Layered) (h : m.Owes k fp ds) (h' : m.Owes k fp ds') : ds = ds' :=
  h.context.unique (hm.contextAt k) h'.context

theorem owes_of_level (hk : m.suspended.length = k) :
    m.Owes k fp ds ↔ m.context.Owes fp ds := by
  have hcontext := contextAt_of_level (Nat.le_of_eq hk)
  exact ⟨fun h => hcontext ▸ h.context, fun h => ⟨Nat.le_of_eq hk.symm, by rwa [hcontext]⟩⟩

/-- Activations of other contexts stay as they are. -/
theorem owes_of_append (extra : List Suspended) (h : m'.suspended = extra ++ m.suspended)
    (hk : k < m.suspended.length) : m'.Owes k fp ds ↔ m.Owes k fp ds := by
  have hcontext := contextAt_of_append extra h hk
  have hlength : m.suspended.length ≤ m'.suspended.length := by
    rw [h, List.length_append]
    omega
  exact ⟨fun h => ⟨Nat.le_of_lt hk, hcontext ▸ h.context⟩,
    fun h => ⟨Nat.le_trans (Nat.le_of_lt hk) hlength, hcontext ▸ h.context⟩⟩

theorem owes_of_cons {s : Suspended} (h : m'.suspended = s :: m.suspended) :
    m'.Owes m.suspended.length fp ds ↔ s.context.Owes fp ds := by
  have hcontext := contextAt_of_cons h
  exact ⟨fun h => hcontext ▸ h.context,
    fun h' => ⟨by rw [h]; exact Nat.le_succ _, by rwa [hcontext]⟩⟩

/-! ### Functions are entered -/

theorem Works.frames (h : m.Works m') (hm : m.context.Layered) (j : Nat) (f : Frame)
    (hf : m.context.frameAt j = some f) : m'.context.frameAt j = some f :=
  (h.below j (hm.fp_le_of_frame hf)).trans hf

theorem EntersFrame.frames {g : Frame} (h : m.EntersFrame m' g) (j : Nat) (f : Frame)
    (hf : m.context.frameAt j = some f) : m'.context.frameAt j = some f := by
  rw [h.frameAt, if_neg (Nat.ne_of_lt (Context.lt_size_of_frame hf))]
  exact hf

/-- A caller keeps its deferred calls in the frame of its callee. -/
theorem EntersFrame.owes {f : Frame} (h : m.EntersFrame m' f) (howes : m.context.Owes fp ds) :
    m'.context.Owes fp ds := by
  refine ⟨howes.own.imp id fun ⟨g, hg⟩ => ⟨g, h.frames _ g hg⟩, .inr ?_⟩
  rcases howes.keeps with ⟨rfl, rfl⟩ | ⟨j, g, hj, hg, hkept⟩
  · exact ⟨m.context.stack.size, f, howes.fp_le_size, by rw [h.frameAt, if_pos rfl], h.saves⟩
  · exact ⟨j, g, hj, h.frames j g hg, hkept⟩

/-- A function begins without deferred calls. -/
theorem EntersFrame.owes_back {f : Frame} (h : m.EntersFrame m' f)
    (howes : m'.context.Owes fp ds) : m.context.Owes fp ds ∨ ds = [] := by
  rcases howes.keeps with ⟨-, rfl⟩ | ⟨j, g, hj, hg, hfp, hdeferred⟩
  · exact .inr h.deferred_eq
  have hsize : j ≤ m.context.stack.size := by
    have hlt := Context.lt_size_of_frame hg
    rw [h.stack_eq, Array.size_push] at hlt
    omega
  have hown : fp = 0 ∨ ∃ g, m.context.frameAt (fp - 1) = some g := by
    rcases Nat.eq_zero_or_pos fp with hzero | hpos
    · exact .inl hzero
    refine howes.own.imp id fun ⟨g, hg⟩ => ⟨g, ?_⟩
    rwa [h.frameAt, if_neg (by omega)] at hg
  rw [h.frameAt] at hg
  split at hg
  · cases hg
    exact .inl ⟨hown, .inl ⟨h.saves.1.symm.trans hfp, h.saves.2.symm.trans hdeferred⟩⟩
  · exact .inl ⟨hown, .inr ⟨j, g, hj, hg, hfp, hdeferred⟩⟩

theorem Awaits.owes_back {awaiting : Awaiting} (h : m.Awaits awaiting m')
    (howes : m'.context.Owes fp ds) : ds = [] := by
  rcases howes.keeps with ⟨-, rfl⟩ | ⟨j, f, -, hf, -⟩
  · exact h.deferred_eq
  · rw [h.frames] at hf
    cases hf

theorem Rise.owes (h : m.Rise m') (hm : m.Layered) (howes : m.Owes k fp ds) :
    m'.Owes k fp ds := by
  rcases Nat.lt_or_eq_of_le howes.level with hlt | rfl
  · cases h with
    | works h => exact (owes_of_append [] h.suspended_eq hlt).2 howes
    | enters h => exact (owes_of_append [] h.suspended_eq hlt).2 howes
    | asks h => exact (owes_of_append [_] h.suspended_eq hlt).2 howes
  · have hrunning := (owes_of_level rfl).1 howes
    cases h with
    | works h =>
      exact (owes_of_level (congrArg List.length h.suspended_eq)).2
        (hrunning.congr (h.frames hm.running) h.fp_eq h.deferred_eq)
    | enters h => exact (owes_of_level (congrArg List.length h.suspended_eq)).2 (h.owes hrunning)
    | asks h => exact (owes_of_cons h.suspended_eq).2 hrunning

theorem Rise.owes_back (h : m.Rise m') (howes : m'.Owes k fp ds) :
    m.Owes k fp ds ∨ ds = [] := by
  rcases Nat.lt_or_ge k m.suspended.length with hlt | hge
  · cases h with
    | works h => exact .inl ((owes_of_append [] h.suspended_eq hlt).1 howes)
    | enters h => exact .inl ((owes_of_append [] h.suspended_eq hlt).1 howes)
    | asks h => exact .inl ((owes_of_append [_] h.suspended_eq hlt).1 howes)
  · have hlevel := howes.level
    cases h with
    | works h =>
      rw [h.suspended_eq] at hlevel
      obtain rfl : m.suspended.length = k := by omega
      have hrunning := (owes_of_level (congrArg List.length h.suspended_eq)).1 howes
      exact .inl ((owes_of_level rfl).2 (hrunning.of_fewer h.fewer h.fp_eq h.deferred_eq))
    | enters h =>
      rw [h.suspended_eq] at hlevel
      obtain rfl : m.suspended.length = k := by omega
      have hrunning := (owes_of_level (congrArg List.length h.suspended_eq)).1 howes
      exact (h.owes_back hrunning).imp_left (owes_of_level rfl).2
    | asks h =>
      rcases Nat.lt_or_eq_of_le hge with hlt | rfl
      · have hlast : m'.suspended.length = k := by
          rw [h.suspended_eq, List.length_cons] at hlevel ⊢
          omega
        exact .inr (h.owes_back ((owes_of_level hlast).1 howes))
      · exact .inl ((owes_of_level rfl).2 ((owes_of_cons h.suspended_eq).1 howes))

/-- **Entering functions keeps the deferred calls of the activations there are.** -/
theorem Rises.owes (h : m.Rises m') (hm : m.Layered) (howes : m.Owes k fp ds) :
    m'.Owes k fp ds := by
  induction h with
  | refl => exact howes
  | tail hrises hrise ih => exact hrise.owes (Rises.layered hrises hm) ih

/-- **An activation begins without deferred calls.** -/
theorem Rises.owes_back (h : m.Rises m') (howes : m'.Owes k fp ds) :
    m.Owes k fp ds ∨ ds = [] := by
  induction h with
  | refl => exact .inl howes
  | tail _ hrise ih =>
    rcases hrise.owes_back howes with hbefore | hnil
    · exact ih hbefore
    · exact .inr hnil

/-! ### Functions are left -/

/-- The caller of a function that is left finds its deferred calls in the frame. -/
theorem Quits.owes_back {q : Nat} {f : Frame} (h : Quits q f m m')
    (howes : m'.context.Owes fp ds) : m.context.Owes fp ds := by
  refine ⟨howes.own.imp id fun ⟨g, hg⟩ => ⟨g, (h.fewer _ g hg).2⟩, .inr ?_⟩
  rcases howes.keeps with ⟨hfp, hdeferred⟩ | ⟨j, g, hj, hg, hkept⟩
  · refine ⟨q, f, ?_, h.frame, h.fp_eq.symm.trans hfp, h.deferred_eq.symm.trans hdeferred⟩
    rcases howes.own with rfl | ⟨g, hg⟩
    · exact Nat.zero_le _
    · have := (h.fewer _ g hg).1
      omega
  · exact ⟨j, g, hj, (h.fewer j g hg).2, hkept⟩

theorem Fall.owes_back (h : m.Fall m') (howes : m'.Owes k fp ds) : m.Owes k fp ds := by
  have hsuspended : m'.suspended = m.suspended := by
    cases h with
    | drops h => exact h.suspended_eq
    | quits h => exact h.suspended_eq
  have hlevel := howes.level
  rw [hsuspended] at hlevel
  rcases Nat.lt_or_eq_of_le hlevel with hlt | rfl
  · exact (owes_of_append [] hsuspended hlt).1 howes
  · have hrunning := (owes_of_level (congrArg List.length hsuspended)).1 howes
    refine (owes_of_level rfl).2 ?_
    cases h with
    | drops h => exact hrunning.of_fewer h.fewer h.fp_eq h.deferred_eq
    | quits h => exact h.owes_back hrunning

/-- **Leaving functions changes no deferred calls** of the activations that remain. -/
theorem Falls.owes_back (h : m.Falls m') (howes : m'.Owes k fp ds) : m.Owes k fp ds := by
  induction h with
  | refl => exact howes
  | tail _ hfall ih => exact ih (hfall.owes_back howes)

end Machine

end ScriptMachine
