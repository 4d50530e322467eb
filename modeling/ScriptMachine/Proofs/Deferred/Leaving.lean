import ScriptMachine.Proofs.Deferred.Moves

/-!
# Functions are left

What returns and faults do to the frames of a context and its deferred calls. A function that is
left goes with its frame and all that lies above it, and the deferred calls are those that its frame
had saved; nothing else comes on the stack but values.

* `Machine.Falls`: functions of the running context may have been left.
* `IsFalling.restoreFrame`, `IsFalling.settle`: that is all that dealing with a fault does.
* `Context.Layered`, `falls_popFrame`: and all that a return does.
* `quits_of_restoreFrame`, `quits_of_popFrame`: a function that is left well.
-/

namespace ScriptMachine

/-- The switches of the debugger once a function is left whose frame is this one. -/
def Context.steppingAfter (c : Context) (f : Frame) : Bool × Bool × Bool × Bool :=
  (c.debugging, f.singleStep || c.breakOnReturn, c.stepOver, f.breakOnReturn)

theorem Context.steppingAfter_congr {c c' : Context} (h : c'.stepping = c.stepping) (f : Frame) :
    c'.steppingAfter f = c.steppingAfter f := by
  rw [stepping, stepping, Prod.mk.injEq, Prod.mk.injEq, Prod.mk.injEq] at h
  rw [steppingAfter, steppingAfter, h.1, h.2.2.1, h.2.2.2]

namespace Machine

variable {m m' m'' : Machine}

/-- Slots may have been cut off; the function still runs. -/
structure Drops (m m' : Machine) : Prop where
  suspended_eq : m'.suspended = m.suspended
  fp_eq : m'.context.fp = m.context.fp
  deferred_eq : m'.context.deferred = m.context.deferred
  stepping_eq : m'.context.stepping = m.context.stepping
  fewer : ∀ j f, m'.context.frameAt j = some f → m.context.frameAt j = some f
  output : m.context.output.Extends m'.context.output

/-- The function whose frame lies at a position has been left; no frame lies above that one. -/
structure Quits (q : Nat) (f : Frame) (m m' : Machine) : Prop where
  suspended_eq : m'.suspended = m.suspended
  q_lt : q < m.context.fp
  frame : m.context.frameAt q = some f
  top : ∀ j, q < j → j < m.context.fp → m.context.frameAt j = none
  fp_eq : m'.context.fp = f.fp
  deferred_eq : m'.context.deferred = f.deferred
  stepping_eq : m'.context.stepping = m.context.steppingAfter f
  receivers_eq : m'.context.receivers
    = f.receivers.drop (f.receivers.length - m.context.receivers.length)
  fewer : ∀ j g, m'.context.frameAt j = some g → j < q ∧ m.context.frameAt j = some g
  below : ∀ j < q, j < f.fp → m'.context.frameAt j = m.context.frameAt j
  output : m.context.output.Extends m'.context.output

/-- What leaving functions does, one after the other. -/
inductive Fall (m m' : Machine) : Prop
  | drops (h : m.Drops m')
  | quits {q : Nat} {f : Frame} (h : Quits q f m m')

/-- Functions of the running context may have been left. -/
def Falls : Machine → Machine → Prop := Relation.ReflTransGen Fall

instance : Std.Refl Falls := ⟨fun _ => Relation.ReflTransGen.refl⟩

instance : Trans Falls Falls Falls := ⟨Relation.ReflTransGen.trans⟩

theorem Drops.falls (h : m.Drops m') : m.Falls m' := .single (.drops h)

theorem Works.drops (h : m.Works m') : m.Drops m' :=
  ⟨h.suspended_eq, h.fp_eq, h.deferred_eq, h.stepping_eq, h.fewer, h.output⟩

/-- The frame at a position has been taken off, with all that lies above it. -/
structure TakesFrame (q : Nat) (f : Frame) (m m' : Machine) : Prop where
  suspended_eq : m'.suspended = m.suspended
  q_lt : q < m.context.fp
  frame : m.context.frameAt q = some f
  top : ∀ j, q < j → j < m.context.fp → m.context.frameAt j = none
  fp_eq : m'.context.fp = m.context.fp
  deferred_eq : m'.context.deferred = m.context.deferred
  stepping_eq : m'.context.stepping = m.context.stepping
  receivers_eq : m'.context.receivers = m.context.receivers
  fewer : ∀ j g, m'.context.frameAt j = some g → j < q ∧ m.context.frameAt j = some g
  below : ∀ j < q, m'.context.frameAt j = m.context.frameAt j
  output_eq : m'.context.output = m.context.output

/-- The context has turned to what a frame had saved. -/
structure TurnsTo (f : Frame) (m m' : Machine) : Prop where
  suspended_eq : m'.suspended = m.suspended
  fp_eq : m'.context.fp = f.fp
  deferred_eq : m'.context.deferred = f.deferred
  stepping_eq : m'.context.stepping = m.context.steppingAfter f
  receivers_eq : m'.context.receivers
    = f.receivers.drop (f.receivers.length - m.context.receivers.length)
  fewer : ∀ j g, m'.context.frameAt j = some g → m.context.frameAt j = some g
  below : ∀ j < m.context.fp, j < f.fp → m'.context.frameAt j = m.context.frameAt j
  output : m.context.output.Extends m'.context.output

theorem TurnsTo.after {f : Frame} (h : m.Tidies m') (h' : TurnsTo f m' m'') : TurnsTo f m m'' where
  suspended_eq := h'.suspended_eq.trans h.suspended_eq
  fp_eq := h'.fp_eq
  deferred_eq := h'.deferred_eq
  stepping_eq := h'.stepping_eq.trans (Context.steppingAfter_congr h.stepping_eq f)
  receivers_eq := by
    rw [h'.receivers_eq, h.receivers_eq]
  fewer j g hg := h.fewer j g (h'.fewer j g hg)
  below j hj hfp := (h'.below j (by rw [h.fp_eq]; exact hj) hfp).trans (h.below j hj)
  output := h.output.trans h'.output

theorem TurnsTo.thenTidies {f : Frame} (h : TurnsTo f m m') (h' : m'.Tidies m'') :
    TurnsTo f m m'' where
  suspended_eq := h'.suspended_eq.trans h.suspended_eq
  fp_eq := h'.fp_eq.trans h.fp_eq
  deferred_eq := h'.deferred_eq.trans h.deferred_eq
  stepping_eq := h'.stepping_eq.trans h.stepping_eq
  receivers_eq := h'.receivers_eq.trans h.receivers_eq
  fewer j g hg := h.fewer j g (h'.fewer j g hg)
  below j hj hfp := (h'.below j (by rw [h.fp_eq]; exact hfp)).trans (h.below j hj hfp)
  output := h.output.trans h'.output

theorem TakesFrame.drops {q : Nat} {f : Frame} (h : TakesFrame q f m m') (h' : m'.Works m'') :
    m.Drops m'' where
  suspended_eq := h'.suspended_eq.trans h.suspended_eq
  fp_eq := h'.fp_eq.trans h.fp_eq
  deferred_eq := h'.deferred_eq.trans h.deferred_eq
  stepping_eq := h'.stepping_eq.trans h.stepping_eq
  fewer j g hg := (h.fewer j g (h'.fewer j g hg)).2
  output := by
    rw [← h.output_eq]
    exact h'.output

theorem TakesFrame.quits {q : Nat} {f : Frame} (h : TakesFrame q f m m') (h' : TurnsTo f m' m'') :
    Quits q f m m'' where
  suspended_eq := h'.suspended_eq.trans h.suspended_eq
  q_lt := h.q_lt
  frame := h.frame
  top := h.top
  fp_eq := h'.fp_eq
  deferred_eq := h'.deferred_eq
  stepping_eq := h'.stepping_eq.trans (Context.steppingAfter_congr h.stepping_eq f)
  receivers_eq := by
    rw [h'.receivers_eq, h.receivers_eq]
  fewer j g hg := h.fewer j g (h'.fewer j g hg)
  below j hj hfp := (h'.below j (by rw [h.fp_eq]; exact hj.trans h.q_lt) hfp).trans (h.below j hj)
  output := by
    rw [← h.output_eq]
    exact h'.output

/-- The caller has worked since the function was left. -/
theorem Quits.thenTidies {q : Nat} {f : Frame} (h : Quits q f m m') (h' : m'.Tidies m'') :
    Quits q f m m'' where
  suspended_eq := h'.suspended_eq.trans h.suspended_eq
  q_lt := h.q_lt
  frame := h.frame
  top := h.top
  fp_eq := h'.fp_eq.trans h.fp_eq
  deferred_eq := h'.deferred_eq.trans h.deferred_eq
  stepping_eq := h'.stepping_eq.trans h.stepping_eq
  receivers_eq := h'.receivers_eq.trans h.receivers_eq
  fewer j g hg := h.fewer j g (h'.fewer j g hg)
  below j hlt hj := (h'.below j (by rw [h.fp_eq]; exact hj)).trans (h.below j hlt hj)
  output := h.output.trans h'.output

end Machine

namespace Exec

open Machine

variable {α β : Type}

namespace IsTidying

theorem endLoops (count : Nat) : IsTidying (Exec.endLoops count) := by
  induction count with
  | zero => exact Keeps.pure _
  | succ count ih =>
    refine bind Keeps.context fun c => ?_
    split
    · exact Keeps.pure _
    · exact bind (modifyContext fun _ => rfl) fun _ => bind (release _) fun _ => ih

theorem endLoopsTo (depth : Nat) : IsTidying (Exec.endLoopsTo depth) :=
  bind Keeps.context fun _ => endLoops _

theorem dropScopesTo (target : TableId) : IsTidying (Exec.dropScopesTo target) := by
  intro m
  obtain ⟨j, hout⟩ := outcome_dropScopesTo target m
  rw [hout]
  exact ⟨.ofSame rfl rfl rfl rfl rfl rfl, rfl⟩

theorem publishPackages (stop : TableId) : IsTidying (Exec.publishPackages stop) :=
  IsWorldly.isTidying fun m => (IsRewriting.publishPackages stop m).same

end IsTidying

/-! ### Frames are taken off -/

/-- Taking the frame of the running function off. -/
theorem takeFrame_cases (m : Machine) :
    (∃ halt, (outcome takeFrame m).1 = .error halt ∧ m.Drops (outcome takeFrame m).2) ∨
      ∃ q f m', outcome takeFrame m = (.ok f, m') ∧ TakesFrame q f m m' := by
  rw [takeFrame, outcome_bind_ok (outcome_context m)]
  by_cases hzero : m.context.fp = 0
  · rw [if_pos hzero]
    exact .inl ⟨_, rfl, rfl, rfl, rfl, rfl, fun _ _ h => h, .refl _⟩
  rw [if_neg hzero]
  dsimp only
  rw [outcome_bind_ok (outcome_modifyContext _ m)]
  have hsize : (m.context.stack.extract 0 m.context.fp).size
      = min m.context.fp m.context.stack.size := by
    rw [Array.size_extract, Nat.sub_zero]
  have hfewer : ∀ j g, Context.frameAt { m.context with
      stack := (m.context.stack.extract 0 m.context.fp).pop } j = some g →
      j < min m.context.fp m.context.stack.size - 1 ∧ m.context.frameAt j = some g := by
    intro j g hg
    rw [Context.frameAt_eq_some, Array.getElem?_pop, hsize] at hg
    split at hg
    · rename_i hj
      rw [Array.getElem?_extract, if_pos (by omega), Nat.zero_add,
        ← Context.frameAt_eq_some] at hg
      exact ⟨hj, hg⟩
    · cases hg
  have hbelow : ∀ j < min m.context.fp m.context.stack.size - 1, Context.frameAt { m.context with
      stack := (m.context.stack.extract 0 m.context.fp).pop } j = m.context.frameAt j := by
    intro j hj
    rw [Context.frameAt, Context.frameAt, Array.getElem?_pop, hsize, if_pos hj,
      Array.getElem?_extract, if_pos (by omega), Nat.zero_add]
  split
  · rename_i f hback
    have hf : m.context.frameAt (min m.context.fp m.context.stack.size - 1) = some f := by
      rw [Array.back?_eq_getElem?, hsize, Array.getElem?_extract] at hback
      split at hback
      · rwa [Nat.zero_add, ← Context.frameAt_eq_some] at hback
      · cases hback
    refine .inr ⟨_, f, _, rfl, rfl, by omega, hf, fun j hlt hj => ?_, rfl, rfl, rfl, rfl, hfewer,
      hbelow, rfl⟩
    rw [Context.frameAt, Array.getElem?_eq_none (by omega)]
    rfl
  · exact .inl ⟨_, rfl, rfl, rfl, rfl, rfl, fun j g hg => (hfewer j g hg).2, .refl _⟩

theorem turnsTo_resumed (f : Frame) (m : Machine) :
    TurnsTo f m { m with context := m.context.resumed f } :=
  ⟨rfl, rfl, rfl, rfl, rfl, fun _ _ h => h, fun _ _ _ => rfl, .refl _⟩

/-- What follows once the context has turned to the caller. -/
theorem afterResumed_isTidying (f : Frame) : IsTidying (do
    storeIn .root "__extensions" (.bool f.extensions)
    modifyContext fun c => { c with frameDepth := c.frameDepth - 1 }
    observe (.ret (← context).frameDepth)
    let c ← context
    noteThread .symbol fun _ => s!"pop call frame {f.name}, resume {c.code.name} at {c.pc}") :=
  .bind (IsWorldly.storeIn _ _ _).isTidying fun _ => .bind (.modifyContext fun _ => rfl) fun _ =>
    .bind Keeps.context fun _ => .bind (.observe _) fun _ => .bind Keeps.context fun _ => by
      intro m
      obtain ⟨j, hout⟩ := outcome_noteThread .symbol _ m
      rw [hout]
      exact ⟨.ofSame rfl rfl rfl rfl rfl rfl, rfl⟩

theorem restoreCaller_cases (f : Frame) :
    Keeps (fun m m' => m.Works m' ∨ TurnsTo f m m') (restoreCaller f) := by
  have hafter : ∀ {γ δ : Type} {act : Exec γ} {next : γ → Exec δ}, IsTidying act →
      (∀ a, Keeps (fun m m' => m.Works m' ∨ TurnsTo f m m') (next a)) →
      Keeps (fun m m' => m.Works m' ∨ TurnsTo f m m') (act >>= next) := fun hact hnext =>
    Keeps.weaken (fun h => .inl h.toWorks) (fun h h' => h'.imp (Trans.trans h.toWorks) (.after h))
      hact hnext
  refine hafter (.publishPackages _) fun _ => hafter (.dropScopesTo _) fun _ =>
    hafter (.endLoopsTo _) fun _ m => .inr ?_
  rw [outcome_bind_ok (outcome_modifyContext _ m)]
  exact (turnsTo_resumed f m).thenTidies (afterResumed_isTidying f _)

/-- Once the running function has worked, the rest of an action may turn to a caller. -/
theorem turnsTo_of_bind {f : Frame} {act : Exec α} {next : α → Exec β} (hact : IsTidying act)
    (hnext : ∀ a m b m', outcome (next a) m = (.ok b, m') → TurnsTo f m m') {m m' : Machine} {b : β}
    (hout : outcome (act >>= next) m = (.ok b, m')) : TurnsTo f m m' := by
  obtain ⟨a, m₁, hfirst, hsecond⟩ := outcome_bind_eq_ok.1 hout
  have htidies := hact m
  rw [hfirst] at htidies
  exact (hnext a m₁ b m' hsecond).after htidies

/-- If all goes well, the context has turned to the caller. -/
theorem turnsTo_of_restoreCaller {f : Frame} {m m' : Machine} {u : Unit}
    (hout : outcome (restoreCaller f) m = (.ok u, m')) : TurnsTo f m m' := by
  revert hout
  refine turnsTo_of_bind (.publishPackages _) fun _ m u m' => ?_
  refine turnsTo_of_bind (.dropScopesTo _) fun _ m u m' => ?_
  refine turnsTo_of_bind (.endLoopsTo _) fun _ m u m' hout => ?_
  have hturns := turnsTo_resumed f m
  have hrest := afterResumed_isTidying f { m with context := m.context.resumed f }
  rw [outcome_bind_ok (outcome_modifyContext _ m)] at hout
  rw [hout] at hrest
  exact hturns.thenTidies hrest

/-- An action by which functions may be left. -/
abbrev IsFalling (act : Exec α) : Prop := Keeps Falls act

theorem IsWork.isFalling {act : Exec α} (h : IsWork act) : IsFalling act :=
  fun m => (h m).drops.falls

namespace IsFalling

/-- Changes of other parts of the context. -/
theorem modifyContext {f : Context → Context}
    (hsame : ∀ c, ((f c).stack, (f c).fp, (f c).deferred, (f c).output, (f c).stepping)
      = (c.stack, c.fp, c.deferred, c.output, c.stepping)) : IsFalling (Exec.modifyContext f) :=
  (IsWork.modifyContext hsame).isFalling

theorem bind {act : Exec α} {next : α → Exec β} (hact : IsFalling act)
    (hnext : ∀ a, IsFalling (next a)) : IsFalling (act >>= next) := Keeps.bind hact hnext

/-- **A function is left** with its frame. -/
theorem restoreFrame : IsFalling Exec.restoreFrame := by
  intro m
  rw [restoreFrame_eq]
  rcases takeFrame_cases m with ⟨halt, herror, hdrops⟩ | ⟨q, f, m₁, hout, htakes⟩
  · rw [outcome_bind_error (Prod.ext herror rfl)]
    exact hdrops.falls
  · rw [outcome_bind_ok hout]
    rcases restoreCaller_cases f m₁ with hworks | hturns
    · exact (htakes.drops hworks).falls
    · exact .single (.quits (htakes.quits hturns))

theorem unwindTo (fp fuel : Nat) : IsFalling (Exec.unwindTo fp fuel) := by
  induction fuel with
  | zero => exact Keeps.pure _
  | succ fuel ih =>
    exact bind Keeps.context fun c => Keeps.ite (bind
      (bind (modifyContext fun _ => rfl) fun _ => restoreFrame) fun _ => ih)
      (Keeps.pure _)

/-- Slots are cut off. -/
theorem cut (n : Nat) : IsFalling
    (Exec.modifyContext fun c => { c with stack := c.stack.extract 0 n }) := by
  intro m
  rw [outcome_modifyContext]
  refine Drops.falls ⟨rfl, rfl, rfl, rfl, fun j f hf => ?_, .refl _⟩
  rw [Context.frameAt_eq_some, Array.getElem?_extract] at hf
  split at hf
  · rwa [Nat.zero_add, ← Context.frameAt_eq_some] at hf
  · cases hf

theorem catchAt (handler : Handler) (outer : List Handler) (f : Fault) :
    IsFalling (Exec.catchAt handler outer f) :=
  bind Keeps.context fun _ => bind (unwindTo _ _) fun _ =>
    bind (modifyContext fun _ => rfl) fun _ =>
    bind (IsTidying.dropScopesTo _).isWork.isFalling fun _ => bind (cut _) fun _ =>
    bind (IsTidying.endLoopsTo _).isWork.isFalling fun _ =>
    bind (modifyContext fun _ => rfl) fun _ => bind Keeps.context fun _ =>
    bind (IsTidying.observe _).isWork.isFalling fun _ => bind Keeps.context fun _ =>
    (IsPlain.storeIn _ _ _).isWork.isFalling

theorem abandon (f : Fault) : IsFalling (Exec.abandon f) := by
  have hrest : ∀ c : Context, IsFalling (do
      tryCatch (Exec.unwindTo 0 (c.stack.size + 1)) fun _ => Pure.pure ()
      Exec.modifyContext fun c => { c with running := false }
      Exec.fail f : Exec Unit) := fun c =>
    bind (Keeps.tryCatch (unwindTo _ _) fun _ => Keeps.pure _) fun _ =>
      bind (modifyContext fun _ => rfl) fun _ => Keeps.fail f
  refine bind Keeps.context fun c => ?_
  dsimp only
  split
  · exact bind (IsWork.onWorld _).isFalling fun _ => hrest c
  · exact hrest c

theorem recover (f : Fault) : IsFalling (Exec.recover f) := by
  refine Keeps.ite (Keeps.fail f) (bind Keeps.context fun c => ?_)
  dsimp only
  split
  · exact catchAt _ _ _
  · exact abandon _

/-- **Dealing with a fault leaves functions**, and sets nothing going. -/
theorem settle (f : Fault) : IsFalling (Exec.settle f) := by
  refine Keeps.ite IsWork.finish.isFalling (Keeps.tryCatch (recover f) fun halt => ?_)
  cases halt with
  | fault g =>
    intro m
    have hworks : m.Works (outcome (endWith g) m).2 := .ofSame rfl rfl rfl rfl rfl rfl
    exact hworks.drops.falls
  | blocked => exact Keeps.wait

end IsFalling

end Exec

/-! ### Returns -/

/-- No frame lies above the frame pointer, and none between a frame and the frame pointer it
saved. -/
structure Context.Layered (c : Context) : Prop where
  top : ∀ j, c.fp ≤ j → c.frameAt j = none
  between : ∀ j f, c.frameAt j = some f → ∀ i, f.fp ≤ i → i < j → c.frameAt i = none

namespace Exec

open Machine

/-- Slots without frames have been put on. -/
theorem tidies_append {m : Machine} {slots : Array Slot}
    (h : ∀ j : Nat, slots[j]?.bind Slot.frame? = none) :
    m.Tidies { m with context := { m.context with stack := m.context.stack ++ slots } } := by
  have hsame : ∀ j, Context.frameAt { m.context with stack := m.context.stack ++ slots } j
      = m.context.frameAt j := fun j => by
    rw [Context.frameAt, Context.frameAt, Array.getElem?_append]
    split
    · rfl
    · rw [h, Array.getElem?_eq_none (by omega)]
      rfl
  exact ⟨⟨rfl, rfl, rfl, rfl, fun j f hf => (hsame j).symm.trans hf, fun j _ => hsame j, .refl _⟩,
    rfl⟩

/-- No frame lies among the operands of a function. -/
theorem frame?_operands {c : Context} (h : c.Layered) (j : Nat) :
    c.operands[j]?.bind Slot.frame? = none := by
  rw [Context.operands, Array.getElem?_extract]
  split
  · exact h.top _ (Nat.le_add_right _ _)
  · rfl

/-- What a return puts back once the function is left: its operands, or else its result. -/
theorem returned_isTidying {c : Context} (h : c.Layered) {result : Exec Unit}
    (hresult : IsTidying result) : IsTidying (if c.operands.isEmpty then result
      else modifyContext fun c' => { c' with stack := c'.stack ++ c.operands }) := by
  refine Keeps.ite hresult fun m => ?_
  rw [outcome_modifyContext]
  exact tidies_append (frame?_operands h)

/-- The stack without the operands of a function holds the same frames. -/
theorem frameAt_lower {c : Context} (h : c.Layered) (j : Nat) :
    Context.frameAt { c with stack := c.stack.extract 0 c.fp, result := none } j = c.frameAt j := by
  rw [Context.frameAt, Array.getElem?_extract]
  split
  · rw [Nat.zero_add]
    rfl
  · rcases Nat.lt_or_ge j c.fp with hlt | hge
    · rw [Context.frameAt, Array.getElem?_eq_none (by omega : c.stack.size ≤ j)]
    · rw [h.top j hge]
      rfl

/-- **A return leaves the function**; it puts back values alone. -/
theorem falls_popFrame {m : Machine} (h : m.context.Layered) :
    m.Falls (outcome popFrame m).2 := by
  rw [popFrame, outcome_bind_ok (outcome_context m)]
  by_cases hbad : m.context.fp = 0 ∨ m.context.stack.size < m.context.fp
  · rw [if_pos hbad]
    exact Std.Refl.refl m
  rw [if_neg hbad]
  dsimp only
  rw [outcome_bind_ok (outcome_modifyContext _ m)]
  have hcut : m.Falls { m with context := { m.context with
      stack := m.context.stack.extract 0 m.context.fp } } := IsFalling.cut m.context.fp m
  have hclear := IsFalling.modifyContext (f := fun c => { c with result := none }) (fun _ => rfl)
    { m with context := { m.context with stack := m.context.stack.extract 0 m.context.fp } }
  have hfirst : m.Falls { m with context := { m.context with
      stack := m.context.stack.extract 0 m.context.fp, result := none } } :=
    Relation.ReflTransGen.trans hcut hclear
  refine Trans.trans hfirst (IsFalling.bind .restoreFrame (fun _ =>
    (returned_isTidying h ?_).isWork.isFalling) _)
  split
  · exact .push _
  · exact Keeps.pure _

/-! ### Functions that are left well -/

/-- Taking a frame off and turning to the caller leaves the function. -/
theorem quits_of_restoreFrame {m m' : Machine} {u : Unit}
    (hout : outcome restoreFrame m = (.ok u, m')) : ∃ q f, Quits q f m m' := by
  rw [restoreFrame_eq] at hout
  obtain ⟨f, m₁, htake, hrestore⟩ := outcome_bind_eq_ok.1 hout
  rcases takeFrame_cases m with ⟨halt, herror, -⟩ | ⟨q, g, m₂, htaken, htakes⟩
  · rw [htake] at herror
    cases herror
  · rw [htake] at htaken
    cases htaken
    exact ⟨q, f, htakes.quits (turnsTo_of_restoreCaller hrestore)⟩

/-- **A return that goes well leaves the function whose frame lies on top.** -/
theorem quits_of_popFrame {m m' : Machine} {u : Unit} (h : m.context.Layered)
    (hout : outcome popFrame m = (.ok u, m')) : ∃ q f, Quits q f m m' := by
  rw [popFrame, outcome_bind_ok (outcome_context m)] at hout
  by_cases hbad : m.context.fp = 0 ∨ m.context.stack.size < m.context.fp
  · rw [if_pos hbad] at hout
    cases hout
  rw [if_neg hbad] at hout
  dsimp only at hout
  rw [outcome_bind_ok (outcome_modifyContext _ m)] at hout
  obtain ⟨_, m₂, hrestore, hreturned⟩ := outcome_bind_eq_ok.1 hout
  have htidies : m₂.Tidies m' := by
    rw [show m' = (outcome _ m₂).2 from (congrArg Prod.snd hreturned).symm]
    refine returned_isTidying h ?_ m₂
    split
    · exact .push _
    · exact Keeps.pure _
  obtain ⟨q, f, hquits⟩ := quits_of_restoreFrame hrestore
  have hsame := frameAt_lower h
  have hwhole : Quits q f m m₂ :=
    { hquits with
      frame := (hsame q).symm.trans hquits.frame
      top := fun j hlt hj => (hsame j).symm.trans (hquits.top j hlt hj)
      fewer := fun j g hg => ⟨(hquits.fewer j g hg).1, (hsame j).symm.trans (hquits.fewer j g hg).2⟩
      below := fun j hlt hj => (hquits.below j hlt hj).trans (hsame j) }
  exact ⟨q, f, hwhole.thenTidies htidies⟩

end Exec

end ScriptMachine
