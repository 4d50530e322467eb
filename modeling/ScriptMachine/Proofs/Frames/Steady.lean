import ScriptMachine.Proofs.Action.Instructions

/-!
# Steady actions

Actions that stay in the running function: they keep the code, the frame pointer, the frames, the
handlers and the contexts that wait, and they neither read nor write the slots below the frame
pointer.

* `Footing`, `Machine.Has`: what a steady action keeps.
* `Context.overlay`: a context with other slots at the bottom of its stack.
* `Exec.IsSteady`: an action keeps the footing and does not depend on the slots below it.
* `IsLocal.isSteady`: local actions are steady.
* `IsSteady.lower_eq`: a steady action leaves the slots below the frame pointer as they are.
* `IsSteady.beginLoop`, `IsSteady.popScope` and companions: so are the actions that open and close
  loops, blocks and packages.
-/

namespace ScriptMachine

/-- What the running function stands on. -/
structure Footing where
  code : Code
  fp : Nat
  frameDepth : Nat
  handlers : List Handler
  suspended : List Suspended
  ended : Option (Except Fault Unit)

/-- What the running function of a machine stands on. -/
def Machine.footing (m : Machine) : Footing where
  code := m.context.code
  fp := m.context.fp
  frameDepth := m.context.frameDepth
  handlers := m.context.handlers
  suspended := m.suspended
  ended := m.ended

/-- The running function is grounded and stands on a footing. -/
structure Machine.Has (s : Footing) (m : Machine) : Prop where
  grounded : m.context.Grounded
  footing_eq : m.footing = s

/-- The context with other slots at the bottom of its stack. -/
def Context.overlay (bottom : Array Slot) (c : Context) : Context :=
  { c with stack := bottom ++ c.stack.extract bottom.size c.stack.size }

/-- The machine with other slots at the bottom of the running context's stack. -/
def Machine.overlay (bottom : Array Slot) (m : Machine) : Machine :=
  { m with context := m.context.overlay bottom }

namespace Context

variable {c : Context} {bottom : Array Slot}

theorem size_overlay (h : bottom.size ≤ c.stack.size) :
    (c.overlay bottom).stack.size = c.stack.size := by
  simp only [overlay, Array.size_append, Array.size_extract]
  omega

theorem overlay_lower (h : c.fp ≤ c.stack.size) : c.overlay c.lower = c := by
  have hsize := size_lower h
  have hstack : c.lower ++ c.stack.extract c.lower.size c.stack.size = c.stack := by
    rw [hsize]
    exact lower_append_operands h
  simp only [overlay, hstack]

/-- Other slots at the bottom are other surroundings of the operands. -/
theorem overlay_eq_within (m : Machine) (h : bottom.size ≤ m.context.fp)
    (hfp : m.context.fp ≤ m.context.stack.size) :
    m.overlay bottom = m.within { m.surroundings with
      lower := bottom ++ m.context.lower.extract bottom.size m.context.fp } := by
  have hlower := size_lower hfp
  have hstack : bottom ++ m.context.stack.extract bottom.size m.context.stack.size
      = bottom ++ m.context.lower.extract bottom.size m.context.fp ++ m.context.operands := by
    have hmin : min (0 + m.context.fp) m.context.fp = m.context.fp := by omega
    rw [lower, operands, Array.extract_extract, Array.append_assoc, hmin, Nat.zero_add,
      Array.extract_append_extract, Nat.min_eq_left h, Nat.max_eq_right hfp]
  have hsize : (bottom ++ m.context.lower.extract bottom.size m.context.fp).size
      = m.context.fp := by
    simp only [Array.size_append, Array.size_extract]
    omega
  simp only [Machine.overlay, overlay, Machine.within, Context.within, Machine.surroundings,
    hsize, hstack]

end Context

theorem Machine.has_self {m : Machine} (h : m.context.Grounded) : m.Has m.footing := ⟨h, rfl⟩

theorem Machine.Has.fp_eq {m : Machine} {s : Footing} (h : m.Has s) : m.context.fp = s.fp :=
  congrArg Footing.fp h.footing_eq

theorem Machine.Has.code_eq {m : Machine} {s : Footing} (h : m.Has s) :
    m.context.code = s.code := congrArg Footing.code h.footing_eq

theorem Machine.Has.handlers_eq {m : Machine} {s : Footing} (h : m.Has s) :
    m.context.handlers = s.handlers := congrArg Footing.handlers h.footing_eq

theorem Machine.Has.suspended_eq {m : Machine} {s : Footing} (h : m.Has s) :
    m.suspended = s.suspended := congrArg Footing.suspended h.footing_eq

theorem Machine.Has.ended_eq {m : Machine} {s : Footing} (h : m.Has s) : m.ended = s.ended :=
  congrArg Footing.ended h.footing_eq

namespace Exec

variable {α β : Type}

/-- An action that keeps the footing of the running function, and neither reads nor writes the
slots below it. -/
def IsSteady (act : Exec α) : Prop :=
  ∀ (s : Footing) (bottom : Array Slot), bottom.size ≤ s.fp →
    Respects (·.overlay bottom) (Machine.Has s) act

/-- Local actions are steady. -/
theorem IsLocal.isSteady {act : Exec α} (h : IsLocal act) : IsSteady act := by
  intro s bottom hbottom m hm
  have hfp := hm.grounded.fp_le
  have hle : bottom.size ≤ m.context.fp := by
    rw [hm.fp_eq]
    exact hbottom
  have hsame := h.surroundings_eq hm.grounded
  have hlower : (outcome act m).2.context.lower = m.context.lower :=
    congrArg Surroundings.lower hsame
  obtain ⟨hcomm, hsettled⟩ := h { m.surroundings with
    lower := bottom ++ m.context.lower.extract bottom.size m.context.fp } _ _ _ m
      (Machine.settled_self hm.grounded)
  have hground := hsettled.grounded
  have hfp_eq : (outcome act m).2.context.fp = m.context.fp := by
    rw [← Context.size_lower hground.fp_le, hlower, Context.size_lower hfp]
  refine ⟨?_, hground, ?_⟩
  · show outcome act (m.overlay bottom) = (_, (outcome act m).2.overlay bottom)
    rw [Context.overlay_eq_within m hle hfp, hcomm,
      Context.overlay_eq_within _ (by omega) hground.fp_le, hsame, hlower, hfp_eq]
  · rw [← hm.footing_eq]
    simp only [Machine.footing, hfp_eq]
    have hdepth := congrArg Surroundings.frameDepth hsame
    have hhandlers := congrArg Surroundings.handlers hsame
    have hsuspended := congrArg Surroundings.suspended hsame
    have hended := congrArg Surroundings.ended hsame
    simp only [Machine.surroundings] at hdepth hhandlers hsuspended hended
    rw [hsettled.code_eq, hdepth, hhandlers, hsuspended, hended]

namespace IsSteady

theorem pure (a : α) : IsSteady (Pure.pure a) := fun _ _ _ => Respects.pure a

theorem fail (f : Fault) : IsSteady (Exec.fail f : Exec α) := fun _ _ _ => Respects.throw _

theorem wait : IsSteady (Exec.wait : Exec α) := fun _ _ _ => Respects.throw _

theorem bind {act : Exec α} {next : α → Exec β} (hact : IsSteady act)
    (hnext : ∀ a, IsSteady (next a)) : IsSteady (act >>= next) :=
  fun s bottom h => (hact s bottom h).bind fun a => hnext a s bottom h

theorem ite {p : Prop} [Decidable p] {yes no : Exec α} (hyes : IsSteady yes) (hno : IsSteady no) :
    IsSteady (if p then yes else no) := by
  split
  · exact hyes
  · exact hno

/-- Reading parts of the machine other than the stack. -/
theorem get_bind {next : Machine → Exec β} (hread : ∀ m bottom, next (m.overlay bottom) = next m)
    (hnext : ∀ m, IsSteady (next m)) : IsSteady (get >>= next) :=
  fun s bottom h => Respects.get_bind (fun m => hread m bottom) fun m => hnext m s bottom h

/-- Reading parts of the context other than the stack. -/
theorem context_bind {next : Context → Exec β}
    (hread : ∀ c bottom, next (c.overlay bottom) = next c)
    (hnext : ∀ c, IsSteady (next c)) : IsSteady (context >>= next) := by
  have hget : (context >>= next) = (get >>= fun m => next m.context) := rfl
  rw [hget]
  exact get_bind (fun m bottom => hread m.context bottom) fun m => hnext m.context

/-- Any computation on the world. -/
theorem onWorld (act : WorldM α) : IsSteady (Exec.onWorld act) :=
  fun _ _ _ _ hm => ⟨rfl, hm.grounded, hm.footing_eq⟩

/-- Changes of the machine that keep the footing and the stack. -/
theorem ofModify {f : Machine → Machine} (hcomm : ∀ m bottom, f (m.overlay bottom)
    = (f m).overlay bottom) (hstack : ∀ m, (f m).context.stack = m.context.stack)
    (hfooting : ∀ m, (f m).footing = m.footing) : IsSteady (modify f) := by
  intro s bottom _
  refine Respects.ofModify (fun m _ => hcomm m bottom) fun m hm => ⟨⟨?_, ?_⟩, ?_⟩
  · have hfp : (f m).context.fp = m.context.fp := congrArg Footing.fp (hfooting m)
    rw [hstack, hfp]
    exact hm.grounded.fp_le
  · have hfp : (f m).context.fp = m.context.fp := congrArg Footing.fp (hfooting m)
    rw [Context.operands, hstack, hfp]
    exact hm.grounded.values
  · exact (hfooting m).trans hm.footing_eq

/-- Changes of the context that keep the footing and the stack. -/
theorem modifyContext {f : Context → Context} (hcomm : ∀ c bottom, f (c.overlay bottom)
    = (f c).overlay bottom) (hstack : ∀ c, (f c).stack = c.stack) (hfp : ∀ c, (f c).fp = c.fp)
    (hdepth : ∀ c, (f c).frameDepth = c.frameDepth)
    (hhandlers : ∀ c, (f c).handlers = c.handlers)
    (hcode : ∀ c, (f c).code = c.code) :
    IsSteady (Exec.modifyContext f) := by
  refine ofModify (fun m bottom => ?_) (fun m => hstack m.context) fun m => ?_
  · simp only [Machine.overlay, hcomm]
  · simp only [Machine.footing, hcode, hfp, hdepth, hhandlers]

/-- A steady action leaves the slots below the frame pointer as they are. -/
theorem lower_eq {act : Exec α} (h : IsSteady act) {m : Machine} (hm : m.context.Grounded) :
    (outcome act m).2.context.lower = m.context.lower := by
  have hfp := hm.fp_le
  have hsize := Context.size_lower hfp
  obtain ⟨hcomm, hhas⟩ := h m.footing m.context.lower (Nat.le_of_eq hsize) m (Machine.has_self hm)
  have hself : m.overlay m.context.lower = m := by
    simp only [Machine.overlay, Context.overlay_lower hfp]
  simp only [hself] at hcomm
  have hctx : (outcome act m).2.context.stack
      = m.context.lower ++ (outcome act m).2.context.stack.extract m.context.lower.size
          (outcome act m).2.context.stack.size := by
    have := congrArg (fun r : Except Halt α × Machine => r.2.context.stack) hcomm
    exact this
  rw [Context.lower, hhas.fp_eq, hctx]
  show (m.context.lower ++ _).extract 0 m.context.fp = _
  rw [← hsize, Array.extract_append, Nat.sub_self]
  simp

/-! ### Loops -/

theorem createLoopName (name : String) : IsSteady (Exec.createLoopName name) :=
  (IsLocal.get_bind (fun _ _ => rfl) fun _ =>
    IsLocal.ite (IsLocal.create name) (IsLocal.pure ())).isSteady

theorem walkOver (v : Value) : IsSteady (Exec.walkOver v) := by
  unfold Exec.walkOver
  split
  · exact pure _
  · refine IsLocal.heap.isSteady.bind fun h => ?_
    split
    · exact (onWorld _).bind fun _ => pure _
    · exact pure _
  · refine IsLocal.heap.isSteady.bind fun h => ?_
    split
    · exact (onWorld _).bind fun _ => pure _
    · exact pure _
  · exact pure _
  · exact fail _

theorem beginLoop (operand : Value) : IsSteady (Exec.beginLoop operand) := by
  refine IsLocal.heap.isSteady.bind fun h => ?_
  dsimp only
  refine (createLoopName _).bind fun _ => (createLoopName _).bind fun _ =>
    IsLocal.popUnwrapped.isSteady.bind fun v => (walkOver v).bind fun walked => ?_
  exact modifyContext (fun _ _ => rfl) (fun _ => rfl) (fun _ => rfl) (fun _ => rfl)
    (fun _ => rfl) fun _ => rfl

theorem nextOf (l : Loop) : IsSteady (Exec.nextOf l) := by
  refine IsLocal.isSteady (IsLocal.heap.bind fun h => ?_)
  split
  · exact IsLocal.pure _
  · split
    · exact IsLocal.pure _
    · exact (IsLocal.lift _).bind fun _ => IsLocal.pure _
  · exact IsLocal.pure _
  · exact IsLocal.ite (IsLocal.pure _)
      ((IsLocal.ofWorldAction (.receive _)).bind fun _ => IsLocal.pure _)

theorem release (l : Loop) : IsSteady (Exec.release l) := by
  unfold Exec.release
  split
  · exact onWorld _
  · exact onWorld _
  · exact pure _
  · exact pure _

theorem storeLoopName (name : String) (v : Value) : IsSteady (Exec.storeLoopName name v) :=
  ite (IsLocal.store name v).isSteady (pure ())

theorem nextRound (operand : Value) : IsSteady (Exec.nextRound operand) := by
  refine (IsLocal.branchTarget operand).isSteady.bind fun leave =>
    context_bind (fun _ _ => rfl) fun c => ?_
  split
  · exact modifyContext (fun _ _ => rfl) (fun _ => rfl) (fun _ => rfl) (fun _ => rfl)
      (fun _ => rfl) fun _ => rfl
  · refine (nextOf _).bind fun round => ?_
    split
    · refine bind (modifyContext (fun _ _ => rfl) (fun _ => rfl) (fun _ => rfl) (fun _ => rfl)
        (fun _ => rfl) fun _ => rfl) fun _ => release _
    · refine bind (modifyContext (fun _ _ => rfl) (fun _ => rfl) (fun _ => rfl) (fun _ => rfl)
        (fun _ => rfl) fun _ => rfl) fun _ => (storeLoopName _ _).bind fun _ => storeLoopName _ _

/-! ### Blocks and packages -/

theorem setScopes (a : Arena) : IsSteady (Exec.setScopes a) :=
  ofModify (fun _ _ => rfl) (fun _ => rfl) fun _ => rfl

theorem pushScope : IsSteady Exec.pushScope := by
  refine context_bind (fun _ _ => rfl) fun c => (onWorld _).bind fun table => ?_
  exact modifyContext (fun _ _ => rfl) (fun _ => rfl) (fun _ => rfl) (fun _ => rfl)
    (fun _ => rfl) fun _ => rfl

theorem popScope : IsSteady Exec.popScope := by
  refine context_bind (fun _ _ => rfl) fun c => IsLocal.scopes.isSteady.bind fun a => ?_
  dsimp only
  split
  · exact fail _
  · refine (onWorld _).bind fun _ => IsLocal.scopes.isSteady.bind fun a => ?_
    refine bind (IsLocal.noteThread _ _).isSteady fun _ => ?_
    exact modifyContext (fun _ _ => rfl) (fun _ => rfl) (fun _ => rfl) (fun _ => rfl)
      (fun _ => rfl) fun _ => rfl

theorem packageNamed (name : String) : IsSteady (Exec.packageNamed name) := by
  refine IsLocal.scopes.isSteady.bind fun a => ?_
  dsimp only
  split
  · exact pure _
  · exact onWorld _

theorem packageTable (r : Ref .package) (name : String) : IsSteady (Exec.packageTable r name) := by
  refine IsLocal.heap.isSteady.bind fun h => ?_
  dsimp only
  refine IsLocal.scopes.isSteady.bind fun a => ?_
  split
  · exact pure _
  · refine (onWorld _).bind fun table => IsLocal.scopes.isSteady.bind fun a => ?_
    exact (IsLocal.lift _).isSteady.bind fun _ => (setScopes _).bind fun _ =>
      (onWorld _).bind fun _ => pure _

theorem pushPackage (operand : Value) : IsSteady (Exec.pushPackage operand) := by
  refine (IsLocal.operandName operand).isSteady.bind fun name => (packageNamed name).bind fun r =>
    (packageTable r name).bind fun table => ?_
  exact modifyContext (fun _ _ => rfl) (fun _ => rfl) (fun _ => rfl) (fun _ => rfl)
    (fun _ => rfl) fun _ => rfl

theorem popPackage : IsSteady Exec.popPackage := by
  refine context_bind (fun _ _ => rfl) fun c => ?_
  split
  · exact fail _
  · refine bind (modifyContext (fun _ _ => rfl) (fun _ => rfl) (fun _ => rfl) (fun _ => rfl)
      (fun _ => rfl) fun _ => rfl) fun _ => ?_
    refine IsLocal.scopes.isSteady.bind fun a => IsLocal.heap.isSteady.bind fun h => ?_
    dsimp only
    refine (onWorld _).bind fun _ => bind (IsLocal.noteThread _ _).isSteady fun _ =>
      bind (IsLocal.storeIn _ _ _).isSteady fun _ => ?_
    exact modifyContext (fun _ _ => rfl) (fun _ => rfl) (fun _ => rfl) (fun _ => rfl)
      (fun _ => rfl) fun _ => rfl

/-! ### Deferred calls, tasks and the debugger -/

theorem popCall (count : Nat) : IsLocal (Exec.popCall count) :=
  (IsLocal.popArgs count).bind fun _ => IsLocal.popUnwrapped.bind fun _ => IsLocal.pure _

theorem deferCall (operand : Value) : IsSteady (Exec.deferCall operand) := by
  refine (IsLocal.operandCount operand 0).isSteady.bind fun count =>
    (popCall count).isSteady.bind fun p => ?_
  exact modifyContext (fun _ _ => rfl) (fun _ => rfl) (fun _ => rfl) (fun _ => rfl)
    (fun _ => rfl) fun _ => rfl

theorem go (operand : Value) : IsSteady (Exec.go operand) := by
  refine (IsLocal.operandCount operand 0).isSteady.bind fun count =>
    (IsLocal.popArgs count).isSteady.bind fun args => IsLocal.popUnwrapped.isSteady.bind fun v =>
    IsLocal.heap.isSteady.bind fun h => ?_
  dsimp only
  refine bind (IsLocal.noteThread _ _).isSteady fun _ => ?_
  exact ofModify (fun _ _ => rfl) (fun _ => rfl) fun _ => rfl

theorem joinTasks : IsSteady Exec.joinTasks := by
  refine get_bind (fun _ _ => rfl) fun m => ?_
  split
  · exact wait
  · refine bind (modifyContext (fun _ _ => rfl) (fun _ => rfl) (fun _ => rfl) (fun _ => rfl)
      (fun _ => rfl) fun _ => rfl) fun _ => ?_
    split
    · exact fail _
    · exact pure _

theorem awaitTarget (target : Option Value) : IsSteady
    (match target.map Value.unwrapped with
      | some (.waitGroup r) => Exec.ofWorldAction (WorldAction.awaitZero r)
      | _ => Exec.joinTasks) := by
  split
  · exact (IsLocal.ofWorldAction (.awaitZero _)).isSteady
  · exact joinTasks

theorem await (operand : Value) : IsSteady (Exec.await operand) := by
  unfold Exec.await
  split
  · exact (pure _).bind awaitTarget
  · exact (IsLocal.lookup? _).isSteady.bind awaitTarget
  · exact (pure _).bind awaitTarget

theorem atLine (operand : Value) : IsSteady (Exec.atLine operand) := by
  refine (IsLocal.lift _).isSteady.bind fun line => ?_
  refine bind (modifyContext (fun _ _ => rfl) (fun _ => rfl) (fun _ => rfl) (fun _ => rfl)
    (fun _ => rfl) fun _ => rfl) fun _ => ?_
  exact context_bind (fun _ _ => rfl) fun c => ite (fail _) (pure _)

end IsSteady

end Exec

end ScriptMachine
