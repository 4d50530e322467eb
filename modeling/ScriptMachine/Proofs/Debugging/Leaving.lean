import ScriptMachine.Proofs.Debugging.Instructions

/-!
# Leaving functions under a veil

A frame on the stack keeps the step flags of its caller, and a veil may cover these. So leaving a
function is discreet as a whole, though the frame that is taken looks different under a veil.

* `Mirrors.restoreFrame`, `IsDiscreet.popFrame`, `IsDiscreet.unwindTo`: leaving functions.
* `IsDiscreet.recover`, `IsDiscreet.settle`: dealing with faults.
* `IsDiscreet.return_`, `IsDiscreet.afterScratch`: returns and deferred calls.
-/

namespace ScriptMachine

namespace Exec

variable {b : Bool} {k : Veil}

namespace IsDiscreet

/-! ### Scopes, loops and packages -/

theorem endLoops (count : Nat) : IsDiscreet (Exec.endLoops count) := by
  induction count with
  | zero => exact pure _
  | succ count ih =>
    refine context_bind (fun _ _ => rfl) fun c => ?_
    split
    · exact pure _
    · exact bind (adjust (fun _ _ => rfl) fun _ => rfl) fun _ => (release _).bind fun _ => ih

theorem endLoopsTo (depth : Nat) : IsDiscreet (Exec.endLoopsTo depth) :=
  context_bind (fun _ _ => rfl) fun _ => endLoops _

theorem dropScopesTo (target : TableId) : IsDiscreet (Exec.dropScopesTo target) := by
  refine scopes.bind fun a => context_bind (fun _ _ => rfl) fun c => ?_
  refine (forIn _ _ _ fun table _ => ?_).bind fun _ => adjust (fun _ _ => rfl) fun _ => rfl
  exact (onWorld (World.remove_isUnread _)).bind fun _ => pure _

theorem publishVariable (scope : String) (package : Ref .package) (name : String) (v : Value) :
    IsDiscreet (Exec.publishVariable scope package name v) := by
  refine (onWorld (World.note_isUnread _ _)).bind fun _ => heap.bind fun _ => ?_
  split
  · exact (storeIn _ _ _).bind fun _ => heap.bind fun _ => onHeap _
  · exact heap.bind fun _ => onHeap _

theorem findPackage (name : String) (first second : TableId) :
    IsDiscreet (Exec.findPackage name first second) := by
  refine scopes.bind fun a => ?_
  dsimp only
  split <;> exact pure _

theorem publishPackages (stop : TableId) : IsDiscreet (Exec.publishPackages stop) := by
  refine scopes.bind fun a => context_bind (fun _ _ => rfl) fun c => ?_
  dsimp only
  refine (forIn _ _ _ fun table _ => ite ?_ (pure _)).bind fun _ => pure _
  refine (findPackage _ _ _).bind fun found => ?_
  split
  · refine scopes.bind fun _ => (forIn _ _ _ fun p _ => ?_).bind fun _ => pure _
    exact ite ((publishVariable _ _ _ _).bind fun _ => pure _) (pure _)
  · exact pure _

end IsDiscreet

/-! ### Frames -/

/-- Taking a frame cuts the stack at it. -/
theorem outcome_takeFrame_eq (m : Machine) : outcome takeFrame m =
    if m.context.fp = 0 then (.error (.fault (.bare .invalidCallFrame)), m)
    else
      ((match (m.context.stack.extract 0 m.context.fp).back? with
        | some (.frame f) => .ok f
        | _ => .error (.fault (.bare .invalidCallFrame))),
        m.withStack (m.context.stack.extract 0 m.context.fp).pop) := by
  unfold takeFrame
  rw [outcome_bind_ok (outcome_context m)]
  dsimp only
  split
  · rfl
  · rw [outcome_bind_ok (outcome_modifyContext _ _)]
    rcases (m.context.stack.extract 0 m.context.fp).back? with _ | (v | f) <;> rfl

/-- The frame that is taken under a veil is the same one, under the veil. -/
theorem takeFrame_veiled {m : Machine} (hm : m.Tended b) :
    outcome takeFrame (m.veiled k)
      = ((outcome takeFrame m).1.map (Frame.veiled k), (outcome takeFrame m).2.veiled k) ∧
    (outcome takeFrame m).2.Tended b ∧ Halt.QuietIn (outcome takeFrame m).1 := by
  have hback : ∀ n, ((m.context.veiled k).stack.extract 0 n).back?
      = (m.context.stack.extract 0 n).back?.map (Slot.veiled k) := by
    intro n
    rw [← Array.back?_map, Array.map_extract]
    rfl
  have hstack : ∀ n, ((m.context.veiled k).stack.extract 0 n).pop
      = (m.context.stack.extract 0 n).pop.map (Slot.veiled k) := by
    intro n
    rw [Array.map_pop, Array.map_extract]
    rfl
  have hfault : Halt.IsQuiet (.fault (.bare .invalidCallFrame)) :=
    (of_decide_eq_true rfl : Fault.IsQuiet (.bare .invalidCallFrame))
  rw [outcome_takeFrame_eq m, outcome_takeFrame_eq (m.veiled k)]
  have hfp : (m.veiled k).context.fp = m.context.fp := rfl
  rw [hfp]
  split
  · exact ⟨rfl, hm, hfault⟩
  · refine ⟨?_, ⟨hm.attended.change rfl id, hm.tasks_eq, hm.quiet⟩, ?_⟩
    swap
    · rcases (m.context.stack.extract 0 m.context.fp).back? with _ | (v | f)
      · exact hfault
      · exact hfault
      · exact trivial
    have hcontext : (m.veiled k).context = m.context.veiled k := rfl
    rw [hcontext, hback, hstack]
    refine Prod.ext ?_ rfl
    rcases (m.context.stack.extract 0 m.context.fp).back? with _ | (v | f) <;> rfl

/-- What follows the frame that was taken. -/
theorem Mirrors.takeFrame_bind {β : Type} {next : Frame → Exec β}
    (hnext : ∀ f, Mirrors k b (next f) (next (f.veiled k))) :
    Mirrors k b (takeFrame >>= next) (takeFrame >>= next) := by
  intro m hm
  obtain ⟨hcomm, hkeep, hquiet⟩ := takeFrame_veiled (k := k) hm
  rw [outcome_bind, outcome_bind, hcomm]
  rcases hout : outcome takeFrame m with ⟨r | f, m'⟩
  · rw [hout] at hkeep hquiet
    exact ⟨rfl, hkeep, hquiet⟩
  · rw [hout] at hkeep
    exact hnext f m' hkeep

namespace IsDiscreet

theorem restoreFrame : IsDiscreet Exec.restoreFrame := by
  refine fun k b => Mirrors.takeFrame_bind fun f => ?_
  refine (publishPackages f.symbols k b).bind fun _ => (dropScopesTo f.symbols k b).bind fun _ =>
    (endLoopsTo f.loopDepth k b).bind fun _ => ?_
  refine Mirrors.bind (Mirrors.modifyContext (fun c => ?_) (fun _ => rfl) fun _ h => h) fun _ =>
    (storeIn _ _ _ k b).bind fun _ => ?_
  · simp only [Context.resumed, Context.veiled, Frame.veiled, Veil.dim_or]
    rfl
  · refine Mirrors.bind (Mirrors.modifyContext (fun _ => rfl) (fun _ => rfl) fun _ h => h)
      fun _ => ?_
    exact context_bind (fun _ _ => rfl) (fun _ => (observe _).bind fun _ =>
      context_bind (fun _ _ => rfl) fun _ => noteThread _ _) k b

theorem popFrame : IsDiscreet Exec.popFrame := by
  refine fun k b => Mirrors.context_bind fun c => ?_
  dsimp only
  rw [Context.size_stack_veiled]
  show Mirrors k b _ (if c.fp = 0 ∨ c.stack.size < c.fp then _ else _)
  split
  · exact (fail _ (.of rfl) : IsDiscreet _) k b
  · refine Mirrors.bind (Mirrors.modifyContext (fun d => ?_) (fun _ => rfl) fun _ h => h) fun _ =>
      (restoreFrame k b).bind fun _ => ?_
    · simp only [Context.veiled, Array.map_extract]
    · rw [Context.operands_veiled]
      have hempty : (c.operands.map (Slot.veiled k)).isEmpty = c.operands.isEmpty := by
        simp only [Array.isEmpty, Array.size_map]
      have hresult : (c.veiled k).result = c.result := rfl
      rw [hempty, hresult]
      split
      · cases c.result with
        | some v => exact push v k b
        | none => exact pure () k b
      · refine Mirrors.modifyContext (fun d => ?_) (fun _ => rfl) fun _ h => h
        simp only [Context.veiled, Array.map_append]

theorem unwindFrame : IsDiscreet Exec.unwindFrame :=
  bind (adjust (fun _ _ => rfl) fun _ => rfl) fun _ => restoreFrame

theorem unwindTo (fp fuel : Nat) : IsDiscreet (Exec.unwindTo fp fuel) := by
  induction fuel with
  | zero => exact pure _
  | succ fuel ih =>
    exact context_bind (fun _ _ => rfl) fun _ => ite (unwindFrame.bind fun _ => ih) (pure _)

/-! ### Faults -/

theorem catchAt (handler : Handler) (outer : List Handler) (f : Fault) :
    IsDiscreet (Exec.catchAt handler outer f) := by
  refine context_bind (fun c k => by rw [Context.size_stack_veiled]) fun _ =>
    (unwindTo _ _).bind fun _ => bind (adjust (fun _ _ => rfl) fun _ => rfl) fun _ =>
    (dropScopesTo _).bind fun _ => bind (adjust (fun c k => ?_) fun _ => rfl) fun _ =>
    (endLoopsTo _).bind fun _ => bind (adjust (fun _ _ => rfl) fun _ => rfl) fun _ =>
    context_bind (fun _ _ => rfl) fun _ => (observe _).bind fun _ =>
    context_bind (fun _ _ => rfl) fun _ => storeIn _ _ _
  simp only [Context.veiled, Array.map_extract]

end IsDiscreet

theorem framesFrom_veiled (stack : Array Slot) (fuel fp : Nat) :
    Context.framesFrom (stack.map (Slot.veiled k)) fuel fp
      = (Context.framesFrom stack fuel fp).map (Frame.veiled k) := by
  induction fuel generalizing fp with
  | zero => rfl
  | succ fuel ih =>
    rw [Context.framesFrom, Context.framesFrom, Array.getElem?_map]
    split
    · rfl
    · rcases stack[fp - 1]? with _ | (v | f)
      · rfl
      · rfl
      · exact congrArg (f.veiled k :: ·) (ih f.fp)

/-- A veil does not cover the places of the calls. -/
theorem frameText_veiled (c : Context) (limit : Option Nat) :
    (c.veiled k).frameText limit = c.frameText limit := by
  have hframes : (c.veiled k).frames = c.frames.map (Frame.veiled k) := by
    rw [Context.frames, Context.size_stack_veiled]
    exact framesFrom_veiled c.stack c.stack.size c.fp
  unfold Context.frameText
  rw [hframes]
  cases limit with
  | none => simp only [List.map_map]; rfl
  | some n => simp only [← List.map_take, List.map_map]; rfl

namespace IsDiscreet

theorem abandon {f : Fault} (hquiet : f.IsQuiet) : IsDiscreet (Exec.abandon f) := by
  have hrest : ∀ size, IsDiscreet (do
      MonadExcept.tryCatch (Exec.unwindTo 0 (size + 1)) fun _ => Pure.pure ()
      Exec.modifyContext fun c => { c with running := false }
      Exec.fail f : Exec Unit) := fun size =>
    (tryCatch (unwindTo 0 _) fun _ _ => pure _).bind fun _ =>
      bind (adjust (fun _ _ => rfl) fun _ => rfl) fun _ => fail f hquiet
  refine context_bind (fun c k => ?_) fun c => ite ?_ (hrest _)
  · rw [frameText_veiled, Context.size_stack_veiled]
    rfl
  · exact (onWorld (World.emit_isUnread _ _)).bind fun _ => hrest _

theorem recover {f : Fault} (hquiet : f.IsQuiet) : IsDiscreet (Exec.recover f) := by
  refine ite (fail f hquiet) (context_bind (fun _ _ => rfl) fun c => ?_)
  dsimp only
  split
  · exact catchAt _ _ _
  · exact abandon hquiet

theorem finish : IsDiscreet Exec.finish :=
  bind (adjust (fun _ _ => rfl) fun _ => rfl) fun _ => context_bind (fun _ _ => rfl) fun _ =>
    (onWorld (World.note_isUnread _ _)).bind fun _ =>
    ofModify (fun _ _ => rfl) fun _ _ h =>
      ⟨h.attended, h.tasks_eq, fun _ hended => by cases hended⟩

theorem endWith {f : Fault} (hquiet : f.IsQuiet) : IsDiscreet (Exec.endWith f) :=
  ofModify (fun _ _ => rfl) fun _ _ h =>
    ⟨h.attended, h.tasks_eq, fun _ hended => by cases hended; exact hquiet⟩

/-- **Dealing with a fault is discreet.** -/
theorem settle {f : Fault} (hquiet : f.IsQuiet) : IsDiscreet (Exec.settle f) := by
  refine ite finish (tryCatch (recover hquiet) fun halt hhalt => ?_)
  cases halt with
  | fault g => exact endWith hhalt
  | blocked => exact wait

/-! ### Returns -/

theorem continueReturn : IsDiscreet Exec.continueReturn := by
  refine context_bind (fun _ _ => rfl) fun c => ?_
  split
  · refine bind (adjust (fun _ _ => rfl) fun _ => rfl) fun _ => (noteThread _ _).bind fun _ => ?_
    refine onWorld_bind (World.callContext_isUnread _ _ _ _) (World.callContext_isBare _ _ _ _)
      fun scratch hbare => bind (adjust (fun _ _ => rfl) fun _ => rfl) fun _ =>
      enterScratch ⟨fun k => ?_, ?_, ?_⟩ _
    · show ({ scratch.veiled k with output := c.output } : Context) = _
      rw [hbare.veiled_eq]
    · exact hbare.debugging_eq
    · exact hbare.allowance_eq
  · exact ite popFrame (adjust (fun _ _ => rfl) fun _ => rfl)

theorem return_ (operand : Value) : IsDiscreet (Exec.return_ operand) := by
  unfold Exec.return_
  split
  · exact IsPlain.popValue.isDiscreet.bind fun _ =>
      bind (adjust (fun _ _ => rfl) fun _ => rfl) fun _ => continueReturn
  · exact continueReturn

theorem afterScratch (awaiting : Awaiting) (scratch : Context) (result : Except Fault Unit)
    [hresult : Quiet result] : IsDiscreet (Exec.afterScratch awaiting scratch result) := by
  unfold Exec.afterScratch
  split
  · refine bind (adjust (fun _ _ => rfl) fun _ => rfl) fun _ => ?_
    cases result with
    | ok u => exact continueReturn
    | error f => exact fail f (hresult.quiet f rfl)
  · cases result with
    | ok u => exact heap.bind fun _ => sortAfter _ _ _ _ _ _
    | error f => exact settleLibraryFault _ (hresult.quiet f rfl)

end IsDiscreet

/-- A context that has ended leaves the same under a veil. -/
theorem afterScratch_veiled (awaiting : Awaiting) (scratch : Context)
    (result : Except Fault Unit) :
    afterScratch awaiting (scratch.veiled k) result = afterScratch awaiting scratch result := by
  have hback : (scratch.veiled k).stack.back? = scratch.stack.back?.map (Slot.veiled k) :=
    Array.back?_map ..
  have hleft : ∀ h, leftTrue h (scratch.veiled k) = leftTrue h scratch := by
    intro h
    unfold leftTrue
    rw [hback]
    rcases scratch.stack.back? with _ | (v | f) <;> rfl
  unfold afterScratch
  simp only [hleft]
  rfl

/-! ### Beginning an instruction -/

theorem slotText_veiled (h : Heap) (s : Slot) : slotText h (s.veiled k) = slotText h s := by
  cases s <;> rfl

theorem stackText_veiled (h : Heap) (limit : Nat) (stack : Array Slot) :
    stackText h limit (stack.map (Slot.veiled k)) = stackText h limit stack := by
  have hshown : ((stack.map (Slot.veiled k)).toList.reverse.take limit).map (slotText h)
      = (stack.toList.reverse.take limit).map (slotText h) := by
    rw [Array.toList_map, ← List.map_reverse, ← List.map_take, List.map_map]
    exact List.map_congr_left fun s _ => slotText_veiled h s
  have hempty : (stack.map (Slot.veiled k)).isEmpty = stack.isEmpty := by
    simp only [Array.isEmpty, Array.size_map]
  unfold stackText
  rw [hempty, Array.size_map]
  dsimp only
  rw [hshown]

theorem IsDiscreet.begin (i : Instruction) : IsDiscreet (Exec.begin i) := by
  refine context_bind (fun _ _ => rfl) fun c =>
    bind (adjust (fun _ _ => rfl) fun _ => rfl) fun _ =>
    context_bind (fun c k => by rw [Context.size_stack_veiled]) fun _ => (observe _).bind fun _ =>
    bind (modifyContext (fun _ _ => rfl) (fun _ => rfl) ?_) fun _ =>
    get_bind (fun m k => ?_) fun m => onWorld (World.note_isUnread _ _)
  · intro c hc
    show c.observer.spend.allowance = none
    rw [Observer.spend, hc]
    rfl
  · have hstack : stackText m.world.heap 4 (m.context.veiled k).stack
        = stackText m.world.heap 4 m.context.stack := stackText_veiled _ _ _
    have hline : traceLine m.world.heap (m.context.veiled k) c.pc i
        = traceLine m.world.heap m.context c.pc i := by
      unfold traceLine
      rw [hstack, Context.size_stack_veiled]
      rfl
    show Exec.note .trace (fun _ => traceLine m.world.heap (m.context.veiled k) c.pc i) = _
    rw [hline]

end Exec

end ScriptMachine
