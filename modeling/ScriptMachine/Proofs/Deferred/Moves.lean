import Mathlib.Logic.Relation
import ScriptMachine.Proofs.Action.Ordinary
import ScriptMachine.Proofs.Loops.Winding

/-!
# Frames, deferred calls and output

What instructions do to the frames of a context, its deferred calls and its output. The function that
runs keeps its deferred calls and the frames below it; a call saves the deferred calls with the
caller; whatever leaves a function takes its frame off and turns to what that had saved.

* `Context.frameAt`: the frames on an operand stack; `Context.Layered`.
* `Machine.Works`, `Machine.Tidies`: what a function does to them; `IsPlain.isWork`.
* `Machine.Rises`: functions may be entered, and comparisons of sorts set going;
  `IsOrdinary.rises`, `execute_rises`.
* `Machine.Falls`: functions may be left; `falls_popFrame`, `IsFalling.settle`.
-/

namespace ScriptMachine

/-- The frame in a slot, if it holds one. -/
def Slot.frame? : Slot → Option Frame
  | .frame f => some f
  | .value _ => none

/-- The frame at a position of the operand stack, if there is one. -/
def Context.frameAt (c : Context) (j : Nat) : Option Frame := c.stack[j]?.bind Slot.frame?

theorem Context.frameAt_eq_some {c : Context} {j : Nat} {f : Frame} :
    c.frameAt j = some f ↔ c.stack[j]? = some (.frame f) := by
  rw [frameAt, Option.bind_eq_some_iff]
  constructor
  · rintro ⟨s, hs, hf⟩
    cases s with
    | value v => cases hf
    | frame g =>
      cases hf
      exact hs
  · exact fun hs => ⟨_, hs, rfl⟩

/-- More text has been written to a sink. -/
def Sink.Extends (s t : Sink) : Prop := ∃ text, t = s.write text

theorem Sink.write_empty (s : Sink) : s.write "" = s := by
  cases s with
  | collected text => exact congrArg Sink.collected (String.append_empty)
  | discarded => rfl

theorem Sink.write_write (s : Sink) (first second : String) :
    (s.write first).write second = s.write (first ++ second) := by
  cases s with
  | collected text => exact congrArg Sink.collected String.append_assoc
  | discarded => rfl

theorem Sink.Extends.refl (s : Sink) : s.Extends s := ⟨"", s.write_empty.symm⟩

theorem Sink.Extends.trans {s t u : Sink} (h : s.Extends t) (h' : t.Extends u) : s.Extends u := by
  obtain ⟨first, rfl⟩ := h
  obtain ⟨second, rfl⟩ := h'
  exact ⟨first ++ second, s.write_write first second⟩

namespace Machine

variable {m m' m'' : Machine}

/-- The running function works: it keeps its deferred calls, the switches of the debugger and the
frames below it, puts no frame on the stack, and writes output. -/
structure Works (m m' : Machine) : Prop where
  suspended_eq : m'.suspended = m.suspended
  fp_eq : m'.context.fp = m.context.fp
  deferred_eq : m'.context.deferred = m.context.deferred
  stepping_eq : m'.context.stepping = m.context.stepping
  fewer : ∀ j f, m'.context.frameAt j = some f → m.context.frameAt j = some f
  below : ∀ j < m.context.fp, m'.context.frameAt j = m.context.frameAt j
  output : m.context.output.Extends m'.context.output

instance : Std.Refl Works :=
  ⟨fun _ => ⟨rfl, rfl, rfl, rfl, fun _ _ h => h, fun _ _ => rfl, .refl _⟩⟩

instance : Trans Works Works Works where
  trans h h' := {
    suspended_eq := h'.suspended_eq.trans h.suspended_eq
    fp_eq := h'.fp_eq.trans h.fp_eq
    deferred_eq := h'.deferred_eq.trans h.deferred_eq
    stepping_eq := h'.stepping_eq.trans h.stepping_eq
    fewer := fun j f hf => h.fewer j f (h'.fewer j f hf)
    below := fun j hj => (h'.below j (by rw [h.fp_eq]; exact hj)).trans (h.below j hj)
    output := h.output.trans h'.output }

/-- The running function works, and leaves the receivers alone. -/
structure Tidies (m m' : Machine) : Prop extends Works m m' where
  receivers_eq : m'.context.receivers = m.context.receivers

instance : Std.Refl Tidies := ⟨fun m => ⟨Std.Refl.refl m, rfl⟩⟩

instance : Trans Tidies Tidies Tidies where
  trans h h' := ⟨Trans.trans h.toWorks h'.toWorks, h'.receivers_eq.trans h.receivers_eq⟩

/-- Nothing of that kind has changed. -/
theorem Works.ofSame (hsuspended : m'.suspended = m.suspended)
    (hstack : m'.context.stack = m.context.stack) (hfp : m'.context.fp = m.context.fp)
    (hdeferred : m'.context.deferred = m.context.deferred)
    (houtput : m'.context.output = m.context.output)
    (hstepping : m'.context.stepping = m.context.stepping) : m.Works m' where
  suspended_eq := hsuspended
  fp_eq := hfp
  deferred_eq := hdeferred
  stepping_eq := hstepping
  fewer j f hf := by
    rwa [Context.frameAt, hstack] at hf
  below j _ := by
    rw [Context.frameAt, hstack, Context.frameAt]
  output := by
    rw [houtput]
    exact .refl _

/-- Operands have been taken off. -/
theorem Works.ofCut {n : Nat} (hn : m.context.fp ≤ n ∨ m.context.stack.size ≤ n) : m.Works { m with
    context := { m.context with stack := m.context.stack.extract 0 n } } where
  suspended_eq := rfl
  fp_eq := rfl
  deferred_eq := rfl
  stepping_eq := rfl
  fewer j f hf := by
    rw [Context.frameAt_eq_some, Array.getElem?_extract] at hf
    split at hf
    · rwa [Nat.zero_add, ← Context.frameAt_eq_some] at hf
    · cases hf
  below j hj := by
    rw [Context.frameAt, Context.frameAt, Array.getElem?_extract, Nat.zero_add]
    split
    · rfl
    · rw [Array.getElem?_eq_none (by omega : m.context.stack.size ≤ j)]
  output := .refl _

/-- An operand has been put on. -/
theorem Works.ofPush (v : Value) : m.Works { m with
    context := { m.context with stack := m.context.stack.push (.value v) } } := by
  have hsame : ∀ j, Context.frameAt { m.context with stack := m.context.stack.push (.value v) } j
      = m.context.frameAt j := fun j => by
    rw [Context.frameAt, Context.frameAt, Array.getElem?_push]
    split
    · rw [Array.getElem?_eq_none (by omega : m.context.stack.size ≤ j)]
      rfl
    · rfl
  exact ⟨rfl, rfl, rfl, rfl, fun j f hf => (hsame j).symm.trans hf, fun j _ => hsame j, .refl _⟩

/-- A function has been entered: its frame holds what belongs to the caller, which the debugger may
step over. -/
structure EntersFrame (m m' : Machine) (f : Frame) : Prop where
  suspended_eq : m'.suspended = m.suspended
  saves : f.fp = m.context.fp ∧ f.deferred = m.context.deferred
  saves_steps : f.singleStep = m.context.singleStep ∧ f.breakOnReturn = m.context.breakOnReturn
  stepping_eq : m'.context.stepping = (m.context.debugging,
    m.context.singleStep && !m.context.stepOver, m.context.stepOver, false)
  stack_eq : m'.context.stack = m.context.stack.push (.frame f)
  fp_eq : m'.context.fp = m.context.stack.size + 1
  deferred_eq : m'.context.deferred = []
  output_eq : m'.context.output = m.context.output

/-- The context waits for another one, which has just begun and which no debugger attends to. -/
structure Awaits (awaiting : Awaiting) (m m' : Machine) : Prop where
  suspended_eq : m'.suspended = ⟨m.context, awaiting⟩ :: m.suspended
  fp_eq : m'.context.fp = 0
  debugging_eq : m'.context.debugging = false
  deferred_eq : m'.context.deferred = []
  frames : ∀ j, m'.context.frameAt j = none

/-- What ordinary actions do, one after the other. -/
inductive Rise (m m' : Machine) : Prop
  | works (h : m.Works m')
  | enters {f : Frame} (h : m.EntersFrame m' f)
  | asks {r : Ref .array} {less : Value} {size i j : Nat}
      (h : m.Awaits (.ordering r less size i j) m')

/-- The running function has worked, and may have entered others. -/
def Rises : Machine → Machine → Prop := Relation.ReflTransGen Rise

instance : Std.Refl Rises := ⟨fun _ => Relation.ReflTransGen.refl⟩

instance : Trans Rises Rises Rises := ⟨Relation.ReflTransGen.trans⟩

theorem Works.rises (h : m.Works m') : m.Rises m' := .single (.works h)

end Machine

namespace Exec

open Machine

variable {α β : Type}

/-- An action by which the running function works. -/
abbrev IsWork (act : Exec α) : Prop := Keeps Works act

/-- An action by which the running function works and leaves the receivers alone. -/
abbrev IsTidying (act : Exec α) : Prop := Keeps Tidies act

theorem IsTidying.isWork {act : Exec α} (h : IsTidying act) : IsWork act := fun m => (h m).toWorks

/-- So it does when only the world changes. -/
theorem IsWorldly.isTidying {act : Exec α} (h : IsWorldly act) : IsTidying act := by
  intro m
  have hsame := h m
  rw [Machine.SameButWorld] at hsame
  rw [hsame]
  exact ⟨.ofSame rfl rfl rfl rfl rfl rfl, rfl⟩

namespace IsTidying

theorem bind {act : Exec α} {next : α → Exec β} (hact : IsTidying act)
    (hnext : ∀ a, IsTidying (next a)) : IsTidying (act >>= next) := Keeps.bind hact hnext

/-- Changes of other parts of the context. -/
theorem modifyContext {f : Context → Context} (hsame : ∀ c, ((f c).stack, (f c).fp, (f c).deferred,
      (f c).output, (f c).stepping, (f c).receivers)
        = (c.stack, c.fp, c.deferred, c.output, c.stepping, c.receivers)) :
    IsTidying (Exec.modifyContext f) := by
  intro m
  have h := hsame m.context
  rw [Prod.mk.injEq, Prod.mk.injEq, Prod.mk.injEq, Prod.mk.injEq, Prod.mk.injEq] at h
  exact ⟨.ofSame rfl h.1 h.2.1 h.2.2.1 h.2.2.2.1 h.2.2.2.2.1, h.2.2.2.2.2⟩

theorem push (v : Value) : IsTidying (Exec.push v) := fun m => by
  rw [outcome_push]
  exact ⟨.ofPush v, rfl⟩

theorem pop : IsTidying Exec.pop := by
  intro m
  rw [Exec.pop, outcome_bind_ok (outcome_get m)]
  by_cases hle : m.context.stack.size ≤ m.context.fp
  · rw [if_pos hle]
    exact Std.Refl.refl m
  · rw [if_neg hle]
    split
    · rw [outcome_bind_ok (outcome_modifyContext _ m), ← Array.extract_eq_pop rfl]
      exact ⟨.ofCut (.inl (by omega)), rfl⟩
    · exact Std.Refl.refl m

theorem popValue : IsTidying Exec.popValue :=
  bind pop fun _ => Keeps.ite (Keeps.fail _) (Keeps.pure _)

theorem observe (x : Happening) : IsTidying (Exec.observe x) := by
  intro m
  obtain ⟨j, o, hout⟩ := outcome_observe x m
  rw [hout]
  exact ⟨.ofSame rfl rfl rfl rfl rfl rfl, rfl⟩

theorem begin (i : Instruction) : IsTidying (Exec.begin i) := by
  intro m
  obtain ⟨j, running, o, hout⟩ := outcome_begin i m
  rw [hout]
  exact ⟨.ofSame rfl rfl rfl rfl rfl rfl, rfl⟩

theorem release (l : Loop) : IsTidying (Exec.release l) := by
  unfold Exec.release
  split
  · exact (IsWorldly.onWorld _).isTidying
  · exact (IsWorldly.onWorld _).isTidying
  · exact Keeps.pure _
  · exact Keeps.pure _

end IsTidying

namespace IsWork

theorem pure (a : α) : IsWork (Pure.pure a) := Keeps.pure a

theorem bind {act : Exec α} {next : α → Exec β} (hact : IsWork act)
    (hnext : ∀ a, IsWork (next a)) : IsWork (act >>= next) := Keeps.bind hact hnext

theorem onWorld (act : WorldM α) : IsWork (Exec.onWorld act) :=
  fun _ => .ofSame rfl rfl rfl rfl rfl rfl

theorem setScopes (a : Arena) : IsWork (Exec.setScopes a) :=
  fun _ => .ofSame rfl rfl rfl rfl rfl rfl

/-- Changes of other parts of the context. -/
theorem modifyContext {f : Context → Context}
    (hsame : ∀ c, ((f c).stack, (f c).fp, (f c).deferred, (f c).output, (f c).stepping)
      = (c.stack, c.fp, c.deferred, c.output, c.stepping)) : IsWork (Exec.modifyContext f) := by
  intro m
  have h := hsame m.context
  rw [Prod.mk.injEq, Prod.mk.injEq, Prod.mk.injEq, Prod.mk.injEq] at h
  exact .ofSame rfl h.1 h.2.1 h.2.2.1 h.2.2.2.1 h.2.2.2.2

theorem peek : IsWork Exec.peek := by
  refine bind Keeps.context fun c => Keeps.ite (Keeps.fail _) ?_
  split
  · exact pure _
  · exact Keeps.fail _

theorem popArgs (count : Nat) : IsWork (Exec.popArgs count) := by
  intro m
  rw [Exec.popArgs, outcome_bind_ok (outcome_context m)]
  by_cases hlt : m.context.stack.size - m.context.fp < count
  · rw [if_pos hlt]
    exact Std.Refl.refl m
  · rw [if_neg hlt, outcome_bind_ok (outcome_modifyContext _ m)]
    have hcut := Works.ofCut (m := m) (n := m.context.stack.size - count) (by omega)
    exact Trans.trans hcut (Keeps.ite (R := Works) (Keeps.fail _) (Keeps.pure _) _)

theorem dropToMarkerWithin (steps : Nat) : IsWork (Exec.dropToMarkerWithin steps) := by
  induction steps with
  | zero => exact pure _
  | succ steps ih =>
    exact bind Keeps.context fun c => Keeps.ite (bind IsTidying.pop.isWork fun v => Keeps.ite ih (pure _)) (pure _)

end IsWork

/-- **By plain actions the running function works.** -/
theorem IsPlain.isWork {act : Exec α} (h : IsPlain True True act) : IsWork act := by
  induction h with
  | pure a => exact .pure a
  | throw _ => exact .throw _
  | bind _ _ ihact ihnext => exact .bind ihact ihnext
  | get_bind _ _ _ _ ih => exact fun m => ih m m
  | push v => exact (IsTidying.push v).isWork
  | pop => exact IsTidying.pop.isWork
  | peek => exact .peek
  | popArgs count => exact .popArgs count
  | dropToMarker => exact .bind Keeps.context fun _ => .dropToMarkerWithin _
  | write text => exact fun m => ⟨rfl, rfl, rfl, rfl, fun _ _ h => h, fun _ _ => rfl, text, rfl⟩
  | onWorld h => exact .onWorld _
  | attempt toHalt _ _ => exact .bind (.onWorld _) fun r => Keeps.result (r.mapError toHalt)
  | store _ name v =>
    refine .bind Keeps.context fun c => .bind (.onWorld _) fun r => ?_
    cases r with
    | ok u => exact .pure u
    | error f => exact Keeps.fail f
  | changeScopes _ write _ =>
    exact .bind Keeps.scopes fun a => .bind (Keeps.lift _) fun b => .setScopes b
  | branchTarget _ operand =>
    refine .bind Keeps.get fun m => ?_
    dsimp only
    split
    · exact Keeps.ite (Keeps.pure _) (Keeps.fail _)
    · exact Keeps.fail _
  | goTo _ address => exact .modifyContext fun _ => rfl
  | adjust _ hadjusts _ _ =>
    refine .modifyContext fun c => ?_
    rw [hadjusts]
    rfl

namespace IsWork

theorem finish : IsWork Exec.finish :=
  bind (modifyContext fun _ => rfl) fun _ => bind Keeps.context fun _ =>
    bind (IsPlain.note _ _).isWork fun _ _ => .ofSame rfl rfl rfl rfl rfl rfl

/-! ### Loops -/

theorem createLoopName (name : String) : IsWork (Exec.createLoopName name) :=
  bind Keeps.get fun _ => Keeps.ite (bind Keeps.scopes fun _ => bind Keeps.context fun _ =>
    bind (Keeps.lift _) fun _ => setScopes _) (pure ())

theorem walkOver (v : Value) : IsWork (Exec.walkOver v) := by
  intro m
  rcases walkOver_cases v m with ⟨halt, hout⟩ | ⟨walked, heap, hout, -⟩
  · rw [hout]
    exact Std.Refl.refl m
  · rw [hout]
    exact .ofSame rfl rfl rfl rfl rfl rfl

theorem beginLoop (operand : Value) : IsWork (Exec.beginLoop operand) := by
  refine bind Keeps.heap fun h => ?_
  dsimp only
  exact bind (createLoopName _) fun _ => bind (createLoopName _) fun _ =>
    bind IsPlain.popUnwrapped.isWork fun _ => bind (walkOver _) fun _ => modifyContext fun _ => rfl

theorem nextRound (operand : Value) : IsWork (Exec.nextRound operand) := by
  refine bind (IsPlain.branchTarget trivial operand).isWork fun leave => bind Keeps.context fun c => ?_
  split
  · exact modifyContext fun _ => rfl
  · refine bind (nextOf_isPlain _).isWork fun found => ?_
    split
    · exact bind (modifyContext fun _ => rfl) fun _ => (IsTidying.release _).isWork
    · exact bind (modifyContext fun _ => rfl) fun _ =>
        bind (storeLoopName_isPlain _ _).isWork fun _ => (storeLoopName_isPlain _ _).isWork

end IsWork

/-! ### Calls -/

theorem IsWork.keepsRises {act : Exec α} (h : IsWork act) : Keeps Rises act := fun m => (h m).rises

theorem rises_pushFrame (name : String) (table : TableId) (code : Code) (pc : Nat) :
    Keeps Rises (pushFrame name table code pc) := by
  intro m
  obtain ⟨j, hj⟩ := outcome_noteThread .symbol (fun _ =>
    s!"push call frame {name} from {(m.context.saved name).origin}, table {table.text}") m
  rw [pushFrame, outcome_bind_ok (outcome_context m)]
  dsimp only
  rw [outcome_bind_ok hj, outcome_bind_ok (outcome_modifyContext _ _),
    outcome_bind_ok (outcome_context _)]
  have henters : m.EntersFrame { m with
      world := { m.world with journal := j }
      context := m.context.entered (m.context.saved name) table code pc } (m.context.saved name) :=
    ⟨rfl, ⟨rfl, rfl⟩, ⟨rfl, rfl⟩, rfl, rfl, rfl, rfl, rfl⟩
  have hrises : m.Rises _ := .single (.enters henters)
  exact Trans.trans hrises ((IsTidying.observe _).isWork.keepsRises _)

/-- The context of a call begins with the callable and its arguments, and without frames. -/
theorem frameAt_callContext (symbols : TableId) (settings : Settings) (callable : Value)
    (args : List Value) (w : World) (j : Nat) :
    ((World.callContext symbols settings callable args).run w).1.frameAt j = none := by
  show (((callable :: args).map Slot.value).toArray[j]?).bind Slot.frame? = none
  rw [List.getElem?_toArray, List.getElem?_map]
  cases (callable :: args)[j]? <;> rfl

theorem rises_askOrdering (r : Ref .array) (less : Value) (size i j : Nat) :
    Keeps Rises (askOrdering r less size i j) := by
  intro m
  rw [askOrdering, outcome_bind_ok (outcome_context m), outcome_bind_ok (outcome_onWorld _ m)]
  have hworks : m.Rises { m with world := ((World.callContext m.context.symbols
      m.context.settings less [.ofNat j, .ofNat (j - 1)]).run m.world).2 } :=
    (IsWork.onWorld _ m).rises
  exact hworks.tail (.asks ⟨rfl, rfl, rfl, rfl,
    frameAt_callContext m.context.symbols m.context.settings less [.ofNat j, .ofNat (j - 1)]
      m.world⟩)

/-- **Ordinary actions let the running function work**, enter others and set comparisons going. -/
theorem IsOrdinary.rises {act : Exec α} (h : IsOrdinary act) : Keeps Rises act := by
  induction h with
  | plain h => exact h.isWork.keepsRises
  | throw halt => exact Keeps.throw halt
  | bind _ _ ihact ihnext => exact .bind ihact ihnext
  | get => exact Keeps.get
  | onWorld _ => exact (IsWork.onWorld _).keepsRises
  | setScopes a => exact (IsWork.setScopes a).keepsRises
  | modifyContext hcore =>
    refine (IsWork.modifyContext fun c => ?_).keepsRises
    have h := hcore c
    rw [Context.core, Context.core, Prod.mk.injEq, Prod.mk.injEq, Prod.mk.injEq, Prod.mk.injEq,
      Prod.mk.injEq] at h
    rw [h.1, h.2.1, h.2.2.1, h.2.2.2.2.1, h.2.2.2.2.2]
  | observe x => exact (IsTidying.observe x).isWork.keepsRises
  | pushFrame name table code pc => exact rises_pushFrame name table code pc
  | askOrdering r less size i j => exact rises_askOrdering r less size i j
  | startTask name callable args => exact fun m => Works.rises (.ofSame rfl rfl rfl rfl rfl rfl)

/-- **So do all instructions but `Defer` and `Return`.** -/
theorem execute_rises {i : Instruction} (hdefer : i.op ≠ .defer) (hreturn : i.op ≠ .return) :
    Keeps Rises (execute i) := by
  by_cases hbegin : i.op = .rangeInit
  · rw [show execute i = beginLoop i.operand by simp only [execute, hbegin]]
    exact (IsWork.beginLoop _).keepsRises
  by_cases hnext : i.op = .rangeNext
  · rw [show execute i = nextRound i.operand by simp only [execute, hnext]]
    exact (IsWork.nextRound _).keepsRises
  exact (execute_isOrdinary hbegin hnext hdefer hreturn).rises

end Exec

end ScriptMachine
