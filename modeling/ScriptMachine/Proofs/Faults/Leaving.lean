import ScriptMachine.Proofs.Faults.Releases

/-!
# Functions that a fault leaves

A fault leaves one function after the other. The only thing that can go wrong is that the variables
of a package cannot be written back, because the hidden table of the package is gone; then the
function is not left, and the fault that this raises does not tell where it was raised.

* `Exec.Unplaced`: the faults of an action do not tell where they were raised.
* `Machine.Left`: a function was left for its caller; `unwindFrame_cases`.
* `Machine.Sheds`: functions were left, as far as a frame pointer; `unwindTo_cases`.
* `Context.Active`: the functions that are active in a context, as a relation along their frames.
-/

namespace ScriptMachine

namespace Exec

variable {α β : Type}

/-! ### Faults without a place -/

/-- The faults of an action do not tell where they were raised. -/
def Unplaced (act : Exec α) : Prop :=
  ∀ m e, (outcome act m).1 = .error e → ∃ f : Fault, e = .fault f ∧ f.location = none

namespace Unplaced

/-- Actions that always succeed. -/
theorem ofTotal {act : Exec α} (h : ∀ m, ∃ a, (outcome act m).1 = .ok a) : Unplaced act := by
  intro m e he
  obtain ⟨a, ha⟩ := h m
  rw [ha] at he
  cases he

theorem pure (a : α) : Unplaced (Pure.pure a) := ofTotal fun _ => ⟨a, rfl⟩

theorem fail {f : Fault} (h : f.location = none) : Unplaced (Exec.fail f : Exec α) := by
  intro m e he
  cases he
  exact ⟨f, rfl, h⟩

theorem bind {act : Exec α} {next : α → Exec β} (hact : Unplaced act)
    (hnext : ∀ a, Unplaced (next a)) : Unplaced (act >>= next) := by
  intro m e he
  rw [outcome_bind] at he
  have hfirst := hact m
  rcases hout : outcome act m with ⟨r | a, m'⟩
  · rw [hout] at he hfirst
    obtain ⟨f, rfl, hf⟩ := hfirst r rfl
    cases he
    exact ⟨f, rfl, hf⟩
  · rw [hout] at he
    exact hnext a m' e he

theorem ite {p : Prop} [Decidable p] {yes no : Exec α} (hyes : Unplaced yes) (hno : Unplaced no) :
    Unplaced (if p then yes else no) := by
  split
  · exact hyes
  · exact hno

theorem compositional : Compositional (μ := Exec) fun _ => Unplaced := ⟨pure, bind⟩

theorem forIn {γ σ : Type} (xs : List γ) (body : γ → σ → Exec (ForInStep σ)) (init : σ)
    (hbody : ∀ x s, Unplaced (body x s)) : Unplaced (ForIn.forIn xs init body) :=
  compositional.forIn fun x _ => hbody x

theorem context : Unplaced Exec.context := ofTotal fun m => ⟨m.context, rfl⟩

theorem scopes : Unplaced Exec.scopes := ofTotal fun m => ⟨m.world.scopes, rfl⟩

theorem heap : Unplaced Exec.heap := ofTotal fun m => ⟨m.world.heap, rfl⟩

theorem modifyContext (f : Context → Context) : Unplaced (Exec.modifyContext f) :=
  ofTotal fun _ => ⟨(), rfl⟩

theorem onWorld (act : WorldM α) : Unplaced (Exec.onWorld act) := ofTotal fun _ => ⟨_, rfl⟩

theorem noteThread (c : Category) (message : Unit → String) :
    Unplaced (Exec.noteThread c message) := by
  refine ofTotal fun m => ?_
  obtain ⟨j, hj⟩ := outcome_noteThread c message m
  exact ⟨(), congrArg Prod.fst hj⟩

theorem observe (x : Happening) : Unplaced (Exec.observe x) := by
  refine ofTotal fun m => ?_
  obtain ⟨j, o, hout⟩ := outcome_observe x m
  exact ⟨(), congrArg Prod.fst hout⟩

theorem storeIn (table : TableId) (name : String) (v : Value) :
    Unplaced (Exec.storeIn table name v) := by
  intro m e he
  rw [outcome_storeIn] at he
  unfold Arena.setAlways Arena.update Arena.table at he
  cases ht : m.world.scopes.table? table with
  | some t =>
    rw [ht] at he
    cases he
  | none =>
    rw [ht] at he
    cases he
    exact ⟨_, rfl, rfl⟩

theorem endLoopsTo (depth : Nat) : Unplaced (Exec.endLoopsTo depth) := by
  refine bind context fun c => ofTotal fun m => ?_
  obtain ⟨heap, loops, -, hout⟩ := outcome_endLoops (c.loops.length - depth) m
  exact ⟨(), congrArg Prod.fst hout⟩

theorem dropScopesTo (target : TableId) : Unplaced (Exec.dropScopesTo target) := by
  refine ofTotal fun m => ?_
  obtain ⟨j, hout⟩ := outcome_dropScopesTo target m
  exact ⟨(), congrArg Prod.fst hout⟩

theorem publishVariable (scope : String) (package : Ref .package) (name : String) (v : Value) :
    Unplaced (Exec.publishVariable scope package name v) := by
  refine bind (onWorld _) fun _ => bind heap fun h => ?_
  dsimp only
  split
  · exact bind (storeIn _ name v) fun _ => bind heap fun _ => onWorld _
  · exact bind heap fun _ => onWorld _

theorem publishPackages (stop : TableId) : Unplaced (Exec.publishPackages stop) := by
  refine bind scopes fun a => bind context fun c => ?_
  dsimp only
  refine bind (forIn _ _ _ fun table _ => ite ?_ (pure _)) fun _ => pure _
  refine bind (bind scopes fun b => ?_) fun found => ?_
  · dsimp only
    split
    · exact pure _
    · exact pure _
  · split
    · refine bind scopes fun b => bind (forIn _ _ _ fun p _ => ?_) fun _ => pure _
      exact ite (bind (publishVariable _ _ _ _) fun _ => pure _) (pure _)
    · exact pure _

theorem takeFrame : Unplaced Exec.takeFrame := by
  refine bind context fun c => ite (fail rfl) ?_
  dsimp only
  refine bind (modifyContext _) fun _ => ?_
  split
  · exact pure _
  · exact fail rfl

theorem unwindFrame : Unplaced Exec.unwindFrame := by
  refine bind (modifyContext _) fun _ => ?_
  rw [restoreFrame_eq]
  refine bind takeFrame fun f => bind (publishPackages _) fun _ => bind (dropScopesTo _) fun _ =>
    bind (endLoopsTo _) fun _ => bind (modifyContext _) fun _ => bind (storeIn _ _ _) fun _ => ?_
  exact bind (modifyContext _) fun _ => bind context fun _ => bind (observe _) fun _ =>
    bind context fun _ => noteThread _ _

theorem unwindTo (fp fuel : Nat) : Unplaced (Exec.unwindTo fp fuel) := by
  induction fuel with
  | zero => exact pure _
  | succ fuel ih => exact bind context fun c => ite (bind unwindFrame fun _ => ih) (pure _)

theorem catchAt (handler : Handler) (outer : List Handler) (f : Fault) :
    Unplaced (Exec.catchAt handler outer f) := by
  refine bind context fun _ => bind (unwindTo _ _) fun _ => bind (modifyContext _) fun _ =>
    bind (dropScopesTo _) fun _ => bind (modifyContext _) fun _ => bind (endLoopsTo _) fun _ => ?_
  exact bind (modifyContext _) fun _ => bind context fun _ => bind (observe _) fun _ =>
    bind context fun _ => storeIn _ _ _

end Unplaced

end Exec

/-! ### Leaving one function -/

/-- A caller once a fault has left the function that it called. -/
def Context.unwound (c : Context) (f : Frame) (below : Array Slot) (loops : List Loop)
    (observer : Observer) : Context :=
  { c.resumed f with
    stack := below
    result := none
    frameDepth := c.frameDepth - 1
    loops
    observer }

namespace Machine

/-- The running function was left for its caller, which goes on as its frame tells. -/
structure Left (m m' : Machine) : Prop where
  framed : m'.Framed
  fp_lt : m'.context.fp < m.context.fp
  depth_eq : m'.context.frameDepth + 1 = m.context.frameDepth
  handler_fp_le : ∀ x ∈ m.context.handlers, x.fp < m.context.fp → x.fp ≤ m'.context.fp
  caller : ∃ (below : Array Slot) (f : Frame) (world : World) (loops : List Loop)
      (observer : Observer), m.context.lower = below.push (.frame f) ∧
    m' = { m with world, context := m.context.unwound f below loops observer } ∧
    world.scopes.outline = (m.world.scopes.dropTables
      (m.world.scopes.between m.context.symbols f.symbols)).outline

/-- The running function cannot be left: its packages cannot be written back. -/
structure Sticks (m : Machine) (f : Fault) (m' : Machine) : Prop where
  stuck : Exec.outcome Exec.unwindFrame m = (.error (.fault f), m')
  unplaced : f.location = none
  fp_eq : m'.context.fp = m.context.fp
  suspended_eq : m'.suspended = m.suspended

end Machine

namespace Exec

open Machine

/-- **A function is left, or it sticks.** -/
theorem unwindFrame_cases {m : Machine} (h : m.Framed) (hfp : 0 < m.context.fp) :
    (∃ m', outcome unwindFrame m = (.ok (), m') ∧ m.Left m') ∨ ∃ f m', m.Sticks f m' := by
  obtain ⟨below, f, hstack, hsize, hdepth, hbelow, hhandlers⟩ := h.running.frame hfp
  have hle := hbelow.fp_le
  have htaken : outcome unwindFrame m = outcome (restoreCaller f)
      { m with context := { m.context with result := none, stack := below } } := by
    rw [unwindFrame, outcome_bind_ok (outcome_modifyContext _ m), restoreFrame_eq]
    exact outcome_bind_ok (outcome_takeFrame (m := { m with
      context := { m.context with result := none } }) hstack hfp)
  rcases hpublish : outcome (publishPackages f.symbols)
      { m with context := { m.context with result := none, stack := below } } with ⟨e | u, m₁⟩
  · obtain ⟨g, rfl, hunplaced⟩ := Unplaced.publishPackages f.symbols _ e
      (congrArg Prod.fst hpublish)
    have hsame := IsRewriting.publishPackages f.symbols
      { m with context := { m.context with result := none, stack := below } }
    rw [hpublish] at hsame
    obtain ⟨w₁, rfl⟩ : ∃ w₁, m₁ = { m with
        world := w₁
        context := { m.context with result := none, stack := below } } := ⟨_, hsame.same⟩
    refine .inr ⟨g, { m with
      world := w₁
      context := { m.context with result := none, stack := below } }, ⟨?_, hunplaced, rfl, rfl⟩⟩
    rw [htaken, restoreCaller, outcome_bind_error hpublish]
  · obtain ⟨world, loops, observer, hout, houtline⟩ := outcome_restoreCaller f (by exact h.sound)
      hpublish
    have hsound := (IsFading.restoreCaller f
      { m with context := { m.context with result := none, stack := below } }).sound h.sound
    rw [hout] at hsound
    refine .inl ⟨_, htaken.trans hout, ⟨⟨hbelow, h.waiting, hsound⟩, ?_, ?_, hhandlers, below, f,
      world, loops, observer, hstack, rfl, houtline⟩⟩
    · show f.fp < m.context.fp
      omega
    · show m.context.frameDepth - 1 + 1 = m.context.frameDepth
      omega

/-- No function sticks while hidden tables stay live. -/
theorem not_sticks {m m' : Machine} {f : Fault} (h : m.Framed) (hfp : 0 < m.context.fp)
    (hlive : m'.HiddenLive) : ¬m.Sticks f m' := by
  intro hsticks
  obtain ⟨m₁, hout, -⟩ := unwindFrame_unwound h hfp (by rw [hsticks.stuck]; exact hlive)
  rw [hsticks.stuck] at hout
  cases hout

end Exec

/-! ### Leaving several functions -/

namespace Machine

/-- Functions were left, the innermost first, as long as the frame pointer was above `fp`. -/
inductive Sheds (fp : Nat) : Machine → Machine → Prop
  | none {m : Machine} (framed : m.Framed) : Sheds fp m m
  | left {m m' last : Machine} (framed : m.Framed) (fp_lt : fp < m.context.fp) (left : m.Left m')
      (rest : Sheds fp m' last) : Sheds fp m last

variable {m m' last : Machine} {fp : Nat}

namespace Left

/-- The caller's part of the stack is left, without the frame. -/
theorem stack_eq (h : m.Left m') : ∃ f, m.context.stack[m'.context.stack.size]? = some (.frame f) ∧
    m'.context.stack.size < m.context.stack.size ∧
      m'.context.stack.size + 1 = m.context.lower.size ∧
    m'.context.stack = m.context.stack.extract 0 m'.context.stack.size := by
  obtain ⟨below, f, world, loops, observer, hlower, rfl, -⟩ := h.caller
  have hsize := congrArg Array.size hlower
  rw [Context.lower, Array.size_extract, Array.size_push] at hsize
  refine ⟨f, ?_, ?_, ?_, ?_⟩
  · have hat := congrArg (fun xs : Array Slot => xs[below.size]?) hlower
    rw [Context.lower] at hat
    simp only [Array.getElem?_extract, Array.getElem?_push_size, Nat.zero_add] at hat
    rw [if_pos (by omega)] at hat
    exact hat
  · show below.size < m.context.stack.size
    omega
  · show below.size + 1 = m.context.lower.size
    rw [hlower, Array.size_push]
  · show below = m.context.stack.extract 0 below.size
    have hcut := congrArg (fun xs : Array Slot => xs.extract 0 below.size) hlower
    rw [Context.lower] at hcut
    simp only [Array.extract_extract, Nat.zero_add] at hcut
    rw [Nat.min_eq_left (by omega), Array.extract_push_of_le (Nat.le_refl _),
      Array.extract_size] at hcut
    exact hcut.symm

end Left

namespace Sheds

theorem framed (h : Sheds fp m last) : last.Framed := by
  induction h with
  | none framed => exact framed
  | left _ _ _ _ ih => exact ih

theorem fp_le (h : Sheds fp m last) : last.context.fp ≤ m.context.fp := by
  induction h with
  | none _ => exact Nat.le_refl _
  | left _ _ left _ ih => exact Nat.le_trans ih (Nat.le_of_lt left.fp_lt)

theorem suspended_eq (h : Sheds fp m last) : last.suspended = m.suspended := by
  induction h with
  | none _ => rfl
  | left _ _ left _ ih =>
    obtain ⟨below, f, world, loops, observer, -, rfl, -⟩ := left.caller
    exact ih

theorem ended_eq (h : Sheds fp m last) : last.ended = m.ended := by
  induction h with
  | none _ => rfl
  | left _ _ left _ ih =>
    obtain ⟨below, f, world, loops, observer, -, rfl, -⟩ := left.caller
    exact ih

theorem packages_eq (h : Sheds fp m last) : last.context.packages = m.context.packages := by
  induction h with
  | none _ => rfl
  | left _ _ left _ ih =>
    obtain ⟨below, f, world, loops, observer, -, rfl, -⟩ := left.caller
    exact ih

theorem extraArgs_eq (h : Sheds fp m last) : last.context.extraArgs = m.context.extraArgs := by
  induction h with
  | none _ => rfl
  | left _ _ left _ ih =>
    obtain ⟨below, f, world, loops, observer, -, rfl, -⟩ := left.caller
    exact ih

/-- What is left of the operand stack is its lower part. -/
theorem stack_eq (h : Sheds fp m last) : last.context.stack.size ≤ m.context.stack.size ∧
    last.context.stack = m.context.stack.extract 0 last.context.stack.size := by
  induction h with
  | none _ => exact ⟨Nat.le_refl _, Array.extract_size.symm⟩
  | left _ _ left _ ih =>
    obtain ⟨f, -, hlt, -, hstack⟩ := left.stack_eq
    obtain ⟨hle, heq⟩ := ih
    refine ⟨by omega, ?_⟩
    rw [hstack, Array.extract_extract, Nat.zero_add, Nat.zero_add, Nat.min_eq_left hle] at heq
    exact heq

/-- The slots above `fp` that hold values stay, up to the first frame. -/
theorem size_le (h : Sheds fp m last) {n : Nat} (hn : n ≤ m.context.stack.size)
    (hvalues : ∀ i, fp ≤ i → i < n → ∀ f, m.context.stack[i]? ≠ some (.frame f)) :
    n ≤ last.context.stack.size := by
  induction h with
  | none _ => exact hn
  | @left m m' last framed fp_lt left _ ih =>
    obtain ⟨f, hframe, hlt, hsize, hstack⟩ := left.stack_eq
    rw [Context.size_lower framed.running.fp_le] at hsize
    have hle : n ≤ m'.context.stack.size := by
      rcases Nat.lt_or_ge m'.context.stack.size n with hlt | hge
      · exact (hvalues _ (by omega) hlt f hframe).elim
      · exact hge
    refine ih hle fun i hi hin g hg => hvalues i hi hin g ?_
    rw [hstack, Array.getElem?_extract, Nat.zero_add, if_pos (by omega)] at hg
    exact hg

/-- Handlers of functions that are not left stay armed. -/
theorem mem_handlers (h : Sheds fp m last) {x : Handler} (hx : x ∈ m.context.handlers)
    (hfp : x.fp ≤ fp) : x ∈ last.context.handlers := by
  induction h with
  | none _ => exact hx
  | left _ fp_lt left _ ih =>
    refine ih ?_
    have hle := left.handler_fp_le x hx (by omega)
    obtain ⟨below, f, world, loops, observer, -, rfl, -⟩ := left.caller
    exact List.mem_filter.2 ⟨hx, decide_eq_true hle⟩

end Sheds

end Machine

namespace Exec

open Machine

/-- **Functions are left until the frame pointer is low enough, or one sticks.** -/
theorem unwindTo_cases (fp : Nat) {fuel : Nat} {m : Machine} (h : m.Framed)
    (hfuel : m.context.fp ≤ fuel) :
    ∃ last, m.Sheds fp last ∧
      (last.context.fp ≤ fp ∧ outcome (unwindTo fp fuel) m = (.ok (), last) ∨
        fp < last.context.fp ∧ ∃ f m', last.Sticks f m' ∧
          outcome (unwindTo fp fuel) m = (.error (.fault f), m')) := by
  induction fuel generalizing m with
  | zero => exact ⟨m, .none h, .inl ⟨by omega, rfl⟩⟩
  | succ fuel ih =>
    rw [unwindTo, outcome_bind_ok (outcome_context m)]
    by_cases hlt : fp < m.context.fp
    · rw [if_pos hlt]
      rcases unwindFrame_cases h (by omega) with ⟨m₁, hout, hleft⟩ | ⟨f, m₁, hsticks⟩
      · have hdown := hleft.fp_lt
        obtain ⟨last, hsheds, hlast⟩ := ih hleft.framed (by omega)
        rw [outcome_bind_ok hout]
        exact ⟨last, .left h hlt hleft hsheds, hlast⟩
      · rw [outcome_bind_error hsticks.stuck]
        exact ⟨m, .none h, .inr ⟨hlt, f, m₁, hsticks, rfl⟩⟩
    · rw [if_neg hlt]
      exact ⟨m, .none h, .inl ⟨by omega, rfl⟩⟩

end Exec

/-! ### Active functions -/

/-- A function that is active: where its operands begin, and what it runs. -/
structure Activation where
  fp : Nat
  code : Code
  package : String

def Context.activation (c : Context) : Activation := ⟨c.fp, c.code, c.package⟩

/-- The function that a return goes back to. -/
def Frame.activation (f : Frame) : Activation := ⟨f.fp, f.code, f.package⟩

/-- A function is active on a stack: it is the innermost one, or active below the frame of that. -/
inductive Reaches : Array Slot → Activation → Activation → Prop
  | here {stack : Array Slot} {a : Activation} : Reaches stack a a
  | caller {stack below : Array Slot} {f : Frame} {inner a : Activation}
      (lower : stack.extract 0 inner.fp = below.push (.frame f)) (fp_lt : f.fp < inner.fp)
      (outer : Reaches below f.activation a) : Reaches stack inner a

/-- A function is active in a context. -/
def Context.Active (c : Context) (a : Activation) : Prop := Reaches c.stack c.activation a

namespace Reaches

variable {stack other : Array Slot} {inner a : Activation}

theorem fp_le (h : Reaches stack inner a) : a.fp ≤ inner.fp := by
  induction h with
  | here => exact Nat.le_refl _
  | caller _ fp_lt _ ih => exact Nat.le_trans ih (Nat.le_of_lt fp_lt)

/-- The functions that are active have different frame pointers. -/
theorem eq_of_fp (h : Reaches stack inner a) (hfp : inner.fp ≤ a.fp) : a = inner := by
  cases h with
  | here => rfl
  | caller _ fp_lt outer =>
    have hle : a.fp ≤ _ := outer.fp_le
    exact absurd hle (by
      show ¬a.fp ≤ Activation.fp _
      simp only [Frame.activation]
      omega)

/-- A function that is active is known by its frame pointer. -/
theorem unique {b : Activation} (h : Reaches stack inner a) (h' : Reaches stack inner b)
    (hfp : a.fp = b.fp) : a = b := by
  induction h with
  | here => exact (h'.eq_of_fp (Nat.le_of_eq hfp)).symm
  | caller lower fp_lt outer ih =>
    cases h' with
    | here =>
      have hle : _ ≤ Frame.fp _ := outer.fp_le
      omega
    | caller lower' _ outer' =>
      obtain ⟨hframe, rfl⟩ := Array.push_eq_push.1 (lower.symm.trans lower')
      cases hframe
      exact ih outer' hfp

/-- Only the slots below the frame pointer matter. -/
theorem congr (h : Reaches stack inner a)
    (hlower : other.extract 0 inner.fp = stack.extract 0 inner.fp) : Reaches other inner a := by
  cases h with
  | here => exact .here
  | caller lower fp_lt outer => exact .caller (hlower.trans lower) fp_lt outer

/-- What the innermost function runs does not matter for its callers. -/
theorem withInner (h : Reaches stack inner a) {inner' : Activation} (hfp : inner'.fp = inner.fp)
    (hlt : a.fp < inner.fp) : Reaches stack inner' a := by
  cases h with
  | here => omega
  | caller lower fp_lt outer => exact .caller (by rw [hfp]; exact lower) (by omega) outer

end Reaches

namespace Machine

variable {m m' last : Machine} {fp : Nat} {a : Activation}

/-- The functions that are active after one was left were active before. -/
theorem Left.active (h : m.Left m') (ha : m'.context.Active a) : m.context.Active a := by
  have hlt := h.fp_lt
  obtain ⟨below, f, world, loops, observer, hlower, rfl, -⟩ := h.caller
  exact .caller hlower hlt ha

theorem Sheds.active (h : Sheds fp m last) (ha : last.context.Active a) : m.context.Active a := by
  induction h with
  | none _ => exact ha
  | left _ _ left _ ih => exact left.active (ih ha)

end Machine

end ScriptMachine
