import ScriptMachine.Proofs.Frames.Oblivious

/-!
# Going on

Unless a step leaves a function, the functions of the running context go on: the same one runs, or
it has called another one, and the handlers are the same as far as they were there before. Handlers
are told apart by their position, counted from the outermost.

* `Context.handlerTo`: the handler that a context arms.
* `Handler.Becomes`, `Outlasts`: what becomes of a handler, and of the handlers of a context.
* `Context.Continues`: no function of a context was left.
* `Machine.Goes`: the running context continues, or waits for another one.
* `Machine.Goes.ofHas`, `CallsAfter.goes`: steady actions and calls go on.
-/

namespace ScriptMachine

/-- What becomes of a handler: other restrictions, and in the end no address. -/
structure Handler.Becomes (h h' : Handler) : Prop where
  fp_eq : h'.fp = h.fp
  stackSize_eq : h'.stackSize = h.stackSize
  symbols_eq : h'.symbols = h.symbols
  loopDepth_eq : h'.loopDepth = h.loopDepth
  address_eq : h'.address = h.address ∨ h'.address = none

/-- The handler at an address that a context arms. -/
def Context.handlerTo (c : Context) (address : Nat) : Handler where
  address := some address
  fp := c.fp
  stackSize := c.stack.size
  symbols := c.symbols
  loopDepth := c.loops.length

namespace Handler.Becomes

variable {h h' h'' : Handler}

theorem refl (h : Handler) : h.Becomes h := ⟨rfl, rfl, rfl, rfl, .inl rfl⟩

theorem trans (h₁ : h.Becomes h') (h₂ : h'.Becomes h'') : h.Becomes h'' where
  fp_eq := h₂.fp_eq.trans h₁.fp_eq
  stackSize_eq := h₂.stackSize_eq.trans h₁.stackSize_eq
  symbols_eq := h₂.symbols_eq.trans h₁.symbols_eq
  loopDepth_eq := h₂.loopDepth_eq.trans h₁.loopDepth_eq
  address_eq := h₂.address_eq.elim (fun he => he ▸ h₁.address_eq) .inr

/-- A handler that was disarmed stays so. -/
theorem address_none (h₁ : h.Becomes h') (hnone : h.address = none) : h'.address = none :=
  h₁.address_eq.elim (fun he => he.trans hnone) id

end Handler.Becomes

/-- The handler at a position, counted from the outermost. -/
def handlerAt? (handlers : List Handler) (n : Nat) : Option Handler := handlers.reverse[n]?

theorem handlerAt?_append {pre outer : List Handler} {n : Nat} (hn : n < outer.length) :
    handlerAt? (pre ++ outer) n = handlerAt? outer n := by
  unfold handlerAt?
  rw [List.reverse_append, List.getElem?_append_left (by rwa [List.length_reverse])]

theorem handlerAt?_cons (h : Handler) (outer : List Handler) :
    handlerAt? (h :: outer) outer.length = some h := by
  unfold handlerAt?
  have hle : outer.reverse.length ≤ outer.length := Nat.le_of_eq List.length_reverse
  rw [List.reverse_cons, List.getElem?_append_right hle, List.length_reverse, Nat.sub_self]
  rfl

theorem handlerAt?_middle (pre : List Handler) (h : Handler) (outer : List Handler) :
    handlerAt? (pre ++ h :: outer) outer.length = some h := by
  rw [handlerAt?_append (by rw [List.length_cons]; omega), handlerAt?_cons]

theorem lt_of_handlerAt? {handlers : List Handler} {n : Nat} {h : Handler}
    (hat : handlerAt? handlers n = some h) : n < handlers.length := by
  obtain ⟨hlt, -⟩ := List.getElem?_eq_some_iff.1 hat
  rwa [List.length_reverse] at hlt

theorem mem_of_handlerAt? {handlers : List Handler} {n : Nat} {h : Handler}
    (hat : handlerAt? handlers n = some h) : h ∈ handlers :=
  List.mem_reverse.1 (List.mem_of_getElem? hat)

/-- At each position that the handlers had, they still have the handler that was there. -/
def Outlasts (before after : List Handler) : Prop :=
  ∀ n h', handlerAt? after n = some h' → n < before.length →
    ∃ h, handlerAt? before n = some h ∧ h.Becomes h'

namespace Outlasts

variable {before middle after : List Handler}

theorem refl (handlers : List Handler) : Outlasts handlers handlers :=
  fun _ h hat _ => ⟨h, hat, .refl h⟩

theorem trans (h₁ : Outlasts before middle) (h₂ : Outlasts middle after)
    (hlength : after.length ≤ middle.length) : Outlasts before after := by
  intro n h' hat hn
  have hlt := lt_of_handlerAt? hat
  obtain ⟨h, hmiddle, hbecomes⟩ := h₂ n h' hat (by omega)
  obtain ⟨h₀, hbefore, hbecomes₀⟩ := h₁ n h hmiddle hn
  exact ⟨h₀, hbefore, hbecomes₀.trans hbecomes⟩

/-- Inner handlers may go. -/
theorem ofSuffix (own : List Handler) : Outlasts (own ++ after) after := by
  intro n h' hat _
  exact ⟨h', by rwa [handlerAt?_append (lt_of_handlerAt? hat)], .refl h'⟩

/-- Another handler may be armed. -/
theorem arm (h : Handler) : Outlasts before (h :: before) := by
  intro n h' hat hn
  rw [← List.singleton_append, handlerAt?_append hn] at hat
  exact ⟨h', hat, .refl h'⟩

/-- The innermost handler that is left may have become another one. -/
theorem replace (pre : List Handler) {h h' : Handler} {outer : List Handler}
    (hbecomes : h.Becomes h') : Outlasts (pre ++ h :: outer) (h' :: outer) := by
  intro n x hat _
  have hlt := lt_of_handlerAt? hat
  rw [List.length_cons] at hlt
  rcases Nat.lt_or_eq_of_le (Nat.lt_succ_iff.1 hlt) with hlt | rfl
  · rw [← List.singleton_append, handlerAt?_append hlt] at hat
    refine ⟨x, ?_, .refl x⟩
    rw [List.append_cons, handlerAt?_append hlt]
    exact hat
  · rw [handlerAt?_cons] at hat
    cases hat
    exact ⟨h, handlerAt?_middle pre h outer, hbecomes⟩

end Outlasts

/-- Of the handlers on a stack, those of outer functions are the last ones. -/
theorem Stacked.handlers_eq {stack : Array Slot} {fp depth : Nat} {handlers : List Handler}
    (h : Stacked stack fp depth handlers) (limit : Nat) :
    ∃ own, handlers = own ++ handlers.filter fun x => x.fp ≤ limit := by
  induction handlers with
  | nil => exact ⟨[], rfl⟩
  | cons x rest ih =>
    by_cases hx : x.fp ≤ limit
    · refine ⟨[], ?_⟩
      symm
      rw [List.nil_append, List.filter_eq_self]
      intro y hy
      rcases List.mem_cons.1 hy with rfl | hy
      · exact decide_eq_true hx
      · exact decide_eq_true (Nat.le_trans (h.handler_le_head y hy) hx)
    · obtain ⟨own, hown⟩ := ih h.tail
      refine ⟨x :: own, ?_⟩
      rw [List.filter_cons_of_neg (by simpa using hx), List.cons_append, ← hown]

/-! ### Contexts that continue -/

/-- A context later on, when none of its functions was left: the same function runs, or it has
called another one. It has a further handler at most after a `special` instruction. -/
inductive Context.Continues (special : Prop) (c c' : Context) : Prop
  | runs (code_eq : c'.code = c.code) (fp_eq : c'.fp = c.fp) (lower_eq : c'.lower = c.lower)
      (handlers : Outlasts c.handlers c'.handlers)
      (length_le : c'.handlers.length ≤ c.handlers.length ∨ special)
  | called (below : Array Slot) (f : Frame) (lower_eq : c'.lower = below.push (.frame f))
      (fp_lt : f.fp < c'.fp) (code_eq : f.code = c.code) (fp_eq : f.fp = c.fp)
      (below_lower : below.extract 0 c.fp = c.lower) (handlers_eq : c'.handlers = c.handlers)

namespace Context.Continues

variable {special : Prop} {c c₁ c' : Context}

/-- The same function runs on, with the same handlers. -/
theorem ofRuns (hcode : c'.code = c.code) (hfp : c'.fp = c.fp) (hlower : c'.lower = c.lower)
    (hhandlers : c'.handlers = c.handlers) : c.Continues special c' := by
  refine .runs hcode hfp hlower ?_ (.inl (Nat.le_of_eq (congrArg List.length hhandlers)))
  rw [hhandlers]
  exact .refl _

theorem refl (c : Context) : c.Continues special c := .ofRuns rfl rfl rfl rfl

theorem outlasts (h : c.Continues special c') : Outlasts c.handlers c'.handlers := by
  cases h with
  | runs _ _ _ handlers _ => exact handlers
  | called _ _ _ _ _ _ _ handlers_eq =>
    rw [handlers_eq]
    exact .refl _

theorem length_le (h : c.Continues special c') :
    c'.handlers.length ≤ c.handlers.length ∨ special := by
  cases h with
  | runs _ _ _ _ length_le => exact length_le
  | called _ _ _ _ _ _ _ handlers_eq => exact .inl (Nat.le_of_eq (congrArg List.length handlers_eq))

/-- What concerns other parts of the context does not matter. -/
theorem after (h : c₁.Continues special c') (hcode : c₁.code = c.code) (hfp : c₁.fp = c.fp)
    (hlower : c₁.lower = c.lower) (hhandlers : c₁.handlers = c.handlers) :
    c.Continues special c' := by
  cases h with
  | runs code_eq fp_eq lower_eq handlers length_le =>
    exact .runs (code_eq.trans hcode) (fp_eq.trans hfp) (lower_eq.trans hlower)
      (by rwa [← hhandlers]) (by rwa [← hhandlers])
  | called below f lower_eq fp_lt code_eq fp_eq below_lower handlers_eq =>
    exact .called below f lower_eq fp_lt (code_eq.trans hcode) (fp_eq.trans hfp)
      (by rw [← hfp, below_lower, hlower]) (handlers_eq.trans hhandlers)

end Context.Continues

/-- The running context continues, or another one was set going while it waits. It has a further
handler, or has ended, at most after a `special` instruction. -/
structure Machine.Goes (special : Prop) (m m' : Machine) : Prop where
  continues : m.context.Continues special (m'.contextAt m.suspended.length)
  fresh : m'.suspended = m.suspended ∨ m'.context.handlers = []
  ended : m'.ended = m.ended ∨ special

namespace Machine

variable {special : Prop} {m m' : Machine}

theorem contextAt_of_append (extra : List Suspended) (h : m'.suspended = extra ++ m.suspended)
    {k : Nat} (hk : k < m.suspended.length) : m'.contextAt k = m.contextAt k := by
  have hk' : k < m.suspended.reverse.length := by
    rw [List.length_reverse]
    exact hk
  unfold contextAt
  rw [h, List.reverse_append, List.getElem?_append_left hk', List.getElem?_eq_getElem hk']

theorem contextAt_of_cons {s : Suspended} (h : m'.suspended = s :: m.suspended) :
    m'.contextAt m.suspended.length = s.context := by
  have hat : m'.suspended.reverse[m.suspended.length]? = some s := by
    simp [h]
  unfold contextAt
  simp only [hat]

theorem Goes.ofRunning (hcontinues : m.context.Continues special m'.context)
    (hsuspended : m'.suspended = m.suspended)
    (hended : m'.ended = m.ended ∨ special) : m.Goes special m' := by
  refine ⟨?_, .inl hsuspended, hended⟩
  rwa [contextAt_of_level (Nat.le_of_eq (congrArg List.length hsuspended))]

theorem Goes.refl (m : Machine) : m.Goes special m := .ofRunning (.refl _) rfl (.inl rfl)

/-- What an action does before it touches code, frames or handlers does not matter. -/
theorem Goes.after {m₀ : Machine} (h : m₀.Goes special m')
    (hcode : m₀.context.code = m.context.code)
    (hfp : m₀.context.fp = m.context.fp) (hlower : m₀.context.lower = m.context.lower)
    (hhandlers : m₀.context.handlers = m.context.handlers)
    (hsuspended : m₀.suspended = m.suspended) (hended : m₀.ended = m.ended) :
    m.Goes special m' := by
  refine ⟨?_, ?_, ?_⟩
  · rw [← hsuspended]
    exact h.continues.after hcode hfp hlower hhandlers
  · rw [← hsuspended]
    exact h.fresh
  · rw [← hended]
    exact h.ended

/-- When a handler was not armed after all, and the context has not ended. -/
theorem Goes.strict (h : m.Goes special m') (hstrict : special → m'.ended = m.ended ∧
      (m'.contextAt m.suspended.length).handlers.length ≤ m.context.handlers.length) :
    m.Goes False m' := by
  refine ⟨?_, h.fresh, .inl (h.ended.elim id fun hspecial => (hstrict hspecial).1)⟩
  cases h.continues with
  | runs code_eq fp_eq lower_eq handlers length_le =>
    exact .runs code_eq fp_eq lower_eq handlers
      (.inl (length_le.elim id fun hspecial => (hstrict hspecial).2))
  | called below f lower_eq fp_lt code_eq fp_eq below_lower handlers_eq =>
    exact .called below f lower_eq fp_lt code_eq fp_eq below_lower handlers_eq

theorem Goes.ofHas (hhas : m'.Has m.footing) (hlower : m'.context.lower = m.context.lower) :
    m.Goes special m' :=
  .ofRunning (.ofRuns hhas.code_eq hhas.fp_eq hlower hhas.handlers_eq) hhas.suspended_eq
    (.inl hhas.ended_eq)

end Machine

open Machine

variable {special : Prop}

/-- Calls go on. -/
theorem CallEffect.goes {m m' : Machine} (heffect : CallEffect m m')
    (hfp : m.context.fp ≤ m.context.stack.size) : m.Goes special m' := by
  cases heffect with
  | stays has lower => exact .ofHas has lower
  | enters name table code pc observer package context suspended ended =>
    refine .ofRunning ?_ suspended (.inl ended)
    rw [context]
    refine .called m.context.stack (m.context.saved name) ?_ ?_ rfl rfl rfl rfl
    · show (m.context.stack.push _).extract 0 (m.context.stack.size + 1) = _
      rw [← Array.size_push, Array.extract_size]
    · show m.context.fp < m.context.stack.size + 1
      omega
  | suspends awaiting fresh suspended ended =>
    refine ⟨?_, .inr fresh.handlers_eq, .inl ended⟩
    rw [contextAt_of_cons suspended]
    exact .refl _

namespace Exec

theorem CallsAfter.goes {i : Instruction} {act : Exec Unit} (hact : CallsAfter i act) {m : Machine}
    (h : m.context.Grounded) : m.Goes special (outcome act m).2 := by
  rcases hact m h with ⟨hhas, hlower⟩ | ⟨extraArgs, hle, heffect⟩
  · exact .ofHas hhas hlower
  · have hground := withoutSlots_grounded h hle extraArgs
    refine (heffect.goes hground.fp_le).after rfl rfl ?_ rfl rfl rfl
    show (m.context.stack.extract 0 _).extract 0 m.context.fp = m.context.lower
    rw [Array.extract_extract, Nat.zero_add, Nat.zero_add, Nat.min_eq_left (by omega)]
    rfl

end Exec

end ScriptMachine
