import ScriptMachine.Proofs.Layout.Splices
import ScriptMachine.Proofs.Literals.Runs

/-!
# Code in place of other code

Code that may be put in place of other code: a program that starts with it comes to the same end, and
leaves the same behind.

* `Machine.Resembles`: two machines leave the same behind, but for the places in code that frames hold.
* `Machine.Starts`: a machine about to run code from its beginning; `Machine.withCode`: with other code.
* `Code.Replaces`: code that may be put in place of other code; `Replaces.trans`.
* `Resplices.replaces`: code with a run of instructions replaced that do the same.
-/

namespace ScriptMachine

/-! ### What is left behind -/

/-- The frame without the place in code that it leads back to. -/
def Frame.placeless (f : Frame) : Frame := { f with code := .empty f.code.name, pc := 0 }

def Slot.placeless : Slot → Slot
  | .value v => .value v
  | .frame f => .frame f.placeless

theorem Frame.Paired.placeless_eq {K : Pairing} {f g : Frame} (p : f.Paired K g) :
    g.placeless = f.placeless := by
  have hname := K.name_eq p.meets
  rw [p.same] at hname ⊢
  unfold Frame.placeless
  rw [hname]

theorem PairedBelow.placeless_eq {K : Pairing} {lower lower' : Array Slot} {x y : Code}
    {handlers handlers' : List Handler} (p : PairedBelow K lower lower' x y handlers handlers') :
    lower'.map Slot.placeless = lower.map Slot.placeless := by
  induction p with
  | outermost => rfl
  | inner _ _ _ hframe _ _ ih =>
    rw [Array.map_push, Array.map_push, Array.map_append, Array.map_append, ih, Slot.placeless,
      Slot.placeless, hframe.placeless_eq]

/-- Two machines have ended alike, with the same objects, symbols in every table, operands, output and
result; frames on their stacks may lead back to other places in code. -/
structure Machine.Resembles (m n : Machine) : Prop where
  ended_eq : n.ended = m.ended
  heap_eq : n.world.heap = m.world.heap
  scopes_eq : n.world.scopes = m.world.scopes
  symbols_eq : n.context.symbols = m.context.symbols
  stack_eq : n.context.stack.map Slot.placeless = m.context.stack.map Slot.placeless
  output_eq : n.context.output = m.context.output
  result_eq : n.context.result = m.context.result

namespace Machine

variable {m n o : Machine}

theorem Resembles.refl (m : Machine) : m.Resembles m := ⟨rfl, rfl, rfl, rfl, rfl, rfl, rfl⟩

theorem Resembles.trans (h : m.Resembles n) (h' : n.Resembles o) : m.Resembles o where
  ended_eq := h'.ended_eq.trans h.ended_eq
  heap_eq := h'.heap_eq.trans h.heap_eq
  scopes_eq := h'.scopes_eq.trans h.scopes_eq
  symbols_eq := h'.symbols_eq.trans h.symbols_eq
  stack_eq := h'.stack_eq.trans h.stack_eq
  output_eq := h'.output_eq.trans h.output_eq
  result_eq := h'.result_eq.trans h.result_eq

/-- **Paired machines leave the same behind.** -/
theorem Paired.resembles {K : Pairing} {T : Prop} (p : m.Paired K T n) : m.Resembles n where
  ended_eq := p.ended_eq
  heap_eq := p.world.heap_eq
  scopes_eq := p.world.scopes_eq
  symbols_eq := by rw [p.context.same]
  stack_eq := by
    have hstack := Context.lower_append_operands p.context.grounded.fp_le
    rw [p.context.stack_eq, ← hstack, Array.map_append, Array.map_append, p.context.below.placeless_eq]
  output_eq := by rw [p.context.same]
  result_eq := by rw [p.context.same]

/-! ### At the beginning of code -/

/-- The machine is about to run code from its beginning, without tasks and without a limit to the
number of instructions. -/
structure Starts (m : Machine) (c : Code) : Prop where
  code_eq : m.context.code = c
  pc_eq : m.context.pc = 0
  fresh : m.context.Fresh
  allowance_eq : m.context.observer.allowance = none
  suspended_eq : m.suspended = []
  tasks_eq : m.tasks = #[]
  sound : m.world.scopes.Sound

/-- The machine with other code to run. -/
def withCode (m : Machine) (code : Code) : Machine :=
  { m with context := { m.context with code } }

variable {c d : Code} {L : Literals}

theorem Starts.framed (h : m.Starts c) : m.Framed where
  running := h.fresh.framed
  waiting s hs := by
    rw [h.suspended_eq] at hs
    cases hs
  sound := h.sound

theorem Starts.withCode (h : m.Starts c) (d : Code) : (m.withCode d).Starts d :=
  ⟨rfl, h.pc_eq, ⟨h.fresh.values, h.fresh.fp_eq, h.fresh.frameDepth_eq, h.fresh.handlers_eq⟩,
    h.allowance_eq, h.suspended_eq, h.tasks_eq, h.sound⟩

/-- At the beginning of code whose beginnings correspond, machines are paired. -/
theorem Starts.paired {K : Pairing} {T : Prop} (h : m.Starts c) (hmeets : K.Meets c 0 d 0) :
    m.Paired K T (m.withCode d) := by
  have hself : m.context.Paired K True m.context := h.fresh.paired h.allowance_eq
  have hmeets' : K.Meets m.context.code m.context.pc d m.context.pc := by
    rw [h.code_eq, h.pc_eq]
    exact hmeets
  have hlower : m.context.lower = #[] := by
    rw [Context.lower, h.fresh.fp_eq]
    exact Array.extract_zero
  have hhandlers := h.fresh.handlers_eq
  refine ⟨.refl _, ⟨rfl, K.name_eq hmeets', hself.grounded, hself.fp_le, rfl, ?_, fun _ => hmeets',
    h.allowance_eq, h.allowance_eq⟩, ?_, rfl, h.tasks_eq, h.tasks_eq⟩
  · show PairedBelow K m.context.lower m.context.lower m.context.code d m.context.handlers
      m.context.handlers
    rw [hlower, hhandlers]
    exact .outermost .nil (by simp)
  · show List.Forall₂ _ m.suspended m.suspended
    rw [h.suspended_eq]
    exact .nil

end Machine

/-- Only the code of a context spells literals. -/
theorem Machine.Apart.withCode {L : Literals} {m : Machine} (h : m.Apart L) {d : Code}
    (hd : d.Spells L) : (m.withCode d).Apart L := { h with context := { h.context with code := hd } }

theorem Machine.Apart.later {L : Literals} {m : Machine} (h : m.Apart L) (k : Nat) :
    (m.later k).Apart L := by
  induction k generalizing m with
  | zero => exact h
  | succ k ih => exact ih h.step

/-! ### Replacing code -/

/-- Code may be put in place of other code, as far as machines keep apart from literals. It has no other
literals, and a machine that starts with it comes to the same ends, and resembles one that started with
the other code, if that one is decent at any time. -/
structure Code.Replaces (L : Literals) (c d : Code) : Prop where
  spells : c.Spells L → d.Spells L
  runs : ∀ {m : Machine}, m.Starts c → m.Apart L → (∀ k, (m.later k).Decent) →
    (∀ k, ((m.withCode d).later k).Decent) ∧ ∀ result,
      (∀ m', m.ComesTo result m' → ∃ n', (m.withCode d).ComesTo result n' ∧ m'.Resembles n') ∧
      ∀ n', (m.withCode d).ComesTo result n' → ∃ m', m.ComesTo result m' ∧ m'.Resembles n'

namespace Code

variable {c d e : Code} {L : Literals} {start count : Nat} {replacement : List Instruction}

open Exec

theorem Replaces.refl (c : Code) : c.Replaces L c where
  spells hc := hc
  runs {m} hstarts _ hdecent := by
    have hsame : m.withCode c = m := by
      rw [← hstarts.code_eq]
      rfl
    rw [hsame]
    exact ⟨hdecent, fun result => ⟨fun m' hm' => ⟨m', hm', .refl m'⟩, fun m' hm' => ⟨m', hm', .refl m'⟩⟩⟩

/-- **Code that is replaced more than once.** -/
theorem Replaces.trans (h : c.Replaces L d) (h' : d.Replaces L e) : c.Replaces L e where
  spells hc := h'.spells (h.spells hc)
  runs {m} hstarts hapart hdecent := by
    have hc : c.Spells L := by
      rw [← hstarts.code_eq]
      exact hapart.context.code
    obtain ⟨hdecent₁, hends₁⟩ := h.runs hstarts hapart hdecent
    obtain ⟨hdecent₂, hends₂⟩ :=
      h'.runs (hstarts.withCode d) (hapart.withCode (h.spells hc)) hdecent₁
    refine ⟨hdecent₂, fun result => ⟨fun m' hm' => ?_, fun o' ho' => ?_⟩⟩
    · obtain ⟨n', hn', hresembles⟩ := (hends₁ result).1 m' hm'
      obtain ⟨o', ho', hresembles'⟩ := (hends₂ result).1 n' hn'
      exact ⟨o', ho', hresembles.trans hresembles'⟩
    · obtain ⟨n', hn', hresembles'⟩ := (hends₂ result).2 o' ho'
      obtain ⟨m', hm', hresembles⟩ := (hends₁ result).2 n' hn'
      exact ⟨m', hm', hresembles.trans hresembles'⟩

/-- **Code with a run of instructions replaced** by others that do the same on all machines that keep
apart from the literals. -/
theorem Resplices.replaces (h : c.Resplices d start count replacement)
    (hspells : c.Spells L → d.Spells L)
    (halike : ∀ m : Machine, m.Apart L → m.context.Grounded →
      outcome (executeAll (c.ops.extract start (start + count)).toList) m
        = outcome (executeAll replacement) m) : c.Replaces L d where
  spells := hspells
  runs {m} hstarts hapart hdecent := by
    have hmeets : h.pairing.Meets c 0 d 0 := by
      have hlength := h.length_le
      refine .inr ⟨rfl, rfl, .inl (Nat.zero_le _), ?_⟩
      unfold landing
      split <;> omega
    have hfollows : h.Follows (Machine.Apart L) m (m.withCode d) :=
      ⟨hstarts.paired hmeets, hstarts.framed, hdecent, hapart.later⟩
    obtain ⟨hdecent', hends⟩ := hfollows.runs halike
    refine ⟨hdecent', fun result => ⟨fun m' hm' => ?_, fun n' hn' => ?_⟩⟩
    · obtain ⟨n', hn', hlast⟩ := (hends result).1 m' hm'
      exact ⟨n', hn', hlast.paired.resembles⟩
    · obtain ⟨m', hm', hlast⟩ := (hends result).2 n' hn'
      exact ⟨m', hm', hlast.paired.resembles⟩

/-- Code with the same instructions. -/
theorem Replaces.of_ops (hname : d.name = c.name) (hops : d.ops = c.ops)
    (hwide : ∀ i ∈ c.ops, i.op.isBranch = true → i.operand.IsWide) : c.Replaces L d := by
  refine (Resplices.of_ops hname hops hwide).replaces ?_ fun m _ _ => ?_
  · rintro ⟨depth, hc⟩
    exact .operands depth (hops ▸ hc)
  · rw [Array.extract_empty_of_stop_le_start (Nat.le_refl 0)]

end Code

end ScriptMachine
