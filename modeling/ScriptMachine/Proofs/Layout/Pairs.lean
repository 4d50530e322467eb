import ScriptMachine.Proofs.Action.Instructions
import ScriptMachine.Proofs.Frames.Chain

/-!
# Pairs of machines

Two machines that run one program whose code is laid out in two ways. They agree on everything but
on where they are in code: on the places that they run at, that frames return to and that handlers
lead to, which correspond, and on what an observer is told.

* `Pairing`: which places in code correspond.
* `Frame.Paired`, `Handler.Paired`: frames and handlers that differ in places that correspond.
* `PairedBelow`: the slots below two frame pointers, with the handlers; `PairedBelow.enter`,
  `PairedBelow.caller`, `PairedBelow.arm`: how calls and handlers change them.
* `World.Agrees`: worlds that differ in the events of their journals.
* `Context.Paired`, `Machine.Paired`: paired contexts and machines.
-/

namespace ScriptMachine

/-- Which places in code correspond: an address in some code, and one in other code. -/
structure Pairing where
  Meets : Code → Nat → Code → Nat → Prop
  refl : ∀ code pc, Meets code pc code pc
  name_eq : ∀ {x y : Code} {p q : Nat}, Meets x p y q → y.name = x.name

section

variable (K : Pairing)

/-- The state of a caller, at places that correspond. -/
structure Frame.Paired (f g : Frame) : Prop where
  same : g = { f with code := g.code, pc := g.pc }
  meets : K.Meets f.code f.pc g.code g.pc

/-- A handler, at addresses of two pieces of code that correspond. -/
structure Handler.Paired (x y : Code) (h k : Handler) : Prop where
  same : k = { h with address := k.address }
  address : Option.Rel (fun a b => K.Meets x a y b) h.address k.address

/-- The slots below the frame pointers of functions in two pieces of code, with the handlers of the
functions and of their callers. -/
inductive PairedBelow : Array Slot → Array Slot → Code → Code → List Handler → List Handler → Prop
  | outermost {x y : Code} {own own' : List Handler}
      (hown : List.Forall₂ (Handler.Paired K x y) own own') (hfp : ∀ h ∈ own, h.fp = 0) :
      PairedBelow #[] #[] x y own own'
  | inner {lower lower' values : Array Slot} {f g : Frame} {x y : Code}
      {own own' outer outer' : List Handler}
      (hlower : PairedBelow lower lower' f.code g.code outer outer') (hfp : f.fp = lower.size)
      (hvalues : OnlyValues values) (hframe : f.Paired K g)
      (hown : List.Forall₂ (Handler.Paired K x y) own own')
      (hhandlers : ∀ h ∈ own, h.fp = lower.size + values.size + 1 ∧
        lower.size + values.size + 1 ≤ h.stackSize) :
      PairedBelow ((lower ++ values).push (.frame f)) ((lower' ++ values).push (.frame g)) x y
        (own ++ outer) (own' ++ outer')

end

variable {K : Pairing}

theorem Frame.Paired.refl (f : Frame) : f.Paired K f := ⟨rfl, K.refl _ _⟩

namespace Handler.Paired

variable {x y : Code} {h k : Handler}

theorem fp_eq (p : h.Paired K x y k) : k.fp = h.fp := by
  rw [p.same]

theorem stackSize_eq (p : h.Paired K x y k) : k.stackSize = h.stackSize := by
  rw [p.same]

theorem symbols_eq (p : h.Paired K x y k) : k.symbols = h.symbols := by
  rw [p.same]

theorem loopDepth_eq (p : h.Paired K x y k) : k.loopDepth = h.loopDepth := by
  rw [p.same]

theorem catches_eq (p : h.Paired K x y k) : k.catches = h.catches := by
  rw [p.same]

theorem isSome_eq (p : h.Paired K x y k) : k.address.isSome = h.address.isSome := by
  rcases h with ⟨_ | a⟩ <;> rcases k with ⟨_ | b⟩ <;> first | rfl | cases p.address

/-- A handler may catch other faults. -/
theorem withCatches (p : h.Paired K x y k) (catches : List Fault) :
    { h with catches }.Paired K x y { k with catches } := by
  refine ⟨?_, p.address⟩
  conv_lhs => rw [p.same]

/-- A handler may be disarmed. -/
theorem disarmed (p : h.Paired K x y k) :
    { h with address := none }.Paired K x y { k with address := none } := by
  refine ⟨?_, .none⟩
  conv_lhs => rw [p.same]

/-- Paired handlers belong to functions at the same place of the stack. -/
theorem map_fp_eq {own own' : List Handler} (h : List.Forall₂ (Handler.Paired K x y) own own') :
    own'.map (·.fp) = own.map (·.fp) := by
  induction h with
  | nil => rfl
  | cons hhead _ ih => rw [List.map_cons, List.map_cons, hhead.fp_eq, ih]

end Handler.Paired

/-- A handler has a counterpart that belongs to a function at the same place of the stack. -/
theorem Handler.exists_of_map_fp_eq {handlers handlers' : List Handler} {k : Handler}
    (h : handlers'.map (·.fp) = handlers.map (·.fp)) (hk : k ∈ handlers') :
    ∃ x ∈ handlers, x.fp = k.fp := by
  have hmem : k.fp ∈ handlers'.map (·.fp) := List.mem_map_of_mem hk
  rw [h] at hmem
  exact List.mem_map.1 hmem

/-! ### Slots below the frame pointer -/

namespace PairedBelow

variable {lower lower' values : Array Slot} {x y : Code} {handlers handlers' : List Handler}

theorem size_eq (p : PairedBelow K lower lower' x y handlers handlers') :
    lower'.size = lower.size := by
  induction p with
  | outermost => rfl
  | inner _ _ _ _ _ _ ih => simp only [Array.size_push, Array.size_append, ih]

/-- The first of the two stacks is one that calls build up. -/
theorem stacked (p : PairedBelow K lower lower' x y handlers handlers') (hvalues : OnlyValues values) :
    ∃ depth, Stacked (lower ++ values) lower.size depth handlers := by
  induction p generalizing values with
  | outermost _ hfp =>
    rw [Array.empty_append]
    exact ⟨0, .outermost hvalues hfp⟩
  | @inner lower lower' below f g _ _ own own' outer outer' _ hfp hbelow _ _ hhandlers ih =>
    obtain ⟨depth, hstacked⟩ := ih hbelow
    rw [← hfp] at hstacked
    have hsize : ((lower ++ below).push (.frame f)).size = (lower ++ below).size + 1 :=
      Array.size_push ..
    rw [hsize]
    refine ⟨depth + 1, .inner own hstacked hvalues fun h hh => ?_⟩
    rw [Array.size_append]
    exact hhandlers h hh

/-- The handlers belong to functions that are still active. -/
theorem handler_fp_le (p : PairedBelow K lower lower' x y handlers handlers') :
    ∀ h ∈ handlers, h.fp ≤ lower.size := by
  obtain ⟨depth, hstacked⟩ := p.stacked OnlyValues.empty
  exact hstacked.handler_fp_le

/-- Handlers of the two machines belong to functions at the same place of the stack. -/
theorem fps_eq (p : PairedBelow K lower lower' x y handlers handlers') :
    handlers'.map (·.fp) = handlers.map (·.fp) := by
  induction p with
  | outermost h => exact Handler.Paired.map_fp_eq h
  | inner _ _ _ _ h _ ih =>
    rw [List.map_append, List.map_append, Handler.Paired.map_fp_eq h, ih]

/-- The innermost handler of the running function or of a caller may go. -/
theorem tail {h k : Handler} {rest rest' : List Handler}
    (p : PairedBelow K lower lower' x y (h :: rest) (k :: rest')) :
    PairedBelow K lower lower' x y rest rest' := by
  generalize hall : h :: rest = all, hall' : k :: rest' = all' at p
  induction p with
  | outermost hown hfp =>
    subst hall hall'
    cases hown with
    | cons _ hrest => exact .outermost hrest fun x hx => hfp x (List.mem_cons_of_mem _ hx)
  | inner hlower hfp hvalues hframe hown hhandlers ih =>
    cases hown with
    | nil => exact .inner (ih hall hall') hfp hvalues hframe .nil (by simp)
    | cons hhead hrest =>
      obtain ⟨rfl, rfl⟩ := List.cons_eq_cons.1 hall
      obtain ⟨rfl, rfl⟩ := List.cons_eq_cons.1 hall'
      exact .inner hlower hfp hvalues hframe hrest fun z hz =>
        hhandlers z (List.mem_cons_of_mem _ hz)

/-- Two machines have as many handlers as each other. -/
theorem length_eq (p : PairedBelow K lower lower' x y handlers handlers') :
    handlers'.length = handlers.length := by
  simpa using congrArg List.length p.fps_eq

theorem drop {pre pre' rest rest' : List Handler} (hlength : pre'.length = pre.length)
    (p : PairedBelow K lower lower' x y (pre ++ rest) (pre' ++ rest')) :
    PairedBelow K lower lower' x y rest rest' := by
  induction pre generalizing pre' with
  | nil =>
    obtain rfl := List.eq_nil_of_length_eq_zero hlength
    exact p
  | cons h pre ih =>
    cases pre' with
    | nil => cases hlength
    | cons k pre' => exact ih (Nat.succ.inj hlength) p.tail

/-- The handlers of callers follow those of the function. -/
theorem fp_le_head {h k : Handler} {rest rest' : List Handler}
    (p : PairedBelow K lower lower' x y (h :: rest) (k :: rest')) : ∀ z ∈ rest, z.fp ≤ h.fp := by
  obtain ⟨depth, hstacked⟩ := p.stacked OnlyValues.empty
  exact hstacked.handler_le_head

/-- A handler of the running function. -/
theorem head {h k : Handler} {rest rest' : List Handler}
    (p : PairedBelow K lower lower' x y (h :: rest) (k :: rest')) (hfp : h.fp = lower.size) :
    h.Paired K x y k ∧ lower.size ≤ h.stackSize := by
  generalize hall : h :: rest = all, hall' : k :: rest' = all' at p
  cases p with
  | outermost hown =>
    subst hall hall'
    cases hown with
    | cons hhead _ => exact ⟨hhead, Nat.zero_le _⟩
  | @inner lower lower' values f g _ _ own own' outer outer' hlower _ _ _ hown hhandlers =>
    rw [Array.size_push, Array.size_append] at hfp ⊢
    cases hown with
    | nil =>
      -- The handlers of callers lie below the frame.
      obtain rfl : h :: rest = outer := hall
      have := hlower.handler_fp_le h List.mem_cons_self
      omega
    | cons hhead _ =>
      obtain ⟨rfl, rfl⟩ := List.cons_eq_cons.1 hall
      obtain ⟨rfl, rfl⟩ := List.cons_eq_cons.1 hall'
      exact ⟨hhead, (hhandlers _ List.mem_cons_self).2⟩

/-- The running function may arm a handler. -/
theorem arm (p : PairedBelow K lower lower' x y handlers handlers') {h k : Handler}
    (hpaired : h.Paired K x y k) (hfp : h.fp = lower.size) (hsize : lower.size ≤ h.stackSize) :
    PairedBelow K lower lower' x y (h :: handlers) (k :: handlers') := by
  cases p with
  | outermost hown hall =>
    refine .outermost (.cons hpaired hown) fun z hz => ?_
    rcases List.mem_cons.1 hz with rfl | hz
    · exact hfp
    · exact hall z hz
  | inner hlower hframe hvalues hpair hown hhandlers =>
    rw [Array.size_push, Array.size_append] at hfp hsize
    refine .inner hlower hframe hvalues hpair (.cons hpaired hown) fun z hz => ?_
    rcases List.mem_cons.1 hz with rfl | hz
    · exact ⟨hfp, hsize⟩
    · exact hhandlers z hz

/-- The innermost handlers differ in addresses that correspond, in the code of some function. -/
theorem exists_head {h k : Handler} {rest rest' : List Handler}
    (p : PairedBelow K lower lower' x y (h :: rest) (k :: rest')) : ∃ x' y', h.Paired K x' y' k := by
  generalize hall : h :: rest = all, hall' : k :: rest' = all' at p
  induction p with
  | outermost hown =>
    subst hall hall'
    cases hown with
    | cons hhead => exact ⟨_, _, hhead⟩
  | inner hlower hfp hvalues hframe hown hhandlers ih =>
    cases hown with
    | nil => exact ih hall hall'
    | cons hhead hrest =>
      obtain ⟨rfl, rfl⟩ := List.cons_eq_cons.1 hall
      obtain ⟨rfl, rfl⟩ := List.cons_eq_cons.1 hall'
      exact ⟨_, _, hhead⟩

/-- The innermost handler may catch other faults. -/
theorem withCatches {h k : Handler} {rest rest' : List Handler} (catches : List Fault)
    (p : PairedBelow K lower lower' x y (h :: rest) (k :: rest')) :
    PairedBelow K lower lower' x y ({ h with catches } :: rest) ({ k with catches } :: rest') := by
  generalize hall : h :: rest = all, hall' : k :: rest' = all' at p
  induction p with
  | outermost hown hfp =>
    subst hall hall'
    cases hown with
    | cons hhead hrest =>
      refine .outermost (.cons (hhead.withCatches catches) hrest) fun z hz => ?_
      rcases List.mem_cons.1 hz with rfl | hz
      · exact hfp h List.mem_cons_self
      · exact hfp z (List.mem_cons_of_mem _ hz)
  | inner hlower hfp hvalues hframe hown hhandlers ih =>
    cases hown with
    | nil => exact .inner (ih hall hall') hfp hvalues hframe .nil (by simp)
    | cons hhead hrest =>
      obtain ⟨rfl, rfl⟩ := List.cons_eq_cons.1 hall
      obtain ⟨rfl, rfl⟩ := List.cons_eq_cons.1 hall'
      have hinner := PairedBelow.inner hlower hfp hvalues hframe
        (.cons (hhead.withCatches catches) hrest) fun z hz => by
          rcases List.mem_cons.1 hz with rfl | hz
          · exact hhandlers h List.mem_cons_self
          · exact hhandlers z (List.mem_cons_of_mem _ hz)
      exact hinner

/-! ### Entering and leaving functions -/

/-- A call puts a frame on the operands. -/
theorem enter (p : PairedBelow K lower lower' x y handlers handlers') (hvalues : OnlyValues values)
    {f g : Frame} (hframe : f.Paired K g) (hcode : f.code = x) (hcode' : g.code = y)
    (hfp : f.fp = lower.size) (x' y' : Code) :
    PairedBelow K ((lower ++ values).push (.frame f)) ((lower' ++ values).push (.frame g)) x' y'
      handlers handlers' := by
  subst hcode hcode'
  have hnone : List.Forall₂ (Handler.Paired K x' y') [] [] := .nil
  exact PairedBelow.inner p hfp hvalues hframe hnone (by simp)

/-- Below the frame of the running function lies the caller. Of the handlers, those of the callers
remain. -/
theorem caller {below below' : Array Slot} {f g : Frame}
    (p : PairedBelow K lower lower' x y handlers handlers')
    (hlower : lower = (below ++ values).push (.frame f))
    (hlower' : lower' = (below' ++ values).push (.frame g)) (hfp : f.fp = below.size)
    (hsize : below'.size = below.size) :
    PairedBelow K below below' f.code g.code (handlers.filter fun h => h.fp ≤ f.fp)
        (handlers'.filter fun h => h.fp ≤ f.fp) ∧
      ∀ h ∈ handlers, h.fp < lower.size → h.fp ≤ f.fp := by
  cases p with
  | outermost => simp at hlower
  | @inner lower₁ lower₁' values₁ f₁ g₁ _ _ own own' outer outer' hbelow hfp₁ _ _ hown hhandlers =>
    obtain ⟨hframe, hstack⟩ := Array.push_eq_push.1 hlower
    obtain ⟨hframe', hstack'⟩ := Array.push_eq_push.1 hlower'
    obtain rfl := Slot.frame.inj hframe
    obtain rfl := Slot.frame.inj hframe'
    obtain ⟨rfl, rfl⟩ := Array.append_inj hstack.symm (hfp.symm.trans hfp₁)
    obtain ⟨rfl, -⟩ := Array.append_inj hstack'.symm (hsize.trans hbelow.size_eq.symm)
    have hle := hbelow.handler_fp_le
    have hle' : ∀ k ∈ outer', k.fp ≤ below.size := by
      intro k hk
      obtain ⟨h, hh, heq⟩ := Handler.exists_of_map_fp_eq hbelow.fps_eq hk
      rw [← heq]
      exact hle h hh
    -- The handlers of the function itself lie above the caller's frame pointer.
    have hnone : own.filter (fun h => decide (h.fp ≤ f₁.fp)) = [] := by
      rw [List.filter_eq_nil_iff]
      intro h hh
      have := (hhandlers h hh).1
      simp only [decide_eq_true_eq]
      omega
    have hnone' : own'.filter (fun h => decide (h.fp ≤ f₁.fp)) = [] := by
      rw [List.filter_eq_nil_iff]
      intro k hk
      obtain ⟨h, hh, heq⟩ := Handler.exists_of_map_fp_eq (Handler.Paired.map_fp_eq hown) hk
      have := (hhandlers h hh).1
      simp only [decide_eq_true_eq]
      omega
    have hall : outer.filter (fun h => decide (h.fp ≤ f₁.fp)) = outer := by
      rw [List.filter_eq_self]
      intro h hh
      exact decide_eq_true (hfp ▸ hle h hh)
    have hall' : outer'.filter (fun h => decide (h.fp ≤ f₁.fp)) = outer' := by
      rw [List.filter_eq_self]
      intro k hk
      exact decide_eq_true (hfp ▸ hle' k hk)
    rw [List.filter_append, List.filter_append, hnone, hnone', hall, hall']
    refine ⟨hbelow, fun h hh hlt => ?_⟩
    rcases List.mem_append.1 hh with hh | hh
    · rw [Array.size_push, Array.size_append] at hlt
      have := (hhandlers h hh).1
      omega
    · rw [hfp]
      exact hle h hh

/-- Where all handlers are those of callers, all remain. -/
theorem caller_of_lt {below below' : Array Slot} {f g : Frame} {h k : Handler}
    {outer outer' : List Handler}
    (p : PairedBelow K lower lower' x y (h :: outer) (k :: outer'))
    (hlower : lower = (below ++ values).push (.frame f))
    (hlower' : lower' = (below' ++ values).push (.frame g)) (hfp : f.fp = below.size)
    (hsize : below'.size = below.size) (hlt : h.fp < lower.size) :
    PairedBelow K below below' f.code g.code (h :: outer) (k :: outer') := by
  obtain ⟨hbelow, hcallers⟩ := p.caller hlower hlower' hfp hsize
  have hle : ∀ z ∈ h :: outer, z.fp ≤ f.fp := by
    intro z hz
    refine hcallers z hz (Nat.lt_of_le_of_lt ?_ hlt)
    rcases List.mem_cons.1 hz with rfl | hz
    · exact Nat.le_refl _
    · exact p.fp_le_head z hz
  have hle' : ∀ z ∈ k :: outer', z.fp ≤ f.fp := by
    intro z hz
    obtain ⟨u, hu, heq⟩ := Handler.exists_of_map_fp_eq p.fps_eq hz
    rw [← heq]
    exact hle u hu
  rwa [List.filter_eq_self.2 fun z hz => decide_eq_true (hle z hz),
    List.filter_eq_self.2 fun z hz => decide_eq_true (hle' z hz)] at hbelow

/-- At the top lie frames, if anything does. -/
theorem back?_cases (p : PairedBelow K lower lower' x y handlers handlers') :
    lower.back? = none ∧ lower'.back? = none ∨
      ∃ f g, lower.back? = some (.frame f) ∧ lower'.back? = some (.frame g) := by
  cases p with
  | outermost => exact .inl ⟨rfl, rfl⟩
  | inner => exact .inr ⟨_, _, Array.back?_push .., Array.back?_push ..⟩

/-- Below the running function lies its frame. -/
theorem frame (p : PairedBelow K lower lower' x y handlers handlers') (hpos : 0 < lower.size) :
    ∃ below below' values f g, lower = (below ++ values).push (.frame f) ∧
      lower' = (below' ++ values).push (.frame g) ∧ f.Paired K g ∧ f.fp = below.size ∧
      below'.size = below.size ∧ OnlyValues values := by
  cases p with
  | outermost => simp at hpos
  | @inner below below' values f g _ _ own own' outer outer' hbelow hfp hvalues hframe hown
      hhandlers =>
    exact ⟨below, below', values, f, g, rfl, rfl, hframe, hfp, hbelow.size_eq, hvalues⟩

end PairedBelow

/-! ### Worlds -/

/-- The world with an empty journal, in which the same categories are active. -/
def World.hushed (w : World) : World :=
  { w with journal := { w.journal with events := #[] } }

/-- Worlds that differ in the events of their journals. -/
def World.Agrees (w w' : World) : Prop := w.hushed = w'.hushed

namespace World

@[simp]
theorem after_hushed (w : World) : w.hushed.after w.journal.events = w := by
  simp [after, hushed]

namespace Agrees

variable {w w' : World}

theorem refl (w : World) : w.Agrees w := rfl

theorem symm (h : w.Agrees w') : w'.Agrees w := Eq.symm h

theorem trans {w'' : World} (h : w.Agrees w') (h' : w'.Agrees w'') : w.Agrees w'' := Eq.trans h h'

theorem heap_eq (h : w.Agrees w') : w'.heap = w.heap := (congrArg World.heap h).symm

theorem scopes_eq (h : w.Agrees w') : w'.scopes = w.scopes := (congrArg World.scopes h).symm

/-- A computation that does not read the events of the journal does the same in both. -/
theorem run {α : Type} {act : WorldM α} (h : w.Agrees w') (hact : act.IsUnread) :
    (act.run w').1 = (act.run w).1 ∧ (act.run w).2.Agrees (act.run w').2 := by
  rw [← after_hushed w, ← after_hushed w', hact, hact, ← show w.hushed = w'.hushed from h]
  exact ⟨rfl, rfl⟩

end Agrees

/-- Notes leave a world that agrees. -/
theorem agrees_note (c : Category) (message : Unit → String) (w : World) :
    w.Agrees ((World.note c message).run w).2 := by
  show w.hushed = ({ w with journal := w.journal.note c message } : World).hushed
  unfold Journal.note
  split <;> rfl

theorem agrees_emit (c : Category) (message : String) (w : World) :
    w.Agrees ((World.emit c message).run w).2 := rfl

end World

/-! ### Contexts and machines -/

section

variable (K : Pairing)

/-- Contexts that agree on everything but on where they are in code and on what their observers are
told; if `T` holds, the places where they are correspond. -/
structure Context.Paired (T : Prop) (c e : Context) : Prop where
  same : e = { c with
    code := e.code, pc := e.pc, stack := e.stack, handlers := e.handlers, observer := e.observer }
  name_eq : e.code.name = c.code.name
  grounded : c.Grounded
  fp_le : e.fp ≤ e.stack.size
  operands_eq : e.operands = c.operands
  below : PairedBelow K c.lower e.lower c.code e.code c.handlers e.handlers
  meets : T → K.Meets c.code c.pc e.code e.pc
  allowance_eq : c.observer.allowance = none
  allowance_eq' : e.observer.allowance = none

structure Suspended.Paired (s t : Suspended) : Prop where
  context : s.context.Paired K True t.context
  awaiting_eq : t.awaiting = s.awaiting

/-- Machines without tasks whose worlds agree and whose contexts are paired; if `T` holds, the places
where they are correspond. -/
structure Machine.Paired (T : Prop) (m n : Machine) : Prop where
  world : m.world.Agrees n.world
  context : m.context.Paired K T n.context
  suspended : List.Forall₂ (Suspended.Paired K) m.suspended n.suspended
  ended_eq : n.ended = m.ended
  tasks_eq : m.tasks = #[]
  tasks_eq' : n.tasks = #[]

end

namespace Context.Paired

variable {T T' : Prop} {c e : Context}

theorem weaken (p : c.Paired K T e) (h : T' → T) : c.Paired K T' e := { p with meets := p.meets ∘ h }

theorem fp_eq (p : c.Paired K T e) : e.fp = c.fp := by
  rw [p.same]

/-- The handlers may change. -/
theorem withHandlers (p : c.Paired K T e) {own own' : List Handler}
    (below : PairedBelow K c.lower e.lower c.code e.code own own') :
    ({ c with handlers := own } : Context).Paired K T { e with handlers := own' } := by
  refine ⟨?_, p.name_eq, ⟨p.grounded.fp_le, p.grounded.values⟩, p.fp_le, p.operands_eq, below, p.meets,
    p.allowance_eq, p.allowance_eq'⟩
  conv_lhs => rw [p.same]

theorem size_stack_eq (p : c.Paired K T e) : e.stack.size = c.stack.size := by
  have hsize := congrArg Array.size p.operands_eq
  rw [Context.size_operands, Context.size_operands, p.fp_eq] at hsize
  have hle := p.grounded.fp_le
  have hle' := p.fp_le
  rw [p.fp_eq] at hle'
  omega

/-- The stacks differ below the frame pointer alone. -/
theorem stack_eq (p : c.Paired K T e) : e.stack = e.lower ++ c.operands := by
  rw [← p.operands_eq, Context.lower_append_operands p.fp_le]

end Context.Paired

theorem Machine.Paired.weaken {T T' : Prop} {m n : Machine} (p : m.Paired K T n) (h : T' → T) :
    m.Paired K T' n := { p with context := p.context.weaken h }

/-- The running contexts may be others. -/
theorem Machine.Paired.withContexts {T T' : Prop} {m n : Machine} {c e : Context}
    (p : m.Paired K T n) (h : c.Paired K T' e) :
    ({ m with context := c } : Machine).Paired K T' { n with context := e } := { p with context := h }

end ScriptMachine
