import ScriptMachine.Machine.Containers
import ScriptMachine.Machine.Shuffles
import ScriptMachine.Proofs.Action.Locality

/-!
# Operands and names

The primitive actions on operands and names are local.

* `outcome_pop`, `outcome_popArgs`: what taking operands does.
* `IsLocal.pop`, `IsLocal.popArgs`, `IsLocal.dropToMarker`: taking operands.
* `IsLocal.changeScopes`: writing names.
-/

namespace ScriptMachine

theorem Machine.withStack_self (m : Machine) : m.withStack m.context.stack = m := rfl

namespace Context.Grounded

variable {c : Context}

/-- A stack that is grounded is the part below the frame pointer, and values above it. -/
theorem lower_append (h : c.Grounded) : c.lower ++ c.operands = c.stack :=
  lower_append_operands h.fp_le

/-- A running function without operands, or the value on top of the others. -/
theorem operands_cases (h : c.Grounded) :
    (c.stack.size ≤ c.fp ∧ c.operands = #[]) ∨
      ∃ xs v, c.fp < c.stack.size ∧ c.operands = xs.push (.value v) ∧
        c.stack.back? = some (.value v) ∧ c.stack.pop = c.lower ++ xs := by
  have hsize := c.size_operands
  by_cases hle : c.stack.size ≤ c.fp
  · exact .inl ⟨hle, Array.eq_empty_of_size_eq_zero (by omega)⟩
  · refine .inr ?_
    have hne : c.operands.size ≠ 0 := by omega
    obtain ⟨xs, s, hxs⟩ := Array.eq_push_of_size_ne_zero hne
    obtain ⟨v, rfl⟩ := h.values s (by rw [hxs]; exact Array.mem_push_self)
    refine ⟨xs, v, by omega, hxs, ?_, ?_⟩
    · rw [← h.lower_append, hxs]
      simp
    · rw [← h.lower_append, hxs]
      simp

end Context.Grounded

theorem OnlyValues.push {xs : Array Slot} (h : OnlyValues xs) (v : Value) :
    OnlyValues (xs.push (.value v)) := by
  intro s hs
  rcases Array.mem_push.1 hs with hs | rfl
  · exact h s hs
  · exact ⟨v, rfl⟩

theorem OnlyValues.extract {xs : Array Slot} (h : OnlyValues xs) (i j : Nat) :
    OnlyValues (xs.extract i j) := fun s hs => h s (mem_of_mem_extract hs)

theorem OnlyValues.of_push {xs : Array Slot} {s : Slot} (h : OnlyValues (xs.push s)) :
    OnlyValues xs := fun t ht => h t (Array.mem_push.2 (.inl ht))

namespace Exec

variable {α β : Type}

/-! ### Taking operands -/

/-- What the top operand is, if there is one, and the operands below it. -/
def popped (xs : Array Slot) : Except Halt Value × Array Slot :=
  match xs.back? with
  | some (.value v) => (.ok v, xs.pop)
  | _ => (.error (.fault (.bare .stackUnderflow)), xs)

theorem outcome_pop {m : Machine} (h : m.context.Grounded) :
    outcome pop m = ((popped m.context.operands).1,
      m.withStack (m.context.lower ++ (popped m.context.operands).2)) := by
  rw [pop, outcome_bind, outcome_get]
  rcases h.operands_cases with ⟨hle, hnil⟩ | ⟨xs, v, hlt, hpush, hback, hpop⟩
  · have hstack := h.lower_append
    rw [hnil] at hstack ⊢
    show outcome (if _ then _ else _) m = (_, m.withStack (m.context.lower ++ #[]))
    rw [if_pos hle, hstack, Machine.withStack_self]
    rfl
  · rw [hpush]
    show outcome (if _ then _ else _) m = _
    rw [if_neg (by omega)]
    simp only [hback, popped, Array.back?_push, Array.pop_push]
    rw [outcome_bind, outcome_modifyContext, hpop]
    rfl

/-- Taking the top operand, where that is not a fault. -/
theorem outcome_popValue {m m' : Machine} {v : Value} (hout : outcome popValue m = (.ok v, m')) :
    m.context.stack.back? = some (.value v) ∧ m' = m.withStack m.context.stack.pop := by
  unfold popValue pop at hout
  simp only [outcome_bind, outcome_get] at hout
  split at hout
  · rename_i u m₁ hpop
    split at hpop
    · cases hpop
    · split at hpop
      · rename_i w hback
        cases hpop
        split at hout
        · cases hout
        · cases hout
          exact ⟨hback, rfl⟩
      · cases hpop
  · cases hout

theorem outcome_popValue_of_back? {m : Machine} {v : Value}
    (hsize : m.context.fp < m.context.stack.size)
    (hback : m.context.stack.back? = some (.value v)) (hv : v.isMarker = false) :
    outcome popValue m = (.ok v, m.withStack m.context.stack.pop) := by
  have hpop : outcome pop m = (.ok v, m.withStack m.context.stack.pop) := by
    rw [pop, outcome_bind_ok (outcome_get m), if_neg (by omega), hback]
    rfl
  rw [popValue, outcome_bind_ok hpop, hv]
  rfl

/-- Exactly when there is an operand of the running function on top, and it is no marker, taking it
succeeds. -/
theorem outcome_popValue_eq_ok {m m' : Machine} {v : Value} : outcome popValue m = (.ok v, m') ↔
    ∃ below, m.context.stack = below.push (.value v) ∧ m.context.fp ≤ below.size ∧
      v.isMarker = false ∧ m' = m.withStack below := by
  constructor
  · intro hout
    obtain ⟨hback, hafter⟩ := outcome_popValue hout
    obtain ⟨below, hstack⟩ := Array.back?_eq_some_iff.1 hback
    have hsize : m.context.stack.size = below.size + 1 := by rw [hstack, Array.size_push]
    rw [hstack, Array.pop_push] at hafter
    obtain ⟨u, m₁, hpop, hproper⟩ := outcome_bind_eq_ok.1 hout
    refine ⟨below, hstack, ?_, ?_, hafter⟩
    · refine Nat.le_of_not_lt fun hfp => ?_
      rw [pop, outcome_bind_ok (outcome_get m), if_pos (by omega)] at hpop
      cases hpop
    · split at hproper
      · cases hproper
      · rename_i hmarker
        cases hproper
        exact Bool.eq_false_iff.2 hmarker
  · rintro ⟨below, hstack, hfp, hmarker, rfl⟩
    have hsize : m.context.fp < m.context.stack.size := by
      rw [hstack, Array.size_push]
      exact Nat.lt_succ_of_le hfp
    rw [outcome_popValue_of_back? hsize (by rw [hstack, Array.back?_push]) hmarker, hstack,
      Array.pop_push]

theorem outcome_popUnwrapped_eq_ok {m m' : Machine} {v : Value} :
    outcome popUnwrapped m = (.ok v, m') ↔
      ∃ (below : Array Slot) (u : Value), m.context.stack = below.push (.value u) ∧
        m.context.fp ≤ below.size ∧ u.isMarker = false ∧ u.unwrapped = v ∧
        m' = m.withStack below := by
  rw [popUnwrapped, outcome_bind_eq_ok]
  constructor
  · rintro ⟨u, m₁, hpop, hrest⟩
    obtain ⟨below, hstack, hfp, hmarker, rfl⟩ := outcome_popValue_eq_ok.1 hpop
    cases hrest
    exact ⟨below, u, hstack, hfp, hmarker, rfl, rfl⟩
  · rintro ⟨below, u, hstack, hfp, hmarker, rfl, rfl⟩
    exact ⟨u, _, outcome_popValue_eq_ok.2 ⟨below, hstack, hfp, hmarker, rfl⟩, rfl⟩

theorem outcome_peek {m : Machine} (h : m.context.Grounded) :
    outcome peek m = ((popped m.context.operands).1, m) := by
  rw [peek, outcome_bind, outcome_context]
  rcases h.operands_cases with ⟨hle, hnil⟩ | ⟨xs, v, hlt, hpush, hback, hpop⟩
  · rw [hnil]
    show outcome (if _ then _ else _) m = _
    rw [if_pos hle]
    rfl
  · rw [hpush]
    show outcome (if _ then _ else _) m = _
    rw [if_neg (by omega)]
    simp only [hback, popped, Array.back?_push]
    rfl

/-- The arguments among the operands, and the operands below them. -/
def poppedArgs (count : Nat) (xs : Array Slot) : Except Halt (List Value) × Array Slot :=
  if xs.size < count then (.error (.fault (.about .stackUnderflow (toString count))), xs)
  else
    let args := slotValues (xs.extract (xs.size - count) xs.size)
    (if args.any (·.isMarker) then .error (.fault (.bare .functionReturnedVoid)) else .ok args,
      xs.extract 0 (xs.size - count))

theorem outcome_popArgs {m : Machine} (h : m.context.Grounded) (count : Nat) :
    outcome (popArgs count) m = ((poppedArgs count m.context.operands).1,
      m.withStack (m.context.lower ++ (poppedArgs count m.context.operands).2)) := by
  rw [popArgs, outcome_bind, outcome_context, poppedArgs, Context.size_operands]
  show outcome (if _ then _ else _) m = _
  by_cases hlt : m.context.stack.size - m.context.fp < count
  · rw [if_pos hlt, if_pos hlt, h.lower_append, Machine.withStack_self]
    rfl
  · have hargs : m.context.operands.extract (m.context.stack.size - m.context.fp - count)
        (m.context.stack.size - m.context.fp)
          = m.context.stack.extract (m.context.stack.size - count) m.context.stack.size := by
      have := h.fp_le
      simp only [Context.operands]
      grind
    have hrest : m.context.lower ++
        m.context.operands.extract 0 (m.context.stack.size - m.context.fp - count)
          = m.context.stack.extract 0 (m.context.stack.size - count) := by
      have hsize := m.context.size_operands
      have hfp := h.fp_le
      rw [Context.lower_append_extract (by omega) h.fp_le]
      congr 1
      omega
    simp only [if_neg hlt, hargs, hrest]
    refine (outcome_bind_ok (outcome_modifyContext _ m)).trans ?_
    split <;> rfl

namespace IsLocal

theorem push (v : Value) : IsLocal (Exec.push v) := by
  refine ofOperands (fun xs => (.ok (), xs.push (.value v))) (fun m h => ?_) fun xs h => h.push v
  rw [outcome_push]
  show _ = (_, m.withStack _)
  rw [Array.append_push, h.lower_append]
  rfl

theorem pop : IsLocal Exec.pop := by
  refine ofOperands popped (fun m h => outcome_pop h) fun xs h => ?_
  unfold popped
  split
  · rename_i v hv
    have hne : xs.size ≠ 0 := by
      intro hz
      rw [Array.eq_empty_of_size_eq_zero hz] at hv
      cases hv
    obtain ⟨ys, s, rfl⟩ := Array.eq_push_of_size_ne_zero hne
    rw [Array.pop_push]
    exact h.of_push
  · exact h

theorem peek : IsLocal Exec.peek := by
  refine ofOperands (fun xs => ((popped xs).1, xs)) (fun m h => ?_) fun xs h => h
  rw [outcome_peek h]
  show _ = (_, m.withStack _)
  rw [h.lower_append, Machine.withStack_self]

theorem popArgs (count : Nat) : IsLocal (Exec.popArgs count) := by
  refine ofOperands (poppedArgs count) (fun m h => outcome_popArgs h count) fun xs h => ?_
  unfold poppedArgs
  split
  · exact h
  · exact h.extract _ _

/-- The operands left by dropping up to `steps` of them, through the nearest marker. -/
def droppedToMarker : Nat → Array Slot → Array Slot
  | 0, xs => xs
  | steps + 1, xs =>
    match xs.back? with
    | some (.value v) => if v.isMarker then xs.pop else droppedToMarker steps xs.pop
    | _ => xs

/-- As many steps as there are operands are enough. -/
theorem droppedToMarker_eq (xs : Array Slot) :
    ∀ steps, xs.size ≤ steps → droppedToMarker steps xs = droppedToMarker xs.size xs := by
  have hgeneral : ∀ n steps (xs : Array Slot), xs.size ≤ n → n ≤ steps →
      droppedToMarker steps xs = droppedToMarker n xs := by
    intro n
    induction n with
    | zero =>
      intro steps xs hxs _
      have hnil : xs = #[] := Array.eq_empty_of_size_eq_zero (by omega)
      cases steps with
      | zero => rfl
      | succ steps => simp [droppedToMarker, hnil]
    | succ n ih =>
      intro steps xs hxs hsteps
      obtain ⟨steps, rfl⟩ : ∃ k, steps = k + 1 := ⟨steps - 1, by omega⟩
      unfold droppedToMarker
      have hpop := ih steps xs.pop (by rw [Array.size_pop]; omega) (by omega)
      rw [hpop]
  intro steps hsteps
  exact hgeneral xs.size steps xs (Nat.le_refl _) hsteps

theorem onlyValues_droppedToMarker {xs : Array Slot} (h : OnlyValues xs) (steps : Nat) :
    OnlyValues (droppedToMarker steps xs) := by
  induction steps generalizing xs with
  | zero => exact h
  | succ steps ih =>
    have hpop : OnlyValues xs.pop := by
      intro s hs
      rw [Array.mem_def, Array.toList_pop] at hs
      exact h s (Array.mem_def.2 (List.dropLast_subset _ hs))
    unfold droppedToMarker
    split
    · split
      · exact hpop
      · exact ih hpop
    · exact h

theorem outcome_dropToMarkerWithin (steps : Nat) :
    ∀ {m : Machine}, m.context.Grounded → outcome (Exec.dropToMarkerWithin steps) m =
      (.ok (), m.withStack (m.context.lower ++ droppedToMarker steps m.context.operands)) := by
  induction steps with
  | zero =>
    intro m h
    rw [droppedToMarker, h.lower_append, Machine.withStack_self]
    rfl
  | succ steps ih =>
    intro m h
    refine (outcome_bind_ok (outcome_context m)).trans ?_
    show outcome (if _ then _ else _) m = _
    rcases h.operands_cases with ⟨hle, hnil⟩ | ⟨xs, v, hlt, hpush, hback, hpop⟩
    · have hstack := h.lower_append
      rw [hnil] at hstack ⊢
      rw [if_neg (by omega)]
      show _ = (_, m.withStack (m.context.lower ++ #[]))
      rw [hstack, Machine.withStack_self]
      rfl
    · have hout : outcome Exec.pop m = (.ok v, m.withStack (m.context.lower ++ xs)) := by
        rw [outcome_pop h, hpush]
        simp [popped]
      have hdropped : droppedToMarker (steps + 1) (xs.push (.value v))
          = if v.isMarker then xs else droppedToMarker steps xs := by
        simp [droppedToMarker]
      rw [if_pos hlt, outcome_bind_ok hout, hpush, hdropped]
      cases hmark : v.isMarker with
      | true => rfl
      | false =>
        have hfp := h.fp_le
        have hground : (m.withStack (m.context.lower ++ xs)).context.Grounded := by
          refine ⟨?_, ?_⟩
          · have := Context.size_lower hfp
            simp only [Machine.withStack, Array.size_append]
            omega
          · show OnlyValues ({ m.context with stack := _ } : Context).operands
            rw [Context.operands_of_stack_eq hfp]
            have := h.values
            rw [hpush] at this
            exact this.of_push
        have hih := ih hground
        have hoperands : (m.withStack (m.context.lower ++ xs)).context.operands = xs :=
          Context.operands_of_stack_eq hfp
        have hlower : (m.withStack (m.context.lower ++ xs)).context.lower = m.context.lower :=
          Context.lower_of_stack_eq hfp
        rw [hoperands, hlower] at hih
        exact hih

theorem dropToMarker : IsLocal Exec.dropToMarker := by
  refine ofOperands (fun xs => (.ok (), droppedToMarker xs.size xs)) (fun m h => ?_)
    fun xs h => onlyValues_droppedToMarker h _
  refine (outcome_bind_ok (outcome_context m)).trans ?_
  have hsize := m.context.size_operands
  rw [outcome_dropToMarkerWithin _ h, droppedToMarker_eq _ _ (by omega)]

/-! ### Names and output -/

theorem outcome_changeScopes (write : Arena → Except Fault Arena) (m : Machine) :
    outcome (do Exec.setScopes (← write (← Exec.scopes))) m =
      match write m.world.scopes with
      | .ok b => (.ok (), { m with world := { m.world with scopes := b } })
      | .error f => (.error (.fault f), m) := by
  rw [outcome_bind_ok (outcome_scopes m), outcome_bind, outcome_liftExcept]
  cases write m.world.scopes <;> rfl

/-- Writes to the scopes that keep their outline. -/
theorem changeScopes (write : Arena → Except Fault Arena)
    (h : ∀ a b, write a = .ok b → b.outline = a.outline) :
    IsLocal (do Exec.setScopes (← write (← Exec.scopes))) := by
  intro g symbols code outline m hm
  rw [outcome_changeScopes, outcome_changeScopes]
  have hscopes : (m.within g).world.scopes = m.world.scopes := rfl
  rw [hscopes]
  cases hw : write m.world.scopes with
  | error f => exact ⟨rfl, hm⟩
  | ok b => exact ⟨rfl, hm.grounded, hm.symbols_eq, hm.code_eq, (h _ _ hw).trans hm.outline_eq⟩

theorem write (text : String) : IsLocal (Exec.write text) :=
  modifyContext (fun _ _ => rfl) (fun _ => rfl) (fun _ => rfl) (fun _ => rfl) fun _ => rfl

end IsLocal

end Exec

end ScriptMachine
