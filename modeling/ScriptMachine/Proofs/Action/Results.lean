import ScriptMachine.Proofs.Action.Operands
import ScriptMachine.Proofs.Channels.Traffic

/-!
# Results of actions that succeed

* `Exec.Yields`: what holds of the result of an action and of the machine it leaves, where it
  succeeds.
* `Yields.bind`: results of composed actions.
* `Yields.popValue`, `Yields.lookup`, `Yields.store`, `Yields.receive` and companions: results of
  primitive actions.
-/

namespace ScriptMachine

namespace Exec

variable {α β : Type} {m : Machine} {name : String} {v : Value}

/-- Where an action succeeds, its result and the machine it leaves satisfy `Q`. -/
def Yields (act : Exec α) (m : Machine) (Q : α → Machine → Prop) : Prop :=
  ∀ a m', outcome act m = (.ok a, m') → Q a m'

namespace Yields

variable {Q : α → Machine → Prop}

theorem of_outcome {act : Exec α} {a : α} {m' : Machine} (h : outcome act m = (.ok a, m'))
    (hQ : Q a m') : Yields act m Q := by
  intro b n hout
  rw [h] at hout
  cases hout
  exact hQ

theorem bind {act : Exec α} {next : α → Exec β} {R : β → Machine → Prop} (hact : Yields act m Q)
    (hnext : ∀ a m', Q a m' → Yields (next a) m' R) : Yields (act >>= next) m R := by
  intro b n hout
  rw [outcome_bind] at hout
  split at hout
  · rename_i a m' hfirst
    exact hnext a m' (hact a m' hfirst) b n hout
  · cases hout

theorem imp {act : Exec α} {R : α → Machine → Prop} (hact : Yields act m Q)
    (himp : ∀ a m', Q a m' → R a m') : Yields act m R := fun a m' h => himp a m' (hact a m' h)

theorem fail (f : Fault) : Yields (Exec.fail f : Exec α) m Q := by
  intro a m' hout
  cases hout

theorem operandName (operand : Value) : Yields (Exec.operandName operand) m fun name m' =>
    operand.string? = some name ∧ m' = m := by
  unfold Exec.operandName
  split
  · rename_i name hname
    exact of_outcome (outcome_pure _ m) ⟨hname, rfl⟩
  · exact fail _

theorem lookup? (name : String) : Yields (Exec.lookup? name) m fun found m' =>
    found = m.world.scopes.get? m.context.symbols name ∧ m' = m :=
  of_outcome rfl ⟨rfl, rfl⟩

theorem lookup (name : String) : Yields (Exec.lookup name) m fun v m' =>
    m.world.scopes.get? m.context.symbols name = some v ∧ m' = m := by
  refine (lookup? name).bind ?_
  rintro found m ⟨hfound, rfl⟩
  cases found with
  | some v => exact of_outcome (outcome_pure v m) ⟨hfound.symm, rfl⟩
  | none => exact fail _

theorem branchTarget (operand : Value) : Yields (Exec.branchTarget operand) m fun _ m' =>
    m' = m := by
  unfold Exec.branchTarget
  refine bind (Q := fun n n' => n = m ∧ n' = m) (of_outcome (outcome_get m) ⟨rfl, rfl⟩) ?_
  rintro n m ⟨rfl, rfl⟩
  dsimp only
  split
  · split
    · exact of_outcome (outcome_pure _ m) rfl
    · exact fail _
  · exact fail _

theorem popValue : Yields Exec.popValue m fun v m' =>
    m.context.stack.back? = some (.value v) ∧ m' = m.withStack m.context.stack.pop :=
  fun _ _ h => outcome_popValue h

theorem popUnwrapped : Yields Exec.popUnwrapped m fun u m' =>
    ∃ v, m.context.stack.back? = some (.value v) ∧ v.unwrapped = u ∧
      m' = m.withStack m.context.stack.pop :=
  popValue.bind fun v _ h => of_outcome (outcome_pure _ _) ⟨v, h.1, rfl, h.2⟩

/-- An assignment goes to the symbols and to nothing else that matters here. -/
theorem store (name : String) (v : Value) : Yields (Exec.store name v) m fun _ m' =>
    ∃ id, m.world.scopes.set m.context.symbols name v = .ok (id, m'.world.scopes) ∧
      m'.context = m.context := by
  rw [Exec.store]
  refine bind (of_outcome (outcome_context m) ⟨rfl, rfl⟩ : Yields _ _ fun c m' =>
    c = m.context ∧ m' = m) ?_
  rintro c m' ⟨rfl, rfl⟩
  refine bind (Q := fun r n => n.context = m'.context ∧ (r = .ok () → ∃ id,
      m'.world.scopes.set m'.context.symbols name v = .ok (id, n.world.scopes))) ?_ ?_
  · refine of_outcome (outcome_onWorld _ m') ⟨rfl, fun hok => ?_⟩
    revert hok
    unfold World.assign
    simp only [StateT.run_bind, StateT.run_get, pure_bind]
    cases hset : m'.world.scopes.set m'.context.symbols name v with
    | ok r => exact fun _ => ⟨r.1, rfl⟩
    | error f => exact nofun
  · rintro r n ⟨hcontext, hset⟩
    cases r with
    | ok u => exact of_outcome (outcome_pure _ n) ((hset rfl).imp fun _ h => ⟨h, hcontext⟩)
    | error f => exact fail f

/-- A computation on the world that leaves the symbols alone. -/
theorem ofWorldAction {act : WorldAction α} {R : α → Prop}
    (h : ∀ a w, act.run.run m.world = (.ok a, w) → R a ∧ w.scopes = m.world.scopes) :
    Yields (Exec.ofWorldAction act) m fun a m' =>
      R a ∧ m'.world.scopes = m.world.scopes ∧ m'.context = m.context := by
  unfold Exec.ofWorldAction
  refine bind (Q := fun r n => n.context = m.context ∧ ∀ a, r = .ok a →
    R a ∧ n.world.scopes = m.world.scopes) ?_ ?_
  · exact of_outcome (outcome_onWorld act.run m) ⟨rfl, fun a ha => h a _ (Prod.ext ha rfl)⟩
  · rintro r n ⟨hcontext, hn⟩
    cases r with
    | ok a => exact of_outcome (outcome_pure a n) ⟨(hn a rfl).1, (hn a rfl).2, hcontext⟩
    | error halt => exact fun _ _ hout => nomatch hout

/-- What is received is the head of the queue. -/
theorem receive (r : Ref .channel) :
    Yields (Exec.ofWorldAction (WorldAction.receive r)) m fun v m' =>
      (m.world.heap.channel r).queue.head? = some v ∧ m'.world.scopes = m.world.scopes ∧
        m'.context = m.context := by
  refine ofWorldAction fun v w hrun => ?_
  have hreceive := Channel.run_receive r m.world
  rw [hrun] at hreceive
  split at hreceive
  · rename_i u c hdone
    obtain ⟨w', hok, journal, rfl⟩ := hreceive
    cases hok
    refine ⟨?_, rfl⟩
    unfold ChannelObject.receive at hdone
    split at hdone
    · rename_i head rest hqueue
      cases hdone
      rw [hqueue]
      rfl
    · split at hdone <;> cases hdone
  · cases hreceive
  · cases hreceive

theorem send (r : Ref .channel) (v : Value) :
    Yields (Exec.ofWorldAction (WorldAction.send r v)) m fun _ m' =>
      m'.world.scopes = m.world.scopes := by
  refine (ofWorldAction (R := fun _ => True) fun _ w hrun => ?_).imp fun _ _ h => h.2.1
  have hsend := Channel.run_send r v m.world
  rw [hrun] at hsend
  split at hsend
  · obtain ⟨w', hok, journal, rfl⟩ := hsend
    cases hok
    exact ⟨trivial, rfl⟩
  · cases hsend
  · cases hsend

end Yields

end Exec

end ScriptMachine
