import ScriptMachine.Proofs.Action.Outcome

/-!
# Veils

The journal and the flags of the debugger are there for an observer. A veil covers them: it puts
other events in front of the journal, shows every context without a debugger, and may cover the
step flags too.

* `World.after`, `WorldM.IsUnread`: a world with more events in its journal, and the computations
  that do not depend on these.
* `Veil`, `Machine.veiled`: a veil, and a machine under it.
* `IsUnread.bind`, `World.newChild_isUnread` and companions: the computations on the world.
-/

namespace ScriptMachine

/-! ### The journal -/

/-- The world with events in front of those of its journal. -/
def World.after (events : Array Event) (w : World) : World :=
  { w with journal := { w.journal with events := events ++ w.journal.events } }

/-- A computation on the world that does not depend on the events of the journal, and leaves them
in front of those it writes. -/
def WorldM.IsUnread {α : Type} (act : WorldM α) : Prop :=
  ∀ events w, act.run (w.after events) = ((act.run w).1, (act.run w).2.after events)

namespace WorldM.IsUnread

variable {α β : Type}

theorem pure (a : α) : WorldM.IsUnread (Pure.pure a) := fun _ _ => rfl

theorem bind {act : WorldM α} {next : α → WorldM β} (hact : act.IsUnread)
    (hnext : ∀ a, (next a).IsUnread) : WorldM.IsUnread (act >>= next) := by
  intro events w
  rw [StateT.run_bind, hact events w]
  exact hnext _ events _

/-- Reading the world is harmless when what follows does not read the events. -/
theorem get_bind {next : World → WorldM β} (hread : ∀ events w, next (w.after events) = next w)
    (hnext : ∀ w, (next w).IsUnread) : WorldM.IsUnread (get >>= next) := by
  intro events w
  rw [StateT.run_bind, StateT.run_bind, StateT.run_get, StateT.run_get, pure_bind, pure_bind, hread]
  exact hnext w events w

theorem ite {p : Prop} [Decidable p] {yes no : WorldM α} (hyes : yes.IsUnread)
    (hno : no.IsUnread) : WorldM.IsUnread (if p then yes else no) := by
  split
  · exact hyes
  · exact hno

end WorldM.IsUnread

namespace World

variable {α : Type}

theorem onHeap_isUnread (act : StateM Heap α) : (World.onHeap act).IsUnread := fun _ _ => rfl

theorem emit_isUnread (c : Category) (message : String) : (World.emit c message).IsUnread := by
  intro events w
  have hpush : (events ++ w.journal.events).push ⟨c, message⟩
      = events ++ w.journal.events.push ⟨c, message⟩ := by rw [Array.append_push]
  refine Prod.ext rfl ?_
  show ({ w.after events with journal := (w.after events).journal.emit c message } : World) = _
  simp only [World.after, Journal.emit, hpush]
  rfl

theorem note_isUnread (c : Category) (message : Unit → String) :
    (World.note c message).IsUnread := by
  intro events w
  by_cases hactive : w.journal.isActive c = true
  · have hnote : ∀ v : World, v.journal.isActive c = true →
        (World.note c message).run v = (World.emit c (message ())).run v := by
      intro v hv
      refine Prod.ext rfl ?_
      show ({ v with journal := v.journal.note c message } : World) = _
      rw [Journal.note, if_pos hv]
      rfl
    rw [hnote w hactive, hnote (w.after events) hactive]
    exact emit_isUnread c _ events w
  · have hquiet : ∀ v : World, v.journal.isActive c = false →
        (World.note c message).run v = ((), v) := by
      intro v hv
      refine Prod.ext rfl ?_
      show ({ v with journal := v.journal.note c message } : World) = v
      rw [Journal.note_of_not_isActive hv]
    have hfalse := Bool.eq_false_iff.2 hactive
    rw [hquiet w hfalse, hquiet (w.after events) hfalse]

theorem newChild_isUnread (name : String) (parent : TableId) (boundary : Bool) :
    (World.newChild name parent boundary).IsUnread :=
  .bind (fun _ _ => rfl) fun _ => .bind (note_isUnread _ _) fun _ => .pure _

theorem remove_isUnread (id : TableId) : (World.remove id).IsUnread := by
  refine .get_bind (fun _ _ => rfl) fun w => .bind (fun _ _ => rfl) fun _ => ?_
  exact .ite (note_isUnread _ _) (.pure ())

theorem newChannel_isUnread (capacity : Nat) : (World.newChannel capacity).IsUnread :=
  .bind (onHeap_isUnread _) fun _ => .bind (note_isUnread _ _) fun _ => .pure _

theorem closeChannel_isUnread (r : Ref .channel) : (World.closeChannel r).IsUnread :=
  .get_bind (fun _ _ => rfl) fun _ => .bind (onHeap_isUnread _) fun _ =>
    .bind (note_isUnread _ _) fun _ => .pure _

theorem assign_isUnread (start : TableId) (name : String) (v : Value) :
    (World.assign start name v).IsUnread := by
  refine .get_bind (fun _ _ => rfl) fun w => ?_
  split
  · exact .bind (fun _ _ => rfl) fun _ => .bind (note_isUnread _ _) fun _ => .pure _
  · exact .pure _

theorem newContext_isUnread (symbols : TableId) (code : Code) (settings : Settings) :
    (World.newContext symbols code settings).IsUnread :=
  .bind (fun _ _ => rfl) fun _ => .bind (note_isUnread _ _) fun _ =>
    .get_bind (fun _ _ => rfl) fun _ => .pure _

theorem callContext_isUnread (symbols : TableId) (settings : Settings) (callable : Value)
    (args : List Value) : (World.callContext symbols settings callable args).IsUnread :=
  .get_bind (fun _ _ => rfl) fun _ => .bind (newContext_isUnread _ _ _) fun _ => .pure _

theorem start_isUnread (c : Context) (pc : Nat) : (World.start c pc).IsUnread :=
  .bind (note_isUnread _ _) fun _ => .pure _

end World

/-! ### The flags of the debugger -/

/-- What covers the journal and the debugger. -/
structure Veil where
  /-- The events in front of those of the journal. -/
  events : Array Event := #[]
  /-- Whether the step flags are covered too. -/
  hidesSteps : Bool

/-- A step flag under a veil. -/
def Veil.dim (k : Veil) (flag : Bool) : Bool := flag && !k.hidesSteps

def Frame.veiled (k : Veil) (f : Frame) : Frame :=
  { f with singleStep := k.dim f.singleStep, breakOnReturn := k.dim f.breakOnReturn }

def Slot.veiled (k : Veil) : Slot → Slot
  | .value v => .value v
  | .frame f => .frame (f.veiled k)

/-- A context under a veil has no debugger. -/
def Context.veiled (k : Veil) (c : Context) : Context :=
  { c with
    stack := c.stack.map (Slot.veiled k)
    debugging := false
    singleStep := k.dim c.singleStep
    stepOver := k.dim c.stepOver
    breakOnReturn := k.dim c.breakOnReturn }

def Suspended.veiled (k : Veil) (s : Suspended) : Suspended :=
  { s with context := s.context.veiled k }

def Machine.veiled (k : Veil) (m : Machine) : Machine :=
  { m with
    world := m.world.after k.events
    context := m.context.veiled k
    suspended := m.suspended.map (Suspended.veiled k) }

variable {k : Veil}

/-- Stepping over a call leaves the callee without single steps, under a veil too. -/
theorem Veil.dim_and_not (k : Veil) (a b : Bool) : k.dim (a && !b) = (k.dim a && !k.dim b) := by
  simp only [dim]
  cases a <;> cases b <;> cases k.hidesSteps <;> rfl

theorem Veil.dim_or (k : Veil) (a b : Bool) : k.dim (a || b) = (k.dim a || k.dim b) := by
  simp only [dim]
  cases a <;> cases b <;> cases k.hidesSteps <;> rfl

theorem Veil.dim_dim (events : Array Event) (k : Veil) (a : Bool) :
    (Veil.mk events k.hidesSteps).dim (k.dim a) = k.dim a := by
  simp only [dim]
  cases a <;> cases k.hidesSteps <;> rfl

@[simp]
theorem Context.size_stack_veiled (c : Context) :
    (c.veiled k).stack.size = c.stack.size := Array.size_map

/-- The values among slots are in plain view. -/
theorem Exec.slotValues_veiled (slots : Array Slot) :
    Exec.slotValues (slots.map (Slot.veiled k)) = Exec.slotValues slots := by
  simp only [slotValues, Array.toList_map, List.filterMap_map]
  congr 1
  funext s
  cases s <;> rfl

theorem Context.operands_veiled (c : Context) :
    (c.veiled k).operands = c.operands.map (Slot.veiled k) := by
  simp only [operands, size_stack_veiled]
  exact Array.map_extract.symm

end ScriptMachine
