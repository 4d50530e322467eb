import ScriptMachine.Proofs.Action.Locality
import ScriptMachine.Proofs.Action.Sequences

/-!
# Spread arguments

`Call`, `Defer` and `Go` take a callable and its arguments off the operand stack. Before one of them,
`Flatten` puts the elements of an array in the array's place, and notes how many arguments that adds.
Only a call takes note of it.

* `CallShape`: the three instructions, with what each does with a callable and its arguments.
* `CallShape.outcome_execute`: as many arguments are taken as the operand says, and as a call finds
  noted.
* `outcome_flatten`: what is put on the stack for an array, and what is noted.
* `CallShape.spread_reaches_iff`: when the elements of an array become arguments.
-/

namespace ScriptMachine

/-- The machine with a number of arguments noted for the next call. -/
def Machine.noting (m : Machine) (extraArgs : Int) : Machine :=
  { m with context := { m.context with extraArgs } }

namespace Exec

variable {m : Machine} {v : Value} {r : Ref .array}

/-- The elements of an array take its place, and what they add is noted. -/
theorem outcome_flatten (hm : m.context.fp ≤ m.context.stack.size) (hv : v.unwrapped = .array r)
    (operand : Value) :
    outcome (execute ⟨.flatten, operand⟩) (m.onto [v]) =
      (.ok (), (m.noting (m.context.extraArgs + (m.world.heap.array r).values.toList.length - 1)).onto
        (m.world.heap.array r).values.toList) := by
  have hmarker : v.isMarker = false := by
    cases v with
    | marker l => cases hv
    | _ => rfl
  show outcome flatten _ = _
  rw [flatten, outcome_bind_ok (outcome_popUnwrapped_onto hm hmarker), hv]
  dsimp only
  rw [outcome_bind_ok (outcome_heap m), outcome_bind_ok (outcome_modifyContext _ m)]
  exact outcome_bind_ok (outcome_pushAll _ _)

/-- An action goes on in the same way whatever has been noted for the next call. -/
abbrev IgnoresNote (n : Int) {α : Type} (act : Exec α) : Prop :=
  Respects (·.noting n) (fun _ => True) act

namespace IgnoresNote

variable {n : Int}

theorem extraArgs_eq {α : Type} {act : Exec α} (h : IgnoresNote n act) (m : Machine) :
    (outcome act (m.noting n)).2.context.extraArgs = n :=
  congrArg (·.2.context.extraArgs) (h m trivial).1

theorem modifyContext {f : Context → Context}
    (h : ∀ c, f { c with extraArgs := n } = { f c with extraArgs := n }) :
    IgnoresNote n (Exec.modifyContext f) :=
  .ofModify (fun m _ => congrArg (fun c => { m with context := c }) (h m.context)) fun _ _ => trivial

theorem operandCount (operand : Value) (default : Nat) :
    IgnoresNote n (Exec.operandCount operand default) := by
  unfold Exec.operandCount
  split
  · exact .pure _
  · intro m _
    rw [outcome_liftExcept, outcome_liftExcept]
    exact ⟨rfl, trivial⟩

theorem popArgs (count : Nat) : IgnoresNote n (Exec.popArgs count) := by
  refine .get_bind (fun _ => rfl) fun m => ?_
  split
  · exact .throw _
  · refine modifyContext (fun _ => rfl) |>.bind fun _ => ?_
    split
    · exact .throw _
    · exact .pure _

theorem popUnwrapped : IgnoresNote n Exec.popUnwrapped := by
  have hpop : IgnoresNote n Exec.pop := by
    refine .get_bind (fun _ => rfl) fun m => ?_
    split
    · exact .throw _
    · split
      · exact modifyContext (fun _ => rfl) |>.bind fun _ => .pure _
      · exact .throw _
  refine Respects.bind (hpop.bind fun v => ?_) fun v => .pure _
  split
  · exact .throw _
  · exact .pure _

theorem noteThread (c : Category) (message : Unit → String) :
    IgnoresNote n (Exec.noteThread c message) := by
  refine .get_bind (fun _ => rfl) fun m => ?_
  split
  · exact fun _ _ => ⟨rfl, trivial⟩
  · exact .pure _

end IgnoresNote

end Exec

/-- The instructions that take a callable and its arguments. -/
inductive CallShape where
  | call
  | defer
  | go
deriving DecidableEq, Repr

namespace CallShape

open Exec

/-- The instruction. -/
def op : CallShape → Opcode
  | .call => .call
  | .defer => .defer
  | .go => .go

/-- What is done with a callable and its arguments: it is called, registered for the return, or
started beside the program. -/
def take : CallShape → Value → List Value → Exec Unit
  | .call, callable, args => callValue callable args
  | .defer, callable, args =>
    modifyContext fun c => { c with deferred := ⟨callable, args⟩ :: c.deferred }
  | .go, callable, args => do
    let name := callableName (← heap) callable
    noteThread .trace fun _ => s!"go {name}"
    modify fun m =>
      { m with
        tasks := m.tasks.push ⟨"go " ++ name, .pending callable args m.context.settings⟩
        context := { m.context with tasks := m.tasks.size :: m.context.tasks } }

/-- How many further arguments the instruction takes. -/
def extra : CallShape → Machine → Int
  | .call, m => m.context.extraArgs
  | _, _ => 0

/-- The machine that the instruction leaves, but for the operands: a call forgets what was noted. -/
def settled : CallShape → Machine → Machine
  | .call, m => m.noting 0
  | _, m => m

theorem extra_of_ne {shape : CallShape} (h : shape ≠ .call) (m : Machine) : shape.extra m = 0 := by
  cases shape with
  | call => exact absurd rfl h
  | defer | go => rfl

theorem settled_of_ne {shape : CallShape} (h : shape ≠ .call) (m : Machine) :
    shape.settled m = m := by
  cases shape with
  | call => exact absurd rfl h
  | defer | go => rfl

variable {shape : CallShape} {m : Machine} {operand f : Value} {args : List Value} {count : Nat}

/-- The instruction takes as many arguments as its operand says, and as a call finds noted. -/
theorem outcome_execute (hm : m.context.fp ≤ m.context.stack.size) (hf : f.isMarker = false)
    (hargs : ∀ a ∈ args, a.isMarker = false) (hcount : operand.count? 0 = some count)
    (hlen : (count + shape.extra m).toNat = args.length) :
    outcome (execute ⟨shape.op, operand⟩) (m.onto (f :: args))
      = outcome (shape.take f.unwrapped args) (shape.settled m) := by
  have hoperand : outcome (operandCount operand 0) (m.onto (f :: args))
      = (.ok count, m.onto (f :: args)) := by rw [operandCount_eq hcount]; rfl
  cases shape with
  | call =>
    have hcall : outcome (popCall args.length) ((m.noting 0).onto (f :: args))
        = (.ok (f.unwrapped, args), m.noting 0) := outcome_popCall_onto (m := m.noting 0) hm hf hargs
    show outcome (Exec.call operand) _ = _
    rw [Exec.call, outcome_bind_ok hoperand, outcome_bind_ok (outcome_context _),
      outcome_bind_ok (outcome_modifyContext _ _)]
    show outcome (popCall (count + m.context.extraArgs).toNat >>= _) ((m.noting 0).onto _) = _
    rw [show (count + m.context.extraArgs).toNat = args.length from hlen, outcome_bind_ok hcall]
    rfl
  | defer =>
    have hlen : count = args.length := by simpa [extra] using hlen
    show outcome (deferCall operand) _ = _
    rw [deferCall, outcome_bind_ok hoperand, hlen,
      outcome_bind_ok (outcome_popCall_onto hm hf hargs)]
    rfl
  | go =>
    have hlen : count = args.length := by simpa [extra] using hlen
    show outcome (Exec.go operand) _ = _
    rw [Exec.go, outcome_bind_ok hoperand, hlen, Machine.onto_cons,
      outcome_bind_ok (outcome_popArgs_onto (Machine.fp_le_onto hm [f]) hargs),
      outcome_bind_ok (outcome_popUnwrapped_onto hm hf)]
    rfl

theorem take_ignoresNote (h : shape ≠ .call) (n : Int) (callable : Value) (args : List Value) :
    IgnoresNote n (shape.take callable args) := by
  cases shape with
  | call => exact absurd rfl h
  | defer =>
    exact IgnoresNote.modifyContext
      (f := fun c => { c with deferred := ⟨callable, args⟩ :: c.deferred }) fun _ => rfl
  | go =>
    refine Respects.bind (.read (·.world.heap) outcome_heap fun _ => rfl) fun h =>
      (IgnoresNote.noteThread _ _).bind fun _ => ?_
    exact .ofModify (fun _ _ => rfl) fun _ _ => trivial

/-- Only a call asks what has been noted. -/
theorem ignoresNote (h : shape ≠ .call) (n : Int) (operand : Value) :
    IgnoresNote n (execute ⟨shape.op, operand⟩) := by
  cases shape with
  | call => exact absurd rfl h
  | defer =>
    refine (IgnoresNote.operandCount operand 0).bind fun count => Respects.bind
      ((IgnoresNote.popArgs count).bind fun args => IgnoresNote.popUnwrapped.bind fun c => .pure _)
      fun taken => ?_
    exact take_ignoresNote h n taken.1 taken.2
  | go =>
    refine (IgnoresNote.operandCount operand 0).bind fun count =>
      (IgnoresNote.popArgs count).bind fun args => IgnoresNote.popUnwrapped.bind fun callable => ?_
    exact take_ignoresNote h n callable args

section Spread

variable {v : Value} {r : Ref .array} {xs : List Value}

/-- After the array has been flattened, its elements are operands above the arguments. -/
theorem outcome_spread (hm : m.context.fp ≤ m.context.stack.size) (hnote : m.context.extraArgs = 0)
    (hv : v.unwrapped = .array r) (hr : (m.world.heap.array r).values.toList = xs)
    (o : Value) (shape : CallShape) (operand : Value) :
    outcome (executeAll [⟨.flatten, o⟩, ⟨shape.op, operand⟩]) (m.onto (f :: args ++ [v]))
      = outcome (execute ⟨shape.op, operand⟩)
        ((m.noting (xs.length - 1)).onto (f :: (args ++ xs))) := by
  have hflatten := outcome_flatten (Machine.fp_le_onto hm (f :: args)) hv o
  have hvalues : ((m.onto (f :: args)).world.heap.array r).values.toList = xs := hr
  have hnoted : (m.onto (f :: args)).context.extraArgs + xs.length - 1 = (xs.length : Int) - 1 := by
    show m.context.extraArgs + _ - 1 = _
    omega
  rw [hvalues, hnoted] at hflatten
  rw [executeAll, executeAll_singleton, ← Machine.onto_append]
  refine (outcome_bind_ok hflatten).trans ?_
  exact congrArg _ (Machine.onto_append (m.noting (xs.length - 1)) (f :: args) xs)

/-- **When spread arguments reach the callable.** A callable, its arguments and an array are the top
operands, and nothing has been noted. Flattening the array and executing one of the three
instructions does with the callable what the instruction does, with exactly the arguments followed by
the elements, and leaves nothing noted, if and only if it is a call or the array has one element. A
deferred call or a task leaves a note for the next call. -/
theorem spread_reaches_iff (shape : CallShape)
    (hm : m.context.fp ≤ m.context.stack.size) (hnote : m.context.extraArgs = 0)
    (hf : f.isMarker = false) (hargs : ∀ a ∈ args, a.isMarker = false)
    (hv : v.unwrapped = .array r) (hr : (m.world.heap.array r).values.toList = xs)
    (hxs : ∀ x ∈ xs, x.isMarker = false) (hcount : operand.count? 0 = some (args.length + 1))
    (o : Value) :
    (outcome (executeAll [⟨.flatten, o⟩, ⟨shape.op, operand⟩]) (m.onto (f :: args ++ [v]))
        = outcome (shape.take f.unwrapped (args ++ xs)) m ↔ shape = .call ∨ xs.length = 1) ∧
      (shape ≠ .call →
        (outcome (executeAll [⟨.flatten, o⟩, ⟨shape.op, operand⟩])
          (m.onto (f :: args ++ [v]))).2.context.extraArgs = xs.length - 1) := by
  have hmarkers : ∀ a ∈ args ++ xs, a.isMarker = false := fun a ha =>
    (List.mem_append.1 ha).elim (hargs a) (hxs a)
  have hunnoted : m.noting 0 = m := by rw [← hnote]; rfl
  rw [outcome_spread hm hnote hv hr]
  by_cases hshape : shape = .call
  · subst hshape
    refine ⟨⟨fun _ => .inl rfl, fun _ => ?_⟩, fun h => absurd rfl h⟩
    have hlen : (((args.length + 1 : Nat) : Int)
        + CallShape.call.extra (m.noting (xs.length - 1))).toNat = (args ++ xs).length := by
      show (((args.length + 1 : Nat) : Int) + ((xs.length : Int) - 1)).toNat = _
      rw [List.length_append]
      omega
    refine (outcome_execute (m := m.noting (xs.length - 1)) hm hf hmarkers hcount hlen).trans ?_
    show outcome _ (m.noting 0) = _
    rw [hunnoted]
  · have hnoted := (ignoresNote hshape (xs.length - 1) operand).extraArgs_eq
      (m.onto (f :: (args ++ xs)))
    refine ⟨⟨fun heq => .inr ?_, fun hone => ?_⟩, fun _ => hnoted⟩
    · -- neither reads the note nor changes it, so that what is left of it tells them apart
      have hkept := (take_ignoresNote hshape 0 f.unwrapped (args ++ xs)).extraArgs_eq m
      rw [hunnoted, ← heq] at hkept
      have hlen : (xs.length : Int) - 1 = 0 := hnoted.symm.trans hkept
      omega
    · have hone : xs.length = 1 := hone.resolve_left hshape
      have hnone : m.noting (xs.length - 1) = m := by rw [hone]; exact hunnoted
      have hlen : (((args.length + 1 : Nat) : Int) + shape.extra m).toNat
          = (args ++ xs).length := by
        rw [extra_of_ne hshape, List.length_append, hone]
        omega
      rw [hnone, outcome_execute hm hf hmarkers hcount hlen, settled_of_ne hshape]

/-- A machine whose heap holds one array. -/
def listed (values : List Value) : Machine :=
  { (default : Machine) with world.heap := ((Heap.newList values).run {}).2 }

/-- A call of two arguments that are spread is not deferred with them, and the next call takes one
argument more than it asks for. -/
theorem spread_reaches_iff_of_defer :
    outcome (executeAll [⟨.flatten, .null⟩, ⟨.defer, .int 1⟩])
        ((listed [.int 7, .int 8]).onto [.code default, .array ⟨0⟩])
      ≠ outcome (CallShape.defer.take (.code default) [.int 7, .int 8]) (listed [.int 7, .int 8]) ∧
    (outcome (executeAll [⟨.flatten, .null⟩, ⟨.defer, .int 1⟩])
        ((listed [.int 7, .int 8]).onto [.code default, .array ⟨0⟩])).2.context.extraArgs = 1 := by
  obtain ⟨hreaches, hnoted⟩ := @spread_reaches_iff (listed [.int 7, .int 8]) (.int 1)
    (.code default) [] (.array ⟨0⟩) ⟨0⟩ [.int 7, .int 8] .defer (by decide) rfl rfl (by decide) rfl
    rfl (by decide) rfl .null
  refine ⟨fun heq => ?_, hnoted (by decide)⟩
  rcases hreaches.1 heq with h | h
  · cases h
  · cases h

end Spread

end CallShape

end ScriptMachine
