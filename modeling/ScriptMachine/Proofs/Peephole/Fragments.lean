import ScriptMachine.Program.Peephole
import ScriptMachine.Proofs.Action.Sequences
import ScriptMachine.Proofs.Debugging.Transparency

/-!
# Fragments

To find the value of constant instructions they are run in a program of their own. Its instructions
act on operands and objects alone, one after the other, so that it ends after as many steps as it has
instructions.

* `Exec.IsDirect`: an action that never has to wait and changes nothing but operands and objects;
  `execute_isDirect`: the instructions of fragments.
* `Peephole.bench`: the machine that runs a fragment; `OnBench.step`: what a step of it does.
* `fragment_ends`: a fragment ends within the steps it is given.
* `Computation`, `run_runFragment_of_computation`: what a fragment results in, from what each
  instruction computes.
-/

namespace ScriptMachine

/-- Nothing but operands and objects has changed. -/
def Machine.SameButOperands (m m' : Machine) : Prop :=
  m' = { m with
    world := { m.world with heap := m'.world.heap }
    context := { m.context with stack := m'.context.stack } }

instance : Std.Refl Machine.SameButOperands := ⟨fun _ => rfl⟩

instance : Trans Machine.SameButOperands Machine.SameButOperands Machine.SameButOperands where
  trans {a b c} hab hbc := by
    unfold Machine.SameButOperands at *
    rw [hbc, hab]

namespace Exec

variable {α β : Type}

/-- An action that never has to wait and changes nothing but operands and objects. -/
structure IsDirect (act : Exec α) : Prop where
  prompt : IsPrompt act
  keeps : Keeps Machine.SameButOperands act

namespace IsDirect

theorem pure (a : α) : IsDirect (Pure.pure a) := ⟨.pure a, .pure a⟩

theorem fail (f : Fault) : IsDirect (Exec.fail f : Exec α) := ⟨.fail f, .fail f⟩

theorem bind {act : Exec α} {next : α → Exec β} (hact : IsDirect act)
    (hnext : ∀ a, IsDirect (next a)) : IsDirect (act >>= next) :=
  ⟨hact.prompt.bind fun a => (hnext a).prompt, hact.keeps.bind fun a => (hnext a).keeps⟩

theorem ite {p : Prop} [Decidable p] {yes no : Exec α} (hyes : IsDirect yes)
    (hno : IsDirect no) : IsDirect (if p then yes else no) :=
  ⟨.ite hyes.prompt hno.prompt, .ite hyes.keeps hno.keeps⟩

theorem forIn {γ σ : Type} (xs : List γ) (body : γ → σ → Exec (ForInStep σ)) (init : σ)
    (hbody : ∀ x s, IsDirect (body x s)) : IsDirect (ForIn.forIn xs init body) :=
  ⟨.forIn xs body init fun x s => (hbody x s).prompt,
    .forIn xs body init fun x s => (hbody x s).keeps⟩

theorem get : IsDirect (MonadState.get : Exec Machine) := ⟨.get, .get⟩

theorem context : IsDirect Exec.context := ⟨.context, .context⟩

theorem heap : IsDirect Exec.heap := ⟨.heap, .heap⟩

theorem scopes : IsDirect Exec.scopes := ⟨.scopes, .scopes⟩

theorem lift (r : Except Fault α) : IsDirect (liftM r : Exec α) := ⟨.lift r, .lift r⟩

theorem onHeap (act : StateM Heap α) : IsDirect (Exec.onHeap act) := ⟨.onWorld _, fun _ => rfl⟩

theorem onObjects (act : HeapM α) : IsDirect (Exec.onObjects act) := by
  refine bind (onHeap _) fun r => ?_
  cases r with
  | ok a => exact pure a
  | error f => exact fail f

theorem operandCount (operand : Value) (default : Nat) :
    IsDirect (Exec.operandCount operand default) := ite (pure _) (lift _)

theorem display (v : Value) : IsDirect (Exec.display v) := bind heap fun _ => pure _

theorem lookup? (name : String) : IsDirect (Exec.lookup? name) :=
  ⟨fun _ => nofun, fun _ => rfl⟩

/-! ### Operands -/

theorem setStack (f : Context → Array Slot) :
    IsDirect (modifyContext fun c => { c with stack := f c }) := ⟨.modifyContext _, fun _ => rfl⟩

theorem push (v : Value) : IsDirect (Exec.push v) := setStack _

theorem pop : IsDirect Exec.pop := by
  refine bind get fun m => ite (fail _) ?_
  split
  · exact bind (setStack _) fun _ => pure _
  · exact fail _

theorem popValue : IsDirect Exec.popValue := bind pop fun _ => ite (fail _) (pure _)

theorem popUnwrapped : IsDirect Exec.popUnwrapped := bind popValue fun _ => pure _

theorem popArgs (count : Nat) : IsDirect (Exec.popArgs count) :=
  bind context fun _ => ite (fail _) (bind (setStack _) fun _ => ite (fail _) (pure _))

theorem popOperands : IsDirect Exec.popOperands :=
  bind popUnwrapped fun _ => bind popUnwrapped fun _ => ite (fail _) (pure _)

/-! ### Instructions -/

theorem pushLiteral (operand : Value) : IsDirect (Exec.pushLiteral operand) :=
  bind (onHeap _) push

theorem checkElements (element : Ty) (values : List Value) :
    IsDirect (Exec.checkElements element values) := by
  refine bind get fun m => ite ?_ (pure ())
  split
  · exact fail _
  · exact pure ()

theorem pushLike (r : Ref .array) (values : Array Value) : IsDirect (Exec.pushLike r values) :=
  bind heap fun _ => bind (onHeap _) fun _ => push _

theorem add : IsDirect Exec.add := by
  refine bind popOperands fun p => ?_
  split
  · exact bind (display _) fun _ => push _
  · exact bind heap fun _ => bind (checkElements _ _) fun _ => pushLike _ _
  · exact bind heap fun _ => bind (checkElements _ _) fun _ => pushLike _ _
  · refine bind (onHeap _) fun v => ?_
    split
    · exact bind (onObjects _) fun _ => push _
    · exact push _
  · exact fail _
  · refine bind (lift _) fun q => ?_
    split
    · exact push _
    · exact push _
    · exact bind (lift _) push

theorem sub : IsDirect Exec.sub := by
  refine bind popOperands fun p => ?_
  split
  · exact bind heap fun _ => pushLike _ _
  · refine bind (lift _) fun q => ?_
    split
    · exact push _
    · exact bind (lift _) push

theorem mul : IsDirect Exec.mul := by
  refine bind popOperands fun p => bind (lift _) fun q => ?_
  split
  · exact push _
  · exact bind (lift _) push

theorem calculateWith (op : Operation) : IsDirect (Exec.calculateWith op) :=
  bind popOperands fun _ => bind (lift _) push

theorem negate : IsDirect Exec.negate := by
  refine bind popUnwrapped fun v => ?_
  split
  · exact bind heap fun _ => bind (onHeap _) fun _ => push _
  · exact bind (lift _) push

theorem resolveType (v : Value) : IsDirect (Exec.resolveType v) := by
  unfold Exec.resolveType
  split
  · exact pure _
  · refine bind (lookup? _) fun found => ?_
    split
    · exact pure _
    · exact fail _
  · exact fail _

theorem typedStruct (t : Ty) (fields : List (String × Value)) :
    IsDirect (Exec.typedStruct t fields) :=
  ite (fail _) (bind (onHeap _) fun _ => bind context fun _ => bind heap fun _ =>
    bind (onHeap _) fun _ =>
    bind (forIn _ _ _ fun _ _ => bind (onObjects _) fun _ => pure _) fun _ => pure _)

theorem makeStruct (operand : Value) : IsDirect (Exec.makeStruct operand) := by
  refine bind (operandCount operand 0) fun _ => bind (popArgs _) fun _ => bind heap fun _ => ?_
  dsimp only
  split
  · exact bind (resolveType _) fun _ => bind (typedStruct _ _) fun _ => bind heap fun _ =>
      bind (onHeap _) fun _ => push _
  · exact bind (onHeap _) fun _ => bind heap fun _ => bind (onHeap _) fun _ => push _

end IsDirect

end Exec

/-- The opcodes of fragments. -/
def Opcode.isDirect : Opcode → Bool
  | .push | .add | .sub | .mul | .div | .negate | .struct | .stop => true
  | _ => false

/-- **The instructions of fragments are direct.** -/
theorem Exec.execute_isDirect {i : Instruction} (h : i.op.isDirect = true) :
    IsDirect (execute i) := by
  obtain ⟨op, operand⟩ := i
  cases op with
  | push => exact .pushLiteral operand
  | add => exact .add
  | sub => exact .sub
  | mul => exact .mul
  | div => exact .calculateWith .div
  | negate => exact .negate
  | struct => exact .makeStruct operand
  | stop => exact .fail _
  | _ => cases h

namespace Peephole

open Exec

/-! ### The machine of a fragment -/

/-- The code of a fragment. -/
def fragmentCode (ops : Array Instruction) : Code :=
  { Code.empty "code fragment" with ops := ops.push (.plain .stop) }

/-- The machine that runs a fragment, before its first step. -/
def bench (ops : Array Instruction) (w : World) : Machine :=
  let (c, w) := (World.newContext .root (fragmentCode ops) {}).run { w with scopes := .initial }
  (Machine.ofContext w c).launch 0

theorem run_runFragment (ops : Array Instruction) (w : World) :
    (runFragment ops).run w =
      let (m, pause) := (bench ops w).advance (ops.size + 2)
      (match pause, m.context.stack.back? with
        | .ended (.error f), _ => .error f
        | _, some (.value v) => .ok v
        | _, _ => .error (.bare .stackUnderflow), { m.world with scopes := w.scopes }) := by
  have hrun : (runFragment ops).run w =
      let (m, pause) := (bench ops w).advance (ops.size + 2)
      StateT.run (m := Id) (match pause, m.context.stack.back? with
        | .ended (.error f), _ => return .error f
        | _, some (.value v) => return .ok v
        | _, _ => return .error (.bare .stackUnderflow)) { m.world with scopes := w.scopes } := rfl
  rw [hrun]
  dsimp only
  split <;> rfl

/-- The machine is about to execute the instruction at `k` of the code, in the outermost function,
and with nothing that would take a fault. -/
structure OnBench (code : Code) (k : Nat) (m : Machine) : Prop where
  ended_eq : m.ended = none
  suspended_eq : m.suspended = []
  code_eq : m.context.code = code
  pc_eq : m.context.pc = k
  running_eq : m.context.running = true
  fp_eq : m.context.fp = 0
  handlers_eq : m.context.handlers = []
  observer_eq : m.context.observer = {}
  symbols_eq : m.context.symbols = .root
  static_eq : m.context.staticTypes = false
  scopes_eq : m.world.scopes = .initial

variable {ops : Array Instruction} {code : Code} {k : Nat} {m m' : Machine} {i : Instruction}

theorem bench_onBench (ops : Array Instruction) (w : World) :
    OnBench (fragmentCode ops) 0 (bench ops w) :=
  ⟨rfl, rfl, rfl, rfl, rfl, rfl, rfl, rfl, rfl, rfl, rfl⟩

theorem heap_bench (ops : Array Instruction) (w : World) :
    (bench ops w).world.heap = w.heap := rfl

theorem stack_bench (ops : Array Instruction) (w : World) : (bench ops w).context.stack = #[] := rfl

/-- The fragment has ended on a fault, or by its stop. -/
structure OverBench (f : Fault) (m m' : Machine) : Prop where
  suspended_eq : m'.suspended = []
  heap_eq : m'.world.heap = m.world.heap
  ended : if f.kind = .stop then m'.ended = some (.ok ()) ∧ m'.context.stack = m.context.stack
    else ∃ g, m'.ended = some (.error g)

/-- Without anything to record, the beginning of an instruction only moves on. -/
theorem outcome_begin_of_onBench (h : OnBench code k m) (i : Instruction) :
    ∃ journal, outcome (begin i) m = (.ok (), { m with
      world := { m.world with journal }
      context := { m.context with pc := k + 1 } }) := by
  have hobserve : ∀ (n : Machine) (x : Happening), n.context.observer = {} →
      outcome (observe x) n = (.ok (), n) := by
    intro n x hidle
    have hsame : { n.context with observer := n.context.observer.observe x } = n.context := by
      rw [hidle]
      show { n.context with observer := {} } = n.context
      rw [← hidle]
    rw [observe, outcome_bind_ok (outcome_get n)]
    dsimp only
    rw [hidle]
    show (Except.ok (), { n with
      context := { n.context with observer := n.context.observer.observe x } }) = (Except.ok (), n)
    rw [hsame]
  have hcontext : { m.context with
      pc := m.context.pc + 1
      running := m.context.running && !m.context.observer.isLast
      observer := m.context.observer.spend } = { m.context with pc := k + 1 } := by
    have hspend : m.context.observer.spend = m.context.observer := by rw [h.observer_eq]; rfl
    have hlast : m.context.observer.isLast = false := by rw [h.observer_eq]; rfl
    rw [hspend, hlast, h.pc_eq, Bool.not_false, Bool.and_true]
  rw [begin, outcome_bind_ok (outcome_context m), outcome_bind_ok (outcome_modifyContext _ m),
    outcome_bind_ok (outcome_context _),
    outcome_bind_ok (hobserve { m with context := { m.context with pc := m.context.pc + 1 } } _
      h.observer_eq), outcome_bind_ok (outcome_modifyContext _ _), outcome_bind_ok (outcome_get _)]
  rw [← hcontext]
  exact ⟨_, rfl⟩

theorem onBench_of_same (h : OnBench code k m) (hsame : m.SameButOperands m') :
    OnBench code k m' := by
  rw [hsame]
  exact ⟨h.ended_eq, h.suspended_eq, h.code_eq, h.pc_eq, h.running_eq, h.fp_eq, h.handlers_eq,
    h.observer_eq, h.symbols_eq, h.static_eq, h.scopes_eq⟩

/-- A fault ends a fragment. -/
theorem settle_on_bench (h : OnBench code k m) (f : Fault) :
    ∃ m', outcome (settle f) m = (.ok (), m') ∧ OverBench f m m' := by
  by_cases hstop : f.kind = .stop
  · rw [settle, if_pos hstop]
    refine ⟨_, rfl, h.suspended_eq, rfl, ?_⟩
    rw [if_pos hstop]
    exact ⟨rfl, rfl⟩
  have hover : ∀ (g : Fault) (n : Machine), n.suspended = [] → n.world.heap = m.world.heap →
      OverBench f m { n with ended := some (.error g) } := by
    intro g n hsuspended hheap
    refine ⟨hsuspended, hheap, ?_⟩
    rw [if_neg hstop]
    exact ⟨g, rfl⟩
  rw [outcome_settle hstop, outcome_recover]
  by_cases hsignal : f.isSignal = true
  · rw [if_pos hsignal]
    exact ⟨_, rfl, hover f m h.suspended_eq rfl⟩
  have hnone : m.context.catcher? f = none := by
    unfold Context.catcher?
    simp only [h.handlers_eq, findHandler, ite_self]
  have hunwind : ∀ n : Machine, n.context.fp = 0 →
      (outcome (unwindTo 0 (m.context.stack.size + 1)) n).2 = n := by
    intro n hfp
    rw [unwindTo, outcome_bind_ok (outcome_context n), hfp]
    rfl
  obtain ⟨journal, htraced⟩ := m.traced_eq (f.raisedAt m.context.code.name m.context.line)
  rw [if_neg hsignal, hnone]
  dsimp only
  rw [outcome_abandon, htraced,
    hunwind { m with world := { m.world with journal := journal } } h.fp_eq]
  exact ⟨_, rfl, hover _ _ h.suspended_eq rfl⟩

/-- **A step of a fragment** executes the next instruction; a fault ends the fragment. -/
theorem OnBench.step (h : OnBench code k m) (hi : code.ops[k]? = some i)
    (hdirect : i.op.isDirect = true) : ∃ n : Machine, OnBench code (k + 1) n ∧
      n.context.stack = m.context.stack ∧ n.world.heap = m.world.heap ∧
      ((∃ m', outcome (execute i) n = (.ok (), m') ∧ m.step = (m', .running) ∧
          OnBench code (k + 1) m') ∨
        ∃ f m' m'', outcome (execute i) n = (.error (.fault f), m') ∧ m.step = (m'', .running) ∧
          OverBench f m' m'') := by
  obtain ⟨journal, hbegin⟩ := outcome_begin_of_onBench h i
  have hnext : m.next? = some i := by
    rw [Machine.next?, if_pos h.running_eq, h.code_eq, h.pc_eq, hi]
  have hstep : m.step = m.perform (begin i >>= fun _ => execute i) := by
    unfold Machine.step
    rw [h.ended_eq, hnext]
  have hafter : OnBench code (k + 1) { m with
      world := { m.world with journal }
      context := { m.context with pc := k + 1 } } :=
    ⟨h.ended_eq, h.suspended_eq, h.code_eq, rfl, h.running_eq, h.fp_eq, h.handlers_eq,
      h.observer_eq, h.symbols_eq, h.static_eq, h.scopes_eq⟩
  refine ⟨_, hafter, rfl, rfl, ?_⟩
  obtain ⟨hprompt, hkeeps⟩ := execute_isDirect hdirect
  have hnotblocked := hprompt { m with
    world := { m.world with journal }
    context := { m.context with pc := k + 1 } }
  have hsame := onBench_of_same hafter (hkeeps _)
  rw [hstep, Machine.perform_eq, outcome_bind_ok hbegin]
  rcases hout : outcome (execute i) { m with
    world := { m.world with journal }
    context := { m.context with pc := k + 1 } } with ⟨(f | _) | _, m'⟩
  · rw [hout] at hsame
    obtain ⟨m'', hsettle, hover⟩ := settle_on_bench hsame f
    refine .inr ⟨f, m', m'', rfl, ?_, hover⟩
    simp only [hsettle]
  · rw [hout] at hnotblocked
    exact absurd rfl hnotblocked
  · rw [hout] at hsame
    exact .inl ⟨m', rfl, rfl, hsame⟩

/-- What has ended on the bench is found so by the next step. -/
theorem OverBench.comesTo {f : Fault} (h : OverBench f m m') :
    ∃ result, m'.ended = some result ∧ Machine.ComesToIn 0 m' result m' := by
  have hended := h.ended
  obtain ⟨result, hresult⟩ : ∃ result, m'.ended = some result := by
    split at hended
    · exact ⟨_, hended.1⟩
    · obtain ⟨g, hg⟩ := hended
      exact ⟨_, hg⟩
  refine ⟨result, hresult, .ended ?_⟩
  unfold Machine.step
  rw [hresult, h.suspended_eq]

/-! ### Fragments end -/

theorem getElem?_fragmentCode_of_lt (h : k < ops.size) :
    (fragmentCode ops).ops[k]? = some ops[k] := by
  simp [fragmentCode, Array.getElem?_push, h, Nat.ne_of_lt h]

theorem getElem?_fragmentCode_size : (fragmentCode ops).ops[ops.size]? = some (.plain .stop) := by
  simp [fragmentCode]

theorem OnBench.comesTo (hdirect : ∀ i ∈ ops, i.op.isDirect = true) :
    ∀ (left : Nat) (m : Machine), left ≤ ops.size →
      OnBench (fragmentCode ops) (ops.size - left) m →
      ∃ steps ≤ left + 1, ∃ result m', Machine.ComesToIn steps m result m' := by
  intro left
  induction left with
  | zero =>
    intro m _ hm
    obtain ⟨n, -, -, -, hstep⟩ := hm.step getElem?_fragmentCode_size rfl
    rcases hstep with ⟨m', hout, -⟩ | ⟨f, m', m'', -, hstep, hover⟩
    · cases hout
    · obtain ⟨result, -, hends⟩ := hover.comesTo
      exact ⟨1, by omega, result, m'', .step hstep hends⟩
  | succ left ih =>
    intro m hle hm
    have hlt : ops.size - (left + 1) < ops.size := by omega
    have hnext : ops.size - (left + 1) + 1 = ops.size - left := by omega
    obtain ⟨n, -, -, -, hstep⟩ := hm.step (getElem?_fragmentCode_of_lt hlt)
      (hdirect _ (Array.getElem_mem hlt))
    rcases hstep with ⟨m', -, hstep, hbench⟩ | ⟨f, m', m'', -, hstep, hover⟩
    · rw [hnext] at hbench
      obtain ⟨steps, hsteps, result, last, hends⟩ := ih m' (by omega) hbench
      exact ⟨steps + 1, by omega, result, last, .step hstep hends⟩
    · obtain ⟨result, -, hends⟩ := hover.comesTo
      exact ⟨1, by omega, result, m'', .step hstep hends⟩

/-- On some objects and operands, an instruction succeeds and leaves others as told. -/
def Computes (i : Instruction) (h : Heap) (values : List Value) (post : Heap → List Value → Prop) :
    Prop :=
  ∀ {code : Code} {k : Nat} {m : Machine}, OnBench code k m → m.world.heap = h →
    m.context.stack = (values.map Slot.value).toArray →
    ∃ h' values', post h' values' ∧ outcome (execute i) m = (.ok (), { m with
      world := { m.world with heap := h' }
      context := { m.context with stack := (values'.map Slot.value).toArray } })

/-- On some objects and operands, an instruction fails, leaves objects as told and has taken all
operands. -/
def Refuses (i : Instruction) (h : Heap) (values : List Value) (post : Heap → Prop) : Prop :=
  ∀ {code : Code} {k : Nat} {m : Machine}, OnBench code k m → m.world.heap = h →
    m.context.stack = (values.map Slot.value).toArray →
    ∃ f m', outcome (execute i) m = (.error (.fault f), m') ∧ post m'.world.heap ∧
      m'.context.stack = #[]

/-- Instructions one after the other leave objects, and the top operand if none of them fails, as
told. -/
inductive Computation (post : Heap → Option Value → Prop) :
    List Instruction → Heap → List Value → Prop
  | done {h : Heap} {values : List Value} (hpost : post h values.getLast?) :
      Computation post [] h values
  | step {i : Instruction} {rest : List Instruction} {h : Heap} {values : List Value}
      (mid : Heap → List Value → Prop) (hdirect : i.op.isDirect = true)
      (hi : Computes i h values mid)
      (hrest : ∀ h' values', mid h' values' → Computation post rest h' values') :
      Computation post (i :: rest) h values
  | refuse {i : Instruction} {rest : List Instruction} {h : Heap} {values : List Value}
      (hdirect : i.op.isDirect = true) (hi : Refuses i h values fun h' => post h' none) :
      Computation post (i :: rest) h values

/-- The value that a fragment has come to, by its result and the top of its stack. -/
def valueOf : Except Fault Unit → Option Slot → Option Value
  | .ok (), some (.value v) => some v
  | _, _ => none

theorem valueOf_back? (values : List Value) :
    valueOf (.ok ()) (values.map Slot.value).toArray.back? = values.getLast? := by
  rw [List.back?_toArray, List.getLast?_map]
  cases values.getLast? with
  | none => rfl
  | some v => rfl

theorem drop_eq_cons {rest : List Instruction} (h : ops.toList.drop k = i :: rest) :
    k + 1 ≤ ops.size ∧ (fragmentCode ops).ops[k]? = some i ∧ ops.toList.drop (k + 1) = rest := by
  have hlt : k < ops.toList.length := by
    by_contra hle
    rw [List.drop_of_length_le (by omega)] at h
    cases h
  rw [List.drop_eq_getElem_cons hlt] at h
  obtain ⟨rfl, hrest⟩ := List.cons.inj h
  rw [Array.length_toList] at hlt
  exact ⟨hlt, by rw [getElem?_fragmentCode_of_lt hlt, Array.getElem_toList], hrest⟩

theorem Computation.comesTo {post : Heap → Option Value → Prop} {rest : List Instruction} {h : Heap}
    {values : List Value} (hcomputation : Computation post rest h values) :
    ∀ {k : Nat} {m : Machine}, OnBench (fragmentCode ops) k m → ops.toList.drop k = rest →
      k ≤ ops.size → m.world.heap = h → m.context.stack = (values.map Slot.value).toArray →
      ∃ steps ≤ rest.length + 1, ∃ result m', Machine.ComesToIn steps m result m' ∧
        post m'.world.heap (valueOf result m'.context.stack.back?) := by
  induction hcomputation with
  | @done h values hpost =>
    intro k m hm hdrop hk hheap hstack
    have hsize : k = ops.size := by
      have hlen := congrArg List.length hdrop
      simp only [List.length_drop, Array.length_toList, List.length_nil] at hlen
      omega
    subst hsize
    obtain ⟨n, -, hstack', hheap', hstep⟩ := hm.step getElem?_fragmentCode_size rfl
    rcases hstep with ⟨m', hout, -⟩ | ⟨f, m', m'', hout, hstep, hover⟩
    · cases hout
    · cases hout
      have hended : m''.ended = some (.ok ()) ∧ m''.context.stack = n.context.stack := hover.ended
      obtain ⟨result, hresult, hends⟩ := hover.comesTo
      rw [hended.1] at hresult
      cases hresult
      refine ⟨1, Nat.le_refl _, _, m'', .step hstep hends, ?_⟩
      rw [hended.2, hstack', hstack, valueOf_back?, (hover.heap_eq.trans hheap').trans hheap]
      exact hpost
  | @step i rest h values mid hdirect hi hrest ih =>
    intro k m hm hdrop hk hheap hstack
    obtain ⟨hlt, hi', hrest'⟩ := drop_eq_cons hdrop
    obtain ⟨n, hn, hstack', hheap', hstep⟩ := hm.step hi' hdirect
    obtain ⟨h', values', hmid, hout⟩ := hi hn (hheap'.trans hheap) (hstack'.trans hstack)
    rcases hstep with ⟨m', hout', hstep, hbench⟩ | ⟨f, m', m'', hout', -, -⟩
    · rw [hout] at hout'
      cases hout'
      obtain ⟨steps, hsteps, result, last, hends, hlast⟩ := ih h' values' hmid hbench hrest' hlt rfl rfl
      exact ⟨steps + 1, Nat.succ_le_succ hsteps, result, last, .step hstep hends, hlast⟩
    · rw [hout] at hout'
      cases hout'
  | @refuse i rest h values hdirect hi =>
    intro k m hm hdrop hk hheap hstack
    obtain ⟨hlt, hi', -⟩ := drop_eq_cons hdrop
    obtain ⟨n, hn, hstack', hnheap, hstep⟩ := hm.step hi' hdirect
    obtain ⟨f, m', hout, hpost, hempty⟩ := hi hn (hnheap.trans hheap) (hstack'.trans hstack)
    rcases hstep with ⟨m'', hout', -⟩ | ⟨g, m'', last, hout', hstep, hover⟩
    · rw [hout] at hout'
      cases hout'
    · rw [hout] at hout'
      cases hout'
      obtain ⟨result, hresult, hends⟩ := hover.comesTo
      refine ⟨1, by omega, result, last, .step hstep hends, ?_⟩
      -- A stop is no fault, but it leaves nothing on the stack.
      have hvalue : valueOf result last.context.stack.back? = none := by
        have hended := hover.ended
        split at hended
        · rw [hended.2, hempty]
          cases result <;> rfl
        · obtain ⟨g, hg⟩ := hended
          rw [hg] at hresult
          cases hresult
          rfl
      rw [hvalue, hover.heap_eq]
      exact hpost

/-- **What a fragment results in** is what its instructions compute one after the other. -/
theorem run_runFragment_of_computation {w : World} {post : Heap → Option Value → Prop}
    (h : Computation post ops.toList w.heap []) :
    post ((runFragment ops).run w).2.heap ((runFragment ops).run w).1.toOption := by
  obtain ⟨steps, hsteps, result, m', hends, hpost⟩ :=
    h.comesTo (bench_onBench ops w) rfl (Nat.zero_le _) (heap_bench ops w) (stack_bench ops w)
  have hadvance := hends.advanceFrom true (ops.size + 2)
    (by rw [Array.length_toList] at hsteps; omega)
  have hresult : ((runFragment ops).run w).1.toOption = valueOf result m'.context.stack.back? ∧
      ((runFragment ops).run w).2.heap = m'.world.heap := by
    rw [run_runFragment, Machine.advance, hadvance]
    refine ⟨?_, rfl⟩
    dsimp only
    rcases result with f | u
    · rfl
    · rcases m'.context.stack.back? with _ | v | f <;> rfl
  rw [hresult.1, hresult.2]
  exact hpost

end Peephole

end ScriptMachine
