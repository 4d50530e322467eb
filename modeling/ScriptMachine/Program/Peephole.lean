import ScriptMachine.Machine.Run

/-!
# Peephole optimization

Short runs of instructions are replaced by shorter or cheaper ones. A run that a branch leads into
is left alone.

* `Rule`: a pattern of instructions and its replacement; `rules` lists them in order of preference.
* `Rule.match?`: the operands that a pattern captures.
* `runFragment`: the value that constant instructions leave, found by running them.
* `Code.optimized`: the code with all rules applied, and the number of replacements.
-/

namespace ScriptMachine

namespace Peephole

/-- What a pattern asks of an operand. -/
inductive OperandPattern
  | anything
  | absent
  /-- Captures the operand; a later capture in the same register must find an equal one. -/
  | captured (register : Nat)
  /-- Adds the operand, one if absent, to a register. -/
  | summed (register : Nat)
deriving DecidableEq, Inhabited

/-- The operand of a replacing instruction. -/
inductive OperandSource
  | absent
  | register (register : Nat)
  /-- The value that the matched instructions compute. -/
  | folded
deriving DecidableEq, Inhabited

/-- A pattern of instructions and its replacement. -/
structure Rule where
  description : String
  pattern : List (Opcode × OperandPattern)
  replacement : List (Opcode × OperandSource)
deriving Inhabited

/-- A binary operator on two literals. -/
def foldBinary (op : Opcode) (description : String) : Rule :=
  ⟨description, [(.push, .captured 0), (.push, .captured 1), (op, .absent)], [(.push, .folded)]⟩

/-- The rules, in order of preference. -/
def rules : List Rule :=
  [⟨"Push followed by Drop", [(.push, .anything), (.drop, .absent)], []⟩,
    ⟨"Sequential Drops", [(.drop, .summed 0), (.drop, .summed 0)], [(.drop, .register 0)]⟩,
    foldBinary .add "Constant addition",
    foldBinary .sub "Constant subtraction",
    foldBinary .mul "Constant multiplication",
    foldBinary .div "Constant division",
    ⟨"Constant negation", [(.push, .captured 0), (.negate, .absent)], [(.push, .folded)]⟩,
    ⟨"Load followed by same Load", [(.load, .captured 0), (.load, .captured 0)],
      [(.load, .register 0), (.dup, .absent)]⟩,
    ⟨"Push pair followed by Swap", [(.push, .captured 0), (.push, .captured 1), (.swap, .absent)],
      [(.push, .register 1), (.push, .register 0)]⟩,
    ⟨"No-operation", [(.noOperation, .anything)], []⟩]

/-- The length of the longest pattern. -/
def longest : Nat := rules.foldl (fun n r => max n r.pattern.length) 0

/-! ### Matching -/

/-- Operands captured so far, by register. -/
abbrev Registers := List (Nat × Value)

/-- Whether two values have the same form; constants differ from the values they wrap. -/
def sameForm : Value → Value → Bool
  | .constant _, .constant _ => true
  | .constant _, _ => false
  | _, .constant _ => false
  | .code _, .code _ => true
  | .code _, _ => false
  | _, .code _ => false
  | a, b => a.kind == b.kind

/-- Whether two operands are the same: of one form and equal. -/
def sameOperand (h : Heap) (a b : Value) : Bool := sameForm a b && h.equal a b

/-- The registers after an operand has been matched; none if it does not match. -/
def matchOperand (h : Heap) (registers : Registers) (operand : Value) :
    OperandPattern → Option Registers
  | .anything => some registers
  | .absent => if sameOperand h .null operand then some registers else none
  | .captured r =>
    match registers.lookup r with
    | some held => if sameOperand h held operand then some registers else none
    | none => some (Assoc.insert r operand registers)
  | .summed r =>
    let step : Except Fault Int64 := if operand.isNull then .ok 1 else operand.toInt64
    match step with
    | .ok n =>
      let sum := ((registers.lookup r).bind fun v => v.toInt64.toOption).getD 0
      some (Assoc.insert r (.int (sum + n)) registers)
    | .error _ => none

/-- The registers after instructions have been matched. -/
def matchAll (h : Heap) (registers : Registers) :
    List (Opcode × OperandPattern) → List Instruction → Option Registers
  | [], _ => some registers
  | (op, p) :: pattern, i :: ops =>
    if i.op = op then
      (matchOperand h registers i.operand p).bind fun registers => matchAll h registers pattern ops
    else none
  | _ :: _, [] => none

/-- The operands that a rule captures in a run of instructions. -/
def Rule.match? (rule : Rule) (h : Heap) (ops : List Instruction) : Option Registers :=
  matchAll h [] rule.pattern ops

/-! ### Constant runs -/

/-- Whether an operand is a scalar literal. -/
def isLiteral (v : Value) : Bool := v.kind.isScalar

/-- The value that instructions leave on the stack, in a program of their own. -/
def runFragment (ops : Array Instruction) : WorldM (Except Fault Value) := do
  let code := { Code.empty "code fragment" with ops := ops.push (.plain .stop) }
  let scopes := (← get).scopes
  modify fun w => { w with scopes := .initial }
  let c ← World.newContext .root code {}
  let (m, pause) := ((Machine.ofContext (← get) c).launch 0).advance (ops.size + 2)
  set { m.world with scopes }
  match pause, m.context.stack.back? with
  | .ended (.error f), _ => return .error f
  | _, some (.value v) => return .ok v
  | _, _ => return .error (.bare .stackUnderflow)

/-- The value that matched instructions compute, if their pushes are literals. -/
def folded (ops : List Instruction) : WorldM (Option Value) := do
  if ops.all fun i => i.op ≠ .push || isLiteral i.operand then
    return (← runFragment ops.toArray).toOption
  else return none

/-- The operand of a replacing instruction, if there is one. -/
def operandFrom (ops : List Instruction) (registers : Registers) :
    OperandSource → WorldM (Option Value)
  | .absent => return some .null
  | .register r => return some ((registers.lookup r).getD .null)
  | .folded => folded ops

/-- The replacement of matched instructions, if it can be built. -/
def replacementFor (ops : List Instruction) (registers : Registers) :
    List (Opcode × OperandSource) → WorldM (Option (List Instruction))
  | [] => return some []
  | (op, source) :: rest => do
    match ← operandFrom ops registers source with
    | none => return none
    | some operand => return (← replacementFor ops registers rest).map (⟨op, operand⟩ :: ·)

/-! ### Replacing -/

/-- The first rule that applies at an address, with the replacement. -/
def findReplacement (c : Code) (address : Nat) :
    List Rule → WorldM (Option (Rule × List Instruction))
  | [] => return none
  | rule :: rest => do
    let stop := address + rule.pattern.length
    let ops := (c.ops.extract address stop).toList
    if c.size < stop || c.branchesInto address stop then findReplacement c address rest
    else
      match rule.match? (← get).heap ops with
      | none => findReplacement c address rest
      | some registers =>
        match ← replacementFor ops registers rule.replacement with
        | none => findReplacement c address rest
        | some replacement => return some (rule, replacement)

/-- Applies the rules from an address on, in at most `steps` steps; a replacement may make another
one possible a little before it. -/
def replaceFrom : Nat → Code → Nat → Nat → WorldM (Code × Nat)
  | 0, c, _, count => return (c, count)
  | steps + 1, c, address, count => do
    if c.size ≤ address then return (c, count)
    match ← findReplacement c address rules with
    | none => replaceFrom steps c (address + 1) count
    | some (rule, replacement) => do
      if count = 0 then World.note .optimizer fun _ => s!"@@@ optimizing bytecode {c.name} @@@"
      World.note .optimizer fun _ => s!"optimization found in {c.name}: {rule.description}"
      match ← c.patched address rule.pattern.length replacement.toArray with
      | .ok c => replaceFrom steps c (address - longest) (count + 1)
      | .error _ => return (c, count)

/-- The start of the literal pushes that feed a struct instruction, if it can be built at once. -/
def structStart? (c : Code) (address : Nat) : Option Nat := do
  let i ← c.ops[address]?
  let fields ← i.operand.toIndex.toOption
  if i.op ≠ .struct || address < fields * 2 then none
  let start := address - fields * 2
  let pushes := (c.ops.extract start address).toList
  let isConstant (i : Instruction) : Bool :=
    i.op = .push && (isLiteral i.operand || (match i.operand with | .type _ => true | _ => false))
  let isTypeName (p : Value × Value) : Bool := p.1.string? == some typeField
  let typed := (pairUp (pushes.map (·.operand))).any isTypeName
  if pushes.all isConstant && !typed && !c.branchesInto (start + 1) (address + 1) then some start
  else none

/-- Builds structs of literals in advance, from an address on. -/
def foldStructsFrom : Nat → Code → Nat → Nat → WorldM (Code × Nat)
  | 0, c, _, count => return (c, count)
  | steps + 1, c, address, count => do
    match structStart? c address with
    | none => foldStructsFrom steps c (address + 1) count
    | some start => do
      match ← runFragment (c.ops.extract start (address + 1)) with
      | .error _ => foldStructsFrom steps c (address + 1) count
      | .ok v => do
        match ← c.patched start (address + 1 - start) #[⟨.push, v⟩] with
        | .error _ => return (c, count)
        | .ok c => do
          World.note .optimizer fun _ => s!"optimization found in {c.name}: static struct"
          foldStructsFrom steps c (start + 1) (count + 1)

end Peephole

/-- The code with all rules applied, and the number of replacements; code that was optimized before
is left alone. -/
def Code.optimized (c : Code) : WorldM (Code × Nat) := do
  if c.isOptimized then return (c, 0)
  let (replaced, replacements) ← Peephole.replaceFrom (9 * c.size + 1) c 0 0
  let (final, structs) ← Peephole.foldStructsFrom (replaced.size + 1) replaced 0 0
  let count := replacements + structs
  if 0 < count then
    World.note .optimizer fun _ =>
      s!"found {count} optimization(s) in {c.name}, size {c.size} => {final.size}"
  return ({ final with isOptimized := true }, count)

end ScriptMachine
