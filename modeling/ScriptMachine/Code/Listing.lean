import ScriptMachine.Heap.Display
import ScriptMachine.World
import ScriptMachine.Value

/-!
# Building and listing code

Code is built by appending instructions. Branch operands are absolute addresses; joining and
patching code moves them. Listings are the texts that show code to people.

* `Instruction.destination?`: the address a branch instruction names.
* `Code.emit`, `Code.setAddress`: the building steps.
* `Code.append`: joins code behind code.
* `Code.patch`: replaces a run of instructions.
* `operandText`, `Instruction.columns`: the parts of one line.
* `Code.listing`: a line for each instruction, indented by open scopes.
* `Code.compact`: all instructions on one line.
* `Code.disassemble`: a listing in the journal.
* `Code.joined`, `Code.patched`: edits that the journal records.
-/

namespace ScriptMachine

/-! ### Building -/

/-- The address a branch instruction names, if its operand is one of the wide integers. -/
def Instruction.destination? (i : Instruction) : Option Nat :=
  if i.op.isBranch then
    match i.operand.unwrapped with
    | .int n | .int64 n => n.toInt.toNat?
    | .int32 n => n.toInt.toNat?
    | _ => none
  else none

namespace Code

/-- Code without instructions. -/
def empty (name : String) : Code :=
  { name, ops := #[], declaration := none, isSealed := false, isOptimized := false }

variable (c : Code)

/-- Appends an instruction. -/
def emit (op : Opcode) (operand : Value) : Code :=
  { c with ops := c.ops.push ⟨op, operand⟩, isSealed := false }

/-- Marks the code as finished. -/
def finish : Code := { c with isSealed := true }

/-- Points the instruction at `mark` to an address. -/
def setAddress (mark address : Nat) : Except Fault Code :=
  match c.ops[mark]? with
  | some i =>
    .ok { c with ops := c.ops.setIfInBounds mark { i with operand := .ofNat address } }
  | none => .error (.about .invalidBytecodeAddress s!"{mark} of {c.size}")

/-- An instruction whose branch address is moved. -/
def relocate (move : Nat → Nat) (i : Instruction) : Instruction :=
  match i.destination? with
  | some d => { i with operand := .ofNat (move d) }
  | none => i

/-- The instructions of `other` behind those of `c`, with their branches moved along. -/
def append (other : Code) : Code :=
  { c with ops := c.ops ++ other.ops.map (relocate (· + c.size)), isSealed := false }

/-- Moves a branch that lies outside the replaced run and leads past it. -/
def shiftPast (stop removed inserted : Nat) (i : Instruction) : Instruction :=
  match i.destination? with
  | some d => if stop ≤ d then { i with operand := .ofNat (d - removed + inserted) } else i
  | none => i

/-- Replaces `count` instructions from `start` on. Branches of the replacement are kept as given,
and so are branches into the replaced run. -/
def patch (start count : Nat) (replacement : Array Instruction) : Except Fault Code :=
  let stop := start + count
  if c.size < stop then .error (.about .invalidBytecodeAddress s!"{start}..{stop}")
  else
    let shift := shiftPast stop count replacement.size
    .ok { c with
      ops := (c.ops.extract 0 start).map shift ++ replacement ++
        (c.ops.extract stop c.size).map shift }

/-- Whether a branch leads to an address from `start` up to, not including, `stop`. -/
def branchesInto (start stop : Nat) : Bool :=
  c.ops.any fun i =>
    match i.destination? with
    | some d => start ≤ d && d < stop
    | none => false

@[simp]
theorem size_emit (op : Opcode) (operand : Value) : (c.emit op operand).size = c.size + 1 := by
  simp [emit, size]

@[simp]
theorem size_append (other : Code) : (c.append other).size = c.size + other.size := by
  simp [append, size]

/-- Pointing an instruction elsewhere keeps the size. -/
theorem size_of_setAddress {c d : Code} {mark address : Nat}
    (h : c.setAddress mark address = .ok d) : d.size = c.size := by
  unfold setAddress at h
  split at h
  · cases h; simp [size]
  · cases h

/-- Only a run that leaves the code cannot be replaced. -/
theorem patch_eq_error_iff {c : Code} {start count : Nat} {replacement : Array Instruction} :
    (∃ f, c.patch start count replacement = .error f) ↔ c.size < start + count := by
  unfold patch
  by_cases h : c.size < start + count <;> simp [h]

end Code

/-! ### Listings -/

/-- Line ends and tabs made visible. -/
def visibleControls (s : String) : String :=
  String.ofList (s.toList.flatMap fun c =>
    match c with
    | '\n' => ['\\', 'n']
    | '\t' => ['\\', 't']
    | c => [c])

/-- The text of an operand; branch addresses are marked. -/
def operandText (h : Heap) (i : Instruction) : String :=
  let text :=
    match i.operand with
    | .null => ""
    | .string s => quoted s
    | v => visibleControls (h.display v)
  if i.op.isBranch then "@" ++ text else text

/-- The name of an instruction, padded to a common width, and its operand. -/
def Instruction.columns (h : Heap) (i : Instruction) : String × String :=
  (padRight Opcode.nameWidth i.op.name, operandText h i)

namespace Code

/-- The line of one instruction inside `depth` open scopes. -/
def listingLine (h : Heap) (address depth : Nat) (i : Instruction) : String :=
  let (name, operand) := i.columns h
  let bars := String.join (List.replicate depth "| ")
  let body := trimBlankEnd (name ++ " " ++ operand)
  s!"{padLeft 4 (toString address)}: {bars}{body}"

/-- The lines of the instructions from `address` on that lie at `start` or later. -/
def listingFrom (h : Heap) (start address depth : Nat) : List Instruction → List String
  | [] => []
  | i :: rest =>
    let depth := if i.op = .popScope then depth - 1 else depth
    let inner := if i.op = .pushScope then depth + 1 else depth
    let rows := listingFrom h start (address + 1) inner rest
    if start ≤ address then listingLine h address depth i :: rows else rows

variable (c : Code)

/-- The lines of the instructions from `start` up to, not including, `stop`. -/
def listingLines (h : Heap) (start stop : Nat) : List String :=
  listingFrom h start 0 0 (c.ops.toList.take stop)

def listing (h : Heap) (start stop : Nat) : String :=
  String.join ((c.listingLines h start stop).map (· ++ "\n"))

/-- The compact form of one instruction. -/
def compactInstruction (h : Heap) (i : Instruction) : String :=
  let operand := operandText h i
  if operand.isEmpty then i.op.name else i.op.name ++ " " ++ operand

/-- All instructions on one line. -/
def compact (h : Heap) : String :=
  "[" ++ ",".intercalate (c.ops.toList.map (compactInstruction h)) ++ "]"

/-- Writes a listing to the journal, when code or its optimization is journalled. -/
def disassemble (start stop : Nat) : WorldM Unit := do
  let w ← get
  if w.journal.isActive .byteCode || w.journal.isActive .optimizer then
    for line in c.listingLines w.heap start stop do
      World.note .byteCode fun _ => line

/-- Code with other code appended. -/
def joined (other : Code) : WorldM Code := do
  World.note .byteCode fun _ =>
    s!"appended {other.size} instructions from {other.name} at {c.size}"
  return c.append other

/-- Shows an edited run of instructions in the journal. -/
def showEdit (start stop : Nat) (title : Unit → String) : WorldM Unit := do
  if (← get).journal.isActive .optimizer then
    World.note .optimizer title
    c.disassemble start stop

/-- Code with `count` instructions replaced. -/
def patched (start count : Nat) (replacement : Array Instruction) : WorldM (Except Fault Code) := do
  match c.patch start count replacement with
  | .error f => return .error f
  | .ok code => do
    c.showEdit start (start + count) fun _ => s!"patching {c.name} at {start}, existing code:"
    code.showEdit start (start + replacement.size) fun _ => "new code:"
    return .ok code

end Code

end ScriptMachine
