import ScriptMachine.Machine.Exec
import ScriptMachine.Text.Case

/-!
# Frames

Entering functions and leaving them again.

* `Exec.pushFrame`: saves the caller on the operand stack and turns to the callee.
* `Exec.popFrame`: returns to the caller with the callee's values or its result.
* `Exec.unwindFrame`: leaves a function that a fault ended.
* `Exec.restoreFrame`: what both ways of leaving have in common.
-/

namespace ScriptMachine

/-- The tables from a handle outward, up to but not including `stop` or the root. -/
def Arena.lineage (a : Arena) (stop : TableId) : Nat → TableId → List TableId
  | 0, _ => []
  | steps + 1, id =>
    if id = stop ∨ id = .root then []
    else
      id ::
        match a.parent? id with
        | some p => lineage a stop steps p
        | none => []

/-- The tables between the current one and `stop`. -/
def Arena.between (a : Arena) (current stop : TableId) : List TableId :=
  a.lineage stop (a.places.size + 1) current

/-- Whether a package takes over the value of an exported name: functions and constants are not
variables. -/
def isVariable (name : String) (v : Value) : Bool :=
  isExported name &&
    match v with
    | .code _ | .constant _ => false
    | _ => true

namespace Frame

/-- Where the call was made. -/
def origin (f : Frame) : String := s!"{f.module}:{f.line}"

end Frame

namespace Context

/-- The state of a caller, as a call of `name` saves it. -/
def saved (c : Context) (name : String) : Frame where
  name
  module := c.code.name
  line := c.line
  package := c.package
  symbols := c.symbols
  code := c.code
  receivers := c.receivers
  deferred := c.deferred
  loopDepth := c.loops.length
  pc := c.pc
  fp := c.fp
  blockDepth := c.blockDepth
  singleStep := c.singleStep
  breakOnReturn := c.breakOnReturn
  extensions := c.extensions

/-- Turns to a callee; stepping over it leaves single steps for the return. -/
def entered (c : Context) (f : Frame) (table : TableId) (code : Code) (pc : Nat) : Context :=
  { c with
    stack := c.stack.push (.frame f)
    fp := c.stack.size + 1
    deferred := []
    result := none
    symbols := table
    code
    pc
    blockDepth := 0
    breakOnReturn := false
    frameDepth := c.frameDepth + 1
    singleStep := c.singleStep && !c.stepOver }

/-- Turns back to a caller; receivers that the callee took stay taken. -/
def resumed (c : Context) (f : Frame) : Context :=
  { c with
    receivers := f.receivers.drop (f.receivers.length - c.receivers.length)
    symbols := f.symbols
    code := f.code
    pc := f.pc
    fp := f.fp
    line := f.line
    package := f.package
    blockDepth := f.blockDepth
    deferred := f.deferred
    singleStep := f.singleStep || c.breakOnReturn
    breakOnReturn := f.breakOnReturn
    extensions := f.extensions
    handlers := c.handlers.filter fun h => h.fp ≤ f.fp }

/-- The text of the active frames, innermost first, at most `limit` of them. -/
def frameText (c : Context) (limit : Option Nat) : String :=
  let row (f : Frame) : String :=
    s!"from: {padRight 15 f.module} {padLeft 3 (toString f.line)}\n"
  let shown :=
    match limit with
    | some n => c.frames.take n
    | none => c.frames
  s!"Call frames:\n  at: {padRight 15 c.code.name} {padLeft 3 (toString c.line)}\n" ++
    String.join (shown.map row)

end Context

namespace Exec

/-- Calls code at `pc` with a table of its own as scope. -/
def pushFrame (name : String) (table : TableId) (code : Code) (pc : Nat) : Exec Unit := do
  let f := (← context).saved name
  noteThread .symbol fun _ => s!"push call frame {name} from {f.origin}, table {table.text}"
  modifyContext fun c => c.entered f table code pc
  observe (.call name (← context).frameDepth)

/-- Calls code at `pc` in a new child of the current scope. -/
def enterChild (name : String) (code : Code) (pc : Nat) (boundary : Bool) : Exec Unit := do
  let table ← onWorld (World.newChild name (← context).symbols boundary)
  pushFrame name table code pc

/-- Lifts the freeze of what a loop walks. -/
def release (l : Loop) : Exec Unit := do
  match l.walked with
  | .map r _ => onHeap do
    let m := (← get).map r
    Heap.putMap r (m.freeze false)
  | .array r => onHeap do
    let a := (← get).array r
    Heap.putArray r (a.freeze false)
  | .runes _ | .channel _ => return

/-- Ends the innermost `count` loops. -/
def endLoops : Nat → Exec Unit
  | 0 => return
  | count + 1 => do
    match (← context).loops with
    | [] => return
    | l :: rest => do
      modifyContext fun c => { c with loops := rest }
      release l
      endLoops count

/-- Ends the loops that began inside `depth` others. -/
def endLoopsTo (depth : Nat) : Exec Unit := do
  endLoops ((← context).loops.length - depth)

/-- Writes a variable of the scope of a package back into the package. -/
def publishVariable (scope : String) (package : Ref .package) (name : String) (v : Value) :
    Exec Unit := do
  note .symbol fun _ => s!"rewrite {scope}.{name}"
  if let some inner := ((← heap).package package).symbols then storeIn inner name v
  onHeap (Heap.putPackage package (((← heap).package package).set name v))

/-- The package bound to a name, seen from one of two scopes. -/
def findPackage (name : String) (first second : TableId) : Exec (Option (Ref .package)) := do
  let a ← scopes
  let found : Option Value := (a.get? first name).orElse fun _ => a.get? second name
  match found.map Value.unwrapped with
  | some (.package r) => return some r
  | _ => return none

/-- Writes the variables of the package scopes up to `stop` back into their packages. -/
def publishPackages (stop : TableId) : Exec Unit := do
  let a ← scopes
  let current := (← context).symbols
  let outside := a.nextScope current
  for table in a.between current stop do
    let name := a.packageOf table
    if name ≠ "" then
      if let some package ← findPackage name outside stop then
        for (symbol, v) in (← scopes).localSymbols table do
          if isVariable symbol v then publishVariable name package symbol v

/-- Removes the tables up to `target`, which becomes the current one. -/
def dropScopesTo (target : TableId) : Exec Unit := do
  for table in (← scopes).between (← context).symbols target do
    onWorld (World.remove table)
  modifyContext fun c => { c with symbols := target }

/-- Takes the frame of the running function off the stack, with everything above it. -/
def takeFrame : Exec Frame := do
  let c ← context
  if c.fp = 0 then fail (.bare .invalidCallFrame)
  else do
    let stack := c.stack.extract 0 c.fp
    modifyContext fun c => { c with stack := stack.pop }
    match stack.back? with
    | some (.frame f) => return f
    | _ => fail (.bare .invalidCallFrame)

/-- Leaves the running function and turns back to its caller. -/
def restoreFrame : Exec Unit := do
  let f ← takeFrame
  publishPackages f.symbols
  dropScopesTo f.symbols
  endLoopsTo f.loopDepth
  modifyContext fun c => c.resumed f
  storeIn .root "__extensions" (.bool f.extensions)
  modifyContext fun c => { c with frameDepth := c.frameDepth - 1 }
  observe (.ret (← context).frameDepth)
  let c ← context
  noteThread .symbol fun _ => s!"pop call frame {f.name}, resume {c.code.name} at {c.pc}"

/-- Returns to the caller with the values above the frame, or else with the result. -/
def popFrame : Exec Unit := do
  let c ← context
  if c.fp = 0 ∨ c.stack.size < c.fp then fail (.bare .invalidCallFrame)
  else do
    let returned := c.operands
    modifyContext fun c => { c with stack := c.stack.extract 0 c.fp, result := none }
    restoreFrame
    if returned.isEmpty then
      match c.result with
      | some v => push v
      | none => return
    else modifyContext fun c => { c with stack := c.stack ++ returned }

/-- Leaves a function that a fault ended. -/
def unwindFrame : Exec Unit := do
  modifyContext fun c => { c with result := none }
  restoreFrame

/-- Leaves functions until the frame pointer is at most `fp`; at most `fuel` of them. -/
def unwindTo (fp : Nat) : Nat → Exec Unit
  | 0 => return
  | fuel + 1 => do
    if fp < (← context).fp then
      unwindFrame
      unwindTo fp fuel

end Exec

end ScriptMachine
