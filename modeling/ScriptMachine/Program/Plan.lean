import ScriptMachine.Machine.Run
import ScriptMachine.Program.Peephole

/-!
# Planned runs

What programs find when they start, a run described as data, and what is known after it.

* `World.preload`: the builtin functions and the packages `sync`, `sort` and `strings`.
* `World.ownGlobals`: the globals that programs added.
* `World.newProgram`: a context for a program in a table of its own.
* `Switches`: the flags of a context that can be turned from outside.
* `Plan`: a program, what it finds, what is recorded, and how debugger stops are answered.
* `Report`: the outcome, the final context and the debugger stops on the way.
* `World.follow`: carries out a plan.
-/

namespace ScriptMachine.World

/-! ### What programs find -/

/-- A package with its items. -/
def definePackage (name : String) (items : List (String × Value)) : WorldM Unit := do
  let r ← onHeap (Heap.newPackage (.ofItems name items))
  note .app fun _ => s!"preload package {name}"
  setGlobal name (.package r)

/-- A type of a kind, with a place for receiver functions. -/
def newType (k : Kind) : WorldM Value := do
  return .type (.basic (some (← onHeap Heap.newMethods)) k)

/-- Library functions under their names. -/
def functionItems (functions : List Native) : List (String × Value) :=
  functions.map fun f => (f.name, .native f none)

/-- Binds what every program finds in the root table. -/
def preload : WorldM Unit := do
  for (name, f) in functionItems Native.builtins do setGlobal name f
  let waitGroup ← newType .waitGroup
  let mutex ← newType .mutex
  definePackage "sync" [("WaitGroup", waitGroup), ("Mutex", mutex)]
  definePackage "sort" (functionItems Native.sortFunctions)
  definePackage "strings" (functionItems Native.stringsFunctions)

/-- The names that `preload` binds. -/
def preloadedNames : List String :=
  Native.builtins.map (·.name) ++ ["sync", "sort", "strings"]

/-- Whether a global is one that `preload` binds and that still holds a function or a package. -/
def isPreloaded (p : String × Value) : Bool :=
  preloadedNames.contains p.1 &&
    match p.2 with
    | .native .. | .member .. | .package _ => true
    | _ => false

/-- The globals that programs have defined or changed, by name. -/
def ownGlobals (w : World) : List (String × Value) :=
  (w.scopes.localSymbols .root).filter fun p => !isPreloaded p

/-- A context for a program, in a new child of the root table. -/
def newProgram (code : Code) (settings : Settings) : WorldM Context := do
  let table ← newChild code.name .root false
  newContext table code settings

end ScriptMachine.World

namespace ScriptMachine

/-! ### Plans -/

/-- The flags of a context that can be turned from outside; those not given stay as they are. -/
structure Switches where
  staticTypes : Option Bool := none
  debugging : Option Bool := none
  singleStep : Option Bool := none
  stepOver : Option Bool := none
  breakOnReturn : Option Bool := none
  fullScope : Option Bool := none
deriving Inhabited

/-- Turns the flags of a context. -/
def Switches.apply (s : Switches) (c : Context) : Context :=
  { c with
    staticTypes := s.staticTypes.getD c.staticTypes
    debugging := s.debugging.getD c.debugging
    singleStep := s.singleStep.getD c.singleStep
    stepOver := s.stepOver.getD c.stepOver
    breakOnReturn := s.breakOnReturn.getD c.breakOnReturn
    fullScope := s.fullScope.getD c.fullScope }

/-- What is recorded about a run; the journal lines may be limited. -/
structure Recording where
  happenings : Bool := false
  profile : Bool := false
  log : Option (Option Nat) := none
deriving Inhabited

/-- A run described as data. -/
structure Plan where
  code : Code
  /-- The code is optimized first. -/
  optimize : Bool := false
  /-- The program runs in the root table itself, instead of a new child of it. -/
  inRoot : Bool := false
  settings : Settings := {}
  globals : List (String × Value) := []
  locals : List (String × Value) := []
  /-- The operands found on the stack, deepest first. -/
  operands : List Value := []
  switches : Switches := {}
  /-- The switches turned before each resumption after a debugger stop. -/
  stops : List Switches := []
  recording : Recording := {}
  /-- The run stops after this many instructions. -/
  allowance : Option Nat := none
  output : Sink := .collected ""
  files : Files := {}
  start : Nat := 0
deriving Inhabited

/-- A debugger stop: the context and the heap of that moment. -/
structure Stop where
  context : Context
  heap : Heap
deriving Inhabited

/-- What is known after a run. There is no outcome when the rounds did not suffice, or when every
thread has to wait. -/
structure Report where
  /-- The number of replacements and the text of the code after them, if it was optimized. -/
  replacements : Option (Nat × String)
  stops : List Stop
  outcome : Option (Except Fault Unit)
  /-- The outcome of waiting for the tasks afterwards. -/
  joined : Option (Except Fault Unit)
  context : Context
deriving Inhabited

/-- Runs the main thread, and resumes it after each debugger stop while there are switches. -/
def Machine.playOut (rounds : Nat) (m : Machine) :
    List Switches → Machine × Option (Except Fault Unit) × List Stop
  | [] =>
    let (m, outcome) := Machine.run rounds m
    (m, outcome, [])
  | s :: rest =>
    match Machine.run rounds m with
    | (m, some (.error f)) =>
      if f.kind = .signalDebugger then
        let stop : Stop := ⟨m.context, m.world.heap⟩
        let (m, outcome, stops) :=
          playOut rounds { m with context := s.apply m.context }.resume rest
        (m, outcome, stop :: stops)
      else (m, some (.error f), [])
    | (m, outcome) => (m, outcome, [])

namespace World

/-- The observer that a plan asks for. -/
def observerOf (p : Plan) (c : Context) : Observer where
  recording := if p.recording.happenings then some #[] else none
  profile := if p.recording.profile then some {} else none
  log := p.recording.log.map fun limit => { thread := c.thread, limit }
  allowance := p.allowance

/-- The code that a plan runs, and what optimization did to it. -/
def codeOf (p : Plan) : WorldM (Code × Option (Nat × String)) := do
  if !p.optimize then return (p.code, none)
  let (code, replacements) ← p.code.optimized
  return (code, some (replacements, code.compact (← get).heap))

/-- The context that a plan starts with. -/
def contextOf (p : Plan) (code : Code) : WorldM Context := do
  for (name, v) in p.globals do setGlobal name v
  let c ← if p.inRoot then newContext .root code p.settings else newProgram code p.settings
  for (name, v) in p.locals do setIn c.symbols name v
  let c := p.switches.apply c
  return { c with
    stack := (p.operands.map Slot.value).toArray
    observer := observerOf p c
    output := p.output }

/-- Carries out a plan. -/
def follow (rounds : Nat) (p : Plan) : WorldM Report := do
  let (code, replacements) ← codeOf p
  let c ← contextOf p code
  modifyGet fun w =>
    let m := (Machine.ofContext { w with files := p.files } c).launch p.start
    let (m, outcome, stops) := m.playOut rounds p.stops
    let (m, joined) := Machine.join rounds m
    ({ replacements, stops, outcome, joined, context := m.context }, m.world)

end World

end ScriptMachine
