import ScriptMachine.Machine.Frames
import ScriptMachine.Library.Natives

/-!
# Calls and returns

* `Exec.callValue`: functions of programs get a frame, library functions and types push a result.
* `Exec.enterScratch`: runs a call in a context of its own while the present one waits.
* `Exec.continueReturn`: the deferred calls of a function, one after the other, then its return.
* `Exec.sortNext`: the comparisons of a sort, one after the other.
-/

namespace ScriptMachine

namespace World

/-- A new context that will run code in a table, with the flags of the settings. -/
def newContext (symbols : TableId) (code : Code) (settings : Settings) : WorldM Context := do
  let thread ← modifyGet fun w => (w.contexts + 1, { w with contexts := w.contexts + 1 })
  note .trace fun _ => s!"*** ({thread}) new context for {code.name} on table {symbols.text}"
  let w ← get
  let staticTypes :=
    match w.scopes.get? symbols "__static_data_types" with
    | some v => w.heap.truthy v
    | none => settings.flag Settings.staticTypes false
  return {
    name := code.name
    thread
    symbols
    code
    settings
    staticTypes
    raiseErrors := settings.flag Settings.uncheckedErrors true
    stackTrace := settings.flag Settings.stackTrace false
    panics := settings.flag Settings.panics true
    extensions := settings.flag Settings.extensions false
    fullScope := settings.flag Settings.symbolScope false }

/-- A context whose code is one call, with the callable and its arguments on its stack. -/
def callContext (symbols : TableId) (settings : Settings) (callable : Value)
    (args : List Value) : WorldM Context := do
  let name := callableName (← get).heap callable
  let code := (Code.mk ("call " ++ name)
    #[⟨.call, .ofNat args.length⟩, .plain .stop] none true false)
  let c ← newContext symbols code settings
  return { c with stack := ((callable :: args).map Slot.value).toArray }

/-- Sets a context going at an address. -/
def start (c : Context) (pc : Nat) : WorldM Context := do
  note .trace fun _ => s!"*** ({c.thread}) running {c.code.name} from {pc}"
  return { c with pc, running := true }

end World

namespace Exec

/-- The arguments that a declaration asks for. -/
def checkArguments (d : Declaration) (args : List Value) : Exec Unit := do
  let wanted := d.parameters.length
  let enough := if d.variadic then wanted ≤ args.length + 1 else args.length = wanted
  if !enough then fail (.about .argumentCount d.name)
  let m ← get
  if m.context.staticTypes then
    let fixed := if d.variadic then wanted - 1 else wanted
    for (p, v) in (d.parameters.take fixed).zip args do
      if !p.type.accepts (m.world.heap.typeOf v) then fail (.about .argumentType p.name)

/-- Checks the arguments of code that has a declaration. -/
def checkCall (code : Code) (args : List Value) : Exec Unit := do
  match code.declaration with
  | some d => checkArguments d args
  | none => return

/-- Binds the arguments of the function that was just entered. -/
def bindArgs (args : List Value) : Exec Unit := do
  storeHere "__args" (← onHeap (Heap.newList args))

/-- Calls a function of a program. -/
def callCode (code : Code) (args : List Value) : Exec Unit := do
  checkCall code args
  enterChild code.name code 0 (!(← context).fullScope)
  bindArgs args

/-- Binds names in a table. -/
def storeAllIn (table : TableId) (bindings : List (String × Value)) : Exec Unit := do
  for (name, v) in bindings do storeIn table name v

/-- Calls a function of a package, in a scope that shows it the package's members. -/
def callMember (package : Ref .package) (code : Code) (args : List Value) : Exec Unit := do
  checkCall code args
  let p := (← heap).package package
  let scope ← onWorld
    (World.newChild ("pkg func " ++ code.name) (← context).symbols true)
  setScopes (← (← scopes).setPackage scope p.name)
  storeAllIn scope p.items
  if let some inner := p.symbols then
    storeAllIn scope ((← scopes).localSymbols inner)
  let table ← onWorld (World.newChild code.name scope false)
  pushFrame code.name table code 0
  modifyContext fun c => { c with package := p.name }
  storeIn table "__args" (← onHeap (Heap.newList args))

/-- Writes the fields of a struct one after the other, up to the first fault. -/
def setFields (r : Ref .struct) (fields : List (String × Value)) : Exec Unit := do
  for (name, v) in fields do onObjects (Heap.setField r name v)

/-- Writes the entries of a map into the fields named by their keys. -/
def setFieldsFrom (r : Ref .struct) (source : MapObject) : Exec Unit := do
  for key in source.keys do
    let found ← source.get key
    onObjects (Heap.setField r ((← heap).display key) (found.getD .null))

/-- A fresh value of a type, initialised from a value. -/
def initialised (t : Ty) (fresh init : Value) : Exec Value := do
  match fresh, init with
  | .struct r, .map source => do
    setFieldsFrom r ((← heap).map source)
    return fresh
  | .struct r, .struct source => do
    setFields r ((← heap).struct source).visible
    return fresh
  | .map r, .map source => do
    onObjects (Heap.mergeEntries r source)
    return fresh
  | _, _ => onObjects (Heap.coerce t init)

/-- The zero value of a type, initialised from the argument if there is one. -/
def construct (t : Ty) (args : List Value) : Exec Unit := do
  let fresh ← onHeap (Heap.zeroValue t)
  match args with
  | [] => push fresh
  | [init] => do push (← initialised t fresh init.unwrapped)
  | _ => fail (.about .argumentCount t.text)

/-! ### Contexts of their own -/

/-- Runs a context while the present one waits. -/
def enterScratch (scratch : Context) (awaiting : Awaiting) : Exec Unit := do
  let scratch ← onWorld (World.start scratch 0)
  modify fun m =>
    { m with
      context := scratch
      suspended := ⟨m.context, awaiting⟩ :: m.suspended }

/-- What a library function's fault becomes: signals and panics are raised, and so are all others
if the settings say so; else the fault is pushed as a value. -/
def settleLibraryFault (f : Native) (fault : Fault) : Exec Unit := do
  let c ← context
  if fault.isSignal || fault.kind == .panic || c.raiseErrors then fail fault
  else do
    noteThread .trace fun _ => s!"{f.name} returned {fault.message}"
    push (.error fault)

/-- Asks whether the element at `j` of an array goes before the one below it. -/
def askOrdering (r : Ref .array) (less : Value) (size i j : Nat) : Exec Unit := do
  let c ← context
  let scratch ← onWorld
    (World.callContext c.symbols c.settings less [.ofNat j, .ofNat (j - 1)])
  enterScratch scratch (.ordering r less size i j)

/-- Goes on with a sort at the element `i`. -/
def sortNext (r : Ref .array) (less : Value) (size i : Nat) : Exec Unit := do
  if i < size then askOrdering r less size i i else push .null

/-- Exchanges the element at `j` with the one below it. -/
def exchange (r : Ref .array) (j : Nat) : HeapM Unit := do
  let a := (← get).array r
  let upper ← a.get j
  let lower ← a.get (j - 1)
  Heap.setElement r j lower
  Heap.setElement r (j - 1) upper

/-- Goes on with a sort once a comparison is made: an element moves down while it goes first. -/
def sortAfter (r : Ref .array) (less : Value) (size i j : Nat) (goesFirst : Bool) : Exec Unit := do
  if goesFirst then
    match ← onHeap (exchange r j).run with
    | .ok () =>
      if 1 < j then askOrdering r less size i (j - 1) else sortNext r less size (i + 1)
    | .error fault => settleLibraryFault .sortSlice fault
  else sortNext r less size (i + 1)

/-- Begins to sort an array by a comparison of the program. -/
def beginSort (args : List Value) : Exec Unit := do
  let first := (args.headD .null).unwrapped
  match first with
  | .array r => sortNext r (args.getD 1 .null) ((← heap).array r).values.size 1
  | v => settleLibraryFault .sortSlice (Native.wrongArgument v)

/-- Calls a library function. -/
def callNative (f : Native) (receiver : Option Value) (args : List Value) : Exec Unit := do
  if !f.takes args.length then fail (.about .argumentCount f.name)
  else if f = .sortSlice then beginSort args
  else do
    match ← onWorld (f.apply receiver args).run with
    | .ok v => push v
    | .error (.fault fault) => settleLibraryFault f fault
    | .error .blocked => wait

/-- Calls a value. -/
def callValue (callable : Value) (args : List Value) : Exec Unit :=
  match callable with
  | .code code => callCode code args
  | .member package code => callMember package code args
  | .native f receiver => callNative f receiver args
  | .type t => construct t args
  | v => fail (.about .invalidFunctionCall v.kindName)

/-! ### Instructions -/

/-- Takes the arguments and the callable below them. -/
def popCall (count : Nat) : Exec (Value × List Value) := do
  let args ← popArgs count
  return (← popUnwrapped, args)

/-- Calls with as many arguments as the operand says, and those that `Flatten` added. -/
def call (operand : Value) : Exec Unit := do
  let count ← operandCount operand 0
  let extra := (← context).extraArgs
  modifyContext fun c => { c with extraArgs := 0 }
  let (callable, args) ← popCall (count + extra).toNat
  callValue callable args

/-- Calls a subroutine of the running code. -/
def localCall (operand : Value) : Exec Unit := do
  let address ← branchTarget operand
  enterChild "local call" (← context).code address false

/-- Registers a call for the return of the running function. -/
def deferCall (operand : Value) : Exec Unit := do
  let count ← operandCount operand 0
  let (callable, args) ← popCall count
  modifyContext fun c => { c with deferred := ⟨callable, args⟩ :: c.deferred }

/-- Runs the deferred call registered last, or returns when none is left; the outermost code ends
the run. A deferred call writes to the output of its function. -/
def continueReturn : Exec Unit := do
  let c ← context
  match c.deferred with
  | d :: rest => do
    modifyContext fun c => { c with deferred := rest }
    noteThread .trace fun _ => "run deferred call"
    let scratch ← onWorld (World.callContext c.symbols c.settings d.callable d.args)
    modifyContext fun c => { c with output := .discarded }
    enterScratch { scratch with output := c.output } .deferred
  | [] =>
    if 0 < c.fp then popFrame else modifyContext fun c => { c with running := false }

/-- Returns from the running function; with `true` the top operand becomes its result. -/
def return_ (operand : Value) : Exec Unit := do
  match operand.unwrapped with
  | .bool true => do
    let v ← popValue
    modifyContext fun c => { c with result := some v }
  | _ => pure ()
  continueReturn

/-- Calls the entry function, `main` unless named. -/
def entryPoint (operand : Value) : Exec Unit := do
  let name := operand.string?.getD "main"
  callValue (← lookup name).unwrapped []

/-- The value that a finished call leaves: the top of its stack, or its result. -/
def leftTrue (h : Heap) (c : Context) : Bool :=
  match c.stack.back? with
  | some (.value v) => h.truthy v
  | some (.frame _) => true
  | none => h.truthy (c.result.getD .null)

/-- Goes on in the context that waited for a call, once it has ended. -/
def afterScratch (awaiting : Awaiting) (scratch : Context) (result : Except Fault Unit) :
    Exec Unit := do
  match awaiting with
  | .deferred => do
    modifyContext fun c => { c with output := scratch.output }
    match result with
    | .ok () => continueReturn
    | .error f => fail f
  | .ordering r less size i j => do
    match result with
    | .ok () => sortAfter r less size i j (leftTrue (← heap) scratch)
    | .error f => settleLibraryFault .sortSlice f

end Exec

end ScriptMachine
