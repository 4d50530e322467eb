import ScriptMachine.Machine.Exec
import ScriptMachine.Text.Case

/-!
# Packages, members and receivers

* `Exec.pushPackage`, `Exec.popPackage`: a package definition and its end.
* `Exec.importPackage`: makes a package visible.
* `Exec.enterPackage`, `Exec.enterFile`: what the following code belongs to.
* `Exec.readFile`: the text of a file.
* `Exec.memberOf`: a field, a key, an item of a package or a method, by name.
* `Exec.member`: the instruction.
* `Exec.setReceiver`, `Exec.getReceiver`, `Exec.loadReceiver`: how a method gets its receiver.
-/

/-! ### Packages and source files -/

namespace ScriptMachine.Exec

/-- The package that a global name holds, or a new one. -/
def packageNamed (name : String) : Exec (Ref .package) := do
  let found := (← scopes).getLocal? .root name
  match found.map Value.unwrapped with
  | some (.package r) => return r
  | _ => onHeap (Heap.newPackage { name })

/-- The table for the definitions of a package; one that was removed is replaced. -/
def packageTable (r : Ref .package) (name : String) : Exec TableId := do
  let p := (← heap).package r
  match p.symbols.filter (← scopes).contains with
  | some table => return table
  | none => do
    let table ← onWorld (World.newChild ("package " ++ name) .root true)
    setScopes (← (← scopes).setPackage table name)
    onHeap (Heap.putPackage r { p with symbols := some table })
    return table

/-- Begins the definitions of a package. -/
def pushPackage (operand : Value) : Exec Unit := do
  let name ← operandName operand
  let package ← packageNamed name
  let table ← packageTable package name
  modifyContext fun c =>
    let scope : PackageScope :=
      { name, package, table, savedSymbols := c.symbols, savedPackage := c.package }
    { c with packages := scope :: c.packages, package := name, symbols := table }

/-- A package with the exported symbols of a table among its items. -/
def withExports (a : Arena) (p : PackageObject) (table : TableId) : PackageObject :=
  let exported := (a.localSymbols table).filter fun s => isExported s.1
  exported.foldl (fun p s => p.set s.1 s.2.unwrapped) p

/-- Ends the definitions of a package, whose exported symbols become items of it. -/
def popPackage : Exec Unit := do
  match (← context).packages with
  | [] => fail (.about .invalidPackageName "no active package")
  | scope :: rest => do
    modifyContext fun c => { c with packages := rest }
    let p := withExports (← scopes) ((← heap).package scope.package) scope.table
    onHeap (Heap.putPackage scope.package p)
    let items := ", ".intercalate (p.items.map fun i => quoted i.1)
    noteThread .symbol fun _ => s!"package {scope.name} defines [{items}]"
    storeIn .root scope.name (.package scope.package)
    modifyContext fun c => { c with symbols := scope.savedSymbols, package := scope.savedPackage }

/-- Binds a global package here, under the last part of its path. -/
def importPackage (operand : Value) : Exec Unit := do
  let path ← operandName operand
  let name := (path.splitOn "/").getLastD path
  let found := (← scopes).get? .root name
  match found.map Value.unwrapped with
  | some (.package r) => do
    noteThread .symbol fun _ => s!"import {path}"
    storeHere name (.package r)
  | _ => fail (.about .invalidPackageName path)

/-- The following code belongs to a package. -/
def enterPackage (operand : Value) : Exec Unit := do
  let name ← operandName operand
  modifyContext fun c => { c with package := name }

/-- The following code comes from a source file. -/
def enterFile (operand : Value) : Exec Unit := do
  let name ← operandName operand
  modifyContext fun c => { c with sourceFile := name, line := 0 }

/-- Pushes the text of the file that the operand or the top of the stack names. -/
def readFile (operand : Value) : Exec Unit := do
  let path ← if operand.isNull then display (← popValue) else operandName operand
  match (← get).world.files.read path with
  | .ok text => push (.string text)
  | .error reason => fail (.about .invalidFileIdentifier s!"{path}: {reason.message}")

end ScriptMachine.Exec

/-! ### Members -/

namespace ScriptMachine

/-- A library method bound to its receiver, or else a receiver function of its type. -/
def methodOf (h : Heap) (receiver : Value) (name : String) : Except Fault Value :=
  match Native.method? receiver.kind name with
  | some f => .ok (.native f (some receiver))
  | none =>
    match h.method? (h.typeOf receiver) name with
    | some f => .ok f
    | none => .error (.about .unknownMember name)

/-- A field of a struct, or else a receiver function of its type. Outside the package that declares
the type, only exported names are visible. -/
def structMember (h : Heap) (package : String) (s : StructObject) (name : String) :
    Except Fault Value :=
  match (s.get? name).orElse fun _ => h.method? s.type name with
  | none => .error (.about .unknownMember name)
  | some member =>
    let home := s.type.package?.getD ""
    if home ≠ "" ∧ home ≠ package ∧ !isExported name then .error (.about .symbolNotExported name)
    else .ok member

/-- An item of a package: its own exported symbols come first. Code from a package runs in the
package's scope. -/
def packageMember (w : World) (r : Ref .package) (name : String) : Except Fault Value :=
  let p := w.heap.package r
  let exported : Option Value :=
    if isExported name then p.symbols >>= fun table => w.scopes.getLocal? table name else none
  match exported.orElse fun _ => p.get? name with
  | none => .error (.about .unknownPackageMember name)
  | some member =>
    match member.unwrapped with
    | .code code => .ok (.member r code)
    | v => .ok v

namespace Exec

/-- The member of a value that has a name. -/
def memberOf (container : Value) (name : String) : Exec Value := do
  let m ← get
  let h := m.world.heap
  match container with
  | .map r => do
    match ← (h.map r).get (.string name) with
    | some v => return v
    | none => methodOf h container name
  | .struct r => structMember h m.context.package (h.struct r) name
  | .package r => packageMember m.world r name
  | .type t =>
    match h.method? t name with
    | some f => return f
    | none => methodOf h container name
  | v => methodOf h v name

/-- Replaces a container by its member; the name is the operand, or on top of the container. -/
def member (operand : Value) : Exec Unit := do
  let named ← if operand.isNull then popValue else pure operand.unwrapped
  let name ← display named
  let container ← popUnwrapped
  push (← memberOf container name).unwrapped

/-! ### Receivers -/

/-- Adds a receiver for the next method. -/
def pushReceiver (name : String) (value : Value) : Exec Unit := do
  noteThread .symbol fun _ => s!"push this {name}"
  modifyContext fun c => { c with receivers := ⟨name, value⟩ :: c.receivers }

/-- Takes a fresh name for a receiver. -/
def freshReceiverName : WorldM String := do
  let n ← modifyGet fun w => (w.receivers + 1, { w with receivers := w.receivers + 1 })
  return s!"$this{n}"

/-- The value of a name becomes the receiver; without a name the top of the stack does, stays in
place and is bound to a fresh name. -/
def setReceiver (operand : Value) : Exec Unit := do
  if operand.isNull then
    let value ← popValue
    push value
    let name ← onWorld freshReceiverName
    storeHere name value
    pushReceiver name value
  else
    let name ← operandName operand
    pushReceiver name (← lookup name)

/-- Binds the receiver of a method, if there is one. -/
def getReceiver (operand : Value) : Exec Unit := do
  let name ← operandName operand
  match (← context).receivers with
  | [] => return
  | receiver :: rest => do
    modifyContext fun c => { c with receivers := rest }
    noteThread .symbol fun _ => s!"pop this {receiver.name} as {name}"
    storeHere name receiver.value

/-- Pushes the receiver and keeps it. -/
def loadReceiver : Exec Unit := do
  match (← context).receivers with
  | [] => fail (.bare .invalidThis)
  | receiver :: _ => push receiver.value

end Exec

end ScriptMachine
