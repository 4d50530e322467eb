import ScriptMachine.Machine.Frames
import ScriptMachine.Machine.Symbols
import ScriptMachine.Text.Bytes

/-!
# Loops

Loops over the characters of a string, the keys of a map, the elements of an array or the values of
a channel. A map or an array is frozen while a loop walks it.

* `Exec.beginLoop`: starts a loop.
* `Exec.nextOf`: the index and the value of the next round.
* `Exec.nextRound`: binds them, or leaves the loop.
-/

namespace ScriptMachine.Exec

/-- Whether a loop binds a name. -/
def isLoopName (name : String) : Bool := !name.isEmpty && name != discardName

/-- The names of the index and the value of a loop. -/
def loopNames (h : Heap) (operand : Value) : String × String :=
  match operand.unwrapped with
  | .array r =>
    let names := (h.array r).values.toList.map fun v => v.string?.getD ""
    (names.headD "", names.getD 1 "")
  | _ => ("", "")

/-- Defines a name of a loop unless the current table has it. -/
def createLoopName (name : String) : Exec Unit := do
  let m ← get
  if isLoopName name && !m.world.scopes.isLocal m.context.symbols name then create name

/-- What a loop over a value walks, frozen where that matters. A reference from elsewhere leads to
no object, and there is nothing to walk. -/
def walkOver (v : Value) : Exec Walked := do
  match v with
  | .string s => return .runes (runes s)
  | .map r => do
    match (← heap).maps[r.id]? with
    | some m => do
      onHeap (Heap.putMap r (m.freeze true))
      return .map r m.keys
    | none => return .runes []
  | .array r => do
    match (← heap).arrays[r.id]? with
    | some a => do
      onHeap (Heap.putArray r (a.freeze true))
      return .array r
    | none => return .runes []
  | .channel r => return .channel r
  | v => fail (.about .invalidType v.kindName)

def beginLoop (operand : Value) : Exec Unit := do
  let (indexName, valueName) := loopNames (← heap) operand
  createLoopName indexName
  createLoopName valueName
  let walked ← walkOver (← popUnwrapped)
  modifyContext fun c => { c with loops := { indexName, valueName, walked } :: c.loops }

/-- The index and the value of a round; none when the loop is over. A key that was removed since
the loop began has the value nil. -/
def nextOf (l : Loop) : Exec (Option (Value × Value)) := do
  let h ← heap
  match l.walked with
  | .runes items =>
    return items[l.position]?.map fun r => (.ofNat r.1, .string (String.singleton r.2))
  | .map r keys => do
    match keys[l.position]? with
    | none => return none
    | some key => do
      let found ← (h.map r).get key
      return some (key, found.getD .null)
  | .array r => return (h.array r).values[l.position]?.map fun v => (.ofNat l.position, v)
  | .channel r => do
    if (h.channel r).isDrained then return none
    else return some (.ofNat l.position, ← ofWorldAction (WorldAction.receive r))

/-- Assigns to a name of a loop. -/
def storeLoopName (name : String) (v : Value) : Exec Unit := do
  if isLoopName name then store name v

/-- Binds the names of the innermost loop for its next round, or leaves it. -/
def nextRound (operand : Value) : Exec Unit := do
  let leave ← branchTarget operand
  match (← context).loops with
  | [] => modifyContext fun c => { c with pc := leave }
  | l :: rest => do
    match ← nextOf l with
    | none => do
      modifyContext fun c => { c with pc := leave, loops := rest }
      release l
    | some (index, value) => do
      modifyContext fun c => { c with loops := { l with position := l.position + 1 } :: rest }
      storeLoopName l.indexName index
      storeLoopName l.valueName value

end ScriptMachine.Exec
