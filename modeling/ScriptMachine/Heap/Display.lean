import ScriptMachine.Heap
import ScriptMachine.Text.Quoted

/-!
# Display text

The text of a value in a program's own output.

* `Heap.display`: strings stand for themselves, containers show their parts.
* Strings inside containers are quoted.
* Containers do not nest deeper than the heap holds objects, which bounds the recursion.
-/

namespace ScriptMachine.Heap

variable (h : Heap)

/-- The text of a value without parts. -/
def plainText (v : Value) : String :=
  match v with
  | .null => "nil"
  | .error f => f.message
  | .package r => "package " ++ (h.package r).name
  | .channel r => (h.channel r).text
  | .mutex _ => "sync.Mutex"
  | .waitGroup _ => "sync.WaitGroup"
  | .pointer p => "&" ++ p.text
  | .native .. | .member .. | .code _ => "func " ++ h.functionName v
  | .type t => t.text
  | .marker label => "<" ++ label ++ ">"
  | v => v.scalarText

/-- The text of a value inside a container; `inner` shows the parts of containers. -/
def nestedText (inner : Value → String) (v : Value) : String :=
  match v.unwrapped with
  | .string s => quoted s
  | u => inner u

/-- The text of a value that nests at most `depth` containers. -/
def displayWithin : Nat → Value → String
  | 0, v => h.plainText v.unwrapped
  | depth + 1, v =>
    let part := nestedText (displayWithin depth)
    match v.unwrapped with
    | .array r => "[" ++ ", ".intercalate ((h.array r).values.toList.map part) ++ "]"
    | .map r =>
      let m := h.map r
      let entry (k : Value) : String := part k ++ ": " ++ part (m.getOrNull k)
      "map[" ++ m.keyType.text ++ "]" ++ m.valueType.text ++ "\x7b" ++
        ", ".intercalate (m.keys.map entry) ++ "\x7d"
    | .struct r =>
      let field (p : String × Value) : String := p.1 ++ ": " ++ part p.2
      "\x7b " ++ ", ".intercalate ((h.struct r).visible.map field) ++ " \x7d"
    | u => h.plainText u

/-- The display text of a value. -/
def display (v : Value) : String := h.displayWithin h.depth v

end ScriptMachine.Heap
