import ScriptMachine.Heap.Display
import ScriptMachine.Scope.Arena

/-!
# Table dumps

The text that shows a symbol table to people: a line for the table and a line for each name.
-/

namespace ScriptMachine

/-- The protection of a symbol, as a dump shows it. -/
def Symbol.note (s : Symbol) : String :=
  if s.constant then " (constant)" else if s.readonly then " (readonly)" else ""

/-- The line of one symbol. -/
def dumpLine (h : Heap) (p : Symbol × Value) : String :=
  s!"   {padRight 20 p.1.name} = {h.display p.2}{p.1.note}\n"

/-- The text of a table. -/
def Arena.dump (a : Arena) (h : Heap) (id : TableId) : String :=
  match a.table? id with
  | none => s!"<removed table {id.text}>"
  | some t =>
    let boundary := if t.boundary then ", boundary" else ""
    let shared := if t.shared then ", shared" else ""
    s!"Symbol table {t.name} {id.text} (size {t.size}, bins {t.bins}{boundary}{shared})\n" ++
      String.join (t.sorted.map (dumpLine h))

end ScriptMachine
