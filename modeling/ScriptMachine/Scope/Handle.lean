/-!
# Handles of symbol tables

* `TableId`: a place in the arena and the generation of the table that lived there.
* `Pointer`: the address of one slot of a table.
-/

namespace ScriptMachine

/-- A handle to a symbol table; it stays stale for ever once its table is removed. -/
structure TableId where
  index : Nat
  generation : UInt32
deriving DecidableEq, Inhabited

namespace TableId

/-- The table of globals. -/
def root : TableId := ⟨0, 0⟩

def text (id : TableId) : String := s!"#{id.index}.{id.generation.toNat}"

end TableId

/-- The address of a slot. -/
structure Pointer where
  table : TableId
  slot : Nat
deriving DecidableEq, Inhabited

def Pointer.text (p : Pointer) : String := s!"{p.table.text}[{p.slot}]"

end ScriptMachine
