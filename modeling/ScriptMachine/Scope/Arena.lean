import ScriptMachine.Scope.Table

/-!
# The arena of symbol tables

All tables of a program, addressed by generational handles. A removed table leaves its place to a
later one under a new generation, so an old handle finds nothing.

* `Arena.insert`, `Arena.remove`: the life of tables.
* `Arena.resolve`: the visible definition of a name, by a walk to the nearest boundary and a last
  look at the root.
* `Arena.set` and its companions: writes by name and by address.
-/

namespace ScriptMachine

/-- A place for tables: the generation of its handle and the table that lives there. -/
structure Place where
  generation : UInt32
  table : Option Table
deriving Inhabited

/-- All tables; `free` lists the places without a table, the next one to use first. -/
structure Arena where
  places : Array Place
  free : List Nat
deriving Inhabited

namespace Arena

/-- An arena with the root table alone. -/
def initial : Arena :=
  let root : Table := { name := "Root", parent := none, shared := true, isRoot := true }
  ⟨#[⟨0, some root⟩], []⟩

variable (a : Arena)

/-- The table of a handle; none once it is removed. -/
def table? (id : TableId) : Option Table :=
  match a.places[id.index]? with
  | some p => if p.generation = id.generation then p.table else none
  | none => none

def contains (id : TableId) : Bool := (a.table? id).isSome

/-- The table of a handle, or the fault of a stale handle. -/
def table (id : TableId) : Except Fault Table :=
  match a.table? id with
  | some t => .ok t
  | none => .error (.about .invalidValue ("symbol table " ++ id.text))

/-- Puts a table in the place of a live handle. -/
def put (id : TableId) (t : Table) : Arena :=
  { a with places := a.places.modify id.index fun p => { p with table := some t } }

/-- Changes the table of a handle. -/
def update (id : TableId) (f : Table → Table) : Except Fault Arena := do
  let t ← a.table id
  return a.put id (f t)

/-- Gives a table a place: the one freed last, or a new one. -/
def insert (t : Table) : TableId × Arena :=
  match a.free with
  | index :: free =>
    let generation := (a.places[index]?.map (·.generation)).getD 0
    (⟨index, generation⟩, { a with free }.put ⟨index, generation⟩ t)
  | [] => (⟨a.places.size, 0⟩, { a with places := a.places.push ⟨0, some t⟩ })

/-- A new child of a table. -/
def newChild (name : String) (parent : TableId) (boundary : Bool) : TableId × Arena :=
  a.insert { name, parent := some parent, boundary }

/-- A new table without a parent; its lookups still end at the root. -/
def newTable (name : String) : TableId × Arena := a.insert { name, parent := none }

/-- Removes a table; the root and stale handles are left alone. -/
def remove (id : TableId) : Arena :=
  if id = .root ∨ !a.contains id then a
  else
    { places := a.places.modify id.index fun p => ⟨p.generation + 1, none⟩
      free := id.index :: a.free }

def parent? (id : TableId) : Option TableId := a.table? id >>= (·.parent)

/-- The walk to the definition of a name, over at most `steps` tables. -/
def walk (name : String) : Nat → TableId → Option (TableId × Symbol)
  | 0, _ => none
  | steps + 1, id =>
    match a.table? id with
    | none => none
    | some t =>
      match t.symbol? name with
      | some s => some (id, s)
      | none => if t.passes then t.parent >>= walk name steps else none

/-- The visible definition of a name: the nearest on the walk, or else the root's. -/
def resolve (start : TableId) (name : String) : Option (TableId × Symbol) :=
  match a.walk name (a.places.size + 1) start with
  | some found => some found
  | none => a.table? .root >>= (·.symbol? name) |>.map (.root, ·)

/-- The value of the visible definition of a name. -/
def get? (start : TableId) (name : String) : Option Value :=
  a.resolve start name >>= fun (id, s) => a.table? id >>= (·.value? s.slot)

/-- The value of a name in one table. -/
def getLocal? (id : TableId) (name : String) : Option Value := a.table? id >>= (·.get? name)

def isLocal (id : TableId) (name : String) : Bool :=
  ((a.table? id >>= (·.symbol? name))).isSome

/-- Writes the visible definition of a name, or defines it in the table; the result also tells
which table was written. -/
def set (start : TableId) (name : String) (v : Value) : Except Fault (TableId × Arena) :=
  match a.resolve start name with
  | some (id, s) =>
    if s.isProtected then .error (.about .readOnly name)
    else (a.update id (·.store name v)).map (id, ·)
  | none => (a.update start (·.store name v)).map (start, ·)

/-- Binds a name in the table itself, whatever its protection. -/
def setAlways (id : TableId) (name : String) (v : Value) : Except Fault Arena :=
  a.update id (·.store name v)

/-- Binds a name in the table itself and makes it constant. -/
def setConstant (id : TableId) (name : String) (v : Value) : Except Fault Arena :=
  a.update id fun t => (t.store name v).mark name fun s => { s with constant := true }

/-- Protects a name of the table, or lifts the protection. -/
def setReadonly (id : TableId) (name : String) (readonly : Bool) : Except Fault Arena := do
  let t ← a.table id
  if (t.symbol? name).isSome then
    return a.put id (t.mark name fun s => { s with readonly })
  else throw (.about .unknownSymbol name)

/-- Defines a name that the table does not have yet. -/
def create (id : TableId) (name : String) : Except Fault Arena := do
  let t ← a.table id
  if (t.symbol? name).isSome then throw (.about .symbolExists name)
  else return a.put id (t.store name .null)

/-- Forgets a name; without `always`, a missing or protected one is a fault. -/
def delete (id : TableId) (name : String) (always : Bool) : Except Fault Arena := do
  let t ← a.table id
  match t.symbol? name with
  | none => if always then return a else throw (.about .unknownSymbol name)
  | some s =>
    if !always && s.isProtected then throw (.about .readOnly name)
    else return a.put id (t.forget name)

/-- The address of the visible definition of a name. -/
def addressOf (start : TableId) (name : String) : Except Fault Pointer :=
  match a.resolve start name with
  | some (id, s) => .ok ⟨id, s.slot⟩
  | none => .error (.about .unknownSymbol name)

/-- Reads through an address. -/
def deref (p : Pointer) : Except Fault Value :=
  match a.table? p.table >>= (·.value? p.slot) with
  | some v => .ok v
  | none => .error (.bare .nilPointerReference)

/-- Writes through an address. -/
def storeVia (p : Pointer) (v : Value) : Except Fault Arena :=
  match a.table? p.table with
  | some t =>
    if p.slot < t.size then .ok (a.put p.table (t.writeSlot p.slot v))
    else .error (.bare .nilPointerReference)
  | none => .error (.bare .nilPointerReference)

/-- The names and values of a table, by name in ascending order. -/
def localSymbols (id : TableId) : List (String × Value) :=
  match a.table? id with
  | some t => t.sorted.map fun (s, v) => (s.name, v)
  | none => []

def setBoundary (id : TableId) (boundary : Bool) : Except Fault Arena :=
  a.update id fun t => { t with boundary }

def setShared (id : TableId) (shared : Bool) : Except Fault Arena :=
  a.update id fun t => { t with shared }

def setPackage (id : TableId) (package : String) : Except Fault Arena :=
  a.update id fun t => { t with package }

/-- The package whose functions run in a scope; empty for a stale handle. -/
def packageOf (id : TableId) : String := ((a.table? id).map (·.package)).getD ""

/-- The walk to the scope outside the nearest boundary, over at most `steps` tables. -/
def walkOut : Nat → TableId → TableId
  | 0, _ => .root
  | steps + 1, id =>
    match a.table? id with
    | none => .root
    | some t =>
      if t.boundary then
        match t.parent with
        | some p => if a.contains p then p else .root
        | none => .root
      else
        match t.parent with
        | some p => walkOut steps p
        | none => .root

/-- The scope just outside the function that a table belongs to. -/
def nextScope (id : TableId) : TableId := a.walkOut (a.places.size + 1) id

/-- A sibling of a table with the same symbols, under another name. -/
def clone (id : TableId) (name : String) : Except Fault (TableId × Arena) := do
  let t ← a.table id
  let copy : Table :=
    { name, parent := t.parent, boundary := t.boundary, shared := t.shared, package := t.package }
  let bind (c : Table) (s : Symbol) : Table :=
    (c.store s.name ((t.value? s.slot).getD .null)).mark s.name fun u =>
      { u with readonly := s.readonly, constant := s.constant }
  return a.insert (t.symbols.foldl bind copy)

/-- The number of live tables. -/
def count : Nat := a.places.foldl (fun n p => if p.table.isSome then n + 1 else n) 0

theorem table?_initial_root :
    initial.table? .root =
      some { name := "Root", parent := none, shared := true, isRoot := true } := by
  rfl

/-- A live handle finds what was put in its place. -/
theorem table?_put_self {a : Arena} {id : TableId} {t u : Table} (h : a.table? id = some u) :
    (a.put id t).table? id = some t := by
  unfold table? at h
  split at h
  · rename_i p hp
    split at h
    · rename_i hg
      simp [table?, put, Array.getElem?_modify, hp, hg]
    · simp at h
  · simp at h

/-- Other places are left alone. -/
theorem table?_put_ne (a : Arena) {id other : TableId} (h : other.index ≠ id.index) (t : Table) :
    (a.put id t).table? other = a.table? other := by
  simp [table?, put, Array.getElem?_modify, h.symm]

/-- The root cannot be removed. -/
theorem remove_root (a : Arena) : a.remove .root = a := by
  simp [remove]

end Arena

end ScriptMachine
