import ScriptMachine.Assoc
import ScriptMachine.Settings
import ScriptMachine.Settings.Lexeme

/-!
# Settings documents

Reading settings from a TOML document. Tables are flattened: the key of a setting is the path of
names that leads to it, with points between them.

* `Node`: what a name in a document is bound to.
* `descend`: goes down a path of names, making tables on the way.
* `Outline`: the tables of a document while it is read, line by line.
* `Settings.ofDocument?`: the settings of a document; none if it is malformed or binds a name twice.
-/

namespace ScriptMachine

/-- How a table came about. -/
structure TableForm where
  /-- Written between braces; nothing can be added later. -/
  isInline : Bool := false
  /-- Only mentioned so far, by a longer path. -/
  isImplicit : Bool := false
  /-- Mentioned by the path of an entry, not of a header. -/
  isDotted : Bool := false
deriving DecidableEq, Inhabited

/-- What a name in a document is bound to. -/
inductive Node
  | text (s : String)
  | table (form : TableForm) (items : List (String × Node))
  /-- A list of tables, of which only the last can still change. -/
  | tables (last : List (String × Node))
deriving Inhabited

/-- The entries of a table, in order of their appearance. -/
abbrev Entries := List (String × Node)

namespace Node

/-- Goes down a path from a table and changes the table there; tables that are missing get the form
`fresh`. Entries cannot go through a table that a header defined, and nothing can go through a
value. -/
def descend (fresh : TableForm) (change : TableForm → Entries → Option Entries) :
    List String → TableForm → Entries → Option Entries
  | [], form, entries => change form entries
  | name :: path, _, entries =>
    match entries.lookup name with
    | none => (descend fresh change path fresh []).map fun child =>
      entries ++ [(name, .table fresh child)]
    | some (.table form child) =>
      if form.isInline != fresh.isInline || (fresh.isDotted && !form.isImplicit) then none
      else (descend fresh change path form child).map fun child =>
        Assoc.insert name (.table form child) entries
    | some (.tables last) => (descend fresh change path {} last).map fun last =>
      Assoc.insert name (.tables last) entries
    | some (.text _) => none

/-- Binds a name that is not bound yet. -/
def bindNew (name : String) (node : Node) (entries : Entries) : Option Entries :=
  if Assoc.contains name entries then none else some (entries ++ [(name, node)])

/-- Adds an entry to a table. Its path leads through tables that paths of entries made. -/
def addEntry (isInline : Bool) (path : List String) (node : Node) (entries : Entries) :
    Option Entries :=
  match path.getLast? with
  | none => none
  | some name =>
    let parents := path.dropLast
    let add (form : TableForm) (entries : Entries) : Option Entries :=
      if form.isDotted == parents.isEmpty then none else bindNew name node entries
    descend ⟨isInline, true, true⟩ add parents {} entries

mutual

/-- The settings of a node, under the path that leads to it. -/
def flatten (path : String) : Node → List (String × String)
  | .text s => [(path, s)]
  | .table _ items => flattenAll path items
  | .tables _ => []

/-- The settings of the entries of a table. -/
def flattenAll (path : String) : List (String × Node) → List (String × String)
  | [] => []
  | (name, node) :: rest =>
    flatten (if path.isEmpty then name else path ++ "." ++ name) node ++ flattenAll path rest

end

end Node

/-! ### Values -/

/-- The text of a value as it is written, with line ends normalised. -/
def writtenText (cs : List Char) : String := trimBlank (String.ofList (cs.filter (· != '\r')))

/-- The node of a value; a value without a node of its own stands for its written text. -/
def nodeOf (node : Option Node) (written : List Char) : Node :=
  node.getD (.text (writtenText written))

namespace Reader

mutual

/-- A value; numbers, dates, booleans and arrays have no node of their own. -/
def value (depth : Nat) : Nat → Reader (Option Node)
  | 0 => failure
  | steps + 1 => do
    match ← next?, depth with
    | some '"', _ | some '\'', _ => return some (.text (← string))
    | some '[', depth + 1 => do
      char '['
      elements depth steps
      return none
    | some '\x7b', depth + 1 => do
      char '\x7b'
      gap
      let entries ←
        if (← next?) == some '\x7d' then pure [] else inlineEntries depth [] steps
      char '\x7d'
      return some (.table { isInline := true } entries)
    | _, _ => do
      plain
      return none

/-- The elements of an array and its closing bracket. -/
def elements (depth : Nat) : Nat → Reader Unit
  | 0 => failure
  | steps + 1 => do
    filler
    if (← next?) == some ']' then char ']'
    else
      discard (value depth steps)
      filler
      if (← next?) == some ',' then
        char ','
        elements depth steps
      else char ']'

/-- The entries of an inline table, added to those before them. -/
def inlineEntries (depth : Nat) (entries : Entries) : Nat → Reader Entries
  | 0 => failure
  | steps + 1 => do
    let names ← path
    char '='
    gap
    let (node, written) ← withText (value depth steps)
    gap
    let entries ← Node.addEntry true names (nodeOf node written) entries
    if (← next?) == some ',' then
      char ','
      inlineEntries depth entries steps
    else return entries

end

end Reader

/-! ### Documents -/

/-- The tables of a document so far; the one under the last header is kept apart. -/
structure Outline where
  root : Entries := []
  current : Entries := []
  /-- The path of the last header; empty before the first one. -/
  header : List String := []
  isList : Bool := false
deriving Inhabited

namespace Outline

/-- The form of tables that the path of a header makes. -/
def mentioned : TableForm := { isImplicit := true }

/-- Puts a table, or the next table of a list, under its name. -/
def settle (name : String) (isList : Bool) (table entries : Entries) : Option Entries :=
  match entries.lookup name, isList with
  | none, true | some (.tables _), true => some (Assoc.insert name (.tables table) entries)
  | none, false => some (entries ++ [(name, .table {} table)])
  | _, _ => none

/-- Puts the table under the last header into its place. -/
def close (o : Outline) : Option Outline :=
  match o.header.getLast? with
  | none => some { root := o.current }
  | some name =>
    let change (_ : TableForm) (entries : Entries) : Option Entries :=
      settle name o.isList o.current entries
    (Node.descend mentioned change o.header.dropLast {} o.root).map fun root => { root }

/-- Makes room for a table that a header defines; one that was only mentioned goes on. -/
def reserve (name : String) (isList : Bool) (entries : Entries) : Option Entries :=
  match entries.lookup name, isList with
  | none, true => some (entries ++ [(name, .tables [])])
  | none, false => some entries
  | some (.tables _), true => some entries
  | some (.table form _), false =>
    if form = mentioned then some (Assoc.erase name entries) else none
  | _, _ => none

/-- The entries of a table that was only mentioned so far. -/
def mentionedEntries (path : List String) (entries : Entries) : Entries :=
  match path with
  | [] => entries
  | name :: path =>
    match entries.lookup name with
    | some (.table _ child) => mentionedEntries path child
    | some (.tables last) => if path.isEmpty then [] else mentionedEntries path last
    | _ => []

/-- Begins the table of a header. -/
def openTable (o : Outline) (header : List String) (isList : Bool) : Option Outline := do
  let o ← o.close
  let name ← header.getLast?
  let current := if isList then [] else mentionedEntries header o.root
  let change (_ : TableForm) (entries : Entries) : Option Entries := reserve name isList entries
  let root ← Node.descend mentioned change header.dropLast {} o.root
  return { root, current, header, isList }

/-- Adds an entry to the table under the last header. -/
def add (o : Outline) (path : List String) (node : Node) : Option Outline :=
  (Node.addEntry false path node o.current).map fun current => { o with current }

end Outline

namespace Reader

/-- A header in single or double brackets. -/
def header : Reader (List String × Bool) := do
  char '['
  let isList := (← next?) == some '['
  if isList then char '['
  let names ← path
  char ']'
  if isList then char ']'
  return (names, isList)

/-- A name, a value and the rest of their line. -/
def entry : Reader (List String × Node) := do
  let names ← path
  char '='
  gap
  let (node, written) ← withText do
    let node ← value depthLimit (2 * (← budget))
    trailing
    return node
  return (names, nodeOf node written)

/-- The lines of a document, at most `steps` of them. -/
def lines (o : Outline) : Nat → Reader Outline
  | 0 => return o
  | steps + 1 => do
    gap
    match ← next? with
    | none => return o
    | some '[' => do
      let (names, isList) ← header
      trailing
      lineEnd
      lines (← o.openTable names isList) steps
    | some c =>
      if c == '#' || c == '\n' || c == '\r' then
        trailing
        lineEnd
        lines o steps
      else
        let (names, node) ← entry
        lineEnd
        lines (← o.add names node) steps

/-- The settings of a document, in order. -/
def document : Reader (List (String × String)) := do
  discard (maybe (char '\ufeff'))
  let o ← lines {} (← budget)
  let o ← o.close
  return Node.flattenAll "" o.root

end Reader

/-- The settings of a document; none if it is malformed or binds a name twice. -/
def Settings.ofDocument? (text : String) : Option Settings :=
  (Reader.document.run' text.toList).map fun entries =>
    entries.foldl (fun s e => s.insert e.1 e.2) {}

end ScriptMachine
