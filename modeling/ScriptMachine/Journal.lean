import ScriptMachine.Text.Blank

/-!
# The journal

Events are written under a category, and most writers look first whether the category is active.

* `Category`: the categories, with the target and the level of their events.
* `Journal`: the active categories and the events so far.
* `Journal.note` writes when the category is active, `Journal.emit` always.
-/

namespace ScriptMachine

/-- The categories of events. -/
inductive Category
  | app
  | byteCode
  | symbol
  | trace
  | optimizer
  | rest
  | db
  | server
  | user
deriving DecidableEq, Inhabited

namespace Category

/-- The name of a category. -/
def name : Category → String
  | .app => "App"
  | .byteCode => "ByteCode"
  | .symbol => "Symbol"
  | .trace => "Trace"
  | .optimizer => "Optimizer"
  | .rest => "Rest"
  | .db => "Db"
  | .server => "Server"
  | .user => "User"

/-- The target its events are written to. -/
def target : Category → String
  | .app => "ego::app"
  | .byteCode => "ego::bytecode"
  | .symbol => "ego::symbol"
  | .trace => "ego::trace"
  | .optimizer => "ego::optimizer"
  | .rest => "ego::rest"
  | .db => "ego::db"
  | .server => "ego::server"
  | .user => "ego::user"

/-- The level of its events. -/
def level : Category → String
  | .app | .byteCode | .symbol | .optimizer => "DEBUG"
  | .trace => "TRACE"
  | .rest | .db | .server | .user => "INFO"

/-- Every category. -/
def all : List Category :=
  [.app, .byteCode, .symbol, .trace, .optimizer, .rest, .db, .server, .user]

/-- The category of a name, in any mix of ASCII case. -/
def ofName? (s : String) : Option Category :=
  all.find? fun c => lowerAscii c.name == lowerAscii s

end Category

/-- A message under a category. -/
structure Event where
  category : Category
  message : String
deriving DecidableEq, Inhabited

/-- The active categories and the events so far, in order. -/
structure Journal where
  active : List Category := []
  events : Array Event := #[]
deriving Inhabited

namespace Journal

def isActive (j : Journal) (c : Category) : Bool := j.active.contains c

/-- Writes an event, active or not. -/
def emit (j : Journal) (c : Category) (message : String) : Journal :=
  { j with events := j.events.push ⟨c, message⟩ }

/-- Writes an event when its category is active. -/
def note (j : Journal) (c : Category) (message : Unit → String) : Journal :=
  if j.isActive c then j.emit c (message ()) else j

/-- Switches a category on or off. -/
def setActive (j : Journal) (c : Category) (on : Bool) : Journal :=
  let others := j.active.filter (· != c)
  { j with active := if on then c :: others else others }

theorem note_of_not_isActive {j : Journal} {c : Category} {message : Unit → String}
    (h : j.isActive c = false) : j.note c message = j := by
  simp [note, h]

end Journal

end ScriptMachine
