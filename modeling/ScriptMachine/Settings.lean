import ScriptMachine.Text.Blank

/-!
# Settings

Named texts that configure a run.

* `Settings`: a text for each key; a later binding replaces an earlier one.
* `Settings.flag`: the yes-or-no reading of a text.
* The keys that the machine reads.
-/

namespace ScriptMachine

/-- A text for each key. -/
structure Settings where
  entries : List (String × String) := []
deriving Inhabited

namespace Settings

def get? (s : Settings) (key : String) : Option String := s.entries.lookup key

/-- Binds a key; an earlier binding of the key is dropped. -/
def insert (s : Settings) (key text : String) : Settings :=
  ⟨(key, text) :: s.entries.filter (·.1 != key)⟩

/-- `true`, `1` and `yes` mean yes, `false`, `0` and `no` mean no, all else means `default`. -/
def flag (s : Settings) (key : String) (default : Bool) : Bool :=
  match (s.get? key).map fun text => lowerAscii (trimBlank text) with
  | some text =>
    if text == "true" || text == "1" || text == "yes" then true
    else if text == "false" || text == "0" || text == "no" then false
    else default
  | none => default

/-- Faults of library functions are raised; otherwise they are pushed as values. -/
def uncheckedErrors : String := "ego.runtime.unchecked.errors"

/-- Uncaught faults are journalled with the active frames. -/
def stackTrace : String := "ego.runtime.stack.trace"

/-- Static typing is on from the start. -/
def staticTypes : String := "ego.compiler.static.types"

/-- Panics pass every handler. -/
def panics : String := "ego.runtime.panics"

/-- Language extensions are on. -/
def extensions : String := "ego.compiler.extensions"

/-- Function scopes see the symbols of their callers. -/
def symbolScope : String := "ego.runtime.symbol.scope"

theorem get?_insert_self (s : Settings) (key text : String) :
    (s.insert key text).get? key = some text := by
  simp [get?, insert]

end Settings

end ScriptMachine
