import ScriptMachine.Heap.Display
import ScriptMachine.Numeric.Notation

/-!
# JSON rendering

* `Json`: documents; the members of an object keep the order of insertion.
* `Heap.toJson`: the document of a value.
* `Json.text`: the text of a document, without blanks.
-/

namespace ScriptMachine

/-- JSON documents; a number is held as its text. -/
inductive Json
  | null
  | bool (b : Bool)
  | number (text : String)
  | string (s : String)
  | array (items : List Json)
  | object (members : List (String × Json))
deriving Inhabited

namespace Json

mutual

/-- The text of a document. -/
def text : Json → String
  | .null => "null"
  | .bool b => if b then "true" else "false"
  | .number t => t
  | .string s => jsonQuoted s
  | .array items => "[" ++ ",".intercalate (itemTexts items) ++ "]"
  | .object members => "\x7b" ++ ",".intercalate (memberTexts members) ++ "\x7d"

/-- The texts of the items of an array. -/
def itemTexts : List Json → List String
  | [] => []
  | j :: rest => j.text :: itemTexts rest

/-- The texts of the members of an object. -/
def memberTexts : List (String × Json) → List String
  | [] => []
  | (name, j) :: rest => (jsonQuoted name ++ ":" ++ j.text) :: memberTexts rest

end

/-- A floating-point number; infinities and not-a-number become null. -/
def ofBinary64 (x : Binary64) : Json :=
  match x.json? with
  | some t => .number t
  | none => .null

end Json

namespace Heap

variable (h : Heap)

/-- The document of a value without parts; what is no data renders as its display text. -/
def plainJson (v : Value) : Json :=
  match v with
  | .null => .null
  | .bool b => .bool b
  | .byte .. | .int32 .. | .int .. | .int64 .. => .number v.scalarText
  | .float32 x => .ofBinary64 x.toBinary64
  | .float64 x => .ofBinary64 x
  | .string s => .string s
  | v => .string (h.display v)

/-- The document of a value that nests at most `depth` containers. -/
def jsonWithin : Nat → Value → Json
  | 0, v => h.plainJson v.unwrapped
  | depth + 1, v =>
    match v.unwrapped with
    | .array r => .array ((h.array r).values.toList.map (jsonWithin depth))
    | .map r =>
      let m := h.map r
      .object (Assoc.insertAll (m.keys.map fun k =>
        (h.display k, jsonWithin depth (m.getOrNull k))))
    | .struct r =>
      .object (Assoc.insertAll ((h.struct r).visible.map fun p => (p.1, jsonWithin depth p.2)))
    | u => h.plainJson u

/-- The document of a value. -/
def toJson (v : Value) : Json := h.jsonWithin h.depth v

end Heap

end ScriptMachine
