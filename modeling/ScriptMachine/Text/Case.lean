import ScriptMachine.Text.Blank
import ScriptMachine.Text.CaseTable

/-!
# Letter case

Upper and lower case of texts by the full case mappings, and the rule for exported names.

* `upperText`, `lowerText`: case conversion; a capital sigma at the end of a word becomes the
  final form.
* `isExported`: a name is exported when its first character is uppercase.
-/

namespace ScriptMachine

/-- Whether a character has the Uppercase property. -/
def isUppercase (c : Char) : Bool :=
  if c.toNat < 0x80 then c.isUpper else inRanges CaseTable.uppercase c

/-- The image of a character under the first mapping run that holds it. -/
def mapRun (runs : List (Nat × Nat × Nat × Nat)) (c : Char) : Char :=
  match runs.find? fun (first, last, step, _) =>
    first ≤ c.toNat && c.toNat ≤ last && (c.toNat - first) % step == 0 with
  | some (first, _, _, target) => Char.ofNat (target + (c.toNat - first))
  | none => c

/-- The uppercase form of a character. -/
def upperChar (c : Char) : List Char :=
  if c.toNat < 0x80 then [c.toUpper]
  else
    match CaseTable.toUpperMany.lookup c.toNat with
    | some cs => cs.map Char.ofNat
    | none => [mapRun CaseTable.toUpper c]

/-- The lowercase form of a character; capital I with a dot keeps the dot. -/
def lowerChar (c : Char) : List Char :=
  if c.toNat < 0x80 then [c.toLower]
  else if c == 'İ' then ['i', Char.ofNat 0x307]
  else [mapRun CaseTable.toLower c]

def isIgnorable (c : Char) : Bool := inRanges CaseTable.ignorable c

/-- Whether a character counts as a letter next to a sigma. -/
def isCased (c : Char) : Bool :=
  if c.toNat < 0x80 then c.isAlpha else inRanges CaseTable.cased c

/-- Whether the nearest character that is not ignored is a letter. -/
def facesLetter (cs : List Char) : Bool :=
  match cs.dropWhile isIgnorable with
  | [] => false
  | c :: _ => isCased c

/-- Lowers a text from left to right; `before` holds the characters already passed, last first. -/
def lowerChars (before : List Char) : List Char → List Char
  | [] => []
  | c :: rest =>
    let image :=
      if c == 'Σ' then if facesLetter before && !facesLetter rest then ['ς'] else ['σ']
      else lowerChar c
    image ++ lowerChars (c :: before) rest

def upperText (s : String) : String := String.ofList (s.toList.flatMap upperChar)

def lowerText (s : String) : String := String.ofList (lowerChars [] s.toList)

/-- Whether a name starts with an uppercase character. -/
def isExported (name : String) : Bool :=
  match name.toList with
  | [] => false
  | c :: _ => isUppercase c

end ScriptMachine
