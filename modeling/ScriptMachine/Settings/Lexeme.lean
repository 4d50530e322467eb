import ScriptMachine.Numeric.Notation

/-!
# Lexemes of settings documents

Settings documents are written in TOML. This module reads its smallest parts.

* `Reader`: readers of a list of characters, which fail or leave the rest.
* `Reader.key`: a name, quoted or bare.
* `Reader.string`: the four forms of strings.
* `Reader.plain`: numbers, dates and booleans, which are kept as they are written.
-/

namespace ScriptMachine

/-- Readers of characters; a choice takes up the text where its first branch began. -/
abbrev Reader := StateT (List Char) Option

namespace Reader

/-! ### Characters -/

/-- Reads a character that satisfies `p`. -/
def one (p : Char → Bool) : Reader Char := do
  match ← get with
  | [] => failure
  | c :: rest => do
    set rest
    if p c then return c else failure

def char (c : Char) : Reader Unit := discard (one (· == c))

def word (s : String) : Reader Unit := s.toList.forM char

/-- Reads characters as long as they satisfy `p`. -/
def span (p : Char → Bool) : Reader (List Char) :=
  modifyGet fun cs => (cs.takeWhile p, cs.dropWhile p)

/-- Reads `count` characters that satisfy `p`. -/
def times (count : Nat) (p : Char → Bool) : Reader (List Char) :=
  (List.replicate count ()).mapM fun () => one p

def maybe {α : Type} (r : Reader α) : Reader (Option α) := (some <$> r) <|> pure none

/-- The next character, which is not taken. -/
def next? : Reader (Option Char) := return (← get).head?

/-- A reader together with the characters that it took. -/
def withText {α : Type} (r : Reader α) : Reader (α × List Char) := do
  let before ← get
  let a ← r
  let after ← get
  return (a, before.take (before.length - after.length))

/-- A count of steps that no reader of the rest can exceed. -/
def budget : Reader Nat := return (← get).length + 1

/-! ### Lines -/

def isGap (c : Char) : Bool := c == ' ' || c == '\t'

/-- Whether a character may stand in comments and strings. -/
def isPrintable (c : Char) : Bool :=
  c == '\t' || (' ' ≤ c && c ≤ '~') || 0x80 ≤ c.toNat

def gap : Reader Unit := discard (span isGap)

def newline : Reader Unit := char '\n' <|> word "\r\n"

def comment : Reader Unit := do
  char '#'
  discard (span isPrintable)

/-- The end of a line or of the text. -/
def lineEnd : Reader Unit := do
  if (← get).isEmpty then return else newline

/-- Blanks and a comment, as they may follow on a line. -/
def trailing : Reader Unit := do
  gap
  discard (maybe comment)

/-- Blanks, line ends and comments, at most `steps` of them. -/
def fillerWithin : Nat → Reader Unit
  | 0 => return
  | steps + 1 => do
    match ← next? with
    | some '#' => do
      comment
      fillerWithin steps
    | some c =>
      if isGap c then
        gap
        fillerWithin steps
      else if c == '\n' || c == '\r' then
        newline
        fillerWithin steps
      else return
    | none => return

def filler : Reader Unit := do fillerWithin (← budget)

/-! ### Strings -/

def hexValue (c : Char) : Nat :=
  if c.isDigit then c.toNat - '0'.toNat else c.toLower.toNat - 'a'.toNat + 10

def isHex (c : Char) : Bool := c.isDigit || ('a' ≤ c.toLower && c.toLower ≤ 'f')

/-- A character by its number, in `count` hexadecimal digits. -/
def numbered (count : Nat) : Reader Char := do
  let digits ← times count isHex
  let n := digits.foldl (fun n c => 16 * n + hexValue c) 0
  if n.isValidChar then return Char.ofNat n else failure

/-- The character that an escape stands for, after its backslash. -/
def escape : Reader Char := do
  match ← one fun _ => true with
  | 'b' => return '\x08'
  | 't' => return '\t'
  | 'n' => return '\n'
  | 'f' => return '\x0c'
  | 'r' => return '\r'
  | '"' => return '"'
  | '\\' => return '\\'
  | 'u' => numbered 4
  | 'U' => numbered 8
  | _ => failure

/-- The rest of a string in double quotes. -/
def basicBody : Nat → Reader (List Char)
  | 0 => failure
  | steps + 1 => do
    match ← one isPrintable with
    | '"' => return []
    | '\\' => do
      let c ← escape
      return c :: (← basicBody steps)
    | c => return c :: (← basicBody steps)

def basic : Reader String := do
  char '"'
  return String.ofList (← basicBody (← budget))

def literal : Reader String := do
  char '\''
  let body ← span fun c => isPrintable c && c != '\''
  char '\''
  return String.ofList body

/-- A text without the blanks and line ends at its start. -/
def dropBlankLines : List Char → List Char
  | '\r' :: '\n' :: rest => dropBlankLines rest
  | c :: rest => if isGap c || c == '\n' then dropBlankLines rest else c :: rest
  | [] => []

/-- A line end after a backslash, with all blanks that follow. -/
def continuation : Reader Unit := do
  gap
  newline
  modify dropBlankLines

/-- The rest of a string over several lines, up to three quotes and at most two more. -/
def multilineBody (quote : Char) : Nat → Reader (List Char)
  | 0 => failure
  | steps + 1 => do
    match ← next? with
    | none => failure
    | some c =>
      if c == quote then
        let quotes ← span (· == quote)
        if quotes.length < 3 then return quotes ++ (← multilineBody quote steps)
        else if quotes.length ≤ 5 then return quotes.drop 3
        else failure
      else if c == '\\' && quote == '"' then
        char '\\'
        let part ← (do continuation; return []) <|> (do return [← escape])
        return part ++ (← multilineBody quote steps)
      else if c == '\n' || c == '\r' then
        newline
        return '\n' :: (← multilineBody quote steps)
      else
        let c ← one isPrintable
        return c :: (← multilineBody quote steps)

def multiline (quote : Char) : Reader String := do
  word (String.ofList [quote, quote, quote])
  discard (maybe newline)
  return String.ofList (← multilineBody quote (← budget))

def string : Reader String := multiline '"' <|> basic <|> multiline '\'' <|> literal

/-! ### Keys -/

def isBare (c : Char) : Bool := c.isAlphanum || c == '_' || c == '-'

/-- A name, quoted or bare. -/
def key : Reader String := do
  match ← next? with
  | some '"' => basic
  | some '\'' => literal
  | _ => do
    let name ← span isBare
    if name.isEmpty then failure else return String.ofList name

/-- How deep values and keys may nest. -/
def depthLimit : Nat := 79

/-- Names with points between them, at most `limit` of them. -/
def pathWithin : Nat → Reader (List String)
  | 0 => failure
  | limit + 1 => do
    gap
    let name ← key
    gap
    if (← next?) == some '.' then
      char '.'
      return name :: (← pathWithin limit)
    else return [name]

def path : Reader (List String) := pathWithin depthLimit

/-! ### Numbers -/

/-- The digits after the first one; underscores may stand between digits. -/
def digitsAfter (p : Char → Bool) : List Char → Option (List Char × List Char)
  | '_' :: c :: rest => if p c then (digitsAfter p rest).map fun r => (c :: r.1, r.2) else none
  | c :: rest =>
    if p c then (digitsAfter p rest).map fun r => (c :: r.1, r.2) else some ([], c :: rest)
  | [] => some ([], [])

/-- A run of digits, without its underscores. -/
def digits (p : Char → Bool) : Reader (List Char) := do
  let first ← one p
  let more ← digitsAfter p
  return first :: more

def sign : Reader (List Char) := return ((← maybe (one fun c => c == '+' || c == '-')).toList)

/-- A decimal integer; only zero itself begins with a zero. -/
def decimal : Reader (List Char) := do
  let s ← sign
  if (← next?) == some '0' then
    char '0'
    return s ++ ['0']
  else return s ++ (← digits Char.isDigit)

def exponent : Reader (List Char) := do
  let e ← one fun c => c == 'e' || c == 'E'
  let s ← sign
  return e :: s ++ (← digits Char.isDigit)

def fraction : Reader (List Char) := do
  char '.'
  let ds ← digits Char.isDigit
  return '.' :: ds ++ ((← maybe exponent).getD [])

/-- A number with a fraction or an exponent, within the range of floating-point numbers. -/
def float : Reader Unit := do
  let whole ← decimal
  let rest ← fraction <|> exponent
  match readBinary64? (String.ofList (whole ++ rest)) with
  | some x => if x == Binary64.ofWord Format.double.infinity then failure else return
  | none => failure

def specialFloat : Reader Unit := do
  discard sign
  word "inf" <|> word "nan"

/-- An integer in a base given by a mark, within 64 bits. -/
def based (mark : String) (base : Nat) (p : Char → Bool) : Reader Unit := do
  word mark
  let ds ← digits p
  if ds.foldl (fun n c => base * n + hexValue c) 0 < 0x8000000000000000 then return else failure

def integer : Reader Unit :=
  based "0x" 16 isHex <|>
  based "0o" 8 (fun c => '0' ≤ c && c ≤ '7') <|>
  based "0b" 2 (fun c => c == '0' || c == '1') <|>
  (do
    let text ← decimal
    if (readInt64? (String.ofList text)).isSome then return else failure)

/-! ### Dates -/

/-- A number of `count` digits between two bounds. -/
def numberIn (count least most : Nat) : Reader Nat := do
  let n := digitsValue 0 (← times count Char.isDigit)
  if least ≤ n ∧ n ≤ most then return n else failure

def isLeapYear (year : Nat) : Bool := year % 4 == 0 && (year % 100 != 0 || year % 400 == 0)

def daysIn (year month : Nat) : Nat :=
  if month = 2 then (if isLeapYear year then 29 else 28)
  else if month = 4 ∨ month = 6 ∨ month = 9 ∨ month = 11 then 30
  else 31

def date : Reader Unit := do
  let year ← numberIn 4 0 9999
  char '-'
  let month ← numberIn 2 1 12
  char '-'
  discard (numberIn 2 1 (daysIn year month))

def hourAndMinute : Reader Unit := do
  discard (numberIn 2 0 23)
  char ':'
  discard (numberIn 2 0 59)

def time : Reader Unit := do
  hourAndMinute
  char ':'
  discard (numberIn 2 0 60)
  discard (maybe do
    char '.'
    discard (one Char.isDigit)
    discard (span Char.isDigit))

def offset : Reader Unit :=
  discard (one fun c => c == 'Z' || c == 'z') <|> (do
    discard (one fun c => c == '+' || c == '-')
    hourAndMinute)

def dateTime : Reader Unit :=
  (do
    date
    discard (maybe do
      discard (one fun c => c == 'T' || c == 't' || c == ' ')
      time
      discard (maybe offset))) <|> time

/-- A number, a date or a boolean. -/
def plain : Reader Unit :=
  word "true" <|> word "false" <|> dateTime <|> float <|> specialFloat <|> integer

end Reader

end ScriptMachine
