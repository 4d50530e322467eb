import ScriptMachine.Numeric.Binary
import ScriptMachine.Text.Blank

/-!
# Number text

How numbers are read and written. The numerals that text conversions accept are read after trimming
blanks. A finite word stands for all reals that round to it; it is written by the fewest decimal digits
that name one of them, and of those the nearest to the word's own value.

* `readInt64?`: an optional sign and ASCII digits, within 64 bits.
* `readBinary64?`: decimal numerals with optional fraction and exponent, `inf`, `infinity` and
  `nan`; the result is the nearest word.
* `Reals`: the interval of reals that round to a word, in units of a common power of two.
* `Format.shortest`: the digits and the exponent of ten of a word.
* `Notation`: the choices of a number format.
* `display`: the text of a program's own output, always positional.
* `json`: the text of JSON documents, with an exponent outside `10 ^ -5 .. 10 ^ 16`.
-/

namespace ScriptMachine

/-! ### Reading -/

/-- A leading sign, and what follows it. -/
def splitSign : List Char → Bool × List Char
  | '-' :: cs => (true, cs)
  | '+' :: cs => (false, cs)
  | cs => (false, cs)

/-- The value of a run of ASCII digits, continuing from `acc`. -/
def digitsValue (acc : Nat) (cs : List Char) : Nat :=
  cs.foldl (fun n c => 10 * n + (c.toNat - '0'.toNat)) acc

/-- The leading ASCII digits, and what follows them. -/
def spanDigits (cs : List Char) : List Char × List Char :=
  (cs.takeWhile Char.isDigit, cs.dropWhile Char.isDigit)

/-- Reads an integer of 64 bits. -/
def readInt64? (s : String) : Option Int64 :=
  let (neg, cs) := splitSign s.toList
  if cs.isEmpty || !cs.all Char.isDigit then none
  else
    let n : Int := digitsValue 0 cs
    let i := if neg then -n else n
    if Int64.minValue.toInt ≤ i && i ≤ Int64.maxValue.toInt then some (Int64.ofInt i) else none

/-- The exponent part of a numeral: nothing, or `e` with a signed run of digits. -/
def readExponent? : List Char → Option Int
  | [] => some 0
  | c :: cs =>
    let (neg, ds) := splitSign cs
    if (c == 'e' || c == 'E') && !ds.isEmpty && ds.all Char.isDigit then
      let n : Int := digitsValue 0 ds
      some (if neg then -n else n)
    else none

/-- The fraction digits after a point, if there is one, and what follows. -/
def splitFraction : List Char → List Char × List Char
  | '.' :: cs => spanDigits cs
  | cs => ([], cs)

/-- The magnitude bits of the word nearest to `digits * 10 ^ exponent`. -/
def nearestDecimal (digits : Nat) (exponent : Int) : Nat :=
  if digits = 0 then 0
  else
    let size : Int := (Nat.toDigits 10 digits).length + exponent
    if 310 < size then Format.double.infinity
    else if size < -330 then 0
    else if 0 ≤ exponent then Format.double.roundRatio (digits * Nat.pow 10 exponent.toNat) 1
    else Format.double.roundRatio digits (Nat.pow 10 (-exponent).toNat)

/-- Reads a decimal numeral without its sign. -/
def readMagnitude? (cs : List Char) : Option Nat :=
  let (whole, rest) := spanDigits cs
  let (fraction, rest) := splitFraction rest
  if whole.isEmpty && fraction.isEmpty then none
  else
    (readExponent? rest).map fun e =>
      nearestDecimal (digitsValue (digitsValue 0 whole) fraction) (e - fraction.length)

/-- Reads a floating-point number. -/
def readBinary64? (s : String) : Option Binary64 :=
  let (neg, cs) := splitSign s.toList
  let lower := String.ofList (cs.map Char.toLower)
  let magnitude? :=
    if lower == "inf" || lower == "infinity" then some Format.double.infinity
    else if lower == "nan" then some Binary64.quietNaN.word
    else readMagnitude? cs
  magnitude?.map fun m => .ofWord (Format.double.withSign neg m)

/-! ### Shortest decimals -/

/-- The reals that round to a word: fractions with denominator `den`, ends included iff `closed`. -/
structure Reals where
  low : Nat
  mid : Nat
  high : Nat
  den : Nat
  closed : Bool

namespace Reals

/-- Whether the fraction `n / d` lies in the interval. -/
def contains (r : Reals) (n d : Nat) : Bool :=
  if r.closed then r.low * d ≤ n * r.den && n * r.den ≤ r.high * d
  else r.low * d < n * r.den && n * r.den < r.high * d

end Reals

namespace Format

variable (f : Format)

/-- The interval of a word: half a unit to each side, a quarter below a power of two. -/
def reals (bits : Nat) : Reals :=
  let (m, e) := f.significand bits
  let narrow := m = Nat.pow 2 f.fractionBits ∧ f.minExponent < e
  let (unit, den) := scaleByTwo 1 1 (e - 2)
  { low := (4 * m - if narrow then 1 else 2) * unit
    mid := 4 * m * unit
    high := (4 * m + 2) * unit
    den := den
    closed := m % 2 == 0 }

end Format

/-- A fraction multiplied by a power of ten, as numerator and denominator. -/
def scaleByTen (num den : Nat) (k : Int) : Nat × Nat :=
  if 0 ≤ k then (num * Nat.pow 10 k.toNat, den) else (num, den * Nat.pow 10 (-k).toNat)

/-- The exponent of the leading decimal digit of a positive fraction. -/
def leadingExponent (num den : Nat) : Int :=
  let rough := ((num.log2 : Int) - den.log2) * 30103 / 100000
  let reaches (k : Int) : Bool :=
    let (n, d) := scaleByTen num den (-k)
    d ≤ n
  if reaches (rough + 1) then rough + 1 else if reaches rough then rough else rough - 1

/-- A decimal numeral: `digits * 10 ^ exponent`. -/
structure Decimal where
  digits : Nat
  exponent : Int
deriving DecidableEq, Inhabited

namespace Decimal

/-- Removes trailing zeros, at most `fuel` of them. -/
def strip : Nat → Decimal → Decimal
  | 0, x => x
  | fuel + 1, x =>
    if x.digits ≠ 0 ∧ x.digits % 10 = 0 then strip fuel ⟨x.digits / 10, x.exponent + 1⟩ else x

end Decimal

/-- Which of two decimals equally near to a word is taken. -/
inductive TieRule
  | up
  | even
deriving DecidableEq

/-- The decimal of the grid `10 ^ k` that is nearest to the interval's middle among those inside. -/
def Reals.onGrid (r : Reals) (tie : TieRule) (k : Int) : Option Decimal :=
  let (n, d) := scaleByTen r.mid r.den (-k)
  let below := n / d
  let inside (c : Nat) : Bool :=
    let (cn, cd) := scaleByTen c 1 k
    r.contains cn cd
  let above := below + 1
  let rest := 2 * (n % d)
  let takeAbove := d < rest || (rest == d && (tie == .up || below % 2 == 1))
  match 0 < below && inside below, inside above with
  | true, true => some ⟨if takeAbove then above else below, k⟩
  | true, false => some ⟨below, k⟩
  | false, true => some ⟨above, k⟩
  | false, false => none

/-- The first grid with a hit, from `count - fuel` digits on. -/
def Reals.search (r : Reals) (tie : TieRule) (lead : Int) (count : Nat) : Nat → Decimal
  | 0 => ⟨r.mid / r.den, 0⟩
  | fuel + 1 =>
    let k := lead + 1 - ((count - fuel : Nat) : Int)
    (r.onGrid tie k).getD (r.search tie lead count fuel)

/-- The shortest decimal of a finite word that is not zero; seventeen digits always suffice. -/
def Format.shortest (f : Format) (tie : TieRule) (bits : Nat) : Decimal :=
  let r := f.reals bits
  (r.search tie (leadingExponent r.mid r.den) 17 17).strip 18

/-! ### Formats -/

/-- The choices of a number format. -/
structure NumberFormat where
  tie : TieRule
  /-- Whether an integral number ends in `.0`. -/
  keepPoint : Bool
  /-- Decimal points at these places from the first digit are written positionally. -/
  positional : Int → Bool

/-- A program's own output is positional at every size. -/
def displayNumber : NumberFormat := ⟨.up, false, fun _ => true⟩

/-- JSON numbers are positional from `0.00001` to below `10 ^ 16`. -/
def jsonNumber : NumberFormat := ⟨.even, true, fun point => -5 < point && point ≤ 16⟩

namespace NumberFormat

/-- The digits of a decimal with the point after the first `point` of them. -/
def positionalText (fmt : NumberFormat) (digits : List Char) (point : Int) : List Char :=
  if point ≤ 0 then
    '0' :: '.' :: (List.replicate (-point).toNat '0' ++ digits)
  else if digits.length ≤ point.toNat then
    digits ++ List.replicate (point.toNat - digits.length) '0' ++
      (if fmt.keepPoint then ['.', '0'] else [])
  else
    digits.take point.toNat ++ '.' :: digits.drop point.toNat

/-- One digit, a point if more follow, and the exponent with its sign. -/
def scientificText (digits : List Char) (point : Int) : List Char :=
  let sign := if 0 < point then ['+'] else []
  let exponent := 'e' :: (sign ++ (toString (point - 1)).toList)
  match digits with
  | [] => exponent
  | [d] => d :: exponent
  | d :: rest => d :: '.' :: (rest ++ exponent)

/-- The text of a decimal. -/
def text (fmt : NumberFormat) (x : Decimal) : List Char :=
  let digits := Nat.toDigits 10 x.digits
  let point := digits.length + x.exponent
  if fmt.positional point then fmt.positionalText digits point else scientificText digits point

end NumberFormat

/-- The text of a finite word. -/
def Format.finiteText (f : Format) (fmt : NumberFormat) (bits : Nat) : String :=
  let sign := if f.negative bits then ['-'] else []
  let body :=
    if f.magnitude bits = 0 then if fmt.keepPoint then ['0', '.', '0'] else ['0']
    else fmt.text (f.shortest fmt.tie bits)
  String.ofList (sign ++ body)

/-- The text of any word in a program's own output. -/
def Format.displayText (f : Format) (bits : Nat) : String :=
  if f.isNaN bits then "NaN"
  else if f.isInfinite bits then if f.negative bits then "-inf" else "inf"
  else f.finiteText displayNumber bits

def Binary64.display (x : Binary64) : String := Format.double.displayText x.word

def Binary32.display (x : Binary32) : String := Format.single.displayText x.word

/-- JSON has no text for infinities and not-a-number. -/
def Binary64.json? (x : Binary64) : Option String :=
  if x.isNaN || x.isInfinite then none else some (Format.double.finiteText jsonNumber x.word)

end ScriptMachine
