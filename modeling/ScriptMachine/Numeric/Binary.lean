/-!
# Binary floating-point words

A floating-point number is kept as the bits of its interchange format, so that its order, its
equality and its conversions are facts about natural numbers.

* `Format`: the widths of a format; `Format.roundRatio` rounds a positive fraction to the nearest
  word, a half to the even neighbour.
* `Binary64` and `Binary32`: the two word types, with their order keys, their conversions and the
  arithmetic of `Binary64`.
* `Binary64.totalKey` orders every word, not-a-number included; `Binary64.compare?` is the numeric
  order, which has no answer for not-a-number.
-/

namespace ScriptMachine

/-- The widths of a binary interchange format. -/
structure Format where
  /-- Bits of the significand below the leading one. -/
  fractionBits : Nat
  /-- Bits of the biased exponent. -/
  exponentBits : Nat

namespace Format

def double : Format := ⟨52, 11⟩

def single : Format := ⟨23, 8⟩

variable (f : Format)

/-- The exponent of the unit in the last place of the smallest numbers. -/
def minExponent : Int := 2 - Nat.pow 2 (f.exponentBits - 1) - f.fractionBits

/-- The magnitude bits of infinity. -/
def infinity : Nat := (Nat.pow 2 f.exponentBits - 1) * Nat.pow 2 f.fractionBits

/-- The weight of the sign bit. -/
def signBit : Nat := Nat.pow 2 (f.exponentBits + f.fractionBits)

/-- The magnitude bits of a word. -/
def magnitude (bits : Nat) : Nat := bits % f.signBit

/-- Whether the sign bit of a word is set. -/
def negative (bits : Nat) : Bool := bits / f.signBit % 2 == 1

/-- Whether a word is not a number. -/
def isNaN (bits : Nat) : Bool := f.infinity < f.magnitude bits

/-- Whether a word is an infinity. -/
def isInfinite (bits : Nat) : Bool := f.magnitude bits == f.infinity

/-- The integer significand and the exponent of two of a finite word. -/
def significand (bits : Nat) : Nat × Int :=
  let biased := f.magnitude bits / Nat.pow 2 f.fractionBits
  let fraction := f.magnitude bits % Nat.pow 2 f.fractionBits
  if biased = 0 then (fraction, f.minExponent)
  else (Nat.pow 2 f.fractionBits + fraction, f.minExponent + biased - 1)

end Format

/-- The quotient rounded to the nearest integer, a half to the even neighbour. -/
def roundHalfEven (num den : Nat) : Nat :=
  let q := num / den
  let r := num % den
  if 2 * r < den then q
  else if den < 2 * r then q + 1
  else if q % 2 = 0 then q else q + 1

/-- A fraction multiplied by a power of two, as numerator and denominator. -/
def scaleByTwo (num den : Nat) (e : Int) : Nat × Nat :=
  if 0 ≤ e then (num * Nat.pow 2 e.toNat, den) else (num, den * Nat.pow 2 (-e).toNat)

namespace Format

variable (f : Format)

/-- The magnitude bits of the word nearest to the positive fraction `num / den`. -/
def roundRatio (num den : Nat) : Nat :=
  if num = 0 then 0 else
  let rough : Int := (num.log2 : Int) - den.log2 - f.fractionBits
  let (n, d) := scaleByTwo num den (-rough)
  let exact := if n < d * Nat.pow 2 f.fractionBits then rough - 1 else rough
  let e := max exact f.minExponent
  let (n, d) := scaleByTwo num den (-e)
  min ((e - f.minExponent).toNat * Nat.pow 2 f.fractionBits + roundHalfEven n d) f.infinity

/-- The magnitude bits of the word nearest to `m * 2 ^ e`. -/
def roundScaled (m : Nat) (e : Int) : Nat :=
  let (n, d) := scaleByTwo m 1 e
  f.roundRatio n d

/-- The bits of a word from its sign and its magnitude bits. -/
def withSign (neg : Bool) (magnitude : Nat) : Nat :=
  if neg then f.signBit + magnitude else magnitude

/-- The order key of a word: every word has its own, and not-a-number stands outside infinity. -/
def totalKey (bits : Nat) : Int :=
  if f.negative bits then -(f.magnitude bits : Int) - 1 else f.magnitude bits

/-- The numeric order key of a word: the two zeros share one. -/
def numericKey (bits : Nat) : Int :=
  if f.negative bits then -(f.magnitude bits : Int) else f.magnitude bits

/-- The integer part of a finite word, rounded toward zero. -/
def truncated (bits : Nat) : Int :=
  let (m, e) := f.significand bits
  let (n, d) := scaleByTwo m 1 e
  if f.negative bits then -((n / d : Nat) : Int) else (n / d : Nat)

end Format

/-- A double-precision word. -/
structure Binary64 where
  bits : UInt64
deriving DecidableEq, Inhabited

/-- A single-precision word. -/
structure Binary32 where
  bits : UInt32
deriving DecidableEq, Inhabited

namespace Binary64

/-- The bits as a natural number. -/
def word (x : Binary64) : Nat := x.bits.toNat

def ofWord (w : Nat) : Binary64 := ⟨UInt64.ofNat w⟩

def isNaN (x : Binary64) : Bool := Format.double.isNaN x.word

def isInfinite (x : Binary64) : Bool := Format.double.isInfinite x.word

def negative (x : Binary64) : Bool := Format.double.negative x.word

/-- Whether the word is one of the two zeros. -/
def isZero (x : Binary64) : Bool := Format.double.magnitude x.word == 0

def zero : Binary64 := ⟨0⟩

/-- The quiet not-a-number of numerals. -/
def quietNaN : Binary64 := ⟨0x7FF8000000000000⟩

/-- The not-a-number of an operation without a meaning, such as infinity less infinity. -/
def invalid : Binary64 := ⟨0xFFF8000000000000⟩

def infinity (neg : Bool) : Binary64 :=
  ofWord (Format.double.withSign neg Format.double.infinity)

/-- The word nearest to an integer. -/
def ofInt (i : Int) : Binary64 :=
  ofWord (Format.double.withSign (i < 0) (Format.double.roundRatio i.natAbs 1))

/-- The total order key, in which minus zero comes just before zero. -/
def totalKey (x : Binary64) : Int := Format.double.totalKey x.word

/-- The numeric order; without an answer when a side is not a number. -/
def compare? (x y : Binary64) : Option Ordering :=
  if x.isNaN || y.isNaN then none
  else some (compare (Format.double.numericKey x.word) (Format.double.numericKey y.word))

/-- Numeric equality: the zeros are equal and not-a-number equals nothing. -/
def numericEq (x y : Binary64) : Bool := x.compare? y == some .eq

/-- The integer part, rounded toward zero and clamped to 64 bits; not-a-number gives zero. -/
def toInt64 (x : Binary64) : Int64 :=
  if x.isNaN then 0
  else if x.isInfinite then if x.negative then Int64.minValue else Int64.maxValue
  else Int64.ofIntClamp (Format.double.truncated x.word)

/-- The word with the other sign. -/
def neg (x : Binary64) : Binary64 := ⟨x.bits ^^^ 0x8000000000000000⟩

/-- A not-a-number operand, made quiet, decides the result of an operation. -/
def propagate (x y : Binary64) (op : Unit → Binary64) : Binary64 :=
  if x.isNaN then ⟨x.bits ||| 0x0008000000000000⟩
  else if y.isNaN then ⟨y.bits ||| 0x0008000000000000⟩
  else
    let r := op ()
    if r.isNaN then invalid else r

/-- An operation of the machine's floating-point unit. -/
def lift (op : Float → Float → Float) (x y : Binary64) : Binary64 :=
  propagate x y fun _ => ⟨(op (Float.ofBits x.bits) (Float.ofBits y.bits)).toBits⟩

def add (x y : Binary64) : Binary64 := lift (· + ·) x y

def sub (x y : Binary64) : Binary64 := lift (· - ·) x y

def mul (x y : Binary64) : Binary64 := lift (· * ·) x y

def div (x y : Binary64) : Binary64 := lift (· / ·) x y

/-- The remainder of the quotient rounded toward zero; it has the sign of `x` and is exact. -/
def rem (x y : Binary64) : Binary64 :=
  propagate x y fun _ =>
    if x.isInfinite || y.isZero then invalid
    else if y.isInfinite then x
    else
      let (mx, ex) := Format.double.significand x.word
      let (my, ey) := Format.double.significand y.word
      let e := min ex ey
      let r := mx * Nat.pow 2 (ex - e).toNat % (my * Nat.pow 2 (ey - e).toNat)
      ofWord (Format.double.withSign x.negative (Format.double.roundScaled r e))

/-- One to any power, and any base to the power zero, is one, also for not-a-number. -/
def pow (x y : Binary64) : Binary64 :=
  let one : Binary64 := ofInt 1
  if x = one || y.isZero then one else lift (· ^ ·) x y

end Binary64

namespace Binary32

/-- The bits as a natural number. -/
def word (x : Binary32) : Nat := x.bits.toNat

def ofWord (w : Nat) : Binary32 := ⟨UInt32.ofNat w⟩

def isNaN (x : Binary32) : Bool := Format.single.isNaN x.word

def isInfinite (x : Binary32) : Bool := Format.single.isInfinite x.word

def negative (x : Binary32) : Bool := Format.single.negative x.word

/-- Whether the word is one of the two zeros. -/
def isZero (x : Binary32) : Bool := Format.single.magnitude x.word == 0

def zero : Binary32 := ⟨0⟩

/-- The word with the other sign. -/
def neg (x : Binary32) : Binary32 := ⟨x.bits ^^^ 0x80000000⟩

/-- The same number in double precision; a not-a-number keeps its sign and its high bits. -/
def toBinary64 (x : Binary32) : Binary64 :=
  let magnitude :=
    if x.isNaN then
      Format.double.infinity + Nat.pow 2 51 +
        (Format.single.magnitude x.word % Nat.pow 2 22) * Nat.pow 2 29
    else if x.isInfinite then Format.double.infinity
    else
      let (m, e) := Format.single.significand x.word
      Format.double.roundScaled m e
  .ofWord (Format.double.withSign x.negative magnitude)

/-- The numeric order; without an answer when a side is not a number. -/
def compare? (x y : Binary32) : Option Ordering :=
  if x.isNaN || y.isNaN then none
  else some (compare (Format.single.numericKey x.word) (Format.single.numericKey y.word))

/-- Numeric equality: the zeros are equal and not-a-number equals nothing. -/
def numericEq (x y : Binary32) : Bool := x.compare? y == some .eq

end Binary32

/-- The nearest single-precision word; a not-a-number keeps its sign and its high bits. -/
def Binary64.toBinary32 (x : Binary64) : Binary32 :=
  let magnitude :=
    if x.isNaN then
      Format.single.infinity + Nat.pow 2 22 +
        (Format.double.magnitude x.word % Nat.pow 2 51) / Nat.pow 2 29
    else if x.isInfinite then Format.single.infinity
    else
      let (m, e) := Format.double.significand x.word
      Format.single.roundScaled m e
  .ofWord (Format.single.withSign x.negative magnitude)

/-- Powers in single precision; the exceptions are those of `Binary64.pow`. -/
def Binary32.pow (x y : Binary32) : Binary32 :=
  let one : Binary32 := (Binary64.ofInt 1).toBinary32
  if x = one || y.isZero then one
  else if x.isNaN then ⟨x.bits ||| 0x00400000⟩
  else if y.isNaN then ⟨y.bits ||| 0x00400000⟩
  else
    let r : Binary32 := ⟨(Float32.ofBits x.bits ^ Float32.ofBits y.bits).toBits⟩
    if r.isNaN then ⟨0xFFC00000⟩ else r

end ScriptMachine
