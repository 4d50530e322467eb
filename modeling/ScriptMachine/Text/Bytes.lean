/-!
# Byte offsets

Programs index strings by the bytes of their UTF-8 form.

* `runes`: the characters of a string with their offsets.
* `byteAt?`, `bytesBetween?`: access by offset; a part must begin and end between characters.
-/

namespace ScriptMachine

/-- Characters with their offsets, the first of them at `start`. -/
def runesFrom (start : Nat) : List Char → List (Nat × Char)
  | [] => []
  | c :: cs => (start, c) :: runesFrom (start + c.utf8Size) cs

/-- The characters of a string with their offsets. -/
def runes (s : String) : List (Nat × Char) := runesFrom 0 s.toList

/-- The byte at an offset. -/
def byteAt? (s : String) (offset : Nat) : Option UInt8 := s.toUTF8.data[offset]?

/-- Whether an offset lies between two characters or at an end. -/
def isBoundary (s : String) (offset : Nat) : Bool :=
  offset == s.utf8ByteSize || (runes s).any fun r => r.1 == offset

/-- The part from one offset up to another, if both lie between characters. -/
def bytesBetween? (s : String) (start stop : Nat) : Option String :=
  if isBoundary s start && isBoundary s stop then
    let inside := (runes s).filter fun r => start ≤ r.1 && r.1 < stop
    some (String.ofList (inside.map (·.2)))
  else none

theorem map_snd_runesFrom (start : Nat) (cs : List Char) :
    (runesFrom start cs).map (·.2) = cs := by
  induction cs generalizing start with
  | nil => rfl
  | cons c cs ih => simp [runesFrom, ih]

end ScriptMachine
