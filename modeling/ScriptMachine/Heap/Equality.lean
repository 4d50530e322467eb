import ScriptMachine.Heap

/-!
# Equality of values

The equality of the comparison operators.

* `Heap.equal`: numbers are compared after widening, containers part by part, and shared objects
  by identity.
* A container equals itself whatever it holds.
-/

namespace ScriptMachine.Heap

variable (h : Heap)

/-- Equality of values without parts. -/
def equalPlain (a b : Value) : Bool :=
  match a, b with
  | .null, .null => true
  | .null, _ => false
  | _, .null => false
  | .string x, .string y => x == y
  | .bool x, .bool y => x == y
  | .error f, .error g => f.agrees g
  | .package x, .package y => x == y
  | .channel x, .channel y => x == y
  | .mutex x, .mutex y => x == y
  | .waitGroup x, .waitGroup y => x == y
  | .pointer x, .pointer y => x == y
  | .code c, .code d => c.name == d.name
  | .code _, _ => false
  | _, .code _ => false
  | .type t, .type u => t.accepts u && u.accepts t
  | .marker x, .marker y => x == y
  | a, b =>
    if a.kind == .function && b.kind == .function then h.functionName a == h.functionName b
    else if a.kind.isNumeric && b.kind.isNumeric then
      match normalize a b with
      | .ok (x, y) => sameNumber x y
      | .error _ => false
    else false

/-- Equality of values that nest at most `depth` containers. -/
def equalWithin : Nat → Value → Value → Bool
  | 0, a, b => h.equalPlain a.unwrapped b.unwrapped
  | depth + 1, a, b =>
    match a.unwrapped, b.unwrapped with
    | .array r, .array s =>
      r == s ||
        ((h.array r).values.size == (h.array s).values.size &&
          ((h.array r).values.zip (h.array s).values).all fun p => equalWithin depth p.1 p.2)
    | .map r, .map s =>
      r == s ||
        let keys := (h.map r).keys
        keys.length == (h.map s).size &&
          keys.all fun k =>
            match (h.map r).get k, (h.map s).get k with
            | .ok (some x), .ok (some y) => equalWithin depth x y
            | _, _ => false
    | .struct r, .struct s =>
      r == s ||
        let fields := (h.struct r).visible
        fields.length == (h.struct s).fieldNames.length &&
          fields.all fun p =>
            match (h.struct s).get? p.1 with
            | some y => equalWithin depth p.2 y
            | none => false
    | x, y => h.equalPlain x y

/-- Whether two values are equal. -/
def equal (a b : Value) : Bool := h.equalWithin h.depth a b

end ScriptMachine.Heap
