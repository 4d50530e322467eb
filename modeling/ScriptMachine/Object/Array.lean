import ScriptMachine.Value

/-!
# Arrays

Typed arrays with a freeze count: while a loop walks an array, its elements cannot change.

* `ArrayObject`: the element type, the elements and the freeze count.
* `set`, `append`, `delete`, `replaceAll`: updates, refused while frozen.
* Updates that take a value also take its type and check it against the element type.
-/

namespace ScriptMachine

/-- An array: its element type, its elements and the number of loops that walk it. -/
structure ArrayObject where
  element : Ty
  values : Array Value
  freezes : Nat := 0
deriving Inhabited

namespace ArrayObject

variable (a : ArrayObject)

def isFrozen : Bool := 0 < a.freezes

def get (index : Nat) : Except Fault Value :=
  match a.values[index]? with
  | some v => .ok v
  | none => .error (.about .arrayIndex (toString index))

/-- Whether a value of type `t` may be an element; nil always may. -/
def checkElement (v : Value) (t : Ty) : Except Fault Unit :=
  if a.element.isInterface || v.isNull || a.element.accepts t then .ok ()
  else .error (.about .typeMismatch s!"{t.text} into []{a.element.text}")

/-- Refuses changes while a loop walks the array. -/
def checkThawed : Except Fault Unit :=
  if a.isFrozen then .error (.bare .immutableArray) else .ok ()

def set (index : Nat) (v : Value) (t : Ty) : Except Fault ArrayObject := do
  a.checkThawed
  a.checkElement v t
  if index < a.values.size then
    .ok { a with values := a.values.setIfInBounds index v }
  else .error (.about .arrayIndex s!"{index} of {a.values.size}")

def append (v : Value) (t : Ty) : Except Fault ArrayObject := do
  a.checkThawed
  a.checkElement v t
  .ok { a with values := a.values.push v }

/-- Removes an element; the result holds it and the array without it. -/
def delete (index : Nat) : Except Fault (Value × ArrayObject) := do
  a.checkThawed
  match a.values[index]? with
  | some v => .ok (v, { a with values := a.values.eraseIdxIfInBounds index })
  | none => .error (.about .arrayIndex (toString index))

/-- The elements from `start` up to, not including, `stop`. -/
def slice (start stop : Nat) : Except Fault ArrayObject :=
  if start ≤ stop ∧ stop ≤ a.values.size then
    .ok { element := a.element, values := a.values.extract start stop }
  else .error (.about .arrayBounds s!"{start}:{stop}")

def reversed : ArrayObject := { element := a.element, values := a.values.reverse }

/-- Other elements, unchecked, in place of the present ones. -/
def replaceAll (values : Array Value) : Except Fault ArrayObject := do
  a.checkThawed
  .ok { a with values }

/-- One more, or one less, loop walks the array. -/
def freeze (on : Bool) : ArrayObject :=
  { a with freezes := if on then a.freezes + 1 else a.freezes - 1 }

theorem set_frozen {a : ArrayObject} (h : a.isFrozen = true) (i : Nat) (v : Value) (t : Ty) :
    a.set i v t = .error (.bare .immutableArray) := by
  simp [set, checkThawed, h, bind, Except.bind]

theorem get_eq_ok_iff {a : ArrayObject} {i : Nat} {v : Value} :
    a.get i = .ok v ↔ a.values[i]? = some v := by
  unfold get
  split <;> simp_all

/-- A successful append adds one element and changes nothing else. -/
theorem append_eq_ok {a b : ArrayObject} {v : Value} {t : Ty} (h : a.append v t = .ok b) :
    b = { a with values := a.values.push v } := by
  unfold append checkThawed at h
  split at h
  · simp [bind, Except.bind] at h
  · cases hc : a.checkElement v t with
    | error f => simp [hc, bind, Except.bind] at h
    | ok u => simpa [hc, bind, Except.bind] using h.symm

@[simp]
theorem reversed_reversed (a : ArrayObject) : a.reversed.reversed = { a with freezes := 0 } := by
  simp [reversed]

end ArrayObject

end ScriptMachine
