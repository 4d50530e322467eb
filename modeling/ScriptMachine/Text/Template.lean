import ScriptMachine.Heap.Display
import ScriptMachine.Text.Blank

/-!
# Templates

Texts with references to the members of a value. A reference stands between two opening and two
closing braces and is a path of names, each after a point; a lone point is the value itself.

* `breakAtPair`: the text before and after a doubled character.
* `referenced`: the value that a reference stands for.
* `rendered`: the text with its references replaced.
-/

namespace ScriptMachine

/-- The characters before and after the first place where `c` stands twice in a row. -/
def breakAtPair (c : Char) : List Char → Option (List Char × List Char)
  | a :: b :: rest =>
    if a = c ∧ b = c then some ([], rest)
    else (breakAtPair c (b :: rest)).map fun p => (a :: p.1, p.2)
  | _ => none

theorem breakAtPair_eq {c : Char} {text before after : List Char}
    (h : breakAtPair c text = some (before, after)) : text = before ++ c :: c :: after := by
  fun_induction breakAtPair c text generalizing before after with
  | case1 a b rest hc =>
    obtain ⟨rfl, rfl⟩ := hc
    simp only [Option.some.injEq, Prod.mk.injEq] at h
    obtain ⟨rfl, rfl⟩ := h
    rfl
  | case2 a b rest hc ih =>
    obtain ⟨⟨p, q⟩, hp, hq⟩ := Option.map_eq_some_iff.1 h
    simp only [Prod.mk.injEq] at hq
    obtain ⟨rfl, rfl⟩ := hq
    rw [ih hp]
    rfl
  | case3 => simp at h

theorem length_lt_of_breakAtPair {c : Char} {text before after : List Char}
    (h : breakAtPair c text = some (before, after)) : after.length < text.length := by
  rw [breakAtPair_eq h]
  simp only [List.length_append, List.length_cons]
  omega

/-- The member of a struct or a map that a reference names. -/
def templateMember (h : Heap) (v : Value) (name : String) : Except Fault Value :=
  let found : Except Fault (Option Value) :=
    match v.unwrapped with
    | .struct r => .ok ((h.struct r).get? name)
    | .map r => (h.map r).get (.string name)
    | _ => .ok none
  match found with
  | .ok (some member) => .ok member
  | .ok none => .error (.about .unknownMember name)
  | .error f => .error f

/-- The value that a reference stands for. -/
def referenced (h : Heap) (data : Value) (reference : String) : Except Fault Value :=
  if reference.startsWith "." then
    ((reference.splitToList (· == '.')).filter fun name => !name.isEmpty).foldlM
      (templateMember h) data
  else .error (.about .invalidTemplateName reference)

/-- The text of a template with its references replaced. -/
def rendered (h : Heap) (data : Value) (text : List Char) : Except Fault String :=
  match _ : breakAtPair '\x7b' text with
  | none => .ok (String.ofList text)
  | some (lead, after) =>
    match _ : breakAtPair '\x7d' after with
    | none => .error (.about .invalidTemplateName "unterminated action")
    | some (reference, rest) => do
      let v ← referenced h data (trimBlank (String.ofList reference))
      let tail ← rendered h data rest
      .ok (String.ofList lead ++ h.display v ++ tail)
termination_by text.length
decreasing_by
  have := length_lt_of_breakAtPair ‹breakAtPair '\x7b' text = some _›
  have := length_lt_of_breakAtPair ‹breakAtPair '\x7d' after = some _›
  omega

end ScriptMachine
