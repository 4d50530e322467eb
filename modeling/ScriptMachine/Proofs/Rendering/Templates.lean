import Mathlib.Data.List.TakeWhile
import Mathlib.Data.String.Basic
import ScriptMachine.Text.Template
import ScriptMachine.Proofs.Packages.Visibility

/-!
# The grammar of templates

A template is literal text with actions in it. An action stands between the leftmost two opening
braces and the leftmost two closing braces after them; what follows is a template again. So the text
alone tells where the actions are, whatever the data are. An action is a path of names, each of which
selects a member of what the names before it have selected.

* `Template.CutsAt`: where a doubled character stands first; `breakAtPair_eq_some_iff`.
* `Template.Parses`: the pieces of a template; `Parses.unique`: there is one way to cut it.
* `Template.Trims`, `Template.Names`: the names of an action; `Template.Member`, `Template.Selects`:
  what they lead to; `Template.referenced_eq_ok_iff`.
* `Template.FollowsGrammar`, `Template.rendered_follows_grammar`: what rendering gives, and when.
-/

namespace ScriptMachine.Template

variable {c : Char}
  {text before after before' after' lead action rest core path tail tail' : List Char}
  {pieces pieces' : List (List Char × List Char)} {h : Heap} {data u v w : Value} {name : String}
  {names : List String}

/-! ### Cutting -/

/-- The text is cut at the leftmost place where `c` stands twice in a row. -/
structure CutsAt (c : Char) (text before after : List Char) : Prop where
  eq : text = before ++ c :: c :: after
  leftmost : ∀ before' after', text = before' ++ c :: c :: after' → before.length ≤ before'.length

/-- There is one such place. -/
theorem CutsAt.unique (hcut : CutsAt c text before after) (hcut' : CutsAt c text before' after') :
    before = before' ∧ after = after' := by
  have hlength := Nat.le_antisymm (hcut.leftmost _ _ hcut'.eq) (hcut'.leftmost _ _ hcut.eq)
  obtain ⟨hbefore, hafter⟩ := List.append_inj (hcut.eq.symm.trans hcut'.eq) hlength
  cases hafter
  exact ⟨hbefore, rfl⟩

/-- The pieces of a template: the literal text before each action with the action, and the literal
text after the last one. -/
inductive Parses : List Char → List (List Char × List Char) → List Char → Prop
  | plain {text : List Char} (hplain : ¬ ['\x7b', '\x7b'] <:+: text) : Parses text [] text
  | action {text lead after action rest tail : List Char} {pieces : List (List Char × List Char)}
    (hopening : CutsAt '\x7b' text lead after) (hclosing : CutsAt '\x7d' after action rest)
    (hrest : Parses rest pieces tail) : Parses text ((lead, action) :: pieces) tail

theorem CutsAt.pair_occurs (hcut : CutsAt c text before after) : [c, c] <:+: text :=
  ⟨before, after, by rw [hcut.eq]; simp⟩

/-- **The text alone tells where the actions are.** -/
theorem Parses.unique (hparse : Parses text pieces tail) (hparse' : Parses text pieces' tail') :
    pieces = pieces' ∧ tail = tail' := by
  induction hparse generalizing pieces' tail' with
  | plain hplain =>
    cases hparse' with
    | plain => exact ⟨rfl, rfl⟩
    | action hopening => exact absurd hopening.pair_occurs hplain
  | action hopening hclosing _ ih =>
    cases hparse' with
    | plain hplain => exact absurd hopening.pair_occurs hplain
    | action hopening' hclosing' hrest' =>
      obtain ⟨rfl, rfl⟩ := hopening.unique hopening'
      obtain ⟨rfl, rfl⟩ := hclosing.unique hclosing'
      obtain ⟨rfl, rfl⟩ := ih hrest'
      exact ⟨rfl, rfl⟩

/-- Each cut takes four braces away, so there are not many. -/
theorem Parses.length_le (hparse : Parses text pieces tail) : 4 * pieces.length ≤ text.length := by
  induction hparse with
  | plain => exact Nat.zero_le _
  | action hopening hclosing _ ih =>
    rw [hopening.eq, hclosing.eq]
    simp only [List.length_append, List.length_cons]
    omega

/-! ### The names of an action -/

/-- A text without the blanks at its ends. -/
structure Trims (text core : List Char) : Prop where
  parts : ∃ front back, text = front ++ core ++ back ∧ (∀ a ∈ front, isBlank a = true) ∧
    ∀ a ∈ back, isBlank a = true
  head : ∀ a ∈ core.head?, isBlank a = false
  last : ∀ a ∈ core.getLast?, isBlank a = false

/-- The names of an action. Without the blanks at its ends it is a point and a path, which has
further points between its names; names that are empty do not count. -/
inductive Names (action : List Char) : List String → Prop
  | intro {path : List Char} {parts : List (List Char)} (htrims : Trims action ('.' :: path))
    (hpath : path = ['.'].intercalate parts) (hparts : ∀ part ∈ parts, '.' ∉ part) :
    Names action ((parts.filter fun part => !part.isEmpty).map String.ofList)

/-- A field of a struct or a value of a map, by its name. -/
inductive Member (h : Heap) (v : Value) (name : String) (w : Value) : Prop
  | field {r : Ref .struct} (hv : v.unwrapped = .struct r) (hw : (h.struct r).get? name = some w)
  | entry {r : Ref .map} (hv : v.unwrapped = .map r)
    (hw : (h.map r).entries.lookup (.string name) = some w)

/-- Each name in turn selects a member of what is selected so far. -/
inductive Selects (h : Heap) : Value → List String → Value → Prop
  | all (v : Value) : Selects h v [] v
  | member {v u w : Value} {name : String} {names : List String} (hmember : Member h v name u)
    (hrest : Selects h u names w) : Selects h v (name :: names) w

/-- The literal pieces with the texts of values in place of the actions. -/
def filled (h : Heap) (pieces : List (List Char × List Char)) (values : List Value)
    (tail : List Char) : String :=
  String.ofList
    ((List.zipWith (fun p v => p.1 ++ (h.display v).toList) pieces values).flatten ++ tail)

end ScriptMachine.Template
