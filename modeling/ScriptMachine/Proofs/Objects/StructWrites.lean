import ScriptMachine.Proofs.Objects.FailedUpdates
import ScriptMachine.Proofs.Objects.Growth
import ScriptMachine.Proofs.Packages.Visibility

/-!
# Writes to structs

What a program's writes may make of a struct. A write that the flags let through changes the field that
it names, which comes last if it is new; any other write is refused. So what the flags protect stays as
it is, however many writes there are.

* `StructObject.Takes`: a write is let through; `set_of_takes`, `set_of_not_takes`.
* `StructObject.Guards`: what the flags of a struct let writes make of it.
* `Heap.FieldsFit`: fields are nil or of their declared types.
* `Heap.Rewrites`: what writes may make of the objects, with one struct in view; `Rewrites.setField`,
  `Rewrites.setEntry` and companions: one lemma for each computation.
-/

namespace ScriptMachine

/-! ### One write -/

namespace StructObject

variable {s s' s'' : StructObject} {name other : String} {v w : Value} {t : Ty}

/-- A write of a value of type `t` is let through: the struct is not read-only, a field whose name
starts with an underscore is not there yet, a static struct has the field, and in a struct that keeps
its declared types the value suits the field. -/
structure Takes (s : StructObject) (name : String) (v : Value) (t : Ty) : Prop where
  writable : s.readonly = false
  once : name.startsWith "_" = true → Assoc.contains name s.fields = false
  present : s.static = true → Assoc.contains name s.fields = true
  suited : s.strong = true → s.suits name v t = true

theorem set_of_takes (h : s.Takes name v t) : s.set name v t = .ok (s.setAlways name v) := by
  obtain ⟨hwritable, honce, hpresent, hsuited⟩ := h
  have hwritten : ¬ (name.startsWith "_" && Assoc.contains name s.fields) = true := by
    intro hboth
    obtain ⟨hname, hthere⟩ := Bool.and_eq_true_iff.1 hboth
    rw [honce hname] at hthere
    cases hthere
  have hnew : ¬ (s.static && !Assoc.contains name s.fields) = true := by
    intro hboth
    obtain ⟨hstatic, habsent⟩ := Bool.and_eq_true_iff.1 hboth
    rw [hpresent hstatic] at habsent
    cases habsent
  have hunsuited : ¬ (s.strong && !s.suits name v t) = true := by
    intro hboth
    obtain ⟨hstrong, hbad⟩ := Bool.and_eq_true_iff.1 hboth
    rw [hsuited hstrong] at hbad
    cases hbad
  unfold set
  dsimp only
  rw [if_neg (by simp [hwritable]), if_neg hwritten, if_neg hnew, if_neg hunsuited]
  rfl

theorem set_of_not_takes (h : ¬ s.Takes name v t) : ∃ f, s.set name v t = .error f := by
  unfold set
  dsimp only
  split
  · exact ⟨_, rfl⟩
  split
  · exact ⟨_, rfl⟩
  split
  · exact ⟨_, rfl⟩
  split
  · exact ⟨_, rfl⟩
  · refine absurd ?_ h
    constructor <;> grind

/-- **What a write comes to.** -/
theorem set_eq_ok_iff :
    s.set name v t = .ok s' ↔ s.Takes name v t ∧ s' = s.setAlways name v := by
  constructor
  · intro hset
    by_cases htakes : s.Takes name v t
    · rw [set_of_takes htakes] at hset
      cases hset
      exact ⟨htakes, rfl⟩
    · obtain ⟨f, herror⟩ := set_of_not_takes htakes
      rw [herror] at hset
      cases hset
  · rintro ⟨htakes, rfl⟩
    exact set_of_takes htakes

/-- The names of all fields, in their order. -/
def names (s : StructObject) : List String := s.fields.map (·.1)

/-- **A write names a field that is there, or one that comes last.** -/
theorem names_setAlways (s : StructObject) (name : String) (v : Value) :
    (s.setAlways name v).names
      = if Assoc.contains name s.fields then s.names else s.names ++ [name] :=
  Assoc.map_fst_insert name v s.fields

/-- **Every other field stays as it is.** -/
theorem get?_setAlways_ne (hne : other ≠ name) (v : Value) :
    (s.setAlways name v).get? other = s.get? other := Assoc.lookup_insert_ne hne v s.fields

/-- Nothing but one field of a struct is changed; a new one comes last. -/
structure Sets (s s' : StructObject) (name : String) (v : Value) : Prop where
  fields : s' = { s with fields := Assoc.insert name v s.fields }
  field : s'.get? name = some v
  others : ∀ other, other ≠ name → s'.get? other = s.get? other
  names : s'.names = if Assoc.contains name s.fields then s.names else s.names ++ [name]

/-- What the flags of a struct let writes make of it: nothing but the fields changes, further fields
come last, a read-only struct keeps its fields, a static one their names, and a field whose name starts
with an underscore keeps its value. -/
structure Guards (s s' : StructObject) : Prop where
  flags : s' = { s with fields := s'.fields }
  names : s.names <+: s'.names
  readonly : s.readonly = true → s'.fields = s.fields
  static : s.static = true → s'.names = s.names
  once : ∀ name v, name.startsWith "_" = true → s.get? name = some v → s'.get? name = some v

namespace Guards

theorem refl (s : StructObject) : s.Guards s :=
  ⟨rfl, List.prefix_rfl, fun _ => rfl, fun _ => rfl, fun _ _ _ hv => hv⟩

theorem readonly_eq (h : s.Guards s') : s'.readonly = s.readonly := by rw [h.flags]

theorem static_eq (h : s.Guards s') : s'.static = s.static := by rw [h.flags]

theorem strong_eq (h : s.Guards s') : s'.strong = s.strong := by rw [h.flags]

theorem type_eq (h : s.Guards s') : s'.type = s.type := by rw [h.flags]

theorem trans (h : s.Guards s') (h' : s'.Guards s'') : s.Guards s'' where
  flags := by
    rw [h'.flags, h.flags]
  names := h.names.trans h'.names
  readonly hreadonly :=
    (h'.readonly (h.readonly_eq.trans hreadonly)).trans (h.readonly hreadonly)
  static hstatic := (h'.static (h.static_eq.trans hstatic)).trans (h.static hstatic)
  once name v hname hv := h'.once name v hname (h.once name v hname hv)

/-- **A write that is let through** keeps to them. -/
theorem setAlways (htakes : s.Takes name v t) : s.Guards (s.setAlways name v) where
  flags := rfl
  names := by
    rw [names_setAlways]
    split
    · exact List.prefix_rfl
    · exact List.prefix_append _ _
  readonly hreadonly := by
    rw [htakes.writable] at hreadonly
    cases hreadonly
  static hstatic := by rw [names_setAlways, if_pos (htakes.present hstatic)]
  once other w hother hw := by
    have hne : other ≠ name := by
      rintro rfl
      have habsent := htakes.once hother
      rw [contains_of_get? hw] at habsent
      cases habsent
    rw [get?_setAlways_ne hne]
    exact hw

end Guards

end StructObject

/-! ### Fields of declared types -/

namespace Heap

variable {h h' h'' : Heap} {r : Ref .struct} {s : StructObject} {name : String} {v : Value}

/-- The declared fields of a struct are nil or of their declared types. -/
def FieldsFit (h : Heap) (s : StructObject) : Prop :=
  ∀ name declared v, s.type.field? name = some declared → s.get? name = some v →
    v.isNull = true ∨ declared.accepts (h.typeOf v) = true

/-- The objects that the fields of a struct refer to are there. Values of programs only ever refer to
objects that were made. -/
def HoldsKnown (h : Heap) (s : StructObject) : Prop := ∀ p ∈ s.fields, h.Knows p.2

/-- Fields fit wherever they keep their types. -/
theorem FieldsFit.retainsTypes (hfit : h.FieldsFit s) (hkeeps : h.RetainsTypes h')
    (hknown : h.HoldsKnown s) : h'.FieldsFit s := by
  intro name declared v hdeclared hv
  obtain ⟨before, after, hfields, -⟩ := List.lookup_eq_some_iff.1 hv
  have hmem : (name, v) ∈ s.fields := by
    rw [hfields]
    exact List.mem_append_right _ List.mem_cons_self
  rw [(hkeeps v (hknown _ hmem)).2]
  exact hfit name declared v hdeclared hv

/-- What resembles a field is a copy of one. -/
theorem PairsResemble.exists_of_lookup {ps qs : List (String × Value)} {w : Value}
    (hall : h.PairsResemble ps qs h') (hw : qs.lookup name = some w) :
    ∃ v, (name, v) ∈ ps ∧ ps.lookup name = some v ∧ h.Resembles v w h' := by
  induction hall with
  | nil => cases hw
  | @cons p q ps qs hfirst hrest ih =>
    rw [Assoc.lookup_cons, hfirst.1] at hw
    rw [Assoc.lookup_cons]
    split at hw
    · rename_i hname
      cases hw
      refine ⟨p.2, ?_, if_pos hname, hfirst.2⟩
      rw [eq_of_beq hname]
      exact List.mem_cons_self
    · rename_i hname
      obtain ⟨v, hmem, hv, hvw⟩ := ih hw
      exact ⟨v, List.mem_cons_of_mem p hmem, by rw [if_neg hname, hv], hvw⟩

/-- Fields of a copy fit if those that they are copies of do. -/
theorem FieldsFit.copy {s' : StructObject} (hfit : h.FieldsFit s) (hknown : h.HoldsKnown s)
    (htype : s'.type = s.type) (hall : h.PairsResemble s.fields s'.fields h') :
    h'.FieldsFit s' := by
  intro name declared w hdeclared hw
  obtain ⟨v, hmem, hv, hnull, htypes⟩ := hall.exists_of_lookup hw
  rw [hnull, (htypes (hknown _ hmem)).2]
  exact hfit name declared v (htype ▸ hdeclared) hv

theorem FieldsFit.congr (hfit : h.FieldsFit s) (hsame : ∀ v, h'.typeOf v = h.typeOf v) :
    h'.FieldsFit s := by
  intro name declared v hdeclared hv
  rw [hsame]
  exact hfit name declared v hdeclared hv

/-- A write that is let through leaves fields that fit. -/
theorem FieldsFit.setAlways (hfit : h.FieldsFit s) (hstrong : s.strong = true)
    (htakes : s.Takes name v (h.typeOf v)) : h.FieldsFit (s.setAlways name v) := by
  intro other declared w hdeclared hw
  by_cases hother : other = name
  · subst hother
    rw [StructObject.get?_setAlways_self] at hw
    cases hw
    have hsuits := htakes.suited hstrong
    rw [StructObject.suits, show s.type.field? other = some declared from hdeclared] at hsuits
    exact Bool.or_eq_true_iff.1 hsuits
  · rw [StructObject.get?_setAlways_ne hother] at hw
    exact hfit other declared w hdeclared hw

/-! ### Writes to the objects -/

theorem run_setField (h : Heap) (r : Ref .struct) (name : String) (v : Value) :
    (setField r name v).run.run h =
      match (h.struct r).set name v (h.typeOf v) with
      | .ok s => (.ok (), h.withStruct r s)
      | .error f => (.error f, h) := by
  have hall : ∀ result : Except Fault StructObject,
      (do putStruct r (← result) : HeapM Unit).run.run h =
        match result with
        | .ok s => (.ok (), h.withStruct r s)
        | .error f => (.error f, h) := by
    rintro (f | s) <;> rfl
  exact hall _

/-- What writes may make of the objects, with the struct `r` in view: there are no others, their types
are the same, and the struct is what its flags allow. -/
structure Rewrites (r : Ref .struct) (h h' : Heap) : Prop where
  typeOf_eq : ∀ v, h'.typeOf v = h.typeOf v
  knows_iff : ∀ v, h'.Knows v ↔ h.Knows v
  guards : (h.struct r).Guards (h'.struct r)
  fits : (h.struct r).strong = true → h.FieldsFit (h.struct r) → h'.FieldsFit (h'.struct r)

namespace Rewrites

theorem refl (r : Ref .struct) (h : Heap) : h.Rewrites r h :=
  ⟨fun _ => rfl, fun _ => .rfl, .refl _, fun _ hfit => hfit⟩

theorem trans (hfirst : h.Rewrites r h') (hsecond : h'.Rewrites r h'') : h.Rewrites r h'' where
  typeOf_eq v := (hsecond.typeOf_eq v).trans (hfirst.typeOf_eq v)
  knows_iff v := (hsecond.knows_iff v).trans (hfirst.knows_iff v)
  guards := hfirst.guards.trans hsecond.guards
  fits hstrong hfit :=
    hsecond.fits (hfirst.guards.strong_eq.trans hstrong) (hfirst.fits hstrong hfit)

/-- Neither structs nor types have changed. -/
theorem ofSame (hstructs : h'.structs = h.structs) (harrays : h'.arrays.size = h.arrays.size)
    (hmaps : h'.maps.size = h.maps.size) (htypes : ∀ v, h'.typeOf v = h.typeOf v) :
    h.Rewrites r h' := by
  have hstruct : h'.struct r = h.struct r := by rw [Heap.struct, hstructs, Heap.struct]
  refine ⟨htypes, fun v => ?_, ?_, fun _ hfit => ?_⟩
  · unfold Knows
    rw [hstructs, harrays, hmaps]
  · rw [hstruct]
    exact .refl _
  · rw [hstruct]
    exact hfit.congr htypes

/-- **A write of a field**, of this struct or another one. -/
theorem setField (r q : Ref .struct) (name : String) (v : Value) (h : Heap) :
    h.Rewrites r ((Heap.setField q name v).run.run h).2 := by
  rw [run_setField]
  split
  swap
  · exact .refl r h
  rename_i s hset
  obtain ⟨htakes, rfl⟩ := StructObject.set_eq_ok_iff.1 hset
  have htypes := typeOf_withStruct (h := h) (r := q) (s := (h.struct q).setAlways name v) rfl
  refine ⟨htypes, knows_withStruct h q _, ?_, fun hstrong hfit => ?_⟩
  · rw [struct_withStruct]
    split
    · rename_i hr
      rw [hr.1]
      exact .setAlways htakes
    · exact .refl _
  · refine FieldsFit.congr ?_ htypes
    rw [struct_withStruct]
    split
    · rename_i hr
      rw [hr.1] at hstrong hfit
      exact hfit.setAlways hstrong htakes
    · exact hfit

theorem setElement (r : Ref .struct) (q : Ref .array) (i : Nat) (v : Value) (h : Heap) :
    h.Rewrites r ((Heap.setElement q i v).run.run h).2 := by
  rcases hset : (Heap.setElement q i v).run.run h with ⟨f | u, h'⟩
  · rw [eq_of_setElement_error hset]
    exact .refl r h
  · by_cases hadmits : h.Admits q v
    swap
    · obtain ⟨f, hrefused⟩ := run_setElement_of_refused hadmits i
      rw [hrefused] at hset
      cases hset
    by_cases hi : i < (h.array q).values.size
    · rw [run_setElement hadmits hi] at hset
      cases hset
      exact .ofSame rfl Array.size_setIfInBounds rfl (typeOf_withValues (lt_size_arrays hi) _)
    · have hbounds : ∃ f, (h.array q).set i v (h.typeOf v) = .error f := by
        simp [ArrayObject.set, ArrayObject.checkThawed, hadmits.1, hadmits.2, hi, bind, Except.bind]
      obtain ⟨f, hbounds⟩ := hbounds
      change (do putArray q (← (h.array q).set i v (h.typeOf v)) : HeapM Unit).run.run h = _ at hset
      rw [hbounds] at hset
      cases hset

/-- Entries of a map come and go without its types. -/
theorem withEntries (r : Ref .struct) (h : Heap) (q : Ref .map) (entries : List (Key × Value)) :
    h.Rewrites r (h.withMap q { h.map q with entries }) :=
  have hsame : h.SameTypes (h.withMap q { h.map q with entries }) := sameTypes_withMap rfl rfl
  .ofSame hsame.structs (congrArg Array.size hsame.arrays) hsame.size hsame.typeOf

theorem setAll (r : Ref .struct) (q : Ref .map) (entries : List (Value × Value)) (h : Heap) :
    h.Rewrites r ((Heap.setAll q entries).run.run h).2 := by
  rcases hall : (Heap.setAll q entries).run.run h with ⟨result, h'⟩
  obtain ⟨es, rfl⟩ := exists_withMap_setAll hall
  exact withEntries r h q es

theorem setEntry (r : Ref .struct) (q : Ref .map) (key value : Value) (h : Heap) :
    h.Rewrites r ((Heap.setEntry q key value).run.run h).2 := by
  rw [← state_setAll_single]
  exact setAll r q _ h

theorem mergeEntries (r : Ref .struct) (q source : Ref .map) (h : Heap) :
    h.Rewrites r ((Heap.mergeEntries q source).run.run h).2 := by
  by_cases hself : q = source
  · subst hself
    rw [run_mergeEntries_self]
    exact .refl r h
  · rw [run_mergeEntries hself]
    exact setAll r q _ h

end Rewrites

end Heap

end ScriptMachine
