import ScriptMachine.Proofs.Packages.Visibility
import ScriptMachine.Proofs.Peephole.Folding

/-!
# Structs built in advance

A struct of literals and types is built in every world or in none, and it is a new one.

* `Value.IsPlain`: literals and types, whose text does not depend on objects.
* `StructObject.Fillable`: a new instance, of which it is told what fields it may take.
* `exists_builds_typedStruct`: whether a struct of a declared type can be built.
* `exists_run_structFragment`: whether a run of pushes and a struct can be folded.
-/

namespace ScriptMachine

/-! ### Literals and types -/

/-- A literal or a type: what a struct may be built of in advance. -/
def Value.IsPlain (v : Value) : Prop := v.kind.isScalar = true ∨ ∃ t, v = .type t

namespace Value.IsPlain

variable {v : Value}

theorem unwrapped (hv : v.IsPlain) : v.unwrapped.IsPlain := by
  rcases hv with hscalar | ⟨t, rfl⟩
  · exact .inl ((congrArg Kind.isScalar v.kind_unwrapped).trans hscalar)
  · exact .inr ⟨t, rfl⟩

theorem isLeaf (hv : v.IsPlain) : v.unwrapped.isLeaf = true := by
  rcases hv with hscalar | ⟨t, rfl⟩
  · exact Peephole.isLeaf_of_isScalar hscalar
  · rfl

theorem isMarker (hv : v.IsPlain) : v.isMarker = false := by
  rcases hv with hscalar | ⟨t, rfl⟩
  · exact Peephole.isMarker_of_isScalar hscalar
  · rfl

/-- Literals and types lead to no container, whatever the literals. -/
theorem apart {L : Literals} (hv : v.IsPlain) : v.Apart L := by
  fun_induction Value.unwrapped v with
  | case1 u ih =>
    refine .constant (ih (hv.imp id ?_))
    rintro ⟨t, ht⟩
    cases ht
  | case2 u hne =>
    rcases hv with hscalar | ⟨t, rfl⟩
    · cases u with
      | constant w => exact absurd rfl (hne w)
      | native | member | code | array | map | struct => cases hscalar
      | _ => exact .plain rfl rfl
    · exact .plain rfl rfl

/-- Whether they count as true, and their types, do not depend on the objects. -/
theorem truthy_eq (hv : v.IsPlain) (h h' : Heap) : h.truthy v = h'.truthy v := by
  have hleaf := hv.isLeaf
  unfold Heap.truthy
  generalize v.unwrapped = u at hleaf
  cases u <;> first | rfl | cases hleaf

theorem typeOf_eq (hv : v.IsPlain) (h h' : Heap) : h.typeOf v = h'.typeOf v := by
  have hleaf := hv.isLeaf
  unfold Heap.typeOf
  generalize v.unwrapped = u at hleaf
  cases u <;> first | rfl | cases hleaf

/-- The text does not depend on the objects. -/
theorem display_eq (hv : v.IsPlain) (h h' : Heap) : h.display v = h'.display v := by
  have hplain : ∀ (h : Heap) (depth : Nat), h.displayWithin depth v = h.plainText v.unwrapped := by
    intro h depth
    cases depth with
    | zero => rfl
    | succ depth =>
      have hleaf := hv.isLeaf
      unfold Heap.displayWithin
      generalize v.unwrapped = u at hleaf
      cases u <;> first | rfl | cases hleaf
  unfold Heap.display
  rw [hplain, hplain]
  rcases hv.unwrapped with hscalar | ⟨t, ht⟩
  · generalize v.unwrapped = u at hscalar
    cases u <;> first | rfl | cases hscalar
  · rw [ht]
    rfl

end Value.IsPlain

theorem mem_of_mem_pairUp {p : Value × Value} : ∀ {values : List Value}, p ∈ pairUp values →
    p.1 ∈ values
  | [], hp | [_], hp => by cases hp
  | a :: b :: rest, hp => by
    rcases List.mem_cons.1 hp with rfl | hp
    · exact .head _
    · exact .tail _ (.tail _ (mem_of_mem_pairUp hp))

/-! ### Filling an instance -/

/-- An instance that is not protected, of which it is told what fields it has and whether it may get
others. -/
structure StructObject.Fillable (s : StructObject) (names : List String) (static : Bool) : Prop where
  names_eq : s.fields.map (·.1) = names
  static_eq : s.static = static
  readonly_eq : s.readonly = false
  strong_eq : s.strong = false

/-- Whether an instance with the named fields refuses a write. -/
def StructObject.refuses (names : List String) (static : Bool) (name : String) : Bool :=
  (name.startsWith "_" && names.contains name) || (static && !names.contains name)

theorem StructObject.Fillable.set {s : StructObject} {names : List String} {static : Bool}
    (hs : s.Fillable names static) (name : String) (v : Value) (t : Ty) :
    if refuses names static name then ∃ f, s.set name v t = .error f
    else ∃ s', s.set name v t = .ok s' ∧
      s'.Fillable (if names.contains name then names else names ++ [name]) static := by
  have hpresent : Assoc.contains name s.fields = names.contains name := by
    rw [Bool.eq_iff_iff, Assoc.contains_iff_mem, hs.names_eq, List.contains_iff_mem]
  unfold StructObject.set refuses
  rw [hpresent, hs.readonly_eq, hs.static_eq, hs.strong_eq]
  dsimp only
  rw [if_neg Bool.false_ne_true]
  by_cases hwritten : (name.startsWith "_" && names.contains name) = true
  · rw [if_pos hwritten, hwritten, Bool.true_or, if_pos rfl]
    exact ⟨_, rfl⟩
  rw [if_neg hwritten, Bool.eq_false_iff.2 hwritten, Bool.false_or]
  split
  · exact ⟨_, rfl⟩
  · refine ⟨_, rfl, ?_, rfl, rfl, rfl⟩
    rw [Assoc.map_fst_insert, hpresent, hs.names_eq]

namespace Heap

variable {h h' : Heap} {n : Nat}

theorem struct_putStruct {r : Ref .struct} (hr : r.id < h.structs.size) (s : StructObject) :
    ((putStruct r s).run h).2.struct r = s := by
  show ((h.structs.setIfInBounds r.id s)[r.id]?).getD _ = s
  rw [Array.getElem?_setIfInBounds_self_of_lt hr, Option.getD_some]

theorem size_putStruct (r : Ref .struct) (s : StructObject) :
    ((putStruct r s).run h).2.structs.size = h.structs.size := Array.size_setIfInBounds

/-! ### Zero values -/

/-- There are at least so many structs. -/
def HoldsStructs (n : Nat) (h : Heap) : Prop := n ≤ h.structs.size

namespace HoldsStructs

theorem newStruct (s : StructObject) :
    Maintains (HoldsStructs n) (Heap.newStruct s) fun r => n ≤ r.id := by
  intro h hn
  have hsize : ((Heap.newStruct s).run h).2.structs.size = h.structs.size + 1 := Array.size_push _
  refine ⟨?_, hn⟩
  rw [HoldsStructs, hsize]
  exact Nat.le_succ_of_le hn

/-- What makes no struct. -/
theorem ofSame {α : Type} {act : StateM Heap α}
    (hsame : ∀ h, (act.run h).2.structs = h.structs) : Maintains (HoldsStructs n) act fun _ => True :=
  fun h hn => ⟨by rw [HoldsStructs, hsame]; exact hn, trivial⟩

theorem newInstance (t : Ty) (fields : List (String × Value)) :
    Maintains (HoldsStructs n) (Heap.newInstance t fields) fun _ => True :=
  (newStruct _).bind fun _ _ => .pure trivial

mutual

theorem zeroValue (t : Ty) : Maintains (HoldsStructs n) (Heap.zeroValue t) fun _ => True := by
  match t with
  | .basic _ k =>
    cases k with
    | struct =>
      rw [Heap.zeroValue]
      exact newInstance _ _
    | _ =>
      rw [Heap.zeroValue]
      · exact ofSame fun _ => rfl
      · nofun
  | .array .. | .pointer .. | .map .. =>
    rw [Heap.zeroValue]
    exact ofSame fun _ => rfl
  | .struct _ fs =>
    rw [Heap.zeroValue]
    exact (zeroFields fs).bind fun _ _ => newInstance _ _
  | .user _ _ _ b =>
    rw [Heap.zeroValue]
    split
    · exact (zeroFieldsOf b).bind fun _ _ => newInstance _ _
    · exact zeroValue b

/-- The fields are those that the type declares. -/
theorem zeroFieldsOf (t : Ty) : Maintains (HoldsStructs n) (Heap.zeroFieldsOf t) fun fields =>
    fields.map (·.1) = t.fields.map (·.1) := by
  match t with
  | .struct _ fs =>
    rw [Heap.zeroFieldsOf]
    exact zeroFields fs
  | .user _ _ _ b =>
    rw [Heap.zeroFieldsOf]
    exact zeroFieldsOf b
  | .basic .. | .array .. | .pointer .. | .map .. => exact .pure rfl

theorem zeroFields (fs : List (String × Ty)) : Maintains (HoldsStructs n) (Heap.zeroFields fs)
    fun fields => fields.map (·.1) = fs.map (·.1) := by
  match fs with
  | [] =>
    rw [Heap.zeroFields]
    exact .pure rfl
  | (name, t) :: rest =>
    rw [Heap.zeroFields]
    refine (zeroValue t).bind fun v _ => (zeroFields rest).bind fun fields hfields => .pure ?_
    rw [List.map_cons, List.map_cons, hfields]

end

end HoldsStructs

/-- A new instance of a type: it is a new struct of this type, with the fields that the type declares. -/
theorem run_instantiate (t : Ty) (h : Heap) : ∃ r h', (instantiate t).run h = (r, h') ∧
    h.structs.size ≤ r.id ∧ r.id < h'.structs.size ∧ (h'.struct r).type = t ∧
    (h'.struct r).Fillable (t.fields.map (·.1)) (!t.fields.isEmpty) := by
  obtain ⟨hgrows, hnames⟩ := HoldsStructs.zeroFieldsOf (n := h.structs.size) t h (Nat.le_refl _)
  have hrun : (instantiate t).run h = (newStruct
      { type := t, fields := ((zeroFieldsOf t).run h).1
        static := !((zeroFieldsOf t).run h).1.isEmpty }).run ((zeroFieldsOf t).run h).2 := rfl
  generalize ((zeroFieldsOf t).run h).1 = fields at hrun hnames
  generalize ((zeroFieldsOf t).run h).2 = h₁ at hrun hgrows
  have hempty : fields.isEmpty = t.fields.isEmpty := by
    rw [← List.isEmpty_map (f := (·.1)), hnames, List.isEmpty_map]
  have hread : ∀ s : StructObject,
      ({ h₁ with structs := h₁.structs.push s } : Heap).struct ⟨h₁.structs.size⟩ = s := by
    intro s
    show ((h₁.structs.push s)[h₁.structs.size]?).getD _ = s
    rw [Array.getElem?_push_size, Option.getD_some]
  refine ⟨⟨h₁.structs.size⟩, _, hrun, hgrows, ?_, congrArg StructObject.type (hread _), ?_⟩
  · show h₁.structs.size < (h₁.structs.push _).size
    rw [Array.size_push]
    exact Nat.lt_succ_self _
  · rw [← hempty]
    show (Heap.struct { h₁ with structs := h₁.structs.push _ } ⟨h₁.structs.size⟩).Fillable _ _
    rw [hread]
    exact ⟨hnames, rfl, rfl, rfl⟩

end Heap

/-! ### Structs of literals -/

namespace Exec

variable {m : Machine} {fields : List (String × Value)}

/-- Writes fields of a struct. -/
def fill (r : Ref .struct) (fields : List (String × Value)) : Exec PUnit :=
  forIn fields PUnit.unit fun p _ => do
    onObjects (Heap.setField r p.1 p.2)
    return .yield PUnit.unit

/-- An action makes a new struct, or fails; in any case there are no fewer structs than before. -/
def Builds (built : Bool) (act : Exec (Ref .struct)) (m : Machine) : Prop :=
  ∃ h', m.world.heap.structs.size ≤ h'.structs.size ∧
    if built then ∃ r, m.world.heap.structs.size ≤ r.id ∧ outcome act m = (.ok r, m.withHeap h')
    else ∃ f, outcome act m = (.error (.fault f), m.withHeap h')

/-- Whether an instance can be filled depends on the fields that it has. -/
theorem exists_fill (fields : List (String × Value)) (names : List String) (static : Bool) :
    ∃ built : Bool, ∀ (r : Ref .struct) (m : Machine), r.id < m.world.heap.structs.size →
      (m.world.heap.struct r).Fillable names static →
      ∃ h', h'.structs.size = m.world.heap.structs.size ∧
        if built then outcome (fill r fields) m = (.ok .unit, m.withHeap h')
        else ∃ f, outcome (fill r fields) m = (.error (.fault f), m.withHeap h') := by
  induction fields generalizing names with
  | nil => exact ⟨true, fun r m _ _ => ⟨m.world.heap, rfl, rfl⟩⟩
  | cons p fields ih =>
    obtain ⟨name, v⟩ := p
    have hunfold : ∀ r : Ref .struct, fill r ((name, v) :: fields)
        = onObjects (Heap.setField r name v) >>= fun _ => fill r fields := fun r => by
      rw [fill, List.forIn_cons, bind_assoc]
      rfl
    cases hrefused : StructObject.refuses names static name with
    | true =>
      refine ⟨false, fun r m hr hs => ⟨m.world.heap, rfl, ?_⟩⟩
      have hset := hs.set name v (m.world.heap.typeOf v)
      rw [hrefused, if_pos rfl] at hset
      obtain ⟨f, hset⟩ := hset
      rw [if_neg Bool.false_ne_true, hunfold]
      refine ⟨f, outcome_bind_error ?_⟩
      rw [outcome_setField, hset]
      rfl
    | false =>
      obtain ⟨built, hbuilt⟩ := ih (if names.contains name then names else names ++ [name])
      refine ⟨built, fun r m hr hs => ?_⟩
      have hset := hs.set name v (m.world.heap.typeOf v)
      rw [hrefused, if_neg Bool.false_ne_true] at hset
      obtain ⟨s, hset, hfillable⟩ := hset
      have hout : outcome (onObjects (Heap.setField r name v)) m
          = (.ok (), m.withHeap ((Heap.putStruct r s).run m.world.heap).2) := by
        rw [outcome_setField, hset]
        rfl
      have hsize := Heap.size_putStruct (h := m.world.heap) r s
      obtain ⟨h', hh', hfill⟩ := hbuilt r (m.withHeap ((Heap.putStruct r s).run m.world.heap).2)
        (Nat.lt_of_lt_of_eq hr hsize.symm)
        (by
          show (Heap.struct ((Heap.putStruct r s).run m.world.heap).2 r).Fillable _ _
          rwa [Heap.struct_putStruct hr])
      rw [hunfold, outcome_bind_ok hout]
      exact ⟨h', hh'.trans hsize, hfill⟩

/-- **Whether a struct of a declared type can be built** depends on the type and the names alone. -/
theorem exists_builds_typedStruct (t : Ty) (fields : List (String × Value)) :
    ∃ built, ∀ m : Machine, m.context.staticTypes = false → Builds built (typedStruct t fields) m := by
  by_cases hkind : t.base.kind = .struct
  swap
  · refine ⟨false, fun m _ => ⟨m.world.heap, Nat.le_refl _, ?_⟩⟩
    rw [if_neg Bool.false_ne_true, typedStruct, if_pos hkind]
    exact ⟨_, rfl⟩
  obtain ⟨built, hbuilt⟩ := exists_fill fields (t.fields.map (·.1)) (!t.fields.isEmpty)
  refine ⟨built, fun m hm => ?_⟩
  obtain ⟨r, h₁, hrun, hfresh, hlt, -, hfillable⟩ := Heap.run_instantiate t m.world.heap
  have hinstance : outcome (onHeap (Heap.instantiate t)) m = (.ok r, m.withHeap h₁) := by
    rw [outcome_onHeap, hrun]
  have hsize := Heap.size_putStruct (h := h₁) r { h₁.struct r with strong := false }
  obtain ⟨h', hh', hfill⟩ := hbuilt r
    (m.withHeap ((Heap.putStruct r { h₁.struct r with strong := false }).run h₁).2)
    (Nat.lt_of_lt_of_eq hlt hsize.symm)
    (by
      show (Heap.struct ((Heap.putStruct r _).run h₁).2 r).Fillable _ _
      rw [Heap.struct_putStruct hlt]
      exact ⟨hfillable.names_eq, hfillable.static_eq, hfillable.readonly_eq, rfl⟩)
  have hout : outcome (typedStruct t fields) m = outcome (fill r fields >>= fun _ => pure r)
      (m.withHeap ((Heap.putStruct r { h₁.struct r with strong := false }).run h₁).2) := by
    rw [typedStruct, if_neg (not_not.2 hkind), outcome_bind_ok hinstance, ← hm]
    rfl
  refine ⟨h', ?_, ?_⟩
  · rw [hh']
    exact Nat.le_trans hfresh (Nat.le_trans (Nat.le_of_lt hlt) (Nat.le_of_eq hsize.symm))
  · rw [hout]
    split at hfill
    · rename_i hok
      rw [if_pos hok, outcome_bind_ok hfill]
      exact ⟨r, hfresh, rfl⟩
    · rename_i hfails
      obtain ⟨f, hf⟩ := hfill
      rw [if_neg hfails, outcome_bind_error hf]
      exact ⟨f, rfl⟩

/-- On the bench, what type a value stands for depends on the value alone. -/
theorem exists_outcome_resolveType (v : Value) : ∃ result : Except Fault Ty, ∀ m : Machine,
    m.context.symbols = .root → m.world.scopes = .initial →
    outcome (resolveType v) m = (result.mapError .fault, m) := by
  unfold resolveType
  split
  · rename_i t _
    exact ⟨.ok t, fun _ _ _ => rfl⟩
  · rename_i name _
    have hlookup : ∀ m : Machine, m.context.symbols = .root → m.world.scopes = .initial →
        outcome (lookup? name) m = (.ok (Arena.initial.get? .root name), m) := by
      intro m hroot hinitial
      rw [← hroot, ← hinitial]
      rfl
    rcases hfound : (Arena.initial.get? .root name).map Value.unwrapped with _ | u
    · refine ⟨.error (.about .invalidType name), fun m hroot hinitial => ?_⟩
      rw [outcome_bind_ok (hlookup m hroot hinitial), hfound]
      rfl
    · cases u with
      | type t =>
        refine ⟨.ok t, fun m hroot hinitial => ?_⟩
        rw [outcome_bind_ok (hlookup m hroot hinitial), hfound]
        rfl
      | _ =>
        refine ⟨.error (.about .invalidType name), fun m hroot hinitial => ?_⟩
        rw [outcome_bind_ok (hlookup m hroot hinitial), hfound]
        rfl
  · exact ⟨.error _, fun _ _ _ => rfl⟩

end Exec

namespace Peephole

open Exec

variable {c : Code} {address start n : Nat} {values : List Value} {operand : Value}

/-- The fields that names and values stand for. -/
def namedFields (display : Value → String) (parts : List (Value × Value)) : List (String × Value) :=
  parts.foldl (fun fields p => Assoc.insert (display p.1) p.2.unwrapped fields) []

/-- The names are the same on all objects. -/
theorem namedFields_display (hvalues : ∀ v ∈ values, v.IsPlain) (h h' : Heap) :
    namedFields h.display (pairUp values) = namedFields h'.display (pairUp values) := by
  refine List.foldl_ext _ _ _ fun fields p hp => ?_
  rw [(hvalues _ (mem_of_mem_pairUp hp)).display_eq h h']

/-- What a struct instruction makes of the named fields. -/
def buildStruct (named : List (String × Value)) : Exec (Ref .struct) :=
  let fields := [typeField, staticField, readonlyField].foldl
    (fun fields name => Assoc.erase name fields) named
  match named.lookup typeField with
  | some v => do typedStruct (← resolveType v) fields
  | none => onHeap (Heap.ofFields fields)

theorem exists_builds_buildStruct (named : List (String × Value)) : ∃ built,
    ∀ {code : Code} {k : Nat} {m : Machine}, OnBench code k m → Builds built (buildStruct named) m := by
  unfold buildStruct
  dsimp only
  split
  · rename_i v _
    obtain ⟨result, hresult⟩ := exists_outcome_resolveType v
    cases result with
    | error f =>
      refine ⟨false, fun {_ _ m} hm => ⟨m.world.heap, Nat.le_refl _, ?_⟩⟩
      rw [if_neg Bool.false_ne_true]
      exact ⟨f, outcome_bind_error (hresult m hm.symbols_eq hm.scopes_eq)⟩
    | ok t =>
      obtain ⟨built, hbuilt⟩ := exists_builds_typedStruct t
        ([typeField, staticField, readonlyField].foldl (fun fields name => Assoc.erase name fields)
          named)
      refine ⟨built, fun {_ _ m} hm => ?_⟩
      obtain ⟨h', hle, hout⟩ := hbuilt m hm.static_eq
      refine ⟨h', hle, ?_⟩
      rw [outcome_bind_ok (hresult m hm.symbols_eq hm.scopes_eq)]
      exact hout
  · refine ⟨true, fun {_ _ m} _ => ⟨_, ?_, ⟨m.world.heap.structs.size⟩, Nat.le_refl _, rfl⟩⟩
    show m.world.heap.structs.size ≤ (m.world.heap.structs.push _).size
    rw [Array.size_push]
    exact Nat.le_succ _

/-- A struct instruction takes names and values and nothing else, and sets the flags of the struct
that it builds of them. -/
theorem outcome_makeStruct_onto {m : Machine} (hfp : m.context.fp ≤ m.context.stack.size)
    (hvalues : ∀ v ∈ values, v.isMarker = false) (hcount : operand.count? 0 = some n)
    (hlen : n * 2 = values.length) :
    outcome (makeStruct operand) (m.onto values) = outcome (do
      let named := namedFields m.world.heap.display (pairUp values)
      let r ← buildStruct named
      let s := (← heap).struct r
      let static := ((named.lookup staticField).map m.world.heap.truthy).getD s.static
      let readonly := ((named.lookup readonlyField).map m.world.heap.truthy).getD s.readonly
      onHeap (Heap.putStruct r { s with static, readonly })
      push (.struct r)) m := by
  rw [makeStruct, operandCount_eq hcount, pure_bind, hlen,
    outcome_bind_ok (outcome_popArgs_onto hfp hvalues), outcome_bind_ok (outcome_heap _)]
  unfold buildStruct
  show outcome (match (namedFields m.world.heap.display (pairUp values)).lookup typeField with
    | some v => _
    | none => _) _ = _
  dsimp only
  cases (namedFields m.world.heap.display (pairUp values)).lookup typeField with
  | none => rfl
  | some v =>
    dsimp only
    rw [bind_assoc]
    rfl

/-- On the bench the names of fields are texts of plain values, which are the same on all objects. -/
theorem outcome_makeStruct (hvalues : ∀ v ∈ values, v.IsPlain) (hcount : operand.count? 0 = some n)
    (hlen : n * 2 = values.length) {code : Code} {k : Nat} {m : Machine} (hm : OnBench code k m)
    (hstack : m.context.stack = (values.map Slot.value).toArray) :
    outcome (makeStruct operand) m = outcome (do
      let named := namedFields ({} : Heap).display (pairUp values)
      let r ← buildStruct named
      let s := (← heap).struct r
      let static := ((named.lookup staticField).map m.world.heap.truthy).getD s.static
      let readonly := ((named.lookup readonlyField).map m.world.heap.truthy).getD s.readonly
      onHeap (Heap.putStruct r { s with static, readonly })
      push (.struct r)) (m.withStack #[]) := by
  conv_lhs => rw [← Machine.withStack_onto hstack]
  rw [namedFields_display hvalues {} m.world.heap]
  exact outcome_makeStruct_onto (Nat.le_of_eq hm.fp_eq) (fun v hv => (hvalues v hv).isMarker) hcount
    hlen

/-- **A struct instruction** on literals and types pushes a new struct on every objects or fails on
all. -/
theorem exists_outcome_makeStruct (hvalues : ∀ v ∈ values, v.IsPlain)
    (hcount : operand.count? 0 = some n) (hlen : n * 2 = values.length) : ∃ built : Bool,
    ∀ {code : Code} {k : Nat} {m : Machine}, OnBench code k m →
      m.context.stack = (values.map Slot.value).toArray →
      ∃ h', m.world.heap.structs.size ≤ h'.structs.size ∧
        if built then ∃ r, m.world.heap.structs.size ≤ r.id ∧ outcome (makeStruct operand) m
          = (.ok (), (m.withHeap h').withStack #[.value (.struct r)])
        else ∃ f, outcome (makeStruct operand) m
          = (.error (.fault f), (m.withHeap h').withStack #[]) := by
  obtain ⟨built, hbuilt⟩ :=
    exists_builds_buildStruct (namedFields ({} : Heap).display (pairUp values))
  refine ⟨built, fun {code k m} hm hstack => ?_⟩
  have hbare : OnBench code k (m.withStack #[]) := onBench_of_same hm rfl
  obtain ⟨h', hle, hout⟩ := hbuilt hbare
  have hmake := outcome_makeStruct hvalues hcount hlen hm hstack
  cases built with
  | false =>
    rw [if_neg Bool.false_ne_true] at hout
    obtain ⟨f, hf⟩ := hout
    refine ⟨h', hle, ?_⟩
    rw [if_neg Bool.false_ne_true]
    exact ⟨f, hmake.trans (outcome_bind_error hf)⟩
  | true =>
    rw [if_pos rfl] at hout
    obtain ⟨r, hfresh, hr⟩ := hout
    obtain ⟨s, hs⟩ : ∃ s, outcome (makeStruct operand) m
        = (.ok (), (m.withHeap ((Heap.putStruct r s).run h').2).withStack #[.value (.struct r)]) :=
      ⟨_, (hmake.trans (outcome_bind_ok hr)).trans rfl⟩
    refine ⟨_, Nat.le_trans hle (Nat.le_of_eq (Heap.size_putStruct r s).symm), ?_⟩
    rw [if_pos rfl]
    exact ⟨r, hfresh, hs⟩

/-- Pushes of literals and types put them on the stack. -/
theorem Computation.pushes {post : Heap → Option Value → Prop} {rest : List Instruction} {h : Heap}
    {pushes : List Instruction}
    (hpushes : ∀ i ∈ pushes, i.op = .push ∧ i.operand.IsPlain) {values : List Value}
    (hrest : Computation post rest h (values ++ pushes.map fun i => i.operand.unwrapped)) :
    Computation post (pushes ++ rest) h values := by
  induction pushes generalizing values with
  | nil => simpa using hrest
  | cons i pushes ih =>
    obtain ⟨⟨op, v⟩, rfl⟩ : ∃ j : Instruction, j = i := ⟨i, rfl⟩
    obtain ⟨hop, hplain⟩ := hpushes _ (.head _)
    cases hop
    refine .push hplain.isLeaf (ih (fun j hj => hpushes j (.tail _ hj)) ?_)
    rwa [List.append_assoc]

theorem pushes_of_structStart? (hstart : structStart? c address = some start) :
    ∃ (pushes : List Instruction) (operand : Value) (n : Nat),
      (c.ops.extract start (address + 1)).toList = pushes ++ [⟨.struct, operand⟩] ∧
      (∀ i ∈ pushes, i.op = .push ∧ i.operand.IsPlain) ∧ operand.count? 0 = some n ∧
      n * 2 = pushes.length := by
  obtain ⟨⟨op, operand⟩, n, hi, hop, hindex, hle, rfl, hpushes, -, -⟩ :=
    structStart?_eq_some_iff.1 hstart
  obtain ⟨-, hlt⟩ := lt_size_of_structStart? hstart
  cases hop
  refine ⟨(c.ops.extract (address - n * 2) address).toList, operand, n, ?_, ?_, ?_, ?_⟩
  · rw [extract_succ (Nat.sub_le _ _) hi, Array.toList_push]
  · intro i hi
    have hpush := List.all_eq_true.1 hpushes i hi
    unfold isConstantPush at hpush
    rw [Bool.and_eq_true, decide_eq_true_eq, Bool.or_eq_true] at hpush
    refine ⟨hpush.1, hpush.2.imp id fun htype => ?_⟩
    split at htype
    · exact ⟨_, ‹_›⟩
    · cases htype
  · have hnull : operand.isNull = false := by
      by_contra htrue
      rw [Bool.not_eq_false, Value.isNull] at htrue
      split at htrue
      · rename_i hvalue
        unfold Value.toIndex at hindex
        rw [← Value.kind_unwrapped, hvalue] at hindex
        cases hindex
      · cases htrue
    unfold Value.count?
    rw [hnull, hindex]
    rfl
  · unfold Code.size at hlt
    rw [Array.length_toList, Array.size_extract]
    omega

/-- **Whether a struct can be built in advance** is the same in every world: it is a new struct in
all, or the fragment fails in all. -/
theorem exists_run_structFragment (hstart : structStart? c address = some start) : ∃ built : Bool,
    ∀ w : World,
      w.heap.structs.size
        ≤ ((runFragment (c.ops.extract start (address + 1))).run w).2.heap.structs.size ∧
      ((runFragment (c.ops.extract start (address + 1))).run w).1.toOption.isSome = built ∧
      ∀ v, ((runFragment (c.ops.extract start (address + 1))).run w).1 = .ok v →
        ∃ r, v = .struct r ∧ w.heap.structs.size ≤ r.id := by
  obtain ⟨pushes, operand, n, hops, hpushes, hcount, hlen⟩ := pushes_of_structStart? hstart
  have hplain : ∀ v ∈ pushes.map (fun i => i.operand.unwrapped), v.IsPlain := by
    intro v hv
    obtain ⟨i, hi, rfl⟩ := List.mem_map.1 hv
    exact (hpushes i hi).2.unwrapped
  obtain ⟨built, hbuilt⟩ :=
    exists_outcome_makeStruct hplain hcount (by rw [List.length_map, hlen])
  refine ⟨built, fun w => ?_⟩
  have hcomputation : Computation (fun h' r => w.heap.structs.size ≤ h'.structs.size ∧
      r.isSome = built ∧ ∀ v, r = some v → ∃ q, v = .struct q ∧ w.heap.structs.size ≤ q.id)
      (c.ops.extract start (address + 1)).toList w.heap [] := by
    rw [hops]
    refine .pushes hpushes ?_
    cases built with
    | false =>
      refine .refuse rfl ?_
      intro code k m hm hheap hstack
      obtain ⟨h', hle, f, hout⟩ := hbuilt hm hstack
      exact ⟨f, _, hout, ⟨by rw [← hheap]; exact hle, rfl, fun v hv => by cases hv⟩, rfl⟩
    | true =>
      refine .step (fun h' values' => w.heap.structs.size ≤ h'.structs.size ∧
        ∃ q : Ref .struct, values' = [.struct q] ∧ w.heap.structs.size ≤ q.id) rfl ?_ ?_
      · intro code k m hm hheap hstack
        obtain ⟨h', hle, r, hfresh, hout⟩ := hbuilt hm hstack
        rw [hheap] at hle hfresh
        exact ⟨h', [.struct r], ⟨hle, r, rfl, hfresh⟩, hout⟩
      · rintro h' values' ⟨hle, q, rfl, hfresh⟩
        exact .done ⟨hle, rfl, fun v hv => ⟨q, (Option.some.inj hv).symm, hfresh⟩⟩
  obtain ⟨hgrows, hsome, hstruct⟩ := run_runFragment_of_computation hcomputation
  exact ⟨hgrows, hsome, fun v hv => hstruct v (by rw [hv]; rfl)⟩

end Peephole

end ScriptMachine
