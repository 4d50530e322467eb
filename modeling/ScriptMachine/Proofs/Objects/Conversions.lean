import ScriptMachine.Proofs.Operators.Residues
import ScriptMachine.Proofs.Typing.Elements

/-!
# Conversions

What conversion of a value to a type comes to. A user type converts as the type under its names
does, except that it lets through the structs of its own. What was converted is left as it is by the
same conversion.

* `Heap.run_coerceUnwrapped_again`: a second conversion changes nothing, by induction on the type.
* `Heap.kind_of_coerce`, `Heap.kind_of_coerce_array`, `Heap.run_coerce_of_single`: what is made for
  a scalar type and for an array type.
* `Heap.run_coerce_of_integer`: widening an integer keeps it.
* `Heap.ConversionLaws`, `Heap.conversion_laws`: all of this, of all types and all values.
-/

namespace ScriptMachine

/-! ### Scalars -/

theorem Kind.isScalar_of_isInteger {k : Kind} (hk : k.isInteger = true) : k.isScalar = true := by
  cases k <;> cases hk <;> rfl

namespace Value

/-- The value stands in no constant wrapper. -/
def IsBare (v : Value) : Prop := v.unwrapped = v

theorem isBare_unwrapped (v : Value) : v.unwrapped.IsBare := v.unwrapped_unwrapped

theorem isNull_unwrapped (v : Value) : v.unwrapped.isNull = v.isNull := by
  rw [isNull, isNull, v.unwrapped_unwrapped]

/-- What is read off a value is made anew. -/
theorem isBare_toNumber (v : Value) (k : Kind) : Ensures (v.toNumber k) IsBare := by
  unfold toNumber
  cases k with
  | byte | int32 | int | int64 | float32 | float64 => exact .map fun _ => rfl
  | _ => exact .error _

theorem isBare_toBool (v : Value) : Ensures v.toBool IsBare := by
  unfold toBool
  dsimp only
  split
  · exact .ite (.ok rfl) (.ite (.ok rfl) (.error _))
  · exact .ite (.ok rfl) (.error _)

theorem isBare_toScalar {v : Value} (hv : v.IsBare) (k : Kind) : Ensures (v.toScalar k) IsBare := by
  unfold toScalar
  refine .ite (.ok hv) (.ite v.isBare_toBool ?_)
  split
  · exact isBare_toNumber _ k
  · refine .ite ?_ (isBare_toNumber _ k)
    split
    · exact isBare_toNumber _ k
    · exact .error _
  · exact .ite (isBare_toNumber _ k) (.error _)

/-- A word is the integer that it stands for, as a value of a kind that has it. -/
theorem integer_ofInt64 {k : Kind} {x : Int64} (hk : k.isInteger = true) (hx : k.Holds x.toInt) :
    (ofInt64 k x).integer = x.toInt := by
  have hkind := kind_ofInt64 hk x
  obtain ⟨y, hy⟩ := exists_word (show (ofInt64 k x).kind.isInteger = true by rw [hkind, hk])
  have hread := hy.read
  rw [toInt64_ofInt64 hk hx, Except.ok.injEq] at hread
  rw [← hy.toInt_eq, hread]

end Value

namespace Heap

variable {h h' g : Heap} {t b e : Ty} {v w : Value} {k : Kind} {α β : Type}

theorem isBare_coerceScalar (hv : v.IsBare) : Ensures (h.coerceScalar v k) Value.IsBare :=
  .ite (.ok hv) (.ite (.ok rfl) (Value.isBare_toScalar hv k))

/-! ### Conversions to kinds -/

theorem run_read (f : Heap → Except Fault α) (h : Heap) :
    ((do let h ← get; liftM (f h)) : HeapM α).run.run h = (f h, h) := by
  show (liftM (f h) : HeapM α).run.run h = _
  cases f h <;> rfl

/-- Conversion to a scalar kind reads the objects and leaves them. -/
theorem coerceToKind_of_isScalar (hk : k.isScalar = true) (v : Value) :
    coerceToKind v k = (do let h ← get; liftM (coerceScalar h v k)) := by
  cases k <;> first | (cases hk; done) | rfl

theorem run_coerceToKind_of_isScalar (hk : k.isScalar = true) (v : Value) (h : Heap) :
    (coerceToKind v k).run.run h = (h.coerceScalar v k, h) := by
  rw [coerceToKind_of_isScalar hk]
  exact run_read (fun h => coerceScalar h v k) h

/-- A scalar of the right kind is left as it is. -/
theorem run_coerceToKind_of_kind (hk : k.isScalar = true) (hkind : v.kind = k) (h : Heap) :
    (coerceToKind v k).run.run h = (.ok v, h) := by
  rw [run_coerceToKind_of_isScalar hk, coerceScalar, if_pos hkind]

theorem run_liftExcept (r : Except Fault α) (h : Heap) :
    (liftM r : HeapM α).run.run h = (r, h) := by
  cases r <;> rfl

theorem run_bind (act : HeapM α) (next : α → HeapM β) (h : Heap) :
    (act >>= next).run.run h = match act.run.run h with
      | (.ok a, g) => (next a).run.run g
      | (.error f, g) => (.error f, g) := by
  rw [ExceptT.run_bind, StateT.run_bind]
  rcases act.run.run h with ⟨f | a, g⟩ <;> rfl

theorem ofKindOrNull_eq_ok_iff :
    ofKindOrNull v k = .ok w ↔ w = v ∧ (v.kind = k ∨ v.isNull = true) := by
  unfold ofKindOrNull
  split
  · rename_i hv
    rw [Except.ok.injEq, eq_comm, and_iff_left hv]
  · rename_i hv
    exact iff_of_false nofun fun hw => hv hw.2

/-- **What was converted to a kind** is left as it is. -/
theorem run_coerceToKind_again (hv : v.IsBare) (hrun : (coerceToKind v k).run.run h = (.ok w, h')) :
    w.IsBare ∧ ∀ g, (coerceToKind w k).run.run g = (.ok w, g) := by
  by_cases hk : k.isScalar = true
  · rw [run_coerceToKind_of_isScalar hk, Prod.mk.injEq] at hrun
    exact ⟨isBare_coerceScalar hv w hrun.1,
      fun g => run_coerceToKind_of_kind hk (Typed.coerceScalar h v k w hrun.1) g⟩
  cases k with
  | interface | undefined | channel | userDefined =>
    cases hrun
    exact ⟨hv, fun _ => rfl⟩
  | mutex | waitGroup | function | type | package | null =>
    unfold coerceToKind at hrun
    dsimp only at hrun
    rw [run_liftExcept, Prod.mk.injEq, ofKindOrNull_eq_ok_iff] at hrun
    obtain ⟨⟨rfl, hkept⟩, -⟩ := hrun
    refine ⟨hv, fun g => ?_⟩
    unfold coerceToKind
    dsimp only
    rw [run_liftExcept, ofKindOrNull_eq_ok_iff.2 ⟨rfl, hkept⟩]
  | error | array | map | struct | pointer =>
    -- What is kept or made is of the kind, which the second conversion keeps.
    unfold coerceToKind at hrun
    dsimp only at hrun
    split at hrun <;> cases hrun <;> exact ⟨rfl, fun _ => rfl⟩
  | marker | frame | varArgs => cases hrun
  | _ => exact absurd rfl hk

/-! ### Conversions to types -/

theorem run_coerceUnwrapped_user (d : Decl) (n : String) (p : Option String) (b : Ty) (v : Value)
    (h : Heap) : (coerceUnwrapped (.user d n p b) v).run.run h =
      if h.isInstanceOf v (.user d n p b) then (.ok v, h) else (coerceUnwrapped b v).run.run h := by
  show (if h.isInstanceOf v (.user d n p b) then (pure v : HeapM Value)
    else coerceUnwrapped b v).run.run h = _
  split <;> rfl

/-- A value of its own makes an array of one element. -/
theorem run_coerceUnwrapped_array (d : Decl) (e : Ty) (hv : v.IsBare) (harray : v.kind ≠ .array)
    (hnull : v.isNull = false) (h : Heap) : (coerceUnwrapped (.array d e) v).run.run h =
      match (coerceUnwrapped e v).run.run h with
      | (.ok x, g) =>
        (.ok (.array ⟨g.arrays.size⟩), { g with arrays := g.arrays.push ⟨e, #[x], 0⟩ })
      | (.error f, g) => (.error f, g) := by
  have hmake : coerceUnwrapped (.array d e) v = (do
      let x ← coerceUnwrapped e v
      return .array (← newArray ⟨e, #[x], 0⟩)) := by
    cases v with
    | array r => exact absurd rfl harray
    | null => cases hnull
    | constant u => exact absurd hv (Key.unwrapped_ne_constant _ u)
    | _ => rfl
  rw [hmake, run_bind]
  rcases (coerceUnwrapped e v).run.run h with ⟨f | x, g⟩ <;> rfl

/-- The structs are of the same types. -/
def SameStructTypes (h g : Heap) : Prop := ∀ r : Ref .struct, (g.struct r).type = (h.struct r).type

theorem isInstanceOf_congr (htypes : h.SameStructTypes g) (v : Value) (t : Ty) :
    g.isInstanceOf v t = h.isInstanceOf v t := by
  cases v with
  | struct r => rw [isInstanceOf, isInstanceOf, htypes r]
  | _ => rfl

/-- **What was converted** is left as it is by the same conversion. -/
theorem run_coerceUnwrapped_again (hv : v.IsBare)
    (hrun : (coerceUnwrapped t v).run.run h = (.ok w, h')) :
    w.IsBare ∧ ∀ g, h'.SameStructTypes g → (coerceUnwrapped t w).run.run g = (.ok w, g) := by
  fun_induction coerceUnwrapped t v generalizing w h h' with
  | case1 v d k =>
    obtain ⟨hbare, hagain⟩ := run_coerceToKind_again hv hrun
    exact ⟨hbare, fun g _ => hagain g⟩
  | case2 d e r =>
    cases hrun
    exact ⟨rfl, fun _ _ => rfl⟩
  | case3 d e =>
    cases hrun
    exact ⟨rfl, fun _ _ => rfl⟩
  | case4 d e v harray hnull ih =>
    rw [run_bind] at hrun
    rcases hx : (coerceUnwrapped e v).run.run h with ⟨f | x, g⟩
    · rw [hx] at hrun
      cases hrun
    · rw [hx] at hrun
      cases hrun
      exact ⟨rfl, fun _ _ => rfl⟩
  | case8 v d n p b ih =>
    change (coerceUnwrapped (.user d n p b) v).run.run h = (.ok w, h') at hrun
    rw [run_coerceUnwrapped_user] at hrun
    split at hrun
    · rename_i hinstance
      cases hrun
      refine ⟨hv, fun g htypes => ?_⟩
      rw [run_coerceUnwrapped_user, isInstanceOf_congr htypes, if_pos hinstance]
    · obtain ⟨hbare, hagain⟩ := ih hv hrun
      refine ⟨hbare, fun g htypes => ?_⟩
      rw [run_coerceUnwrapped_user, hagain g htypes, ite_self]
  | _ =>
    obtain ⟨hbare, hagain⟩ := run_coerceToKind_again hv hrun
    exact ⟨hbare, fun g _ => hagain g⟩

/-! ### What is made -/

/-- A user type converts what is no struct as the type under it does. -/
theorem run_coerce_base (hv : v.kind ≠ .struct) (t : Ty) (h : Heap) :
    (coerce t v).run.run h = (coerce t.base v).run.run h := by
  unfold coerce
  rw [← v.kind_unwrapped] at hv
  generalize v.unwrapped = u at *
  fun_induction Ty.base t with
  | case1 d n p b ih =>
    rw [run_coerceUnwrapped_user, if_neg, ih]
    cases u with
    | struct r => exact absurd rfl hv
    | _ => nofun
  | case2 => rfl

/-- **For a scalar type** a value of its kind is made. -/
theorem kind_of_coerce (hv : v.kind ≠ .struct) (ht : t.base.kind.isScalar = true)
    (hrun : (coerce t v).run.run h = (.ok w, h')) : w.kind = t.base.kind := by
  rw [run_coerce_base hv] at hrun
  cases hbase : t.base with
  | basic d k =>
    rw [hbase] at hrun ht
    replace ht : k.isScalar = true := ht
    change (coerceToKind v.unwrapped k).run.run h = _ at hrun
    rw [run_coerceToKind_of_isScalar ht, Prod.mk.injEq] at hrun
    exact Typed.coerceScalar h _ k w hrun.1
  | _ =>
    rw [hbase] at ht
    cases ht

/-- The types of arrays. -/
theorem eq_array_of_kind (ht : t.kind = .array) :
    (∃ d, t = .basic d .array) ∨ ∃ d, t = .array d t.element := by
  cases t with
  | basic d k =>
    obtain rfl : k = .array := ht
    exact .inl ⟨d, rfl⟩
  | array d e => exact .inr ⟨d, rfl⟩
  | _ => cases ht

/-- **For an array type** an array is kept, -/
theorem run_coerce_of_array (ht : t.base.kind = .array) (hv : v.kind = .array) (h : Heap) :
    (coerce t v).run.run h = (.ok v.unwrapped, h) := by
  rw [run_coerce_base (by rw [hv]; decide)]
  unfold coerce
  rw [← v.kind_unwrapped] at hv
  cases hu : v.unwrapped with
  | array r => rcases eq_array_of_kind ht with ⟨d, hbase⟩ | ⟨d, hbase⟩ <;> rw [hbase] <;> rfl
  | constant u => exact absurd hu (Key.unwrapped_ne_constant v u)
  | _ =>
    rw [hu] at hv
    cases hv

/-- nil becomes an empty array, -/
theorem run_coerce_of_null (ht : t.base.kind = .array) (hv : v.isNull = true) (h : Heap) :
    (coerce t v).run.run h = (.ok (.array ⟨h.arrays.size⟩),
      { h with arrays := h.arrays.push ⟨t.base.element, #[], 0⟩ }) := by
  rw [Value.isNull_iff] at hv
  rw [run_coerce_base (by rw [hv]; decide)]
  unfold coerce
  rw [← v.kind_unwrapped] at hv
  cases hu : v.unwrapped with
  | null => rcases eq_array_of_kind ht with ⟨d, hbase⟩ | ⟨d, hbase⟩ <;> rw [hbase] <;> rfl
  | constant u => exact absurd hu (Key.unwrapped_ne_constant v u)
  | _ =>
    rw [hu] at hv
    cases hv

/-- and anything else but a struct the one element, converted to the element type. -/
theorem run_coerce_of_single (ht : t.base.kind = .array) (hv : v.kind ≠ .struct)
    (harray : v.kind ≠ .array) (hnull : v.isNull = false) (h : Heap) : (coerce t v).run.run h =
      match (coerce t.base.element v).run.run h with
      | (.ok x, g) => (.ok (.array ⟨g.arrays.size⟩),
          { g with arrays := g.arrays.push ⟨t.base.element, #[x], 0⟩ })
      | (.error f, g) => (.error f, g) := by
  rw [run_coerce_base hv]
  unfold coerce
  rw [← v.kind_unwrapped] at harray
  have hnull : v.unwrapped.isNull = false := by rwa [Value.isNull_unwrapped]
  rcases eq_array_of_kind ht with ⟨d, hbase⟩ | ⟨d, hbase⟩
  · rw [hbase]
    have hu := v.isBare_unwrapped
    generalize v.unwrapped = u at *
    cases u with
    | array r => exact absurd rfl harray
    | null => cases hnull
    | constant u => exact absurd hu (Key.unwrapped_ne_constant _ u)
    | _ => rfl
  · rw [hbase]
    exact run_coerceUnwrapped_array d _ v.isBare_unwrapped harray hnull h

/-! ### Widening -/

/-- An integer of another kind is read as a word, and the word is narrowed. -/
theorem coerceScalar_of_integer (hv : v.kind.isInteger = true) (hk : k.isInteger = true)
    (hkind : v.kind ≠ k) (h : Heap) :
    h.coerceScalar v k = v.toInt64.map (.ofInt64 k) := by
  have hread : v.toNumber k = v.toInt64.map (.ofInt64 k) := by cases k <;> cases hk <;> rfl
  rw [coerceScalar, if_neg hkind, if_neg (by rintro rfl; cases hk), ← hread]
  unfold Value.toScalar
  rw [if_neg hkind, if_neg (by rintro rfl; cases hk)]
  split
  · cases hv
  · cases hv
  · exact if_pos (Kind.isScalar_of_isInteger hv)

/-- **Widening an integer** keeps it. -/
theorem run_coerce_of_integer (hv : v.kind.isInteger = true) (ht : t.base.kind.isInteger = true)
    (hwider : v.kind.rank.getD 0 ≤ t.base.kind.rank.getD 0) (h : Heap) :
    ∃ w, (coerce t v).run.run h = (.ok w, h) ∧ w.kind = t.base.kind ∧ w.integer = v.integer := by
  rw [run_coerce_base (by rintro hstruct; rw [hstruct] at hv; cases hv)]
  cases hbase : t.base with
  | basic d k =>
    rw [hbase] at ht hwider
    replace ht : k.isInteger = true := ht
    replace hwider : v.kind.rank.getD 0 ≤ k.rank.getD 0 := hwider
    have hrun : (coerce (.basic d k) v).run.run h = (h.coerceScalar v.unwrapped k, h) :=
      run_coerceToKind_of_isScalar (Kind.isScalar_of_isInteger ht) _ h
    rw [hrun]
    by_cases hkind : v.kind = k
    · refine ⟨v.unwrapped, ?_, (v.kind_unwrapped).trans hkind, ?_⟩
      · rw [coerceScalar, if_pos (v.kind_unwrapped.trans hkind)]
      · rw [Value.integer, v.unwrapped_unwrapped, Value.integer]
    · obtain ⟨x, hx⟩ := Value.exists_word hv
      have hread : v.unwrapped.toInt64 = .ok x := by
        rw [← hx.read, Value.toInt64, v.unwrapped_unwrapped, Value.toInt64]
      have hholds : k.Holds x.toInt := by
        have := Kind.holds_wider_right ht hv hx.holds
        rwa [Kind.wider, if_pos hwider] at this
      refine ⟨.ofInt64 k x, ?_, Value.kind_ofInt64 ht x, ?_⟩
      · rw [coerceScalar_of_integer (by rw [v.kind_unwrapped]; exact hv) ht
          (by rw [v.kind_unwrapped]; exact hkind), hread]
        rfl
      · rw [Value.integer_ofInt64 ht hholds, hx.toInt_eq]
  | _ =>
    rw [hbase] at ht
    cases ht

/-! ### The laws -/

/-- What conversion of a value to a type comes to. -/
structure ConversionLaws (t : Ty) (v : Value) (h : Heap) : Prop where
  /-- What was converted is left as it is by the same conversion, then or as long as structs keep
  their types, and nothing is made for it. -/
  again : ∀ w h', (coerce t v).run.run h = (.ok w, h') →
    ∀ g, h'.SameStructTypes g → (coerce t w).run.run g = (.ok w, g)
  /-- A type that is a scalar one under its names gets a value of its kind. -/
  scalar : v.kind ≠ .struct → t.base.kind.isScalar = true →
    ∀ w h', (coerce t v).run.run h = (.ok w, h') → w.kind = t.base.kind
  /-- A type of arrays gets an array: -/
  array : v.kind ≠ .struct → t.base.kind = .array →
    ∀ w h', (coerce t v).run.run h = (.ok w, h') → w.kind = .array
  /-- a new one, unless the value is an array or nil, that has the converted value as its one
  element; -/
  single : v.kind ≠ .struct → t.base.kind = .array → v.kind ≠ .array → v.isNull = false →
    (coerce t v).run.run h = match (coerce t.base.element v).run.run h with
      | (.ok x, g) => (.ok (.array ⟨g.arrays.size⟩),
          { g with arrays := g.arrays.push ⟨t.base.element, #[x], 0⟩ })
      | (.error f, g) => (.error f, g)
  /-- an array is kept, -/
  kept : t.base.kind = .array → v.kind = .array → (coerce t v).run.run h = (.ok v.unwrapped, h)
  /-- and nil becomes a new array without elements. -/
  empty : t.base.kind = .array → v.isNull = true →
    (coerce t v).run.run h = (.ok (.array ⟨h.arrays.size⟩),
      { h with arrays := h.arrays.push ⟨t.base.element, #[], 0⟩ })
  /-- An integer becomes one of a kind that is no narrower, and stays the same integer. -/
  widening : v.kind.isInteger = true → t.base.kind.isInteger = true →
    v.kind.rank.getD 0 ≤ t.base.kind.rank.getD 0 →
    ∃ w, (coerce t v).run.run h = (.ok w, h) ∧ w.kind = t.base.kind ∧ w.integer = v.integer

/-- **For an array type** an array is made. -/
theorem kind_of_coerce_array (hv : v.kind ≠ .struct) (ht : t.base.kind = .array)
    (hrun : (coerce t v).run.run h = (.ok w, h')) : w.kind = .array := by
  by_cases harray : v.kind = .array
  · rw [run_coerce_of_array ht harray] at hrun
    cases hrun
    rw [v.kind_unwrapped, harray]
  cases hnull : v.isNull with
  | true =>
    rw [run_coerce_of_null ht hnull] at hrun
    cases hrun
    rfl
  | false =>
    rw [run_coerce_of_single ht hv harray hnull] at hrun
    split at hrun <;> cases hrun
    rfl

/-- **Conversion**, of all values to all types, follows the laws. -/
theorem conversion_laws (t : Ty) (v : Value) (h : Heap) : ConversionLaws t v h where
  again w h' hrun g htypes := by
    obtain ⟨hbare, hagain⟩ := run_coerceUnwrapped_again v.isBare_unwrapped hrun
    rw [coerce, hbare]
    exact hagain g htypes
  scalar hv ht _ _ hrun := kind_of_coerce hv ht hrun
  array hv ht _ _ hrun := kind_of_coerce_array hv ht hrun
  single hv ht harray hnull := run_coerce_of_single ht hv harray hnull h
  kept ht hv := run_coerce_of_array ht hv h
  empty ht hv := run_coerce_of_null ht hv h
  widening hv ht hwider := run_coerce_of_integer hv ht hwider h

end Heap

end ScriptMachine
