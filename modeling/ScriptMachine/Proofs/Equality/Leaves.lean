import ScriptMachine.Proofs.Equality.Numbers
import ScriptMachine.Proofs.Literals.Values
import ScriptMachine.Proofs.Typing.Runs

/-!
# Equality of values without parts

Types are among the values without parts. Acceptance of types is symmetric. It is not transitive, since
a type that leaves something open accepts and is accepted by types that do not accept each other.

* `Ty.accepts_comm`: acceptance goes both ways.
* `Ty.IsClosed`: a type that leaves nothing open, neither itself nor a part; `Ty.accepts_trans`: through
  such a type acceptance is transitive.
* `Value.IsLibrary`: a function of the library or of a package, which is known by its name.
* `Heap.Matches`: which values without parts are equal; `Heap.equalPlain_iff`: those are told equal.
* `Matches.refl`, `Matches.symm`, `Matches.trans`: an equivalence, but for not-a-number, for rounded
  integers and for types that leave something open.
-/

namespace ScriptMachine.Ty

variable {a b t : Ty} {d : Decl} {k : Kind}

/-! ### Acceptance by kinds -/

theorem accepts_of_open (h : a.kind = .interface ∨ b.kind = .interface) : a.accepts b = true := by
  have hopen : (a.isInterface || b.isInterface) = true :=
    Bool.or_eq_true_iff.2 (h.imp beq_iff_eq.2 beq_iff_eq.2)
  rw [accepts.eq_def, if_pos hopen]

theorem basic_accepts_of_kind (hk : k ≠ .interface) (h : t.kind = k) :
    (basic d k).accepts t = t.name?.isNone := by
  subst h
  cases t with
  | basic e l =>
    have hk : l ≠ .interface := hk
    cases l <;> simp_all [accepts, kind, isInterface, name?]
  | _ => simp [accepts, kind, isInterface, name?]

theorem accepts_basic_of_kind (hk : k ≠ .interface) (h : t.kind = k) :
    t.accepts (basic d k) = t.name?.isNone := by
  subst h
  cases t with
  | basic e l =>
    have hk : l ≠ .interface := hk
    cases l <;> simp_all [accepts, kind, isInterface, name?]
  | _ => simp [accepts, kind, isInterface, name?]

/-- What a basic type accepts. -/
theorem basic_accepts_iff (d : Decl) (k : Kind) (t : Ty) : (basic d k).accepts t = true ↔
    k = .interface ∨ t.kind = .interface ∨ t.kind = k ∧ t.name? = none := by
  constructor
  · intro h
    rcases kind_eq_of_accepts h with hk | ht | hkind
    · exact .inl (eq_of_beq hk)
    · exact .inr (.inl (eq_of_beq ht))
    · by_cases hk : k = .interface
      · exact .inl hk
      · rw [basic_accepts_of_kind hk hkind.symm, Option.isNone_iff_eq_none] at h
        exact .inr (.inr ⟨hkind.symm, h⟩)
  · rintro (hk | ht | ⟨hkind, hname⟩)
    · exact accepts_of_open (.inl hk)
    · exact accepts_of_open (.inr ht)
    · by_cases hk : k = .interface
      · exact accepts_of_open (.inl hk)
      · rw [basic_accepts_of_kind hk hkind, hname, Option.isNone_none]

/-- What accepts a basic type. -/
theorem accepts_basic_iff (d : Decl) (k : Kind) (t : Ty) : t.accepts (basic d k) = true ↔
    k = .interface ∨ t.kind = .interface ∨ t.kind = k ∧ t.name? = none := by
  constructor
  · intro h
    rcases kind_eq_of_accepts h with ht | hk | hkind
    · exact .inr (.inl (eq_of_beq ht))
    · exact .inl (eq_of_beq hk)
    · by_cases hk : k = .interface
      · exact .inl hk
      · rw [accepts_basic_of_kind hk hkind, Option.isNone_iff_eq_none] at h
        exact .inr (.inr ⟨hkind, h⟩)
  · rintro (hk | ht | ⟨hkind, hname⟩)
    · exact accepts_of_open (.inr hk)
    · exact accepts_of_open (.inl ht)
    · by_cases hk : k = .interface
      · exact accepts_of_open (.inr hk)
      · rw [accepts_basic_of_kind hk hkind, hname, Option.isNone_none]

section Parts

variable (d e : Decl) (x y k v l w : Ty) (fs gs : List (String × Ty))

theorem array_accepts : (array d x).accepts (array e y) = x.accepts y := by
  simp [accepts, kind, isInterface]

theorem pointer_accepts : (pointer d x).accepts (pointer e y) = x.accepts y := by
  simp [accepts, kind, isInterface]

theorem map_accepts : (map d k v).accepts (map e l w) = (k.accepts l && v.accepts w) := by
  simp [accepts, kind, isInterface]

theorem struct_accepts : (struct d fs).accepts (struct e gs)
    = (fs.isEmpty || gs.isEmpty || acceptsFields fs gs) := by
  simp [accepts, kind, isInterface]

theorem user_accepts (n m : String) (p q : Option String) :
    (user d n p x).accepts (user e m q y) = (m == n && q == p) := by
  simp [accepts, kind, isInterface, name?, package?]

end Parts

/-! ### Symmetry -/

mutual

/-- **Acceptance goes both ways.** -/
theorem accepts_comm : ∀ a b : Ty, a.accepts b = b.accepts a
  | .basic d k, b => by rw [Bool.eq_iff_iff, basic_accepts_iff, accepts_basic_iff]
  | .array d x, .basic e k | .pointer d x, .basic e k | .map d x y, .basic e k
  | .struct d fs, .basic e k | .user d n p x, .basic e k => by
    rw [Bool.eq_iff_iff, basic_accepts_iff, accepts_basic_iff]
  | .array d x, .array e y => by rw [array_accepts, array_accepts, accepts_comm x y]
  | .pointer d x, .pointer e y => by rw [pointer_accepts, pointer_accepts, accepts_comm x y]
  | .map d k v, .map e l w => by rw [map_accepts, map_accepts, accepts_comm k l, accepts_comm v w]
  | .struct d fs, .struct e gs => by
    rw [struct_accepts, struct_accepts, acceptsFields_comm fs gs, Bool.or_comm fs.isEmpty]
  | .user d n p x, .user e m q y => by
    rw [user_accepts, user_accepts, Bool.beq_comm, Bool.beq_comm (a := q)]
  | .array .., .pointer .. | .array .., .map .. | .array .., .struct .. | .array .., .user ..
  | .pointer .., .array .. | .pointer .., .map .. | .pointer .., .struct .. | .pointer .., .user ..
  | .map .., .array .. | .map .., .pointer .. | .map .., .struct .. | .map .., .user ..
  | .struct .., .array .. | .struct .., .pointer .. | .struct .., .map .. | .struct .., .user ..
  | .user .., .array .. | .user .., .pointer .. | .user .., .map .. | .user .., .struct .. => by
    simp [accepts, kind, isInterface]

theorem acceptsFields_comm : ∀ fs gs : List (String × Ty), acceptsFields fs gs = acceptsFields gs fs
  | [], [] => rfl
  | [], _ :: _ | _ :: _, [] => by simp [acceptsFields]
  | (n, t) :: fs, (m, u) :: gs => by
    rw [acceptsFields, acceptsFields, accepts_comm t u, acceptsFields_comm fs gs, Bool.beq_comm]

end

/-! ### Transitivity -/

mutual

/-- Whether a type leaves nothing open: it is neither open to all nor a container without parts, and
neither are its parts. The name of a user type tells all. -/
def isClosed : Ty → Bool
  | .basic _ k => !([Kind.interface, .array, .pointer, .map, .struct].contains k)
  | .array _ t | .pointer _ t => t.isClosed
  | .map _ k v => k.isClosed && v.isClosed
  | .struct _ fs => !fs.isEmpty && fieldsClosed fs
  | .user .. => true

/-- Whether the types of all fields are closed. -/
def fieldsClosed : List (String × Ty) → Bool
  | [] => true
  | (_, t) :: fs => t.isClosed && fieldsClosed fs

end

theorem kind_ne_interface_of_isClosed (hb : b.isClosed = true) : b.kind ≠ .interface := by
  cases b with
  | basic d k =>
    rintro rfl
    cases hb
  | _ => nofun

theorem name?_of_accepts {c : Ty} (hb : b.kind ≠ .interface) (hname : b.name? = none)
    (hbc : b.accepts c = true) (hc : c.kind ≠ .interface) : c.name? = none := by
  cases c with
  | user e m q y =>
    cases b with
    | basic d k =>
      rcases (basic_accepts_iff d k _).1 hbc with hk | hc' | ⟨-, hname'⟩
      · exact absurd hk hb
      · exact absurd hc' hc
      · exact hname'
    | user d n p x => cases hname
    | _ =>
      exfalso
      simp [accepts, kind, isInterface] at hbc
  | _ => rfl

/-- Through a type that is not open to all, basic types accept what it accepts. -/
theorem basic_accepts_trans {c : Ty} (hb : b.kind ≠ .interface)
    (hab : (basic d k).accepts b = true) (hbc : b.accepts c = true) :
    (basic d k).accepts c = true := by
  rcases (basic_accepts_iff d k b).1 hab with hk | hb' | ⟨hkind, hname⟩
  · exact accepts_of_open (.inl hk)
  · exact absurd hb' hb
  · by_cases hc : c.kind = .interface
    · exact accepts_of_open (.inr hc)
    · have hsame : b.kind = c.kind := by
        rcases kind_eq_of_accepts hbc with hb' | hc' | hsame
        · exact absurd (eq_of_beq hb') hb
        · exact absurd (eq_of_beq hc') hc
        · exact hsame
      exact (basic_accepts_iff d k c).2
        (.inr (.inr ⟨hsame.symm.trans hkind, name?_of_accepts hb hname hbc hc⟩))

theorem accepts_basic_trans (hb : b.kind ≠ .interface) (hab : a.accepts b = true)
    (hbc : b.accepts (basic d k) = true) : a.accepts (basic d k) = true := by
  rw [accepts_comm] at hab hbc ⊢
  exact basic_accepts_trans hb hbc hab

/-- What accepts a closed basic type is basic. -/
theorem eq_basic_of_accepts (hk : (basic d k).isClosed = true) (h : a.accepts (basic d k) = true) :
    ∃ e l, a = basic e l := by
  rcases (accepts_basic_iff d k a).1 h with rfl | ha | ⟨hkind, hname⟩
  · cases hk
  · cases a with
    | basic e l => exact ⟨e, l, rfl⟩
    | _ => cases ha
  · cases a with
    | basic e l => exact ⟨e, l, rfl⟩
    | user => cases hname
    | _ =>
      cases hkind
      cases hk

mutual

/-- **Through a closed type acceptance is transitive.** -/
theorem accepts_trans : ∀ {b a c : Ty}, b.isClosed = true → a.accepts b = true → b.accepts c = true →
    a.accepts c = true
  | b, .basic d k, c, hb, hab, hbc => basic_accepts_trans (kind_ne_interface_of_isClosed hb) hab hbc
  | b, a, .basic d k, hb, hab, hbc => accepts_basic_trans (kind_ne_interface_of_isClosed hb) hab hbc
  | .basic d k, a, c, hb, hab, hbc => by
    obtain ⟨e, l, rfl⟩ := eq_basic_of_accepts hb hab
    exact basic_accepts_trans (kind_ne_interface_of_isClosed hb) hab hbc
  | .array d y, .array e x, .array f z, hb, hab, hbc => by
    rw [array_accepts] at hab hbc ⊢
    exact accepts_trans (b := y) hb hab hbc
  | .pointer d y, .pointer e x, .pointer f z, hb, hab, hbc => by
    rw [pointer_accepts] at hab hbc ⊢
    exact accepts_trans (b := y) hb hab hbc
  | .map d k v, .map e l w, .map f m u, hb, hab, hbc => by
    rw [map_accepts, Bool.and_eq_true] at hab hbc ⊢
    obtain ⟨hk, hv⟩ := Bool.and_eq_true_iff.1 hb
    exact ⟨accepts_trans hk hab.1 hbc.1, accepts_trans hv hab.2 hbc.2⟩
  | .struct d fs, .struct e gs, .struct f hs, hb, hab, hbc => by
    rw [struct_accepts, Bool.or_eq_true, Bool.or_eq_true] at hab hbc ⊢
    obtain ⟨hsome, hclosed⟩ := Bool.and_eq_true_iff.1 hb
    have hne : fs.isEmpty ≠ true := by simpa using hsome
    rcases hab with (hgs | hfs) | hab
    · exact .inl (.inl hgs)
    · exact absurd hfs hne
    · rcases hbc with (hfs | hhs) | hbc
      · exact absurd hfs hne
      · exact .inl (.inr hhs)
      · exact .inr (acceptsFields_trans hclosed hab hbc)
  | .user d n p x, .user e m q y, .user f l r z, hb, hab, hbc => by
    rw [user_accepts, Bool.and_eq_true, beq_iff_eq, beq_iff_eq] at hab hbc ⊢
    exact ⟨hbc.1.trans hab.1, hbc.2.trans hab.2⟩

theorem acceptsFields_trans : ∀ {fs gs hs : List (String × Ty)}, fieldsClosed fs = true →
    acceptsFields gs fs = true → acceptsFields fs hs = true → acceptsFields gs hs = true
  | [], [], [], _, _, _ => by simp [acceptsFields]
  | (n, t) :: fs, (m, u) :: gs, (l, v) :: hs, hclosed, hab, hbc => by
    rw [acceptsFields, Bool.and_eq_true, Bool.and_eq_true, beq_iff_eq] at hab hbc ⊢
    obtain ⟨ht, hfs⟩ := Bool.and_eq_true_iff.1 hclosed
    exact ⟨⟨hab.1.1.trans hbc.1.1, accepts_trans ht hab.1.2 hbc.1.2⟩,
      acceptsFields_trans hfs hab.2 hbc.2⟩

end

end ScriptMachine.Ty

/-! ### Values without parts -/

namespace ScriptMachine

theorem Fault.agrees_symm {f g : Fault} (h : f.agrees g = true) : g.agrees f = true := by
  unfold agrees at h ⊢
  simp only [Bool.and_eq_true, Bool.or_eq_true, beq_iff_eq, bne_iff_ne] at h ⊢
  exact ⟨h.1.symm, h.2.imp (fun hne => h.1 ▸ hne) Eq.symm⟩

theorem Fault.agrees_trans {f g e : Fault} (hfg : f.agrees g = true) (hge : g.agrees e = true) :
    f.agrees e = true := by
  unfold agrees at hfg hge ⊢
  simp only [Bool.and_eq_true, Bool.or_eq_true, beq_iff_eq, bne_iff_ne] at hfg hge ⊢
  refine ⟨hfg.1.trans hge.1, ?_⟩
  rcases hfg.2 with hne | hcontext
  · exact .inl hne
  · exact hge.2.imp (fun hne => hfg.1 ▸ hne) hcontext.trans

namespace Value

@[simp]
theorem isLeaf_unwrapped (v : Value) : v.unwrapped.isLeaf = v.isLeaf := by
  fun_induction unwrapped v with
  | case1 v ih => exact ih
  | case2 v hbare => rfl

/-- Arrays, maps and structs are what is no leaf. -/
theorem isLeaf_eq (v : Value) : v.isLeaf = !([Kind.array, .map, .struct].contains v.kind) := by
  rw [← v.isLeaf_unwrapped, kind]
  cases hv : v.unwrapped with
  | constant w => exact absurd hv (Key.unwrapped_ne_constant v w)
  | _ => rfl

end Value

/-- A function that is no code of its own. -/
def Value.IsLibrary (v : Value) : Prop := v.kind = .function ∧ ∀ c, v ≠ .code c

theorem Value.IsLibrary.eq {v : Value} (hv : v.IsLibrary) (hbare : v.unwrapped = v) :
    (∃ f receiver, v = .native f receiver) ∨ ∃ p c, v = .member p c := by
  obtain ⟨hkind, hcode⟩ := hv
  rw [kind, hbare] at hkind
  cases v with
  | native f receiver => exact .inl ⟨f, receiver, rfl⟩
  | member p c => exact .inr ⟨p, c, rfl⟩
  | code c => exact absurd rfl (hcode c)
  | _ => cases hkind

namespace Heap

variable {h : Heap} {x y z : Value}

/-- The equal values among those that have no parts. -/
inductive Matches (h : Heap) : Value → Value → Prop
  | null : Matches h .null .null
  | string (s : String) : Matches h (.string s) (.string s)
  | bool (b : Bool) : Matches h (.bool b) (.bool b)
  | error {f g : Fault} (hagrees : f.agrees g = true) : Matches h (.error f) (.error g)
  | package (r : Ref .package) : Matches h (.package r) (.package r)
  | channel (r : Ref .channel) : Matches h (.channel r) (.channel r)
  | mutex (r : Ref .mutex) : Matches h (.mutex r) (.mutex r)
  | waitGroup (r : Ref .waitGroup) : Matches h (.waitGroup r) (.waitGroup r)
  | pointer (p : Pointer) : Matches h (.pointer p) (.pointer p)
  | marker (label : String) : Matches h (.marker label) (.marker label)
  | code {c d : Code} (hname : c.name = d.name) : Matches h (.code c) (.code d)
  | library {x y : Value} (hx : x.IsLibrary) (hy : y.IsLibrary)
    (hname : h.functionName x = h.functionName y) : Matches h x y
  | type {t u : Ty} (haccepts : t.accepts u = true) : Matches h (.type t) (.type u)
  | number {x y : Value} (hequal : x.EqualNumbers y) : Matches h x y

/-- **Values without parts** are told equal exactly if they match. -/
theorem equalPlain_iff (hx : x.unwrapped = x) (hy : y.unwrapped = y) :
    h.equalPlain x y = true ↔ h.Matches x y := by
  constructor
  · intro hequal
    unfold equalPlain at hequal
    split at hequal
    case h_1 => exact .null
    case h_2 | h_3 | h_13 | h_14 => cases hequal
    case h_4 | h_5 | h_7 | h_8 | h_9 | h_10 | h_11 | h_16 =>
      obtain rfl := eq_of_beq hequal
      constructor
    case h_6 => exact .error hequal
    case h_12 => exact .code (eq_of_beq hequal)
    case h_15 => exact .type (Bool.and_eq_true_iff.1 hequal).1
    case h_17 hcode _ hcode' _ _ _ _ _ _ _ _ _ _ _ _ =>
      split at hequal
      · rename_i hkinds
        obtain ⟨hfx, hfy⟩ := Bool.and_eq_true_iff.1 hkinds
        exact .library ⟨eq_of_beq hfx, hcode⟩ ⟨eq_of_beq hfy, hcode'⟩ (eq_of_beq hequal)
      · split at hequal
        · rename_i hnumeric
          obtain ⟨hnx, hny⟩ := Bool.and_eq_true_iff.1 hnumeric
          split at hequal
          · exact .number ⟨hnx, hny, _, _, ‹_›, hequal⟩
          · cases hequal
        · cases hequal
  · intro hmatches
    cases hmatches with
    | null => rfl
    | string | bool | package | channel | mutex | waitGroup | pointer | marker => exact BEq.rfl
    | error hagrees => exact hagrees
    | code hname => exact beq_iff_eq.2 hname
    | type haccepts => exact Bool.and_eq_true_iff.2 ⟨haccepts, by rw [Ty.accepts_comm, haccepts]⟩
    | library hlx hly hname =>
      rcases hlx.eq hx with ⟨f, r, rfl⟩ | ⟨p, c, rfl⟩ <;>
        rcases hly.eq hy with ⟨g, q, rfl⟩ | ⟨s, d, rfl⟩ <;>
        exact beq_iff_eq.2 hname
    | number hequal =>
      rw [← hx, ← hy, equalPlain_of_isNumeric hequal.left hequal.right]
      obtain ⟨x', y', hnormal, hsame⟩ := hequal.same
      rw [hnormal]
      exact hsame

namespace Matches

/-- What matches is no container. -/
theorem isLeaf (hmatches : h.Matches x y) : x.isLeaf = true ∧ y.isLeaf = true := by
  have hnumeric : ∀ {v : Value}, v.kind.isNumeric = true → v.isLeaf = true := by
    intro v hv
    rw [Value.isLeaf_eq]
    generalize v.kind = k at *
    cases k <;> first | rfl | cases hv
  cases hmatches with
  | library hlx hly =>
    rw [Value.isLeaf_eq, Value.isLeaf_eq, hlx.1, hly.1]
    exact ⟨rfl, rfl⟩
  | number hequal => exact ⟨hnumeric hequal.left, hnumeric hequal.right⟩
  | _ => exact ⟨rfl, rfl⟩

/-- **A value without parts matches itself**, unless it is not-a-number. -/
theorem refl (hx : x.unwrapped = x) (hnan : x.isNaN = false) (hleaf : x.isLeaf = true) :
    h.Matches x x := by
  by_cases hnumeric : x.kind.isNumeric = true
  · exact .number (Value.equalNumbers_of_quantity? hnumeric hnumeric hnan hnan rfl)
  rw [Value.kind, hx] at hnumeric
  cases x with
  | null | string | bool | package | channel | mutex | waitGroup | pointer | marker => constructor
  | error f => exact .error f.agrees_refl
  | code c => exact .code rfl
  | type t => exact .type t.accepts_refl
  | native f receiver => exact .library ⟨rfl, by rintro _ ⟨⟩⟩ ⟨rfl, by rintro _ ⟨⟩⟩ rfl
  | member p c => exact .library ⟨rfl, by rintro _ ⟨⟩⟩ ⟨rfl, by rintro _ ⟨⟩⟩ rfl
  | array r | map r | struct r => cases hleaf
  | constant v => exact absurd hx (Key.unwrapped_ne_constant _ v)
  | _ => exact absurd rfl hnumeric

/-- **What matches does so in either order.** -/
theorem symm (hmatches : h.Matches x y) (hx : x.isNaN = false) (hy : y.isNaN = false) :
    h.Matches y x := by
  cases hmatches with
  | error hagrees => exact .error (Fault.agrees_symm hagrees)
  | code hname => exact .code hname.symm
  | library hlx hly hname => exact .library hly hlx hname.symm
  | type haccepts => exact .type (by rw [Ty.accepts_comm, haccepts])
  | number hequal => exact .number (hequal.symm hx hy)
  | _ => constructor

/-- **Matching is transitive**, unless an integer is rounded or the type in the middle leaves something
open. -/
theorem trans (hxy : h.Matches x y) (hyz : h.Matches y z) (hx : x.isNaN = false) (hy : y.isNaN = false)
    (hz : z.isNaN = false) (hexact : ¬ x.RoundsTo y ∧ ¬ y.RoundsTo x)
    (hexact' : ¬ y.RoundsTo z ∧ ¬ z.RoundsTo y) (hclosed : ∀ t, y = .type t → t.isClosed = true) :
    h.Matches x z := by
  cases hxy with
  | number hequal =>
    have hnumeric := hequal.right
    cases hyz with
    | number hequal' =>
      have hq := hequal.quantity?_eq hx hy hexact.1 hexact.2
      have hq' := hequal'.quantity?_eq hy hz hexact'.1 hexact'.2
      exact .number (Value.equalNumbers_of_quantity? hequal.left hequal'.right hx hz (hq.trans hq'))
    | library hlx =>
      rw [hlx.1] at hnumeric
      cases hnumeric
    | _ => cases hnumeric
  | library hlx hly hname =>
    have hfunction := hly.1
    cases hyz with
    | number hequal =>
      have hnumeric := hequal.left
      rw [hfunction] at hnumeric
      cases hnumeric
    | library hly' hlz hname' => exact .library hlx hlz (hname.trans hname')
    | code => exact absurd rfl (hly.2 _)
    | _ => cases hfunction
  | error hagrees =>
    cases hyz with
    | error hagrees' => exact .error (Fault.agrees_trans hagrees hagrees')
    | number hequal => cases hequal.left
    | library hlx => cases hlx.1
  | code hname =>
    cases hyz with
    | code hname' => exact .code (hname.trans hname')
    | number hequal => cases hequal.left
    | library hlx => exact absurd rfl (hlx.2 _)
  | type haccepts =>
    cases hyz with
    | type haccepts' => exact .type (Ty.accepts_trans (hclosed _ rfl) haccepts haccepts')
    | number hequal => cases hequal.left
    | library hlx => cases hlx.1
  | _ => exact hyz

end Matches

end Heap

end ScriptMachine
