import Mathlib.Data.List.Perm.Subperm
import ScriptMachine.Proofs.Literals.Objects
import ScriptMachine.Proofs.Objects.Sparing

/-!
# Copies of literals

A deep copy of a literal has fresh containers all the way down, which hold what those of the literal
hold.

* `Value.Spells.of_within`: containers nest no deeper than there are objects.
* `Heap.Apart.deepCopy`: a copy of what is apart from the literals is apart from them.
* `Literals.Copy`: a value is such a copy of a literal.
* `Value.Spells.deepCopy`: so is a deep copy of a literal.
-/

namespace ScriptMachine

variable {L : Literals} {v w : Value} {n depth : Nat} {h h' : Heap}

/-! ### How deep literals nest -/

namespace Value.Spells

theorem of_constant (hv : (Value.constant v).Spells L n) : v.Spells L n := by
  cases hv with
  | apart hapart => exact .apart hapart.of_constant
  | constant hv => exact hv
  | container hv => cases hv

theorem unwrapped (hv : v.Spells L n) : v.unwrapped.Spells L n := by
  fun_induction Value.unwrapped v with
  | case1 v ih => exact ih hv.of_constant
  | case2 v => exact hv

theorem of_unwrapped (hv : v.unwrapped.Spells L n) : v.Spells L n := by
  fun_induction Value.unwrapped v with
  | case1 v ih => exact .constant (ih hv)
  | case2 v => exact hv

/-- The parts of a container nest less deep. -/
theorem inner {xs : List Value} (hv : v.Spells L (n + 1)) (hxs : L.contents? v = some xs) :
    ∀ x ∈ xs, x.Spells L n := by
  cases hv with
  | apart hapart =>
    rw [hapart.contents?_eq_none] at hxs
    cases hxs
  | constant => cases hxs
  | container hinner hall =>
    rw [hinner] at hxs
    cases hxs
    exact hall

theorem mono : ∀ {n m : Nat} {v : Value}, v.Spells L n → n ≤ m → v.Spells L m
  | _, _, _, .apart hapart, _ => .apart hapart
  | _, _, _, .constant hv, hm => .constant (hv.mono hm)
  | _, _ + 1, _, .container hinner hall, hm =>
    .container hinner fun x hx => (hall x hx).mono (Nat.le_of_succ_le_succ hm)

/-- What holds no container of the literals nests as little as may be. -/
theorem of_contents?_eq_none : ∀ {n m : Nat} {v : Value}, v.Spells L n →
    L.contents? v.unwrapped = none → v.Spells L m
  | _, _, _, .apart hapart, _ => .apart hapart
  | _, _, _, .constant hv, hnone => .constant (hv.of_contents?_eq_none hnone)
  | _, _, v, .container hinner _, hnone => by
    have hcontainer : v.unwrapped = v := by cases v <;> first | rfl | cases hinner
    rw [hcontainer, hinner] at hnone
    cases hnone

end Value.Spells

/-- All arrays, maps and structs. -/
def Heap.containers (h : Heap) : List Value :=
  (List.range h.arrays.size).map (fun i => .array ⟨i⟩) ++
    (List.range h.maps.size).map (fun i => .map ⟨i⟩) ++
    (List.range h.structs.size).map (fun i => .struct ⟨i⟩)

theorem Heap.length_containers (h : Heap) : h.containers.length + 1 = h.depth := by
  simp [Heap.containers, Heap.depth]
  omega

/-- The containers of the literals are among them. -/
theorem Literals.Within.mem_containers (hL : L.Within h) {xs : List Value}
    (hv : L.contents? v = some xs) : v ∈ h.containers := by
  have hlt : ∀ {α : Type} {ys : Array α} {i : Nat} {a : α}, ys[i]? = some a → i < ys.size :=
    fun hget => (Array.getElem?_eq_some_iff.1 hget).1
  cases v with
  | array r =>
    obtain ⟨a, ha, -⟩ := Option.map_eq_some_iff.1 hv
    simpa [Heap.containers] using ⟨r.id, hlt (hL.array r a ha), rfl⟩
  | map r =>
    obtain ⟨m, hm, -⟩ := Option.map_eq_some_iff.1 hv
    simpa [Heap.containers] using ⟨r.id, hlt (hL.map r m hm), rfl⟩
  | struct r =>
    obtain ⟨s, hs, -⟩ := Option.map_eq_some_iff.1 hv
    simpa [Heap.containers] using ⟨r.id, hlt (hL.struct r s hs), rfl⟩
  | _ => cases hv

namespace Value.Spells

/-- A literal that nests just so deep has containers one inside the other. -/
theorem exists_chain (hL : L.Within h) (hv : v.Spells L (n + 1)) (hdeep : ¬ v.Spells L n) :
    ∃ l : List Value, l.Nodup ∧ l.length = n + 1 ∧
      ∀ u ∈ l, u ∈ h.containers ∧ u.Spells L (n + 1) := by
  induction n generalizing v with
  | zero =>
    cases hxs : L.contents? v.unwrapped with
    | none => exact absurd (hv.of_contents?_eq_none hxs) hdeep
    | some xs => exact ⟨[v.unwrapped], by simp, rfl, by simpa using ⟨hL.mem_containers hxs, hv.unwrapped⟩⟩
  | succ n ih =>
    cases hxs : L.contents? v.unwrapped with
    | none => exact absurd (hv.of_contents?_eq_none hxs) hdeep
    | some xs =>
      have hinner := hv.unwrapped.inner hxs
      -- One of the parts nests as deep as may be.
      have hpart : ∃ x ∈ xs, ¬ x.Spells L n := by
        by_contra hshallow
        push Not at hshallow
        exact hdeep (of_unwrapped (.container hxs hshallow))
      obtain ⟨x, hx, hxdeep⟩ := hpart
      obtain ⟨l, hnodup, hlength, hall⟩ := ih (hinner x hx) hxdeep
      refine ⟨v.unwrapped :: l, List.nodup_cons.2 ⟨fun hmem => ?_, hnodup⟩, by simp [hlength], ?_⟩
      · exact hdeep (of_unwrapped (hall _ hmem).2)
      · refine List.forall_mem_cons.2 ⟨⟨hL.mem_containers hxs, hv.unwrapped⟩, fun u hu => ?_⟩
        exact ⟨(hall u hu).1, (hall u hu).2.mono (Nat.le_succ _)⟩

/-- **Literals nest no deeper than there are containers.** -/
theorem of_within (hL : L.Within h) (hv : v.Spells L n) : v.Spells L h.depth := by
  induction n with
  | zero => exact hv.mono (Nat.zero_le _)
  | succ n ih =>
    by_cases hdeep : v.Spells L n
    · exact ih hdeep
    · obtain ⟨l, hnodup, hlength, hall⟩ := hv.exists_chain hL hdeep
      have hle := (List.subperm_of_subset hnodup fun u hu => (hall u hu).1).length_le
      have hcontainers := h.length_containers
      exact hv.mono (by omega)

end Value.Spells

/-! ### Copies of what is apart -/

namespace Heap.Apart

theorem underConstants {f : Value → StateM Heap Value}
    (hf : ∀ {u : Value}, u.Apart L → Maintains (Heap.Apart L) (f u) (Value.Apart L))
    (hv : v.Apart L) : Maintains (Heap.Apart L) (Heap.underConstants f v) (Value.Apart L) := by
  fun_induction Heap.underConstants f v with
  | case1 v ih => exact (ih hv.of_constant).bind fun w hw => .pure (.constant hw)
  | case2 v => exact hf hv

theorem copyWithin (depth : Nat) (hv : v.Apart L) :
    Maintains (Heap.Apart L) (Heap.copyWithin depth v) (Value.Apart L) := by
  induction depth generalizing v with
  | zero => exact .pure hv
  | succ depth ih =>
    have hpair : ∀ {κ : Type} {p : κ × Value}, p.2.Apart L → Maintains (Heap.Apart L)
        (do return (p.1, ← Heap.copyWithin depth p.2)) fun q => q.2.Apart L :=
      fun hp => (ih hp).bind fun w hw => .pure hw
    refine underConstants (fun hu => ?_) hv
    split
    · exact .bind .get fun h hh => .bind (.mapMArray fun v hv => ih (hh.array hu v hv)) fun ws hws =>
        .bind (newArray hws) fun r hr => .pure hr
    · exact .bind .get fun h hh => .bind (.mapM fun p hp => hpair (hh.map hu p hp)) fun ps hps =>
        .bind (newMap hps) fun r hr => .pure hr
    · exact .bind .get fun h hh => .bind (.mapM fun p hp => hpair (hh.struct hu p hp)) fun ps hps =>
        .bind (newStruct hps) fun r hr => .pure hr
    · exact .pure hu

theorem deepCopy (hv : v.Apart L) :
    Maintains (Heap.Apart L) (Heap.deepCopy v) (Value.Apart L) :=
  .bind .get fun h _ => copyWithin h.depth hv

end Heap.Apart

/-! ### Copies of literals -/

/-- The containers that are there stay as they are. -/
structure Heap.Grows (h h' : Heap) : Prop where
  array : ∀ (i : Nat) (a : ArrayObject), h.arrays[i]? = some a → h'.arrays[i]? = some a
  map : ∀ (i : Nat) (m : MapObject), h.maps[i]? = some m → h'.maps[i]? = some m
  struct : ∀ (i : Nat) (s : StructObject), h.structs[i]? = some s → h'.structs[i]? = some s

namespace Heap.Grows

variable {h'' : Heap}

theorem refl (h : Heap) : h.Grows h := ⟨fun _ _ => id, fun _ _ => id, fun _ _ => id⟩

theorem trans (hgrows : h.Grows h') (hgrows' : h'.Grows h'') : h.Grows h'' where
  array i a ha := hgrows'.array i a (hgrows.array i a ha)
  map i m hm := hgrows'.map i m (hgrows.map i m hm)
  struct i s hs := hgrows'.struct i s (hgrows.struct i s hs)

/-- A place that is vacant is so before. -/
theorem vacant {α : Type} {xs ys : Array α} {i : Nat} (h : ∀ a, xs[i]? = some a → ys[i]? = some a)
    (hi : ys[i]? = none) : xs[i]? = none := by
  cases hxs : xs[i]? with
  | none => rfl
  | some a =>
    rw [h a hxs] at hi
    cases hi

/-- What is there stays when there is one more. -/
theorem getElem?_push {α : Type} {xs : Array α} {i : Nat} {a : α} (x : α) (ha : xs[i]? = some a) :
    (xs.push x)[i]? = some a := by
  rw [Array.getElem?_push, if_neg, ha]
  exact Nat.ne_of_lt (Array.getElem?_eq_some_iff.1 ha).1

theorem newArray (h : Heap) (a : ArrayObject) : h.Grows ((Heap.newArray a).run h).2 :=
  { refl h with array := fun _ _ => getElem?_push a }

theorem newMap (h : Heap) (m : MapObject) : h.Grows ((Heap.newMap m).run h).2 :=
  { refl h with map := fun _ _ => getElem?_push m }

theorem newStruct (h : Heap) (s : StructObject) : h.Grows ((Heap.newStruct s).run h).2 :=
  { refl h with struct := fun _ _ => getElem?_push s }

/-- Copying adds containers and changes none. -/
theorem copyWithin (depth : Nat) (v : Value) (h : Heap) :
    h.Grows ((Heap.copyWithin depth v).run h).2 := by
  have hkeeps : ∀ depth v, Maintains h.Grows (Heap.copyWithin depth v) fun _ => True := by
    intro depth
    induction depth with
    | zero => exact fun v => .pure trivial
    | succ depth ih =>
      have hpair : ∀ {κ : Type} (p : κ × Value), Maintains h.Grows
          (do return (p.1, ← Heap.copyWithin depth p.2)) fun _ => True :=
        fun p => (ih p.2).bind fun _ _ => .pure trivial
      intro v
      unfold Heap.copyWithin
      fun_induction Heap.underConstants _ v with
      | case1 v ih => exact ih.bind fun _ _ => .pure trivial
      | case2 u =>
        split
        · exact .bind .get fun g _ => .bind (.mapMArray fun v _ => ih v) fun _ _ =>
            .bind (P := fun _ => True) (fun g hg => ⟨hg.trans (newArray g _), trivial⟩) fun _ _ =>
            .pure trivial
        · exact .bind .get fun g _ => .bind (.mapM fun p _ => hpair p) fun _ _ =>
            .bind (P := fun _ => True) (fun g hg => ⟨hg.trans (newMap g _), trivial⟩) fun _ _ =>
            .pure trivial
        · exact .bind .get fun g _ => .bind (.mapM fun p _ => hpair p) fun _ _ =>
            .bind (P := fun _ => True) (fun g hg => ⟨hg.trans (newStruct g _), trivial⟩) fun _ _ =>
            .pure trivial
        · exact .pure trivial
  exact (hkeeps depth v h (refl h)).1

end Heap.Grows

/-- What is no container is its own copy. -/
theorem Heap.copyWithin_of_isLeaf (hv : v.isLeaf = true) (depth : Nat) (h : Heap) :
    (Heap.copyWithin depth v).run h = (v, h) := by
  cases depth with
  | zero => rfl
  | succ depth =>
    unfold Heap.copyWithin
    fun_induction Heap.underConstants _ v with
    | case1 v ih => rw [StateT.run_bind, ih hv]; rfl
    | case2 u => cases u <;> first | rfl | cases hv

/-- In containers that are fresh since `old`, and that no loop walks, a value holds what a literal
holds. What the literal holds apart from the literals is copied as it stands. -/
inductive Literals.Copy (L : Literals) (old h : Heap) : Value → Value → Prop
  | apart {v w : Value} (hv : v.Apart L) (hw : v.isLeaf = true → w = v) : L.Copy old h v w
  | constant {v w : Value} (hw : L.Copy old h v w) : L.Copy old h (.constant v) (.constant w)
  | array {r q : Ref .array} {a : ArrayObject} {values : Array Value} (hr : L.array? r = some a)
      (hq : h.arrays[q.id]? = some { element := a.element, values })
      (hfresh : old.arrays[q.id]? = none) (hsize : values.size = a.values.size)
      (hvalues : ∀ p ∈ a.values.toList.zip values.toList, L.Copy old h p.1 p.2) :
      L.Copy old h (.array r) (.array q)
  | map {r q : Ref .map} {m : MapObject} {entries : List (Key × Value)} (hr : L.map? r = some m)
      (hq : h.maps[q.id]? = some { keyType := m.keyType, valueType := m.valueType, entries })
      (hfresh : old.maps[q.id]? = none) (hkeys : entries.map (·.1) = m.entries.map (·.1))
      (hvalues : ∀ p ∈ (m.entries.map (·.2)).zip (entries.map (·.2)), L.Copy old h p.1 p.2) :
      L.Copy old h (.map r) (.map q)
  | struct {r q : Ref .struct} {s : StructObject} {fields : List (String × Value)}
      (hr : L.struct? r = some s) (hq : h.structs[q.id]? = some { s with fields })
      (hfresh : old.structs[q.id]? = none) (hnames : fields.map (·.1) = s.fields.map (·.1))
      (hvalues : ∀ p ∈ (s.fields.map (·.2)).zip (fields.map (·.2)), L.Copy old h p.1 p.2) :
      L.Copy old h (.struct r) (.struct q)

theorem Literals.Copy.mono {old old' : Heap} (hcopy : L.Copy old h v w) (hold : old'.Grows old)
    (hgrows : h.Grows h') : L.Copy old' h' v w := by
  induction hcopy with
  | apart hv hw => exact .apart hv hw
  | constant _ ih => exact .constant ih
  | array hr hq hfresh hsize _ ih =>
    exact .array hr (hgrows.array _ _ hq) (Heap.Grows.vacant (hold.array _) hfresh) hsize ih
  | map hr hq hfresh hkeys _ ih =>
    exact .map hr (hgrows.map _ _ hq) (Heap.Grows.vacant (hold.map _) hfresh) hkeys ih
  | struct hr hq hfresh hnames _ ih =>
    exact .struct hr (hgrows.struct _ _ hq) (Heap.Grows.vacant (hold.struct _) hfresh) hnames ih

/-- What comes of copying a literal: nothing that was there has changed, and the result is a copy
that keeps apart from the literal. -/
structure Literals.Copied (L : Literals) (v : Value) (h : Heap) (w : Value) (h' : Heap) : Prop where
  grows : h.Grows h'
  apart : h'.Apart L
  copy : L.Copy h h' v w
  fresh : w.Apart L

/-- The same of several literals. -/
structure Literals.CopiedAll (L : Literals) (vs : List Value) (h : Heap) (ws : List Value)
    (h' : Heap) : Prop where
  grows : h.Grows h'
  apart : h'.Apart L
  length : ws.length = vs.length
  copy : ∀ p ∈ vs.zip ws, L.Copy h h' p.1 p.2
  fresh : ∀ w ∈ ws, w.Apart L

/-- To copy the second parts of pairs is to copy values. -/
theorem run_mapM_pairs {κ : Type} (f : Value → StateM Heap Value) (l : List (κ × Value))
    (h : Heap) : (l.mapM fun p => (return (p.1, ← f p.2) : StateM Heap (κ × Value))).run h =
      ((l.map (·.1)).zip (((l.map (·.2)).mapM f).run h).1, (((l.map (·.2)).mapM f).run h).2) := by
  induction l generalizing h with
  | nil => rfl
  | cons p rest ih =>
    have hrest := ih ((f p.2).run h).2
    rw [List.map_cons, List.map_cons, List.mapM_cons, List.mapM_cons]
    have hpairs := congrArg ((p.1, ((f p.2).run h).1) :: ·) (congrArg Prod.fst hrest)
    have hheap := congrArg Prod.snd hrest
    exact Prod.ext hpairs hheap

namespace Literals.CopiedAll

variable {ws : List Value}

/-- Copies of the elements of an array make a copy of the array. -/
theorem array {r : Ref .array} {a : ArrayObject} (hr : L.array? r = some a)
    (hparts : L.CopiedAll a.values.toList h ws h') :
    L.Copied (.array r) h (.array ⟨h'.arrays.size⟩)
      ((Heap.newArray { element := a.element, values := ws.toArray }).run h').2 := by
  obtain ⟨hnew, hfresh⟩ := Heap.Apart.newArray
    (fun w hw => hparts.fresh w (by simpa using hw) :
      ({ element := a.element, values := ws.toArray } : ArrayObject).Apart L) h' hparts.apart
  have hgrows := Heap.Grows.newArray h' { element := a.element, values := ws.toArray }
  refine ⟨hparts.grows.trans hgrows, hnew, ?_, hfresh⟩
  exact .array hr Array.getElem?_push_size (Heap.Grows.vacant (hparts.grows.array _) (by simp)) hparts.length
    fun p hp => (hparts.copy p hp).mono (.refl h) hgrows

/-- Copies of the values of a map make a copy of the map. -/
theorem map {r : Ref .map} {m : MapObject} (hr : L.map? r = some m)
    (hparts : L.CopiedAll (m.entries.map (·.2)) h ws h') :
    L.Copied (.map r) h (.map ⟨h'.maps.size⟩)
      ((Heap.newMap { keyType := m.keyType, valueType := m.valueType,
                      entries := (m.entries.map (·.1)).zip ws }).run h').2 := by
  have hkeys : ((m.entries.map (·.1)).zip ws).map (·.1) = m.entries.map (·.1) :=
    List.map_fst_zip (by simp [hparts.length])
  have hvalues : ((m.entries.map (·.1)).zip ws).map (·.2) = ws :=
    List.map_snd_zip (by simp [hparts.length])
  obtain ⟨hnew, hfresh⟩ := Heap.Apart.newMap
    (fun p hp => hparts.fresh p.2 (List.of_mem_zip hp).2 :
      ({ keyType := m.keyType, valueType := m.valueType,
         entries := (m.entries.map (·.1)).zip ws } : MapObject).Apart L) h' hparts.apart
  have hgrows := Heap.Grows.newMap h'
    { keyType := m.keyType, valueType := m.valueType, entries := (m.entries.map (·.1)).zip ws }
  refine ⟨hparts.grows.trans hgrows, hnew, ?_, hfresh⟩
  refine .map hr Array.getElem?_push_size (Heap.Grows.vacant (hparts.grows.map _) (by simp)) hkeys fun p hp => ?_
  rw [hvalues] at hp
  exact (hparts.copy p hp).mono (.refl h) hgrows

/-- Copies of the values of the fields make a copy of a struct. -/
theorem struct {r : Ref .struct} {s : StructObject} (hr : L.struct? r = some s)
    (hparts : L.CopiedAll (s.fields.map (·.2)) h ws h') :
    L.Copied (.struct r) h (.struct ⟨h'.structs.size⟩)
      ((Heap.newStruct { s with fields := (s.fields.map (·.1)).zip ws }).run h').2 := by
  have hnames : ((s.fields.map (·.1)).zip ws).map (·.1) = s.fields.map (·.1) :=
    List.map_fst_zip (by simp [hparts.length])
  have hvalues : ((s.fields.map (·.1)).zip ws).map (·.2) = ws :=
    List.map_snd_zip (by simp [hparts.length])
  obtain ⟨hnew, hfresh⟩ := Heap.Apart.newStruct
    (fun p hp => hparts.fresh p.2 (List.of_mem_zip hp).2 :
      ({ s with fields := (s.fields.map (·.1)).zip ws } : StructObject).Apart L) h' hparts.apart
  have hgrows := Heap.Grows.newStruct h' { s with fields := (s.fields.map (·.1)).zip ws }
  refine ⟨hparts.grows.trans hgrows, hnew, ?_, hfresh⟩
  refine .struct hr Array.getElem?_push_size (Heap.Grows.vacant (hparts.grows.struct _) (by simp)) hnames fun p hp => ?_
  rw [hvalues] at hp
  exact (hparts.copy p hp).mono (.refl h) hgrows

end Literals.CopiedAll

namespace Value.Spells

theorem copyAll {xs : List Value} (hxs : ∀ x ∈ xs, x.Spells L n) (hh : h.Apart L)
    (hcopy : ∀ {v : Value} {h : Heap}, v.Spells L n → h.Apart L →
      L.Copied v h ((Heap.copyWithin depth v).run h).1 ((Heap.copyWithin depth v).run h).2) :
    L.CopiedAll xs h ((xs.mapM (Heap.copyWithin depth)).run h).1
      ((xs.mapM (Heap.copyWithin depth)).run h).2 := by
  induction xs generalizing h with
  | nil => exact ⟨.refl h, hh, rfl, by simp, nofun⟩
  | cons x xs ih =>
    obtain ⟨hx, hrest⟩ := List.forall_mem_cons.1 hxs
    have hfirst := hcopy hx hh
    have hothers := ih hrest hfirst.apart
    rw [List.mapM_cons]
    refine ⟨hfirst.grows.trans hothers.grows, hothers.apart, congrArg (· + 1) hothers.length,
      List.forall_mem_cons.2 ⟨hfirst.copy.mono (.refl h) hothers.grows, fun p hp => ?_⟩,
      List.forall_mem_cons.2 ⟨hfirst.fresh, hothers.fresh⟩⟩
    exact (hothers.copy p hp).mono hfirst.grows (.refl _)

theorem underConstants {f : Value → StateM Heap Value} (hv : v.Spells L n)
    (hf : ∀ u, (∀ w, u ≠ .constant w) → u.Spells L n →
      L.Copied u h ((f u).run h).1 ((f u).run h).2) :
    L.Copied v h ((Heap.underConstants f v).run h).1 ((Heap.underConstants f v).run h).2 := by
  fun_induction Heap.underConstants f v with
  | case1 v ih =>
    have hinner := ih hv.of_constant
    exact ⟨hinner.grows, hinner.apart, .constant hinner.copy, .constant hinner.fresh⟩
  | case2 v hplain => exact hf v (fun w hw => hplain w hw) hv

/-- What is apart from the literals has a copy that is. -/
theorem copied_of_apart (hv : v.Apart L) (hh : h.Apart L) (depth : Nat) :
    L.Copied v h ((Heap.copyWithin depth v).run h).1 ((Heap.copyWithin depth v).run h).2 where
  grows := .copyWithin depth v h
  apart := (Heap.Apart.copyWithin depth hv h hh).1
  copy := .apart hv fun hleaf => by rw [Heap.copyWithin_of_isLeaf hleaf]
  fresh := (Heap.Apart.copyWithin depth hv h hh).2

theorem copied_self (hh : h.Apart L) : ∀ {v : Value}, v.Spells L 0 → L.Copied v h v h
  | _, .apart hv => copied_of_apart hv hh 0
  | _, .constant hv =>
    have hinner := hv.copied_self hh
    ⟨.refl h, hh, .constant hinner.copy, .constant hinner.fresh⟩

/-- What is copied as deep as it nests. -/
theorem copyWithin (hv : v.Spells L depth) (hh : h.Apart L) :
    L.Copied v h ((Heap.copyWithin depth v).run h).1 ((Heap.copyWithin depth v).run h).2 := by
  induction depth generalizing v h with
  | zero => exact hv.copied_self hh
  | succ depth ih =>
    refine hv.underConstants fun u hplain hu => ?_
    cases hu with
    | constant => exact absurd rfl (hplain _)
    | apart hapart =>
      have hcopied := copied_of_apart hapart hh (depth + 1)
      cases u <;> first | exact hcopied | exact absurd rfl (hplain _)
    | @container _ _ inner hinner hall =>
      have hparts := copyAll hall hh ih
      cases u with
      | array r =>
        obtain ⟨a, ha, rfl⟩ := Option.map_eq_some_iff.1 hinner
        have hsame : h.array r = a := by
          rw [Heap.array, hh.literals.array r a ha, Option.getD_some]
        simp only [StateT.run_bind, StateT.run_get, pure_bind, hsame, Array.mapM_eq_mapM_toList,
          StateT.run_map]
        exact hparts.array ha
      | map r =>
        obtain ⟨m, hm, rfl⟩ := Option.map_eq_some_iff.1 hinner
        have hsame : h.map r = m := by
          rw [Heap.map, hh.literals.map r m hm, Option.getD_some]
        simp only [StateT.run_bind, StateT.run_get, pure_bind, hsame, run_mapM_pairs]
        exact hparts.map hm
      | struct r =>
        obtain ⟨s, hs, rfl⟩ := Option.map_eq_some_iff.1 hinner
        have hsame : h.struct r = s := by
          rw [Heap.struct, hh.literals.struct r s hs, Option.getD_some]
        simp only [StateT.run_bind, StateT.run_get, pure_bind, hsame, run_mapM_pairs]
        exact hparts.struct hs
      | _ => cases hinner

/-- **A deep copy of a literal** holds what the literal holds, and is apart from it. -/
theorem deepCopy (hv : v.Spells L n) (hh : h.Apart L) :
    L.Copied v h ((Heap.deepCopy v).run h).1 ((Heap.deepCopy v).run h).2 :=
  (hv.of_within hh.literals).copyWithin hh

end Value.Spells

end ScriptMachine
