import ScriptMachine.Heap.Coercion
import ScriptMachine.Proofs.Literals.Values
import ScriptMachine.Proofs.Objects.Keys

/-!
# Objects apart from literals

Computations on objects leave the containers of literals as they are, and all other objects apart
from them, as long as the values they are given are apart.

* `Guarded`: places of objects, some of which are to stay as they are.
* `Literals.Within`: the objects of the literals are there, with what they hold.
* `Heap.Apart`: they are, and what all other objects hold is apart from them.
* `Heap.Apart.newArray`, `Heap.Apart.setElement` and companions: one lemma for each computation.
-/

namespace ScriptMachine

/-! ### Places of objects -/

/-- Objects in their places: those that `fixed` tells are there, and all others satisfy `Q`, as does
what is read in a place without an object. -/
structure Guarded {α : Type} (fixed : Nat → Option α) (Q : α → Prop) (absent : α)
    (xs : Array α) : Prop where
  there : ∀ i a, fixed i = some a → xs[i]? = some a
  others : ∀ i, fixed i = none → Q (xs[i]?.getD absent)

namespace Guarded

variable {α : Type} {fixed : Nat → Option α} {Q : α → Prop} {absent a : α} {xs : Array α}

/-- The next place is not fixed. -/
theorem fresh (h : Guarded fixed Q absent xs) : fixed xs.size = none := by
  cases hfixed : fixed xs.size with
  | none => rfl
  | some a => simpa using h.there _ a hfixed

theorem empty (h : Q absent) : Guarded (fun _ => none) Q absent #[] where
  there i a ha := by cases ha
  others i _ := by simpa using h

theorem push (h : Guarded fixed Q absent xs) (ha : Q a) : Guarded fixed Q absent (xs.push a) where
  there i b hb := by
    have hi := h.there i b hb
    rw [Array.getElem?_push, if_neg, hi]
    exact Nat.ne_of_lt (Array.getElem?_eq_some_iff.1 hi).1
  others i hi := by
    rw [Array.getElem?_push]
    split
    · exact ha
    · exact h.others i hi

theorem modify {i : Nat} {f : α → α} (h : Guarded fixed Q absent xs) (hi : fixed i = none)
    (hf : ∀ a, Q a → Q (f a)) : Guarded fixed Q absent (xs.modify i f) where
  there j b hb := by
    have hij : i ≠ j := fun hij => by
      rw [hij, hb] at hi
      cases hi
    rw [Array.getElem?_modify, if_neg hij]
    exact h.there j b hb
  others j hj := by
    have hQ := h.others j hj
    rw [Array.getElem?_modify]
    split
    · cases hget : xs[j]? with
      | none => simpa [hget] using hQ
      | some a =>
        rw [hget] at hQ
        exact hf a hQ
    · exact hQ

theorem set {i : Nat} (h : Guarded fixed Q absent xs) (hi : fixed i = none) (ha : Q a) :
    Guarded fixed Q absent (xs.setIfInBounds i a) where
  there j b hb := by
    have hij : i ≠ j := fun hij => by
      rw [hij, hb] at hi
      cases hi
    rw [Array.getElem?_setIfInBounds, if_neg hij]
    exact h.there j b hb
  others j hj := by
    rw [Array.getElem?_setIfInBounds]
    split
    · split
      · exact ha
      · rename_i hij hbound
        have hQ := h.others j hj
        rwa [Array.getElem?_eq_none (by omega)] at hQ
    · exact h.others j hj

end Guarded

/-! ### Objects -/

section

variable (L : Literals)

/-- The objects of the literals are there, with what they hold, and with their flags and types. -/
structure Literals.Within (h : Heap) : Prop where
  array : ∀ r a, L.array? r = some a → h.arrays[r.id]? = some a
  map : ∀ r m, L.map? r = some m → h.maps[r.id]? = some m
  struct : ∀ r s, L.struct? r = some s → h.structs[r.id]? = some s

def ArrayObject.Apart (a : ArrayObject) : Prop := ∀ v ∈ a.values, v.Apart L

def MapObject.Apart (m : MapObject) : Prop := ∀ p ∈ m.entries, p.2.Apart L

def StructObject.Apart (s : StructObject) : Prop := ∀ p ∈ s.fields, p.2.Apart L

def PackageObject.Apart (p : PackageObject) : Prop := ∀ x ∈ p.items, x.2.Apart L

def ChannelObject.Apart (c : ChannelObject) : Prop := ∀ v ∈ c.queue, v.Apart L

/-- The objects of the literals are there, and all other objects hold values apart from them. -/
structure Heap.Apart (h : Heap) : Prop where
  arrays : Guarded (fun i => L.array? ⟨i⟩) (ArrayObject.Apart L) ⟨.interface, #[], 0⟩ h.arrays
  maps : Guarded (fun i => L.map? ⟨i⟩) (MapObject.Apart L) ⟨.interface, .interface, [], 0⟩ h.maps
  structs : Guarded (fun i => L.struct? ⟨i⟩) (StructObject.Apart L)
    { type := .ofKind .struct, fields := [] } h.structs
  packages : Guarded (fun _ => none) (PackageObject.Apart L) { name := "" } h.packages
  channels : Guarded (fun _ => none) (ChannelObject.Apart L) (.ofCapacity 1) h.channels
  methods : Guarded (fun _ => none) (fun l : List (String × Value) => ∀ p ∈ l, p.2.Apart L) []
    h.methods

end

/-! ### Lists of pairs -/

namespace Assoc

variable {κ ν : Type} [BEq κ] {P : ν → Prop}

theorem forall_insert {l : List (κ × ν)} (hl : ∀ p ∈ l, P p.2) (k : κ) {v : ν} (hv : P v) :
    ∀ p ∈ insert k v l, P p.2 := by
  induction l with
  | nil => simpa [insert] using hv
  | cons q rest ih =>
    obtain ⟨hq, hrest⟩ := List.forall_mem_cons.1 hl
    unfold insert
    split
    · exact List.forall_mem_cons.2 ⟨hv, hrest⟩
    · exact List.forall_mem_cons.2 ⟨hq, ih hrest⟩

theorem forall_erase {l : List (κ × ν)} (hl : ∀ p ∈ l, P p.2) (k : κ) :
    ∀ p ∈ erase k l, P p.2 := by
  induction l with
  | nil => simp [erase]
  | cons q rest ih =>
    obtain ⟨hq, hrest⟩ := List.forall_mem_cons.1 hl
    unfold erase
    split
    · exact hrest
    · exact List.forall_mem_cons.2 ⟨hq, ih hrest⟩

theorem of_lookup {l : List (κ × ν)} (hl : ∀ p ∈ l, P p.2) {k : κ} {v : ν}
    (h : l.lookup k = some v) : P v := by
  induction l with
  | nil => cases h
  | cons q rest ih =>
    obtain ⟨hq, hrest⟩ := List.forall_mem_cons.1 hl
    rw [lookup_cons] at h
    split at h
    · cases h
      exact hq
    · exact ih hrest h

end Assoc

/-! ### Changes of objects -/

section

variable {L : Literals} {v w : Value}

namespace ArrayObject.Apart

variable {a : ArrayObject}

theorem get (ha : a.Apart L) (index : Nat) : Ensures (a.get index) (Value.Apart L) := by
  unfold ArrayObject.get
  split
  · rename_i v hv
    exact .ok (ha v (Array.mem_of_getElem? hv))
  · exact .error _

theorem set (ha : a.Apart L) (index : Nat) (hv : v.Apart L) (t : Ty) :
    Ensures (a.set index v t) (ArrayObject.Apart L) := by
  refine .bind (.any _) fun _ _ => .bind (.any _) fun _ _ => ?_
  split
  · refine .ok fun w hw => ?_
    rcases Array.mem_or_eq_of_mem_setIfInBounds hw with hw | rfl
    · exact ha w hw
    · exact hv
  · exact .error _

theorem append (ha : a.Apart L) (hv : v.Apart L) (t : Ty) :
    Ensures (a.append v t) (ArrayObject.Apart L) := by
  refine .bind (.any _) fun _ _ => .bind (.any _) fun _ _ => .ok fun w hw => ?_
  rcases Array.mem_push.1 hw with hw | rfl
  · exact ha w hw
  · exact hv

theorem delete (ha : a.Apart L) (index : Nat) :
    Ensures (a.delete index) fun p => p.1.Apart L ∧ p.2.Apart L := by
  refine .bind (.any _) fun _ _ => ?_
  split
  · rename_i v hv
    refine .ok ⟨ha v (Array.mem_of_getElem? hv), fun w hw => ha w ?_⟩
    unfold Array.eraseIdxIfInBounds at hw
    split at hw
    · exact Array.mem_of_mem_eraseIdx hw
    · exact hw
  · exact .error _

theorem slice (ha : a.Apart L) (start stop : Nat) :
    Ensures (a.slice start stop) (ArrayObject.Apart L) := by
  unfold ArrayObject.slice
  split
  · exact .ok fun w hw => ha w (mem_of_mem_extract hw)
  · exact .error _

theorem reversed (ha : a.Apart L) : a.reversed.Apart L := fun w hw =>
  ha w (by simpa [ArrayObject.reversed] using hw)

theorem replaceAll {values : Array Value} (h : ∀ v ∈ values, v.Apart L) :
    Ensures (a.replaceAll values) (ArrayObject.Apart L) := .bind (.any _) fun _ _ => .ok h

end ArrayObject.Apart

namespace MapObject.Apart

variable {m : MapObject}

theorem get (hm : m.Apart L) (key : Value) :
    Ensures (m.get key) fun found => ∀ v, found = some v → v.Apart L :=
  .bind (.any _) fun _ _ => .ok fun _ hv => Assoc.of_lookup hm hv

theorem set (hm : m.Apart L) (key : Value) (hv : v.Apart L) (kt vt : Ty) :
    Ensures (m.set key v kt vt) (MapObject.Apart L) := by
  intro m' hset
  obtain ⟨k, -, rfl, -⟩ := MapObject.set_eq_ok hset
  exact Assoc.forall_insert hm k hv

theorem delete (hm : m.Apart L) (key : Value) :
    Ensures (m.delete key) fun p => p.2.Apart L :=
  .bind (.any _) fun k _ => .ok (Assoc.forall_erase hm k)

theorem keys (m : MapObject) : ∀ v ∈ m.keys, v.Apart L := by
  intro v hv
  obtain ⟨k, -, rfl⟩ := List.mem_map.1 hv
  exact .ofKey _ k

end MapObject.Apart

namespace StructObject.Apart

variable {s : StructObject}

theorem get? (hs : s.Apart L) {name : String} (h : s.get? name = some v) : v.Apart L :=
  Assoc.of_lookup hs h

theorem set (hs : s.Apart L) (name : String) (hv : v.Apart L) (t : Ty) :
    Ensures (s.set name v t) (StructObject.Apart L) := by
  unfold StructObject.set
  dsimp only
  split
  · exact .error _
  · split
    · exact .error _
    · split
      · exact .error _
      · split
        · exact .error _
        · exact .ok (Assoc.forall_insert hs name hv)

end StructObject.Apart

theorem PackageObject.Apart.get? {p : PackageObject} (hp : p.Apart L) {name : String}
    (h : p.get? name = some v) : v.Apart L := Assoc.of_lookup hp h

theorem PackageObject.Apart.set {p : PackageObject} (hp : p.Apart L) (name : String)
    (hv : v.Apart L) : (p.set name v).Apart L := Assoc.forall_insert hp name hv

namespace ChannelObject.Apart

variable {c d : ChannelObject}

theorem send (hc : c.Apart L) (hv : v.Apart L) (h : c.send v = .done d) : d.Apart L := by
  intro w hw
  rw [ChannelObject.queue_of_send h] at hw
  rcases List.mem_append.1 hw with hw | hw
  · exact hc w hw
  · rw [List.mem_singleton.1 hw]
    exact hv

theorem receive (hc : c.Apart L) (h : c.receive = .done (v, d)) : v.Apart L ∧ d.Apart L := by
  have hqueue := ChannelObject.queue_of_receive h
  unfold ChannelObject.Apart at hc
  rw [hqueue] at hc
  exact List.forall_mem_cons.1 hc

end ChannelObject.Apart

end

namespace Heap.Apart

variable {L : Literals} {v w : Value} {h : Heap}

theorem literals (hh : h.Apart L) : L.Within h :=
  ⟨fun r => hh.arrays.there r.id, fun r => hh.maps.there r.id, fun r => hh.structs.there r.id⟩

/-! ### What objects hold -/

theorem array (hh : h.Apart L) {r : Ref .array} (hr : (Value.array r).Apart L) :
    (h.array r).Apart L := hh.arrays.others r.id (Value.Apart.array_iff.1 hr)

theorem map (hh : h.Apart L) {r : Ref .map} (hr : (Value.map r).Apart L) :
    (h.map r).Apart L := hh.maps.others r.id (Value.Apart.map_iff.1 hr)

theorem struct (hh : h.Apart L) {r : Ref .struct} (hr : (Value.struct r).Apart L) :
    (h.struct r).Apart L := hh.structs.others r.id (Value.Apart.struct_iff.1 hr)

theorem package (hh : h.Apart L) (r : Ref .package) : (h.package r).Apart L :=
  hh.packages.others r.id rfl

theorem channel (hh : h.Apart L) (r : Ref .channel) : (h.channel r).Apart L :=
  hh.channels.others r.id rfl

theorem declared (hh : h.Apart L) (d : Decl) : ∀ p ∈ h.declared d, p.2.Apart L := by
  cases d with
  | none => exact nofun
  | some r => exact hh.methods.others r.id rfl

theorem method? (hh : h.Apart L) {t : Ty} {name : String} (hv : h.method? t name = some v) :
    v.Apart L := by
  fun_induction Heap.method? h t name with
  | case1 d n p b name ih =>
    cases hfound : (h.declared d).lookup name with
    | some f =>
      rw [hfound] at hv
      cases hv
      exact Assoc.of_lookup (hh.declared d) hfound
    | none =>
      rw [hfound] at hv
      exact ih hv
  | case2 t name => exact Assoc.of_lookup (hh.declared _) hv

/-! ### New objects -/

theorem newArray {a : ArrayObject} (ha : a.Apart L) :
    Maintains (Heap.Apart L) (Heap.newArray a) fun r => (Value.array r).Apart L :=
  fun _ hh => ⟨{ hh with arrays := hh.arrays.push ha }, .array_iff.2 hh.arrays.fresh⟩

theorem newMap {m : MapObject} (hm : m.Apart L) :
    Maintains (Heap.Apart L) (Heap.newMap m) fun r => (Value.map r).Apart L :=
  fun _ hh => ⟨{ hh with maps := hh.maps.push hm }, .map_iff.2 hh.maps.fresh⟩

theorem newStruct {s : StructObject} (hs : s.Apart L) :
    Maintains (Heap.Apart L) (Heap.newStruct s) fun r => (Value.struct r).Apart L :=
  fun _ hh => ⟨{ hh with structs := hh.structs.push hs }, .struct_iff.2 hh.structs.fresh⟩

theorem newPackage {p : PackageObject} (hp : p.Apart L) :
    Maintains (Heap.Apart L) (Heap.newPackage p) fun _ => True :=
  fun _ hh => ⟨{ hh with packages := hh.packages.push hp }, trivial⟩

theorem newChannel {c : ChannelObject} (hc : c.Apart L) :
    Maintains (Heap.Apart L) (Heap.newChannel c) fun _ => True :=
  fun _ hh => ⟨{ hh with channels := hh.channels.push hc }, trivial⟩

theorem newMethods : Maintains (Heap.Apart L) Heap.newMethods fun _ => True :=
  fun _ hh => ⟨{ hh with methods := hh.methods.push nofun }, trivial⟩

theorem newMutex : Maintains (Heap.Apart L) Heap.newMutex fun _ => True :=
  fun _ hh => ⟨{ hh with }, trivial⟩

theorem newWaitGroup : Maintains (Heap.Apart L) Heap.newWaitGroup fun _ => True :=
  fun _ hh => ⟨{ hh with }, trivial⟩

/-! ### Objects in place of others -/

theorem putArray {r : Ref .array} {a : ArrayObject} (hr : (Value.array r).Apart L)
    (ha : a.Apart L) : Maintains (Heap.Apart L) (Heap.putArray r a) fun _ => True :=
  fun _ hh => ⟨{ hh with arrays := hh.arrays.set (Value.Apart.array_iff.1 hr) ha }, trivial⟩

theorem putMap {r : Ref .map} {m : MapObject} (hr : (Value.map r).Apart L) (hm : m.Apart L) :
    Maintains (Heap.Apart L) (Heap.putMap r m) fun _ => True :=
  fun _ hh => ⟨{ hh with maps := hh.maps.set (Value.Apart.map_iff.1 hr) hm }, trivial⟩

theorem putStruct {r : Ref .struct} {s : StructObject} (hr : (Value.struct r).Apart L)
    (hs : s.Apart L) : Maintains (Heap.Apart L) (Heap.putStruct r s) fun _ => True :=
  fun _ hh => ⟨{ hh with structs := hh.structs.set (Value.Apart.struct_iff.1 hr) hs }, trivial⟩

theorem putPackage {r : Ref .package} {p : PackageObject} (hp : p.Apart L) :
    Maintains (Heap.Apart L) (Heap.putPackage r p) fun _ => True :=
  fun _ hh => ⟨{ hh with packages := hh.packages.set rfl hp }, trivial⟩

theorem putChannel {r : Ref .channel} {c : ChannelObject} (hc : c.Apart L) :
    Maintains (Heap.Apart L) (Heap.putChannel r c) fun _ => True :=
  fun _ hh => ⟨{ hh with channels := hh.channels.set rfl hc }, trivial⟩

theorem putLocked (r : Ref .mutex) (b : Bool) :
    Maintains (Heap.Apart L) (Heap.putLocked r b) fun _ => True :=
  fun _ hh => ⟨{ hh with }, trivial⟩

theorem putWaitCount (r : Ref .waitGroup) (n : Int64) :
    Maintains (Heap.Apart L) (Heap.putWaitCount r n) fun _ => True :=
  fun _ hh => ⟨{ hh with }, trivial⟩

theorem addMethod (t : Ty) (name : String) (hv : v.Apart L) :
    Maintains (Heap.Apart L) (Heap.addMethod t name v) fun _ => True := by
  unfold Heap.addMethod
  split
  · exact .write fun h hh =>
      { hh with methods := hh.methods.modify rfl fun l hl => Assoc.forall_insert hl name hv }
  · exact .pure trivial

theorem newList {values : List Value} (h : ∀ v ∈ values, v.Apart L) :
    Maintains (Heap.Apart L) (Heap.newList values) (Value.Apart L) :=
  (newArray fun v hv => h v (by simpa using hv)).bind fun _ hr => .pure hr

/-! ### Changes of arrays -/

theorem setElement {r : Ref .array} (hr : (Value.array r).Apart L) (index : Nat)
    (hv : v.Apart L) : Upholds (Heap.Apart L) (Heap.setElement r index v) fun _ => True :=
  .bind .get fun _ hh => .bind (.ofExcept ((hh.array hr).set index hv _)) fun _ ha =>
    .lift (putArray hr ha)

theorem appendElement {r : Ref .array} (hr : (Value.array r).Apart L) (hv : v.Apart L) :
    Upholds (Heap.Apart L) (Heap.appendElement r v) fun _ => True :=
  .bind .get fun _ hh => .bind (.ofExcept ((hh.array hr).append hv _)) fun _ ha =>
    .lift (putArray hr ha)

theorem deleteElement {r : Ref .array} (hr : (Value.array r).Apart L) (index : Nat) :
    Upholds (Heap.Apart L) (Heap.deleteElement r index) (Value.Apart L) :=
  .bind .get fun _ hh => .bind (.ofExcept ((hh.array hr).delete index)) fun _ hp =>
    .bind (.lift (putArray hr hp.2)) fun _ _ => .pure hp.1

theorem replaceElements {r : Ref .array} (hr : (Value.array r).Apart L) {values : Array Value}
    (h : ∀ v ∈ values, v.Apart L) :
    Upholds (Heap.Apart L) (Heap.replaceElements r values) fun _ => True :=
  .bind .get fun _ _ => .bind (.ofExcept (.replaceAll h)) fun _ ha => .lift (putArray hr ha)

/-! ### Changes of maps and structs -/

theorem setEntry {r : Ref .map} (hr : (Value.map r).Apart L) (key : Value) (hv : v.Apart L) :
    Upholds (Heap.Apart L) (Heap.setEntry r key v) fun _ => True :=
  .bind .get fun _ hh => .bind (.ofExcept ((hh.map hr).set key hv _ _)) fun _ hm =>
    .lift (putMap hr hm)

theorem deleteEntry {r : Ref .map} (hr : (Value.map r).Apart L) (key : Value) :
    Upholds (Heap.Apart L) (Heap.deleteEntry r key) fun _ => True :=
  .bind .get fun _ hh => .bind (.ofExcept ((hh.map hr).delete key)) fun _ hp =>
    .bind (.lift (putMap hr hp)) fun _ _ => .pure trivial

theorem mergeEntries {r source : Ref .map} (hr : (Value.map r).Apart L)
    (hsource : (Value.map source).Apart L) :
    Upholds (Heap.Apart L) (Heap.mergeEntries r source) fun _ => True := by
  refine .ite (.pure trivial) (.bind .get fun h hh => .bind (.forIn fun key _ => ?_) fun _ _ => .pure trivial)
  refine .bind (.ofExcept ((hh.map hsource).get key)) fun found hfound => ?_
  refine .bind (setEntry hr key ?_) fun _ _ => .pure trivial
  cases found with
  | none => exact .plain rfl rfl
  | some v => exact hfound v rfl

theorem setField {r : Ref .struct} (hr : (Value.struct r).Apart L) (name : String)
    (hv : v.Apart L) : Upholds (Heap.Apart L) (Heap.setField r name v) fun _ => True :=
  .bind .get fun _ hh => .bind (.ofExcept ((hh.struct hr).set name hv _)) fun _ hs =>
    .lift (putStruct hr hs)

end Heap.Apart

end ScriptMachine
