import Mathlib.Data.Set.Card
import ScriptMachine.Heap.Json
import ScriptMachine.Proofs.Equality.Containers
import ScriptMachine.Proofs.Literals.Copies
import ScriptMachine.Proofs.Rendering.KeyTexts

/-!
# JSON documents of whole values

A value without cycles is rendered part by part: its parts have the documents that they have on
their own, since the depth that rendering allows for exceeds what the value nests. Arrays and
structs keep all their parts. The entries of a map are bound to the texts of their keys, so of two
keys that are spelled alike only one is left.

* `Heap.Acyclic`: no container in a value contains itself; `Heap.nests_of_acyclic`: by counting,
  such a value nests no more containers than there are.
* `Heap.toJson_eq_jsonBy`: the document of a value from those of its parts.
* `Heap.ShowsEntries`: which entries of a map its document shows; `Heap.ShowsEntries.complete`: all
  of them where the keys are of one sort.
* `Heap.toJson_of_acyclic`: arrays, structs and maps anywhere in a value.
-/

namespace ScriptMachine

/-! ### Bindings of one name -/

namespace Assoc

variable {κ ν : Type} [BEq κ] {k : κ} {v : ν} {p : κ × ν} {l pairs : List (κ × ν)}

theorem insertAll_concat (pairs : List (κ × ν)) (p : κ × ν) :
    insertAll (pairs ++ [p]) = insert p.1 p.2 (insertAll pairs) := by
  rw [insertAll, List.foldl_append]
  rfl

variable [LawfulBEq κ]

theorem mem_insert (hp : p ∈ insert k v l) : p ∈ l ∨ p = (k, v) := by
  induction l with
  | nil => exact .inr (List.mem_singleton.1 hp)
  | cons q rest ih =>
    rw [insert] at hp
    split at hp
    · rename_i hk
      rcases List.mem_cons.1 hp with rfl | hp
      · exact .inr (by rw [eq_of_beq hk])
      · exact .inl (List.mem_cons_of_mem _ hp)
    · rcases List.mem_cons.1 hp with rfl | hp
      · exact .inl List.mem_cons_self
      · exact (ih hp).imp_left (List.mem_cons_of_mem _)

theorem insert_of_notMem (hk : k ∉ l.map (·.1)) : insert k v l = l ++ [(k, v)] := by
  induction l with
  | nil => rfl
  | cons q rest ih =>
    rw [List.map_cons, List.mem_cons, not_or] at hk
    rw [insert, if_neg (by simpa using hk.1), ih hk.2, List.cons_append]

/-- Nothing else is bound than what was to be bound. -/
theorem mem_of_mem_insertAll (hp : p ∈ insertAll pairs) : p ∈ pairs := by
  induction pairs using List.reverseRecOn with
  | nil => cases hp
  | append_singleton pairs q ih =>
    rw [insertAll_concat] at hp
    exact List.mem_append.2 ((mem_insert hp).imp ih List.mem_singleton.2)

theorem mem_keys_insertAll : k ∈ (insertAll pairs).map (·.1) ↔ k ∈ pairs.map (·.1) := by
  induction pairs using List.reverseRecOn with
  | nil => rfl
  | append_singleton pairs q ih =>
    rw [insertAll_concat, map_fst_insert, List.map_append, List.mem_append, ← ih]
    split
    · rename_i hbound
      rw [contains_iff_mem] at hbound
      refine ⟨.inl, fun h => h.elim id fun hk => ?_⟩
      obtain rfl := List.mem_singleton.1 hk
      exact hbound
    · exact List.mem_append

/-- Bindings of different names stay as they are. -/
theorem insertAll_of_nodup (hpairs : (pairs.map (·.1)).Nodup) : insertAll pairs = pairs := by
  induction pairs using List.reverseRecOn with
  | nil => rfl
  | append_singleton pairs q ih =>
    rw [List.map_append] at hpairs
    obtain ⟨hpairs, -, hdisjoint⟩ := List.nodup_append.1 hpairs
    rw [insertAll_concat, ih hpairs]
    exact insert_of_notMem fun hq => hdisjoint _ hq _ (List.mem_singleton_self _) rfl

/-- As many are bound as were to be bound just if their names differ. -/
theorem length_insertAll_eq_iff :
    (insertAll pairs).length = pairs.length ↔ (pairs.map (·.1)).Nodup := by
  constructor
  · intro hlength
    have hsub : ((insertAll pairs).map (·.1)).Subperm (pairs.map (·.1)) :=
      List.subperm_of_subset (nodup_insertAll pairs) fun k hk => mem_keys_insertAll.1 hk
    have hperm := hsub.perm_of_length_le (by rw [List.length_map, List.length_map, hlength])
    exact hperm.nodup_iff.1 (nodup_insertAll pairs)
  · intro hpairs
    rw [insertAll_of_nodup hpairs]

end Assoc

namespace Heap

variable {h : Heap} {v u x w : Value}

/-! ### Values without cycles -/

/-- No container in a value contains itself. -/
def Acyclic (h : Heap) (v : Value) : Prop :=
  ∀ u, h.Reaches v u → ∀ x, h.Part u x → ¬ h.Reaches x u

theorem Part.of_unwrapped (hx : h.Part v.unwrapped x) : h.Part v x := by
  cases hx with
  | element hv hx => exact .element (v.unwrapped_unwrapped ▸ hv) hx
  | entry hv hp => exact .entry (v.unwrapped_unwrapped ▸ hv) hp
  | field hv hp => exact .field (v.unwrapped_unwrapped ▸ hv) hp

theorem Part.unwrapped (hx : h.Part v x) : h.Part v.unwrapped x := by
  cases hx with
  | element hv hx => exact .element (v.unwrapped_unwrapped.trans hv) hx
  | entry hv hp => exact .entry (v.unwrapped_unwrapped.trans hv) hp
  | field hv hp => exact .field (v.unwrapped_unwrapped.trans hv) hp

theorem Reaches.trans (hu : h.Reaches v u) (hw : h.Reaches u w) : h.Reaches v w := by
  induction hu with
  | self v =>
    cases hw with
    | self => rw [v.unwrapped_unwrapped]; exact .self v
    | part hx hw => exact .part hx.of_unwrapped hw
  | part hx _ ih => exact .part hx (ih hw)

theorem Reaches.unwrapped (hu : h.Reaches v u) : u.unwrapped = u := by
  induction hu with
  | self v => exact v.unwrapped_unwrapped
  | part _ _ ih => exact ih

theorem Acyclic.of_reaches (hv : h.Acyclic v) (hu : h.Reaches v u) : h.Acyclic u :=
  fun w hw => hv w (hu.trans hw)

theorem Acyclic.part (hv : h.Acyclic v) (hx : h.Part v x) : h.Acyclic x :=
  fun w hw => hv w (.part hx hw)

/-- There are no cycles where every part has less of something than its container. -/
theorem acyclic_of_lt (size : Value → Nat)
    (hsize : ∀ u x, h.Part u x → size x.unwrapped < size u.unwrapped) (v : Value) :
    h.Acyclic v := by
  have hle : ∀ {w u}, h.Reaches w u → size u ≤ size w.unwrapped := by
    intro w u hu
    induction hu with
    | self w => exact le_rfl
    | part hx _ ih => exact ih.trans (hsize _ _ hx).le
  intro u hu x hx hback
  have hless := hsize u x hx
  rw [hu.unwrapped] at hless
  exact absurd (hle hback) (Nat.not_le.2 hless)

/-- A value nests at most so many containers below itself. -/
def Nests (h : Heap) : Nat → Value → Prop
  | 0, v => ∀ x, ¬ h.Part v x
  | n + 1, v => ∀ x, h.Part v x → h.Nests n x

/-- The containers with parts that a value reaches. -/
def holders (h : Heap) (v : Value) : Set Value := {u | h.Reaches v u ∧ ∃ x, h.Part u x}

theorem finite_containers (h : Heap) : {u | u ∈ h.containers}.Finite := List.finite_toSet _

theorem ncard_containers_lt (h : Heap) : {u | u ∈ h.containers}.ncard < h.depth := by
  classical
  have hset : {u | u ∈ h.containers} = (h.containers.toFinset : Set Value) := by
    ext u
    rw [Finset.mem_coe, List.mem_toFinset]
    rfl
  have hcard := h.containers.toFinset_card_le
  have hlength := h.length_containers
  rw [hset, Set.ncard_coe_finset]
  omega

/-- A reference that leads nowhere leads to an empty container. -/
theorem holders_subset (h : Heap) (v : Value) : h.holders v ⊆ {u | u ∈ h.containers} := by
  rintro u ⟨hu, x, hx⟩
  show u ∈ h.containers
  cases hx with
  | @element _ r hr hx =>
    rw [hu.unwrapped] at hr
    have hlt : r.id < h.arrays.size := by
      by_contra hout
      rw [array, Array.getElem?_eq_none (by omega)] at hx
      exact absurd hx (Array.not_mem_empty x)
    simpa [containers, hr] using ⟨r.id, hlt, rfl⟩
  | @entry _ r hr hp =>
    rw [hu.unwrapped] at hr
    have hlt : r.id < h.maps.size := by
      by_contra hout
      rw [map, Array.getElem?_eq_none (by omega)] at hp
      cases hp
    simpa [containers, hr] using ⟨r.id, hlt, rfl⟩
  | @field _ r hr hp =>
    rw [hu.unwrapped] at hr
    have hlt : r.id < h.structs.size := by
      by_contra hout
      rw [struct, Array.getElem?_eq_none (by omega)] at hp
      cases hp
    simpa [containers, hr] using ⟨r.id, hlt, rfl⟩

/-- A part of a value without cycles reaches fewer containers. -/
theorem ncard_holders_lt (hv : h.Acyclic v) (hx : h.Part v x) :
    (h.holders x).ncard < (h.holders v).ncard := by
  refine Set.ncard_lt_ncard ⟨fun u hu => ⟨.part hx hu.1, hu.2⟩, fun hsub => ?_⟩
    (h.finite_containers.subset (h.holders_subset v))
  exact hv _ (.self v) x hx.unwrapped (hsub ⟨.self v, x, hx.unwrapped⟩).1

theorem nests_of_ncard_le {n : Nat} (hv : h.Acyclic v) (hn : (h.holders v).ncard ≤ n) :
    h.Nests n v := by
  induction n generalizing v with
  | zero =>
    intro x hx
    have := ncard_holders_lt hv hx
    omega
  | succ n ih =>
    intro x hx
    have := ncard_holders_lt hv hx
    exact ih (hv.part hx) (by omega)

/-- **A value without cycles** nests fewer containers than the depth that rendering allows for. -/
theorem nests_of_acyclic (hv : h.Acyclic v) :
    h.Nests (h.arrays.size + h.maps.size + h.structs.size) v := by
  have hsub := Set.ncard_le_ncard (h.holders_subset v) h.finite_containers
  have hlt := h.ncard_containers_lt
  exact nests_of_ncard_le hv (by unfold depth at hlt; omega)

/-! ### Parts -/

variable {d e n : Nat}

/-- The document of a value, where `inner` renders the parts. -/
def jsonBy (h : Heap) (inner : Value → Json) (v : Value) : Json :=
  match v.unwrapped with
  | .array r => .array ((h.array r).values.toList.map inner)
  | .map r =>
    .object (Assoc.insertAll ((h.map r).keys.map fun key =>
      (h.display key, inner ((h.map r).getOrNull key))))
  | .struct r => .object (Assoc.insertAll ((h.struct r).visible.map fun p => (p.1, inner p.2)))
  | u => h.plainJson u

theorem jsonWithin_succ (d : Nat) (v : Value) :
    h.jsonWithin (d + 1) v = h.jsonBy (h.jsonWithin d) v := by
  unfold jsonWithin jsonBy
  cases v.unwrapped <;> rfl

theorem jsonWithin_null (d : Nat) : h.jsonWithin d .null = .null := by
  cases d <;> rfl

/-- What a map finds for a key is nothing or one of its parts. -/
theorem getOrNull_eq (m : MapObject) (key : Value) :
    m.getOrNull key = .null ∨ ∃ e ∈ m.entries, m.getOrNull key = e.2 := by
  unfold MapObject.getOrNull
  split
  · rename_i x hx
    unfold MapObject.get at hx
    cases hkey : Key.ofValue key with
    | error f =>
      rw [hkey] at hx
      cases hx
    | ok k =>
      rw [hkey] at hx
      have hfound : m.entries.lookup k = some x := Except.ok.inj hx
      obtain ⟨p, hp, rfl⟩ := Assoc.exists_pairAt? hfound
      exact .inr ⟨p, (Assoc.pairAt?_spec hp).1, rfl⟩
  · exact .inl rfl

/-- Only the parts of the value are rendered by `inner`, and nil for a key that is not there. -/
theorem jsonBy_congr {f g : Value → Json} (hnull : f .null = g .null)
    (hparts : ∀ x, h.Part v x → f x = g x) : h.jsonBy f v = h.jsonBy g v := by
  unfold jsonBy
  cases hv : v.unwrapped with
  | array r =>
    refine congrArg Json.array (List.map_congr_left fun x hx => ?_)
    exact hparts x (.element hv (Array.mem_toList_iff.1 hx))
  | map r =>
    refine congrArg (Json.object ∘ Assoc.insertAll) (List.map_congr_left fun key _ => ?_)
    rcases getOrNull_eq (h.map r) key with heq | ⟨p, hp, heq⟩
    · rw [heq, hnull]
    · rw [heq, hparts _ (.entry hv hp)]
  | struct r =>
    refine congrArg (Json.object ∘ Assoc.insertAll) (List.map_congr_left fun p hp => ?_)
    rw [hparts _ (.field hv (List.mem_filter.1 hp).1)]
  | _ => rfl

/-- Any depth greater than that of the value gives the same document. -/
theorem jsonWithin_of_nests (hv : h.Nests n v) (hd : n < d) (he : n < e) :
    h.jsonWithin d v = h.jsonWithin e v := by
  induction n generalizing d e v with
  | zero =>
    obtain ⟨d, rfl⟩ := Nat.exists_eq_succ_of_ne_zero hd.ne'
    obtain ⟨e, rfl⟩ := Nat.exists_eq_succ_of_ne_zero he.ne'
    rw [jsonWithin_succ, jsonWithin_succ]
    exact jsonBy_congr (by rw [jsonWithin_null, jsonWithin_null]) fun x hx => absurd hx (hv x)
  | succ n ih =>
    obtain ⟨d, rfl⟩ := Nat.exists_eq_succ_of_ne_zero (Nat.ne_zero_of_lt hd)
    obtain ⟨e, rfl⟩ := Nat.exists_eq_succ_of_ne_zero (Nat.ne_zero_of_lt he)
    rw [jsonWithin_succ, jsonWithin_succ]
    exact jsonBy_congr (by rw [jsonWithin_null, jsonWithin_null]) fun x hx =>
      ih (hv x hx) (Nat.lt_of_succ_lt_succ hd) (Nat.lt_of_succ_lt_succ he)

/-- **The parts of a value without cycles** are rendered in it as they are on their own. -/
theorem toJson_eq_jsonBy (hv : h.Acyclic v) : h.toJson v = h.jsonBy h.toJson v := by
  have hnests := nests_of_acyclic hv
  rw [toJson, depth, jsonWithin_succ]
  refine jsonBy_congr (by rw [toJson, jsonWithin_null, jsonWithin_null]) fun x hx => ?_
  unfold toJson depth
  generalize h.arrays.size + h.maps.size + h.structs.size = n at *
  cases n with
  | zero => exact absurd hx (hnests x)
  | succ n => exact jsonWithin_of_nests (hnests x hx) (by omega) (by omega)

/-! ### Entries -/

/-- The member that an entry of a map is rendered to. -/
def member (h : Heap) (type : Ty) (e : Key × Value) : String × Json := (e.1.text type, h.toJson e.2)

/-- **The entries of a map, in the order of the keys**, each under the text of its key. -/
theorem pairs_perm {m : MapObject} (hm : m.Keyed) :
    (m.keys.map fun key => (h.display key, h.toJson (m.getOrNull key))).Perm
      (m.entries.map (h.member m.keyType)) := by
  let shown (k : Key) : String × Json :=
    (k.text m.keyType, h.toJson ((m.entries.lookup k).getD .null))
  have hpair : ∀ k ∈ m.sortedKeys,
      (h.display (k.toValue m.keyType), h.toJson (m.getOrNull (k.toValue m.keyType)))
        = shown k := by
    intro k hk
    rw [Key.display_toValue, MapObject.getOrNull, hm.get_toValue hk]
    dsimp only [shown]
    cases m.entries.lookup k <;> rfl
  have hentry : ∀ e ∈ m.entries, shown e.1 = h.member m.keyType e := by
    intro e he
    dsimp only [shown]
    rw [Assoc.lookup_of_mem hm.distinct he]
    rfl
  calc m.keys.map (fun key => (h.display key, h.toJson (m.getOrNull key)))
      = m.sortedKeys.map shown := by
        rw [m.keys_eq, List.map_map]
        exact List.map_congr_left hpair
    List.Perm _ ((m.entries.map (·.1)).map shown) := m.sortedKeys_perm.map shown
    _ = m.entries.map (h.member m.keyType) := by
        rw [List.map_map]
        exact List.map_congr_left hentry

/-- What the members of a document show of the entries of a map. -/
structure ShowsEntries (h : Heap) (m : MapObject) (members : List (String × Json)) : Prop where
  /-- The names differ, -/
  named : (members.map (·.1)).Nodup
  /-- each member is the rendering of an entry, -/
  drawn : ∀ p ∈ members, ∃ e ∈ m.entries, p = h.member m.keyType e
  /-- and there is a member under the text of each key. -/
  covered : ∀ e ∈ m.entries, e.1.text m.keyType ∈ members.map (·.1)
  /-- An entry whose key is not spelled like another is found under the text of its key. -/
  kept : ∀ e ∈ m.entries, (∀ e' ∈ m.entries, Key.Alike m.keyType e.1 e'.1 → e' = e) →
    members.lookup (e.1.text m.keyType) = some (h.toJson e.2)
  /-- There are as many members as entries just if no two keys are spelled alike. -/
  as_many_iff : members.length = m.entries.length ↔
    (m.entries.map (·.1)).Pairwise fun a b => ¬ Key.Alike m.keyType a b

/-- Keys have different texts just if no two of them are spelled alike. -/
theorem nodup_texts_iff {m : MapObject} (hm : m.Keyed) :
    ((m.entries.map (h.member m.keyType)).map (·.1)).Nodup ↔
      (m.entries.map (·.1)).Pairwise fun a b => ¬ Key.Alike m.keyType a b := by
  have hkeys : (m.entries.map (h.member m.keyType)).map (·.1)
      = (m.entries.map (·.1)).map (Key.text m.keyType) := by
    rw [List.map_map, List.map_map]
    rfl
  have hiff : ∀ {a b}, a ∈ m.entries.map (·.1) → b ∈ m.entries.map (·.1) → (a == b) = false →
      (a.text m.keyType ≠ b.text m.keyType ↔ ¬ Key.Alike m.keyType a b) :=
    fun ha hb hne => (Key.text_eq_iff (hm.fits _ ha) (hm.fits _ hb) hne).not
  rw [hkeys, List.Nodup, List.pairwise_map]
  constructor
  · intro htexts
    exact (hm.distinct.and htexts).imp_of_mem fun ha hb h => (hiff ha hb h.1).1 h.2
  · intro halike
    exact (hm.distinct.and halike).imp_of_mem fun ha hb h => (hiff ha hb h.1).2 h.2

theorem showsEntries_insertAll {m : MapObject} (hm : m.Keyed) :
    h.ShowsEntries m (Assoc.insertAll
      (m.keys.map fun key => (h.display key, h.toJson (m.getOrNull key)))) := by
  have hperm := pairs_perm (h := h) hm
  have hdistinct : Assoc.Distinct m.entries := hm.distinct
  generalize m.keys.map (fun key => (h.display key, h.toJson (m.getOrNull key))) = pairs at *
  have hdrawn : ∀ p ∈ Assoc.insertAll pairs, ∃ e ∈ m.entries, p = h.member m.keyType e := by
    intro p hp
    obtain ⟨e, he, heq⟩ := List.mem_map.1 (hperm.subset (Assoc.mem_of_mem_insertAll hp))
    exact ⟨e, he, heq.symm⟩
  have hcovered : ∀ e ∈ m.entries, e.1.text m.keyType ∈ (Assoc.insertAll pairs).map (·.1) := by
    intro e he
    rw [Assoc.mem_keys_insertAll]
    exact List.mem_map.2 ⟨_, hperm.symm.subset (List.mem_map_of_mem he), rfl⟩
  refine ⟨Assoc.nodup_insertAll pairs, hdrawn, hcovered, fun e he honly => ?_, ?_⟩
  · have honlyText : ∀ p ∈ Assoc.insertAll pairs, p.1 = e.1.text m.keyType →
        p = h.member m.keyType e := by
      intro p hp hname
      obtain ⟨e', he', rfl⟩ := hdrawn p hp
      by_contra hne
      cases hkeys : e.1 == e'.1 with
      | true => exact hne (by rw [hdistinct.eq_of_beq he he' hkeys])
      | false =>
        have halike := (Key.text_eq_iff (hm.fits _ (List.mem_map_of_mem he))
          (hm.fits _ (List.mem_map_of_mem he')) hkeys).1 hname.symm
        exact hne (by rw [honly e' he' halike])
    obtain ⟨p, hp, hname⟩ := List.mem_map.1 (hcovered e he)
    rw [honlyText p hp hname] at hp
    exact Assoc.lookup_of_pairAt? (Assoc.pairAt?_of_unique hp BEq.rfl fun q hq hk =>
      honlyText q hq (eq_of_beq hk).symm)
  · have hlength := hperm.length_eq
    rw [List.length_map] at hlength
    rw [← hlength, Assoc.length_insertAll_eq_iff, (hperm.map _).nodup_iff]
    exact nodup_texts_iff hm

/-- **A map whose keys are of one sort** is rendered without loss, if floats among them are
numbers. -/
theorem ShowsEntries.complete {m : MapObject} {members : List (String × Json)}
    (hshows : h.ShowsEntries m members) (hm : m.Keyed)
    (hrank : ∀ e ∈ m.entries, ∀ e' ∈ m.entries, e.1.rank = e'.1.rank)
    (hnan : ∀ e ∈ m.entries, e.1.widest.isNaN = false) :
    members.length = m.entries.length ∧
      ∀ e ∈ m.entries, members.lookup (e.1.text m.keyType) = some (h.toJson e.2) := by
  have hdistinct : Assoc.Distinct m.entries := hm.distinct
  have hapart : ∀ e ∈ m.entries, ∀ e' ∈ m.entries, (e.1 == e'.1) = false →
      ¬ Key.Alike m.keyType e.1 e'.1 := fun e he e' he' hne =>
    Key.not_alike_of_rank (hm.fits _ (List.mem_map_of_mem he)) (hm.fits _ (List.mem_map_of_mem he'))
      hne (hrank e he e' he') (hnan e he)
  constructor
  · rw [hshows.as_many_iff, List.pairwise_map]
    exact (List.pairwise_map.1 hm.distinct).imp_of_mem fun he he' hne => hapart _ he _ he' hne
  · refine fun e he => hshows.kept e he fun e' he' halike => ?_
    cases hkeys : e.1 == e'.1 with
    | true => exact (hdistinct.eq_of_beq he he' hkeys).symm
    | false => exact absurd halike (hapart e he e' he' hkeys)

/-- How the containers among the values that a value reaches are rendered. -/
structure ShowsParts (h : Heap) (u : Value) : Prop where
  /-- Constants are rendered as what they wrap. -/
  wrapped : ∀ w, w.unwrapped = u → h.toJson w = h.toJson u
  array : ∀ r, u = .array r → h.toJson u = .array ((h.array r).values.toList.map h.toJson)
  struct : ∀ r, u = .struct r →
    h.toJson u = .object ((h.struct r).visible.map fun p => (p.1, h.toJson p.2))
  map : ∀ r, u = .map r → ∃ members, h.toJson u = .object members ∧ h.ShowsEntries (h.map r) members

/-- **A value without cycles is rendered part by part.** -/
theorem toJson_of_acyclic (hh : h.Tidy) (hv : h.Acyclic v) (hu : h.Reaches v u) :
    h.ShowsParts u := by
  have hjson := toJson_eq_jsonBy (hv.of_reaches hu)
  refine ⟨fun w hw => ?_, fun r hr => ?_, fun r hr => ?_, fun r hr => ?_⟩
  · unfold toJson depth jsonWithin
    rw [hw, hu.unwrapped]
  · subst hr
    exact hjson
  · subst hr
    have hnames : (((h.struct r).visible.map fun p => (p.1, h.toJson p.2)).map (·.1)).Nodup := by
      rw [List.map_map]
      exact (hh.named r).sublist (List.filter_sublist.map _)
    exact hjson.trans (congrArg Json.object (Assoc.insertAll_of_nodup hnames))
  · subst hr
    exact ⟨_, hjson, showsEntries_insertAll (hh.keyed r)⟩

/-- A list of one map, whose keys are an integer and a string that spells it. -/
def ledger : Heap where
  arrays := #[⟨.interface, #[.map ⟨0⟩], 0⟩]
  maps := #[⟨.interface, .interface, [(.int 1, .string "a"), (.string "1", .string "b")], 0⟩]

theorem tidy_ledger : ledger.Tidy where
  keyed := by
    rintro ⟨_ | n⟩
    · exact ⟨fun k _ => Key.fits_of_isInterface rfl k, by decide⟩
    · exact ⟨nofun, .nil⟩
  named _ := List.nodup_nil

/-- How high a value stands in the list: the list above the map, and the map above its entries. -/
def ledgerHeight : Value → Nat
  | .array _ => 2
  | .map _ => 1
  | _ => 0

theorem acyclic_ledger (v : Value) : ledger.Acyclic v := by
  refine acyclic_of_lt ledgerHeight (fun u x hx => ?_) v
  cases hx with
  | @element _ r hr hx =>
    rw [hr]
    obtain ⟨_ | n⟩ := r
    · obtain rfl : x = .map ⟨0⟩ := by simpa [ledger, array] using hx
      exact Nat.one_lt_two
    · exact absurd hx (Array.not_mem_empty x)
  | @entry p r hr hp =>
    rw [hr]
    obtain ⟨_ | n⟩ := r
    · have hp : p ∈ [(Key.int 1, Value.string "a"), (.string "1", .string "b")] := hp
      rw [List.mem_cons, List.mem_singleton] at hp
      rcases hp with rfl | rfl <;> exact Nat.zero_lt_one
    · cases hp
  | @field p r hr hp => cases hp

/-- The entry of the integer is lost. -/
theorem toJson_of_ledger :
    ledger.ShowsParts (.map ⟨0⟩) ∧ ledger.toJson (.map ⟨0⟩) = .object [("1", .string "b")] := by
  have hpart : ledger.Part (.array ⟨0⟩) (.map ⟨0⟩) := .element rfl (Array.mem_singleton_self _)
  exact ⟨toJson_of_acyclic tidy_ledger (acyclic_ledger _) (.part hpart (.self _)), rfl⟩

end Heap

end ScriptMachine
