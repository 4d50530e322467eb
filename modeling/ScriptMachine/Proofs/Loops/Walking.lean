import ScriptMachine.Proofs.Loops.Binding
import ScriptMachine.Machine.Containers

/-!
# What loops show

A loop over a string shows its characters with their offsets, a loop over a map its keys in ascending
order with their values at the time, and a loop over an array its elements with their indexes. The
offset of a character is the number of bytes before it; characters begin where a string may be cut.

* `runes_getElem?`: each character with its offset; `ofList_runes`: the characters make up the string.
* `sliceString_offsetOf`: a part of a string between two offsets.
* `Heap.Walkable`: what a loop can walk; `Heap.roundsOver`: how many rounds it has.
* `Heap.Shows`: what a round shows; `Heap.Exhausts`: all rounds together show all there is.
* `Heap.Keeps`: what cannot change while the loop is there; `Heap.Refuses`: attempts that fail.
* `Machine.BeginsLoop`: a loop begins next; `Machine.step_begins`.
* `finds_of_lt`, `finds_of_roundsOver`: the loop that has begun shows just that.
-/

/-! ### Characters and their offsets -/

namespace ScriptMachine

/-- The number of bytes of characters. -/
def byteCount (cs : List Char) : Nat := (String.ofList cs).utf8ByteSize

theorem byteCount_cons (c : Char) (cs : List Char) :
    byteCount (c :: cs) = c.utf8Size + byteCount cs := by
  rw [byteCount, byteCount, String.ofList_cons, String.utf8ByteSize_append,
    String.utf8ByteSize_singleton]

theorem byteCount_append (cs ds : List Char) :
    byteCount (cs ++ ds) = byteCount cs + byteCount ds := by
  rw [byteCount, byteCount, byteCount, String.ofList_append, String.utf8ByteSize_append]

theorem byteCount_toList (s : String) : byteCount s.toList = s.utf8ByteSize := by
  rw [byteCount, String.ofList_toList]

theorem runesFrom_append (start : Nat) (cs ds : List Char) : runesFrom start (cs ++ ds)
    = runesFrom start cs ++ runesFrom (start + byteCount cs) ds := by
  induction cs generalizing start with
  | nil => rfl
  | cons c cs ih =>
    rw [List.cons_append, runesFrom, ih, byteCount_cons, runesFrom, List.cons_append, Nat.add_assoc]

theorem runesFrom_getElem? (start : Nat) (cs : List Char) (n : Nat) : (runesFrom start cs)[n]?
    = (cs[n]?).map fun c => (start + byteCount (cs.take n), c) := by
  induction cs generalizing start n with
  | nil => rfl
  | cons c cs ih =>
    cases n with
    | zero => rfl
    | succ n =>
      rw [runesFrom, List.getElem?_cons_succ, ih, List.getElem?_cons_succ, List.take_succ_cons,
        byteCount_cons, Nat.add_assoc]

/-- **Each character comes with the number of bytes before it.** -/
theorem runes_getElem? (s : String) (n : Nat) : (runes s)[n]?
    = (s.toList[n]?).map fun c => (byteCount (s.toList.take n), c) := by
  rw [runes, runesFrom_getElem?, Nat.zero_add]

/-- Offsets lie between those of the first character and of the end. -/
theorem offset_of_mem_runesFrom {start : Nat} {cs : List Char} {r : Nat × Char}
    (h : r ∈ runesFrom start cs) : start ≤ r.1 ∧ r.1 < start + byteCount cs := by
  induction cs generalizing start with
  | nil => cases h
  | cons c cs ih =>
    have hpos := c.utf8Size_pos
    rw [byteCount_cons]
    rcases List.mem_cons.1 h with rfl | hrest
    · exact ⟨Nat.le_refl _, by omega⟩
    · obtain ⟨hle, hlt⟩ := ih hrest
      omega

variable {s : String} {a b n : Nat}

/-- The offset at which the character with some number begins, or the string ends. -/
def offsetOf (s : String) (n : Nat) : Nat := byteCount (s.toList.take n)

theorem offsetOf_length (s : String) : offsetOf s s.toList.length = s.utf8ByteSize := by
  rw [offsetOf, List.take_length, byteCount_toList]

/-- A string may be cut before each of its characters, and at its end. -/
theorem isBoundary_offsetOf (hn : n ≤ s.toList.length) : isBoundary s (offsetOf s n) = true := by
  rw [isBoundary, Bool.or_eq_true, List.any_eq_true]
  rcases Nat.lt_or_eq_of_le hn with hlt | rfl
  · refine .inr ⟨(offsetOf s n, s.toList[n]), List.mem_of_getElem? (i := n) ?_,
      beq_self_eq_true _⟩
    rw [runes_getElem?, List.getElem?_eq_getElem hlt]
    rfl
  · exact .inl (beq_iff_eq.2 (offsetOf_length s))

theorem offsetOf_add (h : a ≤ b) :
    offsetOf s b = offsetOf s a + byteCount ((s.toList.take b).drop a) := by
  have htake : (s.toList.take b).take a = s.toList.take a := by
    rw [List.take_take, Nat.min_eq_left h]
  rw [offsetOf, offsetOf, ← htake, ← byteCount_append, List.take_append_drop]

/-- The characters before, between and after two of them, with their offsets. -/
theorem runes_split (h : a ≤ b) : runes s = runesFrom 0 (s.toList.take a)
    ++ runesFrom (offsetOf s a) ((s.toList.take b).drop a)
    ++ runesFrom (offsetOf s b) (s.toList.drop b) := by
  have htake : (s.toList.take b).take a = s.toList.take a := by
    rw [List.take_take, Nat.min_eq_left h]
  have hinner : runesFrom 0 (s.toList.take b) = runesFrom 0 (s.toList.take a)
      ++ runesFrom (offsetOf s a) ((s.toList.take b).drop a) := by
    have hsplit := runesFrom_append 0 ((s.toList.take b).take a) ((s.toList.take b).drop a)
    rwa [List.take_append_drop, htake, Nat.zero_add] at hsplit
  rw [← hinner, runes]
  have hsplit := runesFrom_append 0 (s.toList.take b) (s.toList.drop b)
  rwa [List.take_append_drop, Nat.zero_add] at hsplit

/-- **Offsets are bounds of slices**: those of two characters, or of a character and the end, enclose
the characters between. -/
theorem sliceString_offsetOf (h : a ≤ b) (hb : b ≤ s.toList.length) :
    Exec.sliceString s (offsetOf s a) (offsetOf s b)
      = .ok (.string (String.ofList ((s.toList.take b).drop a))) := by
  have hsum := offsetOf_add (s := s) h
  have hend := offsetOf_add (s := s) hb
  rw [offsetOf_length] at hend
  have hinside : ((runes s).filter fun r => offsetOf s a ≤ r.1 && r.1 < offsetOf s b)
      = runesFrom (offsetOf s a) ((s.toList.take b).drop a) := by
    rw [runes_split h, List.filter_append, List.filter_append,
      List.filter_eq_nil_iff.2, List.filter_eq_self.2, List.filter_eq_nil_iff.2, List.nil_append,
      List.append_nil]
    · intro r hr
      obtain ⟨hle, -⟩ := offset_of_mem_runesFrom hr
      simp only [Bool.and_eq_true, decide_eq_true_eq]
      omega
    · intro r hr
      obtain ⟨hle, hlt⟩ := offset_of_mem_runesFrom hr
      simp only [Bool.and_eq_true, decide_eq_true_eq]
      omega
    · intro r hr
      obtain ⟨-, hlt⟩ := offset_of_mem_runesFrom hr
      rw [Nat.zero_add] at hlt
      simp only [Bool.and_eq_true, decide_eq_true_eq]
      exact fun hboth => absurd hboth.1 (Nat.not_le_of_lt hlt)
  have hpart : bytesBetween? s (offsetOf s a) (offsetOf s b)
      = some (String.ofList ((s.toList.take b).drop a)) := by
    rw [bytesBetween?, isBoundary_offsetOf (Nat.le_trans h hb), isBoundary_offsetOf hb]
    dsimp only
    rw [hinside, map_snd_runesFrom]
    rfl
  rw [Exec.sliceString, if_neg (by omega), hpart]

/-- The characters make up the string. -/
theorem ofList_runes (s : String) : String.ofList ((runes s).map (·.2)) = s := by
  rw [runes, map_snd_runesFrom, String.ofList_toList]

end ScriptMachine

/-! ### Rounds -/

namespace ScriptMachine

namespace Heap

/-- Strings, and maps and arrays that are among the objects. -/
def Walkable (h : Heap) : Value → Prop
  | .string _ => True
  | .map r => h.Holds (.map r)
  | .array r => h.Holds (.array r)
  | _ => False

/-- The number of characters, keys or elements. -/
def roundsOver (h : Heap) : Value → Nat
  | .string s => s.toList.length
  | .map r => (h.map r).entries.length
  | .array r => (h.array r).values.size
  | _ => 0

/-- What a loop over a value walks. -/
def walkedOf (h : Heap) : Value → Walked
  | .string s => .runes (runes s)
  | .map r => .map r (h.map r).keys
  | .array r => .array r
  | _ => .runes []

/-- The index and the value of a round of a loop over a value, for the objects as they were when the
loop began and as they are now: a character with the number of bytes before it, a key with what it
is bound to now, or an element with its index. -/
inductive Shows (h h' : Heap) : Value → Nat → Value → Value → Prop
  | character {s : String} {n : Nat} {c : Char} (hc : s.toList[n]? = some c) :
      Shows h h' (.string s) n (.ofNat (offsetOf s n)) (.string (String.singleton c))
  | entry {r : Ref .map} {n : Nat} {k : Key} {v : Value} (hk : (h.map r).sortedKeys[n]? = some k)
      (hv : (k, v) ∈ (h'.map r).entries) :
      Shows h h' (.map r) n (k.toValue (h.map r).keyType) v
  /-- The key has been removed. -/
  | gone {r : Ref .map} {n : Nat} {k : Key} (hk : (h.map r).sortedKeys[n]? = some k)
      (hgone : k ∉ (h'.map r).entries.map (·.1)) :
      Shows h h' (.map r) n (k.toValue (h.map r).keyType) .null
  | element {r : Ref .array} {n : Nat} {v : Value} (hv : (h.array r).values[n]? = some v) :
      Shows h h' (.array r) n (.ofNat n) v

/-- All rounds together: the characters make up the string, and any two offsets cut out those
between; the keys are all keys of the map, each after the one before it, and each value that stands
for a key is taken for that key. -/
def Exhausts (h : Heap) : Value → Prop
  | .string s => String.join (s.toList.map String.singleton) = s ∧
      ∀ a b, a ≤ b → b ≤ s.toList.length →
        Exec.sliceString s (offsetOf s a) (offsetOf s b)
          = .ok (.string (String.ofList ((s.toList.take b).drop a)))
  | .map r => (h.map r).sortedKeys.Perm ((h.map r).entries.map (·.1)) ∧
      (h.map r).sortedKeys.IsChain (fun lower upper => lower.order upper = .lt) ∧
      ∀ k ∈ (h.map r).sortedKeys, Key.ofValue (k.toValue (h.map r).keyType) = .ok k
  | _ => True

/-- The elements of the array are the same; the map has no other keys than before. -/
def Keeps (h h' : Heap) : Value → Prop
  | .map r => ((h'.map r).entries.map (·.1)).Sublist ((h.map r).entries.map (·.1))
  | .array r => (h'.array r).values = (h.array r).values
  | _ => True

/-- The elements of the array cannot be changed, and no key can be added to the map. -/
def Refuses (h : Heap) : Value → Prop
  | .map r => ∀ key value k, Key.ofValue key = .ok k → Assoc.contains k (h.map r).entries = false →
      ∃ f, (setEntry r key value).run.run h = (.error f, h)
  | .array r => ∀ index v values,
      (setElement r index v).run.run h = (.error (.bare .immutableArray), h) ∧
      (appendElement r v).run.run h = (.error (.bare .immutableArray), h) ∧
      (deleteElement r index).run.run h = (.error (.bare .immutableArray), h) ∧
      (replaceElements r values).run.run h = (.error (.bare .immutableArray), h)
  | _ => True

variable {h h' h'' : Heap} {v : Value} {n : Nat} {i x : String}

theorem join_singleton (cs : List Char) : String.join (cs.map String.singleton) = String.ofList cs := by
  induction cs with
  | nil => rfl
  | cons c cs ih =>
    rw [List.map_cons, String.join_cons, ih, String.ofList_cons]

/-- **The rounds exhaust what is walked.** -/
theorem exhausts_of_keyed (hkeyed : ∀ r, (h.map r).Keyed) (v : Value) : h.Exhausts v := by
  cases v with
  | string s =>
    refine ⟨?_, fun a b hab hb => sliceString_offsetOf hab hb⟩
    rw [join_singleton, String.ofList_toList]
  | map r =>
    have hsorted := (h.map r).sortedKeys_perm
    exact ⟨hsorted, (hkeyed r).isChain_sortedKeys,
      fun k hk => (hkeyed r).fits k (hsorted.subset hk)⟩
  | _ => trivial

theorem Keeps.refl (h : Heap) (v : Value) : h.Keeps h v := by
  cases v with
  | map r => exact List.Sublist.refl _
  | array r => rfl
  | _ => trivial

theorem SameContents.keeps (hsame : h.SameContents h') (v : Value) : h.Keeps h' v := by
  cases v with
  | map r =>
    show List.Sublist _ _
    rw [hsame.entries_eq]
  | array r => exact hsame.values_eq r
  | _ => trivial

/-- What is frozen stays as it has to. -/
theorem Keeps.thenGuards (hkeeps : h.Keeps h' v) (hguards : h'.Guards h'')
    (hfrozen : ∀ c, (h.walkedOf v).container? = some c → 0 < h'.freezes c) : h.Keeps h'' v := by
  cases v with
  | map r =>
    have hkeys := hguards.keys_sublist r (decide_eq_true (hfrozen (.map r) rfl))
    exact hkeys.trans hkeeps
  | array r =>
    have hvalues := hguards.values_eq r (decide_eq_true (hfrozen (.array r) rfl))
    exact hvalues.trans hkeeps
  | _ => trivial

/-- **What is frozen refuses changes.** -/
theorem refuses_of_frozen (hfrozen : ∀ c, (h.walkedOf v).container? = some c → 0 < h'.freezes c) :
    h'.Refuses v := by
  cases v with
  | map r =>
    intro key value k hk hnew
    have hmap : (h'.map r).isFrozen = true := decide_eq_true (hfrozen (.map r) rfl)
    have hset : ∃ f, (h'.map r).set key value (h'.typeOf key) (h'.typeOf value) = .error f :=
      MapObject.set_of_new hmap hk hnew _ _
    obtain ⟨f, hf⟩ := hset
    exact ⟨f, congrArg (fun result : Except Fault MapObject =>
      (do putMap r (← result) : HeapM Unit).run.run h') hf⟩
  | array r =>
    intro index v values
    have hthawed : (h'.array r).checkThawed = .error (.bare .immutableArray) :=
      if_pos (decide_eq_true (hfrozen (.array r) rfl))
    have hrefused : ∀ {α : Type} (rest : Except Fault α),
        (do (h'.array r).checkThawed; rest) = .error (.bare .immutableArray) := fun rest => by
      rw [hthawed]
      rfl
    refine ⟨?_, ?_, ?_, ?_⟩
    · exact congrArg (fun result : Except Fault ArrayObject =>
        (do putArray r (← result) : HeapM Unit).run.run h') (hrefused _)
    · exact congrArg (fun result : Except Fault ArrayObject =>
        (do putArray r (← result) : HeapM Unit).run.run h') (hrefused _)
    · exact congrArg (fun result : Except Fault (Value × ArrayObject) => (do
        let out ← result
        putArray r out.2
        return out.1 : HeapM Value).run.run h') (hrefused _)
    · exact congrArg (fun result : Except Fault ArrayObject =>
        (do putArray r (← result) : HeapM Unit).run.run h') (hrefused _)
  | _ => trivial

/-- **What the loop shows** in a round. -/
theorem finds_of_lt (hkeyed : ∀ r, (h.map r).Keyed) (hkeeps : h.Keeps h' v)
    (hn : n < h.roundsOver v) : ∃ index value, Shows h h' v n index value ∧
      Loop.Finds ⟨i, x, h.walkedOf v, n⟩ h' (some (index, value)) := by
  cases v with
  | string s =>
    have hc := List.getElem?_eq_getElem hn
    refine ⟨_, _, .character hc, fun m hm => ?_⟩
    have hrune : (runes s)[n]? = some (offsetOf s n, s.toList[n]) := by
      rw [runes_getElem?, hc]
      rfl
    rw [Exec.nextOf, Exec.outcome_bind_ok (Exec.outcome_heap m)]
    dsimp only [walkedOf]
    rw [hrune]
    rfl
  | map r =>
    have hlt : n < (h.map r).sortedKeys.length := by
      rwa [(h.map r).length_sortedKeys]
    have hk := List.getElem?_eq_getElem hlt
    have hmem := List.mem_of_getElem? hk
    obtain ⟨hentry, hgone⟩ := (hkeyed r).lookup_eq hmem hkeeps
    have hfinds : Loop.Finds ⟨i, x, h.walkedOf (.map r), n⟩ h'
        (some ((h.map r).sortedKeys[n].toValue (h.map r).keyType,
          ((h'.map r).entries.lookup (h.map r).sortedKeys[n]).getD .null)) := by
      intro m hm
      have hkey : (h.map r).keys[n]?
          = some ((h.map r).sortedKeys[n].toValue (h.map r).keyType) := by
        rw [MapObject.keys_eq, List.getElem?_map, hk]
        rfl
      rw [Exec.nextOf, Exec.outcome_bind_ok (Exec.outcome_heap m), hm]
      dsimp only [walkedOf]
      rw [hkey]
      dsimp only
      rw [(hkeyed r).get_toValue hmem]
      rfl
    by_cases hmap : (h.map r).sortedKeys[n] ∈ (h'.map r).entries.map (·.1)
    · obtain ⟨⟨k, v⟩, hv, rfl⟩ := List.mem_map.1 hmap
      rw [hentry v hv] at hfinds
      exact ⟨_, _, .entry hk hv, hfinds⟩
    · rw [hgone hmap] at hfinds
      exact ⟨_, _, .gone hk hmap, hfinds⟩
  | array r =>
    have hv := Array.getElem?_eq_getElem hn
    refine ⟨_, _, .element hv, fun m hm => ?_⟩
    have hvalues : (h'.array r).values = (h.array r).values := hkeeps
    rw [Exec.nextOf, Exec.outcome_bind_ok (Exec.outcome_heap m), hm]
    dsimp only [walkedOf]
    rw [hvalues, hv]
    rfl
  | _ => exact absurd hn (Nat.not_lt_zero n)

/-- After its last round, it shows nothing. -/
theorem finds_of_roundsOver (hkeeps : h.Keeps h' v) :
    Loop.Finds ⟨i, x, h.walkedOf v, h.roundsOver v⟩ h' none := by
  intro m hm
  rw [Exec.nextOf, Exec.outcome_bind_ok (Exec.outcome_heap m), hm]
  cases v with
  | string s =>
    dsimp only [walkedOf, roundsOver]
    rw [runes_getElem?, List.getElem?_eq_none (Nat.le_refl _)]
    rfl
  | map r =>
    dsimp only [walkedOf, roundsOver]
    rw [MapObject.keys_eq, List.getElem?_map,
      List.getElem?_eq_none (Nat.le_of_eq (h.map r).length_sortedKeys)]
    rfl
  | array r =>
    have hvalues : (h'.array r).values = (h.array r).values := hkeeps
    dsimp only [walkedOf, roundsOver]
    rw [hvalues, Array.getElem?_eq_none (Nat.le_refl _)]
    rfl
  | _ => rfl

end Heap

namespace Exec

open Heap

variable {m : Machine} {v : Value}

theorem outcome_walkOver (h : m.world.heap.Walkable v) : ∃ heap,
    outcome (walkOver v) m
      = (.ok (m.world.heap.walkedOf v), { m with world := { m.world with heap } }) ∧
    m.world.heap.SameContents heap := by
  cases v with
  | string s => exact ⟨m.world.heap, rfl, .refl _⟩
  | map r =>
    have hlt : r.id < m.world.heap.maps.size := h
    have hfound : m.world.heap.maps[r.id]? = some (m.world.heap.map r) := by
      rw [Heap.map, Array.getElem?_eq_getElem hlt]
      rfl
    refine ⟨_, ?_, (freezes_putMap hlt).sameContents⟩
    rw [walkOver, outcome_bind_ok (outcome_heap m), hfound]
    rfl
  | array r =>
    have hlt : r.id < m.world.heap.arrays.size := h
    have hfound : m.world.heap.arrays[r.id]? = some (m.world.heap.array r) := by
      rw [Heap.array, Array.getElem?_eq_getElem hlt]
      rfl
    refine ⟨_, ?_, (freezes_putArray hlt).sameContents⟩
    rw [walkOver, outcome_bind_ok (outcome_heap m), hfound]
    rfl
  | _ => exact absurd h id

theorem outcome_popUnwrapped_of_back? {u : Value} (hsize : m.context.fp < m.context.stack.size)
    (hback : m.context.stack.back? = some (.value u)) (hu : u.isMarker = false) :
    outcome popUnwrapped m = (.ok u.unwrapped,
      { m with context := { m.context with stack := m.context.stack.pop } }) := by
  rw [popUnwrapped, outcome_bind_ok (outcome_popValue_of_back? hsize hback hu)]
  rfl

theorem isMarker_of_walkable {h : Heap} {u : Value} (hwalk : h.Walkable u.unwrapped) :
    u.isMarker = false := by
  cases u with
  | marker => exact absurd hwalk id
  | _ => rfl

theorem outcome_beginLoop {operand u : Value} {i x : String}
    (hnames : loopNames m.world.heap operand = (i, x))
    (hlive : m.world.scopes.contains m.context.symbols = true)
    (hsize : m.context.fp < m.context.stack.size)
    (hback : m.context.stack.back? = some (.value u))
    (hwalk : m.world.heap.Walkable u.unwrapped) : ∃ scopes heap,
      outcome (beginLoop operand) m = (.ok (), { m with
        world := { m.world with scopes, heap }
        context := { m.context with
          stack := m.context.stack.pop
          loops := ⟨i, x, m.world.heap.walkedOf u.unwrapped, 0⟩ :: m.context.loops } }) ∧
      m.world.heap.SameContents heap := by
  obtain ⟨scopes₁, hfirst, houtline⟩ := outcome_createLoopName i hlive
  obtain ⟨scopes₂, hsecond, -⟩ := outcome_createLoopName x
    (m := { m with world := { m.world with scopes := scopes₁ } })
    ((Arena.contains_congr houtline _).trans hlive)
  obtain ⟨heap, hwalked, hsame⟩ := outcome_walkOver (m := { m with
    world := { m.world with scopes := scopes₂ }
    context := { m.context with stack := m.context.stack.pop } }) hwalk
  have hpop := outcome_popUnwrapped_of_back? (m := { m with
    world := { m.world with scopes := scopes₂ } }) hsize hback (isMarker_of_walkable hwalk)
  refine ⟨scopes₂, heap, ?_, hsame⟩
  rw [beginLoop, outcome_bind_ok (outcome_heap m), hnames]
  dsimp only
  rw [outcome_bind_ok hfirst, outcome_bind_ok hsecond, outcome_bind_ok hpop,
    outcome_bind_ok hwalked]
  rfl

end Exec

namespace Machine

/-- A loop over a value begins next: names that can be bound are those of the loop, the table to
define them in is live, and the value, or a constant of it, lies on top of the operands. -/
structure BeginsLoop (m : Machine) (indexName valueName : String) (v : Value) : Prop where
  going : m.ended = none
  next : ∃ operand, m.next? = some ⟨.rangeInit, operand⟩ ∧
    Exec.loopNames m.world.heap operand = (indexName, valueName)
  index : Exec.isLoopName indexName = true
  value : Exec.isLoopName valueName = true
  live : m.world.scopes.contains m.context.symbols = true
  top : ∃ u : Value, m.context.stack.back? = some (.value u) ∧ u.unwrapped = v
  fp_lt : m.context.fp < m.context.stack.size
  walkable : m.world.heap.Walkable v

variable {m : Machine} {i x : String} {v : Value}

/-- **The loop begins**, and all containers keep their contents. -/
theorem step_begins (h : m.BeginsLoop i x v) :
    m.attempt.1 = .ok () ∧
      m.step.1.context.loops = ⟨i, x, m.world.heap.walkedOf v, 0⟩ :: m.context.loops ∧
      m.step.1.suspended = m.suspended ∧
      m.world.heap.SameContents m.step.1.world.heap := by
  obtain ⟨operand, hnext, hnames⟩ := h.next
  obtain ⟨u, hback, rfl⟩ := h.top
  obtain ⟨journal, running, observer, hattempt⟩ := attempt_of_next h.going hnext
  obtain ⟨scopes, heap, hbegun, hsame⟩ := Exec.outcome_beginLoop (m := { m with
    world := { m.world with journal }
    context := { m.context with pc := m.context.pc + 1, running, observer } })
    hnames h.live h.fp_lt hback h.walkable
  have hdone := hattempt.trans hbegun
  rw [step_of_attempt_ok hdone]
  exact ⟨congrArg Prod.fst hdone, rfl, rfl, hsame⟩

end Machine

end ScriptMachine
