import ScriptMachine.Proofs.Action.Operands

/-!
# The chain of frames

An operand stack is a stack of activations: the values of the outermost code, then for each call
that is still active a frame and the values of the function it entered. The handlers are stacked
the same way.

* `Chain`: the positions of the frames on the chain from a frame pointer.
* `Stacked`: an operand stack, a frame pointer, a frame depth and handlers that fit together.
* `Stacked.enter`, `Stacked.frame`: calls build such stacks, and leaving a function takes them
  apart.
* `Stacked.chain`: the chain runs down to zero, and the frames on it are all frames of the stack.
-/

namespace ScriptMachine

/-- The positions of the frames on the chain from a frame pointer, innermost first. The saved frame
pointer of each frame lies below the frame. -/
inductive Chain (stack : Array Slot) : Nat → List Nat → Prop
  | outermost : Chain stack 0 []
  | inner {position : Nat} {f : Frame} {rest : List Nat}
      (frame : stack[position]? = some (.frame f)) (descends : f.fp ≤ position)
      (outer : Chain stack f.fp rest) : Chain stack (position + 1) (position :: rest)

/-- An operand stack with its frame pointer, frame depth and handlers, as calls build it up. The
handlers of a function keep at least its frame. -/
inductive Stacked : Array Slot → Nat → Nat → List Handler → Prop
  | outermost {values : Array Slot} {handlers : List Handler} (hvalues : OnlyValues values)
      (hhandlers : ∀ h ∈ handlers, h.fp = 0) : Stacked values 0 0 handlers
  | inner {below values : Array Slot} {f : Frame} {depth : Nat} (own : List Handler)
      {outer : List Handler} (hbelow : Stacked below f.fp depth outer) (hvalues : OnlyValues values)
      (hown : ∀ h ∈ own, h.fp = below.size + 1 ∧ below.size + 1 ≤ h.stackSize) :
      Stacked (below.push (.frame f) ++ values) (below.size + 1) (depth + 1) (own ++ outer)

theorem OnlyValues.empty : OnlyValues #[] := by
  intro s hs
  simp at hs

theorem OnlyValues.append {xs ys : Array Slot} (hxs : OnlyValues xs) (hys : OnlyValues ys) :
    OnlyValues (xs ++ ys) := by
  intro s hs
  rcases Array.mem_append.1 hs with hs | hs
  · exact hxs s hs
  · exact hys s hs

namespace Chain

variable {stack : Array Slot} {fp : Nat} {positions : List Nat}

/-- A chain depends on what lies below the frame pointer only. -/
theorem congr {other : Array Slot} (h : Chain stack fp positions)
    (hsame : ∀ i < fp, other[i]? = stack[i]?) : Chain other fp positions := by
  induction h with
  | outermost => exact outermost
  | inner frame descends _ ih =>
    refine inner ?_ descends (ih fun i hi => hsame i (by omega))
    rw [hsame _ (by omega)]
    exact frame

/-- All frames of a chain lie below the frame pointer. -/
theorem lt_fp (h : Chain stack fp positions) : ∀ i ∈ positions, i < fp := by
  induction h with
  | outermost => intro i hi; cases hi
  | inner _ descends _ ih =>
    intro i hi
    rcases List.mem_cons.1 hi with rfl | hi
    · omega
    · have := ih i hi
      omega

end Chain

namespace Stacked

variable {stack : Array Slot} {fp depth : Nat} {handlers : List Handler}

theorem fp_le (h : Stacked stack fp depth handlers) : fp ≤ stack.size := by
  cases h with
  | outermost => exact Nat.zero_le _
  | inner =>
    simp only [Array.size_append, Array.size_push]
    omega

theorem values (h : Stacked stack fp depth handlers) :
    OnlyValues (stack.extract fp stack.size) := by
  cases h with
  | outermost hvalues => exact hvalues.extract _ _
  | @inner below values f depth own outer hbelow hvalues hown =>
    have hsize : below.size + 1 = (below.push (.frame f)).size := by rw [Array.size_push]
    rw [hsize, Array.extract_append, Nat.sub_self]
    have hnil : (below.push (.frame f)).extract (below.push (.frame f)).size
        (below.push (.frame f) ++ values).size = #[] := by
      apply Array.extract_empty_of_size_le_start
      exact Nat.le_refl _
    rw [hnil, Array.empty_append]
    exact hvalues.extract _ _

theorem handler_fp_le (h : Stacked stack fp depth handlers) : ∀ x ∈ handlers, x.fp ≤ fp := by
  induction h with
  | outermost _ hhandlers =>
    intro x hx
    exact Nat.le_of_eq (hhandlers x hx)
  | inner own hbelow _ hown ih =>
    intro x hx
    rcases List.mem_append.1 hx with hx | hx
    · exact Nat.le_of_eq (hown x hx).1
    · have := ih x hx
      have := hbelow.fp_le
      omega

/-- The handlers of the running function keep at least its frame. -/
theorem fp_le_stackSize (h : Stacked stack fp depth handlers) {x : Handler} (hx : x ∈ handlers)
    (hfp : x.fp = fp) : fp ≤ x.stackSize := by
  cases h with
  | outermost => exact Nat.zero_le _
  | inner own hbelow _ hown =>
    rcases List.mem_append.1 hx with hx | hx
    · exact (hown x hx).2
    · have := hbelow.handler_fp_le x hx
      have := hbelow.fp_le
      omega

/-- Only the operands above the frame pointer may change. -/
theorem withOperands (h : Stacked stack fp depth handlers) {values : Array Slot}
    (hvalues : OnlyValues values) : Stacked (stack.extract 0 fp ++ values) fp depth handlers := by
  cases h with
  | outermost _ hhandlers =>
    simp only [Array.extract_zero, Array.empty_append]
    exact outermost hvalues hhandlers
  | @inner below _ f _ _ _ hbelow _ hown =>
    have hlower : ∀ xs : Array Slot,
        (below.push (.frame f) ++ xs).extract 0 (below.size + 1) = below.push (.frame f) := by
      intro xs
      rw [Array.extract_append]
      simp
    rw [hlower]
    exact inner _ hbelow hvalues hown

/-- A stack with the same slots below the frame pointer and values above it. -/
theorem congr (h : Stacked stack fp depth handlers) {other : Array Slot} (hle : fp ≤ other.size)
    (hlower : other.extract 0 fp = stack.extract 0 fp)
    (hvalues : OnlyValues (other.extract fp other.size)) : Stacked other fp depth handlers := by
  have hother : other = stack.extract 0 fp ++ other.extract fp other.size := by
    rw [← hlower, Array.extract_append_extract, Nat.min_eq_left (Nat.zero_le _),
      Nat.max_eq_right hle, Array.extract_size]
  rw [hother]
  exact h.withOperands hvalues

/-- More values may lie on top. -/
theorem append (h : Stacked stack fp depth handlers) {values : Array Slot}
    (hvalues : OnlyValues values) : Stacked (stack ++ values) fp depth handlers := by
  have hstack : stack ++ values
      = stack.extract 0 fp ++ (stack.extract fp stack.size ++ values) := by
    rw [← Array.append_assoc, Array.extract_append_extract, Nat.min_eq_left (Nat.zero_le _),
      Nat.max_eq_right h.fp_le, Array.extract_size]
  rw [hstack]
  exact h.withOperands (h.values.append hvalues)

/-- Operands may be cut off, down to the frame pointer. -/
theorem truncate (h : Stacked stack fp depth handlers) {n : Nat} (hn : fp ≤ n) :
    Stacked (stack.extract 0 n) fp depth handlers := by
  have hfp := h.fp_le
  refine h.congr ?_ ?_ ?_
  · rw [Array.size_extract]
    omega
  · rw [Array.extract_extract, Nat.zero_add, Nat.zero_add, Nat.min_eq_left hn]
  · have hcut : (stack.extract 0 n).extract fp (stack.extract 0 n).size
        = (stack.extract fp stack.size).extract 0 (n - fp) := by
      rw [Array.extract_extract, Array.extract_extract, Array.size_extract]
      congr 1 <;> omega
    rw [hcut]
    exact h.values.extract _ _

/-! ### Handlers -/

/-- The innermost handler may go, even when it belongs to a caller. -/
theorem tail {x : Handler} {rest : List Handler} (h : Stacked stack fp depth (x :: rest)) :
    Stacked stack fp depth rest := by
  generalize hall : x :: rest = all at h
  induction h with
  | outermost hvalues hhandlers =>
    subst hall
    exact outermost hvalues fun y hy => hhandlers y (List.mem_cons_of_mem _ hy)
  | @inner below values f depth own outer hbelow hvalues hown ih =>
    cases own with
    | nil =>
      have hrest := ih hall
      exact inner [] hrest hvalues (by simp)
    | cons y own =>
      obtain ⟨rfl, rfl⟩ := List.cons_eq_cons.1 hall
      exact inner _ hbelow hvalues fun z hz => hown z (List.mem_cons_of_mem _ hz)

theorem drop {pre rest : List Handler} (h : Stacked stack fp depth (pre ++ rest)) :
    Stacked stack fp depth rest := by
  induction pre with
  | nil => exact h
  | cons x pre ih => exact ih h.tail

/-- The innermost handler may take other addresses and catch other faults. -/
theorem replaceHead {x y : Handler} {rest : List Handler} (h : Stacked stack fp depth (x :: rest))
    (hfp : y.fp = x.fp) (hsize : y.stackSize = x.stackSize) :
    Stacked stack fp depth (y :: rest) := by
  generalize hall : x :: rest = all at h
  induction h with
  | outermost hvalues hhandlers =>
    subst hall
    refine outermost hvalues fun z hz => ?_
    rcases List.mem_cons.1 hz with rfl | hz
    · rw [hfp]
      exact hhandlers x List.mem_cons_self
    · exact hhandlers z (List.mem_cons_of_mem _ hz)
  | @inner below values f depth own outer hbelow hvalues hown ih =>
    cases own with
    | nil => exact inner [] (ih hall) hvalues (by simp)
    | cons z own =>
      obtain ⟨rfl, rfl⟩ := List.cons_eq_cons.1 hall
      refine inner (y :: own) hbelow hvalues fun z hz => ?_
      rcases List.mem_cons.1 hz with rfl | hz
      · rw [hfp, hsize]
        exact hown x List.mem_cons_self
      · exact hown z (List.mem_cons_of_mem _ hz)

/-- The running function may arm a handler. -/
theorem arm (h : Stacked stack fp depth handlers) {x : Handler} (hfp : x.fp = fp)
    (hsize : fp ≤ x.stackSize) : Stacked stack fp depth (x :: handlers) := by
  cases h with
  | outermost hvalues hhandlers =>
    refine outermost hvalues fun y hy => ?_
    rcases List.mem_cons.1 hy with rfl | hy
    · exact hfp
    · exact hhandlers y hy
  | @inner below values f depth own outer hbelow hvalues hown =>
    refine inner (x :: own) hbelow hvalues fun y hy => ?_
    rcases List.mem_cons.1 hy with rfl | hy
    · exact ⟨hfp, hsize⟩
    · exact hown y hy

/-! ### Entering and leaving functions -/

theorem enter (h : Stacked stack fp depth handlers) {f : Frame} (hf : f.fp = fp) :
    Stacked (stack.push (.frame f)) (stack.size + 1) (depth + 1) handlers := by
  subst hf
  have := inner [] h OnlyValues.empty (by simp)
  rwa [Array.append_empty] at this

/-- The handlers of callers follow those of the function. -/
theorem handler_le_head {x : Handler} {rest : List Handler}
    (h : Stacked stack fp depth (x :: rest)) : ∀ y ∈ rest, y.fp ≤ x.fp := by
  generalize hall : x :: rest = all at h
  induction h with
  | outermost _ hhandlers =>
    subst hall
    intro y hy
    rw [hhandlers y (List.mem_cons_of_mem _ hy)]
    exact Nat.zero_le _
  | @inner below values f depth own outer hbelow hvalues hown ih =>
    cases own with
    | nil => exact ih hall
    | cons z own =>
      obtain ⟨rfl, rfl⟩ := List.cons_eq_cons.1 hall
      intro y hy
      have hz := (hown x List.mem_cons_self).1
      have hy' := (inner (x :: own) hbelow hvalues hown).handler_fp_le y
        (List.mem_cons_of_mem _ hy)
      omega

/-- Below the values of a function lies its frame, and below that the stack of the caller. Of the
handlers, those of the callers remain. -/
theorem frame (h : Stacked stack fp depth handlers) (hfp : 0 < fp) :
    ∃ below f, stack.extract 0 fp = below.push (.frame f) ∧ fp = below.size + 1 ∧ 0 < depth ∧
      Stacked below f.fp (depth - 1) (handlers.filter fun x => x.fp ≤ f.fp) ∧
      ∀ x ∈ handlers, x.fp < fp → x.fp ≤ f.fp := by
  cases h with
  | outermost => omega
  | @inner below values f depth own outer hbelow hvalues hown =>
    have hle := hbelow.fp_le
    refine ⟨below, f, ?_, rfl, Nat.succ_pos _, ?_, ?_⟩
    · rw [Array.extract_append]
      simp
    · -- The handlers of the function itself lie above the caller's frame pointer.
      have hnone : own.filter (fun x => decide (x.fp ≤ f.fp)) = [] := by
        rw [List.filter_eq_nil_iff]
        intro x hx
        have := (hown x hx).1
        simp only [decide_eq_true_eq]
        omega
      have hall : outer.filter (fun x => decide (x.fp ≤ f.fp)) = outer := by
        rw [List.filter_eq_self]
        intro x hx
        exact decide_eq_true (hbelow.handler_fp_le x hx)
      rw [List.filter_append, hnone, hall, List.nil_append]
      exact hbelow
    · intro x hx hlt
      rcases List.mem_append.1 hx with hx | hx
      · have := (hown x hx).1
        omega
      · exact hbelow.handler_fp_le x hx

/-- **The chain of frames runs down to zero, and it holds all frames of the stack.** -/
theorem chain (h : Stacked stack fp depth handlers) :
    ∃ positions, Chain stack fp positions ∧
      (∀ i, (∃ f, stack[i]? = some (.frame f)) ↔ i ∈ positions) ∧ depth = positions.length := by
  have hnone : ∀ {xs : Array Slot} {i : Nat} {f : Frame}, OnlyValues xs →
      xs[i]? ≠ some (.frame f) := by
    intro xs i f hxs hi
    obtain ⟨v, hv⟩ := hxs _ (Array.mem_of_getElem? hi)
    cases hv
  induction h with
  | outermost hvalues =>
    refine ⟨[], .outermost, fun i => ⟨fun ⟨f, hf⟩ => absurd hf (hnone hvalues), ?_⟩, rfl⟩
    intro hi
    cases hi
  | @inner below values f depth own outer hbelow hvalues hown ih =>
    obtain ⟨positions, hchain, hframes, rfl⟩ := ih
    have hfp := hbelow.fp_le
    have hlow : ∀ i < below.size, (below.push (.frame f) ++ values)[i]? = below[i]? := by
      intro i hi
      rw [Array.getElem?_append_left (by rw [Array.size_push]; omega), Array.getElem?_push,
        if_neg (by omega)]
    have htop : (below.push (.frame f) ++ values)[below.size]? = some (.frame f) := by
      rw [Array.getElem?_append_left (by rw [Array.size_push]; omega), Array.getElem?_push_size]
    refine ⟨below.size :: positions, .inner htop hfp (hchain.congr fun i hi => hlow i (by omega)),
      fun i => ?_, rfl⟩
    rw [List.mem_cons, ← hframes]
    rcases Nat.lt_trichotomy i below.size with hi | rfl | hi
    · rw [hlow i hi]
      exact ⟨.inr, fun h => h.resolve_left (by omega)⟩
    · exact ⟨fun _ => .inl rfl, fun _ => ⟨f, htop⟩⟩
    · have hup : (below.push (.frame f) ++ values)[i]? = values[i - (below.size + 1)]? := by
        rw [Array.getElem?_append_right (by rw [Array.size_push]; omega), Array.size_push]
      rw [hup, Array.getElem?_eq_none (by omega : below.size ≤ i)]
      constructor
      · rintro ⟨g, hg⟩
        exact absurd hg (hnone hvalues)
      · rintro (rfl | ⟨g, hg⟩)
        · omega
        · cases hg

end Stacked

end ScriptMachine
