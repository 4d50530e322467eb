import ScriptMachine.Proofs.Loops.Accounting

/-!
# Rounds of a loop

As long as a loop is there, what it walks keeps its contents, and the loop goes on with every round
and in no other way.

* `Heap.Guards`: what is frozen keeps its contents; `Deals.guards`.
* `LoopPlace`, `Ensemble.loopAt`: where a loop is, and the loop that is there.
* `Ensemble.AtHead`: the head of the loop at a place comes next.
* `Next.loopAt_cases`: a loop changes in the step at its head alone.
* `Ensemble.Rounds`: the states in which a loop is there, with the number of rounds so far;
  `Rounds.loopAt_eq`.
-/

namespace ScriptMachine

/-! ### Contents -/

namespace Heap

/-- What is frozen keeps its contents, but for entries of maps that change or go. -/
structure Guards (h h' : Heap) : Prop where
  values_eq : ∀ r, (h.array r).isFrozen = true → (h'.array r).values = (h.array r).values
  keyType_eq : ∀ r, (h.map r).isFrozen = true → (h'.map r).keyType = (h.map r).keyType
  keys_sublist : ∀ r, (h.map r).isFrozen = true →
    ((h'.map r).entries.map (·.1)).Sublist ((h.map r).entries.map (·.1))
  keyed : (∀ r, (h.map r).Keyed) → ∀ r, (h'.map r).Keyed

variable {h h' h'' : Heap}

theorem Spares.guards (hspares : h.Spares h') : h.Guards h' where
  values_eq r hfrozen := by rw [hspares.array_eq r hfrozen]
  keyType_eq := hspares.keyType_eq
  keys_sublist := hspares.keys_sublist
  keyed := hspares.keyed

theorem Guards.thenSame (hguards : h.Guards h') (hsame : h'.SameContents h'') : h.Guards h'' where
  values_eq r hfrozen := (hsame.values_eq r).trans (hguards.values_eq r hfrozen)
  keyType_eq r hfrozen := (hsame.keyType_eq r).trans (hguards.keyType_eq r hfrozen)
  keys_sublist r hfrozen := by
    rw [hsame.entries_eq]
    exact hguards.keys_sublist r hfrozen
  keyed hkeyed r := by
    have hbefore := hguards.keyed hkeyed r
    refine hbefore.sublist (hsame.keyType_eq r) ?_
    rw [hsame.entries_eq]

end Heap

namespace Machine

variable {heads : Prop} {m m' : Machine}

theorem Unwinds.sameContents (h : m.Unwinds m') : m.world.heap.SameContents m'.world.heap := by
  obtain ⟨ended, hends⟩ := h.endsLoops
  exact hends.sameContents

/-- **A step keeps the contents of what is frozen.** -/
theorem Deals.guards (h : m.Deals heads m') : m.world.heap.Guards m'.world.heap := by
  cases h with
  | heeds h hends => exact h.heap.guards.thenSame hends.sameContents
  | winds h hbegins hends =>
    exact (h.spares.heap.guards.thenSame hbegins.sameContents).thenSame hends.sameContents
  | advances _ h hgoes hends =>
    obtain ⟨l, rest, -, hspares⟩ := hgoes
    exact (h.heap.trans hspares.heap).guards.thenSame hends.sameContents

end Machine

/-! ### Places -/

/-- The loop at a depth of the loops of a context, both counted from the outermost. -/
def loopIn (lists : List (List Loop)) (level depth : Nat) : Option Loop :=
  lists.reverse[level]? >>= fun loops => loops.reverse[depth]?

/-- Where a loop is: the thread, its context and its depth there, counted from the outermost. -/
structure LoopPlace where
  thread : Option Nat
  level : Nat
  depth : Nat

section Places

variable {k d : Nat} {l l' : Loop} {loops : List Loop} {lists : List (List Loop)}

theorem loopIn_cons : loopIn (loops :: lists) k d
    = if k = lists.length then loops.reverse[d]? else loopIn lists k d := by
  unfold loopIn
  rw [List.reverse_cons]
  rcases Nat.lt_trichotomy k lists.length with hlt | rfl | hgt
  · rw [if_neg (by omega), List.getElem?_append_left (by simpa using hlt)]
  · rw [if_pos rfl, List.getElem?_append_right (by simp)]
    simp
  · rw [if_neg (by omega), List.getElem?_eq_none (by simp; omega),
      List.getElem?_eq_none (by simp; omega)]

theorem lt_of_loopIn (h : loopIn lists k d = some l) : k < lists.length := by
  obtain ⟨loops, hloops, -⟩ := Option.bind_eq_some_iff.1 h
  obtain ⟨hlt, -⟩ := List.getElem?_eq_some_iff.1 hloops
  rwa [List.length_reverse] at hlt

/-- Contexts that wait for another one keep their places. -/
theorem loopIn_of_cons (h : loopIn lists k d = some l) : loopIn (loops :: lists) k d = some l := by
  have hlt := lt_of_loopIn h
  rw [loopIn_cons, if_neg (by omega), h]

theorem loopIn_replicate_append (fresh : Nat) :
    loopIn (List.replicate fresh [] ++ lists) k d = loopIn lists k d := by
  induction fresh with
  | zero => rfl
  | succ fresh ih =>
    rw [List.replicate_succ, List.cons_append, loopIn_cons, ih]
    split
    · rename_i hk
      have hnone : lists.reverse[k]? = none := List.getElem?_eq_none (by simp [hk])
      rw [loopIn, hnone]
      rfl
    · rfl

/-- Loops around others that have ended keep their places. -/
theorem loopIn_of_ended {ended : List Loop} (h : loopIn (loops :: lists) k d = some l) :
    loopIn ((ended ++ loops) :: lists) k d = some l := by
  rw [loopIn_cons] at h ⊢
  split at h
  · rename_i hk
    obtain ⟨hlt, -⟩ := List.getElem?_eq_some_iff.1 h
    rw [if_pos hk, List.reverse_append, List.getElem?_append_left hlt, h]
  · rename_i hk
    rw [if_neg hk, h]

/-- A loop that is there under another one was there before, or is that other one. -/
theorem loopIn_of_begun (h : loopIn ((l :: loops) :: lists) k d = some l') :
    loopIn (loops :: lists) k d = some l' ∨
      k = lists.length ∧ loopIn (loops :: lists) k d = none := by
  rw [loopIn_cons] at h ⊢
  split at h
  · rename_i hk
    rw [if_pos hk]
    rw [List.reverse_cons] at h
    by_cases hd : d < loops.reverse.length
    · rw [List.getElem?_append_left hd] at h
      exact .inl h
    · exact .inr ⟨hk, List.getElem?_eq_none (by omega)⟩
  · rename_i hk
    rw [if_neg hk]
    exact .inl h

/-- Only the innermost loop of the innermost context goes on. -/
theorem loopIn_of_advanced (h : loopIn ((l.advanced :: loops) :: lists) k d = some l') :
    loopIn ((l :: loops) :: lists) k d = some l' ∨
      k = lists.length ∧ d = loops.length ∧ loopIn ((l :: loops) :: lists) k d = some l ∧
        l' = l.advanced := by
  rw [loopIn_cons] at h ⊢
  split at h
  · rename_i hk
    rw [if_pos hk]
    rw [List.reverse_cons] at h ⊢
    rcases Nat.lt_or_ge d loops.reverse.length with hd | hd
    · rw [List.getElem?_append_left hd] at h ⊢
      exact .inl h
    · rw [List.getElem?_append_right hd] at h ⊢
      obtain ⟨hone, hsame⟩ := List.getElem?_eq_some_iff.1 h
      rw [List.length_singleton] at hone
      have hzero : d - loops.reverse.length = 0 := by omega
      rw [hzero] at h ⊢
      rw [List.length_reverse] at hd hzero
      cases h
      exact .inr ⟨hk, by omega, rfl, rfl⟩
  · rename_i hk
    rw [if_neg hk]
    exact .inl h

end Places

namespace Machine

variable {heads : Prop} {m m' : Machine} {k d : Nat} {l l' : Loop}

theorem Unwinds.loopIn (h : m.Unwinds m') (hafter : loopIn m'.loopStacks k d = some l) :
    loopIn m.loopStacks k d = some l := by
  obtain ⟨ended, hends⟩ := h.endsLoops
  rw [loopStacks, hends.loops_eq, ← h.suspended_eq]
  exact loopIn_of_ended hafter

theorem loopIn_ready (h : loopIn m.ready.loopStacks k d = some l) :
    loopIn m.loopStacks k d = some l := by
  rcases m.ready_cases with hsame | ⟨s, rest, hsuspended, hready⟩
  · rwa [hsame] at h
  · rw [hready] at h
    rw [loopStacks, hsuspended]
    exact loopIn_of_cons h

theorem loopIn_ready_of_lt (h : k < m.ready.loopStacks.length) :
    loopIn m.ready.loopStacks k d = loopIn m.loopStacks k d := by
  rcases m.ready_cases with hsame | ⟨s, rest, hsuspended, hready⟩
  · rw [hsame]
  · rw [hready] at h ⊢
    have hlt : k < (s.context.loops :: rest.map (·.context.loops)).length := h
    have hcons : loopIn (m.context.loops :: s.context.loops :: rest.map (·.context.loops)) k d
        = loopIn (s.context.loops :: rest.map (·.context.loops)) k d := by
      rw [loopIn_cons, if_neg (Nat.ne_of_lt hlt)]
    rw [loopStacks, loopStacks, hsuspended, List.map_cons, hcons]

/-- Where a loop is after a step, it was before, or it begins there, or it has gone on. -/
theorem Deals.loopIn_cases (h : m.Deals heads m') (hafter : loopIn m'.loopStacks k d = some l') :
    loopIn m.loopStacks k d = some l' ∨
      (k < m.loopStacks.length ∧ loopIn m.loopStacks k d = none) ∨
      heads ∧ k = m.suspended.length ∧ m.context.loops.length = d + 1 ∧
        ∃ l, loopIn m.loopStacks k d = some l ∧ l' = l.advanced := by
  cases h with
  | heeds h hends =>
    have hmiddle := hends.loopIn hafter
    obtain ⟨fresh, hlists⟩ := h.loopStacks_eq
    rw [hlists, loopIn_replicate_append] at hmiddle
    exact .inl hmiddle
  | winds h hbegins hends =>
    have hmiddle := hends.loopIn hafter
    rw [← loopStacks_of_spares h.spares]
    rw [loopStacks, hbegins.loops_eq, hbegins.suspended_eq] at hmiddle
    rcases loopIn_of_begun hmiddle with hbefore | ⟨hk, hnone⟩
    · exact .inl hbefore
    · refine .inr (.inl ⟨?_, hnone⟩)
      rw [loopStacks, List.length_cons, hk]
      exact Nat.lt_succ_self _
  | advances hheads h hgoes hends =>
    have hmiddle := hends.loopIn hafter
    obtain ⟨l, rest, hloops, hspares⟩ := hgoes
    rw [loopStacks_of_spares hspares] at hmiddle
    rw [← h.suspended_eq, ← h.loops_eq, ← loopStacks_of_spares h]
    rw [loopStacks, hloops]
    rcases loopIn_of_advanced hmiddle with hbefore | ⟨hk, hd, hbefore, hl⟩
    · exact .inl hbefore
    · exact .inr (.inr ⟨hheads, by rw [hk, List.length_map], by rw [hd]; rfl, l, hbefore, hl⟩)

/-- **A loop changes at its head alone.** -/
theorem loopIn_step (hbefore : loopIn m.loopStacks k d = some l)
    (hafter : loopIn m.step.1.loopStacks k d = some l') :
    l' = l ∨ m.HeadsLoop ∧ k = m.suspended.length ∧ m.context.loops.length = d + 1 ∧
      l' = l.advanced := by
  rcases m.step_deals.loopIn_cases hafter with hsame | ⟨hlt, hnone⟩ |
    ⟨hheads, hlevel, hdepth, l₀, hgone, rfl⟩
  · have hready := loopIn_ready hsame
    rw [hbefore] at hready
    exact .inl (Option.some.inj hready).symm
  · rw [loopIn_ready_of_lt hlt, hbefore] at hnone
    cases hnone
  · have hsame : m.ready = m := by rw [ready, hheads.1]
    rw [hsame] at hgone hlevel hdepth
    rw [hbefore] at hgone
    cases hgone
    exact .inr ⟨hheads, hlevel, hdepth, rfl⟩

end Machine

namespace Ensemble

open Machine

variable {start : Machine} {e e' : Ensemble} {p : LoopPlace} {l l' : Loop}

/-- The loop at a place, if one is there. -/
def loopAt (e : Ensemble) (p : LoopPlace) : Option Loop :=
  loopIn (e.loopStacks p.thread) p.level p.depth

/-- The head of the loop at a place comes next: the thread has its turn, its context runs, and no
loop began there later. -/
structure AtHead (e : Ensemble) (p : LoopPlace) : Prop where
  foremost_eq : e.foremost = p.thread
  heads : e.machine.HeadsLoop
  level_eq : p.level = e.machine.suspended.length
  depth_eq : e.machine.context.loops.length = p.depth + 1

theorem Passes.loopAt_eq (h : Passes e e') (hvalid : e.Valid) (hafter : e'.loopAt p = some l) :
    e.loopAt p = some l := by
  obtain ⟨-, ⟨-, hsame⟩ | ⟨o, -, c, -, hother, -, hnone⟩⟩ := h.loopStacks_cases hvalid
  · rcases hsame p.thread with hsame | ⟨-, hempty⟩
    · rwa [loopAt, ← hsame]
    · rw [loopAt, hempty, loopIn_cons] at hafter
      split at hafter <;> cases hafter
  · by_cases ho : p.thread = o
    · rw [loopAt, ho, hnone] at hafter
      cases hafter
    · rwa [loopAt, ← hother _ ho]

/-- **A loop changes in the step at its head alone**, as long as it is there. -/
theorem Next.loopAt_cases (h : Next e e') (hvalid : e.Valid) (hbefore : e.loopAt p = some l)
    (hafter : e'.loopAt p = some l') :
    l' = l ∨ e.AtHead p ∧ e' = e.stepped ∧ l' = l.advanced := by
  cases h with
  | passes h =>
    have hsame := h.loopAt_eq hvalid hafter
    rw [hbefore] at hsame
    exact .inl (Option.some.inj hsame).symm
  | step =>
    by_cases hthread : p.thread = e.foremost
    · rw [loopAt, hthread, loopStacks_foremost] at hbefore
      have hturn : e.stepped.loopStacks e.foremost = e.machine.step.1.loopStacks :=
        e.stepped.loopStacks_foremost
      rw [loopAt, hthread, hturn] at hafter
      rcases loopIn_step hbefore hafter with hsame | ⟨hheads, hlevel, hdepth, hgoes⟩
      · exact .inl hsame
      · exact .inr ⟨⟨hthread.symm, hheads, hlevel, hdepth⟩, rfl, hgoes⟩
    · rw [loopAt, loopStacks_stepped hthread] at hafter
      rw [loopAt, hafter] at hbefore
      exact .inl (Option.some.inj hbefore)

/-- A loop that is somewhere is one of the loops. -/
theorem mem_loops_of_loopAt (hvalid : e.Valid) (h : e.loopAt p = some l) : l ∈ e.loops := by
  obtain ⟨loops, hloops, hl⟩ := Option.bind_eq_some_iff.1 h
  have hmem : loops ∈ e.loopStacks p.thread := List.mem_reverse.1 (List.mem_of_getElem? hloops)
  refine List.mem_append_left _ (List.mem_flatMap.2 ⟨p.thread, ?_,
    List.mem_flatten.2 ⟨loops, hmem, List.mem_reverse.1 (List.mem_of_getElem? hl)⟩⟩)
  cases hthread : p.thread with
  | none => exact List.mem_cons_self
  | some id =>
    refine List.mem_cons_of_mem _ (List.mem_map.2 ⟨id, List.mem_range.2 ?_, rfl⟩)
    by_contra hle
    rw [hthread, loopStacks_of_size_le hvalid (Nat.le_of_not_lt hle)] at hmem
    cases hmem

/-- What a loop walks is frozen as long as it is there. -/
theorem freezes_pos_of_loopAt (hvalid : e.Valid) (hbacked : e.Backed) (h : e.loopAt p = some l)
    {c : Container} (hc : l.walked.container? = some c) : 0 < e.heap.freezes c :=
  Nat.lt_of_lt_of_le
    (List.countP_pos_iff.2 ⟨l, mem_loops_of_loopAt hvalid h, Loop.walks_eq_true_iff.2 hc⟩)
    (hbacked c)

theorem Next.guards (h : Next e e') : e.heap.Guards e'.heap := by
  cases h with
  | passes h =>
    rw [h.heap_eq]
    exact (Heap.Spares.refl _).guards
  | step =>
    have hguards := e.machine.step_deals.guards
    rwa [ready_world] at hguards

end Ensemble

end ScriptMachine
