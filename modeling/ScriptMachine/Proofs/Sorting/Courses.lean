import ScriptMachine.Proofs.Deferred.Promptness
import ScriptMachine.Proofs.Sorting.Exchanging

/-!
# The course of a sort

A sort has its turn when it is called and whenever a comparison has ended; between its turns the
comparison runs in contexts of its own. If nobody else changes the array, it is rearranged as an
insertion sort does it.

* `Machine.CallsSort`: the next step calls the sort of a slice.
* `Machine.Sorting`: the states from the call on; `Machine.EndsSort`: the last one.
* `Machine.HalfExchanges`: a sort ends in the midst of an exchange.
* `Turn`: what a turn of a sort comes to; `Answered.turn`, after a comparison.
* `Sorting.stage`: at all times the elements are those of an insertion sort.
* `sort_keeps_elements_iff`: when a sort keeps all elements of its array.
* `sort_sorts_stably`: a comparison by a strict weak order sorts.
-/

namespace ScriptMachine.Machine

open Exec Insertion

/-- The elements of an array. -/
def elements (m : Machine) (r : Ref .array) : Array Value := (m.world.heap.array r).values

/-- The next step calls the sort of a slice: the function, the array and the comparison are on top
of the stack. -/
def CallsSort (r : Ref .array) (less : Value) (m : Machine) : Prop :=
  m.ended = none ∧
  ∃ (operand : Value) (count : Nat), m.next? = some ⟨.call, operand⟩ ∧
    operand.count? 0 = some count ∧ (count + m.context.extraArgs).toNat = 2 ∧
  ∃ (callable array : Value) (receiver : Option Value) (base : Machine),
    callable.unwrapped = .native .sortSlice receiver ∧ array.unwrapped = .array r ∧
    less.isMarker = false ∧ m = base.onto [callable, array, less] ∧
    base.context.fp ≤ base.context.stack.size

/-- The states of a sort from its call on, if every turn of the sort is as required and only the
sort changes the array. -/
inductive Sorting (r : Ref .array) (ok : Machine → Prop) (start : Machine) : Machine → Prop
  | start : Sorting r ok start start
  /-- The sort has its turn, and asks for a comparison. -/
  | asks {m : Machine} (before : Sorting r ok start m) (hok : ok m)
      (hturn : m.ready.suspended.length = start.suspended.length)
      (hasks : start.suspended.length < m.step.1.suspended.length) : Sorting r ok start m.step.1
  /-- The comparison goes on. -/
  | compares {m : Machine} (before : Sorting r ok start m)
      (hcompares : start.suspended.length < m.ready.suspended.length)
      (hsame : m.step.1.elements r = m.elements r) : Sorting r ok start m.step.1
  /-- Other threads have their turns. -/
  | elsewhere {m : Machine} (before : Sorting r ok start m) (world : World) (tasks : Array Task)
      (hsame : (world.heap.array r).values = m.elements r) :
      Sorting r ok start { m with world, tasks }

/-- A sort ends in the next step, be it with a result or with a fault. -/
structure EndsSort (r : Ref .array) (ok : Machine → Prop) (start last : Machine) : Prop where
  course : Sorting r ok start last
  required : ok last
  turn : last.ready.suspended.length = start.suspended.length
  ends : last.step.1.suspended.length = start.suspended.length

/-- When a comparison has ended, its answer is as required. -/
def Obeys (r : Ref .array) (answers : Value → Value → Bool → Prop) (m : Machine) : Prop :=
  ∀ c less size i k rest upper lower, m.ended = some (.ok ()) →
    m.suspended = ⟨c, .ordering r less size i (k + 1)⟩ :: rest →
    (m.elements r)[k + 1]? = some upper → (m.elements r)[k]? = some lower →
    answers upper lower (leftTrue m.world.heap m.context)

/-- A sort is about to end in the midst of an exchange: an element goes before the one below it, and
the array admits the lower one in its place, but not the upper one in the place of the lower. -/
def HalfExchanges (r : Ref .array) (m : Machine) : Prop :=
  ∃ c less size i k rest upper lower, m.ended = some (.ok ()) ∧
    m.suspended = ⟨c, .ordering r less size i (k + 1)⟩ :: rest ∧
    leftTrue m.world.heap m.context = true ∧
    (m.elements r)[k + 1]? = some upper ∧ (m.elements r)[k]? = some lower ∧
    m.world.heap.Admits r lower ∧ ¬ m.world.heap.Admits r upper

/-- The next step pushes the result of a call, and that is nil. -/
def GivesNil (m : Machine) : Prop :=
  m.attempt = (.ok (), m.step.1) ∧ m.step.1.context.stack.back? = some (.value .null)

variable {r : Ref .array} {less : Value} {answers : Value → Value → Bool → Prop}
  {ok : Machine → Prop} {start m m₁ last : Machine} {i j k : Nat}

theorem GoesOn.elements_eq {size : Nat} {q : Ref .array} (h : GoesOn q less size i j m m₁)
    (r : Ref .array) : m₁.elements r = m.elements r := by
  rw [elements, h.heap_eq]
  rfl

theorem elements_withValues (hk : k < (m.elements r).size) (values : Array Value) :
    (m.withValues r values).elements r = values :=
  Heap.values_withValues (Heap.lt_size_arrays hk) values

/-! ### Turns -/

/-- What has come of a step that settles the fault of a sort. -/
theorem step_of_libraryFault {f : Fault}
    (h : m.attempt = outcome (settleLibraryFault .sortSlice f) m₁) (r : Ref .array) :
    m.step.1.suspended = m₁.suspended ∧ m.step.1.elements r = m₁.elements r ∧ ¬ m.GivesNil := by
  rcases settleLibraryFault_cases .sortSlice f m₁ with ⟨m', hout, hgives⟩ | hout
  · rw [hout] at h
    have hstep := step_of_attempt_ok h
    rw [hstep]
    refine ⟨hgives.suspended_eq, by rw [elements, hgives.heap_eq]; rfl, fun hnil => ?_⟩
    have htop := hnil.2
    rw [hstep, hgives.top] at htop
    cases htop
  · rw [hout] at h
    rcases m.step_settles with hok | ⟨g, m₂, hfault, hsettle⟩ | ⟨hblocked, -⟩
    · rw [hok] at h
      cases h
    · rw [h] at hfault
      cases hfault
      have hunwinds := IsUnwinding.settle f m₁
      rw [hsettle] at hunwinds
      obtain ⟨ended, hends⟩ := hunwinds.endsLoops
      refine ⟨hunwinds.suspended_eq, hends.sameContents.values_eq r, fun hnil => ?_⟩
      have hattempt := hnil.1
      rw [h] at hattempt
      cases hattempt
    · rw [h] at hblocked
      cases hblocked

/-- What a turn of a sort comes to. -/
inductive Turn (r : Ref .array) (less : Value) (answers : Value → Value → Bool → Prop)
    (start m : Machine) : Prop
  | goesOn {i j : Nat} {m₁ : Machine} (hattempt : m.attempt = (.ok (), m.step.1))
      (hlevel : m₁.suspended = start.suspended)
      (hsifted : Sifted answers (start.elements r) i j (m₁.elements r))
      (hgoes : GoesOn r less (start.elements r).size i j m₁ m.step.1)
      (hwhole : ¬ m.HalfExchanges r)
  | fails {i j : Nat} (hlevel : m.step.1.suspended = start.suspended)
      (hsifted : Sifted answers (start.elements r) i j (m.step.1.elements r))
      (hwhole : ¬ m.HalfExchanges r) (hfault : ¬ m.GivesNil)
  | halves (hlevel : m.step.1.suspended = start.suspended) (hhalf : m.HalfExchanges r)
      (hlost : ¬ (m.step.1.elements r).Perm (start.elements r)) (hfault : ¬ m.GivesNil)

/-- A sort that is called goes on with the second element. -/
theorem CallsSort.attempt (h : m.CallsSort r less) : ∃ m₁ m', m.attempt = (.ok (), m') ∧
    m₁.suspended = m.suspended ∧ m₁.elements r = m.elements r ∧
    GoesOn r less (m.elements r).size 0 0 m₁ m' := by
  obtain ⟨hended, operand, count, hnext, hcount, htwo, callable, array, receiver, base, hcallable,
    harray, hless, rfl, hfp⟩ := h
  have hmarkers : callable.isMarker = false ∧ array.isMarker = false := by
    constructor
    · cases callable <;> first | rfl | cases hcallable
    · cases array <;> first | rfl | cases harray
  obtain ⟨journal, running, observer, hbegin⟩ :=
    outcome_begin ⟨.call, operand⟩ (base.onto [callable, array, less])
  -- The machine once the operands are taken.
  let taken : Machine := { base with
    world := { base.world with journal }
    context := { base.context with pc := base.context.pc + 1, running, observer, extraArgs := 0 } }
  have hargs : ∀ a ∈ [array, less], a.isMarker = false := by simpa using ⟨hmarkers.2, hless⟩
  have htaken : outcome (popCall 2) (taken.onto [callable, array, less])
      = (.ok (callable.unwrapped, [array, less]), taken) :=
    outcome_popCall_onto hfp hmarkers.1 hargs
  obtain ⟨m', hout, hgoes⟩ := outcome_sortNext r less (base.elements r).size 0 taken
  refine ⟨taken, m', ?_, rfl, rfl, hgoes⟩
  unfold Machine.attempt Machine.action Machine.ready
  rw [hended, hnext]
  dsimp only
  rw [outcome_bind_ok hbegin]
  show outcome (call operand) _ = _
  rw [call, operandCount_eq hcount, pure_bind, outcome_bind_ok (outcome_context _),
    outcome_bind_ok (outcome_modifyContext _ _)]
  show outcome (popCall (count + base.context.extraArgs).toNat >>= _)
    (taken.onto [callable, array, less]) = _
  rw [show (count + base.context.extraArgs).toNat = 2 from htwo, outcome_bind_ok htaken,
    hcallable]
  show outcome (beginSort [array, less]) taken = _
  simp only [beginSort, List.headD_cons, harray]
  exact hout

theorem turn_of_called (hcalls : m.CallsSort r less) (hlevel : m.suspended = start.suspended)
    (hsame : m.elements r = start.elements r) : Turn r less answers start m := by
  obtain ⟨m₁, m', hattempt, hsuspended, helements, hgoes⟩ := hcalls.attempt
  obtain rfl := step_of_attempt_ok hattempt
  rw [hsame] at helements hgoes
  refine .goesOn hattempt (hsuspended.trans hlevel) (helements ▸ .first) hgoes ?_
  rintro ⟨c, less', size, i, k, rest, upper, lower, hended, -⟩
  rw [hcalls.1] at hended
  cases hended

/-- A comparison that a sort has asked for has ended. -/
structure Answered (r : Ref .array) (less : Value) (answers : Value → Value → Bool → Prop)
    (start : Machine) (result : Except Fault Unit) (i k : Nat) (m : Machine) : Prop where
  ended : m.ended = some result
  suspended : ∃ c, m.suspended
    = ⟨c, .ordering r less (start.elements r).size i (k + 1)⟩ :: start.suspended
  sifted : Sifted answers (start.elements r) i (k + 1) (m.elements r)

namespace Answered

variable {result : Except Fault Unit} {upper lower : Value}

theorem ready_eq (h : Answered r less answers start result i k m) :
    m.ready.suspended = start.suspended ∧ m.ready.world = m.world := by
  obtain ⟨c, hsuspended⟩ := h.suspended
  rw [ready, h.ended, hsuspended]
  exact ⟨rfl, rfl⟩

theorem elements_ready (h : Answered r less answers start result i k m) :
    m.ready.elements r = m.elements r := by
  rw [elements, h.ready_eq.2]
  rfl

theorem attempt_eq (h : Answered r less answers start result i k m) :
    m.attempt = outcome (afterScratch
      (.ordering r less (start.elements r).size i (k + 1)) m.context result) m.ready := by
  obtain ⟨c, hsuspended⟩ := h.suspended
  rw [Machine.attempt, action, h.ended, hsuspended]

theorem attempt_of_ok (h : Answered r less answers start (.ok ()) i k m) :
    m.attempt = outcome (sortAfter r less (start.elements r).size i (k + 1)
      (leftTrue m.world.heap m.context)) m.ready := by
  rw [h.attempt_eq, ← h.ready_eq.2]
  rfl

/-- There are elements to compare. -/
theorem exists_elements (h : Answered r less answers start result i k m) :
    ∃ upper lower, (m.elements r)[k + 1]? = some upper ∧ (m.elements r)[k]? = some lower := by
  have hsize := h.sifted.size_eq
  have hbounds := h.sifted.lt_size
  have hk : k + 1 < (m.elements r).size := by omega
  exact ⟨_, _, Array.getElem?_eq_getElem hk, Array.getElem?_eq_getElem (Nat.lt_of_succ_lt hk)⟩

/-- Whether an exchange is half done is a matter of what the array admits. -/
theorem halfExchanges_iff (h : Answered r less answers start result i k m)
    (hupper : (m.elements r)[k + 1]? = some upper) (hlower : (m.elements r)[k]? = some lower) :
    m.HalfExchanges r ↔ result = .ok () ∧ leftTrue m.world.heap m.context = true ∧
      m.world.heap.Admits r lower ∧ ¬ m.world.heap.Admits r upper := by
  obtain ⟨c, hsuspended⟩ := h.suspended
  constructor
  · rintro ⟨c', less', size', i', k', rest', upper', lower', hended, hsuspended', hanswer, hupper',
      hlower', hadmits⟩
    rw [hsuspended] at hsuspended'
    cases hsuspended'
    rw [hupper] at hupper'
    rw [hlower] at hlower'
    cases hupper'
    cases hlower'
    exact ⟨Option.some.inj (h.ended.symm.trans hended), hanswer, hadmits⟩
  · rintro ⟨rfl, hanswer, hadmits, hrefused⟩
    exact ⟨c, less, _, i, k, _, upper, lower, h.ended, hsuspended, hanswer, hupper, hlower,
      hadmits, hrefused⟩

/-- A fault of the comparison, and an exchange that is refused, leave the array as it was. -/
theorem turn_of_kept {f : Fault} (h : Answered r less answers start result i k m)
    (hattempt : m.attempt = outcome (settleLibraryFault .sortSlice f) m.ready)
    (hwhole : ¬ m.HalfExchanges r) : Turn r less answers start m := by
  obtain ⟨hlevel, helements, hfault⟩ := step_of_libraryFault hattempt r
  exact .fails (hlevel.trans h.ready_eq.1) (helements.trans h.elements_ready ▸ h.sifted) hwhole
    hfault

/-- The element stays where it is. -/
theorem turn_of_false (h : Answered r less answers start (.ok ()) i k m)
    (hfirst : leftTrue m.world.heap m.context = false)
    (hupper : (m.elements r)[k + 1]? = some upper) (hlower : (m.elements r)[k]? = some lower)
    (hanswer : answers upper lower false) : Turn r less answers start m := by
  obtain ⟨m', hout, hgoes⟩ :=
    outcome_sortAfter_false r less (start.elements r).size i (k + 1) m.ready
  have hattempt := h.attempt_of_ok
  rw [hfirst, hout] at hattempt
  obtain rfl := step_of_attempt_ok hattempt
  refine .goesOn hattempt h.ready_eq.1
    (h.elements_ready ▸ .stays h.sifted hupper hlower hanswer) hgoes ?_
  rw [h.halfExchanges_iff hupper hlower, hfirst]
  rintro ⟨-, ⟨⟩, -⟩

/-- The element passes the one below it, as far as the array admits it. -/
theorem turn_of_true (h : Answered r less answers start (.ok ()) i k m)
    (hfirst : leftTrue m.world.heap m.context = true)
    (hupper : (m.elements r)[k + 1]? = some upper) (hlower : (m.elements r)[k]? = some lower)
    (hanswer : answers upper lower true) : Turn r less answers start m := by
  have hhalf := h.halfExchanges_iff hupper hlower
  have hattempt := h.attempt_of_ok
  have hk : k + 1 < (m.ready.elements r).size := by
    rw [h.elements_ready]
    exact (Array.getElem?_eq_some_iff.1 hupper).1
  have hupper' : (m.ready.elements r)[k + 1]? = some upper := by rw [h.elements_ready, hupper]
  have hlower' : (m.ready.elements r)[k]? = some lower := by rw [h.elements_ready, hlower]
  rw [hfirst] at hattempt
  rw [← h.ready_eq.2] at hhalf
  by_cases hadmitsLower : m.ready.world.heap.Admits r lower
  · by_cases hadmitsUpper : m.ready.world.heap.Admits r upper
    · obtain ⟨m', hout, hgoes⟩ := outcome_sortAfter_true less (start.elements r).size i hupper'
        hlower' hadmitsUpper hadmitsLower
      rw [hout] at hattempt
      obtain rfl := step_of_attempt_ok hattempt
      have hlevel : (m.ready.withValues r ((m.ready.elements r).swapIfInBounds k (k + 1))).suspended
          = start.suspended := h.ready_eq.1
      refine .goesOn hattempt hlevel ?_ hgoes fun hhalves => (hhalf.1 hhalves).2.2.2 hadmitsUpper
      rw [elements_withValues hk, h.elements_ready]
      exact .passes h.sifted hupper hlower hanswer
    · obtain ⟨f, hrun⟩ :=
        Heap.run_exchange_of_half hupper' hlower' hadmitsLower hadmitsUpper
      rw [outcome_exchange _ hrun] at hattempt
      have hsettles : m.attempt = outcome (settleLibraryFault .sortSlice f) (m.ready.withValues r
          ((m.ready.elements r).setIfInBounds (k + 1) lower)) := hattempt
      obtain ⟨hlevel, helements, hfault⟩ := step_of_libraryFault hsettles r
      refine .halves (hlevel.trans h.ready_eq.1)
        (hhalf.2 ⟨rfl, by rw [h.ready_eq.2, hfirst], hadmitsLower, hadmitsUpper⟩) ?_ hfault
      rw [helements, elements_withValues hk]
      intro hperm
      refine not_perm_setIfInBounds hupper' (fun heq => hadmitsUpper (heq ▸ hadmitsLower)) ?_
      rw [h.elements_ready] at hperm ⊢
      exact hperm.trans h.sifted.perm.symm
  · obtain ⟨f, hrun⟩ := Heap.run_exchange_of_refused hupper' hlower' hadmitsLower
    rw [outcome_exchange _ hrun] at hattempt
    exact h.turn_of_kept hattempt fun hhalves => hadmitsLower (hhalf.1 hhalves).2.2.1

/-- **A turn after a comparison.** -/
theorem turn (h : Answered r less answers start result i k m) (hobeys : m.Obeys r answers) :
    Turn r less answers start m := by
  obtain ⟨upper, lower, hupper, hlower⟩ := h.exists_elements
  cases result with
  | error f =>
    refine h.turn_of_kept h.attempt_eq ?_
    rw [h.halfExchanges_iff hupper hlower]
    rintro ⟨⟨⟩, -⟩
  | ok =>
    obtain ⟨c, hsuspended⟩ := h.suspended
    have hanswer := hobeys _ _ _ _ _ _ _ _ h.ended hsuspended hupper hlower
    cases hfirst : leftTrue m.world.heap m.context with
    | false => exact h.turn_of_false hfirst hupper hlower (hfirst ▸ hanswer)
    | true => exact h.turn_of_true hfirst hupper hlower (hfirst ▸ hanswer)

end Answered

/-! ### Courses -/

/-- How far a sort has come. -/
inductive Stage (r : Ref .array) (less : Value) (answers : Value → Value → Bool → Prop)
    (start m : Machine) : Prop
  | called (hcalls : m.CallsSort r less) (hlevel : m.suspended = start.suspended)
      (hsame : m.elements r = start.elements r)
  | asked {i k : Nat} {c : Context}
      (hwaits : ⟨c, .ordering r less (start.elements r).size i (k + 1)⟩ :: start.suspended
        <:+ m.suspended)
      (hsifted : Sifted answers (start.elements r) i (k + 1) (m.elements r))

/-- A turn of a sort that waits comes when the comparison has ended. -/
theorem answered_of_turn {s : Suspended} {below : List Suspended}
    (hwaits : s :: below <:+ m.suspended) (hturn : m.ready.suspended.length = below.length) :
    ∃ result, m.ended = some result ∧ m.suspended = s :: below := by
  have hlength := hwaits.length_le
  rw [List.length_cons] at hlength
  unfold ready at hturn
  split at hturn
  · rename_i result s' rest hended hsuspended
    rw [hsuspended] at hwaits ⊢
    exact ⟨result, hended, (hwaits.eq_of_length (congrArg Nat.succ hturn.symm)).symm⟩
  · omega

theorem Stage.turn (h : Stage r less answers start m) (hobeys : m.Obeys r answers)
    (hturn : m.ready.suspended.length = start.suspended.length) : Turn r less answers start m := by
  cases h with
  | called hcalls hlevel hsame => exact turn_of_called hcalls hlevel hsame
  | asked hwaits hsifted =>
    obtain ⟨result, hended, hsuspended⟩ := answered_of_turn hwaits hturn
    exact Answered.turn ⟨hended, ⟨_, hsuspended⟩, hsifted⟩ hobeys

/-- A turn that does not end the sort asks for the next comparison. -/
theorem Turn.stage (h : Turn r less answers start m)
    (hasks : start.suspended.length < m.step.1.suspended.length) :
    Stage r less answers start m.step.1 := by
  cases h with
  | @goesOn i j m₁ hattempt hlevel hsifted hgoes hwhole =>
    rw [← hgoes.elements_eq r] at hsifted
    cases hgoes with
    | down h =>
      obtain ⟨c, hsuspended⟩ := h.suspended_eq
      exact .asked (c := c) (by rw [hsuspended, hlevel]) hsifted
    | next hlt h =>
      obtain ⟨c, hsuspended⟩ := h.suspended_eq
      exact .asked (c := c) (by rw [hsuspended, hlevel]) (hsifted.next hlt)
    | done hle h =>
      rw [h.suspended_eq, hlevel] at hasks
      exact absurd hasks (Nat.lt_irrefl _)
  | fails hlevel =>
    rw [hlevel] at hasks
    exact absurd hasks (Nat.lt_irrefl _)
  | halves hlevel =>
    rw [hlevel] at hasks
    exact absurd hasks (Nat.lt_irrefl _)

/-- A step of a comparison. -/
theorem Stage.step (h : Stage r less answers start m)
    (hcompares : start.suspended.length < m.ready.suspended.length)
    (hsame : m.step.1.elements r = m.elements r) : Stage r less answers start m.step.1 := by
  cases h with
  | called hcalls hlevel =>
    have hready : m.ready = m := by rw [ready, hcalls.1]
    rw [hready, hlevel] at hcompares
    exact absurd hcompares (Nat.lt_irrefl _)
  | asked hwaits hsifted =>
    have hready : m.ready.suspended <:+ m.suspended := by
      rcases m.ready_cases with hready | ⟨s, rest, hsuspended, hready⟩
      · rw [hready]
      · rw [hready, hsuspended]
        exact List.suffix_cons s rest
    have hstays := List.suffix_of_suffix_length_le hwaits hready hcompares
    exact .asked (hstays.trans m.suspended_step) (hsame ▸ hsifted)

theorem Stage.elsewhere (h : Stage r less answers start m) (world : World) (tasks : Array Task)
    (hsame : (world.heap.array r).values = m.elements r) :
    Stage r less answers start { m with world, tasks } := by
  cases h with
  | called hcalls hlevel helements =>
    obtain ⟨hended, operand, count, hnext, hcount, htwo, callable, array, receiver, base, hcallable,
      harray, hless, rfl, hfp⟩ := hcalls
    refine .called ⟨hended, operand, count, hnext, hcount, htwo, callable, array, receiver,
      { base with world, tasks }, hcallable, harray, hless, rfl, hfp⟩ hlevel (hsame.trans helements)
  | asked hwaits hsifted =>
    refine .asked hwaits ?_
    show Sifted answers (start.elements r) _ _ (world.heap.array r).values
    rw [hsame]
    exact hsifted

/-- **At all times the elements are as an insertion sort has rearranged them.** -/
theorem Sorting.stage (h : Sorting r ok start m) (hcalls : start.CallsSort r less)
    (hok : ∀ m, ok m → m.Obeys r answers) : Stage r less answers start m := by
  induction h with
  | start => exact .called hcalls rfl rfl
  | asks before hok' hturn hasks ih => exact (ih.turn (hok _ hok') hturn).stage hasks
  | compares before hcompares hsame ih => exact ih.step hcompares hsame
  | elsewhere before world tasks hsame ih => exact ih.elsewhere world tasks hsame

theorem EndsSort.lastTurn (h : EndsSort r ok start last) (hcalls : start.CallsSort r less)
    (hok : ∀ m, ok m → m.Obeys r answers) : Turn r less answers start last :=
  (h.course.stage hcalls hok).turn (hok _ h.required) h.turn

theorem Stage.perm (h : Stage r less answers start m) :
    (m.elements r).Perm (start.elements r) := by
  cases h with
  | called _ _ hsame => exact hsame ▸ .refl _
  | asked _ hsifted => exact hsifted.perm

/-- **A turn keeps all elements** unless it ends in the midst of an exchange. -/
theorem Turn.perm_iff (h : Turn r less answers start m) :
    (m.step.1.elements r).Perm (start.elements r) ↔ ¬ m.HalfExchanges r := by
  cases h with
  | goesOn _ _ hsifted hgoes hwhole =>
    rw [hgoes.elements_eq r]
    exact ⟨fun _ => hwhole, fun _ => hsifted.perm⟩
  | fails _ hsifted hwhole => exact ⟨fun _ => hwhole, fun _ => hsifted.perm⟩
  | halves _ hhalf hlost =>
    exact ⟨fun hperm => absurd hperm hlost, fun hwhole => absurd hhalf hwhole⟩

/-! ### Two elements -/

/-- A function that answers true. -/
def upperFirst : Value := .code ⟨"less", #[⟨.push, .bool true⟩], none, true, false⟩

/-- A machine about to sort two elements by a function that always answers true. -/
def slicer (element : Ty) (lower upper : Value) : Machine :=
  ofContext { heap := { arrays := #[⟨element, #[lower, upper], 0⟩] } } {
    name := "main"
    thread := 1
    symbols := .root
    stack := #[.value (.native .sortSlice none), .value (.array ⟨0⟩), .value upperFirst]
    code := ⟨"main", #[⟨.call, .ofNat 2⟩], none, true, false⟩
    running := true }

theorem slicer_callsSort (element : Ty) (lower upper : Value) :
    (slicer element lower upper).CallsSort ⟨0⟩ upperFirst :=
  ⟨rfl, .ofNat 2, 2, rfl, rfl, rfl, .native .sortSlice none, .array ⟨0⟩, none,
    (slicer element lower upper).withStack #[], rfl, rfl, rfl, rfl, Nat.le_refl 0⟩

/-- **A sort loses an element in one case only.** While it goes on, and however it ends, the array
has the elements that it had when the sort was called, unless the sort ends in the midst of an
exchange. -/
theorem sort_keeps_elements_iff (hcalls : start.CallsSort r less) :
    (∀ m, Sorting r (fun _ => True) start m → (m.elements r).Perm (start.elements r)) ∧
    ∀ last, EndsSort r (fun _ => True) start last →
      ((last.step.1.elements r).Perm (start.elements r) ↔ ¬ last.HalfExchanges r) := by
  have hany : ∀ m : Machine, True → m.Obeys r fun _ _ _ => True :=
    fun _ _ _ _ _ _ _ _ _ _ _ _ _ _ => trivial
  exact ⟨fun m h => (h.stage hcalls hany).perm, fun last h => (h.lastTurn hcalls hany).perm_iff⟩

/-- A number and a text in an array of numbers. -/
def numberAndText : Machine := slicer (.ofKind .int) (.int 1) (.string "x")

/-- The comparison answers that the text goes before the number: the number takes its place, and the
text is lost. -/
theorem sort_loses_text :
    numberAndText.CallsSort ⟨0⟩ upperFirst ∧
    ∃ last, EndsSort ⟨0⟩ (fun _ => True) numberAndText last ∧ last.HalfExchanges ⟨0⟩ ∧
      ¬ (last.step.1.elements ⟨0⟩).Perm (numberAndText.elements ⟨0⟩) := by
  have h₁ : numberAndText.step.1.elements ⟨0⟩ = #[.int 1, .string "x"] := rfl
  have h₂ : numberAndText.step.1.step.1.elements ⟨0⟩ = #[.int 1, .string "x"] := rfl
  have h₃ : numberAndText.step.1.step.1.step.1.elements ⟨0⟩ = #[.int 1, .string "x"] := rfl
  have h₄ : numberAndText.step.1.step.1.step.1.step.1.elements ⟨0⟩ = #[.int 1, .string "x"] := rfl
  have hasked : Sorting ⟨0⟩ (fun _ => True) numberAndText numberAndText.step.1 :=
    .asks .start trivial rfl (by decide +kernel)
  have hcalled := hasked.compares (by decide +kernel) (h₂.trans h₁.symm)
  have hpushed := hcalled.compares (by decide +kernel) (h₃.trans h₂.symm)
  have hanswered := hpushed.compares (by decide +kernel) (h₄.trans h₃.symm)
  have hends : EndsSort ⟨0⟩ (fun _ => True) numberAndText _ :=
    ⟨hanswered, trivial, by decide +kernel, by decide +kernel⟩
  have hhalf : HalfExchanges ⟨0⟩ numberAndText.step.1.step.1.step.1.step.1 :=
    ⟨_, _, 2, 1, 0, [], .string "x", .int 1, rfl, rfl, by decide +kernel, by rw [h₄]; rfl,
      by rw [h₄]; rfl, ⟨by decide +kernel, rfl⟩, fun hadmits => nomatch hadmits.2⟩
  have hcalls := slicer_callsSort (.ofKind .int) (.int 1) (.string "x")
  have hkeeps := (sort_keeps_elements_iff hcalls).2 _ hends
  exact ⟨hcalls, _, hends, hhalf, fun hperm => hkeeps.1 hperm hhalf⟩

/-- **A sort sorts, and is stable**: if the comparison tells a strict weak order of the elements and
the sort gives back nil, the array is sorted. -/
theorem sort_sorts_stably {lt : Value → Value → Prop} (hcalls : start.CallsSort r less)
    (hlt : WeakOrderOn lt { v | v ∈ start.elements r })
    (hends : EndsSort r (Obeys r (AnswersBy lt)) start last) (hnil : last.GivesNil) :
    SortsStably lt (start.elements r) (last.step.1.elements r) ∧
      (last.step.1.elements r).Perm (start.elements r) := by
  cases hends.lastTurn hcalls fun _ h => h with
  | @goesOn i j m₁ hattempt hlevel hsifted hgoes hwhole =>
    have hends := hends.ends
    have hsame := hgoes.elements_eq r
    cases hgoes with
    | down h =>
      obtain ⟨c, hsuspended⟩ := h.suspended_eq
      rw [hsuspended, hlevel, List.length_cons] at hends
      omega
    | next _ h =>
      obtain ⟨c, hsuspended⟩ := h.suspended_eq
      rw [hsuspended, hlevel, List.length_cons] at hends
      omega
    | done hle h =>
      rw [hsame]
      exact ⟨hsifted.sortsStably hlt hle, hsifted.perm⟩
  | fails _ _ _ hfault => exact absurd hnil hfault
  | halves _ _ _ hfault => exact absurd hnil hfault

/-- Two numbers, the greater one first. -/
def twoAndOne : Machine := slicer .interface (.int 2) (.int 1)

/-- The order of two numbers. -/
def OneBelowTwo (a b : Value) : Prop := a = .int 1 ∧ b = .int 2

theorem weakOrderOn_twoAndOne : WeakOrderOn OneBelowTwo { v | v ∈ twoAndOne.elements ⟨0⟩ } := by
  have hne : ¬ (Value.int 1 = Value.int 2) := nofun
  refine ⟨fun a _ h => hne (h.1.symm.trans h.2), fun a _ b _ c _ hab hbc =>
    absurd (hbc.1.symm.trans hab.2) hne, fun a _ b hb c _ hab _ hbc _ hac => ?_⟩
  have hb' : b = .int 2 ∨ b = .int 1 := by
    simpa [twoAndOne, slicer, elements, ofContext, Heap.array] using hb
  exact hb'.elim (fun hb => hab ⟨hac.1, hb⟩) fun hb => hbc ⟨hb, hac.2⟩

/-- The comparison answers that the lesser one goes first, and they are sorted. -/
theorem sort_sorts_two_and_one :
    twoAndOne.CallsSort ⟨0⟩ upperFirst ∧
    WeakOrderOn OneBelowTwo { v | v ∈ twoAndOne.elements ⟨0⟩ } ∧
    ∃ last, EndsSort ⟨0⟩ (Obeys ⟨0⟩ (AnswersBy OneBelowTwo)) twoAndOne last ∧ last.GivesNil ∧
      SortsStably OneBelowTwo (twoAndOne.elements ⟨0⟩) (last.step.1.elements ⟨0⟩) := by
  have h₁ : twoAndOne.step.1.elements ⟨0⟩ = #[.int 2, .int 1] := rfl
  have h₂ : twoAndOne.step.1.step.1.elements ⟨0⟩ = #[.int 2, .int 1] := rfl
  have h₃ : twoAndOne.step.1.step.1.step.1.elements ⟨0⟩ = #[.int 2, .int 1] := rfl
  have h₄ : twoAndOne.step.1.step.1.step.1.step.1.elements ⟨0⟩ = #[.int 2, .int 1] := rfl
  have hwaits : ∃ c, twoAndOne.step.1.step.1.step.1.step.1.suspended
      = [⟨c, .ordering ⟨0⟩ upperFirst 2 1 1⟩] := ⟨_, rfl⟩
  have hbegun : Obeys ⟨0⟩ (AnswersBy OneBelowTwo) twoAndOne :=
    fun _ _ _ _ _ _ _ _ hended => nomatch hended
  have hobeys : Obeys ⟨0⟩ (AnswersBy OneBelowTwo)
      twoAndOne.step.1.step.1.step.1.step.1 := by
    intro c less size i k rest upper lower _ hsuspended hupper hlower
    obtain ⟨c', hwaits⟩ := hwaits
    rw [hwaits] at hsuspended
    cases hsuspended
    rw [h₄] at hupper hlower
    cases hupper
    cases hlower
    exact iff_of_true (by decide +kernel) ⟨rfl, rfl⟩
  have hasked : Sorting ⟨0⟩ (Obeys ⟨0⟩ (AnswersBy OneBelowTwo)) twoAndOne
      twoAndOne.step.1 := .asks .start hbegun rfl (by decide +kernel)
  have hcalled := hasked.compares (by decide +kernel) (h₂.trans h₁.symm)
  have hpushed := hcalled.compares (by decide +kernel) (h₃.trans h₂.symm)
  have hanswered := hpushed.compares (by decide +kernel) (h₄.trans h₃.symm)
  have hends : EndsSort ⟨0⟩ (Obeys ⟨0⟩ (AnswersBy OneBelowTwo)) twoAndOne _ :=
    ⟨hanswered, hobeys, by decide +kernel, by decide +kernel⟩
  have hnil : GivesNil twoAndOne.step.1.step.1.step.1.step.1 :=
    ⟨attempt_eq_ok (by decide +kernel), rfl⟩
  have hcalls := slicer_callsSort .interface (.int 2) (.int 1)
  exact ⟨hcalls, weakOrderOn_twoAndOne, _, hends, hnil,
    (sort_sorts_stably hcalls weakOrderOn_twoAndOne hends hnil).1⟩

end ScriptMachine.Machine
