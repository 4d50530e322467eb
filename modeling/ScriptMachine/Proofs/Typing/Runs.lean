import ScriptMachine.Proofs.Action.Operands
import ScriptMachine.Proofs.Frames.Restoring
import ScriptMachine.Proofs.Loops.Ensemble
import ScriptMachine.Proofs.Typing.Calls

/-!
# Typed arrays in runs

In every state of a run, arrays hold elements that fit their types, unless an `Add` outside static
mode has added something else: that is the one instruction that labels values with an element type
without a check or a conversion.

* `Heap.ArraysAccept`: element types accept all elements; `Heap.Fits`, `Heap.ArraysFit`: they do, as
  far as conversion heeds them.
* `Machine.AddsLoosely`: an `Add` comes next that checks nothing.
* `Machine.Typed.step`: every other step keeps arrays to their types.
* `Ensemble.arrays_fit_iff`: so arrays hold what fits exactly if such additions add what fits;
  `Ensemble.arrays_accept_not_kept`: accepted it need not be.
-/

namespace ScriptMachine

variable {h : Heap} {t : Ty} {v w : Value} {m m' : Machine} {r : Ref .array}

/-! ### Elements that fit -/

/-- The kinds of the types that ask for more than the kind of a value, where conversion does not: it
lets containers through whatever their parts and names are, and anything to a channel type. -/
def Kind.isLoose : Kind → Bool
  | .undefined | .channel | .array | .map | .struct | .userDefined => true
  | _ => false

/-- A value fits a type: it is nil, or the type accepts its type, or the type is loose, and the value
of a kind that conversion to it lets through. -/
def Heap.Fits (h : Heap) (t : Ty) (v : Value) : Prop :=
  v.isNull = true ∨ t.accepts (h.typeOf v) = true ∨
    t.kind.isLoose = true ∧ t.admits v.kind = true

instance (h : Heap) (t : Ty) (v : Value) : Decidable (h.Fits t v) :=
  inferInstanceAs (Decidable (_ ∨ _ ∨ _ ∧ _))

/-- The element types accept the types of all elements but nil. -/
def Heap.ArraysAccept (h : Heap) : Prop :=
  ∀ a ∈ h.arrays, a.element.isInterface = false →
    ∀ v ∈ a.values, v.isNull = true ∨ a.element.accepts (h.typeOf v) = true

instance (h : Heap) : Decidable h.ArraysAccept :=
  inferInstanceAs (Decidable (∀ a ∈ h.arrays, a.element.isInterface = false →
    ∀ v ∈ a.values, v.isNull = true ∨ a.element.accepts (h.typeOf v) = true))

/-- The elements of all arrays fit their element types. -/
def Heap.ArraysFit (h : Heap) : Prop := ∀ a ∈ h.arrays, ∀ v ∈ a.values, h.Fits a.element v

theorem Ty.accepts_interface (t : Ty) : t.accepts .interface = true := by
  have hopen : (t.isInterface || interface.isInterface) = true := Bool.or_true _
  rw [accepts.eq_def, if_pos hopen]

theorem Ty.accepts_of_isInterface (ht : t.isInterface = true) (u : Ty) : t.accepts u = true := by
  have hopen : (t.isInterface || u.isInterface) = true := Bool.or_eq_true_iff.2 (.inl ht)
  rw [accepts.eq_def, if_pos hopen]

theorem Ty.basic_accepts (d : Decl) (k : Kind) : (basic d k).accepts (.ofKind k) = true := by
  cases k <;> simp [accepts, ofKind, kind, isInterface, name?]

theorem Kind.eq_of_admits {k k' : Kind} (htight : k.isLoose = false) (hadmits : k.admits k' = true) :
    k = .interface ∨ k' = k := by
  cases k with
  | interface => exact .inl rfl
  | undefined | channel | array | map | struct | userDefined => cases htight
  | _ => exact .inr (eq_of_beq hadmits)

theorem Ty.kind_of_admits {k : Kind} (htight : t.kind.isLoose = false) (hadmits : t.admits k = true) :
    t.kind = .interface ∨ k = t.kind := by
  cases t with
  | basic d k' =>
    rcases Bool.or_eq_true_iff.1 hadmits with hbase | huser
    · exact Kind.eq_of_admits htight hbase
    · obtain rfl : k' = .userDefined := eq_of_beq (Bool.and_eq_true_iff.1 huser).1
      cases htight
  | pointer d target =>
    rcases Bool.or_eq_true_iff.1 hadmits with hbase | huser
    · exact Kind.eq_of_admits htight hbase
    · cases (Bool.and_eq_true_iff.1 huser).1
  | _ => cases htight

/-- The type of a value that is no container says its kind, and of a pointer hardly more. -/
theorem Heap.typeOf_of_kind (hloose : v.kind.isLoose = false) :
    h.typeOf v = .ofKind v.kind ∨ v.kind = .pointer ∧ h.typeOf v = .pointer none .interface := by
  have hkind : v.unwrapped.kind = v.kind := v.kind_unwrapped
  unfold Heap.typeOf
  split
  · rename_i hu
    rw [← hkind, hu] at hloose
    cases hloose
  · rename_i hu
    rw [← hkind, hu] at hloose
    cases hloose
  · rename_i hu
    rw [← hkind, hu] at hloose
    cases hloose
  · rename_i hu
    rw [hu] at hkind
    exact .inr ⟨hkind.symm, rfl⟩
  · exact .inl (congrArg Ty.ofKind hkind)

/-- Unless a type is loose, it accepts all values of its kind. -/
theorem Heap.accepts_of_kind (hloose : t.kind.isLoose = false) (hkind : v.kind = t.kind) :
    t.accepts (h.typeOf v) = true := by
  rcases h.typeOf_of_kind (hkind ▸ hloose) with htype | ⟨hpointer, htype⟩
  · rw [htype, hkind]
    cases t with
    | basic d k => exact Ty.basic_accepts d k
    | pointer d target => simp [Ty.accepts, Ty.ofKind, Ty.kind]
    | _ => cases hloose
  · rw [htype]
    rw [hkind] at hpointer
    cases t with
    | basic d k =>
      obtain rfl : k = .pointer := hpointer
      simp [Ty.accepts, Ty.kind]
    | pointer d target => simp [Ty.accepts, Ty.kind, Ty.accepts_interface]
    | _ => cases hloose

/-- To fit is to belong. -/
theorem Heap.StructsTyped.fits_iff (hs : h.StructsTyped) : h.Fits t v ↔ v.Belongs t := by
  constructor
  · rintro (hnull | haccepts | ⟨-, hadmits⟩)
    · exact .inl hnull
    · exact hs.belongs_of_accepts haccepts
    · exact .inr hadmits
  · rintro (hnull | hadmits)
    · exact .inl hnull
    by_cases hloose : t.kind.isLoose = true
    · exact .inr (.inr ⟨hloose, hadmits⟩)
    have htight := Bool.eq_false_iff.2 hloose
    rcases Ty.kind_of_admits htight hadmits with hopen | hkind
    · exact .inr (.inl (Ty.accepts_of_isInterface (beq_iff_eq.2 hopen) _))
    · exact .inr (.inl (Heap.accepts_of_kind htight hkind))

/-! ### Additions -/

/-- The operands on top are an array and what is to be added to it, with other slots below. -/
structure Context.Offers (c : Context) (r : Ref .array) (v : Value) (below : Array Slot) : Prop where
  operands : ∃ a b : Value, c.stack = (below.push (.value a)).push (.value b) ∧
    a.unwrapped = .array r ∧ b.unwrapped = v ∧ b.isMarker = false
  fp_le : c.fp ≤ below.size
  proper : v.isNull = false

/-- The next step adds something to an array, and since static mode is off, it does not check what. -/
structure Machine.AddsLoosely (m : Machine) (r : Ref .array) (v : Value) : Prop where
  going : m.ended = none
  next : ∃ operand, m.next? = some ⟨.add, operand⟩
  dynamic : m.context.staticTypes = false
  offers : ∃ below, m.context.Offers r v below

namespace Exec

/-- Two operands, of which the left one is an array, are taken where they are there. -/
theorem outcome_popOperands_eq_ok : outcome popOperands m = (.ok (.array r, v), m') ↔
    ∃ below, m.context.Offers r v below ∧ m' = m.withStack below := by
  constructor
  · intro hout
    obtain ⟨b, m₁, hupper, hrest⟩ := outcome_bind_eq_ok.1 hout
    obtain ⟨a, m₂, hlower, hrest⟩ := outcome_bind_eq_ok.1 hrest
    split at hrest
    · cases hrest
    rename_i hproper
    cases hrest
    obtain ⟨above, u, hstack, -, hmarker, hu, rfl⟩ := outcome_popUnwrapped_eq_ok.1 hupper
    obtain ⟨below, w, hbelow, hfp, -, hw, rfl⟩ := outcome_popUnwrapped_eq_ok.1 hlower
    obtain rfl : above = below.push (.value w) := hbelow
    have hnull := Bool.or_eq_false_iff.1 (Bool.eq_false_iff.2 hproper)
    exact ⟨below, ⟨⟨w, u, hstack, hw, hu, hmarker⟩, hfp, hnull.2⟩, rfl⟩
  · rintro ⟨below, ⟨⟨a, b, hstack, ha, hb, hmarker⟩, hfp, hproper⟩, rfl⟩
    have hupper : outcome popUnwrapped m = (.ok v, m.withStack (below.push (.value a))) :=
      outcome_popUnwrapped_eq_ok.2
        ⟨_, b, hstack, by rw [Array.size_push]; exact Nat.le_succ_of_le hfp, hmarker, hb, rfl⟩
    have harray : a.isMarker = false := by
      cases a with
      | marker label => cases ha
      | _ => rfl
    have hlower : outcome popUnwrapped (m.withStack (below.push (.value a)))
        = (.ok (.array r), m.withStack below) :=
      outcome_popUnwrapped_eq_ok.2 ⟨below, a, rfl, hfp, harray, ha, rfl⟩
    rw [popOperands, outcome_bind_ok hupper, outcome_bind_ok hlower, hproper]
    rfl

theorem outcome_checkElements_of_dynamic (hdynamic : m.context.staticTypes = false) (element : Ty)
    (values : List Value) : outcome (checkElements element values) m = (.ok (), m) := by
  rw [checkElements, outcome_bind_ok (outcome_get m), hdynamic]
  rfl

/-- An `Add` that checks nothing makes an array with all that is added. -/
theorem outcome_add_of_dynamic {below : Array Slot} (hdynamic : m.context.staticTypes = false)
    (hoffers : m.context.Offers r v below) : ∃ values m',
      (∀ w ∈ Native.elementsOf m.world.heap v, w ∈ values) ∧ outcome add m = (.ok (), m') ∧
      m'.world.heap = { m.world.heap with
        arrays := m.world.heap.arrays.push ⟨(m.world.heap.array r).element, values, 0⟩ } := by
  have hpop : outcome popOperands m = (.ok (.array r, v), m.withStack below) :=
    outcome_popOperands_eq_ok.2 ⟨below, hoffers, rfl⟩
  have hunchecked : ∀ element values,
      outcome (checkElements element values) (m.withStack below) = (.ok (), m.withStack below) :=
    outcome_checkElements_of_dynamic hdynamic
  have hpushed : ∀ values, ∃ m', outcome (pushLike r values) (m.withStack below) = (.ok (), m') ∧
      m'.world.heap = { m.world.heap with
        arrays := m.world.heap.arrays.push ⟨(m.world.heap.array r).element, values, 0⟩ } :=
    fun values => ⟨_, rfl, rfl⟩
  cases v with
  | array q =>
    obtain ⟨m', hpush, hheap⟩ := hpushed
      ((m.world.heap.array r).values ++ (m.world.heap.array q).values)
    refine ⟨_, m', fun w hw => Array.mem_append.2 (.inr (Array.mem_toList_iff.1 hw)), ?_, hheap⟩
    rw [add, outcome_bind_ok hpop]
    dsimp only
    rw [outcome_bind_ok (outcome_heap _), outcome_bind_ok (hunchecked _ _)]
    exact hpush
  | _ =>
    obtain ⟨m', hpush, hheap⟩ := hpushed ((m.world.heap.array r).values.push _)
    refine ⟨_, m', ?holds, ?adds, hheap⟩
    case adds =>
      rw [add, outcome_bind_ok hpop]
      dsimp only
      rw [outcome_bind_ok (outcome_heap _), outcome_bind_ok (hunchecked _ _)]
      exact hpush
    case holds =>
      intro w hw
      rw [List.mem_singleton.1 hw]
      exact Array.mem_push_self

end Exec

/-! ### Steps -/

namespace Machine

/-- What is added without a check ends up in an array of the type of the one that it is added to. -/
theorem AddsLoosely.step (hadds : m.AddsLoosely r v) : ∃ values,
    (∀ w ∈ Native.elementsOf m.world.heap v, w ∈ values) ∧
      m.step.1.world.heap = { m.world.heap with
        arrays := m.world.heap.arrays.push ⟨(m.world.heap.array r).element, values, 0⟩ } := by
  obtain ⟨operand, hnext⟩ := hadds.next
  obtain ⟨below, hoffers⟩ := hadds.offers
  obtain ⟨journal, running, observer, hattempt⟩ := attempt_of_next hadds.going hnext
  obtain ⟨values, m', hvalues, hadd, hheap⟩ := Exec.outcome_add_of_dynamic (m := { m with
    world := { m.world with journal }
    context := { m.context with pc := m.context.pc + 1, running, observer } })
    hadds.dynamic ⟨hoffers.operands, hoffers.fp_le, hoffers.proper⟩
  rw [step_of_attempt_ok (hattempt.trans hadd)]
  exact ⟨values, hvalues, hheap⟩

/-- What is added without a check fits nevertheless. -/
def AddsFitting (m : Machine) : Prop :=
  ∀ r v, m.AddsLoosely r v →
    ∀ w ∈ Native.elementsOf m.world.heap v, m.world.heap.Fits (m.world.heap.array r).element w

namespace Typed

theorem ready (hm : m.Typed) : m.ready.Typed := by
  unfold Machine.ready
  split
  · exact hm
  · exact hm

theorem attempt (hm : m.Typed) (hadds : m.AddsFitting) : m.attempt.2.Typed := by
  by_cases hadd : m.ended = none ∧ ∃ operand, m.next? = some ⟨.add, operand⟩
  · obtain ⟨hgoing, operand, hnext⟩ := hadd
    obtain ⟨journal, running, observer, hattempt⟩ := attempt_of_next hgoing hnext
    rw [hattempt]
    refine Exec.KeepsTyped.typed_add (m := { m with
      world := { m.world with journal }
      context := { m.context with pc := m.context.pc + 1, running, observer } }) hm
      fun r v m' hpop => ?_
    obtain ⟨below, hoffers, rfl⟩ := Exec.outcome_popOperands_eq_ok.1 hpop
    by_cases hstatic : m.context.staticTypes = true
    · exact .inl hstatic
    · have hloosely : m.AddsLoosely r v := ⟨hgoing, ⟨operand, hnext⟩, Bool.eq_false_iff.2 hstatic,
        below, hoffers.operands, hoffers.fp_le, hoffers.proper⟩
      exact .inr fun w hw => hm.structs.fits_iff.1 (hadds r v hloosely w hw)
  · have haction : Exec.KeepsTyped m.action := by
      unfold Machine.action
      split
      · exact Exec.KeepsTyped.pure ()
      · exact Exec.KeepsTyped.afterScratch _ _ _
      · rename_i hgoing
        split
        · rename_i i hi
          refine (Exec.KeepsTyped.begin i).bind fun _ => Exec.KeepsTyped.execute fun hop => ?_
          obtain ⟨op, operand⟩ := i
          obtain rfl : op = .add := hop
          exact hadd ⟨hgoing, operand, hi⟩
        · exact Exec.KeepsTyped.finish
    exact haction.typed hm.ready

/-- **A step keeps arrays to their types**, unless it adds something that does not fit. -/
theorem step (hm : m.Typed) (hadds : m.AddsFitting) : m.step.1.Typed := by
  have hattempt := hm.attempt hadds
  rcases m.step_cases with ⟨hok, -⟩ | ⟨f, m₁, hfault, hsettle, -⟩ | ⟨hwait, -⟩
  · rw [hok] at hattempt
    exact hattempt
  · rw [hfault] at hattempt
    have hsettled := (Exec.KeepsTyped.settle f).typed hattempt
    rw [hsettle] at hsettled
    exact hsettled
  · rw [hwait]
    exact hm.ready

end Typed

end Machine

/-! ### Runs -/

theorem World.Typed.beginTask (name : String) (callable : Value) (args : List Value)
    (settings : Settings) :
    Maintains World.Typed (Machine.beginTask name callable args settings) fun _ => True :=
  .bind (newChild _ _ _) fun _ _ => .bind (Exec.KeepsTyped.callContext _ _ _ _) fun _ _ =>
    .bind (Exec.KeepsTyped.start _ 0) fun _ _ => .pure trivial

theorem World.Typed.endTask (name : String) (table : TableId) (result : Except Fault Unit) :
    Maintains World.Typed (Machine.endTask name table result) fun _ => True := by
  refine .bind (remove table) fun _ _ => ?_
  cases result with
  | ok u => exact .pure trivial
  | error f => exact emit _ _

namespace Ensemble

open Machine

variable {e e' : Ensemble} {start : Machine}

/-- Arrays are the same for all threads. -/
theorem Passes.typed (h : Passes e e') (he : e.machine.Typed) : e'.machine.Typed := by
  cases h with
  | @begin m gone id name callable args settings table t world htask hbegun =>
    have hworld := (World.Typed.beginTask name callable args settings m.world he).1
    rw [hbegun] at hworld
    exact hworld
  | take m gone htask => exact he
  | back m t gone => exact he
  | @finish m t gone result => exact (World.Typed.endTask t.name t.table result m.world he).1
  | resume m gone switches => exact (Exec.KeepsTyped.start _ _ m.world he).1
  | join m gone => exact Exec.KeepsTyped.joinTasks.typed he

/-- As long as additions without a check add what fits, arrays are kept to their types. -/
theorem Reached.typed (hstart : start.Typed)
    (hadds : ∀ e, Reached start e → e.machine.Typed → e.machine.AddsFitting)
    (h : Reached start e) : e.machine.Typed := by
  induction h with
  | start => exact hstart
  | next before h ih =>
    cases h with
    | step => exact ih.step (hadds _ before ih)
    | passes h => exact h.typed ih

/-- **Arrays hold what fits exactly if additions add what fits**: a run that starts from arrays,
maps and structs that are kept to their types has, in each state, only elements in its arrays that are
nil, or that the element type accepts, or, where that type is loose, that are of a kind that
conversion to it lets through, exactly if every `Add` outside static mode adds such elements. No
other instruction and no library function adds anything else. -/
theorem arrays_fit_iff (hstart : start.Typed) :
    (∀ e, Reached start e → e.heap.ArraysFit) ↔ ∀ e, Reached start e → e.machine.AddsFitting := by
  constructor
  · intro hfit
    have hadds : ∀ e, Reached start e → e.machine.Typed → e.machine.AddsFitting := by
      intro e hreached htyped r v hloosely w hw
      -- What is added is in an array of the next state, which holds what fits.
      obtain ⟨values, hvalues, hheap⟩ := hloosely.step
      have hafter : e.stepped.heap.Fits (e.machine.world.heap.array r).element w := by
        refine hfit _ (hreached.next .step)
          ⟨(e.machine.world.heap.array r).element, values, 0⟩ ?_ w (hvalues w hw)
        show _ ∈ e.machine.step.1.world.heap.arrays
        rw [hheap]
        exact Array.mem_push_self
      have hstructs : e.stepped.heap.StructsTyped := by
        show e.machine.step.1.world.heap.StructsTyped
        rw [hheap]
        exact htyped.structs
      exact htyped.structs.fits_iff.2 (hstructs.fits_iff.1 hafter)
    exact fun e hreached => hadds e hreached (hreached.typed hstart hadds)
  · intro hadds e hreached a ha v hv
    have htyped : e.heap.Typed := hreached.typed hstart fun e h _ => hadds e h
    exact htyped.structs.fits_iff.2 (htyped.arrays a ha v hv)

/-- A machine about to run `Push [1]; Push "x"; Add`, where the array is one of integers. -/
def mixer : Machine :=
  .ofContext { heap := { arrays := #[⟨.ofKind .int, #[.int 1], 0⟩] } } {
    name := "main"
    thread := 1
    symbols := .root
    code := ⟨"main", #[⟨.push, .array ⟨0⟩⟩, ⟨.push, .string "x"⟩, .plain .add], none, true, false⟩
    running := true }

theorem mixer_typed : mixer.Typed where
  arrays a ha := by
    obtain rfl := List.mem_singleton.1 (Array.mem_toList_iff.2 ha)
    exact fun v hv => .of_kind (congrArg Value.kind (List.mem_singleton.1 (Array.mem_toList_iff.2 hv)))
  maps _ hm := absurd hm (Array.not_mem_empty _)
  structs _ hs := absurd hs (Array.not_mem_empty _)

/-- It adds a string to an array of integers, so not all arrays hold what fits. -/
theorem arrays_fit_iff_of_mixer :
    mixer.Typed ∧ ¬ ∀ e, Reached mixer e → e.heap.ArraysFit := by
  refine ⟨mixer_typed, fun hfit => ?_⟩
  have hreached : Reached mixer (⟨mixer, none, []⟩ : Ensemble).stepped.stepped :=
    (Reached.start.next .step).next .step
  have hstack : (⟨mixer, none, []⟩ : Ensemble).stepped.stepped.machine.context.stack =
      #[.value (.array ⟨1⟩), .value (.string "x")] := by with_unfolding_all rfl
  have hadds := (arrays_fit_iff mixer_typed).1 hfit _ hreached ⟨1⟩ (.string "x") {
    going := rfl
    next := ⟨.null, rfl⟩
    dynamic := rfl
    offers := ⟨#[], ⟨⟨.array ⟨1⟩, .string "x", hstack, rfl, rfl, rfl⟩, Nat.le_refl 0, rfl⟩⟩ }
    (.string "x") (List.mem_singleton.2 rfl)
  exact absurd hadds (by decide +kernel)

/-- Types of all loose kinds, each with a value that it does not accept, although conversion to it
lets that through. -/
def looselyTyped : List (Ty × Value) :=
  [(.array none (.ofKind .string), .array ⟨0⟩), (.map none (.ofKind .string) .interface, .map ⟨0⟩),
    (.struct none [("x", .ofKind .int)], .map ⟨0⟩), (.user none "Metres" none (.ofKind .int), .int 1),
    (.ofKind .channel, .int 1), (.ofKind .undefined, .int 1)]

/-- A machine about to run `Push v; Array [1, t]`, with an array and a map of integers at hand. -/
def relabeller (t : Ty) (v : Value) : Machine :=
  .ofContext { heap := {
      arrays := #[⟨.ofKind .int, #[.int 1], 0⟩, ⟨.interface, #[.int 1, .type t], 0⟩]
      maps := #[⟨.ofKind .int, .ofKind .int, [], 0⟩] } } {
    name := "main"
    thread := 1
    symbols := .root
    code := ⟨"main", #[⟨.push, v⟩, ⟨.array, .array ⟨1⟩⟩], none, true, false⟩
    running := true }

/-- Element types do not accept all that arrays come to hold: outside static mode an `Add` does not
check what it adds, and conversion to a loose type lets values of other types through. -/
theorem arrays_accept_not_kept :
    (mixer.world.heap.ArraysAccept ∧ ∃ e, Reached mixer e ∧ ¬ e.heap.ArraysAccept) ∧
      ∀ p ∈ looselyTyped, (relabeller p.1 p.2).world.heap.ArraysAccept ∧
        ∃ e, Reached (relabeller p.1 p.2) e ∧ ¬ e.heap.ArraysAccept := by
  have hrelabelled : ∀ p ∈ looselyTyped, (relabeller p.1 p.2).world.heap.ArraysAccept ∧
      ¬ (⟨relabeller p.1 p.2, none, []⟩ : Ensemble).stepped.stepped.heap.ArraysAccept := by
    decide +kernel
  refine ⟨⟨by decide +kernel, _, ((Reached.start.next .step).next .step).next .step,
    by decide +kernel⟩, fun p hp => ?_⟩
  obtain ⟨hbefore, hafter⟩ := hrelabelled p hp
  exact ⟨hbefore, _, (Reached.start.next .step).next .step, hafter⟩

end Ensemble

end ScriptMachine
