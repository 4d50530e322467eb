import ScriptMachine.Proofs.Frames.Deeds

/-!
# Exits spare the scopes around

A function that closes its blocks and package definitions in turn, and is left with no definition
open, leaves the tables as it found them, but for the hidden tables of the packages it defined
first. A definition left open makes all the difference.

* `Machine.turned`: what is open after a step, if it opens and closes in turn.
* `Machine.Tidy`: the runs of a function that do so.
* `Machine.Exits`: the ways in which a function is left.
* `exit_spares_scopes_iff`: the tables are spared just if no more definitions are open than at the
  call.
-/

namespace ScriptMachine

/-- What is open after a deed, if that closes what was opened last. -/
def Deed.turn : Deed → List Mark → Option (List Mark)
  | .nothing, marks => some marks
  | .openBlock, marks => some (.block :: marks)
  | .closeBlock, marks => Mark.closeBlocks 1 marks
  | .define, marks => some (.definition :: marks)
  | .undefine, .definition :: marks => some marks
  | .enter, marks => some (.function :: marks)
  | .leave, marks => Mark.leaveFunctions 1 marks
  | .suspend, marks => some (.scratch :: marks)
  | _, _ => none

/-- The handler that takes a fault, and those around it. -/
def Context.catcher? (c : Context) (f : Fault) : Option (Handler × List Handler) :=
  if f.isSignal then none
  else
    let f := f.raisedAt c.code.name c.line
    if !(f.kind == .panic && c.panics) then Exec.findHandler f c.handlers else none

namespace Machine

/-- What is open once a context that has ended makes way for the one that waits for it. -/
def readyMarks (m : Machine) (marks : List Mark) : Option (List Mark) :=
  match m.ended, m.suspended with
  | some _, _ :: _ => if marks.head? = some .scratch then some marks.tail else none
  | _, _ => some marks

/-- What is open after a fault: functions are left in which only blocks are open, and blocks are
closed up to the table of the handler. -/
def recoveredMarks (m : Machine) (f : Fault) (marks : List Mark) : Option (List Mark) :=
  match m.context.catcher? f with
  | some (handler, _) => do
    let unwound := (Exec.outcome (Exec.unwindTo handler.fp (m.context.stack.size + 1)) m).2
    let marks ← Mark.leaveFunctions (m.context.frameDepth - unwound.context.frameDepth) marks
    let blocks ← unwound.world.scopes.distance? handler.symbols
      (unwound.world.scopes.places.size + 1) unwound.context.symbols
    Mark.closeBlocks blocks marks
  | none => if f.isSignal then some marks else Mark.leaveFunctions m.context.frameDepth marks

/-- What is open after the next step, if that closes what was opened last. -/
def turned (m : Machine) (marks : List Mark) : Option (List Mark) := do
  let marks ← m.readyMarks marks
  match m.step.2, m.attempt with
  | .blocked, _ => some marks
  | _, (.error (.fault f), m') => m'.recoveredMarks f marks
  | _, _ => m.deed.turn marks

/-- The hidden tables of packages defined first, the next step included. -/
def definedBy (m : Machine) (defined : List TableId) : List TableId :=
  if m.deed = .define ∧ m.ready.world.scopes.contains m.attempt.2.context.symbols = false then
    m.attempt.2.context.symbols :: defined
  else defined

/-- The runs of a function that was entered, in which what is opened is closed in turn and hidden
tables stay live. They tell what is open, and the hidden tables of the packages defined first. -/
inductive Tidy (entered : Machine) : Machine → List Mark → List TableId → Prop
  | start (hlive : entered.HiddenLive) : Tidy entered entered [] []
  | step {m : Machine} {marks marks' : List Mark} {defined : List TableId}
      (before : Tidy entered m marks defined) (hlive : m.step.1.HiddenLive)
      (hturned : m.turned marks = some marks') :
      Tidy entered m.step.1 marks' (m.definedBy defined)
  | elsewhere {m : Machine} {marks : List Mark} {defined : List TableId}
      (before : Tidy entered m marks defined) (world : World) (tasks : Array Task)
      (hsame : world.scopes.outline = m.world.scopes.outline) (hlive : world.HiddenLive) :
      Tidy entered { m with world, tasks } marks defined
  | resume {m : Machine} {marks : List Mark} {defined : List TableId}
      (before : Tidy entered m marks defined) (switches : Switches) :
      Tidy entered { m with context := switches.apply m.context }.resume marks defined

/-- The current table is connected with the one in which a call was made. -/
def NestsIn (m : Machine) (site : Site) (marks : List Mark) (defined : List TableId) : Prop :=
  Nests site marks defined m.world.scopes m.context.symbols m.context.packages m.context.lower
    m.suspended

/-- The place of a call that the next step makes. -/
def site (m m' : Machine) : Site where
  scopes := m.world.scopes
  table := m.context.symbols
  entry := m'.context.symbols
  packages := m.context.packages
  lower := m'.context.lower
  waiting := m.suspended

variable {m m' m'' : Machine} {site : Site} {marks marks' : List Mark} {defined : List TableId}

/-! ### What is open after a deed -/

theorem NestsIn.congr (h : m.NestsIn site marks defined)
    (houtline : m'.world.scopes.outline = m.world.scopes.outline)
    (hsymbols : m'.context.symbols = m.context.symbols)
    (hpackages : m'.context.packages = m.context.packages)
    (hlower : m'.context.lower = m.context.lower) (hsuspended : m'.suspended = m.suspended) :
    m'.NestsIn site marks defined := by
  unfold NestsIn
  rw [hsymbols, hpackages, hlower, hsuspended]
  exact Nests.congr h houtline

theorem NestsIn.ready (h : m.NestsIn site marks defined)
    (hready : m.readyMarks marks = some marks') : m.ready.NestsIn site marks' defined := by
  unfold readyMarks at hready
  unfold Machine.ready
  unfold NestsIn at h
  cases hended : m.ended with
  | none =>
    simp only [hended, Option.some.injEq] at hready
    subst hready
    exact h
  | some result =>
    cases hsuspended : m.suspended with
    | nil =>
      simp only [hended, hsuspended, Option.some.injEq] at hready
      subst hready
      exact h
    | cons s rest =>
      simp only [hended, hsuspended] at hready
      split at hready
      · rename_i hscratch
        cases hready
        obtain ⟨marks, rfl⟩ := List.head?_eq_some_iff.1 hscratch
        rw [hsuspended] at h
        exact h.resume
      · cases hready

/-- A function is left in which only blocks are open. -/
theorem NestsIn.leave {n : Nat} (hsite : site.scopes.Sound) (hleaves : m.LeavesScope m')
    (h : m.NestsIn site (List.replicate n .block ++ .function :: marks) defined) :
    m'.NestsIn site marks defined := by
  obtain ⟨below, f, hlower, hlower', hsymbols, houtline⟩ := hleaves.frame
  obtain ⟨below', f', hlower'', hrest⟩ := Nests.leave hsite h
  rw [hlower] at hlower''
  obtain ⟨hframe, rfl⟩ := Array.push_eq_push.1 hlower''
  cases hframe
  unfold NestsIn
  rw [hsymbols, hleaves.packages_eq, hlower', hleaves.suspended_eq]
  exact hrest.congr houtline

/-- **What a deed leaves open.** -/
theorem NestsIn.does {deed : Deed} (hsite : site.scopes.Sound) (hdoes : m.Does m' deed)
    (hgrounded : m.context.Grounded) (h : m.NestsIn site marks defined)
    (hturn : deed.turn marks = some marks') :
    m'.NestsIn site marks' (if deed = .define ∧ m.world.scopes.contains m'.context.symbols = false
      then m'.context.symbols :: defined else defined) := by
  cases hdoes with
  | nothing same =>
    cases hturn
    exact h.congr same.outline_eq same.symbols_eq same.packages_eq same.lower_eq same.suspended_eq
  | openBlock frame packages_eq grows plain =>
    cases hturn
    unfold NestsIn
    rw [packages_eq, frame.lower_eq, frame.suspended_eq]
    exact Nests.openBlock h grows plain
  | closeBlock frame packages_eq parent scopes_eq =>
    rw [Mark.closeBlocks_eq_some hturn] at h
    obtain ⟨base, hleads, hlength, hrest⟩ := Nests.closeBlocks hsite h
    generalize m.world.scopes.between m.context.symbols base = blocks at hleads hlength hrest
    cases hleads with
    | here => cases hlength
    | up _ hparent houter =>
      cases houter with
      | here =>
        rw [parent] at hparent
        cases hparent
        unfold NestsIn
        rw [packages_eq, frame.lower_eq, frame.suspended_eq, scopes_eq]
        exact hrest
      | up _ _ _ => cases hlength
  | passBlock frame => cases hturn
  | define frame r scope packages_eq saved_eq symbols_eq defines =>
    cases hturn
    unfold NestsIn at h ⊢
    rw [← saved_eq] at h
    rw [symbols_eq, packages_eq, frame.lower_eq, frame.suspended_eq]
    have htable : m.world.scopes.contains scope.table = false ∨
        m'.world.scopes = m.world.scopes := by
      rcases defines.table_eq with ⟨-, hsame, -⟩ | ⟨hfresh, -⟩
      · exact .inr hsame
      · exact .inl hfresh
    have hnests := h.define defines.sound defines.live defines.others htable
    cases hlive : m.world.scopes.contains scope.table with
    | true =>
      rw [hlive, if_pos rfl] at hnests
      rw [if_neg (by simp)]
      exact hnests
    | false =>
      rw [hlive, if_neg Bool.false_ne_true] at hnests
      rw [if_pos ⟨rfl, rfl⟩]
      exact hnests
  | undefine frame scope packages_eq symbols_eq outline_eq =>
    obtain ⟨marks, rfl⟩ : ∃ rest, marks = .definition :: rest := by
      unfold Deed.turn at hturn
      split at hturn
      all_goals first | contradiction | exact ⟨_, rfl⟩
    cases hturn
    unfold NestsIn at h ⊢
    rw [packages_eq] at h
    rw [symbols_eq, frame.lower_eq, frame.suspended_eq]
    exact h.undefine.congr outline_eq
  | enter enters =>
    cases hturn
    obtain ⟨made, hgrows⟩ := enters.grows
    obtain ⟨below, f, hlower, hsymbols, hfp, hbelow⟩ := enters.frame
    unfold NestsIn
    rw [enters.packages_eq, hlower, enters.suspended_eq]
    refine Nests.enter h hgrows enters.fresh hsymbols ?_ (by rw [hfp, hbelow])
    have hsize := congrArg Array.size hbelow
    rw [Context.size_lower hgrounded.fp_le, Array.size_extract] at hsize
    omega
  | leave leaves =>
    obtain ⟨n, rest, rfl, hrest⟩ := Mark.leaveFunctions_eq_some hturn
    rw [Mark.leaveFunctions_zero] at hrest
    cases hrest
    exact NestsIn.leave hsite leaves h
  | suspend suspends =>
    cases hturn
    obtain ⟨s, hsuspended, hsymbols, hpackages, hlower⟩ := suspends.waits
    unfold NestsIn at h ⊢
    have hempty : m'.context.lower = #[] := by
      rw [Context.lower, suspends.fresh.fp_eq]
      simp
    rw [← hsymbols, ← hpackages, ← hlower] at h
    rw [suspends.symbols_eq, suspends.packages_eq, hempty, hsuspended, ← hsymbols]
    exact h.suspend.congr suspends.outline_eq

/-! ### What is open after a fault -/

/-- Functions are left, the innermost first, while the frame pointer is above `fp`. -/
inductive LeavesAll (fp : Nat) : Nat → Machine → Machine → Prop
  | none {m : Machine} (framed : m.Framed) (fp_le : m.context.fp ≤ fp) : LeavesAll fp 0 m m
  | more {n : Nat} {m m' m'' : Machine} (framed : m.Framed) (fp_lt : fp < m.context.fp)
      (leaves : m.LeavesScope m') (rest : LeavesAll fp n m' m'') : LeavesAll fp (n + 1) m m''

namespace LeavesAll

variable {fp n : Nat}

theorem fp_le (h : LeavesAll fp n m m') : m'.context.fp ≤ fp := by
  induction h with
  | none _ fp_le => exact fp_le
  | more _ _ _ _ ih => exact ih

theorem framed (h : LeavesAll fp n m m') : m'.Framed := by
  induction h with
  | none framed _ => exact framed
  | more _ _ _ _ ih => exact ih

theorem packages_eq (h : LeavesAll fp n m m') : m'.context.packages = m.context.packages := by
  induction h with
  | none _ _ => rfl
  | more _ _ leaves _ ih => exact ih.trans leaves.packages_eq

theorem nests (h : LeavesAll fp n m m') (hsite : site.scopes.Sound)
    (hnests : m.NestsIn site marks defined) (hmarks : Mark.leaveFunctions n marks = some marks') :
    m'.NestsIn site marks' defined := by
  induction h generalizing marks with
  | none _ _ =>
    rw [Mark.leaveFunctions_zero] at hmarks
    cases hmarks
    exact hnests
  | more _ _ leaves _ ih =>
    obtain ⟨k, rest, rfl, hrest⟩ := Mark.leaveFunctions_eq_some hmarks
    exact ih (NestsIn.leave hsite leaves hnests) hrest

end LeavesAll

end Machine

namespace Exec

open Machine

variable {m : Machine} {site : Site} {marks marks' : List Mark} {defined : List TableId}

/-- Leaving functions until the frame pointer is low enough. -/
theorem unwindTo_leavesAll {fp fuel : Nat} (h : m.Framed) (hfuel : m.context.fp ≤ fuel)
    (hlive : (outcome (unwindTo fp fuel) m).2.HiddenLive) :
    ∃ n m', outcome (unwindTo fp fuel) m = (.ok (), m') ∧ LeavesAll fp n m m' ∧
      m'.context.frameDepth + n = m.context.frameDepth := by
  induction fuel generalizing m with
  | zero => exact ⟨0, m, rfl, .none h (by omega), rfl⟩
  | succ fuel ih =>
    have hlive₀ := (IsFading.unwindTo fp (fuel + 1) m).hiddenLive hlive
    rw [unwindTo, outcome_bind_ok (outcome_context m)] at hlive ⊢
    by_cases hlt : fp < m.context.fp
    · rw [if_pos hlt] at hlive ⊢
      have hlive₁ := hiddenLive_of_bind (fun _ => IsFading.unwindTo fp fuel) hlive
      obtain ⟨m₁, hout, hleaves, hdepth⟩ := unwindFrame_leaves h (by omega) hlive₀
      obtain ⟨m₁', hout', hunwound, hdown, -⟩ := unwindFrame_unwound h (by omega) hlive₁
      rw [hout] at hout'
      cases hout'
      rw [outcome_bind_ok hout] at hlive ⊢
      obtain ⟨n, m₂, hout₂, hall, hdepth₂⟩ := ih hunwound.framed (by omega) hlive
      exact ⟨n + 1, m₂, hout₂, .more h hlt hleaves hall, by omega⟩
    · rw [if_neg hlt]
      exact ⟨0, m, rfl, .none h (by omega), rfl⟩

theorem outcome_recover (f : Fault) (m : Machine) : outcome (recover f) m
    = if f.isSignal then (.error (.fault f), m)
      else match m.context.catcher? f with
        | some (handler, outer) =>
          outcome (catchAt handler outer (f.raisedAt m.context.code.name m.context.line)) m
        | none => outcome (abandon (f.raisedAt m.context.code.name m.context.line)) m := by
  unfold recover Context.catcher?
  split
  · rfl
  · rw [outcome_bind_ok (outcome_context m)]
    dsimp only
    generalize (if (!((f.raisedAt m.context.code.name m.context.line).kind == .panic &&
      m.context.panics)) = true then findHandler (f.raisedAt m.context.code.name m.context.line)
        m.context.handlers else none) = found
    cases found <;> rfl

/-- The outermost code cannot be left. -/
theorem fp_pos_of_unwindFrame {m' : Machine} (h : outcome unwindFrame m = (.ok (), m')) :
    0 < m.context.fp := by
  rcases Nat.eq_zero_or_pos m.context.fp with hzero | hpos
  · have htake : outcome takeFrame { m with context := { m.context with result := none } }
        = (.error (.fault (.bare .invalidCallFrame)),
          { m with context := { m.context with result := none } }) := by
      rw [takeFrame, outcome_bind_ok (outcome_context _), if_pos hzero]
      rfl
    rw [unwindFrame, outcome_bind_ok (outcome_modifyContext _ m), restoreFrame_eq] at h
    rw [outcome_bind_error htake] at h
    cases h
  · exact hpos

/-- The outermost code is in no function. -/
theorem frameDepth_eq_zero (h : m.Framed) (hfp : m.context.fp ≤ 0) : m.context.frameDepth = 0 := by
  have hframed := h.running
  unfold Context.Framed at hframed
  generalize m.context.stack = stack, m.context.fp = fp, m.context.frameDepth = depth,
    m.context.handlers = handlers at hframed hfp
  cases hframed with
  | outermost => rfl
  | inner => omega

/-- Giving up leaves all functions. -/
theorem abandon_leavesAll {f : Fault} (h : m.Framed)
    (hlive : (outcome (abandon f) m).2.HiddenLive) :
    ∃ world m', world.scopes = m.world.scopes ∧
      LeavesAll 0 m.context.frameDepth { m with world } m' ∧
      outcome (abandon f) m
        = (.error (.fault f), { m' with context := { m'.context with running := false } }) := by
  have hrest : ∀ world, world.scopes = m.world.scopes → (outcome (do
      tryCatch (unwindTo 0 (m.context.stack.size + 1)) fun _ => pure ()
      modifyContext fun c => { c with running := false }
      fail f : Exec Unit) { m with world }).2.HiddenLive → ∃ m',
        LeavesAll 0 m.context.frameDepth { m with world } m' ∧ outcome (do
          tryCatch (unwindTo 0 (m.context.stack.size + 1)) fun _ => pure ()
          modifyContext fun c => { c with running := false }
          fail f : Exec Unit) { m with world }
            = (.error (.fault f), { m' with context := { m'.context with running := false } }) := by
    intro world hscopes hlive
    have hle := h.running.fp_le
    have hlive₁ := hiddenLive_of_bind (fun _ => IsFading.bind (.modifyContext _) fun _ =>
      Keeps.fail f) hlive
    have hlive₂ : (outcome (unwindTo 0 (m.context.stack.size + 1))
        { m with world }).2.HiddenLive := by
      rw [outcome_tryCatch] at hlive₁
      rcases hout : outcome (unwindTo 0 (m.context.stack.size + 1)) { m with world } with
        ⟨r | a, m₁⟩
      · rw [hout] at hlive₁
        exact hlive₁
      · rw [hout] at hlive₁
        exact hlive₁
    obtain ⟨n, m₁, hout, hall, hdepth⟩ := unwindTo_leavesAll (m := { m with world })
      ⟨h.running, h.waiting, by rw [hscopes]; exact h.sound⟩ (by exact Nat.le_succ_of_le hle) hlive₂
    rw [frameDepth_eq_zero hall.framed hall.fp_le, Nat.zero_add] at hdepth
    have htry : outcome (tryCatch (unwindTo 0 (m.context.stack.size + 1)) fun _ => pure ())
        { m with world } = (.ok (), m₁) := by
      rw [outcome_tryCatch, hout]
    obtain rfl : n = m.context.frameDepth := hdepth
    refine ⟨m₁, hall, ?_⟩
    rw [outcome_bind_ok htry, outcome_bind_ok (outcome_modifyContext _ m₁)]
    rfl
  rw [abandon, outcome_bind_ok (outcome_context m)] at hlive ⊢
  dsimp only at hlive ⊢
  by_cases htrace : m.context.stackTrace = true
  · rw [if_pos htrace, outcome_bind_ok (outcome_onWorld _ m)] at hlive ⊢
    generalize hworld : ((World.emit .app s!"{f.message}\n{m.context.frameText none}").run
      m.world).2 = world at hlive ⊢
    have hscopes : world.scopes = m.world.scopes := by
      rw [← hworld]
      rfl
    obtain ⟨m', hall, hout⟩ := hrest world hscopes hlive
    exact ⟨world, m', hscopes, hall, hout⟩
  · rw [if_neg htrace] at hlive ⊢
    obtain ⟨m', hall, hout⟩ := hrest m.world rfl hlive
    exact ⟨m.world, m', rfl, hall, hout⟩

theorem catchAt_nests {handler : Handler} {pre outer : List Handler} {f : Fault}
    (hsite : site.scopes.Sound) (h : m.Framed)
    (hhandlers : m.context.handlers = pre ++ handler :: outer)
    (hlive : (outcome (catchAt handler outer f) m).2.HiddenLive)
    (hnests : m.NestsIn site marks defined)
    (hmarks : (do
      let unwound := (outcome (unwindTo handler.fp (m.context.stack.size + 1)) m).2
      let marks ← Mark.leaveFunctions (m.context.frameDepth - unwound.context.frameDepth) marks
      let blocks ← unwound.world.scopes.distance? handler.symbols
        (unwound.world.scopes.places.size + 1) unwound.context.symbols
      Mark.closeBlocks blocks marks) = some marks') :
    (outcome (catchAt handler outer f) m).2.NestsIn site marks' defined := by
  have hle := h.running.fp_le
  rw [catchAt_eq, outcome_bind_ok (outcome_context m)] at hlive ⊢
  have hlive₁ := hiddenLive_of_bind (fun _ => IsFading.bind (.modifyContext _) fun _ =>
    IsFading.resumeHandler handler outer f) hlive
  obtain ⟨m₁, hout₁, -, hsize, -⟩ := unwindTo_handler h hhandlers hlive₁
  obtain ⟨n, m₂, hout₂, hall, hdepth⟩ := unwindTo_leavesAll h (Nat.le_succ_of_le hle) hlive₁
  rw [hout₁] at hout₂
  cases hout₂
  dsimp only at hmarks
  rw [hout₁, show m.context.frameDepth - m₁.context.frameDepth = n by omega] at hmarks
  obtain ⟨marks₁, hleft, hmarks⟩ := Option.bind_eq_some_iff.1 hmarks
  obtain ⟨blocks, hdistance, hclosed⟩ := Option.bind_eq_some_iff.1 hmarks
  have hnests₁ := hall.nests hsite hnests hleft
  rw [Mark.closeBlocks_eq_some hclosed] at hnests₁
  obtain ⟨tables, hleads, hlength⟩ := Arena.leads_of_distance? hdistance
  obtain ⟨base, hbase, hcount, hrest⟩ := Nests.closeBlocks hsite hnests₁
  obtain rfl := hbase.unique hleads (hcount.trans hlength.symm)
  obtain ⟨r, world, loops, observer, hout, houtline⟩ := outcome_resumeHandler handler outer f
    { m₁ with context := { m₁.context with handlers := handler :: outer } }
  rw [outcome_bind_ok hout₁, outcome_bind_ok (outcome_modifyContext _ m₁), hout]
  have hlower : (m₁.context.stack.extract 0 handler.stackSize).extract 0 m₁.context.fp
      = m₁.context.lower := by
    simp only [Array.extract_extract, Nat.zero_add, Nat.min_eq_left hsize]
    rfl
  unfold NestsIn
  rw [← hlower] at hrest
  exact hrest.congr houtline

/-- **What is open once a fault is dealt with.** -/
theorem settle_nests {f : Fault} {m' : Machine} (hsite : site.scopes.Sound) (h : m.Framed)
    (hout : outcome (settle f) m = (.ok (), m')) (hlive : m'.HiddenLive)
    (hnests : m.NestsIn site marks defined) (hmarks : m.recoveredMarks f marks = some marks') :
    m'.NestsIn site marks' defined := by
  unfold settle at hout
  unfold recoveredMarks at hmarks
  by_cases hsignal : f.isSignal = true
  · have hcatcher : m.context.catcher? f = none := if_pos hsignal
    rw [hcatcher] at hmarks
    dsimp only at hmarks
    rw [if_pos hsignal] at hmarks
    cases hmarks
    split at hout
    · obtain ⟨j, hj⟩ := outcome_finish m
      rw [hj] at hout
      cases hout
      exact hnests
    · rw [outcome_tryCatch, outcome_recover, if_pos hsignal] at hout
      cases hout
      exact hnests
  · have hstop : f.kind ≠ .stop := by
      intro hkind
      rw [Fault.isSignal, hkind] at hsignal
      exact hsignal rfl
    rw [if_neg hstop, outcome_tryCatch] at hout
    have hrecover := outcome_recover f m
    rw [if_neg hsignal] at hrecover
    have hafter : m'.HiddenLive → (outcome (recover f) m).2.HiddenLive ∧
        ((outcome (recover f) m).2.NestsIn site marks' defined →
          m'.NestsIn site marks' defined) := by
      intro hlive
      rcases hrun : outcome (recover f) m with ⟨(g | _) | _, m₁⟩
      · rw [hrun] at hout
        cases hout
        exact ⟨hlive, id⟩
      · rw [hrun] at hout
        cases hout
      · rw [hrun] at hout
        cases hout
        exact ⟨hlive, id⟩
    obtain ⟨hlive₁, hback⟩ := hafter hlive
    refine hback ?_
    cases hcatcher : m.context.catcher? f with
    | none =>
      rw [hcatcher] at hmarks hrecover
      dsimp only at hmarks hrecover
      rw [if_neg hsignal] at hmarks
      rw [hrecover] at hlive₁ ⊢
      obtain ⟨world, m₂, hscopes, hall, hout₂⟩ := abandon_leavesAll h hlive₁
      rw [hout₂]
      have hworld : ({ m with world } : Machine).NestsIn site marks defined :=
        hnests.congr (congrArg Arena.outline hscopes) rfl rfl rfl rfl
      exact (hall.nests hsite hworld hmarks).congr rfl rfl rfl rfl rfl
    | some found =>
      obtain ⟨handler, outer⟩ := found
      rw [hcatcher] at hmarks hrecover
      dsimp only at hmarks hrecover
      rw [hrecover] at hlive₁ ⊢
      unfold Context.catcher? at hcatcher
      rw [if_neg hsignal] at hcatcher
      dsimp only at hcatcher
      split at hcatcher
      · obtain ⟨pre, hpre⟩ := findHandler_eq_some hcatcher
        exact catchAt_nests hsite h hpre hlive₁ hnests hmarks
      · cases hcatcher

end Exec

namespace Machine

variable {entered m m' after : Machine} {site : Site} {marks marks' : List Mark}
  {defined : List TableId}

/-! ### Tidy runs -/

namespace Tidy

theorem hiddenLive (h : Tidy entered m marks defined) : m.HiddenLive := by
  induction h with
  | start hlive => exact hlive
  | step _ hlive _ _ => exact hlive
  | elsewhere _ _ _ _ hlive _ => exact hlive
  | resume _ _ ih => exact ih

theorem hiddenLive_first (h : Tidy entered m marks defined) : entered.HiddenLive := by
  induction h with
  | start hlive => exact hlive
  | step _ _ _ ih => exact ih
  | elsewhere _ _ _ _ _ ih => exact ih
  | resume _ _ ih => exact ih

theorem framed (h : Tidy entered m marks defined) (hentered : entered.Framed) : m.Framed := by
  induction h with
  | start _ => exact hentered
  | step _ hlive _ ih => exact (step_follows ih hlive).framed
  | elsewhere _ world tasks hsame _ ih => exact ⟨ih.running, ih.waiting, ih.sound.congr hsame⟩
  | resume _ switches ih => exact ⟨ih.running, ih.waiting, ih.sound⟩

end Tidy

/-- What a step of a tidy run leaves open. -/
theorem NestsIn.step (hsite : site.scopes.Sound) (hframed : m.Framed) (hlive : m.HiddenLive)
    (hafter : m.step.1.HiddenLive) (h : m.NestsIn site marks defined)
    (hturned : m.turned marks = some marks') :
    m.step.1.NestsIn site marks' (m.definedBy defined) := by
  obtain ⟨marks₁, hready, hturned⟩ := Option.bind_eq_some_iff.1 hturned
  have hnests := h.ready hready
  obtain ⟨hdoes, hfails⟩ := attempt_does hframed hlive
  have hground := hframed.ready.running.grounded
  rcases m.step_cases with ⟨hok, hgoes⟩ | ⟨f, m₁, hfault, hsettle, hgoes⟩ | ⟨hwait, herror⟩
  · rw [hok] at hturned
    have hturn : m.deed.turn marks₁ = some marks' := by
      cases hprogress : m.step.2 with
      | blocked => exact absurd hprogress hgoes
      | running =>
        rw [hprogress] at hturned
        exact hturned
      | ended result =>
        rw [hprogress] at hturned
        exact hturned
    have hdone : m.attempt.2.NestsIn site marks' (m.definedBy defined) :=
      hnests.does hsite hdoes hground hturn
    rwa [show m.attempt.2 = m.step.1 from congrArg Prod.snd hok] at hdone
  · have hdeed := hfails ⟨_, congrArg Prod.fst hfault⟩
    have hrecovered : m₁.recoveredMarks f marks₁ = some marks' := by
      rw [hfault] at hturned
      cases hprogress : m.step.2 with
      | blocked => exact absurd hprogress hgoes
      | running =>
        rw [hprogress] at hturned
        exact hturned
      | ended result =>
        rw [hprogress] at hturned
        exact hturned
    have hfades := Exec.IsFading.settle f m₁
    rw [hsettle] at hfades
    have hattempt := attempt_climbs_or_unwound hframed (by
      rw [hfault]
      exact hfades.hiddenLive hafter)
    have hnests₁ := hnests.does hsite hdoes hground (by rw [hdeed]; rfl)
    rw [hfault] at hattempt hnests₁
    have hdefined : m.definedBy defined = defined := by
      rw [definedBy, hdeed]
      exact if_neg (fun h => nomatch h.1)
    rw [hdefined]
    rw [hdeed, if_neg (fun h => nomatch h.1)] at hnests₁
    exact Exec.settle_nests hsite (hattempt.elim Climbs.framed Unwound.framed) hsettle hafter
      hnests₁ hrecovered
  · have hdeed := hfails herror
    have hdefined : m.definedBy defined = defined := by
      rw [definedBy, hdeed]
      exact if_neg (fun h => nomatch h.1)
    rw [hwait] at hturned ⊢
    cases hturned
    rw [hdefined]
    exact hnests

/-- **A tidy run keeps the current table connected** with the one in which the call was made. -/
theorem Tidy.nests (h : Tidy entered m marks defined) (hsite : site.scopes.Sound)
    (hframed : entered.Framed) (hentered : entered.NestsIn site [] []) :
    m.NestsIn site marks defined := by
  induction h with
  | start _ => exact hentered
  | step before hlive hturned ih =>
    exact ih.step hsite (before.framed hframed) before.hiddenLive hlive hturned
  | elsewhere _ world tasks hsame _ ih => exact ih.congr hsame rfl rfl rfl rfl
  | resume _ switches ih => exact ih.congr rfl rfl rfl rfl rfl

/-! ### Exits -/

/-- What a function opens and closes in turn leads back to the table in which it began. -/
theorem Tidy.nestsHere (h : Tidy entered m marks defined) (hframed : entered.Framed)
    (hlive : entered.world.scopes.contains entered.context.symbols = true) :
    m.NestsIn (entered.site entered) marks defined :=
  h.nests hframed.sound hframed (Nests.callee (by exact hlive)
    ⟨hframed.sound, fun _ => .here, nofun, nofun, List.nodup_nil, fun x _ => .refl _ x⟩)

/-- A fault is not caught by the handlers of a function or of those that it calls. -/
def Passes (m : Machine) (f : Fault) (fp : Nat) : Prop :=
  f.isSignal = false ∧
    ∀ handler outer, m.context.catcher? f = some (handler, outer) → handler.fp < fp

/-- The ways in which the next step leaves the function at a frame pointer of the context at level
`k`: it returns, or a fault passes through it, which ends first the functions that it calls. -/
inductive Exits (m : Machine) (k fp : Nat) : Machine → Prop
  | returns {after : Machine} (leaves : m.Leaves k fp after) : Exits m k fp after
  | unwinds {f : Fault} {m₁ m₂ after : Machine} (level : m.ready.suspended.length = k)
      (inside : fp ≤ m.ready.context.fp) (fault : m.attempt = (.error (.fault f), m₁))
      (passes : m₁.Passes f fp)
      (inner : Exec.outcome (Exec.unwindTo fp (m₁.context.stack.size + 1)) m₁ = (.ok (), m₂))
      (hidden : m₂.HiddenLive) (left : Exec.outcome Exec.unwindFrame m₂ = (.ok (), after)) :
      Exits m k fp after

/-- The tables from before a call are as they were, the live ones are these and some hidden tables,
and the same package definitions are open. -/
structure Spared (atCall after : Machine) (hidden : List TableId) : Prop where
  kept : ∀ x, atCall.world.scopes.contains x = true →
    atCall.world.scopes.SameTable after.world.scopes x
  live : ∀ x, after.world.scopes.contains x = true ↔
    atCall.world.scopes.contains x = true ∨ x ∈ hidden
  packages : after.context.packages = atCall.context.packages

/-- The functions inside the callee are left for it. -/
theorem LeavesAll.nestsInside {n : Nat} (h : LeavesAll site.lower.size n m m')
    (hsite : site.scopes.Sound) (hnests : m.NestsIn site marks defined)
    (hpackages : m.context.packages = site.packages)
    (hwaiting : m.suspended.length ≤ site.waiting.length) :
    (∃ marks', m'.NestsIn site marks' defined) ∧ m'.suspended = m.suspended := by
  induction h generalizing marks with
  | none _ _ => exact ⟨⟨marks, hnests⟩, rfl⟩
  | more framed fp_lt leaves _ ih =>
    unfold NestsIn at hnests
    rw [hpackages] at hnests
    obtain ⟨k, rest, rfl⟩ := hnests.functions hwaiting (by
      rw [Context.size_lower framed.running.fp_le]
      exact fp_lt)
    rw [← hpackages] at hnests
    obtain ⟨hlast, hsuspended⟩ := ih (NestsIn.leave hsite leaves hnests)
      (leaves.packages_eq.trans hpackages) (by rw [leaves.suspended_eq]; exact hwaiting)
    exact ⟨hlast, hsuspended.trans leaves.suspended_eq⟩

/-- The callee is left with no package definition open. -/
theorem NestsIn.exit {below : Array Slot} {f : Frame} (hsite : site.scopes.Sound)
    (hlower : site.lower = below.push (.frame f)) (hsymbols : f.symbols = site.table)
    (h : m.NestsIn site marks defined) (hpackages : m.context.packages = site.packages)
    (hwaiting : m.suspended.length ≤ site.waiting.length)
    (hsize : m.context.lower.size ≤ site.lower.size) (hleaves : m.LeavesScope after) :
    site.scopes.Intact after.world.scopes defined [] [site.table] := by
  unfold NestsIn at h
  rw [hpackages] at h
  have hexit := h.exit hsite hwaiting hsize
  obtain ⟨own, pins, hlaid, -⟩ := h
  obtain ⟨-, -, -, hsame⟩ := hlaid.size_lower_le hwaiting
  obtain ⟨below', f', hlower', -, -, houtline⟩ := hleaves.frame
  rw [(hsame hsize).1, hlower] at hlower'
  obtain ⟨hframe, -⟩ := Array.push_eq_push.1 hlower'
  cases hframe
  rw [hsymbols] at houtline
  exact hexit.congr houtline

theorem spared_of_intact {hidden pins : List TableId}
    (h : m.world.scopes.Intact after.world.scopes hidden [] pins)
    (hpackages : after.context.packages = m.context.packages) : m.Spared after hidden := by
  refine ⟨h.kept, fun x => ⟨fun hx => ?_, fun hx => ?_⟩, hpackages⟩
  · exact (h.new x hx).imp_right fun hx => hx.resolve_right List.not_mem_nil
  · rcases hx with hx | hx
    · rw [(h.kept x hx).contains_eq]
      exact hx
    · exact h.definedLive x hx

/-- A call makes the tables of the function that it enters. -/
theorem Enters.entersScope {atCall : Machine} {i : Instruction} (h : atCall.Enters i entered)
    (hframed : atCall.Framed) (hlive : atCall.HiddenLive) : atCall.EntersScope entered := by
  have hready : atCall.ready = atCall := by
    rw [ready, h.going]
  obtain ⟨hdoes, -⟩ := attempt_does hframed hlive
  rw [hready, h.completes] at hdoes
  exact hdoes.enters hframed.running.grounded h.deeper

theorem Enters.framed {atCall : Machine} {i : Instruction} (h : atCall.Enters i entered)
    (hframed : atCall.Framed) (hlive : entered.HiddenLive) : entered.Framed := by
  have hstep := step_of_attempt_ok h.completes
  have hfollows := step_follows hframed (by rw [hstep]; exact hlive)
  rw [← hstep]
  exact hfollows.framed

/-- The place of a call that enters a function. -/
theorem Enters.nests {atCall : Machine} {i : Instruction} (henters : atCall.Enters i entered)
    (hframed : atCall.Framed) (hlive : atCall.HiddenLive)
    (hcaller : atCall.world.scopes.contains atCall.context.symbols = true) :
    entered.NestsIn (atCall.site entered) [] [] ∧ ∃ (below : Array Slot) (f : Frame),
      entered.context.lower = below.push (.frame f) ∧ f.symbols = atCall.context.symbols := by
  have henters := henters.entersScope hframed hlive
  obtain ⟨made, hgrows⟩ := henters.grows
  obtain ⟨below, f, hlower, hsymbols, -, -⟩ := henters.frame
  refine ⟨?_, below, f, hlower, hsymbols⟩
  unfold NestsIn
  rw [henters.packages_eq, henters.suspended_eq]
  have hcallee : (atCall.site entered).scopes.contains (atCall.site entered).table = true := hcaller
  exact Nests.callee hcallee hgrows

/-- A return leaves a function for its caller; if the package definitions from the call are open, no
function inside the callee is left to leave. -/
theorem Leaves.leavesScope (h : m.Leaves site.waiting.length site.lower.size after)
    (hframed : m.Framed) (hlive : m.HiddenLive) (hsite : site.scopes.Sound)
    (hnests : m.ready.NestsIn site marks defined) :
    m.ready.LeavesScope after ∧ (m.ready.context.packages = site.packages →
      m.ready.context.lower.size ≤ site.lower.size) := by
  obtain ⟨hdoes, -⟩ := attempt_does hframed hlive
  have hground := hframed.ready.running.grounded
  have hsize := Context.size_lower hground.fp_le
  have hlevel := h.level
  have hwaiting : m.ready.suspended.length ≤ site.waiting.length := Nat.le_of_eq hlevel
  obtain ⟨own, pins, hlaid, -⟩ := id hnests
  obtain ⟨-, -, hle, -⟩ := hlaid.size_lower_le hwaiting
  have hleft := h.left
  rw [h.completes] at hdoes
  rw [← hlevel] at hleft
  have hleaves : m.ready.LeavesScope after := hdoes.leaves hground (by
    show (after.contextAt m.ready.suspended.length).fp < m.ready.context.fp
    omega)
  refine ⟨hleaves, fun hpackages => ?_⟩
  -- A function inside the callee would be left for the callee or for one inside it.
  rcases Nat.lt_or_ge site.lower.size m.ready.context.lower.size with hlt | hge
  · unfold NestsIn at hnests
    rw [hpackages] at hnests
    obtain ⟨n, rest, rfl⟩ := hnests.functions hwaiting hlt
    rw [← hpackages] at hnests
    obtain ⟨own, pins, hlaid, -⟩ := NestsIn.leave hsite hleaves hnests
    have hsame := hleaves.suspended_eq
    obtain ⟨-, -, hle, -⟩ := hlaid.size_lower_le (by rw [hsame]; exact hwaiting)
    rw [contextAt_of_level (Nat.le_of_eq (congrArg List.length hsame))] at hleft
    rw [Context.lower, Array.size_extract] at hle
    omega
  · exact hge

/-- **An exit leaves the callee** from a state with the same package definitions open; if these are
the ones from the call, no function inside the callee is left to leave. -/
theorem Exits.leaves (h : m.Exits site.waiting.length site.lower.size after) (hframed : m.Framed)
    (hlive : m.HiddenLive) (hsite : site.scopes.Sound)
    (hnests : m.ready.NestsIn site marks defined) :
    ∃ last : Machine, last.LeavesScope after ∧
      last.context.packages = m.ready.context.packages ∧
      (m.ready.context.packages = site.packages →
        (∃ marks, last.NestsIn site marks defined) ∧
        last.suspended.length ≤ site.waiting.length ∧
        last.context.lower.size ≤ site.lower.size) := by
  obtain ⟨hdoes, hfails⟩ := attempt_does hframed hlive
  cases h with
  | returns leaves =>
    obtain ⟨hleaves, hsize⟩ := leaves.leavesScope hframed hlive hsite hnests
    exact ⟨m.ready, hleaves, rfl, fun hpackages =>
      ⟨⟨marks, hnests⟩, Nat.le_of_eq leaves.level, hsize hpackages⟩⟩
  | @unwinds f m₁ m₂ _ level inside fault passes inner hidden left =>
    have hdeed := hfails ⟨_, congrArg Prod.fst fault⟩
    rw [hdeed, fault] at hdoes
    have hfades := Exec.IsFading.unwindTo site.lower.size (m₁.context.stack.size + 1) m₁
    rw [inner] at hfades
    have hlive₁ : m₁.HiddenLive := hfades.hiddenLive hidden
    have hframed₁ : m₁.Framed := by
      have hattempt := attempt_climbs_or_unwound hframed (by rw [fault]; exact hlive₁)
      rw [fault] at hattempt
      exact hattempt.elim Climbs.framed Unwound.framed
    obtain ⟨n, m₂', hout, hall, -⟩ := Exec.unwindTo_leavesAll hframed₁
      (Nat.le_succ_of_le hframed₁.running.fp_le) (by rw [inner]; exact hidden)
    rw [inner] at hout
    cases hout
    obtain ⟨m₃, hout, hleaves, -⟩ := Exec.unwindFrame_leaves hall.framed
      (Exec.fp_pos_of_unwindFrame left) hidden
    rw [left] at hout
    cases hout
    cases hdoes with
    | nothing same =>
      refine ⟨m₂, hleaves, hall.packages_eq.trans same.packages_eq, fun hpackages => ?_⟩
      have hwaiting : m₁.suspended.length ≤ site.waiting.length := by
        exact Nat.le_of_eq (by rw [same.suspended_eq, level])
      obtain ⟨hlast, hsuspended⟩ := hall.nestsInside hsite (hnests.congr same.outline_eq
        same.symbols_eq same.packages_eq same.lower_eq same.suspended_eq)
        (same.packages_eq.trans hpackages) hwaiting
      refine ⟨hlast, by rw [hsuspended]; exact hwaiting, ?_⟩
      rw [Context.size_lower hall.framed.running.fp_le]
      exact hall.fp_le

/-- **Exits spare the scopes around just if no definition is open.** A function was called whose
caller's table is live; what it opens it closes in turn, up to the step that leaves it, by a return
or because a fault passes through it. Then the tables from before the call are as they were, all
others are gone but the hidden tables of the packages that were defined first in the call, and the
same package definitions are open, if and only if no definition is open when the function is left
that was not open at the call. -/
theorem exit_spares_scopes_iff {start atCall entered leaving after : Machine} {i : Instruction}
    {marks rest : List Mark} {defined : List TableId} (hbegins : start.Begins)
    (hreached : Trace HiddenLive start atCall)
    (hcaller : atCall.world.scopes.contains atCall.context.symbols = true)
    (henters : atCall.Enters i entered) (hbody : entered.Tidy leaving marks defined)
    (hready : leaving.readyMarks marks = some rest)
    (hexits : leaving.Exits atCall.suspended.length entered.context.fp after) :
    atCall.Spared after defined ↔
      leaving.ready.context.packages = atCall.context.packages := by
  have hframed := hreached.framed hbegins.framed
  have hsite : (atCall.site entered).scopes.Sound := hframed.sound
  have hentered := henters.framed hframed hbody.hiddenLive_first
  obtain ⟨hnests, below, f, hlower, hsymbols⟩ :=
    henters.nests hframed hreached.ok_last hcaller
  have hleaving := hbody.framed hentered
  have hsize : (atCall.site entered).lower.size = entered.context.fp :=
    Context.size_lower hentered.running.fp_le
  rw [← hsize] at hexits
  have hready := (hbody.nests hsite hentered hnests).ready hready
  obtain ⟨last, hleaves, hpackages, hinner⟩ :=
    Exits.leaves (by exact hexits) hleaving hbody.hiddenLive hsite hready
  have hafter : after.context.packages = leaving.ready.context.packages :=
    hleaves.packages_eq.trans hpackages
  constructor
  · intro hspared
    rw [← hafter, hspared.packages]
  · intro hsame
    obtain ⟨⟨marks', hlast⟩, hwaiting, hle⟩ := hinner hsame
    exact spared_of_intact (NestsIn.exit hsite hlower hsymbols hlast (hpackages.trans hsame)
      hwaiting hle hleaves) (hafter.trans hsame)

theorem hiddenLive_of_all {m : Machine} (h : m.world.heap.packages.toList.all
    (fun p => p.symbols.all m.world.scopes.contains) = true) : m.HiddenLive := by
  intro r t ht
  rw [Heap.package] at ht
  cases hp : m.world.heap.packages[r.id]? with
  | none =>
    rw [hp] at ht
    cases ht
  | some p =>
    rw [hp, Option.getD_some] at ht
    have hall := List.all_eq_true.1 h p (Array.mem_toList_iff.2 (Array.mem_of_getElem? hp))
    rwa [ht, Option.all_some] at hall

/-- A machine about to run `LocalCall 2; Stop; PushScope; PushPackage "p"; PopPackage; Return`. -/
def definer : Machine :=
  ofContext {} {
    name := "main"
    thread := 1
    symbols := .root
    code := ⟨"main", #[⟨.localCall, .ofNat 2⟩, .plain .stop, .plain .pushScope,
      ⟨.pushPackage, .string "p"⟩, .plain .popPackage, .plain .return], none, true, false⟩
    running := true }

/-- The subroutine leaves a block open, and defines a package. -/
theorem exit_spares_scopes_of_definer :
    Trace HiddenLive definer definer ∧
      definer.world.scopes.contains definer.context.symbols = true ∧
      definer.Enters ⟨.localCall, .ofNat 2⟩ definer.step.1 ∧
      definer.step.1.Tidy definer.step.1.step.1.step.1.step.1 [.block] [⟨3, 0⟩] ∧
      definer.step.1.step.1.step.1.step.1.Exits 0 1 definer.step.1.step.1.step.1.step.1.step.1 ∧
      definer.Spared definer.step.1.step.1.step.1.step.1.step.1 [⟨3, 0⟩] := by
  have hreached : Trace HiddenLive definer definer := .start (hiddenLive_of_all rfl)
  have henters : definer.Enters ⟨.localCall, .ofNat 2⟩ definer.step.1 :=
    ⟨rfl, rfl, rfl, rfl, rfl, Nat.zero_lt_one⟩
  have hentered : definer.step.1.Tidy definer.step.1 [] [] := .start (hiddenLive_of_all rfl)
  have hblock : definer.step.1.Tidy definer.step.1.step.1 [.block] [] :=
    hentered.step (hiddenLive_of_all rfl) rfl
  have hdefinition : definer.step.1.Tidy definer.step.1.step.1.step.1 [.definition, .block]
      [⟨3, 0⟩] := hblock.step (hiddenLive_of_all rfl) rfl
  have hbody : definer.step.1.Tidy definer.step.1.step.1.step.1.step.1 [.block] [⟨3, 0⟩] :=
    hdefinition.step (hiddenLive_of_all (by decide +kernel)) rfl
  have hexits : definer.step.1.step.1.step.1.step.1.Exits 0 1
      definer.step.1.step.1.step.1.step.1.step.1 :=
    .returns ⟨⟨.null, rfl⟩, rfl, attempt_eq_ok (by decide +kernel), by decide +kernel⟩
  have hready : definer.step.1.step.1.step.1.step.1.readyMarks [.block] = some [.block] := rfl
  have hspared := exit_spares_scopes_iff
    ⟨⟨OnlyValues.empty, rfl, rfl, rfl⟩, rfl, Arena.initial_sound⟩ hreached rfl henters hbody hready
    hexits
  exact ⟨hreached, rfl, henters, hbody, hexits, hspared.2 rfl⟩

end Machine

end ScriptMachine
