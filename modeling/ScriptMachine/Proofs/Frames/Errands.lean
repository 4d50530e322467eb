import Mathlib.Data.Set.Basic
import ScriptMachine.Proofs.Faults.Failing
import ScriptMachine.Proofs.Faults.Lasting

/-!
# Errands

A deferred call, a comparison of a sort and a task run in a context of their own, which is dropped
once it has ended. What it has opened is not closed then: it clears its tables up just if it has
left all functions by itself. A fault that nothing takes leaves them, but a stop does not.

* `Machine.SetsOut`: a context of its own is set going, and the world once that is done with.
* `Machine.Errand`: the run of such a context, and the tables around that are not its own.
* `Machine.Underway`: what such a run keeps; `Underway.step`, `Underway.elsewhere`.
* `errand_clears_iff`: the tables are cleared up just if the context has ended in no function.
-/

namespace ScriptMachine

namespace Mark

variable {marks marks' : List Mark} {n : Nat}

/-- What was opened first is a function or another context. -/
def Rooted (marks : List Mark) : Prop :=
  ∀ mark, marks.getLast? = some mark → mark = .function ∨ mark = .scratch

theorem rooted_nil : Rooted [] := fun _ h => nomatch h

theorem Rooted.suffix (h : Rooted marks) (hsuffix : marks' <:+ marks) : Rooted marks' := by
  obtain ⟨closed, rfl⟩ := hsuffix
  intro mark hmark
  refine h mark ?_
  rw [List.getLast?_append, hmark]
  rfl

theorem Rooted.cons {mark : Mark} (h : Rooted marks)
    (hfirst : marks = [] → mark = .function ∨ mark = .scratch) : Rooted (mark :: marks) := by
  intro last hlast
  cases marks with
  | nil =>
    cases hlast
    exact hfirst rfl
  | cons other rest =>
    rw [List.getLast?_cons_cons] at hlast
    exact h last hlast

theorem closeBlocks_suffix (h : closeBlocks n marks = some marks') : marks' <:+ marks :=
  ⟨_, (closeBlocks_eq_some h).symm⟩

theorem leaveFunctions_suffix (h : leaveFunctions n marks = some marks') : marks' <:+ marks := by
  induction n generalizing marks with
  | zero =>
    rw [leaveFunctions_zero] at h
    cases h
    exact List.suffix_refl _
  | succ n ih =>
    obtain ⟨k, rest, rfl, hrest⟩ := leaveFunctions_eq_some h
    exact (ih hrest).trans ((List.suffix_cons _ rest).trans (List.suffix_append _ _))

end Mark

open Mark

/-- Only blocks and definitions would be opened first. -/
theorem Deed.turn_rooted {deed : Deed} {marks marks' : List Mark} (h : Rooted marks)
    (hturn : deed.turn marks = some marks')
    (hfirst : marks = [] → deed ≠ .openBlock ∧ deed ≠ .define) : Rooted marks' := by
  cases deed with
  | nothing =>
    cases hturn
    exact h
  | openBlock =>
    cases hturn
    exact h.cons fun hnil => absurd rfl (hfirst hnil).1
  | closeBlock => exact h.suffix (closeBlocks_suffix hturn)
  | passBlock => cases hturn
  | define =>
    cases hturn
    exact h.cons fun hnil => absurd rfl (hfirst hnil).2
  | undefine =>
    obtain ⟨rest, rfl⟩ : ∃ rest, marks = .definition :: rest := by
      unfold Deed.turn at hturn
      split at hturn
      all_goals first | contradiction | exact ⟨_, rfl⟩
    cases hturn
    exact h.suffix (List.suffix_cons _ _)
  | enter =>
    cases hturn
    exact h.cons fun _ => .inl rfl
  | leave => exact h.suffix (leaveFunctions_suffix hturn)
  | suspend =>
    cases hturn
    exact h.cons fun _ => .inr rfl

namespace Laid

variable {a : Arena} {site : Site} {marks : List Mark} {id : TableId}
  {packages : List PackageScope} {lower : Array Slot} {waiting : List Suspended}
  {own pins : List TableId}

/-- Something was opened in the table of the call and in the hidden tables of open definitions. -/
theorem mem_pins (h : Laid a site marks id packages lower waiting own pins) {x : TableId}
    (hx : x ∈ pins) : x = site.table ∨ (∃ scope ∈ packages, x = scope.table) ∨
      ∃ s ∈ waiting, ∃ scope ∈ s.context.packages, x = scope.table := by
  induction h with
  | callee _ => exact .inl (List.mem_singleton.1 hx)
  | block _ _ _ _ ih => exact ih hx
  | @definition _ scope _ _ _ _ _ _ ih =>
    rcases List.mem_cons.1 hx with rfl | hx
    · exact .inr (.inl ⟨scope, List.mem_cons_self, rfl⟩)
    · rcases ih hx with hsite | ⟨other, hother, htable⟩ | hwaiting
      · exact .inl hsite
      · exact .inr (.inl ⟨other, List.mem_cons_of_mem _ hother, htable⟩)
      · exact .inr (.inr hwaiting)
  | function _ _ _ _ _ ih => exact ih hx
  | @scratch _ s _ _ _ _ ih =>
    rcases ih hx with hsite | hpackages | ⟨t, ht, hpackages⟩
    · exact .inl hsite
    · exact .inr (.inr ⟨s, List.mem_cons_self, hpackages⟩)
    · exact .inr (.inr ⟨t, List.mem_cons_of_mem _ ht, hpackages⟩)

/-- Every function has a table of its own. -/
theorem own_ne_nil (h : Laid a site marks id packages lower waiting own pins)
    (hfunction : .function ∈ marks) : own ≠ [] := by
  induction h with
  | callee _ => cases hfunction
  | block _ _ _ _ _ => exact List.cons_ne_nil _ _
  | definition _ ih => exact ih ((List.mem_cons.1 hfunction).resolve_left fun h => nomatch h)
  | function _ hmade _ _ _ _ => exact fun hnil => hmade (List.append_eq_nil_iff.1 hnil).1
  | scratch _ ih => exact ih ((List.mem_cons.1 hfunction).resolve_left fun h => nomatch h)

/-- The tables from before a call do not matter for what is open in it. -/
theorem withScopes (h : Laid a site marks id packages lower waiting own pins) (scopes : Arena) :
    Laid a { site with scopes } marks id packages lower waiting own pins := by
  induction h with
  | callee hleads => exact .callee hleads
  | block hparent hplain hpins _ ih => exact .block hparent hplain hpins ih
  | definition _ ih => exact .definition ih
  | function hleads hmade hpins hfp _ ih => exact .function hleads hmade hpins hfp ih
  | scratch _ ih => exact .scratch ih

/-- Where nothing is open, the callee runs in the tables in which it began. -/
theorem of_nil (h : Laid a site [] id packages lower waiting own pins) :
    lower = site.lower ∧ waiting = site.waiting ∧ a.Leads site.table site.entry own := by
  cases h with
  | callee hleads => exact ⟨rfl, rfl, hleads⟩

/-- Without a function inside the callee, the slots are those below it. -/
theorem lower_eq_of_not_mem (h : Laid a site marks id packages lower waiting own pins)
    (hwaiting : waiting.length ≤ site.waiting.length) (hfunction : .function ∉ marks) :
    lower = site.lower := by
  obtain ⟨-, hscratch, -, -⟩ := h.size_lower_le hwaiting
  clear hwaiting
  induction h with
  | callee _ => rfl
  | block _ _ _ _ ih =>
    rw [List.mem_cons, not_or] at hscratch hfunction
    exact ih hfunction.2 hscratch.2
  | definition _ ih =>
    rw [List.mem_cons, not_or] at hscratch hfunction
    exact ih hfunction.2 hscratch.2
  | function _ _ _ _ _ _ => exact absurd List.mem_cons_self hfunction
  | scratch _ _ => exact absurd List.mem_cons_self hscratch

end Laid

namespace Arena.Intact

variable {before a b : Arena} {defined own pins : List TableId}

theorem contains_iff (h : before.Intact a defined own pins) (x : TableId) :
    a.contains x = true ↔ (before.contains x = true ∨ x ∈ defined) ∨ x ∈ own := by
  refine ⟨fun hx => or_assoc.2 (h.new x hx), ?_⟩
  rintro ((hx | hx) | hx)
  · rw [(h.kept x hx).contains_eq]
    exact hx
  · exact h.definedLive x hx
  · exact h.ownLive x hx

theorem not_mem_own (h : before.Intact a defined own pins) {x : TableId}
    (hx : before.contains x = true ∨ x ∈ defined) : x ∉ own := by
  intro hmem
  obtain ⟨hfresh, hundefined⟩ := h.ownFresh x hmem
  rcases hx with hx | hx
  · rw [hfresh] at hx
    cases hx
  · exact hundefined hx

/-- Others have changed the tables, but for those made for what is open: from now on all others
count as tables from before. -/
theorem renew (h : before.Intact a defined own pins) (hbefore : before.Sound) (hsound : b.Sound)
    (hsame : ∀ x ∈ own, a.SameTable b x) (hpins : ∀ x ∈ pins, b.contains x = true) :
    (b.dropTables own).Intact b [] own pins ∧
      ∀ x, (b.dropTables own).contains x = true ↔ b.contains x = true ∧ x ∉ own := by
  have hroot : TableId.root ∉ own := h.not_mem_own (.inl hbefore.root)
  have hlookup := table?_dropTables (a := b) hroot
  have hdropped : ∀ x, (b.dropTables own).contains x = true ↔ b.contains x = true ∧ x ∉ own := by
    intro x
    by_cases hx : x ∈ own
    · simp [contains, hlookup, hx]
    · simp [contains, hlookup, hx]
  refine ⟨⟨hsound, fun x hx => ?_, fun x hx => ?_, fun x hx => absurd hx List.not_mem_nil,
    fun x hx => absurd hx List.not_mem_nil, fun x hx => ⟨?_, List.not_mem_nil⟩, fun x hx => ?_,
    hpins, h.nodup⟩, hdropped⟩
  · unfold SameTable
    rw [hlookup, if_neg ((hdropped x).1 hx).2]
  · by_cases hmem : x ∈ own
    · exact .inr (.inr hmem)
    · exact .inl ((hdropped x).2 ⟨hx, hmem⟩)
  · exact Bool.eq_false_iff.2 fun hlive => ((hdropped x).1 hlive).2 hx
  · rw [(hsame x hx).contains_eq]
    exact h.ownLive x hx

end Arena.Intact

namespace Machine

variable {m m' scratch last : Machine} {marks marks' : List Mark} {around : Set TableId}

/-! ### Steps -/

theorem recoveredMarks_suffix {f : Fault} (h : m.recoveredMarks f marks = some marks') :
    marks' <:+ marks := by
  unfold recoveredMarks at h
  split at h
  · obtain ⟨left, hleft, h⟩ := Option.bind_eq_some_iff.1 h
    obtain ⟨blocks, -, hclosed⟩ := Option.bind_eq_some_iff.1 h
    exact (closeBlocks_suffix hclosed).trans (leaveFunctions_suffix hleft)
  · split at h
    · cases h
      exact List.suffix_refl _
    · exact leaveFunctions_suffix h

theorem readyMarks_suffix (h : m.readyMarks marks = some marks') : marks' <:+ marks := by
  unfold readyMarks at h
  split at h
  · split at h
    · cases h
      exact List.tail_suffix marks
    · cases h
  · cases h
    exact List.suffix_refl _

theorem turned_rooted (h : Rooted marks) (hturned : m.turned marks = some marks')
    (hfirst : m.readyMarks marks = some [] → m.deed ≠ .openBlock ∧ m.deed ≠ .define) :
    Rooted marks' := by
  obtain ⟨ready, hready, hturned⟩ := Option.bind_eq_some_iff.1 hturned
  have hrooted := h.suffix (readyMarks_suffix hready)
  split at hturned
  · cases hturned
    exact hrooted
  · exact hrooted.suffix (recoveredMarks_suffix hturned)
  · exact Deed.turn_rooted hrooted hturned fun hnil => hfirst (hnil ▸ hready)

theorem opcode_of_deed (h : m.deed = .openBlock ∨ m.deed = .define) :
    m.opcode? = some .pushScope ∨ m.opcode? = some .pushPackage := by
  unfold deed at h
  split at h
  · rcases h with h | h <;> cases h
  · split at h
    · rename_i hop
      exact .inl hop
    · split at h <;> rcases h with h | h <;> cases h
    · rename_i hop
      exact .inr hop
    · rcases h with h | h <;> cases h
    · split at h
      · rcases h with h | h <;> cases h
      · split at h
        · rcases h with h | h <;> cases h
        · split at h <;> rcases h with h | h <;> cases h

/-- Code that calls once opens no block and defines no package. -/
theorem deed_of_callsOnce (h : m.context.code.CallsOnce) :
    m.deed ≠ .openBlock ∧ m.deed ≠ .define := by
  obtain ⟨count, hops⟩ := h
  have hcalls : ∀ op, m.opcode? = some op → op = .call ∨ op = .stop := by
    intro op hop
    unfold opcode? at hop
    split at hop
    · cases hop
    · obtain ⟨i, hnext, rfl⟩ := Option.map_eq_some_iff.1 hop
      unfold next? at hnext
      split at hnext
      · rw [hops] at hnext
        have hmem := Array.mem_of_getElem? hnext
        simp only [List.mem_toArray, List.mem_cons, List.not_mem_nil, or_false] at hmem
        rcases hmem with rfl | rfl
        · exact .inl rfl
        · exact .inr rfl
      · cases hnext
  have hnone : ¬(m.deed = .openBlock ∨ m.deed = .define) := fun hdeed => by
    rcases opcode_of_deed hdeed with hop | hop <;> rcases hcalls _ hop with h | h <;> cases h
  exact not_or.1 hnone

/-- The outermost function of a context stays while the context does. -/
theorem hosts_step {k : Nat} {code : Code} (h : m.Framed) (hlive : m.HiddenLive)
    (hafter : m.step.1.HiddenLive) (hk : k ≤ m.ready.suspended.length)
    (hhosts : (m.contextAt k).Hosts 0 code) : (m.step.1.contextAt k).Hosts 0 code := by
  have hretains := step_retains h hlive hafter
  rw [← contextAt_ready hk] at hhosts
  rcases Nat.lt_or_eq_of_le hk with hlt | rfl
  · have hsame : m.step.1.contextAt k = m.ready.contextAt k := by
      rcases hretains.waiting with hsame | ⟨-, s, hcons⟩
      · exact contextAt_of_append [] hsame hlt
      · exact contextAt_of_append [s] hcons hlt
    rwa [hsame]
  · rw [contextAt_of_level (Nat.le_refl _)] at hhosts
    exact hretains.context.hosts hhosts (Nat.zero_le _)

/-- What a step attempts with success does not end the context with a fault. -/
theorem not_failed_of_ok (h : m.Framed) (hlive : m.HiddenLive) (hok : m.attempt = (.ok (), m'))
    {f : Fault} (hended : m'.ended = some (.error f)) : m.suspended = [] ∧ m' = m := by
  have hready : m.ready.ended = none ∨ m.suspended = [] ∧ m' = m := by
    unfold attempt action at hok
    unfold ready at hok ⊢
    cases hdone : m.ended with
    | none => exact .inl hdone
    | some result =>
      rw [hdone] at hok
      cases hsuspended : m.suspended with
      | cons s rest => exact .inl rfl
      | nil =>
        rw [hsuspended] at hok
        exact .inr ⟨rfl, (congrArg Prod.snd hok).symm⟩
  refine hready.resolve_left fun hgoing => ?_
  rcases attempt_cases h with hclimbs | ⟨-, j, pc, running, observer, output, hfp, hpop⟩
  · rw [hok] at hclimbs
    rcases hclimbs.ended with hsame | htries | hfinishes
    · have hnone : m'.ended = none := hsame.trans hgoing
      rw [hnone] at hended
      cases hended
    · obtain ⟨address, -, journal, running, observer, rfl⟩ := Arms.spec ⟨htries, hok⟩
      have hnone : m.ended = some (.error f) := hended
      rw [htries.1] at hnone
      cases hnone
    · obtain ⟨j, hfinish⟩ := hfinishes.attempt_eq
      rw [hok] at hfinish
      cases hfinish
      cases hended
  · obtain ⟨hframed, -, -⟩ := leaving_spec h
    obtain ⟨below, frame, hstack, -⟩ := Stacked.frame hframed hfp
    obtain ⟨world, loops, observer', hout, -⟩ := Exec.outcome_popFrame (m := { m.ready with
      world := { m.world with journal := j }
      context := { m.leaving with pc, running, observer, output } })
      ⟨hframed.grounded.fp_le, hframed.grounded.values⟩ hstack hfp h.sound hlive
    rw [← hpop, hok] at hout
    cases hout
    have hnone : m.ready.ended = some (.error f) := hended
    rw [hgoing] at hnone
    cases hnone

theorem Arrives.symbols_eq {there : Machine} {handler : Handler} {outer : List Handler}
    (h : m.Arrives handler outer there) : there.context.symbols = handler.symbols := by
  obtain ⟨final, heap, journal, loops, observer, -, -, rfl⟩ := h.reached
  rfl

/-- A fault that ends the context has left all functions. -/
theorem fp_of_failed {site : Site} {defined : List TableId} {f : Fault} (h : m.Framed)
    (hlive : m.HiddenLive) (hafter : m.step.1.HiddenLive)
    (hnests : m.step.1.NestsIn site marks defined)
    (hbefore : m.ended = some (.error f) → m.context.fp = 0)
    (hended : m.step.1.ended = some (.error f)) (hsignal : f.isSignal = false) :
    m.step.1.context.fp = 0 := by
  rcases m.step_cases with ⟨hok, -⟩ | ⟨g, m₁, hfault, hsettle, -⟩ | ⟨hwait, e, herror⟩
  · obtain ⟨-, hsame⟩ := not_failed_of_ok h hlive hok hended
    rw [hsame] at hended ⊢
    exact hbefore hended
  · obtain ⟨hclimbs, -, hgoing⟩ := attempt_of_error h hlive hfault
    cases hcatcher : m₁.context.catcher? g with
    | some found =>
      obtain ⟨handler, outer⟩ := found
      rcases step_of_catcher h hlive hfault hcatcher with
        ⟨there, harrives, ⟨scopes, -, hstep⟩ | ⟨hgone, hstep⟩⟩ | ⟨final, g', m₂, hsheds, hfp, hsticks, hstep⟩
      · rw [hstep] at hended
        have hsame : m₁.ended = some (.error f) := harrives.ended_eq.symm.trans hended
        rw [hgoing] at hsame
        cases hsame
      · -- The current table is that of the handler, and live.
        rw [hstep] at hnests
        have hcurrent : there.world.scopes.contains there.context.symbols = true := hnests.live
        rw [harrives.symbols_eq, hgone] at hcurrent
        cases hcurrent
      · rw [hstep] at hafter
        exact absurd hsticks (Exec.not_sticks hsheds.framed (by omega) hafter)
    | none =>
      generalize m.step.1 = after at hsettle hended hafter ⊢
      have hstop : g.kind ≠ .stop := by
        intro hkind
        obtain ⟨j, hfinish⟩ := Exec.outcome_finish m₁
        rw [Exec.settle, if_pos hkind, hfinish] at hsettle
        cases hsettle
        cases hended
      rw [Exec.outcome_settle hstop, Exec.outcome_recover] at hsettle
      by_cases hpasses : g.isSignal = true
      · rw [if_pos hpasses] at hsettle
        cases hsettle
        cases hended
        rw [hpasses] at hsignal
        cases hsignal
      · rw [if_neg hpasses, hcatcher] at hsettle
        dsimp only at hsettle
        have hgiven := congrArg Prod.fst
          (Exec.outcome_abandon (g.raisedAt m₁.context.code.name m₁.context.line) m₁)
        obtain ⟨hcleared, -⟩ :=
          hclimbs.framed.abandoned (g.raisedAt m₁.context.code.name m₁.context.line)
        have hleaves := leavesEvery_of_hiddenLive (f := g.raisedAt m₁.context.code.name
          m₁.context.line) hclimbs.framed
        rcases hout : Exec.outcome (Exec.abandon
          (g.raisedAt m₁.context.code.name m₁.context.line)) m₁ with ⟨r, m₂⟩
        rw [hout] at hsettle hgiven hcleared hleaves
        obtain rfl : r = .error (.fault (g.raisedAt m₁.context.code.name m₁.context.line)) := hgiven
        cases hsettle
        exact (hcleared (hleaves hafter)).fp_eq
  · rw [hwait] at hended
    obtain ⟨-, hgoing, -⟩ := attempt_of_error h hlive (Prod.ext herror rfl)
    have hnone : m.ready.ended = some (.error f) := hended
    rw [hgoing] at hnone
    cases hnone

/-! ### Errands -/

/-- The hidden tables of the package definitions that are open in a thread. -/
def openTables (m : Machine) : List TableId :=
  m.context.packages.map (·.table) ++ m.suspended.flatMap (·.context.packages.map (·.table))

/-- A context of its own is set going: for a deferred call or a comparison, or for a task. The last
argument is the world once that context has ended and is done with. -/
inductive SetsOut (m : Machine) : Machine → (Machine → Except Fault Unit → World) → Prop
  | call (hsuspends : m.deed = .suspend) : SetsOut m m.step.1 fun last _ => last.world
  | task {name : String} {callable : Value} {args : List Value} {settings : Settings}
      {table : TableId} {t : Thread} {world : World}
      (hbegun : (beginTask name callable args settings).run m.world = ((table, t), world)) :
      SetsOut m ({ m with world }.withThread t) fun last result =>
        ((endTask name table result).run last.world).2

/-- The run of a context that was set going, in which what is opened is closed in turn and hidden
tables stay live. It tells what is open, and the tables around that the context has not made for
itself: those from before, the hidden tables of packages that it defines first, and whatever other
threads make and remove meanwhile, which leave its own tables and those that it is in. -/
inductive Errand (before : World) (scratch : Machine) :
    Machine → List Mark → Set TableId → Prop
  | start (hlive : scratch.HiddenLive) :
      Errand before scratch scratch [] {x | before.scopes.contains x = true}
  | step {m : Machine} {marks marks' : List Mark} {around : Set TableId}
      (run : Errand before scratch m marks around) (hlive : m.step.1.HiddenLive)
      (hturned : m.turned marks = some marks') :
      Errand before scratch m.step.1 marks' (around ∪ {x | x ∈ m.definedBy []})
  | elsewhere {m : Machine} {marks : List Mark} {around : Set TableId}
      (run : Errand before scratch m marks around) (world : World) (tasks : Array Task)
      (hsound : world.scopes.Sound) (hlive : world.HiddenLive)
      (hown : ∀ x, m.world.scopes.contains x = true → x ∉ around →
        m.world.scopes.SameTable world.scopes x)
      (hin : ∀ x ∈ scratch.context.symbols :: m.openTables, world.scopes.contains x = true) :
      Errand before scratch { m with world, tasks } marks
        {x | world.scopes.contains x = true ∧ (x ∈ around ∨ m.world.scopes.contains x = false)}

/-- What the run of a context that was set going keeps: it leads back to the table in which it
began, its outermost code calls once, and a fault that ends it has left all functions. The tables
around are all others, but for a table made for the context itself. -/
structure Underway (scratch : Machine) (mine : List TableId) (m : Machine) (marks : List Mark)
    (around : Set TableId) : Prop where
  framed : m.Framed
  hidden : m.HiddenLive
  nests : ∃ scopes defined, scopes.Sound ∧
    scopes.contains scratch.context.symbols = true ∧
    m.NestsIn ⟨scopes, scratch.context.symbols, scratch.context.symbols, [], #[],
      scratch.suspended⟩ marks defined ∧
    ∀ x, x ∈ around ↔ (scopes.contains x = true ∨ x ∈ defined) ∧ x ∉ mine
  calls : ∃ code : Code, code.CallsOnce ∧ (m.contextAt scratch.suspended.length).Hosts 0 code
  rooted : Rooted marks
  failed : ∀ f, m.ended = some (.error f) → f.isSignal = false → m.context.fp = 0

theorem mem_definedBy {defined : List TableId} {x : TableId} :
    x ∈ m.definedBy defined ↔ x ∈ m.definedBy [] ∨ x ∈ defined := by
  unfold definedBy
  split
  · simp only [List.mem_cons, List.not_mem_nil, or_false]
  · simp only [List.not_mem_nil, false_or]

namespace Underway

variable {mine : List TableId}

/-- In the outermost code nothing is open. -/
theorem marks_eq_nil {scopes : Arena} {table : TableId} {waiting : List Suspended}
    {defined : List TableId} (hrooted : Rooted marks) (hframed : m.Framed)
    (hnests : m.NestsIn ⟨scopes, table, table, [], #[], waiting⟩ marks defined)
    (hlevel : m.suspended.length ≤ waiting.length) (hfp : m.context.fp = 0) : marks = [] := by
  obtain ⟨own, pins, hlaid, -⟩ := hnests
  obtain ⟨-, hscratch, -, hfunction⟩ := hlaid.size_lower_le hlevel
  have hsize : m.context.lower.size ≤ (#[] : Array Slot).size := by
    rw [Context.size_lower hframed.running.fp_le, hfp]
    exact Nat.zero_le _
  obtain ⟨-, hfunction⟩ := hfunction hsize
  cases hlast : marks.getLast? with
  | none => exact List.getLast?_eq_none_iff.1 hlast
  | some mark =>
    have hmem := List.mem_of_getLast? hlast
    rcases hrooted mark hlast with rfl | rfl
    · exact absurd hmem hfunction
    · exact absurd hmem hscratch

/-- **A step keeps a context underway.** -/
theorem step (h : Underway scratch mine m marks around) (hlive : m.step.1.HiddenLive)
    (hmine : ∀ x ∈ mine, x = scratch.context.symbols)
    (hturned : m.turned marks = some marks') :
    Underway scratch mine m.step.1 marks' (around ∪ {x | x ∈ m.definedBy []}) := by
  obtain ⟨scopes, defined, hsound, hcontains, hnests, haround⟩ := h.nests
  obtain ⟨code, hcode, hhosts⟩ := h.calls
  have hafter := hnests.step hsound h.framed h.hidden hlive hturned
  obtain ⟨ready, hready, -⟩ := Option.bind_eq_some_iff.1 hturned
  have hnests' := hnests.ready hready
  have hlevel : scratch.suspended.length ≤ m.ready.suspended.length := by
    obtain ⟨own, pins, hlaid, -⟩ := hnests'
    exact hlaid.length_waiting_le
  refine ⟨(step_follows h.framed hlive).framed, hlive,
    ⟨scopes, m.definedBy defined, hsound, hcontains, hafter, fun x => ?_⟩,
    ⟨code, hcode, hosts_step h.framed h.hidden hlive hlevel hhosts⟩,
    turned_rooted h.rooted hturned fun hnil => ?_, fun f hended hsignal =>
      fp_of_failed h.framed h.hidden hlive hafter (fun hbefore => h.failed f hbefore hsignal) hended
        hsignal⟩
  · -- A table that is new is not the one made for the context.
    obtain ⟨own, pins, hlaid, hintact⟩ := hafter
    have hnew : x ∈ m.definedBy [] → x ∉ mine := fun hx hmem => by
      have hfresh := hintact.definedFresh x (mem_definedBy.2 (.inl hx))
      rw [hmine x hmem] at hfresh
      exact absurd (hfresh.symm.trans hcontains) Bool.false_ne_true
    rw [Set.mem_union, haround, mem_definedBy, Set.mem_ofPred_eq]
    constructor
    · rintro (⟨hx | hx, hmem⟩ | hx)
      · exact ⟨.inl hx, hmem⟩
      · exact ⟨.inr (.inr hx), hmem⟩
      · exact ⟨.inr (.inl hx), hnew hx⟩
    · rintro ⟨hx | hx | hx, hmem⟩
      · exact .inl ⟨.inl hx, hmem⟩
      · exact .inr hx
      · exact .inl ⟨.inr hx, hmem⟩
  · -- Where nothing is open, the outermost code runs.
    obtain rfl : [] = ready := Option.some.inj (hnil.symm.trans hready)
    cases hended : m.ended with
    | some result =>
      have hnone : m.opcode? = none := by
        rw [opcode?, hended]
      refine not_or.1 fun hdeed => ?_
      rcases opcode_of_deed hdeed with hop | hop
      · rw [hnone] at hop
        cases hop
      · rw [hnone] at hop
        cases hop
    | none =>
      have hsame : m.ready = m := by
        rw [ready, hended]
      rw [hsame] at hnests'
      obtain ⟨own, pins, hlaid, -⟩ := hnests'
      obtain ⟨hlower, hwaiting, -⟩ := hlaid.of_nil
      have hfp : m.context.fp = 0 := by
        rw [← Context.size_lower h.framed.running.fp_le, hlower]
        rfl
      rw [contextAt_of_level (Nat.le_of_eq (congrArg List.length hwaiting))] at hhosts
      rw [← hhosts.code_eq (Nat.le_of_eq hfp)] at hcode
      exact deed_of_callsOnce hcode

/-- **Other threads leave a context underway.** -/
theorem elsewhere (h : Underway scratch mine m marks around) {world : World} {tasks : Array Task}
    (hmine : ∀ x ∈ mine, x = scratch.context.symbols) (hsound : world.scopes.Sound)
    (hlive : world.HiddenLive) (hown : ∀ x, m.world.scopes.contains x = true → x ∉ around →
      m.world.scopes.SameTable world.scopes x)
    (hin : ∀ x ∈ scratch.context.symbols :: m.openTables, world.scopes.contains x = true) :
    Underway scratch mine { m with world, tasks } marks
      {x | world.scopes.contains x = true ∧ (x ∈ around ∨ m.world.scopes.contains x = false)} := by
  obtain ⟨scopes, defined, hscopes, hcontains, ⟨own, pins, hlaid, hintact⟩, haround⟩ := h.nests
  have hsame : ∀ x ∈ own, m.world.scopes.SameTable world.scopes x := fun x hx =>
    hown x (hintact.ownLive x hx) fun hmem => hintact.not_mem_own ((haround x).1 hmem).1 hx
  have hpins : ∀ x ∈ pins, world.scopes.contains x = true := by
    intro x hx
    refine hin x ?_
    rcases hlaid.mem_pins hx with rfl | ⟨scope, hscope, rfl⟩ | ⟨s, hs, scope, hscope, rfl⟩
    · exact List.mem_cons_self
    · exact List.mem_cons_of_mem _ (List.mem_append_left _ (List.mem_map_of_mem hscope))
    · exact List.mem_cons_of_mem _ (List.mem_append_right _
        (List.mem_flatMap.2 ⟨s, hs, List.mem_map_of_mem hscope⟩))
  obtain ⟨hrenewed, hdropped⟩ := hintact.renew hscopes hsound hsame hpins
  refine ⟨⟨h.framed.running, h.framed.waiting, hsound⟩, hlive,
    ⟨world.scopes.dropTables own, [], hsound.dropTables own, ?_, ⟨own, pins, ?_, hrenewed⟩,
      fun x => ?_⟩, h.calls, h.rooted, h.failed⟩
  · exact (hdropped _).2 ⟨hin _ List.mem_cons_self, hintact.not_mem_own (.inl hcontains)⟩
  · exact (hlaid.withScopes _).congr hsame
  · rw [Set.mem_ofPred_eq, haround, hdropped, ← Bool.not_eq_true, hintact.contains_iff]
    have hmem := hintact.not_mem_own (x := x)
    have hkept : x ∈ mine → scopes.contains x = true := fun hx => by
      rw [hmine x hx]
      exact hcontains
    simp only [List.not_mem_nil, or_false]
    tauto

/-- The context of a deferred call or of a comparison begins in the table of the function that
waits for it. -/
theorem of_suspend (h : m.Framed) (hlive : m.HiddenLive) (hsuspends : m.deed = .suspend)
    (hafter : m.step.1.HiddenLive)
    (hhere : m.step.1.world.scopes.contains m.step.1.context.symbols = true) :
    Underway m.step.1 [] m.step.1 [] {x | m.world.scopes.contains x = true} := by
  obtain ⟨hdoes, hfails⟩ := attempt_does h hlive
  have hok : m.attempt.1.isOk = true := by
    rcases hattempt : m.attempt with ⟨e | u, m'⟩
    · rw [hattempt, hsuspends] at hfails
      cases hfails ⟨e, rfl⟩
    · rfl
  have hattempt := attempt_eq_ok hok
  rw [hattempt, hsuspends] at hdoes
  cases hdoes with
  | suspend suspends =>
    obtain ⟨s, hsuspended, -⟩ := suspends.waits
    have hfp := suspends.fresh.fp_eq
    have houtline : m.step.1.world.scopes.outline = m.world.scopes.outline := by
      rw [suspends.outline_eq, ready_world]
    have hframed := (step_follows h hafter).framed
    refine ⟨hframed, hafter, ⟨m.world.scopes, [], h.sound, ?_, ?_, fun x => ?_⟩,
      ⟨_, suspends.calls, ?_⟩, rooted_nil, fun f hended _ => ?_⟩
    · rwa [Arena.contains_congr houtline] at hhere
    · have hlower : m.step.1.context.lower = #[] := by
        rw [Context.lower, hfp]
        simp
      unfold NestsIn
      rw [suspends.packages_eq, hlower]
      rw [Arena.contains_congr houtline] at hhere
      exact Nests.callee (by exact hhere) ⟨hframed.sound, fun _ => .here, fun _ h => absurd h List.not_mem_nil,
        fun _ h => absurd h List.not_mem_nil, List.nodup_nil, fun x _ => .ofOutline houtline x⟩
    · simp
    · rw [contextAt_of_level (Nat.le_refl _), ← hfp]
      exact Context.hosts_self _
    · obtain ⟨hnone, hsame⟩ := not_failed_of_ok h hlive hattempt hended
      rw [hsame] at hsuspended
      rw [hnone] at hsuspended
      cases hsuspended

end Underway

/-- A task begins in a table made for it. -/
theorem beginTask_spec {name : String} {callable : Value} {args : List Value} {settings : Settings}
    {table : TableId} {t : Thread} {w world : World} (hsound : w.scopes.Sound)
    (hbegun : (beginTask name callable args settings).run w = ((table, t), world)) :
    (t.context.Fresh ∧ t.context.symbols = table ∧ t.context.packages = [] ∧
      t.context.code.CallsOnce ∧ t.suspended = [] ∧ t.ended = none) ∧
    world.scopes.Sound ∧ w.scopes.contains table = false ∧
      ∀ x, world.scopes.contains x = true ↔ w.scopes.contains x = true ∨ x = table := by
  obtain ⟨id, b, hmade, hsound', hfresh, hlookup⟩ := Arena.newChild_spec hsound name .root true
  have hscopes : ((beginTask name callable args settings).run w).2.scopes
      = (w.scopes.newChild name .root true).2 := rfl
  have htable : ((beginTask name callable args settings).run w).1.1
      = (w.scopes.newChild name .root true).1 := rfl
  have hthread : (((beginTask name callable args settings).run w).1.2.context.Fresh ∧
      ((beginTask name callable args settings).run w).1.2.context.symbols
        = ((beginTask name callable args settings).run w).1.1 ∧
      ((beginTask name callable args settings).run w).1.2.context.packages = [] ∧
      ((beginTask name callable args settings).run w).1.2.context.code.CallsOnce ∧
      ((beginTask name callable args settings).run w).1.2.suspended = [] ∧
      ((beginTask name callable args settings).run w).1.2.ended = none) :=
    ⟨⟨(World.callContext_fresh table settings callable args w).values, rfl, rfl, rfl⟩, rfl, rfl,
      ⟨_, rfl⟩, rfl, rfl⟩
  rw [hbegun] at hscopes htable hthread
  rw [hmade] at hscopes htable
  dsimp only at hscopes htable hthread
  subst hscopes htable
  refine ⟨hthread, hsound', ?_, fun x => ?_⟩
  · rw [Arena.contains, hfresh]
    rfl
  · rw [Arena.contains, Arena.contains, hlookup]
    by_cases hx : x = table
    · simp [hx]
    · simp [hx]

/-- The context of a task begins in the table made for it. -/
theorem Underway.of_task {name : String} {callable : Value} {args : List Value}
    {settings : Settings} {table : TableId} {t : Thread} {world : World}
    (hsound : m.world.scopes.Sound)
    (hbegun : (beginTask name callable args settings).run m.world = ((table, t), world))
    (hlive : world.HiddenLive) : Underway ({ m with world }.withThread t) [table]
      ({ m with world }.withThread t) [] {x | m.world.scopes.contains x = true} := by
  obtain ⟨⟨hfresh, hsymbols, hpackages, hcalls, hsuspended, hended⟩, hsound', hnew, hcontains⟩ :=
    beginTask_spec hsound hbegun
  have hhere : world.scopes.contains t.context.symbols = true :=
    (hcontains _).2 (.inr hsymbols)
  refine ⟨⟨hfresh.framed, fun s hs => ?_, hsound'⟩, hlive,
    ⟨world.scopes, [], hsound', hhere, ?_, fun x => ?_⟩, ⟨t.context.code, hcalls, ?_⟩, rooted_nil,
    fun f hfailed _ => ?_⟩
  · have hmem : s ∈ t.suspended := hs
    rw [hsuspended] at hmem
    cases hmem
  · show Nests _ _ _ world.scopes t.context.symbols t.context.packages t.context.lower t.suspended
    have hlower : t.context.lower = #[] := by
      rw [Context.lower, hfresh.fp_eq]
      simp
    rw [hpackages, hlower]
    exact Nests.callee (by exact hhere)
      ⟨hsound', fun _ => .here, fun _ h => absurd h List.not_mem_nil,
        fun _ h => absurd h List.not_mem_nil, List.nodup_nil, fun x _ => .refl _ x⟩
  · rw [Set.mem_ofPred_eq, hcontains]
    simp only [List.not_mem_nil, or_false, List.mem_singleton]
    constructor
    · intro hx
      refine ⟨.inl hx, ?_⟩
      rintro rfl
      rw [hnew] at hx
      cases hx
    · rintro ⟨hx | hx, hne⟩
      · exact hx
      · exact absurd hx hne
  · rw [contextAt_of_level (Nat.le_refl _)]
    have hself := Context.hosts_self t.context
    rwa [hfresh.fp_eq] at hself
  · have hnone : t.ended = some (.error f) := hfailed
    rw [hended] at hnone
    cases hnone

/-- **What the run of a context that was set going keeps.** -/
theorem Errand.underway {before : World} {mine : List TableId}
    (h : Errand before scratch m marks around) (hmine : ∀ x ∈ mine, x = scratch.context.symbols)
    (hstart : Underway scratch mine scratch [] {x | before.scopes.contains x = true}) :
    Underway scratch mine m marks around := by
  induction h with
  | start _ => exact hstart
  | step _ hlive hturned ih => exact ih.step hlive hmine hturned
  | elsewhere _ world tasks hsound hlive hown hin ih => exact ih.elsewhere hmine hsound hlive hown hin

theorem Errand.hiddenLive_first {before : World} (h : Errand before scratch m marks around) :
    scratch.HiddenLive := by
  induction h with
  | start hlive => exact hlive
  | step _ _ _ ih => exact ih
  | elsewhere _ _ _ _ _ _ _ ih => exact ih

/-- A context that has ended has cleared up just if it made no table that is left. -/
theorem Underway.cleared_iff {mine : List TableId} (h : Underway scratch mine last marks around)
    (hlevel : last.suspended.length = scratch.suspended.length)
    (hmine : ∀ x ∈ mine, x = scratch.context.symbols) :
    (∀ x, last.world.scopes.contains x = true ∧ x ∉ mine ↔ x ∈ around) ↔
      last.context.fp = 0 := by
  obtain ⟨scopes, defined, -, hcontains, hnests, haround⟩ := h.nests
  have hnil := Underway.marks_eq_nil h.rooted h.framed hnests (Nat.le_of_eq hlevel)
  obtain ⟨own, pins, hlaid, hintact⟩ := hnests
  have hlive : ∀ x, last.world.scopes.contains x = true ∧ x ∉ mine ↔ x ∈ around ∨ x ∈ own := by
    intro x
    have hmem := hintact.not_mem_own (x := x)
    have hkept : x ∈ mine → scopes.contains x = true := fun hx => by
      rw [hmine x hx]
      exact hcontains
    rw [haround, hintact.contains_iff]
    tauto
  constructor
  · intro hcleared
    by_contra hfp
    have hfunction : .function ∈ marks := by
      by_contra hnone
      have hlower := hlaid.lower_eq_of_not_mem (Nat.le_of_eq hlevel) hnone
      refine hfp ?_
      rw [← Context.size_lower h.framed.running.fp_le, hlower]
      rfl
    obtain ⟨x, rest, hown⟩ := List.exists_cons_of_ne_nil (hlaid.own_ne_nil hfunction)
    have hx : x ∈ own := by
      rw [hown]
      exact List.mem_cons_self
    exact hintact.not_mem_own ((haround x).1 ((hcleared x).1 ((hlive x).2 (.inr hx)))).1 hx
  · intro hfp x
    rw [hnil hfp] at hlaid
    obtain ⟨-, -, hleads⟩ := hlaid.of_nil
    have hown : own = [] := by
      generalize scratch.context.symbols = table at hleads
      cases hleads with
      | here => rfl
      | up hne _ _ => exact absurd rfl hne
    rw [hlive, hown]
    simp only [List.not_mem_nil, or_false]

/-- **A context of its own clears up just if it has ended in no function.** A deferred call, a
comparison or a task is set going, and what it opens it closes in turn. When its context has ended
and is done with, the tables are those that were there before, but for the hidden tables of packages
that it defined and what other threads have made or removed, if and only if the context has left all
its functions. A fault that ends it has left them. -/
theorem errand_clears_iff {start m scratch last : Machine} {marks : List Mark}
    {around : Set TableId} {done : Machine → Except Fault Unit → World} {result : Except Fault Unit}
    (hbegins : start.Begins) (hreached : Trace HiddenLive start m) (hsets : m.SetsOut scratch done)
    (hhere : scratch.world.scopes.contains scratch.context.symbols = true)
    (hruns : Errand m.world scratch last marks around) (hended : last.ended = some result)
    (hlevel : last.suspended.length = scratch.suspended.length) :
    ((∀ x, (done last result).scopes.contains x = true ↔ x ∈ around) ↔ last.context.fp = 0) ∧
      ∀ f, result = .error f → f.isSignal = false → last.context.fp = 0 := by
  have hframed := hreached.framed hbegins.framed
  have hlive := hruns.hiddenLive_first
  cases hsets with
  | call hsuspends =>
    have hmine : ∀ x ∈ ([] : List TableId), x = m.step.1.context.symbols := nofun
    have hlast := hruns.underway hmine
      (.of_suspend hframed hreached.ok_last hsuspends hlive hhere)
    refine ⟨?_, fun f hresult hsignal => hlast.failed f (by rw [hended, hresult]) hsignal⟩
    rw [← hlast.cleared_iff hlevel hmine]
    simp only [List.not_mem_nil, not_false_eq_true, and_true]
  | @task name callable args settings table t world hbegun =>
    obtain ⟨⟨-, hsymbols, -⟩, -, hnew, -⟩ := beginTask_spec hframed.sound hbegun
    have hmine : ∀ x ∈ [table], x = ({ m with world }.withThread t).context.symbols := fun x hx =>
      (List.mem_singleton.1 hx).trans hsymbols.symm
    have hlast := hruns.underway hmine (.of_task hframed.sound hbegun hlive)
    refine ⟨?_, fun f hresult hsignal => hlast.failed f (by rw [hended, hresult]) hsignal⟩
    rw [← hlast.cleared_iff hlevel hmine]
    have hroot : table ≠ .root := by
      rintro rfl
      rw [hframed.sound.root] at hnew
      cases hnew
    have hdone : ∀ x, ((endTask name table result).run last.world).2.scopes.contains x = true ↔
        last.world.scopes.contains x = true ∧ x ∉ [table] := by
      intro x
      obtain ⟨journal, hrun⟩ := run_endTask name table result last.world
      rw [hrun, List.mem_singleton, Arena.contains, Arena.table?_remove hroot]
      by_cases hx : x = table
      · simp [hx]
      · simp [hx, Arena.contains]
    simp only [hdone]

/-- A machine about to run `Defer 0; Return`, with a function on its stack that stops. -/
def stopper : Machine :=
  ofContext {} {
    name := "main"
    thread := 1
    symbols := .root
    stack := #[.value (.code ⟨"f", #[.plain .stop], none, true, false⟩)]
    code := ⟨"main", #[⟨.defer, .ofNat 0⟩, .plain .return], none, true, false⟩
    running := true }

theorem stopper_begins : stopper.Begins := by
  refine ⟨⟨fun s hs => ?_, rfl, rfl, rfl⟩, rfl, Arena.initial_sound⟩
  exact ⟨_, by simpa [stopper, ofContext] using hs⟩

/-- The deferred call stops inside its function, and the table of that is left. -/
theorem errand_clears_iff_of_stopper :
    Trace HiddenLive stopper stopper.step.1 ∧
      stopper.step.1.SetsOut stopper.step.1.step.1 (fun last _ => last.world) ∧
      stopper.step.1.step.1.step.1.step.1.ended = some (.ok ()) ∧
      ∃ around, Errand stopper.step.1.world stopper.step.1.step.1
          stopper.step.1.step.1.step.1.step.1 [.function] around ∧
        ¬∀ x, stopper.step.1.step.1.step.1.step.1.world.scopes.contains x = true ↔ x ∈ around := by
  have hreached : Trace HiddenLive stopper stopper.step.1 :=
    (Trace.start (hiddenLive_of_all rfl)).step (hiddenLive_of_all rfl)
  have hsets : stopper.step.1.SetsOut stopper.step.1.step.1 (fun last _ => last.world) :=
    .call rfl
  have hstart : Errand stopper.step.1.world stopper.step.1.step.1 stopper.step.1.step.1 []
      {x | stopper.step.1.world.scopes.contains x = true} := .start (hiddenLive_of_all rfl)
  have hcalled : stopper.step.1.step.1.turned [] = some [.function] := rfl
  have hstopped : stopper.step.1.step.1.step.1.turned [.function] = some [.function] := rfl
  have hruns := (hstart.step (hiddenLive_of_all rfl) hcalled).step (hiddenLive_of_all rfl) hstopped
  obtain ⟨hclears, -⟩ :=
    errand_clears_iff stopper_begins hreached hsets rfl hruns rfl rfl
  exact ⟨hreached, hsets, rfl, _, hruns, fun hcleared =>
    absurd (hclears.1 hcleared) Nat.one_ne_zero⟩

end Machine

end ScriptMachine
