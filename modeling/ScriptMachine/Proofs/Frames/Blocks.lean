import ScriptMachine.Proofs.Arena.Lookups
import ScriptMachine.Proofs.Frames.Exits

/-!
# Blocks nest

A block that is closed after what was opened in it is gone, with all that was made for it, and the
names in sight are those of the tables that were in sight before. The table in which the block was
opened is current again, unless its name makes the end of the block pass over it.

* `Arena.PassedOver`, `Arena.Landing`: the tables that the end of a block passes over, and the one
  where it stops.
* `Tidy.closed`: what is opened and closed in turn leads back to the table in which it began.
* `deed_popScope_iff`: the end of a block goes to the table around it, or passes over that.
* `Machine.Rejoins`, `block_rejoins`: what a block leaves.
-/

namespace ScriptMachine

namespace Arena

/-- The end of a block goes on from a table that has a parent and the name of a scope around a
package function. -/
def PassedOver (a : Arena) (id : TableId) : Prop :=
  ∃ t p, a.table? id = some t ∧ t.name.startsWith packageScopeLead = true ∧ t.parent = some p

/-- The end of a block inside a table stops at `target`: the nearest table that is not passed over,
the table itself or one around it. -/
def Landing (a : Arena) (id target : TableId) : Prop :=
  a.contains target = true ∧ ¬ a.PassedOver target ∧
    ∃ tables, a.Leads target id tables ∧ ∀ x ∈ tables, a.PassedOver x

variable {a b : Arena} {id target start x : TableId} {tables : List TableId}

/-! ### Tables passed over -/

theorem skipPackageScopes_of_leads (h : a.Leads target id tables)
    (hover : ∀ x ∈ tables, a.PassedOver x) (hstop : ¬ a.PassedOver target) {steps : Nat}
    (hsteps : tables.length < steps) : a.skipPackageScopes steps id = target := by
  induction h generalizing steps with
  | here =>
    obtain ⟨n, rfl⟩ := Nat.exists_eq_add_one_of_ne_zero (Nat.ne_of_gt hsteps)
    rw [skipPackageScopes]
    split
    · rename_i t ht
      split
      · rename_i hname
        split
        · rename_i p hparent
          exact absurd ⟨t, p, ht, hname, hparent⟩ hstop
        · rfl
      · rfl
    · rfl
  | @up id parent rest _ hparent _ ih =>
    obtain ⟨n, rfl⟩ := Nat.exists_eq_add_one_of_ne_zero (Nat.ne_of_gt (Nat.zero_lt_of_lt hsteps))
    obtain ⟨t, p, ht, hname, hp⟩ := hover id List.mem_cons_self
    rw [parent?, ht] at hparent
    have hsame : p = parent := Option.some.inj (hp.symm.trans hparent)
    rw [skipPackageScopes, ht]
    dsimp only
    rw [if_pos hname, hp, hsame]
    exact ih (fun x hx => hover x (List.mem_cons_of_mem _ hx)) (by simpa using hsteps)

namespace Landing

/-- **The walk at the end of a block** stops where it should, however many tables it passes over. -/
theorem skipPackageScopes_eq (h : a.Landing id target) :
    a.skipPackageScopes (a.places.size + 1) id = target := by
  obtain ⟨-, hstop, tables, hleads, hover⟩ := h
  refine skipPackageScopes_of_leads hleads hover hstop (Nat.lt_succ_of_le
    (length_le_size_places hleads.nodup fun x hx => ?_))
  obtain ⟨t, p, ht, -⟩ := hover x hx
  exact contains_iff.2 ⟨t, ht⟩

/-- The end of a block stops at once just if the table is not passed over. -/
theorem eq_iff (h : a.Landing id target) : target = id ↔ ¬ a.PassedOver id := by
  obtain ⟨-, hstop, tables, hleads, hover⟩ := h
  refine ⟨fun heq => heq ▸ hstop, fun hid => ?_⟩
  cases hleads with
  | here => rfl
  | up _ _ _ => exact absurd (hover id List.mem_cons_self) hid

theorem self (hlive : a.contains id = true) (h : ¬ a.PassedOver id) : a.Landing id id :=
  ⟨hlive, h, [], .here, fun _ hx => absurd hx List.not_mem_nil⟩

end Landing

theorem PassedOver.congr (hsame : a.SameTable b id) (h : a.PassedOver id) : b.PassedOver id := by
  obtain ⟨t, p, ht, hname, hparent⟩ := h
  obtain ⟨u, hu, hname', -, hparent'⟩ := hsame.table? ht
  exact ⟨u, p, hu, hname' ▸ hname, hparent'.trans hparent⟩

/-- Live tables that stay the same are passed over as before. -/
theorem Landing.congr (hsame : ∀ x, a.contains x = true → a.SameTable b x)
    (h : a.Landing id target) : b.Landing id target := by
  obtain ⟨hlive, hstop, tables, hleads, hover⟩ := h
  have hkept : ∀ x ∈ tables, a.SameTable b x := fun x hx => by
    obtain ⟨t, p, ht, -⟩ := hover x hx
    exact hsame x (contains_iff.2 ⟨t, ht⟩)
  exact ⟨(hsame target hlive).contains_eq.trans hlive,
    fun h => hstop (h.congr (hsame target hlive).symm), tables, hleads.congr hkept,
    fun x hx => (hover x hx).congr (hkept x hx)⟩

/-! ### Names in sight -/

/-- From a table that is the same, lookups come to the same table next. -/
theorem Sees.onward {t : Table} {parent : TableId} (h : b.Sees start id) (hsame : a.SameTable b id)
    (ht : a.table? id = some t) (hpasses : t.passes = true) (hparent : t.parent = some parent) :
    b.Sees start parent := by
  obtain ⟨u, hu, -, hpasses', hparent'⟩ := hsame.table? ht
  exact h.up hu (hpasses'.trans hpasses) (hparent'.trans hparent)

/-- The same tables are in sight, if those that were are the same. -/
theorem inSight_congr (hsame : ∀ x, a.Sees start x → a.SameTable b x) :
    b.InSight start x ↔ a.InSight start x := by
  refine or_congr_left ⟨?_, ?_⟩
  · intro h
    induction h with
    | here => exact .here
    | up _ ht hpasses hparent ih => exact ih.onward (hsame _ ih).symm ht hpasses hparent
  · intro h
    induction h with
    | here => exact .here
    | up inner ht hpasses hparent ih => exact ih.onward (hsame _ inner) ht hpasses hparent

end Arena

namespace Machine

variable {m entered : Machine} {defined : List TableId} {parent target : TableId}

/-- **What is opened and closed in turn leads back** to the table in which it began, and leaves
nothing but hidden tables. -/
theorem Tidy.closed (h : Tidy entered m [] defined) (hframed : entered.Framed)
    (hlive : entered.world.scopes.contains entered.context.symbols = true) :
    m.context.symbols = entered.context.symbols ∧
      m.context.packages = entered.context.packages ∧
      entered.world.scopes.Intact m.world.scopes defined [] [entered.context.symbols] := by
  obtain ⟨hsymbols, hpackages, made, hleads, hintact⟩ := (h.nestsHere hframed hlive).closed
  cases hleads.tables_eq .here
  exact ⟨hsymbols, hpackages, hintact⟩

/-! ### Blocks -/

/-- A block can always be opened. -/
theorem attempt_pushScope (h : m.Framed) (hlive : m.HiddenLive)
    (hop : m.opcode? = some .pushScope) :
    m.attempt = (.ok (), m.step.1) ∧ m.step.1.context.packages = m.context.packages ∧
      m.world.scopes.Grows m.step.1.world.scopes m.context.symbols m.step.1.context.symbols
        [m.step.1.context.symbols] := by
  obtain ⟨hready, operand, j, running, observer, hattempt⟩ := attempt_of_opcode hop
  obtain ⟨j', hout⟩ := Exec.outcome_pushScope { m with
    world := { m.world with journal := j }
    context := { m.context with pc := m.context.pc + 1, running, observer } }
  replace hattempt := hattempt.trans hout
  have hok : m.attempt = (.ok (), m.step.1) := by rw [step_of_attempt_ok hattempt, hattempt]
  have hdeed : m.deed = .openBlock := by rw [deed, hok, hop]
  have hdoes := (attempt_does h hlive).1
  rw [hready, hok, hdeed] at hdoes
  cases hdoes with
  | openBlock frame packages_eq grows plain => exact ⟨hok, packages_eq, grows⟩

/-- A table that has a parent can be closed like a block. -/
theorem attempt_popScope (hop : m.opcode? = some .popScope)
    (hparent : m.world.scopes.parent? m.context.symbols = some parent) :
    m.ready = m ∧ m.attempt = (.ok (), m.step.1) ∧
      m.step.1.world.scopes = m.world.scopes.remove m.context.symbols ∧
      m.step.1.context.packages = m.context.packages ∧
      ∀ target, (m.world.scopes.remove m.context.symbols).Landing parent target →
        m.step.1.context.symbols = target := by
  obtain ⟨hready, operand, j, running, observer, hattempt⟩ := attempt_of_opcode hop
  rcases Exec.outcome_popScope { m with
    world := { m.world with journal := j }
    context := { m.context with pc := m.context.pc + 1, running, observer } } with
    ⟨hnone, -⟩ | ⟨p, j', hp, hout⟩
  · exact absurd (hparent.symm.trans hnone) (Option.some_ne_none _)
  · obtain rfl : p = parent := Option.some.inj (hp.symm.trans hparent)
    replace hattempt := hattempt.trans hout
    rw [step_of_attempt_ok hattempt, hattempt]
    exact ⟨hready, rfl, rfl, rfl, fun target hlanding => hlanding.skipPackageScopes_eq⟩

/-- **The end of a block goes to the table around it** just if that is not passed over. -/
theorem deed_popScope_iff (hop : m.opcode? = some .popScope)
    (hparent : m.world.scopes.parent? m.context.symbols = some parent)
    (hlanding : (m.world.scopes.remove m.context.symbols).Landing parent target) :
    m.deed = .closeBlock ↔ ¬ (m.world.scopes.remove m.context.symbols).PassedOver parent := by
  obtain ⟨hready, hattempt, -, -, hlands⟩ := attempt_popScope hop hparent
  rw [← hlanding.eq_iff, deed, hattempt, hop, hready]
  dsimp only
  rw [hlands target hlanding, hparent]
  split
  · rename_i hback
    exact iff_of_true rfl (Option.some.inj hback).symm
  · rename_i hbeyond
    exact iff_of_false (by decide) fun heq => hbeyond (congrArg some heq.symm)

/-- What a block leaves that was opened in `m` and is closed: the tables from before are as they
were, all others are gone but hidden tables of packages that were defined first in the block, and
the same package definitions are open. -/
structure Rejoins (m after : Machine) (block : TableId) (hidden : List TableId) : Prop
    extends m.Spared after hidden where
  gone : after.world.scopes.contains block = false
  /-- The table in which the block was opened is current again, unless it is passed over. -/
  back : ¬ m.world.scopes.PassedOver m.context.symbols → after.context.symbols = m.context.symbols
  /-- If it is, the nearest table around it is current that is not. -/
  beyond : ∀ target, m.world.scopes.PassedOver m.context.symbols →
    m.world.scopes.Landing m.context.symbols target →
    after.context.symbols = target ∧ target ≠ m.context.symbols
  /-- The visible names are those of the tables that were in sight before, unless a hidden table
  took the handle of one that was lost. -/
  names : ∀ start name, (∀ x ∈ hidden, ¬ m.world.scopes.Sees start x) →
    ((after.world.scopes.resolve start name).isSome = true ↔
      ∃ x, m.world.scopes.InSight start x ∧ after.world.scopes.isLocal x name = true)

/-- A handle that found no table finds none, unless a hidden table took it. -/
theorem Spared.sameTable {after : Machine} {hidden : List TableId} (h : m.Spared after hidden)
    {x : TableId} (hx : x ∉ hidden) : m.world.scopes.SameTable after.world.scopes x := by
  cases hlive : m.world.scopes.contains x with
  | true => exact h.kept x hlive
  | false =>
    have hgone : after.world.scopes.contains x = false := Bool.eq_false_iff.2 fun hafter => by
      rcases (h.live x).1 hafter with hbefore | hmem
      · rw [hlive] at hbefore
        cases hbefore
      · exact hx hmem
    unfold Arena.SameTable
    rw [Arena.contains, Option.isSome_eq_false_iff, Option.isNone_iff_eq_none] at hlive hgone
    rw [hlive, hgone]

/-- **Blocks nest.** A block is opened in a live table; what is opened in it is closed in turn, and
then the block is closed. Neither fails. Then the tables from before are as they were, and all others
are gone but the hidden tables of packages that were defined first in between; and the table from
before is current again, unless the end of the block passes over it. -/
theorem block_rejoins {start m closing : Machine} {defined : List TableId}
    (hbegins : start.Begins) (hreached : Trace HiddenLive start m)
    (hlive : m.world.scopes.contains m.context.symbols = true)
    (hopens : m.opcode? = some .pushScope) (hbody : m.step.1.Tidy closing [] defined)
    (hcloses : closing.opcode? = some .popScope) :
    m.attempt = (.ok (), m.step.1) ∧ closing.attempt = (.ok (), closing.step.1) ∧
      m.Rejoins closing.step.1 m.step.1.context.symbols defined := by
  have hframed := hreached.framed hbegins.framed
  obtain ⟨hopened, hpackages₁, hgrows⟩ := attempt_pushScope hframed hreached.ok_last hopens
  have hopenedFramed := (step_follows hframed hbody.hiddenLive_first).framed
  have hblock := hgrows.live _ List.mem_cons_self
  obtain ⟨hsymbols, hpackages₂, hintact⟩ := hbody.closed hopenedFramed hblock
  have hparent : closing.world.scopes.parent? closing.context.symbols
      = some m.context.symbols := by
    rw [hsymbols, (hintact.kept _ hblock).parent?_eq, hgrows.parent?_eq hlive]
  obtain ⟨-, hclosed, hscopes, hpackages₃, hlands⟩ := attempt_popScope hcloses hparent
  have hbefore : m.world.scopes.Intact closing.world.scopes defined
      ([m.step.1.context.symbols] ++ []) [] := hintact.afterGrows hgrows
  have hafter : m.world.scopes.Intact closing.step.1.world.scopes defined [] [] := by
    rw [hscopes, hsymbols]
    exact (hbefore.drop hframed.sound fun _ _ => List.not_mem_nil).1
  have hspared := spared_of_intact hafter (hpackages₃.trans (hpackages₂.trans hpackages₁))
  have hgone : closing.step.1.world.scopes.contains m.step.1.context.symbols = false := by
    obtain ⟨hfresh, hdefined⟩ := hbefore.ownFresh _ List.mem_cons_self
    refine Bool.eq_false_iff.2 fun hstill => ?_
    rcases hafter.new _ hstill with hlive' | hmem | hmem
    · rw [hfresh] at hlive'
      cases hlive'
    · exact hdefined hmem
    · cases hmem
  have hlanding : ∀ target, m.world.scopes.Landing m.context.symbols target →
      closing.step.1.context.symbols = target := fun target h =>
    hlands target (by
      rw [← hscopes]
      exact h.congr hspared.kept)
  refine ⟨hopened, hclosed, hspared, hgone, fun hstays => hlanding _ (.self hlive hstays),
    fun target hover h => ⟨hlanding target h, fun heq => h.eq_iff.1 heq hover⟩,
    fun start name hhidden => ?_⟩
  have hsight : ∀ x, closing.step.1.world.scopes.InSight start x ↔
      m.world.scopes.InSight start x := fun x =>
    Arena.inSight_congr fun x hx => hspared.sameTable fun hmem => hhidden x hmem hx
  rw [Arena.isSome_resolve_iff]
  simp only [hsight]

/-- A machine about to run `PushScope; LocalCall 4; PopScope; Stop; PushScope; PopScope; Return`. -/
def nester : Machine :=
  ofContext {} {
    name := "main"
    thread := 1
    symbols := .root
    code := ⟨"main", #[.plain .pushScope, ⟨.localCall, .ofNat 4⟩, .plain .popScope, .plain .stop,
      .plain .pushScope, .plain .popScope, .plain .return], none, true, false⟩
    running := true }

/-- In the block, a subroutine is called that has a block of its own. -/
theorem block_rejoins_of_nester :
    Trace HiddenLive nester nester ∧
      nester.step.1.Tidy nester.step.1.step.1.step.1.step.1.step.1 [] [] ∧
      nester.Rejoins nester.step.1.step.1.step.1.step.1.step.1.step.1 ⟨1, 0⟩ [] := by
  have hreached : Trace HiddenLive nester nester := .start (hiddenLive_of_all rfl)
  have hopened : nester.step.1.Tidy nester.step.1 [] [] := .start (hiddenLive_of_all rfl)
  have hcalled : nester.step.1.Tidy nester.step.1.step.1 [.function] [] :=
    hopened.step (hiddenLive_of_all rfl) rfl
  have hinner : nester.step.1.Tidy nester.step.1.step.1.step.1 [.block, .function] [] :=
    hcalled.step (hiddenLive_of_all rfl) rfl
  have hclosed : nester.step.1.Tidy nester.step.1.step.1.step.1.step.1 [.function] [] := by
    have hnone : nester.step.1.step.1.step.1.definedBy [] = [] := by decide +kernel
    have hturned : nester.step.1.step.1.step.1.turned [.block, .function] = some [.function] := by
      decide +kernel
    have hstep := hinner.step (hiddenLive_of_all (by decide +kernel)) hturned
    rwa [hnone] at hstep
  have hbody : nester.step.1.Tidy nester.step.1.step.1.step.1.step.1.step.1 [] [] := by
    have hnone : nester.step.1.step.1.step.1.step.1.definedBy [] = [] := by decide +kernel
    have hturned : nester.step.1.step.1.step.1.step.1.turned [.function] = some [] := by
      decide +kernel
    have hstep := hclosed.step (hiddenLive_of_all (by decide +kernel)) hturned
    rwa [hnone] at hstep
  have hrejoins := block_rejoins ⟨⟨OnlyValues.empty, rfl, rfl, rfl⟩, rfl, Arena.initial_sound⟩
    hreached rfl rfl hbody (by decide +kernel)
  exact ⟨hreached, hbody, hrejoins.2.2⟩

end Machine

end ScriptMachine
