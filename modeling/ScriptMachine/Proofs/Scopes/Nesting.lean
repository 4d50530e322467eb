import ScriptMachine.Proofs.Action.Locality
import ScriptMachine.Proofs.Scopes.Growth

/-!
# What is open in a call

While a function runs, blocks, package definitions and calls are opened and closed. As long as they
are closed in turn, each table that was made for them leads to the one from before, and closing them
leaves all other tables alone.

* `Mark`, `Site`: what is open in a call, innermost first, and where the call was made.
* `Laid`: how the current table is connected with the one in which the call was made.
* `Arena.Intact`: what the call did to the tables so far.
* `Nests`: both; `Nests.enter`, `Nests.closeBlocks`, `Nests.leave` and companions tell how opening
  and closing changes them.
* `Nests.blocks`: what is open in the callee itself when it is left.
* `Nests.exit`: leaving the callee leaves the tables from before the call and those of definitions.
-/

namespace ScriptMachine

/-- What may be open in a call: a block, a package definition, the call of a function, or a context
of its own for a call. -/
inductive Mark
  | block
  | definition
  | function
  | scratch
deriving DecidableEq

namespace Mark

/-- What is open once `n` blocks are closed. -/
def closeBlocks : Nat → List Mark → Option (List Mark)
  | 0, marks => some marks
  | n + 1, .block :: marks => closeBlocks n marks
  | _ + 1, _ => none

/-- What is open once `n` functions are left in which only blocks are open. -/
def leaveFunctions : Nat → List Mark → Option (List Mark)
  | 0, marks => some marks
  | n + 1, .block :: marks => leaveFunctions (n + 1) marks
  | n + 1, .function :: marks => leaveFunctions n marks
  | _ + 1, _ => none

@[simp]
theorem leaveFunctions_zero (marks : List Mark) : leaveFunctions 0 marks = some marks := by
  cases marks <;> rfl

theorem closeBlocks_eq_some {n : Nat} {marks marks' : List Mark}
    (h : closeBlocks n marks = some marks') : marks = List.replicate n .block ++ marks' := by
  induction n generalizing marks with
  | zero =>
    cases h
    rfl
  | succ n ih =>
    unfold closeBlocks at h
    split at h
    · cases ‹n + 1 = 0›
    · rename_i k marks hk
      cases hk
      rw [ih h]
      rfl
    · cases h

theorem leaveFunctions_eq_some {n : Nat} {marks marks' : List Mark}
    (h : leaveFunctions (n + 1) marks = some marks') : ∃ k rest,
      marks = List.replicate k .block ++ .function :: rest ∧
      leaveFunctions n rest = some marks' := by
  induction marks with
  | nil => cases h
  | cons mark marks ih =>
    cases mark with
    | block =>
      obtain ⟨k, rest, rfl, hrest⟩ := ih h
      exact ⟨k + 1, rest, rfl, hrest⟩
    | function => exact ⟨0, marks, rfl, h⟩
    | definition => cases h
    | scratch => cases h

/-- Blocks and functions are blocks alone, or there is an innermost function. -/
theorem blocks_or_function {marks : List Mark} (hscratch : .scratch ∉ marks)
    (hdefinition : .definition ∉ marks) : marks = List.replicate marks.length .block ∨
      ∃ n rest, marks = List.replicate n .block ++ .function :: rest := by
  induction marks with
  | nil => exact .inl rfl
  | cons mark marks ih =>
    rw [List.mem_cons, not_or] at hscratch hdefinition
    cases mark with
    | block =>
      rcases ih hscratch.2 hdefinition.2 with hblocks | ⟨n, rest, hfunction⟩
      · exact .inl (congrArg (Mark.block :: ·) hblocks)
      · exact .inr ⟨n + 1, rest, congrArg (Mark.block :: ·) hfunction⟩
    | function => exact .inr ⟨0, marks, rfl⟩
    | definition => exact absurd rfl hdefinition.1
    | scratch => exact absurd rfl hscratch.1

end Mark

/-- Where a call was made: the tables, the current one and the open package definitions at the call,
the table in which the callee begins, the slots below it, and the contexts that wait. -/
structure Site where
  scopes : Arena
  table : TableId
  entry : TableId
  packages : List PackageScope
  lower : Array Slot
  waiting : List Suspended

/-- How a table is connected with the one in which a call was made. For the marks of what is open,
it tells the current table, the open package definitions, the slots below the frame pointer, the
contexts that wait, the tables made for what is open, and the tables in which it was opened. -/
inductive Laid (a : Arena) (site : Site) : List Mark → TableId → List PackageScope →
    Array Slot → List Suspended → List TableId → List TableId → Prop
  | callee {made : List TableId} (hleads : a.Leads site.table site.entry made) :
      Laid a site [] site.entry site.packages site.lower site.waiting made [site.table]
  | block {marks : List Mark} {id parent : TableId} {packages : List PackageScope}
      {lower : Array Slot} {waiting : List Suspended} {own pins : List TableId}
      (hparent : a.parent? id = some parent) (hplain : a.packageOf id = "") (hpins : id ∉ pins)
      (houter : Laid a site marks parent packages lower waiting own pins) :
      Laid a site (.block :: marks) id packages lower waiting (id :: own) pins
  | definition {marks : List Mark} {scope : PackageScope} {packages : List PackageScope}
      {lower : Array Slot} {waiting : List Suspended} {own pins : List TableId}
      (houter : Laid a site marks scope.savedSymbols packages lower waiting own pins) :
      Laid a site (.definition :: marks) scope.table (scope :: packages) lower waiting own
        (scope.table :: pins)
  | function {marks : List Mark} {id : TableId} {packages : List PackageScope}
      {below : Array Slot} {f : Frame} {waiting : List Suspended} {made own pins : List TableId}
      (hleads : a.Leads f.symbols id made) (hmade : made ≠ []) (hpins : ∀ x ∈ made, x ∉ pins)
      (hfp : f.fp ≤ below.size)
      (houter : Laid a site marks f.symbols packages (below.extract 0 f.fp) waiting own pins) :
      Laid a site (.function :: marks) id packages (below.push (.frame f)) waiting (made ++ own)
        pins
  | scratch {marks : List Mark} {s : Suspended} {waiting : List Suspended}
      {own pins : List TableId}
      (houter : Laid a site marks s.context.symbols s.context.packages s.context.lower waiting own
        pins) :
      Laid a site (.scratch :: marks) s.context.symbols [] #[] (s :: waiting) own pins

namespace Arena

/-- The first table on a way, unless it ends there. -/
theorem Leads.mem_or_eq {a : Arena} {stop id : TableId} {tables : List TableId}
    (h : a.Leads stop id tables) : id ∈ tables ∨ id = stop := by
  cases h with
  | here => exact .inr rfl
  | up _ _ _ => exact .inl List.mem_cons_self

theorem Leads.stop_not_mem {a : Arena} {stop id : TableId} {tables : List TableId}
    (h : a.Leads stop id tables) : stop ∉ tables := by
  induction h with
  | here => exact List.not_mem_nil
  | up hne _ _ ih =>
    rw [List.mem_cons, not_or]
    exact ⟨fun heq => hne heq.symm, ih⟩

/-- What a call did to the tables: those from before are as they were, and the live ones are these,
the hidden tables of packages that it defined first, and those made for what is open. -/
structure Intact (before after : Arena) (defined own pins : List TableId) : Prop where
  sound : after.Sound
  kept : ∀ x, before.contains x = true → before.SameTable after x
  new : ∀ x, after.contains x = true → before.contains x = true ∨ x ∈ defined ∨ x ∈ own
  definedFresh : ∀ x ∈ defined, before.contains x = false
  definedLive : ∀ x ∈ defined, after.contains x = true
  ownFresh : ∀ x ∈ own, before.contains x = false ∧ x ∉ defined
  ownLive : ∀ x ∈ own, after.contains x = true
  pinsLive : ∀ x ∈ pins, after.contains x = true
  nodup : own.Nodup

namespace Intact

variable {before a b : Arena} {defined own pins made : List TableId}

theorem congr (h : before.Intact a defined own pins) (houtline : b.outline = a.outline) :
    before.Intact b defined own pins where
  sound := h.sound.congr houtline
  kept x hx := (h.kept x hx).trans (.ofOutline houtline x)
  new x hx := h.new x (by rw [← contains_congr houtline]; exact hx)
  definedFresh := h.definedFresh
  definedLive x hx := by
    rw [contains_congr houtline]
    exact h.definedLive x hx
  ownFresh := h.ownFresh
  ownLive x hx := by
    rw [contains_congr houtline]
    exact h.ownLive x hx
  pinsLive x hx := by
    rw [contains_congr houtline]
    exact h.pinsLive x hx
  nodup := h.nodup

/-- New tables for what is opened. -/
theorem grow {stop id : TableId} (h : before.Intact a defined own pins)
    (hgrows : a.Grows b stop id made) :
    before.Intact b defined (made ++ own) pins := by
  have hold : ∀ x, a.contains x = true → a.SameTable b x := fun x hx =>
    hgrows.others x (hgrows.not_mem_of_live hx)
  have hlive : ∀ x, a.contains x = true → b.contains x = true := fun x hx =>
    (hold x hx).contains_eq.trans hx
  have hkept : ∀ x, before.contains x = true → a.contains x = true := fun x hx =>
    (h.kept x hx).contains_eq.trans hx
  refine ⟨hgrows.sound, fun x hx => (h.kept x hx).trans (hold x (hkept x hx)), fun x hx => ?_,
    h.definedFresh, fun x hx => hlive x (h.definedLive x hx), fun x hx => ?_, fun x hx => ?_,
    fun x hx => hlive x (h.pinsLive x hx), ?_⟩
  · by_cases hmade : x ∈ made
    · exact .inr (.inr (List.mem_append_left _ hmade))
    · rw [(hgrows.others x hmade).contains_eq] at hx
      exact (h.new x hx).imp_right fun hx => hx.imp_right (List.mem_append_right _)
  · rcases List.mem_append.1 hx with hx | hx
    · have hstale := hgrows.fresh x hx
      refine ⟨Bool.eq_false_iff.2 fun hbefore => ?_, fun hdefined => ?_⟩
      · rw [hkept x hbefore] at hstale
        cases hstale
      · rw [h.definedLive x hdefined] at hstale
        cases hstale
    · exact h.ownFresh x hx
  · rcases List.mem_append.1 hx with hx | hx
    · exact hgrows.live x hx
    · exact hlive x (h.ownLive x hx)
  · exact List.nodup_append.2 ⟨hgrows.nodup, h.nodup, fun x hx y hy hxy =>
      hgrows.not_mem_of_live (h.ownLive y hy) (hxy ▸ hx)⟩

/-- What began after new tables were made left the older ones intact. -/
theorem afterGrows {c : Arena} {stop id : TableId} (hgrows : a.Grows b stop id made)
    (h : b.Intact c defined [] pins) : a.Intact c defined made [] := by
  have hold : ∀ x, a.contains x = true → a.SameTable b x := fun x hx =>
    hgrows.others x (hgrows.not_mem_of_live hx)
  have hstays : ∀ x, a.contains x = true → b.contains x = true := fun x hx =>
    (hold x hx).contains_eq.trans hx
  refine ⟨h.sound, fun x hx => (hold x hx).trans (h.kept x (hstays x hx)), fun x hx => ?_,
    fun x hx => ?_, h.definedLive, fun x hx => ⟨hgrows.fresh x hx, fun hdefined => ?_⟩,
    fun x hx => ?_, nofun, hgrows.nodup⟩
  · rcases h.new x hx with hbefore | hdefined | hown
    · by_cases hmade : x ∈ made
      · exact .inr (.inr hmade)
      · rw [(hgrows.others x hmade).contains_eq] at hbefore
        exact .inl hbefore
    · exact .inr (.inl hdefined)
    · cases hown
  · refine Bool.eq_false_iff.2 fun hbefore => ?_
    have hfresh := h.definedFresh x hx
    rw [hstays x hbefore] at hfresh
    cases hfresh
  · have hfresh := h.definedFresh x hdefined
    rw [hgrows.live x hx] at hfresh
    cases hfresh
  · exact (h.kept x (hgrows.live x hx)).contains_eq.trans (hgrows.live x hx)

/-- The tables made for what is closed are removed. -/
theorem drop {closed : List TableId} (hsound : before.Sound)
    (h : before.Intact a defined (closed ++ own) pins) (hpins : ∀ x ∈ closed, x ∉ pins) :
    before.Intact (a.dropTables closed) defined own pins ∧
      ∀ x ∈ own, a.SameTable (a.dropTables closed) x := by
  have hroot : TableId.root ∉ closed := by
    intro hmem
    have hfresh := (h.ownFresh _ (List.mem_append_left _ hmem)).1
    rw [hsound.root] at hfresh
    cases hfresh
  obtain ⟨-, hnodup, hdisjoint⟩ := List.nodup_append.1 h.nodup
  have hsame : ∀ x, x ∉ closed → a.SameTable (a.dropTables closed) x := by
    intro x hx
    unfold SameTable
    rw [table?_dropTables hroot, if_neg hx]
  have hlive : ∀ x, x ∉ closed → a.contains x = true → (a.dropTables closed).contains x = true :=
    fun x hx hlive => (hsame x hx).contains_eq.trans hlive
  have hown : ∀ x ∈ own, x ∉ closed := fun x hx hmem => hdisjoint x hmem x hx rfl
  refine ⟨⟨h.sound.dropTables closed, fun x hx => (h.kept x hx).trans (hsame x ?_), fun x hx => ?_,
    h.definedFresh, fun x hx => hlive x ?_ (h.definedLive x hx),
    fun x hx => h.ownFresh x (List.mem_append_right _ hx),
    fun x hx => hlive x (hown x hx) (h.ownLive x (List.mem_append_right _ hx)),
    fun x hx => hlive x (fun hmem => hpins x hmem hx) (h.pinsLive x hx), hnodup⟩,
    fun x hx => hsame x (hown x hx)⟩
  · intro hmem
    rw [(h.ownFresh x (List.mem_append_left _ hmem)).1] at hx
    cases hx
  · by_cases hmem : x ∈ closed
    · rw [contains, table?_dropTables hroot, if_pos hmem] at hx
      cases hx
    · rw [(hsame x hmem).contains_eq] at hx
      exact (h.new x hx).imp_right fun hx => hx.imp_right fun hx =>
        (List.mem_append.1 hx).resolve_left hmem
  · intro hmem
    exact (h.ownFresh x (List.mem_append_left _ hmem)).2 hx

/-- A package definition begins in its hidden table, which may be new. -/
theorem define {table : TableId} (h : before.Intact a defined own pins) (hsound : b.Sound)
    (hlive : b.contains table = true) (hothers : ∀ x, x ≠ table → b.table? x = a.table? x)
    (htable : a.contains table = false ∨ b = a) :
    before.Intact b (if a.contains table then defined else table :: defined) own
      (table :: pins) := by
  rcases htable with hfresh | rfl
  · have hsame : ∀ x, a.contains x = true → a.SameTable b x := by
      intro x hx
      unfold SameTable
      rw [hothers x]
      rintro rfl
      rw [hfresh] at hx
      cases hx
    have hstays : ∀ x, a.contains x = true → b.contains x = true := fun x hx =>
      (hsame x hx).contains_eq.trans hx
    have hkept : ∀ x, before.contains x = true → a.contains x = true := fun x hx =>
      (h.kept x hx).contains_eq.trans hx
    have hold : before.contains table = false := Bool.eq_false_iff.2 fun hbefore => by
      rw [hkept table hbefore] at hfresh
      cases hfresh
    rw [if_neg (by rw [hfresh]; exact Bool.false_ne_true)]
    refine ⟨hsound, fun x hx => (h.kept x hx).trans (hsame x (hkept x hx)), fun x hx => ?_,
      fun x hx => ?_, fun x hx => ?_, fun x hx => ⟨(h.ownFresh x hx).1, ?_⟩,
      fun x hx => hstays x (h.ownLive x hx), fun x hx => ?_, h.nodup⟩
    · by_cases heq : x = table
      · rw [heq]
        exact .inr (.inl List.mem_cons_self)
      · rw [contains, hothers x heq] at hx
        exact (h.new x hx).imp_right fun hx => hx.imp_left (List.mem_cons_of_mem _)
    · rcases List.mem_cons.1 hx with rfl | hx
      · exact hold
      · exact h.definedFresh x hx
    · rcases List.mem_cons.1 hx with rfl | hx
      · exact hlive
      · exact hstays x (h.definedLive x hx)
    · rw [List.mem_cons, not_or]
      refine ⟨?_, (h.ownFresh x hx).2⟩
      rintro rfl
      rw [h.ownLive x hx] at hfresh
      cases hfresh
    · rcases List.mem_cons.1 hx with rfl | hx
      · exact hlive
      · exact hstays x (h.pinsLive x hx)
  · rw [if_pos hlive]
    refine ⟨h.sound, h.kept, h.new, h.definedFresh, h.definedLive, h.ownFresh, h.ownLive,
      fun x hx => ?_, h.nodup⟩
    rcases List.mem_cons.1 hx with rfl | hx
    · exact hlive
    · exact h.pinsLive x hx

end Intact

end Arena

namespace Laid

variable {a b : Arena} {site : Site} {marks : List Mark} {id : TableId}
  {packages : List PackageScope} {lower : Array Slot} {waiting : List Suspended}
  {own pins : List TableId}

/-- Only the tables made for what is open matter. -/
theorem congr (h : Laid a site marks id packages lower waiting own pins)
    (hsame : ∀ x ∈ own, a.SameTable b x) :
    Laid b site marks id packages lower waiting own pins := by
  induction h with
  | callee hleads => exact .callee (hleads.congr hsame)
  | block hparent hplain hpins _ ih =>
    have hself := hsame _ List.mem_cons_self
    exact .block (hself.parent?_eq.trans hparent) (hself.packageOf_eq.trans hplain) hpins
      (ih fun x hx => hsame x (List.mem_cons_of_mem _ hx))
  | definition _ ih => exact .definition (ih hsame)
  | function hleads hmade hpins hfp _ ih =>
    exact .function (hleads.congr fun x hx => hsame x (List.mem_append_left _ hx)) hmade hpins hfp
      (ih fun x hx => hsame x (List.mem_append_right _ hx))
  | scratch _ ih => exact .scratch (ih hsame)

/-- The current table was made for what is open, or something was opened in it. -/
theorem current_mem (h : Laid a site marks id packages lower waiting own pins) :
    id ∈ own ∨ id ∈ pins := by
  induction h with
  | callee hleads => exact hleads.mem_or_eq.imp_right fun heq => List.mem_singleton.2 heq
  | block _ _ _ _ _ => exact .inl List.mem_cons_self
  | definition _ _ => exact .inr List.mem_cons_self
  | function hleads _ _ _ _ ih =>
    cases hleads with
    | here => exact ih.imp_left (List.mem_append_right _)
    | up _ _ _ => exact .inl List.mem_cons_self
  | scratch _ ih => exact ih

/-- Blocks lead to the table around them. -/
theorem closeBlocks {n : Nat} (hnodup : own.Nodup)
    (h : Laid a site (List.replicate n .block ++ marks) id packages lower waiting own pins) :
    ∃ base blocks rest, own = blocks ++ rest ∧ blocks.length = n ∧ a.Leads base id blocks ∧
      (∀ x ∈ blocks, x ∉ pins ∧ a.packageOf x = "") ∧
      Laid a site marks base packages lower waiting rest pins := by
  induction n generalizing id own with
  | zero => exact ⟨id, [], own, rfl, rfl, .here, fun _ hx => absurd hx List.not_mem_nil, h⟩
  | succ n ih =>
    rw [List.replicate_succ, List.cons_append] at h
    cases h with
    | @block _ _ parent _ _ _ own _ hparent hplain hpins houter =>
      rw [List.nodup_cons] at hnodup
      obtain ⟨base, blocks, rest, rfl, hlength, hleads, hblocks, hrest⟩ := ih hnodup.2 houter
      refine ⟨base, id :: blocks, rest, rfl, by rw [List.length_cons, hlength],
        .up ?_ hparent hleads, fun x hx => ?_, hrest⟩
      · rintro rfl
        rcases hrest.current_mem with hmem | hmem
        · exact hnodup.1 (List.mem_append_right _ hmem)
        · exact hpins hmem
      · rcases List.mem_cons.1 hx with rfl | hx
        · exact ⟨hpins, hplain⟩
        · exact hblocks x hx

/-- A function whose blocks are all that is open in it leads to the table of its caller. -/
theorem leave {n : Nat} (hnodup : own.Nodup)
    (h : Laid a site (List.replicate n .block ++ .function :: marks) id packages lower waiting own
      pins) :
    ∃ (below : Array Slot) (f : Frame) (made rest : List TableId),
      lower = below.push (.frame f) ∧ f.fp ≤ below.size ∧ own = made ++ rest ∧
      a.Leads f.symbols id made ∧ (∀ x ∈ made, x ∉ pins) ∧
      Laid a site marks f.symbols packages (below.extract 0 f.fp) waiting rest pins := by
  obtain ⟨base, blocks, rest, rfl, -, hblocks, hpins, hfunction⟩ := h.closeBlocks hnodup
  cases hfunction with
  | @function _ _ _ below f _ made rest _ hleads _ hmade hfp houter =>
    refine ⟨below, f, blocks ++ made, rest, rfl, hfp, by rw [List.append_assoc],
      hblocks.trans hleads ?_, fun x hx => ?_, houter⟩
    · intro hmem
      rcases houter.current_mem with hrest | hpin
      · exact (List.nodup_append.1 hnodup).2.2 _ hmem _ (List.mem_append_right _ hrest) rfl
      · exact (hpins _ hmem).1 hpin
    · exact (List.mem_append.1 hx).elim (fun hmem => (hpins x hmem).1) (hmade x)

/-- The contexts that waited at the call still wait. -/
theorem length_waiting_le (h : Laid a site marks id packages lower waiting own pins) :
    site.waiting.length ≤ waiting.length := by
  induction h with
  | callee _ => exact Nat.le_refl _
  | block _ _ _ _ ih => exact ih
  | definition _ ih => exact ih
  | function _ _ _ _ _ ih => exact ih
  | scratch _ ih => exact Nat.le_succ_of_le ih

/-- Where no other context was set going, the functions that the callee has called lie above it. -/
theorem size_lower_le (h : Laid a site marks id packages lower waiting own pins)
    (hwaiting : waiting.length ≤ site.waiting.length) :
    waiting = site.waiting ∧ .scratch ∉ marks ∧ site.lower.size ≤ lower.size ∧
      (lower.size ≤ site.lower.size → lower = site.lower ∧ .function ∉ marks) := by
  induction h with
  | callee _ =>
    exact ⟨rfl, List.not_mem_nil, Nat.le_refl _, fun _ => ⟨rfl, List.not_mem_nil⟩⟩
  | block _ _ _ _ ih =>
    obtain ⟨hsame, hscratch, hle, hfunction⟩ := ih hwaiting
    exact ⟨hsame, by simpa using hscratch, hle, fun hlower => by simpa using hfunction hlower⟩
  | definition _ ih =>
    obtain ⟨hsame, hscratch, hle, hfunction⟩ := ih hwaiting
    exact ⟨hsame, by simpa using hscratch, hle, fun hlower => by simpa using hfunction hlower⟩
  | function _ _ _ hfp _ ih =>
    obtain ⟨hsame, hscratch, hle, -⟩ := ih hwaiting
    rw [Array.size_extract] at hle
    rw [Array.size_push]
    exact ⟨hsame, by simpa using hscratch, by omega, fun hlower => by omega⟩
  | scratch houter _ =>
    have hle := houter.length_waiting_le
    rw [List.length_cons] at hwaiting
    omega

/-- The open package definitions are those from before the call and those of the marks. -/
theorem packages_eq (h : Laid a site marks id packages lower waiting own pins)
    (hscratch : .scratch ∉ marks) :
    ∃ opened, packages = opened ++ site.packages ∧ opened.length = marks.count .definition := by
  induction h with
  | callee _ => exact ⟨[], rfl, rfl⟩
  | block _ _ _ _ ih =>
    rw [List.mem_cons, not_or] at hscratch
    exact ih hscratch.2
  | @definition _ scope _ _ _ _ _ _ ih =>
    rw [List.mem_cons, not_or] at hscratch
    obtain ⟨opened, rfl, hlength⟩ := ih hscratch.2
    exact ⟨scope :: opened, rfl, by rw [List.length_cons, hlength, List.count_cons_self]⟩
  | function _ _ _ _ _ ih =>
    rw [List.mem_cons, not_or] at hscratch
    exact ih hscratch.2
  | scratch _ _ => exact absurd List.mem_cons_self hscratch

/-- No package definition is open if there are no more of them than at the call. -/
theorem not_mem_definition (h : Laid a site marks id site.packages lower waiting own pins)
    (hscratch : .scratch ∉ marks) : .definition ∉ marks := by
  obtain ⟨opened, heq, hlength⟩ := h.packages_eq hscratch
  have hnil : opened = [] := List.self_eq_append_left.1 heq
  rw [hnil, List.length_nil] at hlength
  exact List.count_eq_zero.1 hlength.symm

end Laid

/-! ### Opening and closing -/

/-- A table is connected with the one in which a call was made, which left the others intact. -/
def Nests (site : Site) (marks : List Mark) (defined : List TableId) (a : Arena) (id : TableId)
    (packages : List PackageScope) (lower : Array Slot) (waiting : List Suspended) : Prop :=
  ∃ own pins, Laid a site marks id packages lower waiting own pins ∧
    site.scopes.Intact a defined own pins

namespace Nests

variable {a b : Arena} {site : Site} {marks : List Mark} {defined : List TableId} {id : TableId}
  {packages : List PackageScope} {lower : Array Slot} {waiting : List Suspended}

theorem congr (h : Nests site marks defined a id packages lower waiting)
    (houtline : b.outline = a.outline) : Nests site marks defined b id packages lower waiting := by
  obtain ⟨own, pins, hlaid, hintact⟩ := h
  exact ⟨own, pins, hlaid.congr fun x _ => .ofOutline houtline x, hintact.congr houtline⟩

/-- The current table is live. -/
theorem live (h : Nests site marks defined a id packages lower waiting) :
    a.contains id = true := by
  obtain ⟨own, pins, hlaid, hintact⟩ := h
  exact hlaid.current_mem.elim (hintact.ownLive id) (hintact.pinsLive id)

/-- The callee begins. -/
theorem callee {made : List TableId} (hlive : site.scopes.contains site.table = true)
    (hgrows : site.scopes.Grows a site.table site.entry made) :
    Nests site [] [] a site.entry site.packages site.lower site.waiting := by
  have hstays : ∀ x, site.scopes.contains x = true → site.scopes.SameTable a x := fun x hx =>
    hgrows.others x (hgrows.not_mem_of_live hx)
  refine ⟨made, [site.table], .callee (hgrows.leads hlive), hgrows.sound, hstays, fun x hx => ?_,
    fun x hx => absurd hx List.not_mem_nil, fun x hx => absurd hx List.not_mem_nil,
    fun x hx => ⟨hgrows.fresh x hx, List.not_mem_nil⟩, hgrows.live, fun x hx => ?_, hgrows.nodup⟩
  · by_cases hmade : x ∈ made
    · exact .inr (.inr hmade)
    · rw [(hgrows.others x hmade).contains_eq] at hx
      exact .inl hx
  · rw [List.mem_singleton.1 hx, (hstays _ hlive).contains_eq]
    exact hlive

/-- A block is opened. -/
theorem openBlock {block : TableId} (h : Nests site marks defined a id packages lower waiting)
    (hgrows : a.Grows b id block [block]) (hplain : b.packageOf block = "") :
    Nests site (.block :: marks) defined b block packages lower waiting := by
  have hlive := h.live
  obtain ⟨own, pins, hlaid, hintact⟩ := h
  exact ⟨block :: own, pins, .block (hgrows.parent?_eq hlive) hplain (fun hmem => hgrows.not_mem_of_live
    (hintact.pinsLive _ hmem) List.mem_cons_self) (hlaid.congr fun x hx => hgrows.others x
    (hgrows.not_mem_of_live (hintact.ownLive x hx))), hintact.grow hgrows⟩

/-- A function is called. -/
theorem enter {callee : TableId} {made : List TableId} {below : Array Slot} {f : Frame}
    (h : Nests site marks defined a id packages lower waiting)
    (hgrows : a.Grows b id callee made) (hnew : a.contains callee = false)
    (hsymbols : f.symbols = id) (hfp : f.fp ≤ below.size)
    (hbelow : below.extract 0 f.fp = lower) :
    Nests site (.function :: marks) defined b callee packages (below.push (.frame f)) waiting := by
  have hlive := h.live
  obtain ⟨own, pins, hlaid, hintact⟩ := h
  subst hsymbols hbelow
  have hmade : made ≠ [] := by
    rintro rfl
    cases hgrows.leads hlive with
    | here =>
      rw [hlive] at hnew
      cases hnew
  exact ⟨made ++ own, pins, .function (hgrows.leads hlive) hmade (fun x hx hmem => hgrows.not_mem_of_live
    (hintact.pinsLive _ hmem) hx) hfp (hlaid.congr fun x hx => hgrows.others x
    (hgrows.not_mem_of_live (hintact.ownLive x hx))), hintact.grow hgrows⟩

/-- A context of its own is set going. -/
theorem suspend {s : Suspended} (h : Nests site marks defined a s.context.symbols
    s.context.packages s.context.lower waiting) :
    Nests site (.scratch :: marks) defined a s.context.symbols [] #[] (s :: waiting) := by
  obtain ⟨own, pins, hlaid, hintact⟩ := h
  exact ⟨own, pins, .scratch hlaid, hintact⟩

/-- The context that waited goes on. -/
theorem resume {s : Suspended} (h : Nests site (.scratch :: marks) defined a id packages lower
    (s :: waiting)) : Nests site marks defined a s.context.symbols s.context.packages
      s.context.lower waiting := by
  obtain ⟨own, pins, hlaid, hintact⟩ := h
  cases hlaid with
  | scratch houter => exact ⟨own, pins, houter, hintact⟩

/-- A package definition begins. -/
theorem define {scope : PackageScope} (h : Nests site marks defined a scope.savedSymbols packages
    lower waiting) (hsound : b.Sound) (hlive : b.contains scope.table = true)
    (hothers : ∀ x, x ≠ scope.table → b.table? x = a.table? x)
    (htable : a.contains scope.table = false ∨ b = a) :
    Nests site (.definition :: marks)
      (if a.contains scope.table then defined else scope.table :: defined) b scope.table
      (scope :: packages) lower waiting := by
  obtain ⟨own, pins, hlaid, hintact⟩ := h
  refine ⟨own, scope.table :: pins, .definition (hlaid.congr fun x hx => ?_),
    hintact.define hsound hlive hothers htable⟩
  rcases htable with hfresh | hsame
  · unfold Arena.SameTable
    rw [hothers x]
    rintro rfl
    rw [hintact.ownLive scope.table hx] at hfresh
    cases hfresh
  · rw [hsame]
    exact .refl a x

/-- A package definition ends. -/
theorem undefine {scope : PackageScope} (h : Nests site (.definition :: marks) defined a id
    (scope :: packages) lower waiting) :
    Nests site marks defined a scope.savedSymbols packages lower waiting := by
  obtain ⟨own, pins, hlaid, hintact⟩ := h
  cases hlaid with
  | definition houter =>
    exact ⟨own, _, houter, { hintact with
      pinsLive := fun x hx => hintact.pinsLive x (List.mem_cons_of_mem _ hx) }⟩

/-- The walk to the table around what is closed finds the tables made for it. -/
theorem between_eq {stop : TableId} {closed own pins : List TableId} (hsite : site.scopes.Sound)
    (hintact : site.scopes.Intact a defined (closed ++ own) pins)
    (hleads : a.Leads stop id closed) : a.between id stop = closed := by
  refine hleads.between_eq (fun hmem => ?_) fun x hx =>
    hintact.ownLive x (List.mem_append_left _ hx)
  have hfresh := (hintact.ownFresh _ (List.mem_append_left _ hmem)).1
  rw [hsite.root] at hfresh
  cases hfresh

/-- Blocks are closed. -/
theorem closeBlocks {n : Nat} (hsite : site.scopes.Sound)
    (h : Nests site (List.replicate n .block ++ marks) defined a id packages lower waiting) :
    ∃ base, a.Leads base id (a.between id base) ∧ (a.between id base).length = n ∧
      Nests site marks defined (a.dropTables (a.between id base)) base packages lower waiting := by
  obtain ⟨own, pins, hlaid, hintact⟩ := h
  obtain ⟨base, blocks, rest, rfl, hlength, hleads, hpins, hrest⟩ := hlaid.closeBlocks hintact.nodup
  obtain ⟨hdrop, hsame⟩ := hintact.drop hsite fun x hx => (hpins x hx).1
  refine ⟨base, ?_⟩
  rw [between_eq hsite hintact hleads]
  exact ⟨hleads, hlength, rest, pins, hrest.congr hsame, hdrop⟩

/-- **A function is left** in which only blocks are open. -/
theorem leave {n : Nat} (hsite : site.scopes.Sound)
    (h : Nests site (List.replicate n .block ++ .function :: marks) defined a id packages lower
      waiting) :
    ∃ (below : Array Slot) (f : Frame), lower = below.push (.frame f) ∧
      Nests site marks defined (a.dropTables (a.between id f.symbols)) f.symbols packages
        (below.extract 0 f.fp) waiting := by
  obtain ⟨own, pins, hlaid, hintact⟩ := h
  obtain ⟨below, f, made, rest, hlower, -, rfl, hleads, hpins, hrest⟩ :=
    hlaid.leave hintact.nodup
  obtain ⟨hdrop, hsame⟩ := hintact.drop hsite hpins
  refine ⟨below, f, hlower, ?_⟩
  rw [between_eq hsite hintact hleads]
  exact ⟨rest, pins, hrest.congr hsame, hdrop⟩

/-- With no more package definitions open than at the call, a function above the callee is left
next. -/
theorem functions (h : Nests site marks defined a id site.packages lower waiting)
    (hwaiting : waiting.length ≤ site.waiting.length) (hlower : site.lower.size < lower.size) :
    ∃ n rest, marks = List.replicate n .block ++ .function :: rest := by
  obtain ⟨own, pins, hlaid, hintact⟩ := h
  obtain ⟨-, hscratch, -⟩ := hlaid.size_lower_le hwaiting
  have hdefinition := hlaid.not_mem_definition hscratch
  rcases Mark.blocks_or_function hscratch hdefinition with hblocks | hfunction
  · rw [hblocks, ← List.append_nil (List.replicate _ _)] at hlaid
    obtain ⟨base, blocks, rest, -, -, -, -, hrest⟩ := hlaid.closeBlocks hintact.nodup
    generalize site.packages = packages at hrest
    cases hrest with
    | callee _ => omega
  · exact hfunction

/-- In the callee itself, with no more package definitions open than at the call, only blocks are
open; they lead to the table in which it began. -/
theorem blocks (h : Nests site marks defined a id site.packages lower waiting)
    (hwaiting : waiting.length ≤ site.waiting.length) (hlower : lower.size ≤ site.lower.size) :
    ∃ blocks made, a.Leads site.entry id blocks ∧ a.Leads site.table site.entry made ∧
      (∀ x ∈ blocks, x ≠ site.table ∧ a.packageOf x = "") ∧
      site.scopes.Intact a defined (blocks ++ made) [site.table] := by
  obtain ⟨own, pins, hlaid, hintact⟩ := h
  obtain ⟨-, hscratch, -, hfunction⟩ := hlaid.size_lower_le hwaiting
  have hdefinition := hlaid.not_mem_definition hscratch
  have hblocks : marks = List.replicate marks.length .block ++ [] := by
    rcases Mark.blocks_or_function hscratch hdefinition with hblocks | ⟨n, rest, hfunctions⟩
    · rwa [List.append_nil]
    · refine absurd ?_ (hfunction hlower).2
      rw [hfunctions]
      exact List.mem_append_right _ List.mem_cons_self
  rw [hblocks] at hlaid
  obtain ⟨base, blocks, made, rfl, -, hleads, hpins, hrest⟩ := hlaid.closeBlocks hintact.nodup
  generalize site.packages = packages at hrest
  cases hrest with
  | callee hcallee =>
    refine ⟨blocks, made, hleads, hcallee, fun x hx => ⟨?_, (hpins x hx).2⟩, hintact⟩
    rintro rfl
    exact (hpins _ hx).1 List.mem_cons_self

/-- With nothing open, the callee is where it began. -/
theorem closed (h : Nests site [] defined a id packages lower waiting) :
    id = site.entry ∧ packages = site.packages ∧ ∃ made, a.Leads site.table site.entry made ∧
      site.scopes.Intact a defined made [site.table] := by
  obtain ⟨own, pins, hlaid, hintact⟩ := h
  cases hlaid with
  | callee hleads => exact ⟨rfl, rfl, own, hleads, hintact⟩

/-- **The callee is left** with no package definition open: what was made for it is removed. -/
theorem exit (hsite : site.scopes.Sound)
    (h : Nests site marks defined a id site.packages lower waiting)
    (hwaiting : waiting.length ≤ site.waiting.length) (hlower : lower.size ≤ site.lower.size) :
    site.scopes.Intact (a.dropTables (a.between id site.table)) defined [] [site.table] := by
  obtain ⟨blocks, made, hleads, hcallee, hblocks, hintact⟩ := h.blocks hwaiting hlower
  have hall := hleads.trans hcallee fun hmem => (hblocks _ hmem).1 rfl
  rw [← List.append_nil (blocks ++ made)] at hintact
  rw [between_eq hsite hintact hall]
  refine (hintact.drop hsite fun x hx hpin => ?_).1
  rw [List.mem_singleton] at hpin
  subst hpin
  exact (List.mem_append.1 hx).elim (fun hmem => (hblocks _ hmem).1 rfl) hcallee.stop_not_mem

end Nests

end ScriptMachine
