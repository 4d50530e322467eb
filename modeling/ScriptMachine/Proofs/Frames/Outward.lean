import ScriptMachine.Proofs.Arena.Walks
import ScriptMachine.Proofs.Frames.Unwinding

/-!
# Loops that walk outward

Leaving a function walks from its scope to that of the caller twice: to write the variables of
packages back, and to remove the tables. Both loops read the parent of a table as they go, while
tables are written or removed; they end, and do what the walk over the tables listed beforehand
does.

* `Arena.dropTurn`, `dropTurn_ends`: the loop that removes tables.
* `Exec.publishTable`, `Exec.publishTurn`, `publishTurn_ends`: the loop that writes variables back.
* `walks_end`: no walk through the scopes goes on for ever.
-/

namespace ScriptMachine

namespace Arena

/-- The turn of the loop that removes the tables up to `stop`. -/
def dropTurn (stop : TableId) : Arena × TableId → Turn (Arena × TableId) Arena
  | (b, id) =>
    if id = stop ∨ id = .root then .done b
    else
      match b.parent? id with
      | some p => .goOn (b.remove id, p)
      | none => .done (b.remove id)

variable {a : Arena} {id stop : TableId} {tables : List TableId} {steps : Nat}

/-- **The loop that removes tables** ends without those that are listed beforehand. -/
theorem dropTurn_ends (h : a.Ascends (some id) tables) (hnodup : tables.Nodup)
    (hsteps : tables.length < steps) {b : Arena} (hsame : ∀ x ∈ tables, b.table? x = a.table? x)
    (hgone : ∀ x, a.table? x = none → b.table? x = none) :
    Turn.Ends (dropTurn stop) (b, id) (b.dropTables (a.lineage stop steps id)) := by
  generalize hcurrent : some id = current at h
  induction h generalizing id b steps with
  | top => cases hcurrent
  | gone hid =>
    obtain rfl := Option.some.inj hcurrent
    obtain ⟨n, rfl⟩ := Nat.exists_eq_add_one_of_ne_zero (Nat.ne_of_gt hsteps)
    refine .now ?_
    by_cases hstop : id = stop ∨ id = .root
    · simp only [dropTurn, lineage, if_pos hstop, dropTables, List.foldl_nil]
    · simp only [dropTurn, lineage, if_neg hstop, parent?, hid, hgone id hid, bind, Option.bind,
        dropTables, List.foldl_cons, List.foldl_nil]
  | @up _ t tables hid _ ih =>
    obtain rfl := Option.some.inj hcurrent
    obtain ⟨n, rfl⟩ := Nat.exists_eq_add_one_of_ne_zero (Nat.ne_of_gt (Nat.zero_lt_of_lt hsteps))
    obtain ⟨hfresh, hrest⟩ := List.nodup_cons.1 hnodup
    have hlive : b.table? id = some t := by rw [hsame id List.mem_cons_self, hid]
    by_cases hstop : id = stop ∨ id = .root
    · refine .now ?_
      simp only [dropTurn, lineage, if_pos hstop, dropTables, List.foldl_nil]
    · have hinner : id ≠ .root := fun hroot => hstop (.inr hroot)
      cases hparent : t.parent with
      | none =>
        refine .now ?_
        simp only [dropTurn, lineage, if_neg hstop, parent?, hid, hlive, hparent, bind, Option.bind,
          dropTables, List.foldl_cons, List.foldl_nil]
      | some p =>
        refine .later (b.remove id, p) ?_ ?_
        · simp only [dropTurn, if_neg hstop, parent?, hlive, hparent, bind, Option.bind]
        · have hlist : a.lineage stop (n + 1) id = id :: a.lineage stop n p := by
            simp only [lineage, if_neg hstop, parent?, hid, hparent, bind, Option.bind]
          rw [hlist]
          -- A table that is removed is none of those further out.
          refine ih hrest (by simpa using hsteps) (fun x hx => ?_) (fun x hx => ?_) hparent.symm
          · rw [table?_remove hinner, if_neg (by rintro rfl; exact hfresh hx)]
            exact hsame x (List.mem_cons_of_mem _ hx)
          · rw [table?_remove hinner, hgone x hx, ite_self]

end Arena

namespace Exec

open Arena (Turn)

/-- Writes the variables of one scope of a package back into the package. -/
def publishScope (name : String) (outside stop table : TableId) : Exec Unit := do
  if name ≠ "" then
    if let some package ← findPackage name outside stop then
      for (symbol, v) in (← scopes).localSymbols table do
        if isVariable symbol v then publishVariable name package symbol v

theorem publishPackages_eq (stop : TableId) : publishPackages stop = (do
    let a ← scopes
    let current := (← context).symbols
    for table in a.between current stop do
      publishScope (a.packageOf table) (a.nextScope current) stop table) := by
  unfold publishPackages
  refine congrArg (scopes >>= ·) (funext fun a => congrArg (context >>= ·) (funext fun c => ?_))
  dsimp only
  refine congrArg (· >>= fun _ => pure ()) (congrArg (forIn _ _) (funext fun table => funext fun _ => ?_))
  unfold publishScope
  split
  · simp only [bind_assoc]
    refine congrArg (findPackage _ _ _ >>= ·) (funext fun found => ?_)
    cases found with
    | none => simp only [pure_bind]
    | some package => simp only [bind_assoc, pure_bind]
  · simp only [pure_bind]

theorem IsRewriting.publishScope (name : String) (outside stop table : TableId) :
    IsRewriting (Exec.publishScope name outside stop table) := by
  refine Keeps.ite (bind (findPackage _ _ _) fun found => ?_) (pure _)
  split
  · refine bind Keeps.scopes fun b => bind (Keeps.forIn _ _ _ fun p _ => ?_) fun _ => pure _
    exact Keeps.ite (bind (publishVariable _ _ _ _) fun _ => pure _) (pure _)
  · exact pure _

/-- The turn of the loop that writes variables back: from the scope of a package into the package,
and on to the parent as it is then. -/
def publishTurn (outside stop : TableId) :
    Machine × TableId → Turn (Machine × TableId) (Except Halt Unit × Machine)
  | (m, table) =>
    if table = stop ∨ table = .root then .done (.ok (), m)
    else
      match outcome (publishScope (m.world.scopes.packageOf table) outside stop table) m with
      | (.error halt, m') => .done (.error halt, m')
      | (.ok (), m') =>
        match m'.world.scopes.parent? table with
        | some p => .goOn (m', p)
        | none => .done (.ok (), m')

theorem outcome_for_cons {γ : Type} (act : γ → Exec Unit) (x : γ) (xs : List γ) (m : Machine) :
    outcome (do for y in x :: xs do act y) m =
      match outcome (act x) m with
      | (.ok _, m') => outcome (do for y in xs do act y) m'
      | (.error halt, m') => (.error halt, m') := by
  rw [List.forIn_cons, bind_assoc, bind_assoc, outcome_bind]
  cases outcome (act x) m with
  | mk r m' =>
    cases r with
    | error halt => rfl
    | ok _ => simp only [pure_bind]

/-- A turn reads parents and package names that no turn changes. -/
theorem publishTurn_of_inner {a : Arena} {id stop : TableId} (hstop : ¬(id = stop ∨ id = .root))
    (outside : TableId) {m : Machine} (houtline : m.world.scopes.outline = a.outline) :
    publishTurn outside stop (m, id) =
      match outcome (publishScope (a.packageOf id) outside stop id) m with
      | (.error halt, m') => .done (.error halt, m')
      | (.ok (), m') =>
        match a.parent? id with
        | some p => .goOn (m', p)
        | none => .done (.ok (), m') := by
  have hname := (Arena.SameTable.ofOutline houtline id).packageOf_eq
  have hkept := (IsRewriting.publishScope (a.packageOf id) outside stop id m).outline_eq
  simp only [publishTurn, if_neg hstop, hname]
  rcases hout : outcome (publishScope (a.packageOf id) outside stop id) m with ⟨r | ⟨⟩, m'⟩
  · rfl
  · rw [hout] at hkept
    simp only [Arena.parent?_congr (hkept.trans houtline) id]

/-- **The loop that writes variables back** ends as if the tables had been listed beforehand. -/
theorem publishTurn_ends {a : Arena} {id : TableId} {tables : List TableId} {steps : Nat}
    (h : a.Ascends (some id) tables) (hsteps : tables.length < steps) (outside stop : TableId)
    {m : Machine} (houtline : m.world.scopes.outline = a.outline) :
    Turn.Ends (publishTurn outside stop) (m, id) (outcome (do
      for table in a.lineage stop steps id do
        publishScope (a.packageOf table) outside stop table) m) := by
  generalize hcurrent : some id = current at h
  induction h generalizing id m steps with
  | top => cases hcurrent
  | gone hid =>
    obtain rfl := Option.some.inj hcurrent
    obtain ⟨n, rfl⟩ := Nat.exists_eq_add_one_of_ne_zero (Nat.ne_of_gt hsteps)
    by_cases hstop : id = stop ∨ id = .root
    · refine .now ?_
      simp only [publishTurn, Arena.lineage, if_pos hstop]
      rfl
    · have hparent : a.parent? id = none := by rw [Arena.parent?, hid]; rfl
      have hlist : a.lineage stop (n + 1) id = [id] := by
        simp only [Arena.lineage, if_neg hstop, hparent]
      refine .now ?_
      rw [hlist, outcome_for_cons, publishTurn_of_inner hstop outside houtline, hparent]
      rcases outcome (publishScope (a.packageOf id) outside stop id) m with ⟨r | ⟨⟩, m'⟩ <;> rfl
  | @up _ t tables hid above ih =>
    obtain rfl := Option.some.inj hcurrent
    obtain ⟨n, rfl⟩ := Nat.exists_eq_add_one_of_ne_zero (Nat.ne_of_gt (Nat.zero_lt_of_lt hsteps))
    by_cases hstop : id = stop ∨ id = .root
    · refine .now ?_
      simp only [publishTurn, Arena.lineage, if_pos hstop]
      rfl
    · have hparent := Arena.parent?_of_table? hid
      have hkept := (IsRewriting.publishScope (a.packageOf id) outside stop id m).outline_eq
      have hturn := publishTurn_of_inner hstop outside houtline
      rw [Arena.lineage, if_neg hstop, outcome_for_cons]
      rcases hout : outcome (publishScope (a.packageOf id) outside stop id) m with ⟨r | ⟨⟩, m'⟩
      · rw [hout] at hturn
        exact .now hturn
      · rw [hout] at hkept hturn
        cases hnext : t.parent with
        | none =>
          rw [hnext] at hparent
          rw [hparent] at hturn ⊢
          exact .now hturn
        | some p =>
          rw [hnext] at hparent
          rw [hparent] at hturn ⊢
          exact .later (m', p) hturn
            (ih (by simpa using hsteps) (hkept.trans houtline) hnext.symm)

/-- The loop that writes variables back does what `publishPackages` does. -/
theorem publishPackages_ends {a : Arena} {tables : List TableId} {m : Machine}
    (hscopes : m.world.scopes = a) (h : a.Ascends (some m.context.symbols) tables)
    (hlength : tables.length < a.places.size + 1) (stop : TableId) :
    Turn.Ends (publishTurn (a.nextScope m.context.symbols) stop) (m, m.context.symbols)
      (outcome (publishPackages stop) m) := by
  subst hscopes
  rw [publishPackages_eq, outcome_bind_ok (outcome_scopes m), outcome_bind_ok (outcome_context m)]
  exact publishTurn_ends h hlength _ stop rfl

/-- The loop that removes tables does what `dropScopesTo` does. -/
theorem dropScopesTo_ends {a : Arena} {tables : List TableId} {m : Machine}
    (hscopes : m.world.scopes = a) (h : a.Ascends (some m.context.symbols) tables)
    (hnodup : tables.Nodup) (hlength : tables.length < a.places.size + 1) (stop : TableId) :
    Turn.Ends (Arena.dropTurn stop) (a, m.context.symbols)
      (outcome (dropScopesTo stop) m).2.world.scopes := by
  subst hscopes
  obtain ⟨j, hdrop⟩ := outcome_dropScopesTo stop m
  rw [hdrop]
  exact Arena.dropTurn_ends h hnodup hlength (fun _ _ => rfl) fun _ hgone => hgone

end Exec

namespace Arena

namespace History

open Exec

/-- **Every walk through the scopes ends**, from every handle, live or stale, in every arena that was
used with handles that it gave: no live table is among the parents of its parents; lookups, and with
them reads, writes and addresses of names, find what their loop ends with; and so do the search for
the next scope and the two walks of a function that is left. -/
theorem walks_end {ops : List Operation} (hproper : Proper {} ops) (htame : (run {} ops).Tame) :
    (∀ id, ¬ Relation.TransGen (run {} ops).arena.LinksTo id id) ∧
    (∀ start name, ∃ found,
      Turn.Ends ((run {} ops).arena.resolveTurn name) (some start) found ∧
      (run {} ops).arena.get? start name =
        found >>= (fun (id, s) => (run {} ops).arena.table? id >>= (·.value? s.slot)) ∧
      ((run {} ops).arena.addressOf start name =
        match found with
        | some (id, s) => .ok ⟨id, s.slot⟩
        | none => .error (.about .unknownSymbol name)) ∧
      ∀ v, (run {} ops).arena.set start name v =
        match found with
        | some (id, s) =>
          if s.isProtected then .error (.about .readOnly name)
          else ((run {} ops).arena.update id (·.store name v)).map (id, ·)
        | none => ((run {} ops).arena.update start (·.store name v)).map (start, ·)) ∧
    (∀ start, Turn.Ends (run {} ops).arena.scopeTurn (some start)
      ((run {} ops).arena.nextScope start)) ∧
    ∀ (m : Machine) (stop : TableId), m.world.scopes = (run {} ops).arena →
      Turn.Ends (publishTurn (m.world.scopes.nextScope m.context.symbols) stop)
        (m, m.context.symbols) (outcome (publishPackages stop) m) ∧
      Turn.Ends (dropTurn stop) (m.world.scopes, m.context.symbols)
        (outcome (dropScopesTo stop) m).2.world.scopes := by
  have hacc := accounted_run accounted_initial hproper htame
  refine ⟨hacc.not_links_back, fun start name => ?_, hacc.scopeTurn_ends, fun m stop hscopes => ?_⟩
  · exact ⟨_, hacc.resolveTurn_ends start name, rfl, rfl, fun _ => rfl⟩
  · obtain ⟨tables, hascends, hnodup, hlength⟩ := hacc.ascends_within m.context.symbols
    rw [← hscopes] at hascends hlength
    exact ⟨publishPackages_ends rfl hascends hlength stop,
      dropScopesTo_ends rfl hascends hnodup hlength stop⟩

/-- Two places that seem to be each other's parents: a table takes the place that its grandparent
has left. -/
def crossed : List Operation :=
  [.newChild "a" .root false, .newChild "b" ⟨1, 0⟩ false, .remove ⟨1, 0⟩,
    .newChild "c" ⟨2, 0⟩ false]

/-- A machine in the innermost scope of these. -/
def crossedMachine : Machine :=
  { (default : Machine) with
    world := { scopes := (run {} crossed).arena }
    context := { (default : Context) with symbols := ⟨1, 1⟩ } }

theorem walks_end_of_crossed :
    Proper {} crossed ∧ (run {} crossed).Tame ∧
      ¬ Relation.TransGen (run {} crossed).arena.LinksTo ⟨1, 1⟩ ⟨1, 1⟩ ∧
      (run {} crossed).arena.get? ⟨1, 1⟩ "x" = none ∧
      Turn.Ends (run {} crossed).arena.scopeTurn (some ⟨1, 1⟩) .root ∧
      Turn.Ends (dropTurn .root) (crossedMachine.world.scopes, ⟨1, 1⟩)
        (outcome (dropScopesTo .root) crossedMachine).2.world.scopes := by
  have hproper : Proper {} crossed := by decide
  have htame : (run {} crossed).Tame := tame_of_length (by decide)
  obtain ⟨hcycle, -, hscope, hleave⟩ := walks_end hproper htame
  exact ⟨hproper, htame, hcycle _, rfl, hscope ⟨1, 1⟩, (hleave crossedMachine .root rfl).2⟩

end History

end Arena

end ScriptMachine
