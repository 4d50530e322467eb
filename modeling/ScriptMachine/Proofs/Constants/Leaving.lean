import Mathlib.Logic.Relation
import ScriptMachine.Proofs.Constants.Calling
import ScriptMachine.Proofs.Faults.Failing
import ScriptMachine.Proofs.Frames.Outward
import ScriptMachine.Proofs.Packages.Members

/-!
# Constants and returns

When a function of a package is left, the variables of the scope around it are written into the
table with the symbols of the package, whatever their protection. What stands under the name of a
constant there may be a variable, once the function has assigned to its copy.

* `World.Feeds`: variables of one table are written into another one.
* `World.Lends`: a table has a variable with the name of a constant, and variables are written from
  there, perhaps by way of others, into the table of the constant.
* `World.Recedes`: the world while functions are left; constants stay bound that nothing lends to.
* `Exec.Receding`: an action leads on like this, with one lemma for each part of leaving functions
  and dealing with faults.
-/

namespace ScriptMachine

namespace World

/-- The source is the scope of a package, some name of the package leads to a package object, and
this has the target as its table: the variables of the source are written into the target. -/
def Feeds (w : World) (source target : TableId) : Prop :=
  w.scopes.packageOf source ≠ "" ∧ ∃ id v r,
    w.scopes.getLocal? id (w.scopes.packageOf source) = some v ∧ v.unwrapped = .package r ∧
      (w.heap.package r).symbols = some target

/-- A table has a variable with the name of a constant, and what it has is written into the table of
the constant when functions are left. -/
def Lends (w : World) (k : Constant) : Prop :=
  ∃ source v, w.scopes.getLocal? source k.name = some v ∧ isVariable k.name v = true ∧
    Relation.TransGen w.Feeds source k.address.table

/-- The world while functions are left, and before: no scope of a package, no name of a package and
no table of one is new, and nothing lends to the constants. -/
structure Recedes (K : Set Constant) (before w : World) : Prop where
  fixes : w.scopes.Fixes K
  label : ∀ id, w.scopes.packageOf id ≠ "" → w.scopes.packageOf id = before.scopes.packageOf id
  named : ∀ id name v r, w.scopes.getLocal? id name = some v → v.unwrapped = .package r →
    ∃ id' v', before.scopes.getLocal? id' name = some v' ∧ v'.unwrapped = .package r
  hidden : ∀ r, (w.heap.package r).symbols = (before.heap.package r).symbols
  apart : ∀ k ∈ K, ∀ source v, w.scopes.getLocal? source k.name = some v →
    isVariable k.name v = true → ¬ Relation.TransGen before.Feeds source k.address.table

namespace Recedes

variable {K : Set Constant} {before w : World}

theorem start (hfixes : before.scopes.Fixes K) (happart : ∀ k ∈ K, ¬ before.Lends k) :
    before.Recedes K before where
  fixes := hfixes
  label _ _ := rfl
  named id _ v _ hv hr := ⟨id, v, hv, hr⟩
  hidden _ := rfl
  apart k hk source v hv hvariable hfeeds := happart k hk ⟨source, v, hv, hvariable, hfeeds⟩

/-- What else changes does not matter. -/
theorem congr (h : before.Recedes K w) {w' : World} (hscopes : w'.scopes = w.scopes)
    (hhidden : ∀ r, (w'.heap.package r).symbols = (w.heap.package r).symbols) :
    before.Recedes K w' where
  fixes := hscopes ▸ h.fixes
  label := hscopes ▸ h.label
  named := hscopes ▸ h.named
  hidden r := (hhidden r).trans (h.hidden r)
  apart := hscopes ▸ h.apart

/-- A value that a name may have: a package that had the name before, or none, and no variable that
could be lent to a constant. -/
structure Allows (K : Set Constant) (before : World) (table : TableId) (name : String)
    (v : Value) : Prop where
  miss : ∀ k ∈ K, table = k.address.table → name ≠ k.name
  named : ∀ r, v.unwrapped = .package r →
    ∃ id' v', before.scopes.getLocal? id' name = some v' ∧ v'.unwrapped = .package r
  apart : ∀ k ∈ K, name = k.name → isVariable name v = true →
    ¬ Relation.TransGen before.Feeds table k.address.table

theorem setAlways (h : before.Recedes K w) {table : TableId} {name : String} {v : Value} {a : Arena}
    (hset : w.scopes.setAlways table name v = .ok a) (hallows : Allows K before table name v) :
    before.Recedes K { w with scopes := a } := by
  have hlocal := fun x other => Arena.getLocal?_setAlways hset x other
  have hlabel : ∀ id, a.packageOf id = w.scopes.packageOf id := fun id =>
    (Arena.SameTable.ofOutline (Arena.outline_of_setAlways hset) id).packageOf_eq
  refine ⟨h.fixes.write (w := .setAlways table name v)
    (fun k hk hits => hallows.miss k hk hits.1 hits.2) hset, fun id hid => ?_, fun id other u r hu hr => ?_,
    h.hidden, fun k hk source u hu hvariable => ?_⟩
  · rw [hlabel] at hid ⊢
    exact h.label id hid
  · rw [hlocal] at hu
    split at hu
    · rename_i hboth
      cases hu
      rw [hboth.2]
      exact hallows.named r hr
    · exact h.named id other u r hu hr
  · rw [hlocal] at hu
    split at hu
    · rename_i hboth
      cases hu
      rw [hboth.1]
      exact hallows.apart k hk hboth.2.symm (hboth.2 ▸ hvariable)
    · exact h.apart k hk source u hu hvariable

theorem remove (h : before.Recedes K w) (id : TableId) :
    before.Recedes K { w with scopes := w.scopes.remove id } := by
  have hlocal : ∀ {x name v}, (w.scopes.remove id).getLocal? x name = some v →
      w.scopes.getLocal? x name = some v := by
    intro x name v hv
    obtain ⟨t, ht, -⟩ := Option.bind_eq_some_iff.1 hv
    rw [← hv, Arena.getLocal?_remove (Arena.contains_iff.2 ⟨t, ht⟩)]
  have hlabel : ∀ x, (w.scopes.remove id).packageOf x ≠ "" →
      (w.scopes.remove id).packageOf x = w.scopes.packageOf x := by
    intro x hx
    by_cases hroot : id = .root
    · rw [hroot, Arena.remove_root]
    · unfold Arena.packageOf at hx ⊢
      rw [Arena.table?_remove hroot] at hx ⊢
      split
      · rename_i heq
        rw [if_pos heq] at hx
        exact absurd rfl hx
      · rfl
  refine ⟨h.fixes.remove id, fun x hx => ?_, fun x name v r hv => h.named x name v r (hlocal hv),
    h.hidden, fun k hk source v hv => h.apart k hk source v (hlocal hv)⟩
  have hsame := hlabel x hx
  exact hsame.trans (h.label x (hsame ▸ hx))

end Recedes

end World

/-- What a name reads, some table has under this name. -/
theorem Arena.exists_getLocal? {a : Arena} {start : TableId} {name : String} {v : Value}
    (h : a.get? start name = some v) : ∃ id, a.getLocal? id name = some v := by
  obtain ⟨⟨id, s⟩, hfound, hvalue⟩ := Option.bind_eq_some_iff.1 h
  obtain ⟨⟨t, ht, hs⟩, -⟩ := resolve_eq_some hfound
  obtain ⟨u, hu, hslot⟩ := Option.bind_eq_some_iff.1 hvalue
  cases ht.symm.trans hu
  exact ⟨id, Option.bind_eq_some_iff.2 ⟨t, ht, Option.bind_eq_some_iff.2 ⟨s, hs, hslot⟩⟩⟩

/-- A name by which a package is found leads to the package in some table. -/
theorem World.named_of_packageAt? {w : World} {name : String} {first second : TableId}
    {r : Ref .package} (h : w.packageAt? name first second = some r) :
    ∃ id v, w.scopes.getLocal? id name = some v ∧ v.unwrapped = .package r := by
  unfold World.packageAt? at h
  split at h
  · rename_i r' hfound
    cases h
    obtain ⟨v, hv, hpackage⟩ := Option.map_eq_some_iff.1 hfound
    cases hfirst : w.scopes.get? first name with
    | none =>
      rw [hfirst] at hv
      obtain ⟨id, hid⟩ := Arena.exists_getLocal? hv
      exact ⟨id, v, hid, hpackage⟩
    | some u =>
      rw [hfirst] at hv
      cases hv
      obtain ⟨id, hid⟩ := Arena.exists_getLocal? hfirst
      exact ⟨id, _, hid, hpackage⟩
  · cases h

/-- An action leads from a world in which functions are left on to such a world, and its result
satisfies `P`. -/
abbrev Exec.Receding {α : Type} (K : Set Constant) (before : World) (act : Exec α) (P : α → Prop) :
    Prop := ScriptMachine.Upholds (fun m => before.Recedes K m.world) act P

namespace Exec.Receding

variable {K : Set Constant} {before : World} {α : Type} {P : α → Prop}

/-! ### Primitive actions -/

theorem fail (f : Fault) : Receding K before (Exec.fail f : Exec α) P := .throw _

theorem scopes : Receding K before Exec.scopes fun a =>
    ∃ w, before.Recedes K w ∧ w.scopes = a := .bind .get fun m hm => .pure ⟨m.world, hm, rfl⟩

theorem heap : Receding K before Exec.heap fun h =>
    ∀ r, (h.package r).symbols = (before.heap.package r).symbols :=
  .bind .get fun _ hm => .pure hm.hidden

theorem context : Receding K before Exec.context fun _ => True :=
  .bind .get fun _ _ => .pure trivial

theorem change (f : Machine → Machine) (h : ∀ m, (f m).world = m.world) :
    Receding K before (modify f) fun _ => True := .write fun m hm => h m ▸ hm

theorem modifyContext (f : Context → Context) :
    Receding K before (Exec.modifyContext f) fun _ => True := change _ fun _ => rfl

/-- Actions that change neither the scopes nor the packages. -/
theorem aside {act : WorldM α} (hscopes : ∀ w, (act.run w).2.scopes = w.scopes)
    (hpackages : ∀ w, (act.run w).2.heap.packages = w.heap.packages) :
    Receding K before (Exec.onWorld act) fun _ => True := by
  refine fun m hm => ⟨hm.congr (hscopes m.world) fun r => ?_, .any _⟩
  show (((act.run m.world).2.heap.packages)[r.id]?.getD _).symbols = _
  rw [hpackages]
  rfl

theorem note (c : Category) (message : Unit → String) :
    Receding K before (Exec.note c message) fun _ => True := aside (fun _ => rfl) fun _ => rfl

theorem noteThread (c : Category) (message : Unit → String) :
    Receding K before (Exec.noteThread c message) fun _ => True :=
  .bind .get fun _ _ => .ite (note c _) (.pure trivial)

theorem observe (x : Happening) : Receding K before (Exec.observe x) fun _ => True := by
  refine .bind .get fun m _ => ?_
  dsimp only
  split
  · split
    · exact .bind (note _ _) fun _ _ => modifyContext _
    · exact modifyContext _
  · exact modifyContext _

theorem storeIn {table : TableId} {name : String} {v : Value}
    (h : World.Recedes.Allows K before table name v) :
    Receding K before (Exec.storeIn table name v) fun _ => True := by
  intro m hm
  refine ⟨?_, .any _⟩
  show before.Recedes K (outcome (Exec.storeIn table name v) m).2.world
  rw [outcome_storeIn]
  cases hset : m.world.scopes.setAlways table name v with
  | error f => exact hm
  | ok a => exact hm.setAlways hset h

theorem remove (id : TableId) : Receding K before (Exec.onWorld (World.remove id)) fun _ => True := by
  intro m hm
  obtain ⟨journal, hrun⟩ := World.run_remove id m.world
  refine ⟨?_, .any _⟩
  show before.Recedes K ((World.remove id).run m.world).2
  rw [hrun]
  exact (hm.remove id).congr rfl fun _ => rfl

/-! ### Loops and tables -/

theorem endLoops (count : Nat) : Receding K before (Exec.endLoops count) fun _ => True := by
  have hrelease : ∀ l : Loop, Receding K before (Exec.release l) fun _ => True := by
    intro l
    unfold Exec.release
    split
    · exact aside (fun _ => rfl) fun _ => rfl
    · exact aside (fun _ => rfl) fun _ => rfl
    · exact .pure trivial
    · exact .pure trivial
  induction count with
  | zero => exact .pure trivial
  | succ count ih =>
    refine .bind context fun c _ => ?_
    split
    · exact .pure trivial
    · exact .bind (modifyContext _) fun _ _ => .bind (hrelease _) fun _ _ => ih

theorem endLoopsTo (depth : Nat) : Receding K before (Exec.endLoopsTo depth) fun _ => True :=
  .bind context fun _ _ => endLoops _

theorem dropScopesTo (target : TableId) :
    Receding K before (Exec.dropScopesTo target) fun _ => True :=
  .bind scopes fun _ _ => .bind context fun _ _ =>
    .bind (.forIn fun table _ => .bind (remove table) fun _ _ => .pure trivial) fun _ _ =>
    modifyContext _

/-! ### Variables of packages -/

/-- A variable of a source is written into a table that the source feeds. -/
theorem publishVariable (scope : String) {package : Ref .package} (source : TableId)
    {name : String} {v : Value}
    (hfeeds : ∀ target, (before.heap.package package).symbols = some target →
      before.Feeds source target)
    (hnamed : ∀ r, v.unwrapped = .package r →
      ∃ id' v', before.scopes.getLocal? id' name = some v' ∧ v'.unwrapped = .package r)
    (hapart : ∀ k ∈ K, name = k.name →
      ¬ Relation.TransGen before.Feeds source k.address.table) :
    Receding K before (Exec.publishVariable scope package name v) fun _ => True := by
  have hitem : Receding K before (do
      Exec.onHeap (Heap.putPackage package (((← Exec.heap).package package).set name v)))
      fun _ => True := by
    refine fun m hm => ⟨hm.congr rfl fun r => ?_, .any _⟩
    exact Heap.symbols_putPackage m.world.heap package r rfl
  refine .bind (note _ _) fun _ _ => .bind heap fun h hh => ?_
  dsimp only
  split
  · rename_i target htarget
    have hfed := hfeeds target ((hh package).symm.trans htarget)
    refine .bind (storeIn ⟨fun k hk htable hname => ?_, hnamed, fun k hk hname _ htarget => ?_⟩)
      fun _ _ => hitem
    · exact hapart k hk hname (.single (htable ▸ hfed))
    · exact hapart k hk hname (.head hfed htarget)
  · exact hitem

theorem findPackage (name : String) (first second : TableId) :
    Receding K before (Exec.findPackage name first second) fun found => ∀ r, found = some r →
      ∃ id v, before.scopes.getLocal? id name = some v ∧ v.unwrapped = .package r := by
  intro m hm
  have hout := outcome_findPackage name first second m
  refine ⟨?_, fun found hfound r hr => ?_⟩
  · show before.Recedes K (outcome (Exec.findPackage name first second) m).2.world
    rw [hout]
    exact hm
  · change (outcome (Exec.findPackage name first second) m).1 = .ok found at hfound
    rw [hout] at hfound
    cases hfound
    obtain ⟨id, v, hv, hpackage⟩ := World.named_of_packageAt? hr
    exact hm.named id name v r hv hpackage

/-- The variables of the scope of a package are written into tables that the scope feeds. -/
theorem publishScope {source : TableId} {name : String}
    (hlabel : name ≠ "" → before.scopes.packageOf source = name) (outside stop : TableId) :
    Receding K before (Exec.publishScope name outside stop source) fun _ => True := by
  unfold Exec.publishScope
  split
  · rename_i hname
    refine .bind (findPackage _ _ _) fun found hfound => ?_
    split
    · rename_i package
      obtain ⟨id, v, hv, hpackage⟩ := hfound package rfl
      have hsource := hlabel hname
      refine .bind scopes fun a ⟨w, hw, ha⟩ => .bind (.forIn fun p hp => ?_) fun _ _ => .pure trivial
      obtain ⟨symbol, u⟩ := p
      rw [← ha, Arena.mem_localSymbols_iff] at hp
      dsimp only
      split
      · rename_i hvariable
        refine .bind (publishVariable _ source (fun target htarget => ?_)
          (fun r hr => hw.named source symbol u r hp hr) fun k hk hname => ?_) fun _ _ => .pure trivial
        · exact ⟨hsource ▸ hname, id, v, package, hsource ▸ hv, hpackage, htarget⟩
        · exact hw.apart k hk source u (hname ▸ hp) (hname ▸ hvariable)
      · exact .pure trivial
    · exact .pure trivial
  · exact .pure trivial

/-- **What is written back** when a function is left reaches no constant that nothing lends to. -/
theorem publishPackages (stop : TableId) :
    Receding K before (Exec.publishPackages stop) fun _ => True := by
  rw [publishPackages_eq]
  refine .bind scopes fun a ⟨w, hw, ha⟩ => .bind context fun c _ =>
    .bind (.forIn fun table _ => ?_) fun _ _ => .pure trivial
  refine .bind (publishScope (fun hname => ?_) _ _) fun _ _ => .pure trivial
  rw [← ha] at hname ⊢
  exact (hw.label table hname).symm

/-! ### Frames -/

variable (hfree : ∀ k ∈ K, ¬ IsReserved k.name)

theorem takeFrame : Receding K before Exec.takeFrame fun _ => True := by
  refine .bind context fun c _ => .ite (fail _) ?_
  refine .bind (modifyContext _) fun _ _ => ?_
  split
  · exact .pure trivial
  · exact fail _

include hfree

/-- A reserved name, with a value that is no package. -/
theorem storeReserved (table : TableId) {name : String} (hname : IsReserved name) {v : Value}
    (hv : ∀ r, v.unwrapped ≠ .package r) :
    Receding K before (Exec.storeIn table name v) fun _ => True :=
  storeIn ⟨fun k hk _ => Fixing.ne_of_reserved hfree hname k hk, fun r hr => absurd hr (hv r),
    fun k hk heq => absurd heq (Fixing.ne_of_reserved hfree hname k hk)⟩

theorem restoreFrame : Receding K before Exec.restoreFrame fun _ => True :=
  .bind takeFrame fun f _ => .bind (publishPackages _) fun _ _ => .bind (dropScopesTo _) fun _ _ =>
    .bind (endLoopsTo _) fun _ _ => .bind (modifyContext _) fun _ _ =>
    .bind (storeReserved hfree .root (.inl (by simp)) nofun) fun _ _ =>
    .bind (modifyContext _) fun _ _ => .bind context fun _ _ => .bind (observe _) fun _ _ =>
    .bind context fun _ _ => noteThread _ _

theorem unwindFrame : Receding K before Exec.unwindFrame fun _ => True :=
  .bind (modifyContext _) fun _ _ => restoreFrame hfree

theorem popFrame : Receding K before Exec.popFrame fun _ => True := by
  refine .bind context fun c _ => .ite (fail _) ?_
  refine .bind (modifyContext _) fun _ _ => .bind (restoreFrame hfree) fun _ _ =>
    .ite ?_ (modifyContext _)
  split
  · exact modifyContext _
  · exact .pure trivial

theorem unwindTo (fp fuel : Nat) : Receding K before (Exec.unwindTo fp fuel) fun _ => True := by
  induction fuel with
  | zero => exact .pure trivial
  | succ fuel ih =>
    exact .bind context fun _ _ => .ite (.bind (unwindFrame hfree) fun _ _ => ih) (.pure trivial)

/-! ### Faults -/

theorem catchAt (handler : Handler) (outer : List Handler) (f : Fault) :
    Receding K before (Exec.catchAt handler outer f) fun _ => True :=
  .bind context fun _ _ => .bind (unwindTo hfree _ _) fun _ _ => .bind (modifyContext _) fun _ _ =>
    .bind (dropScopesTo _) fun _ _ => .bind (modifyContext _) fun _ _ =>
    .bind (endLoopsTo _) fun _ _ => .bind (modifyContext _) fun _ _ => .bind context fun _ _ =>
    .bind (observe _) fun _ _ => .bind context fun _ _ =>
    storeReserved hfree _ (.inl (by simp)) nofun

theorem abandon (f : Fault) : Receding K before (Exec.abandon f) fun _ => True := by
  have hleave : ∀ fuel, Receding K before (do
      tryCatch (Exec.unwindTo 0 fuel) fun _ => return
      Exec.modifyContext fun c => { c with running := false }
      Exec.fail f : Exec Unit) fun _ => True := fun fuel =>
    .bind (.tryCatch (unwindTo hfree 0 fuel) fun _ => .pure trivial) fun _ _ =>
      .bind (modifyContext _) fun _ _ => fail f
  exact .bind context fun c _ => .ite
    (.bind (aside (fun _ => rfl) fun _ => rfl) fun _ _ => hleave _) (hleave _)

theorem recover (f : Fault) : Receding K before (Exec.recover f) fun _ => True := by
  refine .ite (fail _) (.bind context fun c _ => ?_)
  dsimp only
  split
  · exact catchAt hfree _ _ _
  · exact abandon hfree _

omit hfree in
theorem finish : Receding K before Exec.finish fun _ => True :=
  .bind (modifyContext _) fun _ _ => .bind context fun _ _ => .bind (note _ _) fun _ _ =>
    change _ fun _ => rfl

/-- **Dealing with a fault** keeps constants bound that nothing lends to. -/
theorem settle (f : Fault) : Receding K before (Exec.settle f) fun _ => True := by
  refine .ite finish (.tryCatch (recover hfree f) fun halt => ?_)
  cases halt with
  | fault g => exact change _ fun _ => rfl
  | blocked => exact .throw _

end Exec.Receding

/-! ### Within a function -/

/-- The scopes of a machine bind constants, as long as their tables are live. -/
def Machine.Binding (K : Set Constant) (m : Machine) : Prop := m.world.scopes.Fixes K

namespace Exec.Binding

variable {K : Set Constant} {α : Type} {m : Machine}

/-- Actions that leave the scopes alone. -/
theorem aside {act : Exec α} (h : KeepsScopes act) :
    ScriptMachine.Upholds (Machine.Binding K) act fun _ => True := fun m hm =>
  ⟨(congrArg (Arena.Fixes K) (h m)).mpr hm, .any _⟩

theorem remove (id : TableId) :
    ScriptMachine.Upholds (Machine.Binding K) (Exec.onWorld (World.remove id)) fun _ => True := by
  intro m hm
  obtain ⟨journal, hrun⟩ := World.run_remove id m.world
  refine ⟨?_, .any _⟩
  show ((World.remove id).run m.world).2.scopes.Fixes K
  rw [hrun]
  exact hm.remove id

theorem write (w : Arena.Write) (hmiss : ∀ k ∈ K, ¬ w.Hits k) :
    ScriptMachine.Upholds (Machine.Binding K) (do
    Exec.setScopes (← (← Exec.scopes).write w)) fun _ => True :=
  .bind (P := Arena.Fixes K) (.bind .get fun _ hm => .pure hm) fun _ ha =>
    .bind (Fixing.check _) fun _ hb => .write fun _ _ => ha.write hmiss hb

theorem dropScopesTo (target : TableId) :
    ScriptMachine.Upholds (Machine.Binding K) (Exec.dropScopesTo target) fun _ => True :=
  .bind (aside Keeps.scopes) fun _ _ => .bind (aside Keeps.context) fun _ _ =>
    .bind (.forIn fun table _ => .bind (remove table) fun _ _ => .pure trivial) fun _ _ =>
    aside (.modifyContext _)

theorem popScope : ScriptMachine.Upholds (Machine.Binding K) Exec.popScope fun _ => True := by
  refine .bind (aside Keeps.context) fun c _ => .bind (aside Keeps.scopes) fun a _ => ?_
  split
  · exact .throw _
  · exact .bind (remove _) fun _ _ => .bind (aside Keeps.scopes) fun _ _ =>
      .bind (aside (.quiet (.noteThread _ _))) fun _ _ => aside (.modifyContext _)

/-- A fault that is caught in the running function leaves none. -/
theorem catchAt (hfree : ∀ k ∈ K, ¬ IsReserved k.name) (hm : m.Binding K) {handler : Handler}
    (hfp : m.context.fp ≤ handler.fp) (outer : List Handler) (f : Fault) :
    (outcome (Exec.catchAt handler outer f) m).2.Binding K := by
  have hstays : outcome (Exec.unwindTo handler.fp (m.context.stack.size + 1)) m = (.ok (), m) := by
    rw [Exec.unwindTo, outcome_bind_ok (outcome_context m), if_neg (Nat.not_lt.2 hfp)]
    rfl
  unfold Exec.catchAt
  rw [outcome_bind_ok (outcome_context m), outcome_bind_ok hstays]
  have hrest : ScriptMachine.Upholds (Machine.Binding K) (do
      Exec.modifyContext fun c => { c with handlers := handler :: outer }
      Exec.dropScopesTo handler.symbols
      Exec.modifyContext fun c => { c with stack := c.stack.extract 0 handler.stackSize }
      Exec.endLoopsTo handler.loopDepth
      Exec.modifyContext fun c =>
        { c with
          pc := handler.address.getD c.pc
          handlers := { handler with address := none } :: outer }
      Exec.observe (.caught f.kind (← Exec.context).frameDepth)
      Exec.storeHere "_error" (.error f)) fun _ => True :=
    .bind (aside (.modifyContext _)) fun _ _ => .bind (dropScopesTo _) fun _ _ =>
      .bind (aside (.modifyContext _)) fun _ _ =>
      .bind (aside (.endLoopsTo _)) fun _ _ =>
      .bind (aside (.modifyContext _)) fun _ _ => .bind (aside Keeps.context) fun _ _ =>
      .bind (aside (.observe _)) fun _ _ => .bind (aside Keeps.context) fun c _ =>
      write (.setAlways c.symbols "_error" (.error f)) fun k hk hits =>
        Fixing.ne_of_reserved hfree (.inl (by simp)) k hk hits.2
  exact (hrest m hm).1

end Exec.Binding

/-- The running function is left for a fault: it is not taken there. -/
def Machine.GivesUp (m : Machine) (f : Fault) : Prop :=
  ∀ handler outer, m.context.catcher? f = some (handler, outer) → handler.fp < m.context.fp

/-- **Dealing with a fault** keeps constants bound that nothing lends to when functions are left. -/
theorem Exec.settle_binding {K : Set Constant} {m : Machine} (hfree : ∀ k ∈ K, ¬ IsReserved k.name)
    (hm : m.Binding K) (f : Fault) (happart : m.GivesUp f → ∀ k ∈ K, ¬ m.world.Lends k) :
    (outcome (settle f) m).2.Binding K := by
  by_cases hleaves : m.GivesUp f
  · exact (Receding.settle hfree f m (.start hm (happart hleaves))).1.fixes
  · unfold Machine.GivesUp at hleaves
    push Not at hleaves
    obtain ⟨handler, outer, hcatcher, hfp⟩ := hleaves
    have hcaught := Binding.catchAt hfree hm hfp outer (f.raisedAt m.context.code.name m.context.line)
    by_cases hstop : f.kind = .stop
    · unfold settle
      rw [if_pos hstop]
      exact hm
    · have hsignal := (Context.catcher?_eq_some_iff.1 hcatcher).1
      rw [outcome_settle hstop, outcome_recover, if_neg (by simp [hsignal]), hcatcher]
      dsimp only
      rcases hout : outcome (catchAt handler outer (f.raisedAt m.context.code.name m.context.line)) m
        with ⟨(g | _) | u, m'⟩ <;> rw [hout] at hcaught <;> exact hcaught

end ScriptMachine
