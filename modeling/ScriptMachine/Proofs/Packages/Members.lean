import ScriptMachine.Machine.Members
import ScriptMachine.Proofs.Frames.Unwinding

/-!
# What members of packages read

A function of a package works on copies of the package's variables. When functions are left, the
copies are written back, into the package that is then found under the name of their scope.

* `World.memberValue?`: what a package has under a name; `packageMember_of_variable`.
* `World.Publishes`: variables were written back into the packages that a return reaches.
* `World.Reaches`: a return finds a package under the name of a scope.
* `outcome_publishPackages_eq`: what is written back when a function is left.
-/

namespace ScriptMachine

/-! ### Reading members -/

/-- What a package has under a name: in its hidden table, if the name is exported, or else among its
items. -/
def World.memberValue? (w : World) (r : Ref .package) (name : String) : Option Value :=
  (if isExported name then w.hiddenValue? r name else none).or ((w.heap.package r).get? name)

/-- What matters is the package and its hidden table. -/
theorem World.memberValue?_congr {w w' : World} {r : Ref .package} {name : String}
    (hpackage : w'.heap.package r = w.heap.package r)
    (htable : ∀ t, (w.heap.package r).symbols = some t →
      w'.scopes.getLocal? t name = w.scopes.getLocal? t name) :
    w'.memberValue? r name = w.memberValue? r name := by
  have hhidden : w'.hiddenValue? r name = w.hiddenValue? r name := by
    unfold hiddenValue?
    rw [hpackage]
    cases ht : (w.heap.package r).symbols with
    | none => rfl
    | some t => exact htable t ht
  unfold memberValue?
  rw [hhidden, hpackage]

theorem packageMember_eq (w : World) (r : Ref .package) (name : String) :
    packageMember w r name = match w.memberValue? r name with
      | none => .error (.about .unknownPackageMember name)
      | some member =>
        match member.unwrapped with
        | .code code => .ok (.member r code)
        | v => .ok v := by
  have hor : w.memberValue? r name
      = (if isExported name then w.hiddenValue? r name else none).orElse fun _ =>
          (w.heap.package r).get? name := Option.or_eq_orElse
  rw [hor, packageMember]
  congr

/-- A variable is read as it is. -/
theorem packageMember_of_variable {w : World} {r : Ref .package} {name : String} {v : Value}
    (h : w.memberValue? r name = some v) (hvariable : isVariable name v = true) :
    packageMember w r name = .ok v := by
  rw [packageMember_eq, h]
  unfold isVariable at hvariable
  cases v with
  | code code => simp at hvariable
  | constant v => simp at hvariable
  | _ => rfl

/-! ### Writing variables back -/

/-- A package is another one, or has the same hidden table. -/
def Heap.SharesVariables (h : Heap) (q r : Ref .package) : Prop :=
  q = r ∨ ∃ t, (h.package q).symbols = some t ∧ (h.package r).symbols = some t

/-- The package bound to a name, seen from one of two scopes. -/
def World.packageAt? (w : World) (name : String) (first second : TableId) :
    Option (Ref .package) :=
  match ((w.scopes.get? first name).orElse fun _ => w.scopes.get? second name).map
      Value.unwrapped with
  | some (.package r) => some r
  | _ => none

/-- A return from a scope under the name of a package finds the package by that name, or one that
shares its variables, from outside the function or from the caller. -/
def World.Reaches (w : World) (name : String) (outside caller : TableId) (r : Ref .package) :
    Prop :=
  name ≠ "" ∧ ∃ q, w.packageAt? name outside caller = some q ∧ w.heap.SharesVariables q r

/-- Some variables were written back into the packages of a kind; nothing else has changed that
members read. -/
structure World.Publishes (w w' : World) (reaches : Ref .package → Prop)
    (bindings : List (String × Value)) : Prop where
  size_eq : w'.heap.packages.size = w.heap.packages.size
  symbols_eq : ∀ r, (w'.heap.package r).symbols = (w.heap.package r).symbols
  outline_eq : w'.scopes.outline = w.scopes.outline
  written : ∀ r name v, (name, v) ∈ bindings → isVariable name v = true → reaches r →
    r.id < w.heap.packages.size → w'.memberValue? r name = some v
  others : ∀ r name, isExported name = true →
    (∀ v, (name, v) ∈ bindings → isVariable name v = true → ¬reaches r) →
    w'.memberValue? r name = w.memberValue? r name

namespace World.Publishes

variable {w w₁ w₂ : World} {reaches : Ref .package → Prop} {bindings : List (String × Value)}

theorem refl (w : World) (reaches : Ref .package → Prop) : w.Publishes w reaches [] where
  size_eq := rfl
  symbols_eq _ := rfl
  outline_eq := rfl
  written _ _ _ hmem := absurd hmem List.not_mem_nil
  others _ _ _ _ := rfl

/-- Nothing was written, since no package is reached or there are no variables. -/
theorem ofNone (hnone : ∀ r name v, (name, v) ∈ bindings → isVariable name v = true → ¬reaches r) :
    w.Publishes w reaches bindings where
  size_eq := rfl
  symbols_eq _ := rfl
  outline_eq := rfl
  written r name v hmem hvariable hreaches := absurd hreaches (hnone r name v hmem hvariable)
  others _ _ _ _ := rfl

/-- First one variable is written, and then others. -/
theorem cons {p : String × Value} (h₁ : w.Publishes w₁ reaches [p])
    (h₂ : w₁.Publishes w₂ reaches bindings) (hnew : p.1 ∉ bindings.map (·.1)) :
    w.Publishes w₂ reaches (p :: bindings) where
  size_eq := h₂.size_eq.trans h₁.size_eq
  symbols_eq r := (h₂.symbols_eq r).trans (h₁.symbols_eq r)
  outline_eq := h₂.outline_eq.trans h₁.outline_eq
  written r name v hmem hvariable hreaches hsize := by
    rcases List.mem_cons.1 hmem with rfl | hmem
    · have hexported : isExported name = true := (Bool.and_eq_true_iff.1 hvariable).1
      rw [h₂.others r name hexported fun u hu => absurd (List.mem_map_of_mem hu) hnew]
      exact h₁.written r name v (List.mem_singleton.2 rfl) hvariable hreaches hsize
    · exact h₂.written r name v hmem hvariable hreaches (h₁.size_eq ▸ hsize)
  others r name hexported hnone := by
    rw [h₂.others r name hexported fun v hmem => hnone v (List.mem_cons_of_mem _ hmem)]
    exact h₁.others r name hexported fun v hmem =>
      hnone v (List.mem_singleton.1 hmem ▸ List.mem_cons_self)

theorem congr {reaches' : Ref .package → Prop} (h : w.Publishes w₁ reaches bindings)
    (hsame : ∀ r, reaches r ↔ reaches' r) : w.Publishes w₁ reaches' bindings := by
  rwa [← funext fun r => propext (hsame r)]

theorem hiddenLive (h : w.Publishes w₁ reaches bindings) (hlive : w.HiddenLive) :
    w₁.HiddenLive := by
  intro r t ht
  rw [h.symbols_eq] at ht
  rw [Arena.contains_congr h.outline_eq]
  exact hlive r t ht

end World.Publishes

/-- A package that was put in its place is found there; all others are as they were. -/
theorem Heap.package_putPackage (h : Heap) (q r : Ref .package) (p : PackageObject) :
    ((Heap.putPackage q p).run h).2.package r
      = if q = r ∧ q.id < h.packages.size then p else h.package r := by
  show ((h.packages.setIfInBounds q.id p)[r.id]?).getD { name := "" } = _
  rw [Array.getElem?_setIfInBounds]
  by_cases hqr : q.id = r.id
  · have heq : q = r := by
      cases q
      cases r
      exact congrArg _ hqr
    subst heq
    rw [if_pos rfl]
    by_cases hsize : q.id < h.packages.size
    · rw [if_pos hsize, if_pos ⟨rfl, hsize⟩]
      rfl
    · rw [if_neg hsize, if_neg fun hboth => hsize hboth.2]
      unfold package
      rw [Array.getElem?_eq_none (Nat.le_of_not_lt hsize)]
  · rw [if_neg hqr, if_neg fun hboth => hqr (congrArg Ref.id hboth.1)]
    rfl

/-- A variable is written to a package: to its hidden table, if it has one, and to its items. -/
theorem World.Publishes.ofVariable {w : World} (q : Ref .package) {name : String} {v : Value}
    (hvariable : isVariable name v = true) {scopes : Arena} (journal : Journal)
    (hscopes : (∃ t, (w.heap.package q).symbols = some t ∧
        w.scopes.setAlways t name v = .ok scopes) ∨
      (w.heap.package q).symbols = none ∧ scopes = w.scopes) :
    w.Publishes { w with
      scopes
      heap := ((Heap.putPackage q ((w.heap.package q).set name v)).run w.heap).2
      journal } (w.heap.SharesVariables q) [(name, v)] := by
  have hpackage := fun r => Heap.package_putPackage w.heap q r ((w.heap.package q).set name v)
  have hsymbols : ∀ r, (((Heap.putPackage q ((w.heap.package q).set name v)).run w.heap).2.package
      r).symbols = (w.heap.package r).symbols :=
    fun r => Heap.symbols_putPackage w.heap q r rfl
  have hexported : isExported name = true := (Bool.and_eq_true_iff.1 hvariable).1
  refine ⟨Array.size_setIfInBounds, hsymbols, ?_, fun r other u hmem _ hshares hsize => ?_,
    fun r other hother hnone => ?_⟩
  · rcases hscopes with ⟨t, -, hset⟩ | ⟨-, rfl⟩
    · exact Arena.outline_of_setAlways hset
    · rfl
  · obtain ⟨rfl, rfl⟩ := Prod.mk.inj (List.mem_singleton.1 hmem)
    unfold memberValue? hiddenValue?
    rw [if_pos hexported, hsymbols, hpackage]
    rcases hscopes with ⟨t, ht, hset⟩ | ⟨hnone, -⟩
    · -- The hidden table is read first.
      have hr : (w.heap.package r).symbols = some t := by
        rcases hshares with rfl | ⟨t', hq, hr⟩
        · exact ht
        · rw [hr, ← hq, ht]
      rw [hr]
      show (scopes.getLocal? t other).or _ = _
      rw [Arena.getLocal?_setAlways hset, if_pos ⟨rfl, rfl⟩, Option.some_or]
    · rcases hshares with rfl | ⟨t', hq, -⟩
      · rw [hnone, if_pos ⟨rfl, hsize⟩]
        exact PackageObject.get?_set_self _ _ _
      · rw [hnone] at hq
        cases hq
  · have hitem : (if q = r ∧ q.id < w.heap.packages.size then (w.heap.package q).set name v
        else w.heap.package r).get? other = (w.heap.package r).get? other := by
      split
      · rename_i hboth
        obtain ⟨rfl, -⟩ := hboth
        refine Assoc.lookup_insert_ne (fun heq => ?_) v _
        subst heq
        exact hnone v (List.mem_singleton.2 rfl) hvariable (.inl rfl)
      · rfl
    unfold memberValue? hiddenValue?
    rw [if_pos hother, if_pos hother, hsymbols, hpackage, hitem]
    cases hr : (w.heap.package r).symbols with
    | none => rfl
    | some t' =>
      show (scopes.getLocal? t' other).or _ = (w.scopes.getLocal? t' other).or _
      rcases hscopes with ⟨t, ht, hset⟩ | ⟨-, rfl⟩
      · rw [Arena.getLocal?_setAlways hset, if_neg]
        rintro ⟨rfl, rfl⟩
        exact hnone v (List.mem_singleton.2 rfl) hvariable (.inr ⟨t', ht, hr⟩)
      · rfl

namespace Exec

theorem outcome_publishVariable (scope : String) (q : Ref .package) {name : String} {v : Value}
    (hvariable : isVariable name v = true) {m : Machine} (hlive : m.HiddenLive) :
    ∃ world, outcome (publishVariable scope q name v) m = (.ok (), { m with world }) ∧
      m.world.Publishes world (m.world.heap.SharesVariables q) [(name, v)] := by
  obtain ⟨j, hj⟩ : ∃ journal, outcome (note .symbol fun _ => s!"rewrite {scope}.{name}") m
      = (.ok (), { m with world := { m.world with journal } }) := ⟨_, rfl⟩
  rw [publishVariable, outcome_bind_ok hj, outcome_bind_ok (outcome_heap _)]
  dsimp only
  cases hq : (m.world.heap.package q).symbols with
  | none => exact ⟨_, rfl, .ofVariable q hvariable j (.inr ⟨hq, rfl⟩)⟩
  | some t =>
    obtain ⟨a, ha⟩ := Arena.setAlways_of_live (hlive q t hq) name v
    have hstore : outcome (storeIn t name v) { m with world := { m.world with journal := j } }
        = (.ok (), { m with world := { m.world with scopes := a, journal := j } }) := by
      rw [outcome_storeIn, ha]
    dsimp only
    rw [outcome_bind_ok hstore]
    exact ⟨_, rfl, .ofVariable q hvariable j (.inl ⟨t, hq, ha⟩)⟩

/-- The variables of a scope are written back one after the other. -/
theorem outcome_publishVariables (scope : String) (q : Ref .package)
    {bindings : List (String × Value)} (hnodup : (bindings.map (·.1)).Nodup) {m : Machine}
    (hlive : m.HiddenLive) :
    ∃ world, outcome (forIn bindings PUnit.unit fun x _ => match x with
        | (name, v) =>
          if isVariable name v = true then do
            publishVariable scope q name v
            pure (ForInStep.yield PUnit.unit)
          else pure (ForInStep.yield PUnit.unit)) m = (.ok PUnit.unit, { m with world }) ∧
      m.world.Publishes world (m.world.heap.SharesVariables q) bindings := by
  induction bindings generalizing m with
  | nil => exact ⟨m.world, rfl, .refl _ _⟩
  | cons p rest ih =>
    obtain ⟨name, v⟩ := p
    rw [List.map_cons, List.nodup_cons] at hnodup
    rw [List.forIn_cons]
    dsimp only
    split
    · rename_i hvariable
      obtain ⟨w₁, hwrite, hfirst⟩ := outcome_publishVariable scope q hvariable hlive
      obtain ⟨w₂, hrest, hothers⟩ := ih hnodup.2 (m := { m with world := w₁ })
        (hfirst.hiddenLive hlive)
      rw [outcome_bind_ok ((outcome_bind_ok hwrite).trans rfl)]
      refine ⟨w₂, hrest, hfirst.cons (hothers.congr fun r => ?_) hnodup.1⟩
      unfold Heap.SharesVariables
      rw [hfirst.symbols_eq, hfirst.symbols_eq]
    · rename_i hvariable
      obtain ⟨w₂, hrest, hothers⟩ := ih hnodup.2 hlive
      refine ⟨w₂, hrest, .cons (.ofNone fun r other u hmem hother => ?_) hothers hnodup.1⟩
      cases List.mem_singleton.1 hmem
      exact absurd hother hvariable

theorem outcome_findPackage (name : String) (first second : TableId) (m : Machine) :
    outcome (findPackage name first second) m
      = (.ok (m.world.packageAt? name first second), m) := by
  rw [findPackage, outcome_bind_ok (outcome_scopes m)]
  unfold World.packageAt?
  dsimp only
  generalize ((m.world.scopes.get? first name).orElse fun _ => m.world.scopes.get? second name).map
    Value.unwrapped = found
  rcases found with _ | v
  · rfl
  · cases v <;> rfl

/-- Elements for which a loop does nothing may be left out. -/
theorem forIn_append_of_idle {γ σ : Type} {body : γ → σ → Exec (ForInStep σ)} {xs : List γ}
    (hidle : ∀ x ∈ xs, ∀ s, body x s = pure (.yield s)) (ys : List γ) (s : σ) :
    forIn (xs ++ ys) s body = forIn ys s body := by
  induction xs with
  | nil => rfl
  | cons x xs ih =>
    rw [List.cons_append, List.forIn_cons, hidle x List.mem_cons_self, pure_bind]
    exact ih fun y hy => hidle y (List.mem_cons_of_mem _ hy)

/-- **What is written back when a function is left** whose scopes, up to its caller's table, name no
package, but for the outermost one. -/
theorem outcome_publishPackages_eq {stop scope : TableId} {plain : List TableId} {m : Machine}
    (hlive : m.HiddenLive)
    (hbetween : m.world.scopes.between m.context.symbols stop = plain ++ [scope])
    (hplain : ∀ x ∈ plain, m.world.scopes.packageOf x = "") :
    ∃ world, outcome (publishPackages stop) m = (.ok (), { m with world }) ∧
      m.world.Publishes world (m.world.Reaches (m.world.scopes.packageOf scope)
        (m.world.scopes.nextScope m.context.symbols) stop) (m.world.scopes.localSymbols scope) := by
  unfold publishPackages World.Reaches
  rw [outcome_bind_ok (outcome_scopes m), outcome_bind_ok (outcome_context m)]
  dsimp only
  rw [hbetween, forIn_append_of_idle fun x hx _ => if_neg (not_not_intro (hplain x hx)),
    List.forIn_cons]
  by_cases hname : m.world.scopes.packageOf scope = ""
  · rw [if_neg (not_not_intro hname)]
    exact ⟨m.world, rfl, .ofNone fun r other v _ _ hreaches => hreaches.1 hname⟩
  rw [if_pos hname, bind_assoc, bind_assoc, outcome_bind_ok (outcome_findPackage _ _ _ m)]
  cases hfound : m.world.packageAt? (m.world.scopes.packageOf scope)
      (m.world.scopes.nextScope m.context.symbols) stop with
  | none => exact ⟨m.world, rfl, .ofNone fun r other v _ _ ⟨_, q, hq, _⟩ => nomatch hq⟩
  | some q =>
    obtain ⟨world, hwrite, hpublishes⟩ := outcome_publishVariables
      (m.world.scopes.packageOf scope) q (m.world.scopes.nodup_localSymbols scope) hlive
    dsimp only
    rw [bind_assoc, outcome_bind_ok (outcome_scopes m), bind_assoc, outcome_bind_ok hwrite]
    refine ⟨world, rfl, hpublishes.congr fun r => ⟨fun h => ⟨hname, q, rfl, h⟩, ?_⟩⟩
    rintro ⟨-, q', hq', h⟩
    cases hq'
    exact h

end Exec

end ScriptMachine
