import ScriptMachine.Proofs.Frames.Scoping
import ScriptMachine.Proofs.Scopes.Growth

/-!
# Scopes that calls make

A call that enters a function of the program makes its table, and for a function of a package a
scope around it. The new tables lead to the table of the caller.

* `Exec.EntersScope`, `Exec.IsCallOfScope`: what a call does to the scopes;
  `IsCallOfScope.callValue`.
-/

namespace ScriptMachine

/-- The machine has entered a function of the program, in tables made for it and above a frame
that leads back. -/
structure Machine.EntersScope (m m' : Machine) : Prop where
  grows : ∃ made, m.world.scopes.Grows m'.world.scopes m.context.symbols m'.context.symbols made
  fresh : m.world.scopes.contains m'.context.symbols = false
  frame : ∃ (below : Array Slot) (f : Frame), m'.context.lower = below.push (.frame f) ∧
    f.symbols = m.context.symbols ∧ f.fp = m.context.fp ∧
    below.extract 0 m.context.fp = m.context.lower
  grounded : m'.context.Grounded
  packages_eq : m'.context.packages = m.context.packages
  suspended_eq : m'.suspended = m.suspended

/-- The code of a context that was set going for one call. -/
def Code.CallsOnce (code : Code) : Prop :=
  ∃ count : Nat, code.ops = #[⟨.call, .ofNat count⟩, .plain .stop]

/-- The machine has set a fresh context going in the current table, for one call, and the old one
waits. -/
structure Machine.SuspendsScope (m m' : Machine) : Prop where
  calls : m'.context.code.CallsOnce
  symbols_eq : m'.context.symbols = m.context.symbols
  outline_eq : m'.world.scopes.outline = m.world.scopes.outline
  packages_eq : m'.context.packages = []
  fresh : m'.context.Fresh
  waits : ∃ s, m'.suspended = s :: m.suspended ∧ s.context.symbols = m.context.symbols ∧
    s.context.packages = m.context.packages ∧ s.context.lower = m.context.lower

/-- The machine has entered a function of a package, in a child of a scope that shows it the names
in the hidden table of the package and its items. -/
structure Machine.EntersMember (m : Machine) (r : Ref .package) (scope : TableId) (m' : Machine) :
    Prop where
  grows : m.world.scopes.Grows m'.world.scopes m.context.symbols m'.context.symbols
    [m'.context.symbols, scope]
  plain : m'.world.scopes.packageOf m'.context.symbols = ""
  package_eq : m'.world.scopes.packageOf scope = (m.world.heap.package r).name
  shows : m.HiddenLive → ∀ name, m'.world.scopes.getLocal? scope name
    = (m.world.hiddenValue? r name).or ((m.world.heap.package r).get? name)

namespace Machine

variable {m₁ m₂ m₃ : Machine}

/-- A function that was entered runs above its caller. -/
theorem EntersScope.fp_lt (h : m₁.EntersScope m₂) (hm : m₁.context.Grounded) :
    m₁.context.fp < m₂.context.fp := by
  obtain ⟨below, f, hlower, -, -, hbelow⟩ := h.frame
  have hsize := congrArg Array.size hlower
  have hcut := congrArg Array.size hbelow
  rw [Context.size_lower h.grounded.fp_le, Array.size_push] at hsize
  rw [Context.size_lower hm.fp_le, Array.size_extract] at hcut
  omega

/-- What stays in the scope before a call does not matter. -/
theorem EntersScope.after (h₁₂ : m₁.SameScope m₂) (hm : m₁.context.Grounded)
    (h₂₃ : m₂.EntersScope m₃) : m₁.EntersScope m₃ := by
  obtain ⟨made, hgrows⟩ := h₂₃.grows
  obtain ⟨below, f, hlower, hsymbols, hfp, hbelow⟩ := h₂₃.frame
  have hsame := h₁₂.fp_eq hm
  rw [h₁₂.symbols_eq] at hgrows hsymbols
  rw [hsame] at hfp hbelow
  have hfresh := h₂₃.fresh
  rw [Arena.contains_congr h₁₂.outline_eq] at hfresh
  exact ⟨⟨made, hgrows.afterOutline h₁₂.outline_eq⟩, hfresh,
    ⟨below, f, hlower, hsymbols, hfp, hbelow.trans h₁₂.lower_eq⟩, h₂₃.grounded,
    h₂₃.packages_eq.trans h₁₂.packages_eq, h₂₃.suspended_eq.trans h₁₂.suspended_eq⟩

theorem SuspendsScope.after (h₁₂ : m₁.SameScope m₂) (h₂₃ : m₂.SuspendsScope m₃) :
    m₁.SuspendsScope m₃ := by
  obtain ⟨s, hsuspended, hsymbols, hpackages, hlower⟩ := h₂₃.waits
  exact ⟨h₂₃.calls, h₂₃.symbols_eq.trans h₁₂.symbols_eq, h₂₃.outline_eq.trans h₁₂.outline_eq,
    h₂₃.packages_eq, h₂₃.fresh, s, hsuspended.trans (by rw [h₁₂.suspended_eq]),
    hsymbols.trans h₁₂.symbols_eq, hpackages.trans h₁₂.packages_eq, hlower.trans h₁₂.lower_eq⟩

end Machine

namespace Exec

variable {α β : Type}

/-- What a call does to the scopes: if it fails, nothing. -/
def IsCallOfScope (act : Exec α) : Prop :=
  ∀ m : Machine, m.context.Grounded → m.world.scopes.Sound →
    m.SameScope (outcome act m).2 ∨ (∃ a, (outcome act m).1 = .ok a) ∧
      (m.EntersScope (outcome act m).2 ∨ m.SuspendsScope (outcome act m).2)

/-- Binding names in a live table, each once. -/
theorem outcome_storeAllIn (table : TableId) (bindings : List (String × Value)) {m : Machine}
    (hnodup : (bindings.map (·.1)).Nodup) (h : m.world.scopes.contains table = true) :
    ∃ scopes, m.world.scopes.Binds scopes table bindings ∧ outcome (storeAllIn table bindings) m
      = (.ok (), { m with world := { m.world with scopes } }) := by
  have hloop : ∀ (bindings : List (String × Value)) (m : Machine),
      (bindings.map (·.1)).Nodup → m.world.scopes.contains table = true → ∃ scopes,
        m.world.scopes.Binds scopes table bindings ∧
        outcome (forIn bindings PUnit.unit fun p _ => do
          storeIn table p.1 p.2
          pure (ForInStep.yield PUnit.unit)) m
          = (.ok PUnit.unit, { m with world := { m.world with scopes } }) := by
    intro bindings
    induction bindings with
    | nil => exact fun m _ _ => ⟨m.world.scopes, .nil _ _, rfl⟩
    | cons p bindings ih =>
      intro m hnodup hlive
      rw [List.map_cons, List.nodup_cons] at hnodup
      obtain ⟨a, ha⟩ := Arena.setAlways_of_live hlive p.1 p.2
      have hstore : outcome (storeIn table p.1 p.2) m
          = (.ok (), { m with world := { m.world with scopes := a } }) := by
        rw [outcome_storeIn, ha]
      obtain ⟨b, hb, hrest⟩ := ih { m with world := { m.world with scopes := a } } hnodup.2 (by
        show a.contains table = true
        rw [Arena.contains_congr (Arena.outline_of_setAlways ha)]
        exact hlive)
      have hbody : outcome (do
          storeIn table p.1 p.2
          pure (ForInStep.yield PUnit.unit)) m
            = (.ok (.yield PUnit.unit), { m with world := { m.world with scopes := a } }) :=
        (outcome_bind_ok hstore).trans rfl
      refine ⟨b, hb.cons ha hnodup.1, ?_⟩
      rw [List.forIn_cons, outcome_bind_ok hbody]
      exact hrest
  obtain ⟨a, ha, hout⟩ := hloop bindings m hnodup h
  exact ⟨a, ha, (outcome_bind_ok hout).trans rfl⟩

instance : Std.Refl (@Eq Machine) := ⟨fun _ => rfl⟩

/-- Checking the types of arguments changes nothing. -/
theorem keeps_checkTypes (parameters : List Parameter) (args : List Value) : Keeps Eq (do
    let m ← get
    if m.context.staticTypes then
      for (p, v) in parameters.zip args do
        if !p.type.accepts (m.world.heap.typeOf v) then
          fail (.about .argumentType p.name)) := by
  refine Keeps.bind (R := Eq) Keeps.get fun m => Keeps.ite ?_ (Keeps.pure _)
  refine Keeps.bind (R := Eq) (Keeps.forIn _ _ _ fun p _ => ?_) fun _ => Keeps.pure _
  exact Keeps.ite (Keeps.bind (R := Eq) (Keeps.fail _) fun _ => Keeps.pure _) (Keeps.pure _)

/-- Checking the arguments of a call changes nothing. -/
theorem keeps_checkCall (code : Code) (args : List Value) : Keeps Eq (checkCall code args) := by
  unfold checkCall
  split
  · unfold checkArguments
    dsimp only
    exact Keeps.ite (Keeps.bind (R := Eq) (Keeps.fail _) fun _ => keeps_checkTypes _ args)
      (keeps_checkTypes _ args)
  · exact Keeps.pure _

theorem outcome_enterChild (name : String) (code : Code) (pc : Nat) (boundary : Bool)
    (m : Machine) : ∃ journal observer,
    outcome (enterChild name code pc boundary) m = (.ok (), { m with
      world := { m.world with
        scopes := (m.world.scopes.newChild name m.context.symbols boundary).2
        journal }
      context := { m.context.entered (m.context.saved name)
        (m.world.scopes.newChild name m.context.symbols boundary).1 code pc with observer } }) := by
  obtain ⟨j, hnew⟩ := outcome_newChild name m.context.symbols boundary m
  obtain ⟨j', o, ho⟩ := outcome_pushFrame name
    (m.world.scopes.newChild name m.context.symbols boundary).1 code pc { m with
      world := { m.world with
        scopes := (m.world.scopes.newChild name m.context.symbols boundary).2
        journal := j } }
  refine ⟨j', o, ?_⟩
  rw [enterChild, outcome_bind_ok (outcome_context m), outcome_bind_ok hnew]
  exact ho

/-- A context that has just entered a function has no operands. -/
theorem grounded_entered (c : Context) (f : Frame) (table : TableId) (code : Code) (pc : Nat) :
    (c.entered f table code pc).Grounded := by
  have hsize : (c.entered f table code pc).stack.size = c.stack.size + 1 := Array.size_push _
  refine ⟨Nat.le_of_eq hsize.symm, ?_⟩
  have hnil : (c.entered f table code pc).operands = #[] := by
    apply Array.extract_empty_of_size_le_start
    exact Nat.le_of_eq hsize
  rw [hnil]
  exact OnlyValues.empty

/-- Its frame lies on the whole stack of the caller. -/
theorem lower_entered (c : Context) (f : Frame) (table : TableId) (code : Code) (pc : Nat) :
    (c.entered f table code pc).lower = c.stack.push (.frame f) := by
  have hsize : (c.stack.push (.frame f)).size = c.stack.size + 1 := Array.size_push _
  show (c.stack.push (.frame f)).extract 0 (c.stack.size + 1) = c.stack.push (.frame f)
  rw [← hsize, Array.extract_size]

/-! ### Functions of packages -/

/-- Entering the function of a package in a child of the scope around it. -/
theorem outcome_enterMember (scope : TableId) (name : String) (code : Code) (args : List Value)
    {m : Machine} (hsound : m.world.scopes.Sound) :
    ∃ m', outcome (do
        let table ← onWorld (World.newChild code.name scope false)
        pushFrame code.name table code 0
        modifyContext fun c => { c with package := name }
        storeIn table "__args" (← onHeap (Heap.newList args))) m = (.ok (), m') ∧
      m.world.scopes.Grows m'.world.scopes scope m'.context.symbols [m'.context.symbols] ∧
      m'.world.scopes.packageOf m'.context.symbols = "" ∧
      (∀ x other, x ≠ m'.context.symbols →
        m'.world.scopes.getLocal? x other = m.world.scopes.getLocal? x other) ∧
      m'.context.lower = m.context.stack.push (.frame (m.context.saved code.name)) ∧
      m'.context.Grounded ∧ m'.context.packages = m.context.packages ∧
      m'.suspended = m.suspended := by
  obtain ⟨id, b, hmade, -, -, hlookup⟩ :=
    Arena.newChild_spec hsound code.name scope false
  obtain ⟨id', b', hmade', hgrows, hplain⟩ :=
    Arena.newChild_grows hsound code.name scope false
  obtain ⟨rfl, rfl⟩ := Prod.mk.inj (hmade.symm.trans hmade')
  obtain ⟨j, hnew⟩ := outcome_newChild code.name scope false m
  rw [hmade] at hnew
  obtain ⟨j', o, hpush⟩ := outcome_pushFrame code.name id code 0
    { m with world := { m.world with scopes := b, journal := j } }
  generalize hlist : (Heap.newList args).run m.world.heap = result
  obtain ⟨v, heap⟩ := result
  have hargs : outcome (onHeap (Heap.newList args)) { m with
      world := { m.world with scopes := b, journal := j' }
      context := { m.context.entered (m.context.saved code.name) id code 0 with
        observer := o, package := name } }
        = (.ok v, { m with
          world := { m.world with scopes := b, journal := j', heap }
          context := { m.context.entered (m.context.saved code.name) id code 0 with
            observer := o, package := name } }) := by
    have hrun : ∀ m : Machine, outcome (onHeap (Heap.newList args)) m
        = (.ok ((Heap.newList args).run m.world.heap).1, { m with
          world := { m.world with heap := ((Heap.newList args).run m.world.heap).2 } }) :=
      fun _ => rfl
    rw [hrun, hlist]
  obtain ⟨c, hc⟩ := Arena.setAlways_of_live (hgrows.live id List.mem_cons_self) "__args" v
  have houtline := Arena.outline_of_setAlways hc
  have hstore : outcome (storeIn id "__args" v) { m with
      world := { m.world with scopes := b, journal := j', heap }
      context := { m.context.entered (m.context.saved code.name) id code 0 with
        observer := o, package := name } } = (.ok (), { m with
      world := { m.world with scopes := c, journal := j', heap }
      context := { m.context.entered (m.context.saved code.name) id code 0 with
        observer := o, package := name } }) := by
    rw [outcome_storeIn, hc]
  have hground := grounded_entered m.context (m.context.saved code.name) id code 0
  refine ⟨{ m with
      world := { m.world with scopes := c, journal := j', heap }
      context := { m.context.entered (m.context.saved code.name) id code 0 with
        observer := o, package := name } }, ?_, hgrows.thenOutline houtline, ?_,
      fun x other hx => ?_,
    lower_entered m.context (m.context.saved code.name) id code 0,
    ⟨hground.fp_le, hground.values⟩, rfl, rfl⟩
  · rw [outcome_bind_ok hnew, outcome_bind_ok hpush, outcome_bind_ok (outcome_modifyContext _ _)]
    exact (outcome_bind_ok hargs).trans hstore
  · exact (Arena.SameTable.ofOutline houtline id).packageOf_eq.trans hplain
  · have hne : x ≠ id := hx
    show c.getLocal? x other = _
    rw [Arena.getLocal?_setAlways hc, if_neg fun hboth => hne hboth.1]
    unfold Arena.getLocal?
    rw [hlookup, if_neg hne]

/-- Makes the scope that shows a function of a package the members of the package. -/
def memberScope (p : PackageObject) (code : Code) : Exec TableId := do
  let scope ← onWorld (World.newChild ("pkg func " ++ code.name) (← context).symbols true)
  setScopes (← (← scopes).setPackage scope p.name)
  storeAllIn scope p.items
  if let some inner := p.symbols then storeAllIn scope ((← scopes).localSymbols inner)
  return scope

theorem callMember_eq (r : Ref .package) (code : Code) (args : List Value) :
    Exec.callMember r code args = (do
      Exec.checkCall code args
      let p := (← heap).package r
      let scope ← memberScope p code
      let table ← onWorld (World.newChild code.name scope false)
      pushFrame code.name table code 0
      modifyContext fun c => { c with package := p.name }
      storeIn table "__args" (← onHeap (Heap.newList args))) := by
  unfold Exec.callMember memberScope
  simp only [bind_assoc]
  refine bind_congr fun _ => bind_congr fun h => bind_congr fun c => bind_congr fun scope =>
    bind_congr fun a => bind_congr fun b => bind_congr fun _ => bind_congr fun _ => ?_
  cases (h.package r).symbols with
  | none => simp only [pure_bind]
  | some inner => simp only [bind_assoc, pure_bind]

/-- The scope shows the names in the hidden table of the package, which come last, and the items. -/
theorem outcome_memberScope (r : Ref .package) (code : Code) {m : Machine}
    (hsound : m.world.scopes.Sound) : ∃ scope scopes journal,
      outcome (memberScope (m.world.heap.package r) code) m
        = (.ok scope, { m with world := { m.world with scopes, journal } }) ∧
      m.world.scopes.Grows scopes m.context.symbols scope [scope] ∧
      scopes.packageOf scope = (m.world.heap.package r).name ∧
      (m.HiddenLive → ∀ name, scopes.getLocal? scope name
        = (m.world.hiddenValue? r name).or ((m.world.heap.package r).get? name)) := by
  obtain ⟨scope, a, hmade, hsound_a, hfresh, hlookup⟩ :=
    Arena.newChild_spec hsound ("pkg func " ++ code.name) m.context.symbols true
  obtain ⟨b, hlabel, hsound_b, hlookup_b⟩ :=
    Arena.setPackage_of_live hsound_a ((hlookup scope).trans (if_pos rfl))
      (m.world.heap.package r).name
  have hself := (hlookup_b scope).trans (if_pos rfl)
  have hgrows : m.world.scopes.Grows b m.context.symbols scope [scope] :=
    Arena.grows_of_lookup hsound_b hfresh hself rfl fun x hx => by
      rw [hlookup_b, if_neg hx, hlookup, if_neg hx]
  obtain ⟨j, hnew⟩ := outcome_newChild ("pkg func " ++ code.name) m.context.symbols true m
  rw [hmade] at hnew
  have hset : outcome (liftM (a.setPackage scope (m.world.heap.package r).name) : Exec Arena)
      { m with world := { m.world with scopes := a, journal := j } }
        = (.ok b, { m with world := { m.world with scopes := a, journal := j } }) := by
    rw [outcome_liftExcept, hlabel]
    rfl
  obtain ⟨c, hc, hitems⟩ := outcome_storeAllIn scope (m.world.heap.package r).items
    (m := { m with world := { m.world with scopes := b, journal := j } })
    (m.world.heap.package r).nodup (hgrows.live scope List.mem_cons_self)
  have hvalues : ∀ x name, c.getLocal? x name = if x = scope then
      (m.world.heap.package r).get? name else m.world.scopes.getLocal? x name := by
    intro x name
    rw [hc.getLocal?_eq]
    unfold Arena.getLocal?
    rw [hlookup_b, hlookup]
    by_cases hx : x = scope
    · simp only [if_pos hx]
      exact Option.or_none
    · simp only [if_neg hx]
  have hgrows_c := hgrows.thenOutline hc.outline_eq
  have hpackage : c.packageOf scope = (m.world.heap.package r).name := by
    rw [(Arena.SameTable.ofOutline hc.outline_eq scope).packageOf_eq]
    show b.packageOf scope = _
    rw [Arena.packageOf, hself]
    rfl
  unfold memberScope World.hiddenValue?
  rw [outcome_bind_ok (outcome_context m), outcome_bind_ok hnew, outcome_bind_ok (outcome_scopes _),
    outcome_bind_ok hset, outcome_bind_ok (outcome_setScopes _ _), outcome_bind_ok hitems]
  cases hinner : (m.world.heap.package r).symbols with
  | none =>
    refine ⟨scope, c, j, rfl, hgrows_c, hpackage, fun _ name => ?_⟩
    rw [hvalues, if_pos rfl]
    rfl
  | some inner =>
    obtain ⟨d, hd, hsymbols⟩ := outcome_storeAllIn scope (c.localSymbols inner)
      (m := { m with world := { m.world with scopes := c, journal := j } })
      (c.nodup_localSymbols inner) (hgrows_c.live scope List.mem_cons_self)
    refine ⟨scope, d, j, ?_, hgrows_c.thenOutline hd.outline_eq, ?_, fun hhidden name => ?_⟩
    · dsimp only
      rw [outcome_bind_ok (outcome_scopes _), outcome_bind_ok hsymbols]
      rfl
    · rw [(Arena.SameTable.ofOutline hd.outline_eq scope).packageOf_eq, hpackage]
    · have hne : inner ≠ scope := by
        rintro rfl
        have hstale := hgrows.fresh inner List.mem_cons_self
        rw [hhidden r inner hinner] at hstale
        cases hstale
      rw [hd.getLocal?_eq, if_pos rfl, Arena.lookup_localSymbols, hvalues, if_neg hne]
      exact congrArg _ ((hvalues scope name).trans (if_pos rfl))

/-- **Calling a function of a package** fails, if its arguments do not fit, or enters the function
in a scope that shows it the members of the package. -/
theorem outcome_callMember (r : Ref .package) (code : Code) (args : List Value) {m : Machine}
    (hsound : m.world.scopes.Sound) :
    (∃ e, outcome (Exec.callMember r code args) m = (.error e, m)) ∨
      ∃ scope m', outcome (Exec.callMember r code args) m = (.ok (), m') ∧ m.EntersScope m' ∧
        m.EntersMember r scope m' := by
  have hsame := keeps_checkCall code args m
  rw [callMember_eq]
  rcases hcheck : outcome (Exec.checkCall code args) m with ⟨e | ⟨⟩, m₁⟩ <;> rw [hcheck] at hsame
    <;> replace hsame : m = m₁ := hsame <;> subst hsame
  · exact .inl ⟨e, outcome_bind_error hcheck⟩
  obtain ⟨scope, a, j, hopen, hgrows, hpackage, hshows⟩ := outcome_memberScope r code hsound
  obtain ⟨m', henter, hgrows', hplain, hothers, hlower, hground, hpackages, hsuspended⟩ :=
    outcome_enterMember scope (m.world.heap.package r).name code args
    (m := { m with world := { m.world with scopes := a, journal := j } }) hgrows.sound
  have hscope := hgrows.live scope List.mem_cons_self
  have hne : scope ≠ m'.context.symbols := fun heq =>
    hgrows'.not_mem_of_live (heq ▸ hscope) List.mem_cons_self
  have hall := hgrows.trans hgrows' hscope
  refine .inr ⟨scope, m', ?_, ⟨⟨_, hall⟩, hall.fresh _ List.mem_cons_self,
    ⟨_, _, hlower, rfl, rfl, rfl⟩, hground, hpackages, hsuspended⟩, ⟨hall, hplain, ?_, fun hlive name => ?_⟩⟩
  · rw [outcome_bind_ok hcheck, outcome_bind_ok (outcome_heap m), outcome_bind_ok hopen, henter]
  · have hsame := hgrows'.others scope fun hmem => hne (List.mem_singleton.1 hmem)
    rw [hsame.packageOf_eq]
    exact hpackage
  · rw [hothers scope name hne]
    exact hshows hlive name

namespace IsCallOfScope

theorem ofScoped {act : Exec α} (h : IsScoped act) : IsCallOfScope act :=
  fun m hm _ => .inl (h m hm)

/-- What stays in the scope before a call does not matter. -/
theorem afterScoped {act : Exec α} {next : α → Exec β} (hact : IsScoped act)
    (hnext : ∀ a, IsCallOfScope (next a)) : IsCallOfScope (act >>= next) := by
  intro m hm hsound
  have hsame := hact m hm
  rw [outcome_bind]
  rcases hout : outcome act m with ⟨r | a, m'⟩
  · rw [hout] at hsame
    exact .inl hsame
  · rw [hout] at hsame
    obtain hafter | ⟨hok, henters | hsuspends⟩ :=
      hnext a m' hsame.grounded (hsound.congr hsame.outline_eq)
    · exact .inl (hsame.trans hafter)
    · exact .inr ⟨hok, .inl (.after hsame hm henters)⟩
    · exact .inr ⟨hok, .inr (.after hsame hsuspends)⟩

/-- Checking the arguments of a call stays in the scope. -/
theorem checkCall (code : Code) (args : List Value) : IsScoped (Exec.checkCall code args) := by
  intro m hm
  rw [show (outcome (Exec.checkCall code args) m).2 = m from (keeps_checkCall code args m).symm]
  exact .refl hm

theorem enterChild (name : String) (code : Code) (pc : Nat) (boundary : Bool) :
    IsCallOfScope (Exec.enterChild name code pc boundary) := by
  intro m hm hsound
  obtain ⟨j, o, hout⟩ := outcome_enterChild name code pc boundary m
  obtain ⟨id, b, hmade, hgrows, -⟩ := Arena.newChild_grows hsound name m.context.symbols boundary
  rw [hmade] at hout
  rw [hout]
  have hground := grounded_entered m.context (m.context.saved name) id code pc
  have hlower := lower_entered m.context (m.context.saved name) id code pc
  exact .inr ⟨⟨(), rfl⟩, .inl ⟨⟨[id], hgrows⟩, hgrows.fresh id List.mem_cons_self,
    ⟨_, _, hlower, rfl, rfl, rfl⟩, ⟨hground.fp_le, hground.values⟩, rfl, rfl⟩⟩

/-- A live table takes the arguments of a call. -/
theorem outcome_bindArgs (args : List Value) {m : Machine}
    (h : m.world.scopes.contains m.context.symbols = true) :
    ∃ world, world.scopes.outline = m.world.scopes.outline ∧
      outcome (bindArgs args) m = (.ok (), { m with world }) := by
  have hlist : outcome (onHeap (Heap.newList args)) m
      = (.ok ((Heap.newList args).run m.world.heap).1, { m with
        world := { m.world with heap := ((Heap.newList args).run m.world.heap).2 } }) := rfl
  obtain ⟨scopes, hscopes, hstore⟩ := outcome_storeIn_of_live (m := { m with
    world := { m.world with heap := ((Heap.newList args).run m.world.heap).2 } }) h "__args"
    ((Heap.newList args).run m.world.heap).1
  refine ⟨{ m.world with scopes, heap := ((Heap.newList args).run m.world.heap).2 }, hscopes, ?_⟩
  rw [bindArgs, outcome_bind_ok hlist, storeHere, outcome_bind_ok (outcome_context _)]
  exact hstore

theorem callCode (code : Code) (args : List Value) : IsCallOfScope (Exec.callCode code args) := by
  refine afterScoped (checkCall code args) fun _ m hm hsound => ?_
  obtain ⟨j, o, hout⟩ := outcome_enterChild code.name code 0 (!m.context.fullScope) m
  obtain ⟨id, b, hmade, hgrows, -⟩ :=
    Arena.newChild_grows hsound code.name m.context.symbols (!m.context.fullScope)
  rw [hmade] at hout
  have hground := grounded_entered m.context (m.context.saved code.name) id code 0
  have hlower := lower_entered m.context (m.context.saved code.name) id code 0
  obtain ⟨world, houtline, hbind⟩ := outcome_bindArgs args (m := { m with
    world := { m.world with scopes := b, journal := j }
    context := { m.context.entered (m.context.saved code.name) id code 0 with observer := o } })
    (hgrows.live id List.mem_cons_self)
  rw [outcome_bind_ok (outcome_context m), outcome_bind_ok hout, hbind]
  exact .inr ⟨⟨(), rfl⟩, .inl ⟨⟨[id], hgrows.thenOutline houtline⟩,
    hgrows.fresh id List.mem_cons_self, ⟨_, _, hlower, rfl, rfl, rfl⟩,
    ⟨hground.fp_le, hground.values⟩, rfl, rfl⟩⟩

theorem callMember (package : Ref .package) (code : Code) (args : List Value) :
    IsCallOfScope (Exec.callMember package code args) := by
  intro m hm hsound
  rcases outcome_callMember package code args hsound with ⟨e, hout⟩ | ⟨scope, m', hout, henters, -⟩
  · rw [hout]
    exact .inl (.refl hm)
  · rw [hout]
    exact .inr ⟨⟨(), rfl⟩, .inl henters⟩

/-! ### Library functions -/

/-- The context of a call begins in the table it is made for. -/
theorem enterScratch (awaiting : Awaiting) {c : Context} {m : Machine} (hfresh : c.Fresh)
    (hcalls : c.code.CallsOnce) (hsymbols : c.symbols = m.context.symbols) (hpackages : c.packages = []) :
    (∃ a, (outcome (Exec.enterScratch c awaiting) m).1 = .ok a) ∧
      m.SuspendsScope (outcome (Exec.enterScratch c awaiting) m).2 :=
  ⟨⟨(), rfl⟩, hcalls, hsymbols, rfl, hpackages, World.start_fresh hfresh 0 m.world, _, rfl, rfl, rfl, rfl⟩

theorem askOrdering (r : Ref .array) (less : Value) (size i j : Nat) :
    IsCallOfScope (Exec.askOrdering r less size i j) := by
  intro m hm _
  rw [Exec.askOrdering, outcome_bind_ok (outcome_context m), outcome_bind_ok (outcome_onWorld _ m)]
  have hfresh := World.callContext_fresh m.context.symbols m.context.settings less
    [.ofNat j, .ofNat (j - 1)] m.world
  obtain ⟨hok, hsuspends⟩ := enterScratch (.ordering r less size i j) (m := { m with
    world := ((World.callContext m.context.symbols m.context.settings less
      [.ofNat j, .ofNat (j - 1)]).run m.world).2 }) hfresh ⟨_, rfl⟩ rfl rfl
  exact .inr ⟨hok, .inr ⟨hsuspends.calls, hsuspends.symbols_eq, hsuspends.outline_eq, hsuspends.packages_eq,
    hsuspends.fresh, hsuspends.waits⟩⟩

theorem ite {p : Prop} [Decidable p] {yes no : Exec α} (hyes : IsCallOfScope yes)
    (hno : IsCallOfScope no) : IsCallOfScope (if p then yes else no) := by
  split
  · exact hyes
  · exact hno

theorem sortNext (r : Ref .array) (less : Value) (size i : Nat) :
    IsCallOfScope (Exec.sortNext r less size i) :=
  ite (askOrdering r less size i i) (ofScoped (IsLocal.push _).isScoped)

theorem sortAfter (r : Ref .array) (less : Value) (size i j : Nat) (goesFirst : Bool) :
    IsCallOfScope (Exec.sortAfter r less size i j goesFirst) := by
  refine ite (afterScoped (IsLocal.onHeap _).isScoped fun result => ?_) (sortNext r less size _)
  cases result with
  | ok => exact ite (askOrdering r less size i _) (sortNext r less size _)
  | error fault => exact ofScoped (IsCall.settleLibraryFault _ fault).isScoped

theorem beginSort (args : List Value) : IsCallOfScope (Exec.beginSort args) := by
  unfold Exec.beginSort
  dsimp only
  split
  · exact afterScoped IsLocal.heap.isScoped fun _ => sortNext _ _ _ _
  · exact ofScoped (IsCall.settleLibraryFault _ _).isScoped

theorem callNative (f : Native) (receiver : Option Value) (args : List Value) :
    IsCallOfScope (Exec.callNative f receiver args) := by
  refine ite (ofScoped (IsScoped.fail _)) (ite (beginSort args) (ofScoped ?_))
  refine IsLocal.isScoped (IsLocal.bind (IsLocal.onWorld fun w =>
    congrArg Arena.outline ((WorldAction.IsPlain.apply f receiver args).keeps w).1) fun result => ?_)
  split
  · exact IsLocal.push _
  · exact IsCall.settleLibraryFault f _
  · exact IsLocal.wait

/-- **What calling a value does to the scopes.** -/
theorem callValue (callable : Value) (args : List Value) :
    IsCallOfScope (Exec.callValue callable args) := by
  unfold Exec.callValue
  split
  · exact callCode _ args
  · exact callMember _ _ args
  · exact callNative _ _ args
  · exact ofScoped (IsCall.construct _ args).isScoped
  · exact ofScoped (IsScoped.fail _)

/-! ### Instructions that call -/

theorem call (operand : Value) : IsCallOfScope (Exec.call operand) :=
  afterScoped (IsLocal.operandCount operand 0).isScoped fun _ =>
    afterScoped IsScoped.context fun _ =>
    afterScoped (.modifyContext (fun _ => rfl) (fun _ => rfl) (fun _ => rfl) fun _ => rfl)
      fun _ => afterScoped (IsSteady.popCall _).isScoped fun p => callValue p.1 p.2

theorem localCall (operand : Value) : IsCallOfScope (Exec.localCall operand) :=
  afterScoped (IsLocal.branchTarget operand).isScoped fun address =>
    afterScoped IsScoped.context fun _ => enterChild _ _ address _

theorem entryPoint (operand : Value) : IsCallOfScope (Exec.entryPoint operand) :=
  afterScoped (IsLocal.lookup _).isScoped fun _ => callValue _ _

end IsCallOfScope

end Exec

end ScriptMachine
