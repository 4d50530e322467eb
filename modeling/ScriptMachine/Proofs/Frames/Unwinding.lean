import ScriptMachine.Proofs.Frames.Oblivious
import ScriptMachine.Proofs.Scopes.Slots

/-!
# Leaving functions

While functions are left, tables are removed and none are made. So when the hidden tables of all
packages are live at the end, they were live all along; and a function whose packages have live
hidden tables is left completely.

* `World.HiddenLive`: the hidden table of every package is live.
* `Machine.Fades`: tables may have been removed, but none were made.
* `Exec.IsSure`: an action that fades, and succeeds if the hidden tables are live at its end.
* `outcome_restoreFrame`: what leaving a function does.
-/

namespace ScriptMachine

/-- Other items in a package do not concern its table. -/
theorem Heap.symbols_putPackage (h : Heap) (r q : Ref .package) {p : PackageObject}
    (hp : p.symbols = (h.package r).symbols) :
    (((Heap.putPackage r p).run h).2.package q).symbols = (h.package q).symbols := by
  show (((h.packages.setIfInBounds r.id p)[q.id]?).getD { name := "" }).symbols = _
  rw [Array.getElem?_setIfInBounds]
  by_cases hr : r.id = q.id
  · rw [if_pos hr]
    have hq : h.package r = h.package q := by
      unfold package
      rw [hr]
    split
    · rw [← hq]
      exact hp
    · rename_i hlt
      unfold package
      rw [Array.getElem?_eq_none (by omega)]
  · rw [if_neg hr]
    rfl

/-- The hidden table of every package is live. -/
def World.HiddenLive (w : World) : Prop :=
  ∀ (r : Ref .package) (t : TableId), (w.heap.package r).symbols = some t →
    w.scopes.contains t = true

/-- The hidden table of every package is live. -/
def Machine.HiddenLive (m : Machine) : Prop := m.world.HiddenLive

/-- The value of a name in the hidden table of a package. -/
def World.hiddenValue? (w : World) (r : Ref .package) (name : String) : Option Value :=
  (w.heap.package r).symbols >>= fun t => w.scopes.getLocal? t name

/-- Tables may have been removed, but no table was made, and packages keep their tables. -/
structure Machine.Fades (m m' : Machine) : Prop where
  live : ∀ t, m'.world.scopes.contains t = true → m.world.scopes.contains t = true
  hidden : ∀ r, (m'.world.heap.package r).symbols = (m.world.heap.package r).symbols
  sound : m.world.scopes.Sound → m'.world.scopes.Sound

instance : Std.Refl Machine.Fades := ⟨fun _ => ⟨fun _ h => h, fun _ => rfl, fun h => h⟩⟩

instance : Trans Machine.Fades Machine.Fades Machine.Fades where
  trans hab hbc := ⟨fun t h => hab.live t (hbc.live t h),
    fun r => (hbc.hidden r).trans (hab.hidden r), fun h => hbc.sound (hab.sound h)⟩

/-- What is live at the end was live before. -/
theorem Machine.Fades.hiddenLive {m m' : Machine} (h : m.Fades m') (hlive : m'.HiddenLive) :
    m.HiddenLive := by
  intro r t hr
  exact h.live t (hlive r t (by rw [h.hidden, hr]))

/-- A change of the world that keeps the scopes and the tables of packages. -/
theorem Machine.Fades.ofScopes {m m' : Machine} (hscopes : m'.world.scopes = m.world.scopes)
    (hhidden : ∀ r, (m'.world.heap.package r).symbols = (m.world.heap.package r).symbols) :
    m.Fades m' := by
  refine ⟨?_, hhidden, ?_⟩ <;> rw [hscopes]
  · exact fun _ h => h
  · exact id

/-- Only values in the world have changed, not the outline of the scopes. -/
structure Machine.Rewrites (m m' : Machine) : Prop where
  same : m.SameButWorld m'
  outline_eq : m'.world.scopes.outline = m.world.scopes.outline

instance : Std.Refl Machine.Rewrites := ⟨fun _ => ⟨rfl, rfl⟩⟩

instance : Trans Machine.Rewrites Machine.Rewrites Machine.Rewrites where
  trans hab hbc := ⟨Trans.trans hab.same hbc.same, hbc.outline_eq.trans hab.outline_eq⟩

namespace Exec

variable {α β : Type}

theorem outcome_storeIn (table : TableId) (name : String) (v : Value) (m : Machine) :
    outcome (storeIn table name v) m
      = match m.world.scopes.setAlways table name v with
        | .ok scopes => (.ok (), { m with world := { m.world with scopes } })
        | .error f => (.error (.fault f), m) := by
  rw [storeIn, outcome_bind_ok (outcome_scopes m), outcome_bind, outcome_liftExcept]
  cases m.world.scopes.setAlways table name v <;> rfl

/-- A write to a live table succeeds. -/
theorem outcome_storeIn_of_live {table : TableId} {m : Machine}
    (h : m.world.scopes.contains table = true) (name : String) (v : Value) :
    ∃ scopes, scopes.outline = m.world.scopes.outline ∧
      outcome (storeIn table name v) m = (.ok (), { m with world := { m.world with scopes } }) := by
  obtain ⟨a, ha⟩ := Arena.setAlways_of_live h name v
  refine ⟨a, Arena.outline_of_setAlways ha, ?_⟩
  rw [outcome_storeIn, ha]

/-- An action that makes no table. -/
abbrev IsFading (act : Exec α) : Prop := Keeps Machine.Fades act

namespace IsFading

theorem pure (a : α) : IsFading (Pure.pure a) := Keeps.pure a

theorem bind {act : Exec α} {next : α → Exec β} (hact : IsFading act)
    (hnext : ∀ a, IsFading (next a)) : IsFading (act >>= next) := Keeps.bind hact hnext

theorem onWorld {act : WorldM α} (hscopes : ∀ w, (act.run w).2.scopes = w.scopes)
    (hhidden : ∀ w r, ((act.run w).2.heap.package r).symbols = (w.heap.package r).symbols) :
    IsFading (Exec.onWorld act) :=
  fun m => .ofScopes (hscopes m.world) (hhidden m.world)

theorem modifyContext (f : Context → Context) : IsFading (Exec.modifyContext f) :=
  fun _ => .ofScopes rfl fun _ => rfl

theorem note (c : Category) (message : Unit → String) : IsFading (Exec.note c message) :=
  onWorld (fun _ => rfl) fun _ _ => rfl

theorem noteThread (c : Category) (message : Unit → String) :
    IsFading (Exec.noteThread c message) :=
  bind Keeps.get fun _ => Keeps.ite (note c _) (pure ())

theorem observe (x : Happening) : IsFading (Exec.observe x) := by
  refine bind Keeps.get fun m => ?_
  dsimp only
  split
  · split
    · exact bind (note _ _) fun _ => modifyContext _
    · exact modifyContext _
  · exact modifyContext _

theorem storeIn (table : TableId) (name : String) (v : Value) :
    IsFading (Exec.storeIn table name v) := by
  intro m
  rw [outcome_storeIn]
  cases hset : m.world.scopes.setAlways table name v with
  | error f => exact Std.Refl.refl (r := Machine.Fades) m
  | ok a =>
    have houtline := Arena.outline_of_setAlways hset
    refine ⟨fun t h => ?_, fun _ => rfl, fun h => h.congr houtline⟩
    rw [← Arena.contains_congr houtline]
    exact h

theorem remove (id : TableId) : IsFading (Exec.onWorld (World.remove id)) := by
  intro m
  obtain ⟨j, hj⟩ := World.run_remove id m.world
  rw [outcome_onWorld, hj]
  refine ⟨fun t h => ?_, fun _ => rfl, fun h => h.remove id⟩
  have hremove : (m.world.scopes.remove id).contains t = true := h
  by_cases hid : id = .root
  · rwa [hid, Arena.remove_root] at hremove
  · rw [Arena.contains, Arena.table?_remove hid] at hremove
    split at hremove
    · cases hremove
    · exact hremove

theorem release (l : Loop) : IsFading (Exec.release l) := by
  unfold Exec.release
  split
  · exact onWorld (fun _ => rfl) fun _ _ => rfl
  · exact onWorld (fun _ => rfl) fun _ _ => rfl
  · exact pure _
  · exact pure _

theorem endLoops (count : Nat) : IsFading (Exec.endLoops count) := by
  induction count with
  | zero => exact pure _
  | succ count ih =>
    refine bind Keeps.context fun c => ?_
    split
    · exact pure _
    · exact bind (modifyContext _) fun _ => bind (release _) fun _ => ih

theorem dropScopesTo (target : TableId) : IsFading (Exec.dropScopesTo target) :=
  bind Keeps.scopes fun _ => bind Keeps.context fun _ =>
    bind (Keeps.forIn _ _ _ fun id _ => bind (remove id) fun _ => pure _) fun _ => modifyContext _

theorem putVariable (r : Ref .package) (name : String) (v : Value) : IsFading (do
    Exec.onHeap (Heap.putPackage r (((← Exec.heap).package r).set name v))) :=
  fun m => .ofScopes rfl fun q => Heap.symbols_putPackage m.world.heap r q rfl

theorem takeFrame : IsFading Exec.takeFrame := by
  refine bind Keeps.context fun c => Keeps.ite (Keeps.fail _) ?_
  dsimp only
  refine bind (modifyContext _) fun _ => ?_
  split
  · exact pure _
  · exact Keeps.fail _

end IsFading

/-- Hidden tables that are live at the end of an action were live at the end of its first part. -/
theorem hiddenLive_of_bind {act : Exec α} {next : α → Exec β} {m : Machine}
    (hnext : ∀ a, IsFading (next a)) (hlive : (outcome (act >>= next) m).2.HiddenLive) :
    (outcome act m).2.HiddenLive := by
  rw [outcome_bind] at hlive
  rcases hout : outcome act m with ⟨r | a, m'⟩
  · rw [hout] at hlive
    exact hlive
  · rw [hout] at hlive
    exact (hnext a m').hiddenLive hlive

/-! ### Actions that cannot fail while hidden tables are live -/

/-- An action that makes no table, and succeeds if all hidden tables are live at its end. -/
structure IsSure (act : Exec α) : Prop where
  fading : IsFading act
  sure : ∀ m : Machine, m.world.scopes.Sound → (outcome act m).2.HiddenLive →
    ∃ a, (outcome act m).1 = .ok a

namespace IsSure

theorem pure (a : α) : IsSure (Pure.pure a) := ⟨.pure a, fun _ _ _ => ⟨a, rfl⟩⟩

theorem bind {act : Exec α} {next : α → Exec β} (hact : IsSure act)
    (hnext : ∀ a, IsSure (next a)) : IsSure (act >>= next) := by
  refine ⟨hact.fading.bind fun a => (hnext a).fading, fun m hsound hlive => ?_⟩
  have hfade := hact.fading m
  have hsure := hact.sure m hsound
  rw [outcome_bind] at hlive ⊢
  rcases hout : outcome act m with ⟨r | a, m'⟩
  · rw [hout] at hlive hsure
    obtain ⟨a, ha⟩ := hsure hlive
    cases ha
  · rw [hout] at hlive hfade
    exact (hnext a).sure m' (hfade.sound hsound) hlive

theorem compositional : Compositional (μ := Exec) fun _ => IsSure := ⟨pure, bind⟩

theorem forIn {γ σ : Type} (xs : List γ) (body : γ → σ → Exec (ForInStep σ)) (init : σ)
    (hbody : ∀ x s, IsSure (body x s)) : IsSure (ForIn.forIn xs init body) :=
  compositional.forIn fun x _ => hbody x

theorem ite {p : Prop} [Decidable p] {yes no : Exec α} (hyes : IsSure yes) (hno : IsSure no) :
    IsSure (if p then yes else no) := by
  split
  · exact hyes
  · exact hno

/-- Actions that always succeed. -/
theorem ofTotal {act : Exec α} (hfading : IsFading act)
    (htotal : ∀ m, ∃ a, (outcome act m).1 = .ok a) : IsSure act :=
  ⟨hfading, fun m _ _ => htotal m⟩

theorem context : IsSure Exec.context := ofTotal Keeps.context fun m => ⟨m.context, rfl⟩

theorem scopes : IsSure Exec.scopes := ofTotal Keeps.scopes fun m => ⟨m.world.scopes, rfl⟩

theorem findPackage (name : String) (first second : TableId) :
    IsSure (Exec.findPackage name first second) := by
  refine bind scopes fun a => ?_
  dsimp only
  split
  · exact pure _
  · exact pure _

theorem publishVariable (scope : String) (package : Ref .package) (name : String) (v : Value) :
    IsSure (Exec.publishVariable scope package name v) := by
  have hput := ofTotal (IsFading.putVariable package name v) fun m => ⟨(), rfl⟩
  refine bind (ofTotal (.note _ _) fun m => ⟨(), rfl⟩) fun _ => ⟨?_, fun m hsound => ?_⟩
  · refine .bind Keeps.heap fun h => ?_
    dsimp only
    split
    · exact .bind (.storeIn _ name v) fun _ => hput.fading
    · exact hput.fading
  · rw [outcome_bind_ok (outcome_heap m)]
    cases hsymbols : (m.world.heap.package package).symbols with
    | none => exact hput.sure m hsound
    | some inner =>
      intro hlive
      -- The hidden table is live: either the write fails at the end, or it succeeds.
      cases hset : m.world.scopes.setAlways inner name v with
      | error f =>
        have hfail : outcome (storeIn inner name v) m = (.error (.fault f), m) := by
          rw [outcome_storeIn, hset]
        dsimp only at hlive
        rw [outcome_bind_error hfail] at hlive
        obtain ⟨a, ha⟩ := Arena.setAlways_of_live (hlive package inner hsymbols) name v
        rw [hset] at ha
        cases ha
      | ok a =>
        have hok : outcome (storeIn inner name v) m
            = (.ok (), { m with world := { m.world with scopes := a } }) := by
          rw [outcome_storeIn, hset]
        dsimp only at hlive ⊢
        rw [outcome_bind_ok hok] at hlive ⊢
        exact hput.sure _ (hsound.congr (Arena.outline_of_setAlways hset)) hlive

theorem publishPackages (stop : TableId) : IsSure (Exec.publishPackages stop) := by
  refine bind scopes fun a => bind context fun c => ?_
  dsimp only
  refine bind (forIn _ _ _ fun table _ => ?_) fun _ => pure _
  refine ite ?_ (pure _)
  refine bind (findPackage _ _ _) fun found => ?_
  split
  · refine bind scopes fun b => bind (forIn _ _ _ fun p _ => ?_) fun _ => pure _
    exact ite (bind (publishVariable _ _ _ _) fun _ => pure _) (pure _)
  · exact pure _

end IsSure

/-! ### What leaving a function does -/

/-- An action that only rewrites values in the world. -/
abbrev IsRewriting (act : Exec α) : Prop := Keeps Machine.Rewrites act

namespace IsRewriting

theorem pure (a : α) : IsRewriting (Pure.pure a) := Keeps.pure a

theorem bind {act : Exec α} {next : α → Exec β} (hact : IsRewriting act)
    (hnext : ∀ a, IsRewriting (next a)) : IsRewriting (act >>= next) := Keeps.bind hact hnext

theorem onWorld {act : WorldM α} (h : act.KeepsOutline) : IsRewriting (Exec.onWorld act) :=
  fun m => ⟨rfl, h m.world⟩

theorem storeIn (table : TableId) (name : String) (v : Value) :
    IsRewriting (Exec.storeIn table name v) := by
  intro m
  refine ⟨IsWorldly.storeIn table name v m, ?_⟩
  rw [outcome_storeIn]
  cases hset : m.world.scopes.setAlways table name v with
  | error f => rfl
  | ok a => exact Arena.outline_of_setAlways hset

theorem publishVariable (scope : String) (r : Ref .package) (name : String) (v : Value) :
    IsRewriting (Exec.publishVariable scope r name v) := by
  refine bind (onWorld (World.keepsOutline_note _ _)) fun _ => bind Keeps.heap fun h => ?_
  dsimp only
  split
  · exact bind (storeIn _ name v) fun _ => bind Keeps.heap fun _ =>
      onWorld (World.keepsOutline_onHeap _)
  · exact bind Keeps.heap fun _ => onWorld (World.keepsOutline_onHeap _)

theorem findPackage (name : String) (first second : TableId) :
    IsRewriting (Exec.findPackage name first second) := by
  refine bind Keeps.scopes fun a => ?_
  dsimp only
  split
  · exact pure _
  · exact pure _

theorem publishPackages (stop : TableId) : IsRewriting (Exec.publishPackages stop) := by
  refine bind Keeps.scopes fun a => bind Keeps.context fun c => ?_
  dsimp only
  refine bind (Keeps.forIn _ _ _ fun table _ => Keeps.ite ?_ (pure _)) fun _ => pure _
  refine bind (findPackage _ _ _) fun found => ?_
  split
  · refine bind Keeps.scopes fun b => bind (Keeps.forIn _ _ _ fun p _ => ?_) fun _ => pure _
    exact Keeps.ite (bind (publishVariable _ _ _ _) fun _ => pure _) (pure _)
  · exact pure _

end IsRewriting

theorem outcome_dropScopesTo (target : TableId) (m : Machine) :
    ∃ journal, outcome (dropScopesTo target) m = (.ok (), { m with
      world := { m.world with
        scopes := m.world.scopes.dropTables (m.world.scopes.between m.context.symbols target)
        journal }
      context := { m.context with symbols := target } }) := by
  have hloop : ∀ (tables : List TableId) (m : Machine), ∃ journal,
      outcome (forIn tables PUnit.unit fun table _ => do
        onWorld (World.remove table)
        pure (ForInStep.yield PUnit.unit)) m
        = (.ok PUnit.unit, { m with
            world := { m.world with scopes := m.world.scopes.dropTables tables, journal } }) := by
    intro tables
    induction tables with
    | nil => exact fun m => ⟨m.world.journal, rfl⟩
    | cons table tables ih =>
      intro m
      obtain ⟨j, hj⟩ := World.run_remove table m.world
      have hremove : outcome (do
          onWorld (World.remove table)
          pure (ForInStep.yield PUnit.unit)) m = (.ok (.yield PUnit.unit), { m with
            world := { m.world with scopes := m.world.scopes.remove table, journal := j } }) := by
        rw [outcome_bind_ok (outcome_onWorld _ m), hj]
        rfl
      obtain ⟨j', hj'⟩ := ih { m with
        world := { m.world with scopes := m.world.scopes.remove table, journal := j } }
      refine ⟨j', ?_⟩
      rw [List.forIn_cons, outcome_bind_ok hremove]
      exact hj'
  obtain ⟨j, hj⟩ := hloop (m.world.scopes.between m.context.symbols target) m
  refine ⟨j, ?_⟩
  rw [dropScopesTo, outcome_bind_ok (outcome_scopes m), outcome_bind_ok (outcome_context m),
    outcome_bind_ok hj]
  rfl

theorem outcome_endLoops (count : Nat) (m : Machine) :
    ∃ heap loops, loops.length = m.context.loops.length - count ∧
      outcome (endLoops count) m = (.ok (), { m with
        world := { m.world with heap }
        context := { m.context with loops } }) := by
  have hrelease : ∀ (l : Loop) (m : Machine), ∃ heap,
      outcome (release l) m = (.ok (), { m with world := { m.world with heap } }) := by
    intro l m
    unfold release
    split
    · exact ⟨_, rfl⟩
    · exact ⟨_, rfl⟩
    · exact ⟨m.world.heap, rfl⟩
    · exact ⟨m.world.heap, rfl⟩
  induction count generalizing m with
  | zero => exact ⟨m.world.heap, m.context.loops, rfl, rfl⟩
  | succ count ih =>
    rw [endLoops, outcome_bind_ok (outcome_context m)]
    cases hloops : m.context.loops with
    | nil =>
      exact ⟨m.world.heap, m.context.loops, by rw [hloops, List.length_nil, Nat.zero_sub], rfl⟩
    | cons l rest =>
      obtain ⟨h, hh⟩ := hrelease l { m with context := { m.context with loops := rest } }
      obtain ⟨h', loops, hlength, hl⟩ := ih { m with
        world := { m.world with heap := h }
        context := { m.context with loops := rest } }
      refine ⟨h', loops, by rw [hlength, List.length_cons, Nat.succ_sub_succ], ?_⟩
      dsimp only
      rw [outcome_bind_ok (outcome_modifyContext _ m), outcome_bind_ok hh]
      exact hl

theorem outcome_takeFrame {m : Machine} {below : Array Slot} {f : Frame}
    (hstack : m.context.stack.extract 0 m.context.fp = below.push (.frame f))
    (hfp : 0 < m.context.fp) :
    outcome takeFrame m
      = (.ok f, { m with context := { m.context with stack := below } }) := by
  rw [takeFrame, outcome_bind_ok (outcome_context m), if_neg (by omega)]
  simp only [hstack, Array.pop_push, Array.back?_push]
  rfl

/-- What is done about scopes, loops and the caller's state once the frame is taken. -/
def restoreCaller (f : Frame) : Exec Unit := do
  publishPackages f.symbols
  dropScopesTo f.symbols
  endLoopsTo f.loopDepth
  modifyContext fun c => c.resumed f
  storeIn .root "__extensions" (.bool f.extensions)
  modifyContext fun c => { c with frameDepth := c.frameDepth - 1 }
  observe (.ret (← context).frameDepth)
  let c ← context
  noteThread .symbol fun _ => s!"pop call frame {f.name}, resume {c.code.name} at {c.pc}"

theorem restoreFrame_eq : restoreFrame = takeFrame >>= restoreCaller := rfl

theorem IsFading.restoreCaller (f : Frame) : IsFading (Exec.restoreCaller f) :=
  bind (IsSure.publishPackages _).fading fun _ => bind (dropScopesTo _) fun _ =>
    bind (bind Keeps.context fun _ => endLoops _) fun _ => bind (modifyContext _) fun _ =>
    bind (storeIn _ _ _) fun _ => bind (modifyContext _) fun _ => bind Keeps.context fun _ =>
    bind (observe _) fun _ => bind Keeps.context fun _ => noteThread _ _

theorem IsFading.restoreFrame : IsFading Exec.restoreFrame := by
  rw [restoreFrame_eq]
  exact IsFading.takeFrame.bind fun f => restoreCaller f

/-- Publishing cannot fail while hidden tables are live, and it keeps the outline of the scopes. -/
theorem outcome_publishPackages (stop : TableId) {m : Machine} (hsound : m.world.scopes.Sound)
    (hlive : m.HiddenLive) : ∃ world,
    outcome (publishPackages stop) m = (.ok (), { m with world }) ∧
      world.scopes.outline = m.world.scopes.outline := by
  have hrewrites := IsRewriting.publishPackages stop m
  have hfades := (IsSure.publishPackages stop).fading m
  have hlive' : (outcome (publishPackages stop) m).2.HiddenLive := by
    intro r t hr
    rw [hfades.hidden] at hr
    rw [Arena.contains_congr hrewrites.outline_eq]
    exact hlive r t hr
  obtain ⟨⟨⟩, hok⟩ := (IsSure.publishPackages stop).sure m hsound hlive'
  exact ⟨_, Prod.ext hok hrewrites.same, hrewrites.outline_eq⟩

/-- What is done once the tables are dropped: the caller's state is back. -/
theorem outcome_turnBack (f : Frame) {m : Machine} (hroot : m.world.scopes.contains .root = true) :
    ∃ world loops observer, outcome (do
        endLoopsTo f.loopDepth
        modifyContext fun c => c.resumed f
        storeIn .root "__extensions" (.bool f.extensions)
        modifyContext fun c => { c with frameDepth := c.frameDepth - 1 }
        observe (.ret (← context).frameDepth)
        let c ← context
        noteThread .symbol fun _ => s!"pop call frame {f.name}, resume {c.code.name} at {c.pc}") m
      = (.ok (), { m with
          world
          context := { m.context.resumed f with
            frameDepth := m.context.frameDepth - 1
            loops
            observer } }) ∧
      world.scopes.outline = m.world.scopes.outline := by
  obtain ⟨heap, loops, -, h₁⟩ := outcome_endLoops (m.context.loops.length - f.loopDepth) m
  obtain ⟨scopes, hscopes, h₂⟩ := outcome_storeIn_of_live (m := { m with
      world := { m.world with heap }
      context := ({ m.context with loops } : Context).resumed f })
    hroot "__extensions" (.bool f.extensions)
  obtain ⟨j₃, o, h₃⟩ := outcome_observe (.ret (m.context.frameDepth - 1)) { m with
    world := { m.world with heap, scopes }
    context := { ({ m.context with loops } : Context).resumed f with
      frameDepth := m.context.frameDepth - 1 } }
  obtain ⟨j₄, h₄⟩ := outcome_noteThread .symbol
    (fun _ => s!"pop call frame {f.name}, resume {f.code.name} at {f.pc}") { m with
    world := { m.world with heap, scopes, journal := j₃ }
    context := { ({ m.context with loops } : Context).resumed f with
      frameDepth := m.context.frameDepth - 1
      observer := o } }
  refine ⟨{ m.world with heap, scopes, journal := j₄ }, loops, o, ?_, hscopes⟩
  rw [endLoopsTo, bind_assoc, outcome_bind_ok (outcome_context m), outcome_bind_ok h₁,
    outcome_bind_ok (outcome_modifyContext _ _), outcome_bind_ok h₂,
    outcome_bind_ok (outcome_modifyContext _ _), outcome_bind_ok (outcome_context _)]
  exact (outcome_bind_ok h₃).trans ((outcome_bind_ok (outcome_context _)).trans h₄)

/-- Once the packages are published, leaving a function cannot fail. -/
theorem outcome_restoreCaller (f : Frame) {m m₁ : Machine} (hsound : m.world.scopes.Sound)
    (hpublish : outcome (publishPackages f.symbols) m = (.ok (), m₁)) :
    ∃ world loops observer, outcome (restoreCaller f) m = (.ok (), { m with
        world
        context := { m.context.resumed f with
          frameDepth := m.context.frameDepth - 1
          loops
          observer } }) ∧
      world.scopes.outline = (m.world.scopes.dropTables
        (m.world.scopes.between m.context.symbols f.symbols)).outline := by
  have hrewrites := IsRewriting.publishPackages f.symbols m
  rw [hpublish] at hrewrites
  obtain ⟨w₁, rfl⟩ : ∃ w₁, m₁ = { m with world := w₁ } := ⟨_, hrewrites.same⟩
  have houtline₁ : w₁.scopes.outline = m.world.scopes.outline := hrewrites.outline_eq
  obtain ⟨j₂, hdrop⟩ := outcome_dropScopesTo f.symbols { m with world := w₁ }
  have hsound₂ := (IsFading.dropScopesTo f.symbols { m with world := w₁ }).sound
    (hsound.congr houtline₁)
  rw [hdrop] at hsound₂
  obtain ⟨world, loops, observer, hback, houtline⟩ := outcome_turnBack f hsound₂.root
  refine ⟨world, loops, observer, ?_, houtline.trans ?_⟩
  · rw [restoreCaller, outcome_bind_ok hpublish, outcome_bind_ok hdrop]
    exact hback
  · show (w₁.scopes.dropTables (w₁.scopes.between m.context.symbols f.symbols)).outline = _
    rw [Arena.between_congr houtline₁]
    exact Arena.dropTables_congr houtline₁ _

/-- **Leaving a function**: the caller's state is back, and the tables up to the caller's current
one are gone. -/
theorem outcome_restoreFrame {m : Machine} {below : Array Slot} {f : Frame}
    (hstack : m.context.stack.extract 0 m.context.fp = below.push (.frame f))
    (hfp : 0 < m.context.fp) (hsound : m.world.scopes.Sound) (hlive : m.HiddenLive) :
    ∃ world loops observer, outcome restoreFrame m = (.ok (), { m with
        world
        context := { m.context.resumed f with
          stack := below
          frameDepth := m.context.frameDepth - 1
          loops
          observer } }) ∧
      world.scopes.outline = (m.world.scopes.dropTables
        (m.world.scopes.between m.context.symbols f.symbols)).outline := by
  rw [restoreFrame_eq, outcome_bind_ok (outcome_takeFrame hstack hfp)]
  obtain ⟨w₁, hpublish, -⟩ := outcome_publishPackages f.symbols
    (m := { m with context := { m.context with stack := below } }) hsound hlive
  exact outcome_restoreCaller f (m := { m with context := { m.context with stack := below } })
    hsound hpublish

end Exec

end ScriptMachine
