import ScriptMachine.Proofs.Frames.Exits
import ScriptMachine.Proofs.Packages.Members

/-!
# Returns write copies back

A function of a package runs with copies of the variables of the package, made when it is called.
When it returns they are all written back, whether it has stored into them or not. Another function
of the package that ran meanwhile has written its own copies back, and these are lost.

* `Machine.KeepsMembers`: members read what they read before; `IsKeepingMembers.turnBack`.
* `popFrame_publishes`, `Leaves.publishes`: what is written back when a function is left.
* `Enters.entersMember`: a call of a member enters it in a scope that shows the members.
* `EntersMember.between`: that scope is the one whose copies are written back.
* `return_writes_copies_back`: what members read after the return of a function of their package.
-/

namespace ScriptMachine

/-- Members read what they read before, as long as hidden tables are live. -/
structure Machine.KeepsMembers (m m' : Machine) : Prop where
  fades : m.Fades m'
  same : m'.HiddenLive → ∀ r name, isExported name = true →
    m'.world.memberValue? r name = m.world.memberValue? r name

instance : Std.Refl Machine.KeepsMembers :=
  ⟨fun m => ⟨Std.Refl.refl (r := Machine.Fades) m, fun _ _ _ _ => rfl⟩⟩

instance : Trans Machine.KeepsMembers Machine.KeepsMembers Machine.KeepsMembers where
  trans hab hbc := ⟨Trans.trans hab.fades hbc.fades, fun hlive r name hname =>
    (hbc.same hlive r name hname).trans (hab.same (hbc.fades.hiddenLive hlive) r name hname)⟩

namespace Exec

variable {α β : Type}

/-- An action that leaves alone what members read. -/
abbrev IsKeepingMembers (act : Exec α) : Prop := Keeps Machine.KeepsMembers act

namespace IsKeepingMembers

theorem pure (a : α) : IsKeepingMembers (Pure.pure a) := Keeps.pure a

theorem bind {act : Exec α} {next : α → Exec β} (hact : IsKeepingMembers act)
    (hnext : ∀ a, IsKeepingMembers (next a)) : IsKeepingMembers (act >>= next) :=
  Keeps.bind hact hnext

/-- Computations on the world that change neither scopes nor packages. -/
theorem onWorld {act : WorldM α} (hscopes : ∀ w, (act.run w).2.scopes = w.scopes)
    (hpackages : ∀ w, (act.run w).2.heap.packages = w.heap.packages) :
    IsKeepingMembers (Exec.onWorld act) := by
  have hpackage : ∀ w r, (act.run w).2.heap.package r = w.heap.package r := fun w r => by
    unfold Heap.package
    rw [hpackages]
  refine fun m => ⟨.ofScopes (hscopes m.world) fun r => congrArg _ (hpackage m.world r),
    fun _ r name _ => World.memberValue?_congr (hpackage m.world r) fun t _ => ?_⟩
  exact congrArg (·.getLocal? t name) (hscopes m.world)

theorem modifyContext (f : Context → Context) : IsKeepingMembers (Exec.modifyContext f) :=
  fun _ => ⟨.ofScopes rfl fun _ => rfl, fun _ _ _ _ => rfl⟩

theorem note (c : Category) (message : Unit → String) : IsKeepingMembers (Exec.note c message) :=
  onWorld (fun _ => rfl) fun _ => rfl

theorem noteThread (c : Category) (message : Unit → String) :
    IsKeepingMembers (Exec.noteThread c message) :=
  bind Keeps.get fun _ => Keeps.ite (note c _) (pure ())

theorem observe (x : Happening) : IsKeepingMembers (Exec.observe x) := by
  refine bind Keeps.get fun m => ?_
  dsimp only
  split
  · split
    · exact bind (note _ _) fun _ => modifyContext _
    · exact modifyContext _
  · exact modifyContext _

theorem endLoops (count : Nat) : IsKeepingMembers (Exec.endLoops count) := by
  have hrelease : ∀ l : Loop, IsKeepingMembers (Exec.release l) := by
    intro l
    unfold Exec.release
    split
    · exact onWorld (fun _ => rfl) fun _ => rfl
    · exact onWorld (fun _ => rfl) fun _ => rfl
    · exact pure _
    · exact pure _
  induction count with
  | zero => exact pure _
  | succ count ih =>
    refine bind Keeps.context fun c => ?_
    split
    · exact pure _
    · exact bind (modifyContext _) fun _ => bind (hrelease _) fun _ => ih

/-- Tables that are no hidden ones may be removed. -/
theorem remove (id : TableId) : IsKeepingMembers (Exec.onWorld (World.remove id)) := by
  refine fun m => ⟨IsFading.remove id m, fun hlive r name _ => ?_⟩
  obtain ⟨j, hj⟩ := World.run_remove id m.world
  rw [outcome_onWorld, hj] at hlive ⊢
  exact World.memberValue?_congr rfl fun t ht => Arena.getLocal?_remove (hlive r t ht) name

theorem dropScopesTo (target : TableId) : IsKeepingMembers (Exec.dropScopesTo target) :=
  bind Keeps.scopes fun _ => bind Keeps.context fun _ =>
    bind (Keeps.forIn _ _ _ fun id _ => bind (remove id) fun _ => pure _) fun _ => modifyContext _

/-- Names that are not exported may be bound. -/
theorem storeIn (table : TableId) {name : String} (hname : isExported name = false) (v : Value) :
    IsKeepingMembers (Exec.storeIn table name v) := by
  refine fun m => ⟨IsFading.storeIn table name v m, fun _ r other hother => ?_⟩
  rw [outcome_storeIn]
  cases hset : m.world.scopes.setAlways table name v with
  | error f => rfl
  | ok a =>
    refine World.memberValue?_congr rfl fun t _ => ?_
    show a.getLocal? t other = _
    rw [Arena.getLocal?_setAlways hset, if_neg]
    rintro ⟨-, rfl⟩
    rw [hname] at hother
    cases hother

/-- Once the copies are written back, leaving a function leaves them alone. -/
theorem turnBack (f : Frame) : IsKeepingMembers (do
    Exec.dropScopesTo f.symbols
    endLoopsTo f.loopDepth
    Exec.modifyContext fun c => c.resumed f
    Exec.storeIn .root "__extensions" (.bool f.extensions)
    Exec.modifyContext fun c => { c with frameDepth := c.frameDepth - 1 }
    Exec.observe (.ret (← context).frameDepth)
    let c ← context
    Exec.noteThread .symbol fun _ =>
      s!"pop call frame {f.name}, resume {c.code.name} at {c.pc}") :=
  bind (dropScopesTo _) fun _ => bind (bind Keeps.context fun _ => endLoops _) fun _ =>
    bind (modifyContext _) fun _ => bind (storeIn _ (by decide) _) fun _ =>
    bind (modifyContext _) fun _ => bind Keeps.context fun _ => bind (observe _) fun _ =>
    bind Keeps.context fun _ => noteThread _ _

end IsKeepingMembers

/-- **Returning writes the copies back**, and leaves alone what members read otherwise. -/
theorem popFrame_publishes {m : Machine} {below : Array Slot} {f : Frame} {scope : TableId}
    {plain : List TableId} (h : m.context.Grounded)
    (hstack : m.context.stack.extract 0 m.context.fp = below.push (.frame f))
    (hfp : 0 < m.context.fp) (hlive : m.HiddenLive)
    (hbetween : m.world.scopes.between m.context.symbols f.symbols = plain ++ [scope])
    (hplain : ∀ x ∈ plain, m.world.scopes.packageOf x = "") :
    ∃ m₁ : Machine, m.world.Publishes m₁.world (m.world.Reaches (m.world.scopes.packageOf scope)
        (m.world.scopes.nextScope m.context.symbols) f.symbols)
      (m.world.scopes.localSymbols scope) ∧ m₁.KeepsMembers (outcome popFrame m).2 := by
  have hle := h.fp_le
  have hstack₁ : (m.context.stack.extract 0 m.context.fp).extract 0 m.context.fp
      = below.push (.frame f) := by
    simp only [Array.extract_extract, Nat.zero_add, Nat.min_self]
    exact hstack
  have htake := outcome_takeFrame (m := { m with context := { m.context with
    stack := m.context.stack.extract 0 m.context.fp, result := none } }) hstack₁ hfp
  obtain ⟨world, hpublish, hpublishes⟩ := outcome_publishPackages_eq (m := { m with
    context := { m.context with stack := below, result := none } }) hlive hbetween hplain
  refine ⟨{ m with world, context := { m.context with stack := below, result := none } },
    hpublishes, ?_⟩
  rw [popFrame, outcome_bind_ok (outcome_context m), if_neg (by omega)]
  dsimp only
  rw [outcome_bind_ok (outcome_modifyContext _ m), restoreFrame_eq, bind_assoc,
    outcome_bind_ok htake, restoreCaller, bind_assoc, outcome_bind_ok hpublish]
  refine (IsKeepingMembers.turnBack f).bind (fun _ => ?_) _
  refine Keeps.ite ?_ (IsKeepingMembers.modifyContext _)
  split
  · exact IsKeepingMembers.modifyContext _
  · exact IsKeepingMembers.pure _

end Exec

namespace Machine

variable {atCall entered m after : Machine} {marks rest : List Mark} {defined : List TableId}

/-- A step that returns from a function writes the copies back. -/
theorem Leaves.publishes {k fp : Nat} (h : m.Leaves k fp after) (hframed : m.Framed)
    (hlive : m.HiddenLive) (hleft : (after.contextAt k).fp < m.ready.context.fp)
    {below : Array Slot} {f : Frame} {scope : TableId} {plain : List TableId}
    (hlower : m.ready.context.lower = below.push (.frame f))
    (hbetween : m.world.scopes.between m.ready.context.symbols f.symbols = plain ++ [scope])
    (hplain : ∀ x ∈ plain, m.world.scopes.packageOf x = "") :
    ∃ m₁ : Machine, m.world.Publishes m₁.world (m.world.Reaches (m.world.scopes.packageOf scope)
        (m.world.scopes.nextScope m.ready.context.symbols) f.symbols)
      (m.world.scopes.localSymbols scope) ∧ m₁.KeepsMembers after := by
  rcases attempt_cases hframed with hclimbs | ⟨-, j, pc, running, observer, output, hpos, hpop⟩
  · -- What climbs does not leave the function.
    rw [h.completes] at hclimbs
    have hle : m.ready.context.fp ≤ (after.contextAt m.ready.suspended.length).fp := hclimbs.fp_le
    rw [h.level] at hle
    omega
  · obtain ⟨hlinked, hsame, hslots⟩ := leaving_spec hframed
    rw [← m.leaving_symbols] at hbetween ⊢
    have hstack : m.leaving.stack.extract 0 m.leaving.fp = below.push (.frame f) :=
      hslots.trans hlower
    obtain ⟨m₁, hpublishes, hkeeps⟩ := Exec.popFrame_publishes (m := { m.ready with
      world := { m.world with journal := j }
      context := { m.leaving with pc, running, observer, output } })
      ⟨hlinked.grounded.fp_le, hlinked.grounded.values⟩ hstack hpos hlive hbetween hplain
    rw [← hpop, h.completes] at hkeeps
    exact ⟨m₁, ⟨hpublishes.size_eq, hpublishes.symbols_eq, hpublishes.outline_eq,
      hpublishes.written, hpublishes.others⟩, hkeeps⟩

/-- The value that an instruction calls. -/
def callee? (m : Machine) (i : Instruction) : Option Value :=
  match i.op with
  | .call =>
    match m.context.stack[m.context.stack.size - Exec.slotsTaken i m.context]? with
    | some (.value callable) => some callable.unwrapped
    | _ => none
  | .entryPoint =>
    (m.world.scopes.get? m.context.symbols (i.operand.string?.getD "main")).map Value.unwrapped
  | _ => none

/-- A call of a member of a package enters it in a scope that shows the members of the package. -/
theorem Enters.entersMember {i : Instruction} {r : Ref .package} {code : Code}
    (h : atCall.Enters i entered) (hframed : atCall.Framed)
    (hcallee : atCall.callee? i = some (.member r code)) :
    ∃ scope, atCall.EntersMember r scope entered := by
  obtain ⟨m, hattempt, hworld, hground, hstack, hsymbols, hextra⟩ : ∃ m : Machine,
      (.ok (), entered) = Exec.outcome (Exec.execute i) m ∧
      (m.world.scopes = atCall.world.scopes ∧ m.world.heap = atCall.world.heap) ∧
      m.context.Grounded ∧ m.context.stack = atCall.context.stack ∧
      m.context.symbols = atCall.context.symbols ∧
      m.context.extraArgs = atCall.context.extraArgs := by
    obtain ⟨j, running, observer, hattempt⟩ := attempt_of_next h.going h.next
    exact ⟨_, h.completes.symm.trans hattempt, ⟨rfl, rfl⟩,
      ⟨hframed.running.grounded.fp_le, hframed.running.grounded.values⟩, rfl, rfl, rfl⟩
  -- Whatever was taken off the stack, the member is called with the same scopes and packages.
  have hcalls : ∀ (m : Machine) (args : List Value),
      m.world.scopes = atCall.world.scopes ∧ m.world.heap = atCall.world.heap →
      m.context.symbols = atCall.context.symbols →
      (.ok (), entered) = Exec.outcome (Exec.callMember r code args) m →
      ∃ scope, atCall.EntersMember r scope entered := by
    intro m args ⟨hscopes, hheap⟩ hsymbols hout
    rcases Exec.outcome_callMember r code args (m := m) (by rw [hscopes]; exact hframed.sound) with
      ⟨e, herror⟩ | ⟨scope, m', hok, -, henters⟩
    · rw [herror] at hout
      cases hout
    · rw [hok] at hout
      cases hout
      obtain ⟨hgrows, hplain, hpackage, hshows⟩ := henters
      rw [hscopes, hsymbols] at hgrows
      rw [hheap] at hpackage
      unfold HiddenLive World.HiddenLive World.hiddenValue? at hshows
      rw [hheap, hscopes] at hshows
      exact ⟨scope, hgrows, hplain, hpackage, hshows⟩
  obtain ⟨op, operand⟩ := i
  cases op with
  | call =>
    have htaken : Exec.slotsTaken ⟨.call, operand⟩ m.context
        = Exec.slotsTaken ⟨.call, operand⟩ atCall.context := by
      unfold Exec.slotsTaken
      rw [hextra]
    rcases Exec.outcome_call operand hground with ⟨⟨e, herror⟩, -⟩ |
      ⟨callable, args, -, hslot, hcall⟩
    · exact absurd ((congrArg Prod.fst hattempt).trans herror) nofun
    · rw [htaken, hstack] at hslot
      have hmember : callable.unwrapped = .member r code := by
        unfold callee? at hcallee
        dsimp only at hcallee
        rw [hslot] at hcallee
        exact Option.some.inj hcallee
      rw [hmember] at hcall
      have hout : (.ok (), entered) = Exec.outcome (Exec.call operand) m := hattempt
      exact hcalls (Exec.withoutSlots m _ 0) args hworld hsymbols (hout.trans hcall)
  | entryPoint =>
    obtain ⟨v, hvalue, hmember⟩ := Option.map_eq_some_iff.1 hcallee
    have hfound : Exec.outcome (Exec.lookup (operand.string?.getD "main")) m = (.ok v, m) := by
      rw [Exec.lookup, Exec.lookup?, bind_assoc, Exec.outcome_bind_ok (Exec.outcome_get m),
        pure_bind, hworld.1, hsymbols, hvalue]
      rfl
    have hout : (.ok (), entered) = Exec.outcome (Exec.entryPoint operand) m := hattempt
    rw [Exec.entryPoint, Exec.outcome_bind_ok hfound, hmember] at hout
    exact hcalls m [] hworld hsymbols hout
  | localCall => cases hcallee
  | _ => exact absurd h.calls Bool.false_ne_true

/-- The scope that shows the members is the outermost one that a function of a package is left
through. -/
theorem EntersMember.between {r : Ref .package} {scope : TableId}
    (h : atCall.EntersMember r scope entered)
    (hcaller : atCall.world.scopes.contains atCall.context.symbols = true)
    (hsound : atCall.world.scopes.Sound) (hnests : m.NestsIn (entered.site entered) marks defined)
    (hpackages : m.context.packages = entered.context.packages)
    (hwaiting : m.suspended.length ≤ entered.suspended.length)
    (hlower : m.context.lower.size ≤ entered.context.lower.size) :
    ∃ plain, m.world.scopes.between m.context.symbols atCall.context.symbols = plain ++ [scope] ∧
      (∀ x ∈ plain, m.world.scopes.packageOf x = "") ∧
      m.world.scopes.packageOf scope = (atCall.world.heap.package r).name := by
  unfold NestsIn at hnests
  rw [hpackages] at hnests
  obtain ⟨blocks, made, hleads, -, hblocks, hintact⟩ := hnests.blocks hwaiting hlower
  have hkept : ∀ x, entered.world.scopes.contains x = true →
      entered.world.scopes.SameTable m.world.scopes x := hintact.kept
  have hfresh : ∀ x ∈ blocks, entered.world.scopes.contains x = false := fun x hx =>
    (hintact.ownFresh x (List.mem_append_left _ hx)).1
  have hlive := h.grows.live
  have hsame := fun x hx => hkept x (hlive x hx)
  have hstop : entered.world.scopes.contains atCall.context.symbols = true := by
    rw [(h.grows.others _ (h.grows.not_mem_of_live hcaller)).contains_eq]
    exact hcaller
  have hnew : ∀ x ∈ blocks, entered.world.scopes.contains x = true → False := fun x hx hlive => by
    rw [hfresh x hx] at hlive
    cases hlive
  have hall := hleads.trans ((h.grows.leads hcaller).congr hsame) fun hmem => hnew _ hmem hstop
  refine ⟨blocks ++ [entered.context.symbols], ?_, fun x hx => ?_, ?_⟩
  · rw [hall.between_eq, List.append_assoc]
    · rfl
    · intro hroot
      rcases List.mem_append.1 hroot with hmem | hmem
      · exact hnew _ hmem h.grows.sound.root
      · exact absurd (h.grows.fresh _ hmem) (by rw [hsound.root]; exact Bool.false_ne_true.symm)
    · intro x hx
      rcases List.mem_append.1 hx with hx | hx
      · exact hintact.ownLive x (List.mem_append_left _ hx)
      · exact (hsame x hx).contains_eq.trans (hlive x hx)
  · rcases List.mem_append.1 hx with hx | hx
    · exact (hblocks x hx).2
    · obtain rfl := List.mem_singleton.1 hx
      exact (hsame _ List.mem_cons_self).packageOf_eq.trans h.plain
  · exact (hsame _ (List.mem_cons_of_mem _ List.mem_cons_self)).packageOf_eq.trans h.package_eq

/-- **What becomes of the copies** that a function of a package works on. They lie in a scope around
the function, and are at first what members read. When the function returns, variables of the
package are read as they are in the scope then, if the return reaches the package; an untouched copy
brings back what was read at the call, whatever others have written since. All else that members
read is as before the return. -/
structure WritesBack (atCall entered leaving after : Machine) (r : Ref .package) (scope : TableId) :
    Prop where
  scope_eq : entered.world.scopes.parent? entered.context.symbols = some scope
  copied : ∀ name, isExported name = true →
    entered.world.scopes.getLocal? scope name = atCall.world.memberValue? r name
  written : leaving.world.Reaches (atCall.world.heap.package r).name
      (leaving.world.scopes.nextScope leaving.ready.context.symbols) atCall.context.symbols r →
    ∀ name v, leaving.world.scopes.getLocal? scope name = some v → isVariable name v = true →
      packageMember after.world r name = .ok v ∧
      (entered.world.scopes.getLocal? scope name = some v →
        packageMember after.world r name = packageMember atCall.world r name)
  others : ∀ name, isExported name = true →
    (leaving.world.Reaches (atCall.world.heap.package r).name
        (leaving.world.scopes.nextScope leaving.ready.context.symbols) atCall.context.symbols r →
      ∀ v, leaving.world.scopes.getLocal? scope name = some v → isVariable name v = false) →
    packageMember after.world r name = packageMember leaving.world r name

/-- **Returns write copies back**: from the call of a member of a package, the function runs with
what it opens closed in turn, and then it returns. What members of the package read after the return
is what becomes of the copies in the scope that was made for the call. -/
theorem return_writes_copies_back {start atCall entered leaving after : Machine} {i : Instruction}
    {r : Ref .package} {code : Code} {marks rest : List Mark} {defined : List TableId}
    (hbegins : start.Begins) (hreached : Trace HiddenLive start atCall)
    (hcaller : atCall.world.scopes.contains atCall.context.symbols = true)
    (henters : atCall.Enters i entered) (hcallee : atCall.callee? i = some (.member r code))
    (hbody : entered.Tidy leaving marks defined) (hready : leaving.readyMarks marks = some rest)
    (hopen : leaving.ready.context.packages = atCall.context.packages)
    (hleaves : leaving.Leaves atCall.suspended.length entered.context.fp after)
    (hlive : after.HiddenLive) (hthere : r.id < leaving.world.heap.packages.size) :
    ∃ scope, atCall.WritesBack entered leaving after r scope := by
  have hframed := hreached.framed hbegins.framed
  have hentered := henters.framed hframed hbody.hiddenLive_first
  have hleaving := hbody.framed hentered
  have hcalled := henters.entersScope hframed hreached.ok_last
  obtain ⟨scope, hmember⟩ := henters.entersMember hframed hcallee
  have hnests := (hbody.nestsHere hentered (hmember.grows.live _ List.mem_cons_self)).ready hready
  have hpackages := hopen.trans hcalled.packages_eq.symm
  rw [← hcalled.suspended_eq, ← Context.size_lower hentered.running.fp_le] at hleaves
  have hwaiting : leaving.ready.suspended.length ≤ entered.suspended.length :=
    Nat.le_of_eq hleaves.level
  obtain ⟨hscope, hsize⟩ := Leaves.leavesScope (by exact hleaves) hleaving hbody.hiddenLive
    hentered.sound hnests
  -- The function that is left is the callee, which has the frame of the caller.
  obtain ⟨below, f, hlower, -⟩ := hscope.frame
  obtain ⟨own, pins, hlaid, -⟩ := id hnests
  obtain ⟨-, -, hle, hcallee_lower⟩ := hlaid.size_lower_le hwaiting
  obtain ⟨below', f', hlower', hsymbols, -⟩ := hcalled.frame
  have hframe : f.symbols = atCall.context.symbols := by
    have hsame := hlower.symm.trans ((hcallee_lower (hsize hpackages)).1.trans hlower')
    obtain ⟨heq, -⟩ := Array.push_eq_push.1 hsame
    cases heq
    exact hsymbols
  obtain ⟨plain, hbetween, hplain, hname⟩ := hmember.between hcaller hframed.sound hnests hpackages
    hwaiting (hsize hpackages)
  rw [leaving.ready_world] at hbetween hplain hname
  rw [← hframe] at hbetween
  obtain ⟨m₁, hpublishes, hkeeps⟩ := hleaves.publishes hleaving hbody.hiddenLive (by
    have hleft := hleaves.left
    have hready := Context.size_lower hleaving.ready.running.grounded.fp_le
    have hle : entered.context.lower.size ≤ leaving.ready.context.lower.size := hle
    omega) hlower hbetween hplain
  rw [hname, hframe] at hpublishes
  have hsame := fun name hexported => hkeeps.same hlive r name hexported
  refine ⟨scope, ?_, fun name hexported => ?_, fun hreaches name v hcopy hvariable => ?_,
    fun name hexported hnone => ?_⟩
  · exact (hmember.grows.leads hcaller).parent?_eq
  · rw [hmember.shows hreached.ok_last, World.memberValue?, if_pos hexported]
  · have hexported : isExported name = true := (Bool.and_eq_true_iff.1 hvariable).1
    have hafter : packageMember after.world r name = .ok v := by
      refine packageMember_of_variable ?_ hvariable
      rw [hsame name hexported]
      exact hpublishes.written r name v (Arena.mem_localSymbols_iff.2 hcopy) hvariable hreaches
        hthere
    refine ⟨hafter, fun huntouched => ?_⟩
    rw [hafter]
    refine (packageMember_of_variable ?_ hvariable).symm
    rw [World.memberValue?, if_pos hexported, ← hmember.shows hreached.ok_last]
    exact huntouched
  · rw [packageMember_eq, packageMember_eq, hsame name hexported,
      hpublishes.others r name hexported]
    intro v hmem hvariable hreaches
    rw [hnone hreaches v (Arena.mem_localSymbols_iff.1 hmem)] at hvariable
    cases hvariable

/-- A return that succeeds and lowers the frame pointer leaves a function. -/
theorem leaves_of_opcode {k fp : Nat} (hreturn : m.opcode? = some .return)
    (hlevel : m.ready.suspended.length = k) (hok : m.attempt.1.isOk = true)
    (hleft : (m.step.1.contextAt k).fp < fp) : m.Leaves k fp m.step.1 := by
  refine ⟨?_, hlevel, attempt_eq_ok hok, hleft⟩
  unfold opcode? at hreturn
  unfold Returns
  split at hreturn
  · cases hreturn
  · rename_i hgoing
    obtain ⟨⟨op, operand⟩, hnext, rfl⟩ := Option.map_eq_some_iff.1 hreturn
    rw [hgoing]
    exact ⟨operand, hnext⟩

/-- Code that sets the variable `X` of its package. -/
def setter : Code :=
  ⟨"G", #[⟨.push, .bool true⟩, ⟨.store, .string "X"⟩, .plain .return], none, true, false⟩

/-- Code that calls the member `G` of the package `p`. -/
def relay : Code :=
  ⟨"F", #[⟨.load, .string "p"⟩, ⟨.member, .string "G"⟩, ⟨.call, .ofNat 0⟩, .plain .return],
    none, true, false⟩

/-- The root with a package `p`, and the hidden table of that, in which `X` is false. -/
def lentScopes : Arena :=
  let root : Table := { name := "Root", parent := none, shared := true, isRoot := true }
  let hidden : Table :=
    { name := "package p", parent := some .root, boundary := true, package := "p" }
  let hidden := ((hidden.store "X" (.bool false)).store "F" (.code relay)).store "G" (.code setter)
  ⟨#[⟨0, some (root.store "p" (.package ⟨0⟩))⟩, ⟨0, some hidden⟩], []⟩

/-- A machine about to run `Load "p"; Member "F"; Call 0; Stop`. -/
def lender : Machine :=
  ofContext {
      heap := { packages := #[{ name := "p", symbols := some ⟨1, 0⟩ }] }
      scopes := lentScopes } {
    name := "main"
    thread := 1
    symbols := .root
    code := ⟨"main", #[⟨.load, .string "p"⟩, ⟨.member, .string "F"⟩, ⟨.call, .ofNat 0⟩,
      .plain .stop], none, true, false⟩
    running := true }

/-- The machine about to call the member `F` of `p`. -/
def lenderCalls : Machine := lender.step.1.step.1

/-- The machine about to return from `F`, which has called `G`. -/
def lenderReturns : Machine := lenderCalls.step.1.step.1.step.1.step.1.step.1.step.1.step.1

theorem lentScopes_sound : lentScopes.Sound := ⟨rfl, nofun, List.nodup_nil⟩

/-- Something that is tested to be a boolean. -/
theorem eq_some_bool {o : Option Value} {b : Bool}
    (h : o.any (fun v => match v with | .bool c => c == b | _ => false) = true) :
    o = some (.bool b) := by
  rcases o with _ | ⟨_ | c | _⟩ <;> first | cases h | exact congrArg _ (congrArg _ (eq_of_beq h))

/-- `G` sets `X`, which members read so until `F` returns; then they read the copy of `F` again. -/
theorem return_writes_copies_back_of_lender :
    Trace HiddenLive lender lenderCalls ∧
      lenderCalls.world.scopes.contains lenderCalls.context.symbols = true ∧
      lenderCalls.Enters ⟨.call, .ofNat 0⟩ lenderCalls.step.1 ∧
      lenderCalls.callee? ⟨.call, .ofNat 0⟩ = some (.member ⟨0⟩ relay) ∧
      lenderCalls.step.1.Tidy lenderReturns [] [] ∧ lenderReturns.readyMarks [] = some [] ∧
      lenderReturns.ready.context.packages = lenderCalls.context.packages ∧
      lenderReturns.Leaves lenderCalls.suspended.length lenderCalls.step.1.context.fp
        lenderReturns.step.1 ∧
      lenderReturns.step.1.HiddenLive ∧ 0 < lenderReturns.world.heap.packages.size ∧
      packageMember lenderReturns.world ⟨0⟩ "X" = .ok (.bool true) ∧
      packageMember lenderReturns.step.1.world ⟨0⟩ "X" = .ok (.bool false) := by
  have hreached : Trace HiddenLive lender lenderCalls :=
    ((Trace.start (hiddenLive_of_all (by decide +kernel))).step
      (hiddenLive_of_all (by decide +kernel))).step (hiddenLive_of_all (by decide +kernel))
  have henters : lenderCalls.Enters ⟨.call, .ofNat 0⟩ lenderCalls.step.1 :=
    ⟨rfl, rfl, rfl, attempt_eq_ok (by decide +kernel),
      (List.isEmpty_iff.1 (by decide +kernel)).trans
        (List.isEmpty_iff.1 (by decide +kernel)).symm, by decide +kernel⟩
  have hstep : ∀ {m : Machine} {marks : List Mark} (marks' : List Mark),
      lenderCalls.step.1.Tidy m marks [] → m.step.1.world.heap.packages.toList.all
        (fun p => p.symbols.all m.step.1.world.scopes.contains) = true →
      m.turned marks = some marks' → m.definedBy [] = [] →
      lenderCalls.step.1.Tidy m.step.1 marks' [] :=
    fun _ before hlive hturned hdefined =>
      hdefined ▸ before.step (hiddenLive_of_all hlive) hturned
  have hentered : lenderCalls.step.1.Tidy lenderCalls.step.1 [] [] :=
    .start (hiddenLive_of_all (by decide +kernel))
  have hload := hstep [] hentered (by decide +kernel) (by decide +kernel) (by decide +kernel)
  have hmember := hstep [] hload (by decide +kernel) (by decide +kernel) (by decide +kernel)
  have hcall := hstep [.function] hmember (by decide +kernel) (by decide +kernel)
    (by decide +kernel)
  have hpush := hstep [.function] hcall (by decide +kernel) (by decide +kernel)
    (by decide +kernel)
  have hstore := hstep [.function] hpush (by decide +kernel) (by decide +kernel) (by decide +kernel)
  have hbody : lenderCalls.step.1.Tidy lenderReturns [] [] :=
    hstep [] hstore (by decide +kernel) (by decide +kernel) (by decide +kernel)
  have hleaves : lenderReturns.Leaves lenderCalls.suspended.length
      lenderCalls.step.1.context.fp lenderReturns.step.1 :=
    leaves_of_opcode (by decide +kernel) (by decide +kernel) (by decide +kernel)
      (by decide +kernel)
  have hcaller : lenderCalls.world.scopes.contains lenderCalls.context.symbols = true := by
    decide +kernel
  have hlive : lenderReturns.step.1.HiddenLive := hiddenLive_of_all (by decide +kernel)
  have hthere : 0 < lenderReturns.world.heap.packages.size := by decide +kernel
  have hopen : lenderReturns.ready.context.packages = lenderCalls.context.packages :=
    (List.isEmpty_iff.1 (by decide +kernel)).trans (List.isEmpty_iff.1 (by decide +kernel)).symm
  have hready : lenderReturns.readyMarks [] = some [] := by decide +kernel
  have hcallee : lenderCalls.callee? ⟨.call, .ofNat 0⟩ = some (.member ⟨0⟩ relay) := rfl
  have hbegins : lender.Begins := ⟨⟨OnlyValues.empty, rfl, rfl, rfl⟩, rfl, lentScopes_sound⟩
  obtain ⟨scope, hscope, -, hwritten, -⟩ := return_writes_copies_back hbegins hreached hcaller
    henters hcallee hbody hready hopen hleaves hlive hthere
  have hparent : lenderCalls.step.1.world.scopes.parent? lenderCalls.step.1.context.symbols
      = some ⟨2, 0⟩ := by decide +kernel
  obtain rfl := Option.some.inj (hscope.symm.trans hparent)
  have hcopy : lenderReturns.world.scopes.getLocal? ⟨2, 0⟩ "X" = some (.bool false) :=
    eq_some_bool (by decide +kernel)
  have hreaches : lenderReturns.world.Reaches (lenderCalls.world.heap.package ⟨0⟩).name
      (lenderReturns.world.scopes.nextScope lenderReturns.ready.context.symbols)
      lenderCalls.context.symbols ⟨0⟩ := ⟨by decide +kernel, ⟨0⟩, by decide +kernel, .inl rfl⟩
  have hmember : packageMember lenderReturns.world ⟨0⟩ "X" = .ok (.bool true) :=
    packageMember_of_variable (eq_some_bool (by decide +kernel)) rfl
  exact ⟨hreached, hcaller, henters, hcallee, hbody, hready, hopen, hleaves, hlive, hthere, hmember,
    (hwritten hreaches "X" _ hcopy rfl).1⟩

end Machine

end ScriptMachine
