import ScriptMachine.Proofs.Constants.Leaving
import ScriptMachine.Proofs.Loops.Ensemble

/-!
# Constants in runs

Constants stay constant: once a name was made constant, loading it gives the value as long as the
table is there, unless the name is bound anew by an instruction that does so whatever the
protection. Two more things would change the value: a write through the address of the constant, and
the variables that are written back when functions of a package are left.

* `Instruction.Rebinds`, `Instruction.StoresThrough`: an instruction binds a constant anew, or
  writes through its address.
* `Machine.Respects`: the next step does neither, nor is a variable written back to the constant.
* `Machine.Binding.step`: such a step keeps constants bound.
* `Ensemble.Lasts`, `Ensemble.constants_stay`: so they stay the same in all states of a run.
-/

namespace ScriptMachine

/-! ### Instructions -/

/-- An instruction binds a constant anew whatever its protection: it is one of those that are there
for this, and the name and the table are those of the constant. -/
def Instruction.Rebinds (i : Instruction) (m : Machine) (k : Constant) : Prop :=
  match i.op with
  | .constant | .storeAlways | .storeBytecode | .getThis =>
    k.address.table = m.context.symbols ∧ i.operand.string? = some k.name
  | .storeGlobal => k.address.table = .root ∧ i.operand.string? = some k.name
  | .import => k.address.table = m.context.symbols ∧
    ∃ path, i.operand.string? = some path ∧ (path.splitOn "/").getLastD path = k.name
  | .explode => k.address.table = m.context.symbols ∧ ∃ v r,
    m.context.stack.back? = some (.value v) ∧ v.unwrapped = .map r ∧
      ∃ key ∈ (m.world.heap.map r).keys, m.world.heap.display key = k.name
  | .popPackage => k.address.table = .root ∧
    ∃ scope rest, m.context.packages = scope :: rest ∧ scope.name = k.name
  | _ => False

/-- An instruction writes through the address of a constant. -/
def Instruction.StoresThrough (i : Instruction) (m : Machine) (k : Constant) : Prop :=
  i.op = .storeViaPointer ∧ ∃ name v, i.operand.string? = some name ∧
    m.world.scopes.get? m.context.symbols name = some v ∧ v.unwrapped = .pointer k.address

namespace Exec

variable {K : Set Constant} {m : Machine} (hfree : ∀ k ∈ K, ¬ IsReserved k.name)

include hfree

theorem continueReturn_binding (hm : m.Binding K)
    (happart : m.context.deferred = [] → 0 < m.context.fp → ∀ k ∈ K, ¬ m.world.Lends k) :
    (outcome continueReturn m).2.Binding K := by
  unfold continueReturn
  rw [outcome_bind_ok (outcome_context m)]
  split
  · refine (Binding.aside ?_ m hm).1
    exact (KeepsScopes.modifyContext _).bind fun _ => (KeepsScopes.quiet (.noteThread _ _)).bind
      fun _ => (KeepsScopes.callContext _ _ _ _).bind fun _ =>
      (KeepsScopes.modifyContext _).bind fun _ => KeepsScopes.enterScratch _ _
  · rename_i hdeferred
    split
    · rename_i hfp
      exact (Receding.popFrame hfree m (.start hm (happart hdeferred hfp))).1.fixes
    · exact hm

theorem return_binding (operand : Value) (hm : m.Binding K)
    (happart : m.context.deferred = [] → 0 < m.context.fp → ∀ k ∈ K, ¬ m.world.Lends k) :
    (outcome (return_ operand) m).2.Binding K := by
  unfold return_
  split
  · have hquiet := (Binding.aside (.quiet .popValue) m hm).1
    change (outcome popValue m).2.Binding K at hquiet
    rw [outcome_bind]
    rcases hout : outcome popValue m with ⟨e | v, m'⟩ <;> rw [hout] at hquiet
    · exact hquiet
    · obtain ⟨-, rfl⟩ := outcome_popValue hout
      exact continueReturn_binding hfree hm happart
  · exact continueReturn_binding hfree hm happart

/-- **An instruction** that neither binds a constant anew nor writes through its address keeps it,
as does a return that writes no variable back to it. -/
theorem execute_binding {i : Instruction} (hm : m.world.scopes.FixesAll K)
    (hrebinds : ∀ k ∈ K, ¬ i.Rebinds m k) (hstores : ∀ k ∈ K, ¬ i.StoresThrough m k)
    (happart : i.op = .return → m.context.deferred = [] → 0 < m.context.fp →
      ∀ k ∈ K, ¬ m.world.Lends k) : (outcome (execute i) m).2.Binding K := by
  have hlocal {act : Exec Unit} (h : Fixing K (· = m.context.symbols) act fun _ => True) :
      (outcome act m).2.Binding K := (h m ⟨hm, rfl⟩).1.scopes.toFixes
  have hcall {act : Exec Unit} (h : Fixing K (fun _ => True) act fun _ => True) :
      (outcome act m).2.Binding K := (h m ⟨hm, trivial⟩).1.scopes.toFixes
  by_cases hquiet : i.op.isLocal = true ∧ i.op.writesSymbols = false
  · exact hlocal (.quiet (execute_isPlain hquiet.1 (fun hwrites => by
      rw [hquiet.2] at hwrites
      cases hwrites) fun _ => trivial))
  obtain ⟨op, operand⟩ := i
  -- The instructions that bind a name in the current table, whatever its protection.
  have hhere (hname : ∀ k : Constant, k.address.table = m.context.symbols →
      operand.string? = some k.name → Instruction.Rebinds ⟨op, operand⟩ m k) :
      ∀ k ∈ K, k.address.table = m.context.symbols → operand.string? ≠ some k.name :=
    fun k hk htable heq => hrebinds k hk (hname k htable heq)
  cases op with
  | auth => exact hlocal (.authorize hfree operand)
  | constant => exact hlocal (.storeConstant operand (hhere fun k => .intro))
  | createAndStore => exact hlocal (.createAndStore operand)
  | explode =>
    refine (Fixing.explode ⟨hm, rfl⟩ fun k hk htable v r hback hmap key hkey heq => ?_).scopes.toFixes
    exact hrebinds k hk ⟨htable, v, r, hback, hmap, key, hkey, heq⟩
  | getThis => exact hlocal (.getReceiver operand (hhere fun k => .intro))
  | «import» =>
    exact hlocal (.importPackage operand fun k hk htable path hpath heq =>
      hrebinds k hk ⟨htable, path, hpath, heq⟩)
  | response => exact hlocal (.respond hfree)
  | setThis => exact hlocal (.setReceiver hfree operand)
  | staticTyping => exact hlocal (.staticTyping hfree)
  | store => exact hlocal (.storeName operand)
  | storeAlways => exact hlocal (.storeAlways operand (hhere fun k => .intro))
  | storeBytecode => exact hlocal (.storeCode operand (hhere fun k => .intro))
  | storeChan => exact hlocal (.transfer operand)
  | storeGlobal =>
    exact hlocal (.storeGlobal operand fun k hk htable heq => hrebinds k hk ⟨htable.symm, heq⟩)
  | storeViaPointer =>
    refine (Fixing.storeThrough (S := fun _ => True) operand ⟨hm, trivial⟩
      fun k hk name v hname hv heq => ?_).scopes.toFixes
    exact hstores k hk ⟨rfl, name, v, hname, hv, heq⟩
  | symbolCreate => exact hlocal (.createSymbol operand)
  | symbolDelete => exact hlocal (.deleteSymbol operand)
  | symbolOptCreate => exact hlocal (.createIfMissing operand)
  | atLine => exact hcall (.aside (fun _ => trivial) (.atLine operand))
  | call => exact hcall (.call (fun _ => trivial) hfree operand)
  | defer => exact hcall (.aside (fun _ => trivial) (.deferCall operand))
  | entryPoint => exact hcall (.entryPoint (fun _ => trivial) hfree operand)
  | go => exact hcall (.aside (fun _ => trivial) (.go operand))
  | popPackage =>
    refine (Fixing.popPackage (S := fun _ => True) (fun _ => trivial) ⟨hm, trivial⟩
      fun k hk htable scope rest hpackages heq => ?_).scopes.toFixes
    exact hrebinds k hk ⟨htable.symm, scope, rest, hpackages, heq⟩
  | popScope => exact (Binding.popScope m hm.toFixes).1
  | pushPackage => exact hcall (.pushPackage (fun _ => trivial) operand)
  | pushScope => exact hcall (.pushScope fun _ => trivial)
  | rangeInit => exact hcall (.beginLoop (fun _ => trivial) operand)
  | «return» => exact return_binding hfree operand hm.toFixes (happart rfl)
  | tryPop => exact hcall (.disarm hfree)
  | wait => exact hcall (.aside (fun _ => trivial) (.await operand))
  | willCatch => exact hcall (.aside (fun _ => trivial) (.narrow operand))
  | localCall => exact hcall (.localCall (fun _ => trivial) operand)
  | rangeNext => exact hcall (.nextRound (fun _ => trivial) operand)
  | «try» => exact hcall (.aside (fun _ => trivial) (.arm operand))
  | _ => exact absurd ⟨rfl, rfl⟩ hquiet

/-- What goes on in a context once the one that it waited for has ended. -/
theorem afterScratch_binding (awaiting : Awaiting) (scratch : Context) (result : Except Fault Unit)
    (hm : m.Binding K) (happart : awaiting = .deferred → result = .ok () →
      m.context.deferred = [] → 0 < m.context.fp → ∀ k ∈ K, ¬ m.world.Lends k) :
    (outcome (afterScratch awaiting scratch result) m).2.Binding K := by
  unfold afterScratch
  split
  · rw [outcome_bind_ok (outcome_modifyContext _ m)]
    split
    · exact continueReturn_binding hfree hm (happart rfl rfl)
    · exact hm
  · split
    · exact (Binding.aside (Keeps.heap.bind fun _ => KeepsScopes.sortAfter _ _ _ _ _ _) m hm).1
    · exact (Binding.aside (.settleLibraryFault _ _) m hm).1

end Exec

/-! ### Steps -/

namespace Machine

/-- The next step neither binds a constant anew nor writes through its address, and if it leaves a
function, by a return after the last deferred call or for a fault, then nothing lends to the
constant. -/
structure Respects (m : Machine) (k : Constant) : Prop where
  rebinds : ∀ i, m.ended = none → m.next? = some i → ¬ i.Rebinds m k
  stores : ∀ i, m.ended = none → m.next? = some i → ¬ i.StoresThrough m k
  returns : m.Returns → m.ready.context.deferred = [] → 0 < m.ready.context.fp →
    ¬ m.world.Lends k
  gives : ∀ f m₁, m.attempt = (.error (.fault f), m₁) → m₁.GivesUp f → ¬ m₁.world.Lends k

variable {K : Set Constant} {m : Machine} {k : Constant}

/-- An instruction that raises no fault and is no return respects a constant that it neither binds
anew nor writes through its address. -/
theorem Respects.of_ok {i : Instruction} (hended : m.ended = none) (hnext : m.next? = some i)
    (hreturn : i.op ≠ .return) (hrebinds : ¬ i.Rebinds m k) (hstores : ¬ i.StoresThrough m k)
    (hok : m.attempt.1 = .ok ()) : m.Respects k where
  rebinds j _ hj := Option.some.inj (hnext.symm.trans hj) ▸ hrebinds
  stores j _ hj := Option.some.inj (hnext.symm.trans hj) ▸ hstores
  returns h := by
    unfold Returns at h
    rw [hended] at h
    obtain ⟨operand, hi⟩ := h
    exact absurd (Option.some.inj (hnext.symm.trans hi) ▸ rfl) hreturn
  gives f m₁ hfault := by
    rw [hfault] at hok
    cases hok

/-- What a step attempts keeps constants bound. -/
theorem attempt_binding (hfree : ∀ k ∈ K, ¬ IsReserved k.name) (hm : m.world.scopes.FixesAll K)
    (hrespects : ∀ k ∈ K, m.Respects k) : m.attempt.2.Binding K := by
  have hready : m.ready.Binding K := by
    rw [Binding, ready_world]
    exact hm.toFixes
  unfold attempt action
  split
  · exact hready
  · rename_i result s rest hended hsuspended
    refine Exec.afterScratch_binding hfree _ _ _ hready fun hawaiting _ hdeferred hfp k hk => ?_
    rw [ready_world]
    refine (hrespects k hk).returns ?_ hdeferred hfp
    unfold Returns
    rw [hended, hsuspended]
    exact hawaiting
  · rename_i hended
    have hsame : m.ready = m := by
      unfold ready
      rw [hended]
    rw [hsame]
    split
    · rename_i i hi
      obtain ⟨journal, running, observer, hbegin⟩ := Exec.outcome_begin i m
      rw [Exec.outcome_bind_ok hbegin]
      refine Exec.execute_binding hfree hm (fun k hk => (hrespects k hk).rebinds i hended hi)
        (fun k hk => (hrespects k hk).stores i hended hi) fun hreturn hdeferred hfp k hk => ?_
      refine (hrespects k hk).returns ?_ (by rw [hsame]; exact hdeferred) (by rw [hsame]; exact hfp)
      obtain ⟨op, operand⟩ := i
      obtain rfl : op = .return := hreturn
      unfold Returns
      rw [hended]
      exact ⟨operand, hi⟩
    · exact (Exec.Binding.aside .finish m hm.toFixes).1

/-- **A step** that respects constants keeps them bound. -/
theorem Binding.step (hfree : ∀ k ∈ K, ¬ IsReserved k.name) (hm : m.world.scopes.FixesAll K)
    (hrespects : ∀ k ∈ K, m.Respects k) : m.step.1.Binding K := by
  have hattempt := attempt_binding hfree hm hrespects
  rcases m.step_cases with ⟨hok, -⟩ | ⟨f, m₁, hfault, hsettle, -⟩ | ⟨hwait, -⟩
  · rw [hok] at hattempt
    exact hattempt
  · rw [hfault] at hattempt
    have hsettled := Exec.settle_binding hfree hattempt f fun hgives k hk =>
      (hrespects k hk).gives f m₁ hfault hgives
    rw [hsettle] at hsettled
    exact hsettled
  · rw [hwait, Binding, ready_world]
    exact hm.toFixes

/-- The next step makes a name constant: the name, the value on top of the stack without its
constant wrappers, and the slot that the name gets in the current table are those of the constant. -/
structure Defines (m : Machine) (k : Constant) : Prop where
  going : m.ended = none
  next : ∃ operand, m.next? = some ⟨.constant, operand⟩ ∧ operand.string? = some k.name
  top : m.context.fp < m.context.stack.size ∧ ∃ v, m.context.stack.back? = some (.value v) ∧
    v.isMarker = false ∧ v.unwrapped = k.value
  table : ∃ t, m.world.scopes.table? m.context.symbols = some t ∧
    k.address = ⟨m.context.symbols, t.slotFor k.name⟩

/-- **A step that makes a name constant** binds the constant. -/
theorem Defines.step (h : m.Defines k) (hsound : m.world.scopes.Sound) :
    m.step.1.world.scopes.FixesAll {k} := by
  obtain ⟨operand, hnext, hname⟩ := h.next
  obtain ⟨hsize, v, hback, hmarker, hvalue⟩ := h.top
  obtain ⟨t, ht, haddress⟩ := h.table
  obtain ⟨journal, running, observer, hbegin⟩ := Exec.outcome_begin ⟨.constant, operand⟩ m
  obtain ⟨a, ha⟩ : ∃ a, m.world.scopes.setConstant m.context.symbols k.name
      (.constant v.unwrapped) = .ok a := by
    unfold Arena.setConstant Arena.update Arena.table
    rw [ht]
    exact ⟨_, rfl⟩
  have hattempt : ∃ m', m.attempt = (.ok (), m') ∧ m'.world.scopes = a := by
    unfold attempt action ready
    rw [h.going, hnext]
    dsimp only
    rw [Exec.outcome_bind_ok hbegin]
    have hpop := Exec.outcome_popValue_of_back? (m := { m with
      world := { m.world with journal }
      context := { m.context with pc := m.context.pc + 1, running, observer } }) hsize hback hmarker
    exact ⟨_, Exec.Fixing.outcome_storeConstant hname hpop ha, rfl⟩
  obtain ⟨m', hok, hscopes⟩ := hattempt
  have hstep : m.step.1 = m' := by
    rcases m.step_cases with ⟨hok', -⟩ | ⟨f, m₁, hfault, -⟩ | ⟨-, e, hfault⟩
    · exact congrArg Prod.snd (hok'.symm.trans hok)
    · rw [hok] at hfault
      cases hfault
    · rw [hok] at hfault
      cases hfault
  obtain ⟨hfixes, hlive⟩ := Arena.fixes_of_setConstant hsound ht ha
  have hk : (⟨⟨m.context.symbols, t.slotFor k.name⟩, k.name, v.unwrapped⟩ : Constant) = k := by
    rw [← haddress, hvalue]
  rw [hstep, hscopes]
  rw [hk] at hfixes
  refine ⟨hfixes, fun k' hk' => ?_⟩
  rw [Set.mem_singleton_iff.1 hk', haddress]
  exact hlive

/-- **A constant is loaded** wherever its name is resolved to its table. -/
theorem Binding.load (hm : m.Binding {k}) (c : Context) {operand : Value} {s : Symbol}
    (hname : operand.string? = some k.name)
    (hresolve : m.world.scopes.resolve c.symbols k.name = some (k.address.table, s)) :
    Exec.outcome (Exec.execute ⟨.load, operand⟩) { m with context := c }
      = Exec.outcome (Exec.push k.value.unwrapped) { m with context := c } := by
  have hget := Arena.Fixes.get? hm rfl hresolve
  have hlookup := Exec.Fixing.outcome_lookup k.name { m with context := c }
  simp only [hget] at hlookup
  show Exec.outcome (Exec.loadName operand) _ = _
  unfold Exec.loadName Exec.operandName
  rw [hname]
  dsimp only
  rw [Exec.outcome_bind_ok (Exec.outcome_pure _ _), Exec.outcome_bind_ok hlookup]
  rfl

end Machine

/-! ### Runs of all threads -/

namespace Ensemble

open Machine

variable {K : Set Constant} {k : Constant} {start : Machine} {e e' : Ensemble}

theorem Passes.binding (h : Passes e e') (he : e.machine.world.scopes.FixesAll K) :
    e'.machine.Binding K := by
  cases h with
  | @begin m gone id name callable args settings table t world htask hbegun =>
    have hscopes : ((beginTask name callable args settings).run m.world).2.scopes
        = (m.world.scopes.newChild name .root true).2 := rfl
    rw [hbegun] at hscopes
    show Arena.Fixes K world.scopes
    rw [hscopes]
    exact (he.newChild name .root true).1.toFixes
  | take m gone htask => exact he.toFixes
  | back m t gone => exact he.toFixes
  | @finish m t gone result =>
    obtain ⟨journal, hrun⟩ := run_endTask t.name t.table result m.world
    show Arena.Fixes K ((endTask t.name t.table result).run m.world).2.scopes
    rw [hrun]
    exact he.toFixes.remove t.table
  | resume m gone switches => exact he.toFixes
  | join m gone => exact (Exec.Binding.aside .joinTasks m he.toFixes).1

/-- The scopes of a run stay sound. -/
theorem Reached.sound (h : Reached start e) (hstart : start.world.scopes.Sound) :
    e.machine.world.scopes.Sound := by
  have hempty {a : Arena} (ha : a.Sound) : a.FixesAll ∅ :=
    ⟨⟨ha, fun _ hk => hk.elim⟩, fun _ hk => hk.elim⟩
  induction h with
  | start => exact hstart
  | next _ h ih =>
    cases h with
    | step => exact (Binding.step (fun _ hk => hk.elim) (hempty ih) fun _ hk => hk.elim).sound
    | passes h => exact (h.binding (hempty ih)).sound

/-- What may happen next without a constant being disturbed. -/
inductive Tends (k : Constant) (e : Ensemble) : Ensemble → Prop
  | step (respects : e.machine.Respects k) : Tends k e e.stepped
  | passes {e' : Ensemble} (h : Passes e e') : Tends k e e'

/-- A later state of a run; all the while the table of a constant is live, and the constant is not
disturbed. -/
inductive Lasts (k : Constant) (e : Ensemble) : Ensemble → Prop
  | here : Lasts k e e
  | next {e' e'' : Ensemble} (before : Lasts k e e') (h : Tends k e' e'')
      (live : e''.machine.world.scopes.contains k.address.table = true) : Lasts k e e''

theorem Tends.next (h : Tends k e e') : Next e e' := by
  cases h with
  | step => exact .step
  | passes h => exact .passes h

theorem Lasts.reached (h : Lasts k e e') (he : Reached start e) : Reached start e' := by
  induction h with
  | here => exact he
  | next _ h _ ih => exact ih.next h.next

/-- What may happen leaves the constant bound. -/
theorem Tends.binding (h : Tends k e e') (hfree : ¬ IsReserved k.name)
    (he : e.machine.world.scopes.FixesAll {k}) : e'.machine.Binding {k} := by
  cases h with
  | step respects =>
    refine Binding.step (fun k' hk' => ?_) he fun k' hk' => ?_
    · rwa [Set.mem_singleton_iff.1 hk']
    · rwa [Set.mem_singleton_iff.1 hk']
  | passes h => exact h.binding he

theorem Lasts.fixes (h : Lasts k e e') (hfree : ¬ IsReserved k.name)
    (he : e.machine.world.scopes.FixesAll {k}) : e'.machine.world.scopes.FixesAll {k} := by
  induction h with
  | here => exact he
  | next _ h live ih =>
    refine ⟨h.binding hfree ih, fun k' hk' => ?_⟩
    rwa [Set.mem_singleton_iff.1 hk']

/-- **Constants stay constant**: once a name that the machine does not bind itself was made
constant, every load that resolves it to its table gives the value, from any scope and in any
context, as long as the table is live and the constant is not disturbed. -/
theorem constants_stay (hsound : start.world.scopes.Sound) (hreached : Reached start e)
    (hfree : ¬ IsReserved k.name) (hdefines : e.machine.Defines k)
    (hlasts : Lasts k e.stepped e') : Reached start e' ∧
      ∀ (c : Context) (operand : Value) (s : Symbol), operand.string? = some k.name →
        e'.machine.world.scopes.resolve c.symbols k.name = some (k.address.table, s) →
        Exec.outcome (Exec.execute ⟨.load, operand⟩) { e'.machine with context := c }
          = Exec.outcome (Exec.push k.value) { e'.machine with context := c } := by
  have hfixes := hlasts.fixes hfree (hdefines.step (hreached.sound hsound))
  refine ⟨hlasts.reached (hreached.next .step), fun c operand s hname hresolve => ?_⟩
  obtain ⟨-, v, -, -, hvalue⟩ := hdefines.top
  rw [Binding.load hfixes.toFixes c hname hresolve, ← hvalue, Value.unwrapped_unwrapped]

/-- A machine about to make a name constant, and to take its address in an inner scope. -/
def constantKeeper : Machine :=
  .ofContext {} {
    name := "main"
    thread := 1
    symbols := .root
    code := ⟨"main", #[⟨.push, .ofNat 7⟩, ⟨.constant, .string "n"⟩, .plain .pushScope,
      ⟨.addressOf, .string "n"⟩, ⟨.load, .string "n"⟩], none, true, false⟩
    running := true }

/-- Its one constant. -/
def constantKeeper.constant : Constant := ⟨⟨.root, 0⟩, "n", .ofNat 7⟩

/-- The states of its run. -/
def constantKeeper.after : Nat → Ensemble
  | 0 => ⟨constantKeeper, none, []⟩
  | steps + 1 => (after steps).stepped

/-- The constant has its value in the inner scope, once its address was taken. -/
theorem constants_stay_of_keeper :
    constantKeeper.world.scopes.Sound ∧ Reached constantKeeper (constantKeeper.after 1) ∧
      ¬ IsReserved constantKeeper.constant.name ∧
      (constantKeeper.after 1).machine.Defines constantKeeper.constant ∧
      Lasts constantKeeper.constant (constantKeeper.after 2) (constantKeeper.after 4) ∧
      Exec.outcome (Exec.execute ⟨.load, .string "n"⟩) (constantKeeper.after 4).machine
        = Exec.outcome (Exec.push (.ofNat 7)) (constantKeeper.after 4).machine := by
  have hsound : constantKeeper.world.scopes.Sound := Arena.initial_sound
  have hreached : Reached constantKeeper (constantKeeper.after 1) := Reached.start.next .step
  have hfree : ¬ IsReserved constantKeeper.constant.name := by
    rintro (hmem | ⟨n, hn⟩)
    · exact absurd hmem (by decide +kernel)
    · have hhead := congrArg (fun name => name.toList.head?) hn
      have hdollar : (toString "$this").toList.head? = some '$' := by decide +kernel
      simp [constantKeeper.constant, hdollar] at hhead
  have hdefines : (constantKeeper.after 1).machine.Defines constantKeeper.constant := by
    refine ⟨by with_unfolding_all rfl, ⟨.string "n", by with_unfolding_all rfl, rfl⟩,
      ⟨by decide +kernel, .ofNat 7, by with_unfolding_all rfl, rfl, rfl⟩, ?_⟩
    exact ⟨_, by with_unfolding_all rfl, by with_unfolding_all rfl⟩
  have hscope : (constantKeeper.after 2).machine.Respects constantKeeper.constant :=
    .of_ok (i := .plain .pushScope) (by with_unfolding_all rfl) (by with_unfolding_all rfl) nofun
      id nofun (by with_unfolding_all rfl)
  have haddress : (constantKeeper.after 3).machine.Respects constantKeeper.constant :=
    .of_ok (i := ⟨.addressOf, .string "n"⟩) (by with_unfolding_all rfl)
      (by with_unfolding_all rfl) nofun id nofun (by with_unfolding_all rfl)
  have hlasts : Lasts constantKeeper.constant (constantKeeper.after 2) (constantKeeper.after 4) :=
    .next (.next .here (.step hscope) (by decide +kernel)) (.step haddress) (by decide +kernel)
  obtain ⟨-, hload⟩ := constants_stay hsound hreached hfree hdefines hlasts
  have hresolve : (constantKeeper.after 4).machine.world.scopes.resolve
      (constantKeeper.after 4).machine.context.symbols "n"
        = some (.root, ⟨"n", 0, false, true⟩) := by decide +kernel
  exact ⟨hsound, hreached, hfree, hdefines, hlasts, hload _ (.string "n") _ rfl hresolve⟩

end Ensemble

end ScriptMachine
