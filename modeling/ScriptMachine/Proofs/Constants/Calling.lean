import ScriptMachine.Proofs.Constants.Writing
import ScriptMachine.Proofs.Loops.Winding

/-!
# Constants and calls

Blocks, packages and functions begin with tables of their own, which are those of no constant, and
what is bound there meanwhile is bound in these. Handlers, tasks, loops and comparisons of a sort
have to do with the context and the objects.

* `Exec.KeepsScopes`: an action leaves the scopes alone, with one lemma for each such action.
* `Fixing.callValue`, `Fixing.pushPackage` and companions: calls and openings keep constants bound.
* `Fixing.popPackage`: so does the end of a package, unless the package has the name of a constant.
-/

namespace ScriptMachine

/-- The scopes stay as they are. -/
def Machine.SameScopes (m m' : Machine) : Prop := m'.world.scopes = m.world.scopes

instance : Std.Refl Machine.SameScopes := ⟨fun _ => rfl⟩

instance : Trans Machine.SameScopes Machine.SameScopes Machine.SameScopes :=
  ⟨fun h₁ h₂ => Eq.trans h₂ h₁⟩

/-- An action leaves the scopes alone. -/
abbrev Exec.KeepsScopes {α : Type} (act : Exec α) : Prop := Exec.Keeps Machine.SameScopes act

namespace Exec.KeepsScopes

variable {α : Type}

theorem quiet {act : Exec α} (h : IsPlain False True act) : KeepsScopes act := fun m =>
  (h.staysIn m).scopes_eq

theorem change (f : Machine → Machine) (h : ∀ m, (f m).world.scopes = m.world.scopes) :
    KeepsScopes (modify f) := h

theorem modifyContext (f : Context → Context) : KeepsScopes (Exec.modifyContext f) := fun _ => rfl

theorem onHeap (act : StateM Heap α) : KeepsScopes (Exec.onHeap act) := fun _ => rfl

theorem onWorld {act : WorldM α} (h : ∀ w, (act.run w).2.scopes = w.scopes) :
    KeepsScopes (Exec.onWorld act) := fun m => h m.world

theorem observe (x : Happening) : KeepsScopes (Exec.observe x) := by
  refine Keeps.get.bind fun m => ?_
  dsimp only
  split
  · split
    · exact (quiet (.note _ _)).bind fun _ => modifyContext _
    · exact modifyContext _
  · exact modifyContext _

/-! ### Handlers, tasks and loops -/

theorem atLine (operand : Value) : KeepsScopes (Exec.atLine operand) :=
  (Keeps.lift _).bind fun _ => (modifyContext _).bind fun _ => Keeps.context.bind fun _ =>
    .ite (.fail _) (.pure _)

theorem arm (operand : Value) : KeepsScopes (Exec.arm operand) :=
  (quiet (.branchTarget trivial operand)).bind fun _ => modifyContext _

theorem narrow (operand : Value) : KeepsScopes (Exec.narrow operand) := by
  refine Keeps.context.bind fun c => ?_
  split
  · exact .fail _
  · exact (Keeps.lift _).bind fun _ => modifyContext _

theorem go (operand : Value) : KeepsScopes (Exec.go operand) := by
  refine (quiet (.operandCount operand 0)).bind fun count => (quiet (.popArgs count)).bind fun args =>
    (quiet .popUnwrapped).bind fun v => Keeps.heap.bind fun h => ?_
  exact (quiet (.noteThread _ _)).bind fun _ => change _ fun _ => rfl

theorem joinTasks : KeepsScopes Exec.joinTasks := by
  refine Keeps.get.bind fun m => ?_
  split
  · exact .wait
  · refine (modifyContext _).bind fun _ => ?_
    split
    · exact .fail _
    · exact .pure _

theorem awaitTarget (target : Option Value) : KeepsScopes
    (match target.map Value.unwrapped with
      | some (.waitGroup r) => Exec.ofWorldAction (WorldAction.awaitZero r)
      | _ => Exec.joinTasks) := by
  split
  · exact quiet (.ofWorldAction (.awaitZero _))
  · exact joinTasks

theorem await (operand : Value) : KeepsScopes (Exec.await operand) := by
  unfold Exec.await
  split
  · exact (Keeps.pure _).bind awaitTarget
  · exact (quiet (.lookup? _)).bind awaitTarget
  · exact (Keeps.pure _).bind awaitTarget

theorem walkOver (v : Value) : KeepsScopes (Exec.walkOver v) := by
  unfold Exec.walkOver
  split
  · exact .pure _
  · refine Keeps.heap.bind fun h => ?_
    split
    · exact (onHeap _).bind fun _ => .pure _
    · exact .pure _
  · refine Keeps.heap.bind fun h => ?_
    split
    · exact (onHeap _).bind fun _ => .pure _
    · exact .pure _
  · exact .pure _
  · exact .fail _

theorem release (l : Loop) : KeepsScopes (Exec.release l) := by
  unfold Exec.release
  split
  · exact onHeap _
  · exact onHeap _
  · exact .pure _
  · exact .pure _

theorem endLoops (count : Nat) : KeepsScopes (Exec.endLoops count) := by
  induction count with
  | zero => exact .pure _
  | succ count ih =>
    refine Keeps.context.bind fun c => ?_
    split
    · exact .pure _
    · exact (modifyContext _).bind fun _ => (release _).bind fun _ => ih

theorem endLoopsTo (depth : Nat) : KeepsScopes (Exec.endLoopsTo depth) :=
  Keeps.context.bind fun _ => endLoops _

theorem deferCall (operand : Value) : KeepsScopes (Exec.deferCall operand) :=
  (quiet (.operandCount operand 0)).bind fun _ => (quiet (IsOrdinary.popCall _)).bind fun _ =>
    modifyContext _

theorem finish : KeepsScopes Exec.finish :=
  (modifyContext _).bind fun _ => Keeps.context.bind fun _ => (quiet (.note _ _)).bind fun _ =>
    change _ fun _ => rfl

/-! ### Calls of library functions -/

theorem callContext (symbols : TableId) (settings : Settings) (callable : Value)
    (args : List Value) :
    KeepsScopes (Exec.onWorld (World.callContext symbols settings callable args)) :=
  onWorld fun _ => rfl

theorem enterScratch (scratch : Context) (awaiting : Awaiting) :
    KeepsScopes (Exec.enterScratch scratch awaiting) :=
  Keeps.bind (onWorld fun _ => rfl) fun _ => change _ fun _ => rfl

theorem settleLibraryFault (f : Native) (fault : Fault) :
    KeepsScopes (Exec.settleLibraryFault f fault) :=
  Keeps.context.bind fun _ => .ite (.fail _) ((quiet (.noteThread _ _)).bind fun _ =>
    quiet (.push _))

theorem askOrdering (r : Ref .array) (less : Value) (size i j : Nat) :
    KeepsScopes (Exec.askOrdering r less size i j) :=
  Keeps.context.bind fun _ => (callContext _ _ _ _).bind fun _ => enterScratch _ _

theorem sortNext (r : Ref .array) (less : Value) (size i : Nat) :
    KeepsScopes (Exec.sortNext r less size i) :=
  .ite (askOrdering r less size i i) (quiet (.push _))

theorem sortAfter (r : Ref .array) (less : Value) (size i j : Nat) (goesFirst : Bool) :
    KeepsScopes (Exec.sortAfter r less size i j goesFirst) := by
  refine .ite ((onHeap _).bind fun result => ?_) (sortNext r less size _)
  cases result with
  | ok => exact .ite (askOrdering r less size i _) (sortNext r less size _)
  | error fault => exact settleLibraryFault _ fault

theorem beginSort (args : List Value) : KeepsScopes (Exec.beginSort args) := by
  unfold Exec.beginSort
  dsimp only
  split
  · exact Keeps.heap.bind fun _ => sortNext _ _ _ _
  · exact settleLibraryFault _ _

theorem callNative (f : Native) (receiver : Option Value) (args : List Value) :
    KeepsScopes (Exec.callNative f receiver args) := by
  refine .ite (.fail _) (.ite (beginSort args) ?_)
  refine (onWorld fun w => ((WorldAction.IsPlain.apply f receiver args).keeps w).1).bind fun result => ?_
  split
  · exact quiet (.push _)
  · exact settleLibraryFault f _
  · exact .wait

theorem checkTypes (parameters : List Parameter) (args : List Value) : KeepsScopes (do
    let m ← MonadState.get
    if m.context.staticTypes then
      for (p, v) in parameters.zip args do
        if !p.type.accepts (m.world.heap.typeOf v) then
          Exec.fail (.about .argumentType p.name)) := by
  refine Keeps.get.bind fun m => .ite ?_ (.pure _)
  exact (Keeps.forIn _ _ _ fun p _ => .ite ((Keeps.fail _).bind fun _ => .pure _) (.pure _)).bind
    fun _ => .pure _

theorem checkCall (code : Code) (args : List Value) : KeepsScopes (Exec.checkCall code args) := by
  unfold Exec.checkCall
  split
  · exact .ite ((Keeps.fail _).bind fun _ => checkTypes _ args) (checkTypes _ args)
  · exact .pure _

end Exec.KeepsScopes

namespace Exec.Fixing

variable {K : Set Constant} {S : TableId → Prop} {α : Type} (hS : ∀ id, S id)

/-! ### Loops -/

theorem createLoopName (name : String) : Fixing K S (Exec.createLoopName name) fun _ => True :=
  .bind .get fun _ _ => .ite (create name) (.pure trivial)

theorem storeLoopName (name : String) (v : Value) :
    Fixing K S (Exec.storeLoopName name v) fun _ => True := .ite (store name v) (.pure trivial)

include hS

/-- Where the current table does not matter, actions that leave the scopes alone may change it. -/
theorem aside {act : Exec α} (h : KeepsScopes act) : Fixing K S act fun _ => True := fun m hm =>
  ⟨⟨(h m : _ = _) ▸ hm.scopes, hS _⟩, .any _⟩

theorem beginLoop (operand : Value) : Fixing K S (Exec.beginLoop operand) fun _ => True := by
  refine .bind (quiet .heap) fun h _ => ?_
  dsimp only
  exact .bind (createLoopName _) fun _ _ => .bind (createLoopName _) fun _ _ =>
    .bind (quiet .popUnwrapped) fun v _ => .bind (aside hS (.walkOver v)) fun _ _ =>
    modifyContext fun _ hc => hc

/-- Loops bind their names by ordinary assignment. -/
theorem nextRound (operand : Value) : Fixing K S (Exec.nextRound operand) fun _ => True := by
  refine .bind (quiet (.branchTarget trivial operand)) fun leave _ => .bind context fun c _ => ?_
  split
  · exact modifyContext fun _ hc => hc
  · rename_i l rest hloops
    refine .bind (quiet (nextOf_isPlain l)) fun round _ => ?_
    split
    · exact .bind (modifyContext fun _ hc => hc) fun _ _ => aside hS (.release l)
    · exact .bind (modifyContext fun _ hc => hc) fun _ _ => .bind (storeLoopName _ _) fun _ _ =>
        storeLoopName _ _

/-! ### Blocks and functions -/

/-- A new table is that of no constant. -/
theorem newChild (name : String) (parent : TableId) (boundary : Bool) :
    Fixing K S (Exec.onWorld (World.newChild name parent boundary)) fun id =>
      ∀ k ∈ K, id ≠ k.address.table := by
  intro m hm
  obtain ⟨hfixes, hne⟩ := hm.scopes.newChild name parent boundary
  exact ⟨⟨hfixes, hS _⟩, .ok hne⟩

theorem pushScope : Fixing K S Exec.pushScope fun _ => True :=
  .bind context fun _ _ => .bind (newChild hS _ _ _) fun _ _ => modifyContext fun _ _ => hS _

theorem pushFrame (name : String) (table : TableId) (code : Code) (pc : Nat) :
    Fixing K S (Exec.pushFrame name table code pc) fun _ => True :=
  .bind context fun _ _ => .bind (quiet (.noteThread _ _)) fun _ _ =>
    .bind (modifyContext fun _ _ => hS _) fun _ _ => .bind context fun _ _ => aside hS (.observe _)

theorem enterChild (name : String) (code : Code) (pc : Nat) (boundary : Bool) :
    Fixing K S (Exec.enterChild name code pc boundary) fun _ => True :=
  .bind context fun _ _ => .bind (newChild hS _ _ _) fun _ _ => pushFrame hS _ _ _ _

omit hS in
theorem storeAllIn {table : TableId} (htable : ∀ k ∈ K, table ≠ k.address.table)
    (bindings : List (String × Value)) :
    Fixing K S (Exec.storeAllIn table bindings) fun _ => True :=
  .bind (.forIn fun _ _ => .bind (storeIn _ _ _ fun k hk heq => absurd heq (htable k hk)) fun _ _ =>
    .pure trivial) fun _ _ => .pure trivial

section

variable (hfree : ∀ k ∈ K, ¬ IsReserved k.name)

include hfree

theorem callCode (code : Code) (args : List Value) :
    Fixing K S (Exec.callCode code args) fun _ => True :=
  .bind (aside hS (.checkCall code args)) fun _ _ => .bind context fun _ _ =>
    .bind (enterChild hS _ _ _ _) fun _ _ => .bind (quiet (.onHeap (.newList args))) fun _ _ =>
    storeHere _ _ fun k hk _ => ne_of_reserved hfree (.inl (by simp)) k hk

omit hfree in
theorem callMember (package : Ref .package) (code : Code) (args : List Value) :
    Fixing K S (Exec.callMember package code args) fun _ => True := by
  have henter : ∀ (scope : TableId) (name : String), Fixing K S (do
      let table ← Exec.onWorld (World.newChild code.name scope false)
      Exec.pushFrame code.name table code 0
      Exec.modifyContext fun c => { c with package := name }
      Exec.storeIn table "__args" (← Exec.onHeap (Heap.newList args))) fun _ => True :=
    fun scope name => .bind (newChild hS _ _ _) fun table htable =>
      .bind (pushFrame hS _ _ _ _) fun _ _ => .bind (modifyContext fun _ hc => hc) fun _ _ =>
      .bind (quiet (.onHeap (.newList args))) fun _ _ =>
      storeIn _ _ _ fun k hk heq => absurd heq (htable k hk)
  refine .bind (aside hS (.checkCall code args)) fun _ _ => .bind (quiet .heap) fun h _ => ?_
  dsimp only
  refine .bind context fun _ _ => .bind (newChild hS _ _ _) fun scope hscope => ?_
  refine .bind scopes fun a ha => .bind (check _) fun b hb =>
    .bind (setScopes (ha.write (w := .setPackage scope _) (fun _ _ => id) hb)) fun _ _ =>
    .bind (storeAllIn hscope _) fun _ _ => ?_
  split
  · exact .bind scopes fun _ _ => .bind (storeAllIn hscope _) fun _ _ => henter scope _
  · exact henter scope _

theorem callValue (callable : Value) (args : List Value) :
    Fixing K S (Exec.callValue callable args) fun _ => True := by
  unfold Exec.callValue
  split
  · exact callCode hS hfree _ args
  · exact callMember hS _ _ args
  · exact aside hS (.callNative _ _ args)
  · exact quiet (IsOrdinary.construct _ args)
  · exact fail _

theorem call (operand : Value) : Fixing K S (Exec.call operand) fun _ => True :=
  .bind (quiet (.operandCount operand 0)) fun _ _ => .bind context fun _ _ =>
    .bind (modifyContext fun _ hc => hc) fun _ _ => .bind (quiet (IsOrdinary.popCall _)) fun _ _ =>
    callValue hS hfree _ _

omit hfree in
theorem localCall (operand : Value) : Fixing K S (Exec.localCall operand) fun _ => True :=
  .bind (quiet (.branchTarget trivial operand)) fun _ _ => .bind context fun _ _ => enterChild hS _ _ _ _

theorem entryPoint (operand : Value) : Fixing K S (Exec.entryPoint operand) fun _ => True :=
  .bind (quiet (.lookup _)) fun _ _ => callValue hS hfree _ _

omit hS in
/-- The end of a handler deletes the fault that it may have caught. -/
theorem disarm : Fixing K S Exec.disarm fun _ => True := by
  refine .bind context fun c _ => ?_
  split
  · exact fail _
  · exact .bind (modifyContext fun _ hc => hc) fun _ _ =>
      write (.delete c.symbols "_error" true) fun k hk hits =>
        ne_of_reserved hfree (.inl (by simp)) k hk hits.2.2

end

/-! ### Packages -/

theorem pushPackage (operand : Value) : Fixing K S (Exec.pushPackage operand) fun _ => True := by
  have hnamed : ∀ name, Fixing K S (Exec.packageNamed name) fun _ => True := by
    intro name
    refine .bind scopes fun a _ => ?_
    dsimp only
    split
    · exact .pure trivial
    · exact quiet (.onHeap (.newPackage _))
  have htable : ∀ r name, Fixing K S (Exec.packageTable r name) fun _ => True := by
    intro r name
    refine .bind (quiet .heap) fun h _ => .bind scopes fun a _ => ?_
    split
    · exact .pure trivial
    · exact .bind (newChild hS _ _ _) fun table _ => .bind scopes fun a ha =>
        .bind (check _) fun b hb =>
        .bind (setScopes (ha.write (w := .setPackage table name) (fun _ _ => id) hb)) fun _ _ =>
        .bind (quiet (.onHeap (.putPackage _ _))) fun _ _ => .pure trivial
  exact .bind (operandName operand) fun name _ => .bind (hnamed name) fun r _ =>
    .bind (htable r name) fun _ _ => modifyContext fun _ _ => hS _

end Exec.Fixing

namespace Exec.Fixing

variable {K : Set Constant} {S : TableId → Prop} {m : Machine} (hS : ∀ id, S id)

include hS

/-- The end of a package binds its name in the root. -/
theorem popPackage (hm : m.Fixes K S) (hmiss : ∀ k ∈ K, .root = k.address.table →
      ∀ scope rest, m.context.packages = scope :: rest → scope.name ≠ k.name) :
    (outcome Exec.popPackage m).2.Fixes K S := by
  unfold Exec.popPackage
  rw [outcome_bind_ok (outcome_context m)]
  split
  · exact hm
  · rename_i scope rest hpackages
    have hrest : Fixing K S (do
        Exec.modifyContext fun c => { c with packages := rest }
        let p := Exec.withExports (← Exec.scopes) ((← Exec.heap).package scope.package) scope.table
        Exec.onHeap (Heap.putPackage scope.package p)
        let items := ", ".intercalate (p.items.map fun i => quoted i.1)
        Exec.noteThread .symbol fun _ => s!"package {scope.name} defines [{items}]"
        Exec.storeIn .root scope.name (.package scope.package)
        Exec.modifyContext fun c =>
          { c with symbols := scope.savedSymbols, package := scope.savedPackage }) fun _ => True :=
      .bind (modifyContext fun _ hc => hc) fun _ _ => .bind scopes fun _ _ =>
        .bind (quiet .heap) fun _ _ => .bind (quiet (.onHeap (.putPackage _ _))) fun _ _ =>
        .bind (quiet (.noteThread _ _)) fun _ _ => .bind (storeIn _ _ _ fun k hk htable =>
          hmiss k hk htable scope rest hpackages) fun _ _ => modifyContext fun _ _ => hS _
    exact (hrest m hm).1

end Exec.Fixing

end ScriptMachine
