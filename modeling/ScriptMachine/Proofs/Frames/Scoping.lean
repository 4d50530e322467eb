import ScriptMachine.Proofs.Frames.Unwinding

/-!
# Where instructions stay in their scope

Only calls, returns, blocks and package definitions change the current table, and only they make or
remove tables.

* `Machine.SameScope`, `Exec.IsScoped`: the slots below the frame pointer, the current table, the
  outline of the scopes, the open package definitions and the waiting contexts are as they were.
* `IsLocal.isScoped`, `execute_isScoped`: so it is with all instructions but those four kinds.
* `outcome_pushScope`, `outcome_popScope`: a block and its end.
* `outcome_pushPackage`, `outcome_popPackage`: a package definition and its end.
-/

namespace ScriptMachine

/-- The running function stays grounded, above the same slots, in its table and among the same
tables. -/
structure Machine.SameScope (m m' : Machine) : Prop where
  grounded : m'.context.Grounded
  lower_eq : m'.context.lower = m.context.lower
  symbols_eq : m'.context.symbols = m.context.symbols
  outline_eq : m'.world.scopes.outline = m.world.scopes.outline
  packages_eq : m'.context.packages = m.context.packages
  suspended_eq : m'.suspended = m.suspended

theorem Machine.SameScope.refl {m : Machine} (h : m.context.Grounded) : m.SameScope m :=
  ⟨h, rfl, rfl, rfl, rfl, rfl⟩

theorem Machine.SameScope.trans {m₁ m₂ m₃ : Machine} (h₁₂ : m₁.SameScope m₂)
    (h₂₃ : m₂.SameScope m₃) : m₁.SameScope m₃ :=
  ⟨h₂₃.grounded, h₂₃.lower_eq.trans h₁₂.lower_eq, h₂₃.symbols_eq.trans h₁₂.symbols_eq,
    h₂₃.outline_eq.trans h₁₂.outline_eq, h₂₃.packages_eq.trans h₁₂.packages_eq,
    h₂₃.suspended_eq.trans h₁₂.suspended_eq⟩

/-- The same slots below the frame pointer put it in the same place. -/
theorem Machine.SameScope.fp_eq {m m' : Machine} (h : m.SameScope m') (hm : m.context.Grounded) :
    m'.context.fp = m.context.fp := by
  rw [← Context.size_lower h.grounded.fp_le, ← Context.size_lower hm.fp_le, h.lower_eq]

namespace Exec

variable {α β : Type}

/-- An action that stays in the current scope. -/
def IsScoped (act : Exec α) : Prop :=
  ∀ m : Machine, m.context.Grounded → m.SameScope (outcome act m).2

theorem IsLocal.isScoped {act : Exec α} (h : IsLocal act) : IsScoped act := by
  intro m hm
  obtain ⟨-, hsettled⟩ := h m.surroundings _ _ _ m (Machine.settled_self hm)
  have hsame := h.surroundings_eq hm
  have hlower := congrArg Surroundings.lower hsame
  have hpackages := congrArg Surroundings.packages hsame
  have hsuspended := congrArg Surroundings.suspended hsame
  exact ⟨hsettled.grounded, hlower, hsettled.symbols_eq, hsettled.outline_eq, hpackages,
    hsuspended⟩

namespace IsScoped

theorem pure (a : α) : IsScoped (Pure.pure a) := fun _ h => .refl h

theorem fail (f : Fault) : IsScoped (Exec.fail f : Exec α) := fun _ h => .refl h

theorem bind {act : Exec α} {next : α → Exec β} (hact : IsScoped act)
    (hnext : ∀ a, IsScoped (next a)) : IsScoped (act >>= next) := by
  intro m hm
  have hsame := hact m hm
  rw [outcome_bind]
  rcases hout : outcome act m with ⟨r | a, m'⟩
  · rw [hout] at hsame
    exact hsame
  · rw [hout] at hsame
    exact hsame.trans (hnext a m' hsame.grounded)

theorem ite {p : Prop} [Decidable p] {yes no : Exec α} (hyes : IsScoped yes) (hno : IsScoped no) :
    IsScoped (if p then yes else no) := by
  split
  · exact hyes
  · exact hno

theorem context : IsScoped Exec.context := fun _ h => .refl h

theorem get : IsScoped (MonadState.get : Exec Machine) := fun _ h => .refl h

/-- Changes of the context that concern neither operands nor scopes. -/
theorem modifyContext {f : Context → Context} (hstack : ∀ c, (f c).stack = c.stack)
    (hfp : ∀ c, (f c).fp = c.fp) (hsymbols : ∀ c, (f c).symbols = c.symbols)
    (hpackages : ∀ c, (f c).packages = c.packages) : IsScoped (Exec.modifyContext f) := by
  intro m hm
  refine ⟨⟨?_, ?_⟩, ?_, hsymbols m.context, rfl, hpackages m.context, rfl⟩
  · show (f m.context).fp ≤ (f m.context).stack.size
    rw [hfp, hstack]
    exact hm.fp_le
  · show OnlyValues (f m.context).operands
    rw [Context.operands, hfp, hstack]
    exact hm.values
  · show (f m.context).lower = m.context.lower
    rw [Context.lower, hfp, hstack]
    rfl

/-! ### Loops -/

theorem createLoopName (name : String) : IsScoped (Exec.createLoopName name) :=
  bind get fun _ => ite (IsLocal.create name).isScoped (pure ())

theorem walkOver (v : Value) : IsScoped (Exec.walkOver v) := by
  unfold Exec.walkOver
  split
  · exact pure _
  · refine bind IsLocal.heap.isScoped fun h => ?_
    split
    · exact ((IsLocal.onHeap _).bind fun _ => IsLocal.pure _).isScoped
    · exact pure _
  · refine bind IsLocal.heap.isScoped fun h => ?_
    split
    · exact ((IsLocal.onHeap _).bind fun _ => IsLocal.pure _).isScoped
    · exact pure _
  · exact pure _
  · exact fail _

theorem beginLoop (operand : Value) : IsScoped (Exec.beginLoop operand) := by
  refine bind IsLocal.heap.isScoped fun h => ?_
  dsimp only
  refine bind (createLoopName _) fun _ => bind (createLoopName _) fun _ =>
    bind IsLocal.popUnwrapped.isScoped fun v => bind (walkOver v) fun walked => ?_
  exact modifyContext (fun _ => rfl) (fun _ => rfl) (fun _ => rfl) fun _ => rfl

theorem release (l : Loop) : IsScoped (Exec.release l) := by
  unfold Exec.release
  split
  · exact (IsLocal.onHeap _).isScoped
  · exact (IsLocal.onHeap _).isScoped
  · exact pure _
  · exact pure _

theorem storeLoopName (name : String) (v : Value) : IsScoped (Exec.storeLoopName name v) :=
  ite (IsLocal.store name v).isScoped (pure ())

theorem nextOf (l : Loop) : IsScoped (Exec.nextOf l) := by
  refine IsLocal.isScoped (IsLocal.heap.bind fun h => ?_)
  split
  · exact IsLocal.pure _
  · split
    · exact IsLocal.pure _
    · exact (IsLocal.lift _).bind fun _ => IsLocal.pure _
  · exact IsLocal.pure _
  · exact IsLocal.ite (IsLocal.pure _)
      ((IsLocal.ofWorldAction (.receive _)).bind fun _ => IsLocal.pure _)

theorem nextRound (operand : Value) : IsScoped (Exec.nextRound operand) := by
  refine bind (IsLocal.branchTarget operand).isScoped fun leave => bind context fun c => ?_
  split
  · exact modifyContext (fun _ => rfl) (fun _ => rfl) (fun _ => rfl) fun _ => rfl
  · refine bind (nextOf _) fun round => ?_
    split
    · exact bind (modifyContext (fun _ => rfl) (fun _ => rfl) (fun _ => rfl) fun _ => rfl)
        fun _ => release _
    · exact bind (modifyContext (fun _ => rfl) (fun _ => rfl) (fun _ => rfl) fun _ => rfl)
        fun _ => bind (storeLoopName _ _) fun _ => storeLoopName _ _

/-! ### Handlers -/

theorem arm (operand : Value) : IsScoped (Exec.arm operand) :=
  bind (IsLocal.branchTarget operand).isScoped fun _ =>
    modifyContext (fun _ => rfl) (fun _ => rfl) (fun _ => rfl) fun _ => rfl

theorem disarm : IsScoped Exec.disarm := by
  refine bind context fun c => ?_
  split
  · exact fail _
  · refine bind (modifyContext (fun _ => rfl) (fun _ => rfl) (fun _ => rfl) fun _ => rfl)
      fun _ => ?_
    exact (IsLocal.changeScopes (fun a => a.delete c.symbols "_error" true)
      fun _ _ => Arena.outline_of_delete).isScoped

theorem narrow (operand : Value) : IsScoped (Exec.narrow operand) := by
  refine bind context fun c => ?_
  split
  · exact fail _
  · exact bind (IsLocal.lift _).isScoped fun _ =>
      modifyContext (fun _ => rfl) (fun _ => rfl) (fun _ => rfl) fun _ => rfl

/-! ### Deferred calls, tasks and the debugger -/

theorem deferCall (operand : Value) : IsScoped (Exec.deferCall operand) :=
  bind (IsLocal.operandCount operand 0).isScoped fun _ => bind (IsSteady.popCall _).isScoped
    fun _ => modifyContext (fun _ => rfl) (fun _ => rfl) (fun _ => rfl) fun _ => rfl

theorem go (operand : Value) : IsScoped (Exec.go operand) := by
  refine bind (IsLocal.operandCount operand 0).isScoped fun count =>
    bind (IsLocal.popArgs count).isScoped fun args => bind IsLocal.popUnwrapped.isScoped fun v =>
    bind IsLocal.heap.isScoped fun h => ?_
  dsimp only
  refine bind (IsLocal.noteThread _ _).isScoped fun _ => ?_
  exact fun m hm => ⟨⟨hm.fp_le, hm.values⟩, rfl, rfl, rfl, rfl, rfl⟩

theorem joinTasks : IsScoped Exec.joinTasks := by
  refine bind get fun m => ?_
  split
  · exact IsLocal.wait.isScoped
  · refine bind (modifyContext (fun _ => rfl) (fun _ => rfl) (fun _ => rfl) fun _ => rfl)
      fun _ => ?_
    split
    · exact fail _
    · exact pure _

theorem awaitTarget (target : Option Value) : IsScoped
    (match target.map Value.unwrapped with
      | some (.waitGroup r) => Exec.ofWorldAction (WorldAction.awaitZero r)
      | _ => Exec.joinTasks) := by
  split
  · exact (IsLocal.ofWorldAction (.awaitZero _)).isScoped
  · exact joinTasks

theorem await (operand : Value) : IsScoped (Exec.await operand) := by
  unfold Exec.await
  split
  · exact bind (pure _) awaitTarget
  · exact bind (IsLocal.lookup? _).isScoped awaitTarget
  · exact bind (pure _) awaitTarget

theorem atLine (operand : Value) : IsScoped (Exec.atLine operand) :=
  bind (IsLocal.lift _).isScoped fun _ =>
    bind (modifyContext (fun _ => rfl) (fun _ => rfl) (fun _ => rfl) fun _ => rfl) fun _ =>
    bind context fun _ => ite (fail _) (pure _)

end IsScoped

end Exec

/-- The instructions that stay in their scope: all but calls, returns, blocks and package
definitions. -/
def Opcode.isScoped : Opcode → Bool
  | .call | .localCall | .entryPoint | .return | .pushScope | .popScope | .pushPackage
  | .popPackage => false
  | _ => true

namespace Exec

/-- **Executing such an instruction stays in the current scope.** -/
theorem execute_isScoped {i : Instruction} (h : i.op.isScoped = true) : IsScoped (execute i) := by
  by_cases hlocal : i.op.isLocal = true
  · exact (execute_isLocal hlocal).isScoped
  · obtain ⟨op, operand⟩ := i
    cases op with
    | atLine => exact IsScoped.atLine operand
    | defer => exact IsScoped.deferCall operand
    | go => exact IsScoped.go operand
    | rangeInit => exact IsScoped.beginLoop operand
    | tryPop => exact IsScoped.disarm
    | wait => exact IsScoped.await operand
    | willCatch => exact IsScoped.narrow operand
    | rangeNext => exact IsScoped.nextRound operand
    | «try» => exact IsScoped.arm operand
    | call | localCall | entryPoint | «return» | pushScope | popScope | pushPackage
    | popPackage => cases h
    | _ => exact absurd rfl hlocal

/-! ### Blocks -/

/-- A new table is there, with a line in the journal. -/
theorem outcome_newChild (name : String) (parent : TableId) (boundary : Bool) (m : Machine) :
    ∃ journal, outcome (onWorld (World.newChild name parent boundary)) m
      = (.ok (m.world.scopes.newChild name parent boundary).1, { m with
        world := { m.world with
          scopes := (m.world.scopes.newChild name parent boundary).2
          journal } }) := by
  obtain ⟨j, hj⟩ := World.run_newChild name parent boundary m.world
  exact ⟨j, by rw [outcome_onWorld, hj]⟩

theorem outcome_pushScope (m : Machine) : ∃ journal, outcome pushScope m = (.ok (), { m with
    world := { m.world with
      scopes := (m.world.scopes.newChild "block" m.context.symbols false).2
      journal }
    context := { m.context with
      symbols := (m.world.scopes.newChild "block" m.context.symbols false).1
      blockDepth := m.context.blockDepth + 1 } }) := by
  obtain ⟨j, hnew⟩ := outcome_newChild "block" m.context.symbols false m
  refine ⟨j, ?_⟩
  rw [pushScope, outcome_bind_ok (outcome_context m), outcome_bind_ok hnew]
  rfl

/-- A block ends only where the current table has a parent; scopes around package functions are
passed over. -/
theorem outcome_popScope (m : Machine) :
    (m.world.scopes.parent? m.context.symbols = none ∧
      ∃ f, outcome popScope m = (.error (.fault f), m)) ∨
      ∃ parent journal, m.world.scopes.parent? m.context.symbols = some parent ∧
        outcome popScope m = (.ok (), { m with
          world := { m.world with scopes := m.world.scopes.remove m.context.symbols, journal }
          context := { m.context with
            symbols := (m.world.scopes.remove m.context.symbols).skipPackageScopes
              ((m.world.scopes.remove m.context.symbols).places.size + 1) parent
            blockDepth := m.context.blockDepth - 1 } }) := by
  rw [popScope, outcome_bind_ok (outcome_context m), outcome_bind_ok (outcome_scopes m)]
  cases hparent : m.world.scopes.parent? m.context.symbols with
  | none => exact .inl ⟨rfl, _, rfl⟩
  | some parent =>
    obtain ⟨j, hj⟩ := World.run_remove m.context.symbols m.world
    have hremove : outcome (onWorld (World.remove m.context.symbols)) m = (.ok (), { m with
        world := { m.world with
          scopes := m.world.scopes.remove m.context.symbols
          journal := j } }) := by
      rw [outcome_onWorld, hj]
    obtain ⟨j', hj'⟩ := outcome_noteThread .symbol (fun _ =>
      s!"pop symbol table {m.context.symbols.text} => {((m.world.scopes.remove
        m.context.symbols).skipPackageScopes ((m.world.scopes.remove
        m.context.symbols).places.size + 1) parent).text}") { m with
        world := { m.world with
          scopes := m.world.scopes.remove m.context.symbols
          journal := j } }
    refine .inr ⟨parent, j', rfl, ?_⟩
    dsimp only
    rw [outcome_bind_ok hremove, outcome_bind_ok (outcome_scopes _)]
    exact (outcome_bind_ok hj').trans rfl

/-! ### Package definitions -/

/-- What a package definition does to the world: a table that is the package's already is used
again, and otherwise the package gets a new one. -/
structure DefinesPackage (w w' : World) (r : Ref .package) (table : TableId) : Prop where
  sound : w'.scopes.Sound
  live : w'.scopes.contains table = true
  others : ∀ id, id ≠ table → w'.scopes.table? id = w.scopes.table? id
  table_eq : (w.scopes.contains table = true ∧ w'.scopes = w.scopes ∧
      (w.heap.package r).symbols = some table) ∨
    (w.scopes.contains table = false ∧ w'.scopes.parent? table = some .root)
  hidden : ∀ q t, (w'.heap.package q).symbols = some t →
    t = table ∨ (w.heap.package q).symbols = some t

theorem outcome_packageNamed (name : String) (m : Machine) :
    ∃ r heap, outcome (packageNamed name) m = (.ok r, { m with world := { m.world with heap } }) ∧
      ∀ q t, (heap.package q).symbols = some t → (m.world.heap.package q).symbols = some t := by
  rw [packageNamed, outcome_bind_ok (outcome_scopes m)]
  dsimp only
  split
  · rename_i r _
    exact ⟨r, m.world.heap, rfl, fun q t h => h⟩
  · refine ⟨⟨m.world.heap.packages.size⟩, _, rfl, fun q t h => ?_⟩
    have hpush : (({ name } : PackageObject) = { name, items := [], symbols := none }) := rfl
    have hnew : ((m.world.heap.packages.push { name })[q.id]?.getD { name := "" }).symbols
        = some t := h
    rw [Array.getElem?_push] at hnew
    split at hnew
    · rw [Option.getD_some] at hnew
      cases hnew
    · exact hnew

theorem outcome_packageTable (r : Ref .package) (name : String) {m : Machine}
    (hsound : m.world.scopes.Sound) :
    ∃ table world, outcome (packageTable r name) m = (.ok table, { m with world }) ∧
      DefinesPackage m.world world r table := by
  rw [packageTable, outcome_bind_ok (outcome_heap m)]
  dsimp only
  rw [outcome_bind_ok (outcome_scopes m)]
  cases hlive : (m.world.heap.package r).symbols.filter m.world.scopes.contains with
  | some table =>
    rw [Option.filter_eq_some_iff] at hlive
    exact ⟨table, m.world, rfl, hsound, hlive.2, fun _ _ => rfl, .inl ⟨hlive.2, rfl, hlive.1⟩,
      fun q t h => .inr h⟩
  | none =>
    obtain ⟨table, a, hmade, hsound₁, hfresh, hlookup₁⟩ :=
      Arena.newChild_spec hsound ("package " ++ name) .root true
    have hself := hlookup₁ table
    rw [if_pos rfl] at hself
    obtain ⟨b, hb, hsound₂, hlookup₂⟩ := Arena.setPackage_of_live hsound₁ hself name
    obtain ⟨j, hnew⟩ := outcome_newChild ("package " ++ name) .root true m
    rw [hmade] at hnew
    have hlabel : outcome (liftM (a.setPackage table name) : Exec Arena)
        { m with world := { m.world with scopes := a, journal := j } }
          = (.ok b, { m with world := { m.world with scopes := a, journal := j } }) := by
      rw [outcome_liftExcept, hb]
      rfl
    refine ⟨table, { m.world with
      scopes := b
      journal := j
      heap := ((Heap.putPackage r { m.world.heap.package r with symbols := some table }).run
        m.world.heap).2 }, ?_, hsound₂, ?_, ?_, .inr ⟨?_, ?_⟩, ?_⟩
    · dsimp only
      rw [outcome_bind_ok hnew, outcome_bind_ok (outcome_scopes _)]
      exact (outcome_bind_ok hlabel).trans rfl
    · rw [Arena.contains_iff]
      exact ⟨_, (hlookup₂ table).trans (if_pos rfl)⟩
    · intro id hid
      rw [hlookup₂, if_neg hid, hlookup₁, if_neg hid]
    · rw [Arena.contains, hfresh]
      rfl
    · rw [Arena.parent?, hlookup₂, if_pos rfl]
      rfl
    · intro q t hq
      have hput : ((m.world.heap.packages.setIfInBounds r.id { m.world.heap.package r with
          symbols := some table })[q.id]?.getD { name := "" }).symbols = some t := hq
      rw [Array.getElem?_setIfInBounds] at hput
      split at hput
      · split at hput
        · rw [Option.getD_some] at hput
          cases hput
          exact .inl rfl
        · cases hput
      · exact .inr hput

/-- **A package definition begins**: the current one is kept for its end. -/
theorem outcome_pushPackage (operand : Value) {m : Machine} (hsound : m.world.scopes.Sound) :
    (∃ f, outcome (pushPackage operand) m = (.error (.fault f), m)) ∨
      ∃ name r table world, outcome (pushPackage operand) m = (.ok (), { m with
          world
          context := { m.context with
            packages := { name, package := r, table, savedSymbols := m.context.symbols
                          savedPackage := m.context.package } :: m.context.packages
            package := name
            symbols := table } }) ∧
        DefinesPackage m.world world r table := by
  have hname : (∃ f, outcome (operandName operand) m = (.error (.fault f), m)) ∨
      ∃ name, outcome (operandName operand) m = (.ok name, m) := by
    unfold operandName
    split
    · exact .inr ⟨_, rfl⟩
    · exact .inl ⟨_, rfl⟩
  rcases hname with ⟨f, hf⟩ | ⟨name, hname⟩
  · exact .inl ⟨f, outcome_bind_error hf⟩
  · obtain ⟨r, heap, hr, hhidden⟩ := outcome_packageNamed name m
    obtain ⟨table, world, htable, hdefines⟩ := outcome_packageTable r name
      (m := { m with world := { m.world with heap } }) hsound
    refine .inr ⟨name, r, table, world, ?_, ?_⟩
    · rw [pushPackage, outcome_bind_ok hname, outcome_bind_ok hr, outcome_bind_ok htable]
      rfl
    · refine ⟨hdefines.sound, hdefines.live, hdefines.others, ?_, fun q t h => ?_⟩
      · rcases hdefines.table_eq with ⟨hlive, hsame, hsymbols⟩ | hnew
        · exact .inl ⟨hlive, hsame, hhidden r table hsymbols⟩
        · exact .inr hnew
      · exact (hdefines.hidden q t h).imp_right (hhidden q t)

/-- **A package definition ends**: the table and the package from before it are back. -/
theorem outcome_popPackage {m : Machine} (hsound : m.world.scopes.Sound) :
    (m.context.packages = [] ∧ ∃ f, outcome popPackage m = (.error (.fault f), m)) ∨
      ∃ scope rest world, m.context.packages = scope :: rest ∧
        world.scopes.outline = m.world.scopes.outline ∧
        (∀ q, (world.heap.package q).symbols = (m.world.heap.package q).symbols) ∧
        outcome popPackage m = (.ok (), { m with
          world
          context := { m.context with
            packages := rest
            symbols := scope.savedSymbols
            package := scope.savedPackage } }) := by
  rw [popPackage, outcome_bind_ok (outcome_context m)]
  cases hpackages : m.context.packages with
  | nil => exact .inl ⟨rfl, _, rfl⟩
  | cons scope rest =>
    have hexports : ∀ (a : Arena) (p : PackageObject) (table : TableId),
        (withExports a p table).symbols = p.symbols := by
      intro a p table
      have hfold : ∀ (items : List (String × Value)) (p : PackageObject),
          (items.foldl (fun p s => p.set s.1 s.2.unwrapped) p).symbols = p.symbols := by
        intro items
        induction items with
        | nil => exact fun _ => rfl
        | cons x items ih => exact fun p => ih _
      exact hfold _ p
    have hput := Heap.symbols_putPackage m.world.heap scope.package
      (p := withExports m.world.scopes (m.world.heap.package scope.package) scope.table)
    generalize hp : withExports m.world.scopes (m.world.heap.package scope.package) scope.table
      = p at hput
    have hsymbols : p.symbols = (m.world.heap.package scope.package).symbols := by
      rw [← hp]
      exact hexports _ _ _
    generalize hheap : ((Heap.putPackage scope.package p).run m.world.heap).2 = heap at hput
    have hwrite : outcome (onHeap (Heap.putPackage scope.package p))
        { m with context := { m.context with packages := rest } }
          = (.ok (), { m with
              world := { m.world with heap }
              context := { m.context with packages := rest } }) := by
      rw [← hheap]
      rfl
    have hnote : ∀ items : String, ∃ journal, outcome (noteThread .symbol
        fun _ => s!"package {scope.name} defines [{items}]") { m with
          world := { m.world with heap }
          context := { m.context with packages := rest } } = (.ok (), { m with
            world := { m.world with heap, journal }
            context := { m.context with packages := rest } }) :=
      fun items => outcome_noteThread .symbol _ _
    obtain ⟨j, hj⟩ := hnote (", ".intercalate (p.items.map fun i => quoted i.1))
    obtain ⟨scopes, hscopes, hstore⟩ := outcome_storeIn_of_live (m := { m with
      world := { m.world with heap, journal := j }
      context := { m.context with packages := rest } }) hsound.root scope.name
      (.package scope.package)
    refine .inr ⟨scope, rest, { m.world with heap, journal := j, scopes }, rfl, hscopes,
      fun q => hput q hsymbols, ?_⟩
    dsimp only
    rw [outcome_bind_ok (outcome_modifyContext _ m), outcome_bind_ok (outcome_scopes _),
      outcome_bind_ok (outcome_heap _)]
    dsimp only
    rw [hp, outcome_bind_ok hwrite, outcome_bind_ok hj, outcome_bind_ok hstore]
    rfl

end Exec

end ScriptMachine
