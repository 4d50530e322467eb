import ScriptMachine.Machine.Step
import ScriptMachine.Proofs.Objects.Sparing

/-!
# Quiet faults

A fault is quiet unless it is the signal by which a debugger takes over. No computation on values,
objects or scopes raises that signal.

* `Fault.IsQuiet`: a fault that no debugger raises.
* `Quiet`: a result whose fault is quiet, if it is one, with the rules for composed results; an
  instance for each computation that may fault.
* `Heap.Quiet`: the same for computations on objects.
-/

namespace ScriptMachine

/-- A fault that is not the signal of a debugger. -/
def Fault.IsQuiet (f : Fault) : Prop := f.kind ≠ .signalDebugger

instance (f : Fault) : Decidable f.IsQuiet :=
  inferInstanceAs (Decidable (f.kind ≠ .signalDebugger))

/-- Whether a fault is quiet is a matter of its kind. -/
theorem Fault.IsQuiet.of {f : Fault} (h : decide (f.kind ≠ .signalDebugger) = true) : f.IsQuiet :=
  of_decide_eq_true h

theorem Fault.IsQuiet.raisedAt {f : Fault} (h : f.IsQuiet) (module : String) (line : Nat) :
    (f.raisedAt module line).IsQuiet := h

/-- A reason not to complete that is no signal of a debugger. -/
def Halt.IsQuiet : Halt → Prop
  | .fault f => f.IsQuiet
  | .blocked => True

/-- The reason not to complete is quiet, if there is one. -/
def Halt.QuietIn {α : Type} : Except Halt α → Prop
  | .ok _ => True
  | .error h => h.IsQuiet

/-- A result whose fault is quiet, if it is one. -/
class Quiet {α : Type} (r : Except Fault α) : Prop where
  quiet : ∀ f, r = .error f → f.IsQuiet

namespace Quiet

variable {α β : Type}

instance ok (a : α) : Quiet (.ok a : Except Fault α) := ⟨nofun⟩

instance pure (a : α) : Quiet (Pure.pure a : Except Fault α) := ⟨nofun⟩

theorem error {f : Fault} (h : f.IsQuiet) : Quiet (.error f : Except Fault α) := by
  refine ⟨fun g hg => ?_⟩
  cases hg
  exact h

theorem throw {f : Fault} (h : f.IsQuiet) : Quiet (MonadExcept.throw f : Except Fault α) := error h

instance bind {r : Except Fault α} {next : α → Except Fault β} [hr : Quiet r]
    [hnext : ∀ a, Quiet (next a)] : Quiet (r >>= next) := by
  cases r with
  | error f => exact error (hr.quiet f rfl)
  | ok a => exact hnext a

/-- The instance, with the results of what follows shown one by one. -/
theorem after {r : Except Fault α} {next : α → Except Fault β} [hr : Quiet r]
    (hnext : ∀ a, Quiet (next a)) : Quiet (r >>= next) := bind

/-- Nothing follows a fault. -/
theorem thrown {f : Fault} {next : α → Except Fault β} (h : f.IsQuiet) :
    Quiet ((MonadExcept.throw f : Except Fault α) >>= next) := error h

instance map {r : Except Fault α} {g : α → β} [hr : Quiet r] : Quiet (r.map g) := by
  cases r with
  | error f => exact error (hr.quiet f rfl)
  | ok a => exact ok _

theorem ite {p : Prop} [Decidable p] {yes no : Except Fault α} (hyes : Quiet yes)
    (hno : Quiet no) : Quiet (if p then yes else no) := by
  split
  · exact hyes
  · exact hno

instance mapM {xs : List α} {g : α → Except Fault β} [hg : ∀ x, Quiet (g x)] :
    Quiet (xs.mapM g) :=
  have hcomposed : Compositional (μ := Except Fault) fun _ => Quiet := ⟨pure, fun _ => after⟩
  hcomposed.mapM fun x _ => hg x

instance foldlM {xs : List α} {g : β → α → Except Fault β} {b : β} [hg : ∀ b x, Quiet (g b x)] :
    Quiet (xs.foldlM g b) := by
  induction xs generalizing b with
  | nil => exact pure b
  | cons x xs ih =>
    have hnext : ∀ b, Quiet (xs.foldlM g b) := fun b => ih
    rw [List.foldlM_cons]
    infer_instance

/-- A part of an operand that may be missing. -/
instance getD {o : Option β} {g : β → Except Fault α} {a : α} [hg : ∀ b, Quiet (g b)] :
    Quiet ((o.map g).getD (.ok a)) := by
  cases o with
  | none => exact ok a
  | some b => exact hg b

/-! ### Values -/

instance toInt64 (v : Value) : Quiet v.toInt64 := by
  unfold Value.toInt64
  split
  case h_8 =>
    split
    · exact ok _
    · exact error (.of rfl)
  case h_9 => exact error (.of rfl)
  all_goals exact ok _

instance toBinary64 (v : Value) : Quiet v.toBinary64 := by
  unfold Value.toBinary64
  split
  · exact ok _
  · exact ok _
  · split
    · exact ok _
    · exact error (.of rfl)
  · exact map

instance toIndex (v : Value) : Quiet v.toIndex := by
  refine ite ?_ (error (.of rfl))
  have hsign : ∀ n : Int64, Quiet (if 0 ≤ n.toInt then .ok n.toInt.toNat
      else .error (.about .arrayIndex (toString n.toInt))) := fun n => ite (ok _) (error (.of rfl))
  exact bind

instance toNumber (v : Value) (k : Kind) : Quiet (v.toNumber k) := by
  unfold Value.toNumber
  split
  all_goals first
    | exact map
    | exact error (.of rfl)

instance toBool (v : Value) : Quiet v.toBool := by
  unfold Value.toBool
  split
  · exact ite (ok _) (ite (ok _) (error (.of rfl)))
  · exact ite (ok _) (error (.of rfl))

instance toScalar (v : Value) (k : Kind) : Quiet (v.toScalar k) := by
  refine ite (ok _) (ite (toBool v) ?_)
  split
  · exact toNumber _ k
  · refine ite ?_ (toNumber _ k)
    split
    · exact toNumber _ k
    · exact error (.of rfl)
  · exact ite (toNumber _ k) (error (.of rfl))

instance normalize (a b : Value) : Quiet (ScriptMachine.normalize a b) := by
  refine ite (ok _) (ite (ite (ok _) (error (.of rfl))) ?_)
  split
  · exact bind
  · exact error (.of rfl)

instance compareScalars (a b : Value) : Quiet (ScriptMachine.compareScalars a b) := by
  refine ite (error (.of rfl)) ?_
  refine after fun p => ?_
  split
  all_goals first
    | exact ok _
    | exact error (.of rfl)

/-! ### Operators -/

instance onInt64 (op : Operation) (x y : Int64) : Quiet (op.onInt64 x y) :=
  ite (error (.of rfl)) (ok _)

instance onBinary64 (op : Operation) (x y : Binary64) : Quiet (op.onBinary64 x y) :=
  ite (error (.of rfl)) (ok _)

instance arithmetic (op : Operation) (a b : Value) :
    Quiet (ScriptMachine.arithmetic op a b) := by
  unfold ScriptMachine.arithmetic
  split
  · exact map
  · exact map
  · exact ite bind (error (.of rfl))

instance calculate (op : Operation) (a b : Value) : Quiet (ScriptMachine.calculate op a b) :=
  bind

instance raised (a b : Value) : Quiet (ScriptMachine.raised a b) := by
  unfold ScriptMachine.raised
  split
  · exact ok _
  · exact ok _
  · refine ite (after fun x => after fun y => ?_) (error (.of rfl))
    exact ite (ok _) (ite (ok _) (error (.of rfl)))

instance bitwise (g : Int64 → Int64 → Int64) (a b : Value) :
    Quiet (ScriptMachine.bitwise g a b) :=
  after fun _ => ite bind (error (.of rfl))

instance shifted (value amount : Value) : Quiet (ScriptMachine.shifted value amount) := by
  have hshift : ∀ n : Int64, Quiet (do
      let x ← value.toInt64
      return (Value.ofInt64 value.kind (if n < 0 then x <<< (-n) else x >>> n)) :
        Except Fault Value) := fun n => bind
  refine ite (thrown (.of rfl)) (after fun n => ?_)
  exact ite (thrown (.of rfl)) (hshift n)

instance negated (v : Value) : Quiet (ScriptMachine.negated v) := by
  unfold ScriptMachine.negated
  split
  all_goals first
    | exact ok _
    | exact error (.of rfl)

/-! ### Containers -/

instance keyOfValue (v : Value) : Quiet (Key.ofValue v) := by
  unfold Key.ofValue
  split
  all_goals first
    | exact ok _
    | exact ite map (error (.of rfl))

instance mapGet (m : MapObject) (key : Value) : Quiet (m.get key) := bind

instance mapSet (m : MapObject) (key value : Value) (kt vt : Ty) :
    Quiet (m.set key value kt vt) := by
  have hbind : Quiet (do
      let k ← Key.ofValue key
      if m.isFrozen && !Assoc.contains k m.entries then
        MonadExcept.throw (Fault.bare .immutableMap)
      return { m with entries := Assoc.insert k value m.entries }) :=
    after fun k => ite (thrown (.of rfl)) (pure _)
  have hvalue : Quiet (do
      if !m.valueType.isInterface && !value.isNull && !m.valueType.accepts vt then
        MonadExcept.throw (Fault.about .typeMismatch ("value " ++ vt.text))
      let k ← Key.ofValue key
      if m.isFrozen && !Assoc.contains k m.entries then
        MonadExcept.throw (Fault.bare .immutableMap)
      return { m with entries := Assoc.insert k value m.entries }) :=
    ite (thrown (.of rfl)) hbind
  exact ite (thrown (.of rfl)) hvalue

instance mapDelete (m : MapObject) (key : Value) : Quiet (m.delete key) := bind

instance arrayGet (a : ArrayObject) (index : Nat) : Quiet (a.get index) := by
  unfold ArrayObject.get
  split
  · exact ok _
  · exact error (.of rfl)

instance checkElement (a : ArrayObject) (v : Value) (t : Ty) : Quiet (a.checkElement v t) :=
  ite (ok _) (error (.of rfl))

instance checkThawed (a : ArrayObject) : Quiet a.checkThawed := ite (error (.of rfl)) (ok _)

instance arraySet (a : ArrayObject) (index : Nat) (v : Value) (t : Ty) :
    Quiet (a.set index v t) :=
  after fun _ => after fun _ => ite (ok _) (error (.of rfl))

instance arrayAppend (a : ArrayObject) (v : Value) (t : Ty) : Quiet (a.append v t) := bind

instance arrayDelete (a : ArrayObject) (index : Nat) : Quiet (a.delete index) := by
  refine after fun _ => ?_
  split
  · exact ok _
  · exact error (.of rfl)

instance arraySlice (a : ArrayObject) (start stop : Nat) : Quiet (a.slice start stop) :=
  ite (ok _) (error (.of rfl))

instance replaceAll (a : ArrayObject) (values : Array Value) : Quiet (a.replaceAll values) := bind

instance structSet (s : StructObject) (name : String) (v : Value) (t : Ty) :
    Quiet (s.set name v t) :=
  ite (error (.of rfl)) (ite (error (.of rfl)) (ite (error (.of rfl))
    (ite (error (.of rfl)) (ok _))))

instance sliceBound (v : Value) : Quiet (ScriptMachine.sliceBound v) := by
  refine after fun n => ?_
  split
  · exact pure _
  · exact throw (.of rfl)

instance openBound (v : Value) (whole : Nat) : Quiet (ScriptMachine.openBound v whole) :=
  ite (ok _) (sliceBound v)

instance typeOperand (v : Value) : Quiet (ScriptMachine.typeOperand v) := by
  unfold ScriptMachine.typeOperand
  split
  · exact ok _
  · exact ok _
  · exact error (.of rfl)

instance sliceString (s : String) (start stop : Nat) : Quiet (Exec.sliceString s start stop) := by
  refine ite (error (.of rfl)) ?_
  split
  · exact ok _
  · exact error (.of rfl)

instance argumentLimit (bound : Value) : Quiet (Exec.argumentLimit bound) :=
  after fun _ => ite bind (pure _)

/-! ### Members, templates and handlers -/

instance methodOf (h : Heap) (receiver : Value) (name : String) :
    Quiet (ScriptMachine.methodOf h receiver name) := by
  unfold ScriptMachine.methodOf
  split
  · exact ok _
  · split
    · exact ok _
    · exact error (.of rfl)

instance structMember (h : Heap) (package : String) (s : StructObject) (name : String) :
    Quiet (ScriptMachine.structMember h package s name) := by
  unfold ScriptMachine.structMember
  split
  · exact error (.of rfl)
  · exact ite (error (.of rfl)) (ok _)

instance packageMember (w : World) (r : Ref .package) (name : String) :
    Quiet (ScriptMachine.packageMember w r name) := by
  unfold ScriptMachine.packageMember
  dsimp only
  split
  · exact error (.of rfl)
  · split
    · exact ok _
    · exact ok _

instance templateMember (h : Heap) (v : Value) (name : String) :
    Quiet (ScriptMachine.templateMember h v name) := by
  unfold ScriptMachine.templateMember
  dsimp only
  split
  · exact ok _
  · exact error (.of rfl)
  · rename_i f hfound
    refine error ?_
    split at hfound
    · cases hfound
    · exact Quiet.quiet f hfound
    · cases hfound

instance referenced (h : Heap) (data : Value) (reference : String) :
    Quiet (ScriptMachine.referenced h data reference) := ite foldlM (error (.of rfl))

instance rendered (h : Heap) (data : Value) (text : List Char) :
    Quiet (ScriptMachine.rendered h data text) := by
  fun_induction ScriptMachine.rendered h data text with
  | case1 => exact ok _
  | case2 => exact error (.of rfl)
  | case3 text lead after hlead reference rest hreference ih => exact bind

instance narrowed (catches : List Fault) (operand : Value) :
    Quiet (Exec.narrowed catches operand) := by
  unfold Exec.narrowed
  split
  · exact ok _
  · exact ok _
  · refine ite (after fun n => ?_) (error (.of rfl))
    split
    · exact ok _
    · exact ok _
    · exact error (.of rfl)

instance refusal (kind : String) (authenticated superuser tokenValid : Bool) :
    Quiet (Exec.refusal kind authenticated superuser tokenValid) :=
  ite (ok _) (ite (ok _) (ite (ok _) (ite (ok _) (error (.of rfl)))))

instance lengthOf (h : Heap) (v : Value) : Quiet (Native.lengthOf h v) := by
  unfold Native.lengthOf
  split
  all_goals first
    | exact ok _
    | exact error (.of rfl)

/-! ### Scopes -/

instance table (a : Arena) (id : TableId) : Quiet (a.table id) := by
  unfold Arena.table
  split
  · exact ok _
  · exact error (.of rfl)

instance update (a : Arena) (id : TableId) (g : Table → Table) : Quiet (a.update id g) := bind

instance set (a : Arena) (start : TableId) (name : String) (v : Value) :
    Quiet (a.set start name v) := by
  unfold Arena.set
  split
  · exact ite (error (.of rfl)) map
  · exact map

instance setAlways (a : Arena) (id : TableId) (name : String) (v : Value) :
    Quiet (a.setAlways id name v) := update a id _

instance setConstant (a : Arena) (id : TableId) (name : String) (v : Value) :
    Quiet (a.setConstant id name v) := update a id _

instance setPackage (a : Arena) (id : TableId) (package : String) :
    Quiet (a.setPackage id package) := update a id _

instance create (a : Arena) (id : TableId) (name : String) : Quiet (a.create id name) :=
  after fun _ => ite (throw (.of rfl)) (pure _)

instance delete (a : Arena) (id : TableId) (name : String) (always : Bool) :
    Quiet (a.delete id name always) := by
  refine after fun t => ?_
  split
  · exact ite (pure _) (throw (.of rfl))
  · exact ite (throw (.of rfl)) (pure _)

instance addressOf (a : Arena) (start : TableId) (name : String) :
    Quiet (a.addressOf start name) := by
  unfold Arena.addressOf
  split
  · exact ok _
  · exact error (.of rfl)

instance deref (a : Arena) (p : Pointer) : Quiet (a.deref p) := by
  unfold Arena.deref
  split
  · exact ok _
  · exact error (.of rfl)

instance storeVia (a : Arena) (p : Pointer) (v : Value) : Quiet (a.storeVia p v) := by
  unfold Arena.storeVia
  split
  · exact ite (ok _) (error (.of rfl))
  · exact error (.of rfl)

end Quiet

/-! ### Objects -/

/-- A computation on objects whose fault is quiet, if it ends with one. -/
class Heap.Quiet {α : Type} (act : HeapM α) : Prop where
  quiet : ∀ h, ScriptMachine.Quiet (act.run.run h).1

namespace Heap.Quiet

variable {α β : Type}

theorem pure (a : α) : Heap.Quiet (Pure.pure a) := ⟨fun _ => .ok a⟩

theorem bind {act : HeapM α} {next : α → HeapM β} (hact : Heap.Quiet act)
    (hnext : ∀ a, Heap.Quiet (next a)) : Heap.Quiet (act >>= next) := by
  refine ⟨fun h => ?_⟩
  have hh := hact.quiet h
  simp only [ExceptT.run_bind, StateT.run_bind]
  rcases hrun : act.run.run h with ⟨f | a, h'⟩
  · rw [hrun] at hh
    exact .error (hh.quiet f rfl)
  · exact (hnext a).quiet h'

theorem lift (act : StateM Heap α) : Heap.Quiet (liftM act) := ⟨fun _ => .ok _⟩

theorem check (r : Except Fault α) [hr : ScriptMachine.Quiet r] : Heap.Quiet (liftM r) := by
  cases r with
  | ok a => exact pure a
  | error f => exact ⟨fun _ => .error (hr.quiet f rfl)⟩

theorem throw {f : Fault} (h : f.IsQuiet) : Heap.Quiet (MonadExcept.throw f : HeapM α) :=
  ⟨fun _ => .error h⟩

theorem compositional : Compositional (μ := HeapM) fun _ => Heap.Quiet := ⟨pure, bind⟩

theorem forIn {γ σ : Type} (xs : List γ) (body : γ → σ → HeapM (ForInStep σ)) (init : σ)
    (hbody : ∀ x s, Heap.Quiet (body x s)) : Heap.Quiet (ForIn.forIn xs init body) :=
  compositional.forIn fun x _ => hbody x

theorem get : Heap.Quiet (MonadState.get : HeapM Heap) := ⟨fun _ => .ok _⟩

instance setElement (r : Ref .array) (index : Nat) (v : Value) :
    Heap.Quiet (Heap.setElement r index v) :=
  bind get fun _ => bind (check _) fun _ => lift _

instance appendElement (r : Ref .array) (v : Value) : Heap.Quiet (Heap.appendElement r v) :=
  bind get fun _ => bind (check _) fun _ => lift _

instance deleteElement (r : Ref .array) (index : Nat) :
    Heap.Quiet (Heap.deleteElement r index) :=
  bind get fun _ => bind (check _) fun _ => bind (lift _) fun _ => pure _

instance replaceElements (r : Ref .array) (values : Array Value) :
    Heap.Quiet (Heap.replaceElements r values) :=
  bind get fun _ => bind (check _) fun _ => lift _

instance setEntry (r : Ref .map) (key value : Value) : Heap.Quiet (Heap.setEntry r key value) :=
  bind get fun _ => bind (check _) fun _ => lift _

instance deleteEntry (r : Ref .map) (key : Value) : Heap.Quiet (Heap.deleteEntry r key) :=
  bind get fun _ => bind (check _) fun _ => bind (lift _) fun _ => pure _

instance mergeEntries (r source : Ref .map) : Heap.Quiet (Heap.mergeEntries r source) := by
  unfold Heap.mergeEntries
  split
  · exact pure _
  · refine bind get fun h => bind (forIn _ _ _ fun key _ => ?_) fun _ => pure _
    exact bind (check _) fun found => bind (setEntry r key _) fun _ => pure _

instance setField (r : Ref .struct) (name : String) (v : Value) :
    Heap.Quiet (Heap.setField r name v) :=
  bind get fun _ => bind (check _) fun _ => lift _

instance exchange (r : Ref .array) (j : Nat) : Heap.Quiet (Exec.exchange r j) :=
  bind get fun _ => bind (check _) fun _ => bind (check _) fun _ => bind (setElement _ _ _) fun _ =>
    setElement _ _ _

instance coerceScalar (h : Heap) (v : Value) (k : Kind) :
    ScriptMachine.Quiet (Heap.coerceScalar h v k) := .ite (.ok _) (.ite (.ok _) (.toScalar v k))

instance ofKindOrNull (v : Value) (k : Kind) : ScriptMachine.Quiet (Heap.ofKindOrNull v k) :=
  .ite (.ok _) (.error (.of rfl))

theorem coerceToKind (v : Value) (k : Kind) : Heap.Quiet (Heap.coerceToKind v k) := by
  unfold Heap.coerceToKind
  cases k with
  | byte | int32 | int | int64 | float32 | float64 | string | bool =>
    exact bind get fun _ => check _
  | error =>
    dsimp only
    split
    · exact pure _
    · exact pure _
    · exact bind get fun _ => pure _
  | array =>
    dsimp only
    split
    · exact pure _
    · exact lift (newList [])
    · exact lift (newList [v])
  | map | struct | pointer =>
    dsimp only
    split
    all_goals first
      | exact pure _
      | exact throw (.of rfl)
  | mutex | waitGroup | function | type | package | null => exact check _
  | marker | frame | varArgs => exact throw (.of rfl)
  | _ => exact pure _

theorem coerceUnwrapped (t : Ty) (v : Value) : Heap.Quiet (Heap.coerceUnwrapped t v) := by
  fun_induction Heap.coerceUnwrapped t v with
  | case1 v d k => exact coerceToKind v k
  | case3 d e => exact bind (lift _) fun _ => pure _
  | case4 v d e hnotarray hnotnull ih => exact bind ih fun _ => bind (lift _) fun _ => pure _
  | case8 v d name package b ih =>
    refine bind get fun h => ?_
    split
    · exact pure _
    · exact ih
  | case2 => exact pure _
  | _ => exact coerceToKind _ _

instance coerce (t : Ty) (v : Value) : Heap.Quiet (Heap.coerce t v) := coerceUnwrapped t v.unwrapped

end Heap.Quiet

end ScriptMachine
