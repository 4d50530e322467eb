import ScriptMachine.Proofs.Literals.Instructions

/-!
# Frames apart from literals

Opening and closing blocks and packages, entering and leaving functions and dealing with faults keep
a machine apart from the literals of its code.

* `Upholds.pushScope`, `Upholds.popPackage` and companions: blocks and packages.
* `Upholds.pushFrame`, `Upholds.popFrame`: functions.
* `Upholds.recover`, `Upholds.settle`: faults.
-/

namespace ScriptMachine

namespace Exec.Upholds

variable {L : Literals} {v w : Value}

/-! ### Blocks and packages -/

theorem newTable (name : String) (parent : TableId) (boundary : Bool) :
    Upholds L (Exec.onWorld (World.newChild name parent boundary)) fun _ => True :=
  onWorld (World.Apart.newChild name parent boundary)

theorem removeTable (id : TableId) : Upholds L (Exec.onWorld (World.remove id)) fun _ => True :=
  onWorld (World.Apart.remove id)

theorem labelled {a : Arena} (ha : a.Apart L) (table : TableId) (name : String) :
    Ensures (a.setPackage table name) (Arena.Apart L) :=
  fun _ hb => ha.write (w := .setPackage table name) (.plain rfl rfl) hb

theorem pushScope : Upholds L Exec.pushScope fun _ => True :=
  .bind context fun _ _ => .bind (newTable _ _ _) fun _ _ => modifyContext fun _ hc => { hc with }

theorem popScope : Upholds L Exec.popScope fun _ => True := by
  refine .bind context fun c _ => .bind scopes fun a _ => ?_
  split
  · exact fail _
  · exact .bind (removeTable _) fun _ _ => .bind scopes fun _ _ => .bind (noteThread _ _) fun _ _ =>
      modifyContext fun _ hc => { hc with }

theorem packageNamed (name : String) : Upholds L (Exec.packageNamed name) fun _ => True := by
  refine .bind scopes fun a _ => ?_
  dsimp only
  split
  · exact .pure trivial
  · exact onHeap (Heap.Apart.newPackage nofun)

theorem packageTable (r : Ref .package) (name : String) :
    Upholds L (Exec.packageTable r name) fun _ => True := by
  refine .bind heap fun h hh => .bind scopes fun a _ => ?_
  split
  · exact .pure trivial
  · exact .bind (newTable _ _ _) fun table _ => .bind scopes fun _ ha =>
      .bind (lift (labelled ha table name)) fun _ hb => .bind (setScopes hb) fun _ _ =>
      .bind (onHeap (Heap.Apart.putPackage (hh.package r))) fun _ _ => .pure trivial

theorem pushPackage (operand : Value) : Upholds L (Exec.pushPackage operand) fun _ => True :=
  .bind (operandName operand) fun _ _ => .bind (packageNamed _) fun _ _ =>
    .bind (packageTable _ _) fun _ _ => modifyContext fun _ hc => { hc with }

theorem withExports {a : Arena} (ha : a.Apart L) {p : PackageObject} (hp : p.Apart L)
    (table : TableId) : (Exec.withExports a p table).Apart L :=
  List.foldlRecOn (motive := PackageObject.Apart L) _ _ hp fun _ hp s hs =>
    hp.set s.1 (ha.localSymbols table s (List.mem_filter.1 hs).1).unwrapped

theorem popPackage : Upholds L Exec.popPackage fun _ => True := by
  refine .bind context fun c _ => ?_
  split
  · exact fail _
  · exact .bind (modifyContext fun _ hc => { hc with }) fun _ _ => .bind scopes fun a ha =>
      .bind heap fun h hh =>
      .bind (onHeap (Heap.Apart.putPackage (withExports ha (hh.package _) _))) fun _ _ =>
      .bind (noteThread _ _) fun _ _ => .bind (storeIn _ _ (.plain rfl rfl)) fun _ _ =>
      modifyContext fun _ hc => { hc with }

/-! ### Frames -/

theorem saved {c : Context} (hc : c.Apart L) (name : String) : (c.saved name).Apart L :=
  ⟨hc.code, hc.receivers, hc.deferred⟩

theorem entered {c : Context} (hc : c.Apart L) {f : Frame} (hf : f.Apart L) (table : TableId)
    {code : Code} (hcode : code.Spells L) (pc : Nat) : (c.entered f table code pc).Apart L where
  code := hcode
  stack s hs := (Array.mem_push.1 hs).elim (hc.stack s) fun heq => heq ▸ hf
  receivers := hc.receivers
  deferred := nofun
  result := nofun
  loops := hc.loops

theorem pushFrame (name : String) (table : TableId) {code : Code} (hcode : code.Spells L)
    (pc : Nat) : Upholds L (Exec.pushFrame name table code pc) fun _ => True :=
  .bind context fun _ hc => .bind (noteThread _ _) fun _ _ =>
    .bind (modifyContext fun _ hc' => entered hc' (saved hc name) table hcode pc) fun _ _ =>
    .bind context fun _ _ => observe _

theorem enterChild (name : String) {code : Code} (hcode : code.Spells L) (pc : Nat)
    (boundary : Bool) : Upholds L (Exec.enterChild name code pc boundary) fun _ => True :=
  .bind context fun _ _ => .bind (newTable _ _ _) fun _ _ => pushFrame _ _ hcode _

theorem release {l : Loop} (hl : l.walked.Apart L) : Upholds L (Exec.release l) fun _ => True := by
  obtain ⟨index, value, walked, position⟩ := l
  cases walked with
  | map r keys => exact onHeap (.bind .get fun h hh => Heap.Apart.putMap hl.1 (hh.map hl.1))
  | array r => exact onHeap (.bind .get fun h hh => Heap.Apart.putArray hl (hh.array hl))
  | runes items => exact .pure trivial
  | channel r => exact .pure trivial

theorem endLoops (count : Nat) : Upholds L (Exec.endLoops count) fun _ => True := by
  induction count with
  | zero => exact .pure trivial
  | succ count ih =>
    refine .bind context fun c hc => ?_
    split
    · exact .pure trivial
    · rename_i l rest hloops
      have hall := hc.loops
      rw [hloops] at hall
      obtain ⟨hl, hrest⟩ := List.forall_mem_cons.1 hall
      exact .bind (modifyContext fun _ hc => { hc with loops := hrest }) fun _ _ =>
        .bind (release hl) fun _ _ => ih

theorem endLoopsTo (depth : Nat) : Upholds L (Exec.endLoopsTo depth) fun _ => True :=
  .bind context fun _ _ => endLoops _

theorem publishVariable (scope : String) (package : Ref .package) (name : String)
    (hv : v.Apart L) :
    Upholds L (Exec.publishVariable scope package name v) fun _ => True := by
  have hitem : Upholds L (do
      Exec.onHeap (Heap.putPackage package (((← Exec.heap).package package).set name v)))
      fun _ => True :=
    .bind heap fun h hh => onHeap (Heap.Apart.putPackage ((hh.package package).set name hv))
  refine .bind (note _ _) fun _ _ => .bind heap fun h _ => ?_
  dsimp only
  split
  · exact .bind (storeIn _ _ hv) fun _ _ => hitem
  · exact hitem

theorem findPackage (name : String) (first second : TableId) :
    Upholds L (Exec.findPackage name first second) fun _ => True := by
  refine .bind scopes fun a _ => ?_
  dsimp only
  split
  · exact .pure trivial
  · exact .pure trivial

theorem publishPackages (stop : TableId) :
    Upholds L (Exec.publishPackages stop) fun _ => True := by
  refine .bind scopes fun a _ => .bind context fun c _ =>
    .bind (.forIn fun table _ => ?_) fun _ _ => .pure trivial
  dsimp only
  refine .ite ?_ (.pure trivial)
  refine .bind (findPackage _ _ _) fun found _ => ?_
  split
  · refine .bind scopes fun a ha => .bind (.forIn fun symbol hsymbol => ?_) fun _ _ => .pure trivial
    exact .ite (.bind (publishVariable _ _ _ (ha.localSymbols table symbol hsymbol)) fun _ _ =>
      .pure trivial) (.pure trivial)
  · exact .pure trivial

theorem dropScopesTo (target : TableId) :
    Upholds L (Exec.dropScopesTo target) fun _ => True :=
  .bind scopes fun _ _ => .bind context fun _ _ =>
    .bind (.forIn fun table _ => .bind (removeTable table) fun _ _ => .pure trivial) fun _ _ =>
    modifyContext fun _ hc => { hc with }

theorem takeFrame : Upholds L Exec.takeFrame (Frame.Apart L) := by
  refine .bind context fun c hc => .ite (fail _) ?_
  refine .bind (modifyContext fun _ hc' => { hc' with
    stack := fun s hs => hc.stack s (mem_of_mem_extract (mem_of_mem_pop hs)) }) fun _ _ => ?_
  split
  · rename_i f hf
    exact .pure (hc.stack _ (mem_of_mem_extract (Array.mem_of_back? hf)))
  · exact fail _

theorem resumed {c : Context} (hc : c.Apart L) {f : Frame} (hf : f.Apart L) :
    (c.resumed f).Apart L :=
  { hc with
    code := hf.code
    receivers := fun r hr => hf.receivers r (List.mem_of_mem_drop hr)
    deferred := hf.deferred }

theorem restoreFrame : Upholds L Exec.restoreFrame fun _ => True :=
  .bind takeFrame fun _ hf => .bind (publishPackages _) fun _ _ => .bind (dropScopesTo _) fun _ _ =>
    .bind (endLoopsTo _) fun _ _ => .bind (modifyContext fun _ hc => resumed hc hf) fun _ _ =>
    .bind (storeIn _ _ (.plain rfl rfl)) fun _ _ =>
    .bind (modifyContext fun _ hc => { hc with }) fun _ _ => .bind context fun _ _ =>
    .bind (observe _) fun _ _ => .bind context fun _ _ => noteThread _ _

theorem popFrame : Upholds L Exec.popFrame fun _ => True := by
  refine .bind context fun c hc => .ite (fail _) ?_
  refine .bind (modifyContext fun c' hc' => { hc' with
    stack := fun s hs => hc'.stack s (mem_of_mem_extract hs), result := nofun }) fun _ _ =>
    .bind restoreFrame fun _ _ => .ite ?_ ?_
  · split
    · rename_i v hv
      exact push (hc.result v hv)
    · exact .pure trivial
  · exact modifyContext fun c' hc' => { hc' with
      stack := fun s hs => (Array.mem_append.1 hs).elim (hc'.stack s) (operands hc s) }

theorem unwindFrame : Upholds L Exec.unwindFrame fun _ => True :=
  .bind (modifyContext fun _ hc => { hc with result := nofun }) fun _ _ => restoreFrame

theorem unwindTo (fp fuel : Nat) : Upholds L (Exec.unwindTo fp fuel) fun _ => True := by
  induction fuel with
  | zero => exact .pure trivial
  | succ fuel ih =>
    exact .bind context fun _ _ => .ite (.bind unwindFrame fun _ _ => ih) (.pure trivial)

/-! ### Handlers -/

theorem arm (operand : Value) : Upholds L (Exec.arm operand) fun _ => True :=
  .bind (branchTarget operand) fun _ _ => modifyContext fun _ hc => { hc with }

theorem disarm : Upholds L Exec.disarm fun _ => True := by
  refine .bind context fun c _ => ?_
  split
  · exact fail _
  · exact .bind (modifyContext fun _ hc => { hc with }) fun _ _ =>
      write (.delete c.symbols "_error" true) (.plain rfl rfl)

theorem narrow (operand : Value) : Upholds L (Exec.narrow operand) fun _ => True := by
  refine .bind context fun c _ => ?_
  split
  · exact fail _
  · exact .bind (check _) fun _ _ => modifyContext fun _ hc => { hc with }

theorem catchAt (handler : Handler) (outer : List Handler) (f : Fault) :
    Upholds L (Exec.catchAt handler outer f) fun _ => True :=
  .bind context fun _ _ => .bind (unwindTo _ _) fun _ _ =>
    .bind (modifyContext fun _ hc => { hc with }) fun _ _ => .bind (dropScopesTo _) fun _ _ =>
    .bind (modifyContext fun _ hc => { hc with
      stack := fun s hs => hc.stack s (mem_of_mem_extract hs) }) fun _ _ =>
    .bind (endLoopsTo _) fun _ _ => .bind (modifyContext fun _ hc => { hc with }) fun _ _ =>
    .bind context fun _ _ => .bind (observe _) fun _ _ => storeHere _ (.plain rfl rfl)

theorem abandon (f : Fault) : Upholds L (Exec.abandon f) fun _ => True := by
  have hleave : ∀ fuel, Upholds L (do
      tryCatch (Exec.unwindTo 0 fuel) fun _ => return
      Exec.modifyContext fun c => { c with running := false }
      Exec.fail f : Exec Unit) fun _ => True := fun fuel =>
    .bind (.tryCatch (unwindTo 0 fuel) fun _ => .pure trivial) fun _ _ =>
      .bind (modifyContext fun _ hc => { hc with }) fun _ _ => fail f
  exact .bind context fun c _ => .ite
    (.bind (onWorld (World.Apart.emit _ _)) fun _ _ => hleave _) (hleave _)

theorem recover (f : Fault) : Upholds L (Exec.recover f) fun _ => True := by
  refine .ite (fail _) (.bind context fun c _ => ?_)
  dsimp only
  split
  · exact catchAt _ _ _
  · exact abandon _

theorem finish : Upholds L Exec.finish fun _ => True :=
  .bind (modifyContext fun _ hc => { hc with }) fun _ _ => .bind context fun _ _ =>
    .bind (note _ _) fun _ _ => ScriptMachine.Upholds.write fun _ hm => { hm with }

theorem endWith (f : Fault) : Upholds L (Exec.endWith f) fun _ => True :=
  ScriptMachine.Upholds.write fun _ hm => { hm with }

theorem settle (f : Fault) : Upholds L (Exec.settle f) fun _ => True := by
  refine .ite finish (.tryCatch (recover f) fun halt => ?_)
  cases halt with
  | fault g => exact endWith g
  | blocked => exact wait

end Exec.Upholds

end ScriptMachine
