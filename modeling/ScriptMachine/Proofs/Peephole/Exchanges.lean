import ScriptMachine.Proofs.Layout.Steps
import ScriptMachine.Proofs.Peephole.Drops
import ScriptMachine.Proofs.Peephole.Structs

/-!
# Runs exchanged for others

What the rules put in place of a run of instructions does the same as the run, on every machine.

* `Exchange`: what the rules find, and what they put in its place.
* `exchange_of_findReplacement`: there is nothing else that they find.
* `Instruction.IsProper`, `Instruction.IsSober`: instructions on which the rules may be relied;
  `dropTotal`: how many operands the drops among instructions take.
* `Exchange.alike`: so both runs do the same.
* `Exchange.sober`, `Exchange.leaves`, `Exchange.spells`: and the rules may be relied on again.
-/

namespace ScriptMachine

/-! ### Instructions that rules may be relied on -/

/-- A branch has an integer for its operand, and no type is pushed that is named as the field that tells
the type of a struct. -/
structure Instruction.IsProper (i : Instruction) : Prop where
  wide : i.op.isBranch = true → i.operand.IsWide
  unnamed : i.op = .push → ∀ t, i.operand.unwrapped = .type t → t.text ≠ typeField

/-- Moreover a drop takes its operand for a count. -/
structure Instruction.IsSober (i : Instruction) : Prop extends i.IsProper where
  counted : i.op = .drop → ∃ n, i.operand.dropCount? = some n

/-- What the instruction pushes, if it is a push, is no container. -/
def Instruction.PushesLeaf (i : Instruction) : Prop :=
  i.op = .push → i.operand.unwrapped.isLeaf = true

/-- The instruction swaps operands, or drops just the one on top. -/
def Instruction.MovesTop (i : Instruction) : Prop := i.op = .swap ∨ i.op = .drop ∧ i.operand = .null

/-- How many operands the drops among the instructions take. -/
def dropTotal (ops : List Instruction) : Nat :=
  (ops.map fun i => if i.op = .drop then i.operand.dropCount?.getD 0 else 0).sum

theorem dropTotal_append (ops rest : List Instruction) :
    dropTotal (ops ++ rest) = dropTotal ops + dropTotal rest := by
  unfold dropTotal
  rw [List.map_append, List.sum_append_nat]

namespace Peephole

open Exec

variable {m : Machine} {h : Heap} {w w₁ : World} {c : Code} {rule : Rule} {address : Nat}
  {ops built : List Instruction} {a b v : Value} {L : Literals} {depth : Nat}

/-- What the rules find in code, and what they put in its place. -/
inductive Exchange : List Instruction → List Instruction → Prop
  | discard {v : Value} : Exchange [⟨.push, v⟩, ⟨.drop, .null⟩] []
  | drops {a b : Value} {j k : Int64} (ha : a.summand? = some j) (hb : b.summand? = some k) :
      Exchange [⟨.drop, a⟩, ⟨.drop, b⟩] [⟨.drop, .int (j + k)⟩]
  | fold {ops : List Instruction} {w : World} {v : Value} (hops : IsFolded ops)
      (hv : ((folded ops).run w).1 = some v) : Exchange ops [⟨.push, v⟩]
  | reload {h : Heap} {a b : Value} (hsame : sameOperand h a b = true) :
      Exchange [⟨.load, a⟩, ⟨.load, b⟩] [⟨.load, a⟩, ⟨.dup, .null⟩]
  | reorder {a b operand : Value} :
      Exchange [⟨.push, a⟩, ⟨.push, b⟩, ⟨.swap, operand⟩] [⟨.push, b⟩, ⟨.push, a⟩]
  | idle {operand : Value} : Exchange [⟨.noOperation, operand⟩] []

/-- Only what is absent is the same as it. -/
theorem eq_null_of_sameOperand (hsame : sameOperand h .null v = true) : v = .null := by
  cases v with
  | null => rfl
  | _ => cases hsame

theorem ops_eq_two {p q : Opcode} (hops : ops.map (·.op) = [p, q]) :
    ∃ a b, ops = [⟨p, a⟩, ⟨q, b⟩] := by
  obtain ⟨⟨_, a⟩, rest, rfl, rfl, hrest⟩ := List.map_eq_cons_iff.1 hops
  obtain ⟨⟨_, b⟩, rest, rfl, rfl, hnil⟩ := List.map_eq_cons_iff.1 hrest
  cases List.map_eq_nil_iff.1 hnil
  exact ⟨a, b, rfl⟩

theorem exchange_of_match {registers : Registers} (hrule : rule ∈ rules)
    (hops : ops.map (·.op) = rule.pattern.map (·.1)) (hmatch : rule.match? h ops = some registers)
    (hbuilt : (replacementFor ops registers rule.replacement).run w = (some built, w₁)) :
    Exchange ops built := by
  have hfold : rule.replacement = [(.push, .folded)] → Exchange ops built := by
    intro hreplacement
    have hfolded := isFolded_of_mem hrule ⟨_, by rw [hreplacement]; exact .head _, rfl⟩ hops
    rw [hreplacement, run_replacementFor_cons, operandFrom] at hbuilt
    split at hbuilt
    · cases hbuilt
    · rename_i v w₂ hv
      cases hbuilt
      exact .fold hfolded (w := w) (by rw [hv])
  unfold rules foldBinary at hrule
  simp only [List.mem_cons, List.not_mem_nil, or_false] at hrule
  rcases hrule with rfl | rfl | rfl | rfl | rfl | rfl | rfl | rfl | rfl | rfl
  · obtain ⟨v, operand, rfl⟩ := ops_eq_two hops
    cases hbuilt
    have hnull : sameOperand h .null operand = true := by
      by_contra hnot
      simp [Rule.match?, matchAll, matchOperand, hnot] at hmatch
    obtain rfl := eq_null_of_sameOperand hnull
    exact .discard
  · obtain ⟨a, b, rfl⟩ := ops_eq_two hops
    obtain ⟨j, k, hj, hk, rfl⟩ := summands_of_match hmatch
    cases hbuilt
    exact .drops hj hk
  · exact hfold rfl
  · exact hfold rfl
  · exact hfold rfl
  · exact hfold rfl
  · exact hfold rfl
  · obtain ⟨a, b, rfl⟩ := ops_eq_two hops
    change (if sameOperand h a b then some [(0, a)] else none).bind some = some registers at hmatch
    split at hmatch
    · rename_i hsame
      cases hmatch
      cases hbuilt
      exact .reload hsame
    · cases hmatch
  · obtain ⟨⟨_, a⟩, rest, rfl, rfl, hrest⟩ := List.map_eq_cons_iff.1 hops
    obtain ⟨b, operand, rfl⟩ := ops_eq_two hrest
    change (if sameOperand h .null operand then some [(0, a), (1, b)] else none).bind some
      = some registers at hmatch
    split at hmatch
    · cases hmatch
      cases hbuilt
      exact .reorder
    · cases hmatch
  · obtain ⟨⟨_, operand⟩, rest, rfl, rfl, hnil⟩ := List.map_eq_cons_iff.1 hops
    cases List.map_eq_nil_iff.1 hnil
    cases hbuilt
    exact .idle

/-- **All that the rules find** are these exchanges. -/
theorem exchange_of_findReplacement
    (hfind : (findReplacement c address rules).run w = (some (rule, built), w₁)) :
    Exchange (window c address rule) built := by
  obtain ⟨hrule, hopen, v, v', registers, hmatch, hbuilt⟩ := built_of_findReplacement hfind
  exact exchange_of_match hrule (ops_window hopen hmatch) hmatch hbuilt

/-! ### Straight runs -/

theorem straight_of_isFolded (hops : IsFolded ops) : ∀ i ∈ ops, i.op.isStraight = true := by
  cases hops with
  | @operator op a b operand hop =>
    have hlast : op.isStraight = true := by cases op <;> first | rfl | cases hop
    simpa using ⟨rfl, hlast⟩
  | negation => simpa using ⟨rfl, rfl⟩

theorem Exchange.straight (hx : Exchange ops built) :
    (∀ i ∈ ops, i.op.isStraight = true) ∧ ∀ i ∈ built, i.op.isStraight = true := by
  cases hx with
  | fold hops hv => exact ⟨straight_of_isFolded hops, by simp [Opcode.isStraight]⟩
  | _ => exact ⟨by simp [Opcode.isStraight], by simp [Opcode.isStraight]⟩

/-! ### What the instructions do -/

/-- The value on top is taken with nothing else, marker or not. -/
theorem outcome_pop_onto (hfp : m.context.fp ≤ m.context.stack.size) (v : Value) :
    outcome pop (m.onto [v]) = (.ok v, m) := by
  have hstack : (m.onto [v]).context.stack = m.context.stack.push (.value v) := by
    simp [Machine.onto, Machine.withStack]
  have hsize := m.size_stack_onto [v]
  have hlength : [v].length = 1 := rfl
  have hsame : (m.onto [v]).context.fp = m.context.fp := rfl
  rw [pop, outcome_bind_ok (outcome_get _), if_neg (by omega), hstack, Array.back?_push]
  show (_, (m.onto [v]).withStack (m.onto [v]).context.stack.pop) = _
  rw [hstack, Array.pop_push]
  rfl

theorem outcome_peek_onto (hfp : m.context.fp ≤ m.context.stack.size) (v : Value) :
    outcome peek (m.onto [v]) = (.ok v, m.onto [v]) := by
  have hstack : (m.onto [v]).context.stack = m.context.stack.push (.value v) := by
    simp [Machine.onto, Machine.withStack]
  have hsize := m.size_stack_onto [v]
  have hlength : [v].length = 1 := rfl
  have hsame : (m.onto [v]).context.fp = m.context.fp := rfl
  rw [peek, outcome_bind_ok (outcome_context _), if_neg (by omega), hstack, Array.back?_push]
  rfl

theorem outcome_push_onto (v : Value) (m : Machine) : outcome (push v) m = (.ok (), m.onto [v]) := by
  rw [outcome_push, Machine.onto, List.map_singleton, ← Array.push_eq_append]
  rfl

/-- Loading pushes what a visible name stands for, and changes nothing else. -/
theorem outcome_load (operand : Value) (m : Machine) :
    outcome (execute ⟨.load, operand⟩) m =
      match operand.string? with
      | none => (.error (.fault (.about .invalidValue operand.kindName)), m)
      | some name =>
        match m.world.scopes.get? m.context.symbols name with
        | none => (.error (.fault (.about .unknownSymbol name)), m)
        | some v => (.ok (), m.onto [v.unwrapped]) := by
  show outcome (loadName operand) m = _
  unfold loadName operandName
  cases operand.string? with
  | none => rfl
  | some name =>
    have hlookup : outcome (lookup? name) m
        = (.ok (m.world.scopes.get? m.context.symbols name), m) := rfl
    dsimp only
    rw [pure_bind, lookup, bind_assoc, outcome_bind_ok hlookup]
    cases m.world.scopes.get? m.context.symbols name with
    | none => rfl
    | some v => exact outcome_push_onto v.unwrapped m

/-- Operands that are the same name the same, or nothing. -/
theorem string?_of_sameOperand (hsame : sameOperand h a b = true) {name : String}
    (ha : a.string? = some name) : b.string? = some name := by
  unfold Value.string? at ha ⊢
  have ha' : a.unwrapped = .string name := by
    split at ha
    · rename_i s hs
      cases ha
      exact hs
    · cases ha
  have hequal : h.equalPlain (.string name) b.unwrapped = true := by
    have hwithin := (Bool.and_eq_true_iff.1 hsame).2
    unfold Heap.equal Heap.depth at hwithin
    rw [Heap.equalWithin, ha'] at hwithin
    exact hwithin
  cases hb : b.unwrapped with
  | string s =>
    rw [hb] at hequal
    exact congrArg some (eq_of_beq hequal).symm
  | _ =>
    rw [hb] at hequal
    cases hequal

/-! ### What the rules put in place does the same -/

theorem executeAll_pair (i j : Instruction) :
    executeAll [i, j] = execute i >>= fun _ => execute j := by
  rw [executeAll, executeAll_singleton]

/-- **Loading what is on top** is the same as duplicating it. -/
theorem outcome_reload (hsame : sameOperand h a b = true)
    (hfp : m.context.fp ≤ m.context.stack.size) :
    outcome (executeAll [⟨.load, a⟩, ⟨.load, b⟩]) m
      = outcome (executeAll [⟨.load, a⟩, ⟨.dup, .null⟩]) m := by
  rw [executeAll_pair, executeAll_pair]
  have hload := outcome_load a m
  cases ha : a.string? with
  | none =>
    rw [ha] at hload
    rw [outcome_bind_error hload, outcome_bind_error hload]
  | some name =>
    rw [ha] at hload
    dsimp only at hload
    cases hv : m.world.scopes.get? m.context.symbols name with
    | none =>
      rw [hv] at hload
      rw [outcome_bind_error hload, outcome_bind_error hload]
    | some v =>
      rw [hv] at hload
      have hagain := outcome_load b (m.onto [v.unwrapped])
      rw [string?_of_sameOperand hsame ha] at hagain
      have hfound : (m.onto [v.unwrapped]).world.scopes.get? (m.onto [v.unwrapped]).context.symbols name
          = some v := hv
      dsimp only at hagain
      rw [hfound] at hagain
      have hdup : outcome (execute ⟨.dup, .null⟩) (m.onto [v.unwrapped])
          = (.ok (), (m.onto [v.unwrapped]).onto [v.unwrapped]) := by
        show outcome (peek >>= push) _ = _
        rw [outcome_bind_ok (outcome_peek_onto hfp _), outcome_push_onto]
      rw [outcome_bind_ok hload, outcome_bind_ok hload, hagain, hdup]

/-- **Pushing in the other order** is the same as swapping. -/
theorem outcome_reorder (ha : a.unwrapped.isLeaf = true) (hb : b.unwrapped.isLeaf = true)
    (operand : Value) (hfp : m.context.fp ≤ m.context.stack.size) :
    outcome (executeAll [⟨.push, a⟩, ⟨.push, b⟩, ⟨.swap, operand⟩]) m
      = outcome (executeAll [⟨.push, b⟩, ⟨.push, a⟩]) m := by
  have hswap : outcome (execute ⟨.swap, operand⟩) ((m.onto [a.unwrapped]).onto [b.unwrapped])
      = (.ok (), (m.onto [b.unwrapped]).onto [a.unwrapped]) := by
    show outcome (pop >>= fun upper => pop >>= fun lower => push upper >>= fun _ => push lower) _ = _
    rw [outcome_bind_ok (outcome_pop_onto (Machine.fp_le_onto hfp _) _),
      outcome_bind_ok (outcome_pop_onto hfp _), outcome_bind_ok (outcome_push_onto _ _),
      outcome_push_onto]
  rw [executeAll_pair ⟨.push, b⟩, outcome_bind_ok (outcome_push_leaf hb m), outcome_push_leaf ha,
    executeAll, outcome_bind_ok (outcome_push_leaf ha m), executeAll_pair,
    outcome_bind_ok (outcome_push_leaf hb _), hswap]

/-- **Pushing what is dropped at once** is to do nothing. -/
theorem outcome_discard (hv : v.unwrapped.isLeaf = true)
    (hfp : m.context.fp ≤ m.context.stack.size) :
    outcome (executeAll [⟨.push, v⟩, ⟨.drop, .null⟩]) m = (.ok (), m) := by
  have hdrop : outcome (execute ⟨.drop, .null⟩) (m.onto [v.unwrapped]) = (.ok (), m) := by
    rw [execute_drop (n := 1) rfl]
    show outcome ((pop >>= fun _ => Pure.pure ()) >>= fun _ => dropMany 0) _ = _
    rw [bind_assoc, outcome_bind_ok (outcome_pop_onto hfp _)]
    rfl
  rw [executeAll_pair, outcome_bind_ok (outcome_push_leaf hv m), hdrop]

/-- The drop of the sum takes as many operands, if the sum fits an integer. -/
theorem dropCount?_add {j k : Int64} (ha : a.summand? = some j) (hb : b.summand? = some k) {n l : Nat}
    (hn : a.dropCount? = some n) (hl : b.dropCount? = some l) (hfits : n + l < 2 ^ 63) :
    (Value.int (j + k)).dropCount? = some (n + l) := by
  have hj := Value.toInt_summand ha hn
  have hk := Value.toInt_summand hb hl
  rw [Value.dropCount?_int, toInt_add (by omega) (by omega), if_pos (by omega)]
  congr 1
  omega

/-- **What the rules put in place of a run** does the same as the run. -/
theorem Exchange.alike (hx : Exchange ops built) (hsober : ∀ i ∈ ops, i.IsSober)
    (hleaves : (∃ i ∈ ops, i.MovesTop) → ∀ i ∈ ops, i.PushesLeaf) (hfits : dropTotal ops < 2 ^ 63)
    (hfp : m.context.fp ≤ m.context.stack.size) :
    outcome (executeAll ops) m = outcome (executeAll built) m := by
  cases hx with
  | discard =>
    exact outcome_discard (hleaves ⟨_, .tail _ (.head _), .inr ⟨rfl, rfl⟩⟩ _ (.head _) rfl) hfp
  | @drops a b j k ha hb =>
    obtain ⟨n, hn⟩ := (hsober _ (.head _)).counted rfl
    obtain ⟨l, hl⟩ := (hsober _ (.tail _ (.head _))).counted rfl
    dsimp only at hn hl
    have htotal : dropTotal [⟨.drop, a⟩, ⟨.drop, b⟩] = n + l := by simp [dropTotal, hn, hl]
    rw [executeAll_drops hn hl, executeAll_singleton,
      execute_drop (dropCount?_add ha hb hn hl (htotal ▸ hfits))]
  | fold hops hv =>
    obtain ⟨hbare, hout⟩ := outcome_of_folded hops hv
    rw [hout m hfp, executeAll_singleton, outcome_push_leaf (isLeaf_of_isScalar hbare.isScalar),
      hbare.unwrapped_eq]
  | reload hsame => exact outcome_reload hsame hfp
  | reorder =>
    have hall := hleaves ⟨_, .tail _ (.tail _ (.head _)), .inl rfl⟩
    exact outcome_reorder (hall _ (.head _) rfl) (hall _ (.tail _ (.head _)) rfl) _ hfp
  | idle => rfl

/-- Before its last instruction, what the rules put in place leaves the world as it is. -/
theorem Exchange.calm (hx : Exchange ops built)
    (hleaves : (∃ i ∈ ops, i.MovesTop) → ∀ i ∈ ops, i.PushesLeaf) {front back : List Instruction}
    {i : Instruction} (hsplit : built = front ++ i :: back) {m m' : Machine}
    (hfront : outcome (executeAll front) m = (.ok (), m')) : m'.world = m.world := by
  have hnone : front = [] → m'.world = m.world := by
    rintro rfl
    cases hfront
    rfl
  have hone : ∀ {j k : Instruction}, built = [j, k] →
      (∀ {m'}, outcome (execute j) m = (.ok (), m') → m'.world = m.world) → m'.world = m.world := by
    intro j k hpair hfirst
    rw [hpair] at hsplit
    match front with
    | [] => exact hnone rfl
    | [_] =>
      cases hsplit
      rw [executeAll_singleton] at hfront
      exact hfirst hfront
    | _ :: _ :: front => simp at hsplit
  have hfew : built.length ≤ 1 → m'.world = m.world := by
    intro hlength
    rw [hsplit, List.length_append, List.length_cons] at hlength
    exact hnone (List.length_eq_zero_iff.1 (by omega))
  cases hx with
  | discard | idle => exact hfew (Nat.zero_le 1)
  | drops | fold => exact hfew (Nat.le_refl 1)
  | reload hsame =>
    refine hone rfl fun hload => ?_
    rw [outcome_load] at hload
    split at hload
    · cases hload
    · split at hload
      · cases hload
      · cases hload
        rfl
  | @reorder a b operand =>
    refine hone rfl fun hpush => ?_
    have hleaf := hleaves ⟨_, .tail _ (.tail _ (.head _)), .inl rfl⟩ _ (.tail _ (.head _)) rfl
    rw [outcome_push_leaf hleaf] at hpush
    cases hpush
    rfl

/-! ### The rules may be relied on again -/

/-- **What the rules put in place** may be relied on, and drops no more operands. -/
theorem Exchange.sober (hx : Exchange ops built) (hsober : ∀ i ∈ ops, i.IsSober)
    (hfits : dropTotal ops < 2 ^ 63) :
    (∀ i ∈ built, i.IsSober) ∧ dropTotal built ≤ dropTotal ops := by
  have hidle : ∀ {op : Opcode} {v : Value}, op.isBranch = false → op ≠ .push → op ≠ .drop →
      (⟨op, v⟩ : Instruction).IsSober := fun hbranch hpush hdrop =>
    ⟨⟨fun h => absurd h (Bool.eq_false_iff.1 hbranch), fun h => absurd h hpush⟩,
      fun h => absurd h hdrop⟩
  cases hx with
  | discard | idle => exact ⟨nofun, Nat.zero_le _⟩
  | @drops a b j k ha hb =>
    obtain ⟨n, hn⟩ := (hsober _ (.head _)).counted rfl
    obtain ⟨l, hl⟩ := (hsober _ (.tail _ (.head _))).counted rfl
    dsimp only at hn hl
    have htotal : dropTotal [⟨.drop, a⟩, ⟨.drop, b⟩] = n + l := by simp [dropTotal, hn, hl]
    have hsum := dropCount?_add ha hb hn hl (htotal ▸ hfits)
    refine ⟨List.forall_mem_singleton.2 ⟨⟨nofun, nofun⟩, fun _ => ⟨_, hsum⟩⟩, ?_⟩
    rw [htotal]
    simp [dropTotal, hsum]
  | fold hops hv =>
    obtain ⟨hbare, -⟩ := outcome_of_folded hops hv
    refine ⟨List.forall_mem_singleton.2 ⟨⟨nofun, fun _ t ht => ?_⟩, nofun⟩, Nat.zero_le _⟩
    have hscalar := hbare.isScalar
    rw [← Value.kind_unwrapped, ht] at hscalar
    cases hscalar
  | reload hsame =>
    exact ⟨List.forall_mem_cons.2 ⟨hidle rfl nofun nofun, List.forall_mem_singleton.2
      (hidle rfl nofun nofun)⟩, Nat.zero_le _⟩
  | reorder =>
    exact ⟨List.forall_mem_cons.2 ⟨hsober _ (.tail _ (.head _)), List.forall_mem_singleton.2
      (hsober _ (.head _))⟩, Nat.zero_le _⟩

/-- What the rules put in place moves nothing that is on top, and pushes no container if nothing did. -/
theorem Exchange.leaves (hx : Exchange ops built) :
    (∀ i ∈ built, ¬ i.MovesTop) ∧ ((∀ i ∈ ops, i.PushesLeaf) → ∀ i ∈ built, i.PushesLeaf) := by
  have hstill : ∀ {op : Opcode} {v : Value}, op ≠ .swap → op ≠ .drop →
      ¬ (⟨op, v⟩ : Instruction).MovesTop := by
    rintro op v hswap hdrop (h | ⟨h, -⟩)
    · exact hswap h
    · exact hdrop h
  cases hx with
  | discard | idle => exact ⟨nofun, fun _ => nofun⟩
  | drops =>
    refine ⟨List.forall_mem_singleton.2 ?_, fun _ => List.forall_mem_singleton.2 nofun⟩
    rintro (h | ⟨-, h⟩) <;> cases h
  | fold hops hv =>
    exact ⟨List.forall_mem_singleton.2 (hstill nofun nofun), fun _ => List.forall_mem_singleton.2
      fun _ => isLeaf_of_isScalar (outcome_of_folded hops hv).1.isScalar⟩
  | reload =>
    exact ⟨List.forall_mem_cons.2 ⟨hstill nofun nofun, List.forall_mem_singleton.2
        (hstill nofun nofun)⟩,
      fun _ => List.forall_mem_cons.2 ⟨nofun, List.forall_mem_singleton.2 nofun⟩⟩
  | reorder =>
    exact ⟨List.forall_mem_cons.2 ⟨hstill nofun nofun, List.forall_mem_singleton.2
        (hstill nofun nofun)⟩,
      fun hall => List.forall_mem_cons.2 ⟨hall _ (.tail _ (.head _)), List.forall_mem_singleton.2
        (hall _ (.head _))⟩⟩

/-- What spells literals still does so. -/
theorem Exchange.spells (hx : Exchange ops built) (hspells : ∀ i ∈ ops, i.operand.Spells L depth) :
    ∀ i ∈ built, i.operand.Spells L depth := by
  cases hx with
  | discard | idle => exact nofun
  | drops => exact List.forall_mem_singleton.2 (.apart (.plain rfl rfl))
  | fold hops hv =>
    exact List.forall_mem_singleton.2
      (.apart (Value.IsPlain.apart (.inl (outcome_of_folded hops hv).1.isScalar)))
  | reload =>
    exact List.forall_mem_cons.2 ⟨hspells _ (.head _), List.forall_mem_singleton.2
      (.apart (.plain rfl rfl))⟩
  | reorder =>
    exact List.forall_mem_cons.2 ⟨hspells _ (.tail _ (.head _)), List.forall_mem_singleton.2
      (hspells _ (.head _))⟩

end Peephole

end ScriptMachine
