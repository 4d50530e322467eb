import ScriptMachine.Proofs.Loops.Ensemble

/-!
# Freezes are accounted for

As long as no loop begins or ends, no freeze comes or goes: in all states of a run, containers are
frozen as often as at its start, plus once for each loop over them that began since and has not
ended.

* `countOver`: the loops over a container.
* `Deals.accounts`: a step accounts for the freezes of a container.
* `Passes.accounts`: so does the passing of a turn.
* `freezes_accounted`: so does a run.
-/

namespace ScriptMachine

/-- The number of loops over a container. -/
def countOver (c : Container) (lists : List (List Loop)) : Nat :=
  lists.flatten.countP (·.walks c)

theorem countOver_cons (c : Container) (loops : List Loop) (lists : List (List Loop)) :
    countOver c (loops :: lists) = loops.countP (·.walks c) + countOver c lists := by
  rw [countOver, List.flatten_cons, List.countP_append, countOver]

/-- What is not among the objects is not frozen. -/
theorem Heap.freezes_of_not_holds {h : Heap} {c : Container} (hc : ¬ h.Holds c) :
    h.freezes c = 0 := by
  cases c with
  | array r =>
    rw [freezes, array, Array.getElem?_eq_none (Nat.le_of_not_lt hc)]
    rfl
  | map r =>
    rw [freezes, map, Array.getElem?_eq_none (Nat.le_of_not_lt hc)]
    rfl

namespace Machine

variable {heads : Prop} {m m' m'' : Machine} {c : Container}

/-! ### Steps -/

/-- Freezes of a container come and go with loops over it. -/
def Accounts (c : Container) (m m' : Machine) : Prop :=
  countOver c m.loopStacks ≤ m.world.heap.freezes c →
    m'.world.heap.freezes c + countOver c m.loopStacks
      = m.world.heap.freezes c + countOver c m'.loopStacks

theorem Accounts.trans (h : Accounts c m m') (h' : Accounts c m' m'') : Accounts c m m'' := by
  intro hle
  have hfirst := h hle
  have hsecond := h' (by omega)
  omega

theorem loopStacks_of_spares (h : m.Spares m') : m'.loopStacks = m.loopStacks := by
  rw [loopStacks, loopStacks, h.loops_eq, h.suspended_eq]

theorem Heeds.countOver_eq (h : m.Heeds m') (c : Container) :
    countOver c m'.loopStacks = countOver c m.loopStacks := by
  obtain ⟨fresh, hstacks⟩ := h.loopStacks_eq
  rw [hstacks, countOver, List.flatten_append, List.flatten_replicate_nil, List.nil_append,
    countOver]

theorem Heeds.accounts (h : m.Heeds m') (c : Container) : Accounts c m m' := fun _ => by
  rw [h.countOver_eq, h.heap.freezes_eq]

theorem Unwinds.accounts (h : m.Unwinds m') (c : Container) : Accounts c m m' := by
  intro hle
  obtain ⟨ended, hends⟩ := h.endsLoops
  have hcount : countOver c m.loopStacks
      = ended.countP (·.walks c) + countOver c m'.loopStacks := by
    rw [loopStacks, loopStacks, h.suspended_eq, hends.loops_eq, countOver_cons, countOver_cons,
      List.countP_append, Nat.add_assoc]
  have hfreezes := hends.freezes_eq c
  omega

theorem Winds.accounts {l : Loop} (h : Winds l m m') (c : Container) : Accounts c m m' := by
  intro _
  rw [loopStacks, loopStacks, h.suspended_eq, h.loops_eq, countOver_cons, countOver_cons,
    List.countP_cons, h.freezes_eq]
  omega

theorem Advances.countOver_eq (h : m.Advances m') (c : Container) :
    countOver c m'.loopStacks = countOver c m.loopStacks := by
  obtain ⟨l, rest, hloops, hspares⟩ := h
  have hsame : l.advanced.walks c = l.walks c := by cases c <;> rfl
  rw [loopStacks_of_spares hspares, loopStacks, loopStacks, hloops, countOver_cons, countOver_cons,
    List.countP_cons, List.countP_cons, hsame]

theorem Advances.accounts (h : m.Advances m') (c : Container) : Accounts c m m' := by
  intro _
  rw [h.countOver_eq]
  obtain ⟨l, rest, -, hspares⟩ := h
  exact congrArg (· + _) (hspares.heap.freezes_eq c)

/-- **A step accounts for the freezes** of every container. -/
theorem Deals.accounts (h : m.Deals heads m') (c : Container) : Accounts c m m' := by
  cases h with
  | heeds h hends => exact (h.accounts c).trans (hends.accounts c)
  | winds h hbegins hends =>
    exact (h.spares.heeds.accounts c).trans ((hbegins.accounts c).trans (hends.accounts c))
  | advances _ h hgoes hends =>
    exact (h.heeds.accounts c).trans ((hgoes.accounts c).trans (hends.accounts c))

theorem Unwinds.countOver_le (h : m.Unwinds m') (c : Container) :
    countOver c m'.loopStacks ≤ countOver c m.loopStacks := by
  obtain ⟨ended, hends⟩ := h.endsLoops
  rw [loopStacks, loopStacks, h.suspended_eq, hends.loops_eq, countOver_cons, countOver_cons,
    List.countP_append]
  omega

/-- No loop begins over what is not among the objects. -/
theorem Deals.countOver_le (h : m.Deals heads m') (hc : ¬ m.world.heap.Holds c) :
    countOver c m'.loopStacks ≤ countOver c m.loopStacks := by
  cases h with
  | heeds h hends =>
    rw [← h.countOver_eq c]
    exact hends.countOver_le c
  | winds h hbegins hends =>
    refine Nat.le_trans (hends.countOver_le c) ?_
    rw [loopStacks, loopStacks, hbegins.suspended_eq, hbegins.loops_eq, h.suspended_eq,
      h.loops_eq, countOver_cons, countOver_cons, List.countP_cons]
    split
    · rename_i hwalks
      have hholds := hbegins.holds c hwalks
      rw [h.heap_eq] at hholds
      exact absurd hholds hc
    · exact Nat.le_refl _
  | advances _ h hgoes hends =>
    rw [← h.heeds.countOver_eq c, ← hgoes.countOver_eq c]
    exact hends.countOver_le c

/-- A context that makes way takes its loops with it. -/
theorem countOver_departing (m : Machine) (c : Container) : countOver c m.loopStacks
    = (m.departing.flatMap (·.loops)).countP (·.walks c) + countOver c m.ready.loopStacks := by
  have hnone : countOver c m.loopStacks
      = (([] : List Context).flatMap (·.loops)).countP (·.walks c) + countOver c m.loopStacks := by
    rw [List.flatMap_nil, List.countP_nil, Nat.zero_add]
  unfold departing ready
  cases m.ended with
  | none => exact hnone
  | some result =>
    cases hsuspended : m.suspended with
    | nil => exact hnone
    | cons s rest =>
      rw [loopStacks, hsuspended, countOver_cons, List.map_cons, List.flatMap_cons,
        List.flatMap_nil, List.append_nil]
      rfl

end Machine

namespace Ensemble

open Machine

variable {start m : Machine} {e e' : Ensemble} {c : Container}

/-- The number of loops over a container, in all contexts. -/
def loopsOver (e : Ensemble) (c : Container) : Nat := e.loops.countP (·.walks c)

theorem loopsOver_eq (e : Ensemble) (c : Container) : e.loopsOver c
    = (e.threads.map fun o => countOver c (e.loopStacks o)).sum
      + (e.gone.flatMap (·.loops)).countP (·.walks c) := by
  rw [loopsOver, loops, List.countP_append, List.countP_flatMap]
  rfl

theorem nodup_threads (e : Ensemble) : e.threads.Nodup := by
  refine List.nodup_cons.2 ⟨by simp, List.Pairwise.map _ (fun a b hne => ?_) List.nodup_range⟩
  exact fun h => hne (Option.some.inj h)

theorem foremost_mem_threads (h : e.Valid) : e.foremost ∈ e.threads := by
  cases hturn : e.turn with
  | none => simp [foremost, threads, hturn]
  | some t => simp [foremost, threads, hturn, h t hturn]

/-- The thread that has its turn is that of the machine. -/
theorem loopStacks_foremost (e : Ensemble) : e.loopStacks e.foremost = e.machine.loopStacks := by
  cases hturn : e.turn with
  | none => simp only [foremost, loopStacks, hturn, Option.map_none]
  | some t => simp only [foremost, loopStacks, hturn, Option.map_some, if_pos]

/-- A step leaves the loops of other threads alone. -/
theorem loopStacks_stepped {o : Option Nat} (h : o ≠ e.foremost) :
    e.stepped.loopStacks o = e.loopStacks o := by
  cases o with
  | none => 
    unfold foremost at h
    unfold loopStacks stepped
    cases hturn : e.turn with
    | none => 
      rw [hturn] at h
      exact absurd rfl h
    | some t => rfl
  | some id =>
    obtain ⟨started, hpending, htasks⟩ := e.machine.tasks_step
    show (if e.foremost = some id then e.machine.step.1.loopStacks
      else e.machine.step.1.taskLoopStacks id) = if e.foremost = some id then e.machine.loopStacks
        else e.machine.taskLoopStacks id
    rw [if_neg (Ne.symm h), if_neg (Ne.symm h), taskLoopStacks, taskLoopStacks, htasks]
    by_cases hlt : id < e.machine.tasks.size
    · rw [Array.getElem?_append_left hlt]
    · rw [Array.getElem?_append_right (by omega), Array.getElem?_eq_none (by omega : _ ≤ id)]
      cases hstarted : started[id - e.machine.tasks.size]? with
      | none => rfl
      | some t =>
        obtain ⟨name, stage⟩ := t
        have hstage := hpending _ (Array.mem_of_getElem? hstarted)
        cases stage with
        | pending => rfl
        | running => cases hstage
        | finished => rfl

theorem loopStacks_of_size_le {id : Nat} (hvalid : e.Valid) (h : e.machine.tasks.size ≤ id) :
    e.loopStacks (some id) = [] := by
  have hne : e.foremost ≠ some id := by
    intro hturn
    obtain ⟨t, ht, rfl⟩ := Option.map_eq_some_iff.1 hturn
    exact absurd (hvalid t ht) (by omega)
  rw [loopStacks, if_neg hne, taskLoopStacks, Array.getElem?_eq_none h]
  rfl

/-- The sum over a list of what has changed for one of its members alone. -/
theorem sum_map_off {f g : Option Nat → Nat} {o : Option Nat} {l : List (Option Nat)}
    (hnodup : l.Nodup) (hmem : o ∈ l) (hoff : ∀ x, x ≠ o → g x = f x) :
    (l.map g).sum + f o = (l.map f).sum + g o := by
  induction l with
  | nil => cases hmem
  | cons x l ih =>
    obtain ⟨hx, hnodup⟩ := List.nodup_cons.1 hnodup
    rw [List.map_cons, List.map_cons, List.sum_cons, List.sum_cons]
    rcases List.mem_cons.1 hmem with rfl | hmem
    · have hrest : l.map g = l.map f :=
        List.map_congr_left fun y hy => hoff y fun h => hx (h ▸ hy)
      rw [hrest]
      omega
    · have hrest := ih hnodup hmem
      have hsame := hoff x fun h => hx (h ▸ hmem)
      omega

theorem threads_stepped (h : e.Valid) : ∃ new, e.stepped.threads = e.threads ++ new ∧
    ∀ o ∈ new, e.stepped.loopStacks o = [] := by
  obtain ⟨started, -, htasks⟩ := e.machine.tasks_step
  refine ⟨(List.range started.size).map fun j => some (e.machine.tasks.size + j), ?_,
    fun o ho => ?_⟩
  · show none :: (List.range e.machine.step.1.tasks.size).map some = _
    rw [htasks, Array.size_append, List.range_add, List.map_append, List.map_map]
    rfl
  · obtain ⟨j, -, rfl⟩ := List.mem_map.1 ho
    rw [loopStacks_stepped, loopStacks_of_size_le h (Nat.le_add_right _ _)]
    intro hturn
    obtain ⟨t, ht, hid⟩ := Option.map_eq_some_iff.1 hturn.symm
    have hlt := h t ht
    omega

/-- Freezes of a container come and go with loops over it. -/
def Accounts (c : Container) (e e' : Ensemble) : Prop := e.loopsOver c ≤ e.heap.freezes c →
  e'.heap.freezes c + e.loopsOver c = e.heap.freezes c + e'.loopsOver c

/-- The loops of all contexts before and after a step, from those of the thread that made it. -/
theorem loopsOver_stepped (h : e.Valid) (c : Container) :
    e.stepped.loopsOver c + countOver c e.machine.ready.loopStacks
      = e.loopsOver c + countOver c e.machine.step.1.loopStacks := by
  obtain ⟨new, hthreads, hnew⟩ := threads_stepped h
  have hzero : (new.map fun o => countOver c (e.stepped.loopStacks o)).sum = 0 := by
    rw [List.map_congr_left (g := fun _ => 0) fun o ho => by rw [hnew o ho]; rfl]
    simp
  have hsum := sum_map_off (f := fun o => countOver c (e.loopStacks o))
    (g := fun o => countOver c (e.stepped.loopStacks o)) e.nodup_threads
    (foremost_mem_threads h) fun o ho => congrArg (countOver c) (loopStacks_stepped ho)
  have hforemost : e.stepped.loopStacks e.foremost = e.machine.step.1.loopStacks :=
    e.stepped.loopStacks_foremost
  have hdeparting := e.machine.countOver_departing c
  rw [loopStacks_foremost, hforemost] at hsum
  rw [loopsOver_eq, loopsOver_eq, hthreads, List.map_append, List.sum_append, hzero]
  show _ + ((e.machine.departing ++ e.gone).flatMap (·.loops)).countP (·.walks c) + _ = _
  rw [List.flatMap_append, List.countP_append]
  omega

/-- The loops of a thread are among those of all contexts. -/
theorem countOver_le_loopsOver (h : e.Valid) (c : Container) :
    countOver c e.machine.loopStacks ≤ e.loopsOver c := by
  rw [loopsOver_eq, ← loopStacks_foremost]
  exact Nat.le_add_right_of_le
    (List.le_sum_of_mem (List.mem_map.2 ⟨_, foremost_mem_threads h, rfl⟩))

/-- A step accounts for the freezes of every container. -/
theorem accounts_stepped (h : e.Valid) (c : Container) : Accounts c e e.stepped := by
  intro hle
  have hloops := loopsOver_stepped h c
  have hthread := countOver_le_loopsOver h c
  have hdeparting := e.machine.countOver_departing c
  have hstep := e.machine.step_deals.accounts c (by rw [ready_world]; exact Nat.le_trans (by omega) hle)
  rw [ready_world] at hstep
  show e.machine.step.1.world.heap.freezes c + _ = e.machine.world.heap.freezes c + _
  omega

/-! ### Turns -/

theorem heap_endTask (name : String) (table : TableId) (result : Except Fault Unit) (w : World) :
    ((endTask name table result).run w).2.heap = w.heap := by
  obtain ⟨journal, hrun⟩ := run_endTask name table result w
  rw [hrun]

theorem taskLoopStacks_of_stage {name : String} {stage : TaskStage} {id : Nat}
    (h : m.tasks[id]? = some ⟨name, stage⟩) : m.taskLoopStacks id = stage.loopStacks := by
  rw [taskLoopStacks, h]
  rfl

/-- The stages of other tasks stay. -/
theorem taskLoopStacks_putStage (m : Machine) {id j : Nat} (h : id ≠ j) (stage : TaskStage) :
    (m.putStage id stage).taskLoopStacks j = m.taskLoopStacks j := by
  show (((m.tasks.modify id _)[j]?).map _).getD [] = _
  rw [Array.getElem?_modify, if_neg h]
  rfl

theorem taskLoopStacks_putStage_self {id : Nat} (h : id < m.tasks.size) (stage : TaskStage) :
    (m.putStage id stage).taskLoopStacks id = stage.loopStacks := by
  show (((m.tasks.modify id _)[id]?).map _).getD [] = _
  rw [Array.getElem?_modify, if_pos rfl, Array.getElem?_eq_getElem h]
  rfl

theorem loopStacks_of_main (m : Machine) (gone : List Context) (id : Nat) :
    (⟨m, none, gone⟩ : Ensemble).loopStacks (some id) = m.taskLoopStacks id := by
  show (if (none : Option Nat) = some id then m.loopStacks else m.taskLoopStacks id) = _
  exact if_neg nofun

theorem loopStacks_of_turn (m : Machine) (t : Turn) (gone : List Context) :
    (⟨m, some t, gone⟩ : Ensemble).loopStacks (some t.id) = m.loopStacks := if_pos rfl

theorem loopStacks_of_turn_ne (m : Machine) (t : Turn) (gone : List Context) {id : Nat}
    (h : t.id ≠ id) : (⟨m, some t, gone⟩ : Ensemble).loopStacks (some id) = m.taskLoopStacks id :=
  if_neg fun h' => h (Option.some.inj h')

theorem Passes.heap_eq (h : Passes e e') : e'.heap = e.heap := by
  cases h with
  | begin m gone htask hbegun =>
    rename_i name callable args settings table t world
    show world.heap = m.world.heap
    rw [show world = ((beginTask name callable args settings).run m.world).2 by rw [hbegun]]
    rfl
  | take m gone htask => rfl
  | back m t gone => rfl
  | finish m t gone hended hsuspended => exact heap_endTask _ _ _ _
  | resume m gone switches => rfl
  | join m gone => exact (Exec.IsResting.joinTasks m).heap_eq

theorem threads_eq_of_size (h : e'.machine.tasks.size = e.machine.tasks.size) :
    e'.threads = e.threads := by rw [threads, threads, h]

/-- The loops of all threads stay when the turn passes. A task that begins has none, and those of
one that has ended are those of its only context. -/
theorem Passes.loopStacks_cases (h : Passes e e') (hvalid : e.Valid) :
    e'.threads = e.threads ∧ (e'.gone = e.gone ∧ (∀ o, e'.loopStacks o = e.loopStacks o ∨
        e.loopStacks o = [] ∧ e'.loopStacks o = [[]]) ∨
      ∃ o ∈ e.threads, ∃ c, e'.gone = c :: e.gone ∧
        (∀ x, x ≠ o → e'.loopStacks x = e.loopStacks x) ∧
        e.loopStacks o = [c.loops] ∧ e'.loopStacks o = []) := by
  cases h with
  | begin m gone htask hbegun =>
    rename_i id name callable args settings table t world
    have ht : t = ((beginTask name callable args settings).run m.world).1.2 := by rw [hbegun]
    refine ⟨rfl, .inl ⟨rfl, fun o => ?_⟩⟩
    cases o with
    | none => exact .inl rfl
    | some j =>
      rw [loopStacks_of_main]
      by_cases hj : id = j
      · subst hj
        refine .inr ⟨taskLoopStacks_of_stage htask, ?_⟩
        rw [loopStacks_of_turn _ ⟨id, name, table, m.thread⟩, ht]
        rfl
      · rw [loopStacks_of_turn_ne _ _ _ (by exact hj)]
        exact .inl rfl
  | take m gone htask =>
    rename_i id name table t
    refine ⟨rfl, .inl ⟨rfl, fun o => .inl ?_⟩⟩
    cases o with
    | none => rfl
    | some j =>
      rw [loopStacks_of_main]
      by_cases hj : id = j
      · subst hj
        rw [loopStacks_of_turn _ ⟨id, name, table, m.thread⟩, taskLoopStacks_of_stage htask]
        rfl
      · rw [loopStacks_of_turn_ne _ _ _ (by exact hj)]
        rfl
  | back m t gone =>
    refine ⟨threads_eq_of_size Array.size_modify, .inl ⟨rfl, fun o => .inl ?_⟩⟩
    cases o with
    | none => rfl
    | some j =>
      rw [loopStacks_of_main]
      by_cases hj : t.id = j
      · subst hj
        rw [loopStacks_of_turn]
        exact taskLoopStacks_putStage_self (hvalid t rfl) _
      · rw [loopStacks_of_turn_ne _ _ _ hj]
        exact taskLoopStacks_putStage m hj _
  | finish m t gone hended hsuspended =>
    refine ⟨threads_eq_of_size Array.size_modify, .inr ⟨some t.id, foremost_mem_threads hvalid,
      m.context, rfl, fun o ho => ?_, ?_, ?_⟩⟩
    · cases o with
      | none => rfl
      | some j =>
        have hj : t.id ≠ j := fun h => ho (congrArg some h.symm)
        rw [loopStacks_of_main, loopStacks_of_turn_ne _ _ _ hj]
        exact taskLoopStacks_putStage _ hj _
    · rw [loopStacks_of_turn, Machine.loopStacks, hsuspended]
      rfl
    · rw [loopStacks_of_main]
      exact taskLoopStacks_putStage_self (m := { m with world := _ }) (hvalid t rfl) _
  | resume m gone switches =>
    refine ⟨rfl, .inl ⟨rfl, fun o => .inl ?_⟩⟩
    cases o <;> rfl
  | join m gone =>
    have hrests := Exec.IsResting.joinTasks m
    refine ⟨threads_eq_of_size (congrArg Array.size hrests.tasks_eq), .inl ⟨rfl, fun o => .inl ?_⟩⟩
    cases o with
    | none => exact loopStacks_of_spares hrests.spares
    | some j =>
      rw [loopStacks_of_main, loopStacks_of_main, taskLoopStacks, hrests.tasks_eq, taskLoopStacks]

theorem Passes.loopsOver_eq (h : Passes e e') (hvalid : e.Valid) (c : Container) :
    e'.loopsOver c = e.loopsOver c := by
  obtain ⟨hthreads, ⟨hgone, hsame⟩ | ⟨o, hmem, d, hgone, hother, hbefore, hafter⟩⟩ :=
    h.loopStacks_cases hvalid
  · rw [Ensemble.loopsOver_eq, Ensemble.loopsOver_eq, hthreads, hgone]
    refine congrArg (fun l : List Nat => l.sum + _) (List.map_congr_left fun o _ => ?_)
    rcases hsame o with heq | ⟨hnone, hempty⟩
    · rw [heq]
    · rw [hnone, hempty]
      rfl
  · have hsum := sum_map_off (f := fun o => countOver c (e.loopStacks o))
      (g := fun o => countOver c (e'.loopStacks o)) e.nodup_threads hmem
      fun x hx => congrArg (countOver c) (hother x hx)
    have hnil : countOver c [] = 0 := rfl
    rw [hbefore, hafter, countOver_cons, hnil] at hsum
    rw [Ensemble.loopsOver_eq, Ensemble.loopsOver_eq, hthreads, hgone, List.flatMap_cons,
      List.countP_append]
    omega

theorem Next.accounts (h : Next e e') (hvalid : e.Valid) (c : Container) : Accounts c e e' := by
  cases h with
  | step => exact accounts_stepped hvalid c
  | passes h =>
    intro _
    rw [h.heap_eq, h.loopsOver_eq hvalid]

/-! ### Runs -/

/-- The state in which a machine starts. -/
abbrev of (start : Machine) : Ensemble := ⟨start, none, []⟩

/-- Every loop has a freeze of its own. -/
def Backed (e : Ensemble) : Prop := ∀ c, e.loopsOver c ≤ e.heap.freezes c

/-- Without loops there is nothing to back. -/
theorem backed_of_loops_eq_nil (h : e.loops = []) : e.Backed := fun c => by
  rw [loopsOver, h]
  exact Nat.zero_le _

theorem Reached.accounts (hstart : (of start).Backed) (h : Reached start e) (c : Container) :
    e.heap.freezes c + (of start).loopsOver c = (of start).heap.freezes c + e.loopsOver c := by
  induction h with
  | start => rfl
  | next before h ih =>
    have hfirst := hstart c
    have hnext := h.accounts before.valid c (by omega)
    omega

theorem Reached.backed (hstart : (of start).Backed) (h : Reached start e) : e.Backed := fun c => by
  have hfirst := hstart c
  have hsame := h.accounts hstart c
  omega

/-- What comes to be in a step is not frozen. -/
theorem Next.freezes_of_new (h : Next e e') (hvalid : e.Valid) (hbacked : e.Backed)
    (hc : ¬ e.heap.Holds c) : e'.heap.freezes c = 0 := by
  have hzero : e.heap.freezes c = 0 := Heap.freezes_of_not_holds hc
  have hnone := hbacked c
  have hsame := h.accounts hvalid c hnone
  cases h with
  | passes h => rw [h.heap_eq, hzero]
  | step =>
    have hle := e.machine.step_deals.countOver_le (c := c) (by rw [ready_world]; exact hc)
    have hloops := loopsOver_stepped hvalid c
    omega

/-- **Freezes are accounted for.** In all states of a run a container has been frozen as often as at
the start, and once more for each loop over it that began since and has not ended, whichever context
it belongs to. So no loop that ends finds its container thawed, and what comes to be in a run is not
frozen. -/
theorem freezes_accounted (hstart : (of start).Backed) (h : Reached start e) :
    (∀ c, e.heap.freezes c + (of start).loopsOver c = (of start).heap.freezes c + e.loopsOver c) ∧
      (∀ c, e.loopsOver c ≤ e.heap.freezes c) ∧
      ∀ e', Next e e' → ∀ c, ¬ e.heap.Holds c → e'.heap.freezes c = 0 :=
  ⟨h.accounts hstart, h.backed hstart, fun _ hnext _ hc =>
    hnext.freezes_of_new h.valid (h.backed hstart) hc⟩

/-- A machine about to run `RangeInit ["i", "v"]; Stop` over `[7]`. -/
def quitter : Machine :=
  ofContext { heap := { arrays := #[⟨.interface, #[.int 7], 0⟩,
      ⟨.interface, #[.string "i", .string "v"], 0⟩] } } {
    name := "main"
    thread := 1
    symbols := .root
    stack := #[.value (.array ⟨0⟩)]
    code := ⟨"main", #[⟨.rangeInit, .array ⟨1⟩⟩, .plain .stop], none, true, false⟩
    running := true }

/-- The loop has begun, and its array is frozen. -/
theorem freezes_accounted_of_quitter : (of quitter).Backed ∧
    Reached quitter (of quitter).stepped ∧
    (of quitter).heap.freezes (.array ⟨0⟩) = 0 ∧
    (of quitter).stepped.heap.freezes (.array ⟨0⟩) = 1 := by
  have hbacked : (of quitter).Backed := backed_of_loops_eq_nil rfl
  have hreached : Reached quitter (of quitter).stepped := Reached.start.next .step
  have hone : (of quitter).stepped.loopsOver (.array ⟨0⟩) = 1 := by decide +kernel
  obtain ⟨hequal, -, -⟩ := freezes_accounted hbacked hreached
  have hsame := hequal (.array ⟨0⟩)
  rw [hone] at hsame
  exact ⟨hbacked, hreached, rfl, hsame⟩

/-- **When a run leaves no freeze behind.** Its freezes are those of its start if and only if no
context has a loop over a container left, be it one that runs, one that waits or one that has ended:
loops end by exhaustion, by a return from their function, and when a fault is caught outside them;
the end of a context ends none. -/
theorem freezes_restored_iff (hstart : (of start).loops = []) (h : Reached start e) :
    (∀ c, e.heap.freezes c = (of start).heap.freezes c) ↔
      ∀ l ∈ e.loops, l.walked.container? = none := by
  have hnone : ∀ c, (of start).loopsOver c = 0 := fun c => by
    rw [loopsOver, hstart]
    rfl
  have hsame := h.accounts (backed_of_loops_eq_nil hstart)
  constructor
  · intro hrestored l hl
    rw [Option.eq_none_iff_forall_ne_some]
    intro c hc
    have hpos : 0 < e.loopsOver c :=
      List.countP_pos_iff.2 ⟨l, hl, Loop.walks_eq_true_iff.2 hc⟩
    have hfreezes := hsame c
    rw [hnone, hrestored] at hfreezes
    omega
  · intro hfree c
    have hzero : e.loopsOver c = 0 := by
      refine List.countP_eq_zero.2 fun l hl hwalks => ?_
      rw [Loop.walks_eq_true_iff, hfree l hl] at hwalks
      cases hwalks
    have hfreezes := hsame c
    rw [hnone, hzero] at hfreezes
    exact hfreezes

/-- A run that stops in its loop leaves the array frozen. -/
theorem freezes_restored_of_quitter : (of quitter).loops = [] ∧
    Reached quitter (of quitter).stepped.stepped ∧
    (of quitter).stepped.stepped.machine.ended = some (.ok ()) ∧
    (of quitter).stepped.stepped.heap.freezes (.array ⟨0⟩) = 1 ∧
    ¬ ∀ l ∈ (of quitter).stepped.stepped.loops, l.walked.container? = none := by
  have hreached : Reached quitter (of quitter).stepped.stepped :=
    (Reached.start.next .step).next .step
  have hone : (of quitter).stepped.stepped.heap.freezes (.array ⟨0⟩) = 1 := by decide +kernel
  refine ⟨rfl, hreached, rfl, hone, fun hfree => ?_⟩
  have hrestored := (freezes_restored_iff rfl hreached).2 hfree (.array ⟨0⟩)
  rw [hone] at hrestored
  exact absurd hrestored (by decide)

end Ensemble

end ScriptMachine
