import ScriptMachine.Proofs.Arena.Histories

/-!
# Walks through the scopes

A parent is older than its children, even when its place was used again: a handle that lost its
table never finds another one. So the parents of live tables make no cycle, and every walk from
table to parent ends.

* `Arena.LinksTo`: a live table has another one as its parent.
* `Arena.Ascends`: the live tables from a handle on, by way of parents.
* `Turn`, `Turn.Ends`: loops that go on until they have an answer, and what they end with.
* `ascends_of_accounted`: from every handle there is such a way, without repetitions.
* `resolveTurn_ends`, `scopeTurn_ends`: the loops behind lookups and behind the next scope end.
-/

namespace ScriptMachine

namespace Arena

/-- One turn of a loop: on to another state, or to the end with an answer. -/
inductive Turn (σ α : Type) where
  | goOn (s : σ)
  | done (x : α)

/-- A loop that takes turns from a state ends with an answer. -/
inductive Turn.Ends {σ α : Type} (turn : σ → Turn σ α) : σ → α → Prop
  | now {s : σ} {x : α} (h : turn s = .done x) : Ends turn s x
  | later {s : σ} {x : α} (next : σ) (h : turn s = .goOn next) (rest : Ends turn next x) :
      Ends turn s x

/-- A live table is the parent of another one. -/
def LinksTo (a : Arena) (id parent : TableId) : Prop :=
  a.parent? id = some parent ∧ a.contains parent = true

/-- The live tables from a handle on, by way of parents, up to a table without a parent or a handle
without a table. -/
inductive Ascends (a : Arena) : Option TableId → List TableId → Prop
  | top : Ascends a none []
  | gone {id : TableId} (h : a.table? id = none) : Ascends a (some id) []
  | up {id : TableId} {t : Table} {tables : List TableId} (h : a.table? id = some t)
      (above : Ascends a t.parent tables) : Ascends a (some id) (id :: tables)

/-- The definition of a name in the root. -/
def rootSymbol? (a : Arena) (name : String) : Option (TableId × Symbol) :=
  (a.table? .root >>= (·.symbol? name)).map (.root, ·)

/-- The turn of a lookup: it ends where the name is found, and beyond the last table that it may
look at it ends with the root. -/
def resolveTurn (a : Arena) (name : String) :
    Option TableId → Turn (Option TableId) (Option (TableId × Symbol))
  | none => .done (a.rootSymbol? name)
  | some id =>
    match a.table? id with
    | none => .done (a.rootSymbol? name)
    | some t =>
      match t.symbol? name with
      | some s => .done (some (id, s))
      | none => if t.passes then .goOn t.parent else .done (a.rootSymbol? name)

/-- The turn of the search for the scope outside a function: it ends at the nearest boundary. -/
def scopeTurn (a : Arena) : Option TableId → Turn (Option TableId) TableId
  | none => .done .root
  | some id =>
    match a.table? id with
    | none => .done .root
    | some t =>
      if t.boundary then .done ((t.parent.filter fun p => a.contains p).getD .root)
      else .goOn t.parent

variable {a : Arena} {id p x : TableId} {current : Option TableId} {tables : List TableId}

theorem Ascends.live (h : a.Ascends current tables) : ∀ x ∈ tables, a.contains x = true := by
  induction h with
  | top => exact fun x hx => absurd hx List.not_mem_nil
  | gone => exact fun x hx => absurd hx List.not_mem_nil
  | up h _ ih =>
    intro x hx
    rcases List.mem_cons.1 hx with rfl | hx
    · exact contains_iff.2 ⟨_, h⟩
    · exact ih x hx

/-- **The loop of a lookup** ends with the visible definition. -/
theorem walk_ends (h : a.Ascends current tables) {steps : Nat} (hsteps : tables.length < steps)
    (name : String) :
    Turn.Ends (a.resolveTurn name) current
      (match current >>= a.walk name steps with
        | some found => some found
        | none => a.rootSymbol? name) := by
  induction h generalizing steps with
  | top => exact .now rfl
  | @gone id h =>
    obtain ⟨n, rfl⟩ := Nat.exists_eq_add_one_of_ne_zero (Nat.ne_of_gt hsteps)
    refine .now ?_
    simp only [resolveTurn, h, bind, Option.bind, walk]
  | @up id t tables h _ ih =>
    obtain ⟨n, rfl⟩ := Nat.exists_eq_add_one_of_ne_zero (Nat.ne_of_gt (Nat.zero_lt_of_lt hsteps))
    cases hsymbol : t.symbol? name with
    | some s =>
      refine .now ?_
      simp only [resolveTurn, h, hsymbol, bind, Option.bind, walk]
    | none =>
      by_cases hpasses : t.passes = true
      · refine .later t.parent ?_ ?_
        · simp only [resolveTurn, h, hsymbol, if_pos hpasses]
        · have hrest := @ih n (by simpa using hsteps)
          simpa only [bind, Option.bind, walk, h, hsymbol, if_pos hpasses] using hrest
      · refine .now ?_
        simp only [resolveTurn, bind, Option.bind, walk, h, hsymbol, if_neg hpasses]

/-- **The search for the next scope** ends. -/
theorem walkOut_ends (h : a.Ascends current tables) {steps : Nat} (hsteps : tables.length < steps) :
    Turn.Ends a.scopeTurn current ((current.map (a.walkOut steps)).getD .root) := by
  induction h generalizing steps with
  | top => exact .now rfl
  | @gone id h =>
    obtain ⟨n, rfl⟩ := Nat.exists_eq_add_one_of_ne_zero (Nat.ne_of_gt hsteps)
    refine .now ?_
    simp only [scopeTurn, h, Option.map_some, Option.getD_some, walkOut]
  | @up id t tables h _ ih =>
    obtain ⟨n, rfl⟩ := Nat.exists_eq_add_one_of_ne_zero (Nat.ne_of_gt (Nat.zero_lt_of_lt hsteps))
    by_cases hboundary : t.boundary = true
    · refine .now ?_
      simp only [scopeTurn, h, Option.map_some, Option.getD_some, walkOut, if_pos hboundary]
      cases hparent : t.parent with
      | none => rfl
      | some p => cases hlive : a.contains p <;> simp [Option.filter, hlive]
    · refine .later t.parent ?_ ?_
      · simp only [scopeTurn, h, if_neg hboundary]
      · have hrest := @ih n (by simpa using hsteps)
        simp only [Option.map_some, Option.getD_some, walkOut, h, if_neg hboundary]
        cases hparent : t.parent with
        | none => simpa [hparent] using hrest
        | some p => simpa [hparent] using hrest

namespace History

variable {h : History}

/-- The number of handles given before a handle. -/
def age (h : History) (id : TableId) : Nat := h.issued.reverse.idxOf id

/-- What was given before has the smaller number. -/
theorem Older.age_lt (holder : h.Older p id) (hnodup : h.issued.Nodup) : h.age p < h.age id := by
  obtain ⟨newer, older, hissued, hp⟩ := holder
  have hid : id ∉ older := by
    rw [hissued, List.nodup_append] at hnodup
    exact (List.nodup_cons.1 hnodup.2.1).1
  have hreverse : h.issued.reverse = older.reverse ++ id :: newer.reverse := by
    rw [hissued]
    simp
  have hself : h.age id = older.length := by
    rw [age, hreverse, List.idxOf_append, if_neg (by simpa using hid)]
    simp
  have hother : h.age p < older.length := by
    rw [age, hreverse, List.idxOf_append, if_pos (by simpa using hp)]
    have hlt := List.idxOf_lt_length_of_mem (List.mem_reverse.2 hp)
    rwa [List.length_reverse] at hlt
  rw [hself]
  exact hother

/-- A parent is older than its child. -/
theorem Accounted.age_lt (hacc : h.Accounted) (hparent : h.arena.parent? id = some p) :
    h.age p < h.age id :=
  (hacc.older id p hparent).age_lt hacc.issued_nodup

/-- **Parents make no cycle.** -/
theorem Accounted.not_links_back (hacc : h.Accounted) (id : TableId) :
    ¬ Relation.TransGen h.arena.LinksTo id id := by
  have hage : ∀ x y, Relation.TransGen h.arena.LinksTo x y → h.age y < h.age x := by
    intro x y hlinks
    induction hlinks with
    | single hlink => exact hacc.age_lt hlink.1
    | tail _ hlink ih => exact Nat.lt_trans (hacc.age_lt hlink.1) ih
  exact fun hcycle => Nat.lt_irrefl _ (hage id id hcycle)

/-- **From every handle** a way without repetitions leads up to an end. -/
theorem Accounted.ascends (hacc : h.Accounted) (id : TableId) :
    ∃ tables, h.arena.Ascends (some id) tables ∧ tables.Nodup ∧
      ∀ x ∈ tables, h.age x ≤ h.age id := by
  -- Ages fall from child to parent.
  induction hn : h.age id using Nat.strongRecOn generalizing id with
  | _ n ih =>
    cases ht : h.arena.table? id with
    | none => exact ⟨[], .gone ht, List.nodup_nil, fun x hx => absurd hx List.not_mem_nil⟩
    | some t =>
      cases hparent : t.parent with
      | none =>
        refine ⟨[id], .up ht (hparent ▸ .top), by simp, fun x hx => ?_⟩
        exact Nat.le_of_eq (by rw [List.mem_singleton.1 hx, hn])
      | some p =>
        have hlt : h.age p < n := by
          rw [← hn]
          exact hacc.age_lt (by rw [parent?_of_table? ht, hparent])
        obtain ⟨tables, habove, hnodup, hages⟩ := ih (h.age p) hlt p rfl
        refine ⟨id :: tables, .up ht (hparent ▸ habove), List.nodup_cons.2 ⟨fun hid => ?_, hnodup⟩,
          fun x hx => ?_⟩
        · have hle := hages id hid
          omega
        · rcases List.mem_cons.1 hx with rfl | hx
          · exact Nat.le_of_eq hn
          · exact Nat.le_trans (hages x hx) (Nat.le_of_lt hlt)

/-- The way up from a handle, and more steps than tables on it. -/
theorem Accounted.ascends_within (hacc : h.Accounted) (id : TableId) :
    ∃ tables, h.arena.Ascends (some id) tables ∧ tables.Nodup ∧
      tables.length < h.arena.places.size + 1 := by
  obtain ⟨tables, hascends, hnodup, -⟩ := hacc.ascends id
  exact ⟨tables, hascends, hnodup, Nat.lt_succ_of_le (length_le_size_places hnodup hascends.live)⟩

theorem Accounted.resolveTurn_ends (hacc : h.Accounted) (start : TableId) (name : String) :
    Turn.Ends (h.arena.resolveTurn name) (some start) (h.arena.resolve start name) := by
  obtain ⟨tables, hascends, -, hlength⟩ := hacc.ascends_within start
  exact walk_ends hascends hlength name

theorem Accounted.scopeTurn_ends (hacc : h.Accounted) (start : TableId) :
    Turn.Ends h.arena.scopeTurn (some start) (h.arena.nextScope start) := by
  obtain ⟨tables, hascends, -, hlength⟩ := hacc.ascends_within start
  exact walkOut_ends hascends hlength

end History

end Arena

end ScriptMachine
