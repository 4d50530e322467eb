import Mathlib.Logic.Function.Basic
import ScriptMachine.World

/-!
# Traffic on a channel

Any number of parties send to a channel, receive from it and close it. A call acts at once, or fails,
or has to wait and is tried again; between the attempts of one party anything may happen.

* `Call`, `Event`: what a party asks for, and what came of it.
* `response`: what a channel should answer, as far as its history tells.
* `Traffic`, `Traffic.Step`, `Traffic.Reached`: the parties at work.
* `Traffic.Carries`: the invariant; `Carries.act`: one attempt keeps it.
* `channel_carries`: a channel answers according to its history, and loses nothing.
-/

namespace ScriptMachine.Channel

variable {P : Type}

/-- What a party asks a channel for. -/
inductive Call
  | send (v : Value)
  | receive
  | close

/-- What came of a call. -/
inductive Event (P : Type)
  | sent (p : P) (v : Value)
  | received (p : P) (v : Value)
  | closed (p : P) (wasOpen : Bool)
  | failed (p : P) (call : Call) (f : Fault)

namespace Event

def party : Event P → P
  | sent p _ | received p _ | closed p _ | failed p _ _ => p

def call : Event P → Call
  | sent _ v => .send v
  | received _ _ => .receive
  | closed _ _ => .close
  | failed _ call _ => call

/-- The value that was sent, with its sender. -/
def sent? : Event P → Option (P × Value)
  | sent p v => some (p, v)
  | _ => none

def received? : Event P → Option Value
  | received _ v => some v
  | _ => none

def isClosed : Event P → Bool
  | closed _ _ => true
  | _ => false

end Event

/-! ### Histories -/

/-- What has been sent, with the senders. -/
def sends (history : List (Event P)) : List (P × Value) := history.filterMap Event.sent?

/-- What has been received. -/
def receipts (history : List (Event P)) : List Value := history.filterMap Event.received?

def isClosed (history : List (Event P)) : Bool := history.any Event.isClosed

/-- What has been sent and not received yet. -/
def remaining (history : List (Event P)) : List Value :=
  ((sends history).map Prod.snd).drop (receipts history).length

/-- What has been sent and received, with the senders. -/
def arrivals (history : List (Event P)) : List (P × Value) :=
  (sends history).take (receipts history).length

/-- The fault of a call to a closed channel. -/
def notOpen : Fault := .about .channelNotOpen "<uuid>"

/-- What a channel should answer to a call, as far as its history tells; none if the call has to
wait. -/
def response (size : Nat) (history : List (Event P)) (p : P) : Call → Option (Event P)
  | .send v =>
    if isClosed history then some (.failed p (.send v) notOpen)
    else if max size 1 ≤ (remaining history).length then none
    else some (.sent p v)
  | .receive =>
    match remaining history with
    | v :: _ => some (.received p v)
    | [] => if isClosed history then some (.failed p .receive notOpen) else none
  | .close => some (.closed p !isClosed history)

/-- Attempts a call of a party. -/
def Call.attempt (r : Ref .channel) (p : P) : Call → WorldAction (Event P)
  | send v => do
    WorldAction.send r v
    return .sent p v
  | receive => do
    let v ← WorldAction.receive r
    return .received p v
  | close => do
    let wasOpen ← WorldAction.onWorld (World.closeChannel r)
    return .closed p wasOpen

/-! ### Parties at work -/

/-- A channel in use: the calls that are under way, and what has come of others. -/
structure Traffic (P : Type) where
  world : World
  calls : P → Option Call := fun _ => none
  history : List (Event P) := []

namespace Traffic

section

variable [DecidableEq P]

/-- A party attempts its call. -/
def act (r : Ref .channel) (p : P) (call : Call) (t : Traffic P) : Traffic P :=
  match (call.attempt r p).run.run t.world with
  | (.ok e, world) => ⟨world, Function.update t.calls p none, t.history ++ [e]⟩
  | (.error (.fault f), world) =>
    ⟨world, Function.update t.calls p none, t.history ++ [.failed p call f]⟩
  | (.error .blocked, world) => { t with world }

/-- What may happen next. -/
inductive Step (r : Ref .channel) : Traffic P → Traffic P → Prop
  | begin (t : Traffic P) (p : P) (call : Call) (hidle : t.calls p = none) :
      Step r t { t with calls := Function.update t.calls p (some call) }
  | act (t : Traffic P) (p : P) (call : Call) (hcall : t.calls p = some call) :
      Step r t (t.act r p call)
  /-- Something happens that has nothing to do with the channel. -/
  | elsewhere (t : Traffic P) (world : World)
      (hsame : world.heap.channels[r.id]? = t.world.heap.channels[r.id]?) :
      Step r t { t with world }

/-- A new channel, not in use yet. -/
def opening (size : Nat) (w : World) : Traffic P := { world := ((World.newChannel size).run w).2 }

/-- The states that the traffic on a new channel may lead to. -/
inductive Reached (size : Nat) (w : World) : Traffic P → Prop
  | start : Reached size w (opening size w)
  | next {t t' : Traffic P} (before : Reached size w t)
      (h : Step ((World.newChannel size).run w).1 t t') : Reached size w t'

end

/-- The channel holds what its history says. -/
structure Carries (size : Nat) (r : Ref .channel) (c : ChannelObject) (t : Traffic P) : Prop where
  object : t.world.heap.channels[r.id]? = some c
  capacity_eq : c.capacity = max size 1
  count_eq : c.count = c.queue.length
  fits : c.queue.length ≤ c.capacity
  inOrder : (sends t.history).map Prod.snd = receipts t.history ++ c.queue
  open_eq : c.isOpen = !isClosed t.history

variable {size : Nat} {r : Ref .channel} {c : ChannelObject} {t : Traffic P}

theorem Carries.channel_eq (h : Carries size r c t) : t.world.heap.channel r = c := by
  rw [Heap.channel, h.object, Option.getD_some]

theorem Carries.remaining_eq (h : Carries size r c t) : remaining t.history = c.queue := by
  rw [remaining, h.inOrder, List.drop_left]

end Traffic

/-! ### Attempts -/

/-- An object takes the place of another one, and the journal may go on. -/
def Puts (r : Ref .channel) (c : ChannelObject) (w w' : World) : Prop :=
  ∃ journal, w' = { w with
    heap := { w.heap with channels := w.heap.channels.setIfInBounds r.id c }, journal }

theorem run_send (r : Ref .channel) (v : Value) (w : World) :
    match (w.heap.channel r).send v with
    | .done c => ∃ w', (WorldAction.send r v).run.run w = (.ok (), w') ∧ Puts r c w w'
    | .refused => (WorldAction.send r v).run.run w = (.error (.fault notOpen), w)
    | .wait => (WorldAction.send r v).run.run w = (.error .blocked, w) := by
  have hrun : (WorldAction.send r v).run.run w
      = (WorldAction.ofAttempt ((w.heap.channel r).send v) >>= fun c => do
          WorldAction.onWorld (World.note .trace fun _ => "--> sending on <uuid>")
          WorldAction.onHeap (Heap.putChannel r c)).run.run w := rfl
  cases hsend : (w.heap.channel r).send v with
  | done c =>
    rw [hrun, hsend]
    exact ⟨_, rfl, w.journal.note .trace fun _ => "--> sending on <uuid>", rfl⟩
  | refused =>
    rw [hrun, hsend]
    rfl
  | wait =>
    rw [hrun, hsend]
    rfl

theorem run_receive (r : Ref .channel) (w : World) :
    match (w.heap.channel r).receive with
    | .done (v, c) => ∃ w', (WorldAction.receive r).run.run w = (.ok v, w') ∧ Puts r c w w'
    | .refused => (WorldAction.receive r).run.run w = (.error (.fault notOpen), w)
    | .wait => (WorldAction.receive r).run.run w = (.error .blocked, w) := by
  have hrun : (WorldAction.receive r).run.run w
      = (WorldAction.ofAttempt (w.heap.channel r).receive >>= fun out => do
          WorldAction.onHeap (Heap.putChannel r out.2)
          WorldAction.onWorld (World.note .trace fun _ => "--> received on <uuid>")
          return out.1).run.run w := rfl
  cases hreceive : (w.heap.channel r).receive with
  | done out =>
    rw [hrun, hreceive]
    exact ⟨_, rfl, w.journal.note .trace fun _ => "--> received on <uuid>", rfl⟩
  | refused =>
    rw [hrun, hreceive]
    rfl
  | wait =>
    rw [hrun, hreceive]
    rfl

theorem run_close (r : Ref .channel) (w : World) : ∃ w',
    (WorldAction.onWorld (World.closeChannel r)).run.run w = (.ok (w.heap.channel r).isOpen, w') ∧
      Puts r (w.heap.channel r).close w w' :=
  ⟨_, rfl, w.journal.note .trace fun _ => "--> closing <uuid>", rfl⟩

/-- What follows a world action. -/
theorem run_bind {α β : Type} (first : WorldAction α) (next : α → WorldAction β) (w : World) :
    (first >>= next).run.run w = match first.run.run w with
      | (.ok a, w') => (next a).run.run w'
      | (.error halt, w') => (.error halt, w') := by
  rw [ExceptT.run_bind, StateT.run_bind]
  rcases first.run.run w with ⟨halt | a, w'⟩ <;> rfl

theorem getElem?_of_puts {r : Ref .channel} {c d : ChannelObject} {w w' : World}
    (h : Puts r d w w') (hc : w.heap.channels[r.id]? = some c) :
    w'.heap.channels[r.id]? = some d := by
  obtain ⟨journal, rfl⟩ := h
  have hlt := (Array.getElem?_eq_some_iff.1 hc).1
  simp [hlt]

@[simp]
theorem sends_append (past : List (Event P)) (e : Event P) :
    sends (past ++ [e]) = sends past ++ e.sent?.toList := by
  cases e <;> simp [sends, Event.sent?]

@[simp]
theorem receipts_append (past : List (Event P)) (e : Event P) :
    receipts (past ++ [e]) = receipts past ++ e.received?.toList := by
  cases e <;> simp [receipts, Event.received?]

@[simp]
theorem isClosed_append (past : List (Event P)) (e : Event P) :
    isClosed (past ++ [e]) = (isClosed past || e.isClosed) := by
  simp [isClosed]

/-! ### Faithful histories -/

/-- Every event is what the channel should have answered. -/
def Faithful (size : Nat) (history : List (Event P)) : Prop :=
  ∀ past e, past ++ [e] <+: history → response size past e.party e.call = some e

theorem party_of_response {size : Nat} {history : List (Event P)} {p : P} {call : Call}
    {e : Event P} (h : response size history p call = some e) : e.party = p ∧ e.call = call := by
  cases call with
  | send v =>
    rw [response] at h
    split at h
    · cases h
      exact ⟨rfl, rfl⟩
    · split at h
      · cases h
      · cases h
        exact ⟨rfl, rfl⟩
  | receive =>
    rw [response] at h
    split at h
    · cases h
      exact ⟨rfl, rfl⟩
    · split at h
      · cases h
        exact ⟨rfl, rfl⟩
      · cases h
  | close =>
    cases h
    exact ⟨rfl, rfl⟩

theorem Faithful.append {size : Nat} {history : List (Event P)} (h : Faithful size history) {p : P}
    {call : Call} {e : Event P} (he : response size history p call = some e) :
    Faithful size (history ++ [e]) := by
  intro past e' hprefix
  rcases List.prefix_concat_iff.1 hprefix with heq | hbefore
  · obtain ⟨rfl, rfl⟩ := List.append_singleton_inj.1 heq
    obtain ⟨hparty, hcall⟩ := party_of_response he
    rw [hparty, hcall, he]
  · exact h past e' hbefore

/-- Once a channel has been closed, nothing more is sent. -/
theorem sends_after_close {size : Nat} {history : List (Event P)} (hfaithful : Faithful size history)
    {before after : List (Event P)} (hhistory : history = before ++ after) (hclosed : isClosed before = true) :
    sends after = [] := by
  refine List.filterMap_eq_nil_iff.2 fun e he => ?_
  obtain ⟨early, late, rfl⟩ := List.append_of_mem he
  have hclosed' : isClosed (before ++ early) = true := by
    rw [isClosed, List.any_append, Bool.or_eq_true]
    exact .inl hclosed
  have hresponse := hfaithful (before ++ early) e ⟨late, by rw [hhistory]; simp⟩
  cases e with
  | sent p v =>
    rw [Event.party, Event.call, response, if_pos hclosed'] at hresponse
    cases hresponse
  | _ => rfl

theorem Traffic.carries_opening (size : Nat) (w : World) :
    Traffic.Carries size ((World.newChannel size).run w).1 (.ofCapacity size)
      (Traffic.opening size w : Traffic P) where
  object := by
    show (w.heap.channels.push (.ofCapacity size))[w.heap.channels.size]? = _
    exact Array.getElem?_push_size
  capacity_eq := rfl
  count_eq := rfl
  fits := Nat.zero_le _
  inOrder := rfl
  open_eq := rfl

namespace Traffic

variable [DecidableEq P] {size : Nat} {r : Ref .channel} {c : ChannelObject} {t t' : Traffic P}

/-- The attempt of a call brings about what the channel should answer; a call that has to wait
changes nothing. -/
def Answers (size : Nat) (r : Ref .channel) (t : Traffic P) (p : P) (call : Call) : Prop :=
  match response size t.history p call with
  | some e => ∃ d w', Carries size r d ⟨w', Function.update t.calls p none, t.history ++ [e]⟩ ∧
      t.act r p call = ⟨w', Function.update t.calls p none, t.history ++ [e]⟩
  | none => t.act r p call = t

theorem answers_of_ok {p : P} {call : Call} {e : Event P} {d : ChannelObject} {w' : World}
    (hrun : (call.attempt r p).run.run t.world = (.ok e, w'))
    (hresponse : response size t.history p call = some e)
    (hd : Carries size r d ⟨w', Function.update t.calls p none, t.history ++ [e]⟩) :
    Answers size r t p call := by
  rw [Answers, hresponse]
  refine ⟨d, w', hd, ?_⟩
  rw [act, hrun]

/-- A refusal changes nothing but the history. -/
theorem answers_of_refused (h : Carries size r c t) {p : P} {call : Call}
    (hrun : (call.attempt r p).run.run t.world = (.error (.fault notOpen), t.world))
    (hresponse : response size t.history p call = some (.failed p call notOpen)) :
    Answers size r t p call := by
  rw [Answers, hresponse]
  refine ⟨c, t.world, ⟨h.object, h.capacity_eq, h.count_eq, h.fits, ?_, ?_⟩, ?_⟩
  · simpa [Event.sent?, Event.received?] using h.inOrder
  · simpa [Event.isClosed] using h.open_eq
  · rw [act, hrun]

theorem answers_of_blocked {p : P} {call : Call}
    (hrun : (call.attempt r p).run.run t.world = (.error .blocked, t.world))
    (hresponse : response size t.history p call = none) : Answers size r t p call := by
  rw [Answers, hresponse]
  dsimp only
  rw [act, hrun]

theorem Carries.send (h : Carries size r c t) (p : P) (v : Value) :
    Answers size r t p (.send v) := by
  have hrun := run_send r v t.world
  have hattempt := run_bind (WorldAction.send r v) (fun _ => pure (Event.sent p v)) t.world
  rw [h.channel_eq] at hrun
  have hopen := h.open_eq
  have hfull := h.remaining_eq
  cases hclosed : isClosed t.history with
  | true =>
    rw [hclosed] at hopen
    rw [show c.send v = .refused by simp [ChannelObject.send, hopen]] at hrun
    rw [hrun] at hattempt
    exact answers_of_refused h hattempt (by rw [response, if_pos hclosed])
  | false =>
    rw [hclosed] at hopen
    by_cases hle : max size 1 ≤ c.queue.length
    · rw [show c.send v = .wait by
        simp [ChannelObject.send, hopen, ChannelObject.isFull, h.capacity_eq, hle]] at hrun
      rw [hrun] at hattempt
      refine answers_of_blocked hattempt ?_
      rw [response, hclosed, if_neg (by decide), hfull, if_pos hle]
    · rw [show c.send v = .done { c with queue := c.queue ++ [v], count := c.count + 1 } by
        simp [ChannelObject.send, hopen, ChannelObject.isFull, h.capacity_eq, hle]] at hrun
      obtain ⟨w', hout, hputs⟩ := hrun
      rw [hout] at hattempt
      refine answers_of_ok hattempt ?_
        ⟨getElem?_of_puts hputs h.object, h.capacity_eq, ?_, ?_, ?_, ?_⟩
      · rw [response, hclosed, if_neg (by decide), hfull, if_neg hle]
      · simp [h.count_eq]
      · simp only [List.length_append, List.length_singleton, h.capacity_eq]
        omega
      · simp [Event.sent?, Event.received?, h.inOrder]
      · simpa [Event.isClosed] using h.open_eq

theorem Carries.receive (h : Carries size r c t) (p : P) : Answers size r t p .receive := by
  have hrun := run_receive r t.world
  have hattempt := run_bind (WorldAction.receive r) (fun v => pure (Event.received p v)) t.world
  rw [h.channel_eq] at hrun
  have hopen := h.open_eq
  have hremaining := h.remaining_eq
  cases hqueue : c.queue with
  | cons v rest =>
    rw [show c.receive = .done (v, { c with queue := rest, count := c.count - 1 }) by
      rw [ChannelObject.receive, hqueue]] at hrun
    obtain ⟨w', hout, hputs⟩ := hrun
    rw [hout] at hattempt
    have hcount := h.count_eq
    have hfits := h.fits
    rw [hqueue, List.length_cons] at hcount hfits
    refine answers_of_ok hattempt (by rw [response, hremaining, hqueue])
      ⟨getElem?_of_puts hputs h.object, h.capacity_eq, ?_, ?_, ?_, ?_⟩
    · simp [hcount]
    · exact Nat.le_of_succ_le hfits
    · simp [Event.sent?, Event.received?, h.inOrder, hqueue]
    · simpa [Event.isClosed] using h.open_eq
  | nil =>
    cases hclosed : isClosed t.history with
    | true =>
      rw [hclosed] at hopen
      rw [show c.receive = .refused by simp [ChannelObject.receive, hqueue, hopen]] at hrun
      rw [hrun] at hattempt
      refine answers_of_refused h hattempt ?_
      rw [response, hremaining, hqueue]
      exact if_pos hclosed
    | false =>
      rw [hclosed] at hopen
      rw [show c.receive = .wait by simp [ChannelObject.receive, hqueue, hopen]] at hrun
      rw [hrun] at hattempt
      refine answers_of_blocked hattempt ?_
      rw [response, hremaining, hqueue, hclosed]
      rfl

theorem Carries.close (h : Carries size r c t) (p : P) : Answers size r t p .close := by
  obtain ⟨w', hrun, hputs⟩ := run_close r t.world
  have hattempt := run_bind (WorldAction.onWorld (World.closeChannel r))
    (fun wasOpen => pure (Event.closed p wasOpen)) t.world
  rw [h.channel_eq] at hrun hputs
  rw [hrun] at hattempt
  refine answers_of_ok hattempt (by rw [response, h.open_eq])
    ⟨getElem?_of_puts hputs h.object, h.capacity_eq, h.count_eq, h.fits, ?_, ?_⟩
  · simpa [Event.sent?, Event.received?, ChannelObject.close] using h.inOrder
  · simp [ChannelObject.close, Event.isClosed]

/-- **An attempt brings about what the channel should answer.** -/
theorem Carries.answers (h : Carries size r c t) (p : P) (call : Call) :
    Answers size r t p call := by
  cases call with
  | send v => exact h.send p v
  | receive => exact h.receive p
  | close => exact h.close p

/-! ### All that may happen -/

/-- **In all traffic the channel holds what its history says**, and every event is what it should
have answered. -/
theorem Reached.carries {w : World} (h : Reached size w t) : Faithful size t.history ∧
    ∃ c, Carries size ((World.newChannel size).run w).1 c t := by
  induction h with
  | start =>
    refine ⟨fun past e hprefix => ?_, _, carries_opening size w⟩
    cases past <;> cases List.prefix_nil.1 hprefix
  | @next t _ _ hstep ih =>
    obtain ⟨hfaithful, c, hcarries⟩ := ih
    cases hstep with
    | begin p call =>
      exact ⟨hfaithful, c, hcarries.object, hcarries.capacity_eq, hcarries.count_eq, hcarries.fits,
        hcarries.inOrder, hcarries.open_eq⟩
    | act p call =>
      have hanswers := hcarries.answers p call
      rw [Answers] at hanswers
      cases hresponse : response size t.history p call with
      | some e =>
        rw [hresponse] at hanswers
        obtain ⟨d, w', hd, hact⟩ := hanswers
        rw [hact]
        exact ⟨hfaithful.append hresponse, d, hd⟩
      | none =>
        rw [hresponse] at hanswers
        dsimp only at hanswers
        rw [hanswers]
        exact ⟨hfaithful, c, hcarries⟩
    | elsewhere world hsame =>
      exact ⟨hfaithful, c, hsame.trans hcarries.object, hcarries.capacity_eq, hcarries.count_eq,
        hcarries.fits, hcarries.inOrder, hcarries.open_eq⟩

/-- **A channel loses nothing, and keeps the order.** Whatever the parties do, and in whatever order
their attempts come: the count is right and within bounds; what was received is the beginning of
what was sent, for each sender, too; after the channel was closed nothing more is sent, and what
remained is what is received; it is drained when it has been closed and all was received. Every event
is what the channel should have answered, and so is the next one, whoever makes the next attempt. -/
theorem channel_carries {w : World} (h : Reached size w t) :
    ∃ c, t.world.heap.channels[((World.newChannel size).run w).1.id]? = some c ∧
      c.count = c.queue.length ∧ c.queue.length ≤ max size 1 ∧
      (sends t.history).map Prod.snd = receipts t.history ++ c.queue ∧
      (arrivals t.history).map Prod.snd = receipts t.history ∧
      (∀ p, (arrivals t.history).filter (·.1 = p) <+: (sends t.history).filter (·.1 = p)) ∧
      (∀ before after, t.history = before ++ after → isClosed before = true →
        sends after = [] ∧ remaining before = receipts after ++ c.queue) ∧
      (c.isDrained = true ↔ isClosed t.history = true ∧
        receipts t.history = (sends t.history).map Prod.snd) ∧
      Faithful size t.history ∧
      ∀ p call, t.calls p = some call →
        match response size t.history p call with
        | some e => (t.act ((World.newChannel size).run w).1 p call).history = t.history ++ [e] ∧
            (t.act ((World.newChannel size).run w).1 p call).calls p = none
        | none => t.act ((World.newChannel size).run w).1 p call = t := by
  obtain ⟨hfaithful, c, hc⟩ := h.carries
  have hinOrder := hc.inOrder
  refine ⟨c, hc.object, hc.count_eq, hc.capacity_eq ▸ hc.fits, hinOrder, ?_, fun p => ?_,
    fun before after hhistory hclosed => ?_, ?_, hfaithful, fun p call _ => ?_⟩
  · rw [arrivals, List.map_take, hinOrder, List.take_left]
  · exact (List.take_prefix _ _).filter _
  · have hnone := sends_after_close hfaithful hhistory hclosed
    refine ⟨hnone, ?_⟩
    have hsends : sends t.history = sends before := by
      rw [hhistory, sends, List.filterMap_append, ← sends, ← sends, hnone, List.append_nil]
    have hreceipts : receipts t.history = receipts before ++ receipts after := by
      rw [hhistory, receipts, List.filterMap_append, ← receipts, ← receipts]
    rw [hsends, hreceipts, List.append_assoc] at hinOrder
    rw [remaining, hinOrder, List.drop_left]
  · have hdrained : c.isDrained = true ↔ isClosed t.history = true ∧ c.queue = [] := by
      simp [ChannelObject.isDrained, hc.open_eq, hc.count_eq]
    rw [hdrained, hinOrder]
    simp
  · have hanswers := hc.answers p call
    rw [Answers] at hanswers
    cases hresponse : response size t.history p call with
    | some e =>
      rw [hresponse] at hanswers
      obtain ⟨d, w', -, hact⟩ := hanswers
      dsimp only
      rw [hact]
      exact ⟨rfl, Function.update_self p none t.calls⟩
    | none =>
      rw [hresponse] at hanswers
      exact hanswers

/-! ### A sender that waits when the channel is closed -/

/-- The traffic after a party has begun a call and attempted it. -/
def tried (t : Traffic Nat) (p : Nat) (call : Call) : Traffic Nat :=
  act ⟨0⟩ p call { t with calls := Function.update t.calls p (some call) }

theorem Reached.tried {w : World} {t : Traffic Nat} (h : Reached size w t) {p : Nat}
    (call : Call) (hnew : ((World.newChannel size).run w).1 = ⟨0⟩) (hidle : t.calls p = none) :
    Reached size w (t.tried p call) := by
  refine .next (.next h (.begin t p call hidle)) ?_
  rw [hnew]
  exact .act _ p call (Function.update_self p (some call) t.calls)

/-- A channel for one value: a sender waits when it is closed, and tries again. -/
def disappointed : Traffic Nat :=
  act ⟨0⟩ 1 (.send (.int 2))
    ((((opening 1 {}).tried 0 (.send (.int 1))).tried 1 (.send (.int 2))).tried 2 .close)

/-- The value that was sent first is still there, and the other one was never sent. -/
theorem channel_carries_of_disappointed : Reached 1 {} disappointed ∧
    disappointed.history = [.sent 0 (.int 1), .closed 2 true, .failed 1 (.send (.int 2)) notOpen] ∧
    ∃ c, disappointed.world.heap.channels[0]? = some c ∧ c.count = 1 ∧ c.isDrained = false := by
  have hreached : Reached 1 {} disappointed :=
    .next (((Reached.start.tried (.send (.int 1)) rfl rfl).tried (.send (.int 2)) rfl rfl).tried
      .close rfl rfl) (.act _ 1 (.send (.int 2)) rfl)
  have hhistory : disappointed.history
      = [.sent 0 (.int 1), .closed 2 true, .failed 1 (.send (.int 2)) notOpen] := rfl
  obtain ⟨c, hc, hcount, -, hinOrder, -, -, -, hdrained, -⟩ := channel_carries hreached
  rw [hhistory] at hinOrder hdrained
  have hqueue : c.queue = [.int 1] := hinOrder.symm
  refine ⟨hreached, hhistory, c, hc, by rw [hcount, hqueue]; rfl, ?_⟩
  refine Bool.eq_false_iff.2 fun h => ?_
  cases (hdrained.1 h).2

end Traffic

end ScriptMachine.Channel
