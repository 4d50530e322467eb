import ScriptMachine.Assoc
import ScriptMachine.Value

/-!
# Packages, channels and locks

Objects that programs share by name or across tasks.

* `PackageObject`: named items and, once defined by a program, a table of symbols.
* `ChannelObject`: a bounded queue; a closed channel gives out what it holds and no more.
* `WaitCount`: the counter of a wait group.
-/

namespace ScriptMachine

/-- A package: items in insertion order, and the table of its own symbols. -/
structure PackageObject where
  name : String
  items : List (String × Value) := []
  symbols : Option TableId := none
  nodup : (items.map (·.1)).Nodup := by exact List.nodup_nil

instance : Inhabited PackageObject := ⟨{ name := "" }⟩

namespace PackageObject

/-- A package that binds names one after the other. -/
def ofItems (name : String) (items : List (String × Value)) : PackageObject where
  name
  items := Assoc.insertAll items
  nodup := Assoc.nodup_insertAll items

def get? (p : PackageObject) (name : String) : Option Value := p.items.lookup name

def set (p : PackageObject) (name : String) (v : Value) : PackageObject :=
  { p with items := Assoc.insert name v p.items, nodup := Assoc.nodup_insert p.nodup name v }

@[simp]
theorem get?_set_self (p : PackageObject) (name : String) (v : Value) :
    (p.set name v).get? name = some v :=
  Assoc.lookup_insert_self name v p.items

end PackageObject

/-- A channel: at most `capacity` values wait to be received. -/
structure ChannelObject where
  capacity : Nat
  queue : List Value := []
  isOpen : Bool := true
  /-- The values sent but not yet received, counted beside the queue. -/
  count : Nat := 0
deriving Inhabited

/-- The outcome of an operation that may have to wait. -/
inductive Attempt (α : Type)
  | done (a : α)
  | refused
  | wait
deriving Inhabited

namespace ChannelObject

variable (c : ChannelObject)

/-- A new channel; capacities below one become one. -/
def ofCapacity (n : Nat) : ChannelObject := { capacity := max n 1 }

def isFull : Bool := c.capacity ≤ c.queue.length

/-- Enqueues a value; a closed channel refuses and a full one has to wait. -/
def send (v : Value) : Attempt ChannelObject :=
  if !c.isOpen then .refused
  else if c.isFull then .wait
  else .done { c with queue := c.queue ++ [v], count := c.count + 1 }

/-- Dequeues a value; an empty channel refuses once closed and has to wait before. -/
def receive : Attempt (Value × ChannelObject) :=
  match c.queue with
  | v :: rest => .done (v, { c with queue := rest, count := c.count - 1 })
  | [] => if c.isOpen then .wait else .refused

def close : ChannelObject := { c with isOpen := false }

/-- Whether the channel is closed and drained. -/
def isDrained : Bool := !c.isOpen && c.count == 0

/-- The text of a channel; its identity is not shown. -/
def text : String :=
  let status := if c.isOpen then "open" else "closed"
  s!"chan({status}, size {c.capacity}({c.count}), id <uuid>)"

/-- A value that was sent waits behind all others. -/
theorem queue_of_send {c d : ChannelObject} {v : Value} (h : c.send v = .done d) :
    d.queue = c.queue ++ [v] := by
  unfold send at h
  split at h
  · cases h
  · split at h
    · cases h
    · cases h; rfl

/-- A value that was received had waited longest. -/
theorem queue_of_receive {c d : ChannelObject} {v : Value} (h : c.receive = .done (v, d)) :
    c.queue = v :: d.queue := by
  unfold receive at h
  split at h
  · rename_i w rest hq
    cases h
    exact hq
  · split at h <;> cases h

end ChannelObject

/-- The counter of a wait group after an adjustment, and whether it stayed at zero or above. -/
def adjustWaitCount (count delta : Int64) : Int64 × Bool :=
  let sum := count + delta
  if sum < 0 then (0, false) else (sum, true)

end ScriptMachine
