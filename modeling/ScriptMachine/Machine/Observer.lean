import ScriptMachine.Opcode
import ScriptMachine.World

/-!
# Observers

What is recorded about a run while it goes on.

* `Happening`: an instruction, a call, a return or a caught fault.
* `Profile`: how often each opcode ran, and how deep calls went.
* `ExecutionLog`: lines for the journal, up to a limit of instructions.
* `Observer`: any combination of these, and a number of instructions after which the run stops.
-/

namespace ScriptMachine

/-- What can happen in a run. -/
inductive Happening
  | instruction (pc : Nat) (op : Opcode) (stackDepth : Nat)
  | call (name : String) (depth : Nat)
  | ret (depth : Nat)
  | caught (kind : FaultKind) (depth : Nat)
deriving DecidableEq, Inhabited

/-- Counts over a run. -/
structure Profile where
  /-- The count of each opcode that ran, in order of first use. -/
  counts : List (Opcode × Nat) := []
  instructions : Nat := 0
  maxDepth : Nat := 0
  calls : Nat := 0
  catches : Nat := 0
deriving Inhabited

namespace Profile

def observe (p : Profile) : Happening → Profile
  | .instruction _ op _ =>
    { p with
      counts := Assoc.insert op ((p.counts.lookup op).getD 0 + 1) p.counts
      instructions := p.instructions + 1 }
  | .call _ depth => { p with calls := p.calls + 1, maxDepth := max p.maxDepth depth }
  | .ret _ => p
  | .caught .. => { p with catches := p.catches + 1 }

/-- The counts, highest first; opcodes with equal counts by number. -/
def ranking (p : Profile) : List (Opcode × Nat) :=
  p.counts.mergeSort fun a b => b.2 < a.2 || (a.2 == b.2 && a.1.code ≤ b.1.code)

end Profile

/-- Lines for the journal; nothing but caught faults is written after `limit` instructions. -/
structure ExecutionLog where
  thread : Nat
  limit : Option Nat := none
  count : Nat := 0
deriving Inhabited

namespace ExecutionLog

def isSpent (l : ExecutionLog) : Bool := l.limit.any fun n => n ≤ l.count

/-- The line for a happening among `frames` active frames. -/
def line (l : ExecutionLog) (frames : Nat) : Happening → String
  | .instruction pc op depth =>
    let address := padLeft 5 (toString pc)
    s!"({l.thread}) [{address}] {padRight 14 op.name} stack={depth}  frames={frames}"
  | .call name depth => s!"({l.thread})   >>> CALL {padRight 20 name} depth={depth}"
  | .ret depth => s!"({l.thread})   <<< RETURN              depth={depth}"
  | .caught kind depth => s!"({l.thread})   !!! CATCH {kind.name} depth={depth}"

/-- Whether a happening is written. -/
def writes (l : ExecutionLog) : Happening → Bool
  | .caught .. => true
  | _ => !l.isSpent

/-- Counts the instructions that were written. -/
def observe (l : ExecutionLog) : Happening → ExecutionLog
  | .instruction .. => if l.isSpent then l else { l with count := l.count + 1 }
  | _ => l

end ExecutionLog

/-- What is recorded about a run. -/
structure Observer where
  recording : Option (Array Happening) := none
  profile : Option Profile := none
  log : Option ExecutionLog := none
  /-- The run stops when this many more instructions have begun. -/
  allowance : Option Nat := none
deriving Inhabited

namespace Observer

/-- Takes note of a happening. -/
def observe (o : Observer) (x : Happening) : Observer :=
  { o with
    recording := o.recording.map (·.push x)
    profile := o.profile.map (·.observe x)
    log := o.log.map (·.observe x) }

/-- Uses up one instruction of the allowance. -/
def spend (o : Observer) : Observer := { o with allowance := o.allowance.map (· - 1) }

/-- Whether the instruction that begins now is the last one allowed. -/
def isLast (o : Observer) : Bool := o.allowance == some 1

end Observer

end ScriptMachine
