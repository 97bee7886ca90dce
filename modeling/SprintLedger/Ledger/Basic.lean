import SprintLedger.Failure
import SprintLedger.Sprint.Entry

set_option autoImplicit false

namespace SprintLedger

structure Ledger where
  sprints : SortedMap Entry
  extra : SortedMap Json.Value

inductive Operation where
  | start (number : SprintNumber) (now : Instant)
  | complete (number : SprintNumber) (now : Instant)
deriving DecidableEq

namespace Ledger

def empty : Ledger := ⟨.empty, .empty⟩

def find? (l : Ledger) (n : SprintNumber) : Option Entry := l.sprints.get? n.key

def entry (l : Ledger) (n : SprintNumber) : Entry := (l.find? n).getD .empty

def put (l : Ledger) (n : SprintNumber) (e : Entry) : Ledger :=
  { l with sprints := l.sprints.insert n.key e }

def isCompleted (l : Ledger) (n : SprintNumber) : Bool := (l.entry n).isCompleted

def start (l : Ledger) (n : SprintNumber) (now : Instant) : Except Failure Ledger :=
  if l.isCompleted n then .error (.alreadyCompleted n) else .ok (l.put n ((l.entry n).start now))

-- Any sprint can be completed, also one that is.
def complete (l : Ledger) (n : SprintNumber) (now : Instant) : Ledger :=
  l.put n ((l.entry n).complete now)

end Ledger

namespace Operation

def number : Operation → SprintNumber
  | .start n _ => n
  | .complete n _ => n

def apply : Operation → Ledger → Except Failure Ledger
  | .start n now, l => l.start n now
  | .complete n now, l => .ok (l.complete n now)

def report : Operation → String
  | .start n _ => "Sprint " ++ n.key ++ " marked in_progress."
  | .complete n _ => "Sprint " ++ n.key ++ " marked completed."

end Operation

end SprintLedger
