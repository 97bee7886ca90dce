import SprintLedger.Instant
import SprintLedger.Json.Value
import SprintLedger.Sprint.Status

set_option autoImplicit false

namespace SprintLedger

-- Time stamps are kept as the text that was found.
structure Entry where
  status : Option Status
  startedAt : Option String
  completedAt : Option String
  extra : SortedMap Json.Value

namespace Entry

def empty : Entry := ⟨none, none, none, .empty⟩

def effectiveStatus (e : Entry) : Status := e.status.getD .pending

def isCompleted (e : Entry) : Bool := e.status = some .completed

def start (e : Entry) (now : Instant) : Entry :=
  { e with
    status := some .inProgress
    startedAt := some (e.startedAt.getD now.stamp) }

-- Completed now, and started now if it never was.
def complete (e : Entry) (now : Instant) : Entry :=
  { e with
    status := some .completed
    startedAt := some (e.startedAt.getD now.stamp)
    completedAt := some now.stamp }

end Entry

end SprintLedger
