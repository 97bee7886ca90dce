import SprintLedger.Ledger.Basic
import SprintLedger.Text.Color

set_option autoImplicit false

namespace SprintLedger

structure Row where
  number : SprintNumber
  status : Status
  startedAt : Option String
  completedAt : Option String
deriving DecidableEq

namespace Row

def ofLedger (l : Ledger) (n : SprintNumber) : Row :=
  let e := l.entry n
  ⟨n, e.effectiveStatus, e.startedAt, e.completedAt⟩

end Row

def padded (width : Nat) (cs : List Char) : List Char :=
  cs ++ List.replicate (width - cs.length) ' '

namespace Row

def color? : Status → Option String
  | .inProgress => some Text.yellow
  | .completed => some Text.green
  | .pending => none
  | .other _ => none

-- Spaces are counted before the color is put on.
def statusCell (status : Status) (colors : Bool) : List Char :=
  let cell := padded 12 status.text.toList
  match color? status with
  | some color => (Text.paint color (.ofList cell) colors).toList
  | none => cell

def timeCell (time : Option String) : List Char := padded 22 ((time.getD "-").toList)

def line (r : Row) (colors : Bool) : List Char :=
  Text.trimEnd <|
    "SPRINT-".toList ++ r.number.digits ++ [' ', ' '] ++ statusCell r.status colors ++ [' ', ' '] ++
      timeCell r.startedAt ++ [' ', ' '] ++ timeCell r.completedAt

def optionalValue : Option String → Json.Value
  | none => .null
  | some text => .string text

def toValue (r : Row) : Json.Value :=
  .object [
    ("sprint", .string r.number.key),
    ("status", .string r.status.text),
    ("started_at", optionalValue r.startedAt),
    ("completed_at", optionalValue r.completedAt)]

end Row

namespace Report

def headLine : List Char :=
  Text.trimEnd <|
    padded 8 "Sprint".toList ++ [' ', ' '] ++ padded 12 "Status".toList ++ [' ', ' '] ++
      padded 22 "Started".toList ++ [' ', ' '] ++ padded 22 "Completed".toList

def rule : List Char := List.replicate 72 '-'

def lines (rows : List Row) (colors : Bool) : List (List Char) :=
  headLine :: rule :: rows.map fun r => r.line colors

def table (rows : List Row) (colors : Bool) : String :=
  .ofList (['\n'].intercalate (lines rows colors))

def json (rows : List Row) : String :=
  .ofList ((Json.Value.array (rows.map Row.toValue)).pretty 0)

def rows (l : Ledger) (numbers : List SprintNumber) : List Row := numbers.map (Row.ofLedger l)

end Report

end SprintLedger
