import SprintLedger.Json.Reader
import SprintLedger.Path
import SprintLedger.Sprint.Number
import SprintLedger.Text.Quoted

set_option autoImplicit false

namespace SprintLedger

inductive Failure where
  | invalidNumber (text : String)
  | alreadyCompleted (number : SprintNumber)
  | unreadableLedger (path : Path)
  | malformedLedger (path : Path) (fault : Json.Fault)
  | unwritableLedger (path : Path)
  | unreadableConfig (path : Path)
  | malformedConfig (path : Path) (fault : Json.Fault)
  | unlistableDirectory (path : Path)
deriving DecidableEq

def Failure.message : Failure → String
  | .invalidNumber text =>
    "Invalid sprint number: " ++ .ofList (Text.quote text.toList) ++
      " (expected a number like 001)"
  | .alreadyCompleted n => "Sprint " ++ n.key ++ " is already completed, cannot reopen."
  | .unreadableLedger path => "Failed to read ledger: " ++ path
  | .malformedLedger path _ => "Failed to parse ledger JSON: " ++ path
  | .unwritableLedger path => "Failed to write ledger: " ++ path
  | .unreadableConfig path => "Failed to read config: " ++ path
  | .malformedConfig path _ => "Failed to parse config: " ++ path
  | .unlistableDirectory path => "Failed to read sprints directory: " ++ path

def SprintNumber.ofText (text : String) : Except Failure SprintNumber :=
  match SprintNumber.ofText? text with
  | some n => .ok n
  | none => .error (.invalidNumber text)

end SprintLedger
