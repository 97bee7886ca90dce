import SprintLedger.CommandLine
import SprintLedger.Workspace

set_option autoImplicit false

namespace SprintLedger

open CommandLine (Command Invocation Stop UsageError)

inductive Ending where
  | help
  | version
  | printed (text : String)
  | misused (error : UsageError)
  | failed (failure : Failure)

namespace Ending

def ofStop : Stop → Ending
  | .help => .help
  | .version => .version
  | .usage e => .misused e

def ofResult : Except Failure String → Ending
  | .ok text => .printed text
  | .error f => .failed f

def exitCode : Ending → Nat
  | .help => 0
  | .version => 0
  | .printed _ => 0
  | .misused _ => 1
  | .failed _ => 1

-- What is said about the use of the program is not settled here.
def output (help : String) : Ending → String
  | .help => help
  | .version => "ledger 0.1.0\n"
  | .printed text => text ++ "\n"
  | .misused _ => ""
  | .failed _ => ""

def complaint (usage : UsageError → String) : Ending → String
  | .help => ""
  | .version => ""
  | .printed _ => ""
  | .misused e => usage e
  | .failed f => "Error: " ++ f.message ++ "\n"

end Ending

namespace Program

variable {m : Type → Type} [Monad m] [Storage m]

def execute (w : Workspace) (now : Instant) (colors : Bool) : Command → m (Except Failure String)
  | .stats json => w.report json colors
  | .start n => return (← w.perform (.start n now)).result
  | .complete n => return (← w.perform (.complete n now)).result

def run (env : Environment) (now : Instant) (colors : Bool) (args : List String) : m Ending := do
  match CommandLine.parse args with
  | .error stop => return .ofStop stop
  | .ok invocation =>
    match Config.ofContent env.configFile (← Storage.look env.configFile) with
    | .error failure => return .failed failure
    | .ok config =>
      let w := Workspace.ofConfig config invocation.directory
      return .ofResult (← execute w now colors invocation.command)

end Program

end SprintLedger
