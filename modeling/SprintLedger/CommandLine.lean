import SprintLedger.Path
import SprintLedger.Sprint.Number

set_option autoImplicit false

namespace SprintLedger.CommandLine

inductive Command where
  | stats (json : Bool)
  | start (number : SprintNumber)
  | complete (number : SprintNumber)
deriving DecidableEq

structure Invocation where
  command : Command
  directory : Option Path
deriving DecidableEq

inductive UsageError where
  | noArguments
  | missingCommand
  | unknownCommand (word : String)
  | unknownArgument (arg : String)
  | missingNumber
  | invalidNumber (text : String)
  -- The option needs a value, and not the empty one.
  | missingValue
  -- The option was given twice on one side of the command word.
  | repeatedOption
  | unexpectedValue
deriving DecidableEq

inductive Stop where
  | help
  | version
  | usage (error : UsageError)
deriving DecidableEq

inductive Level where
  | top
  | stats
  | change
deriving DecidableEq

inductive Word where
  | stats
  | start
  | complete
  | help
deriving DecidableEq

def Word.ofText? (text : String) : Option Word :=
  if text = "stats" then some .stats
  else if text = "start" then some .start
  else if text = "complete" then some .complete
  else if text = "help" then some .help
  else none

-- A value that was read but not yet taken up. Mistakes in it come to light with the argument after
-- it, which may bring a mistake of its own that is told first.
inductive Pending where
  | nothing
  | option
  | directory (text : String)
  | number (text : String)
deriving DecidableEq

structure State where
  directory : Option Path
  json : Bool
  number : Option SprintNumber
  pending : Pending
  -- Behind `--`.
  literal : Bool
deriving DecidableEq

namespace State

def initial : State := ⟨none, false, none, .nothing, false⟩

def setDirectory (s : State) (text : String) : Except Stop State :=
  if s.directory.isSome then .error (.usage .repeatedOption)
  else if text = "" then .error (.usage .missingValue)
  else .ok { s with directory := some text, pending := .nothing }

def settle (s : State) : Except Stop State :=
  match s.pending with
  | .nothing => .ok s
  | .option => .error (.usage .missingValue)
  | .directory text => s.setDirectory text
  | .number text =>
    match SprintNumber.ofText? text with
    | some n => .ok { s with number := some n, pending := .nothing }
    | none => .error (.usage (.invalidNumber text))

def setJson (s : State) : Except Stop State :=
  if s.json then .error (.usage .repeatedOption) else .ok { s with json := true }

def hasNumber (s : State) : Bool :=
  s.number.isSome ||
    match s.pending with
    | .number _ => true
    | _ => false

end State

def flag? (level : Level) (name : String) : Option (State → Except Stop State) :=
  if name = "help" then some fun _ => .error .help
  else if name = "version" ∧ level = .top then some fun _ => .error .version
  else if name = "json" ∧ level = .stats then some State.setJson
  else none

def splitOption (cs : List Char) : String × Option String :=
  (.ofList (cs.takeWhile (· ≠ '=')),
    match cs.dropWhile (· ≠ '=') with
    | [] => none
    | _ :: value => some (.ofList value))

def longOption (level : Level) (s : State) (cs : List Char) : Except Stop State :=
  let (name, value) := splitOption cs
  if name = "dir" then
    match value with
    | none => s.settle.map fun s => { s with pending := .option }
    | some text => s.settle.bind fun s => s.setDirectory text
  else
    match flag? level name, value with
    | none, _ => .error (.usage (.unknownArgument (.ofList ('-' :: '-' :: cs))))
    | some _, some _ => .error (.usage .unexpectedValue)
    | some set, none => s.settle.bind set

-- Letters behind one hyphen. Every known one stops the reading, so the first one decides.
def shortOptions (level : Level) (s : State) (first : Char) (more : List Char) :
    Except Stop State :=
  if first = 'h' then s.settle.bind fun _ => .error .help
  else if first = 'V' ∧ level = .top then s.settle.bind fun _ => .error .version
  else .error (.usage (.unknownArgument (.ofList ('-' :: first :: more))))

def positional (level : Level) (s : State) (arg : String) : Except Stop State :=
  match level with
  | .top =>
    if s.literal ∧ (Word.ofText? arg).isSome then .error (.usage (.unknownArgument arg))
    else .error (.usage (.unknownCommand arg))
  | .stats => .error (.usage (.unknownArgument arg))
  | .change =>
    if s.hasNumber then .error (.usage (.unknownArgument arg))
    else s.settle.map fun s => { s with pending := .number arg }

def argument (level : Level) (s : State) (arg : String) : Except Stop State :=
  if s.literal then positional level s arg
  else
    match arg.toList with
    | ['-', '-'] => .ok { s with literal := true }
    | '-' :: '-' :: cs => longOption level s cs
    | '-' :: first :: more => shortOptions level s first more
    | _ =>
      if s.pending = .option then .ok { s with pending := .directory arg }
      else positional level s arg

def commandWord? (level : Level) (s : State) (arg : String) : Option Word :=
  if level = .top ∧ ¬s.literal ∧ s.pending ≠ .option then Word.ofText? arg else none

def scan (level : Level) (s : State) : List String →
    Except Stop (State × Option (Word × List String))
  | [] => .ok (s, none)
  | arg :: rest =>
    match commandWord? level s arg with
    | some word => .ok (s, some (word, rest))
    | none => (argument level s arg).bind fun s => scan level s rest

-- The arguments on one side of the command word, when no other command word is to follow.
def readAll (level : Level) (args : List String) : Except Stop State :=
  (scan level .initial args).bind fun (s, _) => s.settle

def helpOn : List String → Stop
  | [] => .help
  | word :: more =>
    match Word.ofText? word, more with
    | none, _ => .usage (.unknownCommand word)
    | some _, [] => .help
    | some _, next :: _ => .usage (.unknownCommand next)

def command (word : Word) (args : List String) : Except Stop (Command × State) :=
  match word with
  | .help => .error (helpOn args)
  | .stats => (readAll .stats args).map fun s => (.stats s.json, s)
  | .start => (readAll .change args).bind fun s =>
    match s.number with
    | some n => .ok (.start n, s)
    | none => .error (.usage .missingNumber)
  | .complete => (readAll .change args).bind fun s =>
    match s.number with
    | some n => .ok (.complete n, s)
    | none => .error (.usage .missingNumber)

def parse (args : List String) : Except Stop Invocation := do
  let (top, found) ← scan .top .initial args
  match found with
  | some (word, rest) =>
    let (command, s) ← command word rest
    let top ← top.settle
    return ⟨command, s.directory.or top.directory⟩
  | none =>
    let top ← top.settle
    .error (.usage (if top.directory.isSome then .missingCommand else .noArguments))

end SprintLedger.CommandLine
