import SprintLedger.Failure
import SprintLedger.Json.Skipped
import SprintLedger.Storage

set_option autoImplicit false

namespace SprintLedger

open Json (Fault Field Reader skipSpace)

structure Config where
  sprintsDirectory : Path
  ledgerFile : String
deriving DecidableEq

namespace Config

def standard : Config := ⟨"docs/sprints", "ledger.json"⟩

structure Draft where
  sprintsDirectory : Option Path
  ledgerFile : Option String

def Draft.finish (d : Draft) : Config :=
  ⟨d.sprintsDirectory.getD standard.sprintsDirectory, d.ledgerFile.getD standard.ledgerFile⟩

-- Each known member may be given once; the values of all others are passed over.
def Draft.field : Field String Draft := fun d key =>
  if key = "sprints_dir" then
    if d.sprintsDirectory.isSome then .error .mismatched
    else .ok (Json.text.map fun t => { d with sprintsDirectory := some t })
  else if key = "ledger_file" then
    if d.ledgerFile.isSome then .error .mismatched
    else .ok (Json.text.map fun t => { d with ledgerFile := some t })
  else .ok (Json.skipped.map fun _ => d)

-- The elements of an array are the directory and the file; a third one is refused as it stands.
def Draft.element (d : Draft) : Reader Draft :=
  if d.sprintsDirectory.isNone then Json.text.map fun t => { d with sprintsDirectory := some t }
  else if d.ledgerFile.isNone then Json.text.map fun t => { d with ledgerFile := some t }
  else .refuse .malformed

def Draft.reader : Reader Draft where
  run cs :=
    match skipSpace cs with
    | '{' :: rest => Json.readMembers Json.string Draft.field ⟨none, none⟩ rest
    | '[' :: rest => Json.readEnclosed ']' Draft.element ⟨none, none⟩ rest
    | cs => .error (Json.mismatch cs)
  consumes {cs _ _} h := by
    have shorter := Json.skip_space_length cs
    split at h
    · rename_i hs
      have := Json.read_enclosed_length h
      rw [hs, List.length_cons] at shorter
      omega
    · rename_i hs
      have := Json.read_enclosed_length h
      rw [hs, List.length_cons] at shorter
      omega
    · simp at h

def ofText (text : String) : Except Fault Config := (Draft.reader.map Draft.finish).whole text

def ofContent (path : Path) : Content → Except Failure Config
  | .missing => .ok standard
  | .unreadable => .error (.unreadableConfig path)
  | .text text => (ofText text).mapError (.malformedConfig path)

def directory (c : Config) (override : Option Path) : Path := override.getD c.sprintsDirectory

def ledgerPath (c : Config) (dir : Path) : Path := dir.join c.ledgerFile

end Config

-- Where the user's files are. An absent setting is the same as an empty one for the home directory;
-- `accountHome` is what the account names.
structure Environment where
  home : Option Path
  accountHome : Option Path
  configHome : Option Path

namespace Environment

def homeDirectory? (env : Environment) : Option Path :=
  (env.home.filter (· ≠ "")).or env.accountHome

def configBase (env : Environment) : Path :=
  match env.configHome.filter Path.isAbsolute with
  | some dir => dir
  | none =>
    match env.homeDirectory? with
    | some home => home.join ".config"
    | none => "~/.config"

def configDirectory (env : Environment) : Path := env.configBase.join "ledger"

def configFile (env : Environment) : Path := env.configDirectory.join "config.json"

end Environment

end SprintLedger
