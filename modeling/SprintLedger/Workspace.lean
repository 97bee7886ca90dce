import SprintLedger.Config
import SprintLedger.Ledger.Document
import SprintLedger.Report
import SprintLedger.Sprint.Documents

set_option autoImplicit false

namespace SprintLedger

def Ledger.ofContent (path : Path) : Content → Except Failure Ledger
  | .missing => .ok .empty
  | .unreadable => .error (.unreadableLedger path)
  | .text text => (Ledger.ofText text).mapError (.malformedLedger path)

structure Workspace where
  directory : Path
  ledgerPath : Path
deriving DecidableEq

inductive Warning where
  | noDocument (number : SprintNumber)
deriving DecidableEq

def Warning.message : Warning → String
  | .noDocument n => "no document for sprint " ++ n.key

-- What came of an operation. Warnings do not depend on its success.
structure Performed where
  warnings : List Warning
  result : Except Failure String

namespace Workspace

def ofConfig (c : Config) (override : Option Path) : Workspace :=
  let dir := c.directory override
  ⟨dir, c.ledgerPath dir⟩

def documentPath (w : Workspace) (n : SprintNumber) : Path := w.directory.join n.documentName

def reportText (w : Workspace) (rows : List Row) (json colors : Bool) : String :=
  if json then Report.json rows
  else if rows.isEmpty then "No SPRINT-NNN.md files found in " ++ w.directory
  else Report.table rows colors

variable {m : Type → Type} [Monad m] [Storage m]

def load (w : Workspace) : m (Except Failure Ledger) := do
  return Ledger.ofContent w.ledgerPath (← Storage.look w.ledgerPath)

def save (w : Workspace) (l : Ledger) : m (Except Failure Unit) := do
  if ← Storage.save w.ledgerPath l.fileText then
    return .ok ()
  else
    return .error (.unwritableLedger w.ledgerPath)

def sprints (w : Workspace) : m (Except Failure (List SprintNumber)) := do
  match ← Storage.list? w.directory with
  | some entries => return .ok (documentedSprints entries)
  | none => return .error (.unlistableDirectory w.directory)

def report (w : Workspace) (json colors : Bool) : m (Except Failure String) := do
  match ← w.load with
  | .error f => return .error f
  | .ok ledger =>
    match ← w.sprints with
    | .error f => return .error f
    | .ok numbers => return .ok (w.reportText (Report.rows ledger numbers) json colors)

def update (w : Workspace) (op : Operation) : m (Except Failure String) := do
  match ← w.load with
  | .error f => return .error f
  | .ok ledger =>
    match op.apply ledger with
    | .error f => return .error f
    | .ok changed =>
      match ← w.save changed with
      | .error f => return .error f
      | .ok () => return .ok op.report

def resave (w : Workspace) : m (Except Failure Unit) := do
  match ← w.load with
  | .error f => return .error f
  | .ok ledger => w.save ledger

def perform (w : Workspace) (op : Operation) : m Performed := do
  let content ← Storage.look (w.documentPath op.number)
  let result ← w.update op
  return ⟨if content.isMissing then [.noDocument op.number] else [], result⟩

end Workspace

end SprintLedger
