import SprintLedger.Sprint.Number
import SprintLedger.Storage
import SprintLedger.Text.Digit

set_option autoImplicit false

namespace SprintLedger

-- The digits, of any script, in a name of the form `SPRINT-digits.md`.
def documentDigits? (name : List Char) : Option (List Char) :=
  match name with
  | 'S' :: 'P' :: 'R' :: 'I' :: 'N' :: 'T' :: '-' :: rest =>
    let digits := rest.takeWhile Text.isDecimal
    if digits ≠ [] ∧ rest.dropWhile Text.isDecimal = ['.', 'm', 'd'] then some digits else none
  | _ => none

namespace SprintNumber

def ofDocumentName? (name : String) : Option SprintNumber :=
  (documentDigits? name.toList).bind fun digits => ofText? (.ofList digits)

def insertOnce (n : SprintNumber) : List SprintNumber → List SprintNumber
  | [] => [n]
  | m :: ms =>
    if n.value < m.value then n :: m :: ms
    else if n = m then m :: ms
    else m :: insertOnce n ms

end SprintNumber

-- A directory is no document, and a name that is not UTF-8 is none of a document.
def DirectoryEntry.sprint? (e : DirectoryEntry) : Option SprintNumber :=
  if e.isDirectory then none else (String.fromUTF8? e.name).bind SprintNumber.ofDocumentName?

def documentedSprints (entries : List DirectoryEntry) : List SprintNumber :=
  (entries.filterMap DirectoryEntry.sprint?).foldr SprintNumber.insertOnce []

end SprintLedger
