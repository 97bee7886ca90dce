import SprintLedger.Json.Document
import SprintLedger.Ledger.Basic

set_option autoImplicit false

namespace SprintLedger

open Json (Fault Field Reader Value)

def textMember (key : String) : Option String → List (String × Value)
  | none => []
  | some text => [(key, .string text)]

namespace Entry

def members (e : Entry) : List (String × Value) :=
  textMember "status" (e.status.map Status.text) ++ textMember "started_at" e.startedAt ++
    textMember "completed_at" e.completedAt ++ e.extra.toList

def toValue (e : Entry) : Value := .object e.members

-- What is known of an entry while it is read. A member with a meaning is absent until it has been
-- read, and may then still hold nothing.
structure Draft where
  status : Option (Option Status)
  startedAt : Option (Option String)
  completedAt : Option (Option String)
  extra : SortedMap Value

namespace Draft

def blank : Draft := ⟨none, none, none, .empty⟩

def finish (d : Draft) : Entry :=
  ⟨d.status.join, d.startedAt.join, d.completedAt.join, d.extra⟩

-- Unknown members may nest as deep as is left where the entry stands.
def field (depth : Nat) : Field String Draft := fun d key =>
  if key = "status" then
    if d.status.isSome then .error .mismatched
    else .ok (Json.optionalText.map fun t => { d with status := some (t.map Status.ofText) })
  else if key = "started_at" then
    if d.startedAt.isSome then .error .mismatched
    else .ok (Json.optionalText.map fun t => { d with startedAt := some t })
  else if key = "completed_at" then
    if d.completedAt.isSome then .error .mismatched
    else .ok (Json.optionalText.map fun t => { d with completedAt := some t })
  else .ok ((Json.value depth).map fun v => { d with extra := d.extra.insert key v })

end Draft

def reader (depth : Nat) : Reader Entry :=
  (Json.record (Draft.field depth) .blank).map Draft.finish

def ofText (text : String) : Except Fault Entry := (reader (Json.maxDepth - 1)).whole text

end Entry

namespace Ledger

def members (l : Ledger) : List (String × Value) :=
  ("sprints", .object (l.sprints.toList.map fun (key, e) => (key, e.toValue))) :: l.extra.toList

def toValue (l : Ledger) : Value := .object l.members

def fileText (l : Ledger) : String := .ofList (l.toValue.pretty 0 ++ ['\n'])

structure Draft where
  sprints : Option (SortedMap Entry)
  extra : SortedMap Value

namespace Draft

def blank : Draft := ⟨none, .empty⟩

def finish (d : Draft) : Ledger := ⟨d.sprints.getD .empty, d.extra⟩

-- Of two entries under one key the later one counts. An entry stands within two objects.
def entries : Reader (SortedMap Entry) :=
  Json.record (fun es key => .ok ((Entry.reader (Json.maxDepth - 3)).map (SortedMap.insert es key))) .empty

def field : Field String Draft := fun d key =>
  if key = "sprints" then
    if d.sprints.isSome then .error .mismatched
    else .ok (entries.map fun es => { d with sprints := some es })
  else .ok ((Json.value (Json.maxDepth - 1)).map fun v => { d with extra := d.extra.insert key v })

end Draft

def reader : Reader Ledger := (Json.record Draft.field .blank).map Draft.finish

def ofText (text : String) : Except Fault Ledger := reader.whole text

end Ledger

end SprintLedger
