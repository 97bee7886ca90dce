import SprintLedger.Proofs.Json.Printing
import SprintLedger.Report

set_option autoImplicit false

namespace SprintLedger

open Json (Value)

namespace Ledger

def timeValue (time : Option String) : Value := (time.map Value.string).getD .null

-- What the ledger says of a sprint. An object is a map, so its members stand in the order of their keys.
def record (l : Ledger) (n : SprintNumber) : Value :=
  .object [
    ("completed_at", timeValue ((l.find? n).bind Entry.completedAt)),
    ("sprint", .string n.key),
    ("started_at", timeValue ((l.find? n).bind Entry.startedAt)),
    ("status", .string ((((l.find? n).bind Entry.status).map Status.text).getD "pending"))]

end Ledger

namespace Row

theorem optional_value_normal (time : Option String) : (optionalValue time).normal = Ledger.timeValue time := by
  cases time <;> rfl

def record (r : Row) : Value :=
  .object [("completed_at", Ledger.timeValue r.completedAt), ("sprint", .string r.number.key),
    ("started_at", Ledger.timeValue r.startedAt), ("status", .string r.status.text)]

theorem value_normal (r : Row) : r.toValue.normal = r.record := by
  simp only [toValue, record, Value.normal, Value.normalMembers, optional_value_normal, SortedMap.of_bindings_cons,
    SortedMap.of_bindings_nil, SortedMap.empty, SortedMap.insert, insertBinding, String.reduceLT, String.reduceEq,
    ↓reduceIte]

theorem ledger_value_normal (l : Ledger) (n : SprintNumber) : (ofLedger l n).toValue.normal = l.record n := by
  rw [value_normal]
  simp only [record, ofLedger, Ledger.record, Ledger.entry]
  cases l.find? n with
  | none => rfl
  | some e =>
    simp only [Option.getD_some, Option.bind_some, Entry.effectiveStatus]
    cases e.status <;> rfl

theorem value_depth (r : Row) : r.toValue.depth = 1 := by
  obtain ⟨_, _, startedAt, completedAt⟩ := r
  cases startedAt <;> cases completedAt <;> rfl

-- No number stands in a row.
theorem value_reread (r : Row) : r.toValue.reread = r.toValue := by
  obtain ⟨_, _, startedAt, completedAt⟩ := r
  cases startedAt <;> cases completedAt <;> rfl

end Row

namespace Report

theorem rows_document (rows : List Row) :
    Json.Document (.array (rows.map Row.toValue)) (json rows) := by
  have same : (Value.array (rows.map Row.toValue)).reread = .array (rows.map Row.toValue) := by
    rw [Value.reread, Value.reread_elements_map, List.map_map]
    exact congrArg Value.array (List.map_congr_left fun r _ => r.value_reread)
  have document := Value.pretty_document (.array (rows.map Row.toValue))
  rwa [same] at document

theorem json_rows_read (rows : List Row) : Json.ofText (json rows) = .ok (.array (rows.map Row.record)) := by
  refine Json.of_text_iff.2 ⟨_, rows_document rows, ?_, ?_⟩
  · refine Value.array_depth_le.2 fun v member => ?_
    obtain ⟨r, _, rfl⟩ := List.mem_map.1 member
    rw [r.value_depth]
    decide
  · rw [Value.normal, Value.normal_elements_map, List.map_map]
    simp only [Function.comp_def, Row.value_normal]

theorem json_read (l : Ledger) (ns : List SprintNumber) :
    Json.ofText (json (rows l ns)) = .ok (.array (ns.map l.record)) := by
  rw [json_rows_read, rows, List.map_map]
  simp only [Function.comp_def, ← Row.value_normal, Row.ledger_value_normal]

theorem rows_numbers (l : Ledger) (ns : List SprintNumber) : (rows l ns).map Row.number = ns := by
  rw [rows, List.map_map]
  exact List.map_id ns

-- Only the entries of the sprints that are listed matter.
theorem rows_same {l l' : Ledger} {ns : List SprintNumber} (same : ∀ n ∈ ns, l'.find? n = l.find? n) :
    rows l' ns = rows l ns := by
  refine List.map_congr_left fun n member => ?_
  simp only [Row.ofLedger, Ledger.entry, same n member]

end Report

end SprintLedger
