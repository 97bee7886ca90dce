import SprintLedger.Proofs.Instant
import SprintLedger.Proofs.Report.Records
import SprintLedger.Proofs.Report.Table
import SprintLedger.Proofs.Text.Gaps

set_option autoImplicit false

namespace SprintLedger

open Json (Value)

namespace Report

-- The cells of a line are the members of an object, with a dash for a time that is null.
def Agrees (line : List Char) (object : Value) : Prop :=
  ∃ members sprint status startedAt completedAt, object = .object members ∧
    members.lookup "sprint" = some (.string sprint) ∧ members.lookup "status" = some (.string status) ∧
    members.lookup "started_at" = some (Ledger.timeValue startedAt) ∧
    members.lookup "completed_at" = some (Ledger.timeValue completedAt) ∧
    Text.cells line =
      ["SPRINT-".toList ++ sprint.toList, status.toList, Row.shown startedAt, Row.shown completedAt]

end Report

namespace Row

theorem padded_gap (width : Nat) (cs rest : List Char) :
    padded width cs ++ ([' ', ' '] ++ rest) = cs ++ (List.replicate (width - cs.length + 2) ' ' ++ rest) := by
  rw [padded, List.replicate_add]
  simp

theorem name_tidy (n : SprintNumber) : Text.Tidy ("SPRINT-".toList ++ n.digits) :=
  Text.solid_tidy (by simp) (name_solid n)

theorem shown_tidy {time : Option String} (tidy : ∀ text ∈ time.toList, Text.Tidy text.toList) :
    Text.Tidy (shown time) := by
  cases time with
  | none => exact Text.solid_tidy (by decide) (by decide)
  | some text => exact tidy text (List.mem_singleton_self text)

theorem trim_end_padded {cs : List Char} (tidy : Text.Tidy cs) (width : Nat) (front : List Char) :
    Text.trimEnd (front ++ padded width cs) = front ++ cs := by
  have ends : ∀ c ∈ (front ++ cs).getLast?, Text.isBlank c = false := by
    rw [List.getLast?_append_of_ne_nil _ tidy.present]
    exact tidy.ends
  rw [padded, ← List.append_assoc, Text.trim_end_behind_blank (Text.spaces_blank _), Text.trim_end_ended ends]

section

variable {r : Row} (tidy : ∀ text ∈ r.texts, Text.Tidy text.toList)
include tidy

theorem texts_tidy :
    Text.Tidy r.status.text.toList ∧ Text.Tidy (shown r.startedAt) ∧ Text.Tidy (shown r.completedAt) := by
  obtain ⟨status, times⟩ := List.forall_mem_cons.1 tidy
  obtain ⟨started, completed⟩ := List.forall_mem_append.1 times
  exact ⟨status, shown_tidy started, shown_tidy completed⟩

-- The padding of each cell widens the gap behind it, and that of the last one is trimmed.
theorem line_tidy : r.line false = ("SPRINT-".toList ++ r.number.digits) ++ (List.replicate 2 ' ' ++
    (r.status.text.toList ++ (List.replicate (12 - r.status.text.toList.length + 2) ' ' ++
      (shown r.startedAt ++ (List.replicate (22 - (shown r.startedAt).length + 2) ' ' ++ (shown r.completedAt ++ [])))))) := by
  obtain ⟨_, _, completed⟩ := texts_tidy tidy
  have spread : r.line false = Text.trimEnd (("SPRINT-".toList ++ r.number.digits) ++ ([' ', ' '] ++
      (padded 12 r.status.text.toList ++ ([' ', ' '] ++ (padded 22 (shown r.startedAt) ++ ([' ', ' '] ++
        padded 22 (shown r.completedAt))))))) := by
    rw [line, status_cell_plain, timeCell, timeCell, shown, shown]
    simp only [List.append_assoc]
  rw [spread, padded_gap, padded_gap]
  simp only [← List.append_assoc, List.append_nil]
  rw [trim_end_padded completed]
  rfl

theorem line_cells : Text.cells (r.line false) =
    ["SPRINT-".toList ++ r.number.digits, r.status.text.toList, shown r.startedAt, shown r.completedAt] := by
  obtain ⟨status, started, completed⟩ := texts_tidy tidy
  rw [line_tidy tidy, Text.cells_cons (name_tidy r.number) status 0, Text.cells_cons status started,
    Text.cells_cons started completed, List.append_nil, Text.cells_one completed]

theorem line_agrees : Report.Agrees (r.line false) r.record := by
  refine ⟨_, r.number.key, r.status.text, r.startedAt, r.completedAt, rfl, rfl, rfl, rfl, rfl, ?_⟩
  rw [line_cells tidy, SprintNumber.key_list]

end

end Row

theorem stamp_tidy (t : Instant) : Text.Tidy t.stamp.toList := by
  have digits := Text.decimal_text_solid
  have year : Text.Solid (yearText t.date.year) := by
    unfold yearText
    by_cases common : 0 ≤ t.date.year ∧ t.date.year ≤ 9999
    · rw [if_pos common]
      exact digits _ _
    · rw [if_neg common]
      refine List.forall_mem_cons.2 ⟨?_, digits _ _⟩
      by_cases negative : t.date.year < 0
      · rw [if_pos negative]
        decide
      · rw [if_neg negative]
        decide
  refine Text.solid_tidy ?_ ?_
  · rw [Instant.stamp_list]
    simp
  · rw [Instant.stamp_list, Instant.clockText]
    simp only [Text.Solid, List.forall_mem_append, List.forall_mem_cons]
    exact ⟨year, by decide, digits _ _, by decide, digits _ _, by decide, digits _ _, by decide, digits _ _, by decide,
      digits _ _, by decide, List.forall_mem_nil _⟩

theorem status_tidy {s : Status} (own : s = .pending ∨ s = .inProgress ∨ s = .completed) :
    Text.Tidy s.text.toList := by
  rcases own with rfl | rfl | rfl <;> decide +kernel

namespace Report

section

variable {rows : List Row} (tidy : ∀ r ∈ rows, ∀ text ∈ r.texts, Text.Tidy text.toList)
include tidy

theorem tidy_lines : linesOf (table rows false) = headLine :: rule :: rows.map fun r => r.line false := by
  refine table_unbroken fun r member => Row.line_unbroken fun text shown => ?_
  exact (tidy r member text shown).unbroken

theorem tidy_lines_end {line : List Char} (member : line ∈ linesOf (table rows false)) :
    ∀ c ∈ line.getLast?, Text.isBlank c = false := by
  rw [tidy_lines tidy] at member
  rcases List.mem_cons.1 member with rfl | below
  · exact Text.trim_end_last _
  · rcases List.mem_cons.1 below with rfl | listed
    · intro c last
      rw [List.eq_of_mem_replicate (List.mem_of_getLast? last)]
      decide
    · obtain ⟨r, _, rfl⟩ := List.mem_map.1 listed
      exact Text.trim_end_last _

theorem table_agrees_with_json :
    (linesOf (table rows false)).length = rows.length + 2 ∧
    (∀ line ∈ linesOf (table rows false), ∀ c ∈ line.getLast?, Text.isBlank c = false) ∧
    Json.ofText (json rows) = .ok (.array (rows.map Row.record)) ∧
    (∀ (i : Nat) (object : Value), (rows.map Row.record)[i]? = some object →
      ∃ line, (linesOf (table rows false))[i + 2]? = some line ∧ Agrees line object) ∧
    (∀ s : Status, s = .pending ∨ s = .inProgress ∨ s = .completed → Text.Tidy s.text.toList) ∧
    ∀ t : Instant, Text.Tidy t.stamp.toList := by
  refine ⟨by simp [tidy_lines tidy], fun line => tidy_lines_end tidy, json_rows_read rows, ?_,
    fun s => status_tidy, stamp_tidy⟩
  intro i object found
  obtain ⟨r, there, rfl⟩ := Option.map_eq_some_iff.1 (List.getElem?_map .. ▸ found)
  exact ⟨r.line false, by simp [tidy_lines tidy, there], Row.line_agrees (tidy r (List.mem_of_getElem? there))⟩

end

-- A number of ten digits, texts longer than their columns and of another script, and a time that is null.
def wideRows : List Row :=
  [⟨⟨4294967295, by decide⟩, .other "приостановлено до весны", some "2024-01-01T00:00:00Z", none⟩,
    ⟨⟨70, by decide⟩, .other "done, reviewed and signed off", some "on the first day of the sprint", some "the day before"⟩]

theorem wide_rows_agree : (∀ r ∈ wideRows, ∀ text ∈ r.texts, Text.Tidy text.toList) ∧
    ∃ line, (linesOf (table wideRows false))[2]? = some line ∧ Agrees line (.object [("completed_at", .null),
      ("sprint", .string "4294967295"), ("started_at", .string "2024-01-01T00:00:00Z"),
      ("status", .string "приостановлено до весны")]) := by
  have tidy : ∀ r ∈ wideRows, ∀ text ∈ r.texts, Text.Tidy text.toList := by decide +kernel
  obtain ⟨_, _, _, agree, _⟩ := table_agrees_with_json tidy
  have key : SprintNumber.key ⟨4294967295, by decide⟩ = "4294967295" := by decide +kernel
  exact ⟨tidy, agree 0 _ (by rw [← key]; rfl)⟩

end Report

end SprintLedger
