import SprintLedger.Proofs.Report.Table
import SprintLedger.Proofs.Text.Codes

set_option autoImplicit false

namespace SprintLedger

namespace Row

def lead (r : Row) : List Char := "SPRINT-".toList ++ r.number.digits ++ [' ', ' ']

def times (r : Row) : List Char := [' ', ' '] ++ timeCell r.startedAt ++ [' ', ' '] ++ timeCell r.completedAt

-- A status with a color, and nothing to be seen behind it.
def EndsInColor (r : Row) : Prop :=
  (r.status = .completed ∨ r.status = .inProgress) ∧
    Text.AllBlank (shown r.startedAt) ∧ Text.AllBlank (shown r.completedAt)

instance (r : Row) : Decidable r.EndsInColor := by
  unfold EndsInColor
  infer_instance

-- The padding that is left at the end of a line.
def leftover (r : Row) : List Char :=
  if r.EndsInColor then List.replicate (12 - r.status.text.toList.length) ' ' else []

theorem line_parts (r : Row) (colors : Bool) :
    r.line colors = Text.trimEnd (r.lead ++ (statusCell r.status colors ++ r.times)) := by
  unfold line lead times
  simp only [List.append_assoc]

theorem colored_iff {s : Status} : (s = .completed ∨ s = .inProgress) ↔ color? s ≠ none := by
  cases s <;> simp [color?]

theorem status_cell_bare {s : Status} (bare : color? s = none) : statusCell s true = statusCell s false := by
  cases s with
  | pending => rfl
  | other text => rfl
  | inProgress => cases bare
  | completed => cases bare

theorem status_cell_painted {s : Status} {color : String} (painted : color? s = some color) :
    statusCell s true = color.toList ++ (padded 12 s.text.toList ++ Text.plain.toList) := by
  simp [statusCell, painted, Text.paint]

theorem padded_blank_iff {width : Nat} {cs : List Char} : Text.AllBlank (padded width cs) ↔ Text.AllBlank cs := by
  refine List.forall_mem_append.trans (and_iff_left ?_)
  exact Text.spaces_blank _

theorem times_blank_iff {r : Row} :
    Text.AllBlank r.times ↔ Text.AllBlank (shown r.startedAt) ∧ Text.AllBlank (shown r.completedAt) := by
  have gap : Text.AllBlank [' ', ' '] := Text.spaces_blank 2
  have start : Text.AllBlank (timeCell r.startedAt) ↔ Text.AllBlank (shown r.startedAt) := padded_blank_iff
  have completion : Text.AllBlank (timeCell r.completedAt) ↔ Text.AllBlank (shown r.completedAt) := padded_blank_iff
  unfold times
  simp only [Text.AllBlank, List.forall_mem_append] at gap start completion ⊢
  rw [start, completion]
  exact ⟨fun blank => ⟨blank.1.1.2, blank.2⟩, fun blank => ⟨⟨⟨gap, blank.1⟩, gap⟩, blank.2⟩⟩

theorem painted_line {r : Row} {color : String} (painted : color? r.status = some color) :
    r.line true = r.lead ++ (color.toList ++ (padded 12 r.status.text.toList ++ (Text.plain.toList ++
      Text.trimEnd r.times))) := by
  have solid : Text.Solid Text.plain.toList := by decide
  have shown : ¬Text.AllBlank (Text.plain.toList ++ r.times) := by
    intro blank
    exact absurd (blank '\x1b' (List.mem_append_left _ (by decide))) (by decide)
  have split : r.lead ++ (statusCell r.status true ++ r.times) =
      (r.lead ++ color.toList ++ padded 12 r.status.text.toList) ++ (Text.plain.toList ++ r.times) := by
    rw [status_cell_painted painted]
    simp only [List.append_assoc]
  rw [line_parts, split, Text.trim_end_behind_shown shown, Text.trim_end_front solid]
  simp only [List.append_assoc]

structure Painted (s : Status) (color : String) : Prop where
  solid : Text.Solid s.text.toList
  present : 0 < s.text.toList.length
  short : s.text.toList.length < 12
  listed : color.toList ∈ Text.codes
  notPlain : color.toList ≠ Text.plain.toList

theorem painted_iff {s : Status} {color : String} :
    color? s = some color ↔ s = .completed ∧ color = Text.green ∨ s = .inProgress ∧ color = Text.yellow := by
  cases s <;> simp [color?, eq_comm]

theorem color_painted {s : Status} {color : String} (painted : color? s = some color) : Painted s color := by
  rcases painted_iff.1 painted with ⟨rfl, rfl⟩ | ⟨rfl, rfl⟩ <;>
    exact ⟨by decide, by decide, by decide, by decide, by decide⟩

-- Where something is shown behind the status, its padding stays in the line without colors as well.
theorem line_leftover {r : Row} {color : String} (painted : color? r.status = some color) :
    r.line false ++ r.leftover = r.lead ++ (padded 12 r.status.text.toList ++ Text.trimEnd r.times) := by
  have colored : r.status = .completed ∨ r.status = .inProgress := colored_iff.2 (by simp [painted])
  by_cases blank : Text.AllBlank r.times
  · have ends : r.EndsInColor := ⟨colored, times_blank_iff.1 blank⟩
    have shown : ¬Text.AllBlank r.status.text.toList := by
      intro all
      obtain ⟨c, member⟩ := List.exists_mem_of_length_pos (color_painted painted).present
      exact absurd (all c member) (by simp [(color_painted painted).solid c member])
    have bare : r.line false = r.lead ++ r.status.text.toList := by
      rw [line_parts, status_cell_plain, ← List.append_assoc, Text.trim_end_behind_blank blank, padded,
        ← List.append_assoc, Text.trim_end_behind_blank (Text.spaces_blank _), Text.trim_end_behind_shown shown,
        Text.trim_end_solid ((color_painted painted).solid)]
    rw [bare, leftover, if_pos ends, Text.trim_end_blank blank, padded]
    simp
  · have apart : ¬r.EndsInColor := fun ends => blank (times_blank_iff.2 ends.2)
    rw [line_parts, status_cell_plain, ← List.append_assoc, Text.trim_end_behind_shown blank, leftover, if_neg apart]
    simp

theorem leftover_bare {r : Row} (bare : color? r.status = none) : r.leftover = [] := by
  refine if_neg fun ends => ?_
  exact colored_iff.1 ends.1 bare

theorem leftover_nil_iff {r : Row} : r.leftover = [] ↔ ¬r.EndsInColor := by
  constructor
  · intro none ends
    obtain ⟨color, painted⟩ := Option.ne_none_iff_exists'.1 (colored_iff.1 ends.1)
    rw [leftover, if_pos ends, List.replicate_eq_nil_iff] at none
    have short := (color_painted painted).short
    omega
  · intro apart
    exact if_neg apart

def marks (r : Row) : List (List Char) :=
  match color? r.status with
  | some color => [color.toList, Text.plain.toList]
  | none => []

-- The codes stand around the padded status, and nothing else in the line has a part of one.
def ColoredBy (code : String) (r : Row) : Prop :=
  ∃ rest, Text.Unescaped (r.lead ++ padded 12 r.status.text.toList ++ rest) ∧
    r.line true = r.lead ++ (code.toList ++ (padded 12 r.status.text.toList ++ (Text.plain.toList ++ rest)))

theorem escape_foreign : Foreign '\x1b' := by
  constructor <;> decide

theorem lead_lacks {mark : Char} (foreign : Foreign mark) (r : Row) : mark ∉ r.lead := by
  intro member
  rcases List.mem_append.1 member with name | gap
  · exact name_lacks foreign r.number name
  · simp [foreign.noSpace] at gap

theorem times_lack {mark : Char} (foreign : Foreign mark) {r : Row} (lacks : ∀ text ∈ r.texts, mark ∉ text.toList) :
    mark ∉ r.times := by
  have cells : r.cells = statusCell r.status false ++ r.times := by simp [cells, times]
  intro member
  exact cells_lack foreign lacks (by simp [cells, member])

theorem lead_unescaped (r : Row) : Text.Unescaped r.lead := lead_lacks escape_foreign r

section

variable {r : Row} (unescaped : ∀ text ∈ r.texts, Text.Unescaped text.toList)
include unescaped

theorem status_unescaped : Text.Unescaped (padded 12 r.status.text.toList) :=
  padded_lacks escape_foreign (unescaped _ List.mem_cons_self)

theorem times_unescaped : Text.Unescaped (Text.trimEnd r.times) := fun member =>
  times_lack escape_foreign unescaped ((Text.trim_end_prefix _).subset member)

theorem bare_line (bare : color? r.status = none) :
    r.line true = r.line false ∧ Text.Unescaped (r.line false) := by
  refine ⟨?_, line_lacks escape_foreign unescaped⟩
  rw [line_parts, line_parts, status_cell_bare bare]

theorem painted_colored {color : String} (painted : color? r.status = some color) : r.ColoredBy color := by
  refine ⟨_, ?_, painted_line painted⟩
  intro member
  rcases List.mem_append.1 member with front | rest
  · exact (List.mem_append.1 front).elim (lead_unescaped r) (status_unescaped unescaped)
  · exact times_unescaped unescaped rest

theorem line_without_codes (rest : List Char) :
    Text.withoutCodes (r.line true ++ rest) = r.line false ++ r.leftover ++ Text.withoutCodes rest := by
  cases painted : color? r.status with
  | none =>
    obtain ⟨same, whole⟩ := bare_line unescaped painted
    rw [same, Text.without_unescaped whole, leftover_bare painted, List.append_nil]
  | some color =>
    have ending : Text.plain.toList ∈ Text.codes := by decide
    rw [painted_line painted, line_leftover painted]
    simp only [List.append_assoc]
    rw [Text.without_unescaped (lead_unescaped r), Text.without_code (color_painted painted).listed,
      Text.without_unescaped (status_unescaped unescaped), Text.without_code ending,
      Text.without_unescaped (times_unescaped unescaped)]

theorem line_occurrences {code : List Char} (listed : code ∈ Text.codes) (rest : List Char) :
    Text.occurrences code (r.line true ++ rest) = Text.occurrences code rest + if code ∈ r.marks then 1 else 0 := by
  cases painted : color? r.status with
  | none =>
    obtain ⟨same, whole⟩ := bare_line unescaped painted
    rw [same, Text.occurrences_unescaped listed whole]
    simp [marks, painted]
  | some color =>
    have ending : Text.plain.toList ∈ Text.codes := by decide
    have apart := (color_painted painted).notPlain
    rw [painted_line painted]
    simp only [List.append_assoc]
    rw [Text.occurrences_unescaped listed (lead_unescaped r),
      Text.occurrences_code listed (color_painted painted).listed,
      Text.occurrences_unescaped listed (status_unescaped unescaped), Text.occurrences_code listed ending,
      Text.occurrences_unescaped listed (times_unescaped unescaped)]
    simp only [marks, painted, List.mem_cons, List.not_mem_nil, or_false]
    by_cases begins : code = color.toList
    · simp [begins, apart]
    · simp [begins]

end

theorem status_cell_unbroken {s : Status} (unbroken : '\n' ∉ s.text.toList) (colors : Bool) :
    '\n' ∉ statusCell s colors := by
  have shown : '\n' ∉ padded 12 s.text.toList := padded_lacks line_feed_foreign unbroken
  cases colors with
  | false => rwa [status_cell_plain]
  | true =>
    cases painted : color? s with
    | none => rwa [status_cell_bare painted, status_cell_plain]
    | some color =>
      have codes : '\n' ∉ color.toList ∧ '\n' ∉ Text.plain.toList := by
        rcases painted_iff.1 painted with ⟨-, rfl⟩ | ⟨-, rfl⟩ <;> decide
      simp [status_cell_painted painted, codes, shown]

theorem line_whole {r : Row} (unbroken : ∀ text ∈ r.texts, '\n' ∉ text.toList) (colors : Bool) :
    '\n' ∉ r.line colors := by
  rw [line_parts]
  intro member
  rcases List.mem_append.1 ((Text.trim_end_prefix _).subset member) with front | rest
  · exact lead_lacks line_feed_foreign r front
  · rcases List.mem_append.1 rest with status | times
    · exact status_cell_unbroken (unbroken _ List.mem_cons_self) colors status
    · exact times_lack line_feed_foreign unbroken times

theorem line_heads (r : Row) (colors : Bool) : Report.Heads r.number (r.line colors) := by
  have begins : r.line colors = "SPRINT-".toList ++ r.number.digits ++
      Text.trimEnd (' ' :: ' ' :: (statusCell r.status colors ++ r.times)) := by
    have apart : r.lead ++ (statusCell r.status colors ++ r.times) =
        "SPRINT-".toList ++ r.number.digits ++ (' ' :: ' ' :: (statusCell r.status colors ++ r.times)) :=
      List.append_assoc _ _ _
    rw [line_parts, apart, Text.trim_end_front (name_solid r.number)]
  refine ⟨_, by rw [begins, SprintNumber.key_list], ?_⟩
  rcases List.prefix_cons_iff.1 (Text.trim_end_prefix (' ' :: ' ' :: (statusCell r.status colors ++ r.times))) with
    none | ⟨rest, behind, _⟩
  · exact .inl none
  · exact .inr (by rw [behind]; rfl)

end Row

namespace Report

variable {rows : List Row}

theorem table_text (rows : List Row) (colors : Bool) :
    (table rows colors).toList = (headLine ++ '\n' :: rule) ++ rows.flatMap fun r => '\n' :: r.line colors := by
  rw [table, String.toList_ofList, lines, Text.intercalate_behind, List.flatMap_cons, List.flatMap_map]
  simp

theorem table_lists_colored (unbroken : ∀ r ∈ rows, ∀ text ∈ r.texts, '\n' ∉ text.toList) (colors : Bool) :
    ListsOnce (rows.map Row.number) (table rows colors) :=
  table_lists (fun r member => Row.line_whole (unbroken r member) colors) fun r _ => r.line_heads colors

theorem lengths_with_leftover (rows : List Row) :
    (rows.flatMap fun r => '\n' :: (r.line false ++ r.leftover)).length =
      (rows.flatMap fun r => '\n' :: r.line false).length + (rows.flatMap Row.leftover).length := by
  induction rows with
  | nil => rfl
  | cons r rows ih =>
    simp only [List.flatMap_cons, List.length_append, List.length_cons, ih]
    omega

theorem front_unescaped : Text.Unescaped (headLine ++ '\n' :: rule) := by
  unfold Text.Unescaped
  decide

section

variable (unescaped : ∀ r ∈ rows, ∀ text ∈ r.texts, Text.Unescaped text.toList)
include unescaped

theorem table_without_codes : Text.withoutCodes (table rows true).toList =
    (headLine ++ '\n' :: rule) ++ rows.flatMap fun r => '\n' :: (r.line false ++ r.leftover) := by
  rw [table_text, Text.without_unescaped front_unescaped]
  congr 1
  induction rows with
  | nil => rw [List.flatMap_nil, List.flatMap_nil, Text.withoutCodes]
  | cons r rows ih =>
    obtain ⟨first, others⟩ := List.forall_mem_cons.1 unescaped
    have feed : Text.Unescaped ['\n'] := by
      unfold Text.Unescaped
      decide
    rw [List.flatMap_cons, List.flatMap_cons, ← ih others, List.cons_append, ← List.singleton_append,
      Text.without_unescaped feed, r.line_without_codes first]
    simp

theorem table_occurrences {code : List Char} (listed : code ∈ Text.codes) :
    Text.occurrences code (table rows true).toList = rows.countP (code ∈ ·.marks) := by
  rw [table_text, Text.occurrences_unescaped listed front_unescaped]
  induction rows with
  | nil => rfl
  | cons r rows ih =>
    obtain ⟨first, others⟩ := List.forall_mem_cons.1 unescaped
    have feed : Text.Unescaped ['\n'] := by
      unfold Text.Unescaped
      decide
    rw [List.flatMap_cons, List.cons_append, ← List.singleton_append, Text.occurrences_unescaped listed feed,
      r.line_occurrences first listed, ih others, List.countP_cons]
    simp

theorem same_without_codes_iff :
    Text.withoutCodes (table rows true).toList = (table rows false).toList ↔ ∀ r ∈ rows, ¬r.EndsInColor := by
  rw [table_without_codes unescaped, table_text, List.append_cancel_left_eq]
  constructor
  · intro same r member
    have lengths := lengths_with_leftover rows
    rw [same, Nat.left_eq_add, List.length_eq_zero_iff, List.flatMap_eq_nil_iff] at lengths
    exact Row.leftover_nil_iff.1 (lengths r member)
  · intro apart
    rw [List.flatMap, List.flatMap]
    refine congrArg _ (List.map_congr_left fun r member => ?_)
    rw [Row.leftover_nil_iff.2 (apart r member), List.append_nil]

theorem colors_add_codes :
    Text.withoutCodes (table rows true).toList =
      ['\n'].intercalate (headLine :: rule :: rows.map fun r => r.line false ++ r.leftover) ∧
    (Text.withoutCodes (table rows true).toList = (table rows false).toList ↔ ∀ r ∈ rows, ¬r.EndsInColor) ∧
    (∀ r ∈ rows, (r.status = .completed → r.ColoredBy Text.green) ∧
      (r.status = .inProgress → r.ColoredBy Text.yellow) ∧
      (r.status ≠ .completed → r.status ≠ .inProgress →
        r.line true = r.line false ∧ Text.Unescaped (r.line false))) ∧
    Text.occurrences Text.green.toList (table rows true).toList = rows.countP (·.status = .completed) ∧
    Text.occurrences Text.yellow.toList (table rows true).toList = rows.countP (·.status = .inProgress) ∧
    Text.occurrences Text.plain.toList (table rows true).toList =
      rows.countP fun r => r.status = .completed ∨ r.status = .inProgress := by
  refine ⟨?_, same_without_codes_iff unescaped, fun r member => ⟨?_, ?_, ?_⟩, ?_, ?_, ?_⟩
  · rw [table_without_codes unescaped, Text.intercalate_behind, List.flatMap_cons, List.flatMap_map]
    simp
  · intro completed
    exact Row.painted_colored (unescaped r member) (Row.painted_iff.2 (.inl ⟨completed, rfl⟩))
  · intro begun
    exact Row.painted_colored (unescaped r member) (Row.painted_iff.2 (.inr ⟨begun, rfl⟩))
  · intro unfinished waiting
    have bare := Decidable.not_not.1 fun colored => (Row.colored_iff.2 colored).elim unfinished waiting
    exact Row.bare_line (unescaped r member) bare
  all_goals
    rw [table_occurrences unescaped (by decide)]
    refine List.countP_congr fun r _ => ?_
    cases status : r.status <;> simp [Row.marks, Row.color?, status] <;> decide

end

-- Blanks alone on either side of a shown time, a time longer than its column, a status that has no color.
def coloredRows : List Row :=
  [⟨⟨11, by decide⟩, .completed, some "2024-01-01T00:00:00Z", some " "⟩,
    ⟨⟨2000, by decide⟩, .inProgress, some "", some "before the end of the next year"⟩,
    ⟨⟨13, by decide⟩, .other "on hold", some "", some ""⟩, ⟨⟨14, by decide⟩, .completed, none, none⟩]

theorem colored_rows_alike : (∀ r ∈ coloredRows, ∀ text ∈ r.texts, Text.Unescaped text.toList) ∧
    Text.withoutCodes (table coloredRows true).toList = (table coloredRows false).toList ∧
    Text.occurrences Text.green.toList (table coloredRows true).toList = 2 := by
  have unescaped : ∀ r ∈ coloredRows, ∀ text ∈ r.texts, Text.Unescaped text.toList := by
    unfold Text.Unescaped
    decide +kernel
  have apart : ∀ r ∈ coloredRows, ¬r.EndsInColor := by decide +kernel
  obtain ⟨_, alike, _, completed, _⟩ := colors_add_codes unescaped
  exact ⟨unescaped, alike.2 apart, completed⟩

-- The padding of the status is trimmed without colors, and stays between the codes with them.
theorem padding_left_in_color :
    ¬∀ rows : List Row, (∀ r ∈ rows, ∀ text ∈ r.texts, Text.Unescaped text.toList) →
      Text.withoutCodes (table rows true).toList = (table rows false).toList := by
  intro alike
  have unescaped : ∀ r ∈ [(⟨⟨1, by decide⟩, .completed, some "", some ""⟩ : Row)], ∀ text ∈ r.texts,
      Text.Unescaped text.toList := by
    unfold Text.Unescaped
    decide +kernel
  have apart := (same_without_codes_iff unescaped).1 (alike _ unescaped)
  exact apart _ List.mem_cons_self (by decide +kernel)

end Report

end SprintLedger
