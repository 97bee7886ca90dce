import SprintLedger.Proofs.Sprint.Numbers
import SprintLedger.Proofs.Text.Lines
import SprintLedger.Report

set_option autoImplicit false

namespace SprintLedger

namespace Report

-- A line that begins with the name of the sprint, which is all or is set off from the rest.
def Heads (n : SprintNumber) (line : List Char) : Prop :=
  ∃ rest, line = "SPRINT-".toList ++ n.key.toList ++ rest ∧ (rest = [] ∨ rest.head? = some ' ')

def linesOf (text : String) : List (List Char) := text.toList.splitOn '\n'

-- After the head and the rule there is one line for each sprint, in the same order, and no other.
def ListsOnce (ns : List SprintNumber) (text : String) : Prop :=
  (linesOf text).length = ns.length + 2 ∧
    ∀ i n, ns[i]? = some n → ∃ line, (linesOf text)[i + 2]? = some line ∧ Heads n line

end Report

namespace Row

def shown (time : Option String) : List Char := (time.getD "-").toList

def cells (r : Row) : List Char :=
  statusCell r.status false ++ [' ', ' '] ++ timeCell r.startedAt ++ [' ', ' '] ++ timeCell r.completedAt

theorem name_solid (n : SprintNumber) : Text.Solid ("SPRINT-".toList ++ n.digits) := by
  have word : Text.Solid "SPRINT-".toList := by decide
  intro c member
  rcases List.mem_append.1 member with inWord | digit
  · exact word c inWord
  · exact Text.decimal_text_solid 3 n.value c digit

theorem line_split (r : Row) :
    r.line false = "SPRINT-".toList ++ r.number.digits ++ Text.trimEnd (' ' :: ' ' :: r.cells) := by
  rw [← Text.trim_end_front (name_solid r.number)]
  simp [line, cells]

-- A character that a row shows only where one of its texts does.
structure Foreign (mark : Char) : Prop where
  noSpace : mark ≠ ' '
  noWord : mark ∉ "SPRINT-".toList
  noDigit : mark.isDigit = false

theorem line_feed_foreign : Foreign '\n' := by
  constructor <;> decide

variable {mark : Char}

theorem name_lacks (foreign : Foreign mark) (n : SprintNumber) : mark ∉ "SPRINT-".toList ++ n.digits := by
  intro member
  rcases List.mem_append.1 member with word | digit
  · exact foreign.noWord word
  · have numeric : mark.isDigit = true := Text.decimal_digit digit
    rw [foreign.noDigit] at numeric
    cases numeric

theorem line_first (r : Row) : ∃ first more, (r.line false).splitOn '\n' = first :: more ∧ Report.Heads r.number first := by
  obtain ⟨first, more, split, part⟩ :=
    Text.split_front (name_lacks line_feed_foreign r.number) (Text.trimEnd (' ' :: ' ' :: r.cells))
  refine ⟨_, more, by rw [line_split, split], first, ?_, ?_⟩
  · rw [SprintNumber.key_list]
  · rcases List.prefix_cons_iff.1 (part.trans (Text.trim_end_prefix _)) with none | ⟨rest, begins, _⟩
    · exact .inl none
    · exact .inr (by rw [begins]; rfl)

def texts (r : Row) : List String := r.status.text :: (r.startedAt.toList ++ r.completedAt.toList)

theorem padded_lacks (foreign : Foreign mark) {width : Nat} {cs : List Char} (lacks : mark ∉ cs) :
    mark ∉ padded width cs := by
  simp [padded, lacks, foreign.noSpace]

theorem status_cell_plain (s : Status) : statusCell s false = padded 12 s.text.toList := by
  cases s <;> simp [statusCell, color?, Text.paint]

theorem time_lacks (foreign : Foreign mark) {time : Option String} (lacks : ∀ text ∈ time.toList, mark ∉ text.toList) :
    mark ∉ timeCell time := by
  refine padded_lacks foreign ?_
  cases time with
  | none => exact fun dash => foreign.noWord (List.mem_singleton.1 dash ▸ by decide)
  | some text => exact lacks text (List.mem_singleton_self text)

theorem cells_lack (foreign : Foreign mark) {r : Row} (lacks : ∀ text ∈ r.texts, mark ∉ text.toList) :
    mark ∉ ' ' :: ' ' :: r.cells := by
  obtain ⟨status, times⟩ := List.forall_mem_cons.1 lacks
  obtain ⟨started, completed⟩ := List.forall_mem_append.1 times
  simp [cells, status_cell_plain, padded_lacks foreign status, time_lacks foreign started, time_lacks foreign completed,
    foreign.noSpace]

theorem line_lacks (foreign : Foreign mark) {r : Row} (lacks : ∀ text ∈ r.texts, mark ∉ text.toList) :
    mark ∉ r.line false := by
  rw [line_split]
  intro member
  rcases List.mem_append.1 member with name | rest
  · exact name_lacks foreign r.number name
  · exact cells_lack foreign lacks ((Text.trim_end_prefix _).subset rest)

theorem line_unbroken {r : Row} (unbroken : ∀ text ∈ r.texts, '\n' ∉ text.toList) : '\n' ∉ r.line false :=
  line_lacks line_feed_foreign unbroken

end Row

namespace Report

variable {colors : Bool}

theorem table_lines (rows : List Row) :
    linesOf (table rows colors) = headLine :: rule :: rows.flatMap fun r => (r.line colors).splitOn '\n' := by
  have head : headLine.splitOn '\n' = [headLine] := List.splitOn_eq_singleton (by decide)
  have line : rule.splitOn '\n' = [rule] := List.splitOn_eq_singleton (by decide)
  have present : lines rows colors ≠ [] := List.cons_ne_nil _ _
  rw [linesOf, table, String.toList_ofList, Text.split_intercalate present, lines, List.flatMap_cons, List.flatMap_cons,
    head, line, List.flatMap_map]
  rfl

theorem table_length (rows : List Row) :
    (linesOf (table rows false)).length = rows.length + 2 + (rows.flatMap fun r => r.line false).count '\n' := by
  rw [table_lines]
  induction rows with
  | nil => rfl
  | cons r rows ih =>
    simp only [List.flatMap_cons, List.length_cons, List.length_append, Text.split_length, List.count_append] at ih ⊢
    omega

theorem table_unbroken {rows : List Row} (unbroken : ∀ r ∈ rows, '\n' ∉ r.line colors) :
    linesOf (table rows colors) = headLine :: rule :: rows.map fun r => r.line colors := by
  rw [table_lines, List.map_eq_flatMap, List.flatMap, List.flatMap]
  have single := List.map_congr_left fun r member => List.splitOn_eq_singleton (unbroken r member)
  rw [single]

theorem table_lists {rows : List Row} (unbroken : ∀ r ∈ rows, '\n' ∉ r.line colors)
    (heads : ∀ r ∈ rows, Heads r.number (r.line colors)) : ListsOnce (rows.map Row.number) (table rows colors) := by
  have lines := table_unbroken unbroken
  refine ⟨?_, ?_⟩
  · simp [lines]
  · intro i n found
    obtain ⟨r, there, rfl⟩ := Option.map_eq_some_iff.1 (List.getElem?_map .. ▸ found)
    exact ⟨r.line colors, by simp [lines, there], heads r (List.mem_of_getElem? there)⟩

theorem table_lists_iff (rows : List Row) :
    ListsOnce (rows.map Row.number) (table rows false) ↔ ∀ r ∈ rows, '\n' ∉ r.line false := by
  constructor
  · rintro ⟨length, _⟩ r member broken
    rw [table_length, List.length_map] at length
    have positive : 0 < (rows.flatMap fun r => r.line false).count '\n' :=
      List.count_pos_iff.2 (List.mem_flatMap.2 ⟨r, member, broken⟩)
    omega
  · intro unbroken
    refine table_lists unbroken fun r member => ?_
    obtain ⟨first, more, split, heads⟩ := r.line_first
    rw [List.splitOn_eq_singleton (unbroken r member)] at split
    obtain ⟨rfl, _⟩ := List.cons.inj split
    exact heads

end Report

end SprintLedger
