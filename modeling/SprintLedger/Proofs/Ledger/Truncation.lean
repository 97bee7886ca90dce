import SprintLedger.Proofs.Json.Truncation
import SprintLedger.Proofs.Ledger.RoundTrip

set_option autoImplicit false

namespace SprintLedger

open Json (Begins Exhausts FieldExhausts Printed Value)

namespace Entry

theorem field_exhausts (depth : Nat) : FieldExhausts (Draft.field depth) (TakesMember depth) := by
  intro d key
  unfold Draft.field TakesMember
  by_cases status : key = "status"
  · simp only [if_pos status]
    cases given : d.status with
    | none => simpa using Json.optional_text_exhausts.map _
    | some _ => simp
  by_cases started : key = "started_at"
  · simp only [if_neg status, if_pos started]
    cases given : d.startedAt with
    | none => simpa using Json.optional_text_exhausts.map _
    | some _ => simp
  by_cases completed : key = "completed_at"
  · simp only [if_neg status, if_neg started, if_pos completed]
    cases given : d.completedAt with
    | none => simpa using Json.optional_text_exhausts.map _
    | some _ => simp
  · simp only [if_neg status, if_neg started, if_neg completed]
    exact (Json.value_exhausts depth).map _

theorem reader_exhausts (depth : Nat) : Exhausts (reader depth) Printed (ReadsAs depth) where
  short blank printed meant cut := by
    obtain ⟨ms, d, rfl, steps, rfl⟩ := meant
    have exhausts := (Json.record_exhausts (field_reads depth) (field_exhausts depth) .blank).map Draft.finish
    exact exhausts.short blank printed ⟨d, ⟨ms, rfl, steps⟩, rfl⟩ cut

end Entry

namespace Ledger

theorem entries_exhausts : Exhausts Draft.entries Printed EntriesReadAs := by
  have exhausts : FieldExhausts
      (fun es key => .ok ((Entry.reader (Json.maxDepth - 3)).map (SortedMap.insert es key))) TakesEntry :=
    fun es key => (Entry.reader_exhausts _).map (SortedMap.insert es key)
  exact Json.record_exhausts insert_entry_reads exhausts .empty

theorem field_exhausts : FieldExhausts Draft.field TakesMember := by
  intro d key
  unfold Draft.field TakesMember
  by_cases sprints : key = "sprints"
  · simp only [if_pos sprints]
    cases given : d.sprints with
    | none => simpa using entries_exhausts.map _
    | some _ => simp
  · simp only [if_neg sprints]
    exact (Json.value_exhausts _).map _

theorem pretty_members_close (level : Nat) (ms : List (String × Value)) :
    ∃ body, Value.prettyMembers level ms = body ++ ['}'] := by
  induction ms with
  | nil => exact ⟨Json.newLine level, rfl⟩
  | cons m ms ih =>
    obtain ⟨k, v⟩ := m
    obtain ⟨body, close⟩ := ih
    rw [Value.prettyMembers, close]
    exact ⟨_, (List.append_assoc _ _ _).symm⟩

-- The text of the file up to its closing brace.
def openText (l : Ledger) : String := .ofList (l.toValue.pretty 0).dropLast

theorem pretty_open (l : Ledger) : l.toValue.pretty 0 = l.openText.toList ++ ['}'] := by
  obtain ⟨body, close⟩ := pretty_members_close 0 l.extra.toList
  have shape : ∃ body, l.toValue.pretty 0 = body ++ ['}'] := by
    rw [toValue, members_cons, Value.pretty, close]
    exact ⟨_, (List.append_assoc _ _ _).symm⟩
  obtain ⟨body, shape⟩ := shape
  rw [openText, String.toList_ofList, shape, List.dropLast_concat]

theorem file_text_open (l : Ledger) : l.fileText = l.openText ++ "\x7d\n" := by
  apply String.toList_injective
  simp [fileText, pretty_open]

theorem closed_text_read {l : Ledger} (representable : l.Representable) :
    ofText (l.openText ++ "\x7d") = .ok l.reread := by
  have whole : l.openText ++ "\x7d" = .ofList (l.toValue.pretty 0) := by
    apply String.toList_injective
    simp [pretty_open]
  rw [whole]
  exact pretty_text_read representable

theorem open_text_cut {l : Ledger} {cs : List Char} (cut : cs <+: l.openText.toList) :
    Begins cs (l.toValue.pretty 0) := by
  obtain ⟨rest, split⟩ := cut
  rw [pretty_open, ← split, List.append_assoc]
  cases rest with
  | nil => exact ⟨'}', [], rfl⟩
  | cons c rest => exact ⟨c, rest ++ ['}'], rfl⟩

theorem cut_text_truncated {l : Ledger} (representable : l.Representable) {text : String}
    (cut : text.toList <+: l.openText.toList) : ofText text = .error .truncated := by
  obtain ⟨ms, d, object, steps, _⟩ := representable_read (reread_representable representable)
  have printed : Printed (.object ms) (l.toValue.pretty 0) := ⟨l.toValue, 0, by rw [to_value_reread, object], rfl⟩
  have short := Json.record_cut field_reads field_exhausts Json.blank_nil printed steps (open_text_cut cut)
  have run : reader.run text.toList = .error .truncated := by
    show ((Json.record Draft.field .blank).run text.toList).map Draft.finish = _
    rw [short]
    rfl
  rw [ofText, Json.Reader.whole, run]

end Ledger

end SprintLedger
