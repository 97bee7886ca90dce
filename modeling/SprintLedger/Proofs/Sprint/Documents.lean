import SprintLedger.Proofs.Sprint.Numbers
import SprintLedger.Proofs.Text.Bytes
import SprintLedger.Sprint.Documents

set_option autoImplicit false

namespace SprintLedger

def NamesDocument (n : SprintNumber) (name : String) : Prop :=
  ∃ digits, digits ≠ [] ∧ (∀ c ∈ digits, c.isDigit = true) ∧ Nat.ofDigitChars 10 digits 0 = n.value ∧
    name = "SPRINT-" ++ .ofList digits ++ ".md"

theorem document_digits_iff {cs ds : List Char} :
    documentDigits? cs = some ds ↔
      ds ≠ [] ∧ (∀ c ∈ ds, Text.isDecimal c = true) ∧ cs = "SPRINT-".toList ++ ds ++ ".md".toList := by
  constructor
  · intro found
    unfold documentDigits? at found
    split at found
    · rename_i rest
      dsimp only at found
      split at found
      · rename_i shape
        obtain ⟨present, suffix⟩ := shape
        obtain rfl := Option.some.inj found
        refine ⟨present, List.all_eq_true.1 List.all_takeWhile, ?_⟩
        have split : rest = rest.takeWhile Text.isDecimal ++ ['.', 'm', 'd'] := by
          rw [← suffix, List.takeWhile_append_dropWhile]
        simpa using split
      · cases found
    · cases found
  · rintro ⟨present, decimals, rfl⟩
    have stop : Text.isDecimal '.' = false := by decide
    simp [documentDigits?, List.takeWhile_append_of_pos decimals, List.dropWhile_append_of_pos decimals, stop,
      present]

namespace SprintNumber

theorem of_document_name_iff {n : SprintNumber} {name : String} :
    ofDocumentName? name = some n ↔ NamesDocument n name := by
  unfold ofDocumentName?
  rw [Option.bind_eq_some_iff]
  constructor
  · rintro ⟨ds, found, read⟩
    obtain ⟨_, decimals, shape⟩ := document_digits_iff.1 found
    rw [of_text_decimals decimals] at read
    obtain ⟨present, digits, value⟩ := of_digits_iff.1 read
    refine ⟨ds, present, digits, value, String.toList_injective ?_⟩
    simpa using shape
  · rintro ⟨ds, present, digits, value, rfl⟩
    have decimals : ∀ c ∈ ds, Text.isDecimal c = true := fun c member => Text.digit_decimal (digits c member)
    refine ⟨ds, document_digits_iff.2 ⟨present, decimals, by simp⟩, ?_⟩
    rw [of_text_decimals decimals]
    exact of_digits_iff.2 ⟨present, digits, value⟩

theorem document_name_names (n : SprintNumber) : NamesDocument n n.documentName :=
  ⟨n.digits, Text.decimal_ne_nil _ _, fun _ => Text.decimal_digit, Text.of_digits_decimal 3 n.value, rfl⟩

theorem mem_insert_once {n k : SprintNumber} {ms : List SprintNumber} :
    k ∈ insertOnce n ms ↔ k = n ∨ k ∈ ms := by
  induction ms with
  | nil => simp [insertOnce]
  | cons m ms ih =>
    by_cases less : n.value < m.value
    · rw [insertOnce, if_pos less, List.mem_cons]
    · rw [insertOnce, if_neg less]
      by_cases same : n = m
      · simp [same]
      · rw [if_neg same, List.mem_cons, ih, List.mem_cons]
        exact or_left_comm

theorem insert_once_ascending {n : SprintNumber} {ms : List SprintNumber}
    (ascending : ms.Pairwise (·.value < ·.value)) : (insertOnce n ms).Pairwise (·.value < ·.value) := by
  induction ms with
  | nil => exact List.pairwise_singleton _ _
  | cons m ms ih =>
    obtain ⟨above, rest⟩ := List.pairwise_cons.1 ascending
    by_cases before : n.value < m.value
    · rw [insertOnce, if_pos before]
      refine List.pairwise_cons.2 ⟨List.forall_mem_cons.2 ⟨before, fun k member => ?_⟩, ascending⟩
      exact Nat.lt_trans before (above k member)
    · rw [insertOnce, if_neg before]
      by_cases same : n = m
      · rwa [if_pos same]
      · have apart : n.value ≠ m.value := fun value => same (value_injective value)
        have after : m.value < n.value := by omega
        rw [if_neg same]
        refine List.pairwise_cons.2 ⟨fun k member => ?_, ih rest⟩
        rcases mem_insert_once.1 member with rfl | later
        · exact after
        · exact above k later

theorem mem_insert_all {ns : List SprintNumber} {k : SprintNumber} : k ∈ ns.foldr insertOnce [] ↔ k ∈ ns := by
  induction ns with
  | nil => rfl
  | cons n ns ih => rw [List.foldr_cons, mem_insert_once, ih, List.mem_cons]

theorem insert_all_ascending (ns : List SprintNumber) : (ns.foldr insertOnce []).Pairwise (·.value < ·.value) := by
  induction ns with
  | nil => exact List.Pairwise.nil
  | cons n ns ih => exact insert_once_ascending ih

end SprintNumber

-- Something that is no directory and has a name of the right form.
def DirectoryEntry.Documents (e : DirectoryEntry) (n : SprintNumber) : Prop :=
  e.isDirectory = false ∧ ∃ name : String, e.name = name.toUTF8 ∧ NamesDocument n name

theorem sprint_iff {e : DirectoryEntry} {n : SprintNumber} : e.sprint? = some n ↔ e.Documents n := by
  unfold DirectoryEntry.sprint? DirectoryEntry.Documents
  cases e.isDirectory with
  | true => simp
  | false => simp [Option.bind_eq_some_iff, from_utf8_iff, SprintNumber.of_document_name_iff]

theorem mem_documented {entries : List DirectoryEntry} {n : SprintNumber} :
    n ∈ documentedSprints entries ↔ ∃ e ∈ entries, e.Documents n := by
  rw [documentedSprints, SprintNumber.mem_insert_all, List.mem_filterMap]
  simp only [sprint_iff]

theorem documented_ascending (entries : List DirectoryEntry) :
    (documentedSprints entries).Pairwise (·.value < ·.value) :=
  SprintNumber.insert_all_ascending _

end SprintLedger
