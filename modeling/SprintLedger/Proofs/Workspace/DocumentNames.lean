import SprintLedger.Proofs.Sprint.NumberTexts
import SprintLedger.Proofs.Workspace.Warnings

set_option autoImplicit false

namespace SprintLedger

-- Decimal digits between two fixed texts, whose number may be too great for a sprint.
def NamesNumber (value : Nat) (name : String) : Prop :=
  ∃ digits, digits ≠ [] ∧ (∀ c ∈ digits, c.isDigit = true) ∧ Nat.ofDigitChars 10 digits 0 = value ∧
    name = "SPRINT-" ++ .ofList digits ++ ".md"

theorem names_digits {value : Nat} {name : String} (names : NamesNumber value name) :
    ∃ digits, documentDigits? name.toList = some digits ∧ digits ≠ [] ∧ (∀ c ∈ digits, c.isDigit = true) ∧
      Nat.ofDigitChars 10 digits 0 = value := by
  obtain ⟨digits, present, numeric, denoted, rfl⟩ := names
  have decimals : ∀ c ∈ digits, Text.isDecimal c = true := fun c member => Text.digit_decimal (numeric c member)
  exact ⟨digits, document_digits_iff.2 ⟨present, decimals, by simp⟩, present, numeric, denoted⟩

theorem names_number_iff {value : Nat} {name : String} : NamesNumber value name ↔
    ∃ ds, documentDigits? name.toList = some ds ∧ SprintNumber.Denotes (.ofList ds) value := by
  refine ⟨?_, ?_⟩
  · intro names
    obtain ⟨digits, shaped, present, numeric, denoted⟩ := names_digits names
    exact ⟨digits, shaped, [], [], digits, [], nofun, .inl rfl, present, numeric, denoted, nofun, by simp⟩
  · intro found
    obtain ⟨ds, shaped, denoted⟩ := found
    obtain ⟨_, decimals, shape⟩ := document_digits_iff.1 shaped
    have solid : Text.Solid ds := fun c member => Text.decimal_solid (decimals c member)
    have unsigned : ds.head? ≠ some '+' := by
      intro plus
      have sign := decimals '+' (List.mem_of_mem_head? plus)
      revert sign
      decide
    rw [SprintNumber.denotes_iff, String.toList_ofList, Text.trim_solid solid, SprintNumber.signed_bare unsigned] at denoted
    obtain ⟨present, numeric, value⟩ := denoted
    exact ⟨ds, present, numeric, value, String.toList_injective (by simpa using shape)⟩

theorem document_name_none {name : String} (none : ∀ v ≤ 4294967295, ¬NamesNumber v name) :
    SprintNumber.ofDocumentName? name = .none := by
  cases read : SprintNumber.ofDocumentName? name with
  | none => rfl
  | some n =>
    have small := n.inRange
    exact absurd (SprintNumber.of_document_name_iff.1 read) (none n.value (by omega))

namespace Path

def last? (p : Path) : Option String := (p.steps.2.getLast?).map String.ofList

theorem join_ends {name : Path} (dir : Path) (ordinary : Ordinary name.toList) :
    ∃ front, (dir.join name).segments = front ++ [name.toList] := by
  by_cases present : dir = ""
  · have joined : dir.join name = name := by
      rw [join, name_relative ordinary, present]
      simp
    exact ⟨[], by rw [joined, segments, name_segments ordinary]; rfl⟩
  · obtain ⟨front, _, _, _, joined⟩ := join_segments present ordinary
    exact ⟨front, joined⟩

theorem last_join {name : Path} (dir : Path) (ordinary : Ordinary name.toList) :
    (dir.join name).last? = some name := by
  obtain ⟨front, ends⟩ := join_ends dir ordinary
  have kept : (front ++ [name.toList]).filter (fun s => s ≠ [] && s ≠ ['.']) =
      front.filter (fun s => s ≠ [] && s ≠ ['.']) ++ [name.toList] := by
    simp [ordinary.present, ordinary.notHere]
  rw [last?, steps, ends, kept]
  dsimp only
  by_cases here : (front ++ [name.toList]).head? = some ['.']
  · rw [if_pos here, ← List.cons_append, List.getLast?_concat, Option.map_some, String.ofList_toList]
  · rw [if_neg here, List.getLast?_concat, Option.map_some, String.ofList_toList]

end Path

namespace Workspace

theorem recognises_document_names :
    (∀ name n, SprintNumber.ofDocumentName? name = some n ↔ NamesNumber n.value name ∧ n.value ≤ 4294967295) ∧
    (∀ name, (∀ v ≤ 4294967295, ¬NamesNumber v name) → SprintNumber.ofDocumentName? name = none) ∧
    (∀ value name, NamesNumber value name ↔
      ∃ ds, documentDigits? name.toList = some ds ∧ SprintNumber.Denotes (.ofList ds) value) ∧
    (∀ n : SprintNumber, SprintNumber.ofDocumentName? n.documentName = some n) ∧
    ∀ (w : Workspace) (n : SprintNumber), ∃ name, (w.documentPath n).last? = some name ∧
      SprintNumber.ofDocumentName? name = some n := by
  have own (n : SprintNumber) : SprintNumber.ofDocumentName? n.documentName = some n :=
    SprintNumber.of_document_name_iff.2 n.document_name_names
  refine ⟨fun name n => ?_, fun name => document_name_none, fun value name => names_number_iff, own, fun w n => ?_⟩
  · have small := n.inRange
    rw [SprintNumber.of_document_name_iff]
    exact ⟨fun names => ⟨names, by omega⟩, And.left⟩
  · exact ⟨n.documentName, Path.last_join _ (document_ordinary n.document_name_names), own n⟩

theorem misshapen_names {name : String} (misshapen : documentDigits? name.toList = none) (value : Nat) :
    ¬NamesNumber value name := by
  intro names
  obtain ⟨digits, shaped, _⟩ := names_digits names
  rw [misshapen] at shaped
  cases shaped

-- Each of these passes one of the two readers, or would without its last character or its last digit.
theorem near_names_refused :
    SprintNumber.ofDocumentName? "SPRINT-0042.md" = some ⟨42, by decide⟩ ∧
    (SprintNumber.ofText? "+42\n" = some ⟨42, by decide⟩ ∧ SprintNumber.ofDocumentName? "SPRINT-+42\n.md" = none) ∧
    (documentDigits? "SPRINT-\u0664\u0662.md".toList = some ['\u0664', '\u0662'] ∧
      SprintNumber.ofDocumentName? "SPRINT-\u0664\u0662.md" = none) ∧
    SprintNumber.ofDocumentName? "SPRINT-42.md\n" = none ∧
    SprintNumber.ofDocumentName? "SPRINT-4294967296.md" = none := by
  obtain ⟨accepts, refuses, both, _, _⟩ := recognises_document_names
  have padded : NamesNumber 42 "SPRINT-0042.md" := ⟨['0', '0', '4', '2'], by simp, List.all_eq_true.1 rfl, rfl, rfl⟩
  have great : SprintNumber.Denotes "4294967296" 4294967296 :=
    ⟨[], [], "4294967296".toList, [], nofun, .inl rfl, by simp, List.all_eq_true.1 (by decide), by decide, nofun, by simp⟩
  have shaped : documentDigits? "SPRINT-\u0664\u0662.md".toList = some ['\u0664', '\u0662'] := by decide
  refine ⟨(accepts _ _).2 ⟨padded, by decide⟩, ⟨by decide, refuses _ fun v _ => misshapen_names (by decide) v⟩,
    ⟨shaped, refuses _ fun v _ names => ?_⟩, refuses _ fun v _ => misshapen_names (by decide) v,
    refuses _ fun v small names => ?_⟩
  · obtain ⟨digits, found, _, numeric, _⟩ := names_digits names
    rw [shaped] at found
    obtain rfl := Option.some.inj found
    exact absurd (numeric '\u0664' List.mem_cons_self) (by decide)
  · obtain ⟨ds, found, denoted⟩ := (both _ _).1 names
    obtain rfl : "4294967296".toList = ds := Option.some.inj found
    have same := SprintNumber.denotes_unique denoted great
    omega

end Workspace

end SprintLedger
