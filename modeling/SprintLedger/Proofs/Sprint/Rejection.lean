import SprintLedger.Failure
import SprintLedger.Proofs.Text.Quoting

set_option autoImplicit false

namespace SprintLedger.SprintNumber

-- The quoted text ends at its own closing quote, whatever is written behind it.
def Names (message text : String) : Prop :=
  ∃ quoted, message.toList =
      "Invalid sprint number: ".toList ++ quoted ++ " (expected a number like 001)".toList ∧
    ∀ rest, Text.unquote (quoted ++ rest) = some (text.toList, rest)

theorem names_unique {message text text' : String} (first : Names message text) (second : Names message text') :
    text = text' := by
  obtain ⟨quoted, written, read⟩ := first
  obtain ⟨quoted', written', read'⟩ := second
  have same : quoted = quoted' :=
    List.append_cancel_left (List.append_cancel_right (written.symm.trans written'))
  have both := (read []).symm.trans (same ▸ read' [])
  exact String.toList_inj.1 (congrArg Prod.fst (Option.some.inj both))

theorem invalid_number_message (text : String) : (Failure.invalidNumber text).message.toList =
    "Invalid sprint number: ".toList ++ Text.quote text.toList ++ " (expected a number like 001)".toList := by
  have quoted : (String.ofList (Text.quote text.toList)).toList = Text.quote text.toList := String.toList_ofList
  have written : (Failure.invalidNumber text).message =
      "Invalid sprint number: " ++ .ofList (Text.quote text.toList) ++ " (expected a number like 001)" := rfl
  rw [written, String.toList_append, String.toList_append, quoted]

theorem invalid_number_names (text : String) : Names (Failure.invalidNumber text).message text :=
  ⟨Text.quote text.toList, invalid_number_message text, Text.unquote_quote text.toList⟩

theorem invalid_number_printable (text : String) :
    ∀ c ∈ (Failure.invalidNumber text).message.toList, Text.isPrintable c = true := by
  have front : ∀ c ∈ "Invalid sprint number: ".toList, Text.isPrintable c = true := Text.all_printable (by decide)
  have back : ∀ c ∈ " (expected a number like 001)".toList, Text.isPrintable c = true := Text.all_printable (by decide)
  intro c member
  rw [invalid_number_message, List.mem_append, List.mem_append] at member
  rcases member with (before | quoted) | behind
  · exact front c before
  · exact Text.quote_printable quoted
  · exact back c behind

theorem rejected_failure {text : String} {failure : Failure} (rejected : ofText text = .error failure) :
    failure = .invalidNumber text := by
  unfold ofText at rejected
  split at rejected
  · cases rejected
  · exact (Except.error.inj rejected).symm

theorem rejection_names_text {text : String} {failure : Failure} (rejected : ofText text = .error failure) :
    (∀ c ∈ failure.message.toList, ¬Text.IsControl c) ∧ Names failure.message text ∧
      ∀ text' failure', ofText text' = .error failure' → failure'.message = failure.message → text' = text := by
  obtain rfl := rejected_failure rejected
  refine ⟨fun c member => Text.printable_visible (invalid_number_printable text c member),
    invalid_number_names text, ?_⟩
  intro text' failure' rejected' same
  obtain rfl := rejected_failure rejected'
  exact names_unique (same ▸ invalid_number_names text') (invalid_number_names text)

-- Blanks around it, a quote, a backslash, what looks like an escape, the character that it would stand for, and an
-- accent without its letter.
theorem tangled_text_named :
    ofText " \"\\u\x7b7f\x7d\x7f\u0301\n" = .error (.invalidNumber " \"\\u\x7b7f\x7d\x7f\u0301\n") ∧
      (Failure.invalidNumber " \"\\u\x7b7f\x7d\x7f\u0301\n").message =
        "Invalid sprint number: \" \\\"\\\\u\x7b7f\x7d\\u\x7b7f\x7d\\u\x7b301\x7d\\n\" (expected a number like 001)" ∧
      Names (Failure.invalidNumber " \"\\u\x7b7f\x7d\x7f\u0301\n").message " \"\\u\x7b7f\x7d\x7f\u0301\n" :=
  ⟨rfl, by decide +kernel, (rejection_names_text rfl).2.1⟩

end SprintLedger.SprintNumber
