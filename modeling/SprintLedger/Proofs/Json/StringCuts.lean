import SprintLedger.Proofs.Json.NumberCuts
import SprintLedger.Proofs.Json.Strings

set_option autoImplicit false

namespace SprintLedger.Json

variable {α : Type}

theorem read_keyword_cut {word cs : List Char} (cut : Begins cs word) : readKeyword word cs = .error .truncated := by
  induction word generalizing cs with
  | nil => exact absurd cut begins_nil
  | cons w word ih =>
    rcases begins_cons cut with rfl | ⟨cs', rfl, behind⟩
    · rfl
    · rw [readKeyword, if_pos rfl, ih behind]

theorem read_literal_cut {word cs : List Char} (a : α) (cut : Begins cs word) :
    readLiteral word a cs = .error .truncated := by
  rw [readLiteral, read_keyword_cut cut]
  rfl

theorem hex_digit_ascii {c : Char} {n : Nat} (value : hexValue? c = some n) : c.utf8Size = 1 := by
  have small : c.toNat ≤ 127 := by
    unfold hexValue? at value
    by_cases digit : c.isDigit = true
    · exact Nat.le_trans (Char.isDigit_iff_toNat.1 digit).2 (by decide)
    rw [if_neg digit] at value
    by_cases lower : 'a' ≤ c ∧ c ≤ 'f'
    · exact Nat.le_trans lower.2 (by decide)
    rw [if_neg lower] at value
    by_cases upper : 'A' ≤ c ∧ c ≤ 'F'
    · exact Nat.le_trans upper.2 (by decide)
    · rw [if_neg upper] at value
      cases value
  exact if_pos small

theorem ascii_size {cs : List Char} (ascii : ∀ c ∈ cs, c.utf8Size = 1) : (String.ofList cs).utf8ByteSize = cs.length := by
  induction cs with
  | nil => rfl
  | cons c cs ih =>
    obtain ⟨first, rest⟩ := List.forall_mem_cons.1 ascii
    have split : String.ofList (c :: cs) = String.singleton c ++ String.ofList cs := by
      apply String.toList_injective
      simp
    rw [split, String.utf8ByteSize_append, String.utf8ByteSize_singleton, ih rest, first, List.length_cons, Nat.add_comm]

-- The digits that are left are too few in characters and in bytes.
theorem read_hex_four_cut {n : Nat} {digits cs : List Char} (four : HexFour n digits) (cut : Begins cs digits) :
    readHexFour cs = .error .truncated := by
  obtain ⟨a, b, c, d, w, x, y, z, rfl, ha, hb, hc, hd, _⟩ := four
  have ascii : ∀ e ∈ cs, e.utf8Size = 1 := by
    intro e member
    have digit := begins_mem cut member
    simp only [List.mem_cons, List.not_mem_nil, or_false] at digit
    rcases digit with rfl | rfl | rfl | rfl
    · exact hex_digit_ascii ha
    · exact hex_digit_ascii hb
    · exact hex_digit_ascii hc
    · exact hex_digit_ascii hd
  have short : cs.length < 4 := begins_length cut
  have size := ascii_size ascii
  unfold readHexFour
  split
  · simp only [List.length_cons] at short
    omega
  · rw [size, if_pos short]

theorem read_trailing_half_cut {m n : Nat} {digits cs : List Char} (four : HexFour n digits)
    (cut : Begins cs ('\\' :: 'u' :: digits)) : readTrailingHalf m cs = .error .truncated := by
  rcases begins_cons cut with rfl | ⟨cs₁, rfl, slash⟩
  · rfl
  rcases begins_cons slash with rfl | ⟨cs₂, rfl, unicode⟩
  · rfl
  · simp [readTrailingHalf, read_hex_four_cut four unicode]

theorem leading_not_trailing {m : Nat} (leading : isLeading m = true) : isTrailing m = false := by
  simp only [isLeading, isTrailing, Bool.and_eq_true, decide_eq_true_eq, Bool.and_eq_false_iff,
    decide_eq_false_iff_not] at leading ⊢
  omega

theorem escape_unicode (cs : List Char) : escape.run ('u' :: cs) = readCodePoint cs := by
  simp [escape, escapeWith, simpleEscape?]

theorem escape_cut {c : Char} {part cs : List Char} (spelled : Escaped c ('\\' :: part)) (cut : Begins cs part) :
    escape.run cs = .error .truncated := by
  cases spelled with
  | plain _ _ backslash => exact absurd rfl backslash
  | letter c e known =>
    rcases begins_cons cut with rfl | ⟨_, _, none⟩
    · rfl
    · exact absurd none begins_nil
  | unit n digits four trailing leading =>
    rcases begins_cons cut with rfl | ⟨cs₁, rfl, fourCut⟩
    · rfl
    · rw [escape_unicode, readCodePoint, read_hex_four_cut four fourCut]
  | pair m n first second high low leading trailing =>
    rcases begins_cons cut with rfl | ⟨cs₁, rfl, pairCut⟩
    · rfl
    rw [escape_unicode, readCodePoint]
    rcases begins_append pairCut with highCut | ⟨cs₂, rfl, lowCut⟩
    · rw [read_hex_four_cut high highCut]
    · simp only [read_hex_four_complete high, leading_not_trailing leading, leading, if_true,
        read_trailing_half_cut low lowCut, Bool.false_eq_true, if_false]

theorem read_body_nil : readBody escape id [] = .error .truncated := by
  simp [readBody]

theorem read_body_short {cs : List Char} (short : escape.run cs = .error .truncated) :
    readBody escape id ('\\' :: cs) = .error .truncated := by
  rw [readBody, if_neg (by decide), if_pos rfl]
  split
  · simp_all
  · simp_all

theorem read_escaped_cut {c : Char} {part cs : List Char} (spelled : Escaped c part) (cut : Begins cs part) :
    readBody escape id cs = .error .truncated := by
  have escaped {tail : List Char} (spelled : Escaped c ('\\' :: tail)) (cut : Begins cs ('\\' :: tail)) :
      readBody escape id cs = .error .truncated := by
    rcases begins_cons cut with rfl | ⟨cs', rfl, behind⟩
    · exact read_body_nil
    · exact read_body_short (escape_cut spelled behind)
  cases spelled with
  | plain _ quote backslash control =>
    rcases begins_cons cut with rfl | ⟨_, _, none⟩
    · exact read_body_nil
    · exact absurd none begins_nil
  | letter c e known => exact escaped (.letter c e known) cut
  | unit n digits four trailing leading => exact escaped (.unit n digits four trailing leading) cut
  | pair m n first second high low leading trailing =>
    exact escaped (.pair m n first second high low leading trailing) cut

theorem read_body_cut {as body cs : List Char} (spelled : Quoted as body) (cut : Begins cs body) :
    readBody escape id cs = .error .truncated := by
  induction spelled generalizing cs with
  | done =>
    rcases begins_cons cut with rfl | ⟨_, _, none⟩
    · exact read_body_nil
    · exact absurd none begins_nil
  | more c as part rest head _ ih =>
    rcases begins_append cut with headCut | ⟨cs', rfl, behind⟩
    · exact read_escaped_cut head headCut
    · rw [read_body_escaped head, ih behind]
      rfl

theorem string_cut {s : String} {body cs : List Char} (spelled : Quoted s.toList body) (cut : Begins cs body) :
    string.run cs = .error .truncated := by
  simp only [string, read_body_cut spelled cut]
  rfl

end SprintLedger.Json
