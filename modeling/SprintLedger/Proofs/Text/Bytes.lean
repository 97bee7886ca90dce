set_option autoImplicit false

namespace SprintLedger

theorem from_utf8_text (text : String) : String.fromUTF8? text.toUTF8 = some text := by
  unfold String.fromUTF8?
  have valid : text.toUTF8.IsValidUTF8 := text.isValidUTF8
  rw [dif_pos valid]
  rfl

theorem from_utf8_iff {bytes : ByteArray} {text : String} :
    String.fromUTF8? bytes = some text ↔ bytes = text.toUTF8 := by
  constructor
  · intro read
    unfold String.fromUTF8? at read
    split at read
    · rw [← Option.some.inj read]
      rfl
    · cases read
  · rintro rfl
    exact from_utf8_text text

theorem text_size_le (cs : List Char) : (String.ofList cs).utf8ByteSize ≤ 4 * cs.length := by
  induction cs with
  | nil => exact Nat.le_refl 0
  | cons c cs ih =>
    have split : String.ofList (c :: cs) = String.singleton c ++ String.ofList cs := by
      apply String.toList_injective
      simp
    have first := c.utf8Size_le_four
    rw [split, String.utf8ByteSize_append, String.utf8ByteSize_singleton, List.length_cons]
    omega

theorem text_bytes (s : String) : s.toUTF8.data.toList = s.toList.flatMap String.utf8EncodeChar := by
  have encoded : s.toUTF8 = s.toList.utf8Encode := by simp [String.toUTF8]
  rw [encoded, List.utf8Encode, List.toList_data_toByteArray]

theorem size_cases (v : Nat) : v ≤ 0x7f ∨ (0x7f < v ∧ v ≤ 0x7ff) ∨ (0x7ff < v ∧ v ≤ 0xffff) ∨ 0xffff < v := by
  omega

-- The first byte tells how many there are, more for a later character; where it is the same the bytes
-- are digits to the base 64.
theorem char_bytes_less {c d : Char} (less : c < d) (xs ys : List UInt8) :
    String.utf8EncodeChar c ++ xs < String.utf8EncodeChar d ++ ys := by
  have order : c.val.toNat < d.val.toNat := less
  have top : d.val.toNat < 0x110000 := by
    rcases d.valid with low | ⟨_, high⟩
    · exact Nat.lt_trans low (by decide)
    · exact high
  unfold String.utf8EncodeChar
  generalize c.val.toNat = m at *
  generalize d.val.toNat = n at *
  have quotient (k : Nat) : k / 4096 = k / 64 / 64 ∧ k / 262144 = k / 64 / 64 / 64 := by omega
  simp only [(quotient m).1, (quotient m).2, (quotient n).1, (quotient n).2]
  rcases size_cases m with h | h | h | h <;> rcases size_cases n with h' | h' | h' | h' <;>
    simp (disch := omega) only [if_pos, if_neg, List.cons_append, List.nil_append, List.cons_lt_cons_iff,
      UInt8.lt_iff_toNat_lt, ← UInt8.toNat_inj, UInt8.toNat_ofNat', Nat.mod_eq_of_lt] <;>
    omega

theorem char_bytes_eq {c d : Char} {xs ys : List UInt8}
    (same : String.utf8EncodeChar c ++ xs = String.utf8EncodeChar d ++ ys) : c = d := by
  rcases Std.lt_trichotomy c d with less | equal | greater
  · exact absurd (same ▸ char_bytes_less less xs ys) (List.lt_irrefl _)
  · exact equal
  · exact absurd (same ▸ char_bytes_less greater ys xs) (List.lt_irrefl _)

theorem list_bytes_less {cs ds : List Char} (less : cs < ds) :
    cs.flatMap String.utf8EncodeChar < ds.flatMap String.utf8EncodeChar := by
  induction cs generalizing ds with
  | nil =>
    cases ds with
    | nil => cases less
    | cons d ds =>
      have some : String.utf8EncodeChar d ≠ [] := String.utf8EncodeChar_ne_nil
      obtain ⟨byte, bytes, encoded⟩ := List.exists_cons_of_ne_nil some
      rw [List.flatMap_nil, List.flatMap_cons, encoded]
      exact List.nil_lt_cons byte _
  | cons c cs ih =>
    cases ds with
    | nil => cases less
    | cons d ds =>
      rw [List.flatMap_cons, List.flatMap_cons]
      rcases List.cons_lt_cons_iff.1 less with first | ⟨rfl, rest⟩
      · exact char_bytes_less first _ _
      · exact List.append_left_lt (ih rest)

theorem text_less_iff_bytes {s t : String} : s < t ↔ s.toUTF8.data.toList < t.toUTF8.data.toList := by
  rw [text_bytes, text_bytes]
  constructor
  · exact list_bytes_less
  · intro less
    rcases Std.lt_trichotomy s t with smaller | rfl | greater
    · exact smaller
    · exact absurd less (List.lt_irrefl _)
    · exact absurd less (List.lt_asymm (list_bytes_less greater))

theorem list_bytes_prefix {cs ds : List Char} {rest : List UInt8}
    (same : cs.flatMap String.utf8EncodeChar ++ rest = ds.flatMap String.utf8EncodeChar) : cs <+: ds := by
  induction cs generalizing ds with
  | nil => exact List.nil_prefix
  | cons c cs ih =>
    rw [List.flatMap_cons, List.append_assoc] at same
    cases ds with
    | nil => exact absurd (List.append_eq_nil_iff.1 same).1 String.utf8EncodeChar_ne_nil
    | cons d ds =>
      rw [List.flatMap_cons] at same
      obtain rfl := char_bytes_eq same
      exact (List.cons_prefix_cons).2 ⟨rfl, ih (List.append_cancel_left same)⟩

theorem text_begins {text whole : String} (cut : text.toUTF8.data.toList <+: whole.toUTF8.data.toList) :
    text.toList <+: whole.toList := by
  obtain ⟨rest, split⟩ := cut
  rw [text_bytes, text_bytes] at split
  exact list_bytes_prefix split

end SprintLedger
