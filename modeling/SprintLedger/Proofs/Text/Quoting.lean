import SprintLedger.Proofs.Json.Strings
import SprintLedger.Proofs.Text.Blanks
import SprintLedger.Text.Quoted

set_option autoImplicit false

namespace SprintLedger.Text

def IsControl (c : Char) : Prop := c.toNat < 0x20 ∨ 0x7f ≤ c.toNat ∧ c.toNat < 0xa0

-- What the next character is read as: a part of the text, the letter of an escape, the brace behind the letter u, or a
-- digit of a code point, the digits in front of it having this value.
inductive Mode where
  | text
  | letter
  | brace
  | digit (value : Option Nat)

def letterEscapes : List (Char × Char) :=
  [('0', '\x00'), ('t', '\t'), ('n', '\n'), ('r', '\r'), ('"', '"'), ('\\', '\\')]

def ofCodePoint? (n : Nat) : Option Char := if n.isValidChar then some (.ofNat n) else none

def push : Option Char → Option (List Char × List Char) → Option (List Char × List Char)
  | some c, some (cs, rest) => some (c :: cs, rest)
  | _, _ => none

-- The text as far as the closing quote, and what is left behind it.
def unquoteFrom : Mode → List Char → Option (List Char × List Char)
  | _, [] => none
  | .text, c :: cs =>
    if c = '"' then some ([], cs)
    else if c = '\\' then unquoteFrom .letter cs
    else push (some c) (unquoteFrom .text cs)
  | .letter, c :: cs =>
    if c = 'u' then unquoteFrom .brace cs
    else push (letterEscapes.lookup c) (unquoteFrom .text cs)
  | .brace, c :: cs => if c = '{' then unquoteFrom (.digit none) cs else none
  | .digit value, c :: cs =>
    if c = '}' then push (value.bind ofCodePoint?) (unquoteFrom .text cs)
    else match Json.hexValue? c with
      | some d => unquoteFrom (.digit (some (16 * value.getD 0 + d))) cs
      | none => none

def unquote : List Char → Option (List Char × List Char)
  | '"' :: cs => unquoteFrom .text cs
  | _ => none

theorem of_code_point (c : Char) : ofCodePoint? c.toNat = some c := by
  have valid : c.toNat.isValidChar := c.valid
  rw [ofCodePoint?, if_pos valid, Char.ofNat_toNat]

theorem quote_char_cases (c : Char) :
    (∃ e, (e, c) ∈ letterEscapes ∧ quoteChar c = ['\\', e]) ∨
      (c ≠ '"' ∧ c ≠ '\\' ∧ isPrintable c = true ∧ quoteChar c = [c]) ∨ quoteChar c = escapeCodePoint c := by
  unfold quoteChar
  split
  · rename_i same
    subst same
    exact .inl ⟨'0', by decide, rfl⟩
  split
  · rename_i same
    subst same
    exact .inl ⟨'t', by decide, rfl⟩
  split
  · rename_i same
    subst same
    exact .inl ⟨'n', by decide, rfl⟩
  split
  · rename_i same
    subst same
    exact .inl ⟨'r', by decide, rfl⟩
  split
  · rename_i same
    subst same
    exact .inl ⟨'"', by decide, rfl⟩
  split
  · rename_i same
    subst same
    exact .inl ⟨'\\', by decide, rfl⟩
  split
  · rename_i quote backslash printable
    exact .inr (.inl ⟨quote, backslash, printable, rfl⟩)
  · exact .inr (.inr rfl)

theorem unquote_plain {c : Char} (quote : c ≠ '"') (backslash : c ≠ '\\') (rest : List Char) :
    unquoteFrom .text (c :: rest) = push (some c) (unquoteFrom .text rest) := by
  rw [unquoteFrom, if_neg quote, if_neg backslash]

theorem letter_escape_read : ∀ row ∈ letterEscapes, row.1 ≠ 'u' ∧ letterEscapes.lookup row.1 = some row.2 := by decide

theorem unquote_letter {c e : Char} (escaped : (e, c) ∈ letterEscapes) (rest : List Char) :
    unquoteFrom .text ('\\' :: e :: rest) = push (some c) (unquoteFrom .text rest) := by
  obtain ⟨unicode, read⟩ := letter_escape_read _ escaped
  rw [unquoteFrom, if_neg (by decide), if_pos rfl, unquoteFrom, if_neg unicode, read]

theorem unquote_digit {d : Nat} (small : d < 16) (value : Option Nat) (rest : List Char) :
    unquoteFrom (.digit value) (Nat.digitChar d :: rest) =
      unquoteFrom (.digit (some (16 * value.getD 0 + d))) rest := by
  have read := Json.hex_value_digit_char d small
  have brace : Nat.digitChar d ≠ '}' := by
    intro closed
    rw [closed] at read
    cases read
  rw [unquoteFrom, if_neg brace, read]

theorem unquote_digits (n : Nat) (rest : List Char) :
    unquoteFrom (.digit none) (Nat.toDigits 16 n ++ rest) = unquoteFrom (.digit (some n)) rest := by
  induction n using Nat.strongRecOn generalizing rest with
  | _ n ih =>
    by_cases small : n < 16
    · rw [Nat.toDigits_of_lt_base small, List.singleton_append, unquote_digit small]
      simp
    · have last : n % 16 < 16 := Nat.mod_lt n (by decide)
      rw [Nat.toDigits_of_base_le (by decide) (Nat.le_of_not_lt small), List.append_assoc, List.singleton_append,
        ih (n / 16) (by omega), unquote_digit last, Option.getD_some, Nat.div_add_mod]

theorem unquote_code_point (c : Char) (rest : List Char) :
    unquoteFrom .text (escapeCodePoint c ++ rest) = push (some c) (unquoteFrom .text rest) := by
  have opened : unquoteFrom .text (escapeCodePoint c ++ rest) =
      unquoteFrom (.digit none) (Nat.toDigits 16 c.toNat ++ '}' :: rest) := by
    simp [escapeCodePoint, unquoteFrom]
  rw [opened, unquote_digits, unquoteFrom, if_pos rfl, Option.bind_some, of_code_point]

-- However a character is written, it is read back before what is behind it is looked at.
theorem unquote_char (c : Char) (rest : List Char) :
    unquoteFrom .text (quoteChar c ++ rest) = push (some c) (unquoteFrom .text rest) := by
  rcases quote_char_cases c with ⟨e, escaped, written⟩ | ⟨quote, backslash, -, written⟩ | written
  · rw [written]
    exact unquote_letter escaped rest
  · rw [written]
    exact unquote_plain quote backslash rest
  · rw [written]
    exact unquote_code_point c rest

theorem unquote_chars (cs rest : List Char) :
    unquoteFrom .text (cs.flatMap quoteChar ++ '"' :: rest) = some (cs, rest) := by
  induction cs with
  | nil => rfl
  | cons c cs ih => rw [List.flatMap_cons, List.append_assoc, unquote_char, ih, push]

theorem unquote_quote (cs rest : List Char) : unquote (quote cs ++ rest) = some (cs, rest) := by
  have opened : quote cs ++ rest = '"' :: (cs.flatMap quoteChar ++ '"' :: rest) := by simp [quote]
  rw [opened, unquote, unquote_chars]

theorem printable_visible {c : Char} (printable : isPrintable c = true) : ¬IsControl c := by
  intro control
  have hidden : isHidden c = true := by
    rcases control with low | ⟨above, below⟩
    · exact in_ranges_iff.2 ⟨(0x0, 0x1f), by decide, by omega⟩
    · exact in_ranges_iff.2 ⟨(0x7f, 0xa0), by decide, by omega⟩
  rw [isPrintable, hidden] at printable
  cases printable

def isAscii (c : Char) : Bool := inRanges [(0x20, 0x7e)] c

theorem ascii_printable {c : Char} (ascii : isAscii c = true) : isPrintable c = true := by
  have visible : isHidden c = false := ranges_apart (by decide +kernel) ascii
  have base : isExtender c = false := ranges_apart (by decide +kernel) ascii
  rw [isPrintable, visible, base]
  rfl

theorem all_printable {cs : List Char} (ascii : cs.all isAscii = true) : ∀ c ∈ cs, isPrintable c = true :=
  fun c member => ascii_printable (List.all_eq_true.1 ascii c member)

theorem letters_printable : ∀ c ∈ letterEscapes.map Prod.fst, isPrintable c = true := all_printable (by decide)

theorem hex_digit_printable {d : Nat} (small : d < 16) : isPrintable (Nat.digitChar d) = true := by
  have ascii : ∀ d < 16, isAscii (Nat.digitChar d) = true := by decide
  exact ascii_printable (ascii d small)

theorem hex_digits_printable {n : Nat} {d : Char} (member : d ∈ Nat.toDigits 16 n) : isPrintable d = true := by
  induction n using Nat.strongRecOn with
  | _ n ih =>
    by_cases small : n < 16
    · rw [Nat.toDigits_of_lt_base small, List.mem_singleton] at member
      exact member ▸ hex_digit_printable small
    · rw [Nat.toDigits_of_base_le (by decide) (Nat.le_of_not_lt small)] at member
      rcases List.mem_append.1 member with front | last
      · exact ih (n / 16) (by omega) front
      · exact List.mem_singleton.1 last ▸ hex_digit_printable (Nat.mod_lt n (by decide))

theorem code_point_printable {c d : Char} (member : d ∈ escapeCodePoint c) : isPrintable d = true := by
  have opening : ∀ d ∈ ['\\', 'u', '{'], isPrintable d = true := all_printable (by decide)
  have closing : ∀ d ∈ ['}'], isPrintable d = true := all_printable (by decide)
  rcases List.mem_append.1 member with front | closed
  · rcases List.mem_append.1 front with opened | digits
    · exact opening d opened
    · exact hex_digits_printable digits
  · exact closing d closed

theorem quote_char_printable {c d : Char} (member : d ∈ quoteChar c) : isPrintable d = true := by
  have backslash : isPrintable '\\' = true := ascii_printable (by decide)
  rcases quote_char_cases c with ⟨e, escaped, written⟩ | ⟨-, -, printable, written⟩ | written
  · rw [written] at member
    rcases List.mem_cons.1 member with rfl | letter
    · exact backslash
    · exact List.mem_singleton.1 letter ▸ letters_printable e (List.mem_map_of_mem escaped)
  · rw [written] at member
    exact List.mem_singleton.1 member ▸ printable
  · exact code_point_printable (written ▸ member)

theorem quote_printable {cs : List Char} {d : Char} (member : d ∈ quote cs) : isPrintable d = true := by
  have mark : isPrintable '"' = true := ascii_printable (by decide)
  rcases List.mem_append.1 member with front | closed
  · rcases List.mem_cons.1 front with rfl | inside
    · exact mark
    · obtain ⟨c, -, written⟩ := List.mem_flatMap.1 inside
      exact quote_char_printable written
  · exact List.mem_singleton.1 closed ▸ mark

end SprintLedger.Text
