import SprintLedger.Proofs.Json.NumberTexts
import SprintLedger.Proofs.Text.Decimals

set_option autoImplicit false

namespace SprintLedger.Json

-- The first characters of a text, but not all of them.
def Begins (cs text : List Char) : Prop := ∃ c rest, text = cs ++ c :: rest

theorem begins_nil {cs : List Char} : ¬Begins cs [] := by
  rintro ⟨c, rest, split⟩
  cases cs <;> cases split

theorem begins_cons {cs text : List Char} {d : Char} (cut : Begins cs (d :: text)) :
    cs = [] ∨ ∃ cs', cs = d :: cs' ∧ Begins cs' text := by
  obtain ⟨c, rest, split⟩ := cut
  cases cs with
  | nil => exact .inl rfl
  | cons c' cs =>
    obtain ⟨rfl, tail⟩ := List.cons.inj split
    exact .inr ⟨cs, rfl, c, rest, tail⟩

theorem begins_append {cs front back : List Char} (cut : Begins cs (front ++ back)) :
    Begins cs front ∨ ∃ cs', cs = front ++ cs' ∧ Begins cs' back := by
  induction front generalizing cs with
  | nil => exact .inr ⟨cs, rfl, cut⟩
  | cons d front ih =>
    rcases begins_cons cut with rfl | ⟨cs', rfl, behind⟩
    · exact .inl ⟨d, front, rfl⟩
    · rcases ih behind with ⟨c, rest, rfl⟩ | ⟨cs'', rfl, later⟩
      · exact .inl ⟨c, rest, rfl⟩
      · exact .inr ⟨cs'', rfl, later⟩

theorem begins_mem {cs text : List Char} (cut : Begins cs text) {c : Char} (member : c ∈ cs) : c ∈ text := by
  obtain ⟨d, rest, rfl⟩ := cut
  exact List.mem_append_left _ member

theorem begins_length {cs text : List Char} (cut : Begins cs text) : cs.length < text.length := by
  obtain ⟨d, rest, rfl⟩ := cut
  rw [List.length_append, List.length_cons]
  omega

-- A reader that has come to the end of the text, with or without a result.
def RunsOut {α : Type} (o : Outcome α) : Prop := o = .error .truncated ∨ ∃ a, o = .ok (a, [])

theorem RunsOut.map {α β : Type} {o : Outcome α} (out : RunsOut o) (f : α → β) : RunsOut (o.map f) := by
  rcases out with rfl | ⟨a, rfl⟩
  · exact .inl rfl
  · exact .inr ⟨f a, rfl⟩

theorem digit_text_cut {cs ds : List Char} (digits : DigitText ds) (cut : Begins cs ds) (some : cs ≠ []) :
    DigitText cs := ⟨some, fun c member => digits.2 c (begins_mem cut member)⟩

theorem whole_text_cut {cs ds : List Char} (whole : WholeText ds) (cut : Begins cs ds) (some : cs ≠ []) :
    WholeText cs := by
  refine ⟨digit_text_cut whole.1 cut some, fun zero => ?_⟩
  obtain ⟨c, rest, rfl⟩ := cut
  have head : (cs ++ c :: rest).head? = Option.some '0' := by rwa [List.head?_append_of_ne_nil _ some]
  have length := congrArg List.length (whole.2 head)
  have shorter := List.length_pos_iff.2 some
  rw [List.length_append, List.length_cons, List.length_singleton] at length
  omega

-- Each digit that is cut off leaves at most a tenth.
theorem digits_cut {cs ds : List Char} (cut : Begins cs ds) :
    10 * Nat.ofDigitChars 10 cs 0 ≤ Nat.ofDigitChars 10 ds 0 := by
  obtain ⟨c, rest, rfl⟩ := cut
  have split : Nat.ofDigitChars 10 (cs ++ c :: rest) 0 =
      10 ^ (c :: rest).length * Nat.ofDigitChars 10 cs 0 + Nat.ofDigitChars 10 (c :: rest) 0 := by
    rw [Nat.ofDigitChars_append]
    exact Nat.ofDigitChars_eq_ofDigitChars_zero
  have ten : 10 ≤ 10 ^ (c :: rest).length := Nat.le_self_pow (Nat.succ_ne_zero _) 10
  calc 10 * Nat.ofDigitChars 10 cs 0 ≤ 10 ^ (c :: rest).length * Nat.ofDigitChars 10 cs 0 :=
        Nat.mul_le_mul_right _ ten
    _ ≤ Nat.ofDigitChars 10 (cs ++ c :: rest) 0 := split ▸ Nat.le_add_right _ _

-- What can be read of a numeral that is cut off: it is no longer before the point, and its exponent is
-- gone, negative or at most a tenth.
structure Reduced (n n' : Numeral) : Prop where
  whole : n'.whole.length ≤ n.whole.length
  exponent : n'.exponent.getD 0 ≤ 0 ∨ 10 * n'.exponent.getD 0 ≤ n.exponent.getD 0

def CutNumeral (n : Numeral) (cs : List Char) : Prop :=
  (numeral .truncated).run cs = .error .truncated ∨
    ∃ n', (numeral .truncated).run cs = .ok (n', []) ∧ Reduced n n'

theorem spelled_cut {n : Numeral} {cs : List Char} (n' : Numeral) (spelled : NumeralSpells n' cs)
    (reduced : Reduced n n') : CutNumeral n cs := by
  have read : (numeral .truncated).run (cs ++ []) = .ok (n', []) := numeral_complete spelled nofun
  rw [List.append_nil] at read
  exact .inr ⟨n', read, reduced⟩

theorem numeral_behind_whole {short : Fault} {negative : Bool} {whole rest : List Char} (digits : WholeText whole)
    (stop : NoDigit rest) :
    (numeral short).run (minusText negative ++ (whole ++ rest)) =
      (readFraction short rest).bind fun (fs, r) =>
        (readExponent short r).map fun e => ⟨negative, whole, fs, e⟩ := by
  have unsigned : (whole ++ rest).head? ≠ some '-' := by
    cases spelled : whole with
    | nil => exact absurd spelled digits.1.1
    | cons c ds =>
      have digit : c.isDigit = true := digits.1.2 c (spelled ▸ List.mem_cons_self)
      intro first
      obtain rfl : c = '-' := Option.some.inj first
      exact absurd digit (by decide)
  simp only [numeral, take_minus_text unsigned, read_whole_complete digits stop, Except.bind]

theorem whole_cut {n : Numeral} {cs : List Char} (digits : WholeText n.whole) (cut : Begins cs n.whole) :
    CutNumeral n (minusText n.negative ++ cs) := by
  by_cases empty : cs = []
  · subst empty
    refine .inl ?_
    cases n.negative <;> rfl
  · have spelled : NumeralSpells ⟨n.negative, cs, [], none⟩ (minusText n.negative ++ cs) :=
      ⟨[], whole_text_cut digits cut empty, List.forall_mem_nil _, rfl, by simp [fractionText]⟩
    exact spelled_cut _ spelled ⟨Nat.le_of_lt (begins_length cut), .inl (Int.le_refl 0)⟩

theorem fraction_cut {n : Numeral} {cs : List Char} (digits : WholeText n.whole)
    (behind : ∀ c ∈ n.fraction, c.isDigit = true) (cut : Begins cs (fractionText n.fraction)) :
    CutNumeral n (minusText n.negative ++ (n.whole ++ cs)) := by
  have reduced (fs : List Char) : Reduced n ⟨n.negative, n.whole, fs, none⟩ := ⟨Nat.le_refl _, .inl (Int.le_refl 0)⟩
  by_cases none : n.fraction = []
  · rw [none] at cut
    exact absurd cut begins_nil
  · rw [fractionText, if_neg none] at cut
    rcases begins_cons cut with rfl | ⟨cs', rfl, digitsCut⟩
    · exact spelled_cut ⟨n.negative, n.whole, [], Option.none⟩
        ⟨[], digits, List.forall_mem_nil _, rfl, by simp [fractionText]⟩ (reduced [])
    · by_cases empty : cs' = []
      · subst empty
        refine .inl ?_
        rw [numeral_behind_whole digits (by rintro c ⟨⟩; rfl)]
        rfl
      · refine spelled_cut ⟨n.negative, n.whole, cs', Option.none⟩
          ⟨[], digits, fun c member => behind c (begins_mem digitsCut member), rfl, ?_⟩ (reduced cs')
        simp [fractionText, empty]

theorem exponent_mark_head {mark : Char} {cs : List Char} (known : mark = 'e' ∨ mark = 'E') :
    NoDigit (mark :: cs) ∧ (mark :: cs).head? ≠ some '.' := by
  have letter : mark.isDigit = false ∧ mark ≠ '.' := by rcases known with rfl | rfl <;> decide
  constructor
  · intro c first
    obtain rfl : mark = c := Option.some.inj first
    exact letter.1
  · exact fun first => letter.2 (Option.some.inj first)

theorem bare_exponent_cut {n : Numeral} {mark : Char} {cs : List Char} (digits : WholeText n.whole)
    (behind : ∀ c ∈ n.fraction, c.isDigit = true) (known : mark = 'e' ∨ mark = 'E') (bare : (takeSign cs).2 = []) :
    CutNumeral n (minusText n.negative ++ (n.whole ++ (fractionText n.fraction ++ mark :: cs))) := by
  obtain ⟨stop, point⟩ : NoDigit (mark :: cs) ∧ (mark :: cs).head? ≠ some '.' := exponent_mark_head known
  refine .inl ?_
  rw [numeral_behind_whole digits (fraction_text_head stop), read_fraction_complete behind stop point]
  simp only [Except.bind, readExponent, if_pos known, bare]
  rfl

theorem exponent_cut {n : Numeral} {text cs : List Char} (digits : WholeText n.whole)
    (behind : ∀ c ∈ n.fraction, c.isDigit = true) (spelled : ExponentSpells n.exponent text) (cut : Begins cs text) :
    CutNumeral n (minusText n.negative ++ (n.whole ++ (fractionText n.fraction ++ cs))) := by
  cases present : n.exponent with
  | none =>
    rw [present] at spelled
    obtain rfl : text = [] := spelled
    exact absurd cut begins_nil
  | some e =>
    rw [present] at spelled
    obtain ⟨mark, sign, ds, known, signText, exponentDigits, value, rfl⟩ := spelled
    rcases begins_cons cut with rfl | ⟨cs', rfl, afterMark⟩
    · exact spelled_cut ⟨n.negative, n.whole, n.fraction, none⟩ ⟨[], digits, behind, rfl, by simp⟩
        ⟨Nat.le_refl _, .inl (Int.le_refl 0)⟩
    rcases begins_append afterMark with signCut | ⟨cs'', rfl, digitsCut⟩
    · have bare : (takeSign cs').2 = [] := by
        rcases signText with rfl | rfl | rfl
        · exact absurd signCut begins_nil
        · obtain rfl | ⟨_, _, none⟩ := begins_cons signCut
          · rfl
          · exact absurd none begins_nil
        · obtain rfl | ⟨_, _, none⟩ := begins_cons signCut
          · rfl
          · exact absurd none begins_nil
      exact bare_exponent_cut digits behind known bare
    by_cases empty : cs'' = []
    · subst empty
      have bare : (takeSign (sign ++ [])).2 = [] := by rcases signText with rfl | rfl | rfl <;> rfl
      exact bare_exponent_cut digits behind known bare
    · have tenth := digits_cut digitsCut
      let e' : Int := if sign = ['-'] then -(Nat.ofDigitChars 10 cs'' 0 : Int) else Nat.ofDigitChars 10 cs'' 0
      refine spelled_cut ⟨n.negative, n.whole, n.fraction, some e'⟩
        ⟨_, digits, behind, ⟨mark, sign, cs'', known, signText, digit_text_cut exponentDigits digitsCut empty, rfl, rfl⟩,
          rfl⟩ ⟨Nat.le_refl _, ?_⟩
      rw [present, value, Option.getD_some, Option.getD_some]
      by_cases minus : sign = ['-']
      · simp only [e', if_pos minus]
        omega
      · simp only [e', if_neg minus]
        omega

theorem numeral_cut {n : Numeral} {body cs : List Char} (spelled : NumeralSpells n body) (cut : Begins cs body) :
    CutNumeral n cs := by
  obtain ⟨exponent, digits, behind, exponentSpelled, rfl⟩ := spelled
  rcases begins_append cut with minusCut | ⟨cs₁, rfl, unsigned⟩
  · cases negative : n.negative with
    | false =>
      rw [negative] at minusCut
      exact absurd minusCut begins_nil
    | true =>
      rw [negative] at minusCut
      obtain rfl | ⟨_, _, none⟩ := begins_cons minusCut
      · exact .inl rfl
      · exact absurd none begins_nil
  rcases begins_append unsigned with wholeCut | ⟨cs₂, rfl, rest⟩
  · exact whole_cut digits wholeCut
  rcases begins_append rest with fractionCut | ⟨cs₃, rfl, exponentCut⟩
  · exact fraction_cut digits behind fractionCut
  · exact exponent_cut digits behind exponentSpelled exponentCut

theorem plain_brief {n : Numeral} (whole : n.whole.length ≤ 20) (plain : n.exponent = none) : Brief n := by
  refine ⟨whole, ?_⟩
  rw [plain]
  decide

theorem number_text_brief (n : Number) : ∃ m, NumeralSpells m n.text ∧ Brief m := by
  cases n with
  | integer n word =>
    have small : n.natAbs < 10 ^ 20 := by
      obtain ⟨low, high⟩ := word
      omega
    have length := (Nat.length_toDigits_le_iff (by decide) (by decide)).2 small
    exact ⟨_, integer_spells n word, plain_brief length rfl⟩
  | double x =>
    obtain ⟨d, text, written, ⟨m, spelled, _, brief⟩, _⟩ := double_text_writes x
    exact ⟨m, by rwa [Number.text, written], brief⟩

-- A digit in front of the point or an exponent more counts for at most a power of ten.
theorem numeral_value_below {n : Numeral} (digits : ∀ c ∈ n.whole ++ n.fraction, c.isDigit = true) :
    n.value < 10 ^ (n.whole.length + n.exponent.getD 0) := by
  have below : (n.decimal.digits : ℚ) < 10 ^ (n.whole ++ n.fraction).length := by
    exact_mod_cast Text.digits_below digits
  have place : (n.whole.length + n.exponent.getD 0 : Int) = (n.whole ++ n.fraction).length + n.decimal.exponent := by
    simp only [Numeral.decimal, List.length_append]
    push_cast
    ring
  rw [place, zpow_add₀ (by norm_num), zpow_natCast]
  exact mul_lt_mul_of_pos_right below (by positivity)

theorem reduced_number {n n' : Numeral} (brief : Brief n) (reduced : Reduced n n') (digits : WholeText n'.whole)
    (behind : ∀ c ∈ n'.fraction, c.isDigit = true) : ∃ number, n'.number? = some number := by
  have all : ∀ c ∈ n'.whole ++ n'.fraction, c.isDigit = true := by
    intro c member
    exact (List.mem_append.1 member).elim (digits.1.2 c) (behind c)
  have size : (n'.whole.length + n'.exponent.getD 0 : Int) ≤ 51 := by
    have whole := Nat.le_trans reduced.whole brief.whole
    have great := brief.exponent
    rcases reduced.exponent with gone | tenth <;> omega
  have power : (10 : ℚ) ^ (n'.whole.length + n'.exponent.getD 0 : Int) ≤ 10 ^ (51 : Int) :=
    zpow_le_zpow_right₀ (by norm_num) size
  have bound : (10 : ℚ) ^ (51 : Int) ≤ 2 ^ (1023 : Int) := by
    exact_mod_cast (by decide +kernel : 10 ^ 51 ≤ 2 ^ 1023)
  rw [Numeral.number_exists_iff]
  apply Numeral.small_in_range
  exact ((numeral_value_below all).trans_le (power.trans bound)).le.trans Double.surely_bounds.1.le

theorem number_cut (n : Number) {cs : List Char} (cut : Begins cs n.text) : RunsOut (number.run cs) := by
  obtain ⟨m, spelled, brief⟩ := number_text_brief n
  rcases numeral_cut spelled cut with short | ⟨m', read, reduced⟩
  · refine .inl ?_
    simp only [number, short, Except.bind]
  · obtain ⟨body, ⟨_, digits, behind, _⟩, _⟩ := numeral_sound read
    obtain ⟨number', valued⟩ := reduced_number brief reduced digits behind
    refine .inr ⟨number', ?_⟩
    simp only [number, read, Except.bind, valued]

end SprintLedger.Json
