import SprintLedger.Proofs.Json.Spelling

set_option autoImplicit false

namespace SprintLedger.Json

-- What a number is followed by: nothing that would be read as more of it.
def EndsNumber (rest : List Char) : Prop :=
  ∀ c, rest.head? = some c → c.isDigit = false ∧ c ≠ '.' ∧ c ≠ 'e' ∧ c ≠ 'E'

def NoDigit (rest : List Char) : Prop := ∀ c, rest.head? = some c → c.isDigit = false

theorem ends_number_no_digit {rest : List Char} (ends : EndsNumber rest) : NoDigit rest :=
  fun c first => (ends c first).1

theorem take_digits {ds rest : List Char} (digits : ∀ c ∈ ds, c.isDigit = true) (stop : NoDigit rest) :
    (ds ++ rest).takeWhile Char.isDigit = ds ∧ (ds ++ rest).dropWhile Char.isDigit = rest := by
  rw [List.takeWhile_append_of_pos digits, List.dropWhile_append_of_pos digits]
  cases rest with
  | nil => simp
  | cons c rest =>
    have last : c.isDigit = false := stop c rfl
    simp [last]

theorem read_digits_sound {short : Fault} {cs ds rest : List Char}
    (read : readDigits short cs = .ok (ds, rest)) : DigitText ds ∧ cs = ds ++ rest := by
  unfold readDigits at read
  split at read
  · cases read
  · rename_i c tail
    split at read
    · rename_i digit
      simp only [Except.ok.injEq, Prod.mk.injEq] at read
      obtain ⟨rfl, rfl⟩ := read
      refine ⟨⟨?_, fun d member => ?_⟩, List.takeWhile_append_dropWhile.symm⟩
      · rw [List.takeWhile_cons_of_pos digit]
        simp
      · exact List.all_eq_true.1 (List.all_takeWhile (p := Char.isDigit)) d member
    · cases read

theorem read_digits_complete {short : Fault} {ds rest : List Char} (digits : DigitText ds)
    (stop : NoDigit rest) : readDigits short (ds ++ rest) = .ok (ds, rest) := by
  obtain ⟨taken, left⟩ := take_digits digits.2 stop
  cases ds with
  | nil => exact absurd rfl digits.1
  | cons c ds =>
    have first : c.isDigit = true := digits.2 c (List.mem_cons_self ..)
    rw [List.cons_append] at taken left ⊢
    simp only [readDigits, first, if_true, taken, left]

theorem read_whole_sound {short : Fault} {cs ds rest : List Char}
    (read : readWhole short cs = .ok (ds, rest)) : WholeText ds ∧ cs = ds ++ rest := by
  unfold readWhole at read
  split at read
  · cases read
  · rename_i digitsRead
    obtain ⟨digits, split⟩ := read_digits_sound digitsRead
    split at read
    · cases read
    · rename_i zero
      simp only [Except.ok.injEq, Prod.mk.injEq] at read
      obtain ⟨rfl, rfl⟩ := read
      refine ⟨⟨digits, fun first => ?_⟩, split⟩
      exact Decidable.not_not.mp fun long => zero ⟨first, long⟩

theorem read_whole_complete {short : Fault} {ds rest : List Char} (whole : WholeText ds)
    (stop : NoDigit rest) : readWhole short (ds ++ rest) = .ok (ds, rest) := by
  have single : ¬(ds.head? = some '0' ∧ ds ≠ ['0']) := fun both => both.2 (whole.2 both.1)
  simp only [readWhole, read_digits_complete whole.1 stop, single, if_false]

theorem read_fraction_sound {short : Fault} {cs ds rest : List Char}
    (read : readFraction short cs = .ok (ds, rest)) :
    (∀ c ∈ ds, c.isDigit = true) ∧ cs = fractionText ds ++ rest := by
  unfold readFraction at read
  split at read
  · obtain ⟨digits, rfl⟩ := read_digits_sound read
    exact ⟨digits.2, by simp [fractionText, digits.1]⟩
  · simp only [Except.ok.injEq, Prod.mk.injEq] at read
    obtain ⟨rfl, rfl⟩ := read
    exact ⟨by simp, rfl⟩

theorem read_fraction_complete {short : Fault} {ds rest : List Char}
    (digits : ∀ c ∈ ds, c.isDigit = true) (stop : NoDigit rest) (point : rest.head? ≠ some '.') :
    readFraction short (fractionText ds ++ rest) = .ok (ds, rest) := by
  by_cases empty : ds = []
  · subst empty
    cases rest with
    | nil => rfl
    | cons c rest =>
      have other : c ≠ '.' := fun same => point (congrArg some same)
      simp [fractionText, readFraction, other]
  · rw [fractionText, if_neg empty]
    exact read_digits_complete ⟨empty, digits⟩ stop

theorem read_exponent_sound {short : Fault} {cs rest : List Char} {e : Option Int}
    (read : readExponent short cs = .ok (e, rest)) :
    ∃ text, ExponentSpells e text ∧ cs = text ++ rest := by
  cases cs with
  | nil =>
    simp only [readExponent, Except.ok.injEq, Prod.mk.injEq] at read
    obtain ⟨rfl, rfl⟩ := read
    exact ⟨[], rfl, rfl⟩
  | cons c tail =>
    rw [readExponent] at read
    split at read
    · rename_i mark
      obtain ⟨ds, digitsRead, rfl⟩ := Outcome.map_eq_ok.1 read
      obtain ⟨digits, split⟩ := read_digits_sound digitsRead
      unfold takeSign at split ⊢
      split at split
      · exact ⟨_, ⟨c, ['-'], ds, mark, by simp, digits, rfl, rfl⟩, by simp_all⟩
      · exact ⟨_, ⟨c, ['+'], ds, mark, by simp, digits, rfl, rfl⟩, by simp_all⟩
      · exact ⟨_, ⟨c, [], ds, mark, by simp, digits, rfl, rfl⟩, by simp_all⟩
    · simp only [Except.ok.injEq, Prod.mk.injEq] at read
      obtain ⟨rfl, rfl⟩ := read
      exact ⟨[], rfl, rfl⟩

theorem take_sign_digits {sign ds rest : List Char} (sign_text : sign = [] ∨ sign = ['+'] ∨ sign = ['-'])
    (digits : DigitText ds) :
    takeSign (sign ++ (ds ++ rest)) = (decide (sign = ['-']), ds ++ rest) := by
  rcases sign_text with rfl | rfl | rfl
  · cases ds with
    | nil => exact absurd rfl digits.1
    | cons c ds =>
      have digit : c.isDigit = true := digits.2 c (List.mem_cons_self ..)
      have plus : c ≠ '+' := by
        rintro rfl
        exact absurd digit (by decide)
      have minus : c ≠ '-' := by
        rintro rfl
        exact absurd digit (by decide)
      simp [takeSign, plus, minus]
  · rfl
  · rfl

theorem read_exponent_complete {short : Fault} {e : Option Int} {text rest : List Char}
    (spelled : ExponentSpells e text) (ends : EndsNumber rest) :
    readExponent short (text ++ rest) = .ok (e, rest) := by
  cases e with
  | none =>
    rw [show text = [] from spelled, List.nil_append]
    cases rest with
    | nil => rfl
    | cons c rest =>
      obtain ⟨_, _, lower, upper⟩ := ends c rfl
      rw [readExponent, if_neg (by simp [lower, upper])]
  | some e =>
    obtain ⟨mark, sign, ds, known, sign_text, digits, rfl, rfl⟩ := spelled
    rw [List.cons_append, List.append_assoc, readExponent, if_pos known, take_sign_digits sign_text digits,
      read_digits_complete digits (ends_number_no_digit ends)]
    by_cases minus : sign = ['-'] <;> simp [Outcome.map, minus]

theorem take_minus_text {negative : Bool} {cs : List Char} (first : cs.head? ≠ some '-') :
    takeMinus (minusText negative ++ cs) = (negative, cs) := by
  cases negative with
  | true => rfl
  | false =>
    cases cs with
    | nil => rfl
    | cons c cs =>
      have other : c ≠ '-' := fun same => first (congrArg some same)
      simp [minusText, takeMinus, other]

theorem minus_text_take (cs : List Char) : cs = minusText (takeMinus cs).1 ++ (takeMinus cs).2 := by
  unfold takeMinus
  split <;> rfl

theorem numeral_sound {short : Fault} {cs rest : List Char} {n : Numeral}
    (read : (numeral short).run cs = .ok (n, rest)) :
    ∃ body, NumeralSpells n body ∧ cs = body ++ rest := by
  obtain ⟨⟨ws, r⟩, wholeRead, read⟩ := bind_eq_ok.1 read
  obtain ⟨⟨fs, r'⟩, fractionRead, read⟩ := bind_eq_ok.1 read
  obtain ⟨e, exponentRead, rfl⟩ := Outcome.map_eq_ok.1 read
  obtain ⟨whole, split⟩ := read_whole_sound wholeRead
  obtain ⟨fraction, rfl⟩ := read_fraction_sound fractionRead
  obtain ⟨exponent, spelled, rfl⟩ := read_exponent_sound exponentRead
  refine ⟨_, ⟨exponent, whole, fraction, spelled, rfl⟩, ?_⟩
  calc cs = minusText (takeMinus cs).1 ++ (takeMinus cs).2 := minus_text_take cs
    _ = minusText (takeMinus cs).1 ++ (ws ++ (fractionText fs ++ (exponent ++ rest))) := by rw [split]
    _ = minusText (takeMinus cs).1 ++ (ws ++ (fractionText fs ++ exponent)) ++ rest := by
      simp only [List.append_assoc]

-- What follows the digits of the whole part does not begin with a digit, nor what follows those of
-- the fraction with a point.
theorem exponent_text_head {e : Option Int} {text rest : List Char} (spelled : ExponentSpells e text)
    (ends : EndsNumber rest) : NoDigit (text ++ rest) ∧ (text ++ rest).head? ≠ some '.' := by
  cases e with
  | none =>
    rw [show text = [] from spelled, List.nil_append]
    exact ⟨ends_number_no_digit ends, fun first => (ends '.' first).2.1 rfl⟩
  | some e =>
    obtain ⟨mark, sign, ds, known, _, _, _, rfl⟩ := spelled
    have letter : mark.isDigit = false ∧ mark ≠ '.' := by rcases known with rfl | rfl <;> decide
    constructor
    · intro c first
      obtain rfl : mark = c := Option.some.inj first
      exact letter.1
    · exact fun first => letter.2 (Option.some.inj first)

theorem fraction_text_head {fs cs : List Char} (stop : NoDigit cs) : NoDigit (fractionText fs ++ cs) := by
  by_cases empty : fs = []
  · subst empty
    exact stop
  · rw [fractionText, if_neg empty]
    intro c first
    obtain rfl : '.' = c := Option.some.inj first
    decide

theorem numeral_complete {short : Fault} {n : Numeral} {body rest : List Char}
    (spelled : NumeralSpells n body) (ends : EndsNumber rest) :
    (numeral short).run (body ++ rest) = .ok (n, rest) := by
  obtain ⟨exponent, whole, fraction, exponentSpelled, rfl⟩ := spelled
  obtain ⟨stop, point⟩ := exponent_text_head exponentSpelled ends
  have unsigned : (n.whole ++ (fractionText n.fraction ++ (exponent ++ rest))).head? ≠ some '-' := by
    cases digits : n.whole with
    | nil => exact absurd digits whole.1.1
    | cons c ds =>
      have digit : c.isDigit = true := whole.1.2 c (digits ▸ List.mem_cons_self ..)
      intro first
      obtain rfl : c = '-' := Option.some.inj first
      exact absurd digit (by decide)
  simp only [List.append_assoc, numeral, take_minus_text unsigned,
    read_whole_complete whole (fraction_text_head stop), Except.bind,
    read_fraction_complete fraction stop point, read_exponent_complete exponentSpelled ends, Outcome.map]

theorem number_sound {cs rest : List Char} {n : Number} (read : number.run cs = .ok (n, rest)) :
    ∃ body, NumberSpells n body ∧ cs = body ++ rest := by
  obtain ⟨⟨m, r⟩, numeralRead, valueRead⟩ := bind_eq_ok.1 read
  obtain ⟨body, spelled, rfl⟩ := numeral_sound numeralRead
  simp only at valueRead
  split at valueRead
  · rename_i valued
    simp only [Except.ok.injEq, Prod.mk.injEq] at valueRead
    obtain ⟨rfl, rfl⟩ := valueRead
    exact ⟨body, ⟨m, spelled, valued⟩, rfl⟩
  · cases valueRead

theorem number_complete {n : Number} {body rest : List Char} (spelled : NumberSpells n body)
    (ends : EndsNumber rest) : number.run (body ++ rest) = .ok (n, rest) := by
  obtain ⟨m, numeralSpelled, valued⟩ := spelled
  simp only [number, numeral_complete numeralSpelled ends, Except.bind, valued]

def NumberHead (c : Char) : Prop := c = '-' ∨ c.isDigit = true

instance (c : Char) : Decidable (NumberHead c) := inferInstanceAs (Decidable (c = '-' ∨ c.isDigit = true))

theorem number_head_ne {c d : Char} (head : NumberHead c) (other : ¬NumberHead d) : c ≠ d := by
  rintro rfl
  exact other head

theorem number_head_solid {c : Char} (head : NumberHead c) : isSpace c = false := by
  cases blank : isSpace c with
  | false => rfl
  | true =>
    simp only [isSpace, Bool.or_eq_true, decide_eq_true_eq] at blank
    rcases blank with ((rfl | rfl) | rfl) | rfl <;> exact absurd head (by decide)

theorem numeral_spells_head {n : Numeral} {body : List Char} (spelled : NumeralSpells n body) :
    ∃ c tail, body = c :: tail ∧ NumberHead c := by
  obtain ⟨exponent, whole, _, _, rfl⟩ := spelled
  cases negative : n.negative with
  | true => exact ⟨'-', _, rfl, .inl rfl⟩
  | false =>
    cases digits : n.whole with
    | nil => exact absurd digits whole.1.1
    | cons c ds => exact ⟨c, _, rfl, .inr (whole.1.2 c (digits ▸ List.mem_cons_self ..))⟩

theorem number_spells_head {n : Number} {body : List Char} (spelled : NumberSpells n body) :
    ∃ c tail, body = c :: tail ∧ NumberHead c := by
  obtain ⟨m, numeral, _⟩ := spelled
  exact numeral_spells_head numeral

end SprintLedger.Json
