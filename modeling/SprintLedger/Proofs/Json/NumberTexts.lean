import SprintLedger.Proofs.Json.NumberRange

set_option autoImplicit false

namespace SprintLedger.Json

theorem digits_digit {n : Nat} {c : Char} (member : c ∈ Nat.toDigits 10 n) : c.isDigit = true :=
  Nat.isDigit_of_mem_toDigits (by decide) (by decide) member

theorem digits_text (n : Nat) : DigitText (Nat.toDigits 10 n) :=
  ⟨Nat.toDigits_ne_nil, fun _ => digits_digit⟩

theorem digits_head_zero {n : Nat} (zero : (Nat.toDigits 10 n).head? = some '0') : n = 0 := by
  induction n using Nat.strongRecOn with
  | ind n ih =>
    rw [Nat.toDigits_eq_if (by decide)] at zero
    split at zero
    · rename_i small
      have value := Nat.toNat_digitChar_sub_48_of_lt_ten small
      rw [Option.some.inj zero] at value
      exact value.symm
    · rename_i large
      rw [List.head?_append_of_ne_nil _ Nat.toDigits_ne_nil] at zero
      have none := ih (n / 10) (by omega) zero
      omega

theorem digits_whole (n : Nat) : WholeText (Nat.toDigits 10 n) := by
  refine ⟨digits_text n, fun zero => ?_⟩
  rw [digits_head_zero zero, Nat.toDigits_zero]

theorem positive_head {n : Nat} (positive : 0 < n) : (Nat.toDigits 10 n).head? ≠ some '0' :=
  fun zero => positive.ne' (digits_head_zero zero)

theorem whole_of_head {cs : List Char} (digits : DigitText cs) (head : cs.head? ≠ some '0') : WholeText cs :=
  ⟨digits, fun zero => absurd zero head⟩

-- A numeral with few digits in front of the point, and no great exponent.
structure Brief (n : Numeral) : Prop where
  whole : n.whole.length ≤ 20
  exponent : n.exponent.getD 0 ≤ 310

def Writes (negative : Bool) (d : Decimal) (text : List Char) : Prop :=
  ∃ n : Numeral, NumeralSpells n (minusText negative ++ text) ∧
    n.value = Double.decimalValue d.digits d.exponent ∧ Brief n

theorem signed_exponent (e : Int) :
    ExponentSpells (some e) ('e' :: ([if e < 0 then '-' else '+'] ++ Nat.toDigits 10 e.natAbs)) := by
  refine ⟨'e', _, _, .inl rfl, ?_, digits_text _, ?_, rfl⟩
  · split <;> simp
  · rw [Nat.ofDigitChars_ten_toDigits]
    by_cases below : e < 0
    · rw [if_pos below, if_pos rfl]
      omega
    · rw [if_neg below, if_neg (by decide)]
      omega

theorem scientific_spells (negative : Bool) {ds : List Char} (digits : DigitText ds) (e : Int) :
    NumeralSpells ⟨negative, ds.take 1, ds.tail, some e⟩ (minusText negative ++ (ds.take 1 ++
      (fractionText ds.tail ++ 'e' :: ([if e < 0 then '-' else '+'] ++ Nat.toDigits 10 e.natAbs)))) := by
  obtain ⟨nonempty, all⟩ := digits
  refine ⟨_, ?_, fun c member => all c (List.mem_of_mem_tail member), signed_exponent e, rfl⟩
  cases ds with
  | nil => exact absurd rfl nonempty
  | cons c ds =>
    refine ⟨⟨by simp, fun d member => all d (List.mem_of_mem_take member)⟩, fun zero => ?_⟩
    obtain rfl : c = '0' := Option.some.inj zero
    rfl

theorem scientific_writes (negative : Bool) (d : Decimal) {ds : List Char} {point : Int}
    (digits : DigitText ds) (value : Nat.ofDigitChars 10 ds 0 = d.digits)
    (counted : point = ds.length + d.exponent) (size : point ≤ 310) :
    Writes negative d (ds.take 1 ++ (fractionText ds.tail ++
      'e' :: ([if point - 1 < 0 then '-' else '+'] ++ Nat.toDigits 10 (point - 1).natAbs))) := by
  refine ⟨⟨negative, ds.take 1, ds.tail, some (point - 1)⟩, scientific_spells negative digits (point - 1), ?_, ?_, ?_⟩
  · have parts : ds.take 1 ++ ds.tail = ds := by rw [← List.drop_one, List.take_append_drop]
    have length : 0 < ds.length := List.length_pos_iff.mpr digits.1
    simp only [Numeral.value, Numeral.decimal, parts, value, Option.getD_some, List.length_tail]
    congr 1
    omega
  · rw [List.length_take]
    omega
  · rw [Option.getD_some]
    omega

theorem positional_spells (negative : Bool) {whole fraction : List Char} (wholeText : WholeText whole)
    (digits : DigitText fraction) :
    NumeralSpells ⟨negative, whole, fraction, none⟩ (minusText negative ++ (whole ++ '.' :: fraction)) :=
  ⟨[], wholeText, digits.2, rfl, by simp [fractionText, digits.1]⟩

theorem positional_writes (negative : Bool) (d : Decimal) {whole fraction : List Char}
    (wholeText : WholeText whole) (digits : DigitText fraction) (short : whole.length ≤ 20)
    (value : Double.decimalValue (Nat.ofDigitChars 10 (whole ++ fraction) 0) (-fraction.length) =
      Double.decimalValue d.digits d.exponent) :
    Writes negative d (whole ++ '.' :: fraction) := by
  refine ⟨⟨negative, whole, fraction, none⟩, positional_spells negative wholeText digits, ?_, short, ?_⟩
  · simpa [Numeral.value, Numeral.decimal] using value
  · rw [Option.getD_none]
    decide

theorem zeros_digit {k : Nat} {c : Char} (member : c ∈ List.replicate k '0') : c.isDigit = true := by
  rw [List.eq_of_mem_replicate member]
  rfl

theorem zero_whole : WholeText ['0'] := ⟨⟨by simp, by simp⟩, fun _ => rfl⟩

theorem zeros_before {ds : List Char} (digits : DigitText ds) (k : Nat) :
    DigitText (List.replicate k '0' ++ ds) := by
  refine ⟨by simp [digits.1], fun c member => ?_⟩
  rcases List.mem_append.mp member with zero | digit
  · exact zeros_digit zero
  · exact digits.2 c digit

theorem zeros_behind {ds : List Char} (digits : DigitText ds) (head : ds.head? ≠ some '0') (k : Nat) :
    WholeText (ds ++ List.replicate k '0') := by
  apply whole_of_head
  · refine ⟨by simp [digits.1], fun c member => ?_⟩
    rcases List.mem_append.mp member with digit | zero
    · exact digits.2 c digit
    · exact zeros_digit zero
  · rwa [List.head?_append_of_ne_nil _ digits.1]

theorem first_digits_whole {ds : List Char} (digits : DigitText ds) (head : ds.head? ≠ some '0') {k : Nat}
    (before : 0 < k) : WholeText (ds.take k) := by
  have length : 0 < ds.length := List.length_pos_iff.mpr digits.1
  apply whole_of_head
  · refine ⟨?_, fun c member => digits.2 c (List.mem_of_mem_take member)⟩
    apply List.length_pos_iff.mp
    rw [List.length_take]
    omega
  · rwa [List.head?_take, if_neg before.ne']

theorem last_digits_text {ds : List Char} (digits : DigitText ds) {k : Nat} (behind : k < ds.length) :
    DigitText (ds.drop k) := by
  refine ⟨?_, fun c member => digits.2 c (List.mem_of_mem_drop member)⟩
  apply List.length_pos_iff.mp
  rw [List.length_drop]
  omega

theorem below_point_writes (negative : Bool) (d : Decimal) {ds : List Char} (digits : DigitText ds)
    (value : Nat.ofDigitChars 10 ds 0 = d.digits) (point : ds.length + d.exponent ≤ 0) :
    Writes negative d
      (['0'] ++ '.' :: (List.replicate (-(ds.length + d.exponent)).toNat '0' ++ ds)) := by
  apply positional_writes negative d zero_whole (zeros_before digits _) (by simp)
  have same : Nat.ofDigitChars 10
      (['0'] ++ (List.replicate (-(ds.length + d.exponent)).toNat '0' ++ ds)) 0 = d.digits := by
    rw [Nat.ofDigitChars_append, Nat.ofDigitChars_append, Nat.ofDigitChars_replicate_zero]
    exact value
  rw [same, List.length_append, List.length_replicate]
  congr 1
  omega

theorem above_point_writes (negative : Bool) (d : Decimal) {ds : List Char} (digits : DigitText ds)
    (value : Nat.ofDigitChars 10 ds 0 = d.digits) (head : ds.head? ≠ some '0')
    (point : ds.length + d.exponent ≤ 16) (whole : 0 ≤ d.exponent) :
    Writes negative d ((ds ++ List.replicate d.exponent.toNat '0') ++ '.' :: ['0']) := by
  apply positional_writes negative d (zeros_behind digits head _) zero_whole.1
  · rw [List.length_append, List.length_replicate]
    omega
  have zeros : List.replicate d.exponent.toNat '0' ++ ['0'] = List.replicate (d.exponent.toNat + 1) '0' :=
    (List.replicate_succ' ..).symm
  rw [List.append_assoc, zeros, Nat.ofDigitChars_append, value, Nat.ofDigitChars_replicate_zero, Nat.mul_comm,
    Double.decimal_value_power]
  congr 1
  simp only [List.length_singleton]
  omega

theorem within_digits_writes (negative : Bool) (d : Decimal) {ds : List Char} (digits : DigitText ds)
    (value : Nat.ofDigitChars 10 ds 0 = d.digits) (head : ds.head? ≠ some '0')
    (point : 0 < ds.length + d.exponent) (size : ds.length + d.exponent ≤ 16) (fraction : d.exponent < 0) :
    Writes negative d (ds.take (ds.length + d.exponent).toNat ++
      '.' :: ds.drop (ds.length + d.exponent).toNat) := by
  generalize counted : (ds.length + d.exponent).toNat = k
  have before : 0 < k := by omega
  have behind : k < ds.length := by omega
  apply positional_writes negative d (first_digits_whole digits head before) (last_digits_text digits behind)
  · rw [List.length_take]
    omega
  rw [List.take_append_drop, value, List.length_drop]
  congr 1
  omega

theorem decimal_text_writes (negative : Bool) {d : Decimal} (positive : 0 < d.digits)
    (size : (Nat.toDigits 10 d.digits).length + d.exponent ≤ 310) : Writes negative d d.text := by
  have value : Nat.ofDigitChars 10 (Nat.toDigits 10 d.digits) 0 = d.digits := Nat.ofDigitChars_ten_toDigits
  have digits := digits_text d.digits
  have head := positive_head positive
  unfold Decimal.text
  generalize Nat.toDigits 10 d.digits = ds at value size digits head
  simp only
  split
  · have written := scientific_writes negative d digits value rfl size
    cases more : ds.tail with
    | nil => simpa [more, fractionText] using written
    | cons c cs => simpa [more, fractionText] using written
  rename_i plain
  split
  · rename_i point
    exact below_point_writes negative d digits value point
  split
  · rename_i whole
    exact above_point_writes negative d digits value head (by omega) whole
  · rename_i point fraction
    exact within_digits_writes negative d digits value head (by omega) (by omega) (by omega)

theorem of_decimal_size {negative : Bool} {n : Nat} {e : Int} {x : Double} (positive : 0 < n)
    (rounds : Double.ofDecimal? negative n e = some x) : (Nat.toDigits 10 n).length + e ≤ 310 := by
  apply Int.not_lt.1
  intro large
  simp only [Double.ofDecimal?, if_neg positive.ne', if_pos large] at rounds
  cases rounds

theorem zero_text_writes (negative : Bool) : Writes negative ⟨0, 0⟩ ['0', '.', '0'] := by
  apply positional_writes negative ⟨0, 0⟩ zero_whole zero_whole.1 (by simp)
  have none : Nat.ofDigitChars 10 (['0'] ++ ['0']) 0 = 0 := rfl
  rw [none]
  simp [Double.decimalValue]

-- The text of a double other than zero is that of a decimal which is nearest to it.
theorem double_text_writes (x : Double) : ∃ d text, x.text = minusText x.negative ++ text ∧ Writes x.negative d text ∧
    (Double.decimalValue d.digits d.exponent ≤ Double.surelyInRange ∨
      Double.ofDecimal? x.negative d.digits d.exponent = some x) := by
  by_cases zero : x.mantissa = 0
  · refine ⟨_, _, ?_, zero_text_writes x.negative, .inl ?_⟩
    · rw [Double.text, if_pos zero]
      rfl
    · simpa [Double.decimalValue] using Double.word_surely (by decide : 0 < 2 ^ 64)
  · have mantissa : 0 < x.mantissa := Nat.pos_of_ne_zero zero
    have positive := x.shortest_digits_positive mantissa
    have reads := x.shortest_reads mantissa
    refine ⟨x.shortest, _, ?_, decimal_text_writes x.negative positive (of_decimal_size positive reads), .inr reads⟩
    rw [Double.text, if_neg zero]
    rfl

theorem integer_spells (n : Int) (word : IsWord n) :
    NumeralSpells ⟨decide (n < 0), Nat.toDigits 10 n.natAbs, [], none⟩ (Number.text (.integer n word)) := by
  refine ⟨[], digits_whole n.natAbs, by simp, rfl, ?_⟩
  simp [Number.text, minusText, fractionText]

theorem integer_text_spells (n : Int) (word : IsWord n) :
    NumberSpells (.integer n word) (Number.text (.integer n word)) := by
  refine ⟨⟨decide (n < 0), Nat.toDigits 10 n.natAbs, [], none⟩, integer_spells n word, ?_⟩
  have size : (Numeral.decimal ⟨decide (n < 0), Nat.toDigits 10 n.natAbs, [], none⟩).digits = n.natAbs := by
    simp [Numeral.decimal]
  have value : (if decide (n < 0) = true then -(n.natAbs : Int) else n.natAbs) = n := by
    by_cases below : n < 0
    · rw [if_pos (decide_eq_true below)]
      omega
    · rw [if_neg (by simpa using below)]
      omega
  have signed : ¬(decide (n < 0) = true ∧ n.natAbs = 0) := by
    simp only [decide_eq_true_eq]
    omega
  simp only [Numeral.number?, size, value]
  rw [dif_pos ⟨rfl, word, signed⟩]

-- The four doubles next to 2^1024, which the bound on what is surely within the range does not cover.
def Double.top (negative : Bool) (below : Nat) (near : below < 4) : Double :=
  ⟨negative, 0x1fffffffffffff - below, 971, by unfold IsCanonical; omega⟩

theorem top_texts_read : ∀ (negative : Bool) (below : Nat) (near : below < 4),
    ((number.run (Double.top negative below near).text).toOption.any fun read => read.2.isEmpty) = true := by
  decide +kernel

theorem greatest_text_read {x : Double} (mantissa : 0x1ffffffffffffc ≤ x.mantissa) (exponent : x.exponent = 971) :
    ∃ n, number.run x.text = .ok (n, []) := by
  obtain ⟨negative, m, q, canonical⟩ := x
  obtain rfl : q = 971 := exponent
  have least : 0x1ffffffffffffc ≤ m := mantissa
  have most : m < 0x20000000000000 := canonical.1
  obtain ⟨below, near, rfl⟩ : ∃ below, below < 4 ∧ m = 0x1fffffffffffff - below :=
    ⟨0x1fffffffffffff - m, by omega, by omega⟩
  have read := top_texts_read negative below near
  show ∃ n, number.run (Double.top negative below near).text = .ok (n, [])
  cases outcome : number.run (Double.top negative below near).text with
  | error fault =>
    rw [outcome] at read
    cases read
  | ok result =>
    obtain ⟨n, rest⟩ := result
    rw [outcome] at read
    obtain rfl : rest = [] := List.isEmpty_iff.1 read
    exact ⟨n, rfl⟩

theorem double_text_read (x : Double) : ∃ n, NumberSpells n x.text := by
  obtain ⟨d, text, written, ⟨n, spelled, value, _⟩, near⟩ := double_text_writes x
  by_cases small : n.value ≤ Double.surelyInRange
  · obtain ⟨y, valued⟩ := n.number_exists_iff.2 (Numeral.small_in_range small)
    exact ⟨y, n, written ▸ spelled, valued⟩
  · rw [value] at small
    obtain ⟨mantissa, exponent⟩ := Double.of_decimal_large (near.resolve_left small) (not_le.1 small)
    obtain ⟨y, read⟩ := greatest_text_read mantissa exponent
    obtain ⟨body, spelled, whole⟩ := number_sound read
    rw [List.append_nil] at whole
    exact ⟨y, whole ▸ spelled⟩

-- What a number is read as once it has been written.
def Number.reread (n : Number) : Number :=
  match number.run n.text with
  | .ok (m, _) => m
  | .error _ => n

theorem spelled_reread {m n : Number} (spelled : NumberSpells m n.text) : n.reread = m := by
  have read : number.run (n.text ++ []) = .ok (m, []) := number_complete spelled nofun
  rw [List.append_nil] at read
  rw [Number.reread, read]

def Double.ReadsBack (x : Double) : Prop := number.run x.text = .ok (.double x, [])

instance (x : Double) : Decidable x.ReadsBack :=
  decidable_of_iff ((number.run x.text).toOption = some (.double x, [])) (by
    unfold Double.ReadsBack
    cases number.run x.text <;> simp [Except.toOption])

theorem double_reread {x : Double} (back : x.ReadsBack) : (Number.double x).reread = .double x := by
  have read : number.run (Number.double x).text = .ok (.double x, []) := back
  rw [Number.reread, read]

theorem integer_reread (n : Int) (word : IsWord n) : (Number.integer n word).reread = .integer n word :=
  spelled_reread (integer_text_spells n word)

theorem number_text_spells (n : Number) : NumberSpells n.reread n.text := by
  cases n with
  | integer n word =>
    rw [integer_reread]
    exact integer_text_spells n word
  | double x =>
    obtain ⟨m, spelled⟩ : ∃ m, NumberSpells m (Number.double x).text := double_text_read x
    rwa [spelled_reread spelled]

end SprintLedger.Json
