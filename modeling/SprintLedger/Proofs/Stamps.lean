import SprintLedger.Proofs.Instant

set_option autoImplicit false

namespace SprintLedger

def monthLength (year : Int) (month : Nat) : Nat := (monthLengths (isLeapYear year)).getD (month - 1) 0

namespace Date

def Valid (d : Date) : Prop := 1 ≤ d.month ∧ d.month ≤ 12 ∧ 1 ≤ d.day ∧ d.day ≤ monthLength d.year d.month

def next (d : Date) : Date :=
  if d.day < monthLength d.year d.month then ⟨d.year, d.month, d.day + 1⟩
  else if d.month < 12 then ⟨d.year, d.month + 1, 1⟩
  else ⟨d.year + 1, 1, 1⟩

def days (d : Date) : Int :=
  daysBeforeYear d.year + ((monthLengths (isLeapYear d.year)).take (d.month - 1)).sum + (d.day - 1) - epochDay

theorem month_lengths_add (leap : Bool) : ∀ month < 12,
    ((monthLengths leap).take (month + 1)).sum =
        ((monthLengths leap).take month).sum + (monthLengths leap).getD month 0 ∧
      1 ≤ (monthLengths leap).getD month 0 := by
  cases leap <;> decide

theorem month_lengths_all (leap : Bool) : (monthLengths leap).take 12 = monthLengths leap := by
  cases leap <;> rfl

theorem next_valid {d : Date} (valid : d.Valid) : d.next.Valid := by
  obtain ⟨first, last, low, high⟩ := valid
  unfold next
  by_cases inMonth : d.day < monthLength d.year d.month
  · rw [if_pos inMonth]
    exact ⟨first, last, Nat.le_add_left 1 _, inMonth⟩
  · rw [if_neg inMonth]
    by_cases inYear : d.month < 12
    · rw [if_pos inYear]
      exact ⟨Nat.le_add_left 1 _, inYear, Nat.le_refl 1, (month_lengths_add _ d.month inYear).2⟩
    · rw [if_neg inYear]
      exact ⟨Nat.le_refl 1, Nat.le_add_left 1 11, Nat.le_refl 1, (month_lengths_add _ 0 (by decide)).2⟩

theorem next_days {d : Date} (valid : d.Valid) : d.next.days = d.days + 1 := by
  obtain ⟨first, last, low, high⟩ := valid
  obtain ⟨year, month, day⟩ := d
  obtain ⟨before, rfl⟩ : ∃ before, month = before + 1 := ⟨month - 1, (Nat.sub_add_cancel first).symm⟩
  dsimp only at *
  have month := (month_lengths_add (isLeapYear year) before (by omega)).1
  unfold next monthLength
  unfold monthLength at high
  dsimp only
  rw [Nat.add_sub_cancel] at high ⊢
  by_cases inMonth : day < (monthLengths (isLeapYear year)).getD before 0
  · rw [if_pos inMonth]
    unfold days
    dsimp only
    omega
  · rw [if_neg inMonth]
    by_cases inYear : before + 1 < 12
    · rw [if_pos inYear]
      unfold days
      dsimp only
      rw [Nat.add_sub_cancel, Nat.add_sub_cancel, month]
      omega
    · -- The months that lie behind the last day of December are all of the year.
      rw [if_neg inYear]
      obtain rfl : before = 11 := by omega
      have whole := year_length year
      rw [month_lengths_all] at month
      unfold days
      dsimp only
      rw [Nat.add_sub_cancel, whole, month, Nat.sub_self, List.take_zero, List.sum_nil]
      omega

-- Taking a count of days apart into a date undoes counting.
theorem of_days_counted (count : Int) : (ofDays count).Valid ∧ (ofDays count).days = count := by
  obtain ⟨start, finish⟩ := year_bracket (count + epochDay)
  rw [year_length] at finish
  rw [of_days_parts]
  generalize yearOfDay (count + epochDay) = year at start finish
  have within : (count + epochDay - daysBeforeYear year).toNat < (monthLengths (isLeapYear year)).sum := by omega
  obtain ⟨before, length, after, split, low, high, there⟩ := month_and_day_within within 1
  have twelve : before.length + (after.length + 1) = 12 := by
    rw [← List.length_cons, ← List.length_append, ← split]
    rfl
  have taken : (monthLengths (isLeapYear year)).take (1 + before.length - 1) = before := by
    rw [split, Nat.add_sub_cancel_left, List.take_left]
  have here : monthLength year (1 + before.length) = length := by
    rw [monthLength, split, Nat.add_sub_cancel_left]
    simp
  rw [there]
  refine ⟨⟨Nat.le_add_right 1 _, ?_, Nat.le_add_left 1 _, ?_⟩, ?_⟩
  · dsimp only
    omega
  · dsimp only
    rw [here]
    omega
  · unfold days
    dsimp only
    rw [taken]
    omega

end Date

def Shows (n : Nat) (cs : List Char) : Prop := (∀ c ∈ cs, c.isDigit = true) ∧ Nat.ofDigitChars 10 cs 0 = n

def TwoDigits (n : Nat) (cs : List Char) : Prop := cs.length = 2 ∧ Shows n cs

-- Four digits where they are enough; otherwise at least as many behind a sign.
inductive YearSpells : Int → List Char → Prop where
  | common (year : Nat) (cs : List Char) (four : cs.length = 4) (shown : Shows year cs) : YearSpells year cs
  | later (year : Nat) (cs : List Char) (beyond : 9999 < year) (four : 4 ≤ cs.length) (shown : Shows year cs) :
      YearSpells year ('+' :: cs)
  | earlier (year : Nat) (cs : List Char) (before : 0 < year) (four : 4 ≤ cs.length) (shown : Shows year cs) :
      YearSpells (-year) ('-' :: cs)

theorem decimal_shows (width n : Nat) : Shows n (Text.decimal width n) :=
  ⟨fun _ => Text.decimal_digit, Text.of_digits_decimal width n⟩

theorem decimal_two_digits {n : Nat} (fits : n < 10 ^ 2) : TwoDigits n (Text.decimal 2 n) :=
  ⟨Text.decimal_length (by decide) fits, decimal_shows 2 n⟩

theorem decimal_length_le (width n : Nat) : width ≤ (Text.decimal width n).length := by
  rw [Text.decimal, List.length_append, List.length_replicate]
  omega

theorem year_text_spells (year : Int) : YearSpells year (yearText year) := by
  unfold yearText
  by_cases few : 0 ≤ year ∧ year ≤ 9999
  · rw [if_pos few]
    have spelled : YearSpells year.toNat (Text.decimal 4 year.toNat) :=
      .common _ _ (Text.decimal_length (by decide) (by omega)) (decimal_shows 4 _)
    rwa [Int.toNat_of_nonneg few.1] at spelled
  · rw [if_neg few]
    by_cases negative : year < 0
    · rw [if_pos negative]
      have spelled : YearSpells (-(year.natAbs : Nat)) ('-' :: Text.decimal 4 year.natAbs) :=
        .earlier _ _ (by omega) (decimal_length_le 4 _) (decimal_shows 4 _)
      rwa [show -(year.natAbs : Int) = year by omega] at spelled
    · rw [if_neg negative]
      have spelled : YearSpells (year.natAbs : Nat) ('+' :: Text.decimal 4 year.natAbs) :=
        .later _ _ (by omega) (decimal_length_le 4 _) (decimal_shows 4 _)
      rwa [show (year.natAbs : Int) = year by omega] at spelled

theorem shows_unsigned {n : Nat} {sign : Char} {cs : List Char} (sign_text : sign.isDigit = false) :
    ¬Shows n (sign :: cs) := by
  rintro ⟨digits, _⟩
  rw [digits sign List.mem_cons_self] at sign_text
  cases sign_text

theorem year_unique {year year' : Int} {cs : List Char} (first : YearSpells year cs) (second : YearSpells year' cs) :
    year = year' := by
  cases first with
  | common y _ _ shown =>
    cases second with
    | common y' _ _ shown' => exact congrArg Int.ofNat (shown.2.symm.trans shown'.2)
    | later y' ds => exact absurd shown (shows_unsigned rfl)
    | earlier y' ds => exact absurd shown (shows_unsigned rfl)
  | later y ds _ _ shown =>
    cases second with
    | common y' _ _ shown' => exact absurd shown' (shows_unsigned rfl)
    | later y' _ _ _ shown' => exact congrArg Int.ofNat (shown.2.symm.trans shown'.2)
  | earlier y ds _ _ shown =>
    cases second with
    | common y' _ _ shown' => exact absurd shown' (shows_unsigned rfl)
    | earlier y' _ _ _ shown' => rw [← shown.2, ← shown'.2]

theorem two_digits_front {m n : Nat} {c d : Char} {as bs xs ys : List Char} (first : TwoDigits m as)
    (second : TwoDigits n bs) (same : as ++ c :: xs = bs ++ d :: ys) : m = n ∧ xs = ys := by
  obtain ⟨rfl, rest⟩ := List.append_inj same (first.1.trans second.1.symm)
  exact ⟨first.2.2.symm.trans second.2.2, (List.cons.inj rest).2⟩

structure Reading where
  date : Date
  hour : Nat
  minute : Nat
  second : Nat

namespace Reading

def Writes (r : Reading) (text : String) : Prop :=
  ∃ year month day hour minute second, YearSpells r.date.year year ∧ TwoDigits r.date.month month ∧
    TwoDigits r.date.day day ∧ TwoDigits r.hour hour ∧ TwoDigits r.minute minute ∧ TwoDigits r.second second ∧
    text.toList = year ++ '-' :: (month ++ '-' :: (day ++ 'T' ::
      (hour ++ ':' :: (minute ++ ':' :: (second ++ ['Z'])))))

def Valid (r : Reading) : Prop := r.date.Valid ∧ r.hour < 24 ∧ r.minute < 60 ∧ r.second ≤ 60

-- A leap second counts as the second before it.
def seconds (r : Reading) : Int := 86400 * r.date.days + 3600 * r.hour + 60 * r.minute + min r.second 59

-- All but the year has a fixed length, so the text can be taken apart from its end.
theorem writes_unique {r s : Reading} {text : String} (first : r.Writes text) (second : s.Writes text) : r = s := by
  obtain ⟨_, _, _, _, _, _, years, months, days, hours, minutes, secs, whole⟩ := first
  obtain ⟨_, _, _, _, _, _, years', months', days', hours', minutes', secs', whole'⟩ := second
  obtain ⟨rfl, rest⟩ := List.append_inj' (whole.symm.trans whole') (by
    simp [months.1, days.1, hours.1, minutes.1, secs.1, months'.1, days'.1, hours'.1, minutes'.1, secs'.1])
  have yearEq := year_unique years years'
  obtain ⟨monthEq, rest⟩ := two_digits_front months months' (List.cons.inj rest).2
  obtain ⟨dayEq, rest⟩ := two_digits_front days days' rest
  obtain ⟨hourEq, rest⟩ := two_digits_front hours hours' rest
  obtain ⟨minuteEq, rest⟩ := two_digits_front minutes minutes' rest
  obtain ⟨secondEq, _⟩ := two_digits_front secs secs' rest
  obtain ⟨⟨_, _, _⟩, _, _, _⟩ := r
  obtain ⟨⟨_, _, _⟩, _, _, _⟩ := s
  dsimp only at *
  rw [yearEq, monthEq, dayEq, hourEq, minuteEq, secondEq]

end Reading

namespace Instant

-- Nanoseconds beyond the second are those of the leap second behind it, which only the last second of a
-- minute has.
def Proper (t : Instant) : Prop := t.nanos < 2000000000 ∧ (1000000000 ≤ t.nanos → t.seconds % 60 = 59)

def IsLeap (t : Instant) : Prop := 1000000000 ≤ t.nanos

instance (t : Instant) : Decidable t.IsLeap := inferInstanceAs (Decidable (_ ≤ _))

def reading (t : Instant) : Reading := ⟨t.date, t.secondOfDay / 3600, t.secondOfDay / 60 % 60, t.clockSecond⟩

theorem stamp_writes (t : Instant) : t.reading.Writes t.stamp := by
  have early := t.second_of_day_less
  have late := t.clock_second_le
  obtain ⟨month, day⟩ := Date.of_days_two_digits (t.seconds / 86400)
  have hour : t.secondOfDay / 3600 < 10 ^ 2 := by omega
  have minute : t.secondOfDay / 60 % 60 < 10 ^ 2 := by omega
  have second : t.clockSecond < 10 ^ 2 := by omega
  exact ⟨_, _, _, _, _, _, year_text_spells _, decimal_two_digits month, decimal_two_digits day,
    decimal_two_digits hour, decimal_two_digits minute, decimal_two_digits second, t.stamp_list⟩

theorem clock_second_leap {t : Instant} (proper : t.Proper) :
    min t.clockSecond 59 = t.secondOfDay % 60 ∧ (t.clockSecond = 60 ↔ t.IsLeap) := by
  have minutes : t.seconds % 60 = (t.secondOfDay % 60 : Nat) := by
    unfold secondOfDay
    omega
  have last := proper.2
  unfold clockSecond IsLeap
  by_cases leap : 1000000000 ≤ t.nanos
  · rw [if_pos leap]
    omega
  · rw [if_neg leap]
    omega

theorem reading_seconds {t : Instant} (proper : t.Proper) : t.reading.Valid ∧ t.reading.seconds = t.seconds := by
  obtain ⟨valid, counted⟩ := Date.of_days_counted (t.seconds / 86400)
  have early := t.second_of_day_less
  have late := t.clock_second_le
  have capped := (clock_second_leap proper).1
  refine ⟨⟨valid, ?_, ?_, ?_⟩, ?_⟩
  · show t.secondOfDay / 3600 < 24
    omega
  · show t.secondOfDay / 60 % 60 < 60
    omega
  · show t.clockSecond ≤ 60
    omega
  · have whole : t.seconds = 86400 * (t.seconds / 86400) + t.secondOfDay := by
      unfold secondOfDay
      omega
    unfold Reading.seconds reading date
    dsimp only
    rw [counted]
    omega

theorem stamp_same_iff {t u : Instant} (proper : t.Proper) (proper' : u.Proper) :
    t.stamp = u.stamp ↔ t.seconds = u.seconds ∧ (t.IsLeap ↔ u.IsLeap) := by
  constructor
  · intro same
    have readings : t.reading = u.reading := Reading.writes_unique t.stamp_writes (same ▸ u.stamp_writes)
    have clocks : t.clockSecond = u.clockSecond := congrArg Reading.second readings
    rw [← (reading_seconds proper).2, ← (reading_seconds proper').2, ← (clock_second_leap proper).2,
      ← (clock_second_leap proper').2, readings, clocks]
    exact ⟨rfl, Iff.rfl⟩
  · rintro ⟨seconds, leap⟩
    unfold stamp date clockSecond secondOfDay
    unfold IsLeap at leap
    rw [seconds]
    simp only [leap]

theorem stamp_denotes :
    (Date.days ⟨1970, 1, 1⟩ = 0 ∧ ∀ d : Date, d.Valid → d.next.Valid ∧ d.next.days = d.days + 1) ∧
    (∀ t : Instant, t.Proper → ∃ r : Reading, r.Writes t.stamp ∧ (∀ s : Reading, s.Writes t.stamp → s = r) ∧
      r.Valid ∧ r.seconds = t.seconds ∧ (r.second = 60 ↔ t.IsLeap) ∧
      (¬t.IsLeap → r.seconds = (1000000000 * t.seconds + t.nanos) / 1000000000)) ∧
    ∀ t u : Instant, t.Proper → u.Proper →
      (t.stamp = u.stamp ↔ t.seconds = u.seconds ∧ (t.IsLeap ↔ u.IsLeap)) := by
  refine ⟨⟨by decide, fun d valid => ⟨Date.next_valid valid, Date.next_days valid⟩⟩, fun t proper => ?_,
    fun t u => stamp_same_iff⟩
  obtain ⟨valid, seconds⟩ := reading_seconds proper
  refine ⟨t.reading, t.stamp_writes, fun s written => Reading.writes_unique written t.stamp_writes, valid, seconds,
    (clock_second_leap proper).2, fun within => ?_⟩
  unfold IsLeap at within
  rw [seconds]
  omega

-- A leap second has a text of its own; the last second before 1970 has one text from its start to its end.
theorem leap_second_apart :
    (∃ r : Reading, r.Writes "2016-12-31T23:59:60Z" ∧ r.seconds = 1483228799 ∧ r.second = 60) ∧
    (⟨1483228799, 1500000000⟩ : Instant).stamp ≠ (⟨1483228799, 500000000⟩ : Instant).stamp ∧
    (⟨-1, 999999999⟩ : Instant).stamp = (⟨-1, 0⟩ : Instant).stamp := by
  obtain ⟨_, denotes, same⟩ := stamp_denotes
  have leap : (⟨1483228799, 1500000000⟩ : Instant).Proper := ⟨by decide, fun _ => by decide⟩
  have plain : (⟨1483228799, 500000000⟩ : Instant).Proper := ⟨by decide, fun _ => by decide⟩
  have late : (⟨-1, 999999999⟩ : Instant).Proper := ⟨by decide, fun _ => by decide⟩
  have early : (⟨-1, 0⟩ : Instant).Proper := ⟨by decide, fun _ => by decide⟩
  have shown : (⟨1483228799, 1500000000⟩ : Instant).stamp = "2016-12-31T23:59:60Z" := by decide +kernel
  obtain ⟨r, writes, _, _, seconds, sixty, _⟩ := denotes _ leap
  refine ⟨⟨r, shown ▸ writes, seconds, sixty.2 (by decide)⟩, ?_, ?_⟩
  · intro equal
    exact absurd (((same _ _ leap plain).1 equal).2.1 (by decide)) (by decide)
  · exact (same _ _ late early).2 ⟨rfl, by decide⟩

end Instant

end SprintLedger
