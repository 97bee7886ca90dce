import Mathlib.Algebra.GroupWithZero.Nat
import SprintLedger.Calendar

set_option autoImplicit false

namespace SprintLedger

theorem year_start_le {y z : Int} (le : y ≤ z) : daysBeforeYear y ≤ daysBeforeYear z := by
  unfold daysBeforeYear
  omega

theorem year_length (year : Int) :
    daysBeforeYear (year + 1) = daysBeforeYear year + ((monthLengths (isLeapYear year)).sum : Nat) := by
  unfold daysBeforeYear isLeapYear
  by_cases leap : year % 4 = 0 ∧ (year % 100 ≠ 0 ∨ year % 400 = 0)
  · have flag : (decide (year % 4 = 0) && (decide (year % 100 ≠ 0) || decide (year % 400 = 0))) = true := by
      simpa using leap
    rw [flag]
    show _ = _ + ((366 : Nat) : Int)
    omega
  · have flag : (decide (year % 4 = 0) && (decide (year % 100 ≠ 0) || decide (year % 400 = 0))) = false := by
      simpa using leap
    rw [flag]
    show _ = _ + ((365 : Nat) : Int)
    omega

-- The first guess is at most one year off.
theorem year_bracket (day : Int) :
    daysBeforeYear (yearOfDay day) ≤ day ∧ day < daysBeforeYear (yearOfDay day + 1) := by
  unfold yearOfDay
  dsimp only
  by_cases early : day < daysBeforeYear (400 * day / 146097)
  · rw [if_pos early, Int.sub_add_cancel]
    refine ⟨?_, early⟩
    unfold daysBeforeYear at early ⊢
    omega
  · rw [if_neg early]
    by_cases late : daysBeforeYear (400 * day / 146097 + 1) ≤ day
    · rw [if_pos late]
      refine ⟨late, ?_⟩
      unfold daysBeforeYear at late ⊢
      omega
    · rw [if_neg late]
      exact ⟨Int.not_lt.1 early, Int.not_le.1 late⟩

theorem year_of_day_le {d e : Int} (le : d ≤ e) : yearOfDay d ≤ yearOfDay e := by
  apply Int.not_lt.1
  intro less
  have order := year_start_le (Int.add_one_le_of_lt less)
  have start := (year_bracket d).1
  have finish := (year_bracket e).2
  omega

theorem month_and_day_within {lengths : List Nat} {rest : Nat} (within : rest < lengths.sum) (month : Nat) :
    ∃ before length after, lengths = before ++ length :: after ∧ before.sum ≤ rest ∧
      rest < before.sum + length ∧
      monthAndDay month lengths rest = (month + before.length, rest - before.sum + 1) := by
  induction lengths generalizing month rest with
  | nil => cases within
  | cons length lengths ih =>
    rw [List.sum_cons] at within
    rw [monthAndDay]
    by_cases first : rest < length
    · rw [if_pos first]
      exact ⟨[], length, lengths, rfl, Nat.zero_le _, by simpa using first, rfl⟩
    · rw [if_neg first]
      have shorter : rest - length < lengths.sum := by omega
      obtain ⟨before, last, after, split, low, high, there⟩ := ih shorter (month + 1)
      refine ⟨length :: before, last, after, by rw [split, List.cons_append], ?_, ?_, ?_⟩
      · rw [List.sum_cons]
        omega
      · rw [List.sum_cons]
        omega
      · rw [there, List.sum_cons, List.length_cons]
        ext <;> dsimp only <;> omega

theorem month_from (month : Nat) (lengths : List Nat) (rest : Nat) : month ≤ (monthAndDay month lengths rest).1 := by
  induction lengths generalizing month rest with
  | nil => exact Nat.le_refl _
  | cons length lengths ih =>
    by_cases first : rest < length
    · have here : monthAndDay month (length :: lengths) rest = (month, rest + 1) := if_pos first
      exact Nat.le_of_eq (congrArg Prod.fst here).symm
    · have later : monthAndDay month (length :: lengths) rest = monthAndDay (month + 1) lengths (rest - length) :=
        if_neg first
      rw [later]
      exact Nat.le_of_succ_le (ih (month + 1) _)

theorem month_and_day_less {lengths : List Nat} {rest rest' : Nat} (less : rest < rest') (month : Nat) :
    (monthAndDay month lengths rest).1 < (monthAndDay month lengths rest').1 ∨
      ((monthAndDay month lengths rest).1 = (monthAndDay month lengths rest').1 ∧
        (monthAndDay month lengths rest).2 < (monthAndDay month lengths rest').2) := by
  induction lengths generalizing month rest rest' with
  | nil => exact .inr ⟨rfl, Nat.succ_lt_succ less⟩
  | cons length lengths ih =>
    rw [monthAndDay, monthAndDay]
    by_cases later : rest' < length
    · rw [if_pos (Nat.lt_trans less later), if_pos later]
      exact .inr ⟨rfl, Nat.succ_lt_succ less⟩
    · rw [if_neg later]
      by_cases first : rest < length
      · rw [if_pos first]
        exact .inl (month_from (month + 1) lengths _)
      · rw [if_neg first]
        exact ih (by omega) (month + 1)

namespace Date

instance : LT Date where
  lt a b := a.year < b.year ∨ (a.year = b.year ∧ (a.month < b.month ∨ (a.month = b.month ∧ a.day < b.day)))

theorem lt_iff {a b : Date} :
    a < b ↔ a.year < b.year ∨ (a.year = b.year ∧ (a.month < b.month ∨ (a.month = b.month ∧ a.day < b.day))) :=
  Iff.rfl

theorem of_days_parts (days : Int) :
    ofDays days = ⟨yearOfDay (days + epochDay),
      (monthAndDay 1 (monthLengths (isLeapYear (yearOfDay (days + epochDay))))
        (days + epochDay - daysBeforeYear (yearOfDay (days + epochDay))).toNat).1,
      (monthAndDay 1 (monthLengths (isLeapYear (yearOfDay (days + epochDay))))
        (days + epochDay - daysBeforeYear (yearOfDay (days + epochDay))).toNat).2⟩ := rfl

theorem of_days_less {d e : Int} (less : d < e) : ofDays d < ofDays e := by
  have years : yearOfDay (d + epochDay) ≤ yearOfDay (e + epochDay) := year_of_day_le (by omega)
  rcases Int.lt_or_eq_of_le years with earlier | same
  · exact .inl earlier
  · refine .inr ⟨same, ?_⟩
    have start := (year_bracket (d + epochDay)).1
    rw [of_days_parts, of_days_parts, ← same]
    exact month_and_day_less (by omega) 1

theorem of_days_valid (days : Int) : ∃ before length after,
    monthLengths (isLeapYear (ofDays days).year) = before ++ length :: after ∧
      (ofDays days).month = before.length + 1 ∧ 1 ≤ (ofDays days).day ∧ (ofDays days).day ≤ length := by
  obtain ⟨start, finish⟩ := year_bracket (days + epochDay)
  rw [year_length] at finish
  have within : (days + epochDay - daysBeforeYear (yearOfDay (days + epochDay))).toNat <
      (monthLengths (isLeapYear (yearOfDay (days + epochDay)))).sum := by omega
  obtain ⟨before, length, after, split, low, high, there⟩ := month_and_day_within within 1
  rw [of_days_parts, there]
  refine ⟨before, length, after, split, Nat.add_comm 1 _, Nat.le_add_left 1 _, ?_⟩
  dsimp only
  omega

theorem month_length_le {leap : Bool} {length : Nat} (member : length ∈ monthLengths leap) : length ≤ 31 := by
  revert member length
  cases leap <;> decide

theorem of_days_two_digits (days : Int) : (ofDays days).month < 10 ^ 2 ∧ (ofDays days).day < 10 ^ 2 := by
  obtain ⟨before, length, after, split, month, _, day⟩ := of_days_valid days
  have short := month_length_le (split ▸ List.mem_append_right before List.mem_cons_self)
  have count := congrArg List.length split
  rw [List.length_append, List.length_cons] at count
  have twelve : (monthLengths (isLeapYear (ofDays days).year)).length = 12 := rfl
  exact ⟨by omega, by omega⟩

end Date

end SprintLedger
