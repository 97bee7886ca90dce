import SprintLedger.Instant
import SprintLedger.Proofs.Calendar
import SprintLedger.Proofs.Text.Decimals

set_option autoImplicit false

namespace SprintLedger.Instant

instance : LE Instant where
  le t u := t.seconds < u.seconds ∨ (t.seconds = u.seconds ∧ t.nanos ≤ u.nanos)

instance (t u : Instant) : Decidable (t ≤ u) :=
  inferInstanceAs (Decidable (t.seconds < u.seconds ∨ (t.seconds = u.seconds ∧ t.nanos ≤ u.nanos)))

theorem le_refl (t : Instant) : t ≤ t := .inr ⟨rfl, Nat.le_refl _⟩

def Common (t : Instant) : Prop := 0 ≤ t.date.year ∧ t.date.year ≤ 9999

instance (t : Instant) : Decidable t.Common := inferInstanceAs (Decidable (_ ∧ _))

theorem clock_second_le (t : Instant) : t.clockSecond ≤ t.secondOfDay % 60 + 1 := by
  unfold clockSecond
  split <;> omega

-- A leap second shows as the second 60 of its minute, so it is later than the seconds before it.
theorem clock_le {t u : Instant} (le : t ≤ u) (same : t.seconds / 86400 = u.seconds / 86400) :
    t.secondOfDay / 3600 < u.secondOfDay / 3600 ∨ (t.secondOfDay / 3600 = u.secondOfDay / 3600 ∧
      (t.secondOfDay / 60 % 60 < u.secondOfDay / 60 % 60 ∨ (t.secondOfDay / 60 % 60 = u.secondOfDay / 60 % 60 ∧
        t.clockSecond ≤ u.clockSecond))) := by
  rcases le with earlier | ⟨equal, nanos⟩
  · have order : t.secondOfDay < u.secondOfDay := by
      unfold secondOfDay
      omega
    have late := t.clock_second_le
    have start : u.secondOfDay % 60 ≤ u.clockSecond := Nat.le_add_right _ _
    omega
  · have second : t.secondOfDay = u.secondOfDay := congrArg (fun s => (s % 86400).toNat) equal
    refine .inr ⟨by rw [second], .inr ⟨by rw [second], ?_⟩⟩
    unfold clockSecond
    rw [second]
    split <;> split <;> omega

theorem date_le {t u : Instant} (le : t ≤ u) : t.date < u.date ∨ (t.seconds / 86400 = u.seconds / 86400) := by
  have days : t.seconds / 86400 ≤ u.seconds / 86400 := by
    rcases le with earlier | ⟨equal, _⟩ <;> omega
  exact (Int.lt_or_eq_of_le days).imp_left Date.of_days_less

def clockText (t : Instant) : List Char :=
  Text.decimal 2 (t.secondOfDay / 3600) ++ ':' :: (Text.decimal 2 (t.secondOfDay / 60 % 60) ++
    ':' :: (Text.decimal 2 t.clockSecond ++ ['Z']))

theorem stamp_list (t : Instant) : t.stamp.toList = yearText t.date.year ++ '-' :: (Text.decimal 2 t.date.month ++
    '-' :: (Text.decimal 2 t.date.day ++ 'T' :: t.clockText)) := by
  rw [stamp, String.toList_ofList, clockText]
  simp only [List.append_assoc, List.cons_append]

theorem stamp_common {t : Instant} (common : t.Common) :
    t.stamp.toList = Text.decimal 4 t.date.year.toNat ++ '-' :: (Text.decimal 2 t.date.month ++
      '-' :: (Text.decimal 2 t.date.day ++ 'T' :: t.clockText)) := by
  have year : yearText t.date.year = Text.decimal 4 t.date.year.toNat := if_pos common
  rw [stamp_list, year]

theorem second_of_day_less (t : Instant) : t.secondOfDay < 86400 := by
  unfold secondOfDay
  omega

theorem clock_text_not_less {t u : Instant} (le : t ≤ u) (same : t.seconds / 86400 = u.seconds / 86400) :
    ¬u.clockText < t.clockText := by
  have early := t.second_of_day_less
  have early' := u.second_of_day_less
  have late := t.clock_second_le
  have late' := u.clock_second_le
  refine Text.decimal_append_not_less (by decide) (by omega) (by omega) ?_
  refine (clock_le le same).imp_right (And.imp_right fun order => ?_)
  refine Text.decimal_append_not_less (by decide) (by omega) (by omega) ?_
  refine order.imp_right (And.imp_right fun second => ?_)
  exact Text.decimal_append_not_less (by decide) (by omega) (by omega)
    ((Nat.lt_or_eq_of_le second).imp_right fun equal => ⟨equal, List.lt_irrefl _⟩)

theorem stamp_le {t u : Instant} (le : t ≤ u) (common : t.Common) (common' : u.Common) : t.stamp ≤ u.stamp := by
  show ¬u.stamp.toList < t.stamp.toList
  rw [stamp_common common, stamp_common common']
  obtain ⟨low, high⟩ := common
  obtain ⟨low', high'⟩ := common'
  obtain ⟨month, day⟩ := Date.of_days_two_digits (t.seconds / 86400)
  obtain ⟨month', day'⟩ := Date.of_days_two_digits (u.seconds / 86400)
  have year : t.date.year.toNat < 10 ^ 4 := by omega
  have year' : u.date.year.toNat < 10 ^ 4 := by omega
  rcases date_le le with earlier | same
  · refine Text.decimal_append_not_less (by decide) year year' ?_
    refine (Date.lt_iff.1 earlier).imp (fun order => by omega) fun order => ⟨by rw [order.1], ?_⟩
    refine Text.decimal_append_not_less (by decide) month month' ?_
    refine order.2.imp_right (And.imp_right fun order => ?_)
    exact Text.decimal_append_not_less (by decide) day day' (.inl order)
  · have dates : t.date = u.date := congrArg Date.ofDays same
    rw [dates]
    refine Text.decimal_append_not_less (by decide) year' year' (.inr ⟨rfl, ?_⟩)
    refine Text.decimal_append_not_less (by decide) month' month' (.inr ⟨rfl, ?_⟩)
    exact Text.decimal_append_not_less (by decide) day' day' (.inr ⟨rfl, clock_text_not_less le same⟩)

end SprintLedger.Instant
