import SprintLedger.Proofs.Ledger.Runs
import SprintLedger.Proofs.Sprint.NumberTexts

set_option autoImplicit false

namespace SprintLedger

namespace Operation

-- Some ledger has another entry under the key when the operation has been carried out.
def ActsOn (op : Operation) (key : String) : Prop :=
  ∃ l l', op.apply l = .ok l' ∧ l'.sprints.get? key ≠ l.sprints.get? key

theorem apply_after {op : Operation} {l l' : Ledger} (applied : op.apply l = .ok l') : l.after op = l' := by
  rw [Ledger.after, applied]

theorem apply_empty (op : Operation) : op.apply .empty = .ok (Ledger.empty.after op) := by
  cases op <;> rfl

theorem acts_on_iff {op : Operation} {key : String} : op.ActsOn key ↔ key = op.number.key := by
  constructor
  · rintro ⟨l, l', applied, changed⟩
    apply Classical.byContradiction
    intro other
    rw [← apply_after applied, Ledger.get_after other] at changed
    exact changed rfl
  · rintro rfl
    refine ⟨.empty, _, apply_empty op, ?_⟩
    have present : ((Ledger.empty.after op).find? op.number).isSome = true := Ledger.present_after (.inr rfl)
    intro same
    rw [Ledger.find?, same] at present
    cases present

theorem acts_alike_iff {op op' : Operation} : (∀ key, op.ActsOn key ↔ op'.ActsOn key) ↔ op.number = op'.number := by
  simp only [acts_on_iff]
  constructor
  · intro same
    exact SprintNumber.key_injective ((same op.number.key).1 rfl)
  · intro same key
    rw [same]

end Operation

namespace SprintNumber

theorem texts_address_entries :
    (∀ s n, ofText s = .ok n ↔ Denotes s n.value ∧ n.value ≤ 4294967295) ∧
    (∀ s, (∀ v ≤ 4294967295, ¬Denotes s v) → ofText s = .error (.invalidNumber s)) ∧
    (∀ c cs, ofDigits? (c :: cs) = (c :: cs).foldlM pushDigit? ⟨0, by decide⟩) ∧
    (∀ n : SprintNumber, ofText n.key = .ok n) ∧
    (∀ n m : SprintNumber, n.key = m.key → n = m) ∧
    ∀ s s' n n', ofText s = .ok n → ofText s' = .ok n' →
      ∀ op op' : Operation, op.number = n → op'.number = n' →
        ((∀ key, op.ActsOn key ↔ op'.ActsOn key) ↔ ∃ v, Denotes s v ∧ Denotes s' v) := by
  refine ⟨fun s n => ?_, fun s => of_text_refused, of_digits_pushed, fun n => ?_, fun n m => key_injective, ?_⟩
  · have small := n.inRange
    rw [of_text_ok_iff]
    exact ⟨fun denoted => ⟨denoted, by omega⟩, And.left⟩
  · rw [of_text_ok_iff, ← of_text_iff, key_read]
  · rintro s s' n n' read read' op op' rfl rfl
    rw [of_text_ok_iff] at read read'
    rw [Operation.acts_alike_iff]
    constructor
    · intro same
      exact ⟨op.number.value, read, same ▸ read'⟩
    · rintro ⟨v, denoted, denoted'⟩
      exact value_injective ((denotes_unique read denoted).trans (denotes_unique denoted' read'))

theorem surrounded_denotes {before sign digits after : List Char} {value : Nat} (blank : before.all Text.isBlank = true)
    (signed : sign = [] ∨ sign = ['+']) (present : digits ≠ []) (all : digits.all Char.isDigit = true)
    (denoted : Nat.ofDigitChars 10 digits 0 = value) (blank' : after.all Text.isBlank = true) :
    Denotes (.ofList (before ++ (sign ++ digits ++ after))) value :=
  ⟨before, sign, digits, after, List.all_eq_true.1 blank, signed, present, List.all_eq_true.1 all, denoted,
    List.all_eq_true.1 blank', String.toList_ofList⟩

-- Signed and padded, with a blank beyond ASCII; and the least number that is too great.
theorem seven_addresses_one_entry :
    (∀ key, (Operation.start ⟨7, by decide⟩ ⟨0, 0⟩).ActsOn key ↔
      (Operation.complete ⟨7, by decide⟩ ⟨1, 0⟩).ActsOn key) ∧
    ofText "\u3000+0007\n" = .ok ⟨7, by decide⟩ ∧
    ofText "4294967296" = .error (.invalidNumber "4294967296") := by
  obtain ⟨accepts, refuses, _, _, _, address⟩ := texts_address_entries
  have padded : Denotes (.ofList (['\u3000'] ++ (['+'] ++ ['0', '0', '0', '7'] ++ ['\n']))) 7 :=
    surrounded_denotes rfl (.inr rfl) (by simp) rfl rfl rfl
  have plain : Denotes (.ofList ([] ++ ([] ++ ['7'] ++ []))) 7 :=
    surrounded_denotes rfl (.inl rfl) (by simp) rfl rfl rfl
  have great : Denotes (.ofList ([] ++ ([] ++ ['4', '2', '9', '4', '9', '6', '7', '2', '9', '6'] ++ []))) 4294967296 :=
    surrounded_denotes rfl (.inl rfl) (by simp) rfl rfl rfl
  have read := (accepts _ ⟨7, by decide⟩).2 ⟨padded, by decide⟩
  have read' := (accepts _ ⟨7, by decide⟩).2 ⟨plain, by decide⟩
  refine ⟨(address _ _ _ _ read read' _ _ rfl rfl).2 ⟨7, padded, plain⟩, read, refuses _ fun v small denoted => ?_⟩
  have same := denotes_unique denoted great
  omega

end SprintNumber

end SprintLedger
