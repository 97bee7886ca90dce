import Mathlib.Data.List.Sort
import SprintLedger.Proofs.Sprint.Documents
import SprintLedger.Proofs.Text.Decimals

set_option autoImplicit false

namespace SprintLedger

theorem ascending_unique {ns ms : List SprintNumber} (ascending : ns.Pairwise (·.value < ·.value))
    (ascending' : ms.Pairwise (·.value < ·.value)) (same : ∀ n, n ∈ ns ↔ n ∈ ms) : ns = ms := by
  have irreflexive : Std.Irrefl fun n m : SprintNumber => n.value < m.value := ⟨fun _ => Nat.lt_irrefl _⟩
  have antisymmetric : Std.Antisymm fun n m : SprintNumber => n.value < m.value :=
    ⟨fun _ _ less greater => absurd greater (Nat.lt_asymm less)⟩
  exact ascending.eq_of_mem_iff ascending' same

-- The sprints that both lists hold stand in the one as they stand in the other.
def SameOrder (ns ms : List SprintNumber) : Prop := ns.filter (· ∈ ms) = ms.filter (· ∈ ns)

theorem ascending_same_order {ns ms : List SprintNumber} (ascending : ns.Pairwise (·.value < ·.value))
    (ascending' : ms.Pairwise (·.value < ·.value)) : SameOrder ns ms := by
  refine ascending_unique (ascending.filter _) (ascending'.filter _) fun n => ?_
  simp only [List.mem_filter, decide_eq_true_eq]
  exact and_comm

namespace SprintNumber

theorem key_length (n : SprintNumber) : n.key.length = n.digits.length := by
  rw [← String.length_toList, key_list]

theorem key_less_iff {n m : SprintNumber} (same : n.key.length = m.key.length) : n.key < m.key ↔ n.value < m.value := by
  rw [key_length, key_length] at same
  have order := Text.digits_less_iff same (fun c => Text.decimal_digit) fun d => Text.decimal_digit
  rw [digits, digits, Text.of_digits_decimal, Text.of_digits_decimal] at order
  show n.key.toList < m.key.toList ↔ n.value < m.value
  rw [key_list, key_list]
  exact order

theorem key_bytes_less_iff {n m : SprintNumber} (same : n.key.length = m.key.length) :
    n.key.toUTF8.data.toList < m.key.toUTF8.data.toList ↔ n.value < m.value :=
  text_less_iff_bytes.symm.trans (key_less_iff same)

theorem small_key_length {n : SprintNumber} (small : n.value < 1000) : n.key.length = 3 := by
  rw [key_length]
  exact Text.decimal_length (by decide) small

theorem keys_ascending {ns : List SprintNumber} (small : ∀ n ∈ ns, n.value < 1000)
    (ascending : ns.Pairwise (·.value < ·.value)) : (ns.map key).Pairwise (· < ·) := by
  refine List.pairwise_map.2 (ascending.imp_of_mem fun {n m} here there less => ?_)
  have same : n.key.length = m.key.length := by rw [small_key_length (small n here), small_key_length (small m there)]
  exact (key_less_iff same).2 less

-- The keys of a map are listed as their numbers are, as long as these are small.
theorem keys_listed {keys : List String} {ns : List SprintNumber} (ordered : keys.Pairwise (· < ·))
    (small : ∀ n ∈ ns, n.value < 1000) (ascending : ns.Pairwise (·.value < ·.value))
    (same : ∀ k, k ∈ keys ↔ k ∈ ns.map key) : keys = ns.map key := by
  have irreflexive : Std.Irrefl fun k l : String => k < l := ⟨String.lt_irrefl⟩
  have antisymmetric : Std.Antisymm fun k l : String => k < l :=
    ⟨fun _ _ less greater => absurd greater (String.lt_asymm less)⟩
  exact ordered.eq_of_mem_iff (keys_ascending small ascending) same

end SprintNumber

end SprintLedger
