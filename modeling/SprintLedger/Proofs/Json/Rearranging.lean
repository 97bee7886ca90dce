import SprintLedger.Proofs.Json.Records

set_option autoImplicit false

namespace SprintLedger.Json

namespace Value

mutual

-- The members of each object in any order, and none of them repeated.
def Rearranged : Value → Value → Prop
  | .null, w => w = .null
  | .bool b, w => w = .bool b
  | .number n, w => w = .number n
  | .string s, w => w = .string s
  | .array vs, w => ∃ ws, w = .array ws ∧ ElementsRearranged vs ws
  | .object ms, w => ms.Pairwise (·.1 ≠ ·.1) ∧
      ∃ ns order, w = .object order ∧ order.Perm ns ∧ MembersRearranged ms ns

def ElementsRearranged : List Value → List Value → Prop
  | [], ws => ws = []
  | v :: vs, ws => ∃ x xs, ws = x :: xs ∧ v.Rearranged x ∧ ElementsRearranged vs xs

def MembersRearranged : List (String × Value) → List (String × Value) → Prop
  | [], ns => ns = []
  | (k, v) :: ms, ns => ∃ x rest, ns = (k, x) :: rest ∧ v.Rearranged x ∧ MembersRearranged ms rest

end

theorem normal_members_perm {ms ns : List (String × Value)} (perm : ms.Perm ns) :
    (normalMembers ms).Perm (normalMembers ns) := by
  rw [normal_members_map, normal_members_map]
  exact perm.map _

theorem normal_members_distinct {ms : List (String × Value)} (distinct : ms.Pairwise (·.1 ≠ ·.1)) :
    (normalMembers ms).Pairwise (·.1 ≠ ·.1) := by
  rw [normal_members_map]
  exact List.pairwise_map.2 distinct

mutual

theorem rearranged_normal : ∀ v w : Value, v.Rearranged w → v.normal = w.normal
  | .null, _, same => by rw [show _ = Value.null from same]
  | .bool b, _, same => by rw [show _ = Value.bool b from same]
  | .number n, _, same => by rw [show _ = Value.number n from same]
  | .string s, _, same => by rw [show _ = Value.string s from same]
  | .array vs, _, same => by
    obtain ⟨ws, rfl, elements⟩ := same
    rw [normal, normal, rearranged_elements_normal vs ws elements]
  | .object ms, _, same => by
    obtain ⟨distinct, ns, order, rfl, perm, members⟩ := same
    have normals := rearranged_members_normal ms ns members
    have apart := normal_members_distinct distinct
    rw [normals] at apart
    rw [normal, normal, normals, SortedMap.of_bindings_perm (normal_members_perm perm.symm) apart]

theorem rearranged_elements_normal : ∀ vs ws : List Value, ElementsRearranged vs ws →
    normalElements vs = normalElements ws
  | [], _, same => by rw [show _ = [] from same]
  | v :: vs, _, same => by
    obtain ⟨x, xs, rfl, first, rest⟩ := same
    rw [normalElements, normalElements, rearranged_normal v x first, rearranged_elements_normal vs xs rest]

theorem rearranged_members_normal : ∀ ms ns : List (String × Value), MembersRearranged ms ns →
    normalMembers ms = normalMembers ns
  | [], _, same => by rw [show _ = [] from same]
  | (k, v) :: ms, _, same => by
    obtain ⟨x, rest, rfl, first, others⟩ := same
    rw [normalMembers, normalMembers, rearranged_normal v x first, rearranged_members_normal ms rest others]

end

end Value

end SprintLedger.Json
