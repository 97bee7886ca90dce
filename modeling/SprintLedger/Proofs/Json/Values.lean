import SprintLedger.Json.Value
import SprintLedger.Proofs.SortedMap

set_option autoImplicit false

namespace SprintLedger.Json.Value

mutual

def depth : Value → Nat
  | .null => 0
  | .bool _ => 0
  | .number _ => 0
  | .string _ => 0
  | .array vs => elementsDepth vs + 1
  | .object ms => membersDepth ms + 1

def elementsDepth : List Value → Nat
  | [] => 0
  | v :: vs => max v.depth (elementsDepth vs)

def membersDepth : List (String × Value) → Nat
  | [] => 0
  | (_, v) :: ms => max v.depth (membersDepth ms)

end

mutual

def normal : Value → Value
  | .null => .null
  | .bool b => .bool b
  | .number n => .number n
  | .string s => .string s
  | .array vs => .array (normalElements vs)
  | .object ms => .object (SortedMap.empty.ofBindings (normalMembers ms)).toList

def normalElements : List Value → List Value
  | [] => []
  | v :: vs => v.normal :: normalElements vs

def normalMembers : List (String × Value) → List (String × Value)
  | [] => []
  | (k, v) :: ms => (k, v.normal) :: normalMembers ms

end

mutual

def Ordered : Value → Prop
  | .null => True
  | .bool _ => True
  | .number _ => True
  | .string _ => True
  | .array vs => ElementsOrdered vs
  | .object ms => ms.Pairwise (·.1 < ·.1) ∧ MembersOrdered ms

def ElementsOrdered : List Value → Prop
  | [] => True
  | v :: vs => v.Ordered ∧ ElementsOrdered vs

def MembersOrdered : List (String × Value) → Prop
  | [] => True
  | (_, v) :: ms => v.Ordered ∧ MembersOrdered ms

end

theorem elements_depth_le {vs : List Value} {d : Nat} :
    elementsDepth vs ≤ d ↔ ∀ v ∈ vs, v.depth ≤ d := by
  induction vs with
  | nil => simp [elementsDepth]
  | cons v vs ih => rw [elementsDepth, Nat.max_le, ih, List.forall_mem_cons]

theorem members_depth_le {ms : List (String × Value)} {d : Nat} :
    membersDepth ms ≤ d ↔ ∀ m ∈ ms, m.2.depth ≤ d := by
  induction ms with
  | nil => simp [membersDepth]
  | cons m ms ih => rw [membersDepth, Nat.max_le, ih, List.forall_mem_cons]

theorem array_depth_le {vs : List Value} {d : Nat} :
    (array vs).depth ≤ d + 1 ↔ ∀ v ∈ vs, v.depth ≤ d := by
  rw [depth, Nat.add_le_add_iff_right, elements_depth_le]

theorem object_depth_le {ms : List (String × Value)} {d : Nat} :
    (object ms).depth ≤ d + 1 ↔ ∀ m ∈ ms, m.2.depth ≤ d := by
  rw [depth, Nat.add_le_add_iff_right, members_depth_le]

theorem normal_elements_map (vs : List Value) : normalElements vs = vs.map normal := by
  induction vs with
  | nil => rfl
  | cons v vs ih => rw [normalElements, ih, List.map_cons]

theorem normal_members_map (ms : List (String × Value)) :
    normalMembers ms = ms.map fun m => (m.1, m.2.normal) := by
  induction ms with
  | nil => rfl
  | cons m ms ih =>
    obtain ⟨k, v⟩ := m
    rw [normalMembers, ih, List.map_cons]

theorem members_ordered_iff {ms : List (String × Value)} :
    MembersOrdered ms ↔ ∀ m ∈ ms, m.2.Ordered := by
  induction ms with
  | nil => simp [MembersOrdered]
  | cons m ms ih => rw [MembersOrdered, ih, List.forall_mem_cons]

mutual

theorem normal_ordered : ∀ v : Value, v.normal.Ordered
  | .null => trivial
  | .bool _ => trivial
  | .number _ => trivial
  | .string _ => trivial
  | .array vs => normal_elements_ordered vs
  | .object ms => by
    refine ⟨SortedMap.ascending _, members_ordered_iff.2 ?_⟩
    exact SortedMap.forall_of_bindings (by simp [SortedMap.empty])
      (members_ordered_iff.1 (normal_members_ordered ms))

theorem normal_elements_ordered : ∀ vs : List Value, ElementsOrdered (normalElements vs)
  | [] => trivial
  | v :: vs => ⟨normal_ordered v, normal_elements_ordered vs⟩

theorem normal_members_ordered : ∀ ms : List (String × Value), MembersOrdered (normalMembers ms)
  | [] => trivial
  | (_, v) :: ms => ⟨normal_ordered v, normal_members_ordered ms⟩

end

mutual

theorem ordered_normal : ∀ v : Value, v.Ordered → v.normal = v
  | .null, _ => rfl
  | .bool _, _ => rfl
  | .number _, _ => rfl
  | .string _, _ => rfl
  | .array vs, ordered => by rw [normal, ordered_normal_elements vs ordered]
  | .object ms, ordered => by
    rw [normal, ordered_normal_members ms ordered.2, SortedMap.of_bindings_ascending ordered.1]

theorem ordered_normal_elements : ∀ vs : List Value, ElementsOrdered vs → normalElements vs = vs
  | [], _ => rfl
  | v :: vs, ordered => by
    rw [normalElements, ordered_normal v ordered.1, ordered_normal_elements vs ordered.2]

theorem ordered_normal_members :
    ∀ ms : List (String × Value), MembersOrdered ms → normalMembers ms = ms
  | [], _ => rfl
  | (_, v) :: ms, ordered => by
    rw [normalMembers, ordered_normal v ordered.1, ordered_normal_members ms ordered.2]

end

mutual

theorem normal_depth_le : ∀ v : Value, v.normal.depth ≤ v.depth
  | .null => Nat.le_refl _
  | .bool _ => Nat.le_refl _
  | .number _ => Nat.le_refl _
  | .string _ => Nat.le_refl _
  | .array vs => Nat.succ_le_succ (normal_elements_depth_le vs)
  | .object ms => by
    refine object_depth_le.2 (SortedMap.forall_of_bindings (by simp [SortedMap.empty]) ?_)
    exact members_depth_le.1 (normal_members_depth_le ms)

theorem normal_elements_depth_le :
    ∀ vs : List Value, elementsDepth (normalElements vs) ≤ elementsDepth vs
  | [] => Nat.le_refl _
  | v :: vs => by
    have head := normal_depth_le v
    have tail := normal_elements_depth_le vs
    simp only [normalElements, elementsDepth]
    omega

theorem normal_members_depth_le :
    ∀ ms : List (String × Value), membersDepth (normalMembers ms) ≤ membersDepth ms
  | [] => Nat.le_refl _
  | (_, v) :: ms => by
    have head := normal_depth_le v
    have tail := normal_members_depth_le ms
    simp only [normalMembers, membersDepth]
    omega

end

end SprintLedger.Json.Value
