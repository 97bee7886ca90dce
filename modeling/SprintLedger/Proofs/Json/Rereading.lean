import SprintLedger.Proofs.Json.NumberTexts
import SprintLedger.Proofs.Json.Values

set_option autoImplicit false

namespace SprintLedger.Json.Value

mutual

-- A value as it is read once it has been written. Only its doubles may be others then.
def reread : Value → Value
  | .null => .null
  | .bool b => .bool b
  | .number n => .number n.reread
  | .string s => .string s
  | .array vs => .array (rereadElements vs)
  | .object ms => .object (rereadMembers ms)

def rereadElements : List Value → List Value
  | [] => []
  | v :: vs => v.reread :: rereadElements vs

def rereadMembers : List (String × Value) → List (String × Value)
  | [] => []
  | (k, v) :: ms => (k, v.reread) :: rereadMembers ms

end

mutual

def doubles : Value → List Double
  | .null => []
  | .bool _ => []
  | .number (.integer _ _) => []
  | .number (.double x) => [x]
  | .string _ => []
  | .array vs => elementsDoubles vs
  | .object ms => membersDoubles ms

def elementsDoubles : List Value → List Double
  | [] => []
  | v :: vs => v.doubles ++ elementsDoubles vs

def membersDoubles : List (String × Value) → List Double
  | [] => []
  | (_, v) :: ms => v.doubles ++ membersDoubles ms

end

theorem reread_elements_map (vs : List Value) : rereadElements vs = vs.map reread := by
  induction vs with
  | nil => rfl
  | cons v vs ih => rw [rereadElements, ih, List.map_cons]

theorem reread_members_map (ms : List (String × Value)) :
    rereadMembers ms = ms.map fun m => (m.1, m.2.reread) := by
  induction ms with
  | nil => rfl
  | cons m ms ih =>
    obtain ⟨k, v⟩ := m
    rw [rereadMembers, ih, List.map_cons]

theorem members_doubles_forall {p : Double → Prop} {ms : List (String × Value)} :
    (∀ x ∈ membersDoubles ms, p x) ↔ ∀ m ∈ ms, ∀ x ∈ m.2.doubles, p x := by
  induction ms with
  | nil => simp [membersDoubles]
  | cons m ms ih => rw [membersDoubles, List.forall_mem_append, ih, List.forall_mem_cons]

mutual

theorem reread_settled : ∀ v : Value, (∀ x ∈ v.doubles, x.ReadsBack) → v.reread = v
  | .null, _ => rfl
  | .bool _, _ => rfl
  | .number (.integer n word), _ => congrArg Value.number (integer_reread n word)
  | .number (.double _), back => congrArg Value.number (double_reread (List.forall_mem_singleton.1 back))
  | .string _, _ => rfl
  | .array vs, back => congrArg Value.array (reread_elements_settled vs back)
  | .object ms, back => congrArg Value.object (reread_members_settled ms back)

theorem reread_elements_settled :
    ∀ vs : List Value, (∀ x ∈ elementsDoubles vs, x.ReadsBack) → rereadElements vs = vs
  | [], _ => rfl
  | v :: vs, back => by
    obtain ⟨head, tail⟩ := List.forall_mem_append.1 back
    rw [rereadElements, reread_settled v head, reread_elements_settled vs tail]

theorem reread_members_settled :
    ∀ ms : List (String × Value), (∀ x ∈ membersDoubles ms, x.ReadsBack) → rereadMembers ms = ms
  | [], _ => rfl
  | (_, v) :: ms, back => by
    obtain ⟨head, tail⟩ := List.forall_mem_append.1 back
    rw [rereadMembers, reread_settled v head, reread_members_settled ms tail]

end

theorem reread_null {w : Value} (same : .null = w.reread) : w = .null := by
  cases w <;> cases same
  rfl

theorem reread_string {w : Value} {s : String} (same : .string s = w.reread) : w = .string s := by
  cases w <;> cases same
  rfl

theorem reread_array {w : Value} {vs : List Value} (same : .array vs = w.reread) :
    ∃ ws, w = .array ws ∧ vs = ws.map reread := by
  cases w <;> cases same
  exact ⟨_, rfl, reread_elements_map _⟩

theorem reread_object {w : Value} {ms : List (String × Value)} (same : .object ms = w.reread) :
    ∃ ns, w = .object ns ∧ ms = ns.map fun n => (n.1, n.2.reread) := by
  cases w <;> cases same
  exact ⟨_, rfl, reread_members_map _⟩

mutual

theorem reread_depth : ∀ v : Value, v.reread.depth = v.depth
  | .null => rfl
  | .bool _ => rfl
  | .number _ => rfl
  | .string _ => rfl
  | .array vs => congrArg Nat.succ (reread_elements_depth vs)
  | .object ms => congrArg Nat.succ (reread_members_depth ms)

theorem reread_elements_depth : ∀ vs : List Value, elementsDepth (rereadElements vs) = elementsDepth vs
  | [] => rfl
  | v :: vs => by rw [rereadElements, elementsDepth, elementsDepth, reread_depth v, reread_elements_depth vs]

theorem reread_members_depth : ∀ ms : List (String × Value), membersDepth (rereadMembers ms) = membersDepth ms
  | [] => rfl
  | (_, v) :: ms => by rw [rereadMembers, membersDepth, membersDepth, reread_depth v, reread_members_depth ms]

end

mutual

theorem reread_ordered : ∀ v : Value, v.Ordered → v.reread.Ordered
  | .null, _ => trivial
  | .bool _, _ => trivial
  | .number _, _ => trivial
  | .string _, _ => trivial
  | .array vs, ordered => reread_elements_ordered vs ordered
  | .object ms, ordered => by
    refine ⟨?_, reread_members_ordered ms ordered.2⟩
    rw [reread_members_map]
    exact List.pairwise_map.2 ordered.1

theorem reread_elements_ordered : ∀ vs : List Value, ElementsOrdered vs → ElementsOrdered (rereadElements vs)
  | [], _ => trivial
  | v :: vs, ordered => ⟨reread_ordered v ordered.1, reread_elements_ordered vs ordered.2⟩

theorem reread_members_ordered :
    ∀ ms : List (String × Value), MembersOrdered ms → MembersOrdered (rereadMembers ms)
  | [], _ => trivial
  | (_, v) :: ms, ordered => ⟨reread_ordered v ordered.1, reread_members_ordered ms ordered.2⟩

end

end SprintLedger.Json.Value
