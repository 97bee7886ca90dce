import SprintLedger.FileTree
import SprintLedger.Proofs.Text.Bytes

set_option autoImplicit false

namespace SprintLedger

instance lawful_bytes : LawfulBEq ByteArray where
  eq_of_beq {a b} same := ByteArray.ext (eq_of_beq (show (a.data == b.data) = true from same))
  rfl {a} := (BEq.rfl : (a.data == a.data) = true)

namespace Place

def LeadsTo (location : Location) : Place → Prop
  | .vacant there => there = location
  | .file there _ => there = location
  | .directory _ => False
  | .nowhere => False

end Place

namespace FileTree

-- Neither a directory nor a link stands there.
def IsFree (t : FileTree) (location : Location) : Prop :=
  t.node? location = none ∨ ∃ content, t.node? location = some (.file content)

theorem free_ne_root {t : FileTree} {location : Location} (free : t.IsFree location) : location ≠ [] := by
  rintro rfl
  rcases free with absent | ⟨content, found⟩
  · cases absent
  · cases found

theorem lookup_others {nodes : List (Location × Node)} {location here : Location} (other : here ≠ location) :
    (nodes.filter (·.1 != location)).lookup here = nodes.lookup here := by
  induction nodes with
  | nil => rfl
  | cons n nodes ih =>
    obtain ⟨there, node⟩ := n
    by_cases dropped : there = location
    · have apart : (here == there) = false := beq_eq_false_iff_ne.2 (dropped ▸ other)
      rw [List.filter_cons_of_neg (by simp [dropped]), ih, List.lookup_cons, apart]
    · rw [List.filter_cons_of_pos (by simp [dropped]), List.lookup_cons, List.lookup_cons, ih]

theorem node_put_there (t : FileTree) {location : Location} (below : location ≠ []) (node : Node) :
    (t.put location node).node? location = some node := by
  rw [node?, if_neg below]
  exact List.lookup_cons_self

theorem node_put_elsewhere (t : FileTree) {location here : Location} (other : here ≠ location) (node : Node) :
    (t.put location node).node? here = t.node? here := by
  have apart : (here == location) = false := beq_eq_false_iff_ne.2 other
  have found : (t.put location node).nodes.lookup here = t.nodes.lookup here := by
    rw [put, List.lookup_cons, apart]
    exact lookup_others other
  rw [node?, node?, found]

theorem follow_free {t : FileTree} {enter : Location → List (List Char) → Place} {location : Location}
    (behind : ∀ here segments, (enter here segments).LeadsTo location → t.IsFree location) {here : Location}
    {segments : List (List Char)} (leads : (t.follow enter here segments).LeadsTo location) :
    t.IsFree location := by
  induction segments generalizing here with
  | nil => cases leads
  | cons segment rest ih =>
    unfold follow at leads
    split at leads
    · exact ih leads
    split at leads
    · exact ih leads
    split at leads
    · cases leads
    dsimp only at leads
    split at leads
    · rename_i absent
      split at leads
      · obtain rfl := leads
        exact .inl absent
      · cases leads
    · rename_i content found
      split at leads
      · obtain rfl := leads
        exact .inr ⟨content, found⟩
      · cases leads
    · exact ih leads
    · exact behind _ _ leads

theorem walk_free {t : FileTree} {location : Location} {links : Nat} {here : Location}
    {segments : List (List Char)} (leads : (t.walk links here segments).LeadsTo location) :
    t.IsFree location := by
  induction links generalizing here segments with
  | zero => exact follow_free (fun _ _ => False.elim) leads
  | succ links ih => exact follow_free (fun _ _ => ih) leads

-- Only the last step looks at the location itself, so the directories and links before it are as they were.
theorem follow_put {t : FileTree} {enter enter' : Location → List (List Char) → Place} {location : Location}
    (free : t.IsFree location) (content : ByteArray)
    (behind : ∀ here segments, (enter here segments).LeadsTo location →
      enter' here segments = .file location content) {here : Location} {segments : List (List Char)}
    (leads : (t.follow enter here segments).LeadsTo location) :
    (t.put location (.file content)).follow enter' here segments = .file location content := by
  induction segments generalizing here with
  | nil => cases leads
  | cons segment rest ih =>
    unfold follow at leads ⊢
    by_cases skipped : segment = [] ∨ segment = ['.']
    · rw [if_pos skipped] at leads ⊢
      exact ih leads
    rw [if_neg skipped] at leads ⊢
    by_cases up : segment = ['.', '.']
    · rw [if_pos up] at leads ⊢
      exact ih leads
    rw [if_neg up] at leads ⊢
    by_cases long : maxNameSize < (nameOf segment).size
    · rw [if_pos long] at leads
      cases leads
    rw [if_neg long] at leads ⊢
    dsimp only at leads ⊢
    by_cases last : here ++ [nameOf segment] = location
    · have done : rest = [] := by
        rw [last] at leads
        rcases free with absent | ⟨old, found⟩
        · simp only [absent] at leads
          exact Decidable.byContradiction fun more => by rwa [if_neg more] at leads
        · simp only [found] at leads
          exact Decidable.byContradiction fun more => by rwa [if_neg more] at leads
      rw [last, node_put_there t (free_ne_root free)]
      dsimp only
      rw [if_pos done]
    · rw [node_put_elsewhere t last]
      cases found : t.node? (here ++ [nameOf segment]) with
      | none =>
        simp only [found] at leads
        split at leads
        · exact absurd leads last
        · cases leads
      | some there =>
        cases there with
        | file old =>
          simp only [found] at leads
          split at leads
          · exact absurd leads last
          · cases leads
        | directory =>
          simp only [found] at leads
          exact ih leads
        | link target =>
          simp only [found] at leads
          exact behind _ _ leads

theorem walk_put {t : FileTree} {location : Location} (free : t.IsFree location) (content : ByteArray)
    {links : Nat} {here : Location} {segments : List (List Char)}
    (leads : (t.walk links here segments).LeadsTo location) :
    (t.put location (.file content)).walk links here segments = .file location content := by
  induction links generalizing here segments with
  | zero => exact follow_put free content (fun _ _ => False.elim) leads
  | succ links ih => exact follow_put free content (fun _ _ => ih) leads

theorem place_put {t : FileTree} {p : Path} {location : Location} (leads : (t.place p).LeadsTo location)
    (content : ByteArray) : (t.put location (.file content)).place p = .file location content := by
  unfold place at leads ⊢
  split at leads
  · cases leads
  · rename_i valid
    rw [if_neg valid]
    exact walk_put (walk_free leads) content leads

theorem write_place {t : FileTree} {p : Path} {location : Location} (leads : (t.place p).LeadsTo location)
    (content : ByteArray) :
    ∃ t', t.write? p content = some t' ∧ t'.place p = .file location content := by
  refine ⟨t.put location (.file content), ?_, place_put leads content⟩
  unfold write?
  cases found : t.place p with
  | directory there => rw [found] at leads; cases leads
  | nowhere => rw [found] at leads; cases leads
  | vacant there =>
    rw [found] at leads
    obtain rfl : there = location := leads
    rfl
  | file there old =>
    rw [found] at leads
    obtain rfl : there = location := leads
    rfl

end FileTree

end SprintLedger
