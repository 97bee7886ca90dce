set_option autoImplicit false

namespace SprintLedger.Text

variable {mark : Char}

theorem split_intercalate {parts : List (List Char)} (present : parts ≠ []) :
    ([mark].intercalate parts).splitOn mark = parts.flatMap (·.splitOn mark) := by
  induction parts with
  | nil => exact absurd rfl present
  | cons part parts ih =>
    cases parts with
    | nil => simp
    | cons next parts =>
      rw [List.intercalate_cons_cons, List.append_assoc, List.singleton_append, List.splitOn_append_cons_self,
        ih (List.cons_ne_nil _ _), ← List.flatMap_cons]

theorem intercalate_behind (part : List Char) (parts : List (List Char)) :
    [mark].intercalate (part :: parts) = part ++ parts.flatMap (mark :: ·) := by
  induction parts generalizing part with
  | nil => simp
  | cons next parts ih =>
    rw [List.intercalate_cons_cons, ih, List.flatMap_cons]
    simp

theorem split_length (cs : List Char) : (cs.splitOn mark).length = cs.count mark + 1 := by
  induction cs with
  | nil => rfl
  | cons c cs ih =>
    rw [List.splitOn_cons_eq_if_modifyHead, List.count_cons]
    by_cases hit : (c == mark) = true
    · rw [if_pos hit, if_pos hit, List.length_cons, ih]
    · rw [if_neg hit, if_neg hit, List.length_modifyHead, ih]

theorem split_front {front : List Char} (whole : mark ∉ front) (cs : List Char) :
    ∃ first more, (front ++ cs).splitOn mark = (front ++ first) :: more ∧ first <+: cs := by
  by_cases marked : mark ∈ cs
  · obtain ⟨first, rest, rfl, before⟩ := List.eq_append_cons_of_mem marked
    refine ⟨first, rest.splitOn mark, ?_, List.prefix_append _ _⟩
    rw [← List.append_assoc, List.splitOn_append_cons_self_of_not_mem]
    simp [whole, before]
  · refine ⟨cs, [], List.splitOn_eq_singleton ?_, List.prefix_rfl⟩
    simp [whole, marked]

end SprintLedger.Text
