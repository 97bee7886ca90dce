import SprintLedger.Text.Blank

set_option autoImplicit false

namespace SprintLedger.Text

-- Nothing of it is trimmed, at either end.
def Solid (cs : List Char) : Prop := ∀ c ∈ cs, isBlank c = false

instance (cs : List Char) : Decidable (Solid cs) :=
  decidable_of_iff (cs.all (!isBlank ·) = true) (by simp [Solid])

theorem ranges_apart {table other : List (Nat × Nat)}
    (apart : ∀ r ∈ table, ∀ s ∈ other, r.2 < s.1 ∨ s.2 < r.1) {c : Char} (member : inRanges table c = true) :
    inRanges other c = false := by
  obtain ⟨r, inTable, low, high⟩ := in_ranges_iff.1 member
  apply Bool.eq_false_iff.2
  intro both
  obtain ⟨s, inOther, low', high'⟩ := in_ranges_iff.1 both
  have := apart r inTable s inOther
  omega

theorem drop_solid {cs : List Char} (solid : Solid cs) : cs.dropWhile isBlank = cs := by
  cases cs with
  | nil => rfl
  | cons c cs => exact List.dropWhile_cons_of_neg (by simp [solid c])

theorem solid_reverse {cs : List Char} (solid : Solid cs) : Solid cs.reverse := by
  intro c member
  exact solid c (List.mem_reverse.1 member)

theorem trim_end_solid {cs : List Char} (solid : Solid cs) : trimEnd cs = cs := by
  rw [trimEnd, drop_solid (solid_reverse solid), List.reverse_reverse]

theorem trim_solid {cs : List Char} (solid : Solid cs) : trim cs = cs := by
  rw [trim, trimStart, drop_solid solid, trim_end_solid solid]

theorem trim_end_front {front : List Char} (solid : Solid front) (cs : List Char) :
    trimEnd (front ++ cs) = front ++ trimEnd cs := by
  rw [trimEnd, List.reverse_append, List.dropWhile_append, drop_solid (solid_reverse solid)]
  by_cases gone : (cs.reverse.dropWhile isBlank).isEmpty = true
  · rw [if_pos gone, trimEnd, List.isEmpty_iff.1 gone]
    simp
  · rw [if_neg gone, trimEnd]
    simp

theorem trim_end_prefix (cs : List Char) : trimEnd cs <+: cs := by
  have kept := List.reverse_prefix.2 (List.dropWhile_suffix isBlank (l := cs.reverse))
  rwa [List.reverse_reverse] at kept

def AllBlank (cs : List Char) : Prop := ∀ c ∈ cs, isBlank c = true

instance (cs : List Char) : Decidable (AllBlank cs) := decidable_of_iff (cs.all isBlank = true) List.all_eq_true

theorem spaces_blank (k : Nat) : AllBlank (List.replicate k ' ') := by
  intro c member
  rw [List.eq_of_mem_replicate member]
  rfl

theorem drop_blank {cs : List Char} (blank : AllBlank cs) (rest : List Char) :
    (cs ++ rest).dropWhile isBlank = rest.dropWhile isBlank :=
  List.dropWhile_append_of_pos blank

theorem drop_all_blank {cs : List Char} (blank : AllBlank cs) : cs.dropWhile isBlank = [] := by
  have dropped := drop_blank blank []
  rwa [List.append_nil] at dropped

theorem trim_end_blank {cs : List Char} (blank : AllBlank cs) : trimEnd cs = [] := by
  rw [trimEnd, drop_all_blank fun c member => blank c (List.mem_reverse.1 member)]
  rfl

theorem drop_shown {cs : List Char} (shown : ¬AllBlank cs) : cs.dropWhile isBlank ≠ [] := by
  intro empty
  refine shown fun c member => ?_
  rw [← List.takeWhile_append_dropWhile (p := isBlank) (l := cs), empty, List.append_nil] at member
  exact List.all_eq_true.1 List.all_takeWhile c member

theorem trim_end_behind_blank {rest : List Char} (blank : AllBlank rest) (front : List Char) :
    trimEnd (front ++ rest) = trimEnd front := by
  rw [trimEnd, List.reverse_append, drop_blank fun c member => blank c (List.mem_reverse.1 member), trimEnd]

theorem trim_end_behind_shown {rest : List Char} (shown : ¬AllBlank rest) (front : List Char) :
    trimEnd (front ++ rest) = front ++ trimEnd rest := by
  have left : rest.reverse.dropWhile isBlank ≠ [] :=
    drop_shown fun blank => shown fun c member => blank c (List.mem_reverse.2 member)
  rw [trimEnd, List.reverse_append, List.dropWhile_append, if_neg (by simpa using left), List.reverse_append,
    List.reverse_reverse, trimEnd]

theorem trim_surrounded {before core after : List Char} (blank : AllBlank before) (solid : Solid core)
    (blank' : AllBlank after) : trim (before ++ (core ++ after)) = core := by
  rw [trim, trimStart, drop_blank blank]
  cases core with
  | nil =>
    rw [List.nil_append, drop_all_blank blank']
    rfl
  | cons c cs =>
    have first : ¬isBlank c = true := by simp [solid c]
    rw [List.cons_append, List.dropWhile_cons_of_neg first, ← List.cons_append, trim_end_front solid,
      trim_end_blank blank', List.append_nil]

theorem trim_end_split (cs : List Char) : ∃ after, AllBlank after ∧ cs = trimEnd cs ++ after := by
  refine ⟨(cs.reverse.takeWhile isBlank).reverse, fun c member => ?_, ?_⟩
  · exact List.all_eq_true.1 List.all_takeWhile c (List.mem_reverse.1 member)
  · rw [trimEnd, ← List.reverse_append, List.takeWhile_append_dropWhile, List.reverse_reverse]

theorem trim_end_last (cs : List Char) : ∀ c ∈ (trimEnd cs).getLast?, isBlank c = false := by
  intro c last
  have kept := List.head?_dropWhile_not isBlank cs.reverse
  rw [trimEnd, List.getLast?_reverse] at last
  rwa [Option.mem_def.1 last] at kept

theorem trim_end_ended {cs : List Char} (ends : ∀ c ∈ cs.getLast?, isBlank c = false) : trimEnd cs = cs := by
  obtain ⟨after, blank, split⟩ := trim_end_split cs
  cases last : after.getLast? with
  | none =>
    rw [List.getLast?_eq_none_iff.1 last, List.append_nil] at split
    exact split.symm
  | some c =>
    have shown := ends c (by rw [split, List.getLast?_append, last]; rfl)
    rw [blank c (List.mem_of_getLast? last)] at shown
    cases shown

theorem trim_split (cs : List Char) :
    ∃ before after, AllBlank before ∧ AllBlank after ∧ cs = before ++ (trim cs ++ after) := by
  obtain ⟨after, blank, split⟩ := trim_end_split (trimStart cs)
  refine ⟨cs.takeWhile isBlank, after, List.all_eq_true.1 List.all_takeWhile, blank, ?_⟩
  rw [trim, ← split, trimStart, List.takeWhile_append_dropWhile]

end SprintLedger.Text
