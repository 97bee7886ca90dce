import SprintLedger.Text.Color

set_option autoImplicit false

namespace SprintLedger.Text

def codes : List (List Char) := [green.toList, yellow.toList, plain.toList]

-- The codes are looked for from left to right, and the search goes on behind the one that was found.
def withoutCodes (cs : List Char) : List Char :=
  match cs with
  | [] => []
  | c :: rest =>
    match codes.find? (·.isPrefixOf (c :: rest)) with
    | some code => withoutCodes (rest.drop (code.length - 1))
    | none => c :: withoutCodes rest
termination_by cs.length
decreasing_by all_goals simp only [List.length_drop, List.length_cons]; omega

def occurrences (code : List Char) : List Char → Nat
  | [] => 0
  | c :: rest => occurrences code rest + if code.isPrefixOf (c :: rest) then 1 else 0

-- Every code begins with the one character that no other text is to hold.
def Unescaped (cs : List Char) : Prop := '\x1b' ∉ cs

theorem code_begins {code : List Char} (listed : code ∈ codes) : ∃ rest, code = '\x1b' :: rest := by
  simp only [codes, List.mem_cons, List.not_mem_nil, or_false] at listed
  rcases listed with rfl | rfl | rfl <;> exact ⟨_, rfl⟩

theorem no_code_here {code : List Char} (listed : code ∈ codes) {c : Char} (other : c ≠ '\x1b') (rest : List Char) :
    code.isPrefixOf (c :: rest) = false := by
  obtain ⟨tail, rfl⟩ := code_begins listed
  simp [List.isPrefixOf, Ne.symm other]

theorem without_unescaped {front : List Char} (unescaped : Unescaped front) (rest : List Char) :
    withoutCodes (front ++ rest) = front ++ withoutCodes rest := by
  induction front with
  | nil => rfl
  | cons c front ih =>
    have other : c ≠ '\x1b' := fun same => unescaped (same ▸ List.mem_cons_self)
    have none : codes.find? (·.isPrefixOf (c :: (front ++ rest))) = .none :=
      List.find?_eq_none.2 fun code listed => by simp [no_code_here listed other]
    rw [List.cons_append, withoutCodes, none]
    exact congrArg (c :: ·) (ih fun member => unescaped (List.mem_cons_of_mem c member))

theorem without_code {code : List Char} (listed : code ∈ codes) (rest : List Char) :
    withoutCodes (code ++ rest) = withoutCodes rest := by
  simp only [codes, List.mem_cons, List.not_mem_nil, or_false] at listed
  rcases listed with rfl | rfl | rfl <;> simp [green, yellow, plain, withoutCodes, codes]

theorem occurrences_unescaped {code front : List Char} (listed : code ∈ codes) (unescaped : Unescaped front)
    (rest : List Char) : occurrences code (front ++ rest) = occurrences code rest := by
  induction front with
  | nil => rfl
  | cons c front ih =>
    have other : c ≠ '\x1b' := fun same => unescaped (same ▸ List.mem_cons_self)
    rw [List.cons_append, occurrences, no_code_here listed other,
      ih fun member => unescaped (List.mem_cons_of_mem c member)]
    simp

theorem occurrences_code {code code' : List Char} (listed : code ∈ codes) (listed' : code' ∈ codes) (rest : List Char) :
    occurrences code (code' ++ rest) = occurrences code rest + if code = code' then 1 else 0 := by
  simp only [codes, List.mem_cons, List.not_mem_nil, or_false] at listed listed'
  rcases listed with rfl | rfl | rfl <;> rcases listed' with rfl | rfl | rfl <;>
    simp [green, yellow, plain, occurrences]

end SprintLedger.Text
