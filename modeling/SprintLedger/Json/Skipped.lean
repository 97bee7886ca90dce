import SprintLedger.Json.Document

set_option autoImplicit false

namespace SprintLedger.Json

-- Neither a number beyond the greatest double nor half a surrogate pair is a fault here.
def skipScalar : List Char → Outcome Unit
  | [] => .error .truncated
  | c :: rest =>
    if c = '"' then skippedString.run rest
    else if c = 'n' then readLiteral ['u', 'l', 'l'] () rest
    else if c = 't' then readLiteral ['r', 'u', 'e'] () rest
    else if c = 'f' then readLiteral ['a', 'l', 's', 'e'] () rest
    else if c = '-' ∨ c.isDigit then ((numeral .malformed).run (c :: rest)).map fun _ => ()
    else .error .malformed

theorem skip_scalar_length {cs rest : List Char} {u : Unit}
    (h : skipScalar cs = .ok (u, rest)) : rest.length < cs.length := by
  unfold skipScalar at h
  split at h
  · simp at h
  · simp only [List.length_cons, Nat.lt_succ_iff]
    split at h
    · exact Nat.le_of_lt (skippedString.consumes h)
    · repeat' split at h
      · exact read_literal_length h
      · exact read_literal_length h
      · exact read_literal_length h
      · obtain ⟨_, h, _⟩ := Outcome.map_eq_ok.1 h
        exact Nat.le_of_lt_succ ((numeral .malformed).consumes h)
      · simp at h

def skipWith (inner : Option (Reader Unit)) (cs : List Char) : Outcome Unit :=
  match skipSpace cs with
  | '[' :: rest =>
    match inner with
    | none => .error .malformed
    | some item => readEnclosed ']' (fun _ => item) () rest
  | '{' :: rest =>
    match inner with
    | none => .error .malformed
    | some item => readMembers skippedString (fun _ _ => .ok item) () rest
  | cs => skipScalar cs

theorem skip_with_length {inner : Option (Reader Unit)} {cs rest : List Char} {u : Unit}
    (h : skipWith inner cs = .ok (u, rest)) : rest.length < cs.length := by
  have shorter := skip_space_length cs
  unfold skipWith at h
  split at h
  · rename_i hs
    rw [hs, List.length_cons] at shorter
    split at h
    · simp at h
    · have := read_enclosed_length h
      omega
  · rename_i hs
    rw [hs, List.length_cons] at shorter
    split at h
    · simp at h
    · have := read_enclosed_length h
      omega
  · have := skip_scalar_length h
    omega

def skippedTo : Nat → Reader Unit
  | 0 => ⟨fun cs => skipWith none cs, skip_with_length⟩
  | depth + 1 => ⟨fun cs => skipWith (some (skippedTo depth)) cs, skip_with_length⟩

-- A value that is passed over. No text nests deeper than it is long.
def skipped : Reader Unit where
  run cs := (skippedTo cs.length).run cs
  consumes h := (skippedTo _).consumes h

end SprintLedger.Json
