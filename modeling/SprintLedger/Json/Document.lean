import SprintLedger.Json.Escape
import SprintLedger.Json.Numeral
import SprintLedger.Json.Value

set_option autoImplicit false

namespace SprintLedger.Json

def readScalar : List Char → Outcome Value
  | [] => .error .truncated
  | c :: rest =>
    if c = '"' then (string.run rest).map .string
    else if c = 'n' then readLiteral ['u', 'l', 'l'] .null rest
    else if c = 't' then readLiteral ['r', 'u', 'e'] (.bool true) rest
    else if c = 'f' then readLiteral ['a', 'l', 's', 'e'] (.bool false) rest
    else if c = '-' ∨ c.isDigit then (number.run (c :: rest)).map .number
    else .error .malformed

theorem read_scalar_length {cs rest : List Char} {v : Value} (h : readScalar cs = .ok (v, rest)) :
    rest.length < cs.length := by
  unfold readScalar at h
  split at h
  · simp at h
  · simp only [List.length_cons, Nat.lt_succ_iff]
    split at h
    · obtain ⟨_, h, _⟩ := Outcome.map_eq_ok.1 h
      exact Nat.le_of_lt (string.consumes h)
    · repeat' split at h
      · exact read_literal_length h
      · exact read_literal_length h
      · exact read_literal_length h
      · obtain ⟨_, h, _⟩ := Outcome.map_eq_ok.1 h
        exact Nat.le_of_lt_succ (number.consumes h)
      · simp at h

-- Arrays and objects where `inner` reads what they hold; without it they are too deep.
def readValueWith (inner : Option (Reader Value)) (cs : List Char) : Outcome Value :=
  match skipSpace cs with
  | '[' :: rest =>
    match inner with
    | none => .error .malformed
    | some item => (readElements item rest).map .array
  | '{' :: rest =>
    match inner with
    | none => .error .malformed
    | some item =>
      (readMembers string (fun ms key => .ok (item.map (SortedMap.insert ms key))) .empty rest).map
        fun ms => .object ms.toList
  | cs => readScalar cs

theorem read_value_with_length {inner : Option (Reader Value)} {cs rest : List Char} {v : Value}
    (h : readValueWith inner cs = .ok (v, rest)) : rest.length < cs.length := by
  have := skip_space_length cs
  unfold readValueWith at h
  split at h
  · rename_i hs
    rw [hs, List.length_cons] at this
    split at h
    · simp at h
    · obtain ⟨_, h, _⟩ := Outcome.map_eq_ok.1 h
      have := read_elements_length h
      omega
  · rename_i hs
    rw [hs, List.length_cons] at this
    split at h
    · simp at h
    · obtain ⟨_, h, _⟩ := Outcome.map_eq_ok.1 h
      have := read_enclosed_length h
      omega
  · have := read_scalar_length h
    omega

def value : Nat → Reader Value
  | 0 => ⟨fun cs => readValueWith none cs, read_value_with_length⟩
  | depth + 1 => ⟨fun cs => readValueWith (some (value depth)) cs, read_value_with_length⟩

def maxDepth : Nat := 127

-- What is wrong with a text that goes on like this where a value of another kind belongs.
def mismatch (cs : List Char) : Fault :=
  if cs.head? = some '[' ∨ cs.head? = some '{' then .mismatched
  else
    match readScalar cs with
    | .error fault => fault
    | .ok _ => .mismatched

def text : Reader String where
  run cs :=
    match skipSpace cs with
    | '"' :: rest => string.run rest
    | cs => .error (mismatch cs)
  consumes {cs _ _} h := by
    have shorter := skip_space_length cs
    split at h
    · rename_i hs
      have := string.consumes h
      rw [hs, List.length_cons] at shorter
      omega
    · simp at h

def optionalText : Reader (Option String) where
  run cs :=
    match skipSpace cs with
    | '"' :: rest => (string.run rest).map some
    | 'n' :: rest => readLiteral ['u', 'l', 'l'] none rest
    | cs => .error (mismatch cs)
  consumes {cs _ _} h := by
    have shorter := skip_space_length cs
    split at h
    · rename_i hs
      obtain ⟨_, h, _⟩ := Outcome.map_eq_ok.1 h
      have := string.consumes h
      rw [hs, List.length_cons] at shorter
      omega
    · rename_i hs
      have := read_literal_length h
      rw [hs, List.length_cons] at shorter
      omega
    · simp at h

def record {σ : Type} (field : Field String σ) (s : σ) : Reader σ where
  run cs :=
    match skipSpace cs with
    | '{' :: rest => readMembers string field s rest
    | cs => .error (mismatch cs)
  consumes {cs _ _} h := by
    have shorter := skip_space_length cs
    split at h
    · rename_i hs
      have := read_enclosed_length h
      rw [hs, List.length_cons] at shorter
      omega
    · simp at h

end SprintLedger.Json
