import SprintLedger.Json.Reader

set_option autoImplicit false

namespace SprintLedger.Json

def hexValue? (c : Char) : Option Nat :=
  if c.isDigit then some (c.toNat - '0'.toNat)
  else if 'a' ≤ c ∧ c ≤ 'f' then some (c.toNat - 'a'.toNat + 10)
  else if 'A' ≤ c ∧ c ≤ 'F' then some (c.toNat - 'A'.toNat + 10)
  else none

-- Four hexadecimal digits. The text is too short if it has not four bytes left.
def readHexFour : List Char → Outcome Nat
  | a :: b :: c :: d :: rest =>
    match hexValue? a, hexValue? b, hexValue? c, hexValue? d with
    | some a, some b, some c, some d => .ok (((a * 16 + b) * 16 + c) * 16 + d, rest)
    | _, _, _, _ => .error .malformed
  | cs => .error (if (String.ofList cs).utf8ByteSize < 4 then .truncated else .malformed)

theorem read_hex_four_length {cs rest : List Char} {n : Nat} (h : readHexFour cs = .ok (n, rest)) :
    cs.length = rest.length + 4 := by
  unfold readHexFour at h
  split at h
  · split at h
    · simp_all
    · simp at h
  · simp at h

def isLeading (n : Nat) : Bool := 0xD800 ≤ n && n ≤ 0xDBFF

def isTrailing (n : Nat) : Bool := 0xDC00 ≤ n && n ≤ 0xDFFF

def joinSurrogates (leading trailing : Nat) : Char :=
  .ofNat (0x10000 + (leading - 0xD800) * 0x400 + (trailing - 0xDC00))

def readTrailingHalf (leading : Nat) : List Char → Outcome Char
  | [] => .error .truncated
  | c :: rest =>
    if c ≠ '\\' then .error .malformed else
    match rest with
    | [] => .error .truncated
    | c :: rest =>
      if c ≠ 'u' then .error .malformed else
      match readHexFour rest with
      | .error fault => .error fault
      | .ok (n, rest) =>
        if isTrailing n then .ok (joinSurrogates leading n, rest) else .error .malformed

theorem read_trailing_half_length {leading : Nat} {cs rest : List Char} {a : Char}
    (h : readTrailingHalf leading cs = .ok (a, rest)) : rest.length < cs.length := by
  fun_cases readTrailingHalf leading cs with
  | case6 =>
    rename_i hx ht
    have := read_hex_four_length hx
    simp_all [readTrailingHalf]
    omega
  | _ => simp_all [readTrailingHalf]

def readCodePoint (cs : List Char) : Outcome Char :=
  match readHexFour cs with
  | .error fault => .error fault
  | .ok (n, rest) =>
    if isTrailing n then .error .malformed
    else if isLeading n then readTrailingHalf n rest
    else .ok (.ofNat n, rest)

theorem read_code_point_length {cs rest : List Char} {a : Char} (h : readCodePoint cs = .ok (a, rest)) :
    rest.length < cs.length := by
  unfold readCodePoint at h
  split at h
  · simp at h
  · rename_i hx
    have := read_hex_four_length hx
    split at h
    · simp at h
    · split at h
      · have := read_trailing_half_length h
        omega
      · simp only [Except.ok.injEq, Prod.mk.injEq] at h
        rw [← h.2]
        omega

def simpleEscape? (c : Char) : Option Char :=
  if c = '"' then some '"'
  else if c = '\\' then some '\\'
  else if c = '/' then some '/'
  else if c = 'b' then some '\x08'
  else if c = 'f' then some '\x0c'
  else if c = 'n' then some '\n'
  else if c = 'r' then some '\r'
  else if c = 't' then some '\t'
  else none

def escapeWith {α : Type} (simple : Char → α) (unicode : List Char → Outcome α)
    (shrinks : ∀ {cs rest : List Char} {a : α}, unicode cs = .ok (a, rest) →
      rest.length < cs.length) : Reader α where
  run
    | [] => .error .truncated
    | c :: rest =>
      match simpleEscape? c with
      | some d => .ok (simple d, rest)
      | none => if c = 'u' then unicode rest else .error .malformed
  consumes {cs _ _} h := by
    cases cs with
    | nil => simp at h
    | cons c rest =>
      simp only at h
      split at h
      · simp_all
      · split at h
        · have := shrinks h
          simp only [List.length_cons]
          omega
        · simp at h

def escape : Reader Char := escapeWith id readCodePoint read_code_point_length

def string : Reader String where
  run cs := (readBody escape id cs).map String.ofList
  consumes h := by
    obtain ⟨_, h, _⟩ := Outcome.map_eq_ok.1 h
    exact read_body_length h

def skippedEscape : Reader Unit :=
  escapeWith (fun _ => ()) (fun cs => (readHexFour cs).map fun _ => ()) fun h => by
    obtain ⟨_, h, _⟩ := Outcome.map_eq_ok.1 h
    have := read_hex_four_length h
    omega

def skippedString : Reader Unit where
  run cs := (readBody skippedEscape (fun _ => ()) cs).map fun _ => ()
  consumes h := by
    obtain ⟨_, h, _⟩ := Outcome.map_eq_ok.1 h
    exact read_body_length h

end SprintLedger.Json
