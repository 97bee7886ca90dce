import SprintLedger.Json.Number
import SprintLedger.Json.Reader

set_option autoImplicit false

namespace SprintLedger.Json

-- A number that the end of the text cuts off is another fault where it is passed over than where it is read.
def readDigits (short : Fault) (cs : List Char) : Outcome (List Char) :=
  match cs with
  | [] => .error short
  | c :: _ =>
    if c.isDigit then .ok (cs.takeWhile Char.isDigit, cs.dropWhile Char.isDigit)
    else .error .malformed

theorem read_digits_length {short : Fault} {cs ds rest : List Char}
    (h : readDigits short cs = .ok (ds, rest)) : rest.length < cs.length := by
  unfold readDigits at h
  split at h
  · simp at h
  · rename_i c cs'
    split at h
    · rename_i hc
      simp only [Except.ok.injEq, Prod.mk.injEq] at h
      rw [← h.2, List.dropWhile_cons_of_pos hc]
      exact Nat.lt_succ_of_le (List.dropWhile_suffix Char.isDigit).length_le
    · simp at h

def readWhole (short : Fault) (cs : List Char) : Outcome (List Char) :=
  match readDigits short cs with
  | .error fault => .error fault
  | .ok (ds, rest) => if ds.head? = some '0' ∧ ds ≠ ['0'] then .error .malformed else .ok (ds, rest)

theorem read_whole_length {short : Fault} {cs ds rest : List Char}
    (h : readWhole short cs = .ok (ds, rest)) : rest.length < cs.length := by
  unfold readWhole at h
  split at h
  · simp at h
  · rename_i hd
    split at h
    · simp at h
    · simp only [Except.ok.injEq, Prod.mk.injEq] at h
      exact h.2 ▸ read_digits_length hd

def readFraction (short : Fault) : List Char → Outcome (List Char)
  | '.' :: rest => readDigits short rest
  | cs => .ok ([], cs)

theorem read_fraction_length {short : Fault} {cs ds rest : List Char}
    (h : readFraction short cs = .ok (ds, rest)) : rest.length ≤ cs.length := by
  unfold readFraction at h
  split at h
  · have := read_digits_length h
    simp only [List.length_cons]
    omega
  · simp_all

def takeSign : List Char → Bool × List Char
  | '-' :: rest => (true, rest)
  | '+' :: rest => (false, rest)
  | cs => (false, cs)

theorem take_sign_length (cs : List Char) : (takeSign cs).2.length ≤ cs.length := by
  unfold takeSign
  split <;> simp

def readExponent (short : Fault) : List Char → Outcome (Option Int)
  | [] => .ok (none, [])
  | c :: rest =>
    if c = 'e' ∨ c = 'E' then
      (readDigits short (takeSign rest).2).map fun ds =>
        let size : Int := Nat.ofDigitChars 10 ds 0
        some (if (takeSign rest).1 then -size else size)
    else .ok (none, c :: rest)

theorem read_exponent_length {short : Fault} {cs rest : List Char} {e : Option Int}
    (h : readExponent short cs = .ok (e, rest)) : rest.length ≤ cs.length := by
  unfold readExponent at h
  split at h
  · simp_all
  · rename_i c r
    split at h
    · obtain ⟨_, h, _⟩ := Outcome.map_eq_ok.1 h
      have := read_digits_length h
      have := take_sign_length r
      simp only [List.length_cons]
      omega
    · simp_all

def takeMinus : List Char → Bool × List Char
  | '-' :: rest => (true, rest)
  | cs => (false, cs)

theorem take_minus_length (cs : List Char) : (takeMinus cs).2.length ≤ cs.length := by
  unfold takeMinus
  split <;> simp

def numeral (short : Fault) : Reader Numeral where
  run cs :=
    (readWhole short (takeMinus cs).2).bind fun (ws, r) =>
    (readFraction short r).bind fun (fs, r) =>
    (readExponent short r).map fun e => ⟨(takeMinus cs).1, ws, fs, e⟩
  consumes {cs _ _} h := by
    obtain ⟨⟨_, _⟩, h₁, h⟩ := bind_eq_ok.1 h
    obtain ⟨⟨_, _⟩, h₂, h⟩ := bind_eq_ok.1 h
    obtain ⟨_, h₃, _⟩ := Outcome.map_eq_ok.1 h
    have := take_minus_length cs
    have := read_whole_length h₁
    have := read_fraction_length h₂
    have := read_exponent_length h₃
    omega

def number : Reader Number where
  run cs :=
    ((numeral .truncated).run cs).bind fun (n, rest) =>
      match n.number? with
      | some number => .ok (number, rest)
      | none => .error .malformed
  consumes h := by
    obtain ⟨⟨n, r⟩, h₁, h⟩ := bind_eq_ok.1 h
    have := (numeral .truncated).consumes h₁
    simp only at h
    split at h
    · simp_all
    · simp at h

end SprintLedger.Json
