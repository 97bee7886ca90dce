import SprintLedger.Proofs.Json.Spelling

set_option autoImplicit false

namespace SprintLedger.Json

theorem read_hex_four_sound {cs rest : List Char} {n : Nat} (read : readHexFour cs = .ok (n, rest)) :
    ∃ digits, HexFour n digits ∧ cs = digits ++ rest := by
  unfold readHexFour at read
  split at read
  · rename_i a b c d tail
    split at read
    · rename_i w x y z ha hb hc hd
      simp only [Except.ok.injEq, Prod.mk.injEq] at read
      exact ⟨[a, b, c, d], ⟨a, b, c, d, w, x, y, z, rfl, ha, hb, hc, hd, read.1.symm⟩, by simp [read.2]⟩
    · simp at read
  · simp at read

theorem read_hex_four_complete {n : Nat} {digits : List Char} (four : HexFour n digits)
    (rest : List Char) : readHexFour (digits ++ rest) = .ok (n, rest) := by
  obtain ⟨a, b, c, d, w, x, y, z, rfl, ha, hb, hc, hd, rfl⟩ := four
  simp [readHexFour, ha, hb, hc, hd]

theorem read_trailing_half_sound {m : Nat} {cs rest : List Char} {c : Char}
    (read : readTrailingHalf m cs = .ok (c, rest)) :
    ∃ n digits, HexFour n digits ∧ isTrailing n = true ∧ c = joinSurrogates m n ∧
      cs = '\\' :: 'u' :: (digits ++ rest) := by
  match cs, read with
  | [], read => simp [readTrailingHalf] at read
  | [a], read => by_cases slash : a = '\\' <;> simp [readTrailingHalf, slash] at read
  | a :: b :: tail, read =>
    rw [readTrailingHalf] at read
    split at read
    · cases read
    · rename_i slash
      split at read
      · cases read
      · rename_i unicode
        split at read
        · cases read
        · rename_i n tail' four
          split at read
          · rename_i trailing
            obtain ⟨digits, spelled, rfl⟩ := read_hex_four_sound four
            simp only [Except.ok.injEq, Prod.mk.injEq] at read
            obtain ⟨rfl, rfl⟩ := read
            rw [Decidable.not_not.mp slash, Decidable.not_not.mp unicode]
            exact ⟨n, digits, spelled, trailing, rfl, rfl⟩
          · cases read

theorem read_trailing_half_complete {m n : Nat} {digits : List Char} (four : HexFour n digits)
    (trailing : isTrailing n = true) (rest : List Char) :
    readTrailingHalf m ('\\' :: 'u' :: (digits ++ rest)) = .ok (joinSurrogates m n, rest) := by
  simp [readTrailingHalf, read_hex_four_complete four, trailing]

theorem read_code_point_sound {cs rest : List Char} {c : Char} (read : readCodePoint cs = .ok (c, rest)) :
    ∃ part, Escaped c ('\\' :: 'u' :: part) ∧ cs = part ++ rest := by
  unfold readCodePoint at read
  split at read
  · cases read
  · rename_i m tail four
    obtain ⟨first, high, rfl⟩ := read_hex_four_sound four
    split at read
    · cases read
    · rename_i trailing
      simp only [Bool.not_eq_true] at trailing
      split at read
      · rename_i leading
        obtain ⟨n, second, low, below, joined, split⟩ := read_trailing_half_sound read
        rw [joined, split]
        exact ⟨_, .pair m n first second high low leading below, by simp⟩
      · rename_i leading
        simp only [Bool.not_eq_true] at leading
        simp only [Except.ok.injEq, Prod.mk.injEq] at read
        obtain ⟨rfl, rfl⟩ := read
        exact ⟨first, .unit m first high trailing leading, rfl⟩

theorem escape_sound {cs rest : List Char} {c : Char} (read : escape.run cs = .ok (c, rest)) :
    ∃ part, Escaped c ('\\' :: part) ∧ cs = part ++ rest := by
  cases cs with
  | nil => cases read
  | cons e tail =>
    simp only [escape, escapeWith] at read
    split at read
    · rename_i d known
      simp only [id, Except.ok.injEq, Prod.mk.injEq] at read
      obtain ⟨rfl, rfl⟩ := read
      exact ⟨[e], .letter d e known, rfl⟩
    · split at read
      · rename_i unicode
        subst unicode
        obtain ⟨part, spelled, rfl⟩ := read_code_point_sound read
        exact ⟨'u' :: part, spelled, rfl⟩
      · cases read

theorem escape_complete {part : List Char} {c : Char} (spelled : Escaped c ('\\' :: part))
    (rest : List Char) : escape.run (part ++ rest) = .ok (c, rest) := by
  cases spelled with
  | plain _ _ backslash => exact absurd rfl backslash
  | letter c e known => simp [escape, escapeWith, known]
  | unit n digits four trailing leading =>
    simp [escape, escapeWith, simpleEscape?, readCodePoint, read_hex_four_complete four, trailing, leading]
  | pair m n first second high low leading trailing =>
    -- A leading surrogate is below all trailing ones.
    have single : isTrailing m = false := by
      simp only [isLeading, isTrailing, Bool.and_eq_true, decide_eq_true_eq, Bool.and_eq_false_iff,
        decide_eq_false_iff_not] at leading ⊢
      omega
    simp [escape, escapeWith, simpleEscape?, readCodePoint, read_hex_four_complete high,
      read_trailing_half_complete low trailing, single, leading]

section Body

variable {α : Type} {reader : Reader α} {plain : Char → α}

-- What holds of the closing quote and is kept by each character in front of it holds of all that is read.
theorem body_sound (spells : List α → Language) (done : spells [] ['"'])
    (more : ∀ {c as body}, c ≠ '"' → c ≠ '\\' → ¬c < ' ' → spells as body → spells (plain c :: as) (c :: body))
    (escaped : ∀ {cs rest a}, reader.run cs = .ok (a, rest) →
      ∃ part, cs = part ++ rest ∧ ∀ as body, spells as body → spells (a :: as) ('\\' :: (part ++ body)))
    {cs rest : List Char} {as : List α} (read : readBody reader plain cs = .ok (as, rest)) :
    ∃ body, spells as body ∧ cs = body ++ rest := by
  fun_induction readBody reader plain cs generalizing as with
  | case1 => cases read
  | case2 tail =>
    simp only [Except.ok.injEq, Prod.mk.injEq] at read
    obtain ⟨rfl, rfl⟩ := read
    exact ⟨_, done, rfl⟩
  | case3 => cases read
  | case4 tail a tail' escapeRead quote shorter ih =>
    obtain ⟨bs, tailRead, rfl⟩ := Outcome.map_eq_ok.1 read
    obtain ⟨body, spelled, rfl⟩ := ih tailRead
    obtain ⟨part, rfl, kept⟩ := escaped escapeRead
    exact ⟨_, kept bs body spelled, by simp⟩
  | case5 => cases read
  | case6 c tail quote backslash control ih =>
    obtain ⟨bs, tailRead, rfl⟩ := Outcome.map_eq_ok.1 read
    obtain ⟨body, spelled, rfl⟩ := ih tailRead
    exact ⟨_, more quote backslash control spelled, rfl⟩

theorem read_body_backslash {cs rest : List Char} {a : α} (escaped : reader.run cs = .ok (a, rest)) :
    readBody reader plain ('\\' :: cs) = (readBody reader plain rest).map (a :: ·) := by
  rw [readBody, if_neg (by decide), if_pos rfl]
  split
  · simp_all
  · simp_all

theorem read_body_plain {c : Char} (quote : c ≠ '"') (backslash : c ≠ '\\') (control : ¬c < ' ') (cs : List Char) :
    readBody reader plain (c :: cs) = (readBody reader plain cs).map (plain c :: ·) := by
  rw [readBody, if_neg quote, if_neg backslash, if_neg control]

end Body

theorem read_body_sound {cs rest as : List Char} (read : readBody escape id cs = .ok (as, rest)) :
    ∃ body, Quoted as body ∧ cs = body ++ rest := by
  refine body_sound Quoted .done (fun quote backslash control tail => ?_) (fun escaped => ?_) read
  · exact .more _ _ [_] _ (.plain _ quote backslash control) tail
  · obtain ⟨part, head, split⟩ := escape_sound escaped
    exact ⟨part, split, fun as body tail => .more _ as _ body head tail⟩

theorem read_body_escaped {part : List Char} {c : Char} (spelled : Escaped c part) (rest : List Char) :
    readBody escape id (part ++ rest) = (readBody escape id rest).map (c :: ·) := by
  cases spelled with
  | plain _ quote backslash control => exact read_body_plain quote backslash control rest
  | letter c e known => exact read_body_backslash (escape_complete (.letter c e known) rest)
  | unit n digits four trailing leading =>
    exact read_body_backslash (escape_complete (.unit n digits four trailing leading) rest)
  | pair m n first second high low leading trailing =>
    exact read_body_backslash (escape_complete (.pair m n first second high low leading trailing) rest)

theorem read_body_complete {as body : List Char} (spelled : Quoted as body) (rest : List Char) :
    readBody escape id (body ++ rest) = .ok (as, rest) := by
  induction spelled with
  | done => simp [readBody]
  | more c cs part tail head _ ih => rw [List.append_assoc, read_body_escaped head, ih, Outcome.map]

theorem string_sound {cs rest : List Char} {s : String} (read : string.run cs = .ok (s, rest)) :
    ∃ body, Quoted s.toList body ∧ cs = body ++ rest := by
  obtain ⟨as, bodyRead, rfl⟩ := Outcome.map_eq_ok.1 read
  rw [String.toList_ofList]
  exact read_body_sound bodyRead

theorem string_complete {s : String} {body : List Char} (spelled : Quoted s.toList body)
    (rest : List Char) : string.run (body ++ rest) = .ok (s, rest) := by
  have bodyRead := read_body_complete spelled rest
  simp only [string, bodyRead, Outcome.map, String.ofList_toList]

theorem hex_value_digit_char : ∀ n, n < 16 → hexValue? (Nat.digitChar n) = some n := by decide

theorem escape_char_escaped (c : Char) : Escaped c (escapeChar c) := by
  unfold escapeChar
  split
  · rename_i same
    exact same ▸ .letter '"' '"' rfl
  split
  · rename_i same
    exact same ▸ .letter '\\' '\\' rfl
  split
  · rename_i same
    exact same ▸ .letter '\x08' 'b' rfl
  split
  · rename_i same
    exact same ▸ .letter '\t' 't' rfl
  split
  · rename_i same
    exact same ▸ .letter '\n' 'n' rfl
  split
  · rename_i same
    exact same ▸ .letter '\x0c' 'f' rfl
  split
  · rename_i same
    exact same ▸ .letter '\r' 'r' rfl
  split
  · rename_i control
    have small : c.toNat < 32 := control
    have high := hex_value_digit_char (c.toNat / 16) (by omega)
    have low := hex_value_digit_char (c.toNat % 16) (by omega)
    have four : HexFour c.toNat ['0', '0', Nat.digitChar (c.toNat / 16), Nat.digitChar (c.toNat % 16)] :=
      ⟨_, _, _, _, 0, 0, _, _, rfl, rfl, rfl, high, low, by omega⟩
    have single : isTrailing c.toNat = false ∧ isLeading c.toNat = false := by
      simp only [isLeading, isTrailing, Bool.and_eq_false_iff, decide_eq_false_iff_not]
      omega
    simpa only [Char.ofNat_toNat] using Escaped.unit c.toNat _ four single.1 single.2
  · rename_i quote backslash _ _ _ _ _ control
    exact .plain c quote backslash control

theorem escaped_text_quoted (cs : List Char) : Quoted cs (cs.flatMap escapeChar ++ ['"']) := by
  induction cs with
  | nil => exact .done
  | cons c cs ih =>
    rw [List.flatMap_cons, List.append_assoc]
    exact .more c cs _ _ (escape_char_escaped c) ih

theorem string_text_spells (s : String) : StringSpells s (stringText s) :=
  ⟨_, escaped_text_quoted s.toList, rfl⟩

end SprintLedger.Json
