set_option autoImplicit false

namespace SprintLedger.Json

inductive Fault where
  | malformed
  -- Well-formed so far, but not the kind of value that belongs here.
  | mismatched
  | truncated
deriving DecidableEq

abbrev Outcome (α : Type) := Except Fault (α × List Char)

-- What a reader takes off the front of a text is never nothing, so the loops over items end.
structure Reader (α : Type) where
  run : List Char → Outcome α
  consumes : ∀ {cs rest : List Char} {a : α}, run cs = .ok (a, rest) → rest.length < cs.length

def Outcome.map {α β : Type} (f : α → β) : Outcome α → Outcome β
  | .ok (a, rest) => .ok (f a, rest)
  | .error fault => .error fault

theorem Outcome.map_eq_ok {α β : Type} {f : α → β} {o : Outcome α} {b : β} {rest : List Char} :
    o.map f = .ok (b, rest) ↔ ∃ a, o = .ok (a, rest) ∧ f a = b := by
  rcases o with fault | ⟨a, r⟩
  · simp [Outcome.map]
  · simp only [Outcome.map, Except.ok.injEq, Prod.mk.injEq]
    constructor
    · rintro ⟨rfl, rfl⟩
      exact ⟨a, ⟨rfl, rfl⟩, rfl⟩
    · rintro ⟨_, ⟨rfl, rfl⟩, rfl⟩
      exact ⟨rfl, rfl⟩

theorem bind_eq_ok {α β : Type} {o : Except Fault α} {f : α → Except Fault β} {b : β} :
    o.bind f = .ok b ↔ ∃ a, o = .ok a ∧ f a = .ok b := by
  cases o <;> simp [Except.bind]

def Reader.map {α β : Type} (f : α → β) (r : Reader α) : Reader β where
  run cs := (r.run cs).map f
  consumes h := by
    obtain ⟨a, ha, _⟩ := Outcome.map_eq_ok.1 h
    exact r.consumes ha

def Reader.refuse {α : Type} (fault : Fault) : Reader α where
  run _ := .error fault
  consumes h := by simp at h

def isSpace (c : Char) : Bool := c = ' ' || c = '\t' || c = '\n' || c = '\r'

def skipSpace (cs : List Char) : List Char := cs.dropWhile isSpace

theorem skip_space_length (cs : List Char) : (skipSpace cs).length ≤ cs.length :=
  (List.dropWhile_suffix isSpace).length_le

def readKeyword : List Char → List Char → Except Fault (List Char)
  | [], cs => .ok cs
  | _ :: _, [] => .error .truncated
  | w :: word, c :: cs => if c = w then readKeyword word cs else .error .malformed

theorem read_keyword_length {word cs rest : List Char} (h : readKeyword word cs = .ok rest) :
    cs.length = word.length + rest.length := by
  fun_induction readKeyword word cs with
  | case1 cs => simp_all
  | case2 => simp at h
  | case3 w word cs ih =>
    have := ih h
    simp only [List.length_cons]
    omega
  | case4 => simp at h

def readLiteral {α : Type} (word : List Char) (a : α) (cs : List Char) : Outcome α :=
  (readKeyword word cs).bind fun rest => .ok (a, rest)

theorem read_literal_length {α : Type} {word cs rest : List Char} {a b : α}
    (h : readLiteral word a cs = .ok (b, rest)) : rest.length ≤ cs.length := by
  obtain ⟨r, hr, h⟩ := bind_eq_ok.1 h
  have := read_keyword_length hr
  simp only [Except.ok.injEq, Prod.mk.injEq] at h
  rw [← h.2]
  omega

def expect (mark : Char) (cs : List Char) : Except Fault (List Char) :=
  match skipSpace cs with
  | [] => .error .truncated
  | c :: rest => if c = mark then .ok rest else .error .malformed

theorem expect_length {mark : Char} {cs rest : List Char} (h : expect mark cs = .ok rest) :
    rest.length < cs.length := by
  have shorter := skip_space_length cs
  unfold expect at h
  split at h
  · simp at h
  · rename_i hs
    split at h
    · rw [hs, List.length_cons, Except.ok.inj h] at shorter
      omega
    · simp at h

-- The characters up to the closing quote, of which the escaped ones are read by `escape`.
def readBody {α : Type} (escape : Reader α) (plain : Char → α) (cs : List Char) : Outcome (List α) :=
  match cs with
  | [] => .error .truncated
  | c :: rest =>
    if c = '"' then .ok ([], rest)
    else if c = '\\' then
      match h : escape.run rest with
      | .error fault => .error fault
      | .ok (a, rest') =>
        have := escape.consumes h
        (readBody escape plain rest').map (a :: ·)
    else if c < ' ' then .error .malformed
    else (readBody escape plain rest).map (plain c :: ·)
termination_by cs.length
decreasing_by all_goals simp only [List.length_cons]; omega

theorem read_body_length {α : Type} {escape : Reader α} {plain : Char → α} {cs rest : List Char}
    {as : List α} (h : readBody escape plain cs = .ok (as, rest)) : rest.length < cs.length := by
  fun_induction readBody escape plain cs generalizing as with
  | case2 => simp_all
  | case4 =>
    rename_i ih
    obtain ⟨_, has, _⟩ := Outcome.map_eq_ok.1 h
    have := ih has
    simp only [List.length_cons]
    omega
  | case6 =>
    rename_i ih
    obtain ⟨_, has, _⟩ := Outcome.map_eq_ok.1 h
    have := ih has
    simp only [List.length_cons]
    omega
  | _ => simp at h

def readSeparated {σ : Type} (close : Char) (step : σ → Reader σ) (s : σ) (cs : List Char) :
    Outcome σ :=
  match h : (step s).run cs with
  | .error fault => .error fault
  | .ok (s', rest) =>
    have := (step s).consumes h
    match h' : skipSpace rest with
    | [] => .error .truncated
    | c :: rest' =>
      have := h' ▸ skip_space_length rest
      if c = close then .ok (s', rest')
      else if c = ',' then readSeparated close step s' rest'
      else .error .malformed
termination_by cs.length
decreasing_by simp only [List.length_cons] at this; omega

theorem read_separated_length {σ : Type} {close : Char} {step : σ → Reader σ} {s s' : σ}
    {cs rest : List Char} (h : readSeparated close step s cs = .ok (s', rest)) :
    rest.length < cs.length := by
  fun_induction readSeparated close step s cs with
  | case3 =>
    rename_i shorter
    simp only [Except.ok.injEq, Prod.mk.injEq] at h
    rw [h.2, List.length_cons] at shorter
    omega
  | case4 =>
    rename_i shorter _ ih
    have := ih h
    rw [List.length_cons] at shorter
    omega
  | _ => simp at h

def readEnclosed {σ : Type} (close : Char) (step : σ → Reader σ) (s : σ) (cs : List Char) :
    Outcome σ :=
  match skipSpace cs with
  | [] => .error .truncated
  | c :: rest => if c = close then .ok (s, rest) else readSeparated close step s cs

theorem read_enclosed_length {σ : Type} {close : Char} {step : σ → Reader σ} {s s' : σ}
    {cs rest : List Char} (h : readEnclosed close step s cs = .ok (s', rest)) :
    rest.length < cs.length := by
  have shorter := skip_space_length cs
  unfold readEnclosed at h
  split at h
  · simp at h
  · rename_i hs
    split at h
    · rw [hs, List.length_cons, (Prod.mk.inj (Except.ok.inj h)).2] at shorter
      omega
    · exact read_separated_length h

def readElements {α : Type} (item : Reader α) (cs : List Char) : Outcome (List α) :=
  (readEnclosed ']' (fun as => item.map (· :: as)) [] cs).map List.reverse

theorem read_elements_length {α : Type} {item : Reader α} {as : List α} {cs rest : List Char}
    (h : readElements item cs = .ok (as, rest)) : rest.length < cs.length := by
  obtain ⟨_, h, _⟩ := Outcome.map_eq_ok.1 h
  exact read_enclosed_length h

-- How the members of an object are taken up: from what the members before gave and from the key, a
-- reader for the value that gives what is known after it. A key may be refused before the colon and
-- the value are looked at.
abbrev Field (κ σ : Type) := σ → κ → Except Fault (Reader σ)

def member {κ σ : Type} (key : Reader κ) (field : Field κ σ) (s : σ) : Reader σ where
  run cs :=
    (expect '"' cs).bind fun r =>
    (key.run r).bind fun (k, r) =>
    (field s k).bind fun value =>
    (expect ':' r).bind value.run
  consumes h := by
    obtain ⟨r₁, h₁, h⟩ := bind_eq_ok.1 h
    obtain ⟨⟨k, r₂⟩, h₂, h⟩ := bind_eq_ok.1 h
    obtain ⟨value, _, h⟩ := bind_eq_ok.1 h
    obtain ⟨r₃, h₃, h⟩ := bind_eq_ok.1 h
    have := expect_length h₁
    have := key.consumes h₂
    have := expect_length h₃
    have := value.consumes h
    omega

def readMembers {κ σ : Type} (key : Reader κ) (field : Field κ σ) (s : σ) (cs : List Char) :
    Outcome σ :=
  readEnclosed '}' (member key field) s cs

def Reader.whole {α : Type} (r : Reader α) (text : String) : Except Fault α :=
  match r.run text.toList with
  | .error fault => .error fault
  | .ok (a, rest) => if skipSpace rest = [] then .ok a else .error .malformed

end SprintLedger.Json
