import SprintLedger.Proofs.Json.Reading

set_option autoImplicit false

namespace SprintLedger.Json

inductive Closed : Language where
  | done : Closed ['"']
  | plain (c : Char) (rest : List Char) (quote : c ≠ '"') (backslash : c ≠ '\\') (control : ¬c < ' ')
      (tail : Closed rest) : Closed (c :: rest)
  | letter (c e : Char) (rest : List Char) (known : simpleEscape? e = some c) (tail : Closed rest) :
      Closed ('\\' :: e :: rest)
  | unit (n : Nat) (digits rest : List Char) (four : HexFour n digits) (tail : Closed rest) :
      Closed ('\\' :: 'u' :: (digits ++ rest))

def ClosedText : Language := fun cs => ∃ body, Closed body ∧ cs = '"' :: body

inductive Scalar : Language where
  | null : Scalar ['n', 'u', 'l', 'l']
  | bool (b : Bool) : Scalar (boolText b)
  | number (n : Numeral) (cs : List Char) (spelled : NumeralSpells n cs) : Scalar cs
  | string (body : List Char) (closed : Closed body) : Scalar ('"' :: body)

-- The depth counts the arrays and objects around a value, or is greater.
def NestsTo : Nat → Language
  | 0 => Scalar
  | depth + 1 => fun cs => Scalar cs ∨
      (∃ n body, Listed ']' (List.replicate n (NestsTo depth)) body ∧ cs = '[' :: body) ∨
      ∃ n body, Listed '}' (List.replicate n (MemberSpells ClosedText (NestsTo depth))) body ∧ cs = '{' :: body

def Grammatical : Language := fun cs => ∃ depth, NestsTo depth cs

theorem quoted_closed {cs body : List Char} (quoted : Quoted cs body) : Closed body := by
  induction quoted with
  | done => exact .done
  | more c cs part rest head _ ih =>
    cases head with
    | plain _ quote backslash control => exact .plain c rest quote backslash control ih
    | letter _ e known => exact .letter c e rest known ih
    | unit n digits four => exact .unit n digits rest four ih
    | pair m n first second high low =>
      have tail := Closed.unit n second rest low ih
      have both := Closed.unit m first _ high tail
      simpa using both

theorem spelled_closed {s : String} {cs : List Char} (spelled : StringSpells s cs) : ClosedText cs := by
  obtain ⟨body, quoted, split⟩ := spelled
  exact ⟨body, quoted_closed quoted, split⟩

theorem spelled_scalar {s : String} {cs : List Char} (spelled : StringSpells s cs) : Scalar cs := by
  obtain ⟨body, closed, rfl⟩ := spelled_closed spelled
  exact .string body closed

theorem scalar_head {cs : List Char} (scalar : Scalar cs) :
    ∃ c tail, cs = c :: tail ∧ isSpace c = false ∧ (c ≠ '[' ∧ c ≠ '{') ∧ c ≠ ']' ∧ c ≠ '}' := by
  cases scalar with
  | null => exact ⟨_, _, rfl, by decide⟩
  | bool b =>
    cases b with
    | true => exact ⟨_, _, rfl, by decide⟩
    | false => exact ⟨_, _, rfl, by decide⟩
  | number n cs spelled =>
    obtain ⟨c, tail, rfl, first⟩ := numeral_spells_head spelled
    have opens : c ≠ '[' ∧ c ≠ '{' := ⟨number_head_ne first (by decide), number_head_ne first (by decide)⟩
    have closes : c ≠ ']' ∧ c ≠ '}' := ⟨number_head_ne first (by decide), number_head_ne first (by decide)⟩
    exact ⟨c, tail, rfl, number_head_solid first, opens, closes⟩
  | string body closed => exact ⟨_, _, rfl, by decide⟩

theorem nests_head {depth : Nat} {cs : List Char} (nests : NestsTo depth cs) :
    ∃ c tail, cs = c :: tail ∧ isSpace c = false ∧ c ≠ ']' ∧ c ≠ '}' := by
  have flat (scalar : Scalar cs) : ∃ c tail, cs = c :: tail ∧ isSpace c = false ∧ c ≠ ']' ∧ c ≠ '}' := by
    obtain ⟨c, tail, split, solid, _, closing⟩ := scalar_head scalar
    exact ⟨c, tail, split, solid, closing⟩
  cases depth with
  | zero => exact flat nests
  | succ depth =>
    rcases nests with scalar | ⟨_, _, _, rfl⟩ | ⟨_, _, _, rfl⟩
    · exact flat scalar
    · exact ⟨_, _, rfl, by decide⟩
    · exact ⟨_, _, rfl, by decide⟩

section Listed

variable {ι : Type} {close : Char} {spells spells' : ι → Language} {longest : Nat}

theorem continued_imp {is : List ι} (each : ∀ i ∈ is, ∀ cs, cs.length ≤ longest → spells i cs → spells' i cs)
    {tail : List Char} (short : tail.length ≤ longest) (spelled : Continued close (is.map spells) tail) :
    Continued close (is.map spells') tail := by
  induction is generalizing tail with
  | nil => exact spelled
  | cons i is ih =>
    obtain ⟨first, others⟩ := List.forall_mem_cons.1 each
    obtain ⟨after, before, body, rest, blank, blank', item, more, rfl⟩ := spelled
    simp only [List.length_append, List.length_cons] at short
    exact ⟨after, before, body, rest, blank, blank', first body (by omega) item, ih others (by omega) more, rfl⟩

theorem listed_imp {is : List ι} (each : ∀ i ∈ is, ∀ cs, cs.length ≤ longest → spells i cs → spells' i cs)
    {body : List Char} (short : body.length ≤ longest) (spelled : Listed close (is.map spells) body) :
    Listed close (is.map spells') body := by
  cases is with
  | nil => exact spelled
  | cons i is =>
    obtain ⟨first, others⟩ := List.forall_mem_cons.1 each
    obtain ⟨before, item, rest, blank, spelled, more, rfl⟩ := spelled
    simp only [List.length_append] at short
    exact ⟨before, item, rest, blank, first item (by omega) spelled, continued_imp others (by omega) more, rfl⟩

theorem listed_replicate_imp {item item' : Language} (each : ∀ cs, cs.length ≤ longest → item cs → item' cs) {n : Nat}
    {body : List Char} (short : body.length ≤ longest) (spelled : Listed close (List.replicate n item) body) :
    Listed close (List.replicate n item') body := by
  rw [← List.map_replicate (f := fun _ : Unit => item) (a := ())] at spelled
  rw [← List.map_replicate (f := fun _ : Unit => item') (a := ())]
  exact listed_imp (fun _ _ => each) short spelled

end Listed

theorem member_spells_imp {key key' item item' : Language} {longest : Nat} (names : ∀ cs, key cs → key' cs)
    (each : ∀ cs, cs.length ≤ longest → item cs → item' cs) {cs : List Char} (short : cs.length ≤ longest)
    (spelled : MemberSpells key item cs) : MemberSpells key' item' cs := by
  obtain ⟨name, after, before, body, named, blank, blank', inner, rfl⟩ := spelled
  simp only [List.length_append, List.length_cons] at short
  exact ⟨name, after, before, body, names name named, blank, blank', each body (by omega) inner, rfl⟩

theorem scalar_nests {cs : List Char} (scalar : Scalar cs) (bound : Nat) : NestsTo bound cs := by
  cases bound with
  | zero => exact scalar
  | succ bound => exact .inl scalar

-- A value is longer than each of those in it, so its length bounds its depth.
theorem nests_within {depth bound : Nat} {cs : List Char} (nests : NestsTo depth cs) (short : cs.length ≤ bound) :
    NestsTo bound cs := by
  induction depth generalizing bound cs with
  | zero => exact scalar_nests nests bound
  | succ depth ih =>
    cases bound with
    | zero =>
      obtain ⟨c, tail, rfl, _⟩ := nests_head nests
      exact absurd short (Nat.not_succ_le_zero _)
    | succ bound =>
      rcases nests with scalar | ⟨n, body, listed, rfl⟩ | ⟨n, body, listed, rfl⟩
      · exact .inl scalar
      · have within : body.length ≤ bound := Nat.le_of_succ_le_succ short
        exact .inr (.inl ⟨n, body, listed_replicate_imp (fun _ fits item => ih item fits) within listed, rfl⟩)
      · have within : body.length ≤ bound := Nat.le_of_succ_le_succ short
        have each (cs : List Char) (fits : cs.length ≤ bound) :
            MemberSpells ClosedText (NestsTo depth) cs → MemberSpells ClosedText (NestsTo bound) cs :=
          member_spells_imp (fun _ => id) (fun _ fits item => ih item fits) fits
        exact .inr (.inr ⟨n, body, listed_replicate_imp each within listed, rfl⟩)

end SprintLedger.Json
