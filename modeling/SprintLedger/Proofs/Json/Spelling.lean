import SprintLedger.Json.Document

set_option autoImplicit false

namespace SprintLedger.Json

abbrev Language := List Char → Prop

def Blank : Language := fun cs => ∀ c ∈ cs, isSpace c = true

theorem blank_nil : Blank [] := by
  intro c member
  cases member

def HexFour (n : Nat) : Language := fun cs =>
  ∃ a b c d w x y z, cs = [a, b, c, d] ∧
    hexValue? a = some w ∧ hexValue? b = some x ∧ hexValue? c = some y ∧ hexValue? d = some z ∧
    n = ((w * 16 + x) * 16 + y) * 16 + z

-- The four ways to write one character between quotes. Half a pair of surrogates is none of them.
inductive Escaped : Char → Language where
  | plain (c : Char) (quote : c ≠ '"') (backslash : c ≠ '\\') (control : ¬ c < ' ') : Escaped c [c]
  | letter (c e : Char) (known : simpleEscape? e = some c) : Escaped c ['\\', e]
  | unit (n : Nat) (digits : List Char) (four : HexFour n digits)
      (trailing : isTrailing n = false) (leading : isLeading n = false) :
      Escaped (.ofNat n) ('\\' :: 'u' :: digits)
  | pair (m n : Nat) (first second : List Char) (high : HexFour m first) (low : HexFour n second)
      (leading : isLeading m = true) (trailing : isTrailing n = true) :
      Escaped (joinSurrogates m n) ('\\' :: 'u' :: (first ++ '\\' :: 'u' :: second))

inductive Quoted : List Char → Language where
  | done : Quoted [] ['"']
  | more (c : Char) (cs part rest : List Char) (head : Escaped c part) (tail : Quoted cs rest) :
      Quoted (c :: cs) (part ++ rest)

def StringSpells (s : String) : Language := fun cs => ∃ body, Quoted s.toList body ∧ cs = '"' :: body

def DigitText : Language := fun cs => cs ≠ [] ∧ ∀ c ∈ cs, c.isDigit = true

-- No zero in front of other digits.
def WholeText : Language := fun cs => DigitText cs ∧ (cs.head? = some '0' → cs = ['0'])

def minusText (negative : Bool) : List Char := if negative then ['-'] else []

def fractionText (digits : List Char) : List Char := if digits = [] then [] else '.' :: digits

def ExponentSpells : Option Int → Language
  | none => fun cs => cs = []
  | some e => fun cs => ∃ mark sign digits, (mark = 'e' ∨ mark = 'E') ∧
      (sign = [] ∨ sign = ['+'] ∨ sign = ['-']) ∧ DigitText digits ∧
      (e = if sign = ['-'] then -(Nat.ofDigitChars 10 digits 0 : Int) else Nat.ofDigitChars 10 digits 0) ∧
      cs = mark :: (sign ++ digits)

def NumeralSpells (n : Numeral) : Language := fun cs =>
  ∃ exponent, WholeText n.whole ∧ (∀ c ∈ n.fraction, c.isDigit = true) ∧
    ExponentSpells n.exponent exponent ∧
    cs = minusText n.negative ++ (n.whole ++ (fractionText n.fraction ++ exponent))

def NumberSpells (n : Number) : Language := fun cs =>
  ∃ numeral, NumeralSpells numeral cs ∧ numeral.number? = some n

def Continued (close : Char) : List Language → Language
  | [] => fun cs => ∃ blank, Blank blank ∧ cs = blank ++ [close]
  | item :: items => fun cs => ∃ after before body tail, Blank after ∧ Blank before ∧ item body ∧
      Continued close items tail ∧ cs = after ++ ',' :: (before ++ (body ++ tail))

-- What follows an opening mark, up to the closing one.
def Listed (close : Char) : List Language → Language
  | [] => fun cs => ∃ blank, Blank blank ∧ cs = blank ++ [close]
  | item :: items => fun cs => ∃ before body tail, Blank before ∧ item body ∧
      Continued close items tail ∧ cs = before ++ (body ++ tail)

def MemberSpells (key value : Language) : Language := fun cs =>
  ∃ name after before body, key name ∧ Blank after ∧ Blank before ∧ value body ∧
    cs = name ++ (after ++ ':' :: (before ++ body))

namespace Value

mutual

def Spells : Value → Language
  | .null => fun cs => cs = ['n', 'u', 'l', 'l']
  | .bool b => fun cs => cs = boolText b
  | .number n => NumberSpells n
  | .string s => StringSpells s
  | .array vs => fun cs => ∃ body, Listed ']' (elementSpellings vs) body ∧ cs = '[' :: body
  | .object ms => fun cs => ∃ body, Listed '}' (memberSpellings ms) body ∧ cs = '{' :: body

def elementSpellings : List Value → List Language
  | [] => []
  | v :: vs => v.Spells :: elementSpellings vs

def memberSpellings : List (String × Value) → List Language
  | [] => []
  | (k, v) :: ms => MemberSpells (StringSpells k) v.Spells :: memberSpellings ms

end

theorem element_spellings_map (vs : List Value) : elementSpellings vs = vs.map Spells := by
  induction vs with
  | nil => rfl
  | cons v vs ih => rw [elementSpellings, ih, List.map_cons]

theorem member_spellings_map (ms : List (String × Value)) :
    memberSpellings ms = ms.map fun m => MemberSpells (StringSpells m.1) m.2.Spells := by
  induction ms with
  | nil => rfl
  | cons m ms ih =>
    obtain ⟨k, v⟩ := m
    rw [memberSpellings, ih, List.map_cons]

end Value

-- A whole text: a value with blanks around it.
def Document (v : Value) (text : String) : Prop :=
  ∃ before body after, Blank before ∧ v.Spells body ∧ Blank after ∧
    text.toList = before ++ (body ++ after)

end SprintLedger.Json
