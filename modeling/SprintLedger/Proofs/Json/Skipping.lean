import SprintLedger.Json.Skipped
import SprintLedger.Proofs.Json.Grammar
import SprintLedger.Proofs.Json.Unambiguous

set_option autoImplicit false

namespace SprintLedger.Json

theorem skipped_escape_sound {cs rest : List Char} {u : Unit} (read : skippedEscape.run cs = .ok (u, rest)) :
    ∃ part, cs = part ++ rest ∧ ∀ body, Closed body → Closed ('\\' :: (part ++ body)) := by
  cases cs with
  | nil => cases read
  | cons e tail =>
    simp only [skippedEscape, escapeWith] at read
    split at read
    · rename_i c known
      simp only [Except.ok.injEq, Prod.mk.injEq, true_and] at read
      exact ⟨[e], read ▸ rfl, fun body closed => .letter c e body known closed⟩
    · split at read
      · rename_i unicode
        obtain ⟨n, four, _⟩ := Outcome.map_eq_ok.1 read
        obtain ⟨digits, spelled, rfl⟩ := read_hex_four_sound four
        exact ⟨'u' :: digits, unicode ▸ rfl, fun body closed => .unit n digits body spelled closed⟩
      · cases read

theorem skipped_string_sound {cs rest : List Char} {u : Unit} (read : skippedString.run cs = .ok (u, rest)) :
    ∃ body, Closed body ∧ cs = body ++ rest := by
  obtain ⟨us, bodyRead, _⟩ := Outcome.map_eq_ok.1 read
  refine body_sound (fun _ => Closed) .done (fun quote backslash control tail => ?_) (fun escaped => ?_) bodyRead
  · exact .plain _ _ quote backslash control tail
  · obtain ⟨part, split, kept⟩ := skipped_escape_sound escaped
    exact ⟨part, split, fun _ => kept⟩

theorem closed_complete {body : List Char} (closed : Closed body) (rest : List Char) :
    ∃ us, readBody skippedEscape (fun _ => ()) (body ++ rest) = .ok (us, rest) := by
  induction closed with
  | done => exact ⟨[], by simp [readBody]⟩
  | plain c tail quote backslash control _ ih =>
    obtain ⟨us, read⟩ := ih
    exact ⟨() :: us, by rw [List.cons_append, read_body_plain quote backslash control, read, Outcome.map]⟩
  | letter c e tail known _ ih =>
    obtain ⟨us, read⟩ := ih
    have escaped : skippedEscape.run (e :: (tail ++ rest)) = .ok ((), tail ++ rest) := by
      simp [skippedEscape, escapeWith, known]
    exact ⟨() :: us, by rw [List.cons_append, List.cons_append, read_body_backslash escaped, read, Outcome.map]⟩
  | unit n digits tail four _ ih =>
    obtain ⟨us, read⟩ := ih
    have escaped : skippedEscape.run ('u' :: (digits ++ (tail ++ rest))) = .ok ((), tail ++ rest) := by
      simp [skippedEscape, escapeWith, simpleEscape?, read_hex_four_complete four, Outcome.map]
    refine ⟨() :: us, ?_⟩
    rw [List.cons_append, List.cons_append, List.append_assoc, read_body_backslash escaped, read, Outcome.map]

theorem skipped_string_complete {body : List Char} (closed : Closed body) (rest : List Char) :
    skippedString.run (body ++ rest) = .ok ((), rest) := by
  obtain ⟨us, read⟩ := closed_complete closed rest
  exact Outcome.map_eq_ok.2 ⟨us, read, rfl⟩

theorem skipped_keys : ReadsKeys skippedString (fun _ : Unit => Closed) (fun _ _ => True) where
  sound {cs rest k} read := by
    obtain ⟨name, closed, split⟩ := skipped_string_sound read
    exact ⟨(), name, closed, trivial, split⟩
  complete closed _ rest := skipped_string_complete closed rest

theorem skip_scalar_sound {cs rest : List Char} {u : Unit} (read : skipScalar cs = .ok (u, rest)) :
    ∃ body, Scalar body ∧ cs = body ++ rest := by
  unfold skipScalar at read
  split at read
  · cases read
  · rename_i c tail
    split at read
    · rename_i quote
      obtain ⟨body, closed, rfl⟩ := skipped_string_sound read
      exact ⟨'"' :: body, .string body closed, by rw [quote]; rfl⟩
    split at read
    · rename_i first
      obtain ⟨_, rfl⟩ := read_literal_iff.1 read
      exact ⟨_, .null, by rw [first]; rfl⟩
    split at read
    · rename_i first
      obtain ⟨_, rfl⟩ := read_literal_iff.1 read
      exact ⟨_, .bool true, by rw [first]; rfl⟩
    split at read
    · rename_i first
      obtain ⟨_, rfl⟩ := read_literal_iff.1 read
      exact ⟨_, .bool false, by rw [first]; rfl⟩
    split at read
    · obtain ⟨n, numeralRead, _⟩ := Outcome.map_eq_ok.1 read
      obtain ⟨body, spelled, split⟩ := numeral_sound numeralRead
      exact ⟨body, .number n body spelled, split⟩
    · cases read

theorem skip_scalar_complete {body rest : List Char} (scalar : Scalar body) (ends : EndsNumber rest) :
    skipScalar (body ++ rest) = .ok ((), rest) := by
  cases scalar with
  | null => rfl
  | bool b => cases b <;> rfl
  | number n _ spelled =>
    have numeralRead : (numeral .malformed).run (body ++ rest) = .ok (n, rest) := numeral_complete spelled ends
    obtain ⟨c, tail, rfl, first⟩ := numeral_spells_head spelled
    have quote : c ≠ '"' := number_head_ne first (by decide)
    have null : c ≠ 'n' := number_head_ne first (by decide)
    have yes : c ≠ 't' := number_head_ne first (by decide)
    have no : c ≠ 'f' := number_head_ne first (by decide)
    have digit : c = '-' ∨ c.isDigit = true := first
    rw [List.cons_append] at numeralRead ⊢
    rw [skipScalar, if_neg quote, if_neg null, if_neg yes, if_neg no, if_pos digit, numeralRead]
    rfl
  | string body closed => rw [List.cons_append, skipScalar, if_pos rfl, skipped_string_complete closed]

theorem skip_with_scalar {inner : Option (Reader Unit)} {before body rest : List Char} (blank : Blank before)
    (scalar : Scalar body) (ends : EndsNumber rest) : skipWith inner (before ++ (body ++ rest)) = .ok ((), rest) := by
  have read := skip_scalar_complete scalar ends
  obtain ⟨c, tail, rfl, solid, ⟨bracket, brace⟩, _⟩ := scalar_head scalar
  have skipped : skipSpace (before ++ (c :: tail ++ rest)) = c :: tail ++ rest := skip_blank_solid blank solid
  unfold skipWith
  rw [skipped]
  split <;> simp_all

-- Where nothing is taken up of the items, any number of them can follow each other.
theorem steps_nothing {ι : Type} {takes : Unit → ι → Unit → Prop} (always : ∀ i, takes () i ()) (is : List ι) :
    Steps takes () is () := by
  induction is with
  | nil => rfl
  | cons i is ih => exact ⟨(), always i, ih⟩

section Inner

variable {depth : Nat} {item : Reader Unit}

variable (reads : Transcribes item (fun _ : Unit => NestsTo depth) (fun _ _ => True))
include reads

theorem skip_field_takes :
    FieldTakes (fun _ : Unit => NestsTo depth) (fun (_ : Unit) (_ : Unit) => .ok item) (fun _ _ _ => True) :=
  fun _ _ => reads

theorem skip_inner_sound {cs rest : List Char} {u : Unit} (read : skipWith (some item) cs = .ok (u, rest)) :
    ∃ before body, Blank before ∧ NestsTo (depth + 1) body ∧ cs = before ++ (body ++ rest) := by
  obtain ⟨before, blank, split⟩ := skip_space_split cs
  unfold skipWith at read
  split at read
  · rename_i tail skipped
    obtain ⟨is, body, listed, _, rfl⟩ := enclosed_sound (fun _ => reads) read
    rw [List.map_const'] at listed
    refine ⟨before, '[' :: body, blank, .inr (.inl ⟨_, body, listed, rfl⟩), ?_⟩
    rw [split, skipped]
    rfl
  · rename_i tail skipped
    obtain ⟨is, body, listed, _, rfl⟩ := enclosed_sound (named_member_reads skipped_keys (skip_field_takes reads)) read
    have members : Listed '}' (is.map fun _ => MemberSpells ClosedText (NestsTo depth)) body := listed
    rw [List.map_const'] at members
    refine ⟨before, '{' :: body, blank, .inr (.inr ⟨_, body, members, rfl⟩), ?_⟩
    rw [split, skipped]
    rfl
  · obtain ⟨body, scalar, rest'⟩ := skip_scalar_sound read
    exact ⟨before, body, blank, .inl scalar, rest' ▸ split⟩

theorem skip_inner_complete {before body rest : List Char} (blank : Blank before) (nests : NestsTo (depth + 1) body)
    (ends : EndsNumber rest) : skipWith (some item) (before ++ (body ++ rest)) = .ok ((), rest) := by
  rcases nests with scalar | ⟨n, body, listed, rfl⟩ | ⟨n, body, listed, rfl⟩
  · exact skip_with_scalar blank scalar ends
  · have solid : Solid fun _ : Unit => NestsTo depth := fun _ _ nests => nests_head nests
    rw [← List.map_replicate (f := fun _ : Unit => NestsTo depth) (a := ())] at listed
    have read := enclosed_complete (.inl rfl) solid (fun _ => reads) listed (steps_nothing (fun _ => trivial) _) rest
    have bracket : isSpace '[' = false := rfl
    simp only [skipWith, List.cons_append, skip_blank_solid blank bracket, read]
  · have members : Listed '}' ((List.replicate n ((), ())).map
        (NamedMember (fun _ : Unit => Closed) fun _ : Unit => NestsTo depth)) body := by
      rw [List.map_replicate]
      exact listed
    have read := enclosed_complete (.inr rfl) named_member_solid
      (named_member_reads skipped_keys (skip_field_takes reads)) members
      (steps_nothing (fun _ => ⟨(), trivial, trivial⟩) _) rest
    have brace : isSpace '{' = false := rfl
    simp only [skipWith, List.cons_append, skip_blank_solid blank brace, readMembers, read]

end Inner

theorem skipped_to_reads (depth : Nat) :
    Transcribes (skippedTo depth) (fun _ : Unit => NestsTo depth) (fun _ _ => True) := by
  induction depth with
  | zero =>
    constructor
    · intro cs rest u read
      obtain ⟨before, blank, split⟩ := skip_space_split cs
      simp only [skippedTo, skipWith] at read
      split at read
      · cases read
      · cases read
      · obtain ⟨body, scalar, rest'⟩ := skip_scalar_sound read
        exact ⟨(), before, body, blank, scalar, trivial, rest' ▸ split⟩
    · intro _ u before body rest blank scalar _ ends
      show skipWith none (before ++ (body ++ rest)) = .ok ((), rest)
      exact skip_with_scalar blank scalar ends
  | succ depth ih =>
    constructor
    · intro cs rest u read
      obtain ⟨before, body, blank, nests, split⟩ := skip_inner_sound ih read
      exact ⟨(), before, body, blank, nests, trivial, split⟩
    · intro _ u before body rest blank nests _ ends
      exact skip_inner_complete ih blank nests ends

@[ext] structure RawValue where
  text : List Char
  grammatical : Grammatical text

def RawValue.Spells (raw : RawValue) : Language := fun cs => cs = raw.text

@[ext] structure RawName where
  text : List Char
  closed : Closed text

def RawName.Spells (raw : RawName) : Language := fun cs => cs = raw.text

abbrev RawMember := RawName × RawValue

def RawMember.Spells : RawMember → Language := NamedMember RawName.Spells RawValue.Spells

namespace RawMember

def HasKey (m : RawMember) (key : String) : Prop := Quoted key.toList m.1.text

def Gives (m : RawMember) (s : String) : Prop := StringSpells s m.2.text

end RawMember

theorem raw_value_solid : Solid RawValue.Spells := by
  intro raw body spelled
  obtain rfl : body = raw.text := spelled
  obtain ⟨depth, nests⟩ := raw.grammatical
  exact nests_head nests

theorem raw_member_solid : Solid RawMember.Spells := named_member_solid

theorem skipped_reads : Transcribes skipped RawValue.Spells (fun _ _ => True) where
  sound {cs rest u} read := by
    obtain ⟨_, before, body, blank, nests, _, split⟩ := (skipped_to_reads cs.length).sound read
    exact ⟨⟨body, cs.length, nests⟩, before, body, blank, rfl, trivial, split⟩
  complete {raw u before body rest} blank spelled _ ends := by
    obtain ⟨depth, nests⟩ := raw.grammatical
    have short : raw.text.length ≤ (before ++ (raw.text ++ rest)).length := by
      simp only [List.length_append]
      omega
    obtain rfl : body = raw.text := spelled
    exact (skipped_to_reads _).complete (i := ()) blank (nests_within nests short) trivial ends

theorem text_reads_raw : Transcribes text RawValue.Spells (fun raw s => StringSpells s raw.text) := by
  refine text_reads.respell fun body s => ⟨?_, ?_⟩
  · intro found
    obtain ⟨_, spelled, rfl⟩ := found
    exact ⟨⟨body, 0, spelled_scalar spelled⟩, rfl, spelled⟩
  · intro found
    obtain ⟨raw, rfl, spelled⟩ := found
    exact ⟨s, spelled, rfl⟩

theorem string_keys_raw : ReadsKeys string RawName.Spells (fun raw k => Quoted k.toList raw.text) where
  sound {cs rest k} read := by
    obtain ⟨name, quoted, split⟩ := string_sound read
    exact ⟨⟨name, quoted_closed quoted⟩, name, rfl, quoted, split⟩
  complete spelled quoted rest := spelled ▸ string_complete quoted rest

theorem raw_value_told (raw : RawValue) : Told RawValue.Spells raw := by
  intro other a b r s spelled spelled' ends ends' same
  have read := skipped_reads.complete (a := ()) blank_nil spelled trivial ends
  rw [List.nil_append, same] at read
  have read' := skipped_reads.complete (a := ()) blank_nil spelled' trivial ends'
  rw [List.nil_append, read] at read'
  obtain rfl : r = s := (Prod.mk.inj (Except.ok.inj read')).2
  obtain rfl : a = b := List.append_cancel_right same
  exact ⟨RawValue.ext (spelled.symm.trans spelled'), rfl⟩

theorem raw_name_told (raw other : RawName) (a b r s : List Char) (spelled : raw.Spells a) (spelled' : other.Spells b)
    (same : a ++ r = b ++ s) : raw = other ∧ r = s := by
  obtain rfl : a = raw.text := spelled
  obtain rfl : b = other.text := spelled'
  have read := skipped_string_complete raw.closed r
  rw [same, skipped_string_complete other.closed s] at read
  obtain rfl : s = r := (Prod.mk.inj (Except.ok.inj read)).2
  exact ⟨RawName.ext (List.append_cancel_right same), rfl⟩

theorem raw_member_told (m : RawMember) : Told RawMember.Spells m :=
  named_member_told raw_value_solid (raw_name_told m.1) (raw_value_told m.2)

end SprintLedger.Json
