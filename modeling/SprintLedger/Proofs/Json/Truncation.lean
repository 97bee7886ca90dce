import SprintLedger.Proofs.Json.NumberCuts
import SprintLedger.Proofs.Json.Printing
import SprintLedger.Proofs.Json.StringCuts

set_option autoImplicit false

namespace SprintLedger.Json

variable {ι α β σ : Type}

-- The printed texts that are read as a value. Of other texts of numbers the beginning may be a number that
-- is too large.
def Printed (v : Value) : Language := fun cs => ∃ (w : Value) (level : Nat), v = w.reread ∧ cs = w.pretty level

def PrintedMember (m : String × Value) : Language := MemberSpells (StringSpells m.1) (Printed m.2)

-- A reader that has come to the end wherever a text that it takes, with blanks before it, is cut off.
structure Exhausts (r : Reader α) (texts : ι → Language) (means : ι → α → Prop) : Prop where
  short : ∀ {i : ι} {a : α} {before body cs : List Char}, Blank before → texts i body → means i a →
    Begins cs (before ++ body) → RunsOut (r.run cs)

theorem Exhausts.map {r : Reader α} {texts : ι → Language} {means : ι → α → Prop}
    (exhausts : Exhausts r texts means) (f : α → β) :
    Exhausts (r.map f) texts (fun i b => ∃ a, means i a ∧ f a = b) where
  short blank printed meant cut := by
    obtain ⟨a, inner, _⟩ := meant
    exact (exhausts.short blank printed inner cut).map f

theorem begins_blank {before cs : List Char} (blank : Blank before) (cut : Begins cs before) : skipSpace cs = [] :=
  skip_space_nil_iff.2 fun c member => blank c (begins_mem cut member)

theorem begins_skipped {before body cs : List Char} {c : Char} (blank : Blank before) (solid : isSpace c = false)
    (cut : Begins cs (before ++ c :: body)) :
    skipSpace cs = [] ∨ ∃ cs', skipSpace cs = c :: cs' ∧ Begins cs' body := by
  rcases begins_append cut with blankCut | ⟨cs₁, rfl, bodyCut⟩
  · exact .inl (begins_blank blank blankCut)
  rcases begins_cons bodyCut with rfl | ⟨cs₂, rfl, behind⟩
  · exact .inl (skip_blank blank)
  · exact .inr ⟨cs₂, skip_blank_solid blank solid, behind⟩

theorem ends_number_cut {text cs : List Char} (ends : EndsNumber text) (cut : Begins cs text) : EndsNumber cs := by
  obtain ⟨c, rest, rfl⟩ := cut
  cases cs with
  | nil => nofun
  | cons d cs => exact ends

section Loop

variable {close : Char} {step : σ → Reader σ} {spells texts : ι → Language} {takes : σ → ι → σ → Prop}

theorem read_separated_short {s : σ} {cs : List Char} (out : (step s).run cs = .error .truncated) :
    readSeparated close step s cs = .error .truncated := by
  rw [readSeparated]
  split
  · next failed =>
    rw [out] at failed
    exact failed ▸ rfl
  · next taken =>
    rw [out] at taken
    cases taken

theorem read_separated_blank {s m : σ} {cs r : List Char} (stepRead : (step s).run cs = .ok (m, r))
    (blank : skipSpace r = []) : readSeparated close step s cs = .error .truncated := by
  rw [readSeparated]
  split
  · next failed =>
    rw [stepRead] at failed
    cases failed
  · next taken =>
    rw [stepRead] at taken
    cases taken
    split
    · rfl
    · next found =>
      rw [blank] at found
      cases found

theorem continued_ends_nil (closing : IsClosing close) {items : List Language} {tail : List Char}
    (continued : Continued close items tail) : EndsNumber tail := by
  have ends : EndsNumber (tail ++ []) := continued_ends closing continued []
  rwa [List.append_nil] at ends

-- Either the cut is within an item, or the item is read and the cut is in what follows it.
theorem item_cut (weaker : ∀ i body, texts i body → spells i body) {s m : σ}
    (reads : Transcribes (step s) spells (takes s)) (exhausts : Exhausts (step s) texts (takes s)) {i : ι}
    {before body tail cs : List Char} (blank : Blank before) (printed : texts i body) (taken : takes s i m)
    (ends : EndsNumber tail) (cut : Begins cs (before ++ (body ++ tail))) :
    readSeparated close step s cs = .error .truncated ∨ ∃ cs', (step s).run cs = .ok (m, cs') ∧ Begins cs' tail := by
  rw [← List.append_assoc] at cut
  rcases begins_append cut with itemCut | ⟨cs', rfl, tailCut⟩
  · rcases exhausts.short blank printed taken itemCut with short | ⟨m', read⟩
    · exact .inl (read_separated_short short)
    · exact .inl (read_separated_blank read rfl)
  · have read := reads.complete blank (weaker i body printed) taken (ends_number_cut ends tailCut)
    rw [← List.append_assoc] at read
    exact .inr ⟨cs', read, tailCut⟩

theorem separated_cut (closing : IsClosing close) (weaker : ∀ i body, texts i body → spells i body)
    (reads : ∀ s, Transcribes (step s) spells (takes s)) (exhausts : ∀ s, Exhausts (step s) texts (takes s))
    {i : ι} {is : List ι} {s s' : σ} {before body tail cs : List Char} (blank : Blank before)
    (printed : texts i body) (continued : Continued close (is.map texts) tail)
    (steps : Steps takes s (i :: is) s') (cut : Begins cs (before ++ (body ++ tail))) :
    readSeparated close step s cs = .error .truncated := by
  induction is generalizing i s before body tail cs with
  | nil =>
    obtain ⟨m, taken, _⟩ := steps
    rcases item_cut weaker (reads s) (exhausts s) blank printed taken (continued_ends_nil closing continued) cut
      with short | ⟨cs', read, tailCut⟩
    · exact short
    obtain ⟨after, blank', rfl⟩ := continued
    rcases begins_skipped blank' (closing_solid closing) tailCut with skipped | ⟨_, _, none⟩
    · exact read_separated_blank read skipped
    · exact absurd none begins_nil
  | cons j is ih =>
    obtain ⟨m, taken, steps⟩ := steps
    rcases item_cut weaker (reads s) (exhausts s) blank printed taken (continued_ends_nil closing continued) cut
      with short | ⟨cs', read, tailCut⟩
    · exact short
    obtain ⟨after, before', body', tail, blank', blankJ, printedJ, continued, rfl⟩ := continued
    rcases begins_skipped blank' rfl tailCut with skipped | ⟨cs'', skipped, behind⟩
    · exact read_separated_blank read skipped
    · rw [read_separated_step read skipped, if_neg (closing_ne_comma closing), if_pos rfl]
      exact ih blankJ printedJ continued steps behind

theorem read_enclosed_blank {s : σ} {cs : List Char} (blank : skipSpace cs = []) :
    readEnclosed close step s cs = .error .truncated := by
  rw [readEnclosed, blank]

theorem enclosed_cut (closing : IsClosing close) (solid : Solid spells)
    (weaker : ∀ i body, texts i body → spells i body) (reads : ∀ s, Transcribes (step s) spells (takes s))
    (exhausts : ∀ s, Exhausts (step s) texts (takes s)) {is : List ι} {s s' : σ} {body cs : List Char}
    (listed : Listed close (is.map texts) body) (steps : Steps takes s is s') (cut : Begins cs body) :
    readEnclosed close step s cs = .error .truncated := by
  cases is with
  | nil =>
    obtain ⟨blank, all, rfl⟩ := listed
    rcases begins_skipped all (closing_solid closing) cut with skipped | ⟨_, _, none⟩
    · exact read_enclosed_blank skipped
    · exact absurd none begins_nil
  | cons i is =>
    obtain ⟨before, item, tail, blank, printed, continued, rfl⟩ := listed
    have short := separated_cut closing weaker reads exhausts blank printed continued steps cut
    obtain ⟨c, rest, rfl, notBlank, bracket, brace⟩ := solid i item (weaker i item printed)
    have other : c ≠ close := by
      rcases closing with rfl | rfl
      · exact bracket
      · exact brace
    rcases begins_skipped blank notBlank cut with skipped | ⟨cs', skipped, _⟩
    · exact read_enclosed_blank skipped
    · rw [readEnclosed, skipped]
      exact (if_neg other).trans short

end Loop

theorem pretty_printed (v : Value) (level : Nat) : Printed v.reread (v.pretty level) := ⟨v, level, rfl, rfl⟩

theorem printed_spells (v : Value) (body : List Char) (printed : Printed v body) : v.Spells body := by
  obtain ⟨w, level, rfl, rfl⟩ := printed
  exact w.pretty_spells level

theorem printed_member_text (m : String × Value) (body : List Char) (printed : PrintedMember m body) :
    MemberText m body := by
  obtain ⟨name, after, before, text, key, blank, blank', value, rfl⟩ := printed
  exact ⟨name, after, before, text, key, blank, blank', printed_spells m.2 text value, rfl⟩

theorem pretty_member_printed (level : Nat) (k : String) (v : Value) :
    PrintedMember (k, v.reread) (stringText k ++ ([':', ' '] ++ v.pretty level)) :=
  pretty_member_spells k (pretty_printed v level)

theorem pretty_elements_printed (level : Nat) (vs : List Value) :
    Continued ']' ((vs.map Value.reread).map Printed) (Value.prettyElements level vs) := by
  induction vs with
  | nil => exact ⟨newLine level, new_line_blank level, rfl⟩
  | cons v vs ih =>
    refine ⟨[], newLine (level + 1), v.pretty (level + 1), _, blank_nil, new_line_blank _, pretty_printed _ _, ih, ?_⟩
    simp [Value.prettyElements]

theorem pretty_members_printed (level : Nat) (ms : List (String × Value)) :
    Continued '}' ((ms.map fun m => (m.1, m.2.reread)).map PrintedMember) (Value.prettyMembers level ms) := by
  induction ms with
  | nil => exact ⟨newLine level, new_line_blank level, rfl⟩
  | cons m ms ih =>
    obtain ⟨k, v⟩ := m
    refine ⟨[], newLine (level + 1), _, _, blank_nil, new_line_blank _, pretty_member_printed (level + 1) k v, ih, ?_⟩
    simp [Value.prettyMembers]

theorem printed_array {vs : List Value} {body : List Char} (printed : Printed (.array vs) body) :
    ∃ rest, body = '[' :: rest ∧ Listed ']' (vs.map Printed) rest := by
  obtain ⟨w, level, same, rfl⟩ := printed
  obtain ⟨ws, rfl, rfl⟩ := Value.reread_array same
  cases ws with
  | nil => exact ⟨_, rfl, [], blank_nil, rfl⟩
  | cons v vs =>
    refine ⟨newLine (level + 1) ++ (v.pretty (level + 1) ++ Value.prettyElements level vs), ?_, ?_⟩
    · simp [Value.pretty]
    · exact ⟨_, _, _, new_line_blank _, pretty_printed _ _, pretty_elements_printed level vs, rfl⟩

theorem printed_object {ms : List (String × Value)} {body : List Char} (printed : Printed (.object ms) body) :
    ∃ rest, body = '{' :: rest ∧ Listed '}' (ms.map PrintedMember) rest := by
  obtain ⟨w, level, same, rfl⟩ := printed
  obtain ⟨ns, rfl, rfl⟩ := Value.reread_object same
  cases ns with
  | nil => exact ⟨_, rfl, [], blank_nil, rfl⟩
  | cons m ms =>
    obtain ⟨k, v⟩ := m
    refine ⟨newLine (level + 1) ++ ((stringText k ++ ([':', ' '] ++ v.pretty (level + 1))) ++
      Value.prettyMembers level ms), ?_, ?_⟩
    · simp [Value.pretty]
    · exact ⟨_, _, _, new_line_blank _, pretty_member_printed (level + 1) k v, pretty_members_printed level ms, rfl⟩

theorem printed_string {s : String} {body : List Char} (printed : Printed (.string s) body) :
    ∃ rest, body = '"' :: rest ∧ Quoted s.toList rest := by
  obtain ⟨w, _, same, rfl⟩ := printed
  obtain rfl := Value.reread_string same
  exact ⟨_, rfl, escaped_text_quoted s.toList⟩

theorem printed_null {body : List Char} (printed : Printed .null body) : body = ['n', 'u', 'l', 'l'] := by
  obtain ⟨w, _, same, rfl⟩ := printed
  obtain rfl := Value.reread_null same
  rfl

def FieldExhausts (field : Field String σ) (takes : σ → String × Value → σ → Prop) : Prop :=
  ∀ s k, match field s k with
    | .ok value => Exhausts value Printed fun v s' => takes s (k, v) s'
    | .error _ => True

theorem expect_blank {mark : Char} {cs : List Char} (blank : skipSpace cs = []) :
    expect mark cs = .error .truncated := by
  rw [expect, blank]

theorem expect_skipped {mark : Char} {cs rest : List Char} (skipped : skipSpace cs = mark :: rest) :
    expect mark cs = .ok rest := by
  rw [expect, skipped]
  exact if_pos rfl

section Fields

variable {field : Field String σ} {takes : σ → String × Value → σ → Prop}

theorem member_exhausts (reads : FieldReads field takes) (exhausts : FieldExhausts field takes) (s : σ) :
    Exhausts (member string field s) PrintedMember (takes s) where
  short {m s' before body cs} blank printed taken cut := by
    obtain ⟨k, v⟩ := m
    obtain ⟨_, after, before', text, ⟨name, quoted, rfl⟩, blank', blank'', printed, rfl⟩ := printed
    show RunsOut ((expect '"' cs).bind _)
    rcases begins_skipped blank rfl cut with skipped | ⟨cs₁, skipped, keyCut⟩
    · rw [expect_blank skipped]
      exact .inl rfl
    rw [expect_skipped skipped]
    show RunsOut ((string.run cs₁).bind _)
    rcases begins_append keyCut with nameCut | ⟨cs₂, rfl, colonCut⟩
    · rw [string_cut quoted nameCut]
      exact .inl rfl
    rw [string_complete quoted]
    show RunsOut ((field s k).bind _)
    have valueReads := reads s k
    have valueExhausts := exhausts s k
    cases known : field s k with
    | error fault =>
      rw [known] at valueReads
      exact absurd taken (valueReads v s')
    | ok value =>
      rw [known] at valueExhausts
      show RunsOut ((expect ':' cs₂).bind value.run)
      rcases begins_skipped blank' rfl colonCut with skipped | ⟨cs₃, skipped, valueCut⟩
      · rw [expect_blank skipped]
        exact .inl rfl
      · rw [expect_skipped skipped]
        exact valueExhausts.short blank'' printed taken valueCut

theorem members_cut (reads : FieldReads field takes) (exhausts : FieldExhausts field takes)
    {ms : List (String × Value)} {s s' : σ} {body cs : List Char} (listed : Listed '}' (ms.map PrintedMember) body)
    (steps : Steps takes s ms s') (cut : Begins cs body) : readMembers string field s cs = .error .truncated :=
  enclosed_cut (.inr rfl) member_solid printed_member_text (member_reads reads) (member_exhausts reads exhausts) listed
    steps cut

theorem mismatch_nil : mismatch [] = .truncated := rfl

theorem record_cut (reads : FieldReads field takes) (exhausts : FieldExhausts field takes)
    {ms : List (String × Value)} {s s' : σ} {before body cs : List Char} (blank : Blank before)
    (printed : Printed (.object ms) body) (steps : Steps takes s ms s') (cut : Begins cs (before ++ body)) :
    (record field s).run cs = .error .truncated := by
  obtain ⟨rest, rfl, listed⟩ := printed_object printed
  rcases begins_skipped blank rfl cut with skipped | ⟨cs', skipped, behind⟩
  · simp only [record, skipped, mismatch_nil]
  · simp only [record, skipped, members_cut reads exhausts listed steps behind]

theorem record_exhausts (reads : FieldReads field takes) (exhausts : FieldExhausts field takes) (s : σ) :
    Exhausts (record field s) Printed (fun v s' => ∃ ms, v = .object ms ∧ Steps takes s ms s') where
  short blank printed meant cut := by
    obtain ⟨ms, rfl, steps⟩ := meant
    exact .inl (record_cut reads exhausts blank printed steps cut)

end Fields

theorem optional_text_exhausts : Exhausts optionalText Printed IsOptionalText where
  short {v t before body cs} blank printed meant cut := by
    rcases meant with ⟨s, rfl, rfl⟩ | ⟨rfl, rfl⟩
    · obtain ⟨rest, rfl, quoted⟩ := printed_string printed
      rcases begins_skipped blank rfl cut with skipped | ⟨cs', skipped, behind⟩
      · simp only [optionalText, skipped]
        exact .inl rfl
      · simp only [optionalText, skipped, string_cut quoted behind]
        exact .inl rfl
    · obtain rfl := printed_null printed
      rcases begins_skipped blank rfl cut with skipped | ⟨cs', skipped, behind⟩
      · simp only [optionalText, skipped]
        exact .inl rfl
      · simp only [optionalText, skipped, read_literal_cut none behind]
        exact .inl rfl

theorem scalar_cut {v : Value} {body cs : List Char} (flat : v.depth = 0) (printed : Printed v body)
    (cut : Begins cs body) : RunsOut (readScalar cs) := by
  obtain ⟨w, level, rfl, rfl⟩ := printed
  cases w with
  | null =>
    rcases begins_cons cut with rfl | ⟨cs', rfl, behind⟩
    · exact .inl rfl
    · exact .inl (read_literal_cut Value.null behind)
  | bool b =>
    cases b with
    | true =>
      rcases begins_cons cut with rfl | ⟨cs', rfl, behind⟩
      · exact .inl rfl
      · exact .inl (read_literal_cut (Value.bool true) behind)
    | false =>
      rcases begins_cons cut with rfl | ⟨cs', rfl, behind⟩
      · exact .inl rfl
      · exact .inl (read_literal_cut (Value.bool false) behind)
  | number n =>
    have out : RunsOut (number.run cs) := number_cut n cut
    obtain ⟨c, tail, split, first⟩ := number_spells_head (number_text_spells n)
    obtain ⟨d, rest, whole⟩ := cut
    cases cs with
    | nil => exact .inl rfl
    | cons c' cs =>
      obtain ⟨rfl, _⟩ : c' = c ∧ cs ++ d :: rest = tail := List.cons.inj (whole.symm.trans split)
      have quote : c' ≠ '"' := number_head_ne first (by decide)
      have null : c' ≠ 'n' := number_head_ne first (by decide)
      have yes : c' ≠ 't' := number_head_ne first (by decide)
      have no : c' ≠ 'f' := number_head_ne first (by decide)
      have digit : c' = '-' ∨ c'.isDigit = true := first
      rw [readScalar, if_neg quote, if_neg null, if_neg yes, if_neg no, if_pos digit]
      exact out.map Value.number
  | string s =>
    obtain ⟨rest, body, quoted⟩ := printed_string (pretty_printed (.string s) level)
    rw [body] at cut
    rcases begins_cons cut with rfl | ⟨cs', rfl, behind⟩
    · exact .inl rfl
    · rw [readScalar, if_pos rfl, string_cut quoted behind]
      exact .inl rfl
  | array vs => cases flat
  | object ms => cases flat

theorem read_value_blank {inner : Option (Reader Value)} {cs : List Char} (blank : skipSpace cs = []) :
    readValueWith inner cs = .error .truncated := by
  unfold readValueWith
  rw [blank]
  rfl

theorem flat_cut {inner : Option (Reader Value)} {v : Value} {before body cs : List Char} (blank : Blank before)
    (flat : v.depth = 0) (printed : Printed v body) (cut : Begins cs (before ++ body)) :
    RunsOut (readValueWith inner cs) := by
  obtain ⟨c, tail, rfl, solid, bracket, brace⟩ := flat_head flat (printed_spells v body printed)
  rcases begins_skipped blank solid cut with skipped | ⟨cs', skipped, d, rest, rfl⟩
  · exact .inl (read_value_blank skipped)
  · rw [read_value_scalar skipped bracket brace]
    exact scalar_cut flat printed ⟨d, rest, rfl⟩

-- One level of nesting: what a value holds is read by a reader for one level less.
theorem inner_cut {d : Nat} {item : Reader Value} (reads : Transcribes item Value.Spells (Means d))
    (exhausts : Exhausts item Printed (Means d)) {v : Value} {before body cs : List Char} (blank : Blank before)
    (printed : Printed v body) (shallow : v.depth ≤ d + 1) (cut : Begins cs (before ++ body)) :
    RunsOut (readValueWith (some item) cs) := by
  cases v with
  | null => exact flat_cut blank rfl printed cut
  | bool b => exact flat_cut blank rfl printed cut
  | number n => exact flat_cut blank rfl printed cut
  | string s => exact flat_cut blank rfl printed cut
  | array vs =>
    obtain ⟨rest, rfl, listed⟩ := printed_array printed
    rcases begins_skipped blank rfl cut with skipped | ⟨cs', skipped, behind⟩
    · exact .inl (read_value_blank skipped)
    have steps : Steps (TakesElement d) [] vs ((Value.normalElements vs).reverse ++ []) :=
      steps_elements.2 ⟨Value.array_depth_le.1 shallow, rfl⟩
    have short := enclosed_cut (.inl rfl) value_solid printed_spells (fun as => reads.map (· :: as))
      (fun as => exhausts.map (· :: as)) listed steps behind
    simp only [readValueWith, skipped, readElements, short]
    exact .inl rfl
  | object ms =>
    obtain ⟨rest, rfl, listed⟩ := printed_object printed
    rcases begins_skipped blank rfl cut with skipped | ⟨cs', skipped, behind⟩
    · exact .inl (read_value_blank skipped)
    have steps : Steps (TakesMember d) .empty ms (SortedMap.empty.ofBindings (Value.normalMembers ms)) :=
      steps_members.2 ⟨Value.object_depth_le.1 shallow, rfl⟩
    have inserts : FieldExhausts (fun ms key => .ok (item.map (SortedMap.insert ms key))) (TakesMember d) :=
      fun ms key => exhausts.map (SortedMap.insert ms key)
    have short := members_cut (insert_reads reads) inserts listed steps behind
    simp only [readValueWith, skipped, short]
    exact .inl rfl

theorem value_exhausts (d : Nat) : Exhausts (value d) Printed (Means d) := by
  induction d with
  | zero =>
    constructor
    intro v a before body cs blank printed meant cut
    show RunsOut (readValueWith none cs)
    exact flat_cut blank (Nat.le_zero.1 meant.1) printed cut
  | succ d ih =>
    constructor
    intro v a before body cs blank printed meant cut
    show RunsOut (readValueWith (some (value d)) cs)
    exact inner_cut (value_reads d) ih blank printed meant.1 cut

end SprintLedger.Json
