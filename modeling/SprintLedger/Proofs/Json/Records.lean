import SprintLedger.Proofs.Json.Documents

set_option autoImplicit false

namespace SprintLedger.Json

def IsOptionalText (v : Value) (t : Option String) : Prop :=
  (∃ s, v = .string s ∧ t = some s) ∨ (v = .null ∧ t = none)

theorem text_reads : Transcribes text StringSpells Eq where
  sound {cs rest s} read := by
    obtain ⟨before, blank, split⟩ := skip_space_split cs
    simp only [text] at read
    split at read
    · rename_i tail skipped
      obtain ⟨body, quoted, rfl⟩ := string_sound read
      exact ⟨s, before, '"' :: body, blank, ⟨body, quoted, rfl⟩, rfl, by rw [split, skipped]; rfl⟩
    · cases read
  complete {s t before body rest} blank spelled same _ := by
    obtain ⟨body, quoted, rfl⟩ := spelled
    have quote : isSpace '"' = false := rfl
    simp only [text, List.cons_append, skip_blank_solid blank quote, string_complete quoted, same]

theorem optional_text_reads : Transcribes optionalText Value.Spells IsOptionalText where
  sound {cs rest t} read := by
    obtain ⟨before, blank, split⟩ := skip_space_split cs
    simp only [optionalText] at read
    split at read
    · rename_i tail skipped
      obtain ⟨s, stringRead, rfl⟩ := Outcome.map_eq_ok.1 read
      obtain ⟨body, quoted, rfl⟩ := string_sound stringRead
      exact ⟨.string s, before, '"' :: body, blank, ⟨body, quoted, rfl⟩, .inl ⟨s, rfl, rfl⟩,
        by rw [split, skipped]; rfl⟩
    · rename_i tail skipped
      obtain ⟨rfl, rfl⟩ := read_literal_iff.1 read
      exact ⟨.null, before, ['n', 'u', 'l', 'l'], blank, rfl, .inr ⟨rfl, rfl⟩, by rw [split, skipped]; rfl⟩
    · cases read
  complete {v t before body rest} blank spelled meant _ := by
    rcases meant with ⟨s, rfl, rfl⟩ | ⟨rfl, rfl⟩
    · obtain ⟨body, quoted, rfl⟩ := spelled
      have quote : isSpace '"' = false := rfl
      simp only [optionalText, List.cons_append, skip_blank_solid blank quote, string_complete quoted]
      rfl
    · obtain rfl : body = ['n', 'u', 'l', 'l'] := spelled
      have letter : isSpace 'n' = false := rfl
      simp only [optionalText, List.cons_append, skip_blank_solid blank letter]
      rfl

theorem record_reads {σ : Type} {field : Field String σ} {takes : σ → String × Value → σ → Prop}
    (reads : FieldReads field takes) (s : σ) :
    Transcribes (record field s) Value.Spells (fun v s' => ∃ ms, v = .object ms ∧ Steps takes s ms s') where
  sound {cs rest s'} read := by
    obtain ⟨before, blank, split⟩ := skip_space_split cs
    simp only [record] at read
    split at read
    · rename_i tail skipped
      obtain ⟨ms, body, listed, steps, rfl⟩ := members_sound reads read
      exact ⟨.object ms, before, '{' :: body, blank, ⟨body, listed, rfl⟩, ⟨ms, rfl, steps⟩,
        by rw [split, skipped]; rfl⟩
    · cases read
  complete {v s' before body rest} blank spelled meant _ := by
    obtain ⟨ms, rfl, steps⟩ := meant
    obtain ⟨body, listed, rfl⟩ := spelled
    have brace : isSpace '{' = false := rfl
    simp only [record, List.cons_append, skip_blank_solid blank brace, members_complete reads listed steps]

theorem skip_space_nil_iff {cs : List Char} : skipSpace cs = [] ↔ Blank cs := by
  constructor
  · intro empty
    obtain ⟨before, blank, split⟩ := skip_space_split cs
    rwa [split, empty, List.append_nil]
  · intro blank
    have skipped : skipSpace (cs ++ []) = [] := skip_blank blank
    rwa [List.append_nil] at skipped

def Whole (item : Language) (text : String) : Prop :=
  ∃ before body after, Blank before ∧ item body ∧ Blank after ∧ text.toList = before ++ (body ++ after)

theorem Transcribes.whole {ι α : Type} {r : Reader α} {spells : ι → Language} {means : ι → α → Prop}
    (reads : Transcribes r spells means) {text : String} {a : α} :
    r.whole text = .ok a ↔ ∃ i, Whole (spells i) text ∧ means i a := by
  unfold Reader.whole
  constructor
  · intro read
    split at read
    · cases read
    · rename_i rest inner
      split at read
      · rename_i last
        obtain rfl := Except.ok.inj read
        obtain ⟨i, before, body, blank, spelled, meant, split⟩ := reads.sound inner
        exact ⟨i, ⟨before, body, rest, blank, spelled, skip_space_nil_iff.1 last, split⟩, meant⟩
      · cases read
  · rintro ⟨i, ⟨before, body, after, blank, spelled, last, split⟩, meant⟩
    rw [split, reads.complete blank spelled meant (blank_ends last)]
    simp only [skip_space_nil_iff.2 last, if_true]

theorem whole_iff {α : Type} {r : Reader α} {means : Value → α → Prop}
    (reads : Transcribes r Value.Spells means) {text : String} {a : α} :
    r.whole text = .ok a ↔ ∃ v, Document v text ∧ means v a :=
  reads.whole

theorem optional_text_depth {v : Value} {t : Option String} (given : IsOptionalText v t) : v.depth = 0 := by
  rcases given with ⟨s, rfl, rfl⟩ | ⟨rfl, rfl⟩ <;> rfl

def ofText (text : String) : Except Fault Value := (value maxDepth).whole text

theorem of_text_iff {text : String} {v : Value} :
    ofText text = .ok v ↔ ∃ raw, Document raw text ∧ raw.depth ≤ maxDepth ∧ v = raw.normal :=
  whole_iff (value_reads maxDepth)

end SprintLedger.Json
