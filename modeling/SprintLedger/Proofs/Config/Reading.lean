import SprintLedger.Config
import SprintLedger.Proofs.Json.Skipping

set_option autoImplicit false

namespace SprintLedger

open Json (FieldTakes Language Listed RawMember RawValue Solid Steps StringSpells Told Transcribes Whole)

namespace Config

def knownKeys : List String := ["sprints_dir", "ledger_file"]

theorem known_key_iff {key : String} : key ∈ knownKeys ↔ key = "sprints_dir" ∨ key = "ledger_file" := by
  simp [knownKeys]

inductive Form where
  | object (members : List RawMember)
  | array (texts : List String)

def Form.Spells : Form → Language
  | .object ms => fun cs => ∃ body, Listed '}' (ms.map RawMember.Spells) body ∧ cs = '{' :: body
  | .array texts => fun cs => ∃ body, Listed ']' (texts.map StringSpells) body ∧ cs = '[' :: body

namespace Draft

def blank : Draft := ⟨none, none⟩

def setting (d : Draft) (key : String) : Option String :=
  if key = "sprints_dir" then d.sprintsDirectory else if key = "ledger_file" then d.ledgerFile else none

def put (d : Draft) (key : String) (s : String) : Draft :=
  if key = "sprints_dir" then { d with sprintsDirectory := some s } else { d with ledgerFile := some s }

-- What a member does to a draft: a known one fills its setting, any other one leaves everything as it is.
def Takes (d : Draft) (m : String × RawValue) (d' : Draft) : Prop :=
  if m.1 ∈ knownKeys then d.setting m.1 = none ∧ ∃ s, StringSpells s m.2.text ∧ d.put m.1 s = d' else d' = d

def TakesText (d : Draft) (s : String) (d' : Draft) : Prop :=
  if d.sprintsDirectory = none then d' = d.put "sprints_dir" s
  else d.ledgerFile = none ∧ d' = d.put "ledger_file" s

theorem field_known {key : String} (known : key ∈ knownKeys) (d : Draft) :
    field d key =
      if (d.setting key).isSome then .error .mismatched else .ok (Json.text.map (d.put key)) := by
  rcases known_key_iff.1 known with rfl | rfl <;> rfl

theorem field_unknown {key : String} (unknown : key ∉ knownKeys) (d : Draft) :
    field d key = .ok (Json.skipped.map fun _ => d) := by
  obtain ⟨directory, file⟩ := not_or.1 (mt known_key_iff.2 unknown)
  rw [field, if_neg directory, if_neg file]

theorem field_takes : FieldTakes RawValue.Spells field Takes := by
  intro d key
  by_cases known : key ∈ knownKeys
  · rw [field_known known]
    cases given : d.setting key with
    | some s =>
      intro v d' taken
      rw [Takes, if_pos known, given] at taken
      cases taken.1
    | none =>
      refine (Json.text_reads_raw.map (d.put key)).imp fun v d' => ?_
      simp [Takes, known, given]
  · rw [field_unknown known]
    refine (Json.skipped_reads.map fun _ => d).imp fun v d' => ?_
    simp [Takes, known, eq_comm]

theorem element_reads (d : Draft) : Transcribes d.element StringSpells d.TakesText := by
  unfold element TakesText
  by_cases directory : d.sprintsDirectory = none
  · rw [if_pos (Option.isNone_iff_eq_none.2 directory)]
    refine (Json.text_reads.map (d.put "sprints_dir")).imp fun s d' => ?_
    simp [directory, eq_comm]
  · rw [if_neg (mt Option.isNone_iff_eq_none.1 directory)]
    by_cases file : d.ledgerFile = none
    · rw [if_pos (Option.isNone_iff_eq_none.2 file)]
      refine (Json.text_reads.map (d.put "ledger_file")).imp fun s d' => ?_
      simp [directory, file, eq_comm]
    · rw [if_neg (mt Option.isNone_iff_eq_none.1 file)]
      refine (Json.refuse_reads .malformed).imp fun s d' => ?_
      simp [directory, file]

def TakesMember (d : Draft) (m : RawMember) (d' : Draft) : Prop := ∃ key, m.HasKey key ∧ d.Takes (key, m.2) d'

theorem member_reads (d : Draft) : Transcribes (Json.member Json.string field d) RawMember.Spells d.TakesMember :=
  Json.named_member_reads Json.string_keys_raw field_takes d

end Draft

namespace Form

def Means : Form → Draft → Prop
  | .object ms => Steps Draft.TakesMember .blank ms
  | .array texts => Steps Draft.TakesText .blank texts

theorem reader_reads : Transcribes Draft.reader Spells Means where
  sound {cs rest d} read := by
    obtain ⟨before, blank, split⟩ := Json.skip_space_split cs
    simp only [Draft.reader] at read
    split at read
    · rename_i tail skipped
      obtain ⟨ms, body, listed, steps, rfl⟩ := Json.enclosed_sound Draft.member_reads read
      exact ⟨.object ms, before, '{' :: body, blank, ⟨body, listed, rfl⟩, steps, by rw [split, skipped]; rfl⟩
    · rename_i tail skipped
      obtain ⟨texts, body, listed, steps, rfl⟩ := Json.enclosed_sound Draft.element_reads read
      exact ⟨.array texts, before, '[' :: body, blank, ⟨body, listed, rfl⟩, steps, by rw [split, skipped]; rfl⟩
    · cases read
  complete {form d before body rest} blank spelled meant _ := by
    cases form with
    | object ms =>
      obtain ⟨body, listed, rfl⟩ := spelled
      have membersRead := Json.enclosed_complete (.inr rfl) Json.raw_member_solid Draft.member_reads listed meant rest
      have brace : Json.isSpace '{' = false := rfl
      simp only [Draft.reader, List.cons_append, Json.skip_blank_solid blank brace]
      exact membersRead
    | array texts =>
      obtain ⟨body, listed, rfl⟩ := spelled
      have textsRead := Json.enclosed_complete (.inl rfl) Json.string_solid Draft.element_reads listed meant rest
      have bracket : Json.isSpace '[' = false := rfl
      simp only [Draft.reader, List.cons_append, Json.skip_blank_solid blank bracket]
      exact textsRead

theorem spells_solid : Solid Spells := by
  intro form body spelled
  cases form with
  | object ms =>
    obtain ⟨tail, _, rfl⟩ := spelled
    exact ⟨_, _, rfl, by decide⟩
  | array texts =>
    obtain ⟨tail, _, rfl⟩ := spelled
    exact ⟨_, _, rfl, by decide⟩

theorem spells_told (form : Form) : Told Spells form := by
  intro other a b r s spelled spelled' _ _ same
  cases form with
  | object ms =>
    obtain ⟨body, listed, rfl⟩ := spelled
    cases other with
    | object ms' =>
      obtain ⟨body', listed', rfl⟩ := spelled'
      obtain ⟨rfl, rest⟩ := Json.listed_told (.inr rfl) Json.raw_member_solid (fun m _ => Json.raw_member_told m) listed
        listed' (List.cons.inj same).2
      exact ⟨rfl, rest⟩
    | array texts =>
      obtain ⟨body', _, rfl⟩ := spelled'
      exact absurd (List.cons.inj same).1 (by decide)
  | array texts =>
    obtain ⟨body, listed, rfl⟩ := spelled
    cases other with
    | object ms =>
      obtain ⟨body', _, rfl⟩ := spelled'
      exact absurd (List.cons.inj same).1 (by decide)
    | array texts' =>
      obtain ⟨body', listed', rfl⟩ := spelled'
      obtain ⟨rfl, rest⟩ := Json.listed_told (.inl rfl) Json.string_solid (fun s _ => Json.string_told s) listed listed'
        (List.cons.inj same).2
      exact ⟨rfl, rest⟩

end Form

theorem of_text_iff {text : String} {c : Config} :
    ofText text = .ok c ↔ ∃ form, Whole (Form.Spells form) text ∧ ∃ d, form.Means d ∧ d.finish = c :=
  (Form.reader_reads.map Draft.finish).whole

end Config

end SprintLedger
