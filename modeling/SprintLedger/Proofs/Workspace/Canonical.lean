import SprintLedger.Proofs.Ledger.Canonical
import SprintLedger.Proofs.Text.Bytes
import SprintLedger.Proofs.Workspace.Runs

set_option autoImplicit false

namespace SprintLedger.Workspace

open Json (Value)

variable {w : Workspace} {t : FileTree}

def Resaves (w : Workspace) (t : FileTree) (text : String) (t' : FileTree) : Prop :=
  w.resave (m := StateM FileTree) t = (.ok (), t') ∧ t'.read? w.ledgerPath = some text.toUTF8

-- The keys in the order of their texts are in the order of their bytes.
theorem saved_file_canonical {location : Location} {text : String} {l : Ledger}
    (there : t.place w.ledgerPath = .file location text.toUTF8) (accepted : Ledger.ofText text = .ok l) :
    ∃ saved t', w.Resaves t saved t' ∧
      (l.DoublesReadBack → ∃ t'', w.Resaves t' saved t'') ∧
      (∀ (w₂ : Workspace) (t₂ : FileTree) location₂ text₂ l₂ v v₂,
        t₂.place w₂.ledgerPath = .file location₂ text₂.toUTF8 → Ledger.ofText text₂ = .ok l₂ →
        Json.Document v text → Json.Document v₂ text₂ → v.Rearranged v₂ → ∃ t₂', w₂.Resaves t₂ saved t₂') ∧
      (∃ v, Json.Document v saved ∧ Ledger.Canonical v) ∧
      ∀ a b : String, a < b ↔ a.toUTF8.data.toList < b.toUTF8.data.toList := by
  have holds : w.Holds t l := .text location text l there accepted
  obtain ⟨t', resaved, after, saved⟩ := resave_holds holds
  refine ⟨l.fileText, t', ⟨resaved, saved⟩, ?_, ?_, ?_, fun _ _ => text_less_iff_bytes⟩
  · intro back
    rw [Ledger.reread_settled back] at after
    obtain ⟨t'', again, _, same⟩ := resave_holds after
    exact ⟨t'', again, same⟩
  · intro w₂ t₂ location₂ text₂ l₂ v v₂ there₂ accepted₂ spelled spelled₂ rearranged
    obtain rfl := Ledger.rearranged_accepted accepted accepted₂ spelled spelled₂ rearranged
    obtain ⟨t₂', resaved₂, _, saved₂⟩ := resave_holds (.text location₂ text₂ l there₂ accepted₂)
    exact ⟨t₂', resaved₂, saved₂⟩
  · have representable := Ledger.reread_representable (holds_representable holds)
    exact ⟨l.reread.toValue, l.file_text_document, Ledger.value_canonical representable⟩

-- One document in two spellings: the second one is spaced, has its members the other way round and the
-- letter of a key as an escape.
def plainEntry : Value := .object [("note", .null), ("status", .string "pending")]

def plainSpelling : Value := .object [("sprints", .object [("A", plainEntry)]), ("z", .bool true)]

def swappedEntry : Value := .object [("status", .string "pending"), ("note", .null)]

def swappedSpelling : Value := .object [("z", .bool true), ("sprints", .object [("A", swappedEntry)])]

def escapedKey : List Char := ['"', '\\', 'u', '0', '0', '4', '1', '"']

def swappedText : String := .ofList <|
  '{' :: (Json.stringText "z" ++ ([':', ' '] ++ Json.boolText true)) ++ [',', ' '] ++
    (Json.stringText "sprints" ++ ([':', ' '] ++ '{' :: (escapedKey ++ ':' :: swappedEntry.compact ++ ['}']))) ++ ['}']

def spelledLedger : Ledger where
  sprints := SortedMap.empty.insert "A" ⟨some .pending, none, none, SortedMap.empty.insert "note" .null⟩
  extra := SortedMap.empty.insert "z" (.bool true)

def treeOf (text : String) : FileTree :=
  ⟨[([FileTree.nameOf "ledger.json".toList], .file text.toUTF8)], []⟩

theorem plain_document : Json.Document plainSpelling (.ofList plainSpelling.compact) :=
  plainSpelling.compact_document

theorem plain_accepted : Ledger.ofText (.ofList plainSpelling.compact) = .ok spelledLedger := by
  have entry : Entry.ReadsAs 124 plainEntry
      ⟨some .pending, none, none, SortedMap.empty.insert "note" .null⟩ :=
    ⟨_, _, rfl, ⟨_, ⟨.null, ⟨Nat.zero_le _, rfl⟩, rfl⟩, _, ⟨rfl, some "pending", .inl ⟨_, rfl, rfl⟩, rfl⟩, rfl⟩, rfl⟩
  have entries : Ledger.EntriesReadAs (.object [("A", plainEntry)]) spelledLedger.sprints :=
    ⟨_, rfl, _, ⟨_, entry, rfl⟩, rfl⟩
  exact Ledger.of_text_iff.2 ⟨plainSpelling, plain_document, _, _, rfl,
    ⟨_, ⟨rfl, _, entries, rfl⟩, _, ⟨.bool true, ⟨Nat.zero_le _, rfl⟩, rfl⟩, rfl⟩, rfl⟩

theorem swapped_document : Json.Document swappedSpelling swappedText := by
  have key : Json.StringSpells "A" escapedKey :=
    ⟨_, .more 'A' [] ['\\', 'u', '0', '0', '4', '1'] ['"']
      (.unit 0x41 ['0', '0', '4', '1'] ⟨'0', '0', '4', '1', 0, 0, 4, 1, rfl, rfl, rfl, rfl, rfl, rfl⟩ rfl rfl)
      .done, rfl⟩
  have entries : (Value.object [("A", swappedEntry)]).Spells
      ('{' :: (escapedKey ++ ':' :: swappedEntry.compact ++ ['}'])) :=
    ⟨_, ⟨[], _, ['}'], Json.blank_nil, ⟨escapedKey, [], [], swappedEntry.compact, key, Json.blank_nil, Json.blank_nil,
      Value.compact_spells swappedEntry, rfl⟩, ⟨[], Json.blank_nil, rfl⟩, rfl⟩, by simp⟩
  have members : swappedSpelling.Spells swappedText.toList := by
    refine ⟨_, ⟨[], _, _, Json.blank_nil, Json.pretty_member_spells "z" rfl, ⟨[], [' '], _, _, Json.blank_nil, ?_,
      Json.pretty_member_spells "sprints" entries, ⟨[], Json.blank_nil, rfl⟩, rfl⟩, rfl⟩, ?_⟩
    · simp [Json.Blank, Json.isSpace]
    · simp [swappedText]
  exact ⟨[], swappedText.toList, [], Json.blank_nil, members, Json.blank_nil, by simp⟩

theorem swapped_accepted : Ledger.ofText swappedText = .ok spelledLedger := by
  have entry : Entry.ReadsAs 124 swappedEntry
      ⟨some .pending, none, none, SortedMap.empty.insert "note" .null⟩ :=
    ⟨_, _, rfl, ⟨_, ⟨rfl, some "pending", .inl ⟨_, rfl, rfl⟩, rfl⟩, _, ⟨.null, ⟨Nat.zero_le _, rfl⟩, rfl⟩, rfl⟩, rfl⟩
  have entries : Ledger.EntriesReadAs (.object [("A", swappedEntry)]) spelledLedger.sprints :=
    ⟨_, rfl, _, ⟨_, entry, rfl⟩, rfl⟩
  exact Ledger.of_text_iff.2 ⟨swappedSpelling, swapped_document, _, _, rfl,
    ⟨_, ⟨.bool true, ⟨Nat.zero_le _, rfl⟩, rfl⟩, _, ⟨rfl, _, entries, rfl⟩, rfl⟩, rfl⟩

theorem spellings_rearranged : plainSpelling.Rearranged swappedSpelling := by
  have entry : plainEntry.Rearranged swappedEntry :=
    ⟨by simp, [("note", .null), ("status", .string "pending")], _, rfl, .swap _ _ _, _, _, rfl, rfl, _, _, rfl, rfl,
      rfl⟩
  have entries : (Value.object [("A", plainEntry)]).Rearranged (.object [("A", swappedEntry)]) :=
    ⟨by simp, [("A", swappedEntry)], _, rfl, .refl _, _, _, rfl, entry, rfl⟩
  exact ⟨by simp, [("sprints", .object [("A", swappedEntry)]), ("z", .bool true)], _, rfl, .swap _ _ _, _, _, rfl,
    entries, _, _, rfl, rfl, rfl⟩

theorem two_spellings_saved_alike : ∃ saved t' t'',
    fresh.Resaves (treeOf (.ofList plainSpelling.compact)) saved t' ∧
    fresh.Resaves (treeOf swappedText) saved t'' ∧
    (∃ t'', fresh.Resaves t' saved t'') ∧
    ∃ v, Json.Document v saved ∧ Ledger.Canonical v := by
  obtain ⟨saved, t', resaved, again, alike, canonical, _⟩ :=
    saved_file_canonical (w := fresh) (t := treeOf (.ofList plainSpelling.compact)) rfl plain_accepted
  obtain ⟨t'', other⟩ := alike fresh (treeOf swappedText) _ swappedText _ _ _ rfl swapped_accepted
    plain_document swapped_document spellings_rearranged
  exact ⟨saved, t', t'', resaved, other, again (by decide), canonical⟩

end SprintLedger.Workspace
