import SprintLedger.Proofs.Json.Printing
import SprintLedger.Proofs.Ledger.Rereading

set_option autoImplicit false

namespace SprintLedger

open Json (Steps Value)

namespace Entry

theorem extra_steps {depth : Nat} {d : Draft} {ms : List (String × Value)}
    (fits : ∀ m ∈ ms, m.1 ∉ knownKeys ∧ m.2.Ordered ∧ m.2.depth ≤ depth) :
    Steps (TakesMember depth) d ms { d with extra := d.extra.ofBindings ms } := by
  induction ms generalizing d with
  | nil => rfl
  | cons m ms ih =>
    obtain ⟨⟨unknown, ordered, shallow⟩, rest⟩ := List.forall_mem_cons.mp fits
    simp only [knownKeys, List.mem_cons, List.not_mem_nil, or_false, not_or] at unknown
    obtain ⟨status, started, completed⟩ := unknown
    refine ⟨{ d with extra := d.extra.insert m.1 m.2 }, ?_, ih rest⟩
    unfold TakesMember
    rw [if_neg status, if_neg started, if_neg completed]
    exact ⟨m.2, ⟨shallow, (Value.ordered_normal m.2 ordered).symm⟩, rfl⟩

theorem unknown_member {e : Entry} (representable : e.Representable) {m : String × Value}
    (member : m ∈ e.extra.toList) : m.1 ∉ knownKeys := by
  intro known
  have absent := representable.unknown m.1 known
  rw [SortedMap.get?, List.lookup_eq_none_iff] at absent
  simpa using absent m member

-- The members come in the order of the fields, each of which is still absent when its turn comes.
theorem representable_read {depth : Nat} {e : Entry} (representable : e.Representable)
    (shallow : Shallow depth e.extra) : ReadsAs depth e.toValue e := by
  have fits : ∀ m ∈ e.extra.toList, m.1 ∉ knownKeys ∧ m.2.Ordered ∧ m.2.depth ≤ depth := fun m member =>
    ⟨unknown_member representable member, representable.ordered m member, shallow m member⟩
  have proper := representable.proper
  obtain ⟨status, startedAt, completedAt, extra⟩ := e
  have first : Steps (TakesMember depth) .blank (textMember "status" (status.map Status.text))
      ⟨status.map some, none, none, .empty⟩ := by
    cases status with
    | none => rfl
    | some s =>
      refine ⟨_, ⟨rfl, some s.text, .inl ⟨_, rfl, rfl⟩, ?_⟩, rfl⟩
      rw [Option.map_some, Status.proper_of_text (proper s rfl)]
      rfl
  have second : Steps (TakesMember depth) ⟨status.map some, none, none, .empty⟩
      (textMember "started_at" startedAt) ⟨status.map some, startedAt.map some, none, .empty⟩ := by
    cases startedAt with
    | none => rfl
    | some text => exact ⟨_, ⟨rfl, some text, .inl ⟨_, rfl, rfl⟩, rfl⟩, rfl⟩
  have third : Steps (TakesMember depth) ⟨status.map some, startedAt.map some, none, .empty⟩
      (textMember "completed_at" completedAt)
      ⟨status.map some, startedAt.map some, completedAt.map some, .empty⟩ := by
    cases completedAt with
    | none => rfl
    | some text => exact ⟨_, ⟨rfl, some text, .inl ⟨_, rfl, rfl⟩, rfl⟩, rfl⟩
  have known := Json.steps_append.2 ⟨_, Json.steps_append.2 ⟨_, first, second⟩, third⟩
  refine ⟨_, _, rfl, Json.steps_append.2 ⟨_, known, extra_steps fits⟩, ?_⟩
  have kept := SortedMap.ext_list (SortedMap.of_bindings_ascending extra.ascending)
  have joined : ∀ {α : Type} (o : Option α), (o.map some).join = o := by
    intro α o
    cases o <;> rfl
  simp [Draft.finish, kept, joined]

end Entry

namespace Ledger

theorem entries_steps {es : SortedMap Entry} {bs : List (String × Entry)}
    (fits : ∀ b ∈ bs, b.2.Representable ∧ Shallow (Json.maxDepth - 3) b.2.extra) :
    Steps TakesEntry es (bs.map fun b => (b.1, b.2.toValue)) (es.ofBindings bs) := by
  induction bs generalizing es with
  | nil => rfl
  | cons b bs ih =>
    obtain ⟨⟨representable, shallow⟩, rest⟩ := List.forall_mem_cons.mp fits
    exact ⟨_, ⟨b.2, Entry.representable_read representable shallow, rfl⟩, ih rest⟩

theorem extra_steps {d : Draft} {ms : List (String × Value)}
    (fits : ∀ m ∈ ms, m.1 ≠ "sprints" ∧ m.2.Ordered ∧ m.2.depth ≤ Json.maxDepth - 1) :
    Steps TakesMember d ms { d with extra := d.extra.ofBindings ms } := by
  induction ms generalizing d with
  | nil => rfl
  | cons m ms ih =>
    obtain ⟨⟨unknown, ordered, shallow⟩, rest⟩ := List.forall_mem_cons.mp fits
    refine ⟨{ d with extra := d.extra.insert m.1 m.2 }, ?_, ih rest⟩
    unfold TakesMember
    rw [if_neg unknown]
    exact ⟨m.2, ⟨shallow, (Value.ordered_normal m.2 ordered).symm⟩, rfl⟩

theorem representable_read {l : Ledger} (representable : l.Representable) : ReadsAs l.toValue l := by
  obtain ⟨entriesShallow, extraShallow⟩ := nesting_iff.1 representable.nesting
  have entries : EntriesReadAs (entriesValue l.sprints) l.sprints := by
    have kept := SortedMap.ext_list (SortedMap.of_bindings_ascending l.sprints.ascending)
    have steps : Steps TakesEntry .empty _ _ := entries_steps fun b member =>
      ⟨representable.entries b member, entriesShallow b member⟩
    rw [kept] at steps
    exact ⟨_, rfl, steps⟩
  have extra : Steps TakesMember ⟨some l.sprints, .empty⟩ l.extra.toList ⟨some l.sprints, l.extra⟩ := by
    have kept := SortedMap.ext_list (SortedMap.of_bindings_ascending l.extra.ascending)
    have steps : Steps TakesMember ⟨some l.sprints, .empty⟩ l.extra.toList _ := extra_steps fun m member =>
      ⟨SortedMap.key_absent representable.unknown member, representable.ordered m member, extraShallow m member⟩
    rwa [kept] at steps
  exact ⟨l.members, ⟨some l.sprints, l.extra⟩, rfl, ⟨_, ⟨rfl, l.sprints, entries, rfl⟩, extra⟩, rfl⟩

theorem document_read {l : Ledger} (representable : l.Representable) {text : String}
    (document : Json.Document l.toValue text) : ofText text = .ok l :=
  of_text_iff.2 ⟨l.toValue, document, representable_read representable⟩

theorem file_text_document (l : Ledger) : Json.Document l.reread.toValue l.fileText := by
  have lineBreak : Json.Blank ['\n'] := by simp [Json.Blank, Json.isSpace]
  rw [← to_value_reread]
  exact ⟨[], l.toValue.pretty 0, ['\n'], Json.blank_nil, Value.pretty_spells _ 0, lineBreak, by simp [fileText]⟩

theorem file_text_read {l : Ledger} (representable : l.Representable) : ofText l.fileText = .ok l.reread :=
  document_read (reread_representable representable) l.file_text_document

theorem file_text_read_back {l : Ledger} (representable : l.Representable) (back : l.DoublesReadBack) :
    ofText l.fileText = .ok l := by
  rw [file_text_read representable, reread_settled back]

theorem pretty_text_read {l : Ledger} (representable : l.Representable) :
    ofText (.ofList (l.toValue.pretty 0)) = .ok l.reread :=
  document_read (reread_representable representable) (l.to_value_reread ▸ l.toValue.pretty_document)

theorem compact_text_read {l : Ledger} (representable : l.Representable) :
    ofText (.ofList l.toValue.compact) = .ok l.reread :=
  document_read (reread_representable representable) (l.to_value_reread ▸ l.toValue.compact_document)

theorem representable_round_trip :
    (∀ l : Ledger, l.Representable → l.DoublesReadBack →
      ofText (.ofList (l.toValue.pretty 0)) = .ok l ∧ ofText (.ofList l.toValue.compact) = .ok l) ∧
    (∀ (text : String) (l : Ledger), ofText text = .ok l → l.Representable) ∧
    (∀ (l : Ledger) (n : SprintNumber) (now : Instant), l.Representable →
      (l.put n (l.entry n)).Representable ∧ (∀ l', l.start n now = .ok l' → l'.Representable) ∧
        (l.complete n now).Representable) := by
  refine ⟨?_, ?_, ?_⟩
  · intro l representable back
    have pretty := pretty_text_read representable
    have compact := compact_text_read representable
    rw [reread_settled back] at pretty compact
    exact ⟨pretty, compact⟩
  · intro text l loaded
    exact loaded_representable loaded
  · intro l n now representable
    refine ⟨put_representable representable n (entry_fits representable n), ?_, ?_⟩
    · intro l' started
      exact started_representable representable started
    · exact completed_representable representable n now

-- What a hand might leave in the file: a text that needs escapes, a status and keys of its own, a
-- negative zero, the greatest integer, and an entry under a key that no sprint has.
def handEdited : Ledger where
  sprints := SortedMap.empty.ofBindings
    [("007", ⟨some (.other "on \"hold\"\\"), none, some "a\x00b", SortedMap.empty.ofBindings
      [("note", .array [.number (.double (.zero true)), .object [("a", .null), ("b", .bool true)]])]⟩),
      ("7", .empty)]
  extra := SortedMap.empty.ofBindings [("é🎉", .number (.integer 18446744073709551615 (by decide)))]

theorem hand_edited_representable : handEdited.Representable where
  entries := by
    refine SortedMap.forall_of_bindings (by simp [SortedMap.empty]) ?_
    refine List.forall_mem_cons.2 ⟨⟨by decide, ?_, ?_⟩, List.forall_mem_cons.2 ⟨Entry.empty_representable, nofun⟩⟩
    · rintro s ⟨⟩
      exact ⟨by simp, by simp, by simp⟩
    · refine SortedMap.forall_of_bindings (by simp [SortedMap.empty]) (List.forall_mem_cons.2 ⟨?_, nofun⟩)
      exact ⟨trivial, ⟨by decide, trivial, trivial, trivial⟩, trivial⟩
  unknown := by decide
  ordered := SortedMap.forall_of_bindings (by simp [SortedMap.empty]) (List.forall_mem_cons.2 ⟨trivial, nofun⟩)
  nesting := by decide

theorem hand_edited_reads_back : handEdited.DoublesReadBack := by decide +kernel

theorem hand_edited_round_trip : handEdited.Representable ∧ handEdited.DoublesReadBack ∧
    ofText (.ofList (handEdited.toValue.pretty 0)) = .ok handEdited ∧
    ofText (.ofList handEdited.toValue.compact) = .ok handEdited ∧
    ∃ l, handEdited.start ⟨7, by decide⟩ ⟨0, 0⟩ = .ok l ∧ l.Representable := by
  obtain ⟨texts, loaded, kept⟩ := representable_round_trip
  obtain ⟨pretty, compact⟩ := texts handEdited hand_edited_representable hand_edited_reads_back
  obtain ⟨_, started, _⟩ := kept handEdited ⟨7, by decide⟩ ⟨0, 0⟩ (loaded _ _ pretty)
  exact ⟨hand_edited_representable, hand_edited_reads_back, pretty, compact, _, rfl, started _ rfl⟩

end Ledger

end SprintLedger
