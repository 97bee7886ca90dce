import SprintLedger.Proofs.Ledger.Reading

set_option autoImplicit false

namespace SprintLedger

open Json (Value)

namespace Status

-- None of the three known texts is kept as an unknown status.
def Proper (s : Status) : Prop :=
  s ≠ .other "pending" ∧ s ≠ .other "in_progress" ∧ s ≠ .other "completed"

theorem of_text_proper (text : String) : (ofText text).Proper := by
  unfold ofText
  split
  · exact ⟨nofun, nofun, nofun⟩
  split
  · exact ⟨nofun, nofun, nofun⟩
  split
  · exact ⟨nofun, nofun, nofun⟩
  · rename_i pending progress completed
    refine ⟨?_, ?_, ?_⟩ <;> simpa using by assumption

theorem proper_of_text {s : Status} (proper : s.Proper) : ofText s.text = s := by
  cases s with
  | pending => rfl
  | inProgress => rfl
  | completed => rfl
  | other text =>
    obtain ⟨pending, progress, completed⟩ := proper
    simp only [ne_eq, Status.other.injEq] at pending progress completed
    simp [Status.text, ofText, pending, progress, completed]

end Status

def Shallow (depth : Nat) (m : SortedMap Value) : Prop := ∀ b ∈ m.toList, b.2.depth ≤ depth

namespace Entry

-- What is unknown of an entry is a map from unknown keys, in which every object is a map again.
structure Representable (e : Entry) : Prop where
  unknown : ∀ key ∈ knownKeys, e.extra.get? key = none
  proper : ∀ s, e.status = some s → s.Proper
  ordered : ∀ b ∈ e.extra.toList, b.2.Ordered

theorem empty_representable : empty.Representable :=
  ⟨fun _ _ => rfl, nofun, by simp [empty, SortedMap.empty]⟩

theorem start_representable {e : Entry} (representable : e.Representable) (now : Instant) :
    (e.start now).Representable where
  unknown := representable.unknown
  proper := by
    rintro s ⟨⟩
    exact ⟨nofun, nofun, nofun⟩
  ordered := representable.ordered

theorem complete_representable {e : Entry} (representable : e.Representable) (now : Instant) :
    (e.complete now).Representable where
  unknown := representable.unknown
  proper := by
    rintro s ⟨⟩
    exact ⟨nofun, nofun, nofun⟩
  ordered := representable.ordered

theorem insert_unknown {e : Entry} {key : String} {v : Value} (representable : e.Representable)
    (unknown : key ∉ knownKeys) (ordered : v.Ordered) :
    ({ e with extra := e.extra.insert key v } : Entry).Representable where
  unknown k known := by
    have other : k ≠ key := fun same => unknown (same ▸ known)
    rw [SortedMap.get_insert, if_neg other]
    exact representable.unknown k known
  proper := representable.proper
  ordered := SortedMap.forall_insert ordered representable.ordered

theorem taken_representable {depth : Nat} {d d' : Draft} {m : String × Value} (taken : TakesMember depth d m d')
    (holds : d.finish.Representable ∧ Shallow depth d.extra) :
    d'.finish.Representable ∧ Shallow depth d'.extra := by
  obtain ⟨representable, shallow⟩ := holds
  obtain ⟨unknown, proper, ordered⟩ := representable
  unfold TakesMember at taken
  split at taken
  · obtain ⟨_, t, _, rfl⟩ := taken
    refine ⟨⟨unknown, ?_, ordered⟩, shallow⟩
    intro s found
    obtain ⟨text, _, rfl⟩ := Option.map_eq_some_iff.mp (show t.map Status.ofText = some s from found)
    exact Status.of_text_proper text
  split at taken
  · obtain ⟨_, t, _, rfl⟩ := taken
    exact ⟨⟨unknown, proper, ordered⟩, shallow⟩
  split at taken
  · obtain ⟨_, t, _, rfl⟩ := taken
    exact ⟨⟨unknown, proper, ordered⟩, shallow⟩
  · rename_i status started completed
    obtain ⟨_, ⟨below, rfl⟩, rfl⟩ := taken
    have strange : m.1 ∉ knownKeys := by simp [knownKeys, status, started, completed]
    refine ⟨insert_unknown ⟨unknown, proper, ordered⟩ strange m.2.normal_ordered, ?_⟩
    exact SortedMap.forall_insert (Nat.le_trans m.2.normal_depth_le below) shallow

theorem read_representable {depth : Nat} {v : Value} {e : Entry} (read : ReadsAs depth v e) :
    e.Representable ∧ Shallow depth e.extra := by
  obtain ⟨ms, d, _, steps, rfl⟩ := read
  have start : Draft.blank.finish.Representable ∧ Shallow depth Draft.blank.extra :=
    ⟨empty_representable, by simp [Shallow, Draft.blank, SortedMap.empty]⟩
  exact Json.steps_keep (fun d => d.finish.Representable ∧ Shallow depth d.extra) taken_representable steps start

theorem text_member_shallow (key : String) (t : Option String) (depth : Nat) :
    ∀ m ∈ textMember key t, m.2.depth ≤ depth := by
  cases t <;> simp [textMember, Value.depth]

theorem depth_le_iff {e : Entry} {depth : Nat} : e.toValue.depth ≤ depth + 1 ↔ Shallow depth e.extra := by
  unfold toValue
  rw [Value.object_depth_le]
  constructor
  · intro shallow m member
    exact shallow m (List.mem_append_right _ member)
  · intro shallow m member
    simp only [members, List.mem_append] at member
    rcases member with ((status | started) | completed) | extra
    · exact text_member_shallow _ _ depth m status
    · exact text_member_shallow _ _ depth m started
    · exact text_member_shallow _ _ depth m completed
    · exact shallow m extra

end Entry

namespace Ledger

-- The nesting counts the ledger itself, the object of its entries and each entry.
structure Representable (l : Ledger) : Prop where
  entries : ∀ b ∈ l.sprints.toList, b.2.Representable
  unknown : l.extra.get? "sprints" = none
  ordered : ∀ b ∈ l.extra.toList, b.2.Ordered
  nesting : l.toValue.depth ≤ Json.maxDepth

def entriesValue (es : SortedMap Entry) : Value := .object (es.toList.map fun b => (b.1, b.2.toValue))

theorem members_cons (l : Ledger) : l.members = ("sprints", entriesValue l.sprints) :: l.extra.toList := rfl

theorem nesting_iff {l : Ledger} : l.toValue.depth ≤ Json.maxDepth ↔
    (∀ b ∈ l.sprints.toList, Shallow (Json.maxDepth - 3) b.2.extra) ∧
      Shallow (Json.maxDepth - 1) l.extra := by
  have entries : (entriesValue l.sprints).depth ≤ 125 + 1 ↔ ∀ b ∈ l.sprints.toList, Shallow 124 b.2.extra := by
    rw [entriesValue, Value.object_depth_le, List.forall_mem_map]
    exact forall_congr' fun b => imp_congr_right fun _ => Entry.depth_le_iff
  show (Value.object l.members).depth ≤ 126 + 1 ↔ _
  rw [Value.object_depth_le, members_cons, List.forall_mem_cons]
  exact and_congr_left fun _ => entries

theorem empty_representable : empty.Representable where
  entries := by simp [empty, SortedMap.empty]
  unknown := rfl
  ordered := by simp [empty, SortedMap.empty]
  nesting := by decide

theorem entry_fits {l : Ledger} (representable : l.Representable) (n : SprintNumber) :
    (l.entry n).Representable ∧ Shallow (Json.maxDepth - 3) (l.entry n).extra := by
  unfold entry
  cases found : l.find? n with
  | none => exact ⟨Entry.empty_representable, by simp [Entry.empty, Shallow, SortedMap.empty]⟩
  | some e =>
    have member : (n.key, e) ∈ l.sprints.toList := mem_of_lookup found
    exact ⟨representable.entries _ member, (nesting_iff.1 representable.nesting).1 _ member⟩

theorem put_representable {l : Ledger} (representable : l.Representable) (n : SprintNumber) {e : Entry}
    (fits : e.Representable ∧ Shallow (Json.maxDepth - 3) e.extra) : (l.put n e).Representable where
  entries := SortedMap.forall_insert fits.1 representable.entries
  unknown := representable.unknown
  ordered := representable.ordered
  nesting := by
    obtain ⟨entries, extra⟩ := nesting_iff.1 representable.nesting
    exact nesting_iff.2 ⟨SortedMap.forall_insert fits.2 entries, extra⟩

theorem started_representable {l l' : Ledger} {n : SprintNumber} {now : Instant}
    (representable : l.Representable) (started : l.start n now = .ok l') : l'.Representable := by
  unfold start at started
  split at started
  · cases started
  · obtain ⟨fits, shallow⟩ := entry_fits representable n
    obtain rfl := Except.ok.inj started
    exact put_representable representable n ⟨Entry.start_representable fits now, shallow⟩

theorem completed_representable {l : Ledger} (representable : l.Representable) (n : SprintNumber)
    (now : Instant) : (l.complete n now).Representable := by
  obtain ⟨fits, shallow⟩ := entry_fits representable n
  exact put_representable representable n ⟨Entry.complete_representable fits now, shallow⟩

theorem applied_representable {l l' : Ledger} {op : Operation} (representable : l.Representable)
    (applied : op.apply l = .ok l') : l'.Representable := by
  cases op with
  | start n now => exact started_representable representable applied
  | complete n now =>
    obtain rfl := Except.ok.inj applied
    exact completed_representable representable n now

-- What holds of all entries that have been read, whatever is read after them.
def EntriesFit (es : SortedMap Entry) : Prop :=
  ∀ b ∈ es.toList, b.2.Representable ∧ Shallow (Json.maxDepth - 3) b.2.extra

theorem empty_fit : EntriesFit .empty := by
  simp [EntriesFit, SortedMap.empty]

theorem taken_entry_fits {es es' : SortedMap Entry} {m : String × Value} (taken : TakesEntry es m es')
    (fit : EntriesFit es) : EntriesFit es' := by
  obtain ⟨e, entryRead, rfl⟩ := taken
  exact SortedMap.forall_insert (Entry.read_representable entryRead) fit

theorem read_entries_fit {v : Value} {es : SortedMap Entry} (given : EntriesReadAs v es) : EntriesFit es := by
  obtain ⟨ms, _, steps⟩ := given
  exact Json.steps_keep EntriesFit taken_entry_fits steps empty_fit

def DraftFits (d : Draft) : Prop :=
  EntriesFit d.finish.sprints ∧ d.extra.get? "sprints" = none ∧
    (∀ b ∈ d.extra.toList, b.2.Ordered) ∧ Shallow (Json.maxDepth - 1) d.extra

theorem taken_fits {d d' : Draft} {m : String × Value} (taken : TakesMember d m d') (fits : DraftFits d) :
    DraftFits d' := by
  obtain ⟨entries, unknown, ordered, shallow⟩ := fits
  unfold TakesMember at taken
  split at taken
  · obtain ⟨_, es, entriesRead, rfl⟩ := taken
    exact ⟨read_entries_fit entriesRead, unknown, ordered, shallow⟩
  · rename_i other
    obtain ⟨_, ⟨below, rfl⟩, rfl⟩ := taken
    refine ⟨entries, ?_, ?_, ?_⟩
    · rw [SortedMap.get_insert, if_neg fun same => other same.symm]
      exact unknown
    · exact SortedMap.forall_insert m.2.normal_ordered ordered
    · exact SortedMap.forall_insert (Nat.le_trans m.2.normal_depth_le below) shallow

theorem read_representable {v : Value} {l : Ledger} (given : ReadsAs v l) : l.Representable := by
  obtain ⟨ms, d, _, steps, rfl⟩ := given
  have blank : DraftFits .blank :=
    ⟨empty_fit, rfl, by simp [Draft.blank, SortedMap.empty], by simp [Shallow, Draft.blank, SortedMap.empty]⟩
  obtain ⟨entries, unknown, ordered, shallow⟩ := Json.steps_keep DraftFits taken_fits steps blank
  exact ⟨fun b member => (entries b member).1, unknown, ordered,
    nesting_iff.2 ⟨fun b member => (entries b member).2, shallow⟩⟩

theorem loaded_representable {text : String} {l : Ledger} (loaded : ofText text = .ok l) : l.Representable := by
  obtain ⟨v, _, given⟩ := of_text_iff.1 loaded
  exact read_representable given

end Ledger

end SprintLedger
