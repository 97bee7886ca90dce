import SprintLedger.Ledger.Document
import SprintLedger.Proofs.Json.Records

set_option autoImplicit false

namespace SprintLedger

open Json (FieldReads IsOptionalText Means Steps Transcribes Value)

namespace Entry

def knownKeys : List String := ["status", "started_at", "completed_at"]

def IsKnown (key : String) : Prop := key ∈ knownKeys

instance (key : String) : Decidable (IsKnown key) := inferInstanceAs (Decidable (key ∈ knownKeys))

def TakesMember (depth : Nat) (d : Draft) (m : String × Value) (d' : Draft) : Prop :=
  if m.1 = "status" then
    d.status = none ∧ ∃ t, IsOptionalText m.2 t ∧ { d with status := some (t.map Status.ofText) } = d'
  else if m.1 = "started_at" then
    d.startedAt = none ∧ ∃ t, IsOptionalText m.2 t ∧ { d with startedAt := some t } = d'
  else if m.1 = "completed_at" then
    d.completedAt = none ∧ ∃ t, IsOptionalText m.2 t ∧ { d with completedAt := some t } = d'
  else ∃ v, Means depth m.2 v ∧ { d with extra := d.extra.insert m.1 v } = d'

theorem field_reads (depth : Nat) : FieldReads (Draft.field depth) (TakesMember depth) := by
  intro d key
  unfold Draft.field TakesMember
  by_cases status : key = "status"
  · simp only [if_pos status]
    cases given : d.status with
    | none => simpa using Json.optional_text_reads.map _
    | some _ => simp
  by_cases started : key = "started_at"
  · simp only [if_neg status, if_pos started]
    cases given : d.startedAt with
    | none => simpa using Json.optional_text_reads.map _
    | some _ => simp
  by_cases completed : key = "completed_at"
  · simp only [if_neg status, if_neg started, if_pos completed]
    cases given : d.completedAt with
    | none => simpa using Json.optional_text_reads.map _
    | some _ => simp
  · simp only [if_neg status, if_neg started, if_neg completed]
    exact (Json.value_reads depth).map _

def ReadsAs (depth : Nat) (v : Value) (e : Entry) : Prop :=
  ∃ ms d, v = .object ms ∧ Steps (TakesMember depth) .blank ms d ∧ d.finish = e

theorem reader_reads (depth : Nat) : Transcribes (reader depth) Value.Spells (ReadsAs depth) := by
  refine ((Json.record_reads (field_reads depth) .blank).map Draft.finish).imp ?_
  intro v e
  constructor
  · rintro ⟨d, ⟨ms, object, steps⟩, finished⟩
    exact ⟨ms, d, object, steps, finished⟩
  · rintro ⟨ms, d, object, steps, finished⟩
    exact ⟨d, ⟨ms, object, steps⟩, finished⟩

theorem taken_shallow {depth : Nat} {d d' : Draft} {m : String × Value} (taken : TakesMember depth d m d') :
    m.2.depth ≤ depth := by
  unfold TakesMember at taken
  split at taken
  · obtain ⟨_, t, given, _⟩ := taken
    exact Json.optional_text_depth given ▸ Nat.zero_le depth
  split at taken
  · obtain ⟨_, t, given, _⟩ := taken
    exact Json.optional_text_depth given ▸ Nat.zero_le depth
  split at taken
  · obtain ⟨_, t, given, _⟩ := taken
    exact Json.optional_text_depth given ▸ Nat.zero_le depth
  · obtain ⟨_, ⟨below, _⟩, _⟩ := taken
    exact below

theorem read_depth_le {depth : Nat} {v : Value} {e : Entry} (given : ReadsAs depth v e) : v.depth ≤ depth + 1 := by
  obtain ⟨ms, d, rfl, steps, _⟩ := given
  exact Value.object_depth_le.2 (Json.steps_forall (fun m => m.2.depth ≤ depth) taken_shallow steps)

end Entry

namespace Ledger

def TakesEntry (es : SortedMap Entry) (m : String × Value) (es' : SortedMap Entry) : Prop :=
  ∃ e, Entry.ReadsAs (Json.maxDepth - 3) m.2 e ∧ es.insert m.1 e = es'

def EntriesReadAs (v : Value) (es : SortedMap Entry) : Prop :=
  ∃ ms, v = .object ms ∧ Steps TakesEntry .empty ms es

theorem insert_entry_reads : FieldReads
    (fun es key => .ok ((Entry.reader (Json.maxDepth - 3)).map (SortedMap.insert es key))) TakesEntry :=
  fun es key => (Entry.reader_reads _).map (SortedMap.insert es key)

theorem entries_reads : Transcribes Draft.entries Value.Spells EntriesReadAs :=
  Json.record_reads insert_entry_reads .empty

def TakesMember (d : Draft) (m : String × Value) (d' : Draft) : Prop :=
  if m.1 = "sprints" then
    d.sprints = none ∧ ∃ es, EntriesReadAs m.2 es ∧ { d with sprints := some es } = d'
  else ∃ v, Means (Json.maxDepth - 1) m.2 v ∧ { d with extra := d.extra.insert m.1 v } = d'

theorem field_reads : FieldReads Draft.field TakesMember := by
  intro d key
  unfold Draft.field TakesMember
  by_cases sprints : key = "sprints"
  · simp only [if_pos sprints]
    cases given : d.sprints with
    | none => simpa using entries_reads.map _
    | some _ => simp
  · simp only [if_neg sprints]
    exact (Json.value_reads _).map _

def ReadsAs (v : Value) (l : Ledger) : Prop :=
  ∃ ms d, v = .object ms ∧ Steps TakesMember .blank ms d ∧ d.finish = l

theorem reader_reads : Transcribes reader Value.Spells ReadsAs := by
  refine ((Json.record_reads field_reads .blank).map Draft.finish).imp ?_
  intro v l
  constructor
  · rintro ⟨d, ⟨ms, object, steps⟩, finished⟩
    exact ⟨ms, d, object, steps, finished⟩
  · rintro ⟨ms, d, object, steps, finished⟩
    exact ⟨d, ⟨ms, object, steps⟩, finished⟩

theorem of_text_iff {text : String} {l : Ledger} :
    ofText text = .ok l ↔ ∃ v, Json.Document v text ∧ ReadsAs v l :=
  Json.whole_iff reader_reads

theorem entries_depth_le {v : Value} {es : SortedMap Entry} (given : EntriesReadAs v es) :
    v.depth ≤ Json.maxDepth - 1 := by
  obtain ⟨ms, rfl, steps⟩ := given
  refine Value.object_depth_le.2 (Json.steps_forall (fun m => m.2.depth ≤ _) ?_ steps)
  rintro es m es' ⟨e, entryRead, _⟩
  exact Entry.read_depth_le entryRead

theorem read_depth_le {v : Value} {l : Ledger} (given : ReadsAs v l) : v.depth ≤ Json.maxDepth := by
  obtain ⟨ms, d, rfl, steps, _⟩ := given
  refine Value.object_depth_le.2 (Json.steps_forall (fun m => m.2.depth ≤ _) ?_ steps)
  intro d m d' taken
  unfold TakesMember at taken
  split at taken
  · obtain ⟨_, es, given, _⟩ := taken
    exact entries_depth_le given
  · obtain ⟨_, ⟨below, _⟩, _⟩ := taken
    exact below

end Ledger

end SprintLedger
