import SprintLedger.Proofs.Json.Members
import SprintLedger.Proofs.Json.NumberRange
import SprintLedger.Proofs.Ledger.Canonical

set_option autoImplicit false

namespace SprintLedger

open Json (IsOptionalText Means Once Rest TextFound Value last? occurrences)

namespace Json

def IsTextOrNull (v : Value) : Prop := v = .null ∨ ∃ s, v = .string s

theorem optional_text_exists {v : Value} : (∃ t, IsOptionalText v t) ↔ IsTextOrNull v := by
  constructor
  · rintro ⟨t, ⟨s, rfl, rfl⟩ | ⟨rfl, rfl⟩⟩
    · exact .inr ⟨s, rfl⟩
    · exact .inl rfl
  · rintro (rfl | ⟨s, rfl⟩)
    · exact ⟨none, .inr ⟨rfl, rfl⟩⟩
    · exact ⟨some s, .inl ⟨s, rfl, rfl⟩⟩

theorem text_or_null_depth {v : Value} (given : IsTextOrNull v) : v.depth = 0 := by
  obtain ⟨t, optional⟩ := optional_text_exists.2 given
  exact optional_text_depth optional

theorem text_found_drafted {found : Option Value} {drafted : Option (Option String)}
    (same : drafted.map textValue = found.map Value.normal) : TextFound found drafted.join := by
  cases found with
  | none =>
    cases drafted with
    | none => exact .missing
    | some t => cases same
  | some v =>
    cases drafted with
    | none => cases same
    | some t =>
      have value : textValue t = v.normal := Option.some.inj same
      cases v with
      | null =>
        cases t with
        | none => exact .null
        | some s => cases value
      | string s =>
        cases t with
        | none => cases value
        | some s' =>
          obtain rfl : s' = s := Value.string.inj value
          exact .text s'
      | bool b => cases t <;> cases value
      | number n => cases t <;> cases value
      | array vs => cases t <;> cases value
      | object ms => cases t <;> cases value

end Json

namespace Entry

-- An object in which no known key is repeated, with a text or null under each of them.
def InFormat (v : Value) : Prop :=
  ∃ ms, v = .object ms ∧ (∀ key ∈ knownKeys, occurrences key ms ≤ 1) ∧
    ∀ m ∈ ms, m.1 ∈ knownKeys → Json.IsTextOrNull m.2

def Fits (depth : Nat) (m : String × Value) : Prop :=
  m.2.depth ≤ depth ∧ (m.1 ∈ knownKeys → Json.IsTextOrNull m.2)

def Draft.seen (d : Draft) (key : String) : Bool := (d.member? key).isSome

theorem known_admits {depth : Nat} {d : Draft} {key : String} {v : Value} (known : key ∈ knownKeys) :
    (∃ d', TakesMember depth d (key, v) d') ↔ (∃ t, IsOptionalText v t) ∧ d.member? key = none := by
  simp only [knownKeys, List.mem_cons, List.not_mem_nil, or_false] at known
  rcases known with rfl | rfl | rfl <;> simp [TakesMember, Draft.member?, and_comm]

theorem unknown_admits {depth : Nat} {d : Draft} {key : String} {v : Value} (unknown : key ∉ knownKeys) :
    (∃ d', TakesMember depth d (key, v) d') ↔ v.depth ≤ depth := by
  simp only [knownKeys, List.mem_cons, List.not_mem_nil, or_false, not_or] at unknown
  simp [TakesMember, Means, unknown]

theorem takes_once (depth : Nat) : Once (TakesMember depth) knownKeys Draft.seen (Fits depth) where
  admits d m := by
    obtain ⟨key, v⟩ := m
    unfold Fits Draft.seen
    by_cases known : key ∈ knownKeys
    · rw [known_admits known, Json.optional_text_exists, Option.isSome_eq_false_iff, Option.isNone_iff_eq_none]
      constructor
      · rintro ⟨given, free⟩
        exact ⟨⟨Json.text_or_null_depth given ▸ Nat.zero_le depth, fun _ => given⟩, fun _ => free⟩
      · rintro ⟨⟨_, given⟩, free⟩
        exact ⟨given known, free known⟩
    · rw [unknown_admits known]
      exact ⟨fun below => ⟨⟨below, fun member => absurd member known⟩, fun member => absurd member known⟩,
        fun fit => fit.1.1⟩
  marks {d m d'} taken key _ := by
    unfold Draft.seen
    rw [taken_member taken key]
    by_cases hit : key = m.1
    · simp [hit]
    · simp [hit]

theorem blank_seen (key : String) : Draft.blank.seen key = false := by
  simp [Draft.seen, Draft.member?, Draft.blank]

theorem read_exists_iff {depth : Nat} {v : Value} :
    (∃ e, ReadsAs depth v e) ↔ v.depth ≤ depth + 1 ∧ InFormat v := by
  have steps (ms : List (String × Value)) := Json.once_steps (takes_once depth) .blank ms
  simp only [blank_seen, Bool.toNat_false, Nat.add_zero] at steps
  constructor
  · rintro ⟨e, ms, d, rfl, taken, _⟩
    obtain ⟨fit, once⟩ := (steps ms).1 ⟨d, taken⟩
    exact ⟨Value.object_depth_le.2 fun m member => (fit m member).1, ms, rfl, once, fun m member => (fit m member).2⟩
  · rintro ⟨below, ms, rfl, once, given⟩
    have shallow := Value.object_depth_le.1 below
    obtain ⟨d, taken⟩ := (steps ms).2 ⟨fun m member => ⟨shallow m member, given m member⟩, once⟩
    exact ⟨_, ms, d, rfl, taken, rfl⟩

structure Holds (e : Entry) (ms : List (String × Value)) : Prop where
  status : TextFound (last? ms "status") (e.status.map Status.text)
  completed : e.status = some .completed ↔ last? ms "status" = some (.string "completed")
  proper : ∀ s, e.status = some s → s.Proper
  startedAt : TextFound (last? ms "started_at") e.startedAt
  completedAt : TextFound (last? ms "completed_at") e.completedAt
  rest : Rest knownKeys ms e.extra

theorem completed_iff {found : Option Value} {s : Option Status} (proper : ∀ status, s = some status → status.Proper)
    (given : TextFound found (s.map Status.text)) : s = some .completed ↔ found = some (.string "completed") := by
  cases s with
  | none => cases given <;> exact ⟨nofun, nofun⟩
  | some status =>
    generalize text : (some status).map Status.text = shown at given
    cases given with
    | missing => cases text
    | null => cases text
    | text t =>
      have same : status.text = t := Option.some.inj text
      rw [Option.some.injEq, Option.some.injEq, Value.string.injEq, ← same]
      constructor
      · rintro rfl
        rfl
      · intro completed
        rw [← Status.proper_of_text (proper status rfl), completed]
        rfl

theorem read_holds {depth : Nat} {ms : List (String × Value)} {e : Entry} (read : ReadsAs depth (.object ms) e) :
    e.Holds ms := by
  have representable := (read_representable read).1
  obtain ⟨_, d, object, steps, rfl⟩ := read
  obtain rfl := Value.object.inj object
  have start (key : String) : Draft.blank.member? key = (last? [] key).map Value.normal := by
    simp [Draft.member?, Draft.blank, Json.last_nil]
  have members : ∀ key, d.member? key = (last? ms key).map Value.normal := by
    refine Json.steps_so_far (fun d done => ∀ key, d.member? key = (last? done key).map Value.normal) ?_ steps start
    intro d m d' done taken same key
    rw [taken_member taken, Json.last_concat, same]
    by_cases hit : key = m.1
    · rw [if_pos hit, if_pos hit, Option.map_some]
    · rw [if_neg hit, if_neg hit]
  have drafted (t : Option (Option Status)) : (t.map fun s => Json.textValue (s.map Status.text)) =
      (t.map (Option.map Status.text)).map Json.textValue := by rw [Option.map_map]; rfl
  have status : TextFound (last? ms "status") (d.finish.status.map Status.text) := by
    have joined : d.finish.status.map Status.text = (d.status.map (Option.map Status.text)).join := by
      cases given : d.status <;> simp [Draft.finish, given]
    rw [joined]
    exact Json.text_found_drafted ((drafted d.status).symm.trans (members "status"))
  refine ⟨status, completed_iff representable.proper status, representable.proper,
    Json.text_found_drafted (members "started_at"), Json.text_found_drafted (members "completed_at"), ?_,
    representable.unknown⟩
  intro key unknown
  have others := unknown
  simp only [knownKeys, List.mem_cons, List.not_mem_nil, or_false, not_or] at others
  have same := members key
  rwa [Draft.member?, if_neg others.1, if_neg others.2.1, if_neg others.2.2] at same

inductive Found : Option Value → Option Entry → Prop where
  | missing : Found none none
  | present (ms : List (String × Value)) (e : Entry) (holds : e.Holds ms) : Found (some (.object ms)) (some e)

theorem holds_unique {e e' : Entry} {ms : List (String × Value)} (holds : e.Holds ms) (holds' : e'.Holds ms) :
    e = e' := by
  have status : e.status = e'.status := by
    have texts := Json.text_found_unique holds.status holds'.status
    have values := congrArg (Option.map Value.string) texts
    rw [Option.map_map, Option.map_map] at values
    exact Status.map_text_injective holds.proper holds'.proper values
  have started := Json.text_found_unique holds.startedAt holds'.startedAt
  have completed := Json.text_found_unique holds.completedAt holds'.completedAt
  have extra := Json.rest_unique holds.rest holds'.rest
  cases e
  cases e'
  cases status
  cases started
  cases completed
  cases extra
  rfl

theorem found_unique {found : Option Value} {e e' : Option Entry} (first : Found found e) (second : Found found e') :
    e = e' := by
  cases first with
  | missing =>
    cases second
    rfl
  | present ms e holds =>
    cases second with
    | present _ e' holds' => exact congrArg some (holds_unique holds holds')

end Entry

namespace Ledger

def knownKeys : List String := ["sprints"]

def EntriesInFormat (v : Value) : Prop := ∃ es, v = .object es ∧ ∀ m ∈ es, Entry.InFormat m.2

-- An object in which the sprints are not repeated and are an object of entries, also of those that a
-- later one under the same key replaces.
def InFormat (v : Value) : Prop :=
  ∃ ms, v = .object ms ∧ (∀ key ∈ knownKeys, occurrences key ms ≤ 1) ∧
    ∀ m ∈ ms, m.1 ∈ knownKeys → EntriesInFormat m.2

theorem takes_entry_once : Once TakesEntry [] (fun _ _ => false)
    (fun m => m.2.depth ≤ Json.maxDepth - 3 + 1 ∧ Entry.InFormat m.2) where
  admits es m := by
    rw [← Entry.read_exists_iff]
    constructor
    · rintro ⟨es', e, read, _⟩
      exact ⟨⟨e, read⟩, nofun⟩
    · rintro ⟨⟨e, read⟩, _⟩
      exact ⟨_, e, read, rfl⟩
  marks _ _ member := absurd member List.not_mem_nil

theorem entries_exist_iff {v : Value} :
    (∃ es, EntriesReadAs v es) ↔ v.depth ≤ Json.maxDepth - 1 ∧ EntriesInFormat v := by
  have steps (ms : List (String × Value)) := Json.once_steps takes_entry_once .empty ms
  constructor
  · rintro ⟨es, ms, rfl, taken⟩
    have fit := ((steps ms).1 ⟨es, taken⟩).1
    exact ⟨Value.object_depth_le.2 fun m member => (fit m member).1, ms, rfl, fun m member => (fit m member).2⟩
  · rintro ⟨below, ms, rfl, formed⟩
    have shallow := Value.object_depth_le.1 (show _ ≤ 125 + 1 from below)
    obtain ⟨es, taken⟩ := (steps ms).2 ⟨fun m member => ⟨shallow m member, formed m member⟩, nofun⟩
    exact ⟨es, ms, rfl, taken⟩

def Fits (m : String × Value) : Prop :=
  m.2.depth ≤ Json.maxDepth - 1 ∧ (m.1 ∈ knownKeys → EntriesInFormat m.2)

theorem takes_once : Once TakesMember knownKeys (fun d _ => d.sprints.isSome) Fits where
  admits d m := by
    obtain ⟨key, v⟩ := m
    unfold Fits
    by_cases known : key ∈ knownKeys
    · obtain rfl : key = "sprints" := List.mem_singleton.1 known
      have admits : (∃ d', TakesMember d ("sprints", v) d') ↔ (∃ es, EntriesReadAs v es) ∧ d.sprints = none := by
        simp [TakesMember, and_comm]
      rw [admits, entries_exist_iff, Option.isSome_eq_false_iff, Option.isNone_iff_eq_none]
      constructor
      · rintro ⟨⟨below, formed⟩, free⟩
        exact ⟨⟨below, fun _ => formed⟩, fun _ => free⟩
      · rintro ⟨⟨below, formed⟩, free⟩
        exact ⟨⟨below, formed known⟩, free known⟩
    · have other : key ≠ "sprints" := fun same => known (List.mem_singleton.2 same)
      have admits : (∃ d', TakesMember d (key, v) d') ↔ v.depth ≤ Json.maxDepth - 1 := by
        simp [TakesMember, Means, other]
      rw [admits]
      exact ⟨fun below => ⟨⟨below, fun member => absurd member known⟩, fun member => absurd member known⟩,
        fun fit => fit.1.1⟩
  marks {d m d'} taken key member := by
    obtain rfl : key = "sprints" := List.mem_singleton.1 member
    unfold TakesMember at taken
    by_cases sprints : m.1 = "sprints"
    · rw [if_pos sprints] at taken
      obtain ⟨_, es, _, rfl⟩ := taken
      simp [sprints]
    · rw [if_neg sprints] at taken
      obtain ⟨_, _, rfl⟩ := taken
      simp [Ne.symm sprints]

theorem read_exists_iff {v : Value} : (∃ l, ReadsAs v l) ↔ v.depth ≤ Json.maxDepth ∧ InFormat v := by
  have steps (ms : List (String × Value)) := Json.once_steps takes_once .blank ms
  simp only [Draft.blank, Option.isSome_none, Bool.toNat_false, Nat.add_zero] at steps
  constructor
  · rintro ⟨l, ms, d, rfl, taken, _⟩
    obtain ⟨fit, once⟩ := (steps ms).1 ⟨d, taken⟩
    exact ⟨Value.object_depth_le.2 fun m member => (fit m member).1, ms, rfl, once, fun m member => (fit m member).2⟩
  · rintro ⟨below, ms, rfl, once, formed⟩
    have shallow := Value.object_depth_le.1 (show _ ≤ 126 + 1 from below)
    obtain ⟨d, taken⟩ := (steps ms).2 ⟨fun m member => ⟨shallow m member, formed m member⟩, once⟩
    exact ⟨_, ms, d, rfl, taken, rfl⟩

def entryMembers (ms : List (String × Value)) : List (String × Value) :=
  match last? ms "sprints" with
  | some (.object es) => es
  | _ => []

structure Holds (l : Ledger) (ms : List (String × Value)) : Prop where
  sprints : ∀ key, Entry.Found (last? (entryMembers ms) key) (l.sprints.get? key)
  rest : Rest knownKeys ms l.extra

theorem holds_unique {l l' : Ledger} {ms : List (String × Value)} (holds : l.Holds ms) (holds' : l'.Holds ms) :
    l = l' := by
  have sprints : l.sprints = l'.sprints :=
    SortedMap.ext_lookup fun key => Entry.found_unique (holds.sprints key) (holds'.sprints key)
  have extra := Json.rest_unique holds.rest holds'.rest
  cases l
  cases l'
  cases sprints
  cases extra
  rfl

theorem entries_found {ms : List (String × Value)} {es : SortedMap Entry} (read : EntriesReadAs (.object ms) es)
    (key : String) : Entry.Found (last? ms key) (es.get? key) := by
  obtain ⟨_, object, steps⟩ := read
  obtain rfl := Value.object.inj object
  have start (key : String) : Entry.Found (last? [] key) ((SortedMap.empty : SortedMap Entry).get? key) := .missing
  refine Json.steps_so_far (fun es done => ∀ key, Entry.Found (last? done key) (es.get? key)) ?_ steps start key
  rintro es m es' done ⟨e, entryRead, rfl⟩ found key
  rw [Json.last_concat, SortedMap.get_insert]
  by_cases hit : key = m.1
  · obtain ⟨fields, d, object, taken, finished⟩ := entryRead
    rw [if_pos hit, if_pos hit, object]
    exact .present fields e (Entry.read_holds ⟨fields, d, rfl, taken, finished⟩)
  · rw [if_neg hit, if_neg hit]
    exact found key

inductive SprintsFound : Option Value → Option (SortedMap Entry) → Prop where
  | missing : SprintsFound none none
  | present (ms : List (String × Value)) (es : SortedMap Entry)
      (found : ∀ key, Entry.Found (last? ms key) (es.get? key)) : SprintsFound (some (.object ms)) (some es)

structure Drafted (d : Draft) (done : List (String × Value)) : Prop where
  sprints : SprintsFound (last? done "sprints") d.sprints
  rest : Rest knownKeys done d.extra

theorem taken_drafted {d d' : Draft} {m : String × Value} {done : List (String × Value)} (taken : TakesMember d m d')
    (drafted : Drafted d done) : Drafted d' (done ++ [m]) := by
  unfold TakesMember at taken
  by_cases sprints : m.1 = "sprints"
  · rw [if_pos sprints] at taken
    obtain ⟨_, es, ⟨ms, object, steps⟩, rfl⟩ := taken
    refine ⟨?_, Json.rest_known drafted.rest (List.mem_singleton.2 sprints)⟩
    rw [Json.last_concat, if_pos sprints.symm, object]
    exact .present ms es (entries_found ⟨ms, rfl, steps⟩)
  · rw [if_neg sprints] at taken
    obtain ⟨_, ⟨_, rfl⟩, rfl⟩ := taken
    refine ⟨?_, Json.rest_insert drafted.rest fun listed => sprints (List.mem_singleton.1 listed)⟩
    rw [Json.last_concat, if_neg (Ne.symm sprints)]
    exact drafted.sprints

theorem read_holds {ms : List (String × Value)} {l : Ledger} (read : ReadsAs (.object ms) l) : l.Holds ms := by
  obtain ⟨_, d, object, steps, rfl⟩ := read
  obtain rfl := Value.object.inj object
  have start : Drafted .blank [] := ⟨.missing, ⟨fun _ _ => rfl, fun _ _ => rfl⟩⟩
  obtain ⟨sprints, rest⟩ : Drafted d ms := Json.steps_so_far Drafted taken_drafted steps start
  refine ⟨fun key => ?_, rest⟩
  unfold entryMembers Draft.finish
  generalize last? ms "sprints" = found at sprints
  generalize d.sprints = drafted at sprints
  cases sprints with
  | missing => exact .missing
  | present es entries there => exact there key

-- The second entry under the key takes the place of the first one, and of two notes the last one counts.
def replacedMembers (first : List (String × Value)) : List (String × Value) :=
  [("sprints", .object [("7", .object first),
    ("7", .object [("note", .bool true), ("status", .string "Completed"), ("note", .null)])])]

theorem replaced_formed {first : List (String × Value)} (formed : Entry.InFormat (.object first)) :
    InFormat (.object (replacedMembers first)) := by
  have later : Entry.InFormat (.object [("note", .bool true), ("status", .string "Completed"), ("note", .null)]) := by
    refine ⟨_, rfl, by decide, ?_⟩
    simp [Entry.knownKeys, Json.IsTextOrNull]
  have entries : EntriesInFormat (.object [("7", .object first),
      ("7", .object [("note", .bool true), ("status", .string "Completed"), ("note", .null)])]) :=
    ⟨_, rfl, List.forall_mem_cons.2 ⟨formed, List.forall_mem_singleton.2 later⟩⟩
  exact ⟨_, rfl, by simp [knownKeys, occurrences, replacedMembers], List.forall_mem_singleton.2 fun _ => entries⟩

theorem replaced_document {first : List (String × Value)} (settled : Value.rereadMembers first = first) :
    Json.Document (.object (replacedMembers first)) (.ofList (Value.object (replacedMembers first)).compact) := by
  have same : (Value.object (replacedMembers first)).reread = .object (replacedMembers first) := by
    simp [replacedMembers, Value.reread, Value.rereadMembers, settled]
  have document := Value.compact_document (.object (replacedMembers first))
  rwa [same] at document

end Ledger

end SprintLedger
