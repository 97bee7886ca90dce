import SprintLedger.Proofs.Ledger.RoundTrip

set_option autoImplicit false

namespace SprintLedger

open Json (IsOptionalText Means Steps Value)

namespace Json

def Value.isNull : Value → Bool
  | .null => true
  | _ => false

def textValue : Option String → Value
  | none => .null
  | some text => .string text

theorem optional_text_value {v : Value} {t : Option String} (given : IsOptionalText v t) : v.normal = textValue t := by
  rcases given with ⟨s, rfl, rfl⟩ | ⟨rfl, rfl⟩ <;> rfl

theorem steps_beside {σ : Type} {takes : σ → String × Value → σ → Prop} (r : σ → SortedMap Value → Prop)
    (step : ∀ {s m s' vs}, takes s m s' → r s vs → r s' (vs.insert m.1 m.2.normal)) {s s' : σ}
    {ms : List (String × Value)} {vs : SortedMap Value} (steps : Steps takes s ms s') (start : r s vs) :
    r s' (vs.ofBindings (Value.normalMembers ms)) := by
  induction ms generalizing s vs with
  | nil =>
    obtain rfl : s' = s := steps
    exact start
  | cons m ms ih =>
    obtain ⟨s'', taken, rest⟩ := steps
    exact ih rest (step taken start)

end Json

namespace Entry

def tidy : Value → Value
  | .object ms => .object (ms.filter fun m => !(decide (m.1 ∈ knownKeys) && m.2.isNull))
  | v => v

def knownMembers (e : Entry) : List (String × Value) :=
  textMember "status" (e.status.map Status.text) ++ textMember "started_at" e.startedAt ++
    textMember "completed_at" e.completedAt

def view (e : Entry) : SortedMap Value := e.extra.ofBindings e.knownMembers

theorem known_members_distinct (e : Entry) : e.knownMembers.Pairwise (·.1 ≠ ·.1) := by
  unfold knownMembers
  cases e.status <;> cases e.startedAt <;> cases e.completedAt <;> simp [textMember]

theorem known_members_known (e : Entry) : ∀ m ∈ e.knownMembers, m.1 ∈ knownKeys := by
  unfold knownMembers
  cases e.status <;> cases e.startedAt <;> cases e.completedAt <;> simp [textMember, knownKeys]

theorem known_members_ordered (e : Entry) : ∀ m ∈ e.knownMembers, m.2.Ordered := by
  unfold knownMembers
  cases e.status <;> cases e.startedAt <;> cases e.completedAt <;> simp [textMember, Value.Ordered]

theorem view_get (e : Entry) (k : String) : e.view.get? k = (e.knownMembers.lookup k).or (e.extra.get? k) :=
  SortedMap.lookup_of_bindings e.extra (known_members_distinct e) k

theorem view_unknown (e : Entry) {k : String} (unknown : k ∉ knownKeys) : e.view.get? k = e.extra.get? k := by
  have absent : e.knownMembers.lookup k = none :=
    lookup_absent fun m member same => unknown (same ▸ known_members_known e m member)
  rw [view_get, absent, Option.none_or]

theorem normal_view {e : Entry} (representable : e.Representable) : e.toValue.normal = .object e.view.toList := by
  have ordered : Value.MembersOrdered e.members := by
    refine Value.members_ordered_iff.2 fun m member => ?_
    rcases List.mem_append.1 member with known | unknown
    · exact known_members_ordered e m known
    · exact representable.ordered m unknown
  have distinct : e.members.Pairwise (·.1 ≠ ·.1) := by
    refine List.pairwise_append.2 ⟨known_members_distinct e, ascending_distinct e.extra.ascending, ?_⟩
    intro a known b unknown same
    exact unknown_member representable unknown (same ▸ known_members_known e a known)
  have same : SortedMap.empty.ofBindings e.members = e.view := by
    apply SortedMap.ext_lookup
    intro k
    rw [SortedMap.lookup_of_bindings _ distinct, view_get, SortedMap.get_empty, Option.or_none]
    exact List.lookup_append
  rw [toValue, Value.normal, Value.ordered_normal_members _ ordered, same]

theorem known_status (e : Entry) : e.knownMembers.lookup "status" = e.status.map fun s => .string s.text := by
  unfold knownMembers
  cases e.status <;> cases e.startedAt <;> cases e.completedAt <;> rfl

theorem known_started (e : Entry) : e.knownMembers.lookup "started_at" = e.startedAt.map .string := by
  unfold knownMembers
  cases e.status <;> cases e.startedAt <;> cases e.completedAt <;> rfl

theorem known_completed (e : Entry) : e.knownMembers.lookup "completed_at" = e.completedAt.map .string := by
  unfold knownMembers
  cases e.status <;> cases e.startedAt <;> cases e.completedAt <;> rfl

def Draft.member? (d : Draft) (k : String) : Option Value :=
  if k = "status" then d.status.map fun s => Json.textValue (s.map Status.text)
  else if k = "started_at" then d.startedAt.map Json.textValue
  else if k = "completed_at" then d.completedAt.map Json.textValue
  else d.extra.get? k

theorem taken_member {depth : Nat} {d d' : Draft} {m : String × Value} (taken : TakesMember depth d m d')
    (k : String) : d'.member? k = if k = m.1 then some m.2.normal else d.member? k := by
  unfold TakesMember at taken
  by_cases status : m.1 = "status"
  · rw [if_pos status] at taken
    obtain ⟨_, t, given, rfl⟩ := taken
    rw [status, Json.optional_text_value given]
    by_cases hit : k = "status"
    · rw [if_pos hit, Draft.member?, if_pos hit]
      cases t <;> simp
    · rw [if_neg hit, Draft.member?, Draft.member?, if_neg hit, if_neg hit]
  rw [if_neg status] at taken
  by_cases started : m.1 = "started_at"
  · rw [if_pos started] at taken
    obtain ⟨_, t, given, rfl⟩ := taken
    rw [started, Json.optional_text_value given]
    by_cases hit : k = "started_at"
    · subst hit
      rfl
    · simp [Draft.member?, hit]
  rw [if_neg started] at taken
  by_cases completed : m.1 = "completed_at"
  · rw [if_pos completed] at taken
    obtain ⟨_, t, given, rfl⟩ := taken
    rw [completed, Json.optional_text_value given]
    by_cases hit : k = "completed_at"
    · subst hit
      rfl
    · simp [Draft.member?, hit]
  rw [if_neg completed] at taken
  obtain ⟨_, ⟨_, rfl⟩, rfl⟩ := taken
  by_cases hit : k = m.1
  · subst hit
    simp [Draft.member?, status, started, completed, SortedMap.get_insert]
  · simp [Draft.member?, SortedMap.get_insert, hit]

theorem finish_view {d : Draft} (representable : d.finish.Representable) (k : String) :
    d.finish.view.get? k = (d.member? k).filter fun v => !(decide (k ∈ knownKeys) && v.isNull) := by
  have absent := representable.unknown
  obtain ⟨status, startedAt, completedAt, extra⟩ := d
  by_cases known : k ∈ knownKeys
  · rw [view_get, absent k known, Option.or_none]
    simp only [knownKeys, List.mem_cons, List.not_mem_nil, or_false] at known
    rcases known with rfl | rfl | rfl
    · rw [known_status]
      rcases status with _ | _ | s <;> rfl
    · rw [known_started]
      rcases startedAt with _ | _ | text <;> rfl
    · rw [known_completed]
      rcases completedAt with _ | _ | text <;> rfl
  · rw [view_unknown _ known]
    have others := known
    simp only [knownKeys, List.mem_cons, List.not_mem_nil, or_false, not_or] at others
    rw [Draft.member?, if_neg others.1, if_neg others.2.1, if_neg others.2.2]
    cases found : extra.get? k <;> simp [Draft.finish, found, known, Option.filter]

-- Filtering an object for its nulls is what finishing a draft does.
theorem tidy_view {depth : Nat} {v : Value} {e : Entry} (given : ReadsAs depth v e) :
    tidy v.normal = .object e.view.toList := by
  have representable := (read_representable given).1
  obtain ⟨ms, d, rfl, steps, rfl⟩ := given
  have blank : ∀ k, (SortedMap.empty : SortedMap Value).get? k = Draft.blank.member? k := by
    intro k
    simp [Draft.member?, Draft.blank]
  have beside := Json.steps_beside (fun d vs => ∀ k, vs.get? k = d.member? k) (by
    intro d m d' vs taken same k
    rw [SortedMap.get_insert, taken_member taken, same]) steps blank
  have ascending := (SortedMap.empty.ofBindings (Value.normalMembers ms)).ascending
  rw [Value.normal, tidy]
  refine congrArg Value.object (bindings_ext (ascending.filter _) d.finish.view.ascending fun k => ?_)
  rw [lookup_filter _ (ascending_distinct ascending)]
  exact (congrArg (Option.filter _) (beside k)).trans (finish_view representable k).symm

end Entry

namespace Ledger

def tidyEntries : Value → Value
  | .object ms => .object (ms.map fun m => (m.1, Entry.tidy m.2))
  | v => v

def tidy : Value → Value
  | .object ms => .object (insertBinding "sprints" (tidyEntries ((ms.lookup "sprints").getD (.object []))) ms)
  | v => v

def entriesView (es : SortedMap Entry) : SortedMap Value := es.map fun e => .object e.view.toList

def view (l : Ledger) : SortedMap Value := l.extra.insert "sprints" (.object (entriesView l.sprints).toList)

def document (l : Ledger) : Value := .object l.view.toList

theorem normal_view {l : Ledger} (representable : l.Representable) : l.toValue.normal = l.document := by
  have entries : (entriesValue l.sprints).normal = .object (entriesView l.sprints).toList := by
    have members : Value.normalMembers (l.sprints.toList.map fun b => (b.1, b.2.toValue)) =
        (entriesView l.sprints).toList := by
      rw [Value.normal_members_map, List.map_map]
      refine List.map_congr_left fun b member => ?_
      exact congrArg (Prod.mk b.1) (Entry.normal_view (representable.entries b member))
    rw [entriesValue, Value.normal, members, SortedMap.of_bindings_ascending (entriesView l.sprints).ascending]
  have extra : Value.normalMembers l.extra.toList = l.extra.toList :=
    Value.ordered_normal_members _ (Value.members_ordered_iff.2 representable.ordered)
  have distinct : (("sprints", Value.object (entriesView l.sprints).toList) :: l.extra.toList).Pairwise
      (·.1 ≠ ·.1) := by
    refine List.pairwise_cons.2 ⟨fun b member => ?_, ascending_distinct l.extra.ascending⟩
    exact (SortedMap.key_absent representable.unknown member).symm
  have same : SortedMap.empty.ofBindings (("sprints", .object (entriesView l.sprints).toList) :: l.extra.toList) =
      l.view := by
    apply SortedMap.ext_lookup
    intro k
    rw [SortedMap.lookup_of_bindings _ distinct, SortedMap.get_empty, Option.or_none, lookup_cons_eq_ite]
    exact (SortedMap.get_insert _ _ _ _).symm
  rw [toValue, members_cons, Value.normal, Value.normalMembers, entries, extra, same, document]

theorem entries_view {v : Value} {es : SortedMap Entry} (given : EntriesReadAs v es) :
    tidyEntries v.normal = .object (entriesView es).toList := by
  obtain ⟨ms, rfl, steps⟩ := given
  have start : (SortedMap.empty : SortedMap Value).map Entry.tidy = entriesView .empty := rfl
  have beside := Json.steps_beside (fun es vs => vs.map Entry.tidy = entriesView es) (by
    intro es m es' vs taken same
    obtain ⟨e, entryRead, rfl⟩ := taken
    rw [SortedMap.map_insert, same, Entry.tidy_view entryRead]
    exact (SortedMap.map_insert _ es m.1 e).symm) steps start
  rw [Value.normal, tidyEntries]
  exact congrArg (fun m => Value.object m.toList) beside

-- A draft beside the members that it was read from, with the entries as they will be written.
structure Beside (d : Draft) (vs : SortedMap Value) : Prop where
  unknown : ∀ k, k ≠ "sprints" → vs.get? k = d.extra.get? k
  sprints : (vs.get? "sprints").map tidyEntries = d.sprints.map fun es => .object (entriesView es).toList

theorem taken_beside {d d' : Draft} {m : String × Value} {vs : SortedMap Value} (taken : TakesMember d m d')
    (beside : Beside d vs) : Beside d' (vs.insert m.1 m.2.normal) := by
  unfold TakesMember at taken
  by_cases sprints : m.1 = "sprints"
  · rw [if_pos sprints] at taken
    obtain ⟨_, es, given, rfl⟩ := taken
    rw [sprints]
    constructor
    · intro k other
      rw [SortedMap.get_insert, if_neg other]
      exact beside.unknown k other
    · rw [SortedMap.get_insert, if_pos rfl, Option.map_some, entries_view given]
      rfl
  · rw [if_neg sprints] at taken
    obtain ⟨_, ⟨_, rfl⟩, rfl⟩ := taken
    constructor
    · intro k other
      rw [SortedMap.get_insert, SortedMap.get_insert, beside.unknown k other]
    · rw [SortedMap.get_insert, if_neg (Ne.symm sprints)]
      exact beside.sprints

-- A draft without sprints and a document without them both end with an empty object.
theorem beside_entries {found : Option Value} {drafted : Option (SortedMap Entry)}
    (same : found.map tidyEntries = drafted.map fun es => .object (entriesView es).toList) :
    tidyEntries (found.getD (.object [])) = .object (entriesView (drafted.getD .empty)).toList := by
  cases found with
  | none =>
    cases drafted with
    | none => rfl
    | some es => cases same
  | some v =>
    cases drafted with
    | none => cases same
    | some es => exact Option.some.inj same

theorem beside_tidy {d : Draft} {vs : SortedMap Value} (beside : Beside d vs) :
    tidy (.object vs.toList) = d.finish.document := by
  have same : vs.insert "sprints" (tidyEntries ((vs.get? "sprints").getD (.object []))) = d.finish.view := by
    apply SortedMap.ext_lookup
    intro k
    rw [view, SortedMap.get_insert, SortedMap.get_insert, beside_entries beside.sprints]
    by_cases hit : k = "sprints"
    · rw [if_pos hit, if_pos hit]
      rfl
    · rw [if_neg hit, if_neg hit]
      exact beside.unknown k hit
  exact congrArg (fun m => Value.object m.toList) same

theorem tidy_view {v : Value} {l : Ledger} (given : ReadsAs v l) : tidy v.normal = l.document := by
  obtain ⟨ms, d, rfl, steps, rfl⟩ := given
  have blank : Beside .blank .empty := ⟨fun _ _ => rfl, rfl⟩
  exact beside_tidy (Json.steps_beside Beside taken_beside steps blank)

theorem accepted_tidy {text : String} {l : Ledger} (accepted : ofText text = .ok l) :
    ∃ v, Json.ofText text = .ok v ∧ tidy v = l.document := by
  obtain ⟨raw, document, given⟩ := of_text_iff.1 accepted
  exact ⟨raw.normal, Json.of_text_iff.2 ⟨raw, document, read_depth_le given, rfl⟩, tidy_view given⟩

theorem file_text_value {l : Ledger} (representable : l.Representable) :
    Json.ofText l.fileText = .ok l.reread.document := by
  have again := reread_representable representable
  exact Json.of_text_iff.2 ⟨_, file_text_document l, again.nesting, (normal_view again).symm⟩

end Ledger

end SprintLedger
