import SprintLedger.Proofs.Json.Rearranging
import SprintLedger.Proofs.Json.Unambiguous
import SprintLedger.Proofs.Ledger.Tidying

set_option autoImplicit false

namespace SprintLedger

open Json (Value)

theorem Status.map_text_injective {s s' : Option Status} (proper : ∀ status, s = some status → status.Proper)
    (proper' : ∀ status, s' = some status → status.Proper)
    (same : (s.map fun status => Value.string status.text) = s'.map fun status => Value.string status.text) : s = s' := by
  cases s with
  | none =>
    cases s' with
    | none => rfl
    | some status' => cases same
  | some status =>
    cases s' with
    | none => cases same
    | some status' =>
      have texts : status.text = status'.text := Value.string.inj (Option.some.inj same)
      rw [← proper_of_text (proper status rfl), texts, proper_of_text (proper' status' rfl)]

theorem text_member_keys (key : String) (t : Option String) :
    ((textMember key t).map Prod.fst).Sublist [key] := by
  cases t with
  | none => exact List.nil_sublist _
  | some text => exact List.Sublist.refl _

namespace Entry

theorem view_injective {e e' : Entry} (representable : e.Representable) (representable' : e'.Representable)
    (same : e.view = e'.view) : e = e' := by
  have known (k : String) (member : k ∈ knownKeys) : e.knownMembers.lookup k = e'.knownMembers.lookup k := by
    have found := congrArg (SortedMap.get? · k) same
    simp only [view_get] at found
    rwa [representable.unknown k member, representable'.unknown k member, Option.or_none, Option.or_none] at found
  have extra : e.extra = e'.extra := by
    apply SortedMap.ext_lookup
    intro k
    by_cases member : k ∈ knownKeys
    · rw [representable.unknown k member, representable'.unknown k member]
    · rw [← view_unknown e member, ← view_unknown e' member, same]
  have started : e.startedAt = e'.startedAt := by
    have found := known "started_at" (by decide)
    rw [known_started, known_started] at found
    exact Option.map_injective (fun _ _ => Value.string.inj) found
  have completed : e.completedAt = e'.completedAt := by
    have found := known "completed_at" (by decide)
    rw [known_completed, known_completed] at found
    exact Option.map_injective (fun _ _ => Value.string.inj) found
  have status : e.status = e'.status := by
    have found := known "status" (by decide)
    rw [known_status, known_status] at found
    exact Status.map_text_injective representable.proper representable'.proper found
  cases e
  cases e'
  cases status
  cases started
  cases completed
  cases extra
  rfl

-- The known members first, in the order of their keys' list, then the others by their keys.
def Canonical (v : Value) : Prop :=
  ∃ known unknown, v = .object (known ++ unknown) ∧ (known.map Prod.fst).Sublist knownKeys ∧
    (∀ m ∈ unknown, m.1 ∉ knownKeys) ∧ (Value.object unknown).Ordered

theorem known_members_sublist (e : Entry) : (e.knownMembers.map Prod.fst).Sublist knownKeys := by
  rw [knownMembers, List.map_append, List.map_append]
  exact ((text_member_keys _ _).append (text_member_keys _ _)).append (text_member_keys _ _)

theorem value_canonical {e : Entry} (representable : e.Representable) : Canonical e.toValue :=
  ⟨e.knownMembers, e.extra.toList, rfl, known_members_sublist e,
    fun _ member => unknown_member representable member,
    e.extra.ascending, Value.members_ordered_iff.2 representable.ordered⟩

end Entry

namespace Ledger

theorem entries_view_injective {es es' : SortedMap Entry} (representable : ∀ b ∈ es.toList, b.2.Representable)
    (representable' : ∀ b ∈ es'.toList, b.2.Representable) (same : entriesView es = entriesView es') : es = es' := by
  apply SortedMap.ext_lookup
  intro k
  have found := congrArg (SortedMap.get? · k) same
  simp only [entriesView, SortedMap.get_map] at found
  cases there : es.get? k with
  | none =>
    cases there' : es'.get? k with
    | none => rfl
    | some e' => simp [there, there'] at found
  | some e =>
    cases there' : es'.get? k with
    | none => simp [there, there'] at found
    | some e' =>
      rw [there, there', Option.map_some, Option.map_some] at found
      have views : e.view = e'.view := SortedMap.ext_list (Value.object.inj (Option.some.inj found))
      exact congrArg some (Entry.view_injective (representable _ (mem_of_lookup there))
        (representable' _ (mem_of_lookup there')) views)

theorem document_injective {l l' : Ledger} (representable : l.Representable) (representable' : l'.Representable)
    (same : l.document = l'.document) : l = l' := by
  have views : l.view = l'.view := SortedMap.ext_list (Value.object.inj same)
  have found (k : String) : l.view.get? k = l'.view.get? k := by rw [views]
  simp only [view, SortedMap.get_insert] at found
  have extra : l.extra = l'.extra := by
    apply SortedMap.ext_lookup
    intro k
    by_cases hit : k = "sprints"
    · rw [hit, representable.unknown, representable'.unknown]
    · have other := found k
      rwa [if_neg hit, if_neg hit] at other
  have sprints : l.sprints = l'.sprints := by
    have entries := found "sprints"
    rw [if_pos rfl, if_pos rfl] at entries
    exact entries_view_injective representable.entries representable'.entries
      (SortedMap.ext_list (Value.object.inj (Option.some.inj entries)))
  cases l
  cases l'
  cases extra
  cases sprints
  rfl

theorem accepted_document {v : Value} {text : String} {l : Ledger} (accepted : ofText text = .ok l)
    (spelled : Json.Document v text) : tidy v.normal = l.document := by
  obtain ⟨raw, document, given⟩ := of_text_iff.1 accepted
  rw [Json.document_unique spelled document, tidy_view given]

theorem rearranged_accepted {v v' : Value} {text text' : String} {l l' : Ledger} (accepted : ofText text = .ok l)
    (accepted' : ofText text' = .ok l') (spelled : Json.Document v text) (spelled' : Json.Document v' text')
    (rearranged : v.Rearranged v') : l = l' := by
  apply document_injective (loaded_representable accepted) (loaded_representable accepted')
  rw [← accepted_document accepted spelled, ← accepted_document accepted' spelled',
    Value.rearranged_normal v v' rearranged]

-- The sprints first, their entries by their keys, then the other members by theirs.
def Canonical (v : Value) : Prop :=
  ∃ entries unknown, v = .object (("sprints", .object entries) :: unknown) ∧
    entries.Pairwise (·.1 < ·.1) ∧ (∀ m ∈ entries, Entry.Canonical m.2) ∧
    (∀ m ∈ unknown, m.1 ≠ "sprints") ∧ (Value.object unknown).Ordered

theorem value_canonical {l : Ledger} (representable : l.Representable) : Canonical l.toValue := by
  refine ⟨l.sprints.toList.map fun b => (b.1, b.2.toValue), l.extra.toList, rfl, ?_, ?_, ?_, ?_⟩
  · exact List.pairwise_map.2 l.sprints.ascending
  · rw [List.forall_mem_map]
    exact fun b member => Entry.value_canonical (representable.entries b member)
  · exact fun m member => SortedMap.key_absent representable.unknown member
  · exact ⟨l.extra.ascending, Value.members_ordered_iff.2 representable.ordered⟩

end Ledger

end SprintLedger
