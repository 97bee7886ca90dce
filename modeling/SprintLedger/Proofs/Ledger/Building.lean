import SprintLedger.Proofs.Instant
import SprintLedger.Proofs.Ledger.Runs
import SprintLedger.Proofs.SortedMap

set_option autoImplicit false

namespace SprintLedger

-- The times never decrease and have stamps of one length.
structure Timely (ops : List Operation) : Prop where
  ascending : ops.Pairwise (fun a b => a.time ≤ b.time)
  common : ∀ op ∈ ops, op.time.Common

-- An entry that operations of the list on the sprint can have made.
structure Entry.BuiltBy (ops : List Operation) (n : SprintNumber) (e : Entry) : Prop where
  known : e.extra = .empty
  status : e.status = some .inProgress ∨ e.status = some .completed
  started : ∃ op ∈ ops, op.number = n ∧ e.startedAt = some op.time.stamp
  completed : e.completedAt.isSome = true ↔ e.status = some .completed
  completion : ∀ text, e.completedAt = some text → ∃ op ∈ ops, op.number = n ∧ text = op.time.stamp
  ordered : Timely ops → ∀ startText endText, e.startedAt = some startText → e.completedAt = some endText →
    startText ≤ endText

theorem mem_completions {n : SprintNumber} {now : Instant} {ops : List Operation} (member : now ∈ completions n ops) :
    ∃ op ∈ ops, op.time = now := by
  obtain ⟨op, there, given⟩ := List.mem_filterMap.1 member
  cases op with
  | start m t => cases given
  | complete m t =>
    rw [Operation.completionOf?] at given
    by_cases same : m = n
    · rw [if_pos same] at given
      exact ⟨_, there, Option.some.inj given⟩
    · rw [if_neg same] at given
      cases given

namespace Ledger

theorem accepted_applies {l : Ledger} {op : Operation} (accepted : l.refuses op = false) :
    ∃ changed, op.apply l = .ok changed := by
  cases result : op.apply l with
  | ok changed => exact ⟨changed, rfl⟩
  | error failure =>
    rw [refuses_iff.2 ⟨failure, result⟩] at accepted
    cases accepted

theorem effective_sublist (l : Ledger) (n : SprintNumber) (ops : List Operation) :
    (l.effective n ops).Sublist ops := by
  induction ops generalizing l with
  | nil => exact .slnil
  | cons op ops ih =>
    rw [effective]
    by_cases marked : op.number = n ∧ l.refuses op = false
    · rw [if_pos marked]
      exact (ih _).cons_cons op
    · rw [if_neg marked]
      exact (ih _).cons op

theorem effective_succeeds {l : Ledger} {n : SprintNumber} {ops : List Operation} {op : Operation}
    (member : op ∈ l.effective n ops) : ∃ before later changed,
      ops = before ++ op :: later ∧ op.number = n ∧ op.apply (l.run before) = .ok changed := by
  induction ops generalizing l with
  | nil => cases member
  | cons next ops ih =>
    rw [effective] at member
    have later (there : op ∈ (l.after next).effective n ops) : ∃ before later changed,
        next :: ops = before ++ op :: later ∧ op.number = n ∧ op.apply (l.run before) = .ok changed := by
      obtain ⟨before, later, changed, split, named, applied⟩ := ih there
      exact ⟨next :: before, later, changed, by rw [split, List.cons_append], named, applied⟩
    by_cases marked : next.number = n ∧ l.refuses next = false
    · rw [if_pos marked] at member
      rcases List.mem_cons.1 member with rfl | there
      · obtain ⟨changed, applied⟩ := accepted_applies marked.2
        exact ⟨[], ops, changed, rfl, marked.1, applied⟩
      · exact later there
    · rw [if_neg marked] at member
      exact later member

theorem empty_entry (n : SprintNumber) : empty.entry n = .empty := rfl

theorem run_completion (ops : List Operation) (n : SprintNumber) :
    ((empty.run ops).entry n).completedAt = (completions n (empty.effective n ops)).getLast?.map Instant.stamp := by
  rw [entry_run, empty_entry, Entry.marked_completed _ (effective_number empty ops n), Entry.empty, Option.or_none]

theorem completion_effective {ops : List Operation} {n : SprintNumber} {text : String}
    (completed : ((empty.run ops).entry n).completedAt = some text) :
    ∃ op ∈ empty.effective n ops, text = op.time.stamp := by
  rw [run_completion] at completed
  obtain ⟨now, last, rfl⟩ := Option.map_eq_some_iff.1 completed
  obtain ⟨op, there, rfl⟩ := mem_completions (List.mem_of_getLast? last)
  exact ⟨op, there, rfl⟩

-- The last completion is no earlier than the first of the operations that took effect.
theorem run_stamps {ops : List Operation} {n : SprintNumber} {startText endText : String} (timely : Timely ops)
    (started : ((empty.run ops).entry n).startedAt = some startText)
    (completed : ((empty.run ops).entry n).completedAt = some endText) : startText ≤ endText := by
  obtain ⟨op, there, rfl⟩ := completion_effective completed
  rw [entry_run, empty_entry, Entry.marked_started] at started
  have kept := effective_sublist empty n ops
  have ascending := timely.ascending.sublist kept
  cases effective : empty.effective n ops with
  | nil =>
    rw [effective] at there
    cases there
  | cons first rest =>
    rw [effective] at started there ascending kept
    obtain rfl := Option.some.inj started
    have order : first.time ≤ op.time := by
      rcases List.mem_cons.1 there with rfl | later
      · exact Instant.le_refl _
      · exact (List.pairwise_cons.1 ascending).1 op later
    exact Instant.stamp_le order (timely.common first (kept.subset List.mem_cons_self))
      (timely.common op (kept.subset there))

theorem run_completed (ops : List Operation) (n : SprintNumber) :
    ((empty.run ops).entry n).completedAt.isSome = true ↔ ((empty.run ops).entry n).status = some .completed := by
  have completed : ((empty.run ops).entry n).status = some .completed ↔ completions n ops ≠ [] := by
    refine decide_eq_true_iff.symm.trans ((completed_run empty ops n).trans ?_)
    exact or_iff_right nofun
  rw [run_completion, effective_completions, completed, Option.isSome_map, List.getLast?_isSome]

theorem entry_built {ops : List Operation} {n : SprintNumber} (busy : empty.effective n ops ≠ []) :
    ((empty.run ops).entry n).BuiltBy ops n := by
  have kept := effective_sublist empty n ops
  have named := effective_number empty ops n
  obtain ⟨first, rest, effective⟩ := List.exists_cons_of_ne_nil busy
  constructor
  · rw [entry_run, Entry.marked_extra]
    rfl
  · rw [entry_run, effective]
    exact Entry.marked_status _ first rest
  · rw [entry_run, Entry.marked_started, effective]
    have there : first ∈ empty.effective n ops := effective ▸ List.mem_cons_self
    exact ⟨first, kept.subset there, named first there, rfl⟩
  · exact run_completed ops n
  · intro text completed
    obtain ⟨op, there, rfl⟩ := completion_effective completed
    exact ⟨op, kept.subset there, named op there, rfl⟩
  · exact fun timely startText endText => run_stamps timely

theorem run_builds_entries {ops : List Operation} {key : String} {e : Entry}
    (member : (key, e) ∈ (empty.run ops).sprints.toList) :
    ∃ n : SprintNumber, key = n.key ∧ (∀ m : SprintNumber, key = m.key → m = n) ∧
      (∃ before op later changed,
        ops = before ++ op :: later ∧ op.number = n ∧ op.apply (empty.run before) = .ok changed) ∧
      e.BuiltBy ops n := by
  have found : (empty.run ops).sprints.get? key = some e :=
    lookup_of_mem (ascending_distinct (empty.run ops).sprints.ascending) member
  obtain ⟨n, rfl⟩ : ∃ n : SprintNumber, key = n.key := by
    apply Classical.byContradiction
    intro foreign
    rw [get_run fun op _ same => foreign ⟨op.number, same⟩] at found
    cases found
  have there : (empty.run ops).find? n = some e := found
  rw [find_run] at there
  by_cases idle : empty.effective n ops = []
  · rw [if_pos idle] at there
    cases there
  · rw [if_neg idle] at there
    obtain rfl := Option.some.inj there
    obtain ⟨op, effective⟩ := List.exists_mem_of_ne_nil _ idle
    obtain ⟨before, later, changed, succeeded⟩ := effective_succeeds effective
    exact ⟨n, rfl, fun m same => (SprintNumber.key_injective same).symm,
      ⟨before, op, later, changed, succeeded⟩, entry_built idle⟩

-- Started in the leap second at the end of 2016, refused once more after the completion.
def leapYearEnd : List Operation :=
  [.start ⟨12, by decide⟩ ⟨1483228799, 1000000000⟩, .complete ⟨12, by decide⟩ ⟨1483228800, 0⟩,
    .start ⟨12, by decide⟩ ⟨1483228800, 5⟩]

theorem leap_second_entry_built :
    ("012", (⟨some .completed, some (Instant.stamp ⟨1483228799, 1000000000⟩), some (Instant.stamp ⟨1483228800, 0⟩),
      .empty⟩ : Entry)) ∈ (empty.run leapYearEnd).sprints.toList ∧
    Timely leapYearEnd ∧
    Instant.stamp ⟨1483228799, 1000000000⟩ = "2016-12-31T23:59:60Z" ∧
    Instant.stamp ⟨1483228799, 1000000000⟩ ≤ Instant.stamp ⟨1483228800, 0⟩ := by
  have member : ("012", (⟨some .completed, some (Instant.stamp ⟨1483228799, 1000000000⟩),
      some (Instant.stamp ⟨1483228800, 0⟩), .empty⟩ : Entry)) ∈ (empty.run leapYearEnd).sprints.toList :=
    List.mem_singleton.2 rfl
  have timely : Timely leapYearEnd := ⟨by decide, by decide +kernel⟩
  obtain ⟨_, _, _, _, built⟩ := run_builds_entries member
  exact ⟨member, timely, by decide +kernel, built.ordered timely _ _ rfl rfl⟩

end Ledger

end SprintLedger
