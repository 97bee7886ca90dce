import SprintLedger.Ledger.Basic
import SprintLedger.Proofs.Sprint.Numbers

set_option autoImplicit false

namespace SprintLedger

namespace Operation

def time : Operation → Instant
  | .start _ now => now
  | .complete _ now => now

def mark : Operation → Entry → Entry
  | .start _ now, e => e.start now
  | .complete _ now, e => e.complete now

def completionOf? (n : SprintNumber) : Operation → Option Instant
  | .start _ _ => none
  | .complete m now => if m = n then some now else none

end Operation

def completions (n : SprintNumber) (ops : List Operation) : List Instant :=
  ops.filterMap (Operation.completionOf? n)

theorem completions_cons (n : SprintNumber) (op : Operation) (ops : List Operation) :
    completions n (op :: ops) = (op.completionOf? n).toList ++ completions n ops := by
  unfold completions
  cases given : op.completionOf? n with
  | none => rw [List.filterMap_cons_none given]; rfl
  | some now => rw [List.filterMap_cons_some given]; rfl

namespace Entry

theorem fields_eq {e : Entry} {status : Option Status} {startedAt completedAt : Option String}
    {extra : SortedMap Json.Value} (hs : e.status = status) (ht : e.startedAt = startedAt)
    (hc : e.completedAt = completedAt) (hx : e.extra = extra) : e = ⟨status, startedAt, completedAt, extra⟩ := by
  subst hs ht hc hx
  rfl

def marked (e : Entry) (ops : List Operation) : Entry := ops.foldl (fun e op => op.mark e) e

theorem marked_extra (e : Entry) (ops : List Operation) : (e.marked ops).extra = e.extra := by
  induction ops generalizing e with
  | nil => rfl
  | cons op ops ih =>
    refine (ih (op.mark e)).trans ?_
    cases op <;> rfl

theorem mark_started (e : Entry) (op : Operation) :
    (op.mark e).startedAt = some (e.startedAt.getD op.time.stamp) := by
  cases op <;> rfl

theorem marked_started (e : Entry) (ops : List Operation) :
    (e.marked ops).startedAt = e.startedAt.or (ops.head?.map fun op => op.time.stamp) := by
  induction ops generalizing e with
  | nil => exact (Option.or_none).symm
  | cons op ops ih =>
    refine (ih (op.mark e)).trans ?_
    rw [mark_started]
    cases e.startedAt <;> rfl

theorem marked_completed (e : Entry) {n : SprintNumber} {ops : List Operation}
    (named : ∀ op ∈ ops, op.number = n) :
    (e.marked ops).completedAt = ((completions n ops).getLast?.map Instant.stamp).or e.completedAt := by
  induction ops generalizing e with
  | nil => rfl
  | cons op ops ih =>
    obtain ⟨first, rest⟩ := List.forall_mem_cons.1 named
    refine (ih (op.mark e) rest).trans ?_
    rw [completions_cons]
    cases op with
    | start m now => rfl
    | complete m now =>
      obtain rfl : m = n := first
      have given : (Operation.complete m now).completionOf? m = some now := if_pos rfl
      rw [given, Option.toList_some, List.singleton_append, List.getLast?_cons]
      cases (completions m ops).getLast? <;> rfl

theorem mark_status (e : Entry) (op : Operation) :
    (op.mark e).status = some .inProgress ∨ (op.mark e).status = some .completed := by
  cases op with
  | start m now => exact .inl rfl
  | complete m now => exact .inr rfl

theorem marked_status (e : Entry) (first : Operation) (rest : List Operation) :
    (e.marked (first :: rest)).status = some .inProgress ∨
      (e.marked (first :: rest)).status = some .completed := by
  induction rest generalizing e first with
  | nil => exact mark_status e first
  | cons next rest ih => exact ih (first.mark e) next

end Entry

namespace Ledger

def refuses (l : Ledger) (op : Operation) : Bool :=
  match op.apply l with
  | .ok _ => false
  | .error _ => true

def after (l : Ledger) (op : Operation) : Ledger :=
  match op.apply l with
  | .ok changed => changed
  | .error _ => l

def run (l : Ledger) (ops : List Operation) : Ledger := ops.foldl after l

-- The operations on the sprint that are not refused, in their order.
def effective (l : Ledger) (n : SprintNumber) : List Operation → List Operation
  | [] => []
  | op :: ops =>
    if op.number = n ∧ l.refuses op = false then op :: (l.after op).effective n ops
    else (l.after op).effective n ops

theorem refuses_start (l : Ledger) (n : SprintNumber) (now : Instant) :
    l.refuses (.start n now) = l.isCompleted n := by
  by_cases completed : l.isCompleted n = true <;> simp [refuses, Operation.apply, start, completed]

theorem after_refused {l : Ledger} {op : Operation} (refused : l.refuses op = true) : l.after op = l := by
  cases result : op.apply l with
  | ok changed => simp [refuses, result] at refused
  | error failure => simp [after, result]

theorem after_accepted {l : Ledger} {op : Operation} (accepted : l.refuses op = false) :
    l.after op = l.put op.number (op.mark (l.entry op.number)) := by
  cases op with
  | complete n now => rfl
  | start n now =>
    rw [refuses_start] at accepted
    simp [after, Operation.apply, start, accepted, Operation.mark, Operation.number]

theorem find_put (l : Ledger) (n m : SprintNumber) (e : Entry) :
    (l.put n e).find? m = if m = n then some e else l.find? m := by
  show (l.sprints.insert n.key e).get? m.key = _
  rw [SortedMap.get_insert]
  by_cases same : m = n
  · rw [if_pos same, if_pos (congrArg SprintNumber.key same)]
  · rw [if_neg same, if_neg fun key => same (SprintNumber.key_injective key)]
    rfl

theorem find_after (l : Ledger) (op : Operation) (n : SprintNumber) :
    (l.after op).find? n =
      if op.number = n ∧ l.refuses op = false then some (op.mark (l.entry n)) else l.find? n := by
  cases refused : l.refuses op with
  | true => rw [after_refused refused, if_neg (by simp)]
  | false =>
    rw [after_accepted refused, find_put]
    by_cases same : op.number = n
    · rw [if_pos same.symm, if_pos ⟨same, rfl⟩, same]
    · rw [if_neg fun reverse => same reverse.symm, if_neg fun both => same both.1]

theorem entry_after (l : Ledger) (op : Operation) (n : SprintNumber) :
    (l.after op).entry n =
      if op.number = n ∧ l.refuses op = false then op.mark (l.entry n) else l.entry n := by
  unfold entry
  rw [find_after]
  split <;> rfl

theorem run_cons (l : Ledger) (op : Operation) (ops : List Operation) :
    l.run (op :: ops) = (l.after op).run ops := rfl

theorem entry_run (l : Ledger) (ops : List Operation) (n : SprintNumber) :
    (l.run ops).entry n = (l.entry n).marked (l.effective n ops) := by
  induction ops generalizing l with
  | nil => rfl
  | cons op ops ih =>
    rw [run_cons, ih, entry_after, effective]
    split <;> rfl

theorem find_run (l : Ledger) (ops : List Operation) (n : SprintNumber) :
    (l.run ops).find? n = if l.effective n ops = [] then l.find? n else some ((l.run ops).entry n) := by
  induction ops generalizing l with
  | nil => rfl
  | cons op ops ih =>
    rw [run_cons, ih, find_after, effective]
    by_cases marked : op.number = n ∧ l.refuses op = false
    · rw [if_pos marked, if_pos marked, if_neg (List.cons_ne_nil _ _)]
      by_cases idle : (l.after op).effective n ops = []
      · rw [if_pos idle, entry_run, idle, entry_after, if_pos marked]
        rfl
      · rw [if_neg idle]
    · rw [if_neg marked, if_neg marked]

-- A completion is never refused, so none is lost.
theorem effective_completions (l : Ledger) (ops : List Operation) (n : SprintNumber) :
    completions n (l.effective n ops) = completions n ops := by
  induction ops generalizing l with
  | nil => rfl
  | cons op ops ih =>
    rw [effective]
    by_cases marked : op.number = n ∧ l.refuses op = false
    · rw [if_pos marked, completions_cons, completions_cons, ih]
    · rw [if_neg marked, completions_cons, ih]
      cases op with
      | start m now => rfl
      | complete m now =>
        have other : m ≠ n := fun same => marked ⟨same, rfl⟩
        simp [Operation.completionOf?, other]

theorem effective_number (l : Ledger) (ops : List Operation) (n : SprintNumber) :
    ∀ op ∈ l.effective n ops, op.number = n := by
  induction ops generalizing l with
  | nil => nofun
  | cons op ops ih =>
    rw [effective]
    by_cases marked : op.number = n ∧ l.refuses op = false
    · rw [if_pos marked]
      exact List.forall_mem_cons.2 ⟨marked.1, ih _⟩
    · rw [if_neg marked]
      exact ih _

-- A start is accepted only where nothing was completed, and leaves nothing completed.
theorem completed_after (l : Ledger) (op : Operation) (n : SprintNumber) :
    (l.after op).isCompleted n = (l.isCompleted n || (op.completionOf? n).isSome) := by
  show ((l.after op).entry n).isCompleted = _
  rw [entry_after]
  by_cases marked : op.number = n ∧ l.refuses op = false
  · rw [if_pos marked]
    obtain ⟨rfl, accepted⟩ := marked
    cases op with
    | start m now =>
      rw [refuses_start] at accepted
      show false = (l.isCompleted m || false)
      rw [accepted]
      rfl
    | complete m now => simp [Operation.mark, Operation.completionOf?, Operation.number, Entry.complete, Entry.isCompleted]
  · rw [if_neg marked]
    cases op with
    | start m now => simp [isCompleted, Operation.completionOf?]
    | complete m now =>
      have other : m ≠ n := fun same => marked ⟨same, rfl⟩
      simp [isCompleted, Operation.completionOf?, other]

theorem completed_present {l : Ledger} {n : SprintNumber} (completed : l.isCompleted n = true) :
    (l.find? n).isSome = true := by
  cases found : l.find? n with
  | none =>
    rw [isCompleted, entry, found] at completed
    cases completed
  | some e => rfl

-- A sprint that is named has an entry from then on, also where it was refused.
theorem present_after {l : Ledger} {op : Operation} {n : SprintNumber}
    (present : (l.find? n).isSome = true ∨ op.number = n) : ((l.after op).find? n).isSome = true := by
  rw [find_after]
  by_cases marked : op.number = n ∧ l.refuses op = false
  · rw [if_pos marked]
    rfl
  · rw [if_neg marked]
    rcases present with there | same
    · exact there
    · cases op with
      | start m now =>
        obtain rfl : m = n := same
        rw [refuses_start] at marked
        exact completed_present (by simpa [Operation.number] using marked)
      | complete m now => exact absurd ⟨same, rfl⟩ marked

theorem present_run {l : Ledger} {ops : List Operation} {n : SprintNumber}
    (present : (l.find? n).isSome = true ∨ n ∈ ops.map Operation.number) :
    ((l.run ops).find? n).isSome = true := by
  induction ops generalizing l with
  | nil => exact present.resolve_right nofun
  | cons op ops ih =>
    rw [run_cons]
    apply ih
    rw [List.map_cons, List.mem_cons] at present
    rcases present with there | named | later
    · exact .inl (present_after (.inl there))
    · exact .inl (present_after (.inr named.symm))
    · exact .inr later

theorem completed_run (l : Ledger) (ops : List Operation) (n : SprintNumber) :
    (l.run ops).isCompleted n = true ↔ l.isCompleted n = true ∨ completions n ops ≠ [] := by
  induction ops generalizing l with
  | nil => simp [run, completions]
  | cons op ops ih =>
    rw [run_cons, ih, completed_after, completions_cons]
    cases op.completionOf? n <;> simp

theorem get_after {l : Ledger} {op : Operation} {key : String} (other : key ≠ op.number.key) :
    (l.after op).sprints.get? key = l.sprints.get? key := by
  cases refused : l.refuses op with
  | true => rw [after_refused refused]
  | false =>
    rw [after_accepted refused]
    exact (l.sprints.get_insert _ _ _).trans (if_neg other)

theorem get_run {l : Ledger} {ops : List Operation} {key : String}
    (others : ∀ op ∈ ops, key ≠ op.number.key) : (l.run ops).sprints.get? key = l.sprints.get? key := by
  induction ops generalizing l with
  | nil => rfl
  | cons op ops ih =>
    obtain ⟨other, rest⟩ := List.forall_mem_cons.1 others
    rw [run_cons, ih rest, get_after other]

theorem extra_after (l : Ledger) (op : Operation) : (l.after op).extra = l.extra := by
  cases refused : l.refuses op with
  | true => rw [after_refused refused]
  | false =>
    rw [after_accepted refused]
    rfl

theorem extra_run (l : Ledger) (ops : List Operation) : (l.run ops).extra = l.extra := by
  induction ops generalizing l with
  | nil => rfl
  | cons op ops ih => rw [run_cons, ih, extra_after]

theorem refuses_iff {l : Ledger} {op : Operation} : l.refuses op = true ↔ ∃ failure, op.apply l = .error failure := by
  cases result : op.apply l <;> simp [refuses, result]

theorem run_closed_form (l : Ledger) (ops : List Operation) (n : SprintNumber) :
    (∀ before now later, ops = before ++ .start n now :: later →
      ((∃ failure, (Operation.start n now).apply (l.run before) = .error failure) ↔
        l.isCompleted n = true ∨ completions n before ≠ [])) ∧
    (l.effective n ops = [] → (l.run ops).find? n = l.find? n) ∧
    (∀ first rest, l.effective n ops = first :: rest → (l.run ops).find? n = some
      { status := some (if l.isCompleted n = true ∨ completions n ops ≠ [] then .completed else .inProgress)
        startedAt := some ((l.entry n).startedAt.getD first.time.stamp)
        completedAt := ((completions n ops).getLast?.map Instant.stamp).or (l.entry n).completedAt
        extra := (l.entry n).extra }) ∧
    (∀ key, (∀ op ∈ ops, key ≠ op.number.key) → (l.run ops).sprints.get? key = l.sprints.get? key) ∧
    (l.run ops).extra = l.extra := by
  refine ⟨?_, ?_, ?_, fun key => get_run, extra_run l ops⟩
  · intro before now later _
    rw [← refuses_iff, refuses_start, completed_run]
  · intro idle
    rw [find_run, if_pos idle]
  · intro first rest busy
    have completed := completed_run l ops n
    have fields := entry_run l ops n
    have status := (l.entry n).marked_status first rest
    have last := (l.entry n).marked_completed (effective_number l ops n)
    rw [effective_completions] at last
    rw [busy] at fields last
    rw [find_run, if_neg (by simp [busy])]
    refine congrArg some (Entry.fields_eq ?_ ?_ ?_ ?_)
    · rw [← fields] at status
      by_cases holds : l.isCompleted n = true ∨ completions n ops ≠ []
      · rw [if_pos holds]
        exact of_decide_eq_true (completed.2 holds)
      · rw [if_neg holds]
        exact status.resolve_right fun same => holds (completed.1 (decide_eq_true same))
    · rw [fields, Entry.marked_started]
      cases (l.entry n).startedAt <;> rfl
    · rw [fields, last]
    · rw [fields, Entry.marked_extra]

-- The second start is refused, and the other sprint has nothing to do with it.
def reopening : List Operation :=
  [.start ⟨999, by decide⟩ ⟨0, 0⟩, .complete ⟨1000, by decide⟩ ⟨1, 0⟩, .complete ⟨999, by decide⟩ ⟨2, 0⟩,
    .start ⟨999, by decide⟩ ⟨3, 0⟩]

theorem reopening_closed_form :
    empty.effective ⟨999, by decide⟩ reopening =
      [.start ⟨999, by decide⟩ ⟨0, 0⟩, .complete ⟨999, by decide⟩ ⟨2, 0⟩] ∧
    (empty.run reopening).find? ⟨999, by decide⟩ =
      some ⟨some .completed, some (Instant.stamp ⟨0, 0⟩), some (Instant.stamp ⟨2, 0⟩), .empty⟩ ∧
    (∃ failure, (Operation.start ⟨999, by decide⟩ ⟨3, 0⟩).apply (empty.run (reopening.take 3)) = .error failure) ∧
    (empty.run reopening).sprints.get? "007" = none := by
  obtain ⟨refused, _, marked, others, _⟩ := run_closed_form empty reopening ⟨999, by decide⟩
  have effective : empty.effective ⟨999, by decide⟩ reopening =
      [.start ⟨999, by decide⟩ ⟨0, 0⟩, .complete ⟨999, by decide⟩ ⟨2, 0⟩] := by decide
  have completed : completions ⟨999, by decide⟩ reopening = [⟨2, 0⟩] := by decide
  refine ⟨effective, ?_, ?_, others "007" (by decide)⟩
  · rw [marked _ _ effective, completed, if_pos (.inr (by simp))]
    rfl
  · exact (refused (reopening.take 3) ⟨3, 0⟩ [] rfl).2 (.inr (by decide))

end Ledger

end SprintLedger
