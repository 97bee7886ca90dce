import Mathlib.Logic.Function.Iterate
import SprintLedger.Proofs.Json.Rereading
import SprintLedger.Proofs.Ledger.Representable
import SprintLedger.Proofs.Ledger.Runs

set_option autoImplicit false

namespace SprintLedger

open Json (Value)

namespace Entry

-- The entry as it is read once it has been written.
def reread (e : Entry) : Entry := { e with extra := e.extra.map Value.reread }

theorem start_reread (e : Entry) (now : Instant) : (e.start now).reread = e.reread.start now := rfl

theorem complete_reread (e : Entry) (now : Instant) : (e.complete now).reread = e.reread.complete now := rfl

theorem to_value_reread (e : Entry) : e.toValue.reread = e.reread.toValue := by
  have members : Value.rereadMembers e.members = e.reread.members := by
    have known (key : String) (text : Option String) :
        ((textMember key text).map fun m => (m.1, m.2.reread)) = textMember key text := by
      cases text <;> rfl
    simp only [Value.reread_members_map, Entry.members, List.map_append, known]
    rfl
  exact congrArg Value.object members

theorem reread_representable {e : Entry} (representable : e.Representable) : e.reread.Representable where
  unknown key known := by
    rw [reread, SortedMap.get_map, representable.unknown key known]
    rfl
  proper := representable.proper
  ordered := SortedMap.forall_map.2 fun b member => b.2.reread_ordered (representable.ordered b member)

end Entry

namespace Ledger

variable {l l' : Ledger}

def reread (l : Ledger) : Ledger := ⟨l.sprints.map Entry.reread, l.extra.map Value.reread⟩

theorem to_value_reread (l : Ledger) : l.toValue.reread = l.reread.toValue := by
  have entries : Value.rereadMembers (l.sprints.toList.map fun b => (b.1, b.2.toValue)) =
      l.reread.sprints.toList.map fun b => (b.1, b.2.toValue) := by
    rw [Value.reread_members_map, reread, SortedMap.map, List.map_map, List.map_map]
    exact List.map_congr_left fun b _ => congrArg (Prod.mk b.1) b.2.to_value_reread
  have members : Value.rereadMembers l.members = l.reread.members := by
    rw [members, members, Value.rereadMembers, Value.reread, entries, Value.reread_members_map]
    rfl
  exact congrArg Value.object members

theorem reread_representable (representable : l.Representable) : l.reread.Representable where
  entries := SortedMap.forall_map.2 fun b member => Entry.reread_representable (representable.entries b member)
  unknown := by
    rw [reread, SortedMap.get_map, representable.unknown]
    rfl
  ordered := SortedMap.forall_map.2 fun b member => b.2.reread_ordered (representable.ordered b member)
  nesting := by
    rw [← to_value_reread, Value.reread_depth]
    exact representable.nesting

theorem put_reread (l : Ledger) (n : SprintNumber) (e : Entry) : (l.put n e).reread = l.reread.put n e.reread :=
  congrArg (Ledger.mk · (l.extra.map Value.reread)) (SortedMap.map_insert _ _ _ _)

theorem entry_reread (l : Ledger) (n : SprintNumber) : l.reread.entry n = (l.entry n).reread := by
  have found : l.reread.find? n = (l.find? n).map Entry.reread := SortedMap.get_map _ _ _
  rw [entry, entry, found]
  cases l.find? n <;> rfl

-- No operation looks at what is unknown of an entry.
theorem apply_reread (op : Operation) (l : Ledger) : op.apply l.reread = (op.apply l).map reread := by
  cases op with
  | start n now =>
    show l.reread.start n now = (l.start n now).map reread
    have completed : l.reread.isCompleted n = l.isCompleted n := by
      rw [isCompleted, entry_reread]
      rfl
    rw [start, start, completed, entry_reread, ← Entry.start_reread, ← put_reread]
    split <;> rfl
  | complete n now =>
    show Except.ok (l.reread.complete n now) = .ok (l.complete n now).reread
    rw [complete, complete, entry_reread, put_reread, Entry.complete_reread]

theorem after_reread (l : Ledger) (op : Operation) : l.reread.after op = (l.after op).reread := by
  unfold after
  rw [apply_reread]
  cases op.apply l <;> rfl

theorem run_reread (l : Ledger) (ops : List Operation) : l.reread.run ops = (l.run ops).reread := by
  induction ops generalizing l with
  | nil => rfl
  | cons op ops ih => rw [run_cons, run_cons, after_reread, ih]

theorem apply_iterate (op : Operation) (l : Ledger) (k : Nat) :
    op.apply (reread^[k] l) = (op.apply l).map reread^[k] := by
  induction k generalizing l with
  | zero =>
    rw [Function.iterate_zero, id]
    cases op.apply l <;> rfl
  | succ k ih =>
    rw [Function.iterate_succ_apply, ih, apply_reread]
    cases op.apply l <;> rfl

theorem run_iterate (l : Ledger) (ops : List Operation) (k : Nat) :
    (reread^[k] l).run ops = reread^[k] (l.run ops) := by
  induction k generalizing l with
  | zero => rfl
  | succ k ih => rw [Function.iterate_succ_apply, Function.iterate_succ_apply, ih, run_reread]

-- Each double is read from its printed text as what it is.
def DoublesReadBack (l : Ledger) : Prop := ∀ x ∈ l.toValue.doubles, x.ReadsBack

instance (l : Ledger) : Decidable l.DoublesReadBack :=
  inferInstanceAs (Decidable (∀ x ∈ l.toValue.doubles, x.ReadsBack))

theorem reread_settled (back : l.DoublesReadBack) : l.reread = l := by
  have members : ∀ m ∈ l.members, ∀ x ∈ m.2.doubles, x.ReadsBack := Value.members_doubles_forall.1 back
  rw [members_cons, List.forall_mem_cons] at members
  obtain ⟨entries, extra⟩ := members
  have each : ∀ m ∈ l.sprints.toList.map fun b => (b.1, b.2.toValue), ∀ x ∈ m.2.doubles, x.ReadsBack :=
    Value.members_doubles_forall.1 entries
  have sprints : l.sprints.map Entry.reread = l.sprints := by
    refine SortedMap.map_fixed fun b member => ?_
    have known : ∀ m ∈ b.2.members, ∀ x ∈ m.2.doubles, x.ReadsBack :=
      Value.members_doubles_forall.1 (each _ (List.mem_map_of_mem member))
    have kept : b.2.extra.map Value.reread = b.2.extra :=
      SortedMap.map_fixed fun m inner => m.2.reread_settled (known m (List.mem_append_right _ inner))
    rw [Entry.reread, kept]
  have others : l.extra.map Value.reread = l.extra :=
    SortedMap.map_fixed fun m member => m.2.reread_settled (extra m member)
  rw [reread, sprints, others]

theorem run_settled (settled : l.reread = l) (ops : List Operation) : (l.run ops).reread = l.run ops := by
  rw [← run_reread, settled]

theorem applied_reread {op : Operation} (settled : l.reread = l) (applied : op.apply l = .ok l') : l'.reread = l' := by
  have same := apply_reread op l
  rw [settled, applied] at same
  exact (Except.ok.inj same).symm

end Ledger

end SprintLedger
