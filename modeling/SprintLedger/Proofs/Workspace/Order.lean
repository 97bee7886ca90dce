import SprintLedger.Proofs.Ledger.Building
import SprintLedger.Proofs.Report.Agreement
import SprintLedger.Proofs.Report.Colors
import SprintLedger.Proofs.Sprint.KeyOrder
import SprintLedger.Proofs.Workspace.Reports

set_option autoImplicit false

namespace SprintLedger

def namedSprints (ops : List Operation) : List SprintNumber :=
  (ops.map Operation.number).foldr SprintNumber.insertOnce []

theorem mem_named {ops : List Operation} {n : SprintNumber} : n ∈ namedSprints ops ↔ n ∈ ops.map Operation.number :=
  SprintNumber.mem_insert_all

namespace Ledger

-- A refused operation names a sprint that has an entry already.
theorem run_key_iff {ops : List Operation} {key : String} :
    key ∈ (empty.run ops).sprints.toList.map Prod.fst ↔ key ∈ (namedSprints ops).map SprintNumber.key := by
  rw [SortedMap.mem_keys_iff]
  constructor
  · intro present
    apply Classical.byContradiction
    intro foreign
    have others : ∀ op ∈ ops, key ≠ op.number.key := fun op member same =>
      foreign (List.mem_map.2 ⟨op.number, mem_named.2 (List.mem_map_of_mem member), same.symm⟩)
    rw [get_run others] at present
    cases present
  · intro named
    obtain ⟨n, member, rfl⟩ := List.mem_map.1 named
    exact present_run (.inr (mem_named.1 member))

theorem run_keys {ops : List Operation} (small : ∀ op ∈ ops, op.number.value < 1000) :
    (empty.run ops).sprints.toList.map Prod.fst = (namedSprints ops).map SprintNumber.key := by
  refine SprintNumber.keys_listed (List.pairwise_map.2 (empty.run ops).sprints.ascending) ?_
    (SprintNumber.insert_all_ascending _) fun key => run_key_iff
  intro n member
  obtain ⟨op, there, rfl⟩ := List.mem_map.1 (mem_named.1 member)
  exact small op there

theorem run_document (ops : List Operation) :
    Json.Document (.object [("sprints", .object ((empty.run ops).sprints.toList.map fun b => (b.1, b.2.toValue)))])
      (empty.run ops).fileText := by
  have document := (empty.run ops).file_text_document
  rw [run_settled rfl, toValue, members, extra_run] at document
  exact document

theorem run_status (ops : List Operation) (n : SprintNumber) : ((empty.run ops).entry n).effectiveStatus = .pending ∨
    ((empty.run ops).entry n).effectiveStatus = .inProgress ∨
    ((empty.run ops).entry n).effectiveStatus = .completed := by
  by_cases idle : empty.effective n ops = []
  · rw [entry_run, idle]
    exact .inl rfl
  · rw [Entry.effectiveStatus]
    rcases (entry_built idle).status with begun | done
    · rw [begun]
      exact .inr (.inl rfl)
    · rw [done]
      exact .inr (.inr rfl)

theorem run_time {ops : List Operation} {n : SprintNumber} {text : String}
    (time : ((empty.run ops).entry n).startedAt = some text ∨ ((empty.run ops).entry n).completedAt = some text) :
    ∃ now : Instant, text = now.stamp := by
  by_cases idle : empty.effective n ops = []
  · rw [entry_run, idle] at time
    rcases time with started | completed
    · cases started
    · cases completed
  · have built := entry_built idle
    rcases time with started | completed
    · obtain ⟨op, _, _, stamped⟩ := built.started
      exact ⟨op.time, Option.some.inj (started.symm.trans stamped)⟩
    · obtain ⟨op, _, _, stamped⟩ := built.completion text completed
      exact ⟨op.time, stamped⟩

theorem run_row_tidy (ops : List Operation) (n : SprintNumber) :
    ∀ text ∈ (Row.ofLedger (empty.run ops) n).texts, Text.Tidy text.toList := by
  refine List.forall_mem_cons.2 ⟨status_tidy (run_status ops n), fun text member => ?_⟩
  have time := (List.mem_append.1 member).imp Option.mem_toList.1 Option.mem_toList.1
  obtain ⟨now, rfl⟩ := run_time time
  exact stamp_tidy now

theorem empty_accepts (op : Operation) : empty.refuses op = false := by
  cases op <;> rfl

theorem serve_performs (l : Ledger) (ops : List Operation) : l.serveAll (ops.map .perform) = l.run ops :=
  List.foldl_map

end Ledger

namespace Workspace

variable {w : Workspace} {t : FileTree} {l : Ledger}

-- The directory has these documents, and both forms of the report follow them one by one.
structure Lists (w : Workspace) (t : FileTree) (l : Ledger) (found : List SprintNumber) : Prop where
  sprints : w.sprints (m := StateM FileTree) t = (.ok found, t)
  json (colors : Bool) : ∃ text, w.report (m := StateM FileTree) true colors t = (.ok text, t) ∧
    Json.ofText text = .ok (.array (found.map l.record))
  table (colors : Bool) : found ≠ [] → ∃ text, w.report (m := StateM FileTree) false colors t = (.ok text, t) ∧
    Report.ListsOnce found text

theorem lists_documented {entries : List DirectoryEntry} (holds : w.Holds t l)
    (listed : t.list? w.directory = some entries)
    (tidy : ∀ n, ∀ text ∈ (Row.ofLedger l n).texts, Text.Tidy text.toList) :
    w.Lists t l (documentedSprints entries) := by
  have loaded : (w.load (m := StateM FileTree) t).1 = .ok l := congrArg Prod.fst (holds_load holds)
  constructor
  · exact sprints_listed listed
  · intro colors
    exact ⟨_, json_listed listed loaded colors, Report.json_read l _⟩
  · intro colors documented
    refine ⟨_, table_listed listed loaded documented colors, ?_⟩
    have unbroken : ∀ r ∈ Report.rows l (documentedSprints entries), ∀ text ∈ r.texts, '\n' ∉ text.toList := by
      intro r member text shown
      obtain ⟨n, _, rfl⟩ := List.mem_map.1 member
      exact (tidy n text shown).unbroken
    have lists := Report.table_lists_colored unbroken colors
    rwa [Report.rows_numbers] at lists

theorem saved_after (holds : w.Holds t l) (settled : l.reread = l) (saved : w.Saved t l) (op : Operation) :
    w.Saved (w.serve t (.perform op)) (l.after op) := by
  have follows := serve_follows holds settled (.perform op)
  cases refused : l.refuses op with
  | false => exact follows.saved (by simp [Ledger.saves, refused])
  | true =>
    rw [follows.kept (by simp [Ledger.saves, refused]), Ledger.after_refused refused]
    exact saved

theorem saved_run (holds : w.Holds t l) (settled : l.reread = l) (saved : w.Saved t l) (ops : List Operation) :
    w.Saved (w.serveAll t (ops.map .perform)) (l.run ops) := by
  induction ops generalizing t l with
  | nil => exact saved
  | cons op ops ih =>
    have follows := serve_follows holds settled (.perform op)
    exact ih follows.holds (serve_settled settled (.perform op)) (saved_after holds settled saved op)

-- The first operation is accepted, so there is a file behind it.
theorem empty_run_saved (holds : w.Holds t .empty) {ops : List Operation} (some : ops ≠ []) :
    w.Saved (w.serveAll t (ops.map .perform)) (Ledger.empty.run ops) := by
  cases ops with
  | nil => exact absurd rfl some
  | cons op ops =>
    have follows := serve_follows holds rfl (.perform op)
    have saved := follows.saved (by simp [Ledger.saves, Ledger.empty_accepts])
    exact saved_run follows.holds (serve_settled rfl (.perform op)) saved ops

theorem entries_saved_in_numeric_order :
    (∀ n m : SprintNumber, n.key.length = m.key.length →
      (n.key.toUTF8.data.toList < m.key.toUTF8.data.toList ↔ n.value < m.value)) ∧
    (∀ n : SprintNumber, n.value < 1000 → n.key.length = 3) ∧
    ∀ ops : List Operation, (∀ op ∈ ops, op.number.value < 1000) →
      ∃ (ns : List SprintNumber) (entries : List (String × Json.Value)),
        ns.Pairwise (·.value < ·.value) ∧ (∀ n, n ∈ ns ↔ n ∈ ops.map Operation.number) ∧
        entries.map Prod.fst = ns.map SprintNumber.key ∧
        Json.Document (.object [("sprints", .object entries)]) (Ledger.empty.run ops).fileText ∧
        ∀ (w : Workspace) (t t' : FileTree), w.Holds t .empty → w.serveAll t (ops.map .perform) = t' →
          (ops ≠ [] → t'.read? w.ledgerPath = some (Ledger.empty.run ops).fileText.toUTF8) ∧
          ∀ listing, t'.list? w.directory = some listing →
            ∃ found, w.Lists t' (Ledger.empty.run ops) found ∧ SameOrder found ns := by
  refine ⟨fun n m => SprintNumber.key_bytes_less_iff, fun n => SprintNumber.small_key_length, ?_⟩
  intro ops small
  refine ⟨namedSprints ops, _, SprintNumber.insert_all_ascending _, fun n => mem_named, ?_, Ledger.run_document ops, ?_⟩
  · rw [List.map_map]
    exact Ledger.run_keys small
  · rintro w t _ holds rfl
    have after := Ledger.serve_performs .empty ops ▸ (holds_serve_all holds rfl (ops.map .perform)).1
    refine ⟨empty_run_saved holds, fun listing listed => ?_⟩
    exact ⟨_, lists_documented after listed (Ledger.run_row_tidy ops),
      ascending_same_order (documented_ascending listing) (SprintNumber.insert_all_ascending _)⟩

-- Names of files that stand in another order than their numbers, and a start that is refused at the end.
def threeNames : FileTree :=
  ⟨[([FileTree.nameOf "SPRINT-1000.md".toList], .file .empty), ([FileTree.nameOf "SPRINT-10.md".toList], .file .empty),
    ([FileTree.nameOf "SPRINT-2.md".toList], .file .empty)], []⟩

def outOfOrder : List Operation :=
  [.complete ⟨10, by decide⟩ ⟨0, 0⟩, .start ⟨998, by decide⟩ ⟨1, 0⟩, .start ⟨2, by decide⟩ ⟨2, 0⟩,
    .start ⟨10, by decide⟩ ⟨3, 0⟩]

theorem out_of_order_saved : ∃ (entries : List (String × Json.Value)) (t : FileTree),
    atRoot.serveAll threeNames (outOfOrder.map .perform) = t ∧
    entries.map Prod.fst = ["002", "010", "998"] ∧
    Json.Document (.object [("sprints", .object entries)]) (Ledger.empty.run outOfOrder).fileText ∧
    t.read? atRoot.ledgerPath = some (Ledger.empty.run outOfOrder).fileText.toUTF8 ∧
    ∃ found, atRoot.Lists t (Ledger.empty.run outOfOrder) found ∧
      SameOrder found [⟨2, by decide⟩, ⟨10, by decide⟩, ⟨998, by decide⟩] := by
  obtain ⟨_, _, runs⟩ := entries_saved_in_numeric_order
  obtain ⟨ns, entries, ascending, named, keys, document, files⟩ := runs outOfOrder (by decide)
  have numbers : ns = [⟨2, by decide⟩, ⟨10, by decide⟩, ⟨998, by decide⟩] := by
    refine ascending_unique ascending (by decide) fun n => (named n).trans ?_
    have listed : outOfOrder.map Operation.number =
        [⟨10, by decide⟩, ⟨998, by decide⟩, ⟨2, by decide⟩, ⟨10, by decide⟩] := rfl
    rw [listed]
    simp only [List.mem_cons, List.not_mem_nil]
    tauto
  subst numbers
  have holds : atRoot.Holds threeNames .empty := .absent [FileTree.nameOf "ledger.json".toList] rfl
  obtain ⟨saved, listings⟩ := files atRoot threeNames _ holds rfl
  obtain ⟨found, lists, same⟩ := listings _ rfl
  exact ⟨entries, _, rfl, keys.trans (by decide +kernel), document, saved (by decide), found, lists, same⟩

end Workspace

end SprintLedger
