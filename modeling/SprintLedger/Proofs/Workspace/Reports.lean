import SprintLedger.Proofs.Report.Records
import SprintLedger.Proofs.Report.Table
import SprintLedger.Proofs.Sprint.Documents
import SprintLedger.Proofs.Workspace.Runs

set_option autoImplicit false

namespace SprintLedger

namespace Workspace

variable {w : Workspace} {t : FileTree} {l : Ledger} {entries : List DirectoryEntry}

theorem report_listed (listed : t.list? w.directory = some entries)
    (loaded : (w.load (m := StateM FileTree) t).1 = .ok l) (json colors : Bool) :
    w.report (m := StateM FileTree) json colors t =
      (.ok (w.reportText (Report.rows l (documentedSprints entries)) json colors), t) := by
  have load : w.load (m := StateM FileTree) t = (.ok l, t) := Prod.ext loaded rfl
  simp only [report, tree_bind, load, sprints_listed listed]
  rfl

theorem json_listed (listed : t.list? w.directory = some entries)
    (loaded : (w.load (m := StateM FileTree) t).1 = .ok l) (colors : Bool) :
    w.report (m := StateM FileTree) true colors t = (.ok (Report.json (Report.rows l (documentedSprints entries))), t) := by
  rw [report_listed listed loaded, reportText, if_pos rfl]

theorem table_listed (listed : t.list? w.directory = some entries)
    (loaded : (w.load (m := StateM FileTree) t).1 = .ok l) (documented : documentedSprints entries ≠ []) (colors : Bool) :
    w.report (m := StateM FileTree) false colors t =
      (.ok (Report.table (Report.rows l (documentedSprints entries)) colors), t) := by
  have filled : (Report.rows l (documentedSprints entries)).isEmpty = false := by
    simp [Report.rows, documented]
  rw [report_listed listed loaded, reportText, if_neg Bool.false_ne_true, filled, if_neg Bool.false_ne_true]

theorem json_report_joins (listed : t.list? w.directory = some entries)
    (loaded : (w.load (m := StateM FileTree) t).1 = .ok l) (colors : Bool) :
    (documentedSprints entries).Pairwise (·.value < ·.value) ∧
    (∀ n, n ∈ documentedSprints entries ↔ ∃ e ∈ entries, e.Documents n) ∧
    ∃ text, w.report (m := StateM FileTree) true colors t = (.ok text, t) ∧
      Json.ofText text = .ok (.array ((documentedSprints entries).map l.record)) ∧
      (∀ n : SprintNumber, SprintNumber.ofText? n.key = some n) ∧
      ∀ (t' : FileTree) (l' : Ledger) (colors' : Bool), t'.list? w.directory = some entries →
        (w.load (m := StateM FileTree) t').1 = .ok l' →
        (∀ n ∈ documentedSprints entries, l'.find? n = l.find? n) →
        (w.report (m := StateM FileTree) true colors' t').1 = .ok text := by
  refine ⟨documented_ascending entries, fun n => mem_documented, _, json_listed listed loaded colors, ?_, ?_, ?_⟩
  · exact Report.json_read l _
  · exact SprintNumber.key_read
  · intro t' l' colors' listed' loaded' same
    rw [json_listed listed' loaded', Report.rows_same same]

-- A document with two names, one beyond three digits, a directory by such a name, and the ledger beside them.
def severalNames : FileTree :=
  ⟨[([FileTree.nameOf "SPRINT-1000.md".toList], .file .empty), ([FileTree.nameOf "SPRINT-7.md".toList], .file .empty),
    ([FileTree.nameOf "SPRINT-002.md".toList], .directory), ([FileTree.nameOf "SPRINT-007.md".toList], .file .empty),
    ([FileTree.nameOf "ledger.json".toList], .file Ledger.handEdited.fileText.toUTF8)], []⟩

theorem several_names_loaded : (atRoot.load (m := StateM FileTree) severalNames).1 = .ok Ledger.handEdited := by
  have holds : atRoot.Holds severalNames Ledger.handEdited :=
    .text _ _ _ rfl (Ledger.file_text_read_back Ledger.hand_edited_representable Ledger.hand_edited_reads_back)
  rw [holds_load holds]

def severalEntries : List DirectoryEntry :=
  [⟨"SPRINT-1000.md".toUTF8, false⟩, ⟨"SPRINT-7.md".toUTF8, false⟩, ⟨"SPRINT-002.md".toUTF8, true⟩,
    ⟨"SPRINT-007.md".toUTF8, false⟩, ⟨"ledger.json".toUTF8, false⟩]

theorem several_names_found : severalNames.list? atRoot.directory = some severalEntries := rfl

theorem several_names_documented : documentedSprints severalEntries = [⟨7, by decide⟩, ⟨1000, by decide⟩] := by
  decide +kernel

theorem several_names_joined : ∃ text, (atRoot.report (m := StateM FileTree) true false severalNames).1 = .ok text ∧
    Json.ofText text =
      .ok (.array [Ledger.handEdited.record ⟨7, by decide⟩, Ledger.empty.record ⟨1000, by decide⟩]) := by
  obtain ⟨_, _, text, report, read, _⟩ := json_report_joins several_names_found several_names_loaded false
  refine ⟨text, by rw [report], ?_⟩
  rw [read, several_names_documented]
  rfl

theorem table_report_lines (listed : t.list? w.directory = some entries)
    (loaded : (w.load (m := StateM FileTree) t).1 = .ok l) (documented : documentedSprints entries ≠ []) :
    (documentedSprints entries).Pairwise (·.value < ·.value) ∧
    ∃ text, w.report (m := StateM FileTree) false false t = (.ok text, t) ∧
      Report.linesOf text = Report.headLine :: Report.rule ::
        (documentedSprints entries).flatMap (fun n => ((Row.ofLedger l n).line false).splitOn '\n') ∧
      (∀ n, ∃ first more, ((Row.ofLedger l n).line false).splitOn '\n' = first :: more ∧ Report.Heads n first) ∧
      (Report.ListsOnce (documentedSprints entries) text ↔
        ∀ n ∈ documentedSprints entries, '\n' ∉ (Row.ofLedger l n).line false) ∧
      ((∀ n ∈ documentedSprints entries, ∀ shown ∈ (Row.ofLedger l n).texts, '\n' ∉ shown.toList) →
        Report.ListsOnce (documentedSprints entries) text) := by
  have numbers : (Report.rows l (documentedSprints entries)).map Row.number = documentedSprints entries := by
    rw [Report.rows, List.map_map]
    exact List.map_id _
  have lists := Report.table_lists_iff (Report.rows l (documentedSprints entries))
  rw [numbers, Report.rows, List.forall_mem_map] at lists
  refine ⟨documented_ascending entries, _, table_listed listed loaded documented false, ?_,
    fun n => (Row.ofLedger l n).line_first, lists, ?_⟩
  · rw [Report.table_lines, Report.rows]
    simp only [List.flatMap_map]
  · intro unbroken
    exact lists.2 fun n member => Row.line_unbroken (unbroken n member)

theorem several_names_listed : ∃ text, (atRoot.report (m := StateM FileTree) false false severalNames).1 = .ok text ∧
    Report.ListsOnce [⟨7, by decide⟩, ⟨1000, by decide⟩] text := by
  have present : documentedSprints severalEntries ≠ [] := by simp [several_names_documented]
  obtain ⟨_, text, report, _, _, _, once⟩ := table_report_lines several_names_found several_names_loaded present
  rw [several_names_documented] at once
  refine ⟨text, by rw [report], once ?_⟩
  decide +kernel

-- A status over two lines, which a text of the ledger may well be.
def brokenStatus : Ledger := Ledger.empty.put ⟨1, by decide⟩ ⟨some (.other "on\nhold"), none, none, .empty⟩

def brokenTree : FileTree :=
  ⟨[([FileTree.nameOf "SPRINT-001.md".toList], .file .empty),
    ([FileTree.nameOf "ledger.json".toList], .file brokenStatus.fileText.toUTF8)], []⟩

theorem broken_status_representable : brokenStatus.Representable := by
  refine Ledger.put_representable Ledger.empty_representable _ ⟨⟨fun _ _ => rfl, ?_, nofun⟩, nofun⟩
  rintro s ⟨⟩
  exact ⟨by decide, by decide, by decide⟩

theorem broken_status_loaded : (atRoot.load (m := StateM FileTree) brokenTree).1 = .ok brokenStatus := by
  have holds : atRoot.Holds brokenTree brokenStatus :=
    .text _ _ _ rfl (Ledger.file_text_read_back broken_status_representable (by decide))
  rw [holds_load holds]

theorem broken_status_breaks_line : ¬∀ (w : Workspace) (t : FileTree) (l : Ledger) (entries : List DirectoryEntry)
    (text : String), t.list? w.directory = some entries → (w.load (m := StateM FileTree) t).1 = .ok l →
    documentedSprints entries ≠ [] → (w.report (m := StateM FileTree) false false t).1 = .ok text →
    Report.ListsOnce (documentedSprints entries) text := by
  intro lists
  have report := table_listed (t := brokenTree) rfl broken_status_loaded (by decide +kernel) false
  have once := lists atRoot brokenTree brokenStatus _ _ rfl broken_status_loaded (by decide +kernel) (by rw [report])
  have unbroken := (Report.table_lists_iff (Report.rows brokenStatus _)).1 once
  exact unbroken _ List.mem_cons_self (by decide +kernel)

end Workspace

end SprintLedger
