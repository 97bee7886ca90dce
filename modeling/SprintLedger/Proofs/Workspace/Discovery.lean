import Mathlib.Data.List.Destutter
import SprintLedger.Proofs.FileTree.Entries
import SprintLedger.Proofs.Sprint.KeyOrder
import SprintLedger.Proofs.Workspace.Runs

set_option autoImplicit false

namespace SprintLedger

theorem documented_unique {entries : List DirectoryEntry} {ns : List SprintNumber}
    (ascending : ns.Pairwise (·.value < ·.value)) (same : ∀ n, n ∈ ns ↔ ∃ e ∈ entries, e.Documents n) :
    ns = documentedSprints entries :=
  ascending_unique ascending (documented_ascending entries) fun n => (same n).trans mem_documented.symm

-- Dropping what is next to its like leaves each number once, because the numbers have been sorted.
theorem documented_sorted {entries : List DirectoryEntry} {ns : List SprintNumber}
    (found : ns.Perm (entries.filterMap DirectoryEntry.sprint?)) (sorted : ns.Pairwise (·.value ≤ ·.value)) :
    ns.destutter (· ≠ ·) = documentedSprints entries := by
  have antisymmetric : Std.Antisymm fun n m : SprintNumber => n.value ≤ m.value :=
    ⟨fun _ _ less greater => SprintNumber.value_injective (Nat.le_antisymm less greater)⟩
  rw [sorted.destutter_eq_dedup]
  apply documented_unique
  · have weakly := sorted.sublist ns.dedup_sublist
    refine (weakly.and ns.nodup_dedup).imp ?_
    rintro n m ⟨below, apart⟩
    exact Nat.lt_of_le_of_ne below fun same => apart (SprintNumber.value_injective same)
  · intro n
    rw [List.mem_dedup, found.mem_iff, List.mem_filterMap]
    simp only [sprint_iff]

theorem documented_same {entries entries' : List DirectoryEntry}
    (same : ∀ n, (∃ e ∈ entries, e.Documents n) ↔ ∃ e ∈ entries', e.Documents n) :
    documentedSprints entries = documentedSprints entries' :=
  documented_unique (documented_ascending entries) fun n => mem_documented.trans (same n)

def DirectoryEntry.Skipped (e : DirectoryEntry) : Prop :=
  e.isDirectory = true ∨ ∀ name : String, e.name = name.toUTF8 → SprintNumber.ofDocumentName? name = none

theorem documents_iff {e : DirectoryEntry} {n : SprintNumber} : e.Documents n ↔ e.isDirectory = false ∧
    ∃ name : String, e.name = name.toUTF8 ∧ SprintNumber.ofDocumentName? name = some n := by
  unfold DirectoryEntry.Documents
  simp only [SprintNumber.of_document_name_iff]

theorem skipped_iff {e : DirectoryEntry} : e.Skipped ↔ e.sprint? = none := by
  unfold DirectoryEntry.Skipped DirectoryEntry.sprint?
  cases e.isDirectory with
  | true => exact iff_of_true (.inl rfl) rfl
  | false => simp [Option.bind_eq_none_iff, from_utf8_iff]

theorem skipped_documents {e : DirectoryEntry} (skipped : e.Skipped) (n : SprintNumber) : ¬e.Documents n := by
  rw [← sprint_iff, skipped_iff.1 skipped]
  nofun

theorem documented_without_skipped {entries skipped listing : List DirectoryEntry} (all : ∀ e ∈ skipped, e.Skipped)
    (mixed : listing.Perm (entries ++ skipped)) : documentedSprints listing = documentedSprints entries := by
  refine documented_same fun n => ⟨?_, ?_⟩
  · rintro ⟨e, member, documents⟩
    rcases List.mem_append.1 (mixed.mem_iff.1 member) with kept | dropped
    · exact ⟨e, kept, documents⟩
    · exact absurd documents (skipped_documents (all e dropped) n)
  · rintro ⟨e, member, documents⟩
    exact ⟨e, mixed.mem_iff.2 (List.mem_append_left _ member), documents⟩

namespace FileTree

theorem is_directory_iff {t : FileTree} {p : Path} :
    t.isDirectory p = true ↔ ∃ location, t.place p = .directory location := by
  rw [isDirectory]
  cases t.place p with
  | directory location => exact iff_of_true rfl ⟨location, rfl⟩
  | file location content => exact iff_of_false Bool.false_ne_true nofun
  | vacant location => exact iff_of_false Bool.false_ne_true nofun
  | nowhere => exact iff_of_false Bool.false_ne_true nofun

theorem is_directory_in_text (t : FileTree) (dir : Path) (name : String) :
    t.isDirectoryIn dir name.toUTF8 = t.isDirectory (dir.join name) := by
  rw [isDirectoryIn, from_utf8_text]

-- The documents of a directory are told by looking where the path of each entry leads.
theorem listed_documents {t : FileTree} {dir : Path} {parent : Location} (leads : t.place dir = .directory parent) :
    ∃ entries, t.list? dir = some entries ∧ ∀ n, (∃ e ∈ entries, e.Documents n) ↔
      ∃ name : String, t.HasEntry parent name ∧ SprintNumber.ofDocumentName? name = some n ∧
        ∀ location, t.place (dir.join name) ≠ .directory location := by
  obtain ⟨entries, listed, holds⟩ := list_place leads
  refine ⟨entries, listed, fun n => ?_⟩
  simp only [holds, documents_iff, has_entry_iff]
  constructor
  · rintro ⟨_, ⟨_, node, member, rfl⟩, noDirectory, name, rfl, named⟩
    refine ⟨name, ⟨node, member⟩, named, fun location leads => ?_⟩
    rw [is_directory_in_text, is_directory_iff.2 ⟨location, leads⟩] at noDirectory
    cases noDirectory
  · rintro ⟨name, ⟨node, member⟩, named, elsewhere⟩
    refine ⟨_, ⟨name.toUTF8, node, member, rfl⟩, ?_, name, rfl, named⟩
    rw [is_directory_in_text, ← Bool.not_eq_true, is_directory_iff]
    rintro ⟨location, leads⟩
    exact elsewhere location leads

end FileTree

namespace Workspace

theorem finds_documents :
    (∀ (w : Workspace) (t : FileTree) (entries : List DirectoryEntry), t.list? w.directory = some entries →
      w.sprints (m := StateM FileTree) t = (.ok (documentedSprints entries), t)) ∧
    (∀ entries : List DirectoryEntry, (documentedSprints entries).Pairwise (·.value < ·.value) ∧
      ∀ n, n ∈ documentedSprints entries ↔ ∃ e ∈ entries, e.isDirectory = false ∧
        ∃ name : String, e.name = name.toUTF8 ∧ SprintNumber.ofDocumentName? name = some n) ∧
    (∀ entries listing : List DirectoryEntry, listing.Perm entries →
      documentedSprints listing = documentedSprints entries) ∧
    (∀ entries skipped listing : List DirectoryEntry, (∀ e ∈ skipped, e.Skipped) →
      listing.Perm (entries ++ skipped) → documentedSprints listing = documentedSprints entries) ∧
    (∀ (entries : List DirectoryEntry) (ns : List SprintNumber), ns.Perm (entries.filterMap DirectoryEntry.sprint?) →
      ns.Pairwise (·.value ≤ ·.value) → ns.destutter (· ≠ ·) = documentedSprints entries) ∧
    ∀ (w : Workspace) (t : FileTree) (parent : Location), t.place w.directory = .directory parent →
      ∃ ns, w.sprints (m := StateM FileTree) t = (.ok ns, t) ∧ ns.Pairwise (·.value < ·.value) ∧
        ∀ n, n ∈ ns ↔ ∃ name : String, t.HasEntry parent name ∧ SprintNumber.ofDocumentName? name = some n ∧
          ∀ location, t.place (w.directory.join name) ≠ .directory location := by
  refine ⟨fun w t entries => sprints_listed, fun entries => ⟨documented_ascending entries, fun n => ?_⟩, ?_,
    fun entries skipped listing => documented_without_skipped, fun entries ns => documented_sorted, ?_⟩
  · rw [mem_documented]
    simp only [documents_iff]
  · intro entries listing mixed
    refine documented_same fun n => ?_
    simp only [mixed.mem_iff]
  · intro w t parent leads
    obtain ⟨entries, listed, documents⟩ := FileTree.listed_documents leads
    exact ⟨_, sprints_listed listed, documented_ascending entries, fun n => mem_documented.trans (documents n)⟩

-- Links by the names of documents, to a directory, to a file and to nothing, and a name that is no text.
def linkedNames : FileTree :=
  ⟨[([FileTree.nameOf "old".toList], .directory), ([FileTree.nameOf "SPRINT-3.md".toList], .link "old"),
    ([⟨#[0xff]⟩], .file .empty), ([FileTree.nameOf "notes".toList], .file .empty),
    ([FileTree.nameOf "SPRINT-05.md".toList], .link "nowhere"), ([FileTree.nameOf "SPRINT-2.md".toList], .link "notes"),
    ([FileTree.nameOf "SPRINT-002.md".toList], .file .empty)], []⟩

def otherEntries : List DirectoryEntry :=
  [⟨"old".toUTF8, true⟩, ⟨"SPRINT-3.md".toUTF8, true⟩, ⟨⟨#[0xff]⟩, false⟩, ⟨"notes".toUTF8, false⟩]

def documentEntries : List DirectoryEntry :=
  [⟨"SPRINT-05.md".toUTF8, false⟩, ⟨"SPRINT-2.md".toUTF8, false⟩, ⟨"SPRINT-002.md".toUTF8, false⟩]

theorem linked_names_found :
    (atRoot.sprints (m := StateM FileTree) linkedNames).1 = .ok [⟨2, by decide⟩, ⟨5, by decide⟩] := by
  obtain ⟨run, _, reordered, skips, _⟩ := finds_documents
  have others : ∀ e ∈ otherEntries, e.Skipped := by
    simp only [skipped_iff]
    decide +kernel
  have found : documentedSprints documentEntries.reverse = [⟨2, by decide⟩, ⟨5, by decide⟩] := by decide +kernel
  rw [run atRoot linkedNames (otherEntries ++ documentEntries) rfl,
    skips documentEntries otherEntries _ others List.perm_append_comm,
    reordered documentEntries.reverse documentEntries (List.reverse_perm _).symm, found]

end Workspace

end SprintLedger
