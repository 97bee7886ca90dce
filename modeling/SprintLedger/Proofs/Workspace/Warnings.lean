import SprintLedger.Proofs.FileTree.Entries
import SprintLedger.Proofs.Sprint.Documents
import SprintLedger.Proofs.Workspace.Runs

set_option autoImplicit false

namespace SprintLedger

variable {n : SprintNumber} {name : String}

theorem document_ordinary (names : NamesDocument n name) : Path.Ordinary name.toList := by
  obtain ⟨digits, _, numeric, _, rfl⟩ := names
  have slash : '/' ∉ digits := fun member => by simpa using numeric '/' member
  have nul : '\x00' ∉ digits := fun member => by simpa using numeric '\x00' member
  constructor <;> simp [slash, nul]

theorem document_name_short (n : SprintNumber) :
    (FileTree.nameOf n.documentName.toList).size ≤ FileTree.maxNameSize := by
  have short := n.digits_length
  have bound := text_size_le n.documentName.toList
  have length : n.documentName.toList.length = n.digits.length + 10 := by
    simp [SprintNumber.documentName, SprintNumber.key_list]
  rw [length] at bound
  rw [FileTree.nameOf, String.toUTF8_eq_toByteArray, String.size_toByteArray, FileTree.maxNameSize]
  omega

namespace Workspace

variable {w : Workspace} {t : FileTree} {location : Location}

theorem document_directory (leads : t.place w.directory = .directory location) (files : t.HoldsFiles location)
    (names : NamesDocument n name) : t.isDirectoryIn w.directory name.toUTF8 = false := by
  have ordinary := document_ordinary names
  rw [FileTree.isDirectoryIn, from_utf8_text]
  simp only [FileTree.isDirectory, FileTree.place_entry leads ordinary (FileTree.holds_files_free files _)]
  split
  · rename_i found
    split at found
    · cases found
    · exact absurd found (t.entry_place_no_directory _ _ _)
  · rfl

-- Of a directory of files, discovery gives the sprints of which any name stands in it.
theorem sprints_found (leads : t.place w.directory = .directory location) (files : t.HoldsFiles location) :
    ∃ numbers, w.sprints (m := StateM FileTree) t = (.ok numbers, t) ∧
      ∀ n, n ∈ numbers ↔ ∃ name, NamesDocument n name ∧ t.HasEntry location name := by
  obtain ⟨entries, listed, holds⟩ := FileTree.list_place leads
  refine ⟨documentedSprints entries, sprints_listed listed, fun n => ?_⟩
  rw [mem_documented]
  constructor
  · rintro ⟨e, member, _, name, named, names⟩
    obtain ⟨bytes, node, there, rfl⟩ := (holds e).1 member
    obtain rfl : bytes = name.toUTF8 := named
    exact ⟨name, names, FileTree.has_entry_iff.2 ⟨node, there⟩⟩
  · rintro ⟨name, names, there⟩
    obtain ⟨node, member⟩ := FileTree.has_entry_iff.1 there
    exact ⟨_, (holds _).2 ⟨_, node, member, rfl⟩, document_directory leads files names, name, rfl, names⟩

-- The name that is looked for can be too long behind the directory's path, even though it stands there.
theorem document_missing_iff (leads : t.place w.directory = .directory location) (files : t.HoldsFiles location)
    (n : SprintNumber) : (t.look (w.documentPath n)).isMissing = true ↔
      ¬(t.HasEntry location n.documentName ∧ (w.documentPath n).utf8ByteSize < FileTree.pathSizeLimit) := by
  have free := FileTree.holds_files_free files n.documentName.toUTF8
  have bytes : FileTree.nameOf n.documentName.toList = n.documentName.toUTF8 := by
    rw [FileTree.nameOf, String.ofList_toList]
  have short := Nat.not_lt.2 (document_name_short n)
  have there := FileTree.place_entry leads (document_ordinary n.document_name_names) free
  rw [← documentPath] at there
  rw [FileTree.look, there]
  by_cases long : FileTree.pathSizeLimit ≤ (w.documentPath n).utf8ByteSize
  · rw [if_pos long]
    simp [Content.isMissing, long]
  · rw [if_neg long, FileTree.entryPlace, if_neg short, bytes]
    rcases free with absent | ⟨content, found⟩
    · simp only [absent, FileTree.HasEntry, Content.isMissing]
      simp
    · have read : (Content.ofBytes content).isMissing = false := by
        rw [Content.ofBytes]
        split <;> rfl
      simp only [found, FileTree.HasEntry, read]
      simp [Nat.not_le.1 long]

def Warns (w : Workspace) (t : FileTree) (op : Operation) : Prop :=
  .noDocument op.number ∈ (w.perform (m := StateM FileTree) op t).1.warnings

theorem warns_iff (w : Workspace) (t : FileTree) (op : Operation) :
    w.Warns t op ↔ (t.look (w.documentPath op.number)).isMissing = true := by
  rw [Warns, perform_updates]
  cases (t.look (w.documentPath op.number)).isMissing <;> simp

theorem warns_without_canonical_document (leads : t.place w.directory = .directory location)
    (files : t.HoldsFiles location) (op : Operation) :
    ∃ numbers, w.sprints (m := StateM FileTree) t = (.ok numbers, t) ∧
      (op.number ∈ numbers ↔ ∃ name, NamesDocument op.number name ∧ t.HasEntry location name) ∧
      (w.Warns t op ↔ ¬(t.HasEntry location op.number.documentName ∧
        (w.documentPath op.number).utf8ByteSize < FileTree.pathSizeLimit)) ∧
      (op.number ∉ numbers → w.Warns t op) ∧
      ((∀ name, NamesDocument op.number name → t.HasEntry location name → name = op.number.documentName) →
        (w.documentPath op.number).utf8ByteSize < FileTree.pathSizeLimit →
        (w.Warns t op ↔ op.number ∉ numbers)) := by
  obtain ⟨numbers, listed, found⟩ := sprints_found leads files
  have exact := (warns_iff w t op).trans (document_missing_iff leads files op.number)
  refine ⟨numbers, listed, found op.number, exact, ?_, ?_⟩
  · intro unlisted
    refine exact.2 fun there => unlisted ?_
    exact (found op.number).2 ⟨_, op.number.document_name_names, there.1⟩
  · intro canonical short
    rw [exact, found op.number]
    constructor
    · rintro unseen ⟨name, names, there⟩
      exact unseen ⟨canonical name names there ▸ there, short⟩
    · rintro unlisted ⟨there, _⟩
      exact unlisted ⟨_, op.number.document_name_names, there⟩

-- Two documents, of which one is spelled without zeros.
def twoSpellings : FileTree :=
  ⟨[([FileTree.nameOf "SPRINT-007.md".toList], .file .empty), ([FileTree.nameOf "SPRINT-12.md".toList], .file .empty)], []⟩

theorem two_spellings_files : twoSpellings.HoldsFiles [] := by
  refine List.forall_mem_cons.2 ⟨?_, List.forall_mem_cons.2 ⟨?_, nofun⟩⟩
  · rintro _ ⟨⟩
    exact ⟨"SPRINT-007.md", .empty, rfl, rfl⟩
  · rintro _ ⟨⟩
    exact ⟨"SPRINT-12.md", .empty, rfl, rfl⟩

theorem padded_document_found : twoSpellings.place atRoot.directory = .directory [] ∧ twoSpellings.HoldsFiles [] ∧
    ¬atRoot.Warns twoSpellings (.start ⟨7, by decide⟩ ⟨0, 0⟩) ∧
    atRoot.Warns twoSpellings (.complete ⟨8, by decide⟩ ⟨0, 0⟩) := by
  obtain ⟨_, _, _, seven, _⟩ :=
    warns_without_canonical_document (w := atRoot) (t := twoSpellings) rfl two_spellings_files (.start ⟨7, by decide⟩ ⟨0, 0⟩)
  obtain ⟨_, _, _, eight, _⟩ :=
    warns_without_canonical_document (w := atRoot) (t := twoSpellings) rfl two_spellings_files (.complete ⟨8, by decide⟩ ⟨0, 0⟩)
  refine ⟨rfl, two_spellings_files, ?_, ?_⟩
  · rw [seven, not_not]
    exact ⟨⟨.file .empty, rfl⟩, by decide⟩
  · rw [eight]
    rintro ⟨⟨node, found⟩, _⟩
    cases found

theorem found_document_warned_about : ¬∀ (w : Workspace) (t : FileTree) (location : Location) (op : Operation)
    (numbers : List SprintNumber), t.place w.directory = .directory location → t.HoldsFiles location →
    (w.sprints (m := StateM FileTree) t).1 = .ok numbers → (w.Warns t op ↔ op.number ∉ numbers) := by
  intro agrees
  have warned : atRoot.Warns twoSpellings (.start ⟨12, by decide⟩ ⟨0, 0⟩) := (warns_iff _ _ _).2 rfl
  have listed := agrees atRoot twoSpellings [] (.start ⟨12, by decide⟩ ⟨0, 0⟩) [⟨7, by decide⟩, ⟨12, by decide⟩]
    rfl two_spellings_files rfl
  exact listed.1 warned (by decide)

end Workspace

end SprintLedger
