import SprintLedger.Proofs.Ledger.Truncation
import SprintLedger.Proofs.Text.Bytes
import SprintLedger.Proofs.Workspace.Preservation
import SprintLedger.Proofs.Workspace.Refusals

set_option autoImplicit false

namespace SprintLedger.Workspace

variable {w : Workspace} {t : FileTree}

theorem saved_read {l : Ledger} {t' : FileTree} (saved : w.save (m := StateM FileTree) l t = (.ok (), t')) :
    t'.read? w.ledgerPath = some l.fileText.toUTF8 := by
  cases written : t.write? w.ledgerPath l.fileText.toUTF8 with
  | none =>
    simp only [save, Storage.save, tree_bind, written] at saved
    cases saved
  | some t'' =>
    simp only [save, Storage.save, tree_bind, written] at saved
    cases saved
    obtain ⟨location, rewritten⟩ := FileTree.write_rewrites written
    rw [FileTree.read?, rewritten.leads]

structure Rejects (w : Workspace) (t : FileTree) (failure : Failure) : Prop where
  load : w.load (m := StateM FileTree) t = (.error failure, t)
  report : ∀ json colors, w.report (m := StateM FileTree) json colors t = (.error failure, t)
  perform : ∀ op, (w.perform (m := StateM FileTree) op t).1.result = .error failure ∧
    (w.perform (m := StateM FileTree) op t).2 = t

theorem content_rejects {failure : Failure}
    (refused : Ledger.ofContent w.ledgerPath (t.look w.ledgerPath) = .error failure) : w.Rejects t failure := by
  have loaded : w.load (m := StateM FileTree) t = (.error failure, t) := by
    show (Ledger.ofContent w.ledgerPath (t.look w.ledgerPath), t) = _
    rw [refused]
  refine ⟨loaded, ?_, ?_⟩
  · intro json colors
    simp only [report, tree_bind, loaded]
    rfl
  · intro op
    have updated : w.update (m := StateM FileTree) op t = (.error failure, t) := by
      simp only [update, tree_bind, loaded]
      rfl
    rw [perform_updates, updated]
    exact ⟨rfl, rfl⟩

-- All that is missing may be the closing brace, or everything. Without the line break behind the brace
-- the file is still read.
theorem truncated_file_rejected :
    (∀ (text : String) (l : Ledger) (ops : List Operation), Ledger.ofText text = .ok l → (l.run ops).Representable) ∧
    ∀ l : Ledger, l.Representable →
      (∀ (w : Workspace) (t t' : FileTree), w.save (m := StateM FileTree) l t = (.ok (), t') →
        t'.read? w.ledgerPath = some (l.openText ++ "\x7d\n").toUTF8) ∧
      (l.DoublesReadBack → ∀ (w : Workspace) (t : FileTree) (location : Location),
        t.place w.ledgerPath = .file location (l.openText ++ "\x7d").toUTF8 →
          w.load (m := StateM FileTree) t = (.ok l, t)) ∧
      ∀ (w : Workspace) (t : FileTree) (location : Location) (bytes : ByteArray),
        t.place w.ledgerPath = .file location bytes → bytes.data.toList <+: l.openText.toUTF8.data.toList →
          (bytes.IsValidUTF8 → w.Rejects t (.malformedLedger w.ledgerPath .truncated)) ∧
          (¬bytes.IsValidUTF8 → w.Rejects t (.unreadableLedger w.ledgerPath)) := by
  refine ⟨?_, ?_⟩
  · intro text l ops accepted
    exact Ledger.run_representable (Ledger.loaded_representable accepted) ops
  intro l representable
  refine ⟨?_, ?_, ?_⟩
  · intro w t t' saved
    rw [← Ledger.file_text_open, saved_read saved]
  · intro back w t location there
    have read := Ledger.closed_text_read representable
    rw [Ledger.reread_settled back] at read
    exact holds_load (.text location _ l there read)
  intro w t location bytes there cut
  have looked : t.look w.ledgerPath = .ofBytes bytes := by rw [FileTree.look, there]
  constructor
  · intro valid
    obtain ⟨text, rfl⟩ : ∃ text : String, bytes = text.toUTF8 := ⟨⟨bytes, valid⟩, rfl⟩
    have short := Ledger.cut_text_truncated representable (text_begins cut)
    apply content_rejects
    rw [looked, Content.ofBytes, from_utf8_text, Ledger.ofContent, short]
    rfl
  · intro invalid
    have unread : String.fromUTF8? bytes = none := dif_neg invalid
    apply content_rejects
    rw [looked, Content.ofBytes, unread, Ledger.ofContent]

def accented : Ledger := ⟨.empty, SortedMap.empty.insert "é" .null⟩

def accentedBytes (count : Nat) : ByteArray := ⟨(accented.fileText.toUTF8.data.toList.take count).toArray⟩

def accentedTree (count : Nat) : FileTree :=
  ⟨[([FileTree.nameOf "ledger.json".toList], .file (accentedBytes count))], []⟩

theorem accented_representable : accented.Representable where
  entries := by simp [accented, SortedMap.empty]
  unknown := by decide
  ordered := SortedMap.forall_insert trivial (by simp [SortedMap.empty])
  nesting := by decide

-- The cuts are behind the object of the entries, within the key, and behind the closing brace.
theorem accented_cuts_rejected :
    (accented.run [.complete ⟨7, by decide⟩ ⟨0, 0⟩]).Representable ∧
    (∃ t, fresh.save (m := StateM FileTree) accented ⟨[], []⟩ = (.ok (), t) ∧
      t.read? fresh.ledgerPath = some (accentedBytes 34)) ∧
    fresh.Rejects (accentedTree 17) (.malformedLedger fresh.ledgerPath .truncated) ∧
    fresh.Rejects (accentedTree 23) (.unreadableLedger fresh.ledgerPath) ∧
    fresh.load (m := StateM FileTree) (accentedTree 33) = (.ok accented, accentedTree 33) := by
  obtain ⟨reached, rejected⟩ := truncated_file_rejected
  obtain ⟨saves, loads, cuts⟩ := rejected accented accented_representable
  have closed : accentedBytes 33 = (accented.openText ++ "\x7d").toUTF8 := by decide +kernel
  have whole : accentedBytes 34 = (accented.openText ++ "\x7d\n").toUTF8 := by decide +kernel
  refine ⟨?_, ?_, ?_, ?_, ?_⟩
  · exact reached _ accented _ (Ledger.file_text_read_back accented_representable (by decide))
  · obtain ⟨t, saved, _⟩ := holds_save fresh_holds accented_representable
    exact ⟨t, saved, whole ▸ saves _ _ _ saved⟩
  · have valid : (accentedBytes 17).IsValidUTF8 := by decide +kernel
    exact (cuts fresh (accentedTree 17) _ _ rfl (by decide +kernel)).1 valid
  · have invalid : ¬(accentedBytes 23).IsValidUTF8 := by decide +kernel
    exact (cuts fresh (accentedTree 23) _ _ rfl (by decide +kernel)).2 invalid
  · have there : (accentedTree 33).place fresh.ledgerPath =
        .file [FileTree.nameOf "ledger.json".toList] (accentedBytes 33) := rfl
    rw [closed] at there
    exact loads (by decide) fresh (accentedTree 33) _ there

end SprintLedger.Workspace
