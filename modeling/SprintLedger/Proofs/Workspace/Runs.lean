import SprintLedger.Proofs.FileTree.Writing
import SprintLedger.Proofs.Ledger.RoundTrip
import SprintLedger.Proofs.Ledger.Runs
import SprintLedger.Workspace

set_option autoImplicit false

namespace SprintLedger

-- What may be asked of a workspace: an operation, a report, or to write the ledger as it was read.
inductive Request where
  | perform (op : Operation)
  | report (json colors : Bool)
  | resave
deriving DecidableEq

namespace Ledger

def serve (l : Ledger) : Request → Ledger
  | .perform op => l.after op
  | .report _ _ => l
  | .resave => l

def saves (l : Ledger) : Request → Bool
  | .perform op => !l.refuses op
  | .report _ _ => false
  | .resave => true

def serveAll (l : Ledger) (rs : List Request) : Ledger := rs.foldl serve l

end Ledger

namespace Workspace

def serve (w : Workspace) (t : FileTree) : Request → FileTree
  | .perform op => (w.perform (m := StateM FileTree) op t).2
  | .report json colors => (w.report (m := StateM FileTree) json colors t).2
  | .resave => (w.resave (m := StateM FileTree) t).2

def serveAll (w : Workspace) (t : FileTree) (rs : List Request) : FileTree := rs.foldl w.serve t

-- The ledger file is absent from its directory, or a text that is read as the ledger.
inductive Holds (w : Workspace) (t : FileTree) : Ledger → Prop where
  | absent (location : Location) (leads : t.place w.ledgerPath = .vacant location) : Holds w t .empty
  | text (location : Location) (text : String) (l : Ledger)
      (leads : t.place w.ledgerPath = .file location text.toUTF8) (read : Ledger.ofText text = .ok l) : Holds w t l

variable {w : Workspace} {t : FileTree} {l : Ledger}

theorem holds_representable (holds : w.Holds t l) : l.Representable := by
  cases holds with
  | absent location leads => exact Ledger.empty_representable
  | text location text l leads read => exact Ledger.loaded_representable read

theorem holds_load (holds : w.Holds t l) : w.load (m := StateM FileTree) t = (.ok l, t) := by
  show (Ledger.ofContent w.ledgerPath (t.look w.ledgerPath), t) = _
  cases holds with
  | absent location leads => simp only [FileTree.look, leads, Ledger.ofContent]
  | text location text l leads read =>
    simp only [FileTree.look, leads, Content.ofBytes, from_utf8_text, Ledger.ofContent, read]
    rfl

theorem holds_leads (holds : w.Holds t l) : ∃ location, (t.place w.ledgerPath).LeadsTo location := by
  cases holds with
  | absent location leads => exact ⟨location, by rw [leads]; rfl⟩
  | text location text l leads read => exact ⟨location, by rw [leads]; rfl⟩

-- What a file that has just been saved is, to the byte.
def Saved (w : Workspace) (t : FileTree) (l : Ledger) : Prop :=
  t.read? w.ledgerPath = some l.fileText.toUTF8

theorem tree_bind {α β : Type} (x : StateM FileTree α) (f : α → StateM FileTree β) (t : FileTree) :
    (x >>= f) t = f (x t).1 (x t).2 := rfl

theorem tree_pure {α : Type} (a : α) (t : FileTree) : (pure a : StateM FileTree α) t = (a, t) := rfl

theorem holds_save (holds : w.Holds t l) {l' : Ledger} (representable : l'.Representable) :
    ∃ t', w.save (m := StateM FileTree) l' t = (.ok (), t') ∧ w.Holds t' l'.reread ∧ w.Saved t' l' := by
  obtain ⟨location, leads⟩ := holds_leads holds
  obtain ⟨t', written, there⟩ := FileTree.write_place leads l'.fileText.toUTF8
  refine ⟨t', ?_, .text location _ l'.reread there (Ledger.file_text_read representable), ?_⟩
  · simp only [save, Storage.save, tree_bind, written]
    rfl
  · simp only [Saved, FileTree.read?, there]

theorem perform_updates (w : Workspace) (op : Operation) (t : FileTree) :
    w.perform (m := StateM FileTree) op t =
      (⟨if (t.look (w.documentPath op.number)).isMissing then [.noDocument op.number] else [],
        (w.update (m := StateM FileTree) op t).1⟩, (w.update (m := StateM FileTree) op t).2) := by
  simp only [perform, tree_bind, tree_pure, Storage.look]

theorem update_accepted (holds : w.Holds t l) {op : Operation} {l' : Ledger} (applied : op.apply l = .ok l') :
    ∃ t', w.update (m := StateM FileTree) op t = (.ok op.report, t') ∧ w.Holds t' l'.reread ∧ w.Saved t' l' := by
  obtain ⟨t', saved, after⟩ := holds_save holds (Ledger.applied_representable (holds_representable holds) applied)
  refine ⟨t', ?_, after⟩
  simp only [update, tree_bind, holds_load holds, applied, saved]
  rfl

theorem update_refused (holds : w.Holds t l) {op : Operation} {failure : Failure}
    (refused : op.apply l = .error failure) : w.update (m := StateM FileTree) op t = (.error failure, t) := by
  simp only [update, tree_bind, holds_load holds, refused]
  rfl

theorem resave_holds (holds : w.Holds t l) :
    ∃ t', w.resave (m := StateM FileTree) t = (.ok (), t') ∧ w.Holds t' l.reread ∧ w.Saved t' l := by
  obtain ⟨t', saved, after⟩ := holds_save holds (holds_representable holds)
  refine ⟨t', ?_, after⟩
  simp only [resave, tree_bind, holds_load holds, saved]

theorem sprints_listed {entries : List DirectoryEntry} (listed : t.list? w.directory = some entries) :
    w.sprints (m := StateM FileTree) t = (.ok (documentedSprints entries), t) := by
  simp only [sprints, tree_bind, Storage.list?, listed]
  rfl

theorem sprints_keep : (w.sprints (m := StateM FileTree) t).2 = t := by
  simp only [sprints, tree_bind, Storage.list?]
  cases t.list? w.directory <;> rfl

theorem report_keeps (holds : w.Holds t l) (json colors : Bool) :
    (w.report (m := StateM FileTree) json colors t).2 = t := by
  have kept := sprints_keep (w := w) (t := t)
  simp only [report, tree_bind, holds_load holds]
  cases listed : w.sprints (m := StateM FileTree) t with
  | mk answer after =>
    obtain rfl : after = t := by rwa [listed] at kept
    cases answer <;> rfl

structure Follows (w : Workspace) (t : FileTree) (l : Ledger) (r : Request) : Prop where
  holds : w.Holds (w.serve t r) (l.serve r)
  answer : ∀ op, r = .perform op →
    (w.perform (m := StateM FileTree) op t).1.result = (op.apply l).map fun _ => op.report
  saved : l.saves r = true → w.Saved (w.serve t r) (l.serve r)
  kept : l.saves r = false → w.serve t r = t

theorem serve_follows (holds : w.Holds t l) (settled : l.reread = l) (r : Request) : w.Follows t l r := by
  cases r with
  | perform op =>
    have answer : (w.perform (m := StateM FileTree) op t).1.result = (w.update (m := StateM FileTree) op t).1 := by
      rw [perform_updates]
    have there : w.serve t (.perform op) = (w.update (m := StateM FileTree) op t).2 := by
      rw [serve, perform_updates]
    cases result : op.apply l with
    | ok changed =>
      obtain ⟨t', updated, after, saved⟩ := update_accepted holds result
      rw [Ledger.applied_reread settled result] at after
      have ledger : l.serve (.perform op) = changed := by simp only [Ledger.serve, Ledger.after, result]
      have accepted : l.saves (.perform op) = true := by simp [Ledger.saves, Ledger.refuses, result]
      rw [updated] at answer there
      constructor
      · rwa [there, ledger]
      · rintro _ ⟨⟩
        rw [answer, result]
        rfl
      · intro _
        rwa [there, ledger]
      · simp [accepted]
    | error failure =>
      have updated := update_refused holds result
      have ledger : l.serve (.perform op) = l := by simp only [Ledger.serve, Ledger.after, result]
      have refused : l.saves (.perform op) = false := by simp [Ledger.saves, Ledger.refuses, result]
      rw [updated] at answer there
      constructor
      · rwa [there, ledger]
      · rintro _ ⟨⟩
        rw [answer, result]
        rfl
      · simp [refused]
      · exact fun _ => there
  | report json colors =>
    have there : w.serve t (.report json colors) = t := report_keeps holds json colors
    constructor
    · rwa [there]
    · intro op other
      cases other
    · intro saves
      cases saves
    · exact fun _ => there
  | resave =>
    obtain ⟨t', resaved, after, saved⟩ := resave_holds holds
    rw [settled] at after
    have there : w.serve t .resave = t' := congrArg Prod.snd resaved
    constructor
    · rwa [there]
    · intro op other
      cases other
    · intro _
      rwa [there]
    · intro keeps
      cases keeps

theorem serve_settled (settled : l.reread = l) (r : Request) : (l.serve r).reread = l.serve r := by
  cases r with
  | perform op => exact Ledger.run_settled settled [op]
  | report json colors => exact settled
  | resave => exact settled

theorem holds_serve_all (holds : w.Holds t l) (settled : l.reread = l) (rs : List Request) :
    w.Holds (w.serveAll t rs) (l.serveAll rs) ∧ (l.serveAll rs).reread = l.serveAll rs := by
  induction rs generalizing t l with
  | nil => exact ⟨holds, settled⟩
  | cons r rs ih => exact ih (serve_follows holds settled r).holds (serve_settled settled r)

theorem serve_all_cons (w : Workspace) (t : FileTree) (r : Request) (rs : List Request) :
    w.serveAll t (r :: rs) = w.serveAll (w.serve t r) rs := rfl

theorem serve_all_append (w : Workspace) (t : FileTree) (rs : List Request) (r : Request) :
    w.serveAll t (rs ++ [r]) = w.serve (w.serveAll t rs) r :=
  List.foldl_concat _ _ _ _

theorem start_answers (l : Ledger) (n : SprintNumber) (now : Instant) :
    (∃ l', l.start n now = .ok l' ∧
      ((Operation.start n now).apply l).map (fun _ => (Operation.start n now).report) =
        .ok ("Sprint " ++ n.key ++ " marked in_progress.")) ∨
    (l.start n now = .error (.alreadyCompleted n) ∧
      ((Operation.start n now).apply l).map (fun _ => (Operation.start n now).report) =
        .error (.alreadyCompleted n)) := by
  simp only [Operation.apply, Ledger.start]
  split
  · exact .inr ⟨rfl, rfl⟩
  · exact .inl ⟨_, rfl, rfl⟩

theorem requests_refine_ledger (holds : w.Holds t l) (back : l.DoublesReadBack) (rs : List Request) :
    w.load (m := StateM FileTree) (w.serveAll t rs) = (.ok (l.serveAll rs), w.serveAll t rs) ∧
    (∀ n now,
      ((∃ l', (l.serveAll rs).start n now = .ok l' ∧
        (w.perform (m := StateM FileTree) (.start n now) (w.serveAll t rs)).1.result =
          .ok ("Sprint " ++ n.key ++ " marked in_progress.")) ∨
      ((l.serveAll rs).start n now = .error (.alreadyCompleted n) ∧
        (w.perform (m := StateM FileTree) (.start n now) (w.serveAll t rs)).1.result =
          .error (.alreadyCompleted n))) ∧
      (w.perform (m := StateM FileTree) (.complete n now) (w.serveAll t rs)).1.result =
        .ok ("Sprint " ++ n.key ++ " marked completed.")) ∧
    ∀ r : Request,
      (w.load (m := StateM FileTree) (w.serveAll t (rs ++ [r]))).1 = .ok ((l.serveAll rs).serve r) ∧
      ((l.serveAll rs).saves r = true → (w.serveAll t (rs ++ [r])).read? w.ledgerPath =
        some (String.ofList (((l.serveAll rs).serve r).toValue.pretty 0 ++ ['\n'])).toUTF8) ∧
      ((l.serveAll rs).saves r = false → w.serveAll t (rs ++ [r]) = w.serveAll t rs) := by
  obtain ⟨before, settled⟩ := holds_serve_all holds (Ledger.reread_settled back) rs
  refine ⟨holds_load before, ?_, ?_⟩
  · intro n now
    have started := (serve_follows before settled (.perform (.start n now))).answer _ rfl
    have completed := (serve_follows before settled (.perform (.complete n now))).answer _ rfl
    rw [started]
    exact ⟨start_answers _ n now, completed⟩
  · intro r
    have next := serve_follows before settled r
    rw [serve_all_append]
    refine ⟨?_, next.saved, next.kept⟩
    rw [holds_load next.holds]

def fresh : Workspace := ⟨"/sprints", "/ledger.json"⟩

def atRoot : Workspace := ⟨"/", "/ledger.json"⟩

theorem fresh_holds : fresh.Holds ⟨[], []⟩ .empty :=
  .absent [FileTree.nameOf "ledger.json".toList] rfl

theorem empty_reads_back : Ledger.empty.DoublesReadBack := by decide

theorem fresh_refuses_reopening :
    fresh.Holds ⟨[], []⟩ .empty ∧ Ledger.empty.DoublesReadBack ∧
    (fresh.serveAll ⟨[], []⟩ [.perform (.complete ⟨7, by decide⟩ ⟨0, 0⟩)]).read? fresh.ledgerPath =
      some (Ledger.empty.complete ⟨7, by decide⟩ ⟨0, 0⟩).fileText.toUTF8 ∧
    (fresh.perform (m := StateM FileTree) (.start ⟨7, by decide⟩ ⟨1, 0⟩)
      (fresh.serveAll ⟨[], []⟩ [.perform (.complete ⟨7, by decide⟩ ⟨0, 0⟩), .resave])).1.result =
        .error (.alreadyCompleted ⟨7, by decide⟩) := by
  obtain ⟨_, _, first⟩ := requests_refine_ledger fresh_holds empty_reads_back []
  obtain ⟨_, answers, _⟩ :=
    requests_refine_ledger fresh_holds empty_reads_back [.perform (.complete ⟨7, by decide⟩ ⟨0, 0⟩), .resave]
  obtain ⟨_, saved, _⟩ := first (.perform (.complete ⟨7, by decide⟩ ⟨0, 0⟩))
  refine ⟨fresh_holds, empty_reads_back, saved rfl, ?_⟩
  rcases (answers ⟨7, by decide⟩ ⟨1, 0⟩).1 with ⟨_, started, _⟩ | ⟨_, refused⟩
  · cases started
  · exact refused

end Workspace

end SprintLedger
