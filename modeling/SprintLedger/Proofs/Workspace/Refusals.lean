import SprintLedger.Proofs.FileTree.Writing
import SprintLedger.Workspace

set_option autoImplicit false

namespace SprintLedger

-- What a machine refuses although the files would allow it, say for want of a permission.
structure Refusals where
  read : FileTree → Path → Bool
  write : FileTree → Path → Bool
  list : FileTree → Path → Bool

namespace Refusals

def nothing : Refusals := ⟨fun _ _ => false, fun _ _ => false, fun _ _ => false⟩

def look (r : Refusals) (t : FileTree) (p : Path) : Content := if r.read t p then .unreadable else t.look p

def write? (r : Refusals) (t : FileTree) (p : Path) (content : ByteArray) : Option FileTree :=
  if r.write t p then none else t.write? p content

def list? (r : Refusals) (t : FileTree) (p : Path) : Option (List DirectoryEntry) :=
  if r.list t p then none else t.list? p

end Refusals

abbrev Machine := ReaderT Refusals (StateM FileTree)

instance : Storage Machine where
  look p r t := (r.look t p, t)
  save p text r t :=
    match r.write? t p text.toUTF8 with
    | some t' => (true, t')
    | none => (false, t)
  list? p r t := (r.list? t p, t)

theorem machine_bind {α β : Type} (x : Machine α) (f : α → Machine β) (r : Refusals) (t : FileTree) :
    (x >>= f) r t = f (x r t).1 r (x r t).2 := rfl

namespace FileTree

-- The path leads to a file with this content now, and everywhere else the tree is as it was.
structure Rewritten (t t' : FileTree) (p : Path) (location : Location) (content : ByteArray) : Prop where
  led : (t.place p).LeadsTo location
  leads : t'.place p = .file location content
  others : ∀ here, here ≠ location → t'.node? here = t.node? here
  current : t'.current = t.current

theorem write_rewrites {t t' : FileTree} {p : Path} {content : ByteArray} (written : t.write? p content = some t') :
    ∃ location, t.Rewritten t' p location content := by
  have put (location : Location) (led : (t.place p).LeadsTo location)
      (same : t.put location (.file content) = t') : t.Rewritten t' p location content := by
    subst same
    exact ⟨led, place_put led content, fun here other => node_put_elsewhere t other _, rfl⟩
  rw [write?] at written
  cases found : t.place p with
  | directory location => simp [found] at written
  | nowhere => simp [found] at written
  | vacant location =>
    simp only [found, Option.some.injEq] at written
    exact ⟨location, put location (by rw [found]; rfl) written⟩
  | file location old =>
    simp only [found, Option.some.injEq] at written
    exact ⟨location, put location (by rw [found]; rfl) written⟩

end FileTree

namespace Workspace

variable {w : Workspace} {r : Refusals} {t : FileTree}

theorem machine_load (w : Workspace) (r : Refusals) (t : FileTree) :
    w.load (m := Machine) r t = (Ledger.ofContent w.ledgerPath (r.look t w.ledgerPath), t) := rfl

theorem machine_save (w : Workspace) (l : Ledger) (r : Refusals) (t : FileTree) :
    w.save (m := Machine) l r t =
      match r.write? t w.ledgerPath l.fileText.toUTF8 with
      | some t' => (.ok (), t')
      | none => (.error (.unwritableLedger w.ledgerPath), t) := by
  simp only [save, machine_bind, Storage.save]
  cases r.write? t w.ledgerPath l.fileText.toUTF8 <;> rfl

theorem machine_sprints (w : Workspace) (r : Refusals) (t : FileTree) :
    w.sprints (m := Machine) r t =
      match r.list? t w.directory with
      | some entries => (.ok (documentedSprints entries), t)
      | none => (.error (.unlistableDirectory w.directory), t) := by
  simp only [sprints, machine_bind, Storage.list?]
  cases r.list? t w.directory <;> rfl

theorem machine_report (w : Workspace) (json colors : Bool) (r : Refusals) (t : FileTree) :
    (w.report (m := Machine) json colors r t).2 = t := by
  simp only [report, machine_bind, machine_load]
  cases Ledger.ofContent w.ledgerPath (r.look t w.ledgerPath) with
  | error failure => rfl
  | ok l =>
    simp only [machine_bind, machine_sprints]
    cases r.list? t w.directory <;> rfl

-- The ledger that is read, the one that is written in its place, and the files after that.
structure Carries (w : Workspace) (r : Refusals) (t : FileTree) (op : Operation) (l l' : Ledger)
    (t' : FileTree) : Prop where
  loaded : Ledger.ofContent w.ledgerPath (r.look t w.ledgerPath) = .ok l
  applied : op.apply l = .ok l'
  saved : r.write? t w.ledgerPath l'.fileText.toUTF8 = some t'

variable {op : Operation} {l l' : Ledger} {t' : FileTree}

theorem machine_update_carried (carries : w.Carries r t op l l' t') :
    w.update (m := Machine) op r t = (.ok op.report, t') := by
  simp only [update, machine_bind, machine_load, carries.loaded, carries.applied, machine_save, carries.saved]
  rfl

theorem machine_update_failed (stuck : ∀ l l' t', ¬w.Carries r t op l l' t') :
    ∃ failure, w.update (m := Machine) op r t = (.error failure, t) := by
  simp only [update, machine_bind, machine_load]
  cases loaded : Ledger.ofContent w.ledgerPath (r.look t w.ledgerPath) with
  | error failure => exact ⟨failure, rfl⟩
  | ok l =>
    dsimp only
    cases applied : op.apply l with
    | error failure => exact ⟨failure, rfl⟩
    | ok l' =>
      cases saved : r.write? t w.ledgerPath l'.fileText.toUTF8 with
      | some t' => exact absurd ⟨loaded, applied, saved⟩ (stuck l l' t')
      | none =>
        simp only [machine_bind, machine_save, saved]
        exact ⟨_, rfl⟩

theorem machine_perform (w : Workspace) (op : Operation) (r : Refusals) (t : FileTree) :
    w.perform (m := Machine) op r t =
      (⟨if (r.look t (w.documentPath op.number)).isMissing then [.noDocument op.number] else [],
        (w.update (m := Machine) op r t).1⟩, (w.update (m := Machine) op r t).2) := by
  simp only [perform, machine_bind, Storage.look]
  rfl

theorem carries_rewrites (carries : w.Carries r t op l l' t') :
    ∃ location, t.Rewritten t' w.ledgerPath location l'.fileText.toUTF8 := by
  obtain ⟨_, _, saved⟩ := carries
  rw [Refusals.write?] at saved
  by_cases refused : r.write t w.ledgerPath = true
  · simp [refused] at saved
  · rw [if_neg refused] at saved
    exact FileTree.write_rewrites saved

end Workspace

end SprintLedger
