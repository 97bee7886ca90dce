import SprintLedger.Proofs.Ledger.Tidying
import SprintLedger.Proofs.Workspace.Runs

set_option autoImplicit false

namespace SprintLedger

open Json (Value)

namespace Json.Value

def at? (v : Value) : List String → Option Value
  | [] => some v
  | k :: ks =>
    match v with
    | .object ms => (ms.lookup k).bind fun inner => inner.at? ks
    | _ => none

def IsObject (v : Value) : Prop := ∃ ms, v = .object ms

theorem at_single (ms : List (String × Value)) (k : String) : (object ms).at? [k] = ms.lookup k := by
  cases found : ms.lookup k <;> simp [at?, found]

end Json.Value

-- Two documents that differ in nothing but the known members of the entries of some sprints. An entry
-- that only the second one has holds nothing else. Objects are maps, so their members say everything.
structure AgreesExcept (ns : List SprintNumber) (old new : Value) : Prop where
  ordered : old.Ordered ∧ new.Ordered
  objects : old.IsObject ∧ new.IsObject
  top : ∀ k, k ≠ "sprints" → new.at? [k] = old.at? [k]
  sprints : (∃ v, old.at? ["sprints"] = some v ∧ v.IsObject) ∧ ∃ v, new.at? ["sprints"] = some v ∧ v.IsObject
  others : ∀ k, (∀ n ∈ ns, k ≠ n.key) → new.at? ["sprints", k] = old.at? ["sprints", k]
  entries : ∀ n ∈ ns, (∀ v, old.at? ["sprints", n.key] = some v → v.IsObject) ∧
    ∃ v, new.at? ["sprints", n.key] = some v ∧ v.IsObject
  unknown : ∀ n ∈ ns, ∀ k, k ∉ Entry.knownKeys →
    new.at? ["sprints", n.key, k] = old.at? ["sprints", n.key, k]

namespace Ledger

theorem document_top (l : Ledger) {k : String} (other : k ≠ "sprints") :
    l.document.at? [k] = l.extra.get? k := by
  rw [document, Value.at_single]
  exact (l.extra.get_insert _ _ _).trans (if_neg other)

theorem document_sprints (l : Ledger) : l.document.at? ["sprints"] = some (.object (entriesView l.sprints).toList) := by
  rw [document, Value.at_single]
  exact (l.extra.get_insert _ _ _).trans (if_pos rfl)

theorem document_entry (l : Ledger) (k : String) (ks : List String) :
    l.document.at? ("sprints" :: k :: ks) =
      (l.sprints.get? k).bind fun e => (Value.object e.view.toList).at? ks := by
  have sprints : l.view.toList.lookup "sprints" = some (.object (entriesView l.sprints).toList) :=
    (l.extra.get_insert _ _ _).trans (if_pos rfl)
  have entry : (entriesView l.sprints).toList.lookup k = (l.sprints.get? k).map fun e => .object e.view.toList :=
    SortedMap.get_map _ _ _
  rw [document, Value.at?, sprints, Option.bind_some, Value.at?, entry]
  cases l.sprints.get? k <;> rfl

theorem document_unknown (l : Ledger) (n : SprintNumber) {k : String} (unknown : k ∉ Entry.knownKeys) :
    l.document.at? ["sprints", n.key, k] = (l.entry n).extra.get? k := by
  rw [document_entry]
  show (l.find? n).bind _ = _
  unfold entry
  cases l.find? n with
  | none => rfl
  | some e => exact (Value.at_single _ _).trans (e.view_unknown unknown)

theorem document_ordered {l : Ledger} (representable : l.Representable) : l.document.Ordered :=
  normal_view representable ▸ l.toValue.normal_ordered

theorem run_representable {l : Ledger} (representable : l.Representable) (ops : List Operation) :
    (l.run ops).Representable := by
  induction ops generalizing l with
  | nil => exact representable
  | cons op ops ih =>
    apply ih
    unfold after
    cases result : op.apply l with
    | ok changed => exact applied_representable representable result
    | error failure => exact representable

theorem run_agrees {l : Ledger} (representable : l.Representable) (ops : List Operation) :
    AgreesExcept (ops.map Operation.number) l.document (l.run ops).document where
  ordered := ⟨document_ordered representable, document_ordered (run_representable representable ops)⟩
  objects := ⟨⟨_, rfl⟩, ⟨_, rfl⟩⟩
  top := by
    intro k other
    rw [document_top _ other, document_top _ other, extra_run]
  sprints := ⟨⟨_, document_sprints l, _, rfl⟩, ⟨_, document_sprints _, _, rfl⟩⟩
  others := by
    intro k unnamed
    rw [document_entry, document_entry, get_run]
    intro op member
    exact unnamed op.number (List.mem_map_of_mem member)
  entries := by
    intro n named
    rw [document_entry, document_entry]
    constructor
    · intro v found
      obtain ⟨e, _, same⟩ := Option.bind_eq_some_iff.1 found
      exact ⟨_, (Option.some.inj same).symm⟩
    · obtain ⟨e, found⟩ := Option.isSome_iff_exists.1 (present_run (l := l) (.inr named))
      exact ⟨_, Option.bind_eq_some_iff.2 ⟨e, found, rfl⟩, _, rfl⟩
  unknown := by
    intro n named k unknown
    rw [document_unknown _ _ unknown, document_unknown _ _ unknown, entry_run, Entry.marked_extra]

theorem document_tidy {l : Ledger} (representable : l.Representable) : tidy l.document = l.document := by
  have tidied := tidy_view (representable_read representable)
  rwa [normal_view representable] at tidied

end Ledger

namespace Workspace

variable {w : Workspace} {t : FileTree} {l : Ledger}

def Succeeds (w : Workspace) : FileTree → List Operation → Prop
  | _, [] => True
  | t, op :: ops => (∃ message, (w.perform (m := StateM FileTree) op t).1.result = .ok message) ∧
      w.Succeeds (w.serve t (.perform op)) ops

theorem success_saves (holds : w.Holds t l) (settled : l.reread = l) (op : Operation) {message : String}
    (success : (w.perform (m := StateM FileTree) op t).1.result = .ok message) :
    w.Saved (w.serve t (.perform op)) (l.after op) := by
  have follows := serve_follows holds settled (.perform op)
  apply follows.saved
  rw [follows.answer op rfl] at success
  cases result : op.apply l with
  | ok changed => simp [Ledger.saves, Ledger.refuses, result]
  | error failure =>
    rw [result] at success
    cases success

theorem successes_save (holds : w.Holds t l) (settled : l.reread = l) (op : Operation) (ops : List Operation)
    (succeeds : w.Succeeds t (op :: ops)) :
    w.Saved (w.serveAll t ((op :: ops).map .perform)) (l.run (op :: ops)) := by
  induction ops generalizing t l op with
  | nil =>
    obtain ⟨⟨message, success⟩, _⟩ := succeeds
    rw [List.map_cons, serve_all_cons]
    exact success_saves holds settled op success
  | cons next ops ih =>
    have follows := serve_follows holds settled (.perform op)
    rw [List.map_cons, serve_all_cons, Ledger.run_cons]
    exact ih follows.holds (serve_settled settled (.perform op)) next succeeds.2

-- A file that no command has written yet may still be untidy; every later one is tidy.
theorem unowned_members_kept {location : Location} {text : String}
    (there : t.place w.ledgerPath = .file location text.toUTF8) (accepted : Ledger.ofText text = .ok l)
    (back : l.DoublesReadBack) :
    ∃ v, Json.ofText text = .ok v ∧
      (∃ t' text', w.resave (m := StateM FileTree) t = (.ok (), t') ∧
        t'.read? w.ledgerPath = some text'.toUTF8 ∧ Json.ofText text' = .ok (Ledger.tidy v)) ∧
      ∀ ops, w.Succeeds t ops → ∃ text' v',
        (w.serveAll t (ops.map .perform)).read? w.ledgerPath = some text'.toUTF8 ∧
        Json.ofText text' = .ok v' ∧
        AgreesExcept (ops.map Operation.number) (Ledger.tidy v) (Ledger.tidy v') ∧
        (ops ≠ [] → Ledger.tidy v' = v') := by
  have holds : w.Holds t l := .text location text l there accepted
  have representable := holds_representable holds
  have settled := Ledger.reread_settled back
  obtain ⟨v, value, tidied⟩ := Ledger.accepted_tidy accepted
  refine ⟨v, value, ?_, ?_⟩
  · obtain ⟨t', resaved, _, saved⟩ := resave_holds holds
    refine ⟨t', l.fileText, resaved, saved, ?_⟩
    rw [Ledger.file_text_value representable, settled, tidied]
  · intro ops succeeds
    cases ops with
    | nil =>
      refine ⟨text, v, ?_, value, ?_, nofun⟩
      · show t.read? w.ledgerPath = _
        rw [FileTree.read?, there]
      · rw [tidied]
        exact Ledger.run_agrees representable []
    | cons op ops =>
      have kept := Ledger.run_representable representable (op :: ops)
      have same := Ledger.run_settled settled (op :: ops)
      refine ⟨(l.run (op :: ops)).fileText, (l.run (op :: ops)).document, ?_, ?_, ?_, ?_⟩
      · exact successes_save holds settled op ops succeeds
      · rw [Ledger.file_text_value kept, same]
      · rw [tidied, Ledger.document_tidy kept]
        exact Ledger.run_agrees representable (op :: ops)
      · intro _
        exact Ledger.document_tidy kept

-- A document with a key that is repeated, a known member that is null, and an unknown one that is.
def untidy : Value :=
  .object [("note", .null), ("sprints", .object [("007", .object [("status", .null), ("note", .null)])]),
    ("note", .bool true)]

def untidyLedger : Ledger where
  sprints := SortedMap.empty.insert "007" ⟨none, none, none, SortedMap.empty.insert "note" .null⟩
  extra := (SortedMap.empty.insert "note" .null).insert "note" (.bool true)

theorem untidy_accepted : Ledger.ofText (.ofList untidy.compact) = .ok untidyLedger := by
  have entry : Entry.ReadsAs 124 (.object [("status", .null), ("note", .null)])
      ⟨none, none, none, SortedMap.empty.insert "note" .null⟩ :=
    ⟨_, _, rfl, ⟨_, ⟨rfl, none, .inr ⟨rfl, rfl⟩, rfl⟩, _, ⟨.null, ⟨Nat.zero_le _, rfl⟩, rfl⟩, rfl⟩, rfl⟩
  have entries : Ledger.EntriesReadAs (.object [("007", .object [("status", .null), ("note", .null)])])
      untidyLedger.sprints := ⟨_, rfl, _, ⟨_, entry, rfl⟩, rfl⟩
  have steps : Json.Steps Ledger.TakesMember .blank
      [("note", .null), ("sprints", .object [("007", .object [("status", .null), ("note", .null)])]),
        ("note", .bool true)] ⟨some untidyLedger.sprints, untidyLedger.extra⟩ :=
    ⟨_, ⟨.null, ⟨Nat.zero_le _, rfl⟩, rfl⟩, _, ⟨rfl, _, entries, rfl⟩, _,
      ⟨.bool true, ⟨Nat.zero_le _, rfl⟩, rfl⟩, rfl⟩
  have document : Json.Document untidy (.ofList untidy.compact) := untidy.compact_document
  exact Ledger.of_text_iff.2 ⟨untidy, document, _, _, rfl, steps, rfl⟩

theorem untidy_reads_back : untidyLedger.DoublesReadBack := by decide

def untidyTree : FileTree :=
  ⟨[([FileTree.nameOf "ledger.json".toList], .file (String.ofList untidy.compact).toUTF8)], []⟩

theorem untidy_start_succeeds : fresh.Succeeds untidyTree [.start ⟨7, by decide⟩ ⟨0, 0⟩] := by
  have holds : fresh.Holds untidyTree untidyLedger := .text _ (.ofList untidy.compact) _ rfl untidy_accepted
  have follows := serve_follows holds (Ledger.reread_settled untidy_reads_back)
    (.perform (.start ⟨7, by decide⟩ ⟨0, 0⟩))
  have answer := follows.answer _ rfl
  exact ⟨⟨_, answer.trans rfl⟩, trivial⟩

theorem untidy_start_keeps : ∃ v text v',
    Json.ofText (.ofList untidy.compact) = .ok v ∧
    (fresh.serveAll untidyTree [.perform (.start ⟨7, by decide⟩ ⟨0, 0⟩)]).read? fresh.ledgerPath =
      some text.toUTF8 ∧
    Json.ofText text = .ok v' ∧ AgreesExcept [⟨7, by decide⟩] (Ledger.tidy v) v' := by
  have there : untidyTree.place fresh.ledgerPath =
      .file [FileTree.nameOf "ledger.json".toList] (String.ofList untidy.compact).toUTF8 := rfl
  obtain ⟨v, value, _, kept⟩ := unowned_members_kept there untidy_accepted untidy_reads_back
  obtain ⟨text, v', saved, value', agrees, tidied⟩ := kept _ untidy_start_succeeds
  rw [tidied (List.cons_ne_nil _ _)] at agrees
  exact ⟨v, text, v', value, saved, value', agrees⟩

end Workspace

end SprintLedger
