import Mathlib.Logic.Function.Basic
import SprintLedger.Proofs.Workspace.Runs

set_option autoImplicit false

namespace SprintLedger

-- How far a command has come. What it holds is the ledger that it is about to save.
inductive Progress where
  | waiting
  | holding (changed : Ledger)
  | answered (result : Except Failure String)

-- The commands are told apart by `ι`; those that have saved are listed from the first to the last.
structure Race (ι : Type) where
  files : FileTree
  progress : ι → Progress
  saved : List ι

namespace Race

variable {ι : Type} [DecidableEq ι]

def note (r : Race ι) (i : ι) (p : Progress) : Race ι := { r with progress := Function.update r.progress i p }

theorem note_self (r : Race ι) (i : ι) (p : Progress) : (r.note i p).progress i = p := Function.update_self ..

theorem note_other (r : Race ι) {i j : ι} (other : j ≠ i) (p : Progress) :
    (r.note i p).progress j = r.progress j := Function.update_of_ne other ..

end Race

namespace Entry

def Keeps (e e' : Entry) : Prop := e'.extra = e.extra ∧ ∀ text, e.startedAt = some text → e'.startedAt = some text

theorem keeps_self (e : Entry) : e.Keeps e := ⟨rfl, fun _ => id⟩

theorem keeps_trans {e e' e'' : Entry} (first : e.Keeps e') (second : e'.Keeps e'') : e.Keeps e'' :=
  ⟨second.1.trans first.1, fun text started => second.2 text (first.2 text started)⟩

theorem mark_keeps (e : Entry) (op : Operation) : e.Keeps (op.mark e) := by
  constructor
  · cases op <;> rfl
  · intro text started
    rw [mark_started, started, Option.getD_some]

end Entry

namespace Ledger

def Accepts (l : Ledger) : List Operation → Prop
  | [] => True
  | op :: ops => (∃ changed, op.apply l = .ok changed) ∧ (l.after op).Accepts ops

theorem run_append (l : Ledger) (ops : List Operation) (op : Operation) :
    l.run (ops ++ [op]) = (l.run ops).after op :=
  List.foldl_concat _ _ _ _

theorem accepts_append {l changed : Ledger} {ops : List Operation} {op : Operation} (accepts : l.Accepts ops)
    (applied : op.apply (l.run ops) = .ok changed) : l.Accepts (ops ++ [op]) := by
  induction ops generalizing l with
  | nil => exact ⟨⟨changed, applied⟩, trivial⟩
  | cons first ops ih => exact ⟨accepts.1, ih accepts.2 applied⟩

theorem accepts_reread {l : Ledger} {ops : List Operation} (accepts : l.Accepts ops) : l.reread.Accepts ops := by
  induction ops generalizing l with
  | nil => trivial
  | cons op ops ih =>
    obtain ⟨⟨changed, applied⟩, later⟩ := accepts
    refine ⟨⟨changed.reread, ?_⟩, ?_⟩
    · rw [apply_reread, applied]
      rfl
    · rw [after_reread]
      exact ih later

theorem accepts_iterate {l : Ledger} {ops : List Operation} (accepts : l.Accepts ops) (k : Nat) :
    (reread^[k] l).Accepts ops := by
  induction k generalizing l with
  | zero => exact accepts
  | succ k ih => exact ih (accepts_reread accepts)

theorem iterate_started {l : Ledger} {key : String} {e : Entry} {text : String}
    (found : l.sprints.get? key = some e) (started : e.startedAt = some text) (k : Nat) :
    ∃ e', (reread^[k] l).sprints.get? key = some e' ∧ e'.startedAt = some text := by
  induction k generalizing l e with
  | zero => exact ⟨e, found, started⟩
  | succ k ih =>
    have once : l.reread.sprints.get? key = some e.reread := by
      rw [reread, SortedMap.get_map, found]
      rfl
    exact ih (e := e.reread) once started

theorem after_keeps {l : Ledger} {key : String} {e : Entry} (found : l.sprints.get? key = some e) (op : Operation) :
    ∃ e', (l.after op).sprints.get? key = some e' ∧ e.Keeps e' := by
  by_cases named : key = op.number.key
  · rw [named] at found ⊢
    have there : l.find? op.number = some e := found
    have entry : l.entry op.number = e := by rw [Ledger.entry, there, Option.getD_some]
    have marked := find_after l op op.number
    rw [there, entry] at marked
    by_cases accepted : op.number = op.number ∧ l.refuses op = false
    · rw [if_pos accepted] at marked
      exact ⟨op.mark e, marked, e.mark_keeps op⟩
    · rw [if_neg accepted] at marked
      exact ⟨e, marked, e.keeps_self⟩
  · exact ⟨e, (get_after named).trans found, e.keeps_self⟩

theorem run_keeps {l : Ledger} {key : String} {e : Entry} (found : l.sprints.get? key = some e)
    (ops : List Operation) : ∃ e', (l.run ops).sprints.get? key = some e' ∧ e.Keeps e' := by
  induction ops generalizing l e with
  | nil => exact ⟨e, found, e.keeps_self⟩
  | cons op ops ih =>
    obtain ⟨e', there, first⟩ := after_keeps found op
    obtain ⟨e'', last, second⟩ := ih there
    exact ⟨e'', last, Entry.keeps_trans first second⟩

end Ledger

namespace Workspace

variable {ι : Type} {w : Workspace} {ops : ι → Operation} {t : FileTree} {l : Ledger} {r : Race ι}

def prepare (w : Workspace) (op : Operation) (t : FileTree) : Progress :=
  match (w.load (m := StateM FileTree) t).1 with
  | .error failure => .answered (.error failure)
  | .ok ledger =>
    match op.apply ledger with
    | .error failure => .answered (.error failure)
    | .ok changed => .holding changed

theorem prepare_holds (holds : w.Holds t l) (op : Operation) :
    w.prepare op t = match op.apply l with
      | .error failure => .answered (.error failure)
      | .ok changed => .holding changed := by
  rw [prepare, holds_load holds]

-- Some of the commands that have saved, in the order of their saves, none of which is refused.
structure Serial (ops : ι → Operation) (l : Ledger) (saved kept : List ι) : Prop where
  sublist : kept.Sublist saved
  accepted : l.Accepts (kept.map ops)

theorem serial_later {saved kept : List ι} (serial : Serial ops l saved kept) (i : ι) :
    Serial ops l (saved ++ [i]) kept :=
  ⟨serial.sublist.trans (List.sublist_append_left ..), serial.accepted⟩

-- What has been applied to a ledger that was written and read in between is one more operation of the run.
theorem serial_next {saved kept : List ι} {i : ι} {changed : Ledger} {k : Nat} (serial : Serial ops l saved kept)
    (applied : (ops i).apply ((Ledger.reread^[k] l).run (kept.map ops)) = .ok changed) :
    Serial ops l (saved ++ [i]) (kept ++ [i]) ∧
      (Ledger.reread^[k + 1] l).run ((kept ++ [i]).map ops) = changed.reread := by
  have mapped : (kept ++ [i]).map ops = kept.map ops ++ [ops i] := List.map_append
  have whole : (Ledger.reread^[k] l).run (kept.map ops ++ [ops i]) = changed := by
    rw [Ledger.run_append, Ledger.after, applied]
  rw [Ledger.run_iterate, Ledger.apply_iterate] at applied
  cases first : (ops i).apply (l.run (kept.map ops)) with
  | error failure =>
    rw [first] at applied
    cases applied
  | ok copy =>
    refine ⟨⟨serial.sublist.append (List.Sublist.refl _), ?_⟩, ?_⟩
    · rw [mapped]
      exact Ledger.accepts_append serial.accepted first
    · rw [mapped, Function.iterate_succ_apply', Ledger.run_reread, whole]

-- The file stands for such a run that ends with the last save, and each copy in hand for one with one
-- more operation. What was saved after a copy had been loaded is missing from it. Each save of the run
-- has been read again.
structure Serialized (w : Workspace) (ops : ι → Operation) (l : Ledger) (r : Race ι) : Prop where
  file : ∃ kept, Serial ops l r.saved kept ∧ kept.getLast? = r.saved.getLast? ∧
    w.Holds r.files ((Ledger.reread^[kept.length] l).run (kept.map ops))
  copies : ∀ i changed, r.progress i = .holding changed →
    changed.Representable ∧ ∃ kept, Serial ops l r.saved kept ∧
      (ops i).apply ((Ledger.reread^[kept.length] l).run (kept.map ops)) = .ok changed
  answers : ∀ i, i ∈ r.saved ↔ r.progress i = .answered (.ok (ops i).report)
  once : r.saved.Nodup

theorem start_serialized (holds : w.Holds t l) : w.Serialized ops l ⟨t, fun _ => .waiting, []⟩ where
  file := ⟨[], ⟨List.Sublist.refl _, trivial⟩, rfl, holds⟩
  copies _ _ := nofun
  answers _ := ⟨nofun, nofun⟩
  once := List.nodup_nil

variable [DecidableEq ι]

-- The next step of one of the commands. A second step saves what the first one has prepared.
def advance (w : Workspace) (ops : ι → Operation) (r : Race ι) (i : ι) : Race ι :=
  match r.progress i with
  | .waiting => r.note i (w.prepare (ops i) r.files)
  | .holding changed =>
    match w.save (m := StateM FileTree) changed r.files with
    | (.ok (), t) => { r.note i (.answered (.ok (ops i).report)) with files := t, saved := r.saved ++ [i] }
    | (.error failure, t) => { r.note i (.answered (.error failure)) with files := t }
  | .answered _ => r

def interleave (w : Workspace) (ops : ι → Operation) (t : FileTree) (schedule : List ι) : Race ι :=
  schedule.foldl (w.advance ops) ⟨t, fun _ => .waiting, []⟩

theorem advance_waiting {i : ι} (waiting : r.progress i = .waiting) :
    w.advance ops r i = r.note i (w.prepare (ops i) r.files) := by
  rw [advance, waiting]

theorem advance_answered {i : ι} {result : Except Failure String} (answered : r.progress i = .answered result) :
    w.advance ops r i = r := by
  rw [advance, answered]

theorem advance_holding {i : ι} {changed : Ledger} (holding : r.progress i = .holding changed) :
    w.advance ops r i =
      match w.save (m := StateM FileTree) changed r.files with
      | (.ok (), t) => { r.note i (.answered (.ok (ops i).report)) with files := t, saved := r.saved ++ [i] }
      | (.error failure, t) => { r.note i (.answered (.error failure)) with files := t } := by
  rw [advance, holding]

-- With nothing in between, the two steps are the command.
theorem advance_twice {i : ι} (waiting : r.progress i = .waiting) :
    (w.advance ops (w.advance ops r i) i).files = (w.update (m := StateM FileTree) (ops i) r.files).2 ∧
    (w.advance ops (w.advance ops r i) i).progress i =
      .answered (w.update (m := StateM FileTree) (ops i) r.files).1 := by
  have kept : w.load (m := StateM FileTree) r.files = ((w.load (m := StateM FileTree) r.files).1, r.files) := rfl
  rw [advance_waiting waiting, update, tree_bind, kept, prepare]
  cases (w.load (m := StateM FileTree) r.files).1 with
  | error failure =>
    rw [advance_answered (r.note_self ..)]
    exact ⟨rfl, r.note_self ..⟩
  | ok ledger =>
    dsimp only
    cases (ops i).apply ledger with
    | error failure =>
      rw [advance_answered (r.note_self ..)]
      exact ⟨rfl, r.note_self ..⟩
    | ok changed =>
      dsimp only
      have same : (r.note i (.holding changed)).files = r.files := rfl
      rw [tree_bind, advance_holding (r.note_self ..), same]
      rcases w.save (m := StateM FileTree) changed r.files with ⟨_ | _, t'⟩
      · exact ⟨rfl, Race.note_self ..⟩
      · exact ⟨rfl, Race.note_self ..⟩

theorem prepared_serialized (serialized : w.Serialized ops l r) {i : ι} (waiting : r.progress i = .waiting) :
    w.Serialized ops l (r.note i (w.prepare (ops i) r.files)) := by
  obtain ⟨kept, serial, last, holds⟩ := serialized.file
  have prepared := prepare_holds holds (ops i)
  refine ⟨serialized.file, ?_, ?_, serialized.once⟩
  · intro j changed holding
    by_cases same : j = i
    · subst same
      rw [r.note_self, prepared] at holding
      cases applied : (ops j).apply ((Ledger.reread^[kept.length] l).run (kept.map ops)) with
      | error failure => simp [applied] at holding
      | ok copy =>
        simp only [applied, Progress.holding.injEq] at holding
        subst holding
        exact ⟨Ledger.applied_representable (holds_representable holds) applied, kept, serial, applied⟩
    · rw [r.note_other same] at holding
      exact serialized.copies j changed holding
  · intro j
    refine (serialized.answers j).trans ?_
    by_cases same : j = i
    · subst same
      rw [r.note_self, prepared, waiting]
      cases (ops j).apply ((Ledger.reread^[kept.length] l).run (kept.map ops)) <;> simp
    · rw [r.note_other same]

theorem saved_serialized (serialized : w.Serialized ops l r) {i : ι} {changed : Ledger}
    (holding : r.progress i = .holding changed) {t' : FileTree} (holds : w.Holds t' changed.reread) :
    w.Serialized ops l { r.note i (.answered (.ok (ops i).report)) with files := t', saved := r.saved ++ [i] } := by
  obtain ⟨_, kept, serial, applied⟩ := serialized.copies i changed holding
  obtain ⟨next, made⟩ := serial_next serial applied
  have fresh : i ∉ r.saved := by
    rw [serialized.answers, holding]
    nofun
  constructor
  · refine ⟨kept ++ [i], next, by simp, ?_⟩
    rw [List.length_append, List.length_singleton, made]
    exact holds
  · intro j copy held
    dsimp only at held
    by_cases same : j = i
    · subst same
      rw [r.note_self] at held
      cases held
    · rw [r.note_other same] at held
      obtain ⟨representable, others, serial', applied'⟩ := serialized.copies j copy held
      exact ⟨representable, others, serial_later serial' i, applied'⟩
  · intro j
    dsimp only
    rw [List.mem_append, List.mem_singleton]
    by_cases same : j = i
    · subst same
      rw [r.note_self]
      simp
    · rw [r.note_other same, serialized.answers]
      simp [same]
  · exact List.Nodup.append serialized.once (List.nodup_singleton i) (List.disjoint_singleton.2 fresh)

theorem advance_serialized (serialized : w.Serialized ops l r) (i : ι) :
    w.Serialized ops l (w.advance ops r i) := by
  cases stage : r.progress i with
  | waiting =>
    rw [advance_waiting stage]
    exact prepared_serialized serialized stage
  | answered result =>
    rw [advance_answered stage]
    exact serialized
  | holding changed =>
    obtain ⟨_, _, _, holds⟩ := serialized.file
    obtain ⟨representable, _⟩ := serialized.copies i changed stage
    obtain ⟨t', saved, after, _⟩ := holds_save holds representable
    rw [advance_holding stage, saved]
    exact saved_serialized serialized stage after

theorem interleave_serialized (holds : w.Holds t l) (schedule : List ι) :
    w.Serialized ops l (w.interleave ops t schedule) := by
  have run (r : Race ι) (serialized : w.Serialized ops l r) :
      w.Serialized ops l (schedule.foldl (w.advance ops) r) := by
    induction schedule generalizing r with
    | nil => exact serialized
    | cons i schedule ih => exact ih _ (advance_serialized serialized i)
  exact run _ (start_serialized holds)

theorem interleave_append (w : Workspace) (ops : ι → Operation) (t : FileTree) (schedule : List ι) (i : ι) :
    w.interleave ops t (schedule ++ [i, i]) =
      w.advance ops (w.advance ops (w.interleave ops t schedule) i) i :=
  List.foldl_append

-- Each save of the run is read again by the next one, so it is the run of what the ledger has become when it
-- has been written and read as often. No start time is lost by that.
theorem last_writer_wins (holds : w.Holds t l) (ops : ι → Operation) (schedule : List ι) :
    (w.interleave ops t schedule).saved.Nodup ∧
    (∀ i, i ∈ (w.interleave ops t schedule).saved ↔
      (w.interleave ops t schedule).progress i = .answered (.ok (ops i).report)) ∧
    (∀ i, (w.interleave ops t schedule).progress i = .waiting →
      (w.interleave ops t (schedule ++ [i, i])).files =
        (w.update (m := StateM FileTree) (ops i) (w.interleave ops t schedule).files).2 ∧
      (w.interleave ops t (schedule ++ [i, i])).progress i =
        .answered (w.update (m := StateM FileTree) (ops i) (w.interleave ops t schedule).files).1) ∧
    ∃ (kept : List ι) (base : Ledger), kept.Sublist (w.interleave ops t schedule).saved ∧
      kept.getLast? = (w.interleave ops t schedule).saved.getLast? ∧
      base = Ledger.reread^[kept.length] l ∧ (l.DoublesReadBack → base = l) ∧
      base.Accepts (kept.map ops) ∧
      w.load (m := StateM FileTree) (w.interleave ops t schedule).files =
        (.ok (base.run (kept.map ops)), (w.interleave ops t schedule).files) ∧
      (∀ key, (∀ i ∈ (w.interleave ops t schedule).saved, key ≠ (ops i).number.key) →
        (base.run (kept.map ops)).sprints.get? key = base.sprints.get? key) ∧
      (base.run (kept.map ops)).extra = base.extra ∧
      (∀ key e, base.sprints.get? key = some e →
        ∃ e', (base.run (kept.map ops)).sprints.get? key = some e' ∧ e.Keeps e') ∧
      ∀ key e text, l.sprints.get? key = some e → e.startedAt = some text →
        ∃ e', (base.run (kept.map ops)).sprints.get? key = some e' ∧ e'.startedAt = some text := by
  have serialized : w.Serialized ops l (w.interleave ops t schedule) := interleave_serialized holds schedule
  obtain ⟨kept, serial, last, there⟩ := serialized.file
  refine ⟨serialized.once, serialized.answers, ?_, kept, _, serial.sublist, last, rfl, ?_, ?_, holds_load there, ?_,
    Ledger.extra_run _ _, fun key e found => Ledger.run_keeps found _, ?_⟩
  · intro i waiting
    rw [interleave_append]
    exact advance_twice waiting
  · exact fun back => Function.iterate_fixed (Ledger.reread_settled back) _
  · exact Ledger.accepts_iterate serial.accepted _
  · intro key unnamed
    apply Ledger.get_run
    intro op member
    obtain ⟨i, chosen, rfl⟩ := List.mem_map.1 member
    exact unnamed i (serial.sublist.subset chosen)
  · intro key e text found started
    obtain ⟨e', there', same⟩ := Ledger.iterate_started found started kept.length
    obtain ⟨e'', last', _, keeps⟩ := Ledger.run_keeps there' (kept.map ops)
    exact ⟨e'', last', keeps text same⟩

-- Both load the absent file, so the second to save knows nothing of the first.
def startAndCompletion : Bool → Operation
  | false => .start ⟨7, by decide⟩ ⟨0, 0⟩
  | true => .complete ⟨7, by decide⟩ ⟨1, 0⟩

theorem stale_completion_wins : fresh.Holds ⟨[], []⟩ .empty ∧
    (fresh.interleave startAndCompletion ⟨[], []⟩ [false, true, false, true]).saved = [false, true] ∧
    ∃ kept : List Bool, kept.Sublist [false, true] ∧ kept.getLast? = some true ∧
      Ledger.empty.Accepts (kept.map startAndCompletion) ∧
      (fresh.load (m := StateM FileTree)
        (fresh.interleave startAndCompletion ⟨[], []⟩ [false, true, false, true]).files).1 =
        .ok (Ledger.empty.run (kept.map startAndCompletion)) := by
  have saved : (fresh.interleave startAndCompletion ⟨[], []⟩ [false, true, false, true]).saved = [false, true] := by
    decide +kernel
  obtain ⟨_, _, _, kept, base, sublist, last, _, settled, accepts, loads, _⟩ :=
    last_writer_wins fresh_holds startAndCompletion [false, true, false, true]
  rw [saved] at sublist last
  rw [settled empty_reads_back] at accepts loads
  exact ⟨fresh_holds, saved, kept, sublist, last, accepts, by rw [loads]⟩

-- The double nearest to 31.245270191439438, and the one that this text of it is read as.
def drifting : Json.Double := ⟨false, 8794761699453570, -48, by decide⟩

def drifted : Json.Double := ⟨false, 8794761699453571, -48, by decide⟩

def driftingText : String := "\x7b\"x\":31.2452701914394380\x7d"

def driftingLedger : Ledger := ⟨.empty, SortedMap.empty.insert "x" (.number (.double drifting))⟩

def driftingTree : FileTree := ⟨[([FileTree.nameOf "ledger.json".toList], .file driftingText.toUTF8)], []⟩

theorem drifting_spelled : Json.NumberSpells (.double drifting) "31.2452701914394380".toList := by
  refine ⟨⟨false, ['3', '1'], "2452701914394380".toList, none⟩, ⟨[], ⟨⟨nofun, ?_⟩, nofun⟩, ?_, rfl, by decide⟩, ?_⟩
  · exact List.all_eq_true.1 (by decide)
  · exact List.all_eq_true.1 (by decide)
  · decide +kernel

theorem drifting_accepted : Ledger.ofText driftingText = .ok driftingLedger := by
  have spelled : (Json.Value.object [("x", .number (.double drifting))]).Spells driftingText.toList :=
    ⟨_, ⟨[], _, ['}'], Json.blank_nil, Json.compact_member_spells "x" drifting_spelled, ⟨[], Json.blank_nil, rfl⟩, rfl⟩,
      by decide⟩
  have document : Json.Document (.object [("x", .number (.double drifting))]) driftingText :=
    ⟨[], driftingText.toList, [], Json.blank_nil, spelled, Json.blank_nil, by simp⟩
  exact Ledger.of_text_iff.2 ⟨_, document, _, _, rfl, ⟨_, ⟨_, ⟨Nat.zero_le _, rfl⟩, rfl⟩, rfl⟩, rfl⟩

theorem drifting_reread : (Json.Number.double drifting).reread = .double drifted := by decide +kernel

theorem drifting_holds : fresh.Holds driftingTree driftingLedger := .text _ driftingText _ rfl drifting_accepted

def driftingStart : Unit → Operation := fun _ => .start ⟨7, by decide⟩ ⟨0, 0⟩

-- The one start saves the double as it was, and so its text is read as the other one. No run changes it.
theorem saved_double_drifts : fresh.Holds driftingTree driftingLedger ∧
    ∃ l, (fresh.load (m := StateM FileTree)
        (fresh.interleave driftingStart driftingTree [(), ()]).files).1 = .ok l ∧
      (∀ kept : List Unit, l ≠ driftingLedger.run (kept.map driftingStart)) ∧
      driftingLedger.extra.get? "x" = some (.number (.double drifting)) ∧
      l.extra.get? "x" = some (.number (.double drifted)) := by
  have accepted : (driftingStart ()).apply driftingLedger = .ok _ := rfl
  obtain ⟨t', updated, after, _⟩ := update_accepted drifting_holds accepted
  have steps : (fresh.interleave driftingStart driftingTree [(), ()]).files =
      (fresh.update (m := StateM FileTree) (driftingStart ()) driftingTree).2 := (advance_twice rfl).1
  have files : (fresh.interleave driftingStart driftingTree [(), ()]).files = t' := by rw [steps, updated]
  have changed : driftingLedger.reread.extra.get? "x" = some (.number (.double drifted)) := by
    show some (Json.Value.number (Json.Number.double drifting).reread) = _
    rw [drifting_reread]
  rw [← files] at after
  refine ⟨drifting_holds, _, congrArg Prod.fst (holds_load after), ?_, rfl, changed⟩
  intro kept same
  have kept : driftingLedger.reread.extra = driftingLedger.extra :=
    (congrArg Ledger.extra same).trans (Ledger.extra_run _ _)
  rw [kept] at changed
  have doubles : some (Json.Value.number (.double drifting)) = some (.number (.double drifted)) := changed
  simp [drifting, drifted] at doubles

end Workspace

end SprintLedger
