import SprintLedger.Proofs.CommandLine.Arguments

set_option autoImplicit false

namespace SprintLedger.CommandLine

-- The option with its value, in one argument or in two.
inductive Spells (text : String) : List String → Prop where
  | joined : Spells text ["--dir=" ++ text]
  | apart (bare : text.toList.head? ≠ some '-') : Spells text ["--dir", text]

def NamesDirectory (arg : String) : Prop := arg = "--dir" ∨ ∃ text, arg = "--dir=" ++ text

-- Behind `--` there are no options, whatever the arguments look like.
def Undirected (args : List String) : Prop := ∀ arg ∈ args.takeWhile (· ≠ "--"), ¬NamesDirectory arg

variable {level : Level} {s t u r : State} {arg text : String} {args front back given : List String} {d : Demand}

theorem undirected_cons : Undirected (arg :: args) ↔ arg = "--" ∨ (¬NamesDirectory arg ∧ Undirected args) := by
  by_cases mark : arg = "--"
  · simp [Undirected, mark]
  · simp [Undirected, mark]

theorem undirected_append (unmarked : "--" ∉ front) :
    Undirected (front ++ back) ↔ (∀ arg ∈ front, ¬NamesDirectory arg) ∧ Undirected back := by
  have options : ∀ arg ∈ front, decide (arg ≠ "--") = true := fun arg member =>
    decide_eq_true fun mark => unmarked (mark ▸ member)
  rw [Undirected, List.takeWhile_append_of_pos options, List.forall_mem_append]
  rfl

-- A demand that has nothing to do with the directory.
def Demand.Plain : Demand → Prop
  | .json => True
  | .option => False
  | .directory _ => False
  | .number _ => True

theorem asks_plain {literal : Bool} (asks : Asks level literal arg d)
    (undirected : literal = true ∨ ¬NamesDirectory arg) : d.Plain := by
  cases asks with
  | json => trivial
  | option => exact absurd (.inl rfl) (undirected.resolve_left Bool.false_ne_true)
  | directory _ text => exact absurd (.inr ⟨text, rfl⟩) (undirected.resolve_left Bool.false_ne_true)
  | number _ _ _ => trivial

namespace State

def place (s : State) (text : String) : State := { s with directory := some text }

def Free (s : State) : Prop := s.pending = .nothing ∨ ∃ text, s.pending = .number text

theorem free_waits (free : s.Free) : s.pending ≠ .option := by
  rcases free with idle | ⟨text, waiting⟩
  · simp [idle]
  · simp [waiting]

theorem set_directory_place (without : t.directory = none) (idle : t.pending = .nothing) (present : text ≠ "") :
    t.setDirectory text = .ok (t.place text) := by
  rw [setDirectory, without, if_neg (by simp), if_neg present, ← idle]
  rfl

theorem set_directory_again {old : Path} (there : t.directory = some old) :
    t.setDirectory text = .error (.usage .repeatedOption) := by
  rw [setDirectory, there]
  rfl

theorem set_directory_refused {stop : Stop} (same : t.directory = u.directory)
    (refused : t.setDirectory text = .error stop) : u.setDirectory text = .error stop := by
  rw [setDirectory, ← same]
  rw [setDirectory] at refused
  split at refused
  · rename_i there
    rw [if_pos there, refused]
  · rename_i free
    split at refused
    · rename_i empty
      rw [if_neg free, if_pos empty, refused]
    · cases refused

theorem settle_place (free : s.Free) : (s.place text).settle = s.settle.map fun t => t.place text := by
  rcases free with idle | ⟨number, waiting⟩
  · rw [settle_idle idle]
    exact settle_idle idle
  · rw [settle, settle, waiting, place, waiting]
    dsimp only
    cases SprintNumber.ofText? number <;> rfl

theorem free_settled (free : s.Free) (settled : s.settle = .ok t) : t.directory = s.directory := by
  rcases settle_cases settled with ⟨_, rfl⟩ | ⟨_, waiting, _⟩ | ⟨_, _, _, _, rfl⟩
  · rfl
  · rcases free with idle | ⟨_, number⟩
    · rw [idle] at waiting
      cases waiting
    · rw [number] at waiting
      cases waiting
  · rfl

def mark (s : State) : State := { s with literal := true }

theorem set_directory_mark : s.mark.setDirectory text = (s.setDirectory text).map mark := by
  rw [setDirectory, setDirectory, mark]
  split
  · rfl
  · split <;> rfl

theorem settle_mark : s.mark.settle = s.settle.map mark := by
  obtain ⟨directory, json, number, pending, literal⟩ := s
  cases pending with
  | nothing => rfl
  | option => rfl
  | directory text => exact set_directory_mark
  | number text =>
    rw [settle, settle, mark]
    dsimp only
    cases SprintNumber.ofText? text <;> rfl

end State

theorem meet_plain (plain : d.Plain) (idle : t.pending = .nothing) (met : d.meet t = .ok u) :
    u.directory = t.directory ∧ u.literal = t.literal ∧ u.Free ∧
      ∀ text, d.meet (t.place text) = .ok (u.place text) := by
  cases d with
  | option => cases plain
  | directory _ => cases plain
  | number number =>
    obtain rfl := Except.ok.inj met
    exact ⟨rfl, rfl, .inr ⟨number, rfl⟩, fun _ => rfl⟩
  | json =>
    rw [Demand.meet, State.setJson] at met
    split at met
    · cases met
    · rename_i first
      obtain rfl := Except.ok.inj met
      refine ⟨rfl, rfl, .inl idle, fun text => ?_⟩
      rw [Demand.meet, State.setJson, State.place, if_neg first]
      rfl

theorem argument_mark (unmarked : s.literal = false) : argument level s "--" = .ok s.mark := by
  rw [argument, unmarked]
  rfl

-- No option is waiting for its value, and no argument from here on gives a directory.
structure Clear (s : State) (args : List String) : Prop where
  waits : s.pending ≠ .option
  undirected : s.literal = true ∨ Undirected args

theorem clear_step (clear : Clear s (arg :: args)) (accepted : argument level s arg = .ok u) : Clear u args ∧
    ((s.literal = false ∧ arg = "--" ∧ u = s.mark) ∨
      ∃ d t, d.Plain ∧ Asks level s.literal arg d ∧ d.Fits s ∧ s.settle = .ok t ∧ d.meet t = .ok u) := by
  by_cases mark : s.literal = false ∧ arg = "--"
  · obtain ⟨unmarked, rfl⟩ := mark
    rw [argument_mark unmarked] at accepted
    obtain rfl := Except.ok.inj accepted
    exact ⟨⟨clear.waits, .inl rfl⟩, .inl ⟨unmarked, rfl, rfl⟩⟩
  · obtain ⟨unmarked, rfl, _⟩ | ⟨d, t, asks, fits, settled, met⟩ := argument_cases accepted clear.waits
    · exact absurd ⟨unmarked, rfl⟩ mark
    · have split : s.literal = true ∨ (¬NamesDirectory arg ∧ Undirected args) := by
        cases literal : s.literal with
        | true => exact .inl rfl
        | false =>
          have undirected := clear.undirected.resolve_left (Bool.eq_false_iff.1 literal)
          exact .inr ((undirected_cons.1 undirected).resolve_left fun same => mark ⟨literal, same⟩)
      have plain := asks_plain asks (split.imp_right And.left)
      obtain ⟨_, literal, free, _⟩ := meet_plain plain (State.settled_idle settled) met
      refine ⟨⟨State.free_waits free, ?_⟩, .inr ⟨d, t, plain, asks, fits, settled, met⟩⟩
      rw [literal, State.settled_literal settled]
      exact split.imp_right And.right

-- What is left of one side of the command word, up to the value that is pending at its end.
def readFrom (level : Level) (s : State) (args : List String) : Except Stop State :=
  (scan level s args).bind fun p => p.1.settle

theorem read_from_nil : readFrom level s [] = s.settle := rfl

theorem read_idle (read : readFrom level s args = .ok r) : r.pending = .nothing := by
  rw [readFrom] at read
  cases scanned : scan level s args with
  | error stop =>
    rw [scanned] at read
    cases read
  | ok p =>
    rw [scanned] at read
    exact State.settled_idle read

theorem read_from_cons (inner : level ≠ .top) :
    readFrom level s (arg :: args) = (argument level s arg).bind fun u => readFrom level u args := by
  have noWord : commandWord? level s arg = none := by
    rw [commandWord?, if_neg fun both => inner both.1]
  rw [readFrom, scan, noWord]
  cases argument level s arg <;> rfl

theorem read_from_append (inner : level ≠ .top) :
    readFrom level s (front ++ back) = (front.foldlM (argument level) s).bind fun u => readFrom level u back := by
  induction front generalizing s with
  | nil => rfl
  | cons arg front ih =>
    rw [List.cons_append, read_from_cons inner, List.foldlM_cons]
    cases argument level s arg with
    | error stop => rfl
    | ok u => exact ih

-- What is pending in front of the arguments is found right, and without an option the directory stays.
theorem read_settles (inner : level ≠ .top) (clear : Clear s args) (read : readFrom level s args = .ok r) :
    ∃ t, s.settle = .ok t ∧ t.directory = r.directory := by
  induction args generalizing s with
  | nil => exact ⟨r, read, rfl⟩
  | cons arg args ih =>
    rw [read_from_cons inner] at read
    obtain ⟨u, accepted, rest⟩ := bind_ok read
    obtain ⟨later, step⟩ := clear_step clear accepted
    obtain ⟨v, settled, same⟩ := ih later rest
    rcases step with ⟨_, _, rfl⟩ | ⟨d, t, plain, _, _, settled', met⟩
    · rw [State.settle_mark] at settled
      cases before : s.settle with
      | error stop =>
        rw [before] at settled
        cases settled
      | ok t =>
        rw [before] at settled
        obtain rfl := Except.ok.inj settled
        exact ⟨t, rfl, same⟩
    · obtain ⟨kept, _, free, _⟩ := meet_plain plain (State.settled_idle settled') met
      exact ⟨t, settled', by rw [← kept, ← State.free_settled free settled, same]⟩

theorem fits_alike (same : u.hasNumber = s.hasNumber) (fits : d.Fits s) : d.Fits u := by
  cases d with
  | number text => exact same.trans fits
  | _ => trivial

-- The second state is the first one after the directory has been given.
structure Given (text : String) (s u : State) : Prop where
  settle : u.settle = s.settle.bind fun t => t.setDirectory text
  literal : u.literal = s.literal
  number : u.hasNumber = s.hasNumber
  waits : u.pending ≠ .option

theorem place_given (without : s.directory = none) (free : s.Free) (present : text ≠ "") :
    Given text s (s.place text) where
  settle := by
    rw [State.settle_place free]
    cases settled : s.settle with
    | error stop => rfl
    | ok t =>
      have without' : t.directory = none := (State.free_settled free settled).trans without
      exact (State.set_directory_place without' (State.settled_idle settled) present).symm
  literal := rfl
  number := rfl
  waits := State.free_waits free

theorem mark_given (given : Given text s u) : Given text s.mark u.mark where
  settle := by
    rw [State.settle_mark, State.settle_mark, given.settle]
    cases s.settle with
    | error stop => rfl
    | ok t => exact State.set_directory_mark.symm
  literal := rfl
  number := given.number
  waits := given.waits

-- To give the directory now is to give it at the end.
theorem read_given (inner : level ≠ .top) (present : text ≠ "") (clear : Clear s args) (given : Given text s u)
    (read : readFrom level s args = .ok r) : readFrom level u args = r.setDirectory text := by
  induction args generalizing s u with
  | nil =>
    rw [read_from_nil] at read
    rw [read_from_nil, given.settle, read]
    rfl
  | cons arg args ih =>
    rw [read_from_cons inner] at read
    obtain ⟨s', accepted, rest⟩ := bind_ok read
    obtain ⟨later, step⟩ := clear_step clear accepted
    rcases step with ⟨unmarked, rfl, rfl⟩ | ⟨d, t, plain, asks, fits, settled, met⟩
    · rw [read_from_cons inner, argument_mark (given.literal.trans unmarked)]
      exact ih later (mark_given given) rest
    · obtain ⟨kept, _, free, placed⟩ := meet_plain plain (State.settled_idle settled) met
      have same : t.directory = r.directory := by
        obtain ⟨v, settled', same⟩ := read_settles inner later rest
        rw [← kept, ← State.free_settled free settled', same]
      have step : argument level u arg = (t.setDirectory text).bind d.meet := by
        rw [argument_asks (given.literal ▸ asks) (fits_alike given.number fits) given.waits, given.settle, settled]
        rfl
      rw [read_from_cons inner, step]
      cases directory : t.directory with
      | none =>
        rw [State.set_directory_place directory (State.settled_idle settled) present]
        show (d.meet (t.place text)).bind _ = _
        rw [placed]
        exact ih later (place_given (kept.trans directory) free present) rest
      | some old =>
        rw [State.set_directory_again directory, State.set_directory_again (same.symm.trans directory)]
        rfl

structure Open (s : State) : Prop where
  literal : s.literal = false
  waits : s.pending ≠ .option

theorem initial_open : Open .initial := ⟨rfl, nofun⟩

theorem run_open (opened : Open s) (unmarked : "--" ∉ front) (undirected : ∀ arg ∈ front, ¬NamesDirectory arg)
    (run : front.foldlM (argument level) s = .ok u) : Open u := by
  induction front generalizing s with
  | nil =>
    obtain rfl := Except.ok.inj run
    exact opened
  | cons arg front ih =>
    obtain ⟨other, unmarked⟩ := not_or.1 (mt List.mem_cons.2 unmarked)
    obtain ⟨first, undirected⟩ := List.forall_mem_cons.1 undirected
    rw [List.foldlM_cons] at run
    obtain ⟨s', accepted, run⟩ := bind_ok run
    refine ih ?_ unmarked undirected run
    obtain ⟨_, rfl, _⟩ | ⟨d, t, asks, _, settled, met⟩ := argument_cases accepted opened.waits
    · exact absurd rfl other
    · have plain := asks_plain asks (.inr first)
      obtain ⟨_, literal, free, _⟩ := meet_plain plain (State.settled_idle settled) met
      exact ⟨literal.trans ((State.settled_literal settled).trans opened.literal), State.free_waits free⟩

theorem argument_option (opened : Open s) :
    argument level s "--dir" = s.settle.map fun t => { t with pending := .option } := by
  have asks : Asks level s.literal "--dir" .option := opened.literal ▸ .option level
  rw [argument_asks asks trivial opened.waits]
  rfl

theorem argument_directory (opened : Open s) :
    argument level s ("--dir=" ++ text) = s.settle.bind fun t => t.setDirectory text := by
  have asks : Asks level s.literal ("--dir=" ++ text) (.directory text) := opened.literal ▸ .directory level text
  rw [argument_asks asks trivial opened.waits]
  rfl

theorem value_bare (bare : text.toList.head? ≠ some '-') : IsValue text := by
  intro c cs split
  rw [split] at bare
  exact bare rfl

theorem given_settled (settled : s.settle = .ok t) (given : Given text t u) : Given text s u where
  settle := by rw [given.settle, State.settle_idle (State.settled_idle settled), settled]
  literal := given.literal.trans (State.settled_literal settled)
  number := given.number.trans (State.settled_number settled)
  waits := given.waits

-- Behind the option the directory is given, or the option is the second one and that is told at once.
theorem run_option (opened : Open s) (settled : s.settle = .ok t) (present : text ≠ "") (spelled : Spells text given) :
    (∃ stop, t.setDirectory text = .error stop ∧ given.foldlM (argument level) s = .error stop) ∨
    ∃ u, given.foldlM (argument level) s = .ok u ∧ Given text s u ∧ Open u := by
  have idle := State.settled_idle settled
  have literal := (State.settled_literal settled).trans opened.literal
  cases spelled with
  | joined =>
    rw [List.foldlM_cons, argument_directory opened, settled]
    show (∃ stop, _ ∧ (t.setDirectory text).bind _ = _) ∨ ∃ u, (t.setDirectory text).bind _ = _ ∧ _
    cases directory : t.directory with
    | none =>
      have placed := place_given directory (.inl idle) present
      rw [State.set_directory_place directory idle present]
      exact .inr ⟨t.place text, rfl, given_settled settled placed, literal, placed.waits⟩
    | some old =>
      rw [State.set_directory_again directory]
      exact .inl ⟨_, rfl, rfl⟩
  | apart bare =>
    have run : ["--dir", text].foldlM (argument level) s = .ok { t with pending := .directory text } := by
      have unmarked : ({ t with pending := .option } : State).literal = false := literal
      have value : argument level { t with pending := .option } text = .ok { t with pending := .directory text } :=
        (argument_value (value_bare bare) unmarked).trans (if_pos rfl)
      rw [List.foldlM_cons, argument_option opened, settled]
      show (argument level { t with pending := .option } text).bind _ = _
      rw [value]
      rfl
    have number : ({ t with pending := .directory text } : State).hasNumber = t.hasNumber := by
      rw [State.hasNumber, State.hasNumber, idle]
    have waits : Pending.directory text ≠ .option := Pending.noConfusion
    refine .inr ⟨_, run, given_settled settled ⟨?_, rfl, number, waits⟩, literal, waits⟩
    rw [State.settle_idle idle]
    rfl

-- Giving the directory anywhere in front of `--` is giving it at the end.
theorem read_option (inner : level ≠ .top) (opened : Open s) (undirected : Undirected back)
    (present : text ≠ "") (spelled : Spells text given) (read : readFrom level s back = .ok r) :
    readFrom level s (given ++ back) = r.setDirectory text := by
  have clear : Clear s back := ⟨opened.waits, .inr undirected⟩
  obtain ⟨t, settled, same⟩ := read_settles inner clear read
  rw [read_from_append inner]
  rcases run_option opened settled present spelled with ⟨stop, refused, run⟩ | ⟨u, run, given, _⟩
  · rw [run, State.set_directory_refused same refused]
    rfl
  · rw [run]
    exact read_given inner present clear given read

end SprintLedger.CommandLine
