import SprintLedger.Proofs.CommandLine.Placement

set_option autoImplicit false

namespace SprintLedger.CommandLine

variable {level : Level} {s t u r : State} {arg text : String} {args rest front back given : List String}
  {word : Word} {c : Command}

-- A front part behind which an option may stand.
def Opens (level : Level) (s : State) (front : List String) : Prop :=
  ∀ u, front.foldlM (argument level) s = .ok u → Open u

theorem opens_append (first : Opens level s front) (next : ∀ u, Open u → Opens level u back) :
    Opens level s (front ++ back) := by
  intro v run
  rw [List.foldlM_append] at run
  obtain ⟨u, before, run⟩ := bind_ok run
  exact next u (first u before) v run

theorem opens_undirected (opened : Open s) (unmarked : "--" ∉ front) (undirected : ∀ arg ∈ front, ¬NamesDirectory arg) :
    Opens level s front := fun _ run => run_open opened unmarked undirected run

theorem opens_option (opened : Open s) (present : text ≠ "") (spelled : Spells text given) : Opens level s given := by
  intro u run
  cases settled : s.settle with
  | ok t =>
    rcases run_option opened settled present spelled with ⟨stop, _, refused⟩ | ⟨v, run', _, opened'⟩
    · rw [refused] at run
      cases run
    · rw [run'] at run
      exact Except.ok.inj run ▸ opened'
  | error stop =>
    cases spelled with
    | joined =>
      rw [List.foldlM_cons, argument_directory opened, settled] at run
      cases run
    | apart _ =>
      rw [List.foldlM_cons, argument_option opened, settled] at run
      cases run

theorem read_inserted (inner : level ≠ .top) (opens : Opens level s front) (undirected : Undirected back)
    (present : text ≠ "") (spelled : Spells text given) (read : readFrom level s (front ++ back) = .ok r) :
    readFrom level s (front ++ (given ++ back)) = r.setDirectory text := by
  rw [read_from_append inner] at read ⊢
  obtain ⟨u, run, read⟩ := bind_ok read
  rw [run]
  exact read_option inner (opens u run) undirected present spelled read

theorem hyphen_no_word {cs : List Char} (hyphen : arg.toList = '-' :: cs) : Word.ofText? arg = none := by
  have other {name : String} (bare : name.toList.head? ≠ some '-') : arg ≠ name := by
    rintro rfl
    exact bare (congrArg List.head? hyphen)
  rw [Word.ofText?, if_neg (other (by decide)), if_neg (other (by decide)), if_neg (other (by decide)),
    if_neg (other (by decide))]

theorem open_word (opened : Open s) (arg : String) : commandWord? .top s arg = Word.ofText? arg := by
  rw [commandWord?, if_pos ⟨rfl, by simp [opened.literal], opened.waits⟩]

theorem scan_argument (noWord : commandWord? level s arg = none) (rest : List String) :
    scan level s (arg :: rest) = (argument level s arg).bind fun u => scan level u rest := by
  rw [scan, noWord]

-- The value of the option is no command word, also where it looks like one.
theorem scan_option (opened : Open s) (spelled : Spells text given) (rest : List String) :
    scan .top s (given ++ rest) = (given.foldlM (argument .top) s).bind fun u => scan .top u rest := by
  have noWord {arg : String} {cs : List Char} (hyphen : arg.toList = '-' :: cs) : commandWord? .top s arg = none := by
    rw [open_word opened, hyphen_no_word hyphen]
  cases spelled with
  | joined =>
    rw [List.cons_append, scan_argument (noWord String.toList_append), List.foldlM_cons]
    cases argument .top s ("--dir=" ++ text) <;> rfl
  | apart _ =>
    rw [List.cons_append, scan_argument (noWord rfl), List.foldlM_cons, argument_option opened]
    cases s.settle with
    | error stop => rfl
    | ok t =>
      show scan .top { t with pending := .option } (text :: rest) = _
      rw [scan_argument (by rw [commandWord?, if_neg fun all => all.2.2 rfl])]
      show _ = ((argument .top { t with pending := .option } text).bind pure).bind _
      cases argument .top { t with pending := .option } text <;> rfl

theorem scan_word (opened : Open s) (known : Word.ofText? arg = some word) (rest : List String) :
    scan .top s (arg :: rest) = .ok (s, some (word, rest)) := by
  rw [scan, open_word opened, known]

theorem asks_top_undirected {literal : Bool} {d : Demand} (asks : Asks .top literal arg d) : ¬d.Plain := by
  cases asks <;> exact id

theorem scan_literal {found : Word × List String} (literal : s.literal = true) (free : s.pending ≠ .option) :
    scan .top s args ≠ .ok (t, some found) := by
  intro scanned
  cases args with
  | nil => cases scanned
  | cons arg args =>
    have noWord : commandWord? .top s arg = none := by
      rw [commandWord?, if_neg fun all => all.2.1 literal]
    rw [scan_argument noWord] at scanned
    cases result : argument .top s arg with
    | error stop =>
      rw [result] at scanned
      cases scanned
    | ok u =>
      obtain ⟨unmarked, _⟩ | ⟨d, _, asks, _⟩ := argument_cases result free
      · rw [literal] at unmarked
        cases unmarked
      · exact asks_top_undirected asks (asks_plain asks (.inl literal))

-- In front of the command word there is nothing but the option for the directory.
theorem scan_undirected (opened : Open s) (undirected : Undirected args)
    (scanned : scan .top s args = .ok (t, some (word, rest))) :
    t = s ∧ ∃ arg, args = arg :: rest ∧ Word.ofText? arg = some word := by
  cases args with
  | nil => cases scanned
  | cons arg args =>
    cases known : Word.ofText? arg with
    | some found =>
      rw [scan_word opened known] at scanned
      cases scanned
      exact ⟨rfl, arg, rfl, known⟩
    | none =>
      rw [scan_argument ((open_word opened arg).trans known)] at scanned
      cases result : argument .top s arg with
      | error stop =>
        rw [result] at scanned
        cases scanned
      | ok u =>
        rw [result] at scanned
        have clear : Clear s (arg :: args) := ⟨opened.waits, .inr undirected⟩
        obtain ⟨later, ⟨_, _, rfl⟩ | ⟨d, _, plain, asks, _⟩⟩ := clear_step clear result
        · exact absurd scanned (scan_literal rfl later.waits)
        · exact absurd plain (asks_top_undirected asks)

def numbered (make : SprintNumber → Command) (number : Option SprintNumber) (_ : Bool) : Except Stop Command :=
  (number.map make).elim (.error (.usage .missingNumber)) .ok

theorem command_made (known : word ≠ .help) :
    ∃ (level : Level) (make : Option SprintNumber → Bool → Except Stop Command), level ≠ .top ∧ ∀ args,
      command word args =
        (readFrom level .initial args).bind fun s => (make s.number s.json).map fun c => (c, s) := by
  have behind : Level.stats ≠ .top ∧ Level.change ≠ .top := by decide
  cases word with
  | help => exact absurd rfl known
  | stats =>
    refine ⟨.stats, fun _ json => .ok (.stats json), behind.1, fun args => ?_⟩
    show (readFrom .stats .initial args).map _ = _
    cases readFrom .stats .initial args <;> rfl
  | start =>
    refine ⟨.change, numbered .start, behind.2, fun args => congrArg (Except.bind _) (funext fun s => ?_)⟩
    cases s.number <;> rfl
  | complete =>
    refine ⟨.change, numbered .complete, behind.2, fun args => congrArg (Except.bind _) (funext fun s => ?_)⟩
    cases s.number <;> rfl

theorem parse_found (scanned : scan .top .initial args = .ok (t, some (word, rest))) : parse args =
    (command word rest).bind fun p => t.settle.map fun u => ⟨p.1, p.2.directory.or u.directory⟩ := by
  rw [parse, scanned]
  show (command word rest >>= fun p => _) = _
  cases command word rest with
  | error stop => rfl
  | ok p =>
    show (t.settle >>= fun u => _) = _
    cases t.settle <;> rfl

theorem parse_accepted {i : Invocation} (accepted : parse args = .ok i) : ∃ t word rest,
    scan .top .initial args = .ok (t, some (word, rest)) := by
  rw [parse] at accepted
  cases scanned : scan .top .initial args with
  | error stop =>
    rw [scanned] at accepted
    cases accepted
  | ok found =>
    obtain ⟨t, word⟩ := found
    cases word with
    | some found => exact ⟨t, _, _, rfl⟩
    | none =>
      rw [scanned] at accepted
      change (t.settle >>= fun u => Except.error _) = _ at accepted
      cases settled : t.settle with
      | error stop =>
        rw [settled] at accepted
        cases accepted
      | ok u =>
        rw [settled] at accepted
        cases accepted

structure ReadAs (rest : List String) (word : Word) (level : Level) (c : Command) (s : State) : Prop where
  inner : level ≠ .top
  read : readFrom level .initial rest = .ok s
  idle : s.pending = .nothing
  without : s.directory = none
  done : command word rest = .ok (c, s)
  placed : ∀ rest' text, readFrom level .initial rest' = .ok (s.place text) → command word rest' = .ok (c, s.place text)
  refused : ∀ rest' stop, readFrom level .initial rest' = .error stop → command word rest' = .error stop

theorem command_reads (undirected : Undirected rest) (done : command word rest = .ok (c, s)) :
    ∃ level, ReadAs rest word level c s := by
  have known : word ≠ .help := by
    rintro rfl
    cases done
  obtain ⟨level, make, inner, made⟩ := command_made known
  have taken := done
  rw [made] at taken
  cases read : readFrom level .initial rest with
  | error stop =>
    rw [read] at taken
    cases taken
  | ok r =>
    rw [read] at taken
    change (make r.number r.json).map _ = _ at taken
    cases found : make r.number r.json with
    | error stop =>
      rw [found] at taken
      cases taken
    | ok c' =>
      rw [found] at taken
      cases taken
      obtain ⟨t, settled, same⟩ := read_settles inner ⟨initial_open.waits, .inr undirected⟩ read
      cases settled
      refine ⟨level, inner, read, read_idle read, same.symm, done, ?_, ?_⟩
      · intro rest' text placed
        rw [made, placed]
        show (make s.number s.json).map _ = _
        rw [found]
        rfl
      · intro rest' stop refused
        rw [made, refused]
        rfl

-- An accepted command line without a directory starts with its command word.
theorem accepted_reads {i : Invocation} (accepted : parse args = .ok i) (undirected : Undirected args) :
    i.directory = none ∧ ∃ arg rest word level s, args = arg :: rest ∧ Word.ofText? arg = some word ∧
      Undirected rest ∧ ReadAs rest word level i.command s := by
  obtain ⟨t, word, rest, scanned⟩ := parse_accepted accepted
  obtain ⟨rfl, arg, rfl, known⟩ := scan_undirected initial_open undirected scanned
  have later : Undirected rest := by
    refine ((undirected_cons.1 undirected).resolve_left ?_).2
    rintro rfl
    rw [hyphen_no_word rfl] at known
    cases known
  rw [parse_found scanned] at accepted
  cases done : command word rest with
  | error stop =>
    rw [done] at accepted
    cases accepted
  | ok p =>
    obtain ⟨c, s⟩ := p
    rw [done] at accepted
    cases accepted
    obtain ⟨level, reads⟩ := command_reads later done
    exact ⟨by rw [reads.without]; rfl, arg, rest, word, level, s, rfl, known, later, reads⟩

theorem option_first (present : text ≠ "") (spelled : Spells text given) : ∃ u, Open u ∧
    u.settle = .ok (State.initial.place text) ∧ ∀ args, scan .top .initial (given ++ args) = scan .top u args := by
  have placed : State.initial.setDirectory text = .ok (State.initial.place text) :=
    State.set_directory_place rfl rfl present
  rcases run_option initial_open rfl present spelled with ⟨stop, refused, _⟩ | ⟨u, run, into, opened⟩
  · rw [placed] at refused
    cases refused
  · refine ⟨u, opened, into.settle.trans placed, fun args => ?_⟩
    rw [scan_option initial_open spelled, run]
    rfl

theorem parse_behind (opened : Open u) (scanned : scan .top .initial (front ++ arg :: rest) = scan .top u (arg :: rest))
    (known : Word.ofText? arg = some word) : parse (front ++ arg :: rest) =
      (command word rest).bind fun p => u.settle.map fun t => ⟨p.1, p.2.directory.or t.directory⟩ :=
  parse_found (scanned.trans (scan_word opened known rest))

theorem option_behind (reads : ReadAs (front ++ back) word level c s) (undirected : Undirected (front ++ back))
    (unmarked : "--" ∉ front) (present : text ≠ "") (spelled : Spells text given) :
    readFrom level .initial (front ++ (given ++ back)) = .ok (s.place text) := by
  obtain ⟨plain, behind⟩ := (undirected_append unmarked).1 undirected
  rw [read_inserted reads.inner (opens_undirected initial_open unmarked plain) behind present spelled reads.read]
  exact State.set_directory_place reads.without reads.idle present

theorem options_behind {middle given' : List String} {text' : String}
    (reads : ReadAs (front ++ (middle ++ back)) word level c s) (undirected : Undirected (front ++ (middle ++ back)))
    (unmarked : "--" ∉ front ++ middle) (present : text ≠ "") (spelled : Spells text given) (present' : text' ≠ "")
    (spelled' : Spells text' given') :
    readFrom level .initial (front ++ (given ++ (middle ++ (given' ++ back)))) = .error (.usage .repeatedOption) := by
  have unmarkedFront : "--" ∉ front := fun mark => unmarked (List.mem_append_left _ mark)
  have unmarkedMiddle : "--" ∉ middle := fun mark => unmarked (List.mem_append_right _ mark)
  obtain ⟨plain, undirected'⟩ := (undirected_append unmarkedFront).1 undirected
  obtain ⟨plain', behind⟩ := (undirected_append unmarkedMiddle).1 undirected'
  have once := option_behind reads undirected unmarkedFront present spelled
  have opens : Opens level .initial (front ++ (given ++ middle)) :=
    opens_append (opens_undirected initial_open unmarkedFront plain) fun u opened =>
      opens_append (opens_option opened present spelled) fun v opened' => opens_undirected opened' unmarkedMiddle plain'
  have regrouped : front ++ (given ++ (middle ++ back)) = front ++ (given ++ middle) ++ back := by
    simp only [List.append_assoc]
  rw [regrouped] at once
  have twice := read_inserted reads.inner opens behind present' spelled' once
  rw [List.append_assoc, List.append_assoc] at twice
  exact twice.trans (State.set_directory_again rfl)

-- The second option in front of the command word is told at once or, where it waits, behind the command.
theorem options_before {given' : List String} {text' : String} (reads : ReadAs rest word level c s)
    (known : Word.ofText? arg = some word) (present : text ≠ "") (spelled : Spells text given) (present' : text' ≠ "")
    (spelled' : Spells text' given') :
    parse (given ++ (given' ++ arg :: rest)) = .error (.usage .repeatedOption) := by
  obtain ⟨u, opened, settled, scanned⟩ := option_first present spelled
  have again : (State.initial.place text).setDirectory text' = .error (.usage .repeatedOption) :=
    State.set_directory_again rfl
  rcases run_option opened settled present' spelled' with ⟨stop, refused, run⟩ | ⟨v, run, into, opened'⟩
  · rw [again] at refused
    cases refused
    rw [parse, scanned, scan_option opened spelled', run]
    rfl
  · have behind : scan .top .initial (given ++ given' ++ arg :: rest) = scan .top v (arg :: rest) := by
      rw [List.append_assoc, scanned, scan_option opened spelled', run]
      rfl
    have late : v.settle = .error (.usage .repeatedOption) := by
      rw [into.settle, settled]
      exact again
    rw [← List.append_assoc, parse_behind opened' behind known, reads.done, late]
    rfl

structure Divides (args before : List String) (word : String) (after : List String) : Prop where
  whole : args = before ++ word :: after
  first : ∀ arg ∈ before, Word.ofText? arg = none
  known : (Word.ofText? word).isSome = true

theorem divides_first {before after : List String} {other : String} (known : Word.ofText? arg = some word)
    (divides : Divides (arg :: rest) before other after) : before = [] ∧ other = arg ∧ after = rest := by
  cases before with
  | nil =>
    obtain ⟨rfl, rfl⟩ := List.cons.inj divides.whole
    exact ⟨rfl, rfl, rfl⟩
  | cons first before =>
    obtain ⟨rfl, _⟩ := List.cons.inj divides.whole
    have none := divides.first arg List.mem_cons_self
    rw [known] at none
    cases none

theorem directory_anywhere {args : List String} {i : Invocation} (accepted : parse args = .ok i)
    (undirected : Undirected args) :
    i.directory = none ∧
    (∀ text given front back, text ≠ "" → Spells text given → "--" ∉ front → args = front ++ back →
      parse (front ++ given ++ back) = .ok ⟨i.command, some text⟩) ∧
    ∀ before word after text given text' given', Divides args before word after →
      text ≠ "" → Spells text given → text' ≠ "" → Spells text' given' →
      (∀ first last front back, before = first ++ last → "--" ∉ front → after = front ++ back →
        parse (first ++ given ++ last ++ word :: (front ++ given' ++ back)) = .ok ⟨i.command, some text'⟩) ∧
      (∀ first middle last, before = first ++ middle ++ last →
        parse (first ++ given ++ middle ++ given' ++ last ++ word :: after) = .error (.usage .repeatedOption)) ∧
      ∀ front middle back, "--" ∉ front ++ middle → after = front ++ middle ++ back →
        parse (before ++ word :: (front ++ given ++ middle ++ given' ++ back)) = .error (.usage .repeatedOption) := by
  simp only [List.append_assoc]
  obtain ⟨without, arg, rest, word, level, s, rfl, known, later, reads⟩ := accepted_reads accepted undirected
  refine ⟨without, ?_, ?_⟩
  · intro text given front back present spelled unmarked split
    cases front with
    | nil =>
      obtain rfl : arg :: rest = back := split
      obtain ⟨u, opened, settled, scanned⟩ := option_first present spelled
      rw [List.nil_append, parse_behind opened (scanned _) known, reads.done, settled]
      show Except.ok (Invocation.mk i.command (s.directory.or _)) = _
      rw [reads.without]
      rfl
    | cons first front =>
      obtain ⟨rfl, rfl⟩ := List.cons.inj split
      have unmarked' : "--" ∉ front := fun mark => unmarked (List.mem_cons_of_mem _ mark)
      have read := option_behind reads later unmarked' present spelled
      rw [List.cons_append, ← List.nil_append (arg :: _), parse_behind initial_open rfl known, reads.placed _ _ read]
      rfl
  · intro before other after text given text' given' divides present spelled present' spelled'
    obtain ⟨rfl, rfl, rfl⟩ := divides_first known divides
    refine ⟨?_, ?_, ?_⟩
    · intro first last front back before unmarked split
      obtain ⟨rfl, rfl⟩ := List.append_eq_nil_iff.1 before.symm
      subst split
      obtain ⟨u, opened, settled, scanned⟩ := option_first present spelled
      have read := option_behind reads later unmarked present' spelled'
      rw [List.nil_append, List.nil_append, parse_behind opened (scanned _) known, reads.placed _ _ read, settled]
      rfl
    · intro first middle last before
      obtain ⟨rfl, rest⟩ := List.append_eq_nil_iff.1 before.symm
      obtain ⟨rfl, rfl⟩ := List.append_eq_nil_iff.1 rest
      exact options_before reads known present spelled present' spelled'
    · intro front middle back unmarked split
      subst split
      have read := options_behind reads later unmarked present spelled present' spelled'
      rw [parse_behind initial_open rfl known, reads.refused _ _ read]
      rfl

theorem bare_unnamed (bare : arg.toList.head? ≠ some '-') : ¬NamesDirectory arg := by
  rintro (rfl | ⟨text, rfl⟩)
  · exact bare rfl
  · rw [String.toList_append] at bare
    exact bare rfl

-- Directories by the names of a command, of a number and of the separator.
theorem lookalikes_are_directories :
    parse ["complete", "--", "+7"] = .ok ⟨.complete ⟨7, by decide⟩, none⟩ ∧
    parse ["--dir", "start", "complete", "--", "+7"] = .ok ⟨.complete ⟨7, by decide⟩, some "start"⟩ ∧
    parse ["complete", "--dir=--", "--", "+7"] = .ok ⟨.complete ⟨7, by decide⟩, some "--"⟩ ∧
    parse ["--dir=--", "complete", "--dir", "8", "--", "+7"] = .ok ⟨.complete ⟨7, by decide⟩, some "8"⟩ ∧
    parse ["--dir", "8", "--dir=--", "complete", "--", "+7"] = .error (.usage .repeatedOption) ∧
    parse ["complete", "--dir=--", "--dir", "8", "--", "+7"] = .error (.usage .repeatedOption) := by
  have accepted : parse ["complete", "--", "+7"] = .ok ⟨.complete ⟨7, by decide⟩, none⟩ := rfl
  have undirected : Undirected ["complete", "--", "+7"] :=
    List.forall_mem_singleton.2 (bare_unnamed (by decide))
  have divides : Divides ["complete", "--", "+7"] [] "complete" ["--", "+7"] := ⟨rfl, nofun, rfl⟩
  have start : Spells "start" ["--dir", "start"] := .apart (by decide)
  have eight : Spells "8" ["--dir", "8"] := .apart (by decide)
  have mark : Spells "--" ["--dir=--"] := .joined
  obtain ⟨_, once, twice⟩ := directory_anywhere accepted undirected
  obtain ⟨apart, _, behind⟩ := twice _ _ _ _ _ _ _ divides (by decide) mark (by decide) eight
  obtain ⟨_, before, _⟩ := twice _ _ _ _ _ _ _ divides (by decide) eight (by decide) mark
  refine ⟨accepted, ?_, ?_, ?_, ?_, ?_⟩
  · exact once _ _ [] _ (by decide) start nofun rfl
  · exact once _ _ ["complete"] _ (by decide) mark (by decide) rfl
  · exact apart [] [] [] _ rfl nofun rfl
  · exact before [] [] [] rfl
  · exact behind [] [] _ nofun rfl

end SprintLedger.CommandLine
