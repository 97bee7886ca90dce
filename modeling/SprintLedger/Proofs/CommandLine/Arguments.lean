import SprintLedger.CommandLine

set_option autoImplicit false

namespace SprintLedger.CommandLine

inductive Demand where
  | json
  | option
  | directory (text : String)
  | number (text : String)

namespace Demand

def meet : Demand → State → Except Stop State
  | .json, s => s.setJson
  | .option, s => .ok { s with pending := .option }
  | .directory text, s => s.setDirectory text
  | .number text, s => .ok { s with pending := .number text }

-- A second number is refused before the first one has been looked at.
def Fits : Demand → State → Prop
  | .json, _ => True
  | .option, _ => True
  | .directory _, _ => True
  | .number _, s => s.hasNumber = false

end Demand

def IsValue (arg : String) : Prop := ∀ c cs, arg.toList ≠ '-' :: c :: cs

-- What an argument asks for on a level, behind `--` or before it.
inductive Asks : Level → Bool → String → Demand → Prop where
  | json : Asks .stats false "--json" .json
  | option (level : Level) : Asks level false "--dir" .option
  | directory (level : Level) (text : String) : Asks level false ("--dir=" ++ text) (.directory text)
  | number (literal : Bool) (arg : String) (value : literal = true ∨ IsValue arg) :
      Asks .change literal arg (.number arg)

namespace State

variable {s t : State}

theorem settle_idle (idle : s.pending = .nothing) : s.settle = .ok s := by
  rw [settle, idle]

theorem settle_cases (settled : s.settle = .ok t) :
    (s.pending = .nothing ∧ t = s) ∨
    (∃ text, s.pending = .directory text ∧ s.directory = none ∧ text ≠ "" ∧
      t = { s with directory := some text, pending := .nothing }) ∨
    ∃ text n, s.pending = .number text ∧ SprintNumber.ofText? text = some n ∧
      t = { s with number := some n, pending := .nothing } := by
  rw [settle] at settled
  split at settled
  · rename_i idle
    exact .inl ⟨idle, (Except.ok.inj settled).symm⟩
  · cases settled
  · rename_i text waiting
    rw [setDirectory] at settled
    split at settled
    · cases settled
    · rename_i free
      split at settled
      · cases settled
      · rename_i present
        exact .inr (.inl ⟨text, waiting, by simpa using free, present, (Except.ok.inj settled).symm⟩)
  · rename_i text waiting
    split at settled
    · rename_i n read
      exact .inr (.inr ⟨text, n, waiting, read, (Except.ok.inj settled).symm⟩)
    · cases settled

theorem settled_idle (settled : s.settle = .ok t) : t.pending = .nothing := by
  rcases settle_cases settled with ⟨idle, rfl⟩ | ⟨_, _, _, _, rfl⟩ | ⟨_, _, _, _, rfl⟩
  · exact idle
  · rfl
  · rfl

theorem settled_literal (settled : s.settle = .ok t) : t.literal = s.literal := by
  rcases settle_cases settled with ⟨_, rfl⟩ | ⟨_, _, _, _, rfl⟩ | ⟨_, _, _, _, rfl⟩ <;> rfl

theorem settled_number (settled : s.settle = .ok t) : t.hasNumber = s.hasNumber := by
  rcases settle_cases settled with ⟨_, rfl⟩ | ⟨_, waiting, _, _, rfl⟩ | ⟨_, _, waiting, _, rfl⟩
  · rfl
  · simp [hasNumber, waiting]
  · simp [hasNumber, waiting]

end State

theorem split_option_text (cs : List Char) :
    cs = (splitOption cs).1.toList ++ ((splitOption cs).2.elim [] fun value => '=' :: value.toList) := by
  have split := List.takeWhile_append_dropWhile (p := (· ≠ '=')) (l := cs)
  have first := List.head?_dropWhile_not (· ≠ '=') cs
  rw [splitOption, String.toList_ofList]
  cases behind : cs.dropWhile (· ≠ '=') with
  | nil =>
    rw [behind] at split
    exact split.symm
  | cons c value =>
    rw [behind] at split first
    have mark : c = '=' := by simpa using first
    rw [mark] at split
    simpa using split.symm

theorem separator_iff {arg : String} : arg.toList = ['-', '-'] ↔ arg = "--" := by
  show arg.toList = "--".toList ↔ arg = "--"
  exact String.toList_inj

variable {level : Level} {s u : State} {arg : String} {d : Demand}

theorem argument_value (value : IsValue arg) (unmarked : s.literal = false) : argument level s arg =
    if s.pending = .option then .ok { s with pending := .directory arg } else positional level s arg := by
  rw [argument, unmarked, if_neg Bool.false_ne_true]
  split
  · rename_i split
    exact absurd split (value _ _)
  · rename_i split
    exact absurd split (value _ _)
  · rename_i split
    exact absurd split (value _ _)
  · rfl

theorem argument_asks (asks : Asks level s.literal arg d) (fits : d.Fits s) (free : s.pending ≠ .option) :
    argument level s arg = s.settle.bind d.meet := by
  generalize behind : s.literal = literal at asks
  cases asks with
  | json => rw [argument, behind]; rfl
  | option => rw [argument, behind]; rfl
  | directory _ text =>
    have split : ("--dir=" ++ text).toList = '-' :: '-' :: 'd' :: 'i' :: 'r' :: '=' :: text.toList :=
      String.toList_append
    rw [argument, behind, if_neg Bool.false_ne_true, split]
    show (s.settle.bind fun t => t.setDirectory (.ofList text.toList)) = _
    rw [String.ofList_toList]
    rfl
  | number _ _ value =>
    have single : s.hasNumber = false := fits
    have taken : positional .change s arg = s.settle.bind (Demand.number arg).meet := by
      rw [positional, single]
      rfl
    rcases value with rfl | value
    · rw [argument, if_pos behind, taken]
    · cases literal with
      | true => rw [argument, if_pos behind, taken]
      | false => rw [argument_value value behind, if_neg free, taken]

theorem bind_ok {o : Except Stop State} {f : State → Except Stop State} (accepted : o.bind f = .ok u) :
    ∃ t, o = .ok t ∧ f t = .ok u := by
  cases o with
  | error stop => cases accepted
  | ok t => exact ⟨t, rfl, accepted⟩

-- Help and the version stop the reading, so no other flag is left.
theorem flag_json {name : String} {set : State → Except Stop State} (known : flag? level name = some set)
    (accepted : s.settle.bind set = .ok u) : level = .stats ∧ name = "json" := by
  obtain ⟨t, _, met⟩ := bind_ok accepted
  rw [flag?] at known
  split at known
  · obtain rfl := Option.some.inj known
    cases met
  · split at known
    · obtain rfl := Option.some.inj known
      cases met
    · split at known
      · rename_i json
        exact ⟨json.2, json.1⟩
      · cases known

theorem long_option_asks {cs : List Char} (accepted : longOption level s cs = .ok u) :
    ∃ d, Asks level false (.ofList ('-' :: '-' :: cs)) d ∧ d.Fits s := by
  have text := split_option_text cs
  rw [longOption] at accepted
  generalize splitOption cs = split at accepted text
  obtain ⟨name, value⟩ := split
  dsimp only at accepted text
  by_cases named : name = "dir"
  · subst named
    cases value with
    | none =>
      obtain rfl : cs = "dir".toList := by simpa using text
      exact ⟨.option, .option level, trivial⟩
    | some value =>
      obtain rfl : cs = "dir=".toList ++ value.toList := text
      have whole : String.ofList ('-' :: '-' :: ("dir=".toList ++ value.toList)) = "--dir=" ++ value := by
        apply String.toList_injective
        rw [String.toList_ofList, String.toList_append]
        rfl
      rw [whole]
      exact ⟨.directory value, .directory level value, trivial⟩
  · rw [if_neg named] at accepted
    cases known : flag? level name with
    | none =>
      rw [known] at accepted
      cases accepted
    | some set =>
      rw [known] at accepted
      cases value with
      | some value => cases accepted
      | none =>
        obtain ⟨rfl, rfl⟩ := flag_json known accepted
        obtain rfl : cs = "json".toList := by simpa using text
        exact ⟨.json, .json, trivial⟩

theorem short_options_refused {first : Char} {more : List Char} : shortOptions level s first more ≠ .ok u := by
  intro accepted
  rw [shortOptions] at accepted
  split at accepted
  · obtain ⟨_, _, met⟩ := bind_ok accepted
    cases met
  · split at accepted
    · obtain ⟨_, _, met⟩ := bind_ok accepted
      cases met
    · cases accepted

theorem positional_number (accepted : positional level s arg = .ok u) : level = .change ∧ s.hasNumber = false := by
  cases level with
  | top =>
    rw [positional] at accepted
    split at accepted <;> cases accepted
  | stats => cases accepted
  | change =>
    refine ⟨rfl, Bool.eq_false_iff.2 fun taken => ?_⟩
    rw [positional, if_pos taken] at accepted
    cases accepted

theorem argument_cases (accepted : argument level s arg = .ok u) (free : s.pending ≠ .option) :
    (s.literal = false ∧ arg = "--" ∧ u = { s with literal := true }) ∨
    ∃ d t, Asks level s.literal arg d ∧ d.Fits s ∧ s.settle = .ok t ∧ d.meet t = .ok u := by
  have met {d : Demand} (asks : Asks level s.literal arg d) (fits : d.Fits s) :
      ∃ d t, Asks level s.literal arg d ∧ d.Fits s ∧ s.settle = .ok t ∧ d.meet t = .ok u := by
    rw [argument_asks asks fits free] at accepted
    obtain ⟨t, settled, met⟩ := bind_ok accepted
    exact ⟨d, t, asks, fits, settled, met⟩
  cases literal : s.literal with
  | true =>
    rw [literal] at met
    have taken := accepted
    rw [argument, if_pos literal] at taken
    obtain ⟨rfl, single⟩ := positional_number taken
    exact .inr (met (.number true arg (.inl rfl)) single)
  | false =>
    rw [literal] at met
    have text := String.ofList_toList (s := arg)
    have taken := accepted
    rw [argument, literal, if_neg Bool.false_ne_true] at taken
    split at taken
    · rename_i mark
      exact .inl ⟨rfl, separator_iff.1 mark, (Except.ok.inj taken).symm⟩
    · rename_i cs split
      obtain ⟨d, asks, fits⟩ := long_option_asks taken
      rw [← split, text] at asks
      exact .inr (met asks fits)
    · exact absurd taken short_options_refused
    · rename_i value
      rw [if_neg free] at taken
      obtain ⟨rfl, single⟩ := positional_number taken
      exact .inr (met (.number false arg (.inr fun c cs => value c cs)) single)

end SprintLedger.CommandLine
