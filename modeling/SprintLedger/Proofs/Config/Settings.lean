import SprintLedger.Proofs.Config.Reading
import SprintLedger.Workspace

set_option autoImplicit false

namespace SprintLedger

open Json (RawMember Steps Whole)

namespace Config

-- What the members give under a key, if not more than one of them has it and that one gives a text.
inductive Given (key : String) : List RawMember → Option String → Prop where
  | missing : Given key [] none
  | other (m : RawMember) (ms : List RawMember) (found : Option String) (apart : ¬m.HasKey key)
      (rest : Given key ms found) : Given key (m :: ms) found
  | here (m : RawMember) (ms : List RawMember) (s : String) (named : m.HasKey key) (gives : m.Gives s)
      (rest : Given key ms none) : Given key (m :: ms) (some s)

variable {key : String} {m : RawMember} {ms : List RawMember} {found : Option String}

theorem has_key_unique {other : String} (named : m.HasKey key) (named' : m.HasKey other) : key = other := by
  have read := Json.string_complete named []
  rw [Json.string_complete named' []] at read
  exact (Prod.mk.inj (Except.ok.inj read)).1.symm

theorem given_other_iff (apart : ¬m.HasKey key) : Given key (m :: ms) found ↔ Given key ms found := by
  constructor
  · intro given
    cases given with
    | other _ _ _ _ rest => exact rest
    | here _ _ _ named => exact absurd named apart
  · exact .other m ms found apart

theorem given_here_iff (named : m.HasKey key) :
    Given key (m :: ms) found ↔ ∃ s, m.Gives s ∧ Given key ms none ∧ found = some s := by
  constructor
  · intro given
    cases given with
    | other _ _ _ apart => exact absurd named apart
    | here _ _ s _ gives rest => exact ⟨s, gives, rest, rfl⟩
  · intro given
    obtain ⟨s, gives, rest, rfl⟩ := given
    exact .here m ms s named gives rest

theorem given_none_iff : Given key ms none ↔ ∀ m ∈ ms, ¬m.HasKey key := by
  induction ms with
  | nil => exact ⟨fun _ => nofun, fun _ => .missing⟩
  | cons m ms ih =>
    rw [List.forall_mem_cons]
    by_cases named : m.HasKey key
    · simp [given_here_iff named, named]
    · rw [given_other_iff named, ih]
      exact ⟨fun others => ⟨named, others⟩, And.right⟩

theorem given_text (given : Given key ms found) (member : m ∈ ms) (named : m.HasKey key) :
    ∃ s, m.Gives s ∧ found = some s := by
  induction ms with
  | nil => cases member
  | cons n ms ih =>
    by_cases first : n.HasKey key
    · obtain ⟨s, gives, rest, rfl⟩ := (given_here_iff first).1 given
      rcases List.mem_cons.1 member with rfl | later
      · exact ⟨s, gives, rfl⟩
      · exact absurd named (given_none_iff.1 rest m later)
    · rcases List.mem_cons.1 member with rfl | later
      · exact absurd named first
      · exact ih ((given_other_iff first).1 given) later

theorem given_once {front rest : List RawMember} (given : Given key (front ++ m :: rest) found) (named : m.HasKey key) :
    ∀ other ∈ rest, ¬other.HasKey key := by
  induction front generalizing found with
  | nil =>
    obtain ⟨s, _, others, _⟩ := (given_here_iff named).1 given
    exact given_none_iff.1 others
  | cons n front ih =>
    by_cases first : n.HasKey key
    · obtain ⟨s, _, others, _⟩ := (given_here_iff first).1 given
      exact ih others
    · exact ih ((given_other_iff first).1 given)

theorem given_insert {front rest : List RawMember} (apart : ¬m.HasKey key) :
    Given key (front ++ m :: rest) found ↔ Given key (front ++ rest) found := by
  induction front generalizing found with
  | nil => exact given_other_iff apart
  | cons n front ih =>
    rw [List.cons_append, List.cons_append]
    by_cases first : n.HasKey key
    · rw [given_here_iff first, given_here_iff first, ih]
    · rw [given_other_iff first, given_other_iff first, ih]

def Says (ms : List RawMember) (key default value : String) : Prop :=
  (∃ m ∈ ms, m.HasKey key ∧ m.Gives value) ∨ ((∀ m ∈ ms, ¬m.HasKey key) ∧ value = default)

theorem given_some {s : String} (given : Given key ms (some s)) : ∃ m ∈ ms, m.HasKey key ∧ m.Gives s := by
  induction ms with
  | nil => cases given
  | cons m ms ih =>
    by_cases named : m.HasKey key
    · obtain ⟨t, gives, _, same⟩ := (given_here_iff named).1 given
      obtain rfl := Option.some.inj same
      exact ⟨m, List.mem_cons_self, named, gives⟩
    · obtain ⟨n, member, has⟩ := ih ((given_other_iff named).1 given)
      exact ⟨n, List.mem_cons_of_mem m member, has⟩

theorem given_value (given : Given key ms found) (default : String) : Says ms key default (found.getD default) := by
  cases found with
  | none => exact .inr ⟨given_none_iff.1 given, rfl⟩
  | some s => exact .inl (given_some given)

def Fills (key : String) (ms : List RawMember) (was now : Option String) : Prop :=
  ∃ found, Given key ms found ∧ (was = none ∨ found = none) ∧ now = was.or found

theorem fills_blank_iff : Fills key ms none found ↔ Given key ms found := by
  simp [Fills]

theorem fills_nil_iff {was now : Option String} : Fills key [] was now ↔ now = was := by
  constructor
  · intro filled
    obtain ⟨_, ⟨⟩, _, rfl⟩ := filled
    exact Option.or_none
  · intro same
    exact ⟨none, .missing, .inr rfl, same.trans Option.or_none.symm⟩

theorem fills_other_iff (apart : ¬m.HasKey key) {was now : Option String} :
    Fills key (m :: ms) was now ↔ Fills key ms was now := by
  simp only [Fills, given_other_iff apart]

theorem fills_here_iff (named : m.HasKey key) {was now : Option String} :
    Fills key (m :: ms) was now ↔ was = none ∧ ∃ s, m.Gives s ∧ Fills key ms (some s) now := by
  simp only [Fills, given_here_iff named]
  constructor
  · intro filled
    obtain ⟨_, ⟨s, gives, rest, rfl⟩, free, rfl⟩ := filled
    obtain rfl : was = none := free.resolve_right nofun
    exact ⟨rfl, s, gives, none, rest, .inr rfl, rfl⟩
  · intro filled
    obtain ⟨rfl, s, gives, found, rest, taken, rfl⟩ := filled
    obtain rfl : found = none := taken.resolve_left nofun
    exact ⟨some s, ⟨s, gives, rest, rfl⟩, .inl rfl, rfl⟩

namespace Draft

theorem put_setting {key other : String} (known : key ∈ knownKeys) (known' : other ∈ knownKeys) (d : Draft)
    (s : String) : (d.put key s).setting other = if other = key then some s else d.setting other := by
  rcases known_key_iff.1 known with rfl | rfl <;> rcases known_key_iff.1 known' with rfl | rfl <;> rfl

theorem draft_ext {d e : Draft} (same : ∀ key ∈ knownKeys, d.setting key = e.setting key) : d = e := by
  obtain ⟨directory, file⟩ := d
  obtain ⟨directory', file'⟩ := e
  obtain rfl : directory = directory' := same "sprints_dir" (by decide)
  obtain rfl : file = file' := same "ledger_file" (by decide)
  rfl

-- By induction on the members: each one is known and fills its setting, or leaves all of them alone.
theorem steps_iff {d d' : Draft} : Steps TakesMember d ms d' ↔
    (∀ m ∈ ms, ∃ key, m.HasKey key) ∧ ∀ key ∈ knownKeys, Fills key ms (d.setting key) (d'.setting key) := by
  induction ms generalizing d with
  | nil =>
    constructor
    · intro same
      obtain rfl : d' = d := same
      exact ⟨nofun, fun key _ => (fills_nil_iff).2 rfl⟩
    · intro filled
      exact draft_ext fun key member => (fills_nil_iff).1 (filled.2 key member)
  | cons m ms ih =>
    rw [List.forall_mem_cons]
    constructor
    · intro steps
      obtain ⟨next, ⟨k, named, taken⟩, rest⟩ := steps
      obtain ⟨keyed, fills⟩ := ih.1 rest
      refine ⟨⟨⟨k, named⟩, keyed⟩, fun key member => ?_⟩
      have filled := fills key member
      by_cases known : k ∈ knownKeys
      · rw [Takes, if_pos known] at taken
        obtain ⟨free, s, gives, rfl⟩ := taken
        rw [put_setting known member] at filled
        by_cases same : key = k
        · rw [if_pos same] at filled
          subst same
          exact (fills_here_iff named).2 ⟨free, s, gives, filled⟩
        · rw [if_neg same] at filled
          exact (fills_other_iff fun named' => same (has_key_unique named' named)).2 filled
      · rw [Takes, if_neg known] at taken
        obtain rfl : next = d := taken
        exact (fills_other_iff fun named' => known (has_key_unique named' named ▸ member)).2 filled
    · intro filled
      obtain ⟨⟨⟨k, named⟩, keyed⟩, fills⟩ := filled
      by_cases known : k ∈ knownKeys
      · obtain ⟨free, s, gives, filled⟩ := (fills_here_iff named).1 (fills k known)
        refine ⟨d.put k s, ⟨k, named, ?_⟩, ih.2 ⟨keyed, fun key member => ?_⟩⟩
        · rw [Takes, if_pos known]
          exact ⟨free, s, gives, rfl⟩
        · rw [put_setting known member]
          by_cases same : key = k
          · rw [if_pos same]
            exact same ▸ filled
          · rw [if_neg same]
            exact (fills_other_iff fun named' => same (has_key_unique named' named)).1 (fills key member)
      · refine ⟨d, ⟨k, named, ?_⟩, ih.2 ⟨keyed, fun key member => ?_⟩⟩
        · rw [Takes, if_neg known]
        · exact (fills_other_iff fun named' => known (has_key_unique named' named ▸ member)).1 (fills key member)

end Draft

def Accepted (ms : List RawMember) (c : Config) : Prop :=
  (∀ m ∈ ms, ∃ key, m.HasKey key) ∧ ∃ directory file, Given "sprints_dir" ms directory ∧ Given "ledger_file" ms file ∧
    (Draft.mk directory file).finish = c

theorem object_means_iff {d : Draft} : (Form.object ms).Means d ↔ (∀ m ∈ ms, ∃ key, m.HasKey key) ∧
    Given "sprints_dir" ms d.sprintsDirectory ∧ Given "ledger_file" ms d.ledgerFile := by
  have directory : Fills "sprints_dir" ms (Draft.blank.setting "sprints_dir") (d.setting "sprints_dir") ↔
      Given "sprints_dir" ms d.sprintsDirectory := fills_blank_iff
  have file : Fills "ledger_file" ms (Draft.blank.setting "ledger_file") (d.setting "ledger_file") ↔
      Given "ledger_file" ms d.ledgerFile := fills_blank_iff
  rw [Form.Means, Draft.steps_iff, ← directory, ← file]
  simp [knownKeys]

theorem object_text_iff {text : String} {c : Config} (whole : Whole (Form.Spells (.object ms)) text) :
    ofText text = .ok c ↔ Accepted ms c := by
  rw [of_text_iff]
  constructor
  · intro read
    obtain ⟨form, whole', d, meant, rfl⟩ := read
    obtain rfl := Json.whole_unique Form.spells_solid (Form.spells_told _) whole whole'
    obtain ⟨keyed, directory, file⟩ := object_means_iff.1 meant
    exact ⟨keyed, _, _, directory, file, rfl⟩
  · intro accepted
    obtain ⟨keyed, directory, file, first, second, rfl⟩ := accepted
    exact ⟨_, whole, ⟨directory, file⟩, object_means_iff.2 ⟨keyed, first, second⟩, rfl⟩

theorem array_means_iff {texts : List String} {d : Draft} :
    (Form.array texts).Means d ↔ texts.length ≤ 2 ∧ d = ⟨texts[0]?, texts[1]?⟩ := by
  match texts with
  | [] => simp [Form.Means, Steps, Draft.blank]
  | [s] => simp [Form.Means, Steps, Draft.TakesText, Draft.blank, Draft.put]
  | [s, t] => simp [Form.Means, Steps, Draft.TakesText, Draft.blank, Draft.put]
  | s :: t :: u :: more => simp [Form.Means, Steps, Draft.TakesText, Draft.blank, Draft.put]

theorem array_text_iff {texts : List String} {text : String} {c : Config}
    (whole : Whole (Form.Spells (.array texts)) text) :
    ofText text = .ok c ↔ texts.length ≤ 2 ∧ (Draft.mk texts[0]? texts[1]?).finish = c := by
  rw [of_text_iff]
  constructor
  · intro read
    obtain ⟨form, whole', d, meant, rfl⟩ := read
    obtain rfl := Json.whole_unique Form.spells_solid (Form.spells_told _) whole whole'
    obtain ⟨few, rfl⟩ := array_means_iff.1 meant
    exact ⟨few, rfl⟩
  · intro accepted
    obtain ⟨few, rfl⟩ := accepted
    exact ⟨_, whole, _, array_means_iff.2 ⟨few, rfl⟩, rfl⟩

-- Neither passed over nor replaced by a default.
def Refused (text : String) : Prop :=
  ∀ path : Path, ∃ fault, ofContent path (.text text) = .error (.malformedConfig path fault)

theorem refused_unaccepted {text : String} (whole : Whole (Form.Spells (.object ms)) text)
    (unfit : ∀ c, ¬Accepted ms c) : Refused text := by
  intro path
  cases read : ofText text with
  | ok c => exact absurd ((object_text_iff whole).1 read) (unfit c)
  | error fault => exact ⟨fault, by rw [ofContent, read]; rfl⟩

theorem accepted_given {c : Config} (accepted : Accepted ms c) (known : key ∈ knownKeys) :
    ∃ found, Given key ms found := by
  obtain ⟨_, directory, file, first, second, _⟩ := accepted
  rcases known_key_iff.1 known with rfl | rfl
  · exact ⟨directory, first⟩
  · exact ⟨file, second⟩

theorem accepted_insert_iff {front rest : List RawMember} {c : Config} (named : m.HasKey key)
    (unknown : key ∉ knownKeys) : Accepted (front ++ m :: rest) c ↔ Accepted (front ++ rest) c := by
  have apart {other : String} (known : other ∈ knownKeys) : ¬m.HasKey other := fun named' =>
    unknown (has_key_unique named named' ▸ known)
  have keyed : (∀ n ∈ front ++ m :: rest, ∃ key, n.HasKey key) ↔ ∀ n ∈ front ++ rest, ∃ key, n.HasKey key := by
    simp only [List.forall_mem_append, List.forall_mem_cons]
    exact ⟨fun all => ⟨all.1, all.2.2⟩, fun all => ⟨all.1, ⟨key, named⟩, all.2⟩⟩
  simp only [Accepted, keyed, given_insert (apart (known_key_iff.2 (.inl rfl))),
    given_insert (apart (known_key_iff.2 (.inr rfl)))]

-- As many members as texts, of which each has the known key and gives the text at its place.
def InOrder (texts : List String) (ms : List RawMember) : Prop :=
  ms.length = texts.length ∧ ∀ (i : Nat) (m : RawMember), ms[i]? = some m →
    ∃ key s, knownKeys[i]? = some key ∧ texts[i]? = some s ∧ m.HasKey key ∧ m.Gives s

theorem has_key_apart {other : String} (named : m.HasKey key) (apart : key ≠ other) : ¬m.HasKey other :=
  fun named' => apart (has_key_unique named named')

theorem in_order_few {texts : List String} (order : InOrder texts ms) : texts.length ≤ 2 := by
  obtain ⟨same, each⟩ := order
  match ms, same with
  | [], same => simp [← same]
  | [_], same => simp [← same]
  | [_, _], same => simp [← same]
  | _ :: _ :: m :: _, _ =>
    obtain ⟨_, _, ⟨⟩, _⟩ := each 2 m rfl

theorem in_order_accepted {texts : List String} (order : InOrder texts ms) :
    Accepted ms (Draft.mk texts[0]? texts[1]?).finish := by
  have few := in_order_few order
  obtain ⟨same, each⟩ := order
  have keyed : ∀ m ∈ ms, ∃ key, m.HasKey key := by
    intro m member
    obtain ⟨i, there⟩ := List.mem_iff_getElem?.1 member
    obtain ⟨key, _, _, _, named, _⟩ := each i m there
    exact ⟨key, named⟩
  match texts, ms, same with
  | [], [], _ => exact ⟨keyed, none, none, .missing, .missing, rfl⟩
  | [s], [m], _ =>
    obtain ⟨_, _, ⟨⟩, ⟨⟩, named, gives⟩ := each 0 m rfl
    exact ⟨keyed, some s, none, .here m [] s named gives .missing,
      .other m [] none (has_key_apart named (by decide)) .missing, rfl⟩
  | [s, t], [m, n], _ =>
    obtain ⟨_, _, ⟨⟩, ⟨⟩, named, gives⟩ := each 0 m rfl
    obtain ⟨_, _, ⟨⟩, ⟨⟩, named', gives'⟩ := each 1 n rfl
    have directory : Given "sprints_dir" [n] none := .other n [] none (has_key_apart named' (by decide)) .missing
    have file : Given "ledger_file" [n] (some t) := .here n [] t named' gives' .missing
    exact ⟨keyed, some s, some t, .here m [n] s named gives directory,
      .other m [n] (some t) (has_key_apart named (by decide)) file, rfl⟩
  | _ :: _ :: _ :: _, _, _ => exact absurd few (by simp)

theorem settings_alone_matter :
    (∀ text c, ofText text = .ok c → ∃ form : Form, Whole form.Spells text) ∧
    (∀ ms text c, Whole (Form.object ms).Spells text → ofText text = .ok c →
      Says ms "sprints_dir" standard.sprintsDirectory c.sprintsDirectory ∧
        Says ms "ledger_file" standard.ledgerFile c.ledgerFile) ∧
    (∀ front m rest text text' key, Whole (Form.object (front ++ rest)).Spells text →
      Whole (Form.object (front ++ m :: rest)).Spells text' → m.HasKey key → key ∉ knownKeys →
      ∀ c, ofText text' = .ok c ↔ ofText text = .ok c) ∧
    (∀ texts ms text text', Whole (Form.array texts).Spells text → Whole (Form.object ms).Spells text' →
      InOrder texts ms → ∃ c, ofText text = .ok c ∧ ofText text' = .ok c) ∧
    (∀ front m middle m' rest text, ∀ key ∈ knownKeys,
      Whole (Form.object (front ++ m :: (middle ++ m' :: rest))).Spells text → m.HasKey key → m'.HasKey key →
      Refused text) ∧
    (∀ ms text, ∀ m ∈ ms, ∀ key ∈ knownKeys, Whole (Form.object ms).Spells text → m.HasKey key →
      (∀ s, ¬m.Gives s) → Refused text) ∧
    ∀ (c : Config) (d : Path), Workspace.ofConfig c (some d) = ⟨d, d.join c.ledgerFile⟩ := by
  refine ⟨?_, ?_, ?_, ?_, ?_, ?_, ?_⟩
  · intro text c read
    obtain ⟨form, whole, _⟩ := of_text_iff.1 read
    exact ⟨form, whole⟩
  · intro ms text c whole read
    obtain ⟨_, directory, file, first, second, rfl⟩ := (object_text_iff whole).1 read
    exact ⟨given_value first _, given_value second _⟩
  · intro front m rest text text' key whole whole' named unknown c
    rw [object_text_iff whole', accepted_insert_iff named unknown, object_text_iff whole]
  · intro texts ms text text' whole whole' order
    have read := (array_text_iff whole).2 ⟨in_order_few order, rfl⟩
    exact ⟨_, read, (object_text_iff whole').2 (in_order_accepted order)⟩
  · intro front m middle m' rest text key known whole named named'
    refine refused_unaccepted whole fun c accepted => ?_
    obtain ⟨found, given⟩ := accepted_given accepted known
    exact given_once given named m' (by simp) named'
  · intro ms text m member key known whole named silent
    refine refused_unaccepted whole fun c accepted => ?_
    obtain ⟨found, given⟩ := accepted_given accepted known
    obtain ⟨s, gives, _⟩ := given_text given member named
    exact silent s gives
  · intro c d
    rfl

def memberText (m : RawMember) : List Char := '"' :: (m.1.text ++ ':' :: m.2.text)

def membersText : List RawMember → List Char
  | [] => ['}']
  | m :: ms => ',' :: (memberText m ++ membersText ms)

def objectText : List RawMember → String
  | [] => "{}"
  | m :: ms => .ofList ('{' :: (memberText m ++ membersText ms))

theorem member_text_spells (m : RawMember) : m.Spells (memberText m) :=
  ⟨'"' :: m.1.text, [], [], m.2.text, ⟨m.1.text, rfl, rfl⟩, Json.blank_nil, Json.blank_nil, rfl, rfl⟩

theorem members_text_continued (ms : List RawMember) :
    Json.Continued '}' (ms.map RawMember.Spells) (membersText ms) := by
  induction ms with
  | nil => exact ⟨[], Json.blank_nil, rfl⟩
  | cons m ms ih => exact ⟨[], [], _, _, Json.blank_nil, Json.blank_nil, member_text_spells m, ih, rfl⟩

theorem object_text_whole (ms : List RawMember) : Whole (Form.object ms).Spells (objectText ms) := by
  cases ms with
  | nil => exact ⟨[], _, [], Json.blank_nil, ⟨['}'], ⟨[], Json.blank_nil, rfl⟩, rfl⟩, Json.blank_nil, rfl⟩
  | cons m ms =>
    have listed : Json.Listed '}' ((m :: ms).map RawMember.Spells) (memberText m ++ membersText ms) :=
      ⟨[], _, _, Json.blank_nil, member_text_spells m, members_text_continued ms, rfl⟩
    exact ⟨[], _, [], Json.blank_nil, ⟨_, listed, rfl⟩, Json.blank_nil, by simp [objectText]⟩

-- Arrays in arrays, around half a surrogate pair and a number beyond every double.
def nestedText : Nat → List Char
  | 0 => "[\"\\ud800\",1e400]".toList
  | depth + 1 => '[' :: (nestedText depth ++ [']'])

theorem nested_text_nests (depth : Nat) : Json.NestsTo (depth + 1) (nestedText depth) := by
  induction depth with
  | zero =>
    have half : Json.Scalar "\"\\ud800\"".toList :=
      .string _ (.unit 0xd800 ['d', '8', '0', '0'] ['"'] ⟨_, _, _, _, 13, 8, 0, 0, rfl, rfl, rfl, rfl, rfl, rfl⟩ .done)
    have digits : Json.DigitText ['4', '0', '0'] := ⟨by simp, List.all_eq_true.1 rfl⟩
    have power : Json.ExponentSpells (some 400) "e400".toList :=
      ⟨'e', [], ['4', '0', '0'], .inl rfl, .inl rfl, digits, by decide, rfl⟩
    have whole : Json.WholeText ['1'] := ⟨⟨by simp, List.all_eq_true.1 rfl⟩, fun zero => by cases zero⟩
    have great : Json.Scalar "1e400".toList := .number ⟨false, ['1'], [], some 400⟩ _ ⟨_, whole, nofun, power, rfl⟩
    exact .inr (.inl ⟨2, _, ⟨[], _, _, Json.blank_nil, half, ⟨[], [], _, _, Json.blank_nil, Json.blank_nil, great,
      ⟨[], Json.blank_nil, rfl⟩, rfl⟩, rfl⟩, rfl⟩)
  | succ depth ih =>
    exact .inr (.inl ⟨1, _, ⟨[], _, _, Json.blank_nil, ih, ⟨[], Json.blank_nil, rfl⟩, rfl⟩, rfl⟩)

def nameOf (key : String) : Json.RawName :=
  ⟨key.toList.flatMap Json.escapeChar ++ ['"'], Json.quoted_closed (Json.escaped_text_quoted key.toList)⟩

theorem name_has_key (key : String) (value : Json.RawValue) : RawMember.HasKey (nameOf key, value) key :=
  Json.escaped_text_quoted key.toList

def planMember : RawMember :=
  (nameOf "sprints_dir", ⟨Json.stringText "plan", 0, Json.spelled_scalar (Json.string_text_spells "plan")⟩)

def nestedMember : RawMember := (nameOf "note", ⟨nestedText 200, 201, nested_text_nests 200⟩)

def nullMember : RawMember := (nameOf "sprints_dir", ⟨['n', 'u', 'l', 'l'], 0, .null⟩)

theorem plan_accepted : Accepted [planMember] ⟨"plan", "ledger.json"⟩ := by
  have named : planMember.HasKey "sprints_dir" := name_has_key _ _
  have gives : planMember.Gives "plan" := Json.string_text_spells "plan"
  refine ⟨List.forall_mem_singleton.2 ⟨_, named⟩, some "plan", none, ?_, ?_, rfl⟩
  · exact .here _ [] "plan" named gives .missing
  · exact .other _ [] none (has_key_apart named (by decide)) .missing

theorem nested_member_passed_over :
    ofText (objectText [nestedMember, planMember]) = .ok ⟨"plan", "ledger.json"⟩ ∧
    Refused (objectText [planMember, nestedMember, planMember]) ∧ Refused (objectText [nullMember]) := by
  obtain ⟨_, _, insert, _, repeated, silent, _⟩ := settings_alone_matter
  have plan := (object_text_iff (object_text_whole [planMember])).2 plan_accepted
  have unknown : "note" ∉ knownKeys := by decide
  have noText (s : String) : ¬nullMember.Gives s := by
    intro spelled
    obtain ⟨body, _, same⟩ := spelled
    cases same
  refine ⟨?_, ?_, ?_⟩
  · exact (insert [] nestedMember [planMember] _ _ _ (object_text_whole _) (object_text_whole _) (name_has_key _ _)
      unknown _).2 plan
  · exact repeated [] planMember [nestedMember] planMember [] _ "sprints_dir" (by decide) (object_text_whole _)
      (name_has_key _ _) (name_has_key _ _)
  · exact silent [nullMember] _ nullMember List.mem_cons_self "sprints_dir" (by decide) (object_text_whole _)
      (name_has_key _ _) noText

end Config

end SprintLedger
