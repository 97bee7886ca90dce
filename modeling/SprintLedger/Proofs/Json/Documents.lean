import SprintLedger.Proofs.Json.Reading

set_option autoImplicit false

namespace SprintLedger.Json

theorem read_keyword_iff {word cs rest : List Char} : readKeyword word cs = .ok rest ↔ cs = word ++ rest := by
  induction word generalizing cs with
  | nil => simp [readKeyword]
  | cons w word ih =>
    cases cs with
    | nil => simp [readKeyword]
    | cons c cs =>
      by_cases same : c = w
      · simp [readKeyword, same, ih]
      · simp [readKeyword, same]

theorem read_literal_iff {α : Type} {word cs rest : List Char} {a b : α} :
    readLiteral word a cs = .ok (b, rest) ↔ b = a ∧ cs = word ++ rest := by
  unfold readLiteral
  rw [bind_eq_ok]
  simp only [read_keyword_iff, Except.ok.injEq, Prod.mk.injEq]
  constructor
  · rintro ⟨r, rfl, rfl, rfl⟩
    exact ⟨rfl, rfl⟩
  · rintro ⟨rfl, rfl⟩
    exact ⟨rest, rfl, rfl, rfl⟩

theorem flat_normal {v : Value} (flat : v.depth = 0) : v.normal = v := by
  cases v with
  | null => rfl
  | bool b => rfl
  | number n => rfl
  | string s => rfl
  | array vs => cases flat
  | object ms => cases flat

theorem read_scalar_sound {cs rest : List Char} {v : Value} (read : readScalar cs = .ok (v, rest)) :
    ∃ body, v.Spells body ∧ v.depth = 0 ∧ cs = body ++ rest := by
  unfold readScalar at read
  split at read
  · cases read
  · rename_i c tail
    split at read
    · rename_i quote
      obtain ⟨s, stringRead, rfl⟩ := Outcome.map_eq_ok.1 read
      obtain ⟨body, quoted, rfl⟩ := string_sound stringRead
      exact ⟨'"' :: body, ⟨body, quoted, rfl⟩, rfl, by rw [quote]; rfl⟩
    split at read
    · rename_i first
      obtain ⟨rfl, rfl⟩ := read_literal_iff.1 read
      exact ⟨['n', 'u', 'l', 'l'], rfl, rfl, by rw [first]; rfl⟩
    split at read
    · rename_i first
      obtain ⟨rfl, rfl⟩ := read_literal_iff.1 read
      exact ⟨['t', 'r', 'u', 'e'], rfl, rfl, by rw [first]; rfl⟩
    split at read
    · rename_i first
      obtain ⟨rfl, rfl⟩ := read_literal_iff.1 read
      exact ⟨['f', 'a', 'l', 's', 'e'], rfl, rfl, by rw [first]; rfl⟩
    split at read
    · obtain ⟨n, numberRead, rfl⟩ := Outcome.map_eq_ok.1 read
      obtain ⟨body, spelled, split⟩ := number_sound numberRead
      exact ⟨body, spelled, rfl, split⟩
    · cases read

theorem read_scalar_complete {v : Value} {body rest : List Char} (flat : v.depth = 0)
    (spelled : v.Spells body) (ends : EndsNumber rest) : readScalar (body ++ rest) = .ok (v, rest) := by
  cases v with
  | null =>
    obtain rfl : body = ['n', 'u', 'l', 'l'] := spelled
    rfl
  | bool b =>
    obtain rfl : body = boolText b := spelled
    cases b <;> rfl
  | number n =>
    have numberRead := number_complete spelled ends
    obtain ⟨c, tail, rfl, first⟩ := number_spells_head spelled
    have quote : c ≠ '"' := number_head_ne first (by decide)
    have null : c ≠ 'n' := number_head_ne first (by decide)
    have yes : c ≠ 't' := number_head_ne first (by decide)
    have no : c ≠ 'f' := number_head_ne first (by decide)
    have digit : c = '-' ∨ c.isDigit = true := first
    rw [List.cons_append] at numberRead ⊢
    rw [readScalar, if_neg quote, if_neg null, if_neg yes, if_neg no, if_pos digit, numberRead]
    rfl
  | string s =>
    obtain ⟨body, quoted, rfl⟩ := spelled
    rw [List.cons_append, readScalar, if_pos rfl, string_complete quoted]
    rfl
  | array vs => cases flat
  | object ms => cases flat

theorem string_solid : Solid StringSpells := by
  intro s body spelled
  obtain ⟨tail, _, rfl⟩ := spelled
  exact ⟨_, _, rfl, by decide⟩

theorem value_solid : Solid Value.Spells := by
  intro v body spelled
  cases v with
  | null => exact ⟨_, _, spelled, by decide⟩
  | bool b =>
    obtain rfl : body = boolText b := spelled
    cases b with
    | true => exact ⟨_, _, rfl, by decide⟩
    | false => exact ⟨_, _, rfl, by decide⟩
  | number n =>
    obtain ⟨c, tail, rfl, first⟩ := number_spells_head spelled
    exact ⟨c, tail, rfl, number_head_solid first, number_head_ne first (by decide),
      number_head_ne first (by decide)⟩
  | string s => exact string_solid s body spelled
  | array vs =>
    obtain ⟨tail, _, rfl⟩ := spelled
    exact ⟨_, _, rfl, by decide⟩
  | object ms =>
    obtain ⟨tail, _, rfl⟩ := spelled
    exact ⟨_, _, rfl, by decide⟩

-- Only the mark of an array or an object begins a value that holds others.
theorem flat_head {v : Value} {body : List Char} (flat : v.depth = 0) (spelled : v.Spells body) :
    ∃ c tail, body = c :: tail ∧ isSpace c = false ∧ c ≠ '[' ∧ c ≠ '{' := by
  cases v with
  | null => exact ⟨_, _, spelled, by decide⟩
  | bool b =>
    obtain rfl : body = boolText b := spelled
    cases b with
    | true => exact ⟨_, _, rfl, by decide⟩
    | false => exact ⟨_, _, rfl, by decide⟩
  | number n =>
    obtain ⟨c, tail, rfl, first⟩ := number_spells_head spelled
    exact ⟨c, tail, rfl, number_head_solid first, number_head_ne first (by decide),
      number_head_ne first (by decide)⟩
  | string s =>
    obtain ⟨tail, _, rfl⟩ := spelled
    exact ⟨_, _, rfl, by decide⟩
  | array vs => cases flat
  | object ms => cases flat

theorem read_value_scalar {inner : Option (Reader Value)} {cs rest : List Char} {c : Char}
    (skipped : skipSpace cs = c :: rest) (bracket : c ≠ '[') (brace : c ≠ '{') :
    readValueWith inner cs = readScalar (c :: rest) := by
  unfold readValueWith
  rw [skipped]
  split <;> simp_all

theorem flat_complete {inner : Option (Reader Value)} {v : Value} {before body rest : List Char}
    (blank : Blank before) (flat : v.depth = 0) (spelled : v.Spells body) (ends : EndsNumber rest) :
    readValueWith inner (before ++ (body ++ rest)) = .ok (v, rest) := by
  have scalar := read_scalar_complete flat spelled ends
  obtain ⟨c, tail, rfl, solid, bracket, brace⟩ := flat_head flat spelled
  rw [List.cons_append] at scalar ⊢
  rw [read_value_scalar (skip_blank_solid blank solid) bracket brace, scalar]

-- What a reader of values of limited depth makes of a value.
def Means (depth : Nat) (v a : Value) : Prop := v.depth ≤ depth ∧ a = v.normal

theorem means_flat {d : Nat} {v : Value} (flat : v.depth = 0) : Means d v v :=
  ⟨flat ▸ Nat.zero_le d, (flat_normal flat).symm⟩

section Inner

variable {d : Nat} {item : Reader Value}

def TakesElement (depth : Nat) (as : List Value) (v : Value) (as' : List Value) : Prop :=
  ∃ a, Means depth v a ∧ a :: as = as'

theorem steps_elements {as as' vs : List Value} :
    Steps (TakesElement d) as vs as' ↔
      (∀ v ∈ vs, v.depth ≤ d) ∧ as' = (Value.normalElements vs).reverse ++ as := by
  induction vs generalizing as with
  | nil => simp [Steps, Value.normalElements]
  | cons v vs ih =>
    simp only [Steps, TakesElement, Means, ih, Value.normalElements, List.reverse_cons, List.forall_mem_cons]
    constructor
    · rintro ⟨_, ⟨_, ⟨first, rfl⟩, rfl⟩, rest, rfl⟩
      exact ⟨⟨first, rest⟩, by simp⟩
    · rintro ⟨⟨first, rest⟩, rfl⟩
      exact ⟨_, ⟨_, ⟨first, rfl⟩, rfl⟩, rest, by simp⟩

theorem elements_sound (reads : Transcribes item Value.Spells (Means d)) {cs rest : List Char}
    {as : List Value} (read : readElements item cs = .ok (as, rest)) :
    ∃ vs body, Listed ']' (Value.elementSpellings vs) body ∧ (∀ v ∈ vs, v.depth ≤ d) ∧
      as = Value.normalElements vs ∧ cs = body ++ rest := by
  obtain ⟨_, enclosed, rfl⟩ := Outcome.map_eq_ok.1 read
  obtain ⟨vs, body, listed, steps, split⟩ := enclosed_sound (fun as => reads.map (· :: as)) enclosed
  obtain ⟨shallow, rfl⟩ := steps_elements.1 steps
  rw [← Value.element_spellings_map] at listed
  exact ⟨vs, body, listed, shallow, by simp, split⟩

theorem elements_complete (reads : Transcribes item Value.Spells (Means d)) {vs : List Value}
    {body : List Char} (listed : Listed ']' (Value.elementSpellings vs) body)
    (shallow : ∀ v ∈ vs, v.depth ≤ d) (rest : List Char) :
    readElements item (body ++ rest) = .ok (Value.normalElements vs, rest) := by
  rw [Value.element_spellings_map] at listed
  have steps : Steps (TakesElement d) [] vs ((Value.normalElements vs).reverse ++ []) :=
    steps_elements.2 ⟨shallow, rfl⟩
  have enclosed := enclosed_complete (.inl rfl) value_solid (fun as => reads.map (· :: as)) listed steps rest
  exact Outcome.map_eq_ok.2 ⟨_, enclosed, by simp⟩

def TakesMember (depth : Nat) (ms : SortedMap Value) (m : String × Value) (ms' : SortedMap Value) : Prop :=
  ∃ a, Means depth m.2 a ∧ ms.insert m.1 a = ms'

theorem steps_members {ms ms' : SortedMap Value} {raw : List (String × Value)} :
    Steps (TakesMember d) ms raw ms' ↔
      (∀ m ∈ raw, m.2.depth ≤ d) ∧ ms' = ms.ofBindings (Value.normalMembers raw) := by
  induction raw generalizing ms with
  | nil => simp [Steps, Value.normalMembers]
  | cons m raw ih =>
    obtain ⟨k, v⟩ := m
    simp only [Steps, TakesMember, Means, ih, Value.normalMembers, SortedMap.of_bindings_cons,
      List.forall_mem_cons]
    constructor
    · rintro ⟨_, ⟨_, ⟨first, rfl⟩, rfl⟩, rest, rfl⟩
      exact ⟨⟨first, rest⟩, rfl⟩
    · rintro ⟨⟨first, rest⟩, rfl⟩
      exact ⟨_, ⟨_, ⟨first, rfl⟩, rfl⟩, rest, rfl⟩

theorem insert_reads (reads : Transcribes item Value.Spells (Means d)) :
    FieldReads (fun ms key => .ok (item.map (SortedMap.insert ms key))) (TakesMember d) :=
  fun ms key => reads.map (SortedMap.insert ms key)

theorem inner_sound (reads : Transcribes item Value.Spells (Means d)) {cs rest : List Char} {a : Value}
    (read : readValueWith (some item) cs = .ok (a, rest)) :
    ∃ v before body, Blank before ∧ v.Spells body ∧ Means (d + 1) v a ∧ cs = before ++ (body ++ rest) := by
  obtain ⟨before, blank, split⟩ := skip_space_split cs
  unfold readValueWith at read
  split at read
  · rename_i tail skipped
    obtain ⟨as, elementsRead, rfl⟩ := Outcome.map_eq_ok.1 read
    obtain ⟨vs, body, listed, shallow, rfl, rfl⟩ := elements_sound reads elementsRead
    refine ⟨.array vs, before, '[' :: body, blank, ⟨body, listed, rfl⟩, ⟨?_, rfl⟩, ?_⟩
    · exact Value.array_depth_le.2 shallow
    · rw [split, skipped]
      rfl
  · rename_i tail skipped
    obtain ⟨ms, membersRead, rfl⟩ := Outcome.map_eq_ok.1 read
    obtain ⟨raw, body, listed, steps, rfl⟩ := members_sound (insert_reads reads) membersRead
    obtain ⟨shallow, rfl⟩ := steps_members.1 steps
    refine ⟨.object raw, before, '{' :: body, blank, ⟨body, listed, rfl⟩, ⟨?_, rfl⟩, ?_⟩
    · exact Value.object_depth_le.2 shallow
    · rw [split, skipped]
      rfl
  · obtain ⟨body, spelled, flat, rest'⟩ := read_scalar_sound read
    exact ⟨a, before, body, blank, spelled, means_flat flat, rest' ▸ split⟩

theorem inner_complete (reads : Transcribes item Value.Spells (Means d)) {v a : Value}
    {before body rest : List Char} (blank : Blank before) (spelled : v.Spells body)
    (meant : Means (d + 1) v a) (ends : EndsNumber rest) :
    readValueWith (some item) (before ++ (body ++ rest)) = .ok (a, rest) := by
  obtain ⟨shallow, rfl⟩ := meant
  cases v with
  | null => exact flat_complete blank rfl spelled ends
  | bool b => exact flat_complete blank rfl spelled ends
  | number n => exact flat_complete blank rfl spelled ends
  | string s => exact flat_complete blank rfl spelled ends
  | array vs =>
    obtain ⟨body, listed, rfl⟩ := spelled
    have elementsRead := elements_complete reads listed (Value.array_depth_le.1 shallow) rest
    have bracket : isSpace '[' = false := rfl
    simp only [readValueWith, List.cons_append, skip_blank_solid blank bracket, elementsRead]
    rfl
  | object ms =>
    obtain ⟨body, listed, rfl⟩ := spelled
    have steps : Steps (TakesMember d) .empty ms (SortedMap.empty.ofBindings (Value.normalMembers ms)) :=
      steps_members.2 ⟨Value.object_depth_le.1 shallow, rfl⟩
    have membersRead := members_complete (insert_reads reads) listed steps rest
    have brace : isSpace '{' = false := rfl
    simp only [readValueWith, List.cons_append, skip_blank_solid blank brace, membersRead]
    rfl

end Inner

theorem value_reads (d : Nat) : Transcribes (value d) Value.Spells (Means d) := by
  induction d with
  | zero =>
    constructor
    · intro cs rest a read
      obtain ⟨before, blank, split⟩ := skip_space_split cs
      simp only [value, readValueWith] at read
      split at read
      · cases read
      · cases read
      · obtain ⟨body, spelled, flat, rest'⟩ := read_scalar_sound read
        exact ⟨a, before, body, blank, spelled, means_flat flat, rest' ▸ split⟩
    · intro v a before body rest blank spelled meant ends
      obtain ⟨shallow, rfl⟩ := meant
      have flat : v.depth = 0 := Nat.le_zero.1 shallow
      show readValueWith none (before ++ (body ++ rest)) = .ok (v.normal, rest)
      rw [flat_normal flat, flat_complete blank flat spelled ends]
  | succ d ih => exact ⟨inner_sound ih, inner_complete ih⟩

end SprintLedger.Json
