import SprintLedger.Proofs.Json.Records

set_option autoImplicit false

namespace SprintLedger.Json

variable {ι : Type} {spells : ι → Language} {close : Char}

theorem same_front {before before' : List Char} {c d : Char} {cs ds : List Char} (blank : Blank before)
    (blank' : Blank before') (solid : isSpace c = false) (solid' : isSpace d = false)
    (same : before ++ c :: cs = before' ++ d :: ds) : c = d ∧ cs = ds := by
  have skipped := congrArg skipSpace same
  rw [skip_blank_solid blank solid, skip_blank_solid blank' solid'] at skipped
  exact List.cons.inj skipped

theorem same_item_front (solid : Solid spells) {i j : ι} {before before' a b r s : List Char} (blank : Blank before)
    (blank' : Blank before') (spelled : spells i a) (spelled' : spells j b)
    (same : before ++ (a ++ r) = before' ++ (b ++ s)) : a ++ r = b ++ s := by
  obtain ⟨c, tail, rfl, notBlank, _⟩ := solid i a spelled
  obtain ⟨d, tail', rfl, notBlank', _⟩ := solid j b spelled'
  rw [List.cons_append, List.cons_append] at same ⊢
  obtain ⟨rfl, rest⟩ := same_front blank blank' notBlank notBlank' same
  rw [rest]

-- No text of another item begins like one of this item, and none of its own goes on behind its end.
def Told (spells : ι → Language) (i : ι) : Prop :=
  ∀ (j : ι) (a b r s : List Char), spells i a → spells j b → EndsNumber r → EndsNumber s → a ++ r = b ++ s →
    i = j ∧ r = s

-- Two lists that begin with items have one first item, and go on at the same place.
theorem first_told (closing : IsClosing close) (solid : Solid spells) {i j : ι} {is js : List ι} (told : Told spells i)
    {before before' body body' tail tail' r s : List Char} (blank : Blank before) (blank' : Blank before')
    (item : spells i body) (item' : spells j body') (more : Continued close (is.map spells) tail)
    (more' : Continued close (js.map spells) tail')
    (same : before ++ (body ++ (tail ++ r)) = before' ++ (body' ++ (tail' ++ s))) :
    i = j ∧ tail ++ r = tail' ++ s :=
  told j _ _ _ _ item item' (continued_ends closing more r) (continued_ends closing more' s)
    (same_item_front solid blank blank' item item' same)

-- Behind an item stands a comma or the closing mark, so two lists in one text end at the same item.
theorem continued_told (closing : IsClosing close) (solid : Solid spells) {is js : List ι}
    (told : ∀ i ∈ is, Told spells i) {a b r s : List Char} (spelled : Continued close (is.map spells) a)
    (spelled' : Continued close (js.map spells) b) (same : a ++ r = b ++ s) : is = js ∧ r = s := by
  have closes := closing_solid closing
  induction is generalizing js a b with
  | nil =>
    obtain ⟨blank, all, rfl⟩ := spelled
    cases js with
    | nil =>
      obtain ⟨blank', all', rfl⟩ := spelled'
      rw [List.append_assoc, List.append_assoc] at same
      exact ⟨rfl, (same_front all all' closes closes same).2⟩
    | cons j js =>
      obtain ⟨after', before', body', tail', all', _, _, _, rfl⟩ := spelled'
      rw [List.append_assoc, List.append_assoc] at same
      exact absurd (same_front all all' closes rfl same).1.symm (closing_ne_comma closing)
  | cons i is ih =>
    obtain ⟨after, before, body, tail, all, blank, item, more, rfl⟩ := spelled
    cases js with
    | nil =>
      obtain ⟨blank', all', rfl⟩ := spelled'
      rw [List.append_assoc, List.append_assoc] at same
      exact absurd (same_front all all' rfl closes same).1 (closing_ne_comma closing)
    | cons j js =>
      obtain ⟨after', before', body', tail', all', blank', item', more', rfl⟩ := spelled'
      obtain ⟨first, rest⟩ := List.forall_mem_cons.1 told
      simp only [List.append_assoc, List.cons_append] at same
      have items := (same_front all all' rfl rfl same).2
      obtain ⟨rfl, tails⟩ := first_told closing solid first blank blank' item item' more more' items
      obtain ⟨rfl, ends⟩ := ih rest more more' tails
      exact ⟨rfl, ends⟩

theorem listed_told (closing : IsClosing close) (solid : Solid spells) {is js : List ι}
    (told : ∀ i ∈ is, Told spells i) {a b r s : List Char} (spelled : Listed close (is.map spells) a)
    (spelled' : Listed close (js.map spells) b) (same : a ++ r = b ++ s) : is = js ∧ r = s := by
  have closes := closing_solid closing
  -- An item does not begin with the mark that closes the list.
  have other {i : ι} {body : List Char} (item : spells i body) :
      ∃ c tail, body = c :: tail ∧ isSpace c = false ∧ c ≠ close := by
    obtain ⟨c, tail, rfl, notBlank, bracket, brace⟩ := solid i body item
    refine ⟨c, tail, rfl, notBlank, ?_⟩
    rcases closing with rfl | rfl
    · exact bracket
    · exact brace
  cases is with
  | nil =>
    obtain ⟨blank, all, rfl⟩ := spelled
    rw [List.append_assoc] at same
    cases js with
    | nil =>
      obtain ⟨blank', all', rfl⟩ := spelled'
      rw [List.append_assoc] at same
      exact ⟨rfl, (same_front all all' closes closes same).2⟩
    | cons j js =>
      obtain ⟨before', body', tail', blank', item', _, rfl⟩ := spelled'
      obtain ⟨c, cs, rfl, notBlank, apart⟩ := other item'
      rw [List.append_assoc] at same
      exact absurd (same_front all blank' closes notBlank same).1.symm apart
  | cons i is =>
    obtain ⟨before, body, tail, blank, item, more, rfl⟩ := spelled
    rw [List.append_assoc] at same
    cases js with
    | nil =>
      obtain ⟨blank', all', rfl⟩ := spelled'
      obtain ⟨c, cs, rfl, notBlank, apart⟩ := other item
      rw [List.cons_append, List.append_assoc] at same
      exact absurd (same_front blank all' notBlank closes same).1 apart
    | cons j js =>
      obtain ⟨before', body', tail', blank', item', more', rfl⟩ := spelled'
      obtain ⟨first, rest⟩ := List.forall_mem_cons.1 told
      simp only [List.append_assoc] at same
      obtain ⟨rfl, tails⟩ := first_told closing solid first blank blank' item item' more more' same
      obtain ⟨rfl, ends⟩ := continued_told closing solid rest more more' tails
      exact ⟨rfl, ends⟩

theorem named_member_told {ν β : Type} {names : ν → Language} {values : β → Language} {m : ν × β} (solid : Solid values)
    (name : ∀ (n : ν) (a b r s : List Char), names m.1 a → names n b → a ++ r = b ++ s → m.1 = n ∧ r = s)
    (told : Told values m.2) : Told (NamedMember names values) m := by
  rintro ⟨n', v'⟩ a b r s ⟨_, after, before, text, ⟨body, named, rfl⟩, all, blank, item, rfl⟩
    ⟨_, after', before', text', ⟨body', named', rfl⟩, all', blank', item', rfl⟩ ends ends' same
  obtain ⟨n, v⟩ := m
  simp only [List.append_assoc, List.cons_append, List.cons.injEq, true_and] at same
  obtain ⟨rfl, rest⟩ := name n' _ _ _ _ named named' same
  have behind := (same_front all all' rfl rfl rest).2
  obtain ⟨rfl, last⟩ := told v' _ _ _ _ item item' ends ends' (same_item_front solid blank blank' item item' behind)
  exact ⟨rfl, last⟩

theorem member_told {m : String × Value} (told : Told Value.Spells m.2) : Told MemberText m := by
  refine member_text_named ▸ named_member_told value_solid (fun k a b r s quoted quoted' same => ?_) told
  have read := string_complete quoted r
  rw [same, string_complete quoted'] at read
  simp only [Except.ok.injEq, Prod.mk.injEq] at read
  exact ⟨read.1.symm, read.2.symm⟩

theorem nested_cases {v : Value} (nested : v.depth ≠ 0) : (∃ vs, v = .array vs) ∨ ∃ ms, v = .object ms := by
  cases v with
  | null => exact absurd rfl nested
  | bool b => exact absurd rfl nested
  | number n => exact absurd rfl nested
  | string s => exact absurd rfl nested
  | array vs => exact .inl ⟨vs, rfl⟩
  | object ms => exact .inr ⟨ms, rfl⟩

theorem flat_alike {v w : Value} {a b r s : List Char} (spelled : v.Spells a) (spelled' : w.Spells b)
    (same : a ++ r = b ++ s) (flat : v.depth = 0) : w.depth = 0 := by
  apply Classical.byContradiction
  intro nested
  obtain ⟨c, tail, rfl, _, bracket, brace⟩ := flat_head flat spelled
  rcases nested_cases nested with ⟨vs, rfl⟩ | ⟨ms, rfl⟩
  · obtain ⟨body, _, rfl⟩ := spelled'
    exact bracket (List.cons.inj same).1
  · obtain ⟨body, _, rfl⟩ := spelled'
    exact brace (List.cons.inj same).1

theorem flat_told {v : Value} (flat : v.depth = 0) : Told Value.Spells v := by
  intro w a b r s spelled spelled' ends ends' same
  have read := read_scalar_complete flat spelled ends
  rw [same, read_scalar_complete (flat_alike spelled spelled' same flat) spelled' ends'] at read
  simp only [Except.ok.injEq, Prod.mk.injEq] at read
  exact ⟨read.1.symm, read.2.symm⟩

theorem array_told {vs : List Value} (told : ∀ v ∈ vs, Told Value.Spells v) : Told Value.Spells (.array vs) := by
  intro w a b r s spelled spelled' ends ends' same
  have nested : w.depth ≠ 0 := fun flat => Nat.succ_ne_zero _ (flat_alike spelled' spelled same.symm flat)
  obtain ⟨body, listed, rfl⟩ := spelled
  rcases nested_cases nested with ⟨ws, rfl⟩ | ⟨ms, rfl⟩
  · obtain ⟨body', listed', rfl⟩ := spelled'
    rw [Value.element_spellings_map] at listed listed'
    obtain ⟨rfl, rest⟩ := listed_told (.inl rfl) value_solid told listed listed' (List.cons.inj same).2
    exact ⟨rfl, rest⟩
  · obtain ⟨body', _, rfl⟩ := spelled'
    exact absurd (List.cons.inj same).1 (by decide)

theorem object_told {ms : List (String × Value)} (told : ∀ m ∈ ms, Told Value.Spells m.2) :
    Told Value.Spells (.object ms) := by
  intro w a b r s spelled spelled' ends ends' same
  have nested : w.depth ≠ 0 := fun flat => Nat.succ_ne_zero _ (flat_alike spelled' spelled same.symm flat)
  obtain ⟨body, listed, rfl⟩ := spelled
  rcases nested_cases nested with ⟨vs, rfl⟩ | ⟨ns, rfl⟩
  · obtain ⟨body', _, rfl⟩ := spelled'
    exact absurd (List.cons.inj same).1 (by decide)
  · obtain ⟨body', listed', rfl⟩ := spelled'
    rw [Value.member_spellings_map] at listed listed'
    obtain ⟨rfl, rest⟩ := listed_told (.inr rfl) member_solid (fun m member => member_told (told m member)) listed
      listed' (List.cons.inj same).2
    exact ⟨rfl, rest⟩

mutual

theorem value_told : ∀ v : Value, Told Value.Spells v
  | .null => flat_told rfl
  | .bool _ => flat_told rfl
  | .number _ => flat_told rfl
  | .string _ => flat_told rfl
  | .array vs => array_told (elements_told vs)
  | .object ms => object_told (members_told ms)

theorem elements_told : ∀ vs : List Value, ∀ v ∈ vs, Told Value.Spells v
  | [] => nofun
  | v :: vs => List.forall_mem_cons.2 ⟨value_told v, elements_told vs⟩

theorem members_told : ∀ ms : List (String × Value), ∀ m ∈ ms, Told Value.Spells m.2
  | [] => nofun
  | (_, v) :: ms => List.forall_mem_cons.2 ⟨value_told v, members_told ms⟩

end

theorem string_told (s : String) : Told StringSpells s := by
  intro t a b r r' spelled spelled' ends ends' same
  obtain ⟨value, rest⟩ := value_told (.string s) (.string t) a b r r' spelled spelled' ends ends' same
  exact ⟨Value.string.inj value, rest⟩

theorem whole_unique (solid : Solid spells) {i j : ι} (told : Told spells i) {text : String}
    (first : Whole (spells i) text) (second : Whole (spells j) text) : i = j := by
  obtain ⟨before, body, after, blank, spelled, last, split⟩ := first
  obtain ⟨before', body', after', blank', spelled', last', split'⟩ := second
  have bodies := same_item_front solid blank blank' spelled spelled' (split.symm.trans split')
  exact (told j _ _ _ _ spelled spelled' (blank_ends last) (blank_ends last') bodies).1

theorem document_unique {v w : Value} {text : String} (first : Document v text) (second : Document w text) : v = w :=
  whole_unique value_solid (value_told v) first second

end SprintLedger.Json
