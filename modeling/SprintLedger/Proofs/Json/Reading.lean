import SprintLedger.Proofs.Json.Numerals
import SprintLedger.Proofs.Json.Strings
import SprintLedger.Proofs.Json.Values

set_option autoImplicit false

namespace SprintLedger.Json

variable {ι α β σ : Type}

theorem skip_blank {before cs : List Char} (blank : Blank before) :
    skipSpace (before ++ cs) = skipSpace cs :=
  List.dropWhile_append_of_pos blank

theorem skip_solid {c : Char} {cs : List Char} (solid : isSpace c = false) :
    skipSpace (c :: cs) = c :: cs := by
  simp [skipSpace, solid]

theorem skip_blank_solid {before : List Char} {c : Char} {cs : List Char} (blank : Blank before)
    (solid : isSpace c = false) : skipSpace (before ++ c :: cs) = c :: cs := by
  rw [skip_blank blank, skip_solid solid]

theorem skip_space_split (cs : List Char) : ∃ before, Blank before ∧ cs = before ++ skipSpace cs := by
  refine ⟨cs.takeWhile isSpace, fun c member => ?_, List.takeWhile_append_dropWhile.symm⟩
  exact List.all_eq_true.1 (List.all_takeWhile (p := isSpace)) c member

theorem expect_sound {mark : Char} {cs rest : List Char} (read : expect mark cs = .ok rest) :
    ∃ before, Blank before ∧ cs = before ++ mark :: rest := by
  obtain ⟨before, blank, split⟩ := skip_space_split cs
  unfold expect at read
  split at read
  · cases read
  · rename_i c tail skipped
    split at read
    · rename_i same
      rw [skipped, same, Except.ok.inj read] at split
      exact ⟨before, blank, split⟩
    · cases read

theorem expect_complete {mark : Char} {before : List Char} (blank : Blank before)
    (solid : isSpace mark = false) (rest : List Char) :
    expect mark (before ++ mark :: rest) = .ok rest := by
  simp [expect, skip_blank_solid blank solid]

-- A reader that takes the texts of a language, with blanks before them, for what they mean.
structure Transcribes (r : Reader α) (spells : ι → Language) (means : ι → α → Prop) : Prop where
  sound : ∀ {cs rest : List Char} {a : α}, r.run cs = .ok (a, rest) →
    ∃ i before body, Blank before ∧ spells i body ∧ means i a ∧ cs = before ++ (body ++ rest)
  complete : ∀ {i : ι} {a : α} {before body rest : List Char}, Blank before → spells i body →
    means i a → EndsNumber rest → r.run (before ++ (body ++ rest)) = .ok (a, rest)

theorem Transcribes.map {r : Reader α} {spells : ι → Language} {means : ι → α → Prop}
    (reads : Transcribes r spells means) (f : α → β) :
    Transcribes (r.map f) spells (fun i b => ∃ a, means i a ∧ f a = b) where
  sound read := by
    obtain ⟨a, inner, rfl⟩ := Outcome.map_eq_ok.1 read
    obtain ⟨i, before, body, blank, spelled, meant, split⟩ := reads.sound inner
    exact ⟨i, before, body, blank, spelled, ⟨a, meant, rfl⟩, split⟩
  complete blank spelled meant ends := by
    obtain ⟨a, inner, rfl⟩ := meant
    exact Outcome.map_eq_ok.2 ⟨a, reads.complete blank spelled inner ends, rfl⟩

theorem Transcribes.imp {r : Reader α} {spells : ι → Language} {means means' : ι → α → Prop}
    (reads : Transcribes r spells means) (same : ∀ i a, means i a ↔ means' i a) :
    Transcribes r spells means' := by
  obtain rfl : means = means' := funext fun i => funext fun a => propext (same i a)
  exact reads

theorem refuse_reads {spells : ι → Language} (fault : Fault) :
    Transcribes (Reader.refuse fault : Reader α) spells fun _ _ => False where
  sound read := by cases read
  complete _ _ never _ := never.elim

theorem Transcribes.respell {κ : Type} {r : Reader α} {spells : ι → Language} {means : ι → α → Prop}
    {spells' : κ → Language} {means' : κ → α → Prop} (reads : Transcribes r spells means)
    (same : ∀ body a, (∃ i, spells i body ∧ means i a) ↔ ∃ k, spells' k body ∧ means' k a) :
    Transcribes r spells' means' where
  sound read := by
    obtain ⟨i, before, body, blank, spelled, meant, split⟩ := reads.sound read
    obtain ⟨k, spelled', meant'⟩ := (same body _).1 ⟨i, spelled, meant⟩
    exact ⟨k, before, body, blank, spelled', meant', split⟩
  complete blank spelled meant ends := by
    obtain ⟨i, spelled', meant'⟩ := (same _ _).2 ⟨_, spelled, meant⟩
    exact reads.complete blank spelled' meant' ends

-- No text of an item begins with a blank or a closing mark, so that a reader can tell it from both.
def Solid (spells : ι → Language) : Prop :=
  ∀ i body, spells i body → ∃ c tail, body = c :: tail ∧ isSpace c = false ∧ c ≠ ']' ∧ c ≠ '}'

-- One item after another, each taken up into what the ones before it gave.
def Steps (takes : σ → ι → σ → Prop) : σ → List ι → σ → Prop
  | s, [], s' => s' = s
  | s, i :: is, s' => ∃ m, takes s i m ∧ Steps takes m is s'

theorem steps_append {takes : σ → ι → σ → Prop} {s s' : σ} {is js : List ι} :
    Steps takes s (is ++ js) s' ↔ ∃ m, Steps takes s is m ∧ Steps takes m js s' := by
  induction is generalizing s with
  | nil => simp [Steps]
  | cons i is ih =>
    simp only [List.cons_append, Steps, ih]
    constructor
    · rintro ⟨m, taken, m', first, second⟩
      exact ⟨m', ⟨m, taken, first⟩, second⟩
    · rintro ⟨m', ⟨m, taken, first⟩, second⟩
      exact ⟨m, taken, m', first, second⟩

theorem steps_forall {takes : σ → ι → σ → Prop} (p : ι → Prop)
    (each : ∀ {s i s'}, takes s i s' → p i) {s s' : σ} {is : List ι}
    (steps : Steps takes s is s') : ∀ i ∈ is, p i := by
  induction is generalizing s with
  | nil => nofun
  | cons i is ih =>
    obtain ⟨m, taken, rest⟩ := steps
    exact List.forall_mem_cons.2 ⟨each taken, ih rest⟩

theorem steps_keep {takes : σ → ι → σ → Prop} (p : σ → Prop)
    (keeps : ∀ {s i s'}, takes s i s' → p s → p s') {s s' : σ} {is : List ι}
    (steps : Steps takes s is s') (holds : p s) : p s' := by
  induction is generalizing s with
  | nil =>
    obtain rfl : s' = s := steps
    exact holds
  | cons i is ih =>
    obtain ⟨m, taken, rest⟩ := steps
    exact ih rest (keeps taken holds)

def IsClosing (close : Char) : Prop := close = ']' ∨ close = '}'

theorem closing_solid {close : Char} (closing : IsClosing close) : isSpace close = false := by
  rcases closing with rfl | rfl <;> rfl

theorem closing_ne_comma {close : Char} (closing : IsClosing close) : ',' ≠ close := by
  rcases closing with rfl | rfl <;> decide

theorem ends_number_cons {c : Char} {cs : List Char} (mark : isSpace c = true ∨ c = ',' ∨ IsClosing c) :
    EndsNumber (c :: cs) := by
  intro d first
  obtain rfl : c = d := Option.some.inj first
  simp only [isSpace, Bool.or_eq_true, decide_eq_true_eq, IsClosing] at mark
  rcases mark with ((((rfl | rfl) | rfl) | rfl)) | rfl | rfl | rfl <;> decide

theorem ends_number_blank {blank cs : List Char} (all : Blank blank) (ends : EndsNumber cs) :
    EndsNumber (blank ++ cs) := by
  cases blank with
  | nil => exact ends
  | cons c blank => exact ends_number_cons (.inl (all c (List.mem_cons_self ..)))

theorem blank_ends {blank : List Char} (all : Blank blank) : EndsNumber blank := by
  have ends : EndsNumber (blank ++ []) := ends_number_blank all nofun
  rwa [List.append_nil] at ends

theorem continued_ends {close : Char} (closing : IsClosing close) {items : List Language}
    {tail : List Char} (spelled : Continued close items tail) (rest : List Char) :
    EndsNumber (tail ++ rest) := by
  cases items with
  | nil =>
    obtain ⟨blank, all, rfl⟩ := spelled
    rw [List.append_assoc]
    exact ends_number_blank all (ends_number_cons (.inr (.inr closing)))
  | cons item items =>
    obtain ⟨after, before, body, tail, all, _, _, _, rfl⟩ := spelled
    rw [List.append_assoc]
    exact ends_number_blank all (ends_number_cons (.inr (.inl rfl)))

section Loop

variable {close : Char} {step : σ → Reader σ} {spells : ι → Language} {takes : σ → ι → σ → Prop}

theorem separated_sound (each : ∀ s, Transcribes (step s) spells (takes s)) {s s' : σ}
    {cs rest : List Char} (read : readSeparated close step s cs = .ok (s', rest)) :
    ∃ i is before body tail, Blank before ∧ spells i body ∧ Continued close (is.map spells) tail ∧
      Steps takes s (i :: is) s' ∧ cs = before ++ (body ++ (tail ++ rest)) := by
  fun_induction readSeparated close step s cs with
  | case1 => cases read
  | case2 => cases read
  | case3 s cs m r stepRead _ r' skipped =>
    simp only [Except.ok.injEq, Prod.mk.injEq] at read
    obtain ⟨rfl, rfl⟩ := read
    obtain ⟨i, before, body, blank, spelled, taken, rfl⟩ := (each s).sound stepRead
    obtain ⟨after, blank', split⟩ := skip_space_split r
    refine ⟨i, [], before, body, after ++ [close], blank, spelled, ⟨after, blank', rfl⟩, ?_, ?_⟩
    · exact ⟨m, taken, rfl⟩
    · rw [split, skipped]
      simp
  | case4 s cs m r stepRead _ r' skipped _ _ ih =>
    obtain ⟨j, is, before', body', tail, blankJ, spelledJ, continued, steps, rfl⟩ := ih read
    obtain ⟨i, before, body, blank, spelled, taken, rfl⟩ := (each s).sound stepRead
    obtain ⟨after, blank', split⟩ := skip_space_split r
    refine ⟨i, j :: is, before, body, after ++ ',' :: (before' ++ (body' ++ tail)), blank, spelled, ?_, ?_, ?_⟩
    · exact ⟨after, before', body', tail, blank', blankJ, spelledJ, continued, rfl⟩
    · exact ⟨m, taken, steps⟩
    · rw [split, skipped]
      simp
  | case5 => cases read

theorem read_separated_step {s m : σ} {c : Char} {cs r rest : List Char}
    (stepRead : (step s).run cs = .ok (m, r)) (skipped : skipSpace r = c :: rest) :
    readSeparated close step s cs =
      if c = close then .ok (m, rest)
      else if c = ',' then readSeparated close step m rest
      else .error .malformed := by
  rw [readSeparated]
  split
  · next failed =>
    rw [stepRead] at failed
    cases failed
  · next taken =>
    rw [stepRead] at taken
    cases taken
    split
    · next missing =>
      rw [skipped] at missing
      cases missing
    · next found =>
      rw [skipped] at found
      cases found
      rfl

theorem separated_complete (closing : IsClosing close)
    (each : ∀ s, Transcribes (step s) spells (takes s)) {i : ι} {is : List ι} {s s' : σ}
    {before body tail : List Char} (blank : Blank before) (spelled : spells i body)
    (continued : Continued close (is.map spells) tail) (steps : Steps takes s (i :: is) s')
    (rest : List Char) :
    readSeparated close step s (before ++ (body ++ (tail ++ rest))) = .ok (s', rest) := by
  induction is generalizing i s before body tail with
  | nil =>
    obtain ⟨m, taken, rfl⟩ := steps
    have stepRead := (each s).complete blank spelled taken (continued_ends closing continued rest)
    obtain ⟨after, blank', rfl⟩ := continued
    have skipped : skipSpace ((after ++ [close]) ++ rest) = close :: rest := by
      rw [List.append_assoc]
      exact skip_blank_solid blank' (closing_solid closing)
    rw [read_separated_step stepRead skipped, if_pos rfl]
  | cons j is ih =>
    obtain ⟨m, taken, steps⟩ := steps
    have stepRead := (each s).complete blank spelled taken (continued_ends closing continued rest)
    obtain ⟨after, before', body', tail, blank', blankJ, spelledJ, continued, rfl⟩ := continued
    have skipped : skipSpace ((after ++ ',' :: (before' ++ (body' ++ tail))) ++ rest) =
        ',' :: (before' ++ (body' ++ (tail ++ rest))) := by
      simp only [List.append_assoc, List.cons_append]
      exact skip_blank_solid blank' rfl
    rw [read_separated_step stepRead skipped, if_neg (closing_ne_comma closing), if_pos rfl]
    exact ih blankJ spelledJ continued steps

theorem enclosed_sound (each : ∀ s, Transcribes (step s) spells (takes s)) {s s' : σ}
    {cs rest : List Char} (read : readEnclosed close step s cs = .ok (s', rest)) :
    ∃ is body, Listed close (is.map spells) body ∧ Steps takes s is s' ∧ cs = body ++ rest := by
  obtain ⟨blank, all, split⟩ := skip_space_split cs
  unfold readEnclosed at read
  split at read
  · cases read
  · rename_i c tail skipped
    split at read
    · rename_i same
      simp only [Except.ok.injEq, Prod.mk.injEq] at read
      obtain ⟨rfl, rfl⟩ := read
      refine ⟨[], blank ++ [close], ⟨blank, all, rfl⟩, rfl, ?_⟩
      rw [split, skipped, same]
      simp
    · obtain ⟨i, is, before, body, tail, blank, spelled, continued, steps, rfl⟩ := separated_sound each read
      refine ⟨i :: is, before ++ (body ++ tail), ?_, steps, by simp⟩
      exact ⟨before, body, tail, blank, spelled, continued, rfl⟩

theorem enclosed_complete (closing : IsClosing close) (solid : Solid spells)
    (each : ∀ s, Transcribes (step s) spells (takes s)) {is : List ι} {s s' : σ} {body : List Char}
    (listed : Listed close (is.map spells) body) (steps : Steps takes s is s') (rest : List Char) :
    readEnclosed close step s (body ++ rest) = .ok (s', rest) := by
  cases is with
  | nil =>
    obtain ⟨blank, all, rfl⟩ := listed
    obtain rfl : s' = s := steps
    simp [readEnclosed, skip_blank_solid all (closing_solid closing)]
  | cons i is =>
    obtain ⟨before, body, tail, blank, spelled, continued, rfl⟩ := listed
    have whole := separated_complete closing each blank spelled continued steps rest
    obtain ⟨c, item, rfl, notBlank, bracket, brace⟩ := solid i body spelled
    have other : c ≠ close := by
      rcases closing with rfl | rfl
      · exact bracket
      · exact brace
    simp only [List.append_assoc, List.cons_append] at whole ⊢
    simp only [readEnclosed, skip_blank_solid blank notBlank, if_neg other, whole]

end Loop

section Member

variable {ν κ : Type}

-- A reader of keys, of what stands behind their opening quotes. It may make one key of several names.
structure ReadsKeys (key : Reader κ) (names : ν → Language) (stands : ν → κ → Prop) : Prop where
  sound : ∀ {cs rest : List Char} {k : κ}, key.run cs = .ok (k, rest) →
    ∃ n name, names n name ∧ stands n k ∧ cs = name ++ rest
  complete : ∀ {n : ν} {k : κ} {name : List Char}, names n name → stands n k →
    ∀ rest, key.run (name ++ rest) = .ok (k, rest)

-- The reader that a field gives for a key takes the values that the field takes under it.
def FieldTakes (spells : β → Language) (field : Field κ σ) (takes : σ → κ × β → σ → Prop) : Prop :=
  ∀ s k, match field s k with
    | .ok value => Transcribes value spells fun v s' => takes s (k, v) s'
    | .error _ => ∀ v s', ¬takes s (k, v) s'

def NamedMember (names : ν → Language) (spells : β → Language) (m : ν × β) : Language :=
  MemberSpells (fun cs => ∃ name, names m.1 name ∧ cs = '"' :: name) (spells m.2)

variable {key : Reader κ} {names : ν → Language} {stands : ν → κ → Prop} {spells : β → Language} {field : Field κ σ}
  {takes : σ → κ × β → σ → Prop}

theorem named_member_solid : Solid (NamedMember names spells) := by
  rintro m body ⟨name, after, before, text, ⟨tail, _, rfl⟩, _, _, _, rfl⟩
  exact ⟨_, _, rfl, by decide⟩

theorem named_member_reads (keys : ReadsKeys key names stands) (reads : FieldTakes spells field takes) (s : σ) :
    Transcribes (member key field s) (NamedMember names spells)
      (fun m s' => ∃ k, stands m.1 k ∧ takes s (k, m.2) s') where
  sound {cs rest s'} read := by
    obtain ⟨r₁, quoteRead, keyed⟩ := bind_eq_ok.1 read
    obtain ⟨⟨k, r₂⟩, keyRead, fielded⟩ := bind_eq_ok.1 keyed
    obtain ⟨value, known, valued⟩ := bind_eq_ok.1 fielded
    obtain ⟨r₃, colonRead, valueRead⟩ := bind_eq_ok.1 valued
    have valueReads := reads s k
    rw [known] at valueReads
    obtain ⟨before, blank, rfl⟩ := expect_sound quoteRead
    obtain ⟨n, name, named, stood, rfl⟩ := keys.sound keyRead
    obtain ⟨after, blank', rfl⟩ := expect_sound colonRead
    obtain ⟨v, before', body, blank'', spelled, taken, rfl⟩ := valueReads.sound valueRead
    refine ⟨(n, v), before, '"' :: (name ++ (after ++ ':' :: (before' ++ body))), blank, ?_, ⟨k, stood, taken⟩, by simp⟩
    exact ⟨'"' :: name, after, before', body, ⟨name, named, rfl⟩, blank', blank'', spelled, rfl⟩
  complete {m s' before body rest} blank spelled meant ends := by
    obtain ⟨_, after, before', text, ⟨name, named, rfl⟩, blank', blank'', spelled, rfl⟩ := spelled
    obtain ⟨k, stood, taken⟩ := meant
    have valueReads := reads s k
    split at valueReads
    · rename_i value known
      have quote : isSpace '"' = false := rfl
      have colon : isSpace ':' = false := rfl
      have valueRead := valueReads.complete blank'' spelled taken ends
      simp only [member, List.append_assoc, List.cons_append, expect_complete blank quote, Except.bind,
        keys.complete named stood, known, expect_complete blank' colon, valueRead]
    · exact absurd taken (valueReads m.2 s')

end Member

theorem string_keys : ReadsKeys string (fun k => Quoted k.toList) Eq where
  sound {cs rest k} read := by
    obtain ⟨name, quoted, split⟩ := string_sound read
    exact ⟨k, name, quoted, rfl, split⟩
  complete quoted same rest := same ▸ string_complete quoted rest

def FieldReads {σ : Type} (field : Field String σ) (takes : σ → String × Value → σ → Prop) : Prop :=
  ∀ s k, match field s k with
    | .ok value => Transcribes value Value.Spells fun v s' => takes s (k, v) s'
    | .error _ => ∀ v s', ¬takes s (k, v) s'

def MemberText (m : String × Value) : Language := MemberSpells (StringSpells m.1) m.2.Spells

theorem member_text_named : MemberText = NamedMember (fun k => Quoted k.toList) Value.Spells := rfl

theorem member_solid : Solid MemberText := member_text_named ▸ named_member_solid

theorem member_reads {σ : Type} {field : Field String σ} {takes : σ → String × Value → σ → Prop}
    (reads : FieldReads field takes) (s : σ) :
    Transcribes (member string field s) MemberText (takes s) :=
  (named_member_reads string_keys reads s).imp fun _ _ => exists_eq_left'

theorem members_sound {σ : Type} {field : Field String σ} {takes : σ → String × Value → σ → Prop}
    (reads : FieldReads field takes) {s s' : σ} {cs rest : List Char}
    (read : readMembers string field s cs = .ok (s', rest)) :
    ∃ ms body, Listed '}' (Value.memberSpellings ms) body ∧ Steps takes s ms s' ∧ cs = body ++ rest := by
  obtain ⟨ms, body, listed, steps, split⟩ := enclosed_sound (member_reads reads) read
  refine ⟨ms, body, ?_, steps, split⟩
  rw [Value.member_spellings_map]
  exact listed

theorem members_complete {σ : Type} {field : Field String σ} {takes : σ → String × Value → σ → Prop}
    (reads : FieldReads field takes) {ms : List (String × Value)} {s s' : σ} {body : List Char}
    (listed : Listed '}' (Value.memberSpellings ms) body) (steps : Steps takes s ms s')
    (rest : List Char) : readMembers string field s (body ++ rest) = .ok (s', rest) := by
  rw [Value.member_spellings_map] at listed
  exact enclosed_complete (.inr rfl) member_solid (member_reads reads) listed steps rest

end SprintLedger.Json
