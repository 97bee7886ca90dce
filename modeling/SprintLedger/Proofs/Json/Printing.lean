import SprintLedger.Proofs.Json.Records
import SprintLedger.Proofs.Json.Rereading

set_option autoImplicit false

namespace SprintLedger.Json

theorem new_line_blank (level : Nat) : Blank (newLine level) := by
  intro c member
  rcases List.mem_cons.1 member with rfl | space
  · rfl
  · rw [List.eq_of_mem_replicate space]
    rfl

theorem compact_member_spells (k : String) {v : Language} {text : List Char} (spelled : v text) :
    MemberSpells (StringSpells k) v (stringText k ++ ':' :: text) :=
  ⟨stringText k, [], [], text, string_text_spells k, blank_nil, blank_nil, spelled, rfl⟩

theorem pretty_member_spells (k : String) {v : Language} {text : List Char} (spelled : v text) :
    MemberSpells (StringSpells k) v (stringText k ++ ([':', ' '] ++ text)) :=
  ⟨stringText k, [], [' '], text, string_text_spells k, blank_nil, by simp [Blank, isSpace], spelled, rfl⟩

namespace Value

mutual

theorem compact_spells : ∀ v : Value, v.reread.Spells v.compact
  | .null => rfl
  | .bool _ => rfl
  | .number n => number_text_spells n
  | .string s => string_text_spells s
  | .array [] => ⟨[']'], ⟨[], blank_nil, rfl⟩, rfl⟩
  | .array (v :: vs) =>
    ⟨_, ⟨[], v.compact, compactElements vs, blank_nil, compact_spells v, compact_elements_spell vs, rfl⟩, rfl⟩
  | .object [] => ⟨['}'], ⟨[], blank_nil, rfl⟩, rfl⟩
  | .object ((k, v) :: ms) => by
    have name := compact_member_spells k (compact_spells v)
    refine ⟨_, ⟨[], _, compactMembers ms, blank_nil, name, compact_members_spell ms, rfl⟩, ?_⟩
    simp [compact]

theorem compact_elements_spell : ∀ vs : List Value,
    Continued ']' (elementSpellings (rereadElements vs)) (compactElements vs)
  | [] => ⟨[], blank_nil, rfl⟩
  | v :: vs =>
    ⟨[], [], v.compact, compactElements vs, blank_nil, blank_nil, compact_spells v,
      compact_elements_spell vs, rfl⟩

theorem compact_members_spell : ∀ ms : List (String × Value),
    Continued '}' (memberSpellings (rereadMembers ms)) (compactMembers ms)
  | [] => ⟨[], blank_nil, rfl⟩
  | (k, v) :: ms => by
    have name := compact_member_spells k (compact_spells v)
    refine ⟨[], [], _, compactMembers ms, blank_nil, blank_nil, name, compact_members_spell ms, ?_⟩
    simp [compactMembers]

end

mutual

theorem pretty_spells : ∀ (v : Value) (level : Nat), v.reread.Spells (v.pretty level)
  | .null, _ => rfl
  | .bool _, _ => rfl
  | .number n, _ => number_text_spells n
  | .string s, _ => string_text_spells s
  | .array [], _ => ⟨[']'], ⟨[], blank_nil, rfl⟩, rfl⟩
  | .array (v :: vs), level => by
    refine ⟨_, ⟨newLine (level + 1), _, _, new_line_blank _, pretty_spells v (level + 1),
      pretty_elements_spell vs level, rfl⟩, ?_⟩
    simp [pretty]
  | .object [], _ => ⟨['}'], ⟨[], blank_nil, rfl⟩, rfl⟩
  | .object ((k, v) :: ms), level => by
    have name := pretty_member_spells k (pretty_spells v (level + 1))
    refine ⟨_, ⟨newLine (level + 1), _, _, new_line_blank _, name, pretty_members_spell ms level, rfl⟩, ?_⟩
    simp [pretty]

theorem pretty_elements_spell : ∀ (vs : List Value) (level : Nat),
    Continued ']' (elementSpellings (rereadElements vs)) (prettyElements level vs)
  | [], level => ⟨newLine level, new_line_blank level, rfl⟩
  | v :: vs, level => by
    refine ⟨[], newLine (level + 1), _, _, blank_nil, new_line_blank _, pretty_spells v (level + 1),
      pretty_elements_spell vs level, ?_⟩
    simp [prettyElements]

theorem pretty_members_spell : ∀ (ms : List (String × Value)) (level : Nat),
    Continued '}' (memberSpellings (rereadMembers ms)) (prettyMembers level ms)
  | [], level => ⟨newLine level, new_line_blank level, rfl⟩
  | (k, v) :: ms, level => by
    have name := pretty_member_spells k (pretty_spells v (level + 1))
    refine ⟨[], newLine (level + 1), _, _, blank_nil, new_line_blank _, name, pretty_members_spell ms level, ?_⟩
    simp [prettyMembers]

end

theorem compact_document (v : Value) : Document v.reread (.ofList v.compact) :=
  ⟨[], v.compact, [], blank_nil, compact_spells v, blank_nil, by simp⟩

theorem pretty_document (v : Value) : Document v.reread (.ofList (v.pretty 0)) :=
  ⟨[], v.pretty 0, [], blank_nil, pretty_spells v 0, blank_nil, by simp⟩

end Value

end SprintLedger.Json
