import SprintLedger.Proofs.FileTree.Writing

set_option autoImplicit false

namespace SprintLedger

namespace Path

theorem split_slashes_eq (cs : List Char) : splitSlashes cs = cs.splitOn '/' := by
  induction cs with
  | nil => rfl
  | cons c cs ih =>
    rw [splitSlashes, List.splitOn_cons_eq_if_modifyHead, ih]
    by_cases slash : c = '/'
    · simp [slash]
    · rw [if_neg slash, if_neg (by simpa using slash)]
      cases parts : cs.splitOn '/' with
      | nil => exact absurd parts (List.splitOn_ne_nil _ _)
      | cons first rest => rfl

theorem segments_append_slash (front back : List Char) :
    splitSlashes (front ++ '/' :: back) = splitSlashes front ++ splitSlashes back := by
  simp only [split_slashes_eq, List.splitOn_append_cons_self]

-- A text that can be the name of an entry and is not one of those with a meaning of their own.
structure Ordinary (name : List Char) : Prop where
  unslashed : '/' ∉ name
  noNul : '\x00' ∉ name
  present : name ≠ []
  notHere : name ≠ ['.']
  notUp : name ≠ ['.', '.']

variable {dir name : Path}

theorem name_relative (ordinary : Ordinary name.toList) : isAbsolute name = false := by
  refine decide_eq_false fun first => ?_
  exact ordinary.unslashed (List.mem_of_mem_head? first)

theorem name_segments (ordinary : Ordinary name.toList) : splitSlashes name.toList = [name.toList] := by
  rw [split_slashes_eq, List.splitOn_eq_singleton ordinary.unslashed]

theorem join_list (dir : Path) (ordinary : Ordinary name.toList) :
    ∃ between, (dir.join name).toList = dir.toList ++ (between ++ name.toList) ∧ (between = [] ∨ between = ['/']) := by
  rw [join, name_relative ordinary]
  simp only [Bool.false_eq_true, if_false]
  by_cases ended : dir = "" ∨ dir.toList.getLast? = some '/'
  · exact ⟨[], by simp [if_pos ended], .inl rfl⟩
  · exact ⟨['/'], by simp [if_neg ended], .inr rfl⟩

-- A slash at the end of the directory's path leaves a segment without text there.
theorem join_segments (present : dir ≠ "") (ordinary : Ordinary name.toList) :
    ∃ front blank, (∀ segment ∈ blank, segment = []) ∧ dir.segments = front ++ blank ∧
      (dir.join name).segments = front ++ [name.toList] := by
  rw [join, name_relative ordinary]
  simp only [Bool.false_eq_true, if_false]
  by_cases ended : dir.toList.getLast? = some '/'
  · obtain ⟨front, whole⟩ := List.getLast?_eq_some_iff.1 ended
    refine ⟨splitSlashes front, [[]], by simp, ?_, ?_⟩
    · rw [segments, whole, segments_append_slash]
      rfl
    · rw [if_pos (.inr ended), segments, String.toList_append, whole, List.append_assoc, List.singleton_append,
        segments_append_slash, name_segments ordinary]
  · refine ⟨dir.segments, [], by simp, by simp, ?_⟩
    have slash : (dir ++ "/" ++ name).toList = dir.toList ++ '/' :: name.toList := by simp
    rw [if_neg (not_or.2 ⟨present, ended⟩), segments, slash, segments_append_slash, name_segments ordinary]
    rfl

theorem join_absolute (present : dir ≠ "") (ordinary : Ordinary name.toList) :
    isAbsolute (dir.join name) = isAbsolute dir := by
  obtain ⟨between, whole, _⟩ := join_list dir ordinary
  rw [isAbsolute, isAbsolute, whole]
  cases chars : dir.toList with
  | nil => exact absurd chars (by simpa using present)
  | cons first rest => rfl

theorem join_no_nul (clean : '\x00' ∉ dir.toList) (ordinary : Ordinary name.toList) :
    '\x00' ∉ (dir.join name).toList := by
  obtain ⟨between, whole, empty | slash⟩ := join_list dir ordinary
  · simp [whole, empty, clean, ordinary.noNul]
  · simp [whole, slash, clean, ordinary.noNul]

theorem join_ne_empty (present : dir ≠ "") (ordinary : Ordinary name.toList) : dir.join name ≠ "" := by
  obtain ⟨between, whole, _⟩ := join_list dir ordinary
  intro empty
  rw [empty] at whole
  exact present (by simpa using (List.append_eq_nil_iff.1 whole.symm).1)

end Path

namespace FileTree

variable {t : FileTree}

def entryPlace (t : FileTree) (parent : Location) (name : List Char) : Place :=
  if maxNameSize < (nameOf name).size then .nowhere
  else
    match t.node? (parent ++ [nameOf name]) with
    | some (.file content) => .file (parent ++ [nameOf name]) content
    | _ => .vacant (parent ++ [nameOf name])

theorem follow_name {enter : Location → List (List Char) → Place} {here : Location} {name : List Char}
    (ordinary : Path.Ordinary name) (free : t.IsFree (here ++ [nameOf name])) :
    t.follow enter here [name] = t.entryPlace here name := by
  have named : ¬(name = [] ∨ name = ['.']) := not_or.2 ⟨ordinary.present, ordinary.notHere⟩
  rw [follow, if_neg named, if_neg ordinary.notUp, entryPlace]
  by_cases long : maxNameSize < (nameOf name).size
  · rw [if_pos long, if_pos long]
  · rw [if_neg long, if_neg long]
    rcases free with absent | ⟨content, found⟩
    · simp only [absent, if_true]
    · simp only [found, if_true]

theorem follow_blank {enter : Location → List (List Char) → Place} {here : Location} {blank : List (List Char)}
    (empty : ∀ segment ∈ blank, segment = []) : t.follow enter here blank = .directory here := by
  induction blank with
  | nil => rfl
  | cons segment blank ih =>
    obtain ⟨first, rest⟩ := List.forall_mem_cons.1 empty
    rw [follow, if_pos (.inl first), ih rest]

-- The name is followed from the directory that the path before it leads to, through the same links.
theorem follow_entry {enter : Location → List (List Char) → Place} {parent : Location} {name : List Char}
    {blank : List (List Char)} (empty : ∀ segment ∈ blank, segment = []) (ordinary : Path.Ordinary name)
    (free : t.IsFree (parent ++ [nameOf name]))
    (behind : ∀ here segments, enter here (segments ++ blank) = .directory parent →
      enter here (segments ++ [name]) = t.entryPlace parent name) {here : Location}
    {segments : List (List Char)} (leads : t.follow enter here (segments ++ blank) = .directory parent) :
    t.follow enter here (segments ++ [name]) = t.entryPlace parent name := by
  induction segments generalizing here with
  | nil =>
    rw [List.nil_append, follow_blank empty] at leads
    obtain rfl := Place.directory.inj leads
    exact follow_name ordinary free
  | cons segment rest ih =>
    have more : rest ++ [name] ≠ [] := by simp
    rw [List.cons_append, follow] at leads ⊢
    by_cases skipped : segment = [] ∨ segment = ['.']
    · rw [if_pos skipped] at leads ⊢
      exact ih leads
    rw [if_neg skipped] at leads ⊢
    by_cases up : segment = ['.', '.']
    · rw [if_pos up] at leads ⊢
      exact ih leads
    rw [if_neg up] at leads ⊢
    by_cases long : maxNameSize < (nameOf segment).size
    · rw [if_pos long] at leads
      cases leads
    rw [if_neg long] at leads ⊢
    cases found : t.node? (here ++ [nameOf segment]) with
    | none =>
      simp only [found] at leads
      split at leads <;> cases leads
    | some there =>
      cases there with
      | file content =>
        simp only [found] at leads
        split at leads <;> cases leads
      | directory =>
        simp only [found] at leads ⊢
        exact ih leads
      | link target =>
        simp only [found, ← List.append_assoc] at leads ⊢
        exact behind _ _ leads

theorem walk_entry {parent : Location} {name : List Char} {blank : List (List Char)}
    (empty : ∀ segment ∈ blank, segment = []) (ordinary : Path.Ordinary name)
    (free : t.IsFree (parent ++ [nameOf name])) {links : Nat} {here : Location} {segments : List (List Char)}
    (leads : t.walk links here (segments ++ blank) = .directory parent) :
    t.walk links here (segments ++ [name]) = t.entryPlace parent name := by
  induction links generalizing here segments with
  | zero => exact follow_entry empty ordinary free (fun _ _ => Place.noConfusion) leads
  | succ links ih => exact follow_entry empty ordinary free (fun _ _ => ih) leads

theorem place_entry {dir name : Path} {parent : Location} (leads : t.place dir = .directory parent)
    (ordinary : Path.Ordinary name.toList) (free : t.IsFree (parent ++ [name.toUTF8])) :
    t.place (dir.join name) =
      if pathSizeLimit ≤ (dir.join name).utf8ByteSize then .nowhere else t.entryPlace parent name.toList := by
  have bytes : nameOf name.toList = name.toUTF8 := by rw [nameOf, String.ofList_toList]
  rw [place] at leads
  by_cases invalid : dir = "" ∨ pathSizeLimit ≤ dir.utf8ByteSize ∨ '\x00' ∈ dir.toList
  · rw [if_pos invalid] at leads
    cases leads
  · obtain ⟨present, _, clean⟩ := by simpa only [not_or] using invalid
    rw [if_neg invalid] at leads
    obtain ⟨front, blank, empty, split, joined⟩ := Path.join_segments present ordinary
    rw [split] at leads
    rw [place, Path.join_absolute present ordinary, joined]
    by_cases long : pathSizeLimit ≤ (dir.join name).utf8ByteSize
    · rw [if_pos (.inr (.inl long)), if_pos long]
    · have valid := not_or.2 ⟨Path.join_ne_empty present ordinary, not_or.2 ⟨long, Path.join_no_nul clean ordinary⟩⟩
      rw [if_neg valid, if_neg long]
      exact walk_entry empty ordinary (bytes ▸ free) leads

theorem entry_place_no_directory (t : FileTree) (parent location : Location) (name : List Char) :
    t.entryPlace parent name ≠ .directory location := by
  rw [entryPlace]
  split
  · nofun
  · split <;> nofun

def HasEntry (t : FileTree) (parent : Location) (name : String) : Prop :=
  ∃ node, t.node? (parent ++ [name.toUTF8]) = some node

-- All that stands in the directory are files, and their names are texts.
def HoldsFiles (t : FileTree) (parent : Location) : Prop :=
  ∀ n ∈ t.nodes, ∀ bytes, n.1 = parent ++ [bytes] →
    ∃ (name : String) (content : ByteArray), bytes = name.toUTF8 ∧ t.node? n.1 = some (.file content)

theorem node_below (t : FileTree) (parent : Location) (bytes : ByteArray) :
    t.node? (parent ++ [bytes]) = t.nodes.lookup (parent ++ [bytes]) := if_neg (by simp)

theorem node_listed {location : Location} {node : Node} (found : t.nodes.lookup location = some node) :
    (location, node) ∈ t.nodes := by
  obtain ⟨before, after, split, _⟩ := List.lookup_eq_some_iff.1 found
  rw [split]
  simp

theorem holds_files_free {parent : Location} (files : t.HoldsFiles parent) (bytes : ByteArray) :
    t.IsFree (parent ++ [bytes]) := by
  cases found : t.node? (parent ++ [bytes]) with
  | none => exact .inl found
  | some node =>
    obtain ⟨_, content, _, file⟩ := files _ (node_listed (node_below t parent bytes ▸ found)) bytes rfl
    exact .inr ⟨content, file⟩

theorem has_entry_iff {parent : Location} {name : String} :
    t.HasEntry parent name ↔ ∃ node, (parent ++ [name.toUTF8], node) ∈ t.nodes := by
  rw [HasEntry]
  simp only [node_below]
  constructor
  · rintro ⟨node, found⟩
    exact ⟨node, node_listed found⟩
  · rintro ⟨node, member⟩
    cases found : t.nodes.lookup (parent ++ [name.toUTF8]) with
    | none =>
      have absent := List.lookup_eq_none_iff.1 found _ member
      simp at absent
    | some there => exact ⟨there, rfl⟩

theorem list_place {dir : Path} {parent : Location} (leads : t.place dir = .directory parent) :
    ∃ entries, t.list? dir = some entries ∧
      ∀ e, e ∈ entries ↔ ∃ bytes node, (parent ++ [bytes], node) ∈ t.nodes ∧ e = ⟨bytes, t.isDirectoryIn dir bytes⟩ := by
  refine ⟨t.nodes.filterMap fun n => t.entryIn? dir parent n.1, by rw [list?, leads], fun e => ?_⟩
  rw [List.mem_filterMap]
  constructor
  · rintro ⟨⟨location, node⟩, member, entry⟩
    rw [entryIn?] at entry
    cases last : location.getLast? with
    | none => simp [last] at entry
    | some bytes =>
      simp only [last] at entry
      split at entry
      · rename_i within
        obtain ⟨front, rfl⟩ := List.getLast?_eq_some_iff.1 last
        obtain rfl : front = parent := by simpa using within
        exact ⟨bytes, node, member, (Option.some.inj entry).symm⟩
      · cases entry
  · rintro ⟨bytes, node, member, rfl⟩
    exact ⟨_, member, by simp [entryIn?]⟩

end FileTree

end SprintLedger
