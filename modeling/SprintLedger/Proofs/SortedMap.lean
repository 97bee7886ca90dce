import SprintLedger.SortedMap

set_option autoImplicit false

namespace SprintLedger

theorem lookup_absent {α : Type} {key : String} {bs : List (String × α)}
    (others : ∀ b ∈ bs, b.1 ≠ key) : bs.lookup key = none := by
  rw [List.lookup_eq_none_iff]
  intro b member
  simpa using (others b member).symm

theorem lookup_below {α : Type} {key : String} {bs : List (String × α)}
    (below : ∀ b ∈ bs, key < b.1) : bs.lookup key = none := by
  apply lookup_absent
  intro b member same
  exact String.lt_irrefl key (same ▸ below b member)

theorem mem_of_lookup {α : Type} {key : String} {a : α} {bs : List (String × α)}
    (found : bs.lookup key = some a) : (key, a) ∈ bs := by
  induction bs with
  | nil => cases found
  | cons b bs ih =>
    rw [lookup_cons_eq_ite] at found
    split at found
    · rename_i hit
      obtain rfl := Option.some.inj found
      exact hit ▸ List.mem_cons_self
    · exact List.mem_cons_of_mem _ (ih found)

theorem lookup_of_mem {α : Type} {key : String} {a : α} {bs : List (String × α)}
    (distinct : bs.Pairwise (·.1 ≠ ·.1)) (member : (key, a) ∈ bs) : bs.lookup key = some a := by
  induction bs with
  | nil => cases member
  | cons b bs ih =>
    obtain ⟨head, tail⟩ := List.pairwise_cons.1 distinct
    rw [lookup_cons_eq_ite]
    rcases List.mem_cons.1 member with rfl | later
    · exact if_pos rfl
    · rw [if_neg fun same => head _ later same.symm, ih tail later]

theorem lookup_above_head {α : Type} {a b : String × α} {bs : List (String × α)}
    (less : a.1 < b.1) (ascending : (b :: bs).Pairwise (·.1 < ·.1)) : (b :: bs).lookup a.1 = none := by
  apply lookup_below
  intro c member
  rcases List.mem_cons.1 member with rfl | later
  · exact less
  · exact String.lt_trans less ((List.pairwise_cons.1 ascending).1 c later)

-- Each first key is found in the other list, so neither is below the other.
theorem head_key_eq {α : Type} {a b : String × α} {as bs : List (String × α)}
    (ha : (a :: as).Pairwise (·.1 < ·.1)) (hb : (b :: bs).Pairwise (·.1 < ·.1))
    (same : ∀ k, (a :: as).lookup k = (b :: bs).lookup k) : a.1 = b.1 := by
  apply Std.le_antisymm
  · apply Std.not_lt.1
    intro less
    have found := same b.1
    rw [lookup_above_head less ha, lookup_cons_eq_ite, if_pos rfl] at found
    cases found
  · apply Std.not_lt.1
    intro less
    have found := same a.1
    rw [lookup_above_head less hb, lookup_cons_eq_ite, if_pos rfl] at found
    cases found

theorem bindings_ext {α : Type} {as bs : List (String × α)} (ha : as.Pairwise (·.1 < ·.1))
    (hb : bs.Pairwise (·.1 < ·.1)) (same : ∀ k, as.lookup k = bs.lookup k) : as = bs := by
  induction as generalizing bs with
  | nil =>
    cases bs with
    | nil => rfl
    | cons b bs =>
      have found := same b.1
      rw [lookup_cons_eq_ite, if_pos rfl] at found
      cases found
  | cons a as ih =>
    cases bs with
    | nil =>
      have found := same a.1
      rw [lookup_cons_eq_ite, if_pos rfl] at found
      cases found
    | cons b bs =>
      have key : a.1 = b.1 := head_key_eq ha hb same
      obtain ⟨aboveA, restA⟩ := List.pairwise_cons.1 ha
      obtain ⟨aboveB, restB⟩ := List.pairwise_cons.1 hb
      have value : a.2 = b.2 := by
        have found := same a.1
        rw [lookup_cons_eq_ite, if_pos rfl, lookup_cons_eq_ite, if_pos key] at found
        exact Option.some.inj found
      have tails : as = bs := by
        apply ih restA restB
        intro k
        by_cases hit : k = a.1
        · rw [lookup_below fun c member => hit ▸ aboveA c member,
            lookup_below fun c member => hit ▸ key ▸ aboveB c member]
        · have found := same k
          rwa [lookup_cons_eq_ite, lookup_cons_eq_ite, ← key, if_neg hit, if_neg hit] at found
      rw [tails, Prod.ext key value]

theorem ascending_distinct {α : Type} {bs : List (String × α)} (ascending : bs.Pairwise (·.1 < ·.1)) :
    bs.Pairwise (·.1 ≠ ·.1) := by
  refine ascending.imp ?_
  intro b c less same
  exact String.lt_irrefl _ (same ▸ less)

theorem lookup_perm {α : Type} {as bs : List (String × α)} (perm : as.Perm bs) (distinct : bs.Pairwise (·.1 ≠ ·.1))
    (k : String) : as.lookup k = bs.lookup k := by
  have apart : as.Pairwise (·.1 ≠ ·.1) := distinct.perm perm.symm Ne.symm
  cases found : as.lookup k with
  | some a => rw [lookup_of_mem distinct (perm.subset (mem_of_lookup found))]
  | none =>
    cases there : bs.lookup k with
    | none => rfl
    | some a =>
      rw [lookup_of_mem apart (perm.symm.subset (mem_of_lookup there))] at found
      cases found

theorem lookup_map {α β : Type} (f : α → β) (bs : List (String × α)) (k : String) :
    (bs.map fun b => (b.1, f b.2)).lookup k = (bs.lookup k).map f := by
  induction bs with
  | nil => rfl
  | cons b bs ih =>
    rw [List.map_cons, lookup_cons_eq_ite, lookup_cons_eq_ite, ih]
    by_cases hit : k = b.1
    · rw [if_pos hit, if_pos hit, Option.map_some]
    · rw [if_neg hit, if_neg hit]

-- Without distinct keys a binding that is left out could uncover another one.
theorem lookup_filter {α : Type} (keep : String × α → Bool) {bs : List (String × α)}
    (distinct : bs.Pairwise (·.1 ≠ ·.1)) (k : String) :
    (bs.filter keep).lookup k = (bs.lookup k).filter fun a => keep (k, a) := by
  induction bs with
  | nil => rfl
  | cons b bs ih =>
    obtain ⟨key, a⟩ := b
    obtain ⟨head, tail⟩ := List.pairwise_cons.1 distinct
    by_cases hit : k = key
    · subst hit
      have absent : (bs.filter keep).lookup k = none :=
        lookup_absent fun c member => (head c (List.mem_filter.1 member).1).symm
      by_cases kept : keep (k, a) = true <;> simp [kept, absent, Option.filter]
    · by_cases kept : keep (key, a) = true
      · rw [List.filter_cons_of_pos kept, lookup_cons_eq_ite, lookup_cons_eq_ite, if_neg hit, if_neg hit, ih tail]
      · rw [List.filter_cons_of_neg kept, lookup_cons_eq_ite, if_neg hit, ih tail]

namespace SortedMap

variable {α β : Type}

theorem ext_list {m n : SortedMap α} (same : m.toList = n.toList) : m = n := by
  cases m
  cases n
  cases same
  rfl

theorem ext_lookup {m n : SortedMap α} (same : ∀ k, m.get? k = n.get? k) : m = n :=
  ext_list (bindings_ext m.ascending n.ascending same)

theorem key_absent {m : SortedMap α} {key : String} (absent : m.get? key = none) {b : String × α}
    (member : b ∈ m.toList) : b.1 ≠ key := by
  intro same
  rw [get?, List.lookup_eq_none_iff] at absent
  simpa [same] using absent b member

theorem mem_keys_iff {m : SortedMap α} {key : String} : key ∈ m.toList.map Prod.fst ↔ (m.get? key).isSome = true := by
  rw [List.mem_map, Option.isSome_iff_exists]
  constructor
  · rintro ⟨⟨k, a⟩, member, rfl⟩
    exact ⟨a, lookup_of_mem (ascending_distinct m.ascending) member⟩
  · rintro ⟨a, found⟩
    exact ⟨(key, a), mem_of_lookup found, rfl⟩

def ofBindings (m : SortedMap α) (bs : List (String × α)) : SortedMap α :=
  bs.foldl (fun m b => m.insert b.1 b.2) m

@[simp] theorem of_bindings_nil (m : SortedMap α) : m.ofBindings [] = m := rfl

@[simp] theorem of_bindings_cons (m : SortedMap α) (b : String × α) (bs : List (String × α)) :
    m.ofBindings (b :: bs) = (m.insert b.1 b.2).ofBindings bs := rfl

theorem forall_insert {p : String × α → Prop} {m : SortedMap α} {key : String} {a : α}
    (fresh : p (key, a)) (old : ∀ b ∈ m.toList, p b) : ∀ b ∈ (m.insert key a).toList, p b :=
  forall_insert_binding fresh old

theorem forall_of_bindings {p : String × α → Prop} {m : SortedMap α} {bs : List (String × α)}
    (old : ∀ b ∈ m.toList, p b) (fresh : ∀ b ∈ bs, p b) : ∀ b ∈ (m.ofBindings bs).toList, p b := by
  induction bs generalizing m with
  | nil => exact old
  | cons b bs ih =>
    obtain ⟨first, rest⟩ := List.forall_mem_cons.1 fresh
    exact ih (forall_insert first old) rest

theorem lookup_of_bindings (m : SortedMap α) {bs : List (String × α)}
    (distinct : bs.Pairwise (·.1 ≠ ·.1)) (k : String) :
    (m.ofBindings bs).get? k = (bs.lookup k).or (m.get? k) := by
  induction bs generalizing m with
  | nil => rfl
  | cons b bs ih =>
    obtain ⟨head, tail⟩ := List.pairwise_cons.1 distinct
    rw [of_bindings_cons, ih _ tail, get_insert, lookup_cons_eq_ite]
    by_cases hit : k = b.1
    · have absent : bs.lookup k = none := by
        rw [List.lookup_eq_none_iff]
        intro c member
        simpa [hit] using head c member
      rw [absent, if_pos hit, if_pos hit]
      rfl
    · rw [if_neg hit, if_neg hit]

theorem of_bindings_ascending {bs : List (String × α)} (ascending : bs.Pairwise (·.1 < ·.1)) :
    (empty.ofBindings bs).toList = bs := by
  have distinct := ascending_distinct ascending
  apply bindings_ext (empty.ofBindings bs).ascending ascending
  intro k
  have found := lookup_of_bindings empty distinct k
  rwa [get_empty, Option.or_none] at found

theorem of_bindings_perm {as bs : List (String × α)} (perm : as.Perm bs) (distinct : as.Pairwise (·.1 ≠ ·.1)) :
    empty.ofBindings as = empty.ofBindings bs := by
  have apart : bs.Pairwise (·.1 ≠ ·.1) := distinct.perm perm Ne.symm
  apply ext_lookup
  intro k
  rw [lookup_of_bindings empty distinct, lookup_of_bindings empty apart, lookup_perm perm apart]

def map (f : α → β) (m : SortedMap α) : SortedMap β :=
  ⟨m.toList.map fun b => (b.1, f b.2), List.pairwise_map.2 m.ascending⟩

theorem get_map (f : α → β) (m : SortedMap α) (k : String) : (m.map f).get? k = (m.get? k).map f :=
  lookup_map f m.toList k

theorem forall_map {f : α → β} {m : SortedMap α} {p : String × β → Prop} :
    (∀ b ∈ (m.map f).toList, p b) ↔ ∀ b ∈ m.toList, p (b.1, f b.2) :=
  List.forall_mem_map

theorem map_fixed {f : α → α} {m : SortedMap α} (fixed : ∀ b ∈ m.toList, f b.2 = b.2) : m.map f = m := by
  apply ext_list
  refine (List.map_congr_left fun b member => ?_).trans (List.map_id _)
  exact congrArg (Prod.mk b.1) (fixed b member)

theorem map_insert (f : α → β) (m : SortedMap α) (key : String) (a : α) :
    (m.insert key a).map f = (m.map f).insert key (f a) := by
  apply ext_lookup
  intro k
  rw [get_map, get_insert, get_insert, get_map]
  by_cases hit : k = key
  · rw [if_pos hit, if_pos hit, Option.map_some]
  · rw [if_neg hit, if_neg hit]

end SortedMap

end SprintLedger
