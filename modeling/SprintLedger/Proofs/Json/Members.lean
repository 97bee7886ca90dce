import SprintLedger.Proofs.Json.Reading

set_option autoImplicit false

namespace SprintLedger.Json

def last? (ms : List (String × Value)) (key : String) : Option Value := ms.reverse.lookup key

def occurrences (key : String) (ms : List (String × Value)) : Nat := (ms.map Prod.fst).count key

theorem last_nil (key : String) : last? [] key = none := rfl

theorem last_concat (ms : List (String × Value)) (m : String × Value) (key : String) :
    last? (ms ++ [m]) key = if key = m.1 then some m.2 else last? ms key := by
  rw [last?, List.reverse_concat, lookup_cons_eq_ite]
  rfl

theorem occurrences_cons (key : String) (m : String × Value) (ms : List (String × Value)) :
    occurrences key (m :: ms) = occurrences key ms + if key = m.1 then 1 else 0 := by
  rw [occurrences, List.map_cons, List.count_cons, occurrences]
  simp only [beq_iff_eq, eq_comm (a := key)]

variable {σ ι : Type}

theorem steps_so_far {takes : σ → ι → σ → Prop} (r : σ → List ι → Prop)
    (step : ∀ {s i s' done}, takes s i s' → r s done → r s' (done ++ [i])) {s s' : σ} {is done : List ι}
    (steps : Steps takes s is s') (start : r s done) : r s' (done ++ is) := by
  induction is generalizing s done with
  | nil =>
    obtain rfl : s' = s := steps
    rwa [List.append_nil]
  | cons i is ih =>
    obtain ⟨m, taken, rest⟩ := steps
    have later := ih rest (step taken start)
    rwa [List.append_assoc, List.singleton_append] at later

-- A draft takes the members that fit, under a known key only the first one. `seen` tells whether it has
-- taken one.
structure Once (takes : σ → String × Value → σ → Prop) (known : List String) (seen : σ → String → Bool)
    (fits : String × Value → Prop) : Prop where
  admits : ∀ s m, (∃ s', takes s m s') ↔ fits m ∧ (m.1 ∈ known → seen s m.1 = false)
  marks : ∀ {s m s'}, takes s m s' → ∀ key ∈ known, seen s' key = (decide (key = m.1) || seen s key)

-- By induction on the members, with what the draft has seen so far counted as one more occurrence.
theorem once_steps {takes : σ → String × Value → σ → Prop} {known : List String} {seen : σ → String → Bool}
    {fits : String × Value → Prop} (once : Once takes known seen fits) (s : σ) (ms : List (String × Value)) :
    (∃ s', Steps takes s ms s') ↔
      (∀ m ∈ ms, fits m) ∧ ∀ key ∈ known, occurrences key ms + (seen s key).toNat ≤ 1 := by
  induction ms generalizing s with
  | nil =>
    have bound (key : String) : occurrences key [] + (seen s key).toNat ≤ 1 := by
      rw [occurrences, List.map_nil, List.count_nil, Nat.zero_add]
      exact Bool.toNat_le _
    exact ⟨fun _ => ⟨nofun, fun key _ => bound key⟩, fun _ => ⟨s, rfl⟩⟩
  | cons m ms ih =>
    simp only [occurrences_cons, List.forall_mem_cons]
    constructor
    · rintro ⟨s', next, taken, rest⟩
      obtain ⟨fit, free⟩ := (once.admits s m).1 ⟨next, taken⟩
      obtain ⟨fits', counts⟩ := (ih next).1 ⟨s', rest⟩
      refine ⟨⟨fit, fits'⟩, fun key member => ?_⟩
      have count := counts key member
      rw [once.marks taken key member] at count
      by_cases hit : key = m.1
      · subst hit
        rw [free member]
        simpa using count
      · simpa [hit] using count
    · rintro ⟨⟨fit, fits'⟩, counts⟩
      have free : m.1 ∈ known → seen s m.1 = false := by
        intro member
        have count := counts m.1 member
        rw [if_pos rfl] at count
        exact Bool.toNat_eq_zero.1 (by omega)
      obtain ⟨next, taken⟩ := (once.admits s m).2 ⟨fit, free⟩
      have later : ∀ key ∈ known, occurrences key ms + (seen next key).toNat ≤ 1 := by
        intro key member
        have count := counts key member
        rw [once.marks taken key member]
        by_cases hit : key = m.1
        · subst hit
          rw [if_pos rfl, free member] at count
          simpa using count
        · simpa [hit] using count
      obtain ⟨s', rest⟩ := (ih next).2 ⟨fits', later⟩
      exact ⟨s', next, taken, rest⟩

structure Rest (known : List String) (ms : List (String × Value)) (extra : SortedMap Value) : Prop where
  kept : ∀ key, key ∉ known → extra.get? key = (last? ms key).map Value.normal
  absent : ∀ key ∈ known, extra.get? key = none

theorem rest_unique {known : List String} {ms : List (String × Value)} {m n : SortedMap Value} (first : Rest known ms m)
    (second : Rest known ms n) : m = n := by
  apply SortedMap.ext_lookup
  intro key
  by_cases listed : key ∈ known
  · rw [first.absent key listed, second.absent key listed]
  · rw [first.kept key listed, second.kept key listed]

theorem rest_known {known : List String} {ms : List (String × Value)} {m : String × Value} {extra : SortedMap Value}
    (rest : Rest known ms extra) (listed : m.1 ∈ known) : Rest known (ms ++ [m]) extra := by
  refine ⟨fun key unlisted => ?_, rest.absent⟩
  have other : key ≠ m.1 := fun same => unlisted (same ▸ listed)
  rw [last_concat, if_neg other]
  exact rest.kept key unlisted

theorem rest_insert {known : List String} {ms : List (String × Value)} {m : String × Value} {extra : SortedMap Value}
    (rest : Rest known ms extra) (unlisted : m.1 ∉ known) : Rest known (ms ++ [m]) (extra.insert m.1 m.2.normal) := by
  refine ⟨fun key kept => ?_, fun key listed => ?_⟩
  · rw [last_concat, SortedMap.get_insert]
    by_cases hit : key = m.1
    · rw [if_pos hit, if_pos hit, Option.map_some]
    · rw [if_neg hit, if_neg hit]
      exact rest.kept key kept
  · have other : key ≠ m.1 := fun same => unlisted (same ▸ listed)
    rw [SortedMap.get_insert, if_neg other]
    exact rest.absent key listed

-- A text or nothing, as a member's value says it: nothing where the member is missing or null.
inductive TextFound : Option Value → Option String → Prop where
  | missing : TextFound none none
  | null : TextFound (some .null) none
  | text (s : String) : TextFound (some (.string s)) (some s)

theorem text_found_unique {found : Option Value} {t u : Option String} (first : TextFound found t)
    (second : TextFound found u) : t = u := by
  cases first <;> cases second <;> rfl

end SprintLedger.Json
