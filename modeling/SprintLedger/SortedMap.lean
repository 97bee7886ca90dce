set_option autoImplicit false

namespace SprintLedger

def insertBinding {α : Type} (key : String) (a : α) : List (String × α) → List (String × α)
  | [] => [(key, a)]
  | (k, b) :: rest =>
    if key < k then (key, a) :: (k, b) :: rest
    else if key = k then (key, a) :: rest
    else (k, b) :: insertBinding key a rest

theorem forall_insert_binding {α : Type} {p : String × α → Prop} {key : String} {a : α}
    {bs : List (String × α)} (ha : p (key, a)) (hbs : ∀ b ∈ bs, p b) :
    ∀ b ∈ insertBinding key a bs, p b := by
  induction bs with
  | nil => simpa [insertBinding] using ha
  | cons b bs ih =>
    obtain ⟨hb, hbs⟩ := List.forall_mem_cons.1 hbs
    unfold insertBinding
    split
    · exact List.forall_mem_cons.2 ⟨ha, List.forall_mem_cons.2 ⟨hb, hbs⟩⟩
    · split
      · exact List.forall_mem_cons.2 ⟨ha, hbs⟩
      · exact List.forall_mem_cons.2 ⟨hb, ih hbs⟩

theorem pairwise_insert_binding {α : Type} {key : String} {a : α} {bs : List (String × α)}
    (h : bs.Pairwise (·.1 < ·.1)) : (insertBinding key a bs).Pairwise (·.1 < ·.1) := by
  induction bs with
  | nil => simp [insertBinding]
  | cons b bs ih =>
    obtain ⟨hb, hbs⟩ := List.pairwise_cons.1 h
    unfold insertBinding
    split
    · rename_i hlt
      refine List.pairwise_cons.2 ⟨List.forall_mem_cons.2 ⟨hlt, fun c hc => ?_⟩, h⟩
      exact String.lt_trans hlt (hb c hc)
    · split
      · rename_i heq
        exact List.pairwise_cons.2 ⟨fun c hc => heq ▸ hb c hc, hbs⟩
      · rename_i hge hne
        refine List.pairwise_cons.2 ⟨forall_insert_binding ?_ hb, ih hbs⟩
        exact Std.lt_of_le_of_ne (Std.not_lt.1 hge) (Ne.symm hne)

theorem lookup_cons_eq_ite {α : Type} (k : String) (b : String × α) (bs : List (String × α)) :
    (b :: bs).lookup k = if k = b.1 then some b.2 else bs.lookup k := by
  obtain ⟨key, a⟩ := b
  by_cases h : k = key <;> simp [List.lookup_cons, h, beq_eq_false_iff_ne.2]

theorem lookup_insert_binding {α : Type} (key k : String) (a : α) (bs : List (String × α)) :
    (insertBinding key a bs).lookup k = if k = key then some a else bs.lookup k := by
  induction bs with
  | nil => simp [insertBinding, lookup_cons_eq_ite]
  | cons b bs ih =>
    unfold insertBinding
    split
    · simp [lookup_cons_eq_ite]
    · split
      · rename_i heq
        by_cases h : k = key <;> simp [lookup_cons_eq_ite, h, ← heq]
      · rename_i hne
        rw [lookup_cons_eq_ite, lookup_cons_eq_ite, ih]
        grind

-- Texts are compared by code points, which is the order of their UTF-8 bytes.
structure SortedMap (α : Type) where
  toList : List (String × α)
  ascending : toList.Pairwise (·.1 < ·.1)

namespace SortedMap

variable {α : Type}

def empty : SortedMap α := ⟨[], .nil⟩

def get? (m : SortedMap α) (key : String) : Option α := m.toList.lookup key

def insert (m : SortedMap α) (key : String) (a : α) : SortedMap α :=
  ⟨insertBinding key a m.toList, pairwise_insert_binding m.ascending⟩

@[simp] theorem get_empty (key : String) : (empty : SortedMap α).get? key = none := rfl

theorem get_insert (m : SortedMap α) (key k : String) (a : α) :
    (m.insert key a).get? k = if k = key then some a else m.get? k :=
  lookup_insert_binding key k a m.toList

end SortedMap

end SprintLedger
