import Mathlib.Data.List.Infix
import SprintLedger.Proofs.Text.Blanks

set_option autoImplicit false

namespace SprintLedger.Text

-- With `true` a gap has begun, and the spaces that still belong to it are passed over.
def cellsFrom : Bool → List Char → List (List Char)
  | _, [] => [[]]
  | inGap, c :: cs =>
    if c = ' ' ∧ inGap then cellsFrom true cs
    else if c = ' ' ∧ cs.head? = some ' ' then [] :: cellsFrom true cs
    else (cellsFrom false cs).modifyHead (c :: ·)

-- The parts between the longest runs of two or more spaces.
def cells (line : List Char) : List (List Char) := cellsFrom false line

structure Tidy (cs : List Char) : Prop where
  present : cs ≠ []
  unbroken : '\n' ∉ cs
  begins : ∀ c ∈ cs.head?, isBlank c = false
  ends : ∀ c ∈ cs.getLast?, isBlank c = false
  gapless : ¬[' ', ' '] <:+: cs

theorem tidy_iff {cs : List Char} : Tidy cs ↔ cs ≠ [] ∧ '\n' ∉ cs ∧ cs.head?.all (!isBlank ·) = true ∧
    cs.getLast?.all (!isBlank ·) = true ∧ ¬[' ', ' '] <:+: cs := by
  simp only [Option.all_eq_true, Bool.not_eq_true']
  exact ⟨fun tidy => ⟨tidy.present, tidy.unbroken, tidy.begins, tidy.ends, tidy.gapless⟩,
    fun ⟨present, unbroken, begins, ends, gapless⟩ => ⟨present, unbroken, begins, ends, gapless⟩⟩

instance (cs : List Char) : Decidable (Tidy cs) := decidable_of_iff _ tidy_iff.symm

theorem solid_tidy {cs : List Char} (present : cs ≠ []) (solid : Solid cs) : Tidy cs where
  present := present
  unbroken member := absurd (solid '\n' member) (by decide)
  begins c first := solid c (List.mem_of_mem_head? first)
  ends c last := solid c (List.mem_of_mem_getLast? last)
  gapless gap := absurd (solid ' ' (gap.subset List.mem_cons_self)) (by decide)

variable {front rest : List Char}

theorem cells_behind_gap (begins : rest.head? ≠ some ' ') (k : Nat) :
    cellsFrom true (List.replicate k ' ' ++ rest) = cells rest := by
  induction k with
  | zero =>
    cases rest with
    | nil => rfl
    | cons c rest =>
      have other : c ≠ ' ' := fun space => begins (congrArg some space)
      simp [cells, cellsFrom, other]
  | succ k ih =>
    rw [List.replicate_succ, List.cons_append, cellsFrom, if_pos ⟨rfl, rfl⟩, ih]

theorem cells_gap (begins : rest.head? ≠ some ' ') (k : Nat) :
    cells (List.replicate (k + 2) ' ' ++ rest) = [] :: cells rest := by
  have behind := cells_behind_gap begins (k + 1)
  rw [List.replicate_succ, List.cons_append, cells, cellsFrom, if_neg (by simp), if_pos (by simp [List.replicate_succ]),
    behind]

-- A space inside of a cell has no other one behind it, where the cell ends in none.
theorem single_space {c : Char} (gapless : ¬[' ', ' '] <:+: c :: front) (ends : (c :: front).getLast? ≠ some ' ')
    (rest : List Char) : ¬(c = ' ' ∧ (front ++ rest).head? = some ' ') := by
  intro both
  obtain ⟨rfl, next⟩ := both
  cases front with
  | nil => exact ends rfl
  | cons d front =>
    obtain rfl := Option.some.inj next
    exact gapless ⟨[], front, rfl⟩

theorem cells_front (gapless : ¬[' ', ' '] <:+: front) (ends : front.getLast? ≠ some ' ') (rest : List Char) :
    cells (front ++ rest) = (cells rest).modifyHead (front ++ ·) := by
  induction front with
  | nil => exact (congrFun List.modifyHead_id (cells rest)).symm
  | cons c front ih =>
    have gapless' : ¬[' ', ' '] <:+: front := fun gap => gapless (gap.trans (List.suffix_cons c front).isInfix)
    have ends' : front.getLast? ≠ some ' ' := by
      cases front with
      | nil => nofun
      | cons d front => rwa [List.getLast?_cons_cons] at ends
    have rest_cells := ih gapless' ends'
    rw [cells] at rest_cells
    rw [List.cons_append, cells, cellsFrom, if_neg (by simp), if_neg (single_space gapless ends rest), rest_cells,
      List.modifyHead_modifyHead]
    rfl

theorem tidy_first (tidy : Tidy front) : front.head? ≠ some ' ' := by
  intro first
  exact absurd (tidy.begins ' ' first) (by decide)

theorem tidy_last (tidy : Tidy front) : front.getLast? ≠ some ' ' := by
  intro last
  exact absurd (tidy.ends ' ' last) (by decide)

theorem cells_one (tidy : Tidy front) : cells front = [front] := by
  have split := cells_front tidy.gapless (tidy_last tidy) []
  rw [List.append_nil] at split
  rw [split]
  simp [cells, cellsFrom]

theorem cells_cons {next : List Char} (tidy : Tidy front) (tidy' : Tidy next) (k : Nat) (rest : List Char) :
    cells (front ++ (List.replicate (k + 2) ' ' ++ (next ++ rest))) = front :: cells (next ++ rest) := by
  have begins : (next ++ rest).head? ≠ some ' ' := by
    cases next with
    | nil => exact absurd rfl tidy'.present
    | cons c next => simpa using tidy_first tidy'
  rw [cells_front tidy.gapless (tidy_last tidy), cells_gap begins]
  simp

end SprintLedger.Text
