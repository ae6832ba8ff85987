import Mathlib.Data.List.Pairwise
import Mathlib.Order.Lattice

/-!
# Sorted sets

Finite sets that are listed in order, each element once.
-/

namespace Wanderlust

/-- A finite set, listed in order. -/
structure SortedSet (α : Type*) [LinearOrder α] where
  values : List α
  sorted : values.Pairwise (· < ·)

namespace SortedSet

variable {α : Type*} [LinearOrder α] {a b : α}

instance : EmptyCollection (SortedSet α) := ⟨⟨[], .nil⟩⟩

/-- An element at its place in a list. -/
def insertValue (a : α) : List α → List α
  | [] => [a]
  | b :: l => if a < b then a :: b :: l else if a = b then b :: l else b :: insertValue a l

theorem mem_insertValue {l : List α} : b ∈ insertValue a l ↔ b = a ∨ b ∈ l := by
  induction l with
  | nil => simp [insertValue]
  | cons c l ih =>
    rw [insertValue]
    split
    · exact List.mem_cons
    · split
      · rename_i heq
        subst heq
        simp
      · rw [List.mem_cons, ih, List.mem_cons, or_left_comm]

theorem pairwise_insertValue {l : List α} (h : l.Pairwise (· < ·)) :
    (insertValue a l).Pairwise (· < ·) := by
  induction l with
  | nil => exact List.pairwise_singleton _ _
  | cons c l ih =>
    obtain ⟨hc, hl⟩ := List.pairwise_cons.mp h
    rw [insertValue]
    split
    · rename_i hlt
      refine List.pairwise_cons.mpr ⟨fun b hb => ?_, h⟩
      rcases List.mem_cons.mp hb with rfl | hb
      · exact hlt
      · exact hlt.trans (hc b hb)
    · rename_i hnot
      split
      · exact h
      · rename_i hne
        refine List.pairwise_cons.mpr ⟨fun b hb => ?_, ih hl⟩
        rcases mem_insertValue.mp hb with rfl | hb
        · exact lt_of_le_of_ne (not_lt.mp hnot) (Ne.symm hne)
        · exact hc b hb

def insert (a : α) (s : SortedSet α) : SortedSet α :=
  ⟨insertValue a s.values, pairwise_insertValue s.sorted⟩

end SortedSet

end Wanderlust
