import Mathlib.Data.List.Basic

/-!
# Dictionaries

Dictionaries as lists of keys with their values, for values that contain dictionaries themselves.
A dictionary is read with `List.lookup`, so that of two values for one key the first counts.
-/

namespace Wanderlust

abbrev Dictionary (κ δ : Type*) := List (κ × δ)

namespace Dictionary

variable {κ δ : Type*} [DecidableEq κ]

/-- `dictionary[key] = d`. -/
def set (key : κ) (d : δ) : Dictionary κ δ → Dictionary κ δ
  | [] => [(key, d)]
  | (k, x) :: rest => if k = key then (key, d) :: rest else (k, x) :: set key d rest

theorem lookup_cons (k k' : κ) (d : δ) (c : Dictionary κ δ) :
    List.lookup k ((k', d) :: c) = if k = k' then some d else List.lookup k c := by
  by_cases h : k = k'
  · rw [if_pos h, h, List.lookup_cons_self]
  · rw [if_neg h, List.lookup_cons, beq_eq_false_iff_ne.mpr h]

@[simp] theorem lookup_set (k key : κ) (d : δ) (c : Dictionary κ δ) :
    List.lookup k (set key d c) = if k = key then some d else List.lookup k c := by
  induction c with
  | nil => rw [set, lookup_cons]
  | cons e c ih =>
    obtain ⟨k', x⟩ := e
    rw [set]
    by_cases hk : k' = key
    · subst hk
      rw [if_pos rfl, lookup_cons, lookup_cons]
      split <;> rfl
    · rw [if_neg hk, lookup_cons, ih, lookup_cons]
      by_cases h : k = k'
      · rw [if_pos h, if_pos h, if_neg (h ▸ hk)]
      · rw [if_neg h, if_neg h]

end Dictionary

end Wanderlust
