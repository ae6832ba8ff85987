import Mathlib.Algebra.Order.Group.Multiset
import Wanderlust.Foundations.Collection

/-!
# Objects that are stored together

A client stores several objects at once. When one is stored the client asks for its address, and it
lists what it is told, in the order of the answers. `Uploads` says how far this has come; in the end
everything is listed and stored (`Uploads.listed_perm`, `Uploads.stored`), and nothing else is
touched (`Uploads.kept`).
-/

namespace Wanderlust

variable {κ δ : Type*} [DecidableEq κ]

/-- Of the `objects`, some are being stored, some are stored and their address is asked for, and
some are listed; `c₀` has become `c`. -/
structure Uploads (objects : List (κ × δ)) (c₀ c : Collection κ δ)
    (storing waiting : Multiset (κ × δ)) (listed : List (κ × δ)) : Prop where
  total : storing + waiting + ↑listed = (↑objects : Multiset (κ × δ))
  stored : ∀ o ∈ waiting + ↑listed, c.lookup o.1 = some o.2
  kept : ∀ k ∉ objects.map Prod.fst, c.lookup k = c₀.lookup k

namespace Uploads

variable {objects listed : List (κ × δ)} {c₀ c : Collection κ δ}
  {storing waiting : Multiset (κ × δ)} {o : κ × δ}

/-- Everything is being stored. -/
theorem start (objects : List (κ × δ)) (c : Collection κ δ) :
    Uploads objects c c ↑objects 0 [] where
  total := by simp
  stored _ ho := by simp at ho
  kept _ _ := rfl

theorem mem_of_storing (h : Uploads objects c₀ c (o ::ₘ storing) waiting listed) :
    o ∈ objects := by
  rw [← Multiset.mem_coe, ← h.total]
  simp

/-- An object is stored. -/
theorem store (h : Uploads objects c₀ c (o ::ₘ storing) waiting listed)
    (hnodup : (objects.map Prod.fst).Nodup) :
    Uploads objects c₀ (c.insert o.1 o.2) storing (o ::ₘ waiting) listed := by
  have hmem := h.mem_of_storing
  have htotal : storing + (o ::ₘ waiting) + ↑listed = (↑objects : Multiset (κ × δ)) := by
    rw [← h.total, Multiset.add_cons, Multiset.cons_add, Multiset.cons_add, Multiset.cons_add]
  -- no other object has this name
  have hother : ∀ o' ∈ waiting + ↑listed, o'.1 ≠ o.1 := by
    have hkeys : (o.1 ::ₘ (storing + (waiting + ↑listed)).map Prod.fst).Nodup := by
      rw [← Multiset.map_cons, ← Multiset.cons_add, ← add_assoc, h.total, Multiset.map_coe]
      exact hnodup
    intro o' ho' hsame
    refine (Multiset.nodup_cons.mp hkeys).1 (Multiset.mem_map.mpr ⟨o', ?_, hsame⟩)
    exact Multiset.mem_add.mpr (.inr ho')
  refine ⟨htotal, fun o' ho' => ?_, fun k hk => ?_⟩
  · rw [Multiset.cons_add, Multiset.mem_cons] at ho'
    rcases ho' with rfl | ho'
    · exact AList.lookup_insert _
    · rw [AList.lookup_insert_ne (hother o' ho')]
      exact h.stored o' ho'
  · have hne : k ≠ o.1 := fun hsame => hk (hsame ▸ List.mem_map_of_mem hmem)
    rw [AList.lookup_insert_ne hne]
    exact h.kept k hk

/-- An address arrives. -/
theorem list (h : Uploads objects c₀ c storing (o ::ₘ waiting) listed) :
    Uploads objects c₀ c storing waiting (listed ++ [o]) := by
  have hsame : waiting + ↑(listed ++ [o]) = o ::ₘ waiting + (↑listed : Multiset (κ × δ)) := by
    rw [← Multiset.coe_add, Multiset.coe_singleton, ← add_assoc, add_comm, Multiset.singleton_add,
      Multiset.cons_add]
  refine ⟨?_, fun o' ho' => h.stored o' (hsame ▸ ho'), h.kept⟩
  rw [add_assoc, hsame, ← add_assoc, h.total]

theorem length_eq (h : Uploads objects c₀ c storing waiting listed) :
    storing.card + waiting.card + listed.length = objects.length := by
  have hcard := congrArg Multiset.card h.total
  simpa using hcard

/-- **Everything is listed** when as many are listed as there are. -/
theorem done (h : Uploads objects c₀ c storing waiting listed)
    (hlength : listed.length = objects.length) : storing = 0 ∧ waiting = 0 := by
  have htotal := h.length_eq
  exact ⟨Multiset.card_eq_zero.mp (by omega), Multiset.card_eq_zero.mp (by omega)⟩

theorem listed_perm (h : Uploads objects c₀ c 0 0 listed) : listed.Perm objects := by
  have htotal := h.total
  rw [zero_add, zero_add] at htotal
  exact Multiset.coe_eq_coe.mp htotal

end Uploads

end Wanderlust
