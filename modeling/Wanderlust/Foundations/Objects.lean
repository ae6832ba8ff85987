import Mathlib.Data.Set.Basic
import Wanderlust.Foundations.Collection

/-!
# Objects on their way

A client stores objects and deletes others; the answers arrive in any order, and an object is
there, or gone, when the answer does. `Transfer` says what there is in the meantime, and
`Transfer.mem_iff` what there is when nothing is on its way any more. `Erasing` is for clients
that only delete; `Erasing.lookup_eq` compares two of them.
-/

namespace Wanderlust

variable {κ δ : Type*} [DecidableEq κ]

/-- Of the objects in `F`, those in `U` are being stored and those in `D` deleted, where `ups` and
`dels` are still on their way; `c₀` has become `c`. -/
structure Transfer (F U D : Set κ) (c₀ c : Collection κ δ) (ups dels : Set κ) : Prop where
  disjoint : ∀ p ∈ F, p ∈ U → p ∉ D
  storing : ∀ p ∈ F, p ∈ ups → p ∈ U
  deleting : ∀ p ∈ F, p ∈ dels → p ∈ D
  origin : ∀ p ∈ F, p ∈ c → p ∈ U ∨ p ∈ c₀
  stored : ∀ p ∈ F, p ∈ U → p ∈ c ∨ p ∈ ups
  gone : ∀ p ∈ F, p ∈ D → p ∉ c ∨ p ∈ dels
  kept : ∀ p ∈ F, p ∈ c₀ → p ∉ D → p ∈ c

namespace Transfer

variable {F U D ups dels ups' dels' : Set κ} {c₀ c : Collection κ δ} {p : κ}

/-- Everything is still on its way. -/
theorem start (hdisjoint : ∀ p ∈ F, p ∈ U → p ∉ D) (hups : ∀ p ∈ F, p ∈ ups ↔ p ∈ U)
    (hdels : ∀ p ∈ F, p ∈ dels ↔ p ∈ D) (c : Collection κ δ) : Transfer F U D c c ups dels where
  disjoint := hdisjoint
  storing p hp := (hups p hp).mp
  deleting p hp := (hdels p hp).mp
  origin _ _ h := Or.inr h
  stored p hp h := Or.inr ((hups p hp).mpr h)
  gone p hp h := Or.inr ((hdels p hp).mpr h)
  kept _ _ h _ := h

/-- The same objects are on their way. -/
theorem congr (h : Transfer F U D c₀ c ups dels) (hups : ∀ p ∈ F, p ∈ ups' ↔ p ∈ ups)
    (hdels : ∀ p ∈ F, p ∈ dels' ↔ p ∈ dels) : Transfer F U D c₀ c ups' dels' where
  disjoint := h.disjoint
  storing p hp hup := h.storing p hp ((hups p hp).mp hup)
  deleting p hp hdel := h.deleting p hp ((hdels p hp).mp hdel)
  origin := h.origin
  stored p hp hU := (h.stored p hp hU).imp_right (hups p hp).mpr
  gone p hp hD := (h.gone p hp hD).imp_right (hdels p hp).mpr
  kept := h.kept

/-- An object is stored. -/
theorem store (h : Transfer F U D c₀ c ups dels) (hp : p ∈ F → p ∈ ups) (d : δ)
    (hsub : ∀ q ∈ F, q ∈ ups' → q ∈ ups) (hrest : ∀ q ∈ F, q ∈ ups → q = p ∨ q ∈ ups') :
    Transfer F U D c₀ (c.insert p d) ups' dels where
  disjoint := h.disjoint
  storing q hq hup := h.storing q hq (hsub q hq hup)
  deleting := h.deleting
  origin q hq hmem := by
    rcases (AList.mem_insert _).mp hmem with rfl | hmem
    · exact Or.inl (h.storing q hq (hp hq))
    · exact h.origin q hq hmem
  stored q hq hU := by
    rw [AList.mem_insert, or_assoc]
    rcases h.stored q hq hU with hmem | hup
    · exact Or.inr (Or.inl hmem)
    · exact (hrest q hq hup).imp_right Or.inr
  gone q hq hD := by
    refine (h.gone q hq hD).imp_left fun hno hmem => ?_
    rcases (AList.mem_insert _).mp hmem with rfl | hmem
    · exact h.disjoint q hq (h.storing q hq (hp hq)) hD
    · exact hno hmem
  kept q hq hold hD := (AList.mem_insert _).mpr (Or.inr (h.kept q hq hold hD))

/-- An object is deleted. -/
theorem delete (h : Transfer F U D c₀ c ups dels) (hp : p ∈ F → p ∈ dels)
    (hsub : ∀ q ∈ F, q ∈ dels' → q ∈ dels) (hrest : ∀ q ∈ F, q ∈ dels → q = p ∨ q ∈ dels') :
    Transfer F U D c₀ (c.erase p) ups dels' where
  disjoint := h.disjoint
  storing := h.storing
  deleting q hq hdel := h.deleting q hq (hsub q hq hdel)
  origin q hq hmem := h.origin q hq (AList.mem_erase.mp hmem).2
  stored q hq hU := by
    refine (h.stored q hq hU).imp_left fun hmem => AList.mem_erase.mpr ⟨?_, hmem⟩
    rintro rfl
    exact h.disjoint q hq hU (h.deleting q hq (hp hq))
  gone q hq hD := by
    rcases h.gone q hq hD with hno | hdel
    · exact Or.inl fun hmem => hno (AList.mem_erase.mp hmem).2
    · rcases hrest q hq hdel with rfl | hdel
      · exact Or.inl fun hmem => (AList.mem_erase.mp hmem).1 rfl
      · exact Or.inr hdel
  kept q hq hold hD := by
    refine AList.mem_erase.mpr ⟨?_, h.kept q hq hold hD⟩
    rintro rfl
    exact hD (h.deleting q hq (hp hq))

/-- The deletion of an object that is not there, or not to be deleted, fails. -/
theorem skip (h : Transfer F U D c₀ c ups dels) (hp : p ∈ F → p ∈ D → p ∉ c)
    (hsub : ∀ q ∈ F, q ∈ dels' → q ∈ dels) (hrest : ∀ q ∈ F, q ∈ dels → q = p ∨ q ∈ dels') :
    Transfer F U D c₀ c ups dels' where
  disjoint := h.disjoint
  storing := h.storing
  deleting q hq hdel := h.deleting q hq (hsub q hq hdel)
  origin := h.origin
  stored := h.stored
  gone q hq hD := by
    rcases h.gone q hq hD with hno | hdel
    · exact Or.inl hno
    · rcases hrest q hq hdel with rfl | hdel
      · exact Or.inl (hp hq hD)
      · exact Or.inr hdel
  kept := h.kept

/-- **What there is in the end.** -/
theorem mem_iff (h : Transfer F U D c₀ c ups dels) (hups : ∀ p ∈ F, p ∉ ups)
    (hdels : ∀ p ∈ F, p ∉ dels) (hp : p ∈ F) : p ∈ c ↔ p ∈ U ∨ p ∈ c₀ ∧ p ∉ D := by
  constructor
  · intro hmem
    have hnot : p ∉ D := fun hD => (h.gone p hp hD).elim (fun hno => hno hmem) (hdels p hp)
    exact (h.origin p hp hmem).imp_right fun hold => ⟨hold, hnot⟩
  · rintro (hU | ⟨hold, hnot⟩)
    · exact (h.stored p hp hU).resolve_right (hups p hp)
    · exact h.kept p hp hold hnot

end Transfer

/-- Of a collection `c₀`, which has become `c`, the objects in `D` are being deleted, where `dels`
are still on their way. -/
structure Erasing (D : Set κ) (c₀ c : Collection κ δ) (dels : Set κ) : Prop where
  deleting : ∀ p ∈ dels, p ∈ D
  gone : ∀ p ∈ D, c.lookup p = none ∨ p ∈ dels
  kept : ∀ p ∉ D, c.lookup p = c₀.lookup p

namespace Erasing

variable {D dels dels' : Set κ} {c₀ c : Collection κ δ} {p : κ}

/-- Nothing has been deleted yet. -/
theorem start (D : Set κ) (c : Collection κ δ) : Erasing D c c D where
  deleting _ h := h
  gone _ h := Or.inr h
  kept _ _ := rfl

/-- An object is deleted. -/
theorem delete (h : Erasing D c₀ c dels) (hp : p ∈ dels) (hsub : ∀ q ∈ dels', q ∈ dels)
    (hrest : ∀ q ∈ dels, q = p ∨ q ∈ dels') : Erasing D c₀ (c.erase p) dels' where
  deleting q hq := h.deleting q (hsub q hq)
  gone q hq := by
    rw [Collection.lookup_erase_eq]
    split
    · exact Or.inl rfl
    · rename_i hne
      exact (h.gone q hq).imp_right fun hdel => (hrest q hdel).resolve_left hne
  kept q hq := by
    have hne : q ≠ p := fun heq => hq (heq ▸ h.deleting p hp)
    rw [Collection.lookup_erase_eq, if_neg hne]
    exact h.kept q hq

/-- The deletion of an object that is not there fails. -/
theorem skip (h : Erasing D c₀ c dels) (hp : p ∉ c) (hsub : ∀ q ∈ dels', q ∈ dels)
    (hrest : ∀ q ∈ dels, q = p ∨ q ∈ dels') : Erasing D c₀ c dels' where
  deleting q hq := h.deleting q (hsub q hq)
  gone q hq := by
    rcases h.gone q hq with hgone | hdel
    · exact Or.inl hgone
    · rcases hrest q hdel with rfl | hdel
      · exact Or.inl (AList.lookup_eq_none.mpr hp)
      · exact Or.inr hdel
  kept := h.kept

/-- An answer arrives; the deletion of an object that is there does not fail. -/
theorem answer {ok : Bool} (h : Erasing D c₀ c dels) (hp : p ∈ dels) (hok : p ∈ c → ok = true)
    (hsub : ∀ q ∈ dels', q ∈ dels) (hrest : ∀ q ∈ dels, q = p ∨ q ∈ dels') :
    Erasing D c₀ (if ok then c.erase p else c) dels' := by
  cases ok with
  | true => exact h.delete hp hsub hrest
  | false => exact h.skip (fun hmem => Bool.false_ne_true (hok hmem)) hsub hrest

/-- **Two deletions of the same objects** leave the same behind. -/
theorem lookup_eq {c' : Collection κ δ} (h : Erasing D c₀ c ∅) (h' : Erasing D c₀ c' ∅) (p : κ) :
    c.lookup p = c'.lookup p := by
  by_cases hp : p ∈ D
  · have hgone : c.lookup p = none := (h.gone p hp).resolve_right (Set.notMem_empty p)
    have hgone' : c'.lookup p = none := (h'.gone p hp).resolve_right (Set.notMem_empty p)
    rw [hgone, hgone']
  · rw [h.kept p hp, h'.kept p hp]

end Erasing

end Wanderlust
