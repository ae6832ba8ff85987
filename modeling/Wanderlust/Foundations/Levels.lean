import Wanderlust.Foundations.Collection

/-!
# Two levels of a collection

A collection of records and one of what is stored for them. Where there is a record there is
something stored that represents it; where there is none, there may still be something, that
represents nothing. Whatever does the same to the record as to what is stored keeps this.
-/

namespace Wanderlust

variable {κ δ ε : Type*} [DecidableEq κ] {R : κ → δ → ε → Prop} {J : ε → Prop}
  {c : Collection κ δ} {s : Collection κ ε} {k : κ}

/-- `s` stores the records of `c`, and what else it stores is junk. -/
structure Levels (R : κ → δ → ε → Prop) (J : ε → Prop) (c : Collection κ δ) (s : Collection κ ε) :
    Prop where
  represented : ∀ k d, c.lookup k = some d → ∃ e, s.lookup k = some e ∧ R k d e
  junk : ∀ k e, c.lookup k = none → s.lookup k = some e → J e

namespace Levels

theorem empty (R : κ → δ → ε → Prop) (J : ε → Prop) :
    Levels R J (∅ : Collection κ δ) (∅ : Collection κ ε) where
  represented _ _ h := nomatch h
  junk _ _ _ h := nomatch h

/-- At every key, either there is a record or there is not. -/
theorem cases (h : Levels R J c s) (k : κ) :
    (∃ d e, c.lookup k = some d ∧ s.lookup k = some e ∧ R k d e) ∨
      (c.lookup k = none ∧ ∀ e, s.lookup k = some e → J e) := by
  cases hc : c.lookup k with
  | none => exact .inr ⟨rfl, fun e he => h.junk k e hc he⟩
  | some d =>
    obtain ⟨e, he, hR⟩ := h.represented k d hc
    exact .inl ⟨d, e, rfl, he, hR⟩

/-- Something is written at `k` on both levels, and nothing elsewhere. -/
theorem update {c' : Collection κ δ} {s' : Collection κ ε} (h : Levels R J c s)
    (hc : ∀ k', k' ≠ k → c'.lookup k' = c.lookup k')
    (hs : ∀ k', k' ≠ k → s'.lookup k' = s.lookup k')
    (hrepresented : ∀ d, c'.lookup k = some d → ∃ e, s'.lookup k = some e ∧ R k d e)
    (hjunk : ∀ e, c'.lookup k = none → s'.lookup k = some e → J e) : Levels R J c' s' where
  represented k' d hd := by
    by_cases hk : k' = k
    · subst hk
      exact hrepresented d hd
    · rw [hs k' hk]
      exact h.represented k' d (hc k' hk ▸ hd)
  junk k' e hd he := by
    by_cases hk : k' = k
    · subst hk
      exact hjunk e hd he
    · exact h.junk k' e (hc k' hk ▸ hd) (hs k' hk ▸ he)

theorem insert {d : δ} {e : ε} (h : Levels R J c s) (hR : R k d e) :
    Levels R J (c.insert k d) (s.insert k e) := by
  refine h.update (fun k' hk => AList.lookup_insert_ne hk)
    (fun k' hk => AList.lookup_insert_ne hk) (fun d' hd => ?_) fun e' hd => ?_
  · rw [AList.lookup_insert, Option.some.injEq] at hd
    exact ⟨e, AList.lookup_insert s, hd ▸ hR⟩
  · rw [AList.lookup_insert] at hd
    cases hd

/-- `f` is done to the record, and `g` to what is stored, whether it represents it or nothing. -/
theorem modify {f : δ → δ} {g : ε → ε} (h : Levels R J c s)
    (hR : ∀ d e, R k d e → R k (f d) (g e)) (hJ : ∀ e, s.lookup k = some e → J e → J (g e)) :
    Levels R J (c.modify k f) (s.modify k g) := by
  refine h.update (fun k' hk => Collection.lookup_modify_ne hk f c)
    (fun k' hk => Collection.lookup_modify_ne hk g s) (fun d' hd => ?_) fun e' hd he => ?_
  · rw [Collection.lookup_modify] at hd
    obtain ⟨d, hc, rfl⟩ := Option.map_eq_some_iff.mp hd
    obtain ⟨e, he, hde⟩ := h.represented k d hc
    exact ⟨g e, by rw [Collection.lookup_modify, he]; rfl, hR d e hde⟩
  · rw [Collection.lookup_modify] at hd he
    obtain ⟨e, hs, rfl⟩ := Option.map_eq_some_iff.mp he
    exact hJ e hs (h.junk k e (Option.map_eq_none_iff.mp hd) hs)

/-- `g` is done to what is stored, and to `e₀` if there is nothing. -/
theorem merge {f : δ → δ} {g : ε → ε} {e₀ : ε} (h : Levels R J c s)
    (hR : ∀ d e, R k d e → R k (f d) (g e)) (hJ : ∀ e, J e → J (g e)) (h₀ : J (g e₀)) :
    Levels R J (c.modify k f) (s.insert k (g ((s.lookup k).getD e₀))) := by
  refine h.update (fun k' hk => Collection.lookup_modify_ne hk f c)
    (fun k' hk => AList.lookup_insert_ne hk) (fun d' hd => ?_) fun e' hd he => ?_
  · rw [Collection.lookup_modify] at hd
    obtain ⟨d, hc, rfl⟩ := Option.map_eq_some_iff.mp hd
    obtain ⟨e, he, hde⟩ := h.represented k d hc
    exact ⟨g e, by rw [AList.lookup_insert, he]; rfl, hR d e hde⟩
  · rw [Collection.lookup_modify] at hd
    rw [AList.lookup_insert, Option.some.injEq] at he
    subst he
    cases he : s.lookup k with
    | none => exact h₀
    | some e => exact hJ e (h.junk k e (Option.map_eq_none_iff.mp hd) he)

theorem erase (h : Levels R J c s) (k : κ) : Levels R J (c.erase k) (s.erase k) := by
  refine h.update (fun k' hk => AList.lookup_erase_ne hk) (fun k' hk => AList.lookup_erase_ne hk)
    (fun d hd => ?_) fun e _ he => ?_
  · rw [AList.lookup_erase] at hd
    cases hd
  · rw [AList.lookup_erase] at he
    cases he

end Levels

end Wanderlust
