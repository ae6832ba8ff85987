import Mathlib.Algebra.Order.Group.Multiset
import Wanderlust.Foundations.Runs

/-!
# What is spent has been earned

A system that hands something over in several steps: what a step earns is held for a while, may be
lost, and is spent by a later step. `IsRun.credit` is the rule for its runs. What is held is mostly
in a list of messages that are on their way (`coe_filterMap_eraseIdx`).
-/

namespace Wanderlust.Runs

variable {σ ι α β : Type*} {R : σ → ι → σ → Prop} {cond : σ → ι → Prop} {I : σ → Prop} {s : σ}
  {tr : List (ι × σ)}

/-- If no step spends more than it earns or takes from what is held, then no run spends more than it
earns. -/
theorem IsRun.credit (held : σ → Multiset α) (earned spent : σ → ι → List α)
    (hstep : ∀ s i s', I s → R s i s' → cond s i →
      I s' ∧ held s' + ↑(spent s i) ≤ held s + ↑(earned s i))
    (h : IsRun R s tr) (hs : I s) (hc : Meets cond s tr) :
    held (Runs.final s tr) + ↑(Runs.collect spent s tr) ≤
      held s + ↑(Runs.collect earned s tr) := by
  induction tr generalizing s with
  | nil => simp [Runs.final, Runs.collect]
  | cons x tr ih =>
    obtain ⟨hI, hx⟩ := hstep _ _ _ hs h.1 hc.1
    have hrest := ih h.2 hI hc.2
    simp only [Runs.final, Runs.collect, ← Multiset.coe_add] at hrest ⊢
    calc held (Runs.final x.2 tr) + (↑(spent s x.1) + ↑(Runs.collect spent x.2 tr))
        = held (Runs.final x.2 tr) + ↑(Runs.collect spent x.2 tr) + ↑(spent s x.1) := by
          rw [add_assoc, add_comm (↑(spent s x.1) : Multiset α)]
      _ ≤ held x.2 + ↑(Runs.collect earned x.2 tr) + ↑(spent s x.1) := by gcongr
      _ = held x.2 + ↑(spent s x.1) + ↑(Runs.collect earned x.2 tr) := add_right_comm _ _ _
      _ ≤ held s + ↑(earned s x.1) + ↑(Runs.collect earned x.2 tr) := by gcongr
      _ = held s + (↑(earned s x.1) + ↑(Runs.collect earned x.2 tr)) := add_assoc _ _ _

/-- What a step does may be of two kinds. -/
theorem mem_collect_append {f g : σ → ι → List α} {a : α} :
    a ∈ Runs.collect (fun s i => f s i ++ g s i) s tr ↔
      a ∈ Runs.collect f s tr ∨ a ∈ Runs.collect g s tr := by
  induction tr generalizing s with
  | nil => simp [Runs.collect]
  | cons x tr ih =>
    simp only [Runs.collect, List.mem_append, ih]
    exact or_or_or_comm

/-- A message is taken out. -/
theorem coe_filterMap_eraseIdx {f : α → Option β} {l : List α} {i : ℕ} {x : α}
    (h : l[i]? = some x) :
    (↑(l.filterMap f) : Multiset β) = ↑((l.eraseIdx i).filterMap f) + ↑(f x).toList := by
  obtain ⟨hlt, rfl⟩ := List.getElem?_eq_some_iff.mp h
  have hperm := ((List.getElem_cons_eraseIdx_perm hlt).filterMap f).symm
  rw [Multiset.coe_eq_coe.mpr hperm, add_comm, Multiset.coe_add, List.filterMap_cons]
  cases f l[i] <;> rfl

end Wanderlust.Runs
