import Mathlib.Data.List.Forall2
import Mathlib.Data.List.Induction
import Mathlib.Data.Set.Insert
import Wanderlust.Foundations.Runs

/-!
# Runs on two levels

`IsRun.simulate` is the rule for refinement: if every step of a system is a step of a simpler one,
seen through a function on the states, then so is every run.

A fact that steps establish or destroy holds at the end of a run exactly if the last step that
decided it has established it (`IsRun.lastWord`).

Where only the labels and the ends of a run matter, `Leads` is the run, and `Leads.simulate` the
rule for refinement up to a relation.
-/

namespace Wanderlust.Runs

variable {σ ι σ' ι' : Type*} {R : σ → ι → σ → Prop} {R' : σ' → ι' → σ' → Prop} {I : σ → Prop}
  {s : σ} {tr : List (ι × σ)}

/-- **The rule for refinement**: `names` relates the labels of the two systems. -/
theorem IsRun.simulate (view : σ → σ') (names : ι → ι' → Prop)
    (hstep : ∀ s i s', I s → R s i s' → I s' ∧ ∃ j, names i j ∧ R' (view s) j (view s'))
    (h : IsRun R s tr) (hs : I s) :
    ∃ tr', List.Forall₂ (fun x y => names x.1 y.1 ∧ y.2 = view x.2) tr tr' ∧
      IsRun R' (view s) tr' := by
  induction tr generalizing s with
  | nil => exact ⟨[], .nil, trivial⟩
  | cons x tr ih =>
    obtain ⟨hI, j, hj, hR⟩ := hstep _ _ _ hs h.1
    obtain ⟨tr', htr', hrun⟩ := ih h.2 hI
    exact ⟨(j, view x.2) :: tr', .cons ⟨hj, rfl⟩ htr', hR, hrun⟩

/-- The last states of two runs of which one simulates the other. -/
theorem final_of_forall₂ (view : σ → σ') (names : ι → ι' → Prop) (s : σ) {tr' : List (ι' × σ')}
    (h : List.Forall₂ (fun x y => names x.1 y.1 ∧ y.2 = view x.2) tr tr') :
    final (view s) tr' = view (final s tr) := by
  induction h generalizing s with
  | nil => rfl
  | @cons x y tr tr' hxy _ ih =>
    rw [final, hxy.2]
    exact ih x.2

/-- The last of the labels that decide something decides for it. -/
def LastWord (verdict : ι → Option Bool) (labels : List ι) : Prop :=
  (labels.filterMap verdict).getLast? = some true

/-- **The rule for facts that are decided again and again.** -/
theorem IsRun.lastWord (holds : σ → Prop) (verdict : ι → Option Bool)
    (hstep : ∀ s i s', R s i s' → (holds s' ↔ verdict i = some true ∨ verdict i = none ∧ holds s))
    (h : IsRun R s tr) (hs : ¬ holds s) :
    holds (Runs.final s tr) ↔ LastWord verdict (tr.map Prod.fst) := by
  induction tr using List.reverseRecOn with
  | nil => simp [Runs.final, hs, LastWord]
  | append_singleton tr x ih =>
    obtain ⟨htr, hx⟩ := isRun_append.mp h
    rw [final_append, LastWord, List.map_append, List.filterMap_append]
    refine (hstep _ _ _ hx.1).trans ?_
    rw [ih htr, LastWord]
    cases hv : verdict x.1 with
    | none => simp [hv]
    | some b => cases b <;> simp [hv]

/-! ## The ends of runs -/

/-- Steps with these labels lead from one state to another. -/
def Leads (R : σ → ι → σ → Prop) : σ → List ι → σ → Prop
  | s, [], s' => s' = s
  | s, i :: is, s' => ∃ s₁, R s i s₁ ∧ Leads R s₁ is s'

section

variable {s' : σ} {is is' : List ι}

theorem leads_append : Leads R s (is ++ is') s' ↔ ∃ s₁, Leads R s is s₁ ∧ Leads R s₁ is' s' := by
  induction is generalizing s with
  | nil => exact ⟨fun h => ⟨s, rfl, h⟩, fun ⟨_, hs, h⟩ => hs ▸ h⟩
  | cons i is ih =>
    constructor
    · rintro ⟨s₁, hR, h⟩
      obtain ⟨s₂, hfirst, hrest⟩ := ih.mp h
      exact ⟨s₂, ⟨s₁, hR, hfirst⟩, hrest⟩
    · rintro ⟨s₂, ⟨s₁, hR, hfirst⟩, hrest⟩
      exact ⟨s₁, hR, ih.mpr ⟨s₂, hfirst, hrest⟩⟩

/-- **The rule for refinement up to a relation**: `f` names the steps of the simpler system, for
the labels that meet `P`. -/
theorem Leads.simulate {rel : σ → σ' → Prop} {f : ι → ι'} {P : ι → Prop}
    (hstep : ∀ s t i s', rel s t → P i → R s i s' → ∃ t', R' t (f i) t' ∧ rel s' t') {t : σ'}
    (h : Leads R s is s') (hP : ∀ i ∈ is, P i) (hs : rel s t) :
    ∃ t', Leads R' t (is.map f) t' ∧ rel s' t' := by
  induction is generalizing s t with
  | nil => exact ⟨t, rfl, h ▸ hs⟩
  | cons i is ih =>
    obtain ⟨hi, his⟩ := List.forall_mem_cons.mp hP
    obtain ⟨s₁, hR, h⟩ := h
    obtain ⟨t₁, hR', hs₁⟩ := hstep s t i s₁ hs hi hR
    obtain ⟨t', h', hs'⟩ := ih h his hs₁
    exact ⟨t', ⟨t₁, hR', h'⟩, hs'⟩

end

section

variable {α : Type*} [DecidableEq α]

/-- To add an element is a decision about it. -/
theorem mem_insert_iff_verdict (x y : α) (s : Set α) :
    y ∈ insert x s ↔ (if x = y then some true else none) = some true ∨
      (if x = y then some true else none) = none ∧ y ∈ s := by
  by_cases h : x = y
  · simp [h]
  · simp [h, Ne.symm h]

/-- To take an element away is a decision about it. -/
theorem mem_sdiff_iff_verdict (x y : α) (s : Set α) :
    y ∈ s \ {x} ↔ (if x = y then some false else none) = some true ∨
      (if x = y then some false else none) = none ∧ y ∈ s := by
  by_cases h : x = y
  · simp [h]
  · simp [h, Ne.symm h]

end

end Wanderlust.Runs
