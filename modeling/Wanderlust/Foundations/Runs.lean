import Mathlib.Data.List.Basic

/-!
# Runs of a labelled transition system

A run is a start state together with the list of the labels taken, each with the state it
leads to (`IsRun`). Two rules are proved about runs, for any system and any label type:

* `IsRun.invariant`: what the start state has, and every step allowed by a side condition keeps,
  holds in every state of a run whose steps all meet the side condition (`Meets`);
* `IsRun.forall_iff_meets`: when the side condition is also necessary for one step to stay good,
  the runs that stay good are exactly those whose steps all meet it.

`MeetsSince` is a side condition that matters only since the last reset
(`IsRun.final_iff_meetsSince`). `IsRun.final_log_iff` is the rule for a list to which a run appends.
`times` counts the steps of a run that meet a condition, and `IsRun.balance` is the rule for what is
put in and taken out.
`collect` lists what the steps of a run have done, and `IsRun.collect` is the rule for invariants
that refer to it. `MeetsAfter` is a side condition that does (`IsRun.final_iff_meetsAfter`).
-/

namespace Wanderlust.Runs

variable {σ ι : Type*}

/-- `IsRun R s tr`: the steps of `tr` can be taken one after the other from `s`. -/
def IsRun (R : σ → ι → σ → Prop) : σ → List (ι × σ) → Prop
  | _, [] => True
  | s, (i, s') :: tr => R s i s' ∧ IsRun R s' tr

/-- Every step of the run meets `cond`, a condition on its label and on the state before it. -/
def Meets (cond : σ → ι → Prop) : σ → List (ι × σ) → Prop
  | _, [] => True
  | s, (i, s') :: tr => cond s i ∧ Meets cond s' tr

/-- The last state. -/
def final : σ → List (ι × σ) → σ
  | s, [] => s
  | _, (_, s') :: tr => final s' tr

/-- The number of steps that meet `cond`. -/
def times (cond : σ → ι → Prop) [∀ s i, Decidable (cond s i)] : σ → List (ι × σ) → ℕ
  | _, [] => 0
  | s, (i, s') :: tr => (if cond s i then 1 else 0) + times cond s' tr

/-- What the steps of a run have done, where `f` says what a step does. -/
def collect {α : Type*} (f : σ → ι → List α) : σ → List (ι × σ) → List α
  | _, [] => []
  | s, (i, s') :: tr => f s i ++ collect f s' tr

/-- Every step meets `cond`, which refers to what has been done before it. -/
def MeetsAfter {α : Type*} (f : σ → ι → List α) (cond : List α → σ → ι → Prop) :
    List α → σ → List (ι × σ) → Prop
  | _, _, [] => True
  | as, s, (i, s') :: tr => cond as s i ∧ MeetsAfter f cond (as ++ f s i) s' tr

/-- Every step that is no `reset` and that none follows meets `cond`. -/
def MeetsSince (reset cond : σ → ι → Prop) : σ → List (ι × σ) → Prop
  | _, [] => True
  | s, (i, s') :: tr =>
    (¬ reset s i → Meets (fun s i => ¬ reset s i) s' tr → cond s i) ∧ MeetsSince reset cond s' tr

variable {R : σ → ι → σ → Prop} {cond : σ → ι → Prop} {I G : σ → Prop} {s : σ}
  {tr : List (ι × σ)}

@[simp] theorem isRun_nil (s : σ) : IsRun R s [] := trivial

@[simp] theorem meets_nil (s : σ) : Meets cond s [] := trivial

@[simp] theorem isRun_cons {i : ι} {s' : σ} :
    IsRun R s ((i, s') :: tr) ↔ R s i s' ∧ IsRun R s' tr := Iff.rfl

@[simp] theorem meets_cons {i : ι} {s' : σ} :
    Meets cond s ((i, s') :: tr) ↔ cond s i ∧ Meets cond s' tr := Iff.rfl

instance decidableMeets [∀ s i, Decidable (cond s i)] :
    (s : σ) → (tr : List (ι × σ)) → Decidable (Meets cond s tr)
  | _, [] => inferInstanceAs (Decidable True)
  | s, (i, s') :: tr =>
    have := decidableMeets s' tr
    inferInstanceAs (Decidable (cond s i ∧ Meets cond s' tr))

instance decidableMeetsAfter {α : Type*} {f : σ → ι → List α} {cond : List α → σ → ι → Prop}
    [∀ as s i, Decidable (cond as s i)] :
    (as : List α) → (s : σ) → (tr : List (ι × σ)) → Decidable (MeetsAfter f cond as s tr)
  | _, _, [] => inferInstanceAs (Decidable True)
  | as, s, (i, s') :: tr =>
    have : Decidable (MeetsAfter f cond (as ++ f s i) s' tr) :=
      decidableMeetsAfter (as ++ f s i) s' tr
    inferInstanceAs (Decidable (cond as s i ∧ MeetsAfter f cond (as ++ f s i) s' tr))

instance decidableMeetsSince {reset : σ → ι → Prop} [∀ s i, Decidable (reset s i)]
    [∀ s i, Decidable (cond s i)] :
    (s : σ) → (tr : List (ι × σ)) → Decidable (MeetsSince reset cond s tr)
  | _, [] => inferInstanceAs (Decidable True)
  | s, (i, s') :: tr =>
    have : Decidable (Meets (fun s i => ¬ reset s i) s' tr) := decidableMeets s' tr
    have : Decidable (MeetsSince reset cond s' tr) := decidableMeetsSince s' tr
    inferInstanceAs (Decidable ((¬ reset s i → Meets (fun s i => ¬ reset s i) s' tr → cond s i) ∧
      MeetsSince reset cond s' tr))

/-- The run that a list of labels leads through, when the steps can be computed. -/
def play (f : σ → ι → Option σ) : List ι → σ → Option (List (ι × σ))
  | [], _ => some []
  | i :: is, s => (f s i).bind fun s' => (play f is s').map fun tr => (i, s') :: tr

theorem isRun_of_play {f : σ → ι → Option σ} {is : List ι} (h : play f is s = some tr) :
    IsRun (fun s i s' => f s i = some s') s tr := by
  induction is generalizing s tr with
  | nil =>
    cases h
    trivial
  | cons i is ih =>
    obtain ⟨s', hs', h⟩ := Option.bind_eq_some_iff.mp h
    obtain ⟨tr', htr', rfl⟩ := Option.map_eq_some_iff.mp h
    exact ⟨hs', ih htr'⟩

/-- The run has these labels. -/
theorem labels_of_play {f : σ → ι → Option σ} {is : List ι} (h : play f is s = some tr) :
    tr.map Prod.fst = is := by
  induction is generalizing s tr with
  | nil =>
    cases h
    rfl
  | cons i is ih =>
    obtain ⟨s', -, h⟩ := Option.bind_eq_some_iff.mp h
    obtain ⟨tr', htr', rfl⟩ := Option.map_eq_some_iff.mp h
    exact congrArg (i :: ·) (ih htr')

/-- A condition that every step has is met by every run. -/
theorem IsRun.meets (h : IsRun R s tr) (hR : ∀ s i s', R s i s' → cond s i) :
    Meets cond s tr := by
  induction tr generalizing s with
  | nil => trivial
  | cons x tr ih => exact ⟨hR _ _ _ h.1, ih h.2⟩

/-- **The invariant rule.** -/
theorem IsRun.invariant (hstep : ∀ s i s', I s → R s i s' → cond s i → I s')
    (h : IsRun R s tr) (hs : I s) (hc : Meets cond s tr) : ∀ x ∈ tr, I x.2 := by
  induction tr generalizing s with
  | nil => simp
  | cons x tr ih =>
    have hx : I x.2 := hstep _ _ _ hs h.1 hc.1
    intro y hy
    rcases List.mem_cons.mp hy with rfl | hy
    · exact hx
    · exact ih h.2 hx hc.2 y hy

/-- The invariant rule for steps without a side condition. -/
theorem IsRun.invariant_of_step (hstep : ∀ s i s', I s → R s i s' → I s')
    (h : IsRun R s tr) (hs : I s) : ∀ x ∈ tr, I x.2 := by
  have hm : Meets (fun _ _ => True) s tr := h.meets fun _ _ _ _ => trivial
  exact h.invariant (fun s i s' hs hR _ => hstep s i s' hs hR) hs hm

/-- **The runs that stay good**: when every step from an invariant state that meets `cond` keeps
the invariant, and every step that ends in a good state meets `cond`, a run stays good exactly
when all its steps meet `cond`. -/
theorem IsRun.forall_iff_meets (hgood : ∀ s, I s → G s)
    (hstep : ∀ s i s', I s → R s i s' → cond s i → I s')
    (hnec : ∀ s i s', I s → R s i s' → G s' → cond s i)
    (h : IsRun R s tr) (hs : I s) : (∀ x ∈ tr, G x.2) ↔ Meets cond s tr := by
  constructor
  · intro hall
    induction tr generalizing s with
    | nil => trivial
    | cons x tr ih =>
      have hc : cond s x.1 := hnec _ _ _ hs h.1 (hall x List.mem_cons_self)
      exact ⟨hc, ih h.2 (hstep _ _ _ hs h.1 hc) fun y hy => hall y (List.mem_cons_of_mem _ hy)⟩
  · intro hc x hx
    exact hgood _ (h.invariant hstep hs hc x hx)

/-- **The runs that end well**: when a step ends well exactly if it has begun well and meets `cond`,
a run ends well exactly if it has begun well and all its steps meet `cond`. -/
theorem IsRun.final_iff_meets {pre : σ → ι → Prop}
    (hstep : ∀ s i s', I s → R s i s' → pre s i → I s' ∧ (G s' ↔ G s ∧ cond s i))
    (h : IsRun R s tr) (hs : I s) (hpre : Meets pre s tr) :
    G (Runs.final s tr) ↔ G s ∧ Meets cond s tr := by
  induction tr generalizing s with
  | nil => exact (and_iff_left trivial).symm
  | cons x tr ih =>
    obtain ⟨hI, hG⟩ := hstep _ _ _ hs h.1 hpre.1
    rw [Runs.final, ih h.2 hI hpre.2, hG, and_assoc]
    rfl

/-- The runs that end well, when what matters refers to what has been done. -/
theorem IsRun.final_iff_meetsAfter {α : Type*} {f : σ → ι → List α}
    {cond : List α → σ → ι → Prop} {I : List α → σ → Prop} {pre : σ → ι → Prop} {as : List α}
    (hstep : ∀ as s i s', I as s → R s i s' → pre s i →
      I (as ++ f s i) s' ∧ (G s' ↔ G s ∧ cond as s i))
    (h : IsRun R s tr) (hs : I as s) (hpre : Meets pre s tr) :
    G (Runs.final s tr) ↔ G s ∧ MeetsAfter f cond as s tr := by
  induction tr generalizing s as with
  | nil => exact (and_iff_left trivial).symm
  | cons x tr ih =>
    obtain ⟨hI, hG⟩ := hstep _ _ _ _ hs h.1 hpre.1
    rw [Runs.final, ih h.2 hI hpre.2, hG, and_assoc]
    rfl

/-- **The runs that end well since a reset**: when a reset makes all well, and any other step ends
well exactly if it has begun well and meets `cond`, what matters is `cond` from the last reset
on. -/
theorem IsRun.final_iff_meetsSince {reset : σ → ι → Prop}
    (hstep : ∀ s i s', I s → R s i s' →
      I s' ∧ (reset s i → G s') ∧ (¬ reset s i → (G s' ↔ G s ∧ cond s i)))
    (h : IsRun R s tr) (hs : I s) :
    G (Runs.final s tr) ↔
      (Meets (fun s i => ¬ reset s i) s tr → G s) ∧ MeetsSince reset cond s tr := by
  induction tr generalizing s with
  | nil => exact ⟨fun h => ⟨fun _ => h, trivial⟩, fun h => h.1 trivial⟩
  | cons x tr ih =>
    obtain ⟨i, s'⟩ := x
    obtain ⟨hI, hreset, hother⟩ := hstep _ _ _ hs h.1
    rw [Runs.final, ih h.2 hI, meets_cons, MeetsSince]
    by_cases hi : reset s i
    · have hG : G s' := hreset hi
      tauto
    · have hG : G s' ↔ G s ∧ cond s i := hother hi
      tauto

/-- **The runs whose steps are good**: when a step is good exactly if it meets `cond`, the steps of
a run are good exactly if they meet `cond`. -/
theorem IsRun.isRun_iff_meets {Q : σ → ι → σ → Prop}
    (hstep : ∀ s i s', R s i s' → (Q s i s' ↔ cond s i)) (h : IsRun R s tr) :
    IsRun Q s tr ↔ Meets cond s tr := by
  induction tr generalizing s with
  | nil => exact Iff.rfl
  | cons x tr ih => exact and_congr (hstep _ _ _ h.1) (ih h.2)

/-- Conditions that agree on the steps that can be taken are met by the same runs. -/
theorem IsRun.meets_congr {cond' : σ → ι → Prop}
    (hstep : ∀ s i s', I s → R s i s' → I s' ∧ (cond s i ↔ cond' s i))
    (h : IsRun R s tr) (hs : I s) : Meets cond s tr ↔ Meets cond' s tr := by
  induction tr generalizing s with
  | nil => exact Iff.rfl
  | cons x tr ih =>
    obtain ⟨hI, hc⟩ := hstep _ _ _ hs h.1
    exact and_congr hc (ih h.2 hI)

@[simp] theorem final_append (s : σ) (tr tr' : List (ι × σ)) :
    final s (tr ++ tr') = final (final s tr) tr' := by
  induction tr generalizing s with
  | nil => rfl
  | cons x tr ih => exact ih x.2

theorem isRun_append {tr' : List (ι × σ)} :
    IsRun R s (tr ++ tr') ↔ IsRun R s tr ∧ IsRun R (final s tr) tr' := by
  induction tr generalizing s with
  | nil => simp [final]
  | cons x tr ih =>
    obtain ⟨i, s'⟩ := x
    simp only [List.cons_append, isRun_cons, final, ih, and_assoc]

theorem collect_append {α : Type*} (f : σ → ι → List α) (s : σ) (tr tr' : List (ι × σ)) :
    collect f s (tr ++ tr') = collect f s tr ++ collect f (final s tr) tr' := by
  induction tr generalizing s with
  | nil => rfl
  | cons x tr ih => rw [List.cons_append, collect, ih, collect, final, List.append_assoc]

/-- A run whose steps all meet a condition is a run of such steps. -/
theorem IsRun.and_meets (h : IsRun R s tr) (hc : Meets cond s tr) :
    IsRun (fun s i s' => R s i s' ∧ cond s i) s tr := by
  induction tr generalizing s with
  | nil => trivial
  | cons x tr ih => exact ⟨⟨h.1, hc.1⟩, ih h.2 hc.2⟩

/-- What all states of a run have, the last one has. -/
theorem final_of_forall (hs : I s) (h : ∀ x ∈ tr, I x.2) : I (final s tr) := by
  induction tr generalizing s with
  | nil => exact hs
  | cons x tr ih => exact ih (h x List.mem_cons_self) fun y hy => h y (List.mem_cons_of_mem _ hy)

theorem meets_iff : Meets cond s tr ↔
    ∀ tr₁ x tr₂, tr = tr₁ ++ x :: tr₂ → cond (final s tr₁) x.1 := by
  induction tr generalizing s with
  | nil => simp
  | cons y tr ih =>
    obtain ⟨i, s'⟩ := y
    rw [meets_cons, ih]
    constructor
    · rintro ⟨hi, h⟩ tr₁ x tr₂ htr
      cases tr₁ with
      | nil =>
        cases htr
        exact hi
      | cons z tr₁ =>
        obtain ⟨rfl, rfl⟩ := List.cons_eq_cons.mp htr
        exact h tr₁ x tr₂ rfl
    · intro h
      exact ⟨h [] (i, s') tr rfl, fun tr₁ x tr₂ htr => h ((i, s') :: tr₁) x tr₂ (by rw [htr]; rfl)⟩

/-- The invariant rule for the last state. -/
theorem IsRun.final (hstep : ∀ s i s', I s → R s i s' → I s') (h : IsRun R s tr) (hs : I s) :
    I (final s tr) := by
  induction tr generalizing s with
  | nil => exact hs
  | cons x tr ih => exact ih h.2 (hstep _ _ _ hs h.1)

/-- What the states of a run have, they have at each of its steps. -/
theorem IsRun.meets_of_step (hstep : ∀ s i s', I s → R s i s' → I s') (h : IsRun R s tr)
    (hs : I s) : Meets (fun s _ => I s) s tr := by
  refine meets_iff.mpr fun tr₁ x tr₂ htr => ?_
  rw [htr] at h
  exact (isRun_append.mp h).1.final hstep hs

/-- **The rule for what is put in and taken out.** -/
theorem IsRun.balance {α : Type*} {f : σ → ℕ} {put : σ → ι → Prop} {take : σ → ι → List α}
    [∀ s i, Decidable (put s i)]
    (hstep : ∀ s i s', R s i s' → f s' + (take s i).length = f s + if put s i then 1 else 0)
    (h : IsRun R s tr) :
    f (Runs.final s tr) + (collect take s tr).length = f s + times put s tr := by
  induction tr generalizing s with
  | nil => rfl
  | cons x tr ih =>
    have hx := hstep _ _ _ h.1
    have hrest := ih h.2
    simp only [times, Runs.final, Runs.collect, List.length_append]
    omega

/-- **The rule for what is only put in.** -/
theorem IsRun.add_times (f : σ → ℕ) (put : σ → ι → Prop) [∀ s i, Decidable (put s i)]
    (hstep : ∀ s i s', R s i s' → f s' = f s + if put s i then 1 else 0) (h : IsRun R s tr) :
    f (Runs.final s tr) = f s + times put s tr := by
  induction tr generalizing s with
  | nil => rfl
  | cons x tr ih =>
    have hx := hstep _ _ _ h.1
    have hrest := ih h.2
    simp only [times, Runs.final]
    omega

/-- **The rule for invariants that refer to what has been done.** -/
theorem IsRun.collect {α : Type*} {f : σ → ι → List α} {I : List α → σ → Prop} {as : List α}
    (hstep : ∀ as s i s', I as s → R s i s' → I (as ++ f s i) s') (h : IsRun R s tr)
    (hs : I as s) : I (as ++ Runs.collect f s tr) (Runs.final s tr) := by
  induction tr generalizing s as with
  | nil => rwa [Runs.collect, List.append_nil]
  | cons x tr ih =>
    rw [Runs.collect, ← List.append_assoc]
    exact ih h.2 (hstep as s x.1 x.2 hs h.1)

/-- The rule for steps whose side condition refers to what has been done. -/
theorem IsRun.collect_history {α : Type*} {f : σ → ι → List α} {I : List α → σ → Prop}
    (pre : List α → σ → ι → Prop) {as : List α}
    (hstep : ∀ as s i s', I as s → R s i s' → pre as s i → I (as ++ f s i) s')
    (h : IsRun R s tr) (hs : I as s)
    (hpre : ∀ tr₁ x tr₂, tr = tr₁ ++ x :: tr₂ →
      pre (as ++ Runs.collect f s tr₁) (Runs.final s tr₁) x.1) :
    ∀ tr₁ tr₂, tr = tr₁ ++ tr₂ → I (as ++ Runs.collect f s tr₁) (Runs.final s tr₁) := by
  intro tr₁ tr₂ htr
  induction tr₁ generalizing s tr as with
  | nil => rwa [Runs.collect, List.append_nil]
  | cons x tr₁ ih =>
    subst htr
    have hfirst := hpre [] x (tr₁ ++ tr₂) rfl
    rw [Runs.collect, List.append_nil] at hfirst
    have hrest := ih h.2 (hstep _ _ _ _ hs h.1 hfirst) (fun tr y tr' heq => by
      have hy := hpre (x :: tr) y tr' (congrArg (x :: ·) heq)
      rwa [Runs.collect, ← List.append_assoc] at hy) rfl
    rwa [Runs.collect, ← List.append_assoc]

/-- The rule for runs that do nothing twice. -/
theorem IsRun.collect_nodup {α : Type*} {f : σ → ι → List α} {I : List α → σ → Prop} {as : List α}
    (hstep : ∀ as s i s', I as s → R s i s' → (as ++ f s i).Nodup →
      I (as ++ f s i) s' ∧ cond s i)
    (h : IsRun R s tr) (hs : I as s) (hnodup : (as ++ Runs.collect f s tr).Nodup) :
    I (as ++ Runs.collect f s tr) (Runs.final s tr) ∧ Meets cond s tr := by
  induction tr generalizing s as with
  | nil =>
    rw [Runs.collect, List.append_nil]
    exact ⟨hs, trivial⟩
  | cons x tr ih =>
    rw [Runs.collect, ← List.append_assoc] at hnodup ⊢
    obtain ⟨hI, hcond⟩ := hstep as s x.1 x.2 hs h.1 (List.nodup_append.mp hnodup).1
    obtain ⟨hend, hmeets⟩ := ih h.2 hI hnodup
    exact ⟨hend, hcond, hmeets⟩

/-- **The rule for a list that grows**: if every step appends what arrives with it, if anything,
the list ends as `l` exactly if it has begun as `l` begins and what arrives is always what comes
next in `l`. -/
theorem IsRun.final_log_iff {α : Type*} (log : σ → List α) (arrives : σ → ι → Option α)
    (hstep : ∀ s i s', I s → R s i s' → cond s i →
      I s' ∧ log s' = log s ++ (arrives s i).toList)
    (h : IsRun R s tr) (hs : I s) (hc : Meets cond s tr) {l : List α}
    (hlen : (log (Runs.final s tr)).length = l.length) :
    log (Runs.final s tr) = l ↔ log s = l.take (log s).length ∧
      Meets (fun s i => ∀ a ∈ arrives s i, l[(log s).length]? = some a) s tr := by
  induction tr generalizing s with
  | nil =>
    have hall : l.take (log s).length = l := List.take_of_length_le (Nat.le_of_eq hlen.symm)
    rw [hall]
    exact (and_iff_left trivial).symm
  | cons x tr ih =>
    obtain ⟨i, s'⟩ := x
    obtain ⟨hI, hlog⟩ := hstep _ _ _ hs h.1 hc.1
    rw [Runs.final, ih h.2 hI hc.2 hlen, meets_cons, ← and_assoc]
    refine and_congr_left fun _ => ?_
    rw [hlog]
    cases harr : arrives s i with
    | none => simp
    | some a =>
      simp only [Option.toList_some, List.length_append, List.length_singleton, Option.mem_def,
        Option.some.injEq, forall_eq', List.take_add_one]
      constructor
      · intro heq
        cases hnext : l[(log s).length]? with
        | none =>
          -- the list would be too long
          have hle := List.getElem?_eq_none_iff.mp hnext
          have hlong := congrArg List.length heq
          simp only [hnext, Option.toList_none, List.append_nil, List.length_append,
            List.length_singleton, List.length_take] at hlong
          omega
        | some b =>
          obtain ⟨hlt, -⟩ := List.getElem?_eq_some_iff.mp hnext
          rw [hnext, Option.toList_some] at heq
          obtain ⟨hfirst, hlast⟩ := List.append_inj heq (by rw [List.length_take]; omega)
          exact ⟨hfirst, by rw [(List.cons.inj hlast).1]⟩
      · rintro ⟨hfirst, hnext⟩
        rw [hnext, Option.toList_some, ← hfirst]

end Wanderlust.Runs
