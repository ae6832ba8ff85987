import Mathlib.Data.List.Forall2

/-!
# Loops over a list that replace its elements

A loop that replaces one element after the other and carries a state (`mapAccum`). Whatever is
said of such a loop follows from what one pass does:

* `getElem?_mapAccum`: an element is replaced in the state in which the elements before it have
  left the loop;
* `forall₂_mapAccum` and `pairwise_mapAccum`: what is new stands in a relation to what was there,
  and what comes out earlier to what comes out later;
* `mapAccum_mapAccum`: the loop finds nothing to do in its own output.
-/

namespace Wanderlust

section

variable {σ α β : Type*}

/-- Replace the elements of a list from the first to the last, with a state. -/
def mapAccum (f : σ → α → β × σ) : σ → List α → List β
  | _, [] => []
  | s, a :: as => (f s a).1 :: mapAccum f (f s a).2 as

/-- The state in which a loop ends. -/
def accum (f : σ → α → β × σ) (s : σ) (as : List α) : σ := as.foldl (fun s a => (f s a).2) s

variable {f : σ → α → β × σ} {s : σ} {as : List α}

@[simp] theorem mapAccum_nil : mapAccum f s [] = [] := rfl

@[simp] theorem mapAccum_cons {a : α} :
    mapAccum f s (a :: as) = (f s a).1 :: mapAccum f (f s a).2 as := rfl

@[simp] theorem accum_nil : accum f s [] = s := rfl

@[simp] theorem accum_cons {a : α} : accum f s (a :: as) = accum f (f s a).2 as := rfl

theorem accum_append {as' : List α} : accum f s (as ++ as') = accum f (accum f s as) as' :=
  List.foldl_append

/-- **An element of the output.** -/
theorem getElem?_mapAccum (i : ℕ) :
    (mapAccum f s as)[i]? = as[i]?.map fun a => (f (accum f s (as.take i)) a).1 := by
  induction as generalizing s i with
  | nil => rfl
  | cons a as ih =>
    cases i with
    | zero => rfl
    | succ i => exact ih i

/-- What every pass does to its element. -/
theorem forall₂_mapAccum {R : α → β → Prop} (h : ∀ s a, R a (f s a).1) (s : σ) (as : List α) :
    List.Forall₂ R as (mapAccum f s as) := by
  induction as generalizing s with
  | nil => exact .nil
  | cons a as ih => exact .cons (h s a) (ih _)

/-- **The rule for what comes out later**: `Q` relates the elements of the list to those after
them, `I s` is what the state `s` has to do with what comes out from then on. -/
theorem exists_of_mem_mapAccum {P : α → Prop} {Q : α → α → Prop} {I : σ → α → β → Prop}
    (hfirst : ∀ s a, P a → I s a (f s a).1)
    (hlater : ∀ s a a' b, P a → Q a a' → I (f s a).2 a' b → I s a' b)
    (hP : ∀ a ∈ as, P a) (hQ : as.Pairwise Q) {b : β} (hb : b ∈ mapAccum f s as) :
    ∃ a ∈ as, I s a b := by
  induction as generalizing s with
  | nil => cases hb
  | cons a as ih =>
    obtain ⟨ha, has⟩ := List.forall_mem_cons.mp hP
    obtain ⟨hhead, htail⟩ := List.pairwise_cons.mp hQ
    rcases List.mem_cons.mp hb with rfl | hb
    · exact ⟨a, List.mem_cons_self, hfirst s a ha⟩
    · obtain ⟨a', ha', hI⟩ := ih has htail hb
      exact ⟨a', List.mem_cons_of_mem _ ha', hlater s a a' b ha (hhead a' ha') hI⟩

/-- **The rule for any two that come out.** -/
theorem pairwise_mapAccum {P : α → Prop} {Q : α → α → Prop} {I : σ → α → β → Prop}
    {R : β → β → Prop} (hfirst : ∀ s a, P a → I s a (f s a).1)
    (hlater : ∀ s a a' b, P a → Q a a' → I (f s a).2 a' b → I s a' b)
    (hR : ∀ s a a' b, P a → Q a a' → I (f s a).2 a' b → R (f s a).1 b)
    (hP : ∀ a ∈ as, P a) (hQ : as.Pairwise Q) : (mapAccum f s as).Pairwise R := by
  induction as generalizing s with
  | nil => exact .nil
  | cons a as ih =>
    obtain ⟨ha, has⟩ := List.forall_mem_cons.mp hP
    obtain ⟨hhead, htail⟩ := List.pairwise_cons.mp hQ
    refine List.pairwise_cons.mpr ⟨fun b hb => ?_, ih has htail⟩
    obtain ⟨a', ha', hI⟩ := exists_of_mem_mapAccum hfirst hlater has htail hb
    exact hR s a a' b ha (hhead a' ha') hI

end

/-- **A loop over its own output** changes nothing, if a pass in the same state does not. -/
theorem mapAccum_mapAccum {σ α : Type*} {f : σ → α → α × σ} (h : ∀ s a, f s (f s a).1 = f s a)
    (s : σ) (as : List α) : mapAccum f s (mapAccum f s as) = mapAccum f s as := by
  induction as generalizing s with
  | nil => rfl
  | cons a as ih => rw [mapAccum_cons, mapAccum_cons, h, ih]

end Wanderlust
