import Mathlib.Data.List.Pairwise
import Mathlib.Data.List.Sort
import Mathlib.Order.Basic

/-!
# The newest items of a list

`newest key n l` is the answer to a query ordered by `key`, newest first, with a limit of `n`:
the first `n` items of `l` in decreasing order of `key`. An item is among them when fewer than
`n` items are newer (`mem_newest`), provided no two items are equally new.

Sorting is stable (`filter_sort`), so that it forgets the order of a list exactly if no two items
are equally new (`sort_const_iff`); `sorted_eq_iff` compares the orders that two keys give.
-/

namespace Wanderlust

variable {α β : Type*} [LinearOrder β]

/-- The first `n` items in decreasing order of `key`. -/
def newest (key : α → β) (n : ℕ) (l : List α) : List α :=
  (l.insertionSort fun a b => key b ≤ key a).take n

variable {key : α → β} {n : ℕ} {l : List α} {a : α}

theorem mem_of_mem_newest (h : a ∈ newest key n l) : a ∈ l :=
  (List.perm_insertionSort _ l).mem_iff.mp (List.mem_of_mem_take h)

/-- The items sorted newest first. -/
theorem pairwise_newest (key : α → β) (l : List α) :
    (l.insertionSort fun a b => key b ≤ key a).Pairwise fun a b => key b ≤ key a := by
  have : Std.Total fun a b : α => key b ≤ key a := ⟨fun a b => le_total (key b) (key a)⟩
  have : IsTrans α fun a b : α => key b ≤ key a := ⟨fun _ _ _ h h' => h'.trans h⟩
  exact List.pairwise_insertionSort _ l

/-- Fewer than `n` items are newer than one of the newest `n`. -/
theorem countP_lt_of_mem_newest (h : a ∈ newest key n l) :
    l.countP (fun b => decide (key a < key b)) < n := by
  rw [← (List.perm_insertionSort (fun a b => key b ≤ key a) l).countP_eq]
  have hs := pairwise_newest key l
  rw [newest] at h
  generalize l.insertionSort (fun a b => key b ≤ key a) = s at h hs
  obtain ⟨i, hi, rfl⟩ := List.getElem_of_mem h
  rw [List.length_take] at hi
  rw [List.getElem_take]
  -- what is newer than the item at position `i` stands before it
  have hd : (s.drop i).countP (fun b => decide (key s[i] < key b)) = 0 := by
    rw [List.countP_eq_zero]
    intro b hb
    obtain ⟨j, hj, rfl⟩ := List.getElem_of_mem hb
    simp only [List.getElem_drop, decide_eq_true_eq, not_lt]
    rcases Nat.eq_zero_or_pos j with rfl | hj0
    · simp
    · exact List.pairwise_iff_getElem.mp hs i (i + j) (by omega) (by simp at hj; omega) (by omega)
  have hsplit : s.countP (fun b => decide (key s[i] < key b)) =
      (s.take i).countP (fun b => decide (key s[i] < key b)) +
        (s.drop i).countP (fun b => decide (key s[i] < key b)) := by
    rw [← List.countP_append, List.take_append_drop]
  rw [hd, Nat.add_zero] at hsplit
  rw [hsplit]
  have := List.countP_le_length (p := fun b => decide (key s[i] < key b)) (l := s.take i)
  rw [List.length_take] at this
  omega

/-- An item is among the newest `n` when fewer than `n` items are newer and no other item is as
new. -/
theorem mem_newest (ha : a ∈ l) (hinj : ∀ b ∈ l, key b = key a → b = a) (hnd : l.Nodup)
    (h : l.countP (fun b => decide (key a < key b)) < n) : a ∈ newest key n l := by
  have hperm := List.perm_insertionSort (fun a b => key b ≤ key a) l
  have hs := pairwise_newest key l
  rw [← hperm.countP_eq] at h
  rw [newest]
  have ha' := hperm.mem_iff.mpr ha
  have hinj' : ∀ b ∈ l.insertionSort (fun a b => key b ≤ key a), key b = key a → b = a :=
    fun b hb => hinj b (hperm.mem_iff.mp hb)
  have hnd' := hperm.nodup_iff.mpr hnd
  generalize l.insertionSort (fun a b => key b ≤ key a) = s at h hs ha' hinj' hnd'
  obtain ⟨i, hi, rfl⟩ := List.getElem_of_mem ha'
  -- everything before position `i` is newer
  have htake : (s.take i).countP (fun b => decide (key s[i] < key b)) = (s.take i).length := by
    rw [List.countP_eq_length]
    intro b hb
    obtain ⟨j, hj, rfl⟩ := List.getElem_of_mem hb
    rw [List.length_take] at hj
    simp only [List.getElem_take, decide_eq_true_eq]
    have hle := List.pairwise_iff_getElem.mp hs j i (by omega) hi (by omega)
    refine lt_of_le_of_ne hle fun he => ?_
    have := hinj' s[j] (List.getElem_mem _) he.symm
    have := (List.Nodup.getElem_inj_iff hnd').mp this
    omega
  have hsub : (s.take i).countP (fun b => decide (key s[i] < key b)) ≤
      s.countP (fun b => decide (key s[i] < key b)) :=
    (List.take_sublist i s).countP_le
  rw [htake, List.length_take] at hsub
  have hin : i < n := by omega
  have hlt : i < (s.take n).length := by rw [List.length_take]; omega
  have : (s.take n)[i] ∈ s.take n := List.getElem_mem hlt
  rwa [List.getElem_take] at this

/-- **Sorting is stable**: items with the same key stay in their order. -/
theorem filter_sort [DecidableEq β] (key : α → β) (k : β) (l : List α) :
    (l.insertionSort fun a b => key b ≤ key a).filter (fun a => key a = k) =
      l.filter fun a => key a = k := by
  have hkey : ∀ a ∈ l.filter (fun a => key a = k), key a = k := fun a ha => by
    simpa using (List.mem_filter.mp ha).2
  have hsub : (l.filter fun a => key a = k).Sublist (l.insertionSort fun a b => key b ≤ key a) := by
    refine List.sublist_insertionSort ?_ List.filter_sublist
    refine List.pairwise_of_forall_mem_list fun a ha b hb => ?_
    rw [hkey a ha, hkey b hb]
  have hsub' := hsub.filter fun a => key a = k
  simp only [List.filter_filter, Bool.and_self] at hsub'
  have hlen := ((List.perm_insertionSort (fun a b => key b ≤ key a) l).filter
    fun a => key a = k).length_eq
  exact (hsub'.eq_of_length hlen.symm).symm

/-- **Sorting forgets the order** of a list exactly if items with the same key are the same. -/
theorem sort_const_iff [DecidableEq β] (key : α → β) :
    (∀ l₁ l₂ : List α, l₁.Perm l → l₂.Perm l →
        l₁.insertionSort (fun a b => key b ≤ key a) = l₂.insertionSort fun a b => key b ≤ key a) ↔
      ∀ a ∈ l, ∀ b ∈ l, key a = key b → a = b := by
  constructor
  · intro hall a ha b hb hkey
    by_contra hne
    obtain ⟨l', hl'⟩ : ∃ l', l.Perm (a :: b :: l') := by
      obtain ⟨s, t, rfl⟩ := List.append_of_mem ha
      have hperm : (s ++ a :: t).Perm (a :: (s ++ t)) := List.perm_middle
      have hb' : b ∈ s ++ t := by
        rcases List.mem_cons.mp (hperm.mem_iff.mp hb) with h | h
        · exact absurd h.symm hne
        · exact h
      obtain ⟨s', t', hst⟩ := List.append_of_mem hb'
      refine ⟨s' ++ t', hperm.trans (List.Perm.cons a ?_)⟩
      rw [hst]
      exact List.perm_middle
    -- the two orders of `a` and `b` are still there when the lists are sorted
    have hsort := hall (a :: b :: l') (b :: a :: l') hl'.symm
      ((List.Perm.swap a b l').trans hl'.symm)
    have hfilter := congrArg (List.filter fun c => key c = key a) hsort
    rw [filter_sort, filter_sort] at hfilter
    simp only [hkey, decide_true, List.filter_cons_of_pos, List.cons.injEq] at hfilter
    exact hne hfilter.1
  · intro hinj l₁ l₂ h₁ h₂
    have hmem : ∀ l' : List α, l'.Perm l →
        ∀ c ∈ l'.insertionSort (fun a b => key b ≤ key a), c ∈ l :=
      fun l' h c hc => h.mem_iff.mp ((List.mem_insertionSort _).mp hc)
    refine List.Perm.eq_of_pairwise (fun a b ha hb hle hle' => ?_) (pairwise_newest key l₁)
      (pairwise_newest key l₂) ?_
    · exact hinj a (hmem l₁ h₁ a ha) b (hmem l₂ h₂ b hb) (le_antisymm hle' hle)
    · exact (List.perm_insertionSort _ l₁).trans
        (h₁.trans (h₂.symm.trans (List.perm_insertionSort _ l₂).symm))

/-- **Two orders of one list**: items sorted by different keys are in the same order exactly if the
keys compare them in the same way. -/
theorem sorted_eq_iff {l l' : List α} {key key' : α → β} (hinj : Function.Injective key)
    (hinj' : Function.Injective key') (hs : l.Pairwise fun a b => key b ≤ key a)
    (hs' : l'.Pairwise fun a b => key' b ≤ key' a) :
    l = l' ↔ l.Perm l' ∧ ∀ a ∈ l, ∀ b ∈ l, key a ≤ key b ↔ key' a ≤ key' b := by
  constructor
  · rintro rfl
    refine ⟨.refl l, ?_⟩
    -- both ways, so that the relation is symmetric
    let R : α → α → Prop := fun a b =>
      (key a ≤ key b ↔ key' a ≤ key' b) ∧ (key b ≤ key a ↔ key' b ≤ key' a)
    have hsymm : Std.Symm R := ⟨fun a b h => ⟨h.2, h.1⟩⟩
    have hpair : l.Pairwise R := by
      refine List.Pairwise.imp ?_ (hs.and hs')
      rintro a b ⟨hle, hle'⟩
      refine ⟨⟨fun h => ?_, fun h => ?_⟩, iff_of_true hle hle'⟩
      · rw [hinj (le_antisymm h hle)]
      · rw [hinj' (le_antisymm h hle')]
    have hall := List.Pairwise.forall_of_forall
      (fun a _ => ⟨by simp, by simp⟩) hpair
    exact fun a ha b hb => (hall ha hb).1
  · rintro ⟨hperm, hkey⟩
    refine List.Perm.eq_of_pairwise (fun a b ha hb hle hle' => ?_) hs ?_ hperm
    · exact hinj (le_antisymm hle' hle)
    · refine List.Pairwise.imp_of_mem ?_ hs'
      intro a b ha hb hle
      exact (hkey b (hperm.mem_iff.mpr hb) a (hperm.mem_iff.mpr ha)).mpr hle

end Wanderlust
