import Mathlib.Data.List.AList

/-!
# Document collections

A collection of a document store: finitely many documents, each under its own name. Reading,
overwriting and deleting a document are `AList.lookup`, `AList.insert` and `AList.erase`; this
file adds what a document store has besides: changing fields of a document that exists (`modify`),
enumerating the documents (`docs`), and folds of these over a list of names.
-/

namespace Wanderlust

/-- Finitely many documents of type `δ`, under names of type `κ`. -/
abbrev Collection (κ δ : Type*) [DecidableEq κ] := AList fun _ : κ => δ

namespace Collection

variable {κ δ : Type*} [DecidableEq κ] {c : Collection κ δ} {k k' : κ} {d : δ}

/-- Change a document; nothing happens when there is none of this name. -/
def modify (k : κ) (f : δ → δ) (c : Collection κ δ) : Collection κ δ :=
  match c.lookup k with
  | none => c
  | some d => c.insert k (f d)

/-- The documents with their names. -/
def docs (c : Collection κ δ) : List (κ × δ) := c.entries.map fun e => (e.1, e.2)

theorem lookup_insert_eq (k k' : κ) (d : δ) (c : Collection κ δ) :
    (c.insert k d).lookup k' = if k' = k then some d else c.lookup k' := by
  split
  · rename_i h; rw [h, AList.lookup_insert]
  · rename_i h; rw [AList.lookup_insert_ne h]

theorem lookup_erase_eq (k k' : κ) (c : Collection κ δ) :
    (c.erase k).lookup k' = if k' = k then none else c.lookup k' := by
  split
  · rename_i h; rw [h, AList.lookup_erase]
  · rename_i h; rw [AList.lookup_erase_ne h]

theorem lookup_modify_eq (k k' : κ) (f : δ → δ) (c : Collection κ δ) :
    (c.modify k f).lookup k' = if k' = k then (c.lookup k).map f else c.lookup k' := by
  rcases h : c.lookup k with _ | d
  · have hm : c.modify k f = c := by simp [modify, h]
    rw [hm]
    split
    · rename_i hk; rw [hk, h]; rfl
    · rfl
  · have hm : c.modify k f = c.insert k (f d) := by simp [modify, h]
    rw [hm, lookup_insert_eq]
    rfl

@[simp] theorem lookup_modify (k : κ) (f : δ → δ) (c : Collection κ δ) :
    (c.modify k f).lookup k = (c.lookup k).map f := by simp [lookup_modify_eq]

theorem lookup_modify_ne (h : k' ≠ k) (f : δ → δ) (c : Collection κ δ) :
    (c.modify k f).lookup k' = c.lookup k' := by simp [lookup_modify_eq, h]

@[simp] theorem mem_modify {f : δ → δ} : k' ∈ c.modify k f ↔ k' ∈ c := by
  rw [← AList.lookup_isSome, ← AList.lookup_isSome, lookup_modify_eq]
  split
  · rename_i h
    rw [h, Option.isSome_map]
  · rfl

theorem mem_docs : (k, d) ∈ c.docs ↔ c.lookup k = some d := by
  have h : (k, d) ∈ c.docs ↔ (⟨k, d⟩ : Sigma fun _ : κ => δ) ∈ c.entries := by
    simp only [docs, List.mem_map, Prod.mk.injEq]
    constructor
    · rintro ⟨⟨k', d'⟩, he, rfl, rfl⟩; exact he
    · exact fun he => ⟨_, he, rfl, rfl⟩
  rw [h, ← AList.mem_lookup_iff, Option.mem_def]

theorem nodup_map_fst_docs (c : Collection κ δ) : (c.docs.map Prod.fst).Nodup := by
  have h : c.docs.map Prod.fst = c.entries.map Sigma.fst := by simp [docs, Function.comp_def]
  rw [h]
  exact c.nodupKeys

theorem nodup_docs (c : Collection κ δ) : c.docs.Nodup :=
  List.Nodup.of_map _ c.nodup_map_fst_docs

/-- Deleting the documents of a list of names. -/
theorem lookup_foldl_erase (ks : List κ) (c : Collection κ δ) (k : κ) :
    (ks.foldl (fun c k' => c.erase k') c).lookup k = if k ∈ ks then none else c.lookup k := by
  induction ks generalizing c with
  | nil => simp
  | cons k' ks ih =>
    rw [List.foldl_cons, ih, lookup_erase_eq]
    by_cases h : k ∈ ks <;> by_cases h' : k = k' <;> simp [h, h']

/-- Overwriting the documents of a list of names and contents without repeated names. -/
theorem lookup_foldl_insert {α : Type*} (key : α → κ) (val : α → δ) (xs : List α)
    (c : Collection κ δ) (k : κ) :
    (xs.foldl (fun c x => c.insert (key x) (val x)) c).lookup k = c.lookup k ∨
      ∃ x ∈ xs, key x = k ∧
        (xs.foldl (fun c x => c.insert (key x) (val x)) c).lookup k = some (val x) := by
  induction xs generalizing c with
  | nil => exact Or.inl rfl
  | cons x xs ih =>
    rw [List.foldl_cons]
    rcases ih (c.insert (key x) (val x)) with h | ⟨y, hy, hk, h⟩
    · rw [lookup_insert_eq] at h
      split at h
      · rename_i hk
        exact Or.inr ⟨x, List.mem_cons_self, hk.symm, h⟩
      · exact Or.inl h
    · exact Or.inr ⟨y, List.mem_cons_of_mem _ hy, hk, h⟩

/-- A name in the list is overwritten. -/
theorem lookup_foldl_insert_of_mem {α : Type*} (key : α → κ) (val : α → δ) (xs : List α)
    (c : Collection κ δ) {x : α} (hx : x ∈ xs) :
    ∃ y ∈ xs, key y = key x ∧
      (xs.foldl (fun c x => c.insert (key x) (val x)) c).lookup (key x) = some (val y) := by
  induction xs generalizing c with
  | nil => simp at hx
  | cons z xs ih =>
    rw [List.foldl_cons]
    by_cases hx' : x ∈ xs
    · obtain ⟨y, hy, hk, h⟩ := ih (c.insert (key z) (val z)) hx'
      exact ⟨y, List.mem_cons_of_mem _ hy, hk, h⟩
    · obtain rfl : x = z := (List.mem_cons.mp hx).resolve_right hx'
      rcases lookup_foldl_insert key val xs (c.insert (key x) (val x)) (key x) with
        h | ⟨y, hy, hk, h⟩
      · exact ⟨x, List.mem_cons_self, rfl, by rw [h, AList.lookup_insert]⟩
      · exact ⟨y, List.mem_cons_of_mem _ hy, hk, h⟩

/-- A name outside the list is left as it was. -/
theorem lookup_foldl_insert_of_notMem {α : Type*} (key : α → κ) (val : α → δ) (xs : List α)
    (c : Collection κ δ) (hk : ∀ x ∈ xs, key x ≠ k) :
    (xs.foldl (fun c x => c.insert (key x) (val x)) c).lookup k = c.lookup k := by
  rcases lookup_foldl_insert key val xs c k with h | ⟨x, hx, hxk, _⟩
  · exact h
  · exact absurd hxk (hk x hx)

/-- Overwriting documents does the same to collections that agree. -/
theorem lookup_foldl_insert_congr {α : Type*} (key : α → κ) (val : α → δ) (xs : List α)
    {c c' : Collection κ δ} {k : κ} (h : c.lookup k = c'.lookup k) :
    (xs.foldl (fun c x => c.insert (key x) (val x)) c).lookup k =
      (xs.foldl (fun c x => c.insert (key x) (val x)) c').lookup k := by
  induction xs generalizing c c' with
  | nil => exact h
  | cons x xs ih =>
    apply ih
    rw [lookup_insert_eq, lookup_insert_eq, h]

/-- Overwriting documents with one and the same content. -/
theorem lookup_foldl_insert_const {α : Type*} (key : α → κ) (d : δ) (xs : List α)
    (c : Collection κ δ) (k : κ) :
    (xs.foldl (fun c x => c.insert (key x) d) c).lookup k =
      if k ∈ xs.map key then some d else c.lookup k := by
  split
  · rename_i hk
    obtain ⟨x, hx, rfl⟩ := List.mem_map.mp hk
    obtain ⟨_, _, _, h⟩ := lookup_foldl_insert_of_mem key (fun _ => d) xs c hx
    exact h
  · rename_i hk
    refine lookup_foldl_insert_of_notMem key (fun _ => d) xs c fun x hx hxk => hk ?_
    exact hxk ▸ List.mem_map_of_mem hx

/-- The documents of which `f` makes something. -/
def filterMap {ε : Type*} (f : κ → δ → Option ε) (c : Collection κ δ) : Collection κ ε where
  entries := c.entries.filterMap fun e => (f e.1 e.2).map (Sigma.mk e.1)
  nodupKeys := by
    refine List.Nodup.sublist ?_ c.nodupKeys
    rw [List.keys, List.map_filterMap]
    generalize c.entries = l
    induction l with
    | nil => exact .slnil
    | cons e l ih =>
      rw [List.filterMap_cons]
      cases h : f e.1 e.2 with
      | none => simpa [h] using ih.cons e.1
      | some x => simpa [h] using ih.cons_cons e.1

theorem lookup_filterMap {ε : Type*} (f : κ → δ → Option ε) (c : Collection κ δ) (k : κ) :
    (c.filterMap f).lookup k = (c.lookup k).bind (f k) := by
  refine Option.ext fun x => ?_
  rw [← Option.mem_def, AList.mem_lookup_iff, filterMap, List.mem_filterMap,
    Option.bind_eq_some_iff]
  constructor
  · rintro ⟨⟨k', d⟩, he, hx⟩
    obtain ⟨y, hy, hxy⟩ := Option.map_eq_some_iff.mp hx
    cases hxy
    exact ⟨d, AList.mem_lookup_iff.mpr he, hy⟩
  · rintro ⟨d, hd, hx⟩
    exact ⟨⟨k, d⟩, AList.mem_lookup_iff.mp hd, by simp [hx]⟩

/-- A reflexive relation that holds between a document and what it is changed to holds between
the documents before and after. -/
theorem rel_modify {r : κ → δ → δ → Prop} (hr : ∀ k d, r k d d) {f : δ → δ} (k : κ)
    (hf : ∀ d, r k d (f d)) (c : Collection κ δ) (k' : κ) :
    Option.Rel (r k') (c.lookup k') ((c.modify k f).lookup k') := by
  rw [lookup_modify_eq]
  split
  · rename_i h
    subst h
    cases c.lookup k' with
    | none => exact .none
    | some d => exact .some (hf d)
  · cases c.lookup k' with
    | none => exact .none
    | some d => exact .some (hr k' d)

end Collection

end Wanderlust
