import Wanderlust.Client.MutationBatch

/-!
# What a client writes

The calls that write: `setData`, `updateData` and `delete`, alone or in a batch, and the mutations
they become. Calls that use no increments, and transform arrays only next to other fields, become
batches that are plain (`plain_ofCalls`).
-/

namespace Wanderlust.Client

/-- `TransformMutation`, if there is something to transform. -/
def transformMutations (key : DocumentKey) (fieldTransforms : List FieldTransform) :
    List Mutation :=
  if fieldTransforms.isEmpty then [] else [.transform key fieldTransforms]

/-- `ParsedSetData`. It has a mask if it is to be merged (`patch_`). -/
structure ParsedSetData where
  data : ObjectValue
  fieldMask : Option FieldMask
  fieldTransforms : List FieldTransform

/-- `ToMutations`. -/
def ParsedSetData.toMutations (d : ParsedSetData) (key : DocumentKey)
    (precondition : Precondition) : List Mutation :=
  (match d.fieldMask with
    | some mask => .patch key d.data mask precondition
    | none => .set key d.data precondition) :: transformMutations key d.fieldTransforms

structure ParsedUpdateData where
  data : ObjectValue
  fieldMask : FieldMask
  fieldTransforms : List FieldTransform

def ParsedUpdateData.toMutations (d : ParsedUpdateData) (key : DocumentKey)
    (precondition : Precondition) : List Mutation :=
  .patch key d.data d.fieldMask precondition :: transformMutations key d.fieldTransforms

/-- A call of a `WriteBatch`, or of a `DocumentReference`. -/
inductive Call
  | setData (key : DocumentKey) (data : ParsedSetData)
  | updateData (key : DocumentKey) (data : ParsedUpdateData)
  | deleteData (key : DocumentKey)

namespace Call

def key : Call → DocumentKey
  | setData key _ => key
  | updateData key _ => key
  | deleteData key => key

/-- The mutations that a call appends. -/
def toMutations : Call → List Mutation
  | setData key data => data.toMutations key .none
  | updateData key data => data.toMutations key (.exists true)
  | deleteData key => [.delete key .none]

def fieldMask : Call → Option FieldMask
  | setData _ data => data.fieldMask
  | updateData _ data => some data.fieldMask
  | deleteData _ => none

def fieldTransforms : Call → List FieldTransform
  | setData _ data => data.fieldTransforms
  | updateData _ data => data.fieldTransforms
  | deleteData _ => []

/-- A call without increments that transforms arrays only next to the fields it patches. -/
structure Plain (c : Call) : Prop where
  idempotent : ∀ t ∈ c.fieldTransforms, t.transformation.isIdempotent
  apart : ∀ t ∈ c.fieldTransforms, t.transformation.isArrayTransform →
    ∃ mask, c.fieldMask = some mask ∧ ∀ p ∈ mask.values, Unrelated p t.path

variable {c : Call} {m : Mutation}

theorem plain_set {key : DocumentKey} {value : ObjectValue} :
    (Mutation.set key value .none).Plain where
  precondition := .inl rfl
  set k value p h := by cases h; rfl
  delete k p h := by cases h
  transforms t ht := by cases ht

theorem plain_patch {key : DocumentKey} {value : ObjectValue} {mask : FieldMask}
    {p : Precondition} (hp : p = .none ∨ p = .exists true) :
    (Mutation.patch key value mask p).Plain where
  precondition := hp
  set k value p h := by cases h
  delete k p h := by cases h
  transforms t ht := by cases ht

theorem plain_delete {key : DocumentKey} : (Mutation.delete key .none).Plain where
  precondition := .inl rfl
  set k value p h := by cases h
  delete k p h := by cases h; rfl
  transforms t ht := by cases ht

theorem plain_transform {key : DocumentKey} {ts : List FieldTransform}
    (h : ∀ t ∈ ts, t.transformation.isIdempotent) : (Mutation.transform key ts).Plain where
  precondition := .inr rfl
  set k value p h := by cases h
  delete k p h := by cases h
  transforms := h

/-- A call becomes one mutation that is no transform, and perhaps a transform. -/
theorem toMutations_eq (c : Call) : ∃ m, c.toMutations = m :: transformMutations c.key
    c.fieldTransforms ∧ m.key = c.key ∧ m.fieldTransforms = [] ∧ (∀ k ts, m ≠ .transform k ts) ∧
    m.Plain ∧ ∀ mask path, c.fieldMask = some mask → (∀ p ∈ mask.values, Unrelated p path) →
      m.Keeps path := by
  cases c with
  | setData key data =>
    obtain ⟨data, mask, fieldTransforms⟩ := data
    cases mask with
    | some mask =>
      refine ⟨.patch key data mask .none, rfl, rfl, rfl, fun k ts h => (by cases h), ?_, ?_⟩
      · exact plain_patch (.inl rfl)
      · intro mask' path hmask h
        obtain rfl : mask = mask' := Option.some.inj hmask
        exact h
    | none =>
      refine ⟨.set key data .none, rfl, rfl, rfl, fun k ts h => (by cases h), plain_set, ?_⟩
      intro mask' path hmask
      cases hmask
  | updateData key data =>
    refine ⟨.patch key data.data data.fieldMask (.exists true), rfl, rfl, rfl,
      fun k ts h => (by cases h), plain_patch (.inr rfl), fun mask' path hmask h => ?_⟩
    obtain rfl : data.fieldMask = mask' := Option.some.inj hmask
    exact h
  | deleteData key =>
    refine ⟨.delete key .none, rfl, rfl, rfl, fun k ts h => (by cases h), plain_delete, ?_⟩
    intro mask path hmask
    cases hmask

theorem mem_transformMutations {key : DocumentKey} {ts : List FieldTransform} :
    m ∈ transformMutations key ts ↔ ts ≠ [] ∧ m = .transform key ts := by
  rw [transformMutations]
  cases ts <;> simp

theorem plain_of_mem (h : c.Plain) (hm : m ∈ c.toMutations) : m.Plain := by
  obtain ⟨m₁, heq, -, -, -, hplain, -⟩ := c.toMutations_eq
  rw [heq] at hm
  rcases List.mem_cons.mp hm with rfl | hm
  · exact hplain
  · obtain ⟨-, rfl⟩ := mem_transformMutations.mp hm
    exact plain_transform h.idempotent

theorem key_of_mem (hm : m ∈ c.toMutations) : m.key = c.key := by
  obtain ⟨m₁, heq, hkey, -⟩ := c.toMutations_eq
  rw [heq] at hm
  rcases List.mem_cons.mp hm with rfl | hm
  · exact hkey
  · obtain ⟨-, rfl⟩ := mem_transformMutations.mp hm
    rfl

/-- The transforms of the mutations are those of the call. -/
theorem mem_fieldTransforms_of_mem (hm : m ∈ c.toMutations) {t : FieldTransform}
    (ht : t ∈ m.fieldTransforms) : t ∈ c.fieldTransforms := by
  obtain ⟨m₁, heq, -, hnone, -⟩ := c.toMutations_eq
  rw [heq] at hm
  rcases List.mem_cons.mp hm with rfl | hm
  · rw [hnone] at ht
    cases ht
  · obtain ⟨-, rfl⟩ := mem_transformMutations.mp hm
    exact ht

/-- The mutations of one call. -/
theorem pairwise_toMutations (h : c.Plain) : c.toMutations.Pairwise fun m' m => m'.key = m.key →
    ∀ t ∈ m.fieldTransforms, t.transformation.isArrayTransform → m'.Keeps t.path := by
  obtain ⟨m₁, heq, -, -, -, -, hkeeps⟩ := c.toMutations_eq
  have hrest : (transformMutations c.key c.fieldTransforms).Pairwise fun m' m => m'.key = m.key →
      ∀ t ∈ m.fieldTransforms, t.transformation.isArrayTransform → m'.Keeps t.path := by
    rw [transformMutations]
    split
    · exact .nil
    · exact List.pairwise_singleton _ _
  rw [heq]
  refine List.pairwise_cons.mpr ⟨fun m hm _ t ht harray => ?_, hrest⟩
  obtain ⟨-, rfl⟩ := mem_transformMutations.mp hm
  obtain ⟨mask, hmask, hapart⟩ := h.apart t ht harray
  exact hkeeps mask t.path hmask hapart

end Call

/-- Calls of one batch that are plain; a call that transforms arrays is the first for its
document. -/
structure PlainCalls (calls : List Call) : Prop where
  plain : ∀ c ∈ calls, c.Plain
  first : calls.Pairwise fun c c' => c.key = c'.key →
    ∀ t ∈ c'.fieldTransforms, ¬ t.transformation.isArrayTransform

/-- The first mutation of a document is no transform. -/
theorem headed_toMutations (calls : List Call) {key : DocumentKey} {m : Mutation}
    {ms : List Mutation}
    (h : MutationBatch.mutationsOf key (calls.flatMap Call.toMutations) = m :: ms) :
    ∀ k ts, m ≠ .transform k ts := by
  induction calls with
  | nil => cases h
  | cons c calls ih =>
    rw [List.flatMap_cons, MutationBatch.mutationsOf, List.filter_append,
      ← MutationBatch.mutationsOf, ← MutationBatch.mutationsOf] at h
    by_cases hkey : c.key = key
    · obtain ⟨m₁, heq, hm₁, -, htransform, -⟩ := c.toMutations_eq
      rw [heq, MutationBatch.mutationsOf_cons_pos (hm₁.trans hkey)] at h
      obtain ⟨rfl, -⟩ := List.cons.inj h
      exact htransform
    · have hnil : MutationBatch.mutationsOf key c.toMutations = [] := by
        refine List.filter_eq_nil_iff.mpr fun m hm hmk => hkey ?_
        rw [← Call.key_of_mem hm]
        simpa using hmk
      rw [hnil, List.nil_append] at h
      exact ih h

/-- The mutations of plain calls are a plain batch. -/
theorem plain_ofCalls {calls : List Call} (h : PlainCalls calls) (id : ℤ) (time : Timestamp) :
    MutationBatch.Plain ⟨id, time, [], calls.flatMap Call.toMutations⟩ where
  base := rfl
  plain m hm := by
    obtain ⟨c, hc, hm⟩ := List.mem_flatMap.mp hm
    exact Call.plain_of_mem (h.plain c hc) hm
  headed _ _ _ hms := headed_toMutations calls hms
  keeps := by
    refine List.pairwise_flatMap.mpr
      ⟨fun c hc => Call.pairwise_toMutations (h.plain c hc), h.first.imp ?_⟩
    intro c c' hfirst m' hm' m hm hkey t ht harray
    rw [Call.key_of_mem hm', Call.key_of_mem hm] at hkey
    exact absurd harray (hfirst hkey t (Call.mem_fieldTransforms_of_mem hm ht))

end Wanderlust.Client
