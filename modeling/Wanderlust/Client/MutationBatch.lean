import Mathlib.Data.List.Induction
import Wanderlust.Client.Mutation

/-!
# Batches of mutations

The mutations of one write, which the backend commits together. What a batch does to the content of
a document is what its mutations for this document do, one after the other (`MutationBatch.act`).
-/

namespace Wanderlust.Client

open MaybeDocument

/-- `MutationBatch`. -/
structure MutationBatch where
  batchId : ℤ
  localWriteTime : Timestamp
  baseMutations : List Mutation
  mutations : List Mutation

/-- `MutationBatchResult`, without the token of the stream; the assertion of its constructor is a
field. -/
structure MutationBatchResult where
  batch : MutationBatch
  commitVersion : SnapshotVersion
  mutationResults : List MutationResult
  length_eq : batch.mutations.length = mutationResults.length

namespace MutationBatchResult

/-- The mutations with their results. -/
def pairs (r : MutationBatchResult) : List (Mutation × MutationResult) :=
  r.batch.mutations.zip r.mutationResults

/-- `doc_versions`: the last result for a document counts. -/
def docVersion (r : MutationBatchResult) (key : DocumentKey) : Option SnapshotVersion :=
  ((r.pairs.filter fun e => e.1.key = key).getLast?).map fun e => e.2.version

end MutationBatchResult

namespace MutationBatch

/-- The mutations of a document. -/
def mutationsOf (key : DocumentKey) (mutations : List Mutation) : List Mutation :=
  mutations.filter fun m => m.key = key

/-- `keys`. -/
def keys (b : MutationBatch) : List DocumentKey := (b.mutations.map Mutation.key).dedup

/-- `ApplyToRemoteDocument`. -/
def applyToRemoteDocument (doc : Option MaybeDocument) (key : DocumentKey)
    (r : MutationBatchResult) : Option (Option MaybeDocument) :=
  r.pairs.foldlM (fun doc e =>
    if e.1.key = key then (e.1.applyToRemoteDocument doc e.2).map some else some doc) doc

/-- `ApplyToLocalDocument`: first the base state, then the mutations. -/
def applyToLocalDocument (doc : Option MaybeDocument) (key : DocumentKey) (b : MutationBatch) :
    Option MaybeDocument :=
  let base := (mutationsOf key b.baseMutations).foldl
    (fun doc m => m.applyToLocalView doc doc b.localWriteTime) doc
  (mutationsOf key b.mutations).foldl (fun doc m => m.applyToLocalView doc base b.localWriteTime)
    base

/-- What a batch does to the content of a document. -/
def act (b : MutationBatch) (key : DocumentKey) (o : Option ObjectValue) : Option ObjectValue :=
  (mutationsOf key b.mutations).foldl (fun o m => m.act b.localWriteTime o) o

/-- A batch without increments, in which the first mutation of a document is no transform, and
what comes before a transform of an array patches other fields. -/
structure Plain (b : MutationBatch) : Prop where
  base : b.baseMutations = []
  plain : ∀ m ∈ b.mutations, m.Plain
  headed : ∀ key m ms, mutationsOf key b.mutations = m :: ms → ∀ k ts, m ≠ .transform k ts
  keeps : b.mutations.Pairwise fun m' m => m'.key = m.key →
    ∀ t ∈ m.fieldTransforms, t.transformation.isArrayTransform → m'.Keeps t.path

/-- Without server timestamps, the times of which only the backend knows. -/
def Timeless (b : MutationBatch) : Prop :=
  ∀ m ∈ b.mutations, ∀ t ∈ m.fieldTransforms, t.transformation.isArrayTransform

variable {b : MutationBatch} {key : DocumentKey} {doc : Option MaybeDocument}

theorem mem_mutationsOf {m : Mutation} {ms : List Mutation} :
    m ∈ mutationsOf key ms ↔ m ∈ ms ∧ m.key = key := by
  rw [mutationsOf, List.mem_filter, decide_eq_true_iff]

theorem mutationsOf_cons_pos {m : Mutation} (h : m.key = key) (ms : List Mutation) :
    mutationsOf key (m :: ms) = m :: mutationsOf key ms :=
  List.filter_cons_of_pos (by simpa using h)

theorem mutationsOf_cons_neg {m : Mutation} (h : m.key ≠ key) (ms : List Mutation) :
    mutationsOf key (m :: ms) = mutationsOf key ms :=
  List.filter_cons_of_neg (by simpa using h)

/-- A batch does nothing to a document that it does not mention. -/
theorem act_eq_self (h : (b.mutations.any fun m => m.key = key) = false) (o : Option ObjectValue) :
    b.act key o = o := by
  have hnil : mutationsOf key b.mutations = [] := by
    rw [mutationsOf, List.filter_eq_nil_iff]
    intro m hm
    simpa using List.any_eq_false.mp h m hm
  rw [act, hnil]
  rfl

/-- A batch that patches nothing overwrites the document, or does not mention it. -/
theorem act_eq_self_or_const (h : b.Plain)
    (hpatch : ∀ m ∈ mutationsOf key b.mutations, ∀ k value mask p, m ≠ .patch k value mask p) :
    (∀ o, b.act key o = o) ∨ ∀ o o', b.act key o = b.act key o' := by
  cases hms : mutationsOf key b.mutations with
  | nil => exact .inl fun o => by rw [act, hms]; rfl
  | cons m ms =>
    refine .inr fun o o' => ?_
    have hfirst : m.act b.localWriteTime o = m.act b.localWriteTime o' := by
      cases m with
      | set k value p => rfl
      | patch k value mask p =>
        exact absurd rfl (hpatch _ (hms ▸ List.mem_cons_self) k value mask p)
      | transform k ts => exact absurd rfl (h.headed key _ ms hms k ts)
      | delete k p => rfl
    rw [act, act, hms, List.foldl_cons, List.foldl_cons, hfirst]

/-- What comes before a transform of an array patches other fields. -/
theorem Plain.keeps_of_eq (h : b.Plain) {pre post : List Mutation} {m m' : Mutation}
    {t : FieldTransform} (hms : mutationsOf key b.mutations = pre ++ m :: post)
    (ht : t ∈ m.fieldTransforms) (harray : t.transformation.isArrayTransform) (hm' : m' ∈ pre) :
    m'.Keeps t.path := by
  have hpairs := h.keeps.filter fun m => m.key = key
  have hkey : ∀ x ∈ pre ++ m :: post, x.key = key := fun x hx =>
    (mem_mutationsOf.mp (hms ▸ hx)).2
  rw [← mutationsOf, hms] at hpairs
  have hsame : m'.key = m.key :=
    (hkey m' (List.mem_append_left _ hm')).trans (hkey m (by simp)).symm
  exact (List.pairwise_append.mp hpairs).2.2 m' hm' m List.mem_cons_self hsame t ht harray

/-- Locally, a batch does what it is documented to do. -/
theorem content_applyToLocalDocument (h : b.Plain) :
    content (b.applyToLocalDocument doc key) = b.act key (content doc) := by
  -- `doc'` is what the mutations in `pre` have made of `doc`
  have hall : ∀ ms pre doc', mutationsOf key b.mutations = pre ++ ms →
      (∀ path, (∀ m ∈ pre, m.Keeps path) → Mutation.field doc' path = none →
        Mutation.field doc path = none) →
      content (ms.foldl (fun d m => m.applyToLocalView d doc b.localWriteTime) doc') =
        ms.foldl (fun o m => m.act b.localWriteTime o) (content doc') := by
    intro ms
    induction ms with
    | nil => exact fun _ _ _ _ => rfl
    | cons m ms ih =>
      intro pre doc' hms hpre
      have hin : m ∈ mutationsOf key b.mutations := by simp [hms]
      have hmem : m ∈ b.mutations := (mem_mutationsOf.mp hin).1
      have hstep : content (m.applyToLocalView doc' doc b.localWriteTime) =
          m.act b.localWriteTime (content doc') :=
        Mutation.content_applyToLocalView (h.plain m hmem) fun t ht harray =>
          hpre t.path fun m' hm' => h.keeps_of_eq hms ht harray hm'
      rw [List.foldl_cons, List.foldl_cons, ← hstep]
      refine ih (pre ++ [m]) _ (by rw [hms, List.append_assoc]; rfl) fun path hkeeps hnone => ?_
      obtain ⟨hbefore, hm⟩ := List.forall_mem_append.mp hkeeps
      exact hpre path hbefore ((hm m List.mem_cons_self).field hnone)
  rw [applyToLocalDocument, h.base]
  exact hall _ [] doc rfl fun _ _ hnone => hnone

/-- A document has the version of the last result for it, and is pending until the backend sends
it. -/
theorem acknowledged {r : MutationBatchResult} {doc' : Option MaybeDocument}
    {version : SnapshotVersion} (hr : applyToRemoteDocument doc key r = some doc')
    (hversion : r.docVersion key = some version) :
    ∃ d, doc' = some d ∧ d.version = version ∧ d.hasPendingWrites = true := by
  rw [applyToRemoteDocument] at hr
  rw [MutationBatchResult.docVersion] at hversion
  generalize r.pairs = es at hr hversion
  induction es using List.reverseRecOn generalizing doc' with
  | nil => cases hversion
  | append_singleton es e ih =>
    rw [List.foldlM_append] at hr
    obtain ⟨doc₁, hrest, hr⟩ := Option.bind_eq_some_iff.mp hr
    obtain ⟨doc₂, hlast, hr⟩ := Option.bind_eq_some_iff.mp hr
    obtain rfl := Option.some.inj hr
    rw [List.filter_append] at hversion
    dsimp only at hlast
    split at hlast
    · rename_i hkey
      obtain ⟨d, hd, rfl⟩ := Option.map_eq_some_iff.mp hlast
      obtain ⟨-, hv, hpending⟩ := Mutation.acknowledged hd
      refine ⟨d, rfl, hv.trans ?_, hpending⟩
      simpa [hkey] using hversion
    · rename_i hkey
      obtain rfl := Option.some.inj hlast
      exact ih hrest (by simpa [hkey] using hversion)

/-- A document keeps its key. -/
theorem key_applyToRemoteDocument {r : MutationBatchResult} {doc' : MaybeDocument}
    (hr : applyToRemoteDocument doc key r = some (some doc'))
    (hdoc : ∀ d, doc = some d → d.key = key) : doc'.key = key := by
  rw [applyToRemoteDocument] at hr
  generalize r.pairs = es at hr
  induction es generalizing doc with
  | nil => exact hdoc doc' (Option.some.inj hr)
  | cons e es ih =>
    obtain ⟨doc₁, hfirst, hr⟩ := Option.bind_eq_some_iff.mp hr
    refine ih (fun d hd => ?_) hr
    dsimp only at hfirst
    split at hfirst
    · rename_i hkey
      obtain ⟨d', hd', rfl⟩ := Option.map_eq_some_iff.mp hfirst
      obtain rfl := Option.some.inj hd
      rw [(Mutation.acknowledged hd').1, hkey]
    · obtain rfl := Option.some.inj hfirst
      exact hdoc d hd

/-- At the backend, too, if it has no server timestamps. -/
theorem content_applyToRemoteDocument {r : MutationBatchResult} {doc' : Option MaybeDocument}
    (h : r.batch.Plain) (harray : r.batch.Timeless)
    (hr : applyToRemoteDocument doc key r = some doc') :
    content doc' = r.batch.act key (content doc) := by
  have hall : ∀ (es : List (Mutation × MutationResult)) doc,
      (∀ e ∈ es, e.1.Plain ∧ ∀ t ∈ e.1.fieldTransforms, t.transformation.isArrayTransform) →
      es.foldlM (fun doc e => if e.1.key = key then (e.1.applyToRemoteDocument doc e.2).map some
        else some doc) doc = some doc' →
      content doc' = (mutationsOf key (es.map Prod.fst)).foldl
        (fun o m => m.act r.batch.localWriteTime o) (content doc) := by
    intro es
    induction es with
    | nil =>
      intro doc _ hfold
      obtain rfl := Option.some.inj hfold
      rfl
    | cons e es ih =>
      intro doc hplain hfold
      obtain ⟨he, hrest⟩ := List.forall_mem_cons.mp hplain
      obtain ⟨doc₁, hfirst, hfold⟩ := Option.bind_eq_some_iff.mp hfold
      rw [ih doc₁ hrest hfold, List.map_cons]
      dsimp only at hfirst
      split at hfirst
      · rename_i hkey
        obtain ⟨d, hd, rfl⟩ := Option.map_eq_some_iff.mp hfirst
        rw [mutationsOf_cons_pos hkey, List.foldl_cons,
          Mutation.content_applyToRemoteDocument he.1 he.2 hd]
      · rename_i hkey
        rw [mutationsOf_cons_neg hkey, Option.some.inj hfirst]
  have hfst : r.pairs.map Prod.fst = r.batch.mutations :=
    List.map_fst_zip r.length_eq.le
  have hmem : ∀ e ∈ r.pairs, e.1 ∈ r.batch.mutations := fun e he =>
    hfst ▸ List.mem_map_of_mem he
  rw [hall r.pairs doc (fun e he => ⟨h.plain e.1 (hmem e he), harray e.1 (hmem e he)⟩) hr, hfst]
  rfl

end MutationBatch

end Wanderlust.Client
