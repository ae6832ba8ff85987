import Wanderlust.Client.MutationBatch
import Wanderlust.Foundations.Collection

/-!
# The local view of the documents

`LocalDocumentsView`: what a client sees of the documents, which is what the backend has last said
of them (`remote_document_cache_`) with the batches that are still in the mutation queue. The
documents of a collection are not read one by one, but by a scan of the cache to which the batches
that concern the collection are applied; this finds what reading them one by one finds
(`content_getDocumentsMatchingCollectionQuery`).
-/

namespace Wanderlust.Client

open MaybeDocument

/-- The documents that the backend has sent, each with the version at which it was. -/
abbrev RemoteDocumentCache := Collection DocumentKey (MaybeDocument × SnapshotVersion)

abbrev MaybeDocumentMap := Collection DocumentKey MaybeDocument

/-- `IsImmediateParentOf`. -/
def isImmediateParentOf (path : ResourcePath) (key : DocumentKey) : Bool :=
  path.length + 1 = key.length ∧ path <+: key

/-- A query of one collection: its path, and what its filters, orders and bounds ask of a
document. They compare server timestamps by the time of the write alone. -/
structure Query where
  path : ResourcePath
  filters : DocumentKey → ObjectValue → Bool
  filters_forget : ∀ key data, filters key data.forget = filters key data

/-- `Query::Matches`. -/
def Query.isMatch (q : Query) (key : DocumentKey) (data : ObjectValue) : Bool :=
  isImmediateParentOf q.path key && q.filters key data

theorem Query.isMatch_forget (q : Query) (key : DocumentKey) (data : ObjectValue) :
    q.isMatch key data.forget = q.isMatch key data := by
  rw [isMatch, q.filters_forget, isMatch]

namespace RemoteDocumentCache

/-- `Get`. -/
def get (cache : RemoteDocumentCache) (key : DocumentKey) : Option MaybeDocument :=
  (cache.lookup key).map Prod.fst

/-- `GetMatching`. -/
def getMatching (cache : RemoteDocumentCache) (q : Query) (sinceReadTime : SnapshotVersion) :
    MaybeDocumentMap :=
  cache.filterMap fun key e =>
    match e.1.data with
    | none => none
    | some data =>
      if e.2 ≤ sinceReadTime then none else if q.isMatch key data then some e.1 else none

end RemoteDocumentCache

/-! ## The batches that are asked for -/

namespace MutationQueue

/-- `AllMutationBatchesAffectingDocumentKey`. -/
def affectingDocumentKey (queue : List MutationBatch) (key : DocumentKey) : List MutationBatch :=
  queue.filter fun b => b.mutations.any fun m => m.key = key

/-- `AllMutationBatchesAffectingDocumentKeys`. -/
def affectingDocumentKeys (queue : List MutationBatch) (keys : List DocumentKey) :
    List MutationBatch :=
  queue.filter fun b => b.mutations.any fun m => m.key ∈ keys

/-- `AllMutationBatchesAffectingQuery`. -/
def affectingQuery (queue : List MutationBatch) (q : Query) : List MutationBatch :=
  queue.filter fun b => b.mutations.any fun m => isImmediateParentOf q.path m.key

end MutationQueue

namespace LocalDocumentsView

variable (cache : RemoteDocumentCache) (queue : List MutationBatch)

/-- `GetDocument`. -/
def getDocument (key : DocumentKey) : Option MaybeDocument :=
  (MutationQueue.affectingDocumentKey queue key).foldl (fun doc b => b.applyToLocalDocument doc key)
    (cache.get key)

/-- `GetDocuments`: a document that is missing is given as one that is deleted. -/
def getDocuments (keys : List DocumentKey) : MaybeDocumentMap :=
  let batches := MutationQueue.affectingDocumentKeys queue keys
  keys.foldl (fun results key =>
    let doc := batches.foldl (fun doc b => b.applyToLocalDocument doc key) (cache.get key)
    results.insert key (doc.getD (.noDocument key 0 false))) ∅

/-- `AddMissingBaseDocuments`. -/
def addMissingBaseDocuments (batches : List MutationBatch) (existing : MaybeDocumentMap) :
    MaybeDocumentMap :=
  let missing := (batches.flatMap MutationBatch.mutations).filterMap fun m =>
    match m with
    | .patch key _ _ _ => if key ∈ existing then none else some key
    | _ => none
  missing.foldl (fun existing key =>
    match cache.get key with
    | some doc => if doc.data.isSome then existing.insert key doc else existing
    | none => existing) existing

/-- One pass of the loop of `GetDocumentsMatchingCollectionQuery`. -/
def applyToResults (q : Query) (b : MutationBatch) (results : MaybeDocumentMap) (m : Mutation) :
    MaybeDocumentMap :=
  if isImmediateParentOf q.path m.key then
    match m.applyToLocalView (results.lookup m.key) (results.lookup m.key) b.localWriteTime with
    | some doc => if doc.data.isSome then results.insert m.key doc else results.erase m.key
    | none => results.erase m.key
  else results

/-- `GetDocumentsMatchingCollectionQuery`. -/
def getDocumentsMatchingCollectionQuery (q : Query) (sinceReadTime : SnapshotVersion) :
    MaybeDocumentMap :=
  let batches := MutationQueue.affectingQuery queue q
  let results := addMissingBaseDocuments cache batches (cache.getMatching q sinceReadTime)
  let results := batches.foldl (fun results b => b.mutations.foldl (applyToResults q b) results)
    results
  results.filterMap fun key doc =>
    match doc.data with
    | some data => if q.isMatch key data then some doc else none
    | none => none

/-! ## What is seen -/

variable {cache queue} {key : DocumentKey} {q : Query} {b : MutationBatch}
  {results : MaybeDocumentMap}

/-- Batches that do not mention a document can be left out. -/
theorem foldl_act_filter {p : MutationBatch → Bool} {bs : List MutationBatch}
    (hp : ∀ b ∈ bs, p b = false → (b.mutations.any fun m => m.key = key) = false)
    (o : Option ObjectValue) :
    (bs.filter p).foldl (fun o b => b.act key o) o = bs.foldl (fun o b => b.act key o) o := by
  induction bs generalizing o with
  | nil => rfl
  | cons b bs ih =>
    obtain ⟨hb, hbs⟩ := List.forall_mem_cons.mp hp
    rw [List.foldl_cons, ← ih hbs]
    cases hpb : p b with
    | true => rw [List.filter_cons_of_pos hpb, List.foldl_cons]
    | false =>
      rw [List.filter_cons_of_neg (by simp [hpb]), MutationBatch.act_eq_self (hb hpb)]

/-- What a reader sees of a document: what all batches make of what the backend has sent. -/
theorem content_getDocument (h : ∀ b ∈ queue, b.Plain) :
    content (getDocument cache queue key) =
      queue.foldl (fun o b => b.act key o) (content (cache.get key)) := by
  have hfold : ∀ (bs : List MutationBatch) doc, (∀ b ∈ bs, b.Plain) →
      content (bs.foldl (fun doc b => b.applyToLocalDocument doc key) doc) =
        bs.foldl (fun o b => b.act key o) (content doc) := by
    intro bs
    induction bs with
    | nil => exact fun _ _ => rfl
    | cons b bs ih =>
      intro doc hplain
      obtain ⟨hb, hbs⟩ := List.forall_mem_cons.mp hplain
      rw [List.foldl_cons, ih _ hbs, MutationBatch.content_applyToLocalDocument hb,
        List.foldl_cons]
  rw [getDocument, MutationQueue.affectingDocumentKey,
    hfold _ _ fun b hb => h b (List.mem_filter.mp hb).1]
  exact foldl_act_filter (fun b _ hb => hb) _

/-- One pass of the loop of a query. -/
theorem content_applyToResults {m : Mutation} (hm : m.Plain)
    (hkey : isImmediateParentOf q.path key) :
    content ((applyToResults q b results m).lookup key) =
      if m.key = key then m.act b.localWriteTime (content (results.lookup key)) else
        content (results.lookup key) := by
  by_cases hmk : m.key = key
  · subst hmk
    have hact : content (m.applyToLocalView (results.lookup m.key) (results.lookup m.key)
        b.localWriteTime) = m.act b.localWriteTime (content (results.lookup m.key)) :=
      Mutation.content_applyToLocalView hm fun _ _ _ hnone => hnone
    rw [if_pos rfl, ← hact, applyToResults, if_pos hkey]
    split
    · rename_i doc hdoc
      rw [hdoc]
      split
      · rw [AList.lookup_insert]
      · rename_i hdata
        rw [AList.lookup_erase]
        rw [content_some, Option.not_isSome_iff_eq_none.mp hdata]
        rfl
    · rename_i hdoc
      rw [hdoc, AList.lookup_erase]
  · rw [if_neg hmk, applyToResults]
    have hne : key ≠ m.key := fun h => hmk h.symm
    split
    · split
      · split
        · rw [AList.lookup_insert_ne hne]
        · rw [AList.lookup_erase_ne hne]
      · rw [AList.lookup_erase_ne hne]
    · rfl

/-- The loop over the mutations of a batch. -/
theorem content_foldl_applyToResults {ms : List Mutation} (hplain : ∀ m ∈ ms, m.Plain)
    (hkey : isImmediateParentOf q.path key) :
    content ((ms.foldl (applyToResults q b) results).lookup key) =
      (MutationBatch.mutationsOf key ms).foldl (fun o m => m.act b.localWriteTime o)
        (content (results.lookup key)) := by
  induction ms generalizing results with
  | nil => rfl
  | cons m ms ih =>
    obtain ⟨hm, hms⟩ := List.forall_mem_cons.mp hplain
    rw [List.foldl_cons, ih hms, content_applyToResults hm hkey]
    split
    · rename_i hmk
      rw [MutationBatch.mutationsOf_cons_pos hmk, List.foldl_cons]
    · rename_i hmk
      rw [MutationBatch.mutationsOf_cons_neg hmk]

/-- The loop over the batches. -/
theorem content_foldl_batches {bs : List MutationBatch} (hplain : ∀ b ∈ bs, b.Plain)
    (hkey : isImmediateParentOf q.path key) :
    content ((bs.foldl (fun results b => b.mutations.foldl (applyToResults q b) results)
      results).lookup key) =
      bs.foldl (fun o b => b.act key o) (content (results.lookup key)) := by
  induction bs generalizing results with
  | nil => rfl
  | cons b bs ih =>
    obtain ⟨hb, hbs⟩ := List.forall_mem_cons.mp hplain
    rw [List.foldl_cons, ih hbs, content_foldl_applyToResults hb.plain hkey, List.foldl_cons]
    rfl

/-- The documents that a query starts with. -/
theorem lookup_getMatching {since : SnapshotVersion}
    (hread : ∀ e, cache.lookup key = some e → since < e.2) :
    (cache.getMatching q since).lookup key =
      (cache.get key).filter fun doc => doc.data.any (q.isMatch key) := by
  rw [RemoteDocumentCache.getMatching, Collection.lookup_filterMap, RemoteDocumentCache.get]
  cases he : cache.lookup key with
  | none => rfl
  | some e =>
    have hlt : ¬ e.2 ≤ since := not_le.mpr (hread e he)
    rw [Option.bind_some, Option.map_some, Option.filter_some]
    cases hdata : e.1.data with
    | none => rfl
    | some data => exact if_neg hlt

theorem content_filter_isMatch (doc : Option MaybeDocument) (q : Query) (key : DocumentKey) :
    content (doc.filter fun doc => doc.data.any (q.isMatch key)) =
      (content doc).filter (q.isMatch key) := by
  cases doc with
  | none => rfl
  | some doc =>
    rw [content_some, Option.filter_some]
    cases hdata : doc.data with
    | none => rfl
    | some data =>
      rw [Option.any_some, Option.map_some, Option.filter_some, q.isMatch_forget]
      split
      · rw [content_some, hdata]
        rfl
      · rfl

theorem content_foldl_missing (ks : List DocumentKey) (existing : MaybeDocumentMap) :
    content ((ks.foldl (fun existing key =>
      match cache.get key with
      | some doc => if doc.data.isSome then existing.insert key doc else existing
      | none => existing) existing).lookup key) =
      if key ∈ ks ∧ (content (cache.get key)).isSome then content (cache.get key)
      else content (existing.lookup key) := by
  induction ks generalizing existing with
  | nil => simp
  | cons k ks ih =>
    rw [List.foldl_cons, ih]
    by_cases hks : key ∈ ks ∧ (content (cache.get key)).isSome
    · rw [if_pos hks, if_pos ⟨List.mem_cons_of_mem _ hks.1, hks.2⟩]
    · rw [if_neg hks]
      by_cases hk : key = k
      · subst hk
        cases hdoc : cache.get key with
        | none => simp
        | some doc =>
          cases hdata : doc.data with
          | none => simp [hdata, content_some]
          | some data => simp [hdata, content_some]
      · have hsame : content ((match cache.get k with
            | some doc => if doc.data.isSome then existing.insert k doc else existing
            | none => existing).lookup key) = content (existing.lookup key) := by
          split
          · split
            · rw [AList.lookup_insert_ne hk]
            · rfl
          · rfl
        rw [hsame, if_neg]
        rintro ⟨hmem, hsome⟩
        exact hks ⟨(List.mem_cons.mp hmem).resolve_left hk, hsome⟩

/-- With the documents that are patched. -/
theorem content_addMissingBaseDocuments (bs : List MutationBatch) (existing : MaybeDocumentMap)
    (hexisting : key ∈ existing → content (existing.lookup key) = content (cache.get key)) :
    content ((addMissingBaseDocuments cache bs existing).lookup key) = content (cache.get key) ∨
      content ((addMissingBaseDocuments cache bs existing).lookup key) =
          content (existing.lookup key) ∧
        ∀ b ∈ bs, ∀ m ∈ MutationBatch.mutationsOf key b.mutations, ∀ k value mask p,
          m ≠ .patch k value mask p := by
  rw [addMissingBaseDocuments, content_foldl_missing]
  split
  · exact .inl rfl
  · rename_i hnot
    by_cases hin : key ∈ existing
    · exact .inl (hexisting hin)
    · have hnone : existing.lookup key = none := AList.lookup_eq_none.mpr hin
      cases hc : content (cache.get key) with
      | none => exact .inl (by rw [hnone]; rfl)
      | some data =>
        refine .inr ⟨rfl, ?_⟩
        rintro b hb m hm k value mask p rfl
        obtain ⟨hmem, hkey⟩ := MutationBatch.mem_mutationsOf.mp hm
        obtain rfl : k = key := hkey
        refine hnot ⟨List.mem_filterMap.mpr ⟨_, List.mem_flatMap.mpr ⟨b, hb, hmem⟩, ?_⟩, ?_⟩
        · exact if_neg hin
        · rw [hc]
          rfl

/-- Batches that patch nothing overwrite the document, or do not mention it. -/
theorem foldl_act_eq_self_or_const {bs : List MutationBatch} (h : ∀ b ∈ bs, b.Plain)
    (hpatch : ∀ b ∈ bs, ∀ m ∈ MutationBatch.mutationsOf key b.mutations, ∀ k value mask p,
      m ≠ .patch k value mask p) :
    (∀ o, bs.foldl (fun o b => b.act key o) o = o) ∨
      ∀ o o', bs.foldl (fun o b => b.act key o) o = bs.foldl (fun o b => b.act key o) o' := by
  induction bs with
  | nil => exact .inl fun _ => rfl
  | cons b bs ih =>
    obtain ⟨hb, hbs⟩ := List.forall_mem_cons.mp h
    obtain ⟨hpb, hpbs⟩ := List.forall_mem_cons.mp hpatch
    simp only [List.foldl_cons]
    rcases MutationBatch.act_eq_self_or_const hb hpb with hself | hconst
    · simp only [hself]
      exact ih hbs hpbs
    · exact .inr fun o o' => by rw [hconst o o']

/-- **The scan of a collection** finds the documents that match, as they are read one by one. -/
theorem content_getDocumentsMatchingCollectionQuery {since : SnapshotVersion}
    (h : ∀ b ∈ queue, b.Plain) (hread : ∀ key e, cache.lookup key = some e → since < e.2)
    (q : Query) (key : DocumentKey) :
    content ((getDocumentsMatchingCollectionQuery cache queue q since).lookup key) =
      (content (getDocument cache queue key)).filter (q.isMatch key) := by
  have hfilter : ∀ results : MaybeDocumentMap,
      content ((results.filterMap fun key doc =>
        match doc.data with
        | some data => if q.isMatch key data then some doc else none
        | none => none).lookup key) = (content (results.lookup key)).filter (q.isMatch key) := by
    intro results
    rw [← content_filter_isMatch, Collection.lookup_filterMap]
    cases hdoc : results.lookup key with
    | none => rfl
    | some doc =>
      rw [Option.bind_some, Option.filter_some]
      cases hdata : doc.data <;> rfl
  rw [getDocumentsMatchingCollectionQuery, hfilter]
  by_cases hkey : isImmediateParentOf q.path key
  · have hbatches : ∀ b ∈ MutationQueue.affectingQuery queue q, b.Plain := fun b hb =>
      h b (List.mem_filter.mp hb).1
    rw [content_foldl_batches hbatches hkey, content_getDocument h]
    -- the other batches of the queue do not mention the document
    have hall : ∀ o, (MutationQueue.affectingQuery queue q).foldl (fun o b => b.act key o) o =
        queue.foldl (fun o b => b.act key o) o := by
      refine foldl_act_filter fun b _ hb => ?_
      rw [List.any_eq_false] at hb ⊢
      intro m hm hmk
      obtain rfl : m.key = key := by simpa using hmk
      exact hb m hm hkey
    have hstart := lookup_getMatching (q := q) (hread key)
    have hmatching : key ∈ cache.getMatching q since →
        content ((cache.getMatching q since).lookup key) = content (cache.get key) := by
      intro hin
      rw [← AList.lookup_isSome, hstart] at hin
      obtain ⟨doc, hdoc⟩ := Option.isSome_iff_exists.mp hin
      rw [hstart, hdoc, (Option.filter_eq_some_iff.mp hdoc).1]
    -- the scan starts from the cached document, or else the batches do not depend on it
    rcases content_addMissingBaseDocuments (MutationQueue.affectingQuery queue q) _ hmatching with
      hsame | ⟨hsame, hpatch⟩
    · rw [hsame, hall]
    · rw [hsame, hstart, content_filter_isMatch]
      rcases foldl_act_eq_self_or_const hbatches hpatch with hself | hconst
      · rw [hself, ← hall, hself, Option.filter_filter]
        simp
      · rw [hconst _ (content (cache.get key)), hall]
  · have hno : q.isMatch key = fun _ => false := by
      funext data
      rw [Query.isMatch, Bool.eq_false_iff.mpr hkey, Bool.false_and]
    rw [hno]
    simp

end LocalDocumentsView

end Wanderlust.Client
