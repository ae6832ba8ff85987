import Wanderlust.Client.LocalView
import Wanderlust.Client.UserData

/-!
# The local store

`LocalStore` is what a client keeps of the database: the documents that the backend has sent, and
the batches that the backend has not yet acknowledged or rejected. Writes of the client, answers to
them and documents that the backend sends come in any order.

* A query by a scan finds what reading the documents one by one finds, in every state of every run
  (`content_executeFullCollectionScan_of_run`).
* The acknowledgement of the oldest batch changes nothing that is seen, unless the backend has sent
  a document ahead of it (`content_acknowledgeBatch_of_run`).
* When everything about a document has arrived, in whatever order, the client sees what the backend
  has (`content_readDocument_of_run`).
-/

namespace Wanderlust.Client

open MaybeDocument

/-- `Add`. -/
def RemoteDocumentCache.add (doc : MaybeDocument) (readTime : SnapshotVersion)
    (cache : RemoteDocumentCache) : RemoteDocumentCache :=
  AList.insert doc.key (doc, readTime) cache

/-- `LocalStore`, with the batches that its mutation queue holds. -/
structure LocalStore where
  cache : RemoteDocumentCache
  queue : List MutationBatch
  nextBatchId : ℤ

namespace LocalStore

def empty : LocalStore := ⟨∅, [], 1⟩

variable (s : LocalStore)

/-- `ReadDocument`. -/
def readDocument (key : DocumentKey) : Option MaybeDocument :=
  LocalDocumentsView.getDocument s.cache s.queue key

/-- `ExecuteFullCollectionScan` of the query engine. -/
def executeFullCollectionScan (q : Query) : MaybeDocumentMap :=
  LocalDocumentsView.getDocumentsMatchingCollectionQuery s.cache s.queue q 0

/-- The loop of `WriteLocally`: the base states of the mutations that are not idempotent. -/
def baseMutations (existing : MaybeDocumentMap) (mutations : List Mutation) : List Mutation :=
  mutations.filterMap fun m =>
    (m.extractBaseValue (existing.lookup m.key)).map fun value =>
      .patch m.key value value.toFieldMask (.exists true)

/-- `WriteLocally`. A batch is asserted not to be empty. -/
def writeLocally (localWriteTime : Timestamp) (mutations : List Mutation) : Option LocalStore :=
  let existing := LocalDocumentsView.getDocuments s.cache s.queue (mutations.map Mutation.key).dedup
  if mutations.isEmpty then none
  else some { s with
    queue := s.queue ++
      [⟨s.nextBatchId, localWriteTime, baseMutations existing mutations, mutations⟩]
    nextBatchId := s.nextBatchId + 1 }

/-- One pass of the loop of `ApplyBatchResult`, with its assertions. -/
def applyResultTo (r : MutationBatchResult) (cache : RemoteDocumentCache) (key : DocumentKey) :
    Option RemoteDocumentCache :=
  match r.docVersion key with
  | none => none
  | some ackVersion =>
    if (cache.get key).all (·.version < ackVersion) then
      match MutationBatch.applyToRemoteDocument (cache.get key) key r with
      | none => none
      | some none => if (cache.get key).isNone then some cache else none
      | some (some doc) => some (cache.add doc r.commitVersion)
    else some cache

/-- `RemoveMutationBatch`, which asserts that there is such a batch. -/
def removeMutationBatch (id : ℤ) : Option (List MutationBatch) :=
  if s.queue.any (·.batchId = id) then some (s.queue.filter (·.batchId ≠ id)) else none

/-- `AcknowledgeBatch`. -/
def acknowledgeBatch (r : MutationBatchResult) : Option LocalStore := do
  let cache ← r.batch.keys.foldlM (applyResultTo r) s.cache
  let queue ← s.removeMutationBatch r.batch.batchId
  return { s with cache, queue }

/-- `RejectBatch`. -/
def rejectBatch (id : ℤ) : Option LocalStore := do
  let queue ← s.removeMutationBatch id
  return { s with queue }

/-- Whether the document was made up because the client has lost access. -/
def isManufactured : MaybeDocument → Bool
  | .noDocument _ version _ => version = 0
  | _ => false

/-- One pass of the loop of `ApplyRemoteEvent`, with its assertion. The documents that are there
are those from before the loop. -/
def applyUpdate (snapshotVersion : SnapshotVersion) (cache : RemoteDocumentCache)
    (e : DocumentKey × MaybeDocument) : Option RemoteDocumentCache :=
  if isManufactured e.2 then some (cache.erase e.1)
  else if (s.cache.get e.1).all fun existing =>
      existing.version < e.2.version ∨ e.2.version = existing.version ∧ existing.hasPendingWrites
    then if snapshotVersion = 0 then none else some (cache.add e.2 snapshotVersion)
  else some cache

/-- `ApplyRemoteEvent`, as far as it is about documents. -/
def applyRemoteEvent (snapshotVersion : SnapshotVersion) (updates : MaybeDocumentMap) :
    Option LocalStore := do
  let cache ← updates.docs.foldlM (s.applyUpdate snapshotVersion) s.cache
  return { s with cache }

/-! ## Runs -/

/-- What happens to the local store. -/
inductive Event
  | write (localWriteTime : Timestamp) (calls : List Call)
  | acknowledge (r : MutationBatchResult)
  | reject (id : ℤ)
  | remoteEvent (snapshotVersion : SnapshotVersion) (updates : MaybeDocumentMap)

def step (s : LocalStore) : Event → Option LocalStore
  | .write time calls => s.writeLocally time (calls.flatMap Call.toMutations)
  | .acknowledge r => s.acknowledgeBatch r
  | .reject id => s.rejectBatch id
  | .remoteEvent version updates => s.applyRemoteEvent version updates

/-- A run in which no assertion fails. -/
def run (events : List Event) (s : LocalStore) : Option LocalStore := events.foldlM step s

/-- A write is plain, the backend commits at times that are not `None`, and the documents that it
sends are those of their keys. -/
def Event.Plain : Event → Prop
  | write _ calls => PlainCalls calls
  | acknowledge r => 0 < r.commitVersion
  | reject _ => True
  | remoteEvent _ updates => ∀ key doc, updates.lookup key = some doc → doc.key = key

/-- The rule for runs. -/
theorem run_induction {I : LocalStore → Prop} {P : Event → Prop} {events : List Event}
    {s s' : LocalStore} (hstep : ∀ s e s', I s → P e → s.step e = some s' → I s')
    (h : run events s = some s') (hP : ∀ e ∈ events, P e) (hs : I s) : I s' := by
  induction events generalizing s with
  | nil => exact Option.some.inj h ▸ hs
  | cons e events ih =>
    obtain ⟨he, hrest⟩ := List.forall_mem_cons.mp hP
    obtain ⟨s₁, hfirst, h⟩ := Option.bind_eq_some_iff.mp h
    exact ih h hrest (hstep s e s₁ hs he hfirst)

variable {s} {s' : LocalStore} {r : MutationBatchResult} {key : DocumentKey}

/-! ## What a step does to a cached document -/

/-- A document is cached under its key. -/
def Keyed (cache : RemoteDocumentCache) : Prop :=
  ∀ key e, cache.lookup key = some e → e.1.key = key

theorem get_eq (cache : RemoteDocumentCache) (key : DocumentKey) :
    cache.get key = (cache.lookup key).map Prod.fst := rfl

theorem lookup_add (doc : MaybeDocument) (readTime : SnapshotVersion) (cache : RemoteDocumentCache)
    (key : DocumentKey) : (cache.add doc readTime).lookup key =
      if key = doc.key then some (doc, readTime) else cache.lookup key :=
  Collection.lookup_insert_eq _ _ _ _

theorem Keyed.add {cache : RemoteDocumentCache} (h : Keyed cache) (doc : MaybeDocument)
    (readTime : SnapshotVersion) : Keyed (cache.add doc readTime) := by
  intro key e he
  rw [lookup_add] at he
  split at he
  · rename_i hkey
    obtain rfl := Option.some.inj he
    exact hkey.symm
  · exact h key e he

theorem Keyed.erase {cache : RemoteDocumentCache} (h : Keyed cache) (key : DocumentKey) :
    Keyed (cache.erase key) := by
  intro key' e he
  rw [Collection.lookup_erase_eq] at he
  split at he
  · cases he
  · exact h key' e he

/-- What an acknowledgement makes of a cached document: nothing, if it has come with a later
version already. -/
def Acked (r : MutationBatchResult) (key : DocumentKey)
    (e e' : Option (MaybeDocument × SnapshotVersion)) : Prop :=
  ∃ ackVersion, r.docVersion key = some ackVersion ∧
    if (e.map Prod.fst).all (·.version < ackVersion) then
      ∃ doc, MutationBatch.applyToRemoteDocument (e.map Prod.fst) key r = some doc ∧
        e' = doc.map fun doc => (doc, r.commitVersion)
    else e' = e

theorem acked_applyResultTo {cache cache' : RemoteDocumentCache} (hkeyed : Keyed cache)
    (h : applyResultTo r cache key = some cache') :
    Keyed cache' ∧ Acked r key (cache.lookup key) (cache'.lookup key) ∧
      ∀ key', key' ≠ key → cache'.lookup key' = cache.lookup key' := by
  rw [applyResultTo] at h
  split at h
  · cases h
  · rename_i ackVersion hack
    split at h
    · rename_i hall
      rw [get_eq] at hall
      split at h
      · cases h
      · rename_i hdoc
        split at h
        · rename_i hnone
          obtain rfl := Option.some.inj h
          refine ⟨hkeyed, ⟨ackVersion, hack, ?_⟩, fun _ _ => rfl⟩
          rw [if_pos hall]
          refine ⟨none, hdoc, ?_⟩
          rw [get_eq, Option.isNone_map, Option.isNone_iff_eq_none] at hnone
          exact hnone
        · cases h
      · rename_i doc hdoc
        obtain rfl := Option.some.inj h
        have hkey : doc.key = key := by
          refine MutationBatch.key_applyToRemoteDocument hdoc fun d hd => ?_
          obtain ⟨e, he, rfl⟩ := Option.map_eq_some_iff.mp hd
          exact hkeyed key e he
        refine ⟨hkeyed.add doc _, ⟨ackVersion, hack, ?_⟩, fun key' hne => ?_⟩
        · rw [if_pos hall]
          exact ⟨some doc, hdoc, by rw [lookup_add, if_pos hkey.symm]; rfl⟩
        · rw [lookup_add, if_neg (hkey ▸ hne)]
    · rename_i hall
      rw [get_eq] at hall
      obtain rfl := Option.some.inj h
      exact ⟨hkeyed, ⟨ackVersion, hack, by rw [if_neg hall]⟩, fun _ _ => rfl⟩

theorem acked_foldlM {keys : List DocumentKey} (hnodup : keys.Nodup)
    {cache cache' : RemoteDocumentCache} (hkeyed : Keyed cache)
    (h : keys.foldlM (applyResultTo r) cache = some cache') :
    Keyed cache' ∧ ∀ key, if key ∈ keys then Acked r key (cache.lookup key) (cache'.lookup key)
      else cache'.lookup key = cache.lookup key := by
  induction keys generalizing cache with
  | nil =>
    obtain rfl := Option.some.inj h
    exact ⟨hkeyed, fun key => by simp⟩
  | cons k keys ih =>
    obtain ⟨hk, hnodup⟩ := List.nodup_cons.mp hnodup
    obtain ⟨cache₁, hfirst, h⟩ := Option.bind_eq_some_iff.mp h
    obtain ⟨hkeyed₁, hacked, hother⟩ := acked_applyResultTo hkeyed hfirst
    obtain ⟨hkeyed', hrest⟩ := ih hnodup hkeyed₁ h
    refine ⟨hkeyed', fun key => ?_⟩
    have hkey := hrest key
    by_cases heq : key = k
    · subst heq
      rw [if_neg hk] at hkey
      rw [if_pos List.mem_cons_self, hkey]
      exact hacked
    · by_cases hin : key ∈ keys
      · rw [if_pos hin, hother key heq] at hkey
        rw [if_pos (List.mem_cons_of_mem _ hin)]
        exact hkey
      · rw [if_neg hin, hother key heq] at hkey
        rw [if_neg (by simp [heq, hin])]
        exact hkey

/-- What an acknowledgement does. -/
theorem acknowledgeBatch_cases (hkeyed : Keyed s.cache) (h : s.acknowledgeBatch r = some s') :
    Keyed s'.cache ∧ s'.nextBatchId = s.nextBatchId ∧
      s'.queue = s.queue.filter (·.batchId ≠ r.batch.batchId) ∧
      ∀ key, if key ∈ r.batch.keys then Acked r key (s.cache.lookup key) (s'.cache.lookup key)
        else s'.cache.lookup key = s.cache.lookup key := by
  obtain ⟨cache, hcache, h⟩ := Option.bind_eq_some_iff.mp h
  obtain ⟨queue, hqueue, h⟩ := Option.bind_eq_some_iff.mp h
  obtain rfl := Option.some.inj h
  rw [removeMutationBatch] at hqueue
  split at hqueue
  · obtain rfl := Option.some.inj hqueue
    obtain ⟨hkeyed', hkeys⟩ := acked_foldlM (List.nodup_dedup _) hkeyed hcache
    exact ⟨hkeyed', rfl, rfl, hkeys⟩
  · cases hqueue

theorem rejectBatch_cases {id : ℤ} (h : s.rejectBatch id = some s') :
    s' = { s with queue := s.queue.filter (·.batchId ≠ id) } := by
  obtain ⟨queue, hqueue, h⟩ := Option.bind_eq_some_iff.mp h
  rw [removeMutationBatch] at hqueue
  split at hqueue
  · obtain rfl := Option.some.inj hqueue
    exact (Option.some.inj h).symm
  · cases hqueue

/-- What a document that is sent makes of the cached one. -/
def Updated (snapshotVersion : SnapshotVersion) (doc : MaybeDocument)
    (e e' : Option (MaybeDocument × SnapshotVersion)) : Prop :=
  if isManufactured doc then e' = none
  else if (e.map Prod.fst).all fun existing =>
      existing.version < doc.version ∨ doc.version = existing.version ∧ existing.hasPendingWrites
    then snapshotVersion ≠ 0 ∧ e' = some (doc, snapshotVersion)
  else e' = e

theorem updated_applyUpdate {version : SnapshotVersion} {e : DocumentKey × MaybeDocument}
    (hdoc : e.2.key = e.1) {cache cache' : RemoteDocumentCache} (hkeyed : Keyed cache)
    (h : s.applyUpdate version cache e = some cache')
    (hsame : cache.lookup e.1 = s.cache.lookup e.1) :
    Keyed cache' ∧ Updated version e.2 (s.cache.lookup e.1) (cache'.lookup e.1) ∧
      ∀ key, key ≠ e.1 → cache'.lookup key = cache.lookup key := by
  rw [applyUpdate] at h
  rw [Updated]
  split at h
  · rename_i hmade
    obtain rfl := Option.some.inj h
    rw [if_pos hmade]
    exact ⟨hkeyed.erase e.1, AList.lookup_erase _ _, fun key hne => AList.lookup_erase_ne hne⟩
  · rename_i hmade
    rw [if_neg hmade]
    split at h
    · rename_i hall
      rw [get_eq] at hall
      rw [if_pos hall]
      split at h
      · cases h
      · rename_i hversion
        obtain rfl := Option.some.inj h
        refine ⟨hkeyed.add e.2 version, ⟨hversion, ?_⟩, fun key hne => ?_⟩
        · rw [lookup_add, if_pos hdoc.symm]
        · rw [lookup_add, if_neg (hdoc ▸ hne)]
    · rename_i hall
      rw [get_eq] at hall
      obtain rfl := Option.some.inj h
      rw [if_neg hall]
      exact ⟨hkeyed, hsame, fun _ _ => rfl⟩

/-- The loop. Each pass is about a document of its own, so it does not matter that the documents
that are there are those from before the loop. -/
theorem updated_foldlM {version : SnapshotVersion} {es : List (DocumentKey × MaybeDocument)}
    (hnodup : (es.map Prod.fst).Nodup) (hdocs : ∀ e ∈ es, e.2.key = e.1)
    {cache cache' : RemoteDocumentCache} (hkeyed : Keyed cache)
    (h : es.foldlM (s.applyUpdate version) cache = some cache')
    (hsame : ∀ e ∈ es, cache.lookup e.1 = s.cache.lookup e.1) :
    Keyed cache' ∧
      (∀ e ∈ es, Updated version e.2 (s.cache.lookup e.1) (cache'.lookup e.1)) ∧
      ∀ key, key ∉ es.map Prod.fst → cache'.lookup key = cache.lookup key := by
  induction es generalizing cache with
  | nil =>
    obtain rfl := Option.some.inj h
    exact ⟨hkeyed, nofun, fun _ _ => rfl⟩
  | cons e es ih =>
    obtain ⟨he, hnodup⟩ := List.nodup_cons.mp hnodup
    obtain ⟨hdoc, hdocs⟩ := List.forall_mem_cons.mp hdocs
    obtain ⟨hfirst, hsame⟩ := List.forall_mem_cons.mp hsame
    obtain ⟨cache₁, hone, h⟩ := Option.bind_eq_some_iff.mp h
    obtain ⟨hkeyed₁, hupdated, hother⟩ := updated_applyUpdate hdoc hkeyed hone hfirst
    have hne : ∀ e' ∈ es, e'.1 ≠ e.1 := fun e' he' heq => he (heq ▸ List.mem_map_of_mem he')
    obtain ⟨hkeyed', hall, hrest⟩ := ih hnodup hdocs hkeyed₁ h fun e' he' =>
      (hother e'.1 (hne e' he')).trans (hsame e' he')
    refine ⟨hkeyed', List.forall_mem_cons.mpr ⟨?_, hall⟩, fun key hkey => ?_⟩
    · rw [hrest e.1 he]
      exact hupdated
    · obtain ⟨hk, hkey⟩ := not_or.mp (mt List.mem_cons.mpr hkey)
      rw [hrest key hkey, hother key hk]

/-- What documents that are sent do. -/
theorem applyRemoteEvent_cases {version : SnapshotVersion} {updates : MaybeDocumentMap}
    (hkeyed : Keyed s.cache) (hdocs : ∀ key doc, updates.lookup key = some doc → doc.key = key)
    (h : s.applyRemoteEvent version updates = some s') :
    Keyed s'.cache ∧ s'.nextBatchId = s.nextBatchId ∧ s'.queue = s.queue ∧
      ∀ key, match updates.lookup key with
        | some doc => Updated version doc (s.cache.lookup key) (s'.cache.lookup key)
        | none => s'.cache.lookup key = s.cache.lookup key := by
  obtain ⟨cache, hcache, h⟩ := Option.bind_eq_some_iff.mp h
  obtain rfl := Option.some.inj h
  obtain ⟨hkeyed', hupdated, hrest⟩ := updated_foldlM updates.nodup_map_fst_docs
    (fun e he => hdocs e.1 e.2 (Collection.mem_docs.mp he)) hkeyed hcache fun _ _ => rfl
  refine ⟨hkeyed', rfl, rfl, fun key => ?_⟩
  split
  · rename_i doc hdoc
    exact hupdated (key, doc) (Collection.mem_docs.mpr hdoc)
  · rename_i hnone
    refine hrest key fun hmem => ?_
    obtain ⟨e, he, rfl⟩ := List.mem_map.mp hmem
    rw [Collection.mem_docs.mp he] at hnone
    cases hnone

/-- Plain writes have no base states. -/
theorem baseMutations_eq_nil {existing : MaybeDocumentMap} {mutations : List Mutation}
    (h : ∀ m ∈ mutations, m.Plain) : baseMutations existing mutations = [] := by
  refine List.filterMap_eq_nil_iff.mpr fun m hm => ?_
  rw [Mutation.extractBaseValue_eq_none (h m hm)]
  rfl

/-- What a plain write does. -/
theorem writeLocally_cases {time : Timestamp} {mutations : List Mutation}
    (hplain : ∀ m ∈ mutations, m.Plain) (h : s.writeLocally time mutations = some s') :
    s' = { s with
      queue := s.queue ++ [⟨s.nextBatchId, time, [], mutations⟩]
      nextBatchId := s.nextBatchId + 1 } := by
  rw [writeLocally] at h
  split at h
  · cases h
  · rw [baseMutations_eq_nil hplain] at h
    exact (Option.some.inj h).symm

/-! ## What holds in every run -/

structure Sound (s : LocalStore) : Prop where
  keyed : Keyed s.cache
  readTimes : ∀ key e, s.cache.lookup key = some e → 0 < e.2
  plain : ∀ b ∈ s.queue, b.Plain
  ids : s.queue.Pairwise fun b b' => b.batchId < b'.batchId
  next : ∀ b ∈ s.queue, b.batchId < s.nextBatchId

theorem sound_empty : Sound empty where
  keyed _ _ h := by cases h
  readTimes _ _ h := by cases h
  plain := nofun
  ids := .nil
  next := nofun

/-- Removing a batch. -/
theorem Sound.filter (hs : Sound s) (id : ℤ) :
    Sound { s with queue := s.queue.filter (·.batchId ≠ id) } where
  keyed := hs.keyed
  readTimes := hs.readTimes
  plain b hb := hs.plain b (List.mem_filter.mp hb).1
  ids := hs.ids.filter _
  next b hb := hs.next b (List.mem_filter.mp hb).1

theorem Sound.step (hs : Sound s) {e : Event} (he : e.Plain) (h : s.step e = some s') :
    Sound s' := by
  cases e with
  | write time calls =>
    have hbatch := plain_ofCalls he s.nextBatchId time
    obtain rfl := writeLocally_cases hbatch.plain h
    refine ⟨hs.keyed, hs.readTimes, fun b hb => ?_, ?_, fun b hb => ?_⟩
    · rcases List.mem_append.mp hb with hb | hb
      · exact hs.plain b hb
      · obtain rfl := List.mem_singleton.mp hb
        exact hbatch
    · refine List.pairwise_append.mpr ⟨hs.ids, List.pairwise_singleton _ _, fun b hb b' hb' => ?_⟩
      obtain rfl := List.mem_singleton.mp hb'
      exact hs.next b hb
    · rcases List.mem_append.mp hb with hb | hb
      · exact (hs.next b hb).trans (Int.lt_succ _)
      · obtain rfl := List.mem_singleton.mp hb
        exact Int.lt_succ _
  | acknowledge r =>
    obtain ⟨hkeyed, hnext, hqueue, hkeys⟩ := acknowledgeBatch_cases hs.keyed h
    have hfilter := hs.filter r.batch.batchId
    refine ⟨hkeyed, fun key e he' => ?_, hqueue ▸ hfilter.plain, hqueue ▸ hfilter.ids,
      hqueue ▸ hnext ▸ hfilter.next⟩
    have hkey := hkeys key
    split at hkey
    · obtain ⟨ackVersion, -, hacked⟩ := hkey
      split at hacked
      · obtain ⟨doc, -, hdoc⟩ := hacked
        rw [hdoc] at he'
        obtain ⟨d, -, rfl⟩ := Option.map_eq_some_iff.mp he'
        exact he
      · exact hs.readTimes key e (hacked ▸ he')
    · exact hs.readTimes key e (hkey ▸ he')
  | reject id =>
    rw [rejectBatch_cases h]
    exact hs.filter id
  | remoteEvent version updates =>
    obtain ⟨hkeyed, hnext, hqueue, hkeys⟩ := applyRemoteEvent_cases hs.keyed he h
    refine ⟨hkeyed, fun key e he' => ?_, hqueue ▸ hs.plain, hqueue ▸ hs.ids,
      hqueue ▸ hnext ▸ hs.next⟩
    have hkey := hkeys key
    split at hkey
    · rw [Updated] at hkey
      split at hkey
      · rw [hkey] at he'
        cases he'
      · split at hkey
        · rw [hkey.2] at he'
          obtain rfl := Option.some.inj he'
          exact Nat.pos_of_ne_zero hkey.1
        · exact hs.readTimes key e (hkey ▸ he')
    · exact hs.readTimes key e (hkey ▸ he')

theorem sound_of_run {events : List Event} (h : run events empty = some s)
    (hevents : ∀ e ∈ events, e.Plain) : Sound s :=
  run_induction (fun _ _ _ hs he hstep => hs.step he hstep) h hevents sound_empty

/-- **A query by a scan** finds what reading the documents one by one finds. -/
theorem content_executeFullCollectionScan_of_run {events : List Event}
    (h : run events empty = some s) (hevents : ∀ e ∈ events, e.Plain) (q : Query)
    (key : DocumentKey) :
    content ((s.executeFullCollectionScan q).lookup key) =
      (content (s.readDocument key)).filter (q.isMatch key) :=
  LocalDocumentsView.content_getDocumentsMatchingCollectionQuery (sound_of_run h hevents).plain
    (sound_of_run h hevents).readTimes q key

/-- A trip in the samples below. -/
def sampleKey : DocumentKey := ["trips", "rome"]

def sampleData (title : String) : ObjectValue := ⟨[("title", .string title)]⟩

/-- The backend sends the trip. -/
def sampleSent (title : String) (version : SnapshotVersion) : Event :=
  .remoteEvent version
    (AList.insert sampleKey (.document (sampleData title) sampleKey version .synced) ∅)

/-- A client changes its title and adds a member. -/
def sampleCall : Call :=
  .updateData sampleKey
    ⟨sampleData "Roma", (∅ : FieldMask).insert ["title"],
      [⟨["members"], .arrayUnion [.string "ann"]⟩]⟩

/-- The backend accepts that. -/
def sampleResult : MutationBatchResult :=
  ⟨⟨1, 7, [], [sampleCall].flatMap Call.toMutations⟩, 3, [⟨3, none⟩, ⟨3, some [.null]⟩], rfl⟩

theorem plain_sampleSent (title : String) (version : SnapshotVersion) :
    (sampleSent title version).Plain := by
  intro key doc h
  rw [Collection.lookup_insert_eq] at h
  split at h
  · rename_i hkey
    obtain rfl := Option.some.inj h
    exact hkey.symm
  · cases h

theorem plain_sampleCall : PlainCalls [sampleCall] where
  plain := by
    refine List.forall_mem_singleton.mpr ⟨List.forall_mem_singleton.mpr rfl, ?_⟩
    refine List.forall_mem_singleton.mpr fun _ => ⟨_, rfl, ?_⟩
    exact List.forall_mem_singleton.mpr ⟨by decide, by decide⟩
  first := List.pairwise_singleton _ _

/-- The trip is sent, and changed by the client. -/
def sampleEvents : List Event := [sampleSent "Rome" 2, .write 7 [sampleCall]]

theorem plain_sampleEvents : ∀ e ∈ sampleEvents, e.Plain :=
  List.forall_mem_cons.mpr
    ⟨plain_sampleSent "Rome" 2, List.forall_mem_singleton.mpr plain_sampleCall⟩

/-- All trips. -/
def sampleQuery : Query := ⟨["trips"], fun _ _ => true, fun _ _ => rfl⟩

theorem isSome_run_sampleEvents : (run sampleEvents empty).isSome := by decide +kernel

def sampleStore : LocalStore := (run sampleEvents empty).get isSome_run_sampleEvents

theorem run_sampleEvents : run sampleEvents empty = some sampleStore :=
  (Option.some_get isSome_run_sampleEvents).symm

theorem content_executeFullCollectionScan_of_run_sample :
    content ((sampleStore.executeFullCollectionScan sampleQuery).lookup sampleKey) =
      (content (sampleStore.readDocument sampleKey)).filter (sampleQuery.isMatch sampleKey) :=
  content_executeFullCollectionScan_of_run run_sampleEvents plain_sampleEvents sampleQuery
    sampleKey

/-! ## Acknowledgements -/

/-- The batches of the queue that come after the oldest stay when that is removed. -/
theorem Sound.filter_head (hs : Sound s) {b : MutationBatch} {rest : List MutationBatch}
    (hqueue : s.queue = b :: rest) : s.queue.filter (·.batchId ≠ b.batchId) = rest := by
  have hids := hs.ids
  rw [hqueue] at hids ⊢
  rw [List.filter_cons_of_neg (by simp), List.filter_eq_self]
  intro b' hb'
  simpa using ((List.pairwise_cons.mp hids).1 b' hb').ne'

/-- **The acknowledgement of the oldest batch** changes nothing that is seen, except for documents
that the backend has sent ahead of it. -/
theorem content_acknowledgeBatch_of_run {events : List Event} (h : run events empty = some s)
    (hevents : ∀ e ∈ events, e.Plain) {rest : List MutationBatch}
    (hhead : s.queue = r.batch :: rest) (htimeless : r.batch.Timeless)
    (hack : s.acknowledgeBatch r = some s') {key : DocumentKey}
    (hahead : ∀ doc version, s.cache.get key = some doc → r.docVersion key = some version →
      doc.version < version) :
    content (s'.readDocument key) = content (s.readDocument key) := by
  have hs := sound_of_run h hevents
  obtain ⟨-, -, hqueue, hkeys⟩ := acknowledgeBatch_cases hs.keyed hack
  rw [hs.filter_head hhead] at hqueue
  have hplain := hs.plain
  rw [hhead] at hplain
  obtain ⟨hbatch, hrest⟩ := List.forall_mem_cons.mp hplain
  rw [readDocument, readDocument, LocalDocumentsView.content_getDocument (hqueue ▸ hrest),
    LocalDocumentsView.content_getDocument hs.plain, hqueue, hhead, List.foldl_cons]
  congr 1
  rw [get_eq, get_eq]
  have hkey := hkeys key
  split at hkey
  · obtain ⟨version, hversion, hacked⟩ := hkey
    split at hacked
    · obtain ⟨doc, hdoc, hlookup⟩ := hacked
      rw [hlookup, Option.map_map]
      have hsame : (Option.map (Prod.fst ∘ fun d : MaybeDocument => (d, r.commitVersion)) doc) =
          doc := by cases doc <;> rfl
      rw [hsame]
      exact MutationBatch.content_applyToRemoteDocument hbatch htimeless hdoc
    · rename_i hnot
      refine absurd ?_ hnot
      rw [Option.all_eq_true]
      intro doc hdoc
      exact decide_eq_true (hahead doc version hdoc hversion)
  · rename_i hnot
    rw [hkey, MutationBatch.act_eq_self]
    rw [List.any_eq_false]
    intro m hm hmk
    obtain rfl : m.key = key := by simpa using hmk
    exact hnot (List.mem_dedup.mpr (List.mem_map_of_mem hm))

theorem isSome_acknowledgeBatch_sample : (sampleStore.acknowledgeBatch sampleResult).isSome := by
  decide +kernel

theorem content_acknowledgeBatch_of_run_sample :
    content (((sampleStore.acknowledgeBatch sampleResult).get
      isSome_acknowledgeBatch_sample).readDocument sampleKey) =
      content (sampleStore.readDocument sampleKey) := by
  have hhead : sampleStore.queue = sampleResult.batch :: [] := rfl
  refine content_acknowledgeBatch_of_run run_sampleEvents plain_sampleEvents hhead ?_
    (Option.some_get _).symm fun doc version hdoc hversion => ?_
  · refine List.forall_mem_cons.mpr ⟨nofun, List.forall_mem_singleton.mpr ?_⟩
    exact List.forall_mem_singleton.mpr rfl
  · obtain rfl := Option.some.inj hversion
    obtain rfl := Option.some.inj hdoc
    exact Nat.lt_succ_self 2

/-! ## When everything has arrived -/

/-- What the backend says of a document: no version is later than `last`, and what it sends is what
it has. -/
def Event.Truthful (key : DocumentKey) (backend : SnapshotVersion → Option ObjectValue)
    (last : SnapshotVersion) : Event → Prop
  | write _ _ => True
  | acknowledge r => ∀ version, r.docVersion key = some version → version ≤ last
  | reject _ => True
  | remoteEvent _ updates => ∀ doc, updates.lookup key = some doc →
    isManufactured doc = false ∧ doc.hasPendingWrites = false ∧ doc.version ≤ last ∧
      content (some doc) = (backend doc.version).map ObjectValue.forget

/-- The event that brings the last version of a document. -/
def Event.Brings (key : DocumentKey) (last : SnapshotVersion) : Event → Prop
  | remoteEvent _ updates => ∃ doc, updates.lookup key = some doc ∧ doc.version = last
  | _ => False

section

variable {backend : SnapshotVersion → Option ObjectValue} {last : SnapshotVersion}

/-- What is cached of a document, as long as not everything has arrived. -/
def Agrees (key : DocumentKey) (backend : SnapshotVersion → Option ObjectValue)
    (last : SnapshotVersion) (s : LocalStore) : Prop :=
  ∀ e, s.cache.lookup key = some e → e.1.version ≤ last ∧
    (e.1.hasPendingWrites = false →
      content (some e.1) = (backend e.1.version).map ObjectValue.forget)

/-- And when it has. -/
def Arrived (key : DocumentKey) (backend : SnapshotVersion → Option ObjectValue)
    (last : SnapshotVersion) (s : LocalStore) : Prop :=
  ∃ e, s.cache.lookup key = some e ∧ e.1.version = last ∧ e.1.hasPendingWrites = false ∧
    content (some e.1) = (backend last).map ObjectValue.forget

/-- What a step does to a cached document. -/
theorem lookup_step (hs : Sound s) {e : Event} (he : e.Plain)
    (ht : e.Truthful key backend last) (h : s.step e = some s') :
    s'.cache.lookup key = s.cache.lookup key ∨
      (∃ doc readTime, s'.cache.lookup key = some (doc, readTime) ∧ doc.hasPendingWrites = true ∧
        doc.version ≤ last ∧ (s.cache.lookup key).all (·.1.version < doc.version)) ∨
      ∃ doc readTime, s'.cache.lookup key = some (doc, readTime) ∧
        doc.hasPendingWrites = false ∧ doc.version ≤ last ∧
        content (some doc) = (backend doc.version).map ObjectValue.forget ∧
        (s.cache.lookup key).all fun e =>
          e.1.version < doc.version ∨ doc.version = e.1.version ∧ e.1.hasPendingWrites := by
  cases e with
  | write time calls =>
    obtain rfl := writeLocally_cases (plain_ofCalls he s.nextBatchId time).plain h
    exact .inl rfl
  | acknowledge r =>
    obtain ⟨-, -, -, hkeys⟩ := acknowledgeBatch_cases hs.keyed h
    have hkey := hkeys key
    split at hkey
    · obtain ⟨version, hversion, hacked⟩ := hkey
      split at hacked
      · rename_i hall
        obtain ⟨doc, hdoc, hlookup⟩ := hacked
        obtain ⟨d, rfl, hd, hpending⟩ := MutationBatch.acknowledged hdoc hversion
        refine .inr (.inl ⟨d, r.commitVersion, hlookup, hpending, hd ▸ ht version hversion, ?_⟩)
        rw [Option.all_map] at hall
        rw [hd]
        exact hall
      · exact .inl hacked
    · exact .inl hkey
  | reject id =>
    rw [rejectBatch_cases h]
    exact .inl rfl
  | remoteEvent version updates =>
    obtain ⟨-, -, -, hkeys⟩ := applyRemoteEvent_cases hs.keyed he h
    have hkey := hkeys key
    split at hkey
    · rename_i doc hdoc
      obtain ⟨hmade, hpending, hle, hcontent⟩ := ht doc hdoc
      rw [Updated, if_neg (by simp [hmade])] at hkey
      split at hkey
      · rename_i hall
        rw [Option.all_map] at hall
        exact .inr (.inr ⟨doc, version, hkey.2, hpending, hle, hcontent, hall⟩)
      · exact .inl hkey
    · exact .inl hkey

theorem Agrees.step (hs : Sound s) (ha : Agrees key backend last s) {e : Event} (he : e.Plain)
    (ht : e.Truthful key backend last) (h : s.step e = some s') :
    Agrees key backend last s' := by
  intro x hx
  rcases lookup_step hs he ht h with hsame | ⟨doc, time, hnew, hpending, hle, -⟩ |
    ⟨doc, time, hnew, -, hle, hcontent, -⟩
  · exact ha x (hsame ▸ hx)
  · obtain rfl := Option.some.inj (hnew.symm.trans hx)
    exact ⟨hle, fun hsynced => absurd hpending (by simp [hsynced])⟩
  · obtain rfl := Option.some.inj (hnew.symm.trans hx)
    exact ⟨hle, fun _ => hcontent⟩

theorem Arrived.step (hs : Sound s) (ha : Arrived key backend last s) {e : Event} (he : e.Plain)
    (ht : e.Truthful key backend last) (h : s.step e = some s') :
    Arrived key backend last s' := by
  obtain ⟨x, hx, hversion, hsynced, hcontent⟩ := ha
  rcases lookup_step hs he ht h with hsame | ⟨doc, time, -, -, hle, hall⟩ |
    ⟨doc, time, -, -, hle, -, hall⟩
  · exact ⟨x, hsame.trans hx, hversion, hsynced, hcontent⟩
  · rw [hx] at hall
    have hlt : x.1.version < doc.version := of_decide_eq_true hall
    exact absurd hle (not_le.mpr (hversion ▸ hlt))
  -- the cached document has the last version, so that only a pending one would be replaced
  · rw [hx] at hall
    rcases of_decide_eq_true hall with hlt | ⟨-, hpending⟩
    · exact absurd hle (not_le.mpr (hversion ▸ hlt))
    · exact absurd hpending (by simp [hsynced])

/-- The last version of a document arrives. -/
theorem Agrees.arrived (hs : Sound s) (ha : Agrees key backend last s) {e : Event} (he : e.Plain)
    (ht : e.Truthful key backend last) (hbrings : e.Brings key last) (h : s.step e = some s') :
    Arrived key backend last s' := by
  cases e with
  | remoteEvent version updates =>
    obtain ⟨doc, hdoc, hlast⟩ := hbrings
    obtain ⟨hmade, hpending, -, hcontent⟩ := ht doc hdoc
    obtain ⟨-, -, -, hkeys⟩ := applyRemoteEvent_cases hs.keyed he h
    have hkey := hkeys key
    rw [hdoc] at hkey
    simp only at hkey
    rw [Updated, if_neg (by simp [hmade])] at hkey
    split at hkey
    · exact ⟨(doc, version), hkey.2, hlast, hpending, hlast ▸ hcontent⟩
    · rename_i hnot
      -- the document is not taken: the cached one has its version, and is not pending
      cases hx : s.cache.lookup key with
      | none => simp [hx] at hnot
      | some x =>
        obtain ⟨hle, htrue⟩ := ha x hx
        rw [hx] at hnot
        simp only [Option.map_some, Option.all_some, decide_eq_true_eq, not_or, not_lt, not_and,
          hlast] at hnot
        have heq : x.1.version = last := le_antisymm hle hnot.1
        have hsynced : x.1.hasPendingWrites = false := by simpa using hnot.2 heq.symm
        exact ⟨x, hkey.trans hx, heq, hsynced, heq ▸ htrue hsynced⟩
  | _ => exact hbrings.elim

/-- **When everything about a document has arrived**, in whatever order, the client sees what the
backend has, with the writes of its own that are still in the queue. -/
theorem content_readDocument_of_run {events : List Event} (h : run events empty = some s)
    (hevents : ∀ e ∈ events, e.Plain) (htruthful : ∀ e ∈ events, e.Truthful key backend last)
    (hbrings : ∃ e ∈ events, e.Brings key last) :
    content (s.readDocument key) =
      s.queue.foldl (fun o b => b.act key o) ((backend last).map ObjectValue.forget) := by
  obtain ⟨e, he, hbrings⟩ := hbrings
  obtain ⟨pre, post, rfl⟩ := List.append_of_mem he
  rw [run, List.foldlM_append] at h
  obtain ⟨s₁, hpre, h⟩ := Option.bind_eq_some_iff.mp h
  obtain ⟨s₂, hstep, hpost⟩ := Option.bind_eq_some_iff.mp h
  have hall : ∀ e' ∈ pre ++ e :: post, e'.Plain ∧ e'.Truthful key backend last := fun e' he' =>
    ⟨hevents e' he', htruthful e' he'⟩
  obtain ⟨hpre', hrest⟩ := List.forall_mem_append.mp hall
  obtain ⟨hmid, hpost'⟩ := List.forall_mem_cons.mp hrest
  have h₁ : Sound s₁ ∧ Agrees key backend last s₁ :=
    run_induction (I := fun s => Sound s ∧ Agrees key backend last s)
      (fun _ _ _ hs he hstep => ⟨hs.1.step he.1 hstep, hs.2.step hs.1 he.1 he.2 hstep⟩) hpre hpre'
      ⟨sound_empty, fun _ h => by cases h⟩
  have h₂ : Sound s₂ ∧ Arrived key backend last s₂ :=
    ⟨h₁.1.step hmid.1 hstep, h₁.2.arrived h₁.1 hmid.1 hmid.2 hbrings hstep⟩
  have h₃ : Sound s ∧ Arrived key backend last s :=
    run_induction (I := fun s => Sound s ∧ Arrived key backend last s)
      (fun _ _ _ hs he hstep => ⟨hs.1.step he.1 hstep, hs.2.step hs.1 he.1 he.2 hstep⟩) hpost
      hpost' h₂
  obtain ⟨hs, x, hx, -, -, hcontent⟩ := h₃
  rw [readDocument, LocalDocumentsView.content_getDocument hs.plain, get_eq, hx, ← hcontent]
  rfl

end

/-- The trip is sent again, after the answer. -/
def sampleArrival : List Event :=
  sampleEvents ++ [.acknowledge sampleResult, sampleSent "Roma" 4]

theorem isSome_run_sampleArrival : (run sampleArrival empty).isSome := by decide +kernel

theorem content_readDocument_of_run_sample :
    content (((run sampleArrival empty).get isSome_run_sampleArrival).readDocument sampleKey) =
      ((run sampleArrival empty).get isSome_run_sampleArrival).queue.foldl
        (fun o b => b.act sampleKey o)
        ((some (sampleData "Roma")).map ObjectValue.forget) := by
  have hsent : ∀ title version, version ≤ 4 → (version = 2 → title = "Rome") →
      (version ≠ 2 → title = "Roma") → (sampleSent title version).Truthful sampleKey
        (fun v => some (sampleData (if v = 2 then "Rome" else "Roma"))) 4 := by
    intro title version hle hrome hroma doc hdoc
    rw [Collection.lookup_insert_eq, if_pos rfl] at hdoc
    obtain rfl := Option.some.inj hdoc
    refine ⟨rfl, rfl, hle, ?_⟩
    by_cases h : version = 2
    · simp [hrome h, h, content_some, MaybeDocument.data, MaybeDocument.version]
    · simp [hroma h, h, content_some, MaybeDocument.data, MaybeDocument.version]
  refine @content_readDocument_of_run _ sampleKey
    (fun v => some (sampleData (if v = 2 then "Rome" else "Roma"))) 4 _
    (Option.some_get isSome_run_sampleArrival).symm
    (List.forall_mem_append.mpr ⟨plain_sampleEvents, ?_⟩) ?_ ⟨sampleSent "Roma" 4, ?_, ?_⟩
  · exact List.forall_mem_cons.mpr
      ⟨Nat.succ_pos 2, List.forall_mem_singleton.mpr (plain_sampleSent "Roma" 4)⟩
  · refine List.forall_mem_cons.mpr ⟨hsent "Rome" 2 (by decide) (fun _ => rfl) nofun, ?_⟩
    refine List.forall_mem_cons.mpr ⟨trivial, List.forall_mem_cons.mpr ⟨?_, ?_⟩⟩
    · intro version hversion
      obtain rfl := Option.some.inj hversion
      exact Nat.le_succ 3
    · exact List.forall_mem_singleton.mpr (hsent "Roma" 4 (by decide) nofun fun _ => rfl)
  · simp [sampleArrival]
  · exact ⟨_, AList.lookup_insert _, rfl⟩

end LocalStore

end Wanderlust.Client
