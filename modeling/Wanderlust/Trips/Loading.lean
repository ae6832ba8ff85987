import Wanderlust.Foundations.Runs
import Wanderlust.Models.User
import Wanderlust.Trips.EditTrip

/-!
# Loading the entries of a trip

`loadEntryData` of the edit screen, with its answers in any order. One counter for each entry waits
for its images, and one for the trip waits for the entries. What has arrived, what is on its way
and what has been lost make up all that was asked for (`Gathering`), so that the list of entries is
assigned at most once, and at the end exactly if nothing has been lost (`loading_gathers`).
-/

namespace Wanderlust

open Async Runs

namespace EditTrip

/-- The image that is downloaded from a URL. -/
def imageAt (b : Bucket) (url : URL) : Option UIImage := (b.lookup url.path).map .ofData

/-- `loadEntryData` is called. Its list `tempAnnotations` is a new one. -/
def loading (entryIds : List EntryID) (l : EditTrip) (db : Firestore) :
    State Firestore EditTrip Write Callback :=
  (start db { l with tempAnnotations := [] }).call (loadEntryData entryIds)

/-- What the closures of `loadEntryData` unwrap is there, and a document has images. -/
structure Loadable (d : EntryDoc) : Prop where
  tripID : d.tripID.isSome
  coverPhoto : d.coverPhoto.isSome
  mediaList : d.mediaList ≠ []

/-- A move with which an entry is decoded or an image is downloaded, if it answers a request for
one. -/
def received (l : EditTrip) (db : Firestore) : Async.Move Callback TripID Event → Bool
  | .deliver (.entryFetched id) ok _ => ok ∧ (db.entries.lookup id).isSome
  | .deliver (.imageDownloaded _ _ _ url) ok _ => ok ∧ (imageAt l.bucket url).isSome
  | _ => true

/-- A move with which the observer of `tempAnnotations` assigns `entryList`. -/
def assigns (l : EditTrip) : Async.Move Callback TripID Event → Bool
  | .deliver (.imageDownloaded _ doneCounter urls url) ok _ =>
    ok ∧ (imageAt l.bucket url).isSome ∧ l.counts doneCounter + 1 = urls ∧
      l.entryIds.map List.length = some (l.tempAnnotations.length + 1)
  | _ => false

/-- What a step answers is received. -/
def Received (st : State Firestore EditTrip Write Callback) (lbl : Label TripID Event) : Prop :=
  (st.move lbl).all (received st.loc (program.view st))

/-- `entryList` is assigned in a step. -/
def Assigns (st : State Firestore EditTrip Write Callback) (lbl : Label TripID Event) : Prop :=
  (st.move lbl).any (assigns st.loc)

instance (st : State Firestore EditTrip Write Callback) : DecidablePred (Received st) :=
  fun _ => inferInstanceAs (Decidable (_ = true))

instance (st : State Firestore EditTrip Write Callback) : DecidablePred (Assigns st) :=
  fun _ => inferInstanceAs (Decidable (_ = true))

/-- The list has one annotation for each id, sorted, and each has the images of its entry. -/
structure Gathered (entryIds : List EntryID) (db : Firestore) (l : EditTrip) : Prop where
  nodup : l.entryList.Nodup
  ids : l.ids.Perm entryIds
  sorted : l.entryList.Pairwise fun r s => (l.heap r).order ≤ (l.heap s).order
  images : ∀ r ∈ l.entryList, ∃ d, db.entries.lookup (l.id r) = some d ∧
    (l.heap r).order = d.entryOrder ∧
    ((l.heap r).images.map some).Perm (d.mediaList.map (imageAt l.bucket))

/-- The entry that is on its way. -/
def Callback.entry : Callback → Option EntryID
  | .entryFetched id => some id
  | _ => none

/-- The image of an annotation that is on its way. -/
def Callback.image (r : ℕ) : Callback → Option URL
  | .imageDownloaded s _ _ url => if s = r then some url else none
  | _ => none

def pendingEntries (bag : Multiset Callback) : Multiset EntryID := bag.filterMap Callback.entry

def pendingImages (r : ℕ) (bag : Multiset Callback) : Multiset URL :=
  bag.filterMap (Callback.image r)

/-- An annotation whose document is `e`: its images, those on their way and those lost are those of
the document, and its counter counts them. -/
structure Collecting (db : Firestore) (b : Bucket) (lost : Multiset URL) (r c : ℕ)
    (e : EntryID × EntryDoc) (x : Direct Firestore EditTrip Callback) : Prop where
  doc : db.entries.lookup e.1 = some e.2
  entryID : x.loc.id r = e.1
  order : (x.loc.heap r).order = e.2.entryOrder
  counts : x.loc.counts c = (x.loc.heap r).images.length
  images : ↑((x.loc.heap r).images.map some) + (pendingImages r x.bag + lost).map (imageAt b) =
    (↑(e.2.mediaList.map (imageAt b)) : Multiset (Option UIImage))

/-- The entries decoded so far are `decoded`, their annotations and counters are numbered from
those of `l₀` on. -/
def Callback.Loads (l₀ : EditTrip) (decoded : List (EntryID × EntryDoc)) : Callback → Prop
  | .entryFetched _ => True
  | .entryCoverDownloaded _ _ => True
  | .imageDownloaded r c urls _ => ∃ k e, decoded[k]? = some e ∧ r = l₀.next + k ∧
      c = l₀.nextCount + k ∧ urls = e.2.mediaList.length
  | _ => False

/-- `loadEntryData` has been called in `l₀`. The entries decoded so far are `decoded`, the ids in
`lostIds` and, of the `k`-th of these, the images in `lost k` have been lost. -/
structure Gathering (entryIds : List EntryID) (db : Firestore) (l₀ : EditTrip)
    (decoded : List (EntryID × EntryDoc)) (lostIds : Multiset EntryID) (lost : ℕ → Multiset URL)
    (x : Direct Firestore EditTrip Callback) : Prop where
  store : x.store = db
  bucket : x.loc.bucket = l₀.bucket
  asked : x.loc.entryIds = some entryIds
  next : x.loc.next = l₀.next + decoded.length
  nextCount : x.loc.nextCount = l₀.nextCount + decoded.length
  entries :
    ↑(decoded.map Prod.fst) + pendingEntries x.bag + lostIds = (↑entryIds : Multiset EntryID)
  loads : ∀ k ∈ x.bag, k.Loads l₀ decoded
  collecting : ∀ k e, decoded[k]? = some e →
    Collecting db l₀.bucket (lost k) (l₀.next + k) (l₀.nextCount + k) e x
  fresh : ∀ k, decoded.length ≤ k → lost k = 0
  nodup : x.loc.tempAnnotations.Nodup
  temp : ∀ r, r ∈ x.loc.tempAnnotations ↔ ∃ k e, decoded[k]? = some e ∧ r = l₀.next + k ∧
    (x.loc.heap r).images.length = e.2.mediaList.length
  shown : x.loc.tempAnnotations.length = entryIds.length →
    x.loc.entryList = x.loc.tempAnnotations ∧
      x.loc.entryList.Pairwise fun r s => (x.loc.heap r).order ≤ (x.loc.heap s).order
  kept : x.loc.tempAnnotations.length ≠ entryIds.length → x.loc.entryList = l₀.entryList

section

variable {entryIds : List EntryID} {db : Firestore} {l₀ : EditTrip}
  {decoded : List (EntryID × EntryDoc)} {lostIds : Multiset EntryID} {lost : ℕ → Multiset URL}
  {x : Direct Firestore EditTrip Callback} {k : Callback} {bag rest : Multiset Callback}
  {r : ℕ}

@[simp] theorem pendingEntries_add (bag bag' : Multiset Callback) :
    pendingEntries (bag + bag') = pendingEntries bag + pendingEntries bag' :=
  Multiset.filterMap_add _ _ _

@[simp] theorem pendingImages_add (r : ℕ) (bag bag' : Multiset Callback) :
    pendingImages r (bag + bag') = pendingImages r bag + pendingImages r bag' :=
  Multiset.filterMap_add _ _ _

theorem pendingEntries_cons_none (hk : k.entry = none) (bag : Multiset Callback) :
    pendingEntries (k ::ₘ bag) = pendingEntries bag := Multiset.filterMap_cons_none _ _ hk

@[simp] theorem pendingEntries_cons_fetch (id : EntryID) (bag : Multiset Callback) :
    pendingEntries (.entryFetched id ::ₘ bag) = id ::ₘ pendingEntries bag :=
  Multiset.filterMap_cons_some _ _ _ rfl

theorem pendingImages_cons_none (hk : k.image r = none) (bag : Multiset Callback) :
    pendingImages r (k ::ₘ bag) = pendingImages r bag := Multiset.filterMap_cons_none _ _ hk

@[simp] theorem pendingImages_cons_image (r c n : ℕ) (url : URL) (bag : Multiset Callback) :
    pendingImages r (.imageDownloaded r c n url ::ₘ bag) = url ::ₘ pendingImages r bag :=
  Multiset.filterMap_cons_some _ _ _ (if_pos rfl)

theorem pendingImages_cons_other {s c n : ℕ} (hs : s ≠ r) (url : URL) (bag : Multiset Callback) :
    pendingImages r (.imageDownloaded s c n url ::ₘ bag) = pendingImages r bag :=
  pendingImages_cons_none (k := .imageDownloaded s c n url) (if_neg hs) bag

/-- The requests for the entries. -/
theorem pending_fetches (ids : List EntryID) :
    pendingEntries (callbacks (ids.map fun id => (.request (.entryFetched id) : Cmd))) = ↑ids := by
  rw [callbacks_map_request]
  induction ids with
  | nil => rfl
  | cons id ids ih =>
    rw [List.map_cons, ← Multiset.cons_coe, pendingEntries_cons_fetch, ih, Multiset.cons_coe]

/-- The requests for the images of an annotation. -/
theorem pending_downloads (s c n : ℕ) (urls : List URL) :
    pendingEntries (callbacks (urls.map fun url =>
        (.request (.imageDownloaded s c n url) : Cmd))) = 0 ∧
      ∀ r, pendingImages r (callbacks (urls.map fun url =>
        (.request (.imageDownloaded s c n url) : Cmd))) = if s = r then ↑urls else 0 := by
  rw [callbacks_map_request]
  induction urls with
  | nil => exact ⟨rfl, fun r => by split <;> rfl⟩
  | cons url urls ih =>
    obtain ⟨hentries, himages⟩ := ih
    rw [List.map_cons, ← Multiset.cons_coe]
    refine ⟨by rw [pendingEntries_cons_none rfl, hentries], fun r => ?_⟩
    by_cases hs : s = r
    · subst hs
      rw [pendingImages_cons_image, himages, if_pos rfl, if_pos rfl, Multiset.cons_coe]
    · rw [pendingImages_cons_other hs, himages, if_neg hs, if_neg hs]

theorem Gathering.length_le (h : Gathering entryIds db l₀ decoded lostIds lost x) :
    decoded.length ≤ entryIds.length := by
  have hcard := congrArg Multiset.card h.entries
  simp only [Multiset.card_add, Multiset.coe_card, List.length_map] at hcard
  omega

/-- The annotations of the list are those of decoded entries. -/
theorem Gathering.temp_length_le (h : Gathering entryIds db l₀ decoded lostIds lost x) :
    x.loc.tempAnnotations.length ≤ decoded.length := by
  have hsub : x.loc.tempAnnotations ⊆ (List.range decoded.length).map (l₀.next + ·) := by
    intro r hr
    obtain ⟨k, e, hk, rfl, -⟩ := (h.temp r).mp hr
    obtain ⟨hlt, -⟩ := List.getElem?_eq_some_iff.mp hk
    exact List.mem_map.mpr ⟨k, List.mem_range.mpr hlt, rfl⟩
  have hle := (h.nodup.subperm hsub).length_le
  rwa [List.length_map, List.length_range] at hle

/-- The list of entries is full. -/
def Full (entryIds : List EntryID) (l : EditTrip) : Prop :=
  l.tempAnnotations.length = entryIds.length

instance (entryIds : List EntryID) (l : EditTrip) : Decidable (Full entryIds l) :=
  inferInstanceAs (Decidable (_ = _))

/-- The annotations of a full list are those of all decoded entries, and there is one for each
id. -/
theorem Gathering.of_full (h : Gathering entryIds db l₀ decoded lostIds lost x)
    (hfull : Full entryIds x.loc) : decoded.length = entryIds.length ∧
      x.loc.tempAnnotations.Perm ((List.range decoded.length).map (l₀.next + ·)) := by
  have hlen : decoded.length = entryIds.length :=
    le_antisymm h.length_le (hfull.ge.trans h.temp_length_le)
  refine ⟨hlen, ?_⟩
  have hsub : x.loc.tempAnnotations ⊆ (List.range decoded.length).map (l₀.next + ·) := by
    intro r hr
    obtain ⟨i, e, hi, rfl, -⟩ := (h.temp r).mp hr
    obtain ⟨hlt, -⟩ := List.getElem?_eq_some_iff.mp hi
    exact List.mem_map.mpr ⟨i, List.mem_range.mpr hlt, rfl⟩
  refine (h.nodup.subperm hsub).perm_of_length_le ?_
  rw [List.length_map, List.length_range, hlen]
  exact hfull.ge

/-- The list is not full as long as an annotation is missing. -/
theorem Gathering.not_full (h : Gathering entryIds db l₀ decoded lostIds lost x) {j : ℕ}
    (hj : j < decoded.length) (hnew : l₀.next + j ∉ x.loc.tempAnnotations) :
    ¬Full entryIds x.loc := fun hfull =>
  hnew ((h.of_full hfull).2.mem_iff.mpr (List.mem_map.mpr ⟨j, List.mem_range.mpr hj, rfl⟩))

/-- The call of `loadEntryData`. -/
theorem gathering_loading (entryIds : List EntryID) (hne : entryIds ≠ []) (l : EditTrip)
    (db : Firestore) :
    Gathering entryIds db l [] 0 (fun _ => 0) (program.direct (loading entryIds l db)) := by
  have hcalls : (program.direct (loading entryIds l db)).bag =
      callbacks (entryIds.map fun id => (.request (.entryFetched id) : Cmd)) := by
    rw [loading, direct_call]
    simp [Program.after, loadEntryData]
  have hloc : (program.direct (loading entryIds l db)).loc =
      { l with tempAnnotations := [], entryIds := some entryIds } := by
    rw [loading, direct_call]
    rfl
  have htemp : (program.direct (loading entryIds l db)).loc.tempAnnotations = [] := by rw [hloc]
  constructor
  · rw [loading, direct_call]
    simp [Program.after, loadEntryData]
  · rw [hloc]
  · rw [hloc]
  · rw [hloc]
    rfl
  · rw [hloc]
    rfl
  · rw [hcalls, pending_fetches]
    simp
  · intro k hk
    rw [hcalls, callbacks_map_request, Multiset.mem_coe] at hk
    obtain ⟨id, -, rfl⟩ := List.mem_map.mp hk
    trivial
  · intro k e hk
    cases hk
  · exact fun _ _ => rfl
  · rw [htemp]
    exact List.nodup_nil
  · intro r
    rw [htemp]
    simp
  · intro hfull
    rw [htemp] at hfull
    exact absurd (List.length_eq_zero_iff.mp hfull.symm) hne
  · intro _
    rw [hloc]

/-- What is on its way and never arrives, is lost. -/
theorem Gathering.lose (h : Gathering entryIds db l₀ decoded lostIds lost x)
    (hb : x.bag = k ::ₘ rest) :
    Gathering entryIds db l₀ decoded (pendingEntries {k} + lostIds)
      (fun i => pendingImages (l₀.next + i) {k} + lost i) { x with bag := rest } := by
  have hbag : x.bag = {k} + rest := hb
  refine { h with entries := ?_, loads := ?_, collecting := ?_, fresh := ?_ }
  · have hentries := h.entries
    rw [hbag, pendingEntries_add] at hentries
    rw [← hentries]
    abel
  · exact fun k' hk' => h.loads k' (hb ▸ Multiset.mem_cons_of_mem hk')
  · intro i e hi
    obtain ⟨hdoc, hid, horder, hcounts, himages⟩ := h.collecting i e hi
    refine ⟨hdoc, hid, horder, hcounts, ?_⟩
    rw [hbag, pendingImages_add] at himages
    rw [← himages]
    congr 2
    abel
  · intro i hi
    have hnone : pendingImages (l₀.next + i) {k} = 0 := by
      have hloads := h.loads k (hb ▸ Multiset.mem_cons_self k rest)
      refine pendingImages_cons_none ?_ 0
      cases k with
      | imageDownloaded r c n url =>
        obtain ⟨j, e, hj, rfl, -⟩ := hloads
        obtain ⟨hlt, -⟩ := List.getElem?_eq_some_iff.mp hj
        exact if_neg (by omega)
      | _ => rfl
    rw [hnone, h.fresh i hi]
    rfl

/-- Only what the list of entries depends on matters. -/
theorem Gathering.alike (h : Gathering entryIds db l₀ decoded lostIds lost x) {l' : EditTrip}
    (hbucket : l'.bucket = x.loc.bucket) (hasked : l'.entryIds = x.loc.entryIds)
    (hnext : l'.next = x.loc.next) (hnextCount : l'.nextCount = x.loc.nextCount)
    (hcounts : l'.counts = x.loc.counts) (htemp : l'.tempAnnotations = x.loc.tempAnnotations)
    (hlist : l'.entryList = x.loc.entryList)
    (hheap : ∀ r, l'.id r = x.loc.id r ∧ (l'.heap r).order = (x.loc.heap r).order ∧
      (l'.heap r).images = (x.loc.heap r).images) :
    Gathering entryIds db l₀ decoded lostIds lost { x with loc := l' } := by
  constructor
  · exact h.store
  · exact hbucket.trans h.bucket
  · exact hasked.trans h.asked
  · exact hnext.trans h.next
  · exact hnextCount.trans h.nextCount
  · exact h.entries
  · exact h.loads
  · intro k e hk
    obtain ⟨hdoc, hid, horder, hc, himages⟩ := h.collecting k e hk
    obtain ⟨hid', horder', himages'⟩ := hheap (l₀.next + k)
    exact ⟨hdoc, hid'.trans hid, horder'.trans horder, by rw [hcounts, himages', hc],
      by rw [himages', himages]⟩
  · exact h.fresh
  · rw [htemp]
    exact h.nodup
  · intro r
    rw [htemp, (hheap r).2.2]
    exact h.temp r
  · intro hfull
    rw [htemp] at hfull
    obtain ⟨hsame, hsorted⟩ := h.shown hfull
    refine ⟨by rw [hlist, htemp, hsame], ?_⟩
    rw [hlist]
    exact hsorted.imp fun {r s} hrs => by rwa [(hheap r).2.1, (hheap s).2.1]
  · rw [hlist, htemp]
    exact h.kept

theorem Callback.Loads.append (h : k.Loads l₀ decoded) (e : EntryID × EntryDoc) :
    k.Loads l₀ (decoded ++ [e]) := by
  cases k with
  | imageDownloaded r c n url =>
    obtain ⟨i, e', hi, hrest⟩ := h
    obtain ⟨hlt, -⟩ := List.getElem?_eq_some_iff.mp hi
    exact ⟨i, e', by rw [List.getElem?_append_left hlt, hi], hrest⟩
  | _ => exact h

theorem pendingImages_eq_zero_of (h : ∀ k ∈ bag, k.image r = none) : pendingImages r bag = 0 := by
  refine Multiset.eq_zero_of_forall_notMem fun url hurl => ?_
  obtain ⟨k, hk, himage⟩ := (Multiset.mem_filterMap _ _).mp hurl
  rw [h k hk] at himage
  cases himage

/-- No image is on its way for an annotation that there is not yet. -/
theorem pendingImages_eq_zero (h : ∀ k ∈ bag, k.Loads l₀ decoded)
    (hr : l₀.next + decoded.length ≤ r) : pendingImages r bag = 0 := by
  refine pendingImages_eq_zero_of fun k hk => ?_
  have hloads := h k hk
  cases k with
  | imageDownloaded s c n url =>
    obtain ⟨j, e, hj, rfl, -⟩ := hloads
    obtain ⟨hlt, -⟩ := List.getElem?_eq_some_iff.mp hj
    exact if_neg (by omega)
  | _ => rfl

/-- An annotation that has nothing to do with a change is collected as before. -/
theorem Collecting.keep {b : Bucket} {lost : Multiset URL} {c : ℕ} {e : EntryID × EntryDoc}
    {x' : Direct Firestore EditTrip Callback} (h : Collecting db b lost r c e x)
    (hheap : x'.loc.heap r = x.loc.heap r) (hcounts : x'.loc.counts c = x.loc.counts c)
    (hbag : pendingImages r x'.bag = pendingImages r x.bag) : Collecting db b lost r c e x' := by
  obtain ⟨hdoc, hid, horder, hc, himages⟩ := h
  refine ⟨hdoc, ?_, ?_, ?_, ?_⟩
  · rw [EditTrip.id, hheap]
    exact hid
  · rw [hheap, horder]
  · rw [hheap, hcounts, hc]
  · rw [hheap, hbag, himages]

/-- What the document of an entry changes when it arrives, and what it leaves alone. -/
structure Annotating (id : EntryID) (d : EntryDoc) (rest : Multiset Callback)
    (x x' : Direct Firestore EditTrip Callback) : Prop where
  store : x'.store = x.store
  bucket : x'.loc.bucket = x.loc.bucket
  asked : x'.loc.entryIds = x.loc.entryIds
  entryList : x'.loc.entryList = x.loc.entryList
  temp : x'.loc.tempAnnotations = x.loc.tempAnnotations
  next : x'.loc.next = x.loc.next + 1
  nextCount : x'.loc.nextCount = x.loc.nextCount + 1
  entryID : x'.loc.id x.loc.next = id
  order : (x'.loc.heap x.loc.next).order = d.entryOrder
  images : (x'.loc.heap x.loc.next).images = []
  heap : ∀ r, r ≠ x.loc.next → x'.loc.heap r = x.loc.heap r
  count : x'.loc.counts x.loc.nextCount = 0
  counts : ∀ c, c ≠ x.loc.nextCount → x'.loc.counts c = x.loc.counts c
  bag : ∃ cover, x'.bag = rest + (.entryCoverDownloaded x.loc.next cover ::ₘ
    callbacks (d.mediaList.map fun url => (.request (.imageDownloaded x.loc.next x.loc.nextCount
      d.mediaList.length url) : Cmd)))

theorem annotating_of_entryFetched {id : EntryID} {d : EntryDoc} {res : EditTrip × List Cmd}
    (hr : entryFetched id d x.loc = some res) :
    Annotating id d rest x (program.after res { x with bag := rest }) := by
  obtain ⟨t, cover, a, -, -, ha, rfl⟩ := entryFetched_eq_some hr
  have hself : ((x.loc.newCount.set x.loc.next a).heap x.loc.next) = a := heap_set_self _ _ _
  constructor
  · simp [Program.after]
  · rfl
  · rfl
  · rfl
  · rfl
  · rfl
  · rfl
  · exact (congrArg CustomAnnotation.entryID hself).trans (congrArg CustomAnnotation.entryID ha)
  · exact (congrArg CustomAnnotation.order hself).trans (congrArg CustomAnnotation.order ha)
  · exact (congrArg CustomAnnotation.images hself).trans (congrArg CustomAnnotation.images ha)
  · exact fun r hr => heap_set_ne hr _ _
  · exact Function.update_self _ _ _
  · exact fun c hc => Function.update_of_ne hc _ _
  · exact ⟨cover, rfl⟩

section

variable {id : EntryID} {d : EntryDoc} {x' : Direct Firestore EditTrip Callback}

theorem Annotating.mem_bag (h : Annotating id d rest x x') (hk : k ∈ x'.bag) : k ∈ rest ∨
    (∃ cover, k = .entryCoverDownloaded x.loc.next cover) ∨
      ∃ url, k = .imageDownloaded x.loc.next x.loc.nextCount d.mediaList.length url := by
  obtain ⟨cover, hbag⟩ := h.bag
  rw [hbag, callbacks_map_request, Multiset.mem_add, Multiset.mem_cons, Multiset.mem_coe,
    List.mem_map] at hk
  rcases hk with hk | rfl | ⟨url, -, rfl⟩
  · exact Or.inl hk
  · exact Or.inr (Or.inl ⟨cover, rfl⟩)
  · exact Or.inr (Or.inr ⟨url, rfl⟩)

theorem Annotating.pendingEntries_eq (h : Annotating id d rest x x') :
    pendingEntries x'.bag = pendingEntries rest := by
  obtain ⟨cover, hbag⟩ := h.bag
  rw [hbag, pendingEntries_add, pendingEntries_cons_none rfl, (pending_downloads _ _ _ _).1,
    add_zero]

theorem Annotating.pendingImages_eq (h : Annotating id d rest x x') (r : ℕ) :
    pendingImages r x'.bag =
      pendingImages r rest + if x.loc.next = r then ↑d.mediaList else 0 := by
  obtain ⟨cover, hbag⟩ := h.bag
  rw [hbag, pendingImages_add, pendingImages_cons_none rfl, (pending_downloads _ _ _ _).2]

end

/-- An entry has been decoded. -/
theorem Gathering.decode (h : Gathering entryIds db l₀ decoded lostIds lost x) {id : EntryID}
    (hb : x.bag = .entryFetched id ::ₘ rest) {d : EntryDoc} (hd : db.entries.lookup id = some d)
    (hd' : Loadable d) {res : EditTrip × List Cmd} (hr : entryFetched id d x.loc = some res) :
    Gathering entryIds db l₀ (decoded ++ [(id, d)]) lostIds lost
      (program.after res { x with bag := rest }) := by
  have hx' : Annotating id d rest x (program.after res { x with bag := rest }) :=
    annotating_of_entryFetched hr
  generalize program.after res { x with bag := rest } = x' at hx' ⊢
  have hnext := h.next
  have hnextCount := h.nextCount
  have hrest : ∀ k ∈ rest, k.Loads l₀ decoded :=
    fun k hk => h.loads k (hb ▸ Multiset.mem_cons_of_mem hk)
  have hentries := h.entries
  rw [hb, pendingEntries_cons_fetch] at hentries
  have hold : ∀ r ∈ x.loc.tempAnnotations, x'.loc.heap r = x.loc.heap r := by
    intro r hr
    obtain ⟨i, e, hi, rfl, -⟩ := (h.temp r).mp hr
    obtain ⟨hlt, -⟩ := List.getElem?_eq_some_iff.mp hi
    exact hx'.heap _ (by omega)
  have hlast : (decoded ++ [(id, d)])[decoded.length]? = some (id, d) := by simp
  constructor
  · exact hx'.store.trans h.store
  · exact hx'.bucket.trans h.bucket
  · exact hx'.asked.trans h.asked
  · rw [hx'.next, List.length_append, List.length_singleton, ← add_assoc, ← hnext]
  · rw [hx'.nextCount, List.length_append, List.length_singleton, ← add_assoc, ← hnextCount]
  · rw [hx'.pendingEntries_eq, ← hentries, List.map_append, ← Multiset.coe_add,
      List.map_singleton, Multiset.coe_singleton, ← Multiset.singleton_add]
    abel
  · intro k hk
    rcases hx'.mem_bag hk with hk | ⟨cover, rfl⟩ | ⟨url, rfl⟩
    · exact (hrest k hk).append _
    · trivial
    · exact ⟨decoded.length, (id, d), hlast, hnext, hnextCount, rfl⟩
  · intro i e hi
    rcases Nat.lt_or_ge i decoded.length with hlt | hge
    · rw [List.getElem?_append_left hlt] at hi
      refine (h.collecting i e hi).keep (hx'.heap _ (by omega)) (hx'.counts _ (by omega)) ?_
      rw [hx'.pendingImages_eq, if_neg (by omega), add_zero, hb, pendingImages_cons_none rfl]
    · obtain ⟨hlt, -⟩ := List.getElem?_eq_some_iff.mp hi
      rw [List.length_append, List.length_singleton] at hlt
      obtain rfl : i = decoded.length := by omega
      obtain rfl := Option.some.inj (hlast.symm.trans hi)
      rw [← hnext, ← hnextCount]
      refine ⟨hd, hx'.entryID, hx'.order, ?_, ?_⟩
      · rw [hx'.images, hx'.count]
        rfl
      · rw [hx'.images, hx'.pendingImages_eq, pendingImages_eq_zero hrest hnext.ge, if_pos rfl,
          h.fresh _ le_rfl]
        simp
  · intro i hi
    rw [List.length_append, List.length_singleton] at hi
    exact h.fresh i (by omega)
  · rw [hx'.temp]
    exact h.nodup
  · intro r
    rw [hx'.temp, h.temp]
    constructor
    · rintro ⟨i, e, hi, rfl, hlen⟩
      obtain ⟨hlt, -⟩ := List.getElem?_eq_some_iff.mp hi
      exact ⟨i, e, by rw [List.getElem?_append_left hlt, hi], rfl,
        by rwa [hx'.heap _ (by omega)]⟩
    · rintro ⟨i, e, hi, rfl, hlen⟩
      rcases Nat.lt_or_ge i decoded.length with hlt | hge
      · rw [List.getElem?_append_left hlt] at hi
        exact ⟨i, e, hi, rfl, by rwa [hx'.heap _ (by omega)] at hlen⟩
      · -- the new annotation has no image yet, and its entry has one
        obtain ⟨hlt, -⟩ := List.getElem?_eq_some_iff.mp hi
        rw [List.length_append, List.length_singleton] at hlt
        obtain rfl : i = decoded.length := by omega
        obtain rfl := Option.some.inj (hlast.symm.trans hi)
        rw [← hnext, hx'.images] at hlen
        exact absurd (List.length_eq_zero_iff.mp hlen.symm) hd'.mediaList
  · intro hfull
    rw [hx'.temp] at hfull
    obtain ⟨hsame, hsorted⟩ := h.shown hfull
    rw [hx'.entryList, hx'.temp]
    refine ⟨hsame, hsorted.imp_of_mem fun {r s} hr hs hrs => ?_⟩
    rw [hsame] at hr hs
    rwa [hold r hr, hold s hs]
  · rw [hx'.temp, hx'.entryList]
    exact h.kept

/-- Nothing has been lost. -/
def NoLoss (lostIds : Multiset EntryID) (lost : ℕ → Multiset URL) : Prop :=
  lostIds = 0 ∧ ∀ k, lost k = 0

/-- An image has been downloaded for an annotation, `temp` and `entryList` are what the observers
make of the lists. -/
theorem Gathering.collect (h : Gathering entryIds db l₀ decoded lostIds lost x) {c n : ℕ}
    {url : URL} {image : UIImage} (hb : x.bag = .imageDownloaded r c n url ::ₘ rest)
    (himage : imageAt l₀.bucket url = some image) (l' : EditTrip) (temp list : List ℕ)
    (hl' : l' = { ((x.loc.set r { x.loc.heap r with
        images := (x.loc.heap r).images ++ [image]
        numPhotos := (x.loc.heap r).images.length + 1 }).count c) with
      annotations := l'.annotations, tempAnnotations := temp, entryList := list })
    (hnodup : temp.Nodup)
    (htemp : ∀ s, s ∈ temp ↔ s ∈ x.loc.tempAnnotations ∨ s = r ∧ x.loc.counts c + 1 = n)
    (hshown : temp.length = entryIds.length → list = temp ∧
      list.Pairwise fun r s => (x.loc.heap r).order ≤ (x.loc.heap s).order)
    (hkept : temp.length ≠ entryIds.length → list = l₀.entryList) :
    Gathering entryIds db l₀ decoded lostIds lost { x with loc := l', bag := rest } := by
  obtain ⟨j, e, hj, rfl, rfl, rfl⟩ := h.loads _ (hb ▸ Multiset.mem_cons_self _ rest)
  obtain ⟨hdoc, hid, horder, hc, himages⟩ := h.collecting j e hj
  rw [hb, pendingImages_cons_image, Multiset.cons_add, Multiset.map_cons, himage] at himages
  have hself : (l'.heap (l₀.next + j)).images = (x.loc.heap (l₀.next + j)).images ++ [image] ∧
      (l'.heap (l₀.next + j)).entryID = (x.loc.heap (l₀.next + j)).entryID ∧
      (l'.heap (l₀.next + j)).order = (x.loc.heap (l₀.next + j)).order := by
    have hheap : l'.heap (l₀.next + j) = { x.loc.heap (l₀.next + j) with
        images := (x.loc.heap (l₀.next + j)).images ++ [image]
        numPhotos := (x.loc.heap (l₀.next + j)).images.length + 1 } := by
      rw [hl']
      exact heap_set_self _ _ _
    rw [hheap]
    exact ⟨rfl, rfl, rfl⟩
  have hother : ∀ s, s ≠ l₀.next + j → l'.heap s = x.loc.heap s := by
    intro s hs
    rw [hl']
    exact heap_set_ne hs _ _
  have horders : ∀ s, (l'.heap s).order = (x.loc.heap s).order := by
    intro s
    by_cases hs : s = l₀.next + j
    · rw [hs]
      exact hself.2.2
    · rw [hother s hs]
  have hcount : l'.counts (l₀.nextCount + j) = x.loc.counts (l₀.nextCount + j) + 1 := by
    rw [hl']
    exact counts_count_self _ _
  have hcounts : ∀ c, c ≠ l₀.nextCount + j → l'.counts c = x.loc.counts c := by
    intro c hc
    rw [hl']
    exact counts_count_ne hc _
  have hfields : l'.bucket = x.loc.bucket ∧ l'.entryIds = x.loc.entryIds ∧
      l'.next = x.loc.next ∧ l'.nextCount = x.loc.nextCount ∧ l'.tempAnnotations = temp ∧
      l'.entryList = list := by
    rw [hl']
    exact ⟨rfl, rfl, rfl, rfl, rfl, rfl⟩
  obtain ⟨hbucket, hasked, hnext, hnextCount, hltemp, hllist⟩ := hfields
  have hentries := h.entries
  rw [hb, pendingEntries_cons_none rfl] at hentries
  constructor
  · exact h.store
  · exact hbucket.trans h.bucket
  · exact hasked.trans h.asked
  · exact hnext.trans h.next
  · exact hnextCount.trans h.nextCount
  · exact hentries
  · exact fun k hk => h.loads k (hb ▸ Multiset.mem_cons_of_mem hk)
  · intro i e' hi
    by_cases hij : i = j
    · subst hij
      obtain rfl := Option.some.inj (hj.symm.trans hi)
      refine ⟨hdoc, hself.2.1.trans hid, hself.2.2.trans horder, ?_, ?_⟩
      · change l'.counts _ = (l'.heap _).images.length
        rw [hcount, hself.1, hc, List.length_append]
        rfl
      · dsimp only
        rw [hself.1, List.map_append, ← Multiset.coe_add, List.map_singleton,
          Multiset.coe_singleton, add_assoc, Multiset.singleton_add]
        exact himages
    · refine (h.collecting i e' hi).keep (hother _ (by omega)) (hcounts _ (by omega)) ?_
      rw [hb, pendingImages_cons_other (by omega)]
  · exact h.fresh
  · rw [hltemp]
    exact hnodup
  · intro s
    change s ∈ l'.tempAnnotations ↔ ∃ k e, decoded[k]? = some e ∧ s = l₀.next + k ∧
      (l'.heap s).images.length = e.2.mediaList.length
    rw [hltemp, htemp, h.temp]
    by_cases hs : s = l₀.next + j
    · subst hs
      have hlen : (l'.heap (l₀.next + j)).images.length = x.loc.counts (l₀.nextCount + j) + 1 := by
        rw [hself.1, hc, List.length_append]
        rfl
      -- it lacked at least this image
      have hcard := congrArg Multiset.card himages
      simp only [Multiset.card_add, Multiset.coe_card, Multiset.card_cons, Multiset.card_map,
        List.length_map] at hcard
      rw [hlen]
      constructor
      · rintro (⟨i, e', hi, heq, hfull⟩ | ⟨-, hfull⟩)
        · obtain rfl : i = j := by omega
          obtain rfl := Option.some.inj (hj.symm.trans hi)
          omega
        · exact ⟨j, e, hj, rfl, hfull⟩
      · rintro ⟨i, e', hi, heq, hfull⟩
        obtain rfl : i = j := by omega
        obtain rfl := Option.some.inj (hj.symm.trans hi)
        exact Or.inr ⟨rfl, hfull⟩
    · rw [hother s hs]
      exact or_iff_left fun hboth => hs hboth.1
  · intro hfull
    change l'.tempAnnotations.length = _ at hfull
    rw [hltemp] at hfull
    obtain ⟨hsame, hsorted⟩ := hshown hfull
    change l'.entryList = l'.tempAnnotations ∧
      l'.entryList.Pairwise fun r s => (l'.heap r).order ≤ (l'.heap s).order
    rw [hltemp, hllist]
    exact ⟨hsame, hsorted.imp fun {r s} hrs => by rwa [horders r, horders s]⟩
  · change l'.tempAnnotations.length ≠ _ → l'.entryList = _
    rw [hltemp, hllist]
    exact hkept

/-- An image has been downloaded. -/
theorem Gathering.imageDownloaded (h : Gathering entryIds db l₀ decoded lostIds lost x) {c n : ℕ}
    {url : URL} {image : UIImage} (hb : x.bag = .imageDownloaded r c n url ::ₘ rest)
    (himage : imageAt l₀.bucket url = some image) :
    Gathering entryIds db l₀ decoded lostIds lost
        ⟨x.store, EditTrip.imageDownloaded r c n image x.loc, rest⟩ ∧
      (x.loc.counts c + 1 = n ∧ entryIds.length = x.loc.tempAnnotations.length + 1 →
        ¬Full entryIds x.loc) ∧
      (Full entryIds (EditTrip.imageDownloaded r c n image x.loc) ↔ Full entryIds x.loc ∨
        x.loc.counts c + 1 = n ∧ entryIds.length = x.loc.tempAnnotations.length + 1) := by
  obtain ⟨l, hl⟩ : ∃ l, ((x.loc.set r { x.loc.heap r with
      images := (x.loc.heap r).images ++ [image]
      numPhotos := (x.loc.heap r).images.length + 1 }).count c) = l := ⟨_, rfl⟩
  have hcount : l.counts c = x.loc.counts c + 1 := by
    rw [← hl]
    exact counts_count_self _ _
  have htemp : l.tempAnnotations = x.loc.tempAnnotations := by
    rw [← hl]
    rfl
  have hids : l.entryIds = some entryIds := by
    rw [← hl]
    exact h.asked
  have horder : ∀ s, (l.heap s).order = (x.loc.heap s).order := by
    intro s
    rw [← hl]
    by_cases hs : s = r
    · subst hs
      simp [count]
    · exact congrArg _ (heap_set_ne hs _ _)
  have hcode : EditTrip.imageDownloaded r c n image x.loc =
      if x.loc.counts c + 1 = n then
        appendAnnotation r { l with annotations := l.annotations ++ [r] } else l := by
    simp only [EditTrip.imageDownloaded, hl, hcount]
  rw [hcode]
  by_cases hlast : x.loc.counts c + 1 = n
  · -- the annotation has all of its images, and is put into the list
    rw [if_pos hlast]
    obtain ⟨j, e, hj, hr, hcj, hn⟩ := h.loads _ (hb ▸ Multiset.mem_cons_self _ rest)
    have hnew : r ∉ x.loc.tempAnnotations := by
      subst hr hcj hn
      have hc := (h.collecting j e hj).counts
      intro hmem
      obtain ⟨i, e', hi, heq, hfull⟩ := (h.temp _).mp hmem
      obtain rfl : i = j := by omega
      obtain rfl := Option.some.inj (hj.symm.trans hi)
      omega
    have hshort : ¬Full entryIds x.loc := by
      obtain ⟨hlt, -⟩ := List.getElem?_eq_some_iff.mp hj
      exact h.not_full hlt (hr ▸ hnew)
    have hnodup : (x.loc.tempAnnotations ++ [r]).Nodup := by
      rw [List.nodup_append]
      refine ⟨h.nodup, List.nodup_singleton r, fun s hs t ht => ?_⟩
      rw [List.mem_singleton.mp ht]
      rintro rfl
      exact hnew hs
    have hmem : ∀ s, s ∈ x.loc.tempAnnotations ++ [r] ↔
        s ∈ x.loc.tempAnnotations ∨ s = r ∧ x.loc.counts c + 1 = n := by
      intro s
      simp [hlast]
    have hcond : l.entryIds.map List.length = some (l.tempAnnotations ++ [r]).length ↔
        entryIds.length = x.loc.tempAnnotations.length + 1 := by
      rw [hids, htemp]
      simp
    unfold appendAnnotation
    by_cases hall : entryIds.length = x.loc.tempAnnotations.length + 1
    · rw [if_pos (hcond.mpr hall)]
      obtain ⟨sorted, hsorted⟩ : ∃ sorted, (l.tempAnnotations ++ [r]).insertionSort
          (fun r r' => (l.heap r).order ≤ (l.heap r').order) = sorted := ⟨_, rfl⟩
      have hperm : sorted.Perm (x.loc.tempAnnotations ++ [r]) := by
        rw [← hsorted, htemp]
        exact List.perm_insertionSort _ _
      have hpairwise : sorted.Pairwise fun r r' => (l.heap r).order ≤ (l.heap r').order := by
        rw [← hsorted]
        exact List.pairwise_insertionSort _ _
      rw [hsorted]
      have hlen := hperm.length_eq
      rw [List.length_append, List.length_singleton] at hlen
      refine ⟨h.collect hb himage _ sorted sorted (by subst hl; rfl)
        (hperm.nodup_iff.mpr hnodup) (fun s => hperm.mem_iff.trans (hmem s)) (fun _ => ⟨rfl, ?_⟩)
        fun hfew => absurd hlen (by omega), fun _ => hshort, ?_⟩
      · exact hpairwise.imp fun {s t} hst => by rwa [← horder s, ← horder t]
      · refine iff_of_true ?_ (Or.inr ⟨hlast, hall⟩)
        change sorted.length = _
        omega
    · rw [if_neg (mt hcond.mp hall), htemp]
      have hle := (h.collect hb himage { l with
          annotations := l.annotations ++ [r], tempAnnotations := x.loc.tempAnnotations ++ [r] }
        (x.loc.tempAnnotations ++ [r]) x.loc.entryList (by subst hl; rfl) hnodup
        hmem (fun hfull => absurd hfull.symm (by simpa using hall)) fun _ => h.kept hshort)
      have hlong := hle.temp_length_le.trans hle.length_le
      refine ⟨hle, fun hboth => absurd hboth.2 hall, ?_⟩
      simp only [List.length_append, List.length_singleton] at hlong
      rw [or_iff_left fun hboth => hall hboth.2, iff_false_right hshort, Full]
      simp only [List.length_append, List.length_singleton]
      omega
  · rw [if_neg hlast]
    refine ⟨h.collect hb himage l _ _ (by subst hl; rfl) h.nodup (fun s => ?_) h.shown h.kept,
      fun hboth => absurd hboth.1 hlast, ?_⟩
    · exact (or_iff_left fun hboth => hlast hboth.2).symm
    · rw [Full, Full, htemp]
      exact (or_iff_left fun hboth => hlast hboth.1).symm

/-- **One answer.** -/
theorem Gathering.step (h : Gathering entryIds db l₀ decoded lostIds lost x)
    (hdb : ∀ id ∈ entryIds, ∀ d ∈ db.entries.lookup id, Loadable d) {ok : Bool} {a : TripID}
    {x' : Direct Firestore EditTrip Callback} (hs : DirectStep program x (.deliver k ok a) x') :
    ∃ decoded' lostIds' lost', Gathering entryIds db l₀ decoded' lostIds' lost' x' ∧
      (NoLoss lostIds' lost' ↔
        NoLoss lostIds lost ∧ received x.loc x.store (.deliver k ok a) = true) ∧
      (assigns x.loc (.deliver k ok a) = true → ¬Full entryIds x.loc) ∧
      (Full entryIds x'.loc ↔
        Full entryIds x.loc ∨ assigns x.loc (.deliver k ok a) = true) := by
  cases hs with
  | @deliver _ _ _ rest res hb hreact =>
    have hcode : react k ok a x.loc x.store = some res := hreact
    have hloads := h.loads k (hb ▸ Multiset.mem_cons_self k rest)
    have hlose := h.lose hb
    have hafter : ∀ l : EditTrip, program.after (l, []) { x with bag := rest } =
        ⟨x.store, l, rest⟩ := fun l => by simp [Program.after]
    cases k <;> try exact hloads.elim
    case entryFetched id =>
      have hmem : id ∈ entryIds := by
        have hentries := h.entries
        rw [hb, pendingEntries_cons_fetch] at hentries
        rw [← Multiset.mem_coe, ← hentries]
        simp
      have hno : assigns x.loc (.deliver (.entryFetched id) ok a) = false := rfl
      simp only [react] at hcode
      split at hcode
      · -- the fetch fails, or there is no document
        rename_i hnone
        cases hcode
        have harr : received x.loc x.store (.deliver (.entryFetched id) ok a) = false := by
          cases ok <;> simp_all [received]
        have hone : pendingEntries {Callback.entryFetched id} = {id} :=
          pendingEntries_cons_fetch id 0
        rw [hafter]
        refine ⟨_, _, _, hlose, ?_, by simp [hno], by simp [hno]⟩
        rw [harr, hone]
        simp [NoLoss]
      · rename_i d hsome
        have hfound : ok = true ∧ x.store.entries.lookup id = some d := by
          cases ok <;> simp_all
        have harr : received x.loc x.store (.deliver (.entryFetched id) ok a) = true := by
          simp [received, hfound.1, hfound.2]
        have hd := hfound.2
        rw [h.store] at hd
        have htemp : res.1.tempAnnotations = x.loc.tempAnnotations := by
          obtain ⟨t, cover, a, -, -, -, rfl⟩ := entryFetched_eq_some hcode
          rfl
        refine ⟨_, _, _, h.decode hb hd (hdb id hmem d hd) hcode, by simp [harr], by simp [hno], ?_⟩
        simp [hno, Full, Program.after, htemp]
    case entryCoverDownloaded r url =>
      have hsame : NoLoss (pendingEntries {Callback.entryCoverDownloaded r url} + lostIds)
          (fun i => pendingImages (l₀.next + i) {Callback.entryCoverDownloaded r url} + lost i) ↔
          NoLoss lostIds lost ∧
            received x.loc x.store (.deliver (.entryCoverDownloaded r url) ok a) = true := by
        have hentry : pendingEntries {Callback.entryCoverDownloaded r url} = 0 := rfl
        have himage : ∀ s, pendingImages s {Callback.entryCoverDownloaded r url} = 0 := fun _ => rfl
        simp only [NoLoss, hentry, himage, zero_add]
        exact (and_iff_left rfl).symm
      have hno : assigns x.loc (.deliver (.entryCoverDownloaded r url) ok a) = false := rfl
      simp only [react] at hcode
      split at hcode <;> cases hcode
      · rw [hafter]
        exact ⟨_, _, _, hlose, hsame, by simp [hno], by simp [hno]⟩
      · rw [hafter]
        refine ⟨_, _, _, hlose.alike rfl rfl rfl rfl rfl rfl rfl fun s => ?_, hsame, by simp [hno],
          by simp [hno, Full, set]⟩
        by_cases hs : s = r
        · subst hs
          simp [EditTrip.id]
        · simp [EditTrip.id, heap_set_ne hs]
    case imageDownloaded r c n url =>
      simp only [react] at hcode
      split at hcode
      · -- the download fails, or there is no object
        rename_i hnone
        cases hcode
        obtain ⟨j, e, hj, rfl, -⟩ := hloads
        have harr : received x.loc x.store
            (.deliver (.imageDownloaded (l₀.next + j) c n url) ok a) = false := by
          cases ok <;> simp_all [received, imageAt]
        have hno : assigns x.loc
            (.deliver (.imageDownloaded (l₀.next + j) c n url) ok a) = false := by
          cases ok <;> simp_all [assigns, imageAt]
        have hone : pendingImages (l₀.next + j)
            {Callback.imageDownloaded (l₀.next + j) c n url} = {url} :=
          pendingImages_cons_image _ _ _ _ 0
        rw [hafter]
        refine ⟨_, _, _, hlose, ?_, by simp [hno], by simp [hno]⟩
        rw [harr]
        refine iff_of_false (fun hall => ?_) (by simp)
        have hj := hall.2 j
        simp only [hone] at hj
        simp at hj
      · rename_i data hsome
        have hfound : ok = true ∧ x.loc.bucket.lookup url.path = some data := by
          cases ok <;> simp_all
        have himage : imageAt l₀.bucket url = some (.ofData data) := by
          rw [imageAt, ← h.bucket, hfound.2]
          rfl
        have harr : received x.loc x.store
            (.deliver (.imageDownloaded r c n url) ok a) = true := by
          simp [received, imageAt, hfound.1, hfound.2]
        have hassigns : assigns x.loc (.deliver (.imageDownloaded r c n url) ok a) = true ↔
            x.loc.counts c + 1 = n ∧ entryIds.length = x.loc.tempAnnotations.length + 1 := by
          simp [assigns, imageAt, hfound.1, hfound.2, h.asked]
        cases hcode
        rw [hafter]
        obtain ⟨hnew, hearly, hfull⟩ := h.imageDownloaded hb himage
        rw [← hassigns] at hearly hfull
        exact ⟨_, _, _, hnew, by simp [harr], hearly, hfull⟩

/-- Everything that was asked for has been answered. -/
theorem Gathering.images_eq (h : Gathering entryIds db l₀ decoded lostIds lost x)
    (hbag : x.bag = 0) {i : ℕ} {e : EntryID × EntryDoc} (hi : decoded[i]? = some e) :
    (↑((x.loc.heap (l₀.next + i)).images.map some) + (lost i).map (imageAt l₀.bucket) =
      (↑(e.2.mediaList.map (imageAt l₀.bucket)) : Multiset (Option UIImage))) := by
  have himages := (h.collecting i e hi).images
  rw [hbag] at himages
  have hnone : pendingImages (l₀.next + i) 0 = 0 := rfl
  rwa [hnone, zero_add] at himages

/-- **The end of the loading**: the list is full exactly if nothing has been lost. -/
theorem Gathering.full_iff (h : Gathering entryIds db l₀ decoded lostIds lost x)
    (hbag : x.bag = 0) : Full entryIds x.loc ↔ NoLoss lostIds lost := by
  have hentries := congrArg Multiset.card h.entries
  rw [hbag] at hentries
  have hnone : pendingEntries 0 = 0 := rfl
  rw [hnone, add_zero, Multiset.card_add, Multiset.coe_card, Multiset.coe_card,
    List.length_map] at hentries
  constructor
  · intro hfull
    obtain ⟨hlen, hperm⟩ := h.of_full hfull
    refine ⟨Multiset.card_eq_zero.mp (by omega), fun i => ?_⟩
    rcases Nat.lt_or_ge i decoded.length with hlt | hge
    · have hi : decoded[i]? = some decoded[i] := List.getElem?_eq_getElem hlt
      have hmem : l₀.next + i ∈ x.loc.tempAnnotations :=
        hperm.mem_iff.mpr (List.mem_map.mpr ⟨i, List.mem_range.mpr hlt, rfl⟩)
      obtain ⟨j, e, hj, heq, hall⟩ := (h.temp _).mp hmem
      obtain rfl : j = i := by omega
      have hcard := congrArg Multiset.card (h.images_eq hbag hj)
      simp only [Multiset.card_add, Multiset.coe_card, Multiset.card_map, List.length_map] at hcard
      exact Multiset.card_eq_zero.mp (by omega)
    · exact h.fresh i hge
  · rintro ⟨hids, himages⟩
    rw [hids, Multiset.card_zero, add_zero] at hentries
    have hsub : (List.range decoded.length).map (l₀.next + ·) ⊆ x.loc.tempAnnotations := by
      intro r hr
      obtain ⟨i, hi, rfl⟩ := List.mem_map.mp hr
      have hlt := List.mem_range.mp hi
      have hsome : decoded[i]? = some decoded[i] := List.getElem?_eq_getElem hlt
      have hcard := congrArg Multiset.card (h.images_eq hbag hsome)
      simp only [himages i, Multiset.map_zero, add_zero, Multiset.coe_card,
        List.length_map] at hcard
      exact (h.temp _).mpr ⟨i, _, hsome, rfl, hcard⟩
    have hnodup : ((List.range decoded.length).map (l₀.next + ·)).Nodup :=
      List.nodup_range.map fun i j hij => Nat.add_left_cancel hij
    have hle := (hnodup.subperm hsub).length_le
    rw [List.length_map, List.length_range] at hle
    exact le_antisymm (h.temp_length_le.trans h.length_le) (hentries ▸ hle)

/-- What a full list looks like when everything has been answered. -/
theorem Gathering.gathered (h : Gathering entryIds db l₀ decoded lostIds lost x)
    (hbag : x.bag = 0) (hfull : Full entryIds x.loc) : Gathered entryIds db x.loc := by
  obtain ⟨hlen, hperm⟩ := h.of_full hfull
  obtain ⟨hlist, hsorted⟩ := h.shown hfull
  obtain ⟨hids, hlost⟩ := (h.full_iff hbag).mp hfull
  constructor
  · rw [hlist]
    exact h.nodup
  · have hmap : ((List.range decoded.length).map (l₀.next + ·)).map x.loc.id =
        decoded.map Prod.fst := by
      refine List.ext_getElem (by simp) fun i hi hi' => ?_
      rw [List.length_map] at hi'
      have hsome : decoded[i]? = some decoded[i] := List.getElem?_eq_getElem hi'
      simpa using (h.collecting i _ hsome).entryID
    have hentries := h.entries
    rw [hbag, hids, add_zero] at hentries
    have hnone : pendingEntries 0 = 0 := rfl
    rw [hnone, add_zero, Multiset.coe_eq_coe] at hentries
    rw [EditTrip.ids, hlist]
    exact (hperm.map x.loc.id).trans (hmap ▸ hentries)
  · exact hsorted
  · intro r hr
    rw [hlist] at hr
    obtain ⟨i, e, hi, rfl, -⟩ := (h.temp r).mp hr
    obtain ⟨hdoc, hid, horder, -, -⟩ := h.collecting i e hi
    have himages := h.images_eq hbag hi
    rw [hlost i, Multiset.map_zero, add_zero, Multiset.coe_eq_coe] at himages
    refine ⟨e.2, by rw [hid, hdoc], horder, ?_⟩
    rw [h.bucket]
    exact himages

/-- Only the observer of `tempAnnotations` assigns `entryList`. -/
theorem Gathering.entryList_eq (h : Gathering entryIds db l₀ decoded lostIds lost x) {ok : Bool}
    {a : TripID} {x' : Direct Firestore EditTrip Callback}
    (hs : DirectStep program x (.deliver k ok a) x')
    (hno : assigns x.loc (.deliver k ok a) = false) : x'.loc.entryList = x.loc.entryList := by
  cases hs with
  | @deliver _ _ _ rest res hb hreact =>
    have hcode : react k ok a x.loc x.store = some res := hreact
    have hloads := h.loads k (hb ▸ Multiset.mem_cons_self k rest)
    change res.1.entryList = x.loc.entryList
    cases k <;> try exact hloads.elim
    case entryFetched id =>
      simp only [react] at hcode
      split at hcode
      · cases hcode
        rfl
      · obtain ⟨_, _, _, -, -, -, rfl⟩ := entryFetched_eq_some hcode
        rfl
    case entryCoverDownloaded s url =>
      simp only [react] at hcode
      split at hcode <;> cases hcode <;> rfl
    case imageDownloaded s c urls url =>
      simp only [react] at hcode
      split at hcode <;> cases hcode
      · rfl
      · rename_i data hdata
        obtain ⟨rfl, hobject⟩ : ok = true ∧ x.loc.bucket.lookup url.path = some data := by
          cases ok <;> simp_all
        simp only [EditTrip.imageDownloaded, appendAnnotation]
        split
        · rename_i hlast
          have hlast : x.loc.counts c + 1 = urls := by simpa [count, set] using hlast
          rw [if_neg fun hall => ?_]
          · rfl
          · have hall : x.loc.entryIds.map List.length =
                some (x.loc.tempAnnotations.length + 1) := by
              simpa [count, set] using hall
            simp [assigns, imageAt, hobject, hlast, hall] at hno
        · rfl

/-- **A run** of answers. -/
theorem Gathering.run {st : State Firestore EditTrip Write Callback}
    {tr : List (Label TripID Event × State Firestore EditTrip Write Callback)}
    (h : Gathering entryIds db l₀ decoded lostIds lost (program.direct st))
    (hdb : ∀ id ∈ entryIds, ∀ d ∈ db.entries.lookup id, Loadable d)
    (hrun : IsRun (fun st lbl st' => program.step lbl st = some st') st tr)
    (hanswers : ∀ x ∈ tr, ∃ i ok a, x.1 = .deliver i ok a) :
    ∃ decoded' lostIds' lost',
      Gathering entryIds db l₀ decoded' lostIds' lost' (program.direct (final st tr)) ∧
      (NoLoss lostIds' lost' ↔ NoLoss lostIds lost ∧ Meets Received st tr) ∧
      times Assigns st tr + (if Full entryIds st.loc then 1 else 0) =
        if Full entryIds (final st tr).loc then 1 else 0 := by
  induction tr generalizing st decoded lostIds lost with
  | nil => exact ⟨decoded, lostIds, lost, h, (and_iff_left trivial).symm, Nat.zero_add _⟩
  | cons y tr ih =>
    obtain ⟨lbl, st'⟩ := y
    obtain ⟨hstep, hrun⟩ := hrun
    obtain ⟨i, ok, a, rfl⟩ : ∃ i ok a, lbl = .deliver i ok a :=
      hanswers (lbl, st') List.mem_cons_self
    have hrest : ∀ x ∈ tr, ∃ i ok a, x.1 = .deliver i ok a :=
      fun x hx => hanswers x (List.mem_cons_of_mem _ hx)
    rcases step_move hstep with ⟨hmove, -, -⟩ | ⟨m, hmove, hd⟩
    · simp only [State.move, Option.map_eq_none_iff] at hmove
      simp [Program.step, hmove] at hstep
    · obtain ⟨y, hy, rfl⟩ := Option.map_eq_some_iff.mp hmove
      obtain ⟨decoded', lostIds', lost', h', hno', hearly, hfull⟩ := h.step hdb hd
      obtain ⟨decoded'', lostIds'', lost'', h'', hno'', htimes⟩ := ih h' hrun hrest
      refine ⟨decoded'', lostIds'', lost'', h'', ?_, ?_⟩
      · have harr : Received st (.deliver i ok a) ↔
            received st.loc (program.view st) (.deliver y.1 ok a) = true := by
          simp [Received, hmove]
        rw [hno'', hno', meets_cons, harr, and_assoc]
        rfl
      · have hassigns : Assigns st (.deliver i ok a) ↔
            assigns st.loc (.deliver y.1 ok a) = true := by
          simp [Assigns, hmove]
        have hearly' : Assigns st (.deliver i ok a) → ¬Full entryIds st.loc :=
          fun hs => hearly (hassigns.mp hs)
        have hfull' : Full entryIds st'.loc ↔
            Full entryIds st.loc ∨ Assigns st (.deliver i ok a) := by
          rw [hassigns]
          exact hfull
        rw [times, Runs.final, ← htimes]
        by_cases hs : Assigns st (.deliver i ok a)
        · simp [hs, hearly' hs, hfull'.mpr (Or.inr hs)]
          omega
        · have hsame : Full entryIds st'.loc ↔ Full entryIds st.loc :=
            hfull'.trans (or_iff_left hs)
          simp only [hs, if_false, zero_add, hsame]

/-- **Loading gathers everything or nothing**, for every list of ids and every order of the
answers, some of which may be failures: the list of entries is assigned at most once, and does not
change otherwise. When nothing is on its way any more, it has been assigned exactly if every entry
was decoded and every image downloaded, and it then has one annotation for each id, sorted, with the
images of its entry. -/
theorem loading_gathers {entryIds : List EntryID} {l : EditTrip} {db : Firestore}
    {tr : List (Label TripID Event × State Firestore EditTrip Write Callback)}
    (hne : entryIds ≠ []) (hdb : ∀ id ∈ entryIds, ∀ d ∈ db.entries.lookup id, Loadable d)
    (hrun : IsRun (fun st lbl st' => program.step lbl st = some st') (loading entryIds l db) tr)
    (hanswers : ∀ x ∈ tr, ∃ i ok a, x.1 = .deliver i ok a) :
    times Assigns (loading entryIds l db) tr ≤ 1 ∧
      (∀ tr₁ x tr₂, tr = tr₁ ++ x :: tr₂ → ¬Assigns (final (loading entryIds l db) tr₁) x.1 →
        x.2.loc.entryList = (final (loading entryIds l db) tr₁).loc.entryList) ∧
      (times Assigns (loading entryIds l db) tr = 0 →
        (final (loading entryIds l db) tr).loc.entryList = l.entryList) ∧
      (Quiescent (final (loading entryIds l db) tr) →
        (times Assigns (loading entryIds l db) tr = 1 ↔
          Meets Received (loading entryIds l db) tr) ∧
        (times Assigns (loading entryIds l db) tr = 1 →
          Gathered entryIds db (final (loading entryIds l db) tr).loc)) := by
  have hstart := gathering_loading entryIds hne l db
  obtain ⟨decoded, lostIds, lost, hend, hno, htimes⟩ := hstart.run hdb hrun hanswers
  have hempty : ¬Full entryIds (loading entryIds l db).loc := by
    have htemp : (loading entryIds l db).loc.tempAnnotations = [] := by
      rw [loading, State.call, loc_issue]
      rfl
    rw [Full, htemp]
    exact fun hnil => hne (List.length_eq_zero_iff.mp hnil.symm)
  rw [if_neg hempty, add_zero] at htimes
  refine ⟨?_, fun tr₁ x tr₂ htr hx => ?_, fun hzero => ?_, fun hq => ?_⟩
  · rw [htimes]
    split <;> omega
  · obtain ⟨lbl, st'⟩ := x
    subst htr
    obtain ⟨hrun₁, hstep, -⟩ := isRun_append.mp hrun
    obtain ⟨_, _, _, hbefore, -, -⟩ := hstart.run hdb hrun₁ fun y hy =>
      hanswers y (List.mem_append_left _ hy)
    obtain ⟨i, ok, a, rfl⟩ : ∃ i ok a, lbl = .deliver i ok a :=
      hanswers (lbl, st') (List.mem_append_right _ List.mem_cons_self)
    rcases step_move hstep with ⟨hmove, -, -⟩ | ⟨m, hmove, hd⟩
    · simp only [State.move, Option.map_eq_none_iff] at hmove
      simp [Program.step, hmove] at hstep
    · obtain ⟨y, hy, rfl⟩ := Option.map_eq_some_iff.mp hmove
      have hno : (final (loading entryIds l db) tr₁).loc.assigns (.deliver y.1 ok a) = false := by
        simpa [Assigns, hmove] using hx
      exact hbefore.entryList_eq hd hno
  · refine hend.kept fun hfull => ?_
    have hall : Full entryIds (final (loading entryIds l db) tr).loc := hfull
    rw [if_pos hall] at htimes
    omega
  · have hbag : (program.direct (final (loading entryIds l db) tr)).bag = 0 := by
      rw [hq.direct]
    have hone : times Assigns (loading entryIds l db) tr = 1 ↔
        Full entryIds (final (loading entryIds l db) tr).loc := by
      rw [htimes]
      split <;> simp [*]
    have hmeets : Full entryIds (final (loading entryIds l db) tr).loc ↔
        Meets Received (loading entryIds l db) tr :=
      (hend.full_iff hbag).trans (hno.trans (and_iff_right ⟨rfl, fun _ => rfl⟩))
    refine ⟨hone.trans hmeets, fun h1 => ?_⟩
    exact hend.gathered hbag (hone.mp h1)

end

/-! ## A run -/

/-- An entry with images. -/
def sampleAlbum (id : EntryID) (order : ℕ) (mediaList : List URL) : EntryDoc :=
  { sampleEntryDoc id with entryOrder := order, mediaList := mediaList }

/-- Two entries with three images. -/
def sampleAlbums : Firestore where
  users := ∅
  trips := ∅
  entries :=
    ((∅ : Collection EntryID EntryDoc).insert "a" (sampleAlbum "a" 1 [⟨"x"⟩, ⟨"y"⟩])).insert
      "b" (sampleAlbum "b" 0 [⟨"z"⟩])
  newsfeed := ∅

/-- A screen with the objects of the images. -/
def sampleViewer (currentUser : User) : EditTrip :=
  opened currentUser none
    ((((∅ : Bucket).insert "x" "x").insert "y" "y").insert "z" "z") 0

/-- The answers arrive, of the images of the first entry the second is the first. -/
def sampleLoads : List (Label TripID Event) :=
  [.deliver 0 true "", .deliver 3 true "", .deliver 0 true "", .deliver 2 false "",
    .deliver 1 true "", .deliver 0 true "", .deliver 0 true ""]

/-- The entries are shown in their order, and have been assigned once. -/
theorem loading_gathers_sample : ∃ l tr,
    IsRun (fun st lbl st' => program.step lbl st = some st') (loading ["a", "b"] l sampleAlbums)
      tr ∧ tr.map Prod.fst = sampleLoads ∧
    times Assigns (loading ["a", "b"] l sampleAlbums) tr = 1 ∧
    Gathered ["a", "b"] sampleAlbums (final (loading ["a", "b"] l sampleAlbums) tr).loc ∧
    (final (loading ["a", "b"] l sampleAlbums) tr).loc.ids = ["b", "a"] := by
  obtain ⟨l, hl⟩ : ∃ l, sampleViewer sampleAnn = l := ⟨_, rfl⟩
  have hplay : (play (fun st lbl => program.step lbl st) sampleLoads
      (loading ["a", "b"] l sampleAlbums)).isSome ∧
      ∀ tr ∈ play (fun st lbl => program.step lbl st) sampleLoads
        (loading ["a", "b"] l sampleAlbums),
      Meets Received (loading ["a", "b"] l sampleAlbums) tr ∧
      Quiescent (final (loading ["a", "b"] l sampleAlbums) tr) ∧
      (final (loading ["a", "b"] l sampleAlbums) tr).loc.ids = ["b", "a"] := by
    subst hl
    decide +kernel
  have hlabels : ∀ tr ∈ play (fun st lbl => program.step lbl st) sampleLoads
      (loading ["a", "b"] l sampleAlbums), ∀ x ∈ tr, ∃ i ok a, x.1 = .deliver i ok a := by
    intro tr htr x hx
    have hmem : x.1 ∈ sampleLoads := labels_of_play htr ▸ List.mem_map_of_mem hx
    simp only [sampleLoads, List.mem_cons, List.not_mem_nil, or_false] at hmem
    rcases hmem with h | h | h | h | h | h | h <;> exact ⟨_, _, _, h⟩
  have hdb : ∀ id ∈ ["a", "b"], ∀ d ∈ sampleAlbums.entries.lookup id, Loadable d := by
    have hall : ∀ id ∈ ["a", "b"], ∀ d ∈ sampleAlbums.entries.lookup id,
        d.tripID.isSome ∧ d.coverPhoto.isSome ∧ d.mediaList ≠ [] := by
      decide +kernel
    exact fun id hid d hd => ⟨(hall id hid d hd).1, (hall id hid d hd).2.1, (hall id hid d hd).2.2⟩
  obtain ⟨hsome, hall⟩ := hplay
  obtain ⟨tr, htr⟩ := Option.isSome_iff_exists.mp hsome
  obtain ⟨hmeets, hq, hids⟩ := hall tr htr
  obtain ⟨-, -, -, hend⟩ := loading_gathers (by simp) hdb (isRun_of_play htr) (hlabels tr htr)
  obtain ⟨hiff, hgathered⟩ := hend hq
  have honce := hiff.mpr hmeets
  exact ⟨l, tr, isRun_of_play htr, labels_of_play htr, honce, hgathered honce, hids⟩

end EditTrip

end Wanderlust
