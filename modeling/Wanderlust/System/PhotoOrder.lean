import Wanderlust.Entries.EditEntry
import Wanderlust.Trips.Photos

/-!
# The order of photos

The photos of an entry are named by their place on the screen, but the URLs are put on its media
list as they arrive, both when a trip is saved and when an entry is edited. So a single save keeps
the order of the photos exactly if the URLs arrive in this order (`photos_in_order`).
-/

namespace Wanderlust

open Async Runs

namespace EditTrip

/-- The URL of a photo of the annotation that arrives. -/
def arrival (r : ℕ) : Async.Move Callback TripID Event → Option URL
  | .deliver (.imageURL _ _ s path) _ _ => if s = r then some ⟨path⟩ else none
  | _ => none

/-- The URL of a photo of the annotation that arrives with a step. -/
def arrives (r : ℕ) (st : State Firestore EditTrip Write Callback) (lbl : Label TripID Event) :
    Option URL := (st.move lbl).bind (arrival r)

/-- A URL that arrives is the next of the list. -/
def NextPhoto (r : ℕ) (urls : List URL) (st : State Firestore EditTrip Write Callback)
    (lbl : Label TripID Event) : Prop :=
  ∀ url ∈ arrives r st lbl, urls[(st.loc.heap r).imageUrls.length]? = some url

instance (r : ℕ) (urls : List URL) (st : State Firestore EditTrip Write Callback) :
    DecidablePred (NextPhoto r urls st) := fun lbl =>
  inferInstanceAs (Decidable (∀ url ∈ arrives r st lbl, _ = some url))

/-- A single save of an entry in a run of the screen: none of its photos is on its way when the
save button is pressed in `st`, and until nothing is on its way its images stay as they are and
it is not saved again. -/
structure SavedOnce (r : ℕ) (st st' : State Firestore EditTrip Write Callback)
    (tr : List (Label TripID Event × State Firestore EditTrip Write Callback)) : Prop where
  history : ∃ (db : Firestore) (u : User) (t? : Option TripID) (b : Bucket) (now : Timestamp)
    (tr₀ : List (Label TripID Event × State Firestore EditTrip Write Callback)),
    IsRun (fun st lbl st' => program.step lbl st = some st') (start db (opened u t? b now)) tr₀ ∧
      final (start db (opened u t? b now)) tr₀ = st
  none_pending : photos r (program.direct st).bag = 0
  press : program.step (.event .saveButtonPressed) st = some st'
  fields : st.loc.emptyField = false
  encodable : ∀ image ∈ (st.loc.heap r).images, image.jpegData.isSome
  lt : r < st.loc.next
  listed : r ∈ st.loc.entryList
  count : st.loc.ids.count (st.loc.id r) = 1
  run : IsRun (fun st lbl st' => program.step lbl st = some st') st' tr
  settles : Meets (Settles r) st' tr
  images : ∀ x ∈ tr, (x.2.loc.heap r).images = (st.loc.heap r).images
  quiescent : Quiescent (final st' tr)

section

variable {r : ℕ} {st st' : State Firestore EditTrip Write Callback} {lbl : Label TripID Event}
  {tr : List (Label TripID Event × State Firestore EditTrip Write Callback)}

/-- The URLs of an annotation, when a step puts what arrives at their end. -/
theorem imageUrls_direct {x x' : Direct Firestore EditTrip Callback}
    {m : Async.Move Callback TripID Event} (hr : r < x.loc.next) (hm : settles r x.loc m = true)
    (hs : DirectStep program x m x') :
    r < x'.loc.next ∧
      (x'.loc.heap r).imageUrls = (x.loc.heap r).imageUrls ++ (arrival r m).toList := by
  have hkeep : KeepsPhotos r x.loc x'.loc → arrival r m = none → r < x'.loc.next ∧
      (x'.loc.heap r).imageUrls = (x.loc.heap r).imageUrls ++ (arrival r m).toList := by
    intro hk hnone
    rw [hnone, Option.toList_none, List.append_nil]
    exact ⟨hr.trans_le hk.next, hk.imageUrls⟩
  cases hs with
  | @event e res he =>
    exact hkeep (keepsPhotos_event he (by simpa [settles] using hm) hr) rfl
  | @deliver k ok a rest res hb hreact =>
    by_cases hk : ∃ c p path, k = .imageURL c p r path
    · obtain ⟨c, p, path, rfl⟩ := hk
      have hcode : react (.imageURL c p r path) ok a x.loc x.store = some res := hreact
      obtain ⟨hnext, -, hadd, -, -⟩ := react_imageURL (r := r) hcode
      have harr : arrival r (.deliver (.imageURL c p r path) ok a) = some ⟨path⟩ := if_pos rfl
      rw [harr]
      exact ⟨hr.trans_le hnext.ge, hadd⟩
    · refine hkeep (keepsPhotos_react hreact hr fun c p path he => hk ⟨c, p, path, he⟩) ?_
      cases k with
      | imageURL c p s path => exact if_neg fun hs => hk ⟨c, p, path, by rw [hs]⟩
      | _ => rfl

theorem imageUrls_step (hr : r < st.loc.next) (hstep : program.step lbl st = some st')
    (hsettles : Settles r st lbl) :
    r < st'.loc.next ∧
      (st'.loc.heap r).imageUrls = (st.loc.heap r).imageUrls ++ (arrives r st lbl).toList := by
  rcases step_move hstep with ⟨hmove, rfl | hd, -⟩ | ⟨m, hmove, hd⟩
  · exact hsettles.elim
  · have hloc : st'.loc = st.loc := congrArg Direct.loc hd
    rw [hloc, arrives, hmove, Option.bind_none, Option.toList_none, List.append_nil]
    exact ⟨hr, rfl⟩
  · have hall : settles r st.loc m = true := by
      cases lbl <;> first | exact hsettles.elim | simpa [Settles, hmove] using hsettles
    rw [arrives, hmove, Option.bind_some]
    exact imageUrls_direct hr hall hd

/-- **The order in which a saved trip stores the photos of an entry.** -/
theorem SavedOnce.mediaList_iff (h : SavedOnce r st st' tr) :
    mediaList (st.loc.id r) (final st' tr).store =
        some (photoURLs st.loc.currentUser.uid (st.loc.id r) (st.loc.heap r).images.length) ↔
      ((st.loc.heap r).images = [] → (st.loc.heap r).imageUrls = []) ∧
        Meets (NextPhoto r (photoURLs st.loc.currentUser.uid (st.loc.id r)
          (st.loc.heap r).images.length)) st' tr := by
  obtain ⟨db, u, t?, b, now, tr₀, hrun₀, hfinal⟩ := h.history
  obtain ⟨role, hw₀⟩ := wired_run hrun₀
  rw [hfinal] at hw₀
  have hw := hw₀.none_pending h.none_pending
  have hdirect := direct_press h.press
  obtain ⟨urls, hph, hiff⟩ : ∃ urls, Photographed r (st.loc.id r) urls (program.direct st') ∧
      (urls = ↑(photoURLs st.loc.currentUser.uid (st.loc.id r) (st.loc.heap r).images.length) ↔
        PhotosSettled r (program.direct st)) :=
    Photographed.press hw hdirect.symm h.fields h.encodable h.lt h.listed h.count
  have hloc : st'.loc = (saveButtonPressed st.loc).1 := congrArg Direct.loc hdirect
  have himg : (st'.loc.heap r).images = (st.loc.heap r).images := by
    rw [hloc]
    exact CustomAnnotation.images_eq_of_content ((stays_saveButtonPressed st.loc).content r)
  have hend := hph.run h.run h.settles fun x hx => (h.images x hx).trans himg.symm
  rw [h.quiescent.direct] at hend
  have hurls : ↑((final st' tr).loc.heap r).imageUrls = urls := by simpa using hend.urls
  have hmedia : mediaList (st.loc.id r) (final st' tr).store =
      some ((final st' tr).loc.heap r).imageUrls := hend.media rfl
  rw [hmedia, Option.some.injEq]
  by_cases hsettled : PhotosSettled r (program.direct st)
  · -- the URLs are collected from the start
    have hstart : (st'.loc.heap r).imageUrls = [] := by
      have hadd : Added r (program.direct st)
          (program.after (saveButtonPressed st.loc) (program.direct st)) :=
        added_saveButtonPressed h.fields h.encodable h.listed h.count
      rw [← hdirect] at hadd
      simp only [Added] at hadd
      split at hadd
      · rename_i hzero
        exact hadd.1.1.trans (hsettled.2 (List.length_eq_zero_iff.mp hzero))
      · exact hadd.1
    have hlen := congrArg Multiset.card (hurls.trans (hiff.mpr hsettled))
    rw [Multiset.coe_card, Multiset.coe_card] at hlen
    have hlog := h.run.final_log_iff (I := fun st => r < st.loc.next)
      (fun st => (st.loc.heap r).imageUrls) (arrives r)
      (fun s lbl s' hs hstep (hc : Settles r s lbl) => imageUrls_step hs hstep hc) hph.lt
      h.settles hlen
    rw [hlog, hstart]
    exact and_congr (iff_of_true rfl hsettled.2) Iff.rfl
  · have hnot := mt hiff.mp hsettled
    refine iff_of_false (fun heq => hnot (by rw [← hurls, heq])) fun hright => ?_
    exact hsettled ⟨h.none_pending, hright.1⟩

end

end EditTrip

namespace EditEntry

/-- The URL of a photo that arrives. -/
def arrival : Async.Move Callback Unit Event → Option URL
  | .deliver (.imageURL _ path) true _ => some ⟨path⟩
  | _ => none

/-- The URL of a photo that arrives with a step. -/
def arrives (st : State Firestore EditEntry Write Callback) (lbl : Label Unit Event) :
    Option URL := (st.move lbl).bind arrival

/-- A URL that arrives is the next of the list. -/
def NextPhoto (urls : List URL) (st : State Firestore EditEntry Write Callback)
    (lbl : Label Unit Event) : Prop :=
  ∀ url ∈ arrives st lbl, urls[st.loc.entryInfoImages.length]? = some url

/-- A move with which nothing fails that stores a photo, and the entry is not saved again. -/
def settles : Async.Move Callback Unit Event → Bool
  | .deliver (.coverURL _) ok _ => !ok
  | .deliver (.imageUploaded _ _ _) ok _ => ok
  | .deliver (.imageURL _ _) ok _ => ok
  | _ => true

/-- A step of this kind: no write is rejected. -/
def Settles (st : State Firestore EditEntry Write Callback) : Label Unit Event → Prop
  | .reject => False
  | lbl => (st.move lbl).all settles

/-- The list of URLs that the upload of a photo is for. -/
def Callback.list : Callback → Option ℕ
  | .imageUploaded list _ _ => some list
  | .imageURL list _ => some list
  | _ => none

/-- The photos on their way, each as the list that it is for. -/
def uploading (bag : Multiset Callback) : Multiset ℕ := bag.filterMap Callback.list

/-- The URLs of the photos of the screen. -/
def photoURLs (l : EditEntry) : List URL :=
  (List.range l.entryImage.length).map fun i => ⟨l.imagesPath i⟩

/-- A single save of the entry of the screen: `updateEntry` is called in `st` with no photo on its
way, and until nothing is on its way the photos stay as they are and it is not called again. -/
structure SavedOnce (st st' : State Firestore EditEntry Write Callback)
    (tr : List (Label Unit Event × State Firestore EditEntry Write Callback)) : Prop where
  none_pending : uploading (program.direct st).bag = 0
  call : ∃ i path a o, st.ready[i]? = some (.coverURL path, o) ∧
    program.step (.deliver i true a) st = some st'
  initial : 0 < st.loc.initialImageCount
  encodable : ∀ image ∈ st.loc.entryImage, image.jpegData.isSome
  stored : ((program.view st).entries.lookup st.loc.entryID).isSome
  run : IsRun (fun st lbl st' => program.step lbl st = some st') st' tr
  settles : Meets Settles st' tr
  images : ∀ x ∈ tr, x.2.loc.entryImage = st.loc.entryImage
  quiescent : Quiescent (final st' tr)

instance (urls : List URL) (st : State Firestore EditEntry Write Callback) :
    DecidablePred (NextPhoto urls st) := fun lbl =>
  inferInstanceAs (Decidable (∀ url ∈ arrives st lbl, _ = some url))

instance (st : State Firestore EditEntry Write Callback) :
    DecidablePred (Settles st)
  | .reject => isFalse fun h => h
  | .apply => inferInstanceAs (Decidable (_ = true))
  | .event _ => inferInstanceAs (Decidable (_ = true))
  | .deliver _ _ _ => inferInstanceAs (Decidable (_ = true))

section

variable {x x' : Direct Firestore EditEntry Callback} {k : Callback} {ok : Bool} {a : Unit}
  {l : EditEntry} {db : Firestore} {bag : Multiset Callback} {res : EditEntry × List Cmd}
  {id : EntryID} {c : ℕ} {st st' : State Firestore EditEntry Write Callback}
  {lbl : Label Unit Event}
  {tr : List (Label Unit Event × State Firestore EditEntry Write Callback)}

@[simp] theorem uploading_zero : uploading 0 = 0 := rfl

@[simp] theorem uploading_add (bag bag' : Multiset Callback) :
    uploading (bag + bag') = uploading bag + uploading bag' := Multiset.filterMap_add _ _ _

theorem uploading_cons_some (hk : k.list = some c) (bag : Multiset Callback) :
    uploading (k ::ₘ bag) = c ::ₘ uploading bag := Multiset.filterMap_cons_some _ _ _ hk

theorem uploading_cons_none (hk : k.list = none) (bag : Multiset Callback) :
    uploading (k ::ₘ bag) = uploading bag := Multiset.filterMap_cons_none _ _ hk

/-- The uploads of a list, when every photo can be encoded. -/
theorem uploading_imageUploads (l : EditEntry) (c : ℕ) {images : List UIImage}
    (h : ∀ image ∈ images, image.jpegData.isSome) (n : ℕ) :
    uploading (callbacks (imageUploads l c images n)) = Multiset.replicate images.length c := by
  induction images generalizing n with
  | nil => rfl
  | cons image images ih =>
    obtain ⟨hfirst, hrest⟩ := List.forall_mem_cons.mp h
    obtain ⟨data, hdata⟩ := Option.isSome_iff_exists.mp hfirst
    have hlist : (Callback.imageUploaded c (l.imagesPath n) data).list = some c := rfl
    simp only [imageUploads, hdata, callbacks_request, uploading_cons_some hlist, ih hrest,
      List.length_cons, Multiset.replicate_succ]

/-- The lists stay as they are, and what is on its way for them. -/
structure KeepsLists (l l' : EditEntry) : Prop where
  entryInfoImages : l'.entryInfoImages = l.entryInfoImages
  tempEntryList : l'.tempEntryList = l.tempEntryList

/-- The user changes no list, and uploads no photo. -/
theorem keepsLists_event {e : Event} (h : event e l db = some res) :
    KeepsLists l res.1 ∧ uploading (callbacks res.2) = 0 := by
  cases e with
  | viewDidLoad =>
    simp only [event, viewDidLoad] at h
    split at h <;> cases h
    · refine ⟨⟨rfl, rfl⟩, ?_⟩
      have hnone : ∀ urls : List URL, uploading (callbacks
          (urls.map fun url => (Async.Cmd.request (.imageDownloaded url) : Cmd))) = 0 := by
        intro urls
        rw [callbacks_map_request]
        induction urls with
        | nil => rfl
        | cons url urls ih => exact ih
      simpa [loadImagesFromEntryInfo, uploading_cons_none (k := .entryFetched) rfl] using hnone _
    · exact ⟨⟨rfl, rfl⟩, rfl⟩
  | saveButton =>
    simp only [event, saveButton, uploadEntryCoverPhoto, Handler.issue_apply] at h
    split at h <;> cases h
    · exact ⟨⟨rfl, rfl⟩, rfl⟩
    · refine ⟨⟨rfl, rfl⟩, ?_⟩
      dsimp only
      split <;> rfl
  | deleteImage index =>
    simp only [event] at h
    split at h <;> cases h
    exact ⟨⟨rfl, rfl⟩, rfl⟩
  | _ =>
    cases h
    exact ⟨⟨rfl, rfl⟩, rfl⟩

/-- Of the code that runs for an answer, only that for the URL of a photo and the call of
`updateEntry` change a list; the upload of a photo is followed by the request of its URL. -/
theorem keepsLists_react (h : react k ok a l db = some res)
    (hcover : ∀ path, k = .coverURL path → ok = false)
    (hphoto : ∀ c path, k ≠ .imageURL c path) :
    KeepsLists l res.1 ∧ uploading (callbacks res.2) = uploading {k} := by
  cases k with
  | entryFetched =>
    simp only [react] at h
    split at h
    · cases h
      exact ⟨⟨rfl, rfl⟩, rfl⟩
    · obtain ⟨url, -, rfl⟩ := Option.map_eq_some_iff.mp h
      exact ⟨⟨rfl, rfl⟩, rfl⟩
  | coverDownloaded url =>
    simp only [react] at h
    split at h <;> cases h <;> exact ⟨⟨rfl, rfl⟩, rfl⟩
  | imageDownloaded url =>
    simp only [react, imageDownloaded] at h
    split at h <;> cases h
    · exact ⟨⟨rfl, rfl⟩, rfl⟩
    · exact ⟨by split <;> exact ⟨rfl, rfl⟩, rfl⟩
  | coverUploaded path data =>
    cases h
    exact ⟨by dsimp only; split <;> exact ⟨rfl, rfl⟩, rfl⟩
  | coverURL path =>
    obtain rfl := hcover path rfl
    cases h
    exact ⟨⟨rfl, rfl⟩, rfl⟩
  | imageUploaded c path data =>
    cases h
    exact ⟨by dsimp only; split <;> exact ⟨rfl, rfl⟩, rfl⟩
  | imageURL c path => exact absurd rfl (hphoto c path)
  | entryUpdated =>
    cases h
    exact ⟨⟨rfl, rfl⟩, rfl⟩

/-- The code for the URL of a photo. -/
theorem react_imageURL {path : String} (h : react (.imageURL c path) true a l db = some res) :
    res.1.entryID = l.entryID ∧ res.1.entryInfoImages = l.entryInfoImages ++ [⟨path⟩] ∧
      res.1.tempEntryList c = l.tempEntryList c + 1 ∧ uploading (callbacks res.2) = 0 ∧
      ∀ id, EditTrip.mediaList id (effect Write.apply res.2 db) =
        if l.tempEntryList c + 1 = l.entryImage.length ∧ id = l.entryID then
          (EditTrip.mediaList id db).map fun _ => l.entryInfoImages ++ [⟨path⟩]
        else EditTrip.mediaList id db := by
  simp only [react, imageSaved, Function.update_self, if_true, Option.some.injEq] at h
  subst h
  refine ⟨rfl, rfl, Function.update_self .., ?_, fun id => ?_⟩
  · dsimp only
    split <;> rfl
  · dsimp only
    split
    · rename_i hfull
      simp only [effect_write, effect_nil, Write.apply, EditTrip.mediaList]
      by_cases hid : id = l.entryID
      · subst hid
        rw [if_pos ⟨hfull, rfl⟩, Collection.lookup_modify, Option.map_map, Option.map_map]
        rfl
      · rw [if_neg fun hc => hid hc.2, Collection.lookup_modify_ne hid]
    · rename_i hfew
      rw [if_neg fun hc => hfew hc.1]
      rfl

/-- A save that has stored some photos in the list `c`, and has the others on their way: when none
is left, the entry has their URLs. -/
structure Gathering (id : EntryID) (c : ℕ) (x : Direct Firestore EditEntry Callback) : Prop where
  entryID : x.loc.entryID = id
  pending : uploading x.bag =
    Multiset.replicate (x.loc.entryImage.length - x.loc.tempEntryList c) c
  le : x.loc.tempEntryList c ≤ x.loc.entryImage.length
  length : x.loc.entryInfoImages.length = x.loc.tempEntryList c
  stored : (x.store.entries.lookup id).isSome
  media : x.loc.tempEntryList c = x.loc.entryImage.length →
    EditTrip.mediaList id x.store = some x.loc.entryInfoImages

/-- What a step of the save does. -/
theorem photo_step {m : Async.Move Callback Unit Event} (hm : settles m = true)
    (hs : DirectStep program x m x') :
    (arrival m = none ∧ KeepsLists x.loc x'.loc ∧ uploading x'.bag = uploading x.bag ∧
        x'.store = x.store) ∨
      ∃ c path a rest res, m = .deliver (.imageURL c path) true a ∧
        x.bag = .imageURL c path ::ₘ rest ∧
        react (.imageURL c path) true a x.loc x.store = some res ∧
        x' = program.after res { x with bag := rest } := by
  have hstore := (store_step hs).2
  cases hs with
  | @event e res he =>
    have hcode : event e x.loc x.store = some res := he
    obtain ⟨hkeep, hnone⟩ := keepsLists_event hcode
    refine Or.inl ⟨rfl, hkeep, ?_, ?_⟩
    · rw [Program.after, uploading_add, hnone, add_zero]
    · exact hstore.resolve_right (by rintro ⟨c, path, a, l, ⟨⟩, -⟩)
  | @deliver k ok a rest res hb hreact =>
    have hcode : react k ok a x.loc x.store = some res := hreact
    by_cases hk : ∃ c path, k = .imageURL c path
    · obtain ⟨c, path, rfl⟩ := hk
      obtain rfl : ok = true := hm
      exact Or.inr ⟨c, path, a, rest, res, rfl, hb, hcode, rfl⟩
    · have hphoto : ∀ c path, k ≠ .imageURL c path := fun c path he => hk ⟨c, path, he⟩
      have hcover : ∀ path, k = .coverURL path → ok = false := by
        rintro path rfl
        simpa [settles] using hm
      obtain ⟨hkeep, hup⟩ := keepsLists_react hcode hcover hphoto
      refine Or.inl ⟨?_, hkeep, ?_, ?_⟩
      · cases k with
        | imageURL c path => exact absurd rfl (hphoto c path)
        | _ => rfl
      · rw [Program.after, uploading_add, hup, hb, ← Multiset.singleton_add, uploading_add,
          add_comm]
      · refine hstore.resolve_right ?_
        rintro ⟨c, path, a', l, hmove, -⟩
        cases hmove
        exact hphoto c path rfl

/-- The URLs of the entry, when a step puts what arrives at their end. -/
theorem entryInfoImages_step (hstep : program.step lbl st = some st') (hsettles : Settles st lbl) :
    st'.loc.entryInfoImages = st.loc.entryInfoImages ++ (arrives st lbl).toList := by
  rcases step_move hstep with ⟨hmove, rfl | hd, -⟩ | ⟨m, hmove, hd⟩
  · exact hsettles.elim
  · have hloc : st'.loc = st.loc := congrArg Direct.loc hd
    rw [hloc, arrives, hmove, Option.bind_none, Option.toList_none, List.append_nil]
  · have hall : settles m = true := by
      cases lbl <;> first | exact hsettles.elim | simpa [Settles, hmove] using hsettles
    rw [arrives, hmove, Option.bind_some]
    rcases photo_step hall hd with
      ⟨hnone, hkeep, -⟩ | ⟨c, path, a, rest, res, rfl, -, hcode, hafter⟩
    · rw [hnone, Option.toList_none, List.append_nil]
      exact hkeep.entryInfoImages
    · have hloc : st'.loc = res.1 := congrArg Direct.loc hafter
      rw [hloc]
      exact (react_imageURL hcode).2.1

/-- One step of the save. -/
theorem Gathering.step (h : Gathering id c x) {m : Async.Move Callback Unit Event}
    (hm : settles m = true) (hs : DirectStep program x m x')
    (himg : x'.loc.entryImage = x.loc.entryImage) : Gathering id c x' := by
  have hentry := (store_step hs).1
  rcases photo_step hm hs with ⟨-, hkeep, hup, hstore⟩ |
    ⟨d, path, a, rest, res, rfl, hb, hcode, rfl⟩
  · constructor
    · exact hentry.trans h.entryID
    · rw [hup, himg, hkeep.tempEntryList]
      exact h.pending
    · rw [himg, hkeep.tempEntryList]
      exact h.le
    · rw [hkeep.entryInfoImages, hkeep.tempEntryList]
      exact h.length
    · rw [hstore]
      exact h.stored
    · rw [himg, hkeep.tempEntryList, hstore, hkeep.entryInfoImages]
      exact h.media
  · -- the URL is one of those that the list waits for
    have hlist : (Callback.imageURL d path).list = some d := rfl
    have hbag := h.pending
    rw [hb, uploading_cons_some hlist] at hbag
    have hd : d = c := Multiset.eq_of_mem_replicate (hbag ▸ Multiset.mem_cons_self _ _)
    subst hd
    have hcard := congrArg Multiset.card hbag
    rw [Multiset.card_cons, Multiset.card_replicate] at hcard
    have hrest : uploading rest =
        Multiset.replicate (x.loc.entryImage.length - (x.loc.tempEntryList d + 1)) d := by
      have hsucc : x.loc.entryImage.length - x.loc.tempEntryList d =
          x.loc.entryImage.length - (x.loc.tempEntryList d + 1) + 1 := by omega
      rw [hsucc, Multiset.replicate_succ] at hbag
      exact (Multiset.cons_inj_right d).mp hbag
    obtain ⟨-, hurls, hcount, hup, hmedia⟩ := react_imageURL hcode
    have himages : res.1.entryImage = x.loc.entryImage := himg
    have hdoc : (EditTrip.mediaList id x.store).isSome := by
      rw [EditTrip.mediaList, Option.isSome_map]
      exact h.stored
    obtain ⟨urls, hold⟩ := Option.isSome_iff_exists.mp hdoc
    have hnew : EditTrip.mediaList id (effect Write.apply res.2 x.store) =
        if x.loc.tempEntryList d + 1 = x.loc.entryImage.length then
          some (x.loc.entryInfoImages ++ [⟨path⟩]) else some urls := by
      simp only [hmedia id, hold, h.entryID, and_true, Option.map_some]
    constructor
    · exact hentry.trans h.entryID
    · change uploading (rest + callbacks res.2) =
        Multiset.replicate (res.1.entryImage.length - res.1.tempEntryList d) d
      rw [uploading_add, hup, add_zero, himages, hcount]
      exact hrest
    · change res.1.tempEntryList d ≤ res.1.entryImage.length
      rw [himages, hcount]
      omega
    · change res.1.entryInfoImages.length = res.1.tempEntryList d
      rw [hurls, hcount, List.length_append, h.length]
      rfl
    · change ((effect Write.apply res.2 x.store).entries.lookup id).isSome
      have hsome : (EditTrip.mediaList id (effect Write.apply res.2 x.store)).isSome := by
        rw [hnew]
        split <;> rfl
      rwa [EditTrip.mediaList, Option.isSome_map] at hsome
    · intro hall
      change res.1.tempEntryList d = res.1.entryImage.length at hall
      change EditTrip.mediaList id (effect Write.apply res.2 x.store) = some res.1.entryInfoImages
      rw [himages, hcount] at hall
      rw [hnew, if_pos hall, hurls]

theorem Gathering.run (h : Gathering id c (program.direct st))
    (hrun : IsRun (fun st lbl st' => program.step lbl st = some st') st tr)
    (hlast : Meets Settles st tr) (himg : ∀ x ∈ tr, x.2.loc.entryImage = st.loc.entryImage) :
    Gathering id c (program.direct (final st tr)) := by
  induction tr generalizing st with
  | nil => exact h
  | cons x tr ih =>
    obtain ⟨lbl, st'⟩ := x
    obtain ⟨hstep, hrun⟩ := hrun
    obtain ⟨hx, hlast⟩ := hlast
    have hsame : st'.loc.entryImage = st.loc.entryImage := himg (lbl, st') List.mem_cons_self
    refine ih ?_ hrun hlast fun y hy => (himg y (List.mem_cons_of_mem _ hy)).trans hsame.symm
    rcases step_move hstep with ⟨-, rfl | hd, -⟩ | ⟨m, hm, hd⟩
    · exact hx.elim
    · rwa [hd]
    · have hall : settles m = true := by
        cases lbl <;> first | exact hx.elim | simpa [Settles, hm] using hx
      exact h.step hall hd hsame

/-- **The call of `updateEntry`.** -/
theorem SavedOnce.storing (h : SavedOnce st st' tr) :
    Gathering st.loc.entryID st.loc.nextList (program.direct st') ∧
      st'.loc.entryInfoImages = [] ∧ st'.loc.entryImage = st.loc.entryImage := by
  obtain ⟨i, path, a, o, hi, hstep⟩ := h.call
  have hmove : st.move (.deliver i true a) =
      some (.deliver (.coverURL path) true a : Async.Move Callback Unit Event) := by
    simp only [State.move, hi, Option.map_some]
  have hbefore := h.none_pending
  obtain ⟨m, hm, hd⟩ := (step_move hstep).resolve_left (by simp [hmove])
  obtain rfl := Option.some.inj (hmove.symm.trans hm)
  obtain ⟨x', hx'⟩ : ∃ x', program.direct st' = x' := ⟨_, rfl⟩
  have hloc : st'.loc = x'.loc := congrArg Direct.loc hx'
  rw [hx'] at hd ⊢
  rw [hloc]
  cases hd with
  | @deliver _ _ _ rest res hb hreact =>
    have hcode : coverSaved { st.loc with entryCoverURL := some ⟨path⟩ } = some res := hreact
    rw [hb, uploading_cons_none rfl] at hbefore
    simp only [coverSaved, if_pos h.initial] at hcode
    split at hcode <;> cases hcode
    rename_i hne
    have hpos : 0 < st.loc.entryImage.length := List.length_pos_of_ne_nil hne
    have heffect : (program.direct st).store = program.view st := rfl
    refine ⟨⟨rfl, ?_, ?_, ?_, ?_, ?_⟩, rfl, rfl⟩
    · simp [Program.after, updateEntry, hbefore, uploading_imageUploads _ _ h.encodable,
        Program.direct]
    · simp [Program.after, updateEntry]
    · simp [Program.after, updateEntry]
    · simp only [Program.after, updateEntry, program]
      rw [imageUploads_effect]
      exact h.stored
    · intro hall
      simp [Program.after, updateEntry, Program.direct] at hall
      exact absurd hall.symm hpos.ne'

/-- **The order in which an edited entry stores its photos.** -/
theorem SavedOnce.mediaList_iff (h : SavedOnce st st' tr) :
    EditTrip.mediaList st.loc.entryID (final st' tr).store = some (photoURLs st.loc) ↔
      Meets (NextPhoto (photoURLs st.loc)) st' tr := by
  obtain ⟨hstart, hurls, himg⟩ := h.storing
  have hend := hstart.run h.run h.settles fun x hx => (h.images x hx).trans himg.symm
  rw [h.quiescent.direct] at hend
  have himages : (final st' tr).loc.entryImage = st.loc.entryImage :=
    final_of_forall
      (I := fun (st₁ : State Firestore EditEntry Write Callback) =>
        st₁.loc.entryImage = st.loc.entryImage) himg h.images
  have hall : (final st' tr).loc.tempEntryList st.loc.nextList =
      (final st' tr).loc.entryImage.length := by
    have hcard := congrArg Multiset.card hend.pending
    rw [Multiset.card_replicate] at hcard
    have hzero : (final st' tr).loc.entryImage.length -
        (final st' tr).loc.tempEntryList st.loc.nextList = 0 := hcard.symm
    exact le_antisymm hend.le (Nat.le_of_sub_eq_zero hzero)
  have hmedia : EditTrip.mediaList st.loc.entryID (final st' tr).store =
      some (final st' tr).loc.entryInfoImages := hend.media hall
  have hlen : (final st' tr).loc.entryInfoImages.length = (photoURLs st.loc).length := by
    rw [hend.length, hall, himages]
    simp [photoURLs]
  rw [hmedia, Option.some.injEq]
  have hlog := h.run.final_log_iff (I := fun _ => True) (fun st => st.loc.entryInfoImages) arrives
    (fun s lbl s' _ hstep (hc : Settles s lbl) => ⟨trivial, entryInfoImages_step hstep hc⟩) trivial
    h.settles hlen
  rw [hlog, hurls]
  exact and_iff_right rfl

end

end EditEntry

/-- A single save of an entry: with its trip, or alone when it is edited. -/
inductive SingleSave
  | ofTrip (r : ℕ) (st st' : State Firestore EditTrip Write EditTrip.Callback)
      (tr : List (Label TripID EditTrip.Event × State Firestore EditTrip Write EditTrip.Callback))
      (h : EditTrip.SavedOnce r st st' tr)
  | ofEntry (st st' : State Firestore EditEntry Write EditEntry.Callback)
      (tr : List (Label Unit EditEntry.Event × State Firestore EditEntry Write EditEntry.Callback))
      (h : EditEntry.SavedOnce st st' tr)

namespace SingleSave

/-- The URLs of the photos, in the order in which the photos are shown. -/
def photoURLs : SingleSave → List URL
  | ofTrip r st _ _ _ =>
    EditTrip.photoURLs st.loc.currentUser.uid (st.loc.id r) (st.loc.heap r).images.length
  | ofEntry st _ _ _ => EditEntry.photoURLs st.loc

/-- The media list that is stored in the end. -/
def mediaList : SingleSave → Option (List URL)
  | ofTrip r st st' tr _ => EditTrip.mediaList (st.loc.id r) (final st' tr).store
  | ofEntry st st' tr _ => EditTrip.mediaList st.loc.entryID (final st' tr).store

/-- The URLs arrive in the order of the photos (and, if an entry that is saved with its trip has no
photos, no URL is left from before). -/
def InOrder (s : SingleSave) : Prop :=
  match s with
  | ofTrip r st st' tr _ =>
    ((st.loc.heap r).images = [] → (st.loc.heap r).imageUrls = []) ∧
      Meets (EditTrip.NextPhoto r s.photoURLs) st' tr
  | ofEntry _ st' tr _ => Meets (EditEntry.NextPhoto s.photoURLs) st' tr

end SingleSave

/-- **The order of the photos**: the media list that a single save stores is that of the photos, in
their order, exactly if their URLs arrive in this order. -/
theorem photos_in_order (s : SingleSave) : s.mediaList = some s.photoURLs ↔ s.InOrder := by
  cases s with
  | ofTrip r st st' tr h => exact h.mediaList_iff
  | ofEntry st st' tr h => exact h.mediaList_iff

/-! ## Two orders -/

namespace EditTrip

/-- An entry with two photos is added. -/
def sampleTwoPhotos : List (Label TripID Event) :=
  [.event .viewDidLoad, .event .viewWillAppear,
    .event (Event.addAnnotation { sampleForm "a" with images := [.ofData "x", .ofData "y"] } "a"),
    .event (.editTripName "trip"), .event (.selectTripCover none)]

/-- The photos are uploaded, and then the URL of the photo at this place is the first to arrive. -/
def sampleArrivals (first : ℕ) : List (Label TripID Event) :=
  [.deliver 0 true "", .deliver 0 true "", .deliver 0 true "", .deliver first true "",
    .deliver 0 true "", .apply, .apply, .apply, .deliver 0 true "", .deliver 0 true "t", .apply,
    .apply, .apply, .deliver 0 true "", .apply, .deliver 0 true ""]

/-- The states before and after Save is pressed, and the run until everything is answered. -/
def sampleSave (first : ℕ) : Option (State Firestore EditTrip Write Callback ×
    State Firestore EditTrip Write Callback ×
    List (Label TripID Event × State Firestore EditTrip Write Callback)) :=
  (play (fun st lbl => program.step lbl st) sampleTwoPhotos sampleNewScreen).bind fun tr₀ =>
    (program.step (.event .saveButtonPressed) (final sampleNewScreen tr₀)).bind fun st' =>
      (play (fun st lbl => program.step lbl st) (sampleArrivals first) st').map fun tr =>
        (final sampleNewScreen tr₀, st', tr)

theorem savedOnce_sampleSave {first : ℕ} {st st' : State Firestore EditTrip Write Callback}
    {tr : List (Label TripID Event × State Firestore EditTrip Write Callback)}
    (h : sampleSave first = some (st, st', tr))
    (hst : photos 0 (program.direct st).bag = 0 ∧ st.loc.emptyField = false ∧
      (∀ image ∈ (st.loc.heap 0).images, image.jpegData.isSome) ∧ 0 < st.loc.next ∧
      0 ∈ st.loc.entryList ∧ st.loc.ids.count (st.loc.id 0) = 1)
    (htr : Meets (Settles 0) st' tr ∧
      (∀ x ∈ tr, (x.2.loc.heap 0).images = (st.loc.heap 0).images) ∧ Quiescent (final st' tr)) :
    SavedOnce 0 st st' tr := by
  obtain ⟨tr₀, h₀, h⟩ := Option.bind_eq_some_iff.mp h
  obtain ⟨st₁, hpress, h⟩ := Option.bind_eq_some_iff.mp h
  obtain ⟨tr₁, hplay, h⟩ := Option.map_eq_some_iff.mp h
  cases h
  obtain ⟨hnone, hfields, henc, hlt, hmem, hcount⟩ := hst
  obtain ⟨hsettles, himages, hq⟩ := htr
  exact ⟨⟨sampleDatabase, sampleUser, none, ∅, 0, tr₀, isRun_of_play h₀, rfl⟩, hnone, hpress,
    hfields, henc, hlt, hmem, hcount, isRun_of_play hplay, hsettles, himages, hq⟩

end EditTrip

namespace EditEntry

/-- The screen that edits the entry of a trip, with two photos. -/
def photoScreen : State Firestore EditEntry Write Callback :=
  start EditTrip.tripStore (opened EditTrip.sampleUser "a" "name" "place" "text"
    [⟨"x"⟩, ⟨"y"⟩] (((∅ : Bucket).insert "x" "x").insert "y" "y"))

/-- The photos are loaded, a cover is chosen and uploaded. -/
def photoEdits : List (Label Unit Event) :=
  [.event .viewDidLoad, .deliver 1 true (), .deliver 1 true (), .deliver 0 true (),
    .deliver 0 true (), .event (.selectCover (.ofData "c")), .event .saveButton, .deliver 0 true ()]

/-- The photos are uploaded, and then the URL of the photo at this place is the first to arrive. -/
def photoArrivals (first : ℕ) : List (Label Unit Event) :=
  [.deliver 0 true (), .deliver 0 true (), .deliver first true (), .deliver 0 true (), .apply,
    .deliver 0 true ()]

/-- The states before and after `updateEntry` is called, and the run until everything is
answered. -/
def photoSave (first : ℕ) : Option (State Firestore EditEntry Write Callback ×
    State Firestore EditEntry Write Callback ×
    List (Label Unit Event × State Firestore EditEntry Write Callback)) :=
  (play (fun st lbl => program.step lbl st) photoEdits photoScreen).bind fun tr₀ =>
    (program.step (.deliver 0 true ()) (final photoScreen tr₀)).bind fun st' =>
      (play (fun st lbl => program.step lbl st) (photoArrivals first) st').map fun tr =>
        (final photoScreen tr₀, st', tr)

theorem savedOnce_photoSave {first : ℕ} {st st' : State Firestore EditEntry Write Callback}
    {tr : List (Label Unit Event × State Firestore EditEntry Write Callback)}
    (h : photoSave first = some (st, st', tr))
    (hst : uploading (program.direct st).bag = 0 ∧
      st.ready = [(.coverURL st.loc.coverPath, none)] ∧ 0 < st.loc.initialImageCount ∧
      (∀ image ∈ st.loc.entryImage, image.jpegData.isSome) ∧
      ((program.view st).entries.lookup st.loc.entryID).isSome)
    (htr : Meets Settles st' tr ∧ (∀ x ∈ tr, x.2.loc.entryImage = st.loc.entryImage) ∧
      Quiescent (final st' tr)) :
    SavedOnce st st' tr := by
  obtain ⟨tr₀, -, h⟩ := Option.bind_eq_some_iff.mp h
  obtain ⟨st₁, hcall, h⟩ := Option.bind_eq_some_iff.mp h
  obtain ⟨tr₁, hplay, h⟩ := Option.map_eq_some_iff.mp h
  cases h
  obtain ⟨hnone, hready, hinitial, henc, hdoc⟩ := hst
  obtain ⟨hsettles, himages, hq⟩ := htr
  refine ⟨hnone, ⟨0, (final photoScreen tr₀).loc.coverPath, (), none, ?_, hcall⟩, hinitial, henc,
    hdoc, isRun_of_play hplay, hsettles, himages, hq⟩
  rw [hready]
  rfl

end EditEntry

/-- Saves of both kinds with which the URLs arrive in the order of the photos. -/
theorem photos_in_order_sample :
    (∃ st : State Firestore EditTrip Write EditTrip.Callback, Quiescent st ∧
      EditTrip.mediaList "a" st.store = some (EditTrip.photoURLs "ann" "a" 2)) ∧
    ∃ st : State Firestore EditEntry Write EditEntry.Callback, Quiescent st ∧
      EditTrip.mediaList "a" st.store =
        some [⟨"/users/ann/a/images0"⟩, ⟨"/users/ann/a/images1"⟩] := by
  constructor
  · have hsample : (EditTrip.sampleSave 0).isSome ∧ ∀ x ∈ EditTrip.sampleSave 0,
        (EditTrip.photos 0 (EditTrip.program.direct x.1).bag = 0 ∧ x.1.loc.emptyField = false ∧
          (∀ image ∈ (x.1.loc.heap 0).images, image.jpegData.isSome) ∧ 0 < x.1.loc.next ∧
          0 ∈ x.1.loc.entryList ∧ x.1.loc.ids.count (x.1.loc.id 0) = 1) ∧
        (Meets (EditTrip.Settles 0) x.2.1 x.2.2 ∧
          (∀ y ∈ x.2.2, (y.2.loc.heap 0).images = (x.1.loc.heap 0).images) ∧
          Quiescent (final x.2.1 x.2.2)) ∧
        x.1.loc.currentUser.uid = "ann" ∧ x.1.loc.id 0 = "a" ∧
        (x.1.loc.heap 0).images.length = 2 ∧
        Meets (EditTrip.NextPhoto 0 (EditTrip.photoURLs "ann" "a" 2)) x.2.1 x.2.2 := by
      decide +kernel
    obtain ⟨hsome, hall⟩ := hsample
    obtain ⟨⟨st, st', tr⟩, h⟩ := Option.isSome_iff_exists.mp hsome
    obtain ⟨hst, htr, huid, hid, hlen, hmeets⟩ := hall _ h
    have hiff := photos_in_order (.ofTrip 0 st st' tr (EditTrip.savedOnce_sampleSave h hst htr))
    simp only [SingleSave.mediaList, SingleSave.photoURLs, SingleSave.InOrder] at hiff
    have htwo : (st.loc.heap 0).images.length = 2 := hlen
    have hne : (st.loc.heap 0).images ≠ [] := List.ne_nil_of_length_pos (by omega)
    rw [huid, hid, hlen] at hiff
    exact ⟨_, htr.2.2, hiff.mpr ⟨fun hnil => absurd hnil hne, hmeets⟩⟩
  · have hsample : (EditEntry.photoSave 0).isSome ∧ ∀ x ∈ EditEntry.photoSave 0,
        (EditEntry.uploading (EditEntry.program.direct x.1).bag = 0 ∧
          x.1.ready = [(.coverURL x.1.loc.coverPath, none)] ∧ 0 < x.1.loc.initialImageCount ∧
          (∀ image ∈ x.1.loc.entryImage, image.jpegData.isSome) ∧
          ((EditEntry.program.view x.1).entries.lookup x.1.loc.entryID).isSome) ∧
        (Meets EditEntry.Settles x.2.1 x.2.2 ∧
          (∀ y ∈ x.2.2, y.2.loc.entryImage = x.1.loc.entryImage) ∧
          Quiescent (final x.2.1 x.2.2)) ∧
        x.1.loc.entryID = "a" ∧
        EditEntry.photoURLs x.1.loc = [⟨"/users/ann/a/images0"⟩, ⟨"/users/ann/a/images1"⟩] ∧
        Meets (EditEntry.NextPhoto (EditEntry.photoURLs x.1.loc)) x.2.1 x.2.2 := by
      decide +kernel
    obtain ⟨hsome, hall⟩ := hsample
    obtain ⟨⟨st, st', tr⟩, h⟩ := Option.isSome_iff_exists.mp hsome
    obtain ⟨hst, htr, hid, hurls, hmeets⟩ := hall _ h
    have hiff := photos_in_order (.ofEntry st st' tr (EditEntry.savedOnce_photoSave h hst htr))
    simp only [SingleSave.mediaList, SingleSave.photoURLs, SingleSave.InOrder] at hiff
    rw [hid, hurls] at hiff
    exact ⟨_, htr.2.2, hiff.mpr (hurls ▸ hmeets)⟩

/-- A single save of an entry with two photos, of which the second has its URL first. -/
theorem photos_out_of_order : ∃ st st' tr, EditTrip.SavedOnce 0 st st' tr ∧
    (st.loc.heap 0).images = [.ofData "x", .ofData "y"] ∧ st.loc.id 0 = "a" ∧
    EditTrip.mediaList "a" (final st' tr).store =
      some [⟨imagePath "ann" "a" 1⟩, ⟨imagePath "ann" "a" 0⟩] ∧
    EditTrip.mediaList "a" (final st' tr).store ≠ some (EditTrip.photoURLs "ann" "a" 2) := by
  have hsample : (EditTrip.sampleSave 1).isSome ∧ ∀ x ∈ EditTrip.sampleSave 1,
      (EditTrip.photos 0 (EditTrip.program.direct x.1).bag = 0 ∧ x.1.loc.emptyField = false ∧
        (∀ image ∈ (x.1.loc.heap 0).images, image.jpegData.isSome) ∧ 0 < x.1.loc.next ∧
        0 ∈ x.1.loc.entryList ∧ x.1.loc.ids.count (x.1.loc.id 0) = 1) ∧
      (Meets (EditTrip.Settles 0) x.2.1 x.2.2 ∧
        (∀ y ∈ x.2.2, (y.2.loc.heap 0).images = (x.1.loc.heap 0).images) ∧
        Quiescent (final x.2.1 x.2.2)) ∧
      (x.1.loc.heap 0).images = [.ofData "x", .ofData "y"] ∧ x.1.loc.id 0 = "a" ∧
      EditTrip.mediaList "a" (final x.2.1 x.2.2).store =
        some [⟨imagePath "ann" "a" 1⟩, ⟨imagePath "ann" "a" 0⟩] ∧
      EditTrip.mediaList "a" (final x.2.1 x.2.2).store ≠
        some (EditTrip.photoURLs "ann" "a" 2) := by
    decide +kernel
  obtain ⟨hsome, hall⟩ := hsample
  obtain ⟨⟨st, st', tr⟩, h⟩ := Option.isSome_iff_exists.mp hsome
  obtain ⟨hst, htr, hrest⟩ := hall _ h
  exact ⟨st, st', tr, EditTrip.savedOnce_sampleSave h hst htr, hrest⟩

end Wanderlust
