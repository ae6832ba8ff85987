import Wanderlust.Entries.SaveSteps
import Wanderlust.Foundations.Simulation
import Wanderlust.Foundations.Undisturbed
import Wanderlust.Foundations.Uploads

/-!
# The content of an entry

What people see of an entry is its texts, its cover and its photos (`Content`), wherever the
objects are and however they are called. The screen that edits an entry loads its content into the
form, where the photos are in the order in which they have arrived (`loaded_of_settles`). Each
action on the form changes what is there (`Filled.edit`), and a save makes it the content
(`Filled.save`).
-/

namespace Wanderlust

open Async Runs

/-- What there is to see of an entry. -/
structure Content where
  entryName : String
  locationName : String
  description : String
  cover : String
  photos : Multiset String

namespace Content

/-- The content can be saved. -/
structure Complete (c : Content) : Prop where
  entryName : c.entryName ≠ ""
  locationName : c.locationName ≠ ""
  description : c.description ≠ ""
  cover : UIImage.ofData c.cover ≠ .entryPlaceholder
  photos : c.photos ≠ 0

instance (c : Content) : Decidable c.Complete :=
  decidable_of_iff (c.entryName ≠ "" ∧ c.locationName ≠ "" ∧ c.description ≠ "" ∧
      UIImage.ofData c.cover ≠ .entryPlaceholder ∧ c.photos ≠ 0)
    ⟨fun ⟨hname, hlocation, hdescription, hcover, hphotos⟩ =>
      ⟨hname, hlocation, hdescription, hcover, hphotos⟩,
    fun h => ⟨h.entryName, h.locationName, h.description, h.cover, h.photos⟩⟩

end Content

/-- What is on the form: the photos are in a row. -/
structure Draft where
  entryName : String
  locationName : String
  description : String
  cover : String
  photos : List String

namespace Draft

/-- The content that it is saved as. -/
def content (f : Draft) : Content :=
  ⟨f.entryName, f.locationName, f.description, f.cover, f.photos⟩

/-- What is done on the form. -/
def edit (f : Draft) : EditEntry.Event → Option Draft
  | .editEntryName text => some { f with entryName := text }
  | .editLocationName text => some { f with locationName := text }
  | .editDescription text => some { f with description := text }
  | .selectCover image => some { f with cover := image.pixels }
  | .addPhoto image => some { f with photos := f.photos ++ [image.pixels] }
  | .deleteImage index =>
    if index < f.photos.length then some { f with photos := f.photos.eraseIdx index } else none
  | .viewDidLoad | .saveButton => none

end Draft

namespace Content

/-- The form with the photos in this order. -/
def draft (c : Content) (photos : List String) : Draft :=
  ⟨c.entryName, c.locationName, c.description, c.cover, photos⟩

/-- The photos are in this order on the form. One thing is done there after the other, if this leads
to a content that can be saved. -/
def Revises (c : Content) (photos : List String) (es : List EditEntry.Event) (c' : Content) :
    Prop :=
  ↑photos = c.photos ∧ ∃ f, es.foldlM Draft.edit (c.draft photos) = some f ∧
    c' = if f.content.Complete then f.content else c

end Content

/-- An entry that is put into a trip has this content. -/
structure EntryDoc.Shows (d : EntryDoc) (bucket : Bucket) (c : Content) : Prop where
  tripID : d.tripID.isSome
  entryName : d.entryName = c.entryName
  locationName : d.locationName = c.locationName
  description : d.description = c.description
  cover : ∃ url, d.coverPhoto = some url ∧ bucket.lookup url.path = some c.cover
  photos : (↑(d.mediaList.map fun url => bucket.lookup url.path) : Multiset (Option String)) =
    c.photos.map some

/-- The content is the same where the objects are. -/
theorem EntryDoc.Shows.congr {d : EntryDoc} {bucket bucket' : Bucket} {c : Content}
    (h : d.Shows bucket c)
    (hsame : ∀ url ∈ d.photoURLs, bucket'.lookup url.path = bucket.lookup url.path) :
    d.Shows bucket' c where
  tripID := h.tripID
  entryName := h.entryName
  locationName := h.locationName
  description := h.description
  cover := by
    obtain ⟨url, hurl, hdata⟩ := h.cover
    have hmem : url ∈ d.photoURLs := List.mem_append_left _ (Option.mem_toList.mpr hurl)
    exact ⟨url, hurl, (hsame url hmem).trans hdata⟩
  photos := by
    have hmap : d.mediaList.map (fun url => bucket'.lookup url.path) =
        d.mediaList.map fun url => bucket.lookup url.path :=
      List.map_congr_left fun url hurl => hsame url (List.mem_append_right _ hurl)
    rw [hmap, h.photos]

namespace EditEntry

variable {db db' : Firestore} {l l' : EditEntry} {d : EntryDoc} {c : Content} {f : Draft}
  {x x' : Direct Firestore EditEntry Callback}

/-- This is on the form. -/
structure Form (l : EditEntry) (f : Draft) : Prop where
  entryName : l.entryNameField = f.entryName
  locationName : l.locationNameField = f.locationName
  description : l.descriptionField = f.description
  cover : l.entryCoverPhoto = some (.ofData f.cover)
  photos : l.entryImage = f.photos.map .ofData

/-- The entry has been loaded into the form, and maybe changed there. -/
structure Filled (u : User) (id : EntryID) (bucket : Bucket) (l : EditEntry) (f : Draft) :
    Prop where
  currentUser : l.currentUser = u
  entryID : l.entryID = id
  bucket : l.bucket = bucket
  initialImageCount : 0 < l.initialImageCount
  form : Form l f

/-- Whether `saveButton` saves. -/
theorem Form.emptyField_iff (h : Form l f) : l.emptyField = false ↔ f.content.Complete := by
  have hphotos : l.entryImage.length = 0 ↔ f.content.photos = 0 := by
    rw [h.photos, List.length_map, Draft.content, Multiset.coe_eq_zero, List.length_eq_zero_iff]
  rw [emptyField, decide_eq_false_iff_not, hphotos, h.entryName, h.locationName, h.description,
    h.cover, Option.some.injEq]
  constructor
  · intro hnot
    simp only [not_or] at hnot
    exact ⟨hnot.2.1, hnot.2.2.1, hnot.2.2.2.1, hnot.2.2.2.2, hnot.1⟩
  · rintro ⟨hname, hlocation, hdescription, hcover, hphotos⟩
    simp only [not_or]
    exact ⟨hphotos, hname, hlocation, hdescription, hcover⟩

/-! ## The user -/

/-- The screen does not change `currentUser`. -/
theorem currentUser_event {e : Event} {r : EditEntry × List Cmd}
    (h : EditEntry.event e l db = some r) : r.1.currentUser = l.currentUser := by
  cases e with
  | viewDidLoad =>
    simp only [EditEntry.event, viewDidLoad] at h
    split at h <;> cases h <;> rfl
  | saveButton =>
    simp only [EditEntry.event, saveButton, uploadEntryCoverPhoto, Handler.issue_apply] at h
    split at h <;> cases h <;> rfl
  | deleteImage index =>
    simp only [EditEntry.event] at h
    split at h <;> cases h
    rfl
  | _ =>
    cases h
    rfl

theorem currentUser_react {k : Callback} {ok : Bool} {a : Unit} {r : EditEntry × List Cmd}
    (h : react k ok a l db = some r) : r.1.currentUser = l.currentUser := by
  cases k with
  | entryFetched =>
    simp only [react] at h
    split at h
    · cases h
      rfl
    · obtain ⟨url, -, rfl⟩ := Option.map_eq_some_iff.mp h
      rfl
  | coverDownloaded url =>
    simp only [react] at h
    split at h <;> cases h <;> rfl
  | imageDownloaded url =>
    simp only [react, imageDownloaded] at h
    split at h <;> cases h
    · rfl
    · dsimp only
      split <;> rfl
  | coverURL path =>
    simp only [react, coverSaved] at h
    split at h
    · split at h
      · split at h <;> cases h
        rfl
      · cases h
        rfl
    · cases h
      rfl
  | imageURL list path =>
    simp only [react, Option.some.injEq] at h
    split at h <;> subst h <;> rfl
  | entryUpdated =>
    cases h
    rfl
  | _ =>
    cases h
    dsimp only
    split <;> rfl

/-! ## Loading -/

/-- The screen while the entry is loaded. -/
def loading (l : EditEntry) (cover : Option UIImage) (coverURL : Option URL)
    (images : List UIImage) (tempImages : ℕ) : EditEntry :=
  { l with
    entryCoverPhoto := cover
    entryCoverURL := coverURL
    entryImage := images
    tempImages := tempImages
    initialImageCount := l.entryInfoImages.length }

/-- How far the cover is loaded. -/
inductive CoverLoading (url : URL) (data : String) (cover : Option UIImage) :
    Multiset Callback → Prop
  | asked : CoverLoading url data cover {.entryFetched}
  | found : CoverLoading url data cover {.coverDownloaded url}
  | shown (h : cover = some (.ofData data)) : CoverLoading url data cover 0

/-- The screen is loading the entry. -/
inductive Loading (db : Firestore) (l : EditEntry) (url : URL) (c : Content)
    (x : Direct Firestore EditEntry Callback) : Prop
  | intro {cover : Option UIImage} {coverURL : Option URL} {photos : List String}
      {tempImages : ℕ} {part : Multiset Callback} {pending : Multiset URL}
      (hstore : x.store = db)
      (hloc : x.loc = l.loading cover coverURL (photos.map .ofData) tempImages)
      (hbag : x.bag = part + pending.map .imageDownloaded)
      (hcover : CoverLoading url c.cover cover part)
      (hphotos : pending.map (fun url => l.bucket.lookup url.path) + ↑(photos.map some) =
        c.photos.map some)

/-- The code for a photo that arrives. -/
theorem loading_imageDownloaded (cover : Option UIImage) (coverURL : Option URL)
    (photos : List String) (tempImages : ℕ) (data : String) :
    imageDownloaded (.ofData data) (l.loading cover coverURL (photos.map .ofData) tempImages) =
      l.loading cover coverURL ((photos ++ [data]).map .ofData) (tempImages + 1) := by
  by_cases hall : tempImages + 1 = l.entryInfoImages.length
  · simp [imageDownloaded, loading, hall]
  · simp [imageDownloaded, loading, hall]

/-- One answer. -/
theorem Loading.answer {url : URL} (hd : db.entries.lookup l.entryID = some d)
    (hurl : d.coverPhoto = some url) (hcover : l.bucket.lookup url.path = some c.cover)
    (h : Loading db l url c x) (hs : Answer program x x') : Loading db l url c x' := by
  obtain ⟨rfl, hloc, hbag, hpart, hphotos⟩ := h
  rename_i cover coverURL photos tempImages part pending
  cases hs with
  | @intro k a rest r hb hr =>
    rw [hbag] at hb
    change react k true a x.loc x.store = some r at hr
    rw [hloc] at hr
    rcases take_add hb with ⟨part', rfl, rfl⟩ | ⟨pending', htake, rfl⟩
    · generalize hpart' : k ::ₘ part' = part at hpart
      cases hpart with
      | asked =>
        obtain ⟨rfl, rfl⟩ := (Multiset.singleton_eq_cons_iff _).mp hpart'.symm
        have hentry : x.store.entries.lookup
            (l.loading cover coverURL (photos.map .ofData) tempImages).entryID = some d := hd
        simp only [react, if_true, hentry, hurl, Option.map_some, Option.some.injEq] at hr
        obtain rfl := hr
        refine .intro rfl rfl ?_ .found hphotos
        simp [Program.after, add_comm]
      | found =>
        obtain ⟨rfl, rfl⟩ := (Multiset.singleton_eq_cons_iff _).mp hpart'.symm
        have hobject : (l.loading cover coverURL (photos.map .ofData) tempImages).bucket.lookup
            url.path = some c.cover := hcover
        simp only [react, if_true, hobject, Option.some.injEq] at hr
        obtain rfl := hr
        refine .intro rfl rfl ?_ (.shown rfl) hphotos
        simp [Program.after]
      | shown => exact absurd hpart' Multiset.cons_ne_zero
    · obtain ⟨url', pending', rfl, rfl, rfl⟩ := take_map htake
      -- the photo is there
      obtain ⟨data, hdata⟩ : ∃ data, l.bucket.lookup url'.path = some data := by
        have hmem : l.bucket.lookup url'.path ∈ c.photos.map some := by
          rw [← hphotos, Multiset.map_cons, Multiset.cons_add]
          exact Multiset.mem_cons_self _ _
        obtain ⟨data, -, hdata⟩ := Multiset.mem_map.mp hmem
        exact ⟨data, hdata.symm⟩
      have hobject : (l.loading cover coverURL (photos.map .ofData) tempImages).bucket.lookup
          url'.path = some data := hdata
      simp only [react, if_true, hobject, Option.some.injEq, loading_imageDownloaded] at hr
      obtain rfl := hr
      have hphotos' : pending'.map (fun url => l.bucket.lookup url.path) +
          ↑((photos ++ [data]).map some) = c.photos.map some := by
        rw [← hphotos, Multiset.map_cons, hdata, List.map_append, ← Multiset.coe_add, ← add_assoc,
          Multiset.cons_add, ← Multiset.singleton_add, add_comm]
        rfl
      refine .intro rfl rfl ?_ hpart hphotos'
      simp [Program.after]

theorem viewDidLoad_of_pos (h : 0 < l.entryInfoImages.length) :
    viewDidLoad l =
      (l.loading l.entryCoverPhoto l.entryCoverURL l.entryImage 0, .request .entryFetched ::
        l.entryInfoImages.map fun url => .request (.imageDownloaded url)) := by
  rw [viewDidLoad, if_pos h]
  simp [loadImagesFromEntryInfo, loading]

/-- **Loading the entry** fills in the form. -/
theorem loaded_of_settles {u : User} {id : EntryID} {bucket : Bucket}
    (hd : db.entries.lookup id = some d) (hshows : d.Shows bucket c) (hne : c.photos ≠ 0)
    (h : Settles program .viewDidLoad db
      (opened u id d.entryName d.locationName d.description d.mediaList bucket) db' l') :
    db' = db ∧ ∃ photos : List String, ↑photos = c.photos ∧
      Filled u id bucket l' (c.draft photos) := by
  obtain ⟨url, hurl, hcover⟩ := hshows.cover
  have hcard : d.mediaList.length = c.photos.card := by
    simpa using congrArg Multiset.card hshows.photos
  have hpos : 0 < d.mediaList.length := hcard ▸ Multiset.card_pos.mpr hne
  have hend : Loading db
      (opened u id d.entryName d.locationName d.description d.mediaList bucket) url c
      ⟨db', l', 0⟩ := by
    refine h.invariant (fun r hr => ?_) fun x x' hx hs => hx.answer hd hurl hcover hs
    have hcode := viewDidLoad_of_pos
      (l := opened u id d.entryName d.locationName d.description d.mediaList bucket) hpos
    obtain rfl := Option.some.inj (hr.symm.trans (congrArg some hcode))
    have hphotos : (↑d.mediaList : Multiset URL).map (fun url => bucket.lookup url.path) +
        ↑(([] : List String).map some) = c.photos.map some := by
      rw [← hshows.photos]
      simp
    refine .intro ?_ rfl ?_ .asked hphotos
    · simp [Program.after]
    · simp only [Program.after, callbacks_request, callbacks_map_request, zero_add, opened,
        Multiset.map_coe, Multiset.singleton_add]
  obtain ⟨rfl, hloc, hbag, hpart, hphotos⟩ := hend
  rename_i cover coverURL photos tempImages part pending
  have hzero : part + pending.map Callback.imageDownloaded = 0 := hbag.symm
  have hnone : ∀ k, k ∉ part + pending.map Callback.imageDownloaded := fun k hk =>
    Multiset.notMem_zero k (hzero ▸ hk)
  obtain rfl : pending = 0 := Multiset.eq_zero_of_forall_notMem fun url hurl =>
    hnone _ (Multiset.mem_add.mpr (.inr (Multiset.mem_map_of_mem _ hurl)))
  rw [Multiset.map_zero, zero_add, ← Multiset.map_coe] at hphotos
  have hall : (↑photos : Multiset String) = c.photos :=
    Multiset.map_injective (Option.some_injective _) hphotos
  cases hpart with
  | asked => exact absurd (Multiset.mem_add.mpr (.inl (Multiset.mem_singleton_self _))) (hnone _)
  | found => exact absurd (Multiset.mem_add.mpr (.inl (Multiset.mem_singleton_self _))) (hnone _)
  | shown hcover =>
    obtain rfl := hloc
    exact ⟨rfl, photos, hall, rfl, rfl, rfl, hpos, hshows.entryName, hshows.locationName,
      hshows.description, hcover, rfl⟩

/-! ## Filling in the form -/

/-- What is done on the form with images that are what their data are. -/
def Event.Fills : Event → Prop
  | .viewDidLoad => False
  | .saveButton => False
  | .selectCover image => image = .ofData image.pixels
  | .addPhoto image => image = .ofData image.pixels
  | _ => True

/-- **An action on the form** changes what is there. -/
theorem Filled.edit {u : User} {id : EntryID} {bucket : Bucket} (h : Filled u id bucket l f)
    {e : Event} (he : e.Fills) {r : EditEntry × List Cmd} (hr : EditEntry.event e l db = some r) :
    ∃ f', f.edit e = some f' ∧ Filled u id bucket r.1 f' ∧ r.2 = [] := by
  obtain ⟨hname, hlocation, hdescription, hcover, hphotos⟩ := h.form
  have hfilled : ∀ l' f', l'.currentUser = l.currentUser → l'.entryID = l.entryID →
      l'.bucket = l.bucket → l'.initialImageCount = l.initialImageCount → Form l' f' →
      Filled u id bucket l' f' := fun l' f' huser hid hbucket hcount hform =>
    ⟨huser.trans h.currentUser, hid.trans h.entryID, hbucket.trans h.bucket,
      hcount ▸ h.initialImageCount, hform⟩
  cases e with
  | viewDidLoad => exact he.elim
  | saveButton => exact he.elim
  | editEntryName text =>
    cases hr
    exact ⟨_, rfl,
      hfilled _ _ rfl rfl rfl rfl ⟨rfl, hlocation, hdescription, hcover, hphotos⟩, rfl⟩
  | editLocationName text =>
    cases hr
    exact ⟨_, rfl,
      hfilled _ _ rfl rfl rfl rfl ⟨hname, rfl, hdescription, hcover, hphotos⟩, rfl⟩
  | editDescription text =>
    cases hr
    exact ⟨_, rfl,
      hfilled _ _ rfl rfl rfl rfl ⟨hname, hlocation, rfl, hcover, hphotos⟩, rfl⟩
  | selectCover image =>
    cases hr
    have hdata : some image = some (.ofData image.pixels) := congrArg some he
    exact ⟨_, rfl,
      hfilled _ _ rfl rfl rfl rfl ⟨hname, hlocation, hdescription, hdata, hphotos⟩, rfl⟩
  | addPhoto image =>
    cases hr
    have hdata : image = .ofData image.pixels := he
    have hadded : l.entryImage ++ [image] = (f.photos ++ [image.pixels]).map .ofData := by
      rw [hphotos, List.map_append, List.map_singleton, ← hdata]
    exact ⟨_, rfl,
      hfilled _ _ rfl rfl rfl rfl ⟨hname, hlocation, hdescription, hcover, hadded⟩, rfl⟩
  | deleteImage index =>
    simp only [EditEntry.event] at hr
    split at hr <;> cases hr
    rename_i hlt
    have hindex : index < f.photos.length := by rwa [hphotos, List.length_map] at hlt
    have hrest : l.entryImage.eraseIdx index = (f.photos.eraseIdx index).map .ofData := by
      rw [hphotos, List.eraseIdx_map]
    exact ⟨_, if_pos hindex,
      hfilled _ _ rfl rfl rfl rfl ⟨hname, hlocation, hdescription, hcover, hrest⟩, rfl⟩

/-! ## Saving -/

/-- The objects that the photos become. -/
def photoObjects (l : EditEntry) (n : ℕ) (photos : List String) : List (String × String) :=
  (photos.zipIdx n).map fun x => (l.imagesPath x.2, x.1)

@[simp] theorem photoObjects_cons (data : String) (photos : List String) (n : ℕ) :
    l.photoObjects n (data :: photos) = (l.imagesPath n, data) :: l.photoObjects (n + 1) photos :=
  rfl

@[simp] theorem length_photoObjects (n : ℕ) (photos : List String) :
    (l.photoObjects n photos).length = photos.length := by
  simp [photoObjects]

/-- The names of the objects. -/
theorem map_fst_photoObjects (l : EditEntry) (n : ℕ) (photos : List String) :
    (l.photoObjects n photos).map Prod.fst =
      (List.range' n photos.length).map l.imagesPath := by
  rw [← List.zipIdx_map_snd n photos, photoObjects, List.map_map, List.map_map]
  rfl

theorem nodup_photoObjects (l : EditEntry) (n : ℕ) (photos : List String) :
    ((l.photoObjects n photos).map Prod.fst).Nodup := by
  rw [map_fst_photoObjects]
  exact (List.nodup_range').map fun i j h => imagesPath_inj.mp h

theorem map_snd_photoObjects (l : EditEntry) (n : ℕ) (photos : List String) :
    (l.photoObjects n photos).map Prod.snd = photos := by
  simp only [photoObjects, List.map_map]
  exact List.zipIdx_map_fst n photos

/-- The uploads that `updateEntry` starts. -/
theorem callbacks_imageUploads (l : EditEntry) (list n : ℕ) (photos : List String) :
    callbacks (imageUploads l list (photos.map .ofData) n) =
      (↑(l.photoObjects n photos) : Multiset (String × String)).map
        fun o => .imageUploaded list o.1 o.2 := by
  induction photos generalizing n with
  | nil => rfl
  | cons data photos ih =>
    rw [photoObjects_cons, ← Multiset.cons_coe, Multiset.map_cons, ← ih]
    rfl

/-- The places at which the edits of an entry by a user put its objects. -/
def EditPath (uid : Uid) (id : EntryID) (path : String) : Prop :=
  path = filePath uid "entryCovers" (coverName id) ∨
    ∃ i, path = filePath uid id (numbered "images" i)

/-- The edits of different entries put their objects at different places. -/
theorem EditPath.id_eq {uid uid' : Uid} {id id' : EntryID} {path : String}
    (h : EditPath uid id path) (h' : EditPath uid' id' path) (huid : '/' ∉ uid.toList)
    (huid' : '/' ∉ uid'.toList) : id = id' := by
  have hslash : ∀ i, '/' ∉ (numbered "images" i).toList := slash_notMem_numbered (by decide)
  rcases h with hcover | ⟨i, hphoto⟩ <;> rcases h' with hcover' | ⟨j, hphoto'⟩
  · have hsame := hcover.symm.trans hcover'
    obtain rfl := filePath_uid huid huid' hsame
    exact filePath_coverName_inj.mp hsame
  · have hsame := hcover.symm.trans hphoto'
    obtain rfl := filePath_uid huid huid' hsame
    exact absurd hsame.symm filePath_numbered_ne_coverName
  · have hsame := hphoto.symm.trans hcover'
    obtain rfl := filePath_uid huid huid' hsame
    exact absurd hsame filePath_numbered_ne_coverName
  · have hsame := hphoto.symm.trans hphoto'
    obtain rfl := filePath_uid huid huid' hsame
    exact ((filePath_inj (hslash i) (hslash j)).mp hsame).1

/-- The screen while the photos are stored. -/
def gathering (l : EditEntry) (bucket : Bucket) (listed : List (String × String)) : EditEntry :=
  { l with
    bucket := bucket
    entryCoverURL := some ⟨l.coverPath⟩
    entryInfoImages := listed.map fun o => ⟨o.1⟩
    tempEntryList := Function.update l.tempEntryList l.nextList listed.length
    nextList := l.nextList + 1 }

/-- How far a save has come that stores the cover and the photos. -/
inductive Progress (db : Firestore) (l : EditEntry) (cover : String) (photos : List String)
    (x : Direct Firestore EditEntry Callback) : Prop
  | cover (hstore : x.store = db) (hloc : x.loc = l)
      (hbag : x.bag = {.coverUploaded l.coverPath cover})
  | coverURL (hstore : x.store = db)
      (hloc : x.loc = { l with bucket := l.bucket.insert l.coverPath cover })
      (hbag : x.bag = {.coverURL l.coverPath})
  | photos {bucket : Bucket} {storing waiting : Multiset (String × String)}
      {listed : List (String × String)} (hstore : x.store = db)
      (hloc : x.loc = l.gathering bucket listed)
      (hbag : x.bag = storing.map (fun o => .imageUploaded l.nextList o.1 o.2) +
        waiting.map fun o => .imageURL l.nextList o.1)
      (huploads : Uploads (l.photoObjects 0 photos) (l.bucket.insert l.coverPath cover) bucket
        storing waiting listed)
      (hmore : listed.length < photos.length)
  | written {bucket : Bucket} {listed : List (String × String)}
      (hstore : x.store =
        (Write.updateEntry l.entryID (l.gathering bucket listed).merge).apply db)
      (hloc : x.loc = l.gathering bucket listed) (hbag : x.bag = {.entryUpdated})
      (huploads : Uploads (l.photoObjects 0 photos) (l.bucket.insert l.coverPath cover) bucket
        0 0 listed)
  | popped {bucket : Bucket} {listed : List (String × String)}
      (hstore : x.store =
        (Write.updateEntry l.entryID (l.gathering bucket listed).merge).apply db)
      (hloc : x.loc = { l.gathering bucket listed with popped := true }) (hbag : x.bag = 0)
      (huploads : Uploads (l.photoObjects 0 photos) (l.bucket.insert l.coverPath cover) bucket
        0 0 listed)

/-- The call of `updateEntry`. -/
theorem coverSaved_gathering (bucket : Bucket) (hcount : 0 < l.initialImageCount)
    (hne : l.entryImage ≠ []) :
    coverSaved { l with bucket := bucket, entryCoverURL := some ⟨l.coverPath⟩ } =
      some (l.gathering bucket [], imageUploads l l.nextList l.entryImage 0) := by
  rw [coverSaved, if_pos hcount, if_neg hne, updateEntry]
  refine congrArg some (Prod.ext rfl ?_)
  apply imageUploads_congr
  exact fun _ => rfl

/-- The code for a URL that arrives. -/
theorem imageSaved_gathering (bucket : Bucket) (listed : List (String × String))
    (o : String × String) :
    imageSaved l.nextList ⟨o.1⟩ (l.gathering bucket listed) =
      (l.gathering bucket (listed ++ [o]),
        if listed.length + 1 = l.entryImage.length then
          [.write (.updateEntry l.entryID (l.gathering bucket (listed ++ [o])).merge)
            (some .entryUpdated)]
        else []) := by
  have hlocal : ({ l.gathering bucket listed with
      entryInfoImages := (l.gathering bucket listed).entryInfoImages ++ [⟨o.1⟩]
      tempEntryList := Function.update (l.gathering bucket listed).tempEntryList l.nextList
        ((l.gathering bucket listed).tempEntryList l.nextList + 1) } : EditEntry) =
      l.gathering bucket (listed ++ [o]) := by
    simp [gathering]
  simp only [imageSaved, hlocal]
  simp [gathering]

/-- One answer. -/
theorem Progress.answer {cover : String} {photos : List String}
    (himages : l.entryImage = photos.map .ofData) (hne : photos ≠ [])
    (hcount : 0 < l.initialImageCount) (h : Progress db l cover photos x)
    (hs : Answer program x x') : Progress db l cover photos x' := by
  cases hs with
  | @intro k a rest r hb hr =>
    change react k true a x.loc x.store = some r at hr
    cases h with
    | cover hstore hloc hbag =>
      obtain ⟨rfl, rfl⟩ := (Multiset.singleton_eq_cons_iff _).mp (hbag.symm.trans hb)
      cases hr
      refine .coverURL hstore ?_ ?_
      · simp [Program.after, hloc]
      · simp [Program.after]
    | coverURL hstore hloc hbag =>
      obtain ⟨rfl, rfl⟩ := (Multiset.singleton_eq_cons_iff _).mp (hbag.symm.trans hb)
      have hany : l.entryImage ≠ [] := by simpa [himages] using hne
      have hstart := Uploads.start (l.photoObjects 0 photos) (l.bucket.insert l.coverPath cover)
      have hcode : react (.coverURL l.coverPath) true a x.loc x.store =
          some (l.gathering (l.bucket.insert l.coverPath cover) [],
            imageUploads l l.nextList (photos.map .ofData) 0) := by
        rw [hloc, ← himages]
        exact coverSaved_gathering _ hcount hany
      obtain rfl := Option.some.inj (hr.symm.trans hcode)
      refine .photos ?_ rfl ?_ hstart (List.length_pos_of_ne_nil hne)
      · simp [Program.after, program, imageUploads_effect, hstore]
      · simp [Program.after, callbacks_imageUploads]
    | @photos bucket storing waiting listed hstore hloc hbag huploads hmore =>
      rw [hbag] at hb
      rcases take_add hb with ⟨rest, htake, rfl⟩ | ⟨rest, htake, rfl⟩
      · -- a photo is stored
        obtain ⟨o, storing, rfl, rfl, rfl⟩ := take_map htake
        cases hr
        refine .photos hstore ?_ ?_ (huploads.store (nodup_photoObjects l 0 photos)) hmore
        · rw [hloc]
          rfl
        · simp only [Program.after, callbacks_request, callbacks_nil, Multiset.map_cons,
            Multiset.add_cons, add_zero]
      · -- a URL arrives
        obtain ⟨o, waiting, rfl, rfl, rfl⟩ := take_map htake
        have hlist := huploads.list
        have hcode : react (.imageURL l.nextList o.1) true a x.loc x.store =
            some (imageSaved l.nextList ⟨o.1⟩ (l.gathering bucket listed)) := by
          rw [hloc]
          rfl
        rw [hcode, imageSaved_gathering, himages, List.length_map, Option.some.injEq] at hr
        split at hr
        · rename_i hall
          obtain rfl := hr
          have hlength : (listed ++ [o]).length = (l.photoObjects 0 photos).length := by
            simp [hall]
          obtain ⟨rfl, rfl⟩ := hlist.done hlength
          refine .written ?_ rfl ?_ hlist
          · simp [Program.after, program, hstore]
          · simp [Program.after]
        · rename_i hmore'
          obtain rfl := hr
          refine .photos hstore rfl ?_ hlist ?_
          · simp [Program.after]
          · rw [List.length_append, List.length_singleton]
            omega
    | written hstore hloc hbag huploads =>
      obtain ⟨rfl, rfl⟩ := (Multiset.singleton_eq_cons_iff _).mp (hbag.symm.trans hb)
      cases hr
      refine .popped hstore ?_ rfl huploads
      rw [← hloc]
      rfl
    | popped hstore hloc hbag huploads => exact absurd (hb.symm.trans hbag) Multiset.cons_ne_zero

/-- **A save that stores the form.** -/
theorem saved_of_settles {cover : String} {photos : List String} (hfilled : l.emptyField = false)
    (hcover : l.entryCoverPhoto = some (.ofData cover))
    (himages : l.entryImage = photos.map .ofData) (hcount : 0 < l.initialImageCount)
    (h : Settles program .saveButton db l db' l') :
    ∃ bucket listed, Uploads (l.photoObjects 0 photos) (l.bucket.insert l.coverPath cover) bucket
      0 0 listed ∧
      db' = (Write.updateEntry l.entryID (l.gathering bucket listed).merge).apply db ∧
      l' = { l.gathering bucket listed with popped := true } := by
  have hne : photos ≠ [] := by
    rintro rfl
    have hempty : l.emptyField = true := by simp [emptyField, himages]
    exact Bool.false_ne_true (hfilled.symm.trans hempty)
  have hend : Progress db l cover photos ⟨db', l', 0⟩ := by
    refine h.invariant (fun r hr => ?_) fun x x' hx hs => hx.answer himages hne hcount hs
    have hcode : saveButton l = (l, [.request (.coverUploaded l.coverPath cover)]) := by
      simp [saveButton, hfilled, uploadEntryCoverPhoto, hcover, UIImage.ofData]
    obtain rfl := Option.some.inj (hr.symm.trans (congrArg some hcode))
    refine .cover rfl rfl ?_
    simp [Program.after]
  cases hend with
  | cover hstore hloc hbag => exact absurd hbag.symm (Multiset.singleton_ne_zero _)
  | coverURL hstore hloc hbag => exact absurd hbag.symm (Multiset.singleton_ne_zero _)
  | written hstore hloc hbag huploads => exact absurd hbag.symm (Multiset.singleton_ne_zero _)
  | popped hstore hloc hbag huploads => exact ⟨_, _, huploads, hstore, hloc⟩
  | @photos bucket storing waiting listed hstore hloc hbag huploads hmore =>
    have hcard := congrArg Multiset.card hbag
    have hlength := huploads.length_eq
    simp only [Multiset.card_zero, Multiset.card_add, Multiset.card_map] at hcard
    rw [length_photoObjects] at hlength
    omega

/-- What a save leads to: the entry has the content `c`, its objects are where the edits of the
entry put them, and neither another entry nor another object is changed. -/
structure Saved (uid : Uid) (id : EntryID) (c : Content) (db : Firestore) (bucket : Bucket)
    (db' : Firestore) (bucket' : Bucket) : Prop where
  shows : ∃ d, db'.entries.lookup id = some d ∧ d.Shows bucket' c ∧
    ∀ url ∈ d.photoURLs, EditPath uid id url.path
  edited : Edited id db db'
  objects : ∀ path, ¬ EditPath uid id path → bucket'.lookup path = bucket.lookup path

/-- **A save makes the form the content of the entry.** -/
theorem Filled.save {u : User} {id : EntryID} {bucket : Bucket} (h : Filled u id bucket l f)
    (hcomplete : f.content.Complete) (hd : db.entries.lookup id = some d) (ht : d.tripID.isSome)
    (hs : Settles program .saveButton db l db' l') :
    Saved u.uid id f.content db bucket db' l'.bucket := by
  obtain ⟨bucket', listed, huploads, rfl, rfl⟩ := saved_of_settles
    (h.form.emptyField_iff.mpr hcomplete) h.form.cover h.form.photos h.initialImageCount hs
  obtain rfl := h.entryID
  obtain rfl := h.currentUser
  obtain rfl := h.bucket
  have hkept : ∀ path, (∀ i, path ≠ l.imagesPath i) →
      bucket'.lookup path = (l.bucket.insert l.coverPath f.cover).lookup path := by
    intro path hpath
    refine huploads.kept path fun hmem => ?_
    rw [map_fst_photoObjects] at hmem
    obtain ⟨i, -, hi⟩ := List.mem_map.mp hmem
    exact hpath i hi.symm
  have hcover : bucket'.lookup l.coverPath = some f.cover :=
    (hkept _ fun i => (imagesPath_ne_coverPath l i).symm).trans (AList.lookup_insert _)
  refine ⟨⟨merge (l.gathering bucket' listed) d, ?_, ⟨ht, h.form.entryName, h.form.locationName,
    h.form.description, ⟨⟨l.coverPath⟩, rfl, hcover⟩, ?_⟩, ?_⟩, (Edited.refl _ db).merge _, ?_⟩
  · simp only [Write.apply, Collection.lookup_modify, hd, Option.map_some]
  · have hstored : listed.map (fun o => bucket'.lookup o.1) = listed.map fun o => some o.2 :=
      List.map_congr_left fun o ho => huploads.stored o (by simpa using ho)
    have hdata : (listed.map Prod.snd).Perm f.photos := by
      rw [← map_snd_photoObjects l 0 f.photos]
      exact huploads.listed_perm.map Prod.snd
    have hmedia : (merge (l.gathering bucket' listed) d).mediaList.map
        (fun url => bucket'.lookup url.path) = (listed.map Prod.snd).map some := by
      simp only [merge, gathering, List.map_map]
      exact hstored
    have hsame : (↑((listed.map Prod.snd).map some) : Multiset (Option String)) =
        f.content.photos.map some := by
      rw [← Multiset.map_coe, Multiset.coe_eq_coe.mpr hdata, Draft.content]
    exact (congrArg Multiset.ofList hmedia).trans hsame
  · intro url hurl
    rcases List.mem_append.mp hurl with hurl | hurl
    · obtain rfl : url = ⟨l.coverPath⟩ := by simpa [merge, gathering] using hurl
      exact .inl (coverPath_eq l)
    · obtain ⟨o, ho, rfl⟩ := List.mem_map.mp hurl
      have hname : o.1 ∈ (l.photoObjects 0 f.photos).map Prod.fst :=
        List.mem_map_of_mem (huploads.listed_perm.mem_iff.mp ho)
      rw [map_fst_photoObjects] at hname
      obtain ⟨i, -, hi⟩ := List.mem_map.mp hname
      exact .inr ⟨i, hi.symm.trans (imagesPath_eq l i)⟩
  · intro path hpath
    have hne : path ≠ l.coverPath := fun he => hpath (.inl (he.trans (coverPath_eq l)))
    have hnone : ∀ i, path ≠ l.imagesPath i := fun i he =>
      hpath (.inr ⟨i, he.trans (imagesPath_eq l i)⟩)
    exact (hkept path hnone).trans (AList.lookup_insert_ne hne)

end EditEntry

end Wanderlust
