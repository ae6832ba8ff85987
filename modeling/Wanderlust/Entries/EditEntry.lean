import Wanderlust.Entries.CustomAnnotation

/-!
# The screen that edits an entry

`EditEntryViewController` as `EntryInfoViewController` opens it: the form is filled in from an
entry that exists, and saving it uploads its cover and its images and then updates the document.
The geocoded location is not used here, since neither of the screens that use it is the delegate.

Of a document only what the form shows is changed (`Edited`), however the screen is used.
-/

namespace Wanderlust

open Async

/-- The state of the screen, with the globals and the Storage objects that it uses. -/
structure EditEntry where
  currentUser : User
  entryID : EntryID
  entryNameField : String
  locationNameField : String
  descriptionField : String
  entryCoverPhoto : Option UIImage
  entryCoverURL : Option URL
  entryImage : List UIImage
  entryInfoImages : List URL
  initialImageCount : ℕ
  /-- The number of `tempImages`. -/
  tempImages : ℕ
  /-- The number of elements of each `tempEntryList`. -/
  tempEntryList : ℕ → ℕ
  nextList : ℕ
  bucket : Bucket
  /-- `pictureCheck` is presented. -/
  pictureCheck : Bool
  popped : Bool

namespace EditEntry

inductive Callback
  -- `loadImagesFromEntryInfo`
  | entryFetched
  | coverDownloaded (url : URL)
  | imageDownloaded (url : URL)
  -- `uploadEntryCoverPhoto`
  | coverUploaded (path data : String)
  | coverURL (path : String)
  -- `updateEntry`
  | imageUploaded (list : ℕ) (path data : String)
  | imageURL (list : ℕ) (path : String)
  | entryUpdated
  deriving DecidableEq

inductive Event
  | viewDidLoad
  | editEntryName (text : String)
  | editLocationName (text : String)
  | editDescription (text : String)
  | selectCover (image : UIImage)
  | addPhoto (image : UIImage)
  | deleteImage (index : ℕ)
  | saveButton

abbrev Cmd := Async.Cmd Write Callback
abbrev Handler := Async.Handler EditEntry Write Callback

/-- The screen that `EntryInfoViewController` pushes, with what that shows. -/
def opened (currentUser : User) (entryID : EntryID)
    (initialTitle initialLocation initialDescription : String) (entryInfoImages : List URL)
    (bucket : Bucket) : EditEntry where
  currentUser := currentUser
  entryID := entryID
  entryNameField := initialTitle
  locationNameField := initialLocation
  descriptionField := initialDescription
  entryCoverPhoto := some .entryPlaceholder
  entryCoverURL := none
  entryImage := []
  entryInfoImages := entryInfoImages
  initialImageCount := 0
  tempImages := 0
  tempEntryList := fun _ => 0
  nextList := 0
  bucket := bucket
  pictureCheck := false
  popped := false

/-- The path of the cover: the id is interpolated as an optional. -/
def coverPath (l : EditEntry) : String :=
  "/users/" ++ l.currentUser.uid ++ "/entryCovers/Optional(\"" ++ l.entryID ++ "\")"

/-- The path of an image: not the one that `addEntryToFirestore` uses. -/
def imagesPath (l : EditEntry) (imageNameCounter : ℕ) : String :=
  "/users/" ++ l.currentUser.uid ++ "/" ++ l.entryID ++ "/images" ++ toString imageNameCounter

/-- `loadImagesFromEntryInfo`. -/
def loadImagesFromEntryInfo : Handler := fun l =>
  ({ l with tempImages := 0 },
    .request .entryFetched ::
      l.entryInfoImages.map fun photoUrl => .request (.imageDownloaded photoUrl))

/-- `viewDidLoad`. -/
def viewDidLoad : Handler := fun l =>
  if l.entryInfoImages.length > 0 then
    (loadImagesFromEntryInfo.andThen
      (.modify fun l => { l with initialImageCount := l.entryInfoImages.length })) l
  else (l, [])

/-- The closure of `loadImagesFromEntryInfo` that is given an image. -/
def imageDownloaded (image : UIImage) (l : EditEntry) : EditEntry :=
  let l := { l with
    tempImages := l.tempImages + 1
    entryImage := l.entryImage ++ [image] }
  if l.tempImages = l.entryInfoImages.length then { l with initialImageCount := l.tempImages }
  else l

/-- Whether `saveButton` presents `pictureCheck` instead of saving. -/
def emptyField (l : EditEntry) : Bool :=
  l.entryImage.length = 0 ∨ l.entryNameField = "" ∨ l.locationNameField = "" ∨
    l.descriptionField = "" ∨ l.entryCoverPhoto = some .entryPlaceholder

/-- `uploadEntryCoverPhoto`. -/
def uploadEntryCoverPhoto : Handler := .issue fun l =>
  match l.entryCoverPhoto.bind UIImage.jpegData with
  | none => []
  | some data => [.request (.coverUploaded l.coverPath data)]

/-- `saveButton`. -/
def saveButton : Handler := fun l =>
  if l.emptyField then ({ l with pictureCheck := true }, []) else uploadEntryCoverPhoto l

/-- The uploads of `updateEntry`, until an image that cannot be encoded. -/
def imageUploads (l : EditEntry) (list : ℕ) : List UIImage → ℕ → List Cmd
  | [], _ => []
  | image :: images, imageNameCounter =>
    match image.jpegData with
    | none => []
    | some data =>
      .request (.imageUploaded list (l.imagesPath imageNameCounter) data) ::
        imageUploads l list images (imageNameCounter + 1)

/-- `updateEntry`. -/
def updateEntry : Handler := fun l =>
  ({ l with
      tempEntryList := Function.update l.tempEntryList l.nextList 0
      nextList := l.nextList + 1 },
    imageUploads l l.nextList l.entryImage 0)

/-- The closure that `saveButton` gives to `uploadEntryCoverPhoto`. `updateEntry` traps when no
image is left. -/
def coverSaved (l : EditEntry) : Option (EditEntry × List Cmd) :=
  if l.initialImageCount > 0 then
    if l.entryImage = [] then none else some (updateEntry { l with entryInfoImages := [] })
  else some (l, [])

/-- What `setData` with `merge` writes. -/
def merge (l : EditEntry) (d : EntryDoc) : EntryDoc :=
  { d with
    entryName := l.entryNameField
    locationName := l.locationNameField
    description := l.descriptionField
    coverPhoto := l.entryCoverURL
    mediaList := l.entryInfoImages }

/-- The closure of `updateEntry` that is given a download URL. -/
def imageSaved (list : ℕ) (url : URL) : Handler := fun l =>
  let l := { l with
    entryInfoImages := l.entryInfoImages ++ [url]
    tempEntryList := Function.update l.tempEntryList list (l.tempEntryList list + 1) }
  (l, if l.tempEntryList list = l.entryImage.length then
    [.write (.updateEntry l.entryID l.merge) (some .entryUpdated)] else [])

/-- The code of the closures. -/
def react : Callback → Bool → Unit → EditEntry → Firestore → Option (EditEntry × List Cmd)
  | .entryFetched, ok, _, l, db =>
    match if ok then db.entries.lookup l.entryID else none with
    | none => some (l, [])
    -- `as! String` traps on a document without a cover
    | some d => d.coverPhoto.map fun url =>
      ({ l with entryCoverURL := some url }, [.request (.coverDownloaded url)])
  | .coverDownloaded url, ok, _, l, _ =>
    match if ok then l.bucket.lookup url.path else none with
    | none => some (l, [])
    | some data => some ({ l with entryCoverPhoto := some (.ofData data) }, [])
  | .imageDownloaded url, ok, _, l, _ =>
    match if ok then l.bucket.lookup url.path else none with
    | none => some (l, [])
    | some data => some (imageDownloaded (.ofData data) l, [])
  | .coverUploaded path data, ok, _, l, _ =>
    some (if ok then { l with bucket := l.bucket.insert path data } else l,
      [.request (.coverURL path)])
  | .coverURL path, ok, _, l, _ =>
    if ok then coverSaved { l with entryCoverURL := some ⟨path⟩ } else some (l, [])
  | .imageUploaded list path data, ok, _, l, _ =>
    some (if ok then { l with bucket := l.bucket.insert path data } else l,
      [.request (.imageURL list path)])
  | .imageURL list path, ok, _, l, _ => some (if ok then imageSaved list ⟨path⟩ l else (l, []))
  | .entryUpdated, _, _, l, _ => some ({ l with popped := true }, [])

/-- The code of the user's actions. -/
def event : Event → EditEntry → Firestore → Option (EditEntry × List Cmd)
  | .viewDidLoad, l, _ => some (viewDidLoad l)
  | .editEntryName text, l, _ => some ({ l with entryNameField := text }, [])
  | .editLocationName text, l, _ => some ({ l with locationNameField := text }, [])
  | .editDescription text, l, _ => some ({ l with descriptionField := text }, [])
  | .selectCover image, l, _ => some ({ l with entryCoverPhoto := some image }, [])
  | .addPhoto image, l, _ => some ({ l with entryImage := l.entryImage ++ [image] }, [])
  | .deleteImage index, l, _ =>
    if index < l.entryImage.length then
      some ({ l with entryImage := l.entryImage.eraseIdx index }, [])
    else none
  | .saveButton, l, _ => some (saveButton l)

/-- `EditEntryViewController`. -/
def program : Program Firestore EditEntry Write Callback Unit Event where
  apply := Write.apply
  react := react
  event := event

/-! ## What is edited -/

/-- The documents of an entry before and after it is edited: its place, its author, its trip, its
number and its time are the same. -/
structure Revised (e e' : EntryDoc) : Prop where
  coordinates : e'.coordinates = e.coordinates
  entryOrder : e'.entryOrder = e.entryOrder
  entryID : e'.entryID = e.entryID
  timestamp : e'.timestamp = e.timestamp
  userID : e'.userID = e.userID
  username : e'.username = e.username
  tripID : e'.tripID = e.tripID

/-- The databases before and after the entry `id` is edited. -/
structure Edited (id : EntryID) (db db' : Firestore) : Prop where
  users : db'.users = db.users
  trips : db'.trips = db.trips
  newsfeed : db'.newsfeed = db.newsfeed
  entry : Option.Rel Revised (db.entries.lookup id) (db'.entries.lookup id)
  entries : ∀ id', id' ≠ id → db'.entries.lookup id' = db.entries.lookup id'

variable {id : EntryID} {db db' : Firestore} {l : EditEntry}
  {x x' : Direct Firestore EditEntry Callback}

theorem Revised.refl (e : EntryDoc) : Revised e e := ⟨rfl, rfl, rfl, rfl, rfl, rfl, rfl⟩

theorem Edited.refl (id : EntryID) (db : Firestore) : Edited id db db := by
  refine ⟨rfl, rfl, rfl, ?_, fun _ _ => rfl⟩
  cases db.entries.lookup id with
  | none => exact .none
  | some e => exact .some (.refl e)

/-- Every entry is as it was, or revised. -/
theorem Edited.rel (h : Edited id db db') (id' : EntryID) :
    Option.Rel Revised (db.entries.lookup id') (db'.entries.lookup id') := by
  by_cases hid : id' = id
  · exact hid ▸ h.entry
  · rw [h.entries id' hid]
    cases db.entries.lookup id' with
    | none => exact .none
    | some e => exact .some (.refl e)

theorem Edited.of_some (h : Edited id db db') {id' : EntryID} {e : EntryDoc}
    (he : db.entries.lookup id' = some e) :
    ∃ e', db'.entries.lookup id' = some e' ∧ Revised e e' := by
  have hrel := h.rel id'
  rw [he] at hrel
  generalize db'.entries.lookup id' = o at hrel
  cases hrel with
  | some hr => exact ⟨_, rfl, hr⟩

theorem Edited.some_of (h : Edited id db db') {id' : EntryID} {e' : EntryDoc}
    (he' : db'.entries.lookup id' = some e') :
    ∃ e, db.entries.lookup id' = some e ∧ Revised e e' := by
  have hrel := h.rel id'
  rw [he'] at hrel
  generalize db.entries.lookup id' = o at hrel
  cases hrel with
  | some hr => exact ⟨_, rfl, hr⟩

/-- The write that `imageSaved` issues. -/
theorem Edited.merge (h : Edited id db db') (l : EditEntry) :
    Edited id db ((Write.updateEntry id l.merge).apply db') := by
  refine ⟨h.users, h.trips, h.newsfeed, ?_, fun id' hid => ?_⟩
  · simp only [Write.apply, Collection.lookup_modify]
    have hrel := h.entry
    generalize db.entries.lookup id = o at hrel ⊢
    generalize db'.entries.lookup id = o' at hrel ⊢
    cases hrel with
    | none => exact .none
    | some hr => exact .some ⟨hr.1, hr.2, hr.3, hr.4, hr.5, hr.6, hr.7⟩
  · rw [← h.entries id' hid]
    exact Collection.lookup_modify_ne hid _ _

theorem imageUploads_effect (l : EditEntry) (list : ℕ) (images : List UIImage) (n : ℕ)
    (db : Firestore) : effect Write.apply (imageUploads l list images n) db = db := by
  induction images generalizing n with
  | nil => rfl
  | cons image images ih =>
    simp only [imageUploads]
    split
    · rfl
    · exact ih (n + 1)

/-- The document is written when the last image of a list has been stored, and only then. -/
theorem store_step {m : Async.Move Callback Unit Event} (hs : DirectStep program x m x') :
    x'.loc.entryID = x.loc.entryID ∧ (x'.store = x.store ∨ ∃ list path a l,
      m = .deliver (.imageURL list path) true a ∧
      x.loc.tempEntryList list + 1 = x.loc.entryImage.length ∧
      l.locationNameField = x.loc.locationNameField ∧
      x'.store = (Write.updateEntry x.loc.entryID (merge l)).apply x.store) := by
  cases hs with
  | @event e r he =>
    change event e x.loc x.store = some r at he
    change r.1.entryID = x.loc.entryID ∧ (effect Write.apply r.2 x.store = x.store ∨ _)
    cases e with
    | viewDidLoad =>
      simp only [event, viewDidLoad] at he
      split at he <;> cases he
      · exact ⟨rfl, Or.inl (by simp [loadImagesFromEntryInfo])⟩
      · exact ⟨rfl, Or.inl rfl⟩
    | saveButton =>
      simp only [event, saveButton, uploadEntryCoverPhoto, Handler.issue_apply] at he
      split at he <;> cases he
      · exact ⟨rfl, Or.inl rfl⟩
      · refine ⟨rfl, Or.inl ?_⟩
        dsimp only
        split <;> rfl
    | deleteImage index =>
      simp only [event] at he
      split at he <;> cases he
      exact ⟨rfl, Or.inl rfl⟩
    | _ =>
      cases he
      exact ⟨rfl, Or.inl rfl⟩
  | @deliver k ok a rest r hb hr =>
    change react k ok a x.loc x.store = some r at hr
    change r.1.entryID = x.loc.entryID ∧ (effect Write.apply r.2 x.store = x.store ∨ _)
    cases k with
    | entryFetched =>
      simp only [react] at hr
      split at hr
      · cases hr
        exact ⟨rfl, Or.inl rfl⟩
      · obtain ⟨url, -, rfl⟩ := Option.map_eq_some_iff.mp hr
        exact ⟨rfl, Or.inl rfl⟩
    | coverDownloaded url =>
      simp only [react] at hr
      split at hr <;> cases hr <;> exact ⟨rfl, Or.inl rfl⟩
    | imageDownloaded url =>
      simp only [react, imageDownloaded] at hr
      split at hr <;> cases hr
      · exact ⟨rfl, Or.inl rfl⟩
      · split <;> exact ⟨rfl, Or.inl rfl⟩
    | coverUploaded path data =>
      cases hr
      exact ⟨by dsimp only; split <;> rfl, Or.inl rfl⟩
    | coverURL path =>
      simp only [react, coverSaved] at hr
      split at hr
      · split at hr
        · split at hr <;> cases hr
          exact ⟨rfl, Or.inl (imageUploads_effect _ _ _ _ _)⟩
        · cases hr
          exact ⟨rfl, Or.inl rfl⟩
      · cases hr
        exact ⟨rfl, Or.inl rfl⟩
    | imageUploaded list path data =>
      cases hr
      exact ⟨by dsimp only; split <;> rfl, Or.inl rfl⟩
    | imageURL list path =>
      simp only [react, Option.some.injEq] at hr
      split at hr <;> subst hr
      · rename_i hok
        subst hok
        refine ⟨rfl, ?_⟩
        simp only [imageSaved]
        split
        · rename_i hfull
          refine Or.inr ⟨list, path, a, _, rfl, ?_, ?_, rfl⟩
          · simpa using hfull
          · rfl
        · exact Or.inl rfl
      · exact ⟨rfl, Or.inl rfl⟩
    | entryUpdated =>
      cases hr
      exact ⟨rfl, Or.inl rfl⟩

/-- One step edits the entry of the screen. -/
theorem Edited.step (hid : x.loc.entryID = id) (h : Edited id db x.store)
    {m : Async.Move Callback Unit Event} (hs : DirectStep program x m x') :
    x'.loc.entryID = id ∧ Edited id db x'.store := by
  obtain ⟨hid', hstore⟩ := store_step hs
  refine ⟨hid'.trans hid, ?_⟩
  rcases hstore with hsame | ⟨list, path, a, l, -, -, -, hwrite⟩
  · exact hsame ▸ h
  · rw [hwrite, hid]
    exact h.merge l

/-- **However the screen is used**, only its entry is edited. -/
theorem edited_of_reaches {allowed : EditEntry → Firestore → Async.Move Callback Unit Event → Prop}
    {st : State Firestore EditEntry Write Callback}
    (h : Reaches program allowed (start db l) st) (hq : Quiescent st) :
    Edited l.entryID db st.store := by
  have hend := h.invariant (I := fun x => x.loc.entryID = l.entryID ∧ Edited l.entryID db x.store)
    (fun x m x' hx _ hs => Edited.step hx.1 hx.2 hs) ⟨rfl, .refl _ _⟩
  rw [hq.direct] at hend
  exact hend.2

end EditEntry

end Wanderlust
