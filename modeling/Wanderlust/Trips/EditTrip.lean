import Mathlib.Data.List.Sort
import Mathlib.Logic.Function.Basic
import Wanderlust.Entries.CustomAnnotation

/-!
# The screen that edits a trip

`EditTripViewController`, with the reorder screen that it opens and the parts of
`CustomAnnotation` that run for it, as a client of Firestore. Annotations are objects: `entryList`
and the other lists hold references to them, and `heap` says what each is like. Of the variables
with a `didSet` observer that the closures of a save capture, only the number of elements is ever
read; `counts` holds these numbers, one for each time the variable was created.

`Callback` names the closures of the source, `react` is their code and `event` the code that runs
when the user does something. Uploads and downloads act on the Storage objects in `bucket`.
-/

namespace Wanderlust

/-- The state of the screen, with the globals and the Storage objects that it uses. -/
structure EditTrip where
  /-- `user!.uid`, the signed-in user when the view was loaded. -/
  user : Uid
  currentUser : User
  heap : ℕ → CustomAnnotation
  next : ℕ
  entryList : List ℕ
  deleteList : List ℕ
  /-- `tripMapView.annotations`. -/
  annotations : List ℕ
  /-- `entryList` of the reorder screen, while that screen is open. -/
  orderList : Option (List ℕ)
  tripID : Option TripID
  tripName : String
  tripCoverPhoto : Option UIImage
  tripCover : Option URL
  loadedToEdit : Bool
  /-- The argument of `loadEntryData`, once it has been called. -/
  entryIds : Option (List EntryID)
  tempAnnotations : List ℕ
  counts : ℕ → ℕ
  nextCount : ℕ
  bucket : Bucket
  /-- The server time that the next `serverTimestamp()` stands for. -/
  now : Timestamp
  /-- The screen has been popped, or the alert that replaces it is shown. -/
  dismissed : Bool

namespace EditTrip

/-- The closures that wait for an answer, with what they captured. -/
inductive Callback
  -- `loadCoverPhoto`, `loadEntries` and `loadEntryData`
  | coverDocFetched (t : TripID)
  | coverDownloaded (url : URL)
  | tripFetched (t : TripID)
  | entryFetched (id : EntryID)
  | entryCoverDownloaded (r : ℕ) (url : URL)
  | imageDownloaded (r doneCounter : ℕ) (urls : ℕ) (url : URL)
  -- `init` of an annotation
  | usernameFetched (r : ℕ) (uid : Uid)
  -- `deleteEntry`
  | objectDeleted (path : String)
  -- `addEntryToFirestore` and `addToFirebase`
  | imageUploaded (currentIndex press r : ℕ) (path data : String)
  | imageURL (currentIndex press r : ℕ) (path : String)
  | entryWritten (press r : ℕ)
  -- `saveButtonPressed`, `updateTripID`, `updateEntryOrder` and `uploadTripCoverPhoto`
  | userFetched (press : ℕ) (entryIdList : List EntryID)
  | tripUpdated (entryIdList : List EntryID)
  | tripIDUpdated (tempEntryList : ℕ) (entryIdList : List EntryID) (t : TripID)
  | entryOrderUpdated (tempEntryList : ℕ) (entryIdCount : ℕ) (t : TripID)
  | tripCoverUploaded (t : TripID) (path data : String)
  | tripCoverURL (t : TripID) (path : String)
  deriving DecidableEq

/-- What the user does on the screen and on those it opens, and the refresh of `currentUser` by
the listener of the tab bar. The form of `addAnnotation` and `editAnnotation` arrives when the
edit screen has geocoded its location. -/
inductive Event
  | viewDidLoad
  | viewWillAppear
  | addAnnotation (form : EntryForm) (uuid : EntryID)
  | editAnnotation (r : ℕ) (form : EntryForm)
  | deleteAnnotation (r : ℕ)
  | editOrderButtonPressed
  | moveRowAt (source destination : ℕ)
  | orderWillDisappear
  | editTripName (name : String)
  | selectTripCover (image : Option UIImage)
  | saveButtonPressed
  | currentUserFetched

abbrev Cmd := Async.Cmd Write Callback
abbrev Handler := Async.Handler EditTrip Write Callback

/-- The screen before its view is loaded. -/
def opened (currentUser : User) (tripID : Option TripID) (bucket : Bucket) (now : Timestamp) :
    EditTrip where
  user := currentUser.uid
  currentUser := currentUser
  heap := fun _ => default
  next := 0
  entryList := []
  deleteList := []
  annotations := []
  orderList := none
  tripID := tripID
  tripName := ""
  tripCoverPhoto := some .entryPlaceholder
  tripCover := none
  loadedToEdit := false
  entryIds := none
  tempAnnotations := []
  counts := fun _ => 0
  nextCount := 0
  bucket := bucket
  now := now
  dismissed := false

/-- The id of a referenced annotation. -/
abbrev id (l : EditTrip) (r : ℕ) : EntryID := (l.heap r).entryID

/-- The ids on the screen, in order. -/
abbrev ids (l : EditTrip) : List EntryID := l.entryList.map l.id

/-- A new counter. -/
def newCount (l : EditTrip) : EditTrip :=
  { l with counts := Function.update l.counts l.nextCount 0, nextCount := l.nextCount + 1 }

/-- One more element in a counted list. -/
def count (l : EditTrip) (c : ℕ) : EditTrip :=
  { l with counts := Function.update l.counts c (l.counts c + 1) }

/-- Change an annotation. -/
def set (l : EditTrip) (r : ℕ) (a : CustomAnnotation) : EditTrip :=
  { l with heap := Function.update l.heap r a }

@[simp] theorem heap_set_self (l : EditTrip) (r : ℕ) (a : CustomAnnotation) :
    (l.set r a).heap r = a := Function.update_self ..

theorem heap_set_ne {r r' : ℕ} (h : r' ≠ r) (l : EditTrip) (a : CustomAnnotation) :
    (l.set r a).heap r' = l.heap r' := Function.update_of_ne h ..

@[simp] theorem counts_count_self (l : EditTrip) (c : ℕ) :
    (l.count c).counts c = l.counts c + 1 := Function.update_self ..

theorem counts_count_ne {c c' : ℕ} (h : c' ≠ c) (l : EditTrip) :
    (l.count c).counts c' = l.counts c' := Function.update_of_ne h ..

/-- The users whose newsfeeds an entry is written to or deleted from: the followers and the
user. -/
def feeds (l : EditTrip) : List Uid := l.currentUser.followers ++ [l.currentUser.uid]

/-! ## Loading -/

/-- `loadEntryData`. -/
def loadEntryData (entryIds : List EntryID) : Handler := fun l =>
  ({ l with entryIds := some entryIds }, entryIds.map fun id => .request (.entryFetched id))

/-- The closure of `loadEntryData` that is given an entry document: a new annotation, and
downloads of its cover and its images. It traps on a document without a trip or a cover. -/
def entryFetched (id : EntryID) (doc : EntryDoc) : EditTrip → Option (EditTrip × List Cmd) :=
  fun l =>
    match doc.tripID, doc.coverPhoto with
    | some t, some cover =>
      let annotation :=
        { CustomAnnotation.ofEntry id doc with
          numPhotos := doc.mediaList.length
          imageUrls := doc.mediaList
          tripID := some t
          coverPhoto := some cover }
      some ({ (l.newCount.set l.next annotation) with next := l.next + 1 },
        .request (.entryCoverDownloaded l.next cover) :: doc.mediaList.map fun url =>
          .request (.imageDownloaded l.next l.nextCount doc.mediaList.length url))
    | _, _ => none

/-- The annotation that is made of an entry document, and what is asked for. -/
theorem entryFetched_eq_some {id : EntryID} {doc : EntryDoc} {l : EditTrip}
    {r : EditTrip × List Cmd} (h : entryFetched id doc l = some r) : ∃ t cover a,
    doc.tripID = some t ∧ doc.coverPhoto = some cover ∧
      a = { CustomAnnotation.ofEntry id doc with
        numPhotos := doc.mediaList.length
        imageUrls := doc.mediaList
        tripID := some t
        coverPhoto := some cover } ∧
      r = ({ (l.newCount.set l.next a) with next := l.next + 1 },
        .request (.entryCoverDownloaded l.next cover) :: doc.mediaList.map fun url =>
          .request (.imageDownloaded l.next l.nextCount doc.mediaList.length url)) := by
  unfold entryFetched at h
  split at h
  · rename_i t cover ht hcover
    cases h
    exact ⟨t, cover, _, ht, hcover, rfl, rfl⟩
  · cases h

/-- `tempAnnotations.append(annotation)` with its observer: when all entries are there, they are
sorted and shown. -/
def appendAnnotation (r : ℕ) (l : EditTrip) : EditTrip :=
  let temp := l.tempAnnotations ++ [r]
  if l.entryIds.map List.length = some temp.length then
    let sorted := temp.insertionSort fun r r' => (l.heap r).order ≤ (l.heap r').order
    { l with tempAnnotations := sorted, entryList := sorted }
  else { l with tempAnnotations := temp }

/-- The closure of `loadEntryData` that is given an image. -/
def imageDownloaded (r doneCounter urls : ℕ) (image : UIImage) (l : EditTrip) : EditTrip :=
  let a := l.heap r
  let l := (l.set r { a with
    images := a.images ++ [image]
    numPhotos := a.images.length + 1 }).count doneCounter
  if l.counts doneCounter = urls then
    appendAnnotation r { l with annotations := l.annotations ++ [r] }
  else l

/-- Apart from the annotation and its counter, an image changes only lists. -/
theorem imageDownloaded_eq (r doneCounter urls : ℕ) (image : UIImage) (l : EditTrip) :
    ∃ annotations temp list, imageDownloaded r doneCounter urls image l =
      { (l.set r { l.heap r with
          images := (l.heap r).images ++ [image]
          numPhotos := (l.heap r).images.length + 1 }).count doneCounter with
        annotations := annotations, tempAnnotations := temp, entryList := list } := by
  simp only [imageDownloaded, appendAnnotation]
  split
  · split <;> exact ⟨_, _, _, rfl⟩
  · exact ⟨_, _, _, rfl⟩

/-! ## Editing -/

/-- `addAnnotation`. -/
def addAnnotation (form : EntryForm) (uuid : EntryID) : Handler := fun l =>
  ({ (l.set l.next (.ofForm form l.entryList.length uuid)) with
      next := l.next + 1
      annotations := l.annotations ++ [l.next]
      entryList := l.entryList ++ [l.next] },
    [.request (.usernameFetched l.next l.currentUser.uid)])

/-- `deleteAnnotation`: off the map, and off the list if an entry of its id is there. -/
def deleteAnnotation (r : ℕ) (l : EditTrip) : EditTrip :=
  let l := { l with annotations := l.annotations.erase r }
  if l.id r ∈ l.ids then
    { l with
      entryList := l.entryList.eraseP fun e => l.id e = l.id r
      deleteList := l.deleteList ++ [r] }
  else l

/-- `moveRowAt` on the list of the reorder screen. -/
def moveRow (source destination : ℕ) (rows : List ℕ) : Option (List ℕ) :=
  match rows[source]? with
  | none => none
  | some r =>
    let rows := rows.eraseIdx source
    if destination ≤ rows.length then some (rows.insertIdx destination r) else none

/-! ## Saving -/

/-- `updateEntryOrder`. -/
def updateEntryOrder (entryIdList : List EntryID) (newTripId : TripID) : Handler := fun l =>
  (l.newCount, entryIdList.mapIdx fun orderIndex id =>
    .write (.updateEntry id fun d => { d with entryOrder := orderIndex })
      (some (.entryOrderUpdated l.nextCount entryIdList.length newTripId)))

/-- `updateTripID`. -/
def updateTripID (entryIdList : List EntryID) (tripID : TripID) : Handler := fun l =>
  ({ l.newCount with
      heap := fun r =>
        if r ∈ l.entryList then { l.heap r with tripID := some tripID } else l.heap r },
    entryIdList.map fun id =>
      .write (.updateEntry id fun d => { d with tripID := some tripID })
        (some (.tripIDUpdated l.nextCount entryIdList tripID)))

/-- `uploadTripCoverPhoto`. -/
def uploadTripCoverPhoto (tripID : TripID) : Handler := .issue fun l =>
  match l.tripCoverPhoto.bind UIImage.jpegData with
  | none => []
  | some data =>
    [.request (.tripCoverUploaded tripID (tripCoverPath l.currentUser.uid tripID) data)]

/-- The observer in `updateTripInfo`, when its list has grown to `count` elements. -/
def updateTripInfoDidSet (count : ℕ) : Handler := fun l =>
  if count = l.annotations.length then
    match l.tripID with
    | none => (l, [])
    | some t =>
      ((Async.Handler.issue fun l =>
          [.write (.updateTrip t fun d => { d with tripName := l.tripName, entries := l.ids })
            none]).andThen
        ((uploadTripCoverPhoto t).andThen (updateTripID l.ids t))) l
  else (l, [])

/-- `updateTripInfo`. -/
def updateTripInfo : Handler := fun l =>
  Async.Handler.forEach updateTripInfoDidSet (List.range' 1 l.entryList.length) l

/-- `deleteEntry` of an annotation. -/
def deleteEntry (r : ℕ) : Handler := .issue fun l =>
  .write (.deleteEntry (l.id r)) none ::
    (l.feeds.map fun followerUid => .write (.deleteFeed followerUid (l.id r)) none) ++
    (List.range ((l.heap r).numPhotos + 1)).map fun index =>
      .request (.objectDeleted (imagePath l.currentUser.uid (l.id r) index))

/-- `addToFirebase` of an annotation, for a press of the save button. -/
def addToFirebase (press r : ℕ) : Handler := fun l =>
  ({ l with now := l.now + 1 },
    .write (.setEntry (l.id r) ((l.heap r).entryDoc l.currentUser.uid l.now))
        (some (.entryWritten press r)) ::
      l.feeds.map fun followerUid =>
        .write (.setFeed followerUid (l.id r) ⟨l.now, l.currentUser.uid⟩) none)

/-- The uploads of `addEntryToFirestore`, until an image that cannot be encoded. -/
def imageUploads (uid : Uid) (entryID : EntryID) (currentIndex press r : ℕ) :
    List UIImage → ℕ → List Cmd
  | [], _ => []
  | image :: images, imageNameCounter =>
    match image.jpegData with
    | none => []
    | some data =>
      .request (.imageUploaded currentIndex press r (imagePath uid entryID imageNameCounter) data)
        :: imageUploads uid entryID currentIndex press r images (imageNameCounter + 1)

/-- `addEntryToFirestore` of an annotation, for a press of the save button. -/
def addEntryToFirestore (press r : ℕ) : Handler := fun l =>
  if (l.heap r).images.length = 0 then addToFirebase press r l
  else
    (l.newCount.set r { l.heap r with imageUrls := [] },
      imageUploads l.currentUser.uid (l.id r) l.nextCount press r (l.heap r).images 0)

/-- Whether the save button presents `emptyFieldAlert` instead of saving. -/
def emptyField (l : EditTrip) : Bool :=
  l.entryList.length = 0 ∨ l.tripName = "" ∨ l.tripCoverPhoto = some .entryPlaceholder

/-- `saveButtonPressed`. -/
def saveButtonPressed : Handler := fun l =>
  if l.emptyField then (l, [])
  else
    (updateTripInfo.andThen ((Async.Handler.forEach deleteEntry l.deleteList).andThen
      (Async.Handler.forEach (addEntryToFirestore l.nextCount) l.entryList))) l.newCount

/-- The observer of the list of written entries of a press: when as many are written as are on
the screen, the user document is fetched. -/
def entryWritten (press : ℕ) : Handler := fun l =>
  let l := l.count press
  (l, if l.counts press = l.entryList.length then [.request (.userFetched press l.ids)] else [])

/-- The closure that is given the user document, on a screen without a trip: `newTrip` is the
name that `addDocument` chooses. -/
def createTrip (entryIdList : List EntryID) (userData : UserDoc) (newTrip : TripID) : Handler :=
  (Async.Handler.issue fun l =>
      [.write (.addTrip newTrip
          { tripName := l.tripName, coverPhoto := none, userID := l.user, timestamp := l.now,
            entries := entryIdList }) none,
        .write (.updateUser l.user fun d => { d with trips := userData.trips ++ [newTrip] })
          none]).andThen
    ((Async.Handler.modify fun l => { l with now := l.now + 1 }).andThen
      ((updateTripID entryIdList newTrip).andThen
        ((uploadTripCoverPhoto newTrip).andThen
          (.modify fun l => { l with dismissed := true }))))

/-- The closure that is given the user document, on the screen of a trip. -/
def updateTrip (entryIdList : List EntryID) (t : TripID) : Handler := .issue fun l =>
  [.write (.updateTrip t fun d => { d with tripName := l.tripName, entries := entryIdList })
    (some (.tripUpdated entryIdList))]

/-! ## The program -/

/-- The code of the closures. `newTrip` is the name that `addDocument` chooses if the closure
creates a trip. -/
def react : Callback → Bool → TripID → EditTrip → Firestore → Option (EditTrip × List Cmd)
  | .coverDocFetched t, ok, _, l, db =>
    match if ok then db.trips.lookup t else none with
    | none => some (l, [])
    | some d => d.coverPhoto.map fun url => (l, [.request (.coverDownloaded url)])
  | .coverDownloaded url, ok, _, l, _ =>
    match if ok then l.bucket.lookup url.path else none with
    | none => some (l, [])
    | some data => some ({ l with tripCoverPhoto := some (.ofData data) }, [])
  | .tripFetched t, ok, _, l, db =>
    match if ok then db.trips.lookup t else none with
    | none => some (l, [])
    | some d => some (loadEntryData d.entries { l with tripName := d.tripName })
  | .entryFetched id, ok, _, l, db =>
    match if ok then db.entries.lookup id else none with
    | none => some (l, [])
    | some d => entryFetched id d l
  | .entryCoverDownloaded r url, ok, _, l, _ =>
    match if ok then l.bucket.lookup url.path else none with
    | none => some (l, [])
    | some data => some (l.set r { l.heap r with coverPhotoImage := some (.ofData data) }, [])
  | .imageDownloaded r doneCounter urls url, ok, _, l, _ =>
    match if ok then l.bucket.lookup url.path else none with
    | none => some (l, [])
    | some data => some (imageDownloaded r doneCounter urls (.ofData data) l, [])
  | .usernameFetched r uid, ok, _, l, db =>
    let user := if ok then db.fetchUser uid else none
    some (l.set r { l.heap r with username := user.map fun user => user.username }, [])
  | .objectDeleted path, ok, _, l, _ =>
    some (if ok then { l with bucket := l.bucket.erase path } else l, [])
  | .imageUploaded currentIndex press r path data, ok, _, l, _ =>
    some (if ok then { l with bucket := l.bucket.insert path data } else l,
      [.request (.imageURL currentIndex press r path)])
  | .imageURL currentIndex press r path, ok, _, l, _ =>
    -- without a URL, the `print` before the check of it traps
    if ok then
      let l := (l.set r { l.heap r with imageUrls := (l.heap r).imageUrls ++ [⟨path⟩] }).count
        currentIndex
      some (if l.counts currentIndex = (l.heap r).images.length then addToFirebase press r l
        else (l, []))
    else none
  | .entryWritten press _, ok, _, l, _ => some (if ok then entryWritten press l else (l, []))
  | .userFetched _ entryIdList, ok, newTrip, l, db =>
    match if ok then db.users.lookup l.user else none with
    | none => some (l, [])
    | some userData =>
      match l.tripID with
      | none => some (createTrip entryIdList userData newTrip l)
      | some t => some (updateTrip entryIdList t l)
  | .tripUpdated entryIdList, _, _, l, _ =>
    l.tripID.map fun t =>
      ((uploadTripCoverPhoto t).andThen ((updateTripID entryIdList t).andThen
        (.modify fun l => { l with dismissed := true }))) l
  | .tripIDUpdated tempEntryList entryIdList t, _, _, l, _ =>
    let l := l.count tempEntryList
    some (if l.counts tempEntryList = entryIdList.length then updateEntryOrder entryIdList t l
      else (l, []))
  | .entryOrderUpdated tempEntryList entryIdCount t, _, _, l, _ =>
    let l := l.count tempEntryList
    some (if l.counts tempEntryList = entryIdCount then { l with tripID := some t } else l, [])
  | .tripCoverUploaded t path data, ok, _, l, _ =>
    some (if ok then { l with bucket := l.bucket.insert path data } else l,
      [.request (.tripCoverURL t path)])
  | .tripCoverURL t path, ok, _, l, _ =>
    if ok then
      some ({ l with tripCover := some ⟨path⟩ },
        [.write (.updateTrip t fun d => { d with coverPhoto := some ⟨path⟩ }) none])
    else some (l, [])

/-- The code of the user's actions. The buttons of the screen can be pressed while it is the one
in front, the rows of the reorder screen moved while that one is. -/
def event : Event → EditTrip → Firestore → Option (EditTrip × List Cmd)
  | .viewDidLoad, l, _ => some (l, l.tripID.toList.map fun t => .request (.coverDocFetched t))
  | .viewWillAppear, l, _ =>
    if l.loadedToEdit then some (l, [])
    else
      match l.tripID with
      | none => some (l, [])
      | some t => some ({ l with loadedToEdit := true }, [.request (.tripFetched t)])
  | Event.addAnnotation form uuid, l, _ => some (EditTrip.addAnnotation form uuid l)
  | Event.editAnnotation r form, l, _ =>
    if r < l.next then some (l.set r ((l.heap r).edit form), []) else none
  | Event.deleteAnnotation r, l, _ =>
    if r ∈ l.annotations ∧ l.orderList = none ∧ l.dismissed = false then
      some (EditTrip.deleteAnnotation r l, [])
    else none
  | .editOrderButtonPressed, l, _ =>
    if l.orderList = none ∧ l.dismissed = false then
      some ({ l with orderList := some l.entryList }, [])
    else none
  | .moveRowAt source destination, l, _ =>
    (l.orderList.bind (moveRow source destination)).map fun rows =>
      ({ l with orderList := some rows }, [])
  | .orderWillDisappear, l, _ =>
    l.orderList.map fun rows => ({ l with orderList := none, entryList := rows }, [])
  | .editTripName name, l, _ => some ({ l with tripName := name }, [])
  | .selectTripCover image, l, _ => some ({ l with tripCoverPhoto := image }, [])
  | .saveButtonPressed, l, _ =>
    if l.orderList = none ∧ l.dismissed = false then some (saveButtonPressed l) else none
  | .currentUserFetched, l, db =>
    match db.fetchUser l.user with
    | none => some (l, [])
    | some user => some ({ l with currentUser := user }, [])

/-- `EditTripViewController`. -/
def program : Async.Program Firestore EditTrip Write Callback TripID Event where
  apply := Write.apply
  react := react
  event := event

end EditTrip

end Wanderlust
