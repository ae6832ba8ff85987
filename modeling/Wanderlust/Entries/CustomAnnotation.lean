import Wanderlust.Models.Firestore

/-!
# Annotations

`CustomAnnotation`, the object by which an entry is shown and edited on a map: how it is made from
a fetched entry or from the edit form, what the edit form changes in it, and the `entries`
document that is written from it.
-/

namespace Wanderlust

/-- The part of an annotation that the app reads from and writes to an entry. -/
structure CustomAnnotation where
  images : List UIImage
  imageUrls : List URL
  locationName : String
  coordinate : GeoPoint
  title : String
  text : String
  coverPhotoImage : Option UIImage
  coverPhoto : Option URL
  username : Option String
  entryID : EntryID
  tripID : Option TripID
  order : ℕ
  numPhotos : ℕ
  deriving DecidableEq

/-- What the edit form hands over when it is saved. -/
structure EntryForm where
  location : GeoPoint
  title : String
  text : String
  images : List UIImage
  locationName : String
  coverPhotoURL : URL
  coverPhotoImage : UIImage
  deriving DecidableEq

namespace CustomAnnotation

instance : Inhabited CustomAnnotation :=
  ⟨⟨[], [], "", ⟨0, 0⟩, "", "", none, none, none, "", none, 0, 0⟩⟩

/-- `init(entry:)`. -/
def ofEntry (id : EntryID) (entry : EntryDoc) : CustomAnnotation where
  images := []
  imageUrls := []
  locationName := entry.locationName
  coordinate := entry.coordinates
  title := entry.entryName
  text := entry.description
  coverPhotoImage := none
  coverPhoto := entry.coverPhoto
  username := none
  entryID := id
  tripID := none
  order := entry.entryOrder
  numPhotos := 0

/-- `init(image:locationName:coordinate:title:text:order:)` and the cover that `addAnnotation`
sets. The observer of `images` does not run in an initializer, so `numPhotos` stays 0. -/
def ofForm (form : EntryForm) (order : ℕ) (uuid : EntryID) : CustomAnnotation where
  images := form.images
  imageUrls := []
  locationName := form.locationName
  coordinate := form.location
  title := form.title
  text := form.text
  coverPhotoImage := some form.coverPhotoImage
  coverPhoto := some form.coverPhotoURL
  username := some ""
  entryID := uuid
  tripID := none
  order := order
  numPhotos := 0

/-- What saving the edit form does to an annotation that exists. -/
def edit (a : CustomAnnotation) (form : EntryForm) : CustomAnnotation :=
  { a with
    coordinate := form.location
    title := form.title
    text := form.text
    images := form.images
    numPhotos := form.images.length
    locationName := form.locationName
    coverPhoto := some form.coverPhotoURL
    coverPhotoImage := some form.coverPhotoImage }

/-- What the user sees of an annotation and can edit, with its id and its place. -/
def content (a : CustomAnnotation) : CustomAnnotation :=
  { a with imageUrls := [], coverPhotoImage := none, username := none, tripID := none }

/-- What is shown of an annotation on the screen of its trip. -/
def shown (a : CustomAnnotation) : CustomAnnotation :=
  { a.content with images := [], order := 0, numPhotos := 0 }

/-- The document that `addToFirebase` writes. -/
def entryDoc (a : CustomAnnotation) (uid : Uid) (now : Timestamp) : EntryDoc where
  coordinates := a.coordinate
  coverPhoto := a.coverPhoto
  description := a.text
  entryName := a.title
  entryOrder := a.order
  entryID := a.entryID
  locationName := a.locationName
  timestamp := now
  userID := uid
  username := a.username
  tripID := a.tripID
  mediaList := a.imageUrls

variable {a b : CustomAnnotation}

theorem entryID_eq_of_content (h : a.content = b.content) : a.entryID = b.entryID := by
  have := congrArg CustomAnnotation.entryID h
  exact this

theorem images_eq_of_content (h : a.content = b.content) : a.images = b.images := by
  have := congrArg CustomAnnotation.images h
  exact this

theorem numPhotos_eq_of_content (h : a.content = b.content) : a.numPhotos = b.numPhotos := by
  have := congrArg CustomAnnotation.numPhotos h
  exact this

end CustomAnnotation

/-- `e` is the document of an annotation, apart from what a save relinks and what depends on the
uploads. -/
structure EntryDoc.IsOf (e : EntryDoc) (a : CustomAnnotation) (uid : Uid) : Prop where
  userID : e.userID = uid
  entryID : e.entryID = a.entryID
  coordinates : e.coordinates = a.coordinate
  coverPhoto : e.coverPhoto = a.coverPhoto
  description : e.description = a.text
  entryName : e.entryName = a.title
  locationName : e.locationName = a.locationName

theorem CustomAnnotation.isOf_entryDoc {a b : CustomAnnotation} (h : a.content = b.content)
    (uid : Uid) (now : Timestamp) : (a.entryDoc uid now).IsOf b uid := by
  unfold CustomAnnotation.content at h
  have h := CustomAnnotation.mk.inj h
  constructor <;> simp [h, CustomAnnotation.entryDoc]

/-- The document of an annotation shows the annotation. -/
theorem EntryDoc.IsOf.shown_ofEntry {e : EntryDoc} {a : CustomAnnotation} {uid : Uid}
    (h : e.IsOf a uid) : (.ofEntry a.entryID e : CustomAnnotation).shown = a.shown := by
  simp [h.coordinates, h.coverPhoto, h.description, h.entryName, h.locationName,
    CustomAnnotation.shown, CustomAnnotation.content, CustomAnnotation.ofEntry]

/-- The Storage path of an image of an entry. -/
def imagePath (uid : Uid) (entryID : EntryID) (index : ℕ) : String :=
  "/users/" ++ uid ++ "/" ++ entryID ++ "/image" ++ toString index

/-- The Storage path of the cover of a trip. -/
def tripCoverPath (uid : Uid) (tripID : TripID) : String :=
  "/users/" ++ uid ++ "/tripCovers/" ++ tripID

end Wanderlust
