import Mathlib.Data.Rat.Defs
import Wanderlust.Foundations.Async
import Wanderlust.Foundations.Collection
import Wanderlust.Foundations.Newest

/-!
# The documents

The Firestore collections that the app keeps, the writes it makes to them, and its reads. Every
field of `users`, `trips`, `entries` and `newsfeed` documents that the app writes is here; a field
that can be missing or `null` is an `Option`.

Images are their pixels, with what `jpegData` makes of them, and a download URL is known by the
Storage object that it was made for.
-/

namespace Wanderlust

abbrev Uid := String
abbrev TripID := String
abbrev EntryID := String

/-- Server timestamps. -/
abbrev Timestamp := ℕ

structure GeoPoint where
  latitude : ℚ
  longitude : ℚ
  deriving DecidableEq

/-- The download URL of a Storage object. -/
structure URL where
  path : String
  deriving DecidableEq

structure UIImage where
  pixels : String
  /-- `jpegData(compressionQuality:)`, which can fail. -/
  jpegData : Option String
  deriving DecidableEq

/-- `UIImage(named: "entryPlaceholder")`: what a cover is before one is chosen. -/
def UIImage.entryPlaceholder : UIImage := ⟨"entryPlaceholder", some "entryPlaceholder"⟩

/-- `UIImage(data:)` of an object's data. -/
def UIImage.ofData (data : String) : UIImage := ⟨data, some data⟩

/-- A document `users/<uid>`. -/
structure UserDoc where
  username : String
  followers : List Uid
  following : List Uid
  requests : List Uid
  bio : String
  /-- The field `public`. -/
  publicUser : Bool
  trips : List TripID
  photoUrl : Option URL
  favorites : Option (List TripID)
  deriving DecidableEq

/-- A fetched user: the document and its name. -/
structure User extends UserDoc where
  uid : Uid
  deriving DecidableEq

/-- A document `trips/<t>`. It has no cover until one has been uploaded. -/
structure TripDoc where
  tripName : String
  coverPhoto : Option URL
  userID : Uid
  timestamp : Timestamp
  entries : List EntryID
  deriving DecidableEq

/-- A document `entries/<id>`. -/
structure EntryDoc where
  coordinates : GeoPoint
  coverPhoto : Option URL
  description : String
  entryName : String
  entryOrder : ℕ
  entryID : EntryID
  locationName : String
  timestamp : Timestamp
  userID : Uid
  username : Option String
  tripID : Option TripID
  mediaList : List URL
  deriving DecidableEq

/-- A document `users/<u>/newsfeed/<id>`. -/
structure FeedDoc where
  timestamp : Timestamp
  userID : Uid
  deriving DecidableEq

/-- The database. -/
structure Firestore where
  users : Collection Uid UserDoc
  trips : Collection TripID TripDoc
  entries : Collection EntryID EntryDoc
  newsfeed : Collection (Uid × EntryID) FeedDoc

/-- The objects of Firebase Storage, by their path. -/
abbrev Bucket := Collection String String

/-- The writes that the app makes. `updateData` of a missing document fails and changes nothing.
`setData` with `merge` then makes a document of the fields that it sets, which is not one of those
that there are here: it has not got the other fields. -/
inductive Write
  | setUser (uid : Uid) (doc : UserDoc)
  | updateUser (uid : Uid) (f : UserDoc → UserDoc)
  | addTrip (t : TripID) (doc : TripDoc)
  | updateTrip (t : TripID) (f : TripDoc → TripDoc)
  | deleteTrip (t : TripID)
  | setEntry (id : EntryID) (doc : EntryDoc)
  | updateEntry (id : EntryID) (f : EntryDoc → EntryDoc)
  | deleteEntry (id : EntryID)
  | setFeed (u : Uid) (id : EntryID) (doc : FeedDoc)
  | deleteFeed (u : Uid) (id : EntryID)

/-- A write taking effect. -/
@[simp] def Write.apply : Write → Firestore → Firestore
  | .setUser uid doc, db => { db with users := db.users.insert uid doc }
  | .updateUser uid f, db => { db with users := db.users.modify uid f }
  | .addTrip t doc, db => { db with trips := db.trips.insert t doc }
  | .updateTrip t f, db => { db with trips := db.trips.modify t f }
  | .deleteTrip t, db => { db with trips := db.trips.erase t }
  | .setEntry id doc, db => { db with entries := db.entries.insert id doc }
  | .updateEntry id f, db => { db with entries := db.entries.modify id f }
  | .deleteEntry id, db => { db with entries := db.entries.erase id }
  | .setFeed u id doc, db => { db with newsfeed := db.newsfeed.insert (u, id) doc }
  | .deleteFeed u id, db => { db with newsfeed := db.newsfeed.erase (u, id) }

section

variable {K α : Type*} (uid : α → Uid) (id : α → EntryID)

/-- Writing a list of newsfeed documents. -/
theorem effect_setFeed (doc : α → FeedDoc) (xs : List α) (db : Firestore) :
    Async.effect Write.apply
        (xs.map fun x => (Async.Cmd.write (.setFeed (uid x) (id x) (doc x)) none : Async.Cmd _ K))
        db =
      { db with newsfeed :=
          xs.foldl (fun c x => c.insert (uid x, id x) (doc x)) db.newsfeed } := by
  induction xs generalizing db with
  | nil => rfl
  | cons x xs ih => simp [ih]

/-- Deleting a list of newsfeed documents. -/
theorem effect_deleteFeed (xs : List α) (db : Firestore) :
    Async.effect Write.apply
        (xs.map fun x => (Async.Cmd.write (.deleteFeed (uid x) (id x)) none : Async.Cmd _ K)) db =
      { db with newsfeed :=
          (xs.map fun x => (uid x, id x)).foldl (fun c k => c.erase k) db.newsfeed } := by
  induction xs generalizing db with
  | nil => rfl
  | cons x xs ih => simp [ih]

end

namespace Firestore

variable (db : Firestore)

/-- An empty database. -/
def empty : Firestore := ⟨∅, ∅, ∅, ∅⟩

/-- The user that `fetchUser` calls back with. -/
def fetchUser (uid : Uid) : Option User := (db.users.lookup uid).map fun d => { d with uid := uid }

/-- The entries of a user, newest first, at most `limit`: the query by which a newsfeed is filled
when somebody is followed or accepted. -/
def latestEntries (limit : ℕ) (uid : Uid) : List (EntryID × EntryDoc) :=
  newest (fun e => e.2.timestamp) limit (db.entries.docs.filter fun e => e.2.userID = uid)

/-- The documents of `u`'s newsfeed that name `uid` as their author. -/
def feedItems (u uid : Uid) : List EntryID :=
  (db.newsfeed.docs.filter fun e => e.1.1 = u ∧ e.2.userID = uid).map fun e => e.1.2

/-- The entries of a list are there, and numbered in its order. -/
def Numbered (ids : List EntryID) : Prop :=
  ∀ i id, ids[i]? = some id → ∃ e, db.entries.lookup id = some e ∧ e.entryOrder = i

variable {db}

theorem fetchUser_eq_some {uid : Uid} {user : User} (h : db.fetchUser uid = some user) :
    user.uid = uid ∧ db.users.lookup uid = some user.toUserDoc := by
  obtain ⟨d, hd, rfl⟩ := Option.map_eq_some_iff.mp h
  exact ⟨rfl, hd⟩

theorem mem_feedItems {u uid : Uid} {id : EntryID} :
    id ∈ db.feedItems u uid ↔ ∃ d, db.newsfeed.lookup (u, id) = some d ∧ d.userID = uid := by
  simp only [feedItems, List.mem_map, List.mem_filter, decide_eq_true_eq]
  constructor
  · rintro ⟨⟨⟨u', id'⟩, d⟩, ⟨hm, rfl, hd⟩, rfl⟩
    exact ⟨d, Collection.mem_docs.mp hm, hd⟩
  · rintro ⟨d, hd, he⟩
    exact ⟨((u, id), d), ⟨Collection.mem_docs.mpr hd, rfl, he⟩, rfl⟩

theorem of_mem_latestEntries {n : ℕ} {uid : Uid} {e : EntryID × EntryDoc}
    (h : e ∈ db.latestEntries n uid) : db.entries.lookup e.1 = some e.2 ∧ e.2.userID = uid := by
  have := mem_of_mem_newest h
  simp only [List.mem_filter, decide_eq_true_eq] at this
  exact ⟨Collection.mem_docs.mp this.1, this.2⟩

end Firestore

/-- An entry in a trip of Ann, with a cover. -/
def sampleEntryDoc (id : EntryID) : EntryDoc where
  coordinates := ⟨0, 0⟩
  coverPhoto := some ⟨"cover"⟩
  description := ""
  entryName := id
  entryOrder := 0
  entryID := id
  locationName := ""
  timestamp := 0
  userID := "ann"
  username := some "ann"
  tripID := some "t"
  mediaList := []

end Wanderlust
