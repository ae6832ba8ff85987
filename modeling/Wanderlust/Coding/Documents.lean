import Wanderlust.Coding.RoundTrip
import Wanderlust.Entries.EditEntry
import Wanderlust.Foundations.Levels
import Wanderlust.Models.User
import Wanderlust.Trips.EditTrip

/-!
# The documents as they are stored

The documents of the database as records of fields are what the rest of the development works
with. Here they are dictionaries, that the app writes as a whole, merges fields into, or sets
fields of, and reads with the decoder.

The same requests are writes on both levels. After any of them, users, trips and entries are read
from the dictionaries as they are in the records (`Represents`). There can be dictionaries without
a record: `setData` with `merge` makes one if there is none. As a user or a trip it cannot be read;
as an entry it can, but then the entry is nowhere: it has no coordinates.
-/

namespace Wanderlust.Coding

open Throwing

/-- What the server makes of a server timestamp, and Storage of a download URL. -/
structure Server where
  serverTimestamp : Wanderlust.Timestamp → Timestamp
  absoluteString : URL → String

/-! ## The structures of the app -/

abbrev string : Ty := .scalar .string

/-- `User`, in the order of its `CodingKeys`. -/
def user : Members :=
  .documentID "uid" (.required "username" string (.required "followers" (.array string)
    (.required "following" (.array string) (.required "requests" (.array string)
      (.required "bio" string (.required "public" (.scalar .bool)
        (.required "trips" (.array string) (.optional "photoUrl" string
          (.optional "favorites" (.array string) .nil)))))))))

/-- `Trip`, whose `tripId` is not coded. -/
def trip : Members :=
  .required "tripName" string (.required "coverPhoto" string (.required "userID" string
    (.optional "timestamp" .timestamp (.optional "entries" (.array string) .nil))))

/-- `Entry`. -/
def entry : Members :=
  .documentID "entryId" (.optional "coverPhoto" string (.optional "description" string
    (.optional "entryName" string (.optional "locationName" string
      (.optional "coordinates" .geoPoint (.optional "entryOrder" (.scalar (.int .int))
        (.optional "mediaList" (.array string) .nil)))))))

section

variable (S : Server)

/-- The user of a document. -/
def userEl (uid : Option Uid) (d : UserDoc) : user.El :=
  (uid, d.username, d.followers, d.following, d.requests, d.bio, d.publicUser, d.trips,
    d.photoUrl.map S.absoluteString, d.favorites, ())

/-- The trip of a document that has a cover. -/
def tripEl (coverPhoto : URL) (d : TripDoc) : trip.El :=
  (d.tripName, S.absoluteString coverPhoto, d.userID, some (S.serverTimestamp d.timestamp),
    some d.entries, ())

/-- The entry of a document. -/
def entryEl (id : EntryID) (d : EntryDoc) (h : IntegerType.value .int d.entryOrder = d.entryOrder) :
    entry.El :=
  (some id, d.coverPhoto.map S.absoluteString, some d.description, some d.entryName,
    some d.locationName, some d.coordinates, some ⟨d.entryOrder, h⟩,
    some (d.mediaList.map S.absoluteString), ())

/-! ## The database -/

abbrev Fields := Dictionary String NSObject

/-- The collections that are read with the decoder. -/
structure Documents where
  users : Collection Uid Fields
  trips : Collection TripID Fields
  entries : Collection EntryID Fields

/-- Some fields of a document are set. -/
def assignAll (fields doc : Fields) : Fields :=
  fields.foldl (fun doc e => Dictionary.set e.1 e.2 doc) doc

/-- What is asked for, of one document. -/
inductive Change
  | setData (fields : Fields)
  /-- `setData` with `merge`. -/
  | merge (fields : Fields)
  | updateData (fields : Fields)
  | delete
  /-- The encoder has thrown. -/
  | failed

def Change.apply (k : String) (docs : Collection String Fields) : Change →
    Collection String Fields
  | .setData fields => docs.insert k fields
  | .merge fields => docs.insert k (assignAll fields ((docs.lookup k).getD []))
  | .updateData fields => docs.modify k (assignAll fields)
  | .delete => docs.erase k
  | .failed => docs

namespace Documents

variable (s : Documents) (k : String) (c : Change)

def changeUser : Documents := { s with users := c.apply k s.users }

def changeTrip : Documents := { s with trips := c.apply k s.trips }

def changeEntry : Documents := { s with entries := c.apply k s.entries }

end Documents

/-- The settings that are in the database. -/
inductive Setting
  | username
  | bio

def Setting.name : Setting → String
  | .username => "Username"
  | .bio => "Bio"

/-- The requests that the app makes. -/
inductive Request
  | addUserToFirestore (uid : Uid) (newUser : UserDoc)
  | modifyFollowers (newFollowersList : List Uid) (user : User)
  | modifyFollowing (newFollowingList : List Uid) (user : User)
  | modifyRequests (newRequestsList : List Uid) (user : User)
  | modifyFavorites (newFavoriteList : List TripID) (currentUser : User)
  | switchToggled (currentUser : User) (isOn : Bool)
  | changeSettingInFirestore (uid : Uid) (setting : Setting) (value : String)
  | pictureCommitted (currentUser : User) (url : URL)
  /-- The list of a user's trips is overwritten, when a trip is made or deleted. -/
  | modifyTrips (trips : List TripID) (uid : Uid)
  /-- `addDocument`. -/
  | createTrip (newTrip : TripID) (tripName : String) (entryIdList : List EntryID) (user : Uid)
      (now : Wanderlust.Timestamp)
  | updateTrip (tripID : TripID) (tripName : String) (entryIdList : List EntryID)
  /-- The cover has been uploaded, for a new trip or another one. -/
  | tripCover (new : Bool) (tripID : TripID) (url : URL)
  | deleteTrip (tripID : TripID)
  | addToFirebase (a : CustomAnnotation) (uid : Uid) (now : Wanderlust.Timestamp)
  /-- From the screen on which an entry is edited. -/
  | updateEntry (screen : EditEntry)
  | updateTripID (id : EntryID) (tripID : TripID)
  | updateEntryOrder (id : EntryID) (orderIndex : ℕ)
  | deleteEntry (id : EntryID)

namespace Request

/-- The write to the records. -/
def write : Request → Write
  | addUserToFirestore uid newUser => Wanderlust.addUserToFirestore uid newUser
  | modifyFollowers newFollowersList user => Wanderlust.modifyFollowers newFollowersList user
  | modifyFollowing newFollowingList user => Wanderlust.modifyFollowing newFollowingList user
  | modifyRequests newRequestsList user => Wanderlust.modifyRequests newRequestsList user
  | modifyFavorites newFavoriteList currentUser =>
    .updateUser currentUser.uid fun d => { d with favorites := some newFavoriteList }
  | switchToggled currentUser isOn => Wanderlust.switchToggled currentUser isOn
  | changeSettingInFirestore uid .username value =>
    .updateUser uid fun d => { d with username := value }
  | changeSettingInFirestore uid .bio value => .updateUser uid fun d => { d with bio := value }
  | pictureCommitted currentUser url =>
    .updateUser currentUser.uid fun d => { d with photoUrl := some url }
  | modifyTrips trips uid => .updateUser uid fun d => { d with trips := trips }
  | createTrip newTrip tripName entryIdList user now =>
    .addTrip newTrip
      { tripName := tripName, coverPhoto := none, userID := user, timestamp := now,
        entries := entryIdList }
  | updateTrip tripID tripName entryIdList =>
    .updateTrip tripID fun d => { d with tripName := tripName, entries := entryIdList }
  | tripCover _ tripID url => .updateTrip tripID fun d => { d with coverPhoto := some url }
  | deleteTrip tripID => .deleteTrip tripID
  | addToFirebase a uid now => .setEntry a.entryID (a.entryDoc uid now)
  | updateEntry screen => .updateEntry screen.entryID screen.merge
  | updateTripID id tripID => .updateEntry id fun d => { d with tripID := some tripID }
  | updateEntryOrder id orderIndex => .updateEntry id fun d => { d with entryOrder := orderIndex }
  | deleteEntry id => .deleteEntry id

/-- A list in a dictionary. -/
def strings (xs : List String) : NSObject := .array (xs.map .string)

/-- An optional value in a dictionary literal: nothing is stored as `null`. -/
def orNull {α : Type} (f : α → NSObject) : Option α → NSObject
  | none => .null
  | some v => f v

/-- What becomes of the documents. -/
def perform (s : Documents) : Request → Documents
  | addUserToFirestore uid newUser =>
    s.changeUser uid
      (match encode "User" ((Ty.struct "User" user).encodable (userEl S none newUser)) with
        | .ok fields => .setData fields
        | .error _ => .failed)
  | modifyFollowers newFollowersList user =>
    s.changeUser user.uid (.updateData [("followers", strings newFollowersList)])
  | modifyFollowing newFollowingList user =>
    s.changeUser user.uid (.updateData [("following", strings newFollowingList)])
  | modifyRequests newRequestsList user =>
    s.changeUser user.uid (.updateData [("requests", strings newRequestsList)])
  | modifyFavorites newFavoriteList currentUser =>
    s.changeUser currentUser.uid (.updateData [("favorites", strings newFavoriteList)])
  | switchToggled currentUser isOn =>
    s.changeUser currentUser.uid (.merge [("public", .bool !isOn)])
  | changeSettingInFirestore uid setting value =>
    s.changeUser uid (.merge [(setting.name.toLower, .string value)])
  | pictureCommitted currentUser url =>
    s.changeUser currentUser.uid (.updateData [("photoUrl", .string (S.absoluteString url))])
  | modifyTrips trips uid =>
    s.changeUser uid (.updateData [("trips", strings trips)])
  | createTrip newTrip tripName entryIdList user now =>
    s.changeTrip newTrip
      (.setData [("tripName", .string tripName), ("entries", strings entryIdList),
        ("userID", .string user), ("timestamp", .timestamp (S.serverTimestamp now))])
  | updateTrip tripID tripName entryIdList =>
    s.changeTrip tripID
      (.updateData [("tripName", .string tripName), ("entries", strings entryIdList)])
  | tripCover new tripID url =>
    s.changeTrip tripID
      (if new then .merge [("coverPhoto", .string (S.absoluteString url))]
        else .updateData [("coverPhoto", .string (S.absoluteString url))])
  | deleteTrip tripID => s.changeTrip tripID .delete
  | addToFirebase a uid now =>
    s.changeEntry a.entryID
      (.setData [("coordinates", .geoPoint a.coordinate),
        ("coverPhoto", orNull (fun url => .string (S.absoluteString url)) a.coverPhoto),
        ("description", .string a.text), ("entryName", .string a.title),
        ("entryOrder", .number a.order), ("entryID", .string a.entryID),
        ("locationName", .string a.locationName),
        ("timestamp", .timestamp (S.serverTimestamp now)), ("userID", .string uid),
        ("username", orNull .string a.username), ("tripID", orNull .string a.tripID),
        ("mediaList", strings (a.imageUrls.map S.absoluteString))])
  | updateEntry screen =>
    s.changeEntry screen.entryID
      (.merge [("entryName", .string screen.entryNameField),
        ("locationName", .string screen.locationNameField),
        ("description", .string screen.descriptionField),
        ("coverPhoto", orNull (fun url => .string (S.absoluteString url)) screen.entryCoverURL),
        ("mediaList", strings (screen.entryInfoImages.map S.absoluteString))])
  | updateTripID id tripID =>
    s.changeEntry id (.updateData [("tripID", .string tripID)])
  | updateEntryOrder id orderIndex =>
    s.changeEntry id (.updateData [("entryOrder", .number orderIndex)])
  | deleteEntry id => s.changeEntry id .delete

end Request

/-! ## Two levels -/

/-- The document has these fields, and lacks those without a value. -/
def Has (fields : List (String × Option NSObject)) (doc : Fields) : Prop :=
  ∀ e ∈ fields, List.lookup e.1 doc = e.2

/-- The fields of a user document. -/
def userFields (d : UserDoc) : List (String × Option NSObject) :=
  [("uid", none), ("username", some (.string d.username)),
    ("followers", some (Request.strings d.followers)),
    ("following", some (Request.strings d.following)),
    ("requests", some (Request.strings d.requests)), ("bio", some (.string d.bio)),
    ("public", some (.bool d.publicUser)), ("trips", some (Request.strings d.trips)),
    ("photoUrl", d.photoUrl.map fun url => .string (S.absoluteString url)),
    ("favorites", d.favorites.map Request.strings)]

/-- The fields of a trip document. -/
def tripFields (d : TripDoc) : List (String × Option NSObject) :=
  [("tripName", some (.string d.tripName)),
    ("coverPhoto", d.coverPhoto.map fun url => .string (S.absoluteString url)),
    ("userID", some (.string d.userID)),
    ("timestamp", some (.timestamp (S.serverTimestamp d.timestamp))),
    ("entries", some (Request.strings d.entries))]

/-- The fields of an entry document that an `Entry` has. -/
def entryFields (d : EntryDoc) : List (String × Option NSObject) :=
  [("entryId", none),
    ("coverPhoto", some (Request.orNull (fun url => .string (S.absoluteString url)) d.coverPhoto)),
    ("description", some (.string d.description)), ("entryName", some (.string d.entryName)),
    ("locationName", some (.string d.locationName)),
    ("coordinates", some (.geoPoint d.coordinates)),
    ("entryOrder", some (.number d.entryOrder)),
    ("mediaList", some (Request.strings (d.mediaList.map S.absoluteString)))]

/-- One of the fields is set. -/
def setField (fields : List (String × Option NSObject)) (e : String × NSObject) :
    List (String × Option NSObject) :=
  fields.map fun f => if f.1 = e.1 then (f.1, some e.2) else f

theorem Has.set {fields : List (String × Option NSObject)} {doc : Fields} (h : Has fields doc)
    (e : String × NSObject) : Has (setField fields e) (Dictionary.set e.1 e.2 doc) := by
  intro f' hf'
  obtain ⟨f, hf, rfl⟩ := List.mem_map.mp hf'
  rw [Dictionary.lookup_set]
  by_cases he : f.1 = e.1
  · rw [if_pos he, if_pos he]
  · rw [if_neg he, if_neg he]
    exact h f hf

theorem Has.assignAll {fields : List (String × Option NSObject)} {doc : Fields}
    (h : Has fields doc) (es : Fields) : Has (es.foldl setField fields) (assignAll es doc) := by
  induction es generalizing fields doc with
  | nil => exact h
  | cons e es ih => exact ih (h.set e)

/-- The databases agree. A dictionary without a record lacks a field that all records have. -/
structure Represents (db : Firestore) (s : Documents) : Prop where
  users : Levels (fun _ d doc => Has (userFields S d) doc)
    (fun doc => List.lookup "trips" doc = none) db.users s.users
  trips : Levels (fun _ d doc => Has (tripFields S d) doc)
    (fun doc => List.lookup "userID" doc = none) db.trips s.trips
  entries : Levels (fun _ d doc => (d.entryOrder : ℤ) ≤ IntegerType.int.max ∧
    Has (entryFields S d) doc) (fun doc => List.lookup "coordinates" doc = none)
    db.entries s.entries

/-- What the code has made sure of. It reads the trips of a user before it overwrites them, and
numbers entries with an `Int`. -/
def Request.Legal (s : Documents) : Request → Prop
  | modifyTrips _ uid =>
    ∀ doc, s.users.lookup uid = some doc → List.lookup "trips" doc ≠ none
  | addToFirebase a _ _ => (a.order : ℤ) ≤ IntegerType.int.max
  | updateEntryOrder _ orderIndex => (orderIndex : ℤ) ≤ IntegerType.int.max
  | _ => True

/-- Requests that are made one after the other. -/
def Request.performAll (s : Documents) (rs : List Request) : Documents :=
  rs.foldl (fun s r => r.perform S s) s

def Request.writeAll (db : Firestore) (rs : List Request) : Firestore :=
  rs.foldl (fun db r => r.write.apply db) db

def Request.LegalAll : Documents → List Request → Prop
  | _, [] => True
  | s, r :: rs => r.Legal s ∧ LegalAll (r.perform S s) rs

variable {S}

theorem lookup_assignAll_ne {key : String} {es : Fields} (h : ∀ e ∈ es, e.1 ≠ key) (doc : Fields) :
    List.lookup key (assignAll es doc) = List.lookup key doc := by
  induction es generalizing doc with
  | nil => rfl
  | cons e es ih =>
    have hrest := ih (fun e he => h e (List.mem_cons_of_mem _ he)) (Dictionary.set e.1 e.2 doc)
    rw [Dictionary.lookup_set, if_neg (h e List.mem_cons_self).symm] at hrest
    exact hrest

variable {db : Firestore} {s : Documents}

/-- Fields of a user document are set, but not the trips. -/
theorem Represents.updateUser (h : Represents S db s) (uid : Uid) {f : UserDoc → UserDoc}
    {es : Fields} (hf : ∀ d, userFields S (f d) = es.foldl setField (userFields S d))
    (hes : ∀ e ∈ es, e.1 ≠ "trips") :
    Represents S ((Write.updateUser uid f).apply db) (s.changeUser uid (.updateData es)) where
  users := h.users.modify (fun d _ hd => (hf d).symm ▸ hd.assignAll es)
    fun doc _ hdoc => (lookup_assignAll_ne hes doc).trans hdoc
  trips := h.trips
  entries := h.entries

/-- The same, if the document is made where there is none. -/
theorem Represents.mergeUser (h : Represents S db s) (uid : Uid) {f : UserDoc → UserDoc}
    {es : Fields} (hf : ∀ d, userFields S (f d) = es.foldl setField (userFields S d))
    (hes : ∀ e ∈ es, e.1 ≠ "trips") :
    Represents S ((Write.updateUser uid f).apply db) (s.changeUser uid (.merge es)) where
  users := h.users.merge (fun d _ hd => (hf d).symm ▸ hd.assignAll es)
    (fun doc hdoc => (lookup_assignAll_ne hes doc).trans hdoc) (lookup_assignAll_ne hes [])
  trips := h.trips
  entries := h.entries

theorem Represents.updateTrip (h : Represents S db s) (t : TripID) {f : TripDoc → TripDoc}
    {es : Fields} (hf : ∀ d, tripFields S (f d) = es.foldl setField (tripFields S d))
    (hes : ∀ e ∈ es, e.1 ≠ "userID") :
    Represents S ((Write.updateTrip t f).apply db) (s.changeTrip t (.updateData es)) where
  users := h.users
  trips := h.trips.modify (fun d _ hd => (hf d).symm ▸ hd.assignAll es)
    fun doc _ hdoc => (lookup_assignAll_ne hes doc).trans hdoc
  entries := h.entries

theorem Represents.mergeTrip (h : Represents S db s) (t : TripID) {f : TripDoc → TripDoc}
    {es : Fields} (hf : ∀ d, tripFields S (f d) = es.foldl setField (tripFields S d))
    (hes : ∀ e ∈ es, e.1 ≠ "userID") :
    Represents S ((Write.updateTrip t f).apply db) (s.changeTrip t (.merge es)) where
  users := h.users
  trips := h.trips.merge (fun d _ hd => (hf d).symm ▸ hd.assignAll es)
    (fun doc hdoc => (lookup_assignAll_ne hes doc).trans hdoc) (lookup_assignAll_ne hes [])
  entries := h.entries

theorem Represents.updateEntry (h : Represents S db s) (id : EntryID) {f : EntryDoc → EntryDoc}
    {es : Fields} (hf : ∀ d, entryFields S (f d) = es.foldl setField (entryFields S d))
    (horder : ∀ d : EntryDoc, (d.entryOrder : ℤ) ≤ IntegerType.int.max →
      ((f d).entryOrder : ℤ) ≤ IntegerType.int.max) (hes : ∀ e ∈ es, e.1 ≠ "coordinates") :
    Represents S ((Write.updateEntry id f).apply db) (s.changeEntry id (.updateData es)) where
  users := h.users
  trips := h.trips
  entries := h.entries.modify
    (fun d _ hd => ⟨horder d hd.1, (hf d).symm ▸ hd.2.assignAll es⟩)
    fun doc _ hdoc => (lookup_assignAll_ne hes doc).trans hdoc

theorem Represents.mergeEntry (h : Represents S db s) (id : EntryID) {f : EntryDoc → EntryDoc}
    {es : Fields} (hf : ∀ d, entryFields S (f d) = es.foldl setField (entryFields S d))
    (horder : ∀ d : EntryDoc, (f d).entryOrder = d.entryOrder)
    (hes : ∀ e ∈ es, e.1 ≠ "coordinates") :
    Represents S ((Write.updateEntry id f).apply db) (s.changeEntry id (.merge es)) where
  users := h.users
  trips := h.trips
  entries := h.entries.merge
    (fun d _ hd => ⟨horder d ▸ hd.1, (hf d).symm ▸ hd.2.assignAll es⟩)
    (fun doc hdoc => (lookup_assignAll_ne hes doc).trans hdoc) (lookup_assignAll_ne hes [])

/-- The trips of a user document are overwritten, which is not done where there are none. -/
theorem Represents.modifyTrips (h : Represents S db s) (trips : List TripID) (uid : Uid)
    (htrips : ∀ doc, s.users.lookup uid = some doc → List.lookup "trips" doc ≠ none) :
    Represents S ((Request.modifyTrips trips uid).write.apply db)
      ((Request.modifyTrips trips uid).perform S s) where
  users := h.users.modify (fun _ _ hd => hd.assignAll [("trips", Request.strings trips)])
    fun doc hdoc hjunk => absurd hjunk (htrips doc hdoc)
  trips := h.trips
  entries := h.entries

theorem has_newUser (d : UserDoc) :
    Has (userFields S d) (user.fields (userEl S none d) []) := by
  obtain ⟨_, _, _, _, _, _, _, photoUrl, favorites⟩ := d
  cases photoUrl <;> cases favorites <;> simp only [Has, userFields, List.forall_mem_cons] <;>
    exact ⟨rfl, rfl, rfl, rfl, rfl, rfl, rfl, rfl, rfl, rfl, fun _ h => nomatch h⟩

theorem toLower_username : Setting.username.name.toLower = "username" := by decide +kernel

theorem toLower_name_bio : Setting.bio.name.toLower = "bio" := by decide +kernel

/-- Every request does the same on both levels. -/
theorem Represents.perform (h : Represents S db s) (r : Request) (hr : r.Legal s) :
    Represents S (r.write.apply db) (r.perform S s) := by
  cases r with
  | addUserToFirestore uid newUser =>
    refine ⟨?_, h.trips, h.entries⟩
    simp only [Request.perform, encode_eq_fields]
    exact h.users.insert (has_newUser newUser)
  | modifyFollowers newFollowersList user => exact h.updateUser _ (fun _ => rfl) (by simp)
  | modifyFollowing newFollowingList user => exact h.updateUser _ (fun _ => rfl) (by simp)
  | modifyRequests newRequestsList user => exact h.updateUser _ (fun _ => rfl) (by simp)
  | modifyFavorites newFavoriteList currentUser => exact h.updateUser _ (fun _ => rfl) (by simp)
  | switchToggled currentUser isOn => exact h.mergeUser _ (fun _ => rfl) (by simp)
  | changeSettingInFirestore uid setting value =>
    cases setting with
    | username =>
      simp only [Request.perform, toLower_username]
      exact h.mergeUser _ (fun _ => rfl) (by simp)
    | bio =>
      simp only [Request.perform, toLower_name_bio]
      exact h.mergeUser _ (fun _ => rfl) (by simp)
  | pictureCommitted currentUser url => exact h.updateUser _ (fun _ => rfl) (by simp)
  | modifyTrips trips uid => exact h.modifyTrips trips uid hr
  | createTrip newTrip tripName entryIdList user now =>
    refine ⟨h.users, h.trips.insert ?_, h.entries⟩
    simp only [Has, tripFields, List.forall_mem_cons]
    exact ⟨rfl, rfl, rfl, rfl, rfl, fun _ h => nomatch h⟩
  | updateTrip tripID tripName entryIdList => exact h.updateTrip _ (fun _ => rfl) (by simp)
  | tripCover new tripID url =>
    cases new with
    | true => exact h.mergeTrip _ (fun _ => rfl) (by simp)
    | false => exact h.updateTrip _ (fun _ => rfl) (by simp)
  | deleteTrip tripID => exact ⟨h.users, h.trips.erase tripID, h.entries⟩
  | addToFirebase a uid now =>
    refine ⟨h.users, h.trips, h.entries.insert ⟨hr, ?_⟩⟩
    simp only [Has, entryFields, List.forall_mem_cons]
    exact ⟨rfl, rfl, rfl, rfl, rfl, rfl, rfl, rfl, fun _ h => nomatch h⟩
  | updateEntry screen => exact h.mergeEntry _ (fun _ => rfl) (fun _ => rfl) (by simp)
  | updateTripID id tripID => exact h.updateEntry _ (fun _ => rfl) (fun _ hd => hd) (by simp)
  | updateEntryOrder id orderIndex => exact h.updateEntry _ (fun _ => rfl) (fun _ _ => hr) (by simp)
  | deleteEntry id => exact ⟨h.users, h.trips, h.entries.erase id⟩

theorem Represents.performAll (h : Represents S db s) (rs : List Request)
    (hrs : Request.LegalAll S s rs) :
    Represents S (Request.writeAll db rs) (Request.performAll S s rs) := by
  induction rs generalizing db s with
  | nil => exact h
  | cons r rs ih => exact ih (h.perform r hrs.1) hrs.2

/-! ## Reading -/

/-- `data(as:)` of the snapshot of a document. -/
def dataAs (T : String) (members : Members) (collection k : String)
    (docs : Collection String Fields) : Plain DecodingError (Option members.El) :=
  match docs.lookup k with
  | none => .ok none
  | some doc => do return some (← decode (.struct T members) doc (some ⟨collection, k⟩))

namespace Documents

/-- The user that `fetchUser` calls back with. -/
def fetchUser (s : Documents) (uid : Uid) : Option user.El :=
  match dataAs "User" user "users" uid s.users with
  | .ok fetchedUser => fetchedUser
  | .error _ => none

/-- What `fetchTrip` calls back with, if it does. -/
def fetchTrip (s : Documents) (t : TripID) : Option (Option trip.El) :=
  match dataAs "Trip" trip "trips" t s.trips with
  | .ok trip => some trip
  | .error _ => none

/-- What `fetchEntry` calls back with, if it does. -/
def fetchEntry (s : Documents) (id : EntryID) : Option entry.El :=
  match dataAs "Entry" entry "entries" id s.entries with
  | .ok entry => entry
  | .error _ => none

end Documents

section

variable {T collection k : String} {members : Members} {docs : Collection String Fields}
  {doc : Fields}

theorem dataAs_of_lookup {v : members.El} (hdoc : docs.lookup k = some doc)
    (h : members.Stores (some ⟨collection, k⟩) v doc) :
    dataAs T members collection k docs = .ok (some v) := by
  rw [dataAs, hdoc]
  dsimp only
  rw [(decode_eq_ok_iff T members doc _ v).mpr h]
  rfl

theorem stores_of_dataAs {v : members.El} (hdoc : docs.lookup k = some doc)
    (h : dataAs T members collection k docs = .ok (some v)) :
    members.Stores (some ⟨collection, k⟩) v doc := by
  rw [dataAs, hdoc] at h
  obtain ⟨w, hw, hv⟩ := Plain.bind_eq_ok.mp h
  cases hv
  exact (decode_eq_ok_iff T members doc _ v).mp hw

theorem dataAs_ne_ok (hdoc : docs.lookup k = some doc)
    (h : ∀ v, ¬ members.Stores (some ⟨collection, k⟩) v doc) (o : Option members.El) :
    dataAs T members collection k docs ≠ .ok o := by
  rw [dataAs, hdoc]
  dsimp only
  cases hv : decode (.struct T members) doc (some ⟨collection, k⟩) with
  | ok v => exact absurd ((decode_eq_ok_iff T members doc _ v).mp hv) (h v)
  | error error => exact nofun

end

theorem stores_strings (document : Option DocumentReference) (xs : List String) :
    Ty.Stores document (.array string) xs (Request.strings xs) :=
  ⟨_, rfl, List.forall₂_map_right_iff.mpr (List.forall₂_same.mpr fun _ _ => rfl)⟩

theorem Has.stores_user {uid : Uid} {d : UserDoc} {doc : Fields} (h : Has (userFields S d) doc) :
    user.Stores (some ⟨"users", uid⟩) (userEl S (some uid) d) doc := by
  simp only [Has, userFields, List.forall_mem_cons] at h
  obtain ⟨huid, husername, hfollowers, hfollowing, hrequests, hbio, hpublic, htrips, hphoto,
    hfavorites, -⟩ := h
  refine ⟨⟨huid, rfl⟩, ⟨_, husername, rfl⟩, ⟨_, hfollowers, stores_strings _ _⟩,
    ⟨_, hfollowing, stores_strings _ _⟩, ⟨_, hrequests, stores_strings _ _⟩, ⟨_, hbio, rfl⟩,
    ⟨_, hpublic, rfl⟩, ⟨_, htrips, stores_strings _ _⟩, ?_, ?_, trivial⟩
  · obtain ⟨_, _, _, _, _, _, _, photoUrl, _⟩ := d
    cases photoUrl with
    | none => exact .inl hphoto
    | some url => exact ⟨_, hphoto, nofun, rfl⟩
  · obtain ⟨_, _, _, _, _, _, _, _, favorites⟩ := d
    cases favorites with
    | none => exact .inl hfavorites
    | some ts => exact ⟨_, hfavorites, nofun, stores_strings _ _⟩

theorem not_stores_user {document : Option DocumentReference} {v : user.El} {doc : Fields}
    (hdoc : List.lookup "trips" doc = none) : ¬ user.Stores document v doc := by
  rintro ⟨-, -, -, -, -, -, -, ⟨_, htrips, -⟩, -⟩
  rw [hdoc] at htrips
  cases htrips

theorem Has.stores_trip {t : TripID} {d : TripDoc} {url : URL} {doc : Fields}
    (h : Has (tripFields S d) doc) (hcover : d.coverPhoto = some url) :
    trip.Stores (some ⟨"trips", t⟩) (tripEl S url d) doc := by
  simp only [Has, tripFields, List.forall_mem_cons, hcover] at h
  obtain ⟨hname, hphoto, huserID, htimestamp, hentries, -⟩ := h
  exact ⟨⟨_, hname, rfl⟩, ⟨_, hphoto, rfl⟩, ⟨_, huserID, rfl⟩, ⟨_, htimestamp, nofun, .inl rfl⟩,
    ⟨_, hentries, nofun, stores_strings _ _⟩, trivial⟩

theorem not_stores_trip {document : Option DocumentReference} {v : trip.El} {doc : Fields}
    (hdoc : List.lookup "coverPhoto" doc = none ∨ List.lookup "userID" doc = none) :
    ¬ trip.Stores document v doc := by
  rintro ⟨-, ⟨_, hphoto, -⟩, ⟨_, huserID, -⟩, -⟩
  rcases hdoc with hdoc | hdoc
  · rw [hdoc] at hphoto
    cases hphoto
  · rw [hdoc] at huserID
    cases huserID

theorem Has.stores_entry {id : EntryID} {d : EntryDoc} {doc : Fields}
    (h : Has (entryFields S d) doc)
    (horder : IntegerType.value .int d.entryOrder = d.entryOrder) :
    entry.Stores (some ⟨"entries", id⟩) (entryEl S id d horder) doc := by
  simp only [Has, entryFields, List.forall_mem_cons] at h
  obtain ⟨hid, hphoto, hdescription, hname, hlocation, hcoordinates, hentryOrder, hmedia, -⟩ := h
  refine ⟨⟨hid, rfl⟩, ?_, ⟨_, hdescription, nofun, rfl⟩, ⟨_, hname, nofun, rfl⟩,
    ⟨_, hlocation, nofun, rfl⟩, ⟨_, hcoordinates, nofun, .inl rfl⟩, ⟨_, hentryOrder, nofun, rfl⟩,
    ⟨_, hmedia, nofun, stores_strings _ _⟩, trivial⟩
  obtain ⟨_, coverPhoto⟩ := d
  cases coverPhoto with
  | none => exact .inr hphoto
  | some url => exact ⟨_, hphoto, nofun, rfl⟩

/-- Where an entry is. -/
def coordinates (e : entry.El) : Option GeoPoint := e.2.2.2.2.2.1

theorem coordinates_of_stores {document : Option DocumentReference} {e : entry.El} {doc : Fields}
    (h : entry.Stores document e doc) (hdoc : List.lookup "coordinates" doc = none) :
    coordinates e = none := by
  obtain ⟨id, coverPhoto, description, entryName, locationName, coordinates, e⟩ := e
  obtain ⟨-, -, -, -, -, h, -⟩ := h
  cases coordinates with
  | none => rfl
  | some g =>
    obtain ⟨_, hg, -⟩ := h
    rw [hdoc] at hg
    cases hg

variable (S) in
/-- What the app reads from the dictionaries is what there is in the records. -/
structure Agrees (db : Firestore) (s : Documents) : Prop where
  fetchUser : ∀ uid, s.fetchUser uid =
    (db.fetchUser uid).map fun user => userEl S (some user.uid) user.toUserDoc
  /-- A trip is fetched when it has a cover. Nobody is called back if it has none, or if there is
  a dictionary but no record. -/
  fetchTrip : ∀ t, s.fetchTrip t = match db.trips.lookup t with
    | some d => d.coverPhoto.map fun url => some (tripEl S url d)
    | none => if t ∈ s.trips then none else some none
  /-- Where there is no record there can be what is left of an entry that has been edited when it
  was no longer there. -/
  fetchEntry : ∀ id, match db.entries.lookup id with
    | some d => ∃ h, s.fetchEntry id = some (entryEl S id d h)
    | none => ∀ e, s.fetchEntry id = some e → coordinates e = none

theorem Represents.fetchUser (h : Represents S db s) (uid : Uid) : s.fetchUser uid =
    (db.fetchUser uid).map fun user => userEl S (some user.uid) user.toUserDoc := by
  rw [Documents.fetchUser, Firestore.fetchUser]
  rcases h.users.cases uid with ⟨d, doc, hd, hdoc, hhas⟩ | ⟨hd, hjunk⟩
  · rw [dataAs_of_lookup hdoc hhas.stores_user, hd]
    rfl
  · rw [hd]
    cases hdoc : s.users.lookup uid with
    | none => rw [dataAs, hdoc]; rfl
    | some doc =>
      cases hread : dataAs "User" user "users" uid s.users with
      | ok o => exact absurd hread (dataAs_ne_ok hdoc (fun v => not_stores_user (hjunk doc hdoc)) o)
      | error _ => rfl

theorem Represents.fetchTrip (h : Represents S db s) (t : TripID) : s.fetchTrip t =
    match db.trips.lookup t with
    | some d => d.coverPhoto.map fun url => some (tripEl S url d)
    | none => if t ∈ s.trips then none else some none := by
  have hnone : ∀ doc, s.trips.lookup t = some doc →
      List.lookup "coverPhoto" doc = none ∨ List.lookup "userID" doc = none →
      s.fetchTrip t = none := by
    intro doc hdoc hlacks
    rw [Documents.fetchTrip]
    cases hread : dataAs "Trip" trip "trips" t s.trips with
    | ok o => exact absurd hread (dataAs_ne_ok hdoc (fun v => not_stores_trip hlacks) o)
    | error _ => rfl
  rcases h.trips.cases t with ⟨d, doc, hd, hdoc, hhas⟩ | ⟨hd, hjunk⟩
  · rw [hd]
    change _ = d.coverPhoto.map _
    cases hcover : d.coverPhoto with
    | none =>
      refine hnone doc hdoc (.inl ?_)
      have := hhas ("coverPhoto", d.coverPhoto.map fun url => .string (S.absoluteString url))
        (by simp [tripFields])
      rwa [hcover] at this
    | some url =>
      rw [Documents.fetchTrip, dataAs_of_lookup hdoc (hhas.stores_trip hcover)]
      rfl
  · rw [hd]
    cases hdoc : s.trips.lookup t with
    | none =>
      rw [if_neg fun hmem => by simp [← AList.lookup_isSome, hdoc] at hmem, Documents.fetchTrip,
        dataAs, hdoc]
    | some doc =>
      rw [if_pos (AList.lookup_isSome.mp (by rw [hdoc]; rfl))]
      exact hnone doc hdoc (.inr (hjunk doc hdoc))

theorem Represents.fetchEntry (h : Represents S db s) (id : EntryID) :
    match db.entries.lookup id with
    | some d => ∃ h, s.fetchEntry id = some (entryEl S id d h)
    | none => ∀ e, s.fetchEntry id = some e → coordinates e = none := by
  rcases h.entries.cases id with ⟨d, doc, hd, hdoc, horder, hhas⟩ | ⟨hd, hjunk⟩
  · rw [hd]
    have hmin : IntegerType.int.min ≤ (d.entryOrder : ℤ) :=
      le_trans (by decide) (Int.natCast_nonneg d.entryOrder)
    have hvalue := (IntegerType.value_eq_iff .int d.entryOrder).mpr ⟨hmin, horder⟩
    refine ⟨hvalue, ?_⟩
    rw [Documents.fetchEntry, dataAs_of_lookup hdoc (hhas.stores_entry hvalue)]
  · rw [hd]
    intro e he
    rw [Documents.fetchEntry] at he
    cases hdoc : s.entries.lookup id with
    | none =>
      rw [dataAs, hdoc] at he
      cases he
    | some doc =>
      cases hread : dataAs "Entry" entry "entries" id s.entries with
      | error _ =>
        rw [hread] at he
        cases he
      | ok o =>
        rw [hread] at he
        cases he
        exact coordinates_of_stores (stores_of_dataAs hdoc hread) (hjunk doc hdoc)

theorem Represents.empty : Represents S .empty ⟨∅, ∅, ∅⟩ :=
  ⟨.empty _ _, .empty _ _, .empty _ _⟩

/-- However the app has written its documents, with the encoder, as a whole or field by field: it
reads what has been written. -/
theorem agrees_of_performAll (S : Server) (rs : List Request)
    (h : Request.LegalAll S ⟨∅, ∅, ∅⟩ rs) :
    Agrees S (Request.writeAll .empty rs) (Request.performAll S ⟨∅, ∅, ∅⟩ rs) :=
  have hrep := Represents.empty.performAll rs h
  ⟨hrep.fetchUser, hrep.fetchTrip, hrep.fetchEntry⟩

def plainServer : Server := ⟨fun _ => ⟨0, 0, by decide⟩, URL.path⟩

/-- Somebody signs up and makes a trip, whose cover arrives after the trip has been deleted. -/
def sampleRequests : List Request :=
  [.addUserToFirestore "u" (newUser "ann"), .createTrip "t" "Rome" [] "u" 0,
    .modifyTrips ["t"] "u", .deleteTrip "t", .tripCover true "t" ⟨"cover"⟩]

theorem agrees_of_performAll_sample :
    Request.LegalAll plainServer ⟨∅, ∅, ∅⟩ sampleRequests ∧
      Agrees plainServer (Request.writeAll .empty sampleRequests)
        (Request.performAll plainServer ⟨∅, ∅, ∅⟩ sampleRequests) := by
  have h : Request.LegalAll plainServer ⟨∅, ∅, ∅⟩ sampleRequests := by
    refine ⟨trivial, trivial, ?_, trivial, trivial, trivial⟩
    intro doc hdoc
    simp only [Request.perform, encode_eq_fields] at hdoc
    cases Option.some.inj hdoc
    exact nofun
  exact ⟨h, agrees_of_performAll plainServer sampleRequests h⟩

end

end Wanderlust.Coding
