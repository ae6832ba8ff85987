import Wanderlust.Models.Firestore

/-!
# Users

What the app does to `users` documents outside its screens: the document of a new user, and the
functions that overwrite one of a user's lists.

Following and unfollowing change the documents of users and fill or empty a newsfeed, and leave
trips and entries alone; `Firestore.Social` says so. What becomes of the documents is `link`,
`unlink`, `ask` and `dismiss`, and what becomes of the newsfeeds `filled` and `emptied`.
-/

namespace Wanderlust

open Async

/-- The document that signing up writes. -/
def newUser (username : String) : UserDoc where
  username := username
  followers := []
  following := []
  requests := []
  bio := "Set up Bio!"
  publicUser := false
  trips := []
  photoUrl := none
  favorites := some []

/-- `addUserToFirestore`, for the account `uid` that has been created. -/
def addUserToFirestore (uid : Uid) (newUser : UserDoc) : Write := .setUser uid newUser

def modifyFollowers (newFollowersList : List Uid) (user : User) : Write :=
  .updateUser user.uid fun d => { d with followers := newFollowersList }

def modifyFollowing (newFollowingList : List Uid) (user : User) : Write :=
  .updateUser user.uid fun d => { d with following := newFollowingList }

def modifyRequests (newRequestsList : List Uid) (user : User) : Write :=
  .updateUser user.uid fun d => { d with requests := newRequestsList }

/-- `unfollowUser`. -/
def unfollowUser {K : Type*} (currentUser : User) (oldFollowingList : List Uid)
    (unfollowedUser : User) : List (Cmd Write K) :=
  [.write (modifyFollowing (oldFollowingList.filter fun u => u ≠ unfollowedUser.uid) currentUser)
      none,
    .write (modifyFollowers (unfollowedUser.followers.filter fun u => u ≠ currentUser.uid)
      unfollowedUser) none]

/-- `addToUsersFavorites`. -/
def addToUsersFavorites (tripId : TripID) (currentUser : User) : Write :=
  .updateUser currentUser.uid fun d =>
    { d with favorites := some (currentUser.favorites.getD [] ++ [tripId]) }

/-- `removeFromUsersFavorites`, which traps if the trip is not among the favorites. -/
def removeFromUsersFavorites (tripId : TripID) (currentUser : User) : Option Write :=
  let newFavoriteList := currentUser.favorites.getD []
  if tripId ∈ newFavoriteList then
    some (.updateUser currentUser.uid fun d =>
      { d with favorites := some (newFavoriteList.erase tripId) })
  else none

theorem of_removeFromUsersFavorites {tripId : TripID} {currentUser : User} {w : Write}
    (h : removeFromUsersFavorites tripId currentUser = some w) :
    tripId ∈ currentUser.favorites.getD [] ∧ w = .updateUser currentUser.uid fun d =>
      { d with favorites := some ((currentUser.favorites.getD []).erase tripId) } := by
  simp only [removeFromUsersFavorites] at h
  split at h <;> cases h
  rename_i hmem
  exact ⟨hmem, rfl⟩

/-- `switchToggled` of the cell that makes an account private. -/
def switchToggled (currentUser : User) (isOn : Bool) : Write :=
  .updateUser currentUser.uid fun d => { d with publicUser := !isOn }

/-- The newsfeed documents that are written for the entries of a query, with `uid` as their
author. -/
def backfill {K : Type*} (reader uid : Uid) (entries : List (EntryID × EntryDoc)) :
    List (Cmd Write K) :=
  entries.map fun e => .write (.setFeed reader e.2.entryID ⟨e.2.timestamp, uid⟩) none

/-! ## What becomes of the documents -/

/-- `a` follows `b`. -/
def link (a b u : Uid) (d : UserDoc) : UserDoc :=
  { d with
    following := if u = a then d.following ++ [b] else d.following
    followers := if u = b then d.followers ++ [a] else d.followers }

/-- `a` no longer follows `b`. -/
def unlink (a b u : Uid) (d : UserDoc) : UserDoc :=
  { d with
    following := if u = a then d.following.filter fun v => v ≠ b else d.following
    followers := if u = b then d.followers.filter fun v => v ≠ a else d.followers }

/-- `a` asks to follow `b`. -/
def ask (a b u : Uid) (d : UserDoc) : UserDoc :=
  { d with requests := if u = b ∧ a ∉ d.requests then d.requests ++ [a] else d.requests }

/-- `b` removes what `a` asked for. -/
def dismiss (a b u : Uid) (d : UserDoc) : UserDoc :=
  { d with requests := if u = b then d.requests.filter fun v => v ≠ a else d.requests }

namespace Firestore

/-- The newsfeeds when that of `reader` has been filled with the latest entries of `author`. -/
def filled (db : Firestore) (reader author : Uid) : Collection (Uid × EntryID) FeedDoc :=
  (db.latestEntries 20 author).foldl
    (fun c e => c.insert (reader, e.2.entryID) ⟨e.2.timestamp, author⟩) db.newsfeed

/-- The newsfeeds when what names `author` has been deleted from that of `reader`. -/
def emptied (db : Firestore) (reader author : Uid) : Collection (Uid × EntryID) FeedDoc :=
  ((db.feedItems reader author).map fun id => (reader, id)).foldl (fun c k => c.erase k) db.newsfeed

/-- The databases before and after an operation on users: `f u` is what becomes of the document of
`u`, and `feed` what becomes of the newsfeeds. -/
structure Social (f : Uid → UserDoc → UserDoc) (feed : Collection (Uid × EntryID) FeedDoc)
    (db db' : Firestore) : Prop where
  users : ∀ u, db'.users.lookup u = (db.users.lookup u).map (f u)
  newsfeed : db'.newsfeed = feed
  trips : db'.trips = db.trips
  entries : db'.entries = db.entries

variable {db db' db'' : Firestore} {f f' : Uid → UserDoc → UserDoc}
  {feed feed' : Collection (Uid × EntryID) FeedDoc} {reader author : Uid}

theorem Social.trans (h : Social f feed db db') (h' : Social f' feed' db' db'') :
    Social (fun u d => f' u (f u d)) feed' db db'' where
  users u := by rw [h'.users, h.users, Option.map_map]; rfl
  newsfeed := h'.newsfeed
  trips := h'.trips.trans h.trips
  entries := h'.entries.trans h.entries

/-- Only what becomes of documents that there are matters. -/
theorem Social.congr (h : Social f feed db db')
    (hf : ∀ u d, db.users.lookup u = some d → f u d = f' u d) : Social f' feed db db' where
  users u := by
    rw [h.users]
    cases hu : db.users.lookup u with
    | none => rfl
    | some d => simp [hf u d hu]
  newsfeed := h.newsfeed
  trips := h.trips
  entries := h.entries

/-- The newsfeeds are written to. -/
theorem Social.setNewsfeed (h : Social f feed db db')
    (feed' : Collection (Uid × EntryID) FeedDoc) :
    Social f feed' db { db' with newsfeed := feed' } :=
  ⟨h.users, rfl, h.trips, h.entries⟩

/-- A change of one user's document. -/
theorem social_updateUser (uid : Uid) (f : UserDoc → UserDoc) (db : Firestore) :
    Social (fun u d => if u = uid then f d else d) db.newsfeed db
      ((Write.updateUser uid f).apply db) where
  users u := by
    simp only [Write.apply, Collection.lookup_modify_eq]
    by_cases hu : u = uid
    · subst hu
      simp
    · simp [hu]
  newsfeed := rfl
  trips := rfl
  entries := rfl

/-- Filling a newsfeed writes documents of the author, and of nobody else. -/
theorem lookup_filled (db : Firestore) (reader author u : Uid) (id : EntryID) :
    (db.filled reader author).lookup (u, id) = db.newsfeed.lookup (u, id) ∨
      u = reader ∧ ∃ e ∈ db.latestEntries 20 author, e.2.entryID = id ∧
        (db.filled reader author).lookup (u, id) = some ⟨e.2.timestamp, author⟩ := by
  rcases Collection.lookup_foldl_insert (fun e : EntryID × EntryDoc => (reader, e.2.entryID))
    (fun e => (⟨e.2.timestamp, author⟩ : FeedDoc)) (db.latestEntries 20 author) db.newsfeed (u, id)
    with h | ⟨e, he, hk, h⟩
  · exact Or.inl h
  · obtain ⟨rfl, rfl⟩ := Prod.mk.inj hk
    exact Or.inr ⟨rfl, e, he, rfl, h⟩

/-- The latest entries of the author are there. -/
theorem lookup_filled_of_mem {e : EntryID × EntryDoc} (he : e ∈ db.latestEntries 20 author)
    (reader : Uid) : ∃ e' ∈ db.latestEntries 20 author, e'.2.entryID = e.2.entryID ∧
      (db.filled reader author).lookup (reader, e.2.entryID) =
        some ⟨e'.2.timestamp, author⟩ := by
  obtain ⟨e', he', hk, h⟩ := Collection.lookup_foldl_insert_of_mem
    (fun e : EntryID × EntryDoc => (reader, e.2.entryID))
    (fun e => (⟨e.2.timestamp, author⟩ : FeedDoc)) _ db.newsfeed he
  exact ⟨e', he', (Prod.mk.inj hk).2, h⟩

/-- Emptying a newsfeed deletes what names the author. -/
theorem lookup_emptied (db : Firestore) (reader author u : Uid) (id : EntryID) :
    (db.emptied reader author).lookup (u, id) =
      if u = reader ∧ id ∈ db.feedItems reader author then none
      else db.newsfeed.lookup (u, id) := by
  have hmem : (u, id) ∈ (db.feedItems reader author).map (fun id => (reader, id)) ↔
      u = reader ∧ id ∈ db.feedItems reader author := by
    simp only [List.mem_map, Prod.mk.injEq]
    constructor
    · rintro ⟨id', hid, rfl, rfl⟩
      exact ⟨rfl, hid⟩
    · rintro ⟨rfl, hid⟩
      exact ⟨id, hid, rfl, rfl⟩
  rw [emptied, Collection.lookup_foldl_erase]
  simp only [hmem]

end Firestore

section

variable {K : Type*} {db : Firestore}

open Firestore

theorem effect_backfill (reader uid : Uid) (entries : List (EntryID × EntryDoc))
    (db : Firestore) : effect Write.apply (backfill reader uid entries : List (Cmd Write K)) db =
      { db with
        newsfeed :=
          entries.foldl (fun c e => c.insert (reader, e.2.entryID) ⟨e.2.timestamp, uid⟩)
            db.newsfeed } :=
  effect_setFeed _ _ _ _ _

theorem callbacks_backfill (reader uid : Uid) (entries : List (EntryID × EntryDoc)) :
    callbacks (backfill reader uid entries : List (Cmd Write K)) = 0 :=
  callbacks_map_write _ _

/-- Nothing is written. -/
theorem Firestore.Social.refl (db : Firestore) : Social (fun _ d => d) db.newsfeed db db :=
  ⟨fun u => by simp, rfl, rfl, rfl⟩

/-- A request is written, with a copy of the user that is up to date. -/
theorem social_ask {other : User} (hother : db.fetchUser other.uid = some other) (uid : Uid) :
    Social (ask uid other.uid) db.newsfeed db (effect Write.apply
      (if uid ∈ other.requests then []
        else [.write (modifyRequests (other.requests ++ [uid]) other) none] : List (Cmd Write K))
        db) := by
  have hother' := (fetchUser_eq_some hother).2
  have hrequests : ∀ d, db.users.lookup other.uid = some d → other.requests = d.requests :=
    fun d hd => congrArg UserDoc.requests (Option.some.inj (hother'.symm.trans hd))
  split
  · rename_i hmem
    refine (Social.refl db).congr fun u d hd => ?_
    simp only [ask]
    rw [if_neg]
    rintro ⟨rfl, hnot⟩
    exact hnot (hrequests d hd ▸ hmem)
  · rename_i hmem
    refine (social_updateUser other.uid _ db).congr fun u d hd => ?_
    simp only [ask]
    by_cases hu : u = other.uid
    · subst hu
      rw [hrequests d hd] at hmem ⊢
      rw [if_pos rfl, if_pos ⟨rfl, hmem⟩]
    · rw [if_neg hu, if_neg fun h => hu h.1]

/-- Two lists of users are overwritten, with copies of the users that are up to date. -/
theorem social_follows {me other : User} (hme : db.fetchUser me.uid = some me)
    (hother : db.fetchUser other.uid = some other) (following followers : List Uid → List Uid) :
    Social (fun u d =>
        { d with
          following := if u = me.uid then following d.following else d.following
          followers := if u = other.uid then followers d.followers else d.followers })
      db.newsfeed db
      (effect Write.apply
        ([.write (modifyFollowing (following me.following) me) none,
          .write (modifyFollowers (followers other.followers) other) none] : List (Cmd Write K))
        db) := by
  have hme' := (fetchUser_eq_some hme).2
  have hother' := (fetchUser_eq_some hother).2
  refine ((social_updateUser me.uid _ db).trans (social_updateUser other.uid _ _)).congr
    fun u d hd => ?_
  have hfollowing : u = me.uid → me.following = d.following := by
    rintro rfl
    exact congrArg UserDoc.following (Option.some.inj (hme'.symm.trans hd))
  have hfollowers : u = other.uid → other.followers = d.followers := by
    rintro rfl
    exact congrArg UserDoc.followers (Option.some.inj (hother'.symm.trans hd))
  split_ifs with hv hu hu
  · rw [hfollowing hu, hfollowers hv]
  · rw [hfollowers hv]
  · rw [hfollowing hu]
  · rfl

/-- `unfollowUser` with copies of the two users that are up to date. -/
theorem social_unfollowUser {me other : User} (hme : db.fetchUser me.uid = some me)
    (hother : db.fetchUser other.uid = some other) :
    Social (unlink me.uid other.uid) db.newsfeed db
      (effect Write.apply (unfollowUser me me.following other : List (Cmd Write K)) db) :=
  social_follows hme hother (fun vs => vs.filter fun v => v ≠ other.uid)
    fun vs => vs.filter fun v => v ≠ me.uid

theorem callbacks_unfollowUser (me other : User) (following : List Uid) :
    callbacks (unfollowUser me following other : List (Cmd Write K)) = 0 := rfl

end

/-! ## Data for samples -/

/-- Ann, when she has signed up. -/
def sampleAnn : User := { newUser "ann" with uid := "ann" }

/-- Ann with these favorites. -/
def sampleFan (favorites : List TripID) : User := { sampleAnn with favorites := some favorites }

/-- There is one user. -/
def Firestore.ofUser (user : User) : Firestore :=
  { Firestore.empty with users := AList.insert user.uid user.toUserDoc ∅ }

end Wanderlust
