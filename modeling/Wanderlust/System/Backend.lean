import Wanderlust.Entries.EditEntry
import Wanderlust.Profile.FollowersList
import Wanderlust.Profile.FollowingList
import Wanderlust.Profile.ProfilePage
import Wanderlust.Trips.SavedTrip

/-!
# The app as a whole

Users of the app act on one database, one after the other: an action is a use of one of the
screens, opened with up-to-date copies of the documents, until all that it started is done
(`Step`). Each of these is a run of the program of the screen, with its answers in any order.

`effect_of_step` says for each action what it does to the database. The invariants of the whole
are proved from this alone.
-/

namespace Wanderlust

open Async

/-- The database, the Storage objects, and the server time that the next `serverTimestamp()`
stands for. -/
structure Backend where
  store : Firestore
  bucket : Bucket
  now : Timestamp

/-- Nobody has signed up. -/
def Backend.empty : Backend := ⟨Firestore.empty, ∅, 0⟩

/-- What a user can do. `saveTrip` comes with the edit screen as it is when the save button is
pressed. -/
inductive Action
  | signUp (uid : Uid) (username : String)
  | followButtonPressed (a b : Uid)
  | unfollow (a : Uid) (followingRow : ℕ)
  | acceptRequest (a : Uid) (requestRow : ℕ)
  | denyRequest (a : Uid) (requestRow : ℕ)
  | switchToggled (a : Uid) (isOn : Bool)
  | saveTrip (a : Uid) (screen : EditTrip)
  | editEntry (a : Uid) (id : EntryID)
  | deleteTrip (a : Uid) (t : TripID)

/-- An action from beginning to end. -/
inductive Step : Backend → Action → Backend → Prop
  /-- An account gets a new uid. -/
  | signUp {s : Backend} {uid : Uid} {username : String} (hnew : s.store.users.lookup uid = none) :
    Step s (.signUp uid username)
      { s with store := (addUserToFirestore uid (newUser username)).apply s.store }
  /-- The button on the page of another user. -/
  | followButtonPressed {s : Backend} {me other : User} {l l' : ProfilePage} {db : Firestore}
    (hne : me.uid ≠ other.uid) (hme : s.store.fetchUser me.uid = some me)
    (hother : s.store.fetchUser other.uid = some other) (hcur : l.currentUser = me)
    (huid : l.otherUserUid = some other.uid) (hl : l.otherUser = some other)
    (h : Completes ProfilePage.program ProfilePage.settling .followButtonPressed s.store l db l') :
    Step s (.followButtonPressed me.uid other.uid) { s with store := db }
  /-- The button in the list of followed users. -/
  | unfollow {s : Backend} {me : User} {uid : Uid} {followingRow : ℕ} {l' : FollowingList}
    {db : Firestore} (hme : s.store.fetchUser me.uid = some me)
    (hrow : me.following[followingRow]? = some uid)
    (h : Completes FollowingList.program FollowingList.settling (.unfollow followingRow) s.store
      (FollowingList.opened me.uid me none) db l') :
    Step s (.unfollow me.uid followingRow) { s with store := db }
  | acceptRequest {s : Backend} {me : User} {uid : Uid} {requestRow : ℕ} {l' : FollowersList}
    {db : Firestore} (hme : s.store.fetchUser me.uid = some me)
    (hrow : me.requests[requestRow]? = some uid)
    (h : Completes FollowersList.program FollowersList.settling (.acceptRequest requestRow) s.store
      (FollowersList.opened me none) db l') :
    Step s (.acceptRequest me.uid requestRow) { s with store := db }
  | denyRequest {s : Backend} {me : User} {uid : Uid} {requestRow : ℕ} {l' : FollowersList}
    {db : Firestore} (hme : s.store.fetchUser me.uid = some me)
    (hrow : me.requests[requestRow]? = some uid)
    (h : Completes FollowersList.program FollowersList.settling (.denyRequest requestRow) s.store
      (FollowersList.opened me none) db l') :
    Step s (.denyRequest me.uid requestRow) { s with store := db }
  | switchToggled {s : Backend} {me : User} {isOn : Bool}
    (hme : s.store.fetchUser me.uid = some me) :
    Step s (.switchToggled me.uid isOn) { s with store := (switchToggled me isOn).apply s.store }
  /-- The edit screen of a new trip, or of a trip of the user, which is saved when all of the trip
  has been loaded. -/
  | saveTrip {s : Backend} {me : User} {tripID : Option TripID}
    {edits : List (Label TripID EditTrip.Event)}
    {st₀ st₁ st₂ : State Firestore EditTrip Write EditTrip.Callback}
    (hme : s.store.fetchUser me.uid = some me)
    (howner : ∀ t d, tripID = some t → s.store.trips.lookup t = some d → d.userID = me.uid)
    (hedit : Trace EditTrip.program EditTrip.editing
      (start s.store (EditTrip.opened me tripID s.bucket s.now)) edits st₀)
    (hready : st₀.loc.Editable) (hfields : st₀.loc.emptyField = false)
    (hpress : EditTrip.program.step (.event .saveButtonPressed) st₀ = some st₁)
    (hrun : Reaches EditTrip.program EditTrip.settling st₁ st₂) (hq : Quiescent st₂) :
    Step s (.saveTrip me.uid st₀.loc) ⟨st₂.store, st₂.loc.bucket, st₂.loc.now⟩
  /-- The edit screen of an entry, used in any way. -/
  | editEntry {s : Backend} {me : User} {id : EntryID} {title location description : String}
    {images : List URL} {st : State Firestore EditEntry Write EditEntry.Callback}
    (hme : s.store.fetchUser me.uid = some me)
    (hrun : Reaches EditEntry.program (fun _ _ _ => True)
      (start s.store (EditEntry.opened me id title location description images s.bucket)) st)
    (hq : Quiescent st) :
    Step s (.editEntry me.uid id) { s with store := st.store, bucket := st.loc.bucket }
  /-- The deletion of a trip by its owner. -/
  | deleteTrip {s : Backend} {me : User} {t : TripID} {d : TripDoc} {l l' : TripInfo}
    {db : Firestore} (hme : s.store.fetchUser me.uid = some me)
    (ht : s.store.trips.lookup t = some d) (howner : d.userID = me.uid) (hl : l.tripId = t)
    (huser : l.user = me.uid) (hcur : l.currentUser = me) (hbucket : l.bucket = s.bucket)
    (h : Completes TripInfo.program TripInfo.deleting .deleteConfirmed s.store l db l') :
    Step s (.deleteTrip me.uid t) { s with store := db, bucket := l'.bucket }

/-- What an action has done to the database. -/
inductive Effect (s s' : Backend) : Action → Prop
  | signedUp {uid : Uid} {username : String} (hnew : s.store.users.lookup uid = none)
    (h : s'.store = { s.store with users := s.store.users.insert uid (newUser username) })
    (hnow : s'.now = s.now) : Effect s s' (.signUp uid username)
  | linked {a b : Uid} {d e : UserDoc} (hne : a ≠ b) (ha : s.store.users.lookup a = some d)
    (hb : s.store.users.lookup b = some e) (hnot : b ∉ d.following) (hpublic : e.publicUser = true)
    (h : Firestore.Social (link a b) (s.store.filled a b) s.store s'.store)
    (hnow : s'.now = s.now) : Effect s s' (.followButtonPressed a b)
  | asked {a b : Uid} {d e : UserDoc} (hne : a ≠ b) (ha : s.store.users.lookup a = some d)
    (hb : s.store.users.lookup b = some e) (hnot : b ∉ d.following)
    (hprivate : e.publicUser = false)
    (h : Firestore.Social (ask a b) s.store.newsfeed s.store s'.store) (hnow : s'.now = s.now) :
    Effect s s' (.followButtonPressed a b)
  | unlinked {a b : Uid} {d : UserDoc} (hne : a ≠ b) (ha : s.store.users.lookup a = some d)
    (hfollowing : b ∈ d.following)
    (h : Firestore.Social (unlink a b) (s.store.emptied a b) s.store s'.store)
    (hnow : s'.now = s.now) : Effect s s' (.followButtonPressed a b)
  | unlisted {a b : Uid} {d : UserDoc} {followingRow : ℕ} (ha : s.store.users.lookup a = some d)
    (hrow : d.following[followingRow]? = some b)
    (h : Firestore.Social (unlink a b) s.store.newsfeed s.store s'.store) (hnow : s'.now = s.now) :
    Effect s s' (.unfollow a followingRow)
  | accepted {a b : Uid} {d : UserDoc} {requestRow : ℕ} (ha : s.store.users.lookup a = some d)
    (hrow : d.requests[requestRow]? = some b)
    (h : Firestore.Social (fun u e => dismiss b a u (link b a u e)) (s.store.filled b a) s.store
      s'.store) (hnow : s'.now = s.now) : Effect s s' (.acceptRequest a requestRow)
  | denied {a b : Uid} {d : UserDoc} {requestRow : ℕ} (ha : s.store.users.lookup a = some d)
    (hrow : d.requests[requestRow]? = some b)
    (h : Firestore.Social (dismiss b a) s.store.newsfeed s.store s'.store) (hnow : s'.now = s.now) :
    Effect s s' (.denyRequest a requestRow)
  | toggled {a : Uid} {isOn : Bool}
    (h : Firestore.Social (fun u d => if u = a then { d with publicUser := !isOn } else d)
      s.store.newsfeed s.store s'.store) (hnow : s'.now = s.now) :
    Effect s s' (.switchToggled a isOn)
  | saved {a : Uid} {d : UserDoc} {t : TripID} {screen : EditTrip}
    (ha : s.store.users.lookup a = some d) (huser : screen.user = a)
    (h : screen.Resaved (d.followers ++ [a]) t s.store s'.store)
    (hnow : s.store.Stamped s.now → s.store.Stamped screen.now ∧ s'.store.Stamped s'.now) :
    Effect s s' (.saveTrip a screen)
  | edited {a : Uid} {id : EntryID} (h : EditEntry.Edited id s.store s'.store)
    (hnow : s'.now = s.now) : Effect s s' (.editEntry a id)
  | kept {a : Uid} {d : TripDoc} {t : TripID} (ht : s.store.trips.lookup t = some d)
    (hcover : d.coverPhoto = none) (h : s'.store = s.store) (hnow : s'.now = s.now) :
    Effect s s' (.deleteTrip a t)
  | deleted {me : User} {d : TripDoc} {t : TripID}
    (ha : s.store.users.lookup me.uid = some me.toUserDoc) (ht : s.store.trips.lookup t = some d)
    (howner : d.userID = me.uid) (hcover : d.coverPhoto ≠ none)
    (h : TripInfo.Deleted t d me s.store ∅ s'.store) (hnow : s'.now = s.now) :
    Effect s s' (.deleteTrip me.uid t)

/-- **What each action does**, on a database whose trips list no entry twice. -/
theorem effect_of_step {s s' : Backend} {act : Action} (h : Step s act s')
    (hnd : ∀ t d, s.store.trips.lookup t = some d → d.entries.Nodup) : Effect s s' act := by
  cases h with
  | signUp hnew => exact .signedUp hnew rfl rfl
  | @followButtonPressed me other l l' db hne hme hother hcur huid hl h =>
    have ha := (Firestore.fetchUser_eq_some hme).2
    have hb := (Firestore.fetchUser_eq_some hother).2
    have hs := ProfilePage.social_of_completes hme hother hcur huid hl h
    simp only [ProfilePage.change, ProfilePage.feed] at hs
    by_cases hf : other.uid ∈ me.following
    · rw [if_pos hf, if_pos hf] at hs
      exact .unlinked hne ha hf hs rfl
    · rw [if_neg hf, if_neg hf] at hs
      cases hp : other.publicUser with
      | true =>
        simp only [hp, if_true] at hs
        exact .linked hne ha hb hf hp hs rfl
      | false =>
        simp only [hp, Bool.false_eq_true, if_false] at hs
        exact .asked hne ha hb hf hp hs rfl
  | unfollow hme hrow h =>
    exact .unlisted (Firestore.fetchUser_eq_some hme).2 hrow
      (FollowingList.social_of_completes hme rfl hrow h) rfl
  | acceptRequest hme hrow h =>
    exact .accepted (Firestore.fetchUser_eq_some hme).2 hrow
      (FollowersList.social_of_accept hme rfl hrow h) rfl
  | denyRequest hme hrow h =>
    exact .denied (Firestore.fetchUser_eq_some hme).2 hrow
      (FollowersList.social_of_deny hme rfl hrow h) rfl
  | switchToggled hme => exact .toggled (Firestore.social_updateUser _ _ _) rfl
  | @saveTrip me tripID edits st₀ st₁ st₂ hme howner hedit hready hfields hpress hrun hq =>
    have hnd' : ∀ t d, tripID = some t → s.store.trips.lookup t = some d → d.entries.Nodup :=
      fun t d _ => hnd t d
    obtain ⟨huser, t, hs⟩ :=
      EditTrip.resaved_of_trace hme hnd' howner hedit hready hfields hpress hrun hq
    exact .saved (Firestore.fetchUser_eq_some hme).2 huser hs
      (EditTrip.stamped_of_trace hnd' hedit hpress hrun hq)
  | editEntry hme hrun hq => exact .edited (EditEntry.edited_of_reaches hrun hq) rfl
  | deleteTrip hme ht howner hl huser hcur _ h =>
    rcases TripInfo.deleted_of_completes hme ht hl huser hcur h with ⟨hcover, hs⟩ | ⟨hcover, hs⟩
    · exact .kept ht hcover hs rfl
    · exact .deleted (Firestore.fetchUser_eq_some hme).2 ht howner hcover hs rfl

end Wanderlust
