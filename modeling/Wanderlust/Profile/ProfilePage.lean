import Wanderlust.Models.User

/-!
# The profile page

`ProfilePageViewController` on the page of another user, with the button that follows, asks to
follow, or unfollows. The page of the signed-in user has no such button, and the favorites are
not shown here.

`social_of_completes` says what a press of the button comes to when everything it started is done,
for a page whose copies of the two users are up to date.
-/

namespace Wanderlust

open Async

/-- The state of the page, with the cached user. -/
structure ProfilePage where
  currentUser : User
  otherUserUid : Option Uid
  otherUser : Option User
  /-- `selectedTripData`, newest first. -/
  selectedTripData : List TripID
  /-- The title of the follow button, when it is shown. -/
  followButton : Option String
  /-- The trips are hidden behind the label of a private user. -/
  tripsHidden : Bool

namespace ProfilePage

inductive Callback
  -- `viewWillAppear`
  | otherUserFetched (uid : Uid)
  -- `followButtonPressed`
  | entriesFetched (newsfeed uid : Uid)
  | newsfeedFetched (newsfeed uid : Uid)
  -- `fetchUsersInfo`
  | currentUserRefetched (uid : Uid)
  | otherUserRefetched (uid : Uid)
  deriving DecidableEq

/-- What the user does on the page, and the refresh of `currentUser` by a listener. -/
inductive Event
  | viewWillAppear
  | followButtonPressed
  | currentUserFetched

abbrev Cmd := Async.Cmd Write Callback
abbrev Handler := Async.Handler ProfilePage Write Callback

/-- The page before it appears. -/
def opened (currentUser : User) (otherUserUid : Option Uid) : ProfilePage where
  currentUser := currentUser
  otherUserUid := otherUserUid
  otherUser := none
  selectedTripData := []
  followButton := none
  tripsHidden := false

/-- `setUpProfilePage`. -/
def setUpProfilePage (userProfile : User) (l : ProfilePage) : ProfilePage :=
  { l with selectedTripData := userProfile.trips.reverse }

/-- `setFollowButton`. -/
def setFollowButton (otherUserUid : Uid) (otherUser : User) (l : ProfilePage) : ProfilePage :=
  if otherUserUid ∈ l.currentUser.following then { l with followButton := some "Following" }
  else if l.currentUser.uid ∈ otherUser.requests then
    { l with followButton := some "Requested", tripsHidden := true }
  else { l with followButton := some "Follow", tripsHidden := !otherUser.publicUser }

/-- `viewWillAppear`. -/
def viewWillAppear : Handler := fun l =>
  match l.otherUserUid with
  | some otherUserUid =>
    if otherUserUid = l.currentUser.uid then
      (setUpProfilePage l.currentUser { l with otherUserUid := none, followButton := none }, [])
    else (l, [.request (.otherUserFetched otherUserUid)])
  | none => (setUpProfilePage l.currentUser { l with followButton := none }, [])

/-- `fetchUsersInfo`. -/
def fetchUsersInfo : Handler := .issue fun l => [.request (.currentUserRefetched l.currentUser.uid)]

/-- The branch of `followButtonPressed` for a private user. -/
def requestFollow (otherUser : User) : Handler := fun l =>
  ({ l with tripsHidden := true, followButton := some "Requested" },
    if l.currentUser.uid ∈ otherUser.requests then []
    else [.write (modifyRequests (otherUser.requests ++ [l.currentUser.uid]) otherUser) none])

/-- The branch of `followButtonPressed` for a public user. -/
def follow (otherUser : User) : Handler := fun l =>
  ({ l with followButton := some "Following" },
    [.write (modifyFollowing (l.currentUser.following ++ [otherUser.uid]) l.currentUser) none,
      .write (modifyFollowers (otherUser.followers ++ [l.currentUser.uid]) otherUser) none,
      .request (.entriesFetched l.currentUser.uid otherUser.uid)])

/-- The branch of `followButtonPressed` for a user who is followed. -/
def unfollow (otherUser : User) : Handler := fun l =>
  ({ l with
      followButton := some "Follow"
      tripsHidden := l.tripsHidden || !otherUser.publicUser },
    unfollowUser l.currentUser l.currentUser.following otherUser ++
      [.request (.newsfeedFetched l.currentUser.uid otherUser.uid)])

/-- `followButtonPressed`, on the page of `otherUserUid`. -/
def followButtonPressed (otherUserUid : Uid) (otherUser : User) : Handler := fun l =>
  ((if otherUserUid ∉ l.currentUser.following then
      if otherUser.publicUser then follow otherUser else requestFollow otherUser
    else unfollow otherUser).andThen fetchUsersInfo) l

/-- The code of the closures. -/
def react : Callback → Bool → Unit → ProfilePage → Firestore → Option (ProfilePage × List Cmd)
  | .otherUserFetched uid, ok, _, l, db =>
    -- `user!` traps
    match if ok then db.fetchUser uid else none with
    | none => none
    | some user => some (setFollowButton uid user
        (setUpProfilePage user { l with otherUser := some user }), [])
  | .entriesFetched newsfeed uid, ok, _, l, db =>
    if ok then
      l.otherUser.map fun otherUser =>
        (l, backfill newsfeed otherUser.uid (db.latestEntries 20 uid))
    else some (l, [])
  | .newsfeedFetched newsfeed uid, ok, _, l, db =>
    -- `querySnapshot!` traps
    if ok then
      some (l, (db.feedItems newsfeed uid).map fun id => .write (.deleteFeed newsfeed id) none)
    else none
  | .currentUserRefetched uid, ok, _, l, db =>
    -- the next use of `currentUser` traps when there is none
    match if ok then db.fetchUser uid else none with
    | none => none
    | some user => l.otherUser.map fun otherUser =>
      ({ l with currentUser := user }, [.request (.otherUserRefetched otherUser.uid)])
  | .otherUserRefetched uid, ok, _, l, db =>
    match if ok then db.fetchUser uid else none with
    | none => none
    | some user => some (setUpProfilePage user { l with otherUser := some user }, [])

/-- The code of the user's actions. The button is shown when the other user has been fetched. -/
def event : Event → ProfilePage → Firestore → Option (ProfilePage × List Cmd)
  | .viewWillAppear, l, _ => some (viewWillAppear l)
  | .followButtonPressed, l, _ =>
    match l.otherUserUid, l.otherUser with
    | some uid, some otherUser => some (followButtonPressed uid otherUser l)
    | _, _ => none
  | .currentUserFetched, l, db =>
    match db.fetchUser l.currentUser.uid with
    | none => some (l, [])
    | some user => some ({ l with currentUser := user }, [])

/-- `ProfilePageViewController`. -/
def program : Program Firestore ProfilePage Write Callback Unit Event where
  apply := Write.apply
  react := react
  event := event

/-! ## A press of the button -/

/-- The steps that are considered while a press settles: every fetch succeeds, and the user does
nothing more, but the copy of the user can be refreshed. -/
def settling (_ : ProfilePage) (_ : Firestore) : Async.Move Callback Unit Event → Prop
  | .event .currentUserFetched => True
  | .event _ => False
  | .deliver _ ok _ => ok = true

instance (l : ProfilePage) (db : Firestore) : DecidablePred (settling l db)
  | .event .viewWillAppear => inferInstanceAs (Decidable False)
  | .event .followButtonPressed => inferInstanceAs (Decidable False)
  | .event .currentUserFetched => inferInstanceAs (Decidable True)
  | .deliver _ ok _ => inferInstanceAs (Decidable (ok = true))

/-- What a press by `me` on the page of `other` does to the documents of users. -/
def change (me other : User) : Uid → UserDoc → UserDoc :=
  if other.uid ∈ me.following then unlink me.uid other.uid
  else if other.publicUser then link me.uid other.uid else ask me.uid other.uid

/-- What a press by `me` on the page of `other` does to the newsfeeds. -/
def feed (me other : User) (db : Firestore) : Collection (Uid × EntryID) FeedDoc :=
  if other.uid ∈ me.following then db.emptied me.uid other.uid
  else if other.publicUser then db.filled me.uid other.uid else db.newsfeed

/-- The callback that fills or empties the newsfeed. -/
def Callback.isQuery : Callback → Bool
  | .entriesFetched _ _ => true
  | .newsfeedFetched _ _ => true
  | _ => false

/-- The query that a press by `me` on the page of `other` makes, if any. -/
def query (me other : User) : Multiset Callback :=
  if other.uid ∈ me.following then {.newsfeedFetched me.uid other.uid}
  else if other.publicUser then {.entriesFetched me.uid other.uid} else 0

/-- The queries on their way. -/
def queries (bag : Multiset Callback) : Multiset Callback := bag.filter fun k => k.isQuery

/-- The invariant of a press: its query is on its way, or has been answered. -/
structure Pressed (me other : User) (db : Firestore)
    (x : Direct Firestore ProfilePage Callback) : Prop where
  otherUser : x.loc.otherUser.map (fun user => user.uid) = some other.uid
  bag : ∀ k ∈ x.bag, k.isQuery ∨ k = .currentUserRefetched me.uid ∨
    k = .otherUserRefetched other.uid
  store : queries x.bag = query me other ∧
      Firestore.Social (change me other) db.newsfeed db x.store ∨
    queries x.bag = 0 ∧ Firestore.Social (change me other) (feed me other db) db x.store

section

variable {me other : User} {db : Firestore} {l : ProfilePage}
  {x x' : Direct Firestore ProfilePage Callback}

theorem queries_cons_of_pos {k : Callback} (hk : k.isQuery) (bag : Multiset Callback) :
    queries (k ::ₘ bag) = k ::ₘ queries bag := Multiset.filter_cons_of_pos _ hk

theorem queries_cons_of_neg {k : Callback} (hk : k.isQuery = false) (bag : Multiset Callback) :
    queries (k ::ₘ bag) = queries bag := Multiset.filter_cons_of_neg _ (by simp [hk])

/-- The branch that a press takes. -/
theorem press_branch (hme : db.fetchUser me.uid = some me)
    (hother : db.fetchUser other.uid = some other) (hcur : l.currentUser = me) :
    ∃ l' cs, (if other.uid ∉ l.currentUser.following then
        if other.publicUser then follow other else requestFollow other
      else unfollow other) l = (l', cs) ∧
      l'.otherUser = l.otherUser ∧ l'.currentUser = me ∧ callbacks cs = query me other ∧
      Firestore.Social (change me other) db.newsfeed db (effect Write.apply cs db) := by
  subst hcur
  by_cases hf : other.uid ∈ l.currentUser.following
  · refine ⟨(unfollow other l).1, (unfollow other l).2, by rw [if_neg (not_not_intro hf)], rfl, rfl,
      ?_, ?_⟩
    · simp [unfollow, callbacks_unfollowUser, query, hf]
    · rw [change, if_pos hf, unfollow, effect_append, effect_request, effect_nil]
      exact social_unfollowUser hme hother
  · by_cases hp : other.publicUser
    · refine ⟨(follow other l).1, (follow other l).2, by rw [if_pos hf, if_pos hp], rfl, rfl, ?_,
        ?_⟩
      · simp [follow, query, hf, hp]
      · rw [change, if_neg hf, if_pos hp]
        exact social_follows (K := Callback) hme hother (fun vs => vs ++ [other.uid])
          fun vs => vs ++ [l.currentUser.uid]
    · refine ⟨(requestFollow other l).1, (requestFollow other l).2,
        by rw [if_pos hf, if_neg hp], rfl, rfl, ?_, ?_⟩
      · rw [query, if_neg hf, if_neg hp, requestFollow]
        dsimp only
        split <;> rfl
      · rw [change, if_neg hf, if_neg hp]
        exact social_ask hother l.currentUser.uid

/-- The press itself. -/
theorem Pressed.start (hme : db.fetchUser me.uid = some me)
    (hother : db.fetchUser other.uid = some other) (hcur : l.currentUser = me)
    (hl : l.otherUser = some other) :
    Pressed me other db
      (program.after (followButtonPressed other.uid other l) ⟨db, l, 0⟩) := by
  obtain ⟨l', cs, hbranch, hother', hcur', hcs, hstore⟩ := press_branch hme hother hcur
  have hpress : followButtonPressed other.uid other l =
      (l', cs ++ [.request (.currentUserRefetched me.uid)]) := by
    simp only [followButtonPressed, fetchUsersInfo, Handler.andThen_apply, Handler.issue_apply,
      hbranch, hcur']
  have hquery : ∀ k ∈ query me other, k.isQuery := by
    intro k hk
    simp only [query] at hk
    split_ifs at hk <;> simp_all [Callback.isQuery]
  have hbag : (program.after (followButtonPressed other.uid other l) ⟨db, l, 0⟩).bag =
      query me other + {.currentUserRefetched me.uid} := by
    simp [Program.after, hpress, hcs]
  refine ⟨?_, fun k hk => ?_, Or.inl ⟨?_, ?_⟩⟩
  · simp [Program.after, hpress, hother', hl]
  · rw [hbag, Multiset.mem_add, Multiset.mem_singleton] at hk
    exact hk.imp (hquery k) Or.inl
  · rw [hbag, queries, Multiset.filter_add, Multiset.filter_eq_self.mpr hquery]
    exact add_zero _
  · simpa [Program.after, hpress, program] using hstore

/-- One step of the settling. -/
theorem Pressed.step (h : Pressed me other db x) {m : Async.Move Callback Unit Event}
    (ha : settling x.loc x.store m) (hs : DirectStep program x m x') :
    Pressed me other db x' := by
  obtain ⟨user, huser, huid⟩ := Option.map_eq_some_iff.mp h.otherUser
  cases hs with
  | @event e r he =>
    cases e with
    | currentUserFetched =>
      simp only [program, event] at he
      split at he <;> cases he <;> simpa [Program.after] using ⟨h.otherUser, h.bag, h.store⟩
    | _ => exact ha.elim
  | @deliver k ok a rest r hb hr =>
    have hok : ok = true := ha
    have hbag : ∀ k' ∈ rest, k'.isQuery ∨ k' = .currentUserRefetched me.uid ∨
        k' = .otherUserRefetched other.uid := fun k' hk' =>
      h.bag k' (hb ▸ Multiset.mem_cons_of_mem hk')
    have hstore := h.store
    rw [hb] at hstore
    rcases h.bag k (hb ▸ Multiset.mem_cons_self k rest) with hk | rfl | rfl
    · rw [queries_cons_of_pos hk] at hstore
      rcases hstore with ⟨hq, hstore⟩ | ⟨hq, -⟩
      · obtain ⟨hquery, hrest⟩ : query me other = {k} ∧ queries rest = 0 := by
          have hcard : (query me other).card ≤ 1 := by
            simp only [query]
            split_ifs <;> simp
          have h0 : queries rest = 0 := by
            rw [← hq, Multiset.card_cons] at hcard
            exact Multiset.card_eq_zero.mp (by omega)
          exact ⟨by rw [← hq, h0]; rfl, h0⟩
        have hanswer : ∃ cs, r = (x.loc, cs) ∧ callbacks cs = 0 ∧
            effect Write.apply cs x.store =
              { x.store with newsfeed := feed me other db } := by
          simp only [query] at hquery
          split_ifs at hquery with hf hp
          · obtain rfl := Multiset.singleton_inj.mp hquery
            simp only [program, react, hok, if_true, Option.some.injEq] at hr
            subst hr
            refine ⟨_, rfl, callbacks_map_write _ _, ?_⟩
            have hitems : x.store.feedItems me.uid other.uid = db.feedItems me.uid other.uid := by
              rw [Firestore.feedItems, Firestore.feedItems, hstore.newsfeed]
            rw [effect_deleteFeed, feed, if_pos hf, hitems, hstore.newsfeed]
            rfl
          · obtain rfl := Multiset.singleton_inj.mp hquery
            simp only [program, react, hok, if_true, huser, Option.map_some,
              Option.some.injEq] at hr
            subst hr
            refine ⟨_, rfl, callbacks_backfill _ _ _, ?_⟩
            have hlatest : x.store.latestEntries 20 other.uid = db.latestEntries 20 other.uid := by
              rw [Firestore.latestEntries, Firestore.latestEntries, hstore.entries]
            rw [effect_backfill, feed, if_neg hf, if_pos hp, hlatest, hstore.newsfeed, huid]
            rfl
          · exact absurd hquery.symm (Multiset.singleton_ne_zero k)
        obtain ⟨cs, rfl, hcs, heff⟩ := hanswer
        refine ⟨h.otherUser, fun k' hk' => hbag k' (by simpa [Program.after, hcs] using hk'),
          Or.inr ⟨by simpa [Program.after, hcs] using hrest, ?_⟩⟩
        show Firestore.Social _ _ _ (effect Write.apply cs x.store)
        rw [heff]
        exact hstore.setNewsfeed _
      · exact absurd hq Multiset.cons_ne_zero
    · rw [queries_cons_of_neg rfl] at hstore
      simp only [program, react, hok, if_true, huser, huid, Option.map_some] at hr
      split at hr <;> cases hr
      refine ⟨by simp [Program.after, huid], fun k' hk' => ?_, ?_⟩
      · simp only [Program.after, callbacks_request, callbacks_nil, Multiset.mem_add,
          Multiset.mem_cons, Multiset.notMem_zero, or_false] at hk'
        exact hk'.elim (hbag k') fun h => Or.inr (Or.inr h)
      · have hadd : queries (rest + callbacks
            [(.request (.otherUserRefetched other.uid) : Cmd)]) = queries rest := by
          rw [callbacks_request, callbacks_nil, Multiset.add_cons, add_zero,
            queries_cons_of_neg rfl]
        simpa only [Program.after, hadd, effect_request, effect_nil] using hstore
    · rw [queries_cons_of_neg rfl] at hstore
      simp only [program, react, hok, if_true] at hr
      split at hr <;> cases hr
      rename_i user' huser'
      refine ⟨?_, fun k' hk' => hbag k' (by simpa [Program.after] using hk'),
        by simpa [Program.after] using hstore⟩
      simp [Program.after, setUpProfilePage, (Firestore.fetchUser_eq_some huser').1]

/-- **What a press comes to**, on a page whose copies of the two users are up to date. -/
theorem social_of_completes {db' : Firestore} {l' : ProfilePage}
    (hme : db.fetchUser me.uid = some me) (hother : db.fetchUser other.uid = some other)
    (hcur : l.currentUser = me) (huid : l.otherUserUid = some other.uid)
    (hl : l.otherUser = some other)
    (h : Completes program settling .followButtonPressed db l db' l') :
    Firestore.Social (change me other) (feed me other db) db db' := by
  have hend : Pressed me other db ⟨db', l', 0⟩ := by
    refine h.invariant (fun r he => ?_) fun x m x' hx ha hs => hx.step ha hs
    simp only [program, event, huid, hl, Option.some.injEq] at he
    subst he
    exact .start hme hother hcur hl
  rcases hend.store with ⟨hq, hstore⟩ | ⟨-, hstore⟩
  · have hnone : query me other = 0 := hq.symm
    have hfeed : feed me other db = db.newsfeed := by
      simp only [query] at hnone
      split_ifs at hnone with hf hp
      · exact absurd hnone (Multiset.singleton_ne_zero _)
      · exact absurd hnone (Multiset.singleton_ne_zero _)
      · rw [feed, if_neg hf, if_neg hp]
    rwa [hfeed]
  · exact hstore

end

end ProfilePage

end Wanderlust
