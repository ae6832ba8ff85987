import Wanderlust.Models.User

/-!
# The list of followers

`FollowersListViewController`: the followers of a user and, on the list of the signed-in user, the
requests to follow, which are accepted or denied. `acceptRequest` and `denyRequest` compute the
lists that they write from the copies that the screen was opened with.

`social_of_accept` and `social_of_deny` say what becomes of the documents when everything that
was started is done, for a screen whose copies are up to date.
-/

namespace Wanderlust

open Async

/-- The state of the screen, with the cached user. -/
structure FollowersList where
  currentUser : User
  otherUser : Option User
  followers : List Uid
  requests : List Uid

namespace FollowersList

inductive Callback
  -- `acceptRequest`
  | userFetched (uid : Uid)
  | entriesFetched (newsfeed uid : Uid)
  deriving DecidableEq

/-- What the user does on the screen, and the refresh of `currentUser` by a listener. -/
inductive Event
  | viewWillAppear
  | acceptRequest (requestRow : ℕ)
  | denyRequest (requestRow : ℕ)
  | currentUserFetched

abbrev Cmd := Async.Cmd Write Callback
abbrev Handler := Async.Handler FollowersList Write Callback

/-- `setUpFollowersList`. -/
def setUpFollowersList (user : User) (l : FollowersList) : FollowersList :=
  { l with followers := user.followers, requests := user.requests }

/-- The screen when it has appeared. -/
def opened (currentUser : User) (otherUser : Option User) : FollowersList :=
  setUpFollowersList (otherUser.getD currentUser) ⟨currentUser, otherUser, [], []⟩

/-- `acceptRequest` of the request of `uid`. -/
def acceptRequest (uid : Uid) : Handler := fun l =>
  ({ l with followers := l.followers ++ [uid], requests := l.requests.filter fun u => u ≠ uid },
    [.write (modifyFollowers (l.followers ++ [uid]) l.currentUser) none,
      .request (.userFetched uid),
      .request (.entriesFetched uid l.currentUser.uid),
      .write (modifyRequests (l.requests.filter fun u => u ≠ uid) l.currentUser) none])

/-- `denyRequest` of the request of `uid`. -/
def denyRequest (uid : Uid) : Handler := fun l =>
  ({ l with requests := l.requests.filter fun u => u ≠ uid },
    [.write (modifyRequests (l.requests.filter fun u => u ≠ uid) l.currentUser) none])

/-- The code of the closures. -/
def react : Callback → Bool → Unit → FollowersList → Firestore → Option (FollowersList × List Cmd)
  | .userFetched uid, ok, _, l, db =>
    -- `newFollowingList!` traps
    match if ok then db.fetchUser uid else none with
    | none => none
    | some user =>
      some (l, [.write (modifyFollowing (user.following ++ [l.currentUser.uid]) user) none])
  | .entriesFetched newsfeed uid, ok, _, l, db =>
    some (l, if ok then backfill newsfeed l.currentUser.uid (db.latestEntries 20 uid) else [])

/-- The code of the user's actions. The requests are hidden on the list of another user. -/
def event : Event → FollowersList → Firestore → Option (FollowersList × List Cmd)
  | .viewWillAppear, l, _ => some (setUpFollowersList (l.otherUser.getD l.currentUser) l, [])
  | .acceptRequest requestRow, l, _ =>
    if l.otherUser = none then l.requests[requestRow]?.map fun uid => acceptRequest uid l else none
  | .denyRequest requestRow, l, _ =>
    if l.otherUser = none then l.requests[requestRow]?.map fun uid => denyRequest uid l else none
  | .currentUserFetched, l, db =>
    match db.fetchUser l.currentUser.uid with
    | none => some (l, [])
    | some user => some ({ l with currentUser := user }, [])

/-- `FollowersListViewController`. -/
def program : Program Firestore FollowersList Write Callback Unit Event where
  apply := Write.apply
  react := react
  event := event

/-! ## Accepting and denying -/

/-- The steps that are considered while an action settles: every fetch succeeds, and the user does
nothing more, but the copy of the user can be refreshed. -/
def settling (_ : FollowersList) (_ : Firestore) : Async.Move Callback Unit Event → Prop
  | .event .currentUserFetched => True
  | .event _ => False
  | .deliver _ ok _ => ok = true

instance (l : FollowersList) (db : Firestore) : DecidablePred (settling l db)
  | .event .viewWillAppear => inferInstanceAs (Decidable False)
  | .event (.acceptRequest _) => inferInstanceAs (Decidable False)
  | .event (.denyRequest _) => inferInstanceAs (Decidable False)
  | .event .currentUserFetched => inferInstanceAs (Decidable True)
  | .deliver _ ok _ => inferInstanceAs (Decidable (ok = true))

/-- What accepting does to the documents, before and after the requester's has been fetched. -/
def accepted (a uid : Uid) (fetched : Bool) (u : Uid) (d : UserDoc) : UserDoc :=
  dismiss uid a u
    { d with
      following := if fetched ∧ u = uid then d.following ++ [a] else d.following
      followers := if u = a then d.followers ++ [uid] else d.followers }

/-- The invariant of accepting the request of `uid`. -/
structure Accepting (a uid : Uid) (db : Firestore) (x : Direct Firestore FollowersList Callback) :
    Prop where
  currentUser : x.loc.currentUser.uid = a
  bag : ∀ k ∈ x.bag, k = .userFetched uid ∨ k = .entriesFetched uid a
  nodup : x.bag.Nodup
  store : Firestore.Social (accepted a uid (decide (.userFetched uid ∉ x.bag)))
    (if .entriesFetched uid a ∈ x.bag then db.newsfeed else db.filled uid a) db x.store

section

variable {me : User} {uid : Uid} {db db' : Firestore} {l l' : FollowersList}
  {x x' : Direct Firestore FollowersList Callback}

/-- The action itself. -/
theorem Accepting.start (hme : db.fetchUser me.uid = some me) (hcur : l.currentUser = me)
    (hfollowers : l.followers = me.followers) (hrequests : l.requests = me.requests) :
    Accepting me.uid uid db (program.after (acceptRequest uid l) ⟨db, l, 0⟩) := by
  have hme' := (Firestore.fetchUser_eq_some hme).2
  have hbag : (program.after (acceptRequest uid l) ⟨db, l, 0⟩).bag =
      {.userFetched uid, .entriesFetched uid me.uid} := by
    simp [Program.after, acceptRequest, hcur]
  refine ⟨by simp [Program.after, acceptRequest, hcur], ?_, ?_, ?_⟩
  · simp [hbag]
  · simp [hbag]
  · rw [hbag]
    simp only [Multiset.insert_eq_cons, Multiset.mem_cons, Multiset.mem_singleton, true_or, or_true,
      not_true_eq_false, decide_false, if_true]
    simp only [Program.after, acceptRequest, program, effect_write, effect_request, effect_nil,
      hcur, hfollowers, hrequests]
    refine ((Firestore.social_updateUser me.uid _ db).trans
      (Firestore.social_updateUser me.uid _ _)).congr fun u d hd => ?_
    by_cases hu : u = me.uid
    · subst hu
      obtain rfl : me.toUserDoc = d := Option.some.inj (hme'.symm.trans hd)
      simp [accepted, dismiss]
    · simp [accepted, dismiss, hu]

/-- One step of the settling. -/
theorem Accepting.step {a : Uid} (h : Accepting a uid db x) {m : Async.Move Callback Unit Event}
    (ha : settling x.loc x.store m) (hs : DirectStep program x m x') :
    Accepting a uid db x' := by
  cases hs with
  | @event e r he =>
    cases e with
    | currentUserFetched =>
      simp only [program, event] at he
      split at he <;> cases he
      · simpa [Program.after] using h
      · rename_i user huser
        have huid := (Firestore.fetchUser_eq_some huser).1.trans h.currentUser
        simpa [Program.after] using (⟨huid, h.bag, h.nodup, h.store⟩ : Accepting a uid db
          ⟨x.store, { x.loc with currentUser := user }, x.bag⟩)
    | _ => exact ha.elim
  | @deliver k ok c rest r hb hr =>
    have hok : ok = true := ha
    have hmem : ∀ k' ∈ rest, k' ∈ x.bag := fun k' hk' => hb ▸ Multiset.mem_cons_of_mem hk'
    have hnodup := h.nodup
    rw [hb, Multiset.nodup_cons] at hnodup
    have hstore := h.store
    simp only [hb] at hstore
    rcases h.bag k (hb ▸ Multiset.mem_cons_self k rest) with rfl | rfl
    · simp only [program, react, hok, if_true] at hr
      split at hr <;> cases hr
      rename_i user huser
      obtain ⟨huid, hdoc⟩ := Firestore.fetchUser_eq_some huser
      rw [h.currentUser, Program.after]
      refine ⟨h.currentUser, fun k' hk' => h.bag k' (hmem k' (by simpa using hk')),
        by simpa using hnodup.2, ?_⟩
      simp only [callbacks_write, callbacks_nil, add_zero, hnodup.1, not_false_eq_true,
        decide_true]
      simp only [Multiset.mem_cons_self, not_true_eq_false, decide_false, Multiset.mem_cons,
        reduceCtorEq, false_or] at hstore
      have hsocial := hstore.trans (Firestore.social_updateUser user.uid
        (fun d => { d with following := user.following ++ [a] }) x.store)
      rw [hstore.newsfeed] at hsocial
      refine hsocial.congr fun u d hd => ?_
      by_cases hu : u = uid
      · subst hu
        have hfollowing : user.following = d.following := by
          rw [hstore.users, hd] at hdoc
          have := congrArg UserDoc.following (Option.some.inj hdoc)
          simpa [accepted, dismiss] using this.symm
        simp [accepted, dismiss, huid, hfollowing]
      · simp [accepted, dismiss, huid, hu]
    · simp only [program, react, hok, if_true, Option.some.injEq] at hr
      subst hr
      have hcs := callbacks_backfill (K := Callback) uid x.loc.currentUser.uid
        (x.store.latestEntries 20 a)
      refine ⟨h.currentUser,
        fun k' hk' => h.bag k' (hmem k' (by simpa [Program.after, hcs] using hk')),
        by simpa [Program.after, hcs] using hnodup.2, ?_⟩
      simp only [Program.after, hcs, add_zero, hnodup.1, if_false]
      simp only [Multiset.mem_cons_self, if_true, Multiset.mem_cons, reduceCtorEq, false_or]
        at hstore
      have hlatest : x.store.latestEntries 20 a = db.latestEntries 20 a := by
        rw [Firestore.latestEntries, Firestore.latestEntries, hstore.entries]
      show Firestore.Social _ _ _ (effect Write.apply _ x.store)
      rw [effect_backfill, hlatest, hstore.newsfeed, h.currentUser]
      exact hstore.setNewsfeed _

/-- **What accepting comes to**, on a screen whose copies are up to date. -/
theorem social_of_accept {requestRow : ℕ} (hme : db.fetchUser me.uid = some me)
    (hl : l = opened me none) (hrow : me.requests[requestRow]? = some uid)
    (h : Completes program settling (.acceptRequest requestRow) db l db' l') :
    Firestore.Social (fun u d => dismiss uid me.uid u (link uid me.uid u d))
      (db.filled uid me.uid) db db' := by
  subst hl
  have hend : Accepting me.uid uid db ⟨db', l', 0⟩ := by
    refine h.invariant (fun r he => ?_) fun x m x' hx ha hs => hx.step ha hs
    have hr : r = acceptRequest uid (opened me none) := by
      have hrow' : (opened me none).requests[requestRow]? = some uid := hrow
      simp only [program, event, hrow', Option.map_some] at he
      exact (Option.some.inj he).symm
    rw [hr]
    exact .start hme rfl rfl rfl
  refine (by simpa using hend.store : Firestore.Social (accepted me.uid uid true) _ _ _).congr
    fun u d _ => ?_
  simp [accepted, link]

/-- **What denying comes to**, on a screen whose copies are up to date. -/
theorem social_of_deny {requestRow : ℕ} (hme : db.fetchUser me.uid = some me)
    (hl : l = opened me none) (hrow : me.requests[requestRow]? = some uid)
    (h : Completes program settling (.denyRequest requestRow) db l db' l') :
    Firestore.Social (dismiss uid me.uid) db.newsfeed db db' := by
  subst hl
  have hme' := (Firestore.fetchUser_eq_some hme).2
  have hend : (⟨db', l', 0⟩ : Direct Firestore FollowersList Callback).bag = 0 ∧
      Firestore.Social (dismiss uid me.uid) db.newsfeed db db' := by
    refine h.invariant (I := fun x => x.bag = 0 ∧
      Firestore.Social (dismiss uid me.uid) db.newsfeed db x.store) (fun r he => ?_)
      fun x m x' hx ha hs => ?_
    · have hr : r = denyRequest uid (opened me none) := by
        have hrow' : (opened me none).requests[requestRow]? = some uid := hrow
        simp only [program, event, hrow', Option.map_some] at he
        exact (Option.some.inj he).symm
      rw [hr]
      refine ⟨rfl, (Firestore.social_updateUser me.uid _ db).congr fun u d hd => ?_⟩
      by_cases hu : u = me.uid
      · subst hu
        obtain rfl : me.toUserDoc = d := Option.some.inj (hme'.symm.trans hd)
        simp [dismiss, opened, setUpFollowersList]
      · simp [dismiss, hu]
    · cases hs with
      | @event e r he =>
        cases e with
        | currentUserFetched =>
          simp only [program, event] at he
          split at he <;> cases he <;> simpa [Program.after] using hx
        | _ => exact ha.elim
      | deliver hb hr => exact absurd (hb.symm.trans hx.1) Multiset.cons_ne_zero
  exact hend.2

end

end FollowersList

end Wanderlust
