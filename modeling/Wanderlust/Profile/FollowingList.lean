import Wanderlust.Models.User

/-!
# The list of followed users

`FollowingListViewController`: the users that a user follows, with buttons to unfollow them on the
list of the signed-in user. Unlike the button of the profile page, these leave the newsfeed as it
is.

`social_of_completes` says what becomes of the documents when everything that was started is done,
for a screen whose copies are up to date.
-/

namespace Wanderlust

open Async

/-- The state of the screen, with the cached user. -/
structure FollowingList where
  /-- `Auth.auth().currentUser!.uid`. -/
  auth : Uid
  currentUser : User
  otherUser : Option User
  following : List Uid

namespace FollowingList

inductive Callback
  -- `unfollow`
  | userFetched (uid : Uid)
  | currentUserRefetched (uid : Uid)
  deriving DecidableEq

/-- What the user does on the screen, and the refresh of `currentUser` by a listener. -/
inductive Event
  | viewWillAppear
  | unfollow (followingRow : ℕ)
  | currentUserFetched

abbrev Cmd := Async.Cmd Write Callback

/-- `viewWillAppear`. -/
def viewWillAppear (l : FollowingList) : FollowingList :=
  let otherUser := l.otherUser.filter fun user => user.uid ≠ l.currentUser.uid
  { l with otherUser := otherUser, following := (otherUser.getD l.currentUser).following }

/-- The screen when it has appeared. -/
def opened (auth : Uid) (currentUser : User) (otherUser : Option User) : FollowingList :=
  viewWillAppear ⟨auth, currentUser, otherUser, []⟩

/-- The code of the closures. -/
def react : Callback → Bool → Unit → FollowingList → Firestore → Option (FollowingList × List Cmd)
  | .userFetched uid, ok, _, l, db =>
    -- `user!` traps
    match if ok then db.fetchUser uid else none with
    | none => none
    | some user => some (l, unfollowUser l.currentUser l.currentUser.following user ++
        [.request (.currentUserRefetched l.auth)])
  | .currentUserRefetched uid, ok, _, l, db =>
    -- the next use of `currentUser` traps when there is none
    match if ok then db.fetchUser uid else none with
    | none => none
    | some user => some ({ l with currentUser := user, following := user.following }, [])

/-- The code of the user's actions. The buttons are hidden on the list of another user. -/
def event : Event → FollowingList → Firestore → Option (FollowingList × List Cmd)
  | .viewWillAppear, l, _ => some (viewWillAppear l, [])
  | .unfollow followingRow, l, _ =>
    if l.otherUser = none then
      l.following[followingRow]?.map fun uid => (l, [.request (.userFetched uid)])
    else none
  | .currentUserFetched, l, db =>
    match db.fetchUser l.currentUser.uid with
    | none => some (l, [])
    | some user => some ({ l with currentUser := user }, [])

/-- `FollowingListViewController`. -/
def program : Program Firestore FollowingList Write Callback Unit Event where
  apply := Write.apply
  react := react
  event := event

/-! ## Unfollowing -/

/-- The steps that are considered while an action settles: every fetch succeeds, and the user does
nothing more, but the copy of the user can be refreshed. -/
def settling (_ : FollowingList) (_ : Firestore) : Async.Move Callback Unit Event → Prop
  | .event .currentUserFetched => True
  | .event _ => False
  | .deliver _ ok _ => ok = true

instance (l : FollowingList) (db : Firestore) : DecidablePred (settling l db)
  | .event .viewWillAppear => inferInstanceAs (Decidable False)
  | .event (.unfollow _) => inferInstanceAs (Decidable False)
  | .event .currentUserFetched => inferInstanceAs (Decidable True)
  | .deliver _ ok _ => inferInstanceAs (Decidable (ok = true))

/-- The invariant of unfollowing `uid`: the document of `uid` is on its way, or all is written. -/
inductive Unfollowing (me : User) (uid : Uid) (db : Firestore)
    (x : Direct Firestore FollowingList Callback) : Prop
  | fetching (hbag : x.bag = {.userFetched uid}) (hcur : x.loc.currentUser = me)
    (hstore : x.store = db)
  | written (hbag : ∀ k ∈ x.bag, k = .currentUserRefetched x.loc.auth)
    (hstore : Firestore.Social (unlink me.uid uid) db.newsfeed db x.store)

section

variable {me : User} {uid : Uid} {db db' : Firestore} {l l' : FollowingList}
  {x x' : Direct Firestore FollowingList Callback}

/-- One step of the settling. -/
theorem Unfollowing.step (hme : db.fetchUser me.uid = some me) (h : Unfollowing me uid db x)
    {m : Async.Move Callback Unit Event} (ha : settling x.loc x.store m)
    (hs : DirectStep program x m x') : Unfollowing me uid db x' := by
  cases hs with
  | @event e r he =>
    cases e with
    | currentUserFetched =>
      simp only [program, event] at he
      cases h with
      | fetching hbag hcur hstore =>
        rw [hcur, hstore, hme] at he
        cases he
        exact .fetching (by simpa [Program.after] using hbag) rfl hstore
      | written hbag hstore =>
        split at he <;> cases he <;>
          exact .written (by simpa [Program.after] using hbag)
            (by simpa [Program.after] using hstore)
    | _ => exact ha.elim
  | @deliver k ok a rest r hb hr =>
    have hok : ok = true := ha
    cases h with
    | fetching hbag hcur hstore =>
      rw [hbag] at hb
      obtain ⟨rfl, rfl⟩ := (Multiset.singleton_eq_cons_iff _).mp hb
      simp only [program, react, hok, if_true, hcur, hstore] at hr
      split at hr <;> cases hr
      rename_i user huser
      have huid := (Firestore.fetchUser_eq_some huser).1
      refine .written (fun k hk => ?_) ?_
      · simpa [Program.after, callbacks_unfollowUser] using hk
      · show Firestore.Social _ _ _ (effect Write.apply (unfollowUser me me.following user ++
          [.request (.currentUserRefetched x.loc.auth)] : List Cmd) x.store)
        rw [effect_append, effect_request, effect_nil, hstore, ← huid]
        exact social_unfollowUser hme (huid ▸ huser)
    | written hbag hstore =>
      have hmem : ∀ k' ∈ rest, k' ∈ x.bag := fun k' hk' => hb ▸ Multiset.mem_cons_of_mem hk'
      obtain rfl := hbag k (hb ▸ Multiset.mem_cons_self k rest)
      simp only [program, react, hok, if_true] at hr
      split at hr <;> cases hr
      exact .written (fun k' hk' => hbag k' (hmem k' (by simpa [Program.after] using hk')))
        (by simpa [Program.after] using hstore)

/-- **What unfollowing comes to**, on a screen whose copies are up to date. -/
theorem social_of_completes {followingRow : ℕ} (hme : db.fetchUser me.uid = some me)
    (hl : l = opened me.uid me none) (hrow : me.following[followingRow]? = some uid)
    (h : Completes program settling (.unfollow followingRow) db l db' l') :
    Firestore.Social (unlink me.uid uid) db.newsfeed db db' := by
  subst hl
  have hend : Unfollowing me uid db ⟨db', l', 0⟩ := by
    refine h.invariant (fun r he => ?_) fun x m x' hx ha hs => hx.step hme ha hs
    have hr : r = (opened me.uid me none, [.request (.userFetched uid)]) := by
      have hrow' : (opened me.uid me none).following[followingRow]? = some uid := hrow
      have hother : (opened me.uid me none).otherUser = none := rfl
      simp only [program, event, hother, hrow', if_true, Option.map_some] at he
      exact (Option.some.inj he).symm
    rw [hr]
    exact .fetching rfl rfl rfl
  cases hend with
  | fetching hbag => exact absurd hbag.symm (Multiset.singleton_ne_zero _)
  | written _ hstore => exact hstore

end

end FollowingList

end Wanderlust
