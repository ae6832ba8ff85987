import Wanderlust.Foundations.Notes
import Wanderlust.Foundations.Runs
import Wanderlust.Profile.FollowersList
import Wanderlust.Profile.ProfilePage

/-!
# Followers of a private user

A user, who accepts and denies requests and makes the account private and public again, and any
number of clients on the user's profile page. Whether a press follows or asks is decided by the
copy of the user that the page has loaded, and every list of followers that is written is computed
from a copy. So somebody can enter the followers of a private user without having been accepted,
namely when the copy is out of date by the time the list takes effect (`consented_iff`).

Every write carries a note that says what it was issued for, with the copies there were on the
screen (`Reason`).
-/

namespace Wanderlust

open Async Runs

namespace Consent

/-- What a write is issued for: a press of the button on a page with the copies `me` and
`otherUser` of the two users, or the acceptance of the request of `uid`, with the copy
`followers`. -/
inductive Reason
  | press (me otherUser : User)
  | accept (uid : Uid) (followers : List Uid)
  | other

/-- The list of followers afterwards. -/
def Reason.newFollowers (now : List Uid) : Reason → List Uid
  | .press me otherUser =>
    if otherUser.uid ∈ me.following then otherUser.followers.filter fun u => u ≠ me.uid
    else if otherUser.publicUser then otherUser.followers ++ [me.uid]
    else now
  | .accept uid followers => followers ++ [uid]
  | .other => now

/-- The second write of a press is that of the list of followers. -/
def pageNote : ProfilePage.Event → ProfilePage → ℕ → Reason
  | .followButtonPressed, l, 1 => l.otherUser.elim .other (.press l.currentUser)
  | _, _, _ => .other

/-- A client on the profile page. -/
def page : Program Firestore ProfilePage (Write × Reason) ProfilePage.Callback Unit
    ProfilePage.Event :=
  ProfilePage.program.noted pageNote .other

/-- What the user does on the list of followers and in the settings. -/
inductive OwnerEvent
  | list (e : FollowersList.Event)
  | switchToggled (isOn : Bool)

/-- The list of followers with the switch of the settings. -/
def ownerProgram :
    Program Firestore FollowersList Write FollowersList.Callback Unit OwnerEvent where
  apply := Write.apply
  react := FollowersList.react
  event
    | .list e, l, db => FollowersList.event e l db
    | .switchToggled isOn, l, _ =>
      some (l, [.write (Wanderlust.switchToggled l.currentUser isOn) none])

/-- The first write of an acceptance is that of the list of followers. -/
def ownerNote : OwnerEvent → FollowersList → ℕ → Reason
  | .list (.acceptRequest requestRow), l, 0 =>
    match l.requests[requestRow]? with
    | some uid => .accept uid l.followers
    | none => .other
  | _, _, _ => .other

/-- The client of the user. -/
def owner : Program Firestore FollowersList (Write × Reason) FollowersList.Callback Unit
    OwnerEvent :=
  ownerProgram.noted ownerNote .other

/-- The clients with their database. -/
structure World (ι : Type*) where
  pages : Shared ι Firestore ProfilePage (Write × Reason) ProfilePage.Callback
  owner : Client FollowersList (Write × Reason) FollowersList.Callback

/-- A step of one of the clients. -/
inductive Turn (ι : Type*)
  | page (i : ι) (lbl : Label Unit ProfilePage.Event)
  | owner (lbl : Label Unit OwnerEvent)

variable {ι : Type*}

/-- The database. -/
abbrev World.store (w : World ι) : Firestore := w.pages.store

/-- The client of the user, with the database. -/
def World.ownerState (w : World ι) :
    State Firestore FollowersList (Write × Reason) FollowersList.Callback :=
  ⟨w.store, w.owner.loc, w.owner.queue, w.owner.ready⟩

/-- One step, in any order of the clients. -/
def World.step [DecidableEq ι] (w : World ι) : Turn ι → Option (World ι)
  | .page i lbl => (page.step lbl (w.pages.state i)).map fun st =>
    { w with pages := w.pages.put i st }
  | .owner lbl => (Consent.owner.step lbl w.ownerState).map fun st =>
    ⟨{ w.pages with store := st.store }, ⟨st.loc, st.queue, st.ready⟩⟩

/-- The pages of the user `b`, and the user's list, have been opened. -/
def World.start (db : Firestore) (me : ι → User) (b : User) : World ι :=
  ⟨⟨db, fun i => ⟨ProfilePage.opened (me i) (some b.uid), [], []⟩⟩,
    ⟨FollowersList.opened b none, [], []⟩⟩

/-- The write that takes effect in a step. -/
def World.taking (w : World ι) : Turn ι → Option (Write × Reason)
  | .page i lbl => (w.pages.state i).taking lbl
  | .owner lbl => w.ownerState.taking lbl

/-- The followers of `b`. -/
def followers (b : Uid) (db : Firestore) : List Uid :=
  ((db.users.lookup b).map UserDoc.followers).getD []

/-- The account of `b` is private. -/
def Private (b : Uid) (db : Firestore) : Prop :=
  (db.users.lookup b).map UserDoc.publicUser = some false

instance (b : Uid) (db : Firestore) : Decidable (Private b db) :=
  inferInstanceAs (Decidable (_ = _))

/-- In a step of a private user `b`, nobody becomes a follower but the uid that `b` accepts. -/
def Consented [DecidableEq ι] (b : Uid) (w : World ι) (x : Turn ι) : Prop :=
  ∀ w', w.step x = some w' → Private b w.store →
    ∀ uid ∈ followers b w'.store, uid ∉ followers b w.store →
      x = .owner .apply ∧ ∃ write fs, w.taking x = some (write, .accept uid fs)

/-- The copies that there were are not out of date: a copy of a public user is one of a user who
has `me` as a follower already, and nobody on it, but the uid that unfollows or is accepted, has
left. -/
def Reason.Current (now : List Uid) : Reason → Prop
  | .press me otherUser =>
    if otherUser.uid ∈ me.following then ∀ u ∈ otherUser.followers, u ≠ me.uid → u ∈ now
    else otherUser.publicUser → me.uid ∈ now ∧ ∀ u ∈ otherUser.followers, u ∈ now
  | .accept uid followers => ∀ u ∈ followers, u ≠ uid → u ∈ now
  | .other => True

/-- While `b` is private, the lists of followers that take effect come from copies that are up to
date. -/
def UpToDate (b : Uid) (w : World ι) (x : Turn ι) : Prop :=
  Private b w.store → ∀ y ∈ w.taking x, y.2.Current (followers b w.store)

instance (now : List Uid) : DecidablePred (Reason.Current now)
  | .press me otherUser => inferInstanceAs (Decidable (if otherUser.uid ∈ me.following
      then ∀ u ∈ otherUser.followers, u ≠ me.uid → u ∈ now
      else otherUser.publicUser → me.uid ∈ now ∧ ∀ u ∈ otherUser.followers, u ∈ now))
  | .accept uid followers => inferInstanceAs (Decidable (∀ u ∈ followers, u ≠ uid → u ∈ now))
  | .other => inferInstanceAs (Decidable True)

instance (b : Uid) (w : World ι) (x : Turn ι) : Decidable (UpToDate b w x) :=
  inferInstanceAs (Decidable (_ → _))

/-! ## What the notes say -/

/-- The note of a write says what becomes of the followers of `b`. -/
def Noted (b : Uid) (x : Write × Reason) : Prop :=
  ∀ db, (db.users.lookup b = none → (x.1.apply db).users.lookup b = none) ∧
    ∀ d, db.users.lookup b = some d → ∃ d', (x.1.apply db).users.lookup b = some d' ∧
      d'.followers = x.2.newFollowers d.followers

section

variable {b : Uid} {db : Firestore} {w : Write} {n : Reason}

theorem noted_updateUser {u : Uid} {f : UserDoc → UserDoc}
    (hf : ∀ d, (f d).followers = if u = b then n.newFollowers d.followers else d.followers)
    (hn : u = b ∨ n = .other) : Noted b (.updateUser u f, n) := by
  intro db
  simp only [Write.apply, Collection.lookup_modify_eq]
  by_cases hu : b = u
  · subst hu
    simp only [if_true]
    refine ⟨fun h => by rw [h]; rfl, fun d hd => ⟨f d, by rw [hd]; rfl, ?_⟩⟩
    rw [hf, if_pos rfl]
  · simp only [if_neg hu]
    refine ⟨fun h => h, fun d hd => ⟨d, hd, ?_⟩⟩
    rw [hn.resolve_left fun h => hu h.symm]
    rfl

/-- A write of a user that leaves the followers alone. -/
theorem noted_other (u : Uid) {f : UserDoc → UserDoc} (hf : ∀ d, (f d).followers = d.followers) :
    Noted b (.updateUser u f, .other) :=
  noted_updateUser (fun d => by rw [hf]; split <;> rfl) (Or.inr rfl)

/-- The list of followers of `b`. -/
theorem noted_modifyFollowers {user : User} (hb : user.uid = b) {fs : List Uid}
    (hn : ∀ now, n.newFollowers now = fs) : Noted b (modifyFollowers fs user, n) :=
  noted_updateUser (fun d => by rw [if_pos hb, hn]) (Or.inl hb)

/-- A write of a newsfeed. -/
theorem noted_feed (hw : ∀ db, (w.apply db).users = db.users) : Noted b (w, .other) := fun db => by
  rw [hw]
  exact ⟨fun h => h, fun d hd => ⟨d, hd, rfl⟩⟩

/-- The effect of a write with its note. -/
theorem Noted.followers (h : Noted b (w, n)) (hdoc : (db.users.lookup b).isSome) :
    Consent.followers b (w.apply db) = n.newFollowers (Consent.followers b db) := by
  obtain ⟨d, hd⟩ := Option.isSome_iff_exists.mp hdoc
  obtain ⟨d', hd', hfs⟩ := (h db).2 d hd
  rw [Consent.followers, Consent.followers, hd, hd', Option.map_some, Option.map_some]
  exact hfs

end

/-! ## The pages -/

/-- The callbacks of a page fetch nobody else than `b` as the other user. -/
def About (b : Uid) : ProfilePage.Callback → Prop
  | .otherUserFetched uid => uid = b
  | .otherUserRefetched uid => uid = b
  | _ => True

/-- What a page of `b` issues. -/
def Proper (b : Uid) : Cmd (Write × Reason) ProfilePage.Callback → Prop
  | .write x k => Noted b x ∧ (∀ uid fs, x.2 ≠ .accept uid fs) ∧ k = none
  | .request k => About b k

/-- The page is that of `b`. -/
structure PageOf (b : Uid) (l : ProfilePage) : Prop where
  otherUserUid : ∀ u, l.otherUserUid = some u → u = b
  otherUser : ∀ u, l.otherUser = some u → u.uid = b

/-- The invariant of a client on the page of `b`. -/
structure Visiting (b : Uid)
    (st : State Firestore ProfilePage (Write × Reason) ProfilePage.Callback) : Prop where
  loc : PageOf b st.loc
  queue : ∀ x ∈ st.queue, Noted b x.1 ∧ (∀ uid fs, x.1.2 ≠ .accept uid fs) ∧ x.2 = none
  ready : ∀ k ∈ st.ready.map Prod.fst, About b k

section

variable {b : Uid} {db : Firestore} {l : ProfilePage}

theorem PageOf.setUpProfilePage (h : PageOf b l) (user : User) :
    PageOf b (ProfilePage.setUpProfilePage user l) := ⟨h.otherUserUid, h.otherUser⟩

theorem PageOf.setFollowButton (h : PageOf b l) (uid : Uid) (user : User) :
    PageOf b (ProfilePage.setFollowButton uid user l) := by
  simp only [ProfilePage.setFollowButton]
  split_ifs <;> exact ⟨h.otherUserUid, h.otherUser⟩

/-- An answer arrives at the page. -/
theorem pageOf_react {k : ProfilePage.Callback} {ok : Bool} {a : Unit}
    {r : ProfilePage × List ProfilePage.Cmd} (h : PageOf b l) (hk : About b k)
    (hr : ProfilePage.react k ok a l db = some r) :
    PageOf b r.1 ∧ ∀ c ∈ r.2.map (Cmd.note .other), Proper b c := by
  have hset : ∀ user : User, user.uid = b → PageOf b { l with otherUser := some user } :=
    fun user huser => ⟨h.otherUserUid, fun u hu => Option.some.inj hu ▸ huser⟩
  cases k with
  | otherUserFetched uid =>
    simp only [ProfilePage.react] at hr
    split at hr <;> cases hr
    rename_i user hfetch
    split at hfetch
    · have huid : user.uid = b := (Firestore.fetchUser_eq_some hfetch).1.trans hk
      exact ⟨((hset user huid).setUpProfilePage user).setFollowButton uid user, by simp⟩
    · cases hfetch
  | entriesFetched newsfeed uid =>
    simp only [ProfilePage.react] at hr
    split at hr
    · obtain ⟨other, -, rfl⟩ := Option.map_eq_some_iff.mp hr
      refine ⟨h, fun c hc => ?_⟩
      obtain ⟨c₀, hc₀, rfl⟩ := List.mem_map.mp hc
      obtain ⟨e, -, rfl⟩ := List.mem_map.mp hc₀
      exact ⟨noted_feed fun _ => rfl, by simp, rfl⟩
    · cases hr
      exact ⟨h, by simp⟩
  | newsfeedFetched newsfeed uid =>
    simp only [ProfilePage.react] at hr
    split at hr <;> cases hr
    refine ⟨h, fun c hc => ?_⟩
    obtain ⟨c₀, hc₀, rfl⟩ := List.mem_map.mp hc
    obtain ⟨id, -, rfl⟩ := List.mem_map.mp hc₀
    exact ⟨noted_feed fun _ => rfl, by simp, rfl⟩
  | currentUserRefetched uid =>
    simp only [ProfilePage.react] at hr
    split at hr
    · cases hr
    · obtain ⟨other, hother, rfl⟩ := Option.map_eq_some_iff.mp hr
      refine ⟨⟨h.otherUserUid, h.otherUser⟩, fun c hc => ?_⟩
      rw [List.mem_singleton.mp hc]
      exact h.otherUser other hother
  | otherUserRefetched uid =>
    simp only [ProfilePage.react] at hr
    split at hr <;> cases hr
    rename_i user hfetch
    split at hfetch
    · have huid : user.uid = b := (Firestore.fetchUser_eq_some hfetch).1.trans hk
      exact ⟨(hset user huid).setUpProfilePage user, by simp⟩
    · cases hfetch

/-- The button is pressed. -/
theorem pageOf_press {uid : Uid} {other : User} (h : PageOf b l) (huid : l.otherUserUid = some uid)
    (hother : l.otherUser = some other) :
    PageOf b (ProfilePage.followButtonPressed uid other l).1 ∧
      ∀ c ∈ (ProfilePage.followButtonPressed uid other l).2.mapIdx fun i c =>
        c.note (pageNote .followButtonPressed l i), Proper b c := by
  have hb := h.otherUser other hother
  have hsame : uid = other.uid := (h.otherUserUid uid huid).trans hb.symm
  have hfollowing : ∀ vs, Noted b (modifyFollowing vs l.currentUser, .other) := fun vs =>
    noted_other _ fun _ => rfl
  have hn : pageNote .followButtonPressed l 1 = .press l.currentUser other := by
    simp [pageNote, hother]
  by_cases hf : uid ∈ l.currentUser.following
  · have hnew : ∀ now, (Reason.press l.currentUser other).newFollowers now =
        other.followers.filter fun u => u ≠ l.currentUser.uid := by
      intro now
      rw [Reason.newFollowers, if_pos (hsame ▸ hf)]
    refine ⟨?_, ?_⟩
    · simp only [ProfilePage.followButtonPressed, hf, not_true_eq_false, if_false]
      exact ⟨h.otherUserUid, h.otherUser⟩
    · simp only [ProfilePage.followButtonPressed, hf, not_true_eq_false, if_false,
        Handler.andThen_apply, ProfilePage.unfollow, unfollowUser, ProfilePage.fetchUsersInfo,
        Handler.issue_apply, List.cons_append, List.nil_append, List.mapIdx_cons, List.mapIdx_nil,
        Cmd.note, List.mem_cons, List.not_mem_nil, or_false, forall_eq_or_imp, forall_eq, zero_add,
        hn]
      exact ⟨⟨hfollowing _, by simp [pageNote], rfl⟩,
        ⟨noted_modifyFollowers hb hnew, by simp, rfl⟩, trivial, trivial⟩
  · by_cases hp : other.publicUser
    · have hnew : ∀ now, (Reason.press l.currentUser other).newFollowers now =
          other.followers ++ [l.currentUser.uid] := by
        intro now
        rw [Reason.newFollowers, if_neg (hsame ▸ hf), if_pos hp]
      refine ⟨?_, ?_⟩
      · simp only [ProfilePage.followButtonPressed, hf, not_false_eq_true, if_true, hp]
        exact ⟨h.otherUserUid, h.otherUser⟩
      · simp only [ProfilePage.followButtonPressed, hf, not_false_eq_true, if_true, hp,
          Handler.andThen_apply, ProfilePage.follow, ProfilePage.fetchUsersInfo,
          Handler.issue_apply, List.cons_append, List.nil_append, List.mapIdx_cons,
          List.mapIdx_nil, Cmd.note, List.mem_cons, List.not_mem_nil, or_false, forall_eq_or_imp,
          forall_eq, zero_add, hn]
        exact ⟨⟨hfollowing _, by simp [pageNote], rfl⟩,
          ⟨noted_modifyFollowers hb hnew, by simp, rfl⟩, trivial, trivial⟩
    · refine ⟨?_, ?_⟩
      · simp only [ProfilePage.followButtonPressed, hf, not_false_eq_true, if_true, hp]
        exact ⟨h.otherUserUid, h.otherUser⟩
      · simp only [ProfilePage.followButtonPressed, hf, not_false_eq_true, if_true, hp,
          Bool.false_eq_true, if_false, Handler.andThen_apply, ProfilePage.requestFollow,
          ProfilePage.fetchUsersInfo, Handler.issue_apply]
        -- the only write is the first one, that of the requests
        split
        · simp [Cmd.note, Proper, About]
        · simp only [List.cons_append, List.nil_append, List.mapIdx_cons, List.mapIdx_nil,
            Cmd.note, List.mem_cons, List.not_mem_nil, or_false, forall_eq_or_imp, forall_eq]
          exact ⟨⟨noted_other _ fun _ => rfl, by simp [pageNote], rfl⟩, trivial⟩

/-- The user does something on the page. -/
theorem pageOf_event {e : ProfilePage.Event} {r : ProfilePage × List ProfilePage.Cmd}
    (h : PageOf b l) (hr : ProfilePage.event e l db = some r) :
    PageOf b r.1 ∧ ∀ c ∈ r.2.mapIdx fun i c => c.note (pageNote e l i), Proper b c := by
  cases e with
  | viewWillAppear =>
    cases hr
    simp only [ProfilePage.viewWillAppear]
    split
    · rename_i uid huid
      split
      · exact ⟨⟨by simp [ProfilePage.setUpProfilePage], h.otherUser⟩, by simp⟩
      · refine ⟨h, fun c hc => ?_⟩
        rw [List.mem_singleton.mp hc]
        exact h.otherUserUid uid huid
    · exact ⟨⟨h.otherUserUid, h.otherUser⟩, by simp⟩
  | followButtonPressed =>
    simp only [ProfilePage.event] at hr
    split at hr
    · rename_i uid other huid hother
      cases hr
      exact pageOf_press h huid hother
    · cases hr
  | currentUserFetched =>
    simp only [ProfilePage.event] at hr
    split at hr <;> cases hr
    · exact ⟨h, by simp⟩
    · exact ⟨⟨h.otherUserUid, h.otherUser⟩, by simp⟩

/-- **A step of a page.** -/
theorem Visiting.step {st st' : State Firestore ProfilePage (Write × Reason) ProfilePage.Callback}
    {lbl : Label Unit ProfilePage.Event} (h : Visiting b st) (hs : page.step lbl st = some st') :
    Visiting b st' := by
  have hawaited : ∀ k ∈ (st.awaited lbl).map Prod.fst, About b k := by
    intro k hk
    obtain ⟨x, hx, rfl⟩ := List.mem_map.mp hk
    exact h.ready _ (List.mem_map_of_mem (mem_ready_of_awaited hx))
  have htaken : ∀ w k q, st.queue = (w, k) :: q → ∀ (store : Firestore) (ok : Bool),
      Visiting b ⟨store, st.loc, q, st.ready ++ k.toList.map fun k => (k, some ok)⟩ := by
    intro w k q hq store ok
    have hk : k = none := (h.queue (w, k) (hq ▸ List.mem_cons_self)).2.2
    refine ⟨h.loc, fun x hx => h.queue x (hq ▸ List.mem_cons_of_mem _ hx), ?_⟩
    simpa [hk] using h.ready
  rcases step_runs hs with ⟨r, hr, rfl⟩ | ⟨w, k, q, hq, ⟨-, rfl⟩ | ⟨-, rfl⟩⟩
  · have hcode : PageOf b r.1 ∧ ∀ c ∈ r.2, Proper b c := by
      rcases runs_noted hr with ⟨e, r₀, -, hr₀, rfl⟩ | ⟨k, ok, a, r₀, hk, hr₀, rfl⟩
      · exact pageOf_event h.loc hr₀
      · exact pageOf_react h.loc (h.ready k hk) hr₀
    refine ⟨hcode.1, fun x hx => ?_, fun k hk => ?_⟩
    · rcases List.mem_append.mp hx with hx | hx
      · exact h.queue x hx
      · exact hcode.2 _ (mem_writes.mp hx)
    · rw [List.map_append, List.mem_append] at hk
      rcases hk with hk | hk
      · exact hawaited k hk
      · obtain ⟨x, hx, rfl⟩ := List.mem_map.mp hk
        exact hcode.2 _ (mem_requests hx)
  · exact htaken w k q hq _ true
  · exact htaken w k q hq _ false

end

/-! ## The user -/

/-- What the user's client issues. -/
def OwnerProper (b : Uid) : Cmd (Write × Reason) FollowersList.Callback → Prop
  | .write x _ => Noted b x
  | .request _ => True

/-- The invariant of the user's client. -/
structure Owning (b : Uid)
    (st : State Firestore FollowersList (Write × Reason) FollowersList.Callback) : Prop where
  currentUser : st.loc.currentUser.uid = b
  queue : ∀ x ∈ st.queue, Noted b x.1

section

variable {b : Uid} {db : Firestore} {l : FollowersList}

theorem owner_react {k : FollowersList.Callback} {ok : Bool} {a : Unit}
    {r : FollowersList × List FollowersList.Cmd} (hl : l.currentUser.uid = b)
    (hr : FollowersList.react k ok a l db = some r) :
    r.1.currentUser.uid = b ∧ ∀ c ∈ r.2.map (Cmd.note .other), OwnerProper b c := by
  cases k with
  | userFetched uid =>
    simp only [FollowersList.react] at hr
    split at hr <;> cases hr
    refine ⟨hl, fun c hc => ?_⟩
    rw [List.mem_singleton.mp hc]
    exact noted_other _ fun _ => rfl
  | entriesFetched newsfeed uid =>
    cases hr
    refine ⟨hl, fun c hc => ?_⟩
    obtain ⟨c₀, hc₀, rfl⟩ := List.mem_map.mp hc
    dsimp only at hc₀
    split at hc₀
    · obtain ⟨e, -, rfl⟩ := List.mem_map.mp hc₀
      exact noted_feed fun _ => rfl
    · cases hc₀

theorem owner_event {e : OwnerEvent} {r : FollowersList × List FollowersList.Cmd}
    (hl : l.currentUser.uid = b) (hr : ownerProgram.event e l db = some r) :
    r.1.currentUser.uid = b ∧
      ∀ c ∈ r.2.mapIdx fun i c => c.note (ownerNote e l i), OwnerProper b c := by
  cases e with
  | switchToggled isOn =>
    cases hr
    refine ⟨hl, fun c hc => ?_⟩
    rw [List.mem_singleton.mp hc]
    exact noted_other _ fun _ => rfl
  | list e =>
    simp only [ownerProgram] at hr
    cases e with
    | viewWillAppear =>
      cases hr
      exact ⟨hl, by simp⟩
    | acceptRequest requestRow =>
      simp only [FollowersList.event] at hr
      split at hr
      · obtain ⟨uid, huid, rfl⟩ := Option.map_eq_some_iff.mp hr
        have hn : ownerNote (.list (.acceptRequest requestRow)) l 0 = .accept uid l.followers := by
          simp [ownerNote, huid]
        refine ⟨hl, ?_⟩
        simp only [FollowersList.acceptRequest, List.mapIdx_cons, List.mapIdx_nil, Cmd.note,
          List.mem_cons, List.not_mem_nil, or_false, forall_eq_or_imp, forall_eq, hn]
        exact ⟨noted_modifyFollowers hl fun _ => rfl, trivial, trivial,
          noted_other _ fun _ => rfl⟩
      · cases hr
    | denyRequest requestRow =>
      simp only [FollowersList.event] at hr
      split at hr
      · obtain ⟨uid, huid, rfl⟩ := Option.map_eq_some_iff.mp hr
        refine ⟨hl, fun c hc => ?_⟩
        rw [List.mem_singleton.mp hc]
        exact noted_other _ fun _ => rfl
      · cases hr
    | currentUserFetched =>
      simp only [FollowersList.event] at hr
      split at hr <;> cases hr
      · exact ⟨hl, by simp⟩
      · rename_i user hfetch
        exact ⟨(Firestore.fetchUser_eq_some hfetch).1.trans hl, by simp⟩

/-- **A step of the user.** -/
theorem Owning.step
    {st st' : State Firestore FollowersList (Write × Reason) FollowersList.Callback}
    {lbl : Label Unit OwnerEvent} (h : Owning b st) (hs : owner.step lbl st = some st') :
    Owning b st' := by
  rcases step_runs hs with ⟨r, hr, rfl⟩ | ⟨w, k, q, hq, ⟨-, rfl⟩ | ⟨-, rfl⟩⟩
  · have hcode : r.1.currentUser.uid = b ∧ ∀ c ∈ r.2, OwnerProper b c := by
      rcases runs_noted hr with ⟨e, r₀, -, hr₀, rfl⟩ | ⟨k, ok, a, r₀, -, hr₀, rfl⟩
      · exact owner_event h.currentUser hr₀
      · exact owner_react h.currentUser hr₀
    refine ⟨hcode.1, fun x hx => ?_⟩
    rcases List.mem_append.mp hx with hx | hx
    · exact h.queue x hx
    · exact hcode.2 _ (mem_writes.mp hx)
  · exact ⟨h.currentUser, fun x hx => h.queue x (hq ▸ List.mem_cons_of_mem _ hx)⟩
  · exact ⟨h.currentUser, fun x hx => h.queue x (hq ▸ List.mem_cons_of_mem _ hx)⟩

end

/-! ## Runs -/

/-- The invariant of a run. -/
structure Honest (b : Uid) (w : World ι) : Prop where
  pages : ∀ i, Visiting b (w.pages.state i)
  owner : Owning b w.ownerState

/-- Nobody enters with a list that is up to date but the one who is accepted. -/
theorem Reason.current_iff (now : List Uid) (n : Reason) : n.Current now ↔
    ∀ uid ∈ n.newFollowers now, uid ∉ now → ∃ fs, n = .accept uid fs := by
  cases n with
  | press me other =>
    simp only [Current, newFollowers, reduceCtorEq, exists_false, imp_false, not_not]
    split
    · simp only [List.mem_filter, ne_eq, decide_not, Bool.not_eq_true', decide_eq_false_iff_not,
        and_imp]
    · split
      · rename_i hpublic
        simp only [List.mem_append, List.mem_singleton, hpublic, forall_const]
        constructor
        · rintro ⟨hme, hfs⟩ uid (huid | rfl)
          · exact hfs uid huid
          · exact hme
        · exact fun h => ⟨h me.uid (Or.inr rfl), fun u hu => h u (Or.inl hu)⟩
      · rename_i hprivate
        exact iff_of_true (fun hpublic => absurd hpublic hprivate) fun uid huid => huid
  | accept uid fs =>
    simp only [Current, newFollowers, List.mem_append, List.mem_singleton, accept.injEq]
    constructor
    · rintro h u (hu | rfl) hnot
      · by_contra hne
        exact hnot (h u hu fun heq => hne ⟨fs, heq.symm, rfl⟩)
      · exact ⟨fs, rfl, rfl⟩
    · intro h u hu hne
      by_contra hnot
      obtain ⟨_, heq, -⟩ := h u (Or.inl hu) hnot
      exact hne heq.symm
  | other => simp [Current, newFollowers]

section

variable [DecidableEq ι] {b : Uid} {w w' : World ι} {x : Turn ι}

theorem Honest.step (h : Honest b w) (hs : w.step x = some w') : Honest b w' := by
  cases x with
  | page i lbl =>
    obtain ⟨st, hst, rfl⟩ := Option.map_eq_some_iff.mp hs
    refine ⟨fun j => ?_, h.owner.currentUser, h.owner.queue⟩
    by_cases hj : j = i
    · subst hj
      rw [state_put_self]
      exact (h.pages j).step hst
    · rw [state_put_ne hj]
      exact ⟨(h.pages j).loc, (h.pages j).queue, (h.pages j).ready⟩
  | owner lbl =>
    obtain ⟨st, hst, rfl⟩ := Option.map_eq_some_iff.mp hs
    have ho := h.owner.step hst
    exact ⟨fun j => ⟨(h.pages j).loc, (h.pages j).queue, (h.pages j).ready⟩, ho.currentUser,
      ho.queue⟩

/-- The database changes by the write that takes effect. -/
theorem store_of_step (hs : w.step x = some w') :
    w'.store = (w.taking x).elim w.store fun y => y.1.apply w.store := by
  cases x with
  | page i lbl =>
    obtain ⟨st, hst, rfl⟩ := Option.map_eq_some_iff.mp hs
    exact Async.store_of_step hst
  | owner lbl =>
    obtain ⟨st, hst, rfl⟩ := Option.map_eq_some_iff.mp hs
    exact Async.store_of_step hst

omit [DecidableEq ι] in
/-- Its note is right, and only the user accepts. -/
theorem Honest.taking (h : Honest b w) {y : Write × Reason} (hy : w.taking x = some y) :
    Noted b y ∧ ∀ uid fs, y.2 = .accept uid fs → x = .owner .apply := by
  cases x with
  | page i lbl =>
    obtain ⟨-, k, hmem⟩ := mem_queue_of_taking hy
    obtain ⟨hnoted, hacc, -⟩ := (h.pages i).queue _ hmem
    exact ⟨hnoted, fun uid fs heq => absurd heq (hacc uid fs)⟩
  | owner lbl =>
    obtain ⟨rfl, k, hmem⟩ := mem_queue_of_taking hy
    exact ⟨h.owner.queue _ hmem, fun _ _ _ => rfl⟩

/-- **What a step does to the followers of a private user.** -/
theorem Honest.consented_step (h : Honest b w) (hs : w.step x = some w') :
    Consented b w x ↔ UpToDate b w x := by
  have hstore := store_of_step hs
  by_cases hpriv : Private b w.store
  swap
  · exact iff_of_true (fun _ _ hp => absurd hp hpriv) fun hp => absurd hp hpriv
  have hdoc : (w.store.users.lookup b).isSome := by
    obtain ⟨d, hd, -⟩ := Option.map_eq_some_iff.mp hpriv
    simp [hd]
  cases hy : w.taking x with
  | none =>
    rw [hy] at hstore
    refine iff_of_true (fun w₁ hs₁ _ uid huid hnot => absurd huid ?_) fun _ y hy' => ?_
    · obtain rfl := Option.some.inj (hs.symm.trans hs₁)
      rwa [hstore]
    · rw [hy] at hy'
      cases hy'
  | some y =>
    obtain ⟨write, n⟩ := y
    obtain ⟨hnoted, hown⟩ := h.taking hy
    rw [hy] at hstore
    have hfollowers : followers b w'.store = n.newFollowers (followers b w.store) := by
      rw [hstore]
      exact hnoted.followers hdoc
    have hcurrent := n.current_iff (followers b w.store)
    constructor
    · rintro hc - _ hy'
      obtain rfl := Option.some.inj (hy.symm.trans hy')
      refine hcurrent.mpr fun uid huid hnot => ?_
      obtain ⟨-, write', fs, heq⟩ := hc w' hs hpriv uid (hfollowers ▸ huid) hnot
      rw [hy] at heq
      exact ⟨fs, (Prod.mk.inj (Option.some.inj heq)).2⟩
    · intro hc w₁ hs₁ _ uid huid hnot
      obtain rfl := Option.some.inj (hs.symm.trans hs₁)
      rw [hfollowers] at huid
      obtain ⟨fs, rfl⟩ := hcurrent.mp (hc hpriv _ hy) uid huid hnot
      exact ⟨hown uid fs rfl, write, fs, hy⟩

/-- **Private accounts and consent**: in a run of any number of clients on the profile page of
`b` with the client of `b`, nobody enters the followers of `b` while the account is private but by
being accepted, if and only if the copies of `b` that were used for the lists of followers that
take effect meanwhile are up to date. -/
theorem consented_iff {db : Firestore} {me : ι → User} {user : User}
    {tr : List (Turn ι × World ι)}
    (hrun : IsRun (fun w x w' => w.step x = some w') (World.start db me user) tr) :
    Meets (Consented user.uid) (World.start db me user) tr ↔
      Meets (UpToDate user.uid) (World.start db me user) tr := by
  refine hrun.meets_congr (I := Honest user.uid)
    (fun w x w' h hs => ⟨h.step hs, h.consented_step hs⟩) ⟨fun i => ?_, rfl, ?_⟩
  · refine ⟨⟨fun u hu => ?_, fun u hu => ?_⟩, ?_, ?_⟩
    · exact (Option.some.inj hu).symm
    · cases hu
    · simp [World.start, Shared.state]
    · simp [World.start, Shared.state]
  · simp [World.start, World.ownerState]

end

/-! ## Two runs -/

/-- A new user, whose account is public or private. -/
def sampleBob (publicUser : Bool) : User :=
  { newUser "bob" with publicUser := publicUser, uid := "bob" }

/-- A client on the page of that user. -/
def sampleWorld (publicUser : Bool) : World Unit :=
  World.start
    { Firestore.empty with
      users := (∅ : Collection Uid UserDoc).insert "bob" (sampleBob publicUser).toUserDoc
        |>.insert "ann" (newUser "ann") }
    (fun _ => sampleAnn) (sampleBob publicUser)

/-- The page is loaded. -/
def pageVisit : List (Turn Unit) :=
  [.page () (.event .viewWillAppear), .page () (.deliver 0 true ())]

/-- The button is pressed on the page of a private user, who accepts the request. -/
def sampleAccepting : List (Turn Unit) :=
  pageVisit ++ [.page () (.event .followButtonPressed), .page () .apply,
    .owner (.event (.list .currentUserFetched)), .owner (.event (.list .viewWillAppear)),
    .owner (.event (.list (.acceptRequest 0))), .owner .apply, .owner .apply]

/-- The account is made private when the page has been loaded. -/
def sampleSwitching : List (Turn Unit) :=
  pageVisit ++ [.owner (.event (.switchToggled true)), .owner .apply,
    .page () (.event .followButtonPressed), .page () .apply]

/-- Who has been accepted has entered with consent. -/
theorem consented_sample : ∃ tr ∈ play World.step sampleAccepting (sampleWorld false),
    Meets (Consented "bob") (sampleWorld false) tr ∧
      "ann" ∈ followers "bob" (final (sampleWorld false) tr).store := by
  obtain ⟨tr, htr⟩ := Option.isSome_iff_exists.mp
    (by decide +kernel : (play World.step sampleAccepting (sampleWorld false)).isSome)
  have hend : ∀ tr ∈ play World.step sampleAccepting (sampleWorld false),
      Meets (UpToDate "bob") (sampleWorld false) tr ∧
        "ann" ∈ followers "bob" (final (sampleWorld false) tr).store := by decide +kernel
  obtain ⟨hmeets, hin⟩ := hend tr htr
  exact ⟨tr, htr, (consented_iff (isRun_of_play htr)).mpr hmeets, hin⟩

/-- **A follower without consent**: the page is loaded while the account is public, the account is
made private, and then the button is pressed. The user has accepted nobody. -/
theorem entered_without_consent : ∃ (tr : List (Turn Unit × World Unit)) (w : World Unit),
    IsRun (fun w x w' => w.step x = some w') (sampleWorld true) (tr ++ [(.page () .apply, w)]) ∧
      Private "bob" (final (sampleWorld true) tr).store ∧
      "ann" ∉ followers "bob" (final (sampleWorld true) tr).store ∧
      "ann" ∈ followers "bob" w.store ∧
      ∀ x ∈ tr, ∀ row, x.1 ≠ .owner (.event (.list (.acceptRequest row))) := by
  obtain ⟨tr, htr⟩ := Option.isSome_iff_exists.mp
    (by decide +kernel : (play World.step sampleSwitching (sampleWorld true)).isSome)
  have hend : ∀ tr ∈ play World.step sampleSwitching (sampleWorld true),
      Private "bob" (final (sampleWorld true) tr).store ∧
      "ann" ∉ followers "bob" (final (sampleWorld true) tr).store ∧
      ∃ w ∈ (final (sampleWorld true) tr).step (.page () .apply),
        "ann" ∈ followers "bob" w.store := by decide +kernel
  obtain ⟨hpriv, hnot, w, hw, hin⟩ := hend tr htr
  refine ⟨tr, w, isRun_append.mpr ⟨isRun_of_play htr, hw, trivial⟩, hpriv, hnot, hin,
    fun x hx row heq => ?_⟩
  have hmem : x.1 ∈ sampleSwitching := labels_of_play htr ▸ List.mem_map_of_mem hx
  rw [heq] at hmem
  simp [sampleSwitching, pageVisit] at hmem

end Consent

end Wanderlust
