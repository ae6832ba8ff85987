import Wanderlust.Foundations.Runs
import Wanderlust.Foundations.Shared
import Wanderlust.Models.User

/-!
# Who is signed in

`LoginViewController`, `SignUpViewController`, `TabBarViewController` and the log-out button, with
the global `currentUser` and all code that assigns it: the listeners that are registered at each
log-in and by each tab bar, and the fetches of the screens. Of the screens there is what leads to
such a fetch.

Nothing removes a listener, and logging out leaves `currentUser` as it is. So the cached user is
that of the account now signed in as long as no fetch for another account is answered
(`identity_iff_own`). It would be one for an account that has signed in before
(`mem_signing_of_answered`): when one account only is signed in, there is no such fetch
(`identity_of_single`).
-/

namespace Wanderlust

open Async Runs

/-- Who registered a listener of a user: the log-in, or a tab bar. -/
inductive Listener
  | login
  | tabBar (i : ℕ)
  deriving DecidableEq

/-- The state of the client: the account that is signed in, the cached user, the listeners that
have been registered, and what is shown. -/
structure Session where
  /-- `Auth.auth().currentUser`. -/
  auth : Option Uid
  currentUser : Option User
  listeners : List (Listener × Uid)
  /-- The badge of each tab bar that has been loaded. -/
  badges : List (Option String)
  /-- The title and the message of the last alert. -/
  alert : Option (String × String)

namespace Session

/-- Whose fetch it is that assigns `currentUser`. -/
inductive Fetcher
  | listener (x : Listener)
  | signUp
  | profilePage
  | profilePicture
  | followingList
  deriving DecidableEq

inductive Callback
  -- `loginButtonPressed`
  | signedIn
  -- `signUpButtonPressed`
  | usernameChecked (username : String)
  -- `createUser`
  | userCreated (username : String)
  -- `performSegue` to the tab bar
  | tabBarLoaded
  -- `addSnapshotListener`
  | snapshot (x : Listener) (uid : Uid)
  -- `fetchUser` where its answer is assigned to `currentUser`
  | fetched (x : Fetcher) (uid : Uid)
  -- the update of `photoUrl`
  | photoUpdated
  -- `unfollow`
  | unfollowedFetched (uid : Uid)
  deriving DecidableEq

/-- What the user does. -/
inductive Event
  | loginViewDidLoad
  | loginButtonPressed (email password : String)
  | signUpButtonPressed (email password username : String)
  | logOutButtonPressed
  /-- `fetchUsersInfo` of a profile page. -/
  | fetchUsersInfo
  /-- A new profile picture has been stored. -/
  | pictureCommitted (url : URL)
  /-- `unfollow` of the list of followed users. -/
  | unfollow (uid : Uid)

abbrev Cmd := Async.Cmd Write Callback
abbrev Handler := Async.Handler Session Write Callback

/-- The client when it has been launched. -/
def launched : Session := ⟨none, none, [], [], none⟩

/-- `signOut`. -/
def signOut : Handler := .modify fun l => { l with auth := none }

/-- `showLoginError`. -/
def showLoginError (error : String) : Handler :=
  .modify fun l => { l with alert := some ("Log In Error", error) }

/-- `showSigninError`. -/
def showSigninError (error : String) : Handler :=
  .modify fun l => { l with alert := some ("Sign Up Error", error) }

/-- A listener is registered, and gets a first snapshot. -/
def addSnapshotListener (x : Listener) (uid : Uid) : Handler := fun l =>
  ({ l with listeners := l.listeners ++ [(x, uid)] }, [.request (.snapshot x uid)])

/-- The snapshots after a change of the document of `uid`. -/
def snapshots (uid : Uid) (l : Session) : List Callback :=
  (l.listeners.filter fun x => x.2 = uid).map fun x => .snapshot x.1 x.2

/-- The document of `uid` has changed. -/
def notify (uid : Uid) : Handler := .issue fun l => (snapshots uid l).map .request

/-- `performSegue` to the tab bar. -/
def performSegue : Handler := .issue fun _ => [.request .tabBarLoaded]

/-- `fetchUser` with a closure that assigns `currentUser`. -/
def fetch (x : Fetcher) (uid : Uid) : Handler := .issue fun _ => [.request (.fetched x uid)]

/-- The closure of `signIn`, for the account `uid`. -/
def signedIn (uid : Uid) : Handler :=
  (Handler.modify fun l => { l with auth := some uid }).andThen <|
    performSegue.andThen (addSnapshotListener .login uid)

/-- The closure of `createUser`, for the new account `uid`. -/
def userCreated (uid : Uid) (username : String) : Handler :=
  (Handler.modify fun l => { l with auth := some uid }).andThen <|
    (Handler.issue fun _ => [.write (addUserToFirestore uid (newUser username)) none]).andThen <|
      (notify uid).andThen <| (fetch .signUp uid).andThen performSegue

/-- `viewDidLoad` of the tab bar, for the account `uid`. -/
def tabBarViewDidLoad (uid : Uid) : Handler := fun l =>
  addSnapshotListener (.tabBar l.badges.length) uid { l with badges := l.badges ++ [none] }

/-- The badge for the requests. -/
def badgeValue (user : User) : Option String :=
  if user.requests.length > 0 then some (toString user.requests.length) else none

/-- The closure of `fetchUser` that assigns `currentUser`. That of a tab bar uses it. -/
def assign (x : Fetcher) (user : Option User) (l : Session) : Option Session :=
  match x with
  | .listener (.tabBar i) => user.map fun user =>
    { l with currentUser := some user, badges := l.badges.set i (badgeValue user) }
  | _ => some { l with currentUser := user }

/-- The closure of `unfollow`, with the user who is no longer followed. -/
def unfollowed (currentUser : User) (account : Uid) (user : User) : Handler :=
  (Handler.issue fun _ => unfollowUser currentUser currentUser.following user).andThen <|
    (notify currentUser.uid).andThen <| (notify user.uid).andThen (fetch .followingList account)

/-- The code of the closures. The answer of `signIn` and of `createUser` is the account, or the
description of the error. -/
def react : Callback → Bool → String → Session → Firestore → Option (Session × List Cmd)
  | .signedIn, ok, a, l, db =>
    if ok then
      -- an account has a document
      if (db.users.lookup a).isSome then some (signedIn a l) else none
    else some (showLoginError a l)
  | .usernameChecked username, ok, _, l, db =>
    if ok then
      if db.users.docs.any fun d => d.2.username = username then
        some (showSigninError "Username is taken. Please choose another." l)
      else some (l, [.request (.userCreated username)])
    else some (l, [])
  | .userCreated username, ok, a, l, db =>
    if ok then
      -- the account is new
      if (db.users.lookup a).isSome then none else some (userCreated a username l)
    else some (showSigninError a l)
  | .tabBarLoaded, _, _, l, _ => l.auth.map fun uid => tabBarViewDidLoad uid l
  | .snapshot x uid, ok, _, l, _ => some (if ok then fetch (.listener x) uid l else (l, []))
  | .fetched x uid, ok, _, l, db =>
    (assign x (if ok then db.fetchUser uid else none) l).map fun l => (l, [])
  | .photoUpdated, ok, _, l, _ =>
    if ok then l.currentUser.map fun user => fetch .profilePicture user.uid l else some (l, [])
  | .unfollowedFetched uid, ok, _, l, db =>
    match l.currentUser, l.auth, if ok then db.fetchUser uid else none with
    | some currentUser, some account, some user => some (unfollowed currentUser account user l)
    | _, _, _ => none

/-- The code of the user's actions. -/
def event : Event → Session → Firestore → Option (Session × List Cmd)
  | .loginViewDidLoad, l, _ => some (signOut l)
  | .loginButtonPressed email password, l, _ =>
    if email = "" ∨ password = "" then
      some (showLoginError "Email and password fields cannot be empty" l)
    else some (l, [.request .signedIn])
  | .signUpButtonPressed email password username, l, _ =>
    if email = "" ∨ password = "" ∨ username = "" then
      some (showSigninError "All fields must be filled out" l)
    else some (l, [.request (.usernameChecked username)])
  | .logOutButtonPressed, l, _ => some (signOut l)
  | .fetchUsersInfo, l, _ => l.currentUser.map fun user => fetch .profilePage user.uid l
  | .pictureCommitted url, l, _ => l.currentUser.map fun user =>
    (Handler.issue fun _ => [.write (.updateUser user.uid fun d => { d with photoUrl := some url })
      (some .photoUpdated)]).andThen (notify user.uid) l
  | .unfollow uid, l, _ => some (l, [.request (.unfollowedFetched uid)])

/-- The client of an account. -/
def program : Program Firestore Session Write Callback String Event where
  apply := Write.apply
  react := react
  event := event

/-! ## Runs of a client -/

/-- A client since it was launched. `fetched` tells whether `users/<uid>` has been fetched for the
account now signed in, and is not kept by the code. -/
structure Launch where
  state : State Firestore Session Write Callback
  fetched : Bool

/-- A step of the client, or a change that somebody makes to the document of a user. -/
inductive Act
  | client (lbl : Label String Event)
  | changed (uid : Uid) (f : UserDoc → UserDoc)

/-- The callback that a step delivers. -/
def delivered (st : State Firestore Session Write Callback) : Label String Event → Option Callback
  | .deliver i _ _ => (st.ready[i]?).map Prod.fst
  | _ => none

/-- The account whose document a step brings, if it assigns `currentUser`. -/
def answered (st : State Firestore Session Write Callback) (lbl : Label String Event) :
    Option Uid :=
  match delivered st lbl with
  | some (.fetched _ uid) => some uid
  | _ => none

/-- Every fetch succeeds. -/
def succeeds (st : State Firestore Session Write Callback) (lbl : Label String Event) : Prop :=
  ∀ uid ∈ answered st lbl, (program.view st).users.lookup uid ≠ none ∧
    match lbl with
    | .deliver _ ok _ => ok = true
    | _ => True

instance (st : State Firestore Session Write Callback) : DecidablePred (succeeds st)
  | .event _ => inferInstanceAs (Decidable (∀ uid ∈ _, _ ∧ True))
  | .apply => inferInstanceAs (Decidable (∀ uid ∈ _, _ ∧ True))
  | .reject => inferInstanceAs (Decidable (∀ uid ∈ _, _ ∧ True))
  | .deliver _ ok _ => inferInstanceAs (Decidable (∀ uid ∈ _, _ ∧ ok = true))

/-- A step. When the account changes, its document has not been fetched yet. -/
def Launch.turn (w : Launch) : Act → Option Launch
  | .client lbl =>
    if succeeds w.state lbl then
      (program.step lbl w.state).map fun st =>
        ⟨st, st.loc.auth = w.state.loc.auth ∧
          (w.fetched ∨ ∃ uid ∈ answered w.state lbl, st.loc.auth = some uid)⟩
    else none
  | .changed uid f => some
    ⟨{ w.state with
        store := (Write.updateUser uid f).apply w.state.store
        ready := w.state.ready ++ (snapshots uid w.state.loc).map fun k => (k, none) }, w.fetched⟩

/-- A client on a database. -/
def Launch.start (db : Firestore) : Launch := ⟨⟨db, launched, [], []⟩, false⟩

/-- The cached user is that of the account now signed in, once its document has been fetched. -/
def Launch.Identity (w : Launch) : Prop :=
  w.fetched = true → ∃ user, w.state.loc.currentUser = some user ∧
    w.state.loc.auth = some user.uid

/-- Once the document of the account has been fetched, no fetch for another account is answered. -/
def own (w : Launch) : Act → Prop
  | .client lbl => ∀ uid ∈ answered w.state lbl, w.fetched = true → w.state.loc.auth = some uid
  | .changed _ _ => True

instance (w : Launch) : DecidablePred (own w)
  | .client lbl => inferInstanceAs (Decidable (∀ uid ∈ answered w.state lbl, _))
  | .changed _ _ => inferInstanceAs (Decidable True)

section

variable {db : Firestore} {w w' : Launch} {x : Act} {l : Session}
  {st st' : State Firestore Session Write Callback} {lbl : Label String Event}

/-- No action of the user assigns `currentUser`. -/
theorem currentUser_event {e : Event} {r : Session × List Cmd} (h : event e l db = some r) :
    r.1.currentUser = l.currentUser := by
  cases e with
  | loginViewDidLoad => cases h; rfl
  | loginButtonPressed email password =>
    simp only [event] at h
    split at h <;> cases h <;> rfl
  | signUpButtonPressed email password username =>
    simp only [event] at h
    split at h <;> cases h <;> rfl
  | logOutButtonPressed => cases h; rfl
  | fetchUsersInfo =>
    obtain ⟨user, -, rfl⟩ := Option.map_eq_some_iff.mp h
    rfl
  | pictureCommitted url =>
    obtain ⟨user, -, rfl⟩ := Option.map_eq_some_iff.mp h
    rfl
  | unfollow uid => cases h; rfl

/-- Only the answer of a fetch assigns `currentUser`. -/
theorem currentUser_react {k : Callback} {ok : Bool} {a : String} {r : Session × List Cmd}
    (hk : ∀ x uid, k ≠ .fetched x uid) (h : react k ok a l db = some r) :
    r.1.currentUser = l.currentUser := by
  cases k with
  | signedIn =>
    simp only [react] at h
    split_ifs at h <;> cases h <;> rfl
  | usernameChecked username =>
    simp only [react] at h
    split_ifs at h <;> cases h <;> rfl
  | userCreated username =>
    simp only [react] at h
    split_ifs at h <;> cases h <;> rfl
  | tabBarLoaded =>
    obtain ⟨uid, -, rfl⟩ := Option.map_eq_some_iff.mp h
    rfl
  | snapshot x uid =>
    cases h
    split_ifs <;> rfl
  | fetched x uid => exact absurd rfl (hk x uid)
  | photoUpdated =>
    simp only [react] at h
    split_ifs at h
    · obtain ⟨user, -, rfl⟩ := Option.map_eq_some_iff.mp h
      rfl
    · cases h; rfl
  | unfollowedFetched uid =>
    simp only [react] at h
    split at h <;> cases h
    rfl

/-- The answer of a fetch that succeeds. -/
theorem currentUser_fetched {x : Fetcher} {uid : Uid} {a : String} {r : Session × List Cmd}
    {e : UserDoc} (he : db.users.lookup uid = some e)
    (h : react (.fetched x uid) true a l db = some r) :
    r.1.currentUser = some { e with uid := uid } ∧ r.1.auth = l.auth ∧ r.2 = [] := by
  have hfetch : db.fetchUser uid = some { e with uid := uid } := by simp [Firestore.fetchUser, he]
  simp only [react, hfetch, if_true, Option.map_eq_some_iff] at h
  obtain ⟨l', hl', rfl⟩ := h
  simp only [assign] at hl'
  split at hl' <;> cases hl' <;> exact ⟨rfl, rfl, rfl⟩

/-- **Who assigns `currentUser`**: a step of the client leaves it as it is, or it answers a fetch,
and then the account stays the same. -/
theorem currentUser_step (hs : succeeds st lbl) (h : program.step lbl st = some st') :
    answered st lbl = none ∧ st'.loc.currentUser = st.loc.currentUser ∨
    ∃ user, answered st lbl = some user.uid ∧ st'.loc.currentUser = some user ∧
      st'.loc.auth = st.loc.auth := by
  rcases step_cases h with ⟨e, r, rfl, he, rfl⟩ | ⟨i, ok, a, k, o, r, rfl, hk, hr, rfl⟩ |
    ⟨_, _, _, rfl, _, rfl⟩ | ⟨_, _, _, rfl, _, rfl⟩
  · exact Or.inl ⟨rfl, currentUser_event he⟩
  · have hdel : delivered st (.deliver i ok a) = some k := by simp [delivered, hk]
    by_cases hfetch : ∃ x uid, k = .fetched x uid
    · obtain ⟨x, uid, rfl⟩ := hfetch
      have hans : answered st (.deliver i ok a) = some uid := by simp [answered, hdel]
      obtain ⟨hdoc, rfl⟩ := hs uid hans
      obtain ⟨e, he⟩ := Option.ne_none_iff_exists'.mp hdoc
      obtain ⟨hcur, hauth, -⟩ := currentUser_fetched (a := a) he hr
      exact Or.inr ⟨_, hans, hcur, hauth⟩
    · have hk' : ∀ x uid, k ≠ .fetched x uid := fun x uid hx => hfetch ⟨x, uid, hx⟩
      refine Or.inl ⟨?_, currentUser_react hk' hr⟩
      cases k <;> simp_all [answered]
  · exact Or.inl ⟨rfl, rfl⟩
  · exact Or.inl ⟨rfl, rfl⟩

/-- A step that meets the condition keeps the identity. -/
theorem Launch.Identity.step (h : w.Identity) (hx : w.turn x = some w') (hown : own w x) :
    w'.Identity := by
  cases x with
  | changed uid f =>
    cases hx
    exact h
  | client lbl =>
    simp only [Launch.turn] at hx
    split at hx
    · rename_i hs
      obtain ⟨st', hst', rfl⟩ := Option.map_eq_some_iff.mp hx
      intro hfetched
      simp only [decide_eq_true_eq] at hfetched
      obtain ⟨hauth, hfetched⟩ := hfetched
      rcases currentUser_step hs hst' with ⟨hans, hcur⟩ | ⟨user, hans, hcur, -⟩
      · rcases hfetched with hfetched | ⟨uid, huid, -⟩
        · obtain ⟨user, huser, hid⟩ := h hfetched
          exact ⟨user, hcur.trans huser, hauth.trans hid⟩
        · rw [hans] at huid
          cases huid
      · refine ⟨user, hcur, ?_⟩
        rcases hfetched with hfetched | ⟨uid, huid, hid⟩
        · exact hauth.trans (hown _ hans hfetched)
        · rw [hans] at huid
          cases huid
          exact hid
    · cases hx

/-- A step after which the identity holds meets the condition. -/
theorem own_of_identity (h : w'.Identity) (hx : w.turn x = some w') : own w x := by
  cases x with
  | changed uid f => trivial
  | client lbl =>
    simp only [Launch.turn] at hx
    split at hx
    · rename_i hs
      obtain ⟨st', hst', rfl⟩ := Option.map_eq_some_iff.mp hx
      intro uid huid hfetched
      rcases currentUser_step hs hst' with ⟨hans, -⟩ | ⟨user, hans, hcur, hauth⟩
      · rw [hans] at huid
        cases huid
      · rw [hans] at huid
        cases huid
        obtain ⟨user', huser', hid⟩ := h (by simp [hauth, hfetched])
        obtain rfl : user = user' := Option.some.inj (hcur.symm.trans huser')
        exact hauth.symm.trans hid
    · cases hx

/-- **The cached identity**: in every state of a run, once the document of the account now signed
in has been fetched, the cached user is that account, if and only if from then on no fetch for
another account is answered. -/
theorem identity_iff_own {tr : List (Act × Launch)}
    (h : IsRun (fun w x w' => w.turn x = some w') (Launch.start db) tr) :
    (∀ x ∈ tr, x.2.Identity) ↔ Meets own (Launch.start db) tr := by
  have hstart : (Launch.start db).Identity := by
    intro hfetched
    cases hfetched
  exact h.forall_iff_meets (fun _ hw => hw) (fun _ _ _ hw hx hown => hw.step hx hown)
    (fun _ _ _ _ hx hw' => own_of_identity hw' hx) hstart

end

/-- Two accounts. -/
def sampleAccounts : Firestore :=
  { Firestore.empty with
    users := ((∅ : Collection Uid UserDoc).insert "ann" (newUser "ann")).insert "bob"
      (newUser "bob") }

/-- An account logs in, the tab bar is loaded, and both listeners get the user. -/
def sampleLogIn (uid : Uid) : List Act :=
  [.client (.event (.loginButtonPressed uid "password")), .client (.deliver 0 true uid),
    .client (.deliver 0 true ""), .client (.deliver 0 true ""), .client (.deliver 0 true ""),
    .client (.deliver 0 true ""), .client (.deliver 0 true "")]

/-- Ann logs in and out again, then Bob logs in. -/
def sampleSwitch : List Act :=
  sampleLogIn "ann" ++ .client (.event .logOutButtonPressed) :: sampleLogIn "bob"

/-- Somebody asks to follow Ann. -/
def sampleChange : List Act :=
  [.changed "ann" fun d => { d with requests := d.requests ++ ["bob"] },
    .client (.deliver 0 true ""), .client (.deliver 1 true "")]

/-- Nobody changes the document of Ann. -/
theorem identity_iff_own_sample :
    ∃ tr ∈ play Launch.turn sampleSwitch (Launch.start sampleAccounts), ∀ x ∈ tr, x.2.Identity := by
  obtain ⟨tr, htr⟩ := Option.isSome_iff_exists.mp
    (by decide +kernel : (play Launch.turn sampleSwitch (Launch.start sampleAccounts)).isSome)
  have hown : ∀ tr ∈ play Launch.turn sampleSwitch (Launch.start sampleAccounts),
      Meets own (Launch.start sampleAccounts) tr := by decide +kernel
  exact ⟨tr, htr, (identity_iff_own (isRun_of_play htr)).mpr (hown tr htr)⟩

/-- The listener of Ann brings back her user, while Bob is signed in. -/
theorem stale_identity :
    ∃ tr, IsRun (fun w x w' => w.turn x = some w') (Launch.start sampleAccounts) tr ∧
      ∃ x ∈ tr, x.2.fetched = true ∧ x.2.state.loc.auth = some "bob" ∧
        ∃ user ∈ x.2.state.loc.currentUser, user.uid = "ann" := by
  obtain ⟨tr, htr⟩ := Option.isSome_iff_exists.mp (by decide +kernel :
    (play Launch.turn (sampleSwitch ++ sampleChange) (Launch.start sampleAccounts)).isSome)
  have hend : ∀ tr ∈ play Launch.turn (sampleSwitch ++ sampleChange) (Launch.start sampleAccounts),
      ∃ x ∈ tr, x.2.fetched = true ∧ x.2.state.loc.auth = some "bob" ∧
        ∃ user ∈ x.2.state.loc.currentUser, user.uid = "ann" := by decide +kernel
  exact ⟨tr, isRun_of_play htr, hend tr htr⟩

/-! ## Who has signed in -/

/-- Who signs in or signs up by a step. -/
def signing (w : Launch) : Act → List Uid
  | .client (.deliver i true a) =>
    match delivered w.state (.deliver i true a) with
    | some .signedIn | some (.userCreated _) => [a]
    | _ => []
  | _ => []

/-- Who signs in or signs up is `u`. -/
def single (u : Uid) (w : Launch) (x : Act) : Prop := ∀ a ∈ signing w x, a = u

/-- The account that a callback is about, where it brings the document of one to `currentUser`. -/
def Callback.account : Callback → Option Uid
  | .snapshot _ uid => some uid
  | .fetched _ uid => some uid
  | _ => none

/-- All accounts that the client has to do with have the property. -/
structure Among (P : Uid → Prop) (l : Session) : Prop where
  auth : ∀ uid ∈ l.auth, P uid
  currentUser : ∀ user ∈ l.currentUser, P user.uid
  listeners : ∀ x ∈ l.listeners, P x.2

/-- What is put on its way is about such accounts. -/
def Bound (P : Uid → Prop) (cs : List Cmd) : Prop :=
  ∀ c ∈ cs, ∀ k ∈ c.callback, ∀ uid ∈ k.account, P uid

/-- What code that has been run leaves behind is about such accounts. -/
abbrev Minds (P : Uid → Prop) (r : Session × List Cmd) : Prop := Among P r.1 ∧ Bound P r.2

section

variable {db : Firestore} {w w' : Launch} {x : Act} {l : Session} {u : Uid}
  {P : Uid → Prop}

theorem bound_nil : Bound P [] := fun _ h => nomatch h

theorem bound_single {c : Cmd} (h : ∀ k ∈ c.callback, ∀ uid ∈ k.account, P uid) :
    Bound P [c] := by
  intro c' hc'
  obtain rfl := List.mem_singleton.mp hc'
  exact h

theorem bound_append {cs cs' : List Cmd} (h : Bound P cs) (h' : Bound P cs') :
    Bound P (cs ++ cs') :=
  fun c hc => (List.mem_append.mp hc).elim (h c) (h' c)

theorem among_andThen {f g : Handler} (hf : Minds P (f l))
    (hg : ∀ l, Among P l → Minds P (g l)) :
    Minds P (f.andThen g l) :=
  ⟨(hg _ hf.1).1, bound_append hf.2 (hg _ hf.1).2⟩

theorem among_signOut (hl : Among P l) : Minds P (signOut l) :=
  ⟨{ hl with auth := by simp [signOut] }, bound_nil⟩

theorem among_account (hu : P u) (hl : Among P l) : Among P { l with auth := some u } :=
  { hl with auth := by simpa using hu }

theorem among_addSnapshotListener (x : Listener) (hu : P u) (hl : Among P l) :
    Minds P (addSnapshotListener x u l) := by
  refine ⟨{ hl with listeners := fun y hy => ?_ },
    bound_single (by simpa [Cmd.callback, Callback.account] using hu)⟩
  rcases List.mem_append.mp hy with hy | hy
  · exact hl.listeners y hy
  · rw [List.mem_singleton.mp hy]
    exact hu

/-- Whatever changes, the listeners ask for such accounts only. -/
theorem account_of_snapshots (hl : Among P l) {uid : Uid} {k : Callback}
    (hk : k ∈ snapshots uid l) : ∀ v ∈ k.account, P v := by
  obtain ⟨x, hx, rfl⟩ := List.mem_map.mp hk
  intro v hv
  obtain rfl : x.2 = v := by simpa [Callback.account] using hv
  exact hl.listeners x (List.mem_of_mem_filter hx)

theorem among_notify (uid : Uid) (hl : Among P l) :
    Minds P (notify uid l) := by
  refine ⟨hl, fun c hc k hk => ?_⟩
  obtain ⟨k', hk', rfl⟩ := List.mem_map.mp hc
  obtain rfl : k' = k := Option.some.inj hk
  exact account_of_snapshots hl hk'

theorem among_performSegue (hl : Among P l) :
    Minds P (performSegue l) :=
  ⟨hl, bound_single (by simp [Cmd.callback, Callback.account])⟩

theorem among_fetch (x : Fetcher) (hu : P u) (hl : Among P l) :
    Minds P (fetch x u l) :=
  ⟨hl, bound_single (by simpa [Cmd.callback, Callback.account] using hu)⟩

theorem among_signedIn (hu : P u) (hl : Among P l) : Minds P (signedIn u l) :=
  among_andThen ⟨among_account hu hl, bound_nil⟩ fun _ hl =>
    among_andThen (among_performSegue hl) fun _ hl => among_addSnapshotListener _ hu hl

theorem among_userCreated (username : String) (hu : P u) (hl : Among P l) :
    Minds P (userCreated u username l) :=
  among_andThen ⟨among_account hu hl, bound_nil⟩ fun _ hl =>
    among_andThen ⟨hl, bound_single (by simp [Cmd.callback, Callback.account])⟩ fun _ hl =>
      among_andThen (among_notify _ hl) fun _ hl =>
        among_andThen (among_fetch _ hu hl) fun _ hl => among_performSegue hl

theorem among_unfollowed (currentUser user : User) (hu : P u) (hl : Among P l) :
    Minds P (unfollowed currentUser u user l) :=
  among_andThen ⟨hl, by simp [Bound, unfollowUser, Cmd.callback]⟩ fun _ hl =>
    among_andThen (among_notify _ hl) fun _ hl =>
      among_andThen (among_notify _ hl) fun _ hl => among_fetch _ hu hl

theorem among_event (hl : Among P l) {e : Event} {r : Session × List Cmd}
    (h : event e l db = some r) : Minds P r := by
  cases e with
  | loginViewDidLoad =>
    cases h
    exact among_signOut hl
  | loginButtonPressed email password =>
    simp only [event] at h
    split at h <;> cases h
    · exact ⟨⟨hl.auth, hl.currentUser, hl.listeners⟩, bound_nil⟩
    · exact ⟨hl, bound_single (by simp [Cmd.callback, Callback.account])⟩
  | signUpButtonPressed email password username =>
    simp only [event] at h
    split at h <;> cases h
    · exact ⟨⟨hl.auth, hl.currentUser, hl.listeners⟩, bound_nil⟩
    · exact ⟨hl, bound_single (by simp [Cmd.callback, Callback.account])⟩
  | logOutButtonPressed =>
    cases h
    exact among_signOut hl
  | fetchUsersInfo =>
    obtain ⟨user, huser, rfl⟩ := Option.map_eq_some_iff.mp h
    exact among_fetch _ (hl.currentUser user huser) hl
  | pictureCommitted url =>
    obtain ⟨user, huser, rfl⟩ := Option.map_eq_some_iff.mp h
    have hbound := bound_single (P := P) (c := .write (.updateUser user.uid fun d =>
      { d with photoUrl := some url }) (some .photoUpdated))
      (by simp [Cmd.callback, Callback.account])
    exact among_andThen ⟨hl, hbound⟩ fun _ hl => among_notify _ hl
  | unfollow uid =>
    cases h
    exact ⟨hl, bound_single (by simp [Cmd.callback, Callback.account])⟩

theorem among_react (hl : Among P l) {k : Callback} {ok : Bool} {a : String}
    {r : Session × List Cmd} (hk : ∀ uid ∈ k.account, P uid)
    (ha : ok = true → (k = .signedIn ∨ ∃ username, k = .userCreated username) → P a)
    (h : react k ok a l db = some r) : Minds P r := by
  have halert : ∀ alert, Among P { l with alert := alert } := fun _ =>
    ⟨hl.auth, hl.currentUser, hl.listeners⟩
  cases k with
  | signedIn =>
    simp only [react] at h
    split_ifs at h with hok <;> cases h
    · exact among_signedIn (ha hok (Or.inl rfl)) hl
    · exact ⟨halert _, bound_nil⟩
  | usernameChecked username =>
    simp only [react] at h
    split_ifs at h <;> cases h
    · exact ⟨halert _, bound_nil⟩
    · exact ⟨hl, bound_single (by simp [Cmd.callback, Callback.account])⟩
    · exact ⟨hl, bound_nil⟩
  | userCreated username =>
    simp only [react] at h
    split_ifs at h with hok <;> cases h
    · exact among_userCreated username (ha hok (Or.inr ⟨username, rfl⟩)) hl
    · exact ⟨halert _, bound_nil⟩
  | tabBarLoaded =>
    obtain ⟨uid, huid, rfl⟩ := Option.map_eq_some_iff.mp h
    exact among_addSnapshotListener _ (hl.auth uid huid) ⟨hl.auth, hl.currentUser, hl.listeners⟩
  | snapshot x uid =>
    cases h
    split_ifs
    · exact among_fetch _ (hk uid rfl) hl
    · exact ⟨hl, bound_nil⟩
  | fetched x uid =>
    obtain ⟨l', hl', rfl⟩ := Option.map_eq_some_iff.mp h
    have huser : ∀ user ∈ (if ok then db.fetchUser uid else none), P user.uid := by
      intro user huser
      split_ifs at huser
      · rw [(Firestore.fetchUser_eq_some huser).1]
        exact hk uid rfl
      · cases huser
    refine ⟨?_, bound_nil⟩
    simp only [assign] at hl'
    split at hl'
    · obtain ⟨user, hu, rfl⟩ := Option.map_eq_some_iff.mp hl'
      refine ⟨hl.auth, fun user' hu' => ?_, hl.listeners⟩
      obtain rfl : user = user' := Option.some.inj hu'
      exact huser user hu
    · cases hl'
      exact ⟨hl.auth, huser, hl.listeners⟩
  | photoUpdated =>
    simp only [react] at h
    split_ifs at h
    · obtain ⟨user, hu, rfl⟩ := Option.map_eq_some_iff.mp h
      exact among_fetch _ (hl.currentUser user hu) hl
    · cases h
      exact ⟨hl, bound_nil⟩
  | unfollowedFetched uid =>
    simp only [react] at h
    split at h
    · rename_i currentUser account user hcur hacc huser
      cases h
      exact among_unfollowed currentUser user (hl.auth account hacc) hl
    · cases h

/-- All accounts that a client has to do with have the property. -/
structure Launch.Among (P : Uid → Prop) (w : Launch) : Prop where
  loc : Session.Among P w.state.loc
  queue : ∀ x ∈ w.state.queue, ∀ k ∈ x.2, ∀ uid ∈ k.account, P uid
  ready : ∀ x ∈ w.state.ready, ∀ uid ∈ x.1.account, P uid

theorem Launch.Among.start : (Launch.start db).Among P := by
  refine ⟨⟨?_, ?_, ?_⟩, ?_, ?_⟩
  all_goals simp [Launch.start, launched]

/-- So has the account of a fetch that is answered. -/
theorem Launch.Among.of_answered (h : w.Among P) {lbl : Label String Event} {uid : Uid}
    (huid : uid ∈ answered w.state lbl) : P uid := by
  cases lbl with
  | deliver i ok a =>
    simp only [answered, delivered, Option.mem_def] at huid
    split at huid
    · rename_i x uid' hk
      obtain rfl : uid' = uid := Option.some.inj huid
      obtain ⟨y, hy, hyk⟩ := Option.map_eq_some_iff.mp hk
      exact h.ready y (List.mem_of_getElem? hy) uid' (by simp [hyk, Callback.account])
    · cases huid
  | event e => cases huid
  | apply => cases huid
  | reject => cases huid

theorem mem_requests_bound {cs : List Cmd} (h : Bound P cs) :
    ∀ x ∈ requests cs, ∀ uid ∈ x.1.account, P uid :=
  fun x hx => h _ (mem_requests hx) x.1 rfl

theorem mem_writes_bound {cs : List Cmd} (h : Bound P cs) :
    ∀ x ∈ writes cs, ∀ k ∈ x.2, ∀ uid ∈ k.account, P uid :=
  fun _ hx k hk => h _ (mem_writes.mp hx) k hk

theorem Launch.Among.mono (h : w.Among P) {Q : Uid → Prop} (hPQ : ∀ uid, P uid → Q uid) :
    w.Among Q where
  loc := ⟨fun uid hu => hPQ _ (h.loc.auth uid hu), fun user hu => hPQ _ (h.loc.currentUser user hu),
    fun y hy => hPQ _ (h.loc.listeners y hy)⟩
  queue y hy k hk uid hu := hPQ _ (h.queue y hy k hk uid hu)
  ready y hy uid hu := hPQ _ (h.ready y hy uid hu)

theorem Launch.Among.step (h : w.Among P) (hx : w.turn x = some w')
    (hu : ∀ a ∈ signing w x, P a) : w'.Among P := by
  cases x with
  | changed uid f =>
    cases hx
    refine ⟨h.loc, h.queue, fun y hy => ?_⟩
    rcases List.mem_append.mp hy with hy | hy
    · exact h.ready y hy
    · obtain ⟨k, hk, rfl⟩ := List.mem_map.mp hy
      exact account_of_snapshots h.loc hk
  | client lbl =>
    simp only [Launch.turn] at hx
    split at hx
    · obtain ⟨st', hst', rfl⟩ := Option.map_eq_some_iff.mp hx
      rcases step_cases hst' with ⟨e, r, rfl, he, rfl⟩ | ⟨i, ok, a, k, o, r, rfl, hk, hr, rfl⟩ |
        ⟨_, k, q, rfl, hq, rfl⟩ | ⟨_, k, q, rfl, hq, rfl⟩
      · obtain ⟨hloc, hbound⟩ := among_event h.loc he
        refine ⟨hloc, fun y hy => ?_, fun y hy => ?_⟩
        · exact (List.mem_append.mp hy).elim (h.queue y) (mem_writes_bound hbound y)
        · exact (List.mem_append.mp hy).elim (h.ready y) (mem_requests_bound hbound y)
      · have ha : ok = true → (k = .signedIn ∨ ∃ username, k = .userCreated username) → P a := by
          rintro rfl hk'
          have hdel : delivered w.state (.deliver i true a) = some k := by simp [delivered, hk]
          refine hu a ?_
          rcases hk' with rfl | ⟨_, rfl⟩ <;> simp [signing, hdel]
        obtain ⟨hloc, hbound⟩ := among_react h.loc (h.ready _ (List.mem_of_getElem? hk)) ha hr
        refine ⟨hloc, fun y hy => ?_, fun y hy => ?_⟩
        · exact (List.mem_append.mp hy).elim (h.queue y) (mem_writes_bound hbound y)
        · refine (List.mem_append.mp hy).elim (fun hy => ?_) (mem_requests_bound hbound y)
          exact h.ready y (List.mem_of_mem_eraseIdx hy)
      · have hk := h.queue _ (hq ▸ List.mem_cons_self)
        refine ⟨h.loc, fun y hy => h.queue y (hq ▸ List.mem_cons_of_mem _ hy), fun y hy => ?_⟩
        refine (List.mem_append.mp hy).elim (h.ready y) fun hy => ?_
        obtain ⟨k', hk', rfl⟩ := List.mem_map.mp hy
        exact hk k' (Option.mem_toList.mp hk')
      · have hk := h.queue _ (hq ▸ List.mem_cons_self)
        refine ⟨h.loc, fun y hy => h.queue y (hq ▸ List.mem_cons_of_mem _ hy), fun y hy => ?_⟩
        refine (List.mem_append.mp hy).elim (h.ready y) fun hy => ?_
        obtain ⟨k', hk', rfl⟩ := List.mem_map.mp hy
        exact hk k' (Option.mem_toList.mp hk')
    · cases hx

/-- **Which fetches are answered**: those for accounts that have signed in or signed up before, on
this client. -/
theorem mem_signing_of_answered {tr : List (Act × Launch)}
    (h : IsRun (fun w x w' => w.turn x = some w') (Launch.start db) tr) {lbl : Label String Event}
    {uid : Uid} (huid : uid ∈ answered (final (Launch.start db) tr).state lbl) :
    uid ∈ collect signing (Launch.start db) tr := by
  have hend : (final (Launch.start db) tr).Among (· ∈ [] ++ collect signing (Launch.start db) tr) :=
    h.collect (f := signing) (I := fun as w => w.Among (· ∈ as)) (fun as w x w' hw hx =>
      (hw.mono fun _ => List.mem_append_left _).step hx fun _ => List.mem_append_right _) .start
  exact hend.of_answered huid

/-- **One account**: on a client on which `u` alone signs in or signs up, however often, the cached
user is the account now signed in, once its document has been fetched. -/
theorem identity_of_single {tr : List (Act × Launch)}
    (h : IsRun (fun w x w' => w.turn x = some w') (Launch.start db) tr)
    (hu : Meets (single u) (Launch.start db) tr) : ∀ x ∈ tr, x.2.Identity := by
  have hown : ∀ w x, w.Among (· = u) → w.Identity → own w x := by
    rintro w (lbl | _) h hid
    · intro uid huid hfetched
      obtain ⟨user, -, hauth⟩ := hid hfetched
      rw [hauth, h.of_answered huid, h.loc.auth _ hauth]
    · trivial
  have hstep : ∀ w x w', w.Among (· = u) ∧ w.Identity → w.turn x = some w' → single u w x →
      w'.Among (· = u) ∧ w'.Identity := fun w x w' ⟨hw, hid⟩ hx hs =>
    ⟨hw.step hx hs, hid.step hx (hown w x hw hid)⟩
  have hstart : (Launch.start db).Identity := by
    intro hfetched
    cases hfetched
  intro x hx
  exact (h.invariant hstep ⟨.start, hstart⟩ hu x hx).2

end

end Session

end Wanderlust
