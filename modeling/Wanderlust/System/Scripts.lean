import Wanderlust.Foundations.Runs
import Wanderlust.System.Backend

/-!
# Executing actions

A script is an action with the order in which its answers arrive. `perform` executes it, and what
it comes to is a step (`step_of_perform`); a list of scripts is executed as a run.
-/

namespace Wanderlust

open Async Runs

/-- An action, with the order of its answers. -/
inductive Script
  | signUp (uid : Uid) (username : String)
  | followButtonPressed (a b : Uid) (answers : List (Label Unit ProfilePage.Event))
  | unfollow (a : Uid) (followingRow : ℕ) (answers : List (Label Unit FollowingList.Event))
  | acceptRequest (a : Uid) (requestRow : ℕ) (answers : List (Label Unit FollowersList.Event))
  | denyRequest (a : Uid) (requestRow : ℕ) (answers : List (Label Unit FollowersList.Event))
  | switchToggled (a : Uid) (isOn : Bool)
  | saveTrip (a : Uid) (tripID : Option TripID) (edits answers : List (Label TripID EditTrip.Event))
  | editEntry (a : Uid) (id : EntryID) (title location description : String) (images : List URL)
    (uses : List (Label Unit EditEntry.Event))
  | deleteTrip (a : Uid) (t : TripID) (answers : List (Label Unit TripInfo.Event))

/-- The edit screen of a trip, from its opening to the end of a save: what it is when the save
button is pressed, and the backend at the end. -/
def saved (s : Backend) (me : User) (tripID : Option TripID)
    (edits answers : List (Label TripID EditTrip.Event)) : Option (EditTrip × Backend) :=
  (exec EditTrip.program EditTrip.editing edits
      (start s.store (EditTrip.opened me tripID s.bucket s.now))).bind fun st₀ =>
    if st₀.loc.Editable ∧ st₀.loc.emptyField = false then
      ((EditTrip.program.step (.event .saveButtonPressed) st₀).bind
          (exec EditTrip.program EditTrip.settling answers)).bind fun st₂ =>
        if Quiescent st₂ then some (st₀.loc, ⟨st₂.store, st₂.loc.bucket, st₂.loc.now⟩) else none
    else none

/-- What a script comes to: the action, and the backend at its end. -/
def Script.perform (s : Backend) : Script → Option (Action × Backend)
  | .signUp uid username =>
    match s.store.users.lookup uid with
    | none => some (.signUp uid username,
        { s with store := (addUserToFirestore uid (newUser username)).apply s.store })
    | some _ => none
  | .followButtonPressed a b answers =>
    match s.store.fetchUser a, s.store.fetchUser b with
    | some me, some other =>
      if a = b then none
      else (complete ProfilePage.program ProfilePage.settling .followButtonPressed answers s.store
          { ProfilePage.opened me (some b) with otherUser := some other }).map fun r =>
        (.followButtonPressed a b, { s with store := r.1 })
    | _, _ => none
  | .unfollow a followingRow answers =>
    match s.store.fetchUser a with
    | none => none
    | some me =>
      (complete FollowingList.program FollowingList.settling (.unfollow followingRow) answers
          s.store (FollowingList.opened a me none)).bind fun r =>
        if followingRow < me.following.length then
          some (.unfollow a followingRow, { s with store := r.1 })
        else none
  | .acceptRequest a requestRow answers =>
    match s.store.fetchUser a with
    | none => none
    | some me =>
      (complete FollowersList.program FollowersList.settling (.acceptRequest requestRow) answers
          s.store (FollowersList.opened me none)).bind fun r =>
        if requestRow < me.requests.length then
          some (.acceptRequest a requestRow, { s with store := r.1 })
        else none
  | .denyRequest a requestRow answers =>
    match s.store.fetchUser a with
    | none => none
    | some me =>
      (complete FollowersList.program FollowersList.settling (.denyRequest requestRow) answers
          s.store (FollowersList.opened me none)).bind fun r =>
        if requestRow < me.requests.length then
          some (.denyRequest a requestRow, { s with store := r.1 })
        else none
  | .switchToggled a isOn =>
    (s.store.fetchUser a).map fun me =>
      (.switchToggled a isOn, { s with store := (Wanderlust.switchToggled me isOn).apply s.store })
  | .saveTrip a tripID edits answers =>
    match s.store.fetchUser a with
    | none => none
    | some me =>
      if ∀ t ∈ tripID, ∀ d ∈ s.store.trips.lookup t, d.userID = a then
        (saved s me tripID edits answers).map fun r => (.saveTrip a r.1, r.2)
      else none
  | .editEntry a id title location description images uses =>
    match s.store.fetchUser a with
    | none => none
    | some me =>
      (exec EditEntry.program (fun _ _ _ => True) uses
          (start s.store (EditEntry.opened me id title location description images s.bucket))).bind
        fun st =>
          if Quiescent st then
            some (.editEntry a id, { s with store := st.store, bucket := st.loc.bucket })
          else none
  | .deleteTrip a t answers =>
    match s.store.fetchUser a, s.store.trips.lookup t with
    | some me, some d =>
      if d.userID = a then
        (complete TripInfo.program TripInfo.deleting .deleteConfirmed answers s.store
            { TripInfo.opened a me t s.bucket with presented := some .sureToDelete }).map fun r =>
          (.deleteTrip a t, { s with store := r.1, bucket := r.2.bucket })
      else none
    | _, _ => none

/-- The action that a script is about. -/
def Script.Asks : Script → Action → Prop
  | .signUp uid username, act => act = .signUp uid username
  | .followButtonPressed a b _, act => act = .followButtonPressed a b
  | .unfollow a followingRow _, act => act = .unfollow a followingRow
  | .acceptRequest a requestRow _, act => act = .acceptRequest a requestRow
  | .denyRequest a requestRow _, act => act = .denyRequest a requestRow
  | .switchToggled a isOn, act => act = .switchToggled a isOn
  | .saveTrip a _ _ _, act => ∃ screen, act = .saveTrip a screen
  | .editEntry a id _ _ _ _ _, act => act = .editEntry a id
  | .deleteTrip a t _, act => act = .deleteTrip a t

section

variable {s s' : Backend} {act : Action}

theorem asks_of_perform {script : Script} (h : script.perform s = some (act, s')) :
    script.Asks act := by
  cases script with
  | signUp uid username =>
    simp only [Script.perform] at h
    split at h <;> cases h
    rfl
  | followButtonPressed a b answers =>
    simp only [Script.perform] at h
    split at h
    · split at h
      · cases h
      · obtain ⟨r, -, h⟩ := Option.map_eq_some_iff.mp h
        cases h
        rfl
    · cases h
  | unfollow a row answers =>
    simp only [Script.perform] at h
    split at h
    · cases h
    · obtain ⟨r, -, h⟩ := Option.bind_eq_some_iff.mp h
      split at h <;> cases h
      rfl
  | acceptRequest a row answers =>
    simp only [Script.perform] at h
    split at h
    · cases h
    · obtain ⟨r, -, h⟩ := Option.bind_eq_some_iff.mp h
      split at h <;> cases h
      rfl
  | denyRequest a row answers =>
    simp only [Script.perform] at h
    split at h
    · cases h
    · obtain ⟨r, -, h⟩ := Option.bind_eq_some_iff.mp h
      split at h <;> cases h
      rfl
  | switchToggled a isOn =>
    obtain ⟨me, -, h⟩ := Option.map_eq_some_iff.mp h
    cases h
    rfl
  | saveTrip a tripID edits answers =>
    simp only [Script.perform] at h
    split at h
    · cases h
    · split at h
      · obtain ⟨r, -, h⟩ := Option.map_eq_some_iff.mp h
        cases h
        exact ⟨_, rfl⟩
      · cases h
  | editEntry a id title location description images uses =>
    simp only [Script.perform] at h
    split at h
    · cases h
    · obtain ⟨st, -, h⟩ := Option.bind_eq_some_iff.mp h
      split at h <;> cases h
      rfl
  | deleteTrip a t answers =>
    simp only [Script.perform] at h
    split at h
    · split at h
      · obtain ⟨r, -, h⟩ := Option.map_eq_some_iff.mp h
        cases h
        rfl
      · cases h
    · cases h

/-- The runs that a save is made of. -/
theorem runs_of_saveTrip {a : Uid} {tripID : Option TripID}
    {edits answers : List (Label TripID EditTrip.Event)}
    (h : (Script.saveTrip a tripID edits answers).perform s = some (act, s')) :
    ∃ me st₀ st₁ st₂, s.store.fetchUser a = some me ∧
      (∀ t d, tripID = some t → s.store.trips.lookup t = some d → d.userID = a) ∧
      exec EditTrip.program EditTrip.editing edits
        (start s.store (EditTrip.opened me tripID s.bucket s.now)) = some st₀ ∧
      st₀.loc.Editable ∧ st₀.loc.emptyField = false ∧
      EditTrip.program.step (.event .saveButtonPressed) st₀ = some st₁ ∧
      exec EditTrip.program EditTrip.settling answers st₁ = some st₂ ∧ Quiescent st₂ ∧
      act = .saveTrip a st₀.loc ∧ s' = ⟨st₂.store, st₂.loc.bucket, st₂.loc.now⟩ := by
  simp only [Script.perform] at h
  split at h
  · cases h
  · rename_i me hme
    split at h
    · rename_i howner
      obtain ⟨r, hr, h⟩ := Option.map_eq_some_iff.mp h
      cases h
      obtain ⟨st₀, hedit, hr⟩ := Option.bind_eq_some_iff.mp hr
      split at hr
      · rename_i hready
        obtain ⟨st₂, hst₂, hr⟩ := Option.bind_eq_some_iff.mp hr
        obtain ⟨st₁, hpress, hrun⟩ := Option.bind_eq_some_iff.mp hst₂
        split at hr
        · rename_i hq
          cases hr
          exact ⟨me, st₀, st₁, st₂, hme, fun t d ht hd => howner t ht d hd, hedit, hready.1,
            hready.2, hpress, hrun, hq, rfl, rfl⟩
        · cases hr
      · cases hr
    · cases h

/-- The run of an entry's screen. -/
theorem run_of_editEntry {a : Uid} {id : EntryID} {title location description : String}
    {images : List URL} {uses : List (Label Unit EditEntry.Event)}
    (h : (Script.editEntry a id title location description images uses).perform s =
      some (act, s')) :
    ∃ me st, s.store.fetchUser a = some me ∧
      exec EditEntry.program (fun _ _ _ => True) uses
        (start s.store (EditEntry.opened me id title location description images s.bucket)) =
          some st ∧
      Quiescent st ∧ act = .editEntry a id ∧
      s' = { s with store := st.store, bucket := st.loc.bucket } := by
  simp only [Script.perform] at h
  split at h
  · cases h
  · rename_i me hme
    obtain ⟨st, hst, h⟩ := Option.bind_eq_some_iff.mp h
    split at h <;> cases h
    rename_i hq
    exact ⟨me, st, hme, hst, hq, rfl, rfl⟩

/-- The deletion of a trip. -/
theorem run_of_deleteTrip {a : Uid} {t : TripID} {answers : List (Label Unit TripInfo.Event)}
    (h : (Script.deleteTrip a t answers).perform s = some (act, s')) :
    ∃ me d r, s.store.fetchUser a = some me ∧ s.store.trips.lookup t = some d ∧ d.userID = a ∧
      complete TripInfo.program TripInfo.deleting .deleteConfirmed answers s.store
        { TripInfo.opened a me t s.bucket with presented := some .sureToDelete } = some r ∧
      act = .deleteTrip a t ∧ s' = { s with store := r.1, bucket := r.2.bucket } := by
  simp only [Script.perform] at h
  split at h
  · rename_i me d hme hd
    split at h
    · rename_i howner
      obtain ⟨r, hr, h⟩ := Option.map_eq_some_iff.mp h
      cases h
      exact ⟨me, d, r, hme, hd, howner, hr, rfl, rfl⟩
    · cases h
  · cases h

end

/-- The run of a list of scripts. -/
def performAll : List Script → Backend → Option (List (Action × Backend))
  | [], _ => some []
  | script :: scripts, s =>
    (script.perform s).bind fun r => (performAll scripts r.2).map fun tr => r :: tr

/-- **What a script comes to is a step.** -/
theorem step_of_perform {s s' : Backend} {act : Action} {script : Script}
    (h : script.perform s = some (act, s')) : Step s act s' := by
  have huid : ∀ {uid user}, s.store.fetchUser uid = some user → user.uid = uid :=
    fun h => (Firestore.fetchUser_eq_some h).1
  cases script with
  | signUp uid username =>
    simp only [Script.perform] at h
    split at h <;> cases h
    rename_i hnew
    exact .signUp hnew
  | followButtonPressed a b answers =>
    simp only [Script.perform] at h
    split at h
    · rename_i me other hme hother
      split at h
      · cases h
      · rename_i hne
        obtain ⟨r, hr, h⟩ := Option.map_eq_some_iff.mp h
        obtain rfl := huid hme
        obtain rfl := huid hother
        cases h
        exact .followButtonPressed hne hme hother rfl rfl rfl (completes_of_complete hr)
    · cases h
  | unfollow a row answers =>
    simp only [Script.perform] at h
    split at h
    · cases h
    · rename_i me hme
      obtain ⟨r, hr, h⟩ := Option.bind_eq_some_iff.mp h
      obtain rfl := huid hme
      split at h <;> cases h
      rename_i hlt
      exact .unfollow hme (List.getElem?_eq_getElem hlt) (completes_of_complete hr)
  | acceptRequest a row answers =>
    simp only [Script.perform] at h
    split at h
    · cases h
    · rename_i me hme
      obtain ⟨r, hr, h⟩ := Option.bind_eq_some_iff.mp h
      obtain rfl := huid hme
      split at h <;> cases h
      rename_i hlt
      exact .acceptRequest hme (List.getElem?_eq_getElem hlt) (completes_of_complete hr)
  | denyRequest a row answers =>
    simp only [Script.perform] at h
    split at h
    · cases h
    · rename_i me hme
      obtain ⟨r, hr, h⟩ := Option.bind_eq_some_iff.mp h
      obtain rfl := huid hme
      split at h <;> cases h
      rename_i hlt
      exact .denyRequest hme (List.getElem?_eq_getElem hlt) (completes_of_complete hr)
  | switchToggled a isOn =>
    obtain ⟨me, hme, h⟩ := Option.map_eq_some_iff.mp h
    obtain rfl := huid hme
    cases h
    exact .switchToggled hme
  | saveTrip a tripID edits answers =>
    obtain ⟨me, st₀, st₁, st₂, hme, howner, hedit, hready, hfields, hpress, hrun, hq, rfl, rfl⟩ :=
      runs_of_saveTrip h
    obtain rfl := huid hme
    exact .saveTrip hme howner (trace_of_exec hedit) hready hfields hpress
      ⟨_, trace_of_exec hrun⟩ hq
  | editEntry a id title location description images uses =>
    obtain ⟨me, st, hme, hst, hq, rfl, rfl⟩ := run_of_editEntry h
    obtain rfl := huid hme
    exact .editEntry hme ⟨_, trace_of_exec hst⟩ hq
  | deleteTrip a t answers =>
    obtain ⟨me, d, r, hme, hd, howner, hr, rfl, rfl⟩ := run_of_deleteTrip h
    obtain rfl := huid hme
    exact .deleteTrip hme hd howner rfl rfl rfl rfl (completes_of_complete hr)

/-- **What a list of scripts comes to is a run.** -/
theorem isRun_of_performAll {scripts : List Script} {s : Backend} {tr : List (Action × Backend)}
    (h : performAll scripts s = some tr) : IsRun Step s tr := by
  induction scripts generalizing s tr with
  | nil =>
    cases h
    trivial
  | cons script scripts ih =>
    obtain ⟨r, hr, h⟩ := Option.bind_eq_some_iff.mp h
    obtain ⟨tr', htr', rfl⟩ := Option.map_eq_some_iff.mp h
    exact ⟨step_of_perform hr, ih htr'⟩

/-! ## Some scripts -/

/-- A form without images. -/
def publishedForm : EntryForm := ⟨⟨0, 0⟩, "entry", "", [], "", ⟨"cover"⟩, .ofData "cover"⟩

/-- Two users, and the account of one of them is public. -/
def signUps : List Script :=
  [.signUp "ann" "ann", .signUp "bob" "bob", .switchToggled "bob" false]

/-- Ann follows Bob. -/
def sampleFollow : Script :=
  .followButtonPressed "ann" "bob"
    [.apply, .apply, .deliver 0 true (), .deliver 0 true (), .deliver 0 true ()]

/-- Bob publishes a trip with one entry. -/
def publishTrip : Script :=
  .saveTrip "bob" none
    [.event .viewDidLoad, .event .viewWillAppear,
      .event (EditTrip.Event.addAnnotation publishedForm "a"), .event (.editTripName "trip"),
      .event (.selectTripCover (some (.ofData "cover")))]
    [.apply, .apply, .apply, .deliver 0 true "t", .deliver 0 true "t", .deliver 0 true "t", .apply,
      .apply, .apply, .deliver 0 true "", .deliver 0 true "", .apply, .deliver 0 true "", .apply,
      .deliver 0 true ""]

/-- Ann unfollows Bob in the list of followed users. -/
def sampleUnfollow : Script :=
  .unfollow "ann" 0 [.deliver 0 true (), .apply, .apply, .deliver 0 true ()]

/-- Bob deletes the trip. -/
def sampleDelete : Script :=
  .deleteTrip "bob" "t" [.deliver 0 true (), .apply, .apply, .apply, .deliver 0 true (), .apply,
    .deliver 0 true (), .deliver 0 true ()]

/-- Ann asks to follow Bob, who then makes the account public; then Ann follows Bob. -/
def sampleAsk : List Script :=
  [.signUp "ann" "ann", .signUp "bob" "bob",
    .followButtonPressed "ann" "bob" [.apply, .deliver 0 true (), .deliver 0 true ()],
    .switchToggled "bob" false, sampleFollow]

/-- What Ann follows is published. -/
def samplePublished : List Script := signUps ++ [sampleFollow, publishTrip]

/-- What Ann followed is deleted. -/
def sampleDeleted : List Script := samplePublished ++ [sampleUnfollow, sampleDelete]

end Wanderlust
