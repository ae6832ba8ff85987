import Wanderlust.Models.User
import Wanderlust.Trips.Edit
import Wanderlust.Trips.TripInfo

/-!
# From the edit screen to the screen of the trip

What the user arranged on the edit screen is what a save leaves in the database
(`Phase.saved`), and what the screen of the trip shows when it loads the entries again
(`Saved.shows`).
-/

namespace Wanderlust

open Async

namespace EditTrip

variable {db₀ db : Firestore} {l₀ : EditTrip} {lower upper : Set Uid} {t : TripID}
  {tripID : Option TripID} {uid : Uid} {es : List Event}
  {st st' : State Firestore EditTrip Write Callback}

theorem History.opened (db₀ : Firestore) (tripID : Option TripID) (currentUser : User)
    (bucket : Bucket) (now : Timestamp) :
    History db₀ tripID [] (EditTrip.opened currentUser tripID bucket now) where
  deleted r hr := by cases hr
  listed r hr := by cases hr
  origin r hr := absurd hr (Nat.not_lt_zero r)
  early _ e he := by cases he

/-- What is edited on a screen has its history. -/
theorem phase_of_trace {currentUser : User} {bucket : Bucket} {now : Timestamp}
    {edits : List (Label TripID Event)}
    (hnd : ∀ t d, tripID = some t → db₀.trips.lookup t = some d → d.entries.Nodup)
    (hcur : Between lower upper (currentUser.followers ++ [currentUser.uid]))
    (hfeeds : ∀ d, db₀.users.lookup currentUser.uid = some d →
      Between lower upper (d.followers ++ [currentUser.uid]))
    (hedit : Trace program editing
      (start db₀ (EditTrip.opened currentUser tripID bucket now)) edits st) :
    Phase db₀ tripID currentUser.uid lower upper (program.direct st) ∧
      History db₀ tripID (events edits) (program.direct st).loc := by
  simpa using hedit.invariant (I := fun es x =>
    Phase db₀ tripID currentUser.uid lower upper x ∧ History db₀ tripID es x.loc)
    (fun es x m x' ⟨hp, hh⟩ ha hs => ⟨hp.step hnd hfeeds ha hs, History.step hp hh ha hs⟩) []
    ⟨Phase.opened bucket now hcur, History.opened db₀ tripID currentUser bucket now⟩

/-- A screen that can be edited is saved by a press. -/
theorem Phase.saved {st₀ st₁ st₂ : State Firestore EditTrip Write Callback}
    (hp : Phase db₀ tripID uid lower upper (program.direct st₀)) (hready : st₀.loc.Editable)
    (huser : ∃ userData, db₀.users.lookup uid = some userData ∧
      Between lower upper (userData.followers ++ [uid]))
    (hfields : st₀.loc.emptyField = false)
    (hpress : program.step (.event .saveButtonPressed) st₀ = some st₁)
    (hrun : Reaches program settling st₁ st₂) (hq : Quiescent st₂) :
    ∃ t, (tripID = some t ∨ tripID = none ∧ db₀.trips.lookup t = none) ∧
      Saved st₀.loc db₀ lower upper t st₂.store := by
  have hr := hp.ready hready huser hfields
  have hstore : (program.direct st₀).store = db₀ := hp.store
  have hst : program.direct st₀ = ⟨db₀, st₀.loc, (program.direct st₀).bag⟩ := by
    rw [← hstore]
    rfl
  obtain ⟨t, hs⟩ := saved_of_press hr hst (hp.bag_fits hready) hfields hpress hrun hq
  have htrip : st₀.loc.tripID = tripID := hp.setting.tripID
  refine ⟨t, ?_, hs⟩
  rw [← htrip]
  exact hs.target

/-- An entry that was deleted on the screen is not in the database after the save. -/
theorem Saved.deleted {x : Direct Firestore EditTrip Callback}
    (h : Saved x.loc db₀ lower upper t db) (hp : Phase db₀ tripID uid lower upper x)
    (he : x.loc.Editable) (hh : History db₀ tripID es x.loc) {r : ℕ}
    (hr : Event.deleteAnnotation r ∈ es) :
    db.entries.lookup (x.loc.id r) = none := by
  obtain ⟨hlt, hnot⟩ := hh.deleted r hr
  have hed := hp.of_editable he
  by_cases hdel : ∃ r' ∈ x.loc.deleteList, x.loc.id r' = x.loc.id r
  · obtain ⟨r', hr', hid⟩ := hdel
    rw [← hid]
    exact (h.stored.deleted r' hr' (List.not_mem_nil)).1
  · have hids : x.loc.id r ∉ x.loc.ids := by
      rwa [hed.mem_ids hp.setting hlt]
    rcases hed.covered r hlt with hmem | hmem | hnew
    · exact absurd hmem hnot
    · exact absurd ⟨r, hmem, rfl⟩ hdel
    · rw [h.stored.entries _ hids fun r' hr' hid => hdel ⟨r', hr', hid⟩]
      exact hnew.1

/-- **A saved trip is shown as it was on the screen**, whatever the order in which its entries
arrive. -/
theorem Saved.shows (h : Saved l₀ db₀ lower upper t db) (hne : l₀.entryList ≠ []) (l : TripInfo)
    {st : State Firestore TripInfo Write TripInfo.Callback}
    (hload : Reaches TripInfo.program TripInfo.showing
      ((start db l).call (TripInfo.loadEntryData l₀.ids)) st) (hq : Quiescent st) :
    st.loc.customAnnotations.map CustomAnnotation.shown =
      l₀.entryList.map fun r => (l₀.heap r).shown := by
  have hne' : l₀.ids ≠ [] := by simpa using hne
  rw [TripInfo.loadEntryData_sorted h.numbered hne' l hload hq, List.map_map, List.map_map]
  refine List.map_congr_left fun r hr => ?_
  obtain ⟨e, he, hof, -⟩ := h.published r hr
  simp only [Function.comp_apply, TripInfo.annotationOf_eq he]
  exact hof.shown_ofEntry

/-- **Saving what was arranged on the screen.** The screen of a new trip, or of a trip that lists
no entry twice, is edited and saved. Then the trip lists the entries on the screen in their order,
each is numbered and linked, none is left that was deleted on the screen, and the screen of the
trip shows them as they were. -/
theorem save_roundtrip {currentUser : User} {bucket : Bucket} {now : Timestamp}
    {edits : List (Label TripID Event)} {st₀ st₁ st₂ : State Firestore EditTrip Write Callback}
    (hnd : ∀ t d, tripID = some t → db₀.trips.lookup t = some d → d.entries.Nodup)
    (huser : db₀.users.lookup currentUser.uid ≠ none)
    (hedit : Trace program editing
      (start db₀ (EditTrip.opened currentUser tripID bucket now)) edits st₀)
    (hready : st₀.loc.Editable) (hfields : st₀.loc.emptyField = false)
    (hpress : program.step (.event .saveButtonPressed) st₀ = some st₁)
    (hrun : Reaches program settling st₁ st₂) (hq : Quiescent st₂) :
    ∃ t d, (tripID = some t ∨ tripID = none ∧ db₀.trips.lookup t = none) ∧
      st₂.store.trips.lookup t = some d ∧ d.entries = st₀.loc.ids ∧
      (∀ i id, d.entries[i]? = some id → ∃ e, st₂.store.entries.lookup id = some e ∧
        e.entryOrder = i ∧ e.tripID = some t) ∧
      (∀ r, Event.deleteAnnotation r ∈ events edits →
        st₂.store.entries.lookup (st₀.loc.id r) = none) ∧
      ∀ (l : TripInfo) (st₃ : State Firestore TripInfo Write TripInfo.Callback),
        Reaches TripInfo.program TripInfo.showing
          ((start st₂.store l).call (TripInfo.loadEntryData d.entries)) st₃ → Quiescent st₃ →
        st₃.loc.customAnnotations.map CustomAnnotation.shown =
          st₀.loc.entryList.map fun r => (st₀.loc.heap r).shown := by
  have hall : ∀ feeds, Between ∅ Set.univ feeds := fun _ => ⟨by simp, by simp⟩
  obtain ⟨hp, hh⟩ := phase_of_trace hnd (hall _) (fun _ _ => hall _) hedit
  obtain ⟨userData, hdata⟩ := Option.ne_none_iff_exists'.mp huser
  obtain ⟨t, htarget, hs⟩ :=
    hp.saved hready ⟨userData, hdata, hall _⟩ hfields hpress hrun hq
  obtain ⟨d, hd, hids⟩ := hs.listed
  have hne : st₀.loc.entryList ≠ [] := by
    intro hnil
    simp [emptyField, hnil] at hfields
  refine ⟨t, d, htarget, hd, hids, fun i id hi => ?_, fun r hr => hs.deleted hp hready hh hr,
    fun l st₃ hload hq₃ => ?_⟩
  · rw [hids] at hi
    obtain ⟨e, he, ho⟩ := hs.numbered i id hi
    obtain ⟨e', he', ht⟩ := hs.linked id (List.mem_of_getElem? hi)
    obtain rfl : e' = e := Option.some.inj (he'.symm.trans he)
    exact ⟨e', he, ho, ht⟩
  · rw [hids] at hload
    exact hs.shows hne l hload hq₃

/-! ## A run -/

/-- A user with one follower. -/
def sampleUser : User := { sampleAnn with followers := ["bob"], publicUser := true }

def sampleDatabase : Firestore := .ofUser sampleUser

/-- A form with one image. -/
def sampleForm (title : String) : EntryForm :=
  ⟨⟨0, 0⟩, title, "", [.ofData title], "", ⟨title⟩, .ofData title⟩

/-- Three entries are added, the last is moved to the front, and one is deleted. -/
def sampleEdits : List (Label TripID Event) :=
  [.event .viewDidLoad, .event .viewWillAppear, .event (Event.addAnnotation (sampleForm "a") "a"),
    .event (Event.addAnnotation (sampleForm "b") "b"),
    .event (Event.addAnnotation (sampleForm "c") "c"), .event .editOrderButtonPressed,
    .event (.moveRowAt 2 0), .event .orderWillDisappear, .event (Event.deleteAnnotation 1),
    .event (.editTripName "trip"), .event (.selectTripCover none)]

/-- The answers to the save arrive, the latest first. -/
def sampleAnswers : List (Label TripID Event) :=
  [.apply, .apply, .apply, .deliver 5 true "t", .deliver 5 true "t", .apply, .apply, .apply,
    .deliver 5 true "t", .deliver 4 true "t", .deliver 4 true "t", .apply, .apply, .apply,
    .deliver 4 true "t", .deliver 4 true "t", .apply, .apply, .apply, .apply, .deliver 5 true "",
    .deliver 4 true "", .apply, .apply, .deliver 5 true "", .deliver 4 true "",
    .deliver 3 true "", .deliver 2 true "", .deliver 1 true "", .deliver 0 true ""]

def sampleEdited : Option (State Firestore EditTrip Write Callback) :=
  exec program editing sampleEdits
    (start sampleDatabase (EditTrip.opened sampleUser none ∅ 0))

def samplePressed : Option (State Firestore EditTrip Write Callback) :=
  sampleEdited.bind (program.step (.event .saveButtonPressed))

def sampleSaved : Option (State Firestore EditTrip Write Callback) :=
  samplePressed.bind (exec program settling sampleAnswers)

/-- Then the screen of the trip loads its entries, of which the second arrives first. -/
def sampleShown : Option (State Firestore TripInfo Write TripInfo.Callback) :=
  sampleSaved.bind fun st => exec TripInfo.program TripInfo.showing
    [.deliver 1 true (), .deliver 0 true ()]
    ((start st.store (TripInfo.opened "ann" sampleUser "t" st.loc.bucket)).call
      (TripInfo.loadEntryData ["c", "a"]))

/-- The trip lists the entries in the new order, and its screen shows them so. -/
theorem save_roundtrip_sample : ∃ st₂ ∈ sampleSaved, (∃ t d,
    st₂.store.trips.lookup t = some d ∧ d.entries = ["c", "a"]) ∧
    ∃ st₃ ∈ sampleShown,
      (st₃.loc.customAnnotations.map CustomAnnotation.shown).map CustomAnnotation.title =
        ["c", "a"] := by
  obtain ⟨st₃, h₃⟩ := Option.isSome_iff_exists.mp (by decide +kernel : sampleShown.isSome)
  obtain ⟨st₂, h₂, hload⟩ := Option.bind_eq_some_iff.mp h₃
  obtain ⟨st₁, h₁, hrun⟩ := Option.bind_eq_some_iff.mp h₂
  obtain ⟨st₀, h₀, hpress⟩ := Option.bind_eq_some_iff.mp h₁
  have hids : ∀ st ∈ sampleEdited, st.loc.Editable ∧ st.loc.emptyField = false ∧
      st.loc.ids = ["c", "a"] ∧
      (st.loc.entryList.map fun r => (st.loc.heap r).shown.title) = ["c", "a"] := by
    decide +kernel
  have hq : ∀ st ∈ sampleSaved, Quiescent st := by decide +kernel
  have hq₃ : ∀ st ∈ sampleShown, Quiescent st := by decide +kernel
  obtain ⟨hready, hfields, hids, htitles⟩ := hids st₀ h₀
  obtain ⟨t, d, -, hd, hentries, -, -, hshows⟩ := save_roundtrip (fun t d h _ => by cases h)
    (by decide +kernel) (trace_of_exec h₀) hready hfields hpress ⟨_, trace_of_exec hrun⟩ (hq st₂ h₂)
  have hentries : d.entries = ["c", "a"] := hentries.trans hids
  rw [hentries] at hshows
  have hshown := hshows _ st₃ ⟨_, trace_of_exec hload⟩ (hq₃ st₃ h₃)
  refine ⟨st₂, h₂, ⟨t, d, hd, hentries⟩, st₃, h₃, ?_⟩
  rw [hshown, List.map_map]
  exact htitles

end EditTrip

end Wanderlust
