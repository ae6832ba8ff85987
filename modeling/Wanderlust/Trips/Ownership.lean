import Wanderlust.Foundations.Handlers
import Wanderlust.Models.User
import Wanderlust.Trips.TripInfo

/-!
# Who deletes a trip

On the screen of a trip, only the settings button leads to `deleteTrip`, and the button is taken
away when the owner of the trip has been fetched and is not the user. Before that it is there for
everybody. So nobody deletes the trip of somebody else in a run in which the button is not pressed
before that fetch has been answered (`never_deletes`), and after such a press two more are enough
(`deletes_of_hasty`).
-/

namespace Wanderlust

open Async Runs

namespace TripInfo

/-- A state of the screen with what is under way. -/
abbrev Screen := State Firestore TripInfo Write Callback

/-- A step of the screen. -/
def Turn (st : Screen) (lbl : Label Unit Event) (st' : Screen) : Prop :=
  program.step lbl st = some st'

/-- The owner whose fetch is answered, with a success or not. -/
def ownerOf : Async.Move Callback Unit Event → List Uid
  | .deliver (.tripUserFetched uid) _ _ => [uid]
  | _ => []

/-- The owner whose fetch is answered in a step of a run. -/
def owners (st : Screen) (lbl : Label Unit Event) : List Uid :=
  (st.move lbl).toList.flatMap ownerOf

/-- The settings button is not pressed before a fetch of the owner has been answered. -/
def Patient (st : Screen) (tr : List (Label Unit Event × Screen)) : Prop :=
  ∀ tr₁ y tr₂, tr = tr₁ ++ y :: tr₂ → y.1 = .event .barButtonPressed → collect owners st tr₁ ≠ []

/-- The write leaves the trips alone. -/
def KeepsTrips (w : Write) : Prop := ∀ db, (w.apply db).trips = db.trips

/-- A callback of the screen of a trip that is not the user's, while nothing is deleted. -/
def Callback.Harmless (me : Uid) : Callback → Prop
  | .tripFetched => True
  | .tripUserFetched uid => uid ≠ me
  | .entryFetched _ _ _ => True
  | _ => False

/-- A command of the screen of a trip that is not the user's, while nothing is deleted. -/
def Modest (me : Uid) : Cmd → Prop
  | .write w k => KeepsTrips w ∧ k = none
  | .request k => k.Harmless me

/-- The invariant: the trip is not the user's, the settings button is gone when the fetch of an
owner has been answered, and nothing is presented. -/
structure Foreign (me : Uid) (us : List Uid) (st : Screen) : Prop where
  user : st.loc.user = me
  trip : ∀ d ∈ st.store.trips.lookup st.loc.tripId, d.userID ≠ me
  queue : ∀ x ∈ st.queue, KeepsTrips x.1 ∧ x.2 = none
  ready : ∀ x ∈ st.ready, x.1.Harmless me
  settingsButton : us ≠ [] → st.loc.settingsButton = false
  presented : st.loc.presented = none

section

variable {me : Uid} {us : List Uid} {st st' : Screen} {lbl : Label Unit Event}
  {r : TripInfo × List Cmd}

theorem modest_updateUser {uid : Uid} {f : UserDoc → UserDoc} :
    Modest me (.write (.updateUser uid f) none) :=
  ⟨fun _ => rfl, rfl⟩

/-- The closures see the trips of the store. -/
theorem Foreign.view (h : Foreign me us st) : (program.view st).trips = st.store.trips :=
  view_of_writes (G := fun db => db.trips = st.store.trips) (fun _ hw db hdb => (hw db).trans hdb)
    rfl fun x hx => (h.queue x hx).1

/-- **The code of a step**, if the settings button is pressed in it only when the fetch of an owner
has been answered. -/
theorem Foreign.code (h : Foreign me us st)
    (hpatient : lbl = .event .barButtonPressed → us ≠ []) (hr : program.Runs st lbl r) :
    (r.1.user = st.loc.user ∧ r.1.tripId = st.loc.tripId ∧ r.1.presented = none ∧
      (us ++ owners st lbl ≠ [] → r.1.settingsButton = false)) ∧ ∀ c ∈ r.2, Modest me c := by
  have hbutton : us ++ [] ≠ [] → st.loc.settingsButton = false :=
    fun hus => h.settingsButton (by rwa [List.append_nil] at hus)
  cases hr with
  | @event e _ he =>
    cases e with
    | viewWillAppear =>
      cases he
      refine ⟨⟨rfl, rfl, h.presented, hbutton⟩, fun c hc => ?_⟩
      obtain rfl : c = .request .tripFetched := List.mem_singleton.mp hc
      trivial
    | favoriteButtonPressed =>
      simp only [program, TripInfo.event, favoriteButtonPressed] at he
      split at he
      · cases he
        refine ⟨⟨rfl, rfl, h.presented, hbutton⟩, fun c hc => ?_⟩
        rw [List.mem_singleton.mp hc]
        exact modest_updateUser
      · split at he <;> cases he
        refine ⟨⟨rfl, rfl, h.presented, hbutton⟩, fun c hc => ?_⟩
        rw [List.mem_singleton.mp hc]
        exact modest_updateUser
    | barButtonPressed =>
      -- the button is gone
      simp only [program, TripInfo.event, h.settingsButton (hpatient rfl)] at he
      cases he
    | deletePressed =>
      simp only [program, TripInfo.event, h.presented] at he
      cases he
    | cancelPressed =>
      cases he
      exact ⟨⟨rfl, rfl, rfl, hbutton⟩, fun c hc => by cases hc⟩
    | deleteConfirmed =>
      simp only [program, TripInfo.event, h.presented] at he
      cases he
    | currentUserFetched =>
      simp only [program, TripInfo.event] at he
      split at he <;> cases he <;>
        exact ⟨⟨rfl, rfl, h.presented, hbutton⟩, fun c hc => by cases hc⟩
  | @deliver i ok a k o _ hi ho hr =>
    have hk := h.ready _ (List.mem_of_getElem? hi)
    have howners : owners st (.deliver i ok a) = ownerOf (.deliver k ok a) := by
      simp [owners, State.move, hi]
    rw [howners]
    cases k with
    | tripFetched =>
      simp only [program, react] at hr
      split at hr
      · cases hr
        exact ⟨⟨rfl, rfl, h.presented, hbutton⟩, fun c hc => by cases hc⟩
      · rename_i d hd
        have hd' : st.store.trips.lookup st.loc.tripId = some d := by
          split at hd
          · rwa [← h.view]
          · cases hd
        obtain ⟨favorite, rfl⟩ := tripFetched_eq_some hr
        refine ⟨⟨rfl, rfl, h.presented, hbutton⟩, fun c hc => ?_⟩
        rcases List.mem_cons.mp hc with rfl | hc
        · exact h.trip d hd'
        · obtain ⟨id, -, rfl⟩ := List.mem_map.mp hc
          trivial
    | tripUserFetched uid =>
      cases hr
      have hne : ((if ok then (program.view st).fetchUser uid else none).map
          fun user => user.uid) ≠ some st.loc.user := by
        intro heq
        obtain ⟨other, hother, hotheruid⟩ := Option.map_eq_some_iff.mp heq
        split at hother
        · rw [(Firestore.fetchUser_eq_some hother).1] at hotheruid
          exact hk (hotheruid.trans h.user)
        · cases hother
      refine ⟨⟨rfl, rfl, h.presented, fun _ => ?_⟩, fun c hc => by cases hc⟩
      show decide _ = false
      exact decide_eq_false hne
    | entryFetched temp count id =>
      simp only [program, react] at hr
      split at hr <;> cases hr
      · exact ⟨⟨rfl, rfl, h.presented, hbutton⟩, fun c hc => by cases hc⟩
      · refine ⟨?_, fun c hc => by cases hc⟩
        simp only [TripInfo.entryFetched]
        split <;> exact ⟨rfl, rfl, h.presented, hbutton⟩
    | _ => exact hk.elim

/-- **One step**, if the settings button is pressed in it only when the fetch of an owner has been
answered. -/
theorem Foreign.step (h : Foreign me us st)
    (hpatient : lbl = .event .barButtonPressed → us ≠ []) (hs : Turn st lbl st') :
    Foreign me (us ++ owners st lbl) st' := by
  rcases step_runs hs with ⟨r, hr, rfl⟩ | ⟨w, k, q, hq, hend⟩
  · obtain ⟨⟨huser, htrip, hpresented, hbutton⟩, hmodest⟩ := h.code hpatient hr
    refine ⟨huser.trans h.user, ?_, fun x hx => ?_, fun x hx => ?_, hbutton, hpresented⟩
    · show ∀ d ∈ st.store.trips.lookup r.1.tripId, d.userID ≠ me
      rw [htrip]
      exact h.trip
    · rcases List.mem_append.mp hx with hx | hx
      · exact h.queue x hx
      · exact hmodest _ (mem_writes.mp hx)
    · rcases List.mem_append.mp hx with hx | hx
      · exact h.ready x (mem_ready_of_awaited hx)
      · exact hmodest _ (mem_requests hx)
  · -- a write leaves the queue, and no callback waits for it
    obtain ⟨hkeep, rfl⟩ := h.queue (w, k) (hq ▸ List.mem_cons_self)
    have hqueue : ∀ x ∈ q, KeepsTrips x.1 ∧ x.2 = none :=
      fun x hx => h.queue x (hq ▸ List.mem_cons_of_mem (w, none) hx)
    rcases hend with ⟨rfl, rfl⟩ | ⟨rfl, rfl⟩
    · refine ⟨h.user, ?_, hqueue, ?_, fun hus => h.settingsButton ?_, h.presented⟩
      · show ∀ d ∈ (w.apply st.store).trips.lookup st.loc.tripId, d.userID ≠ me
        rw [hkeep]
        exact h.trip
      · simpa using h.ready
      · simpa [owners, State.move] using hus
    · refine ⟨h.user, h.trip, hqueue, ?_, fun hus => h.settingsButton ?_, h.presented⟩
      · simpa using h.ready
      · simpa [owners, State.move] using hus

end

/-- **Nobody deletes the trip of somebody else** in a run in which the settings button is not
pressed before a fetch of the owner has been answered. -/
theorem never_deletes {db : Firestore} {me : Uid} {currentUser : User} {t : TripID}
    {bucket : Bucket} {tr : List (Label Unit Event × Screen)}
    (htrip : ∀ d ∈ db.trips.lookup t, d.userID ≠ me)
    (hrun : IsRun Turn (start db (opened me currentUser t bucket)) tr)
    (hpatient : Patient (start db (opened me currentUser t bucket)) tr) :
    ∀ x ∈ tr, x.1 ≠ .event .deleteConfirmed := by
  have hstart : Foreign me [] (start db (opened me currentUser t bucket) : Screen) :=
    ⟨rfl, htrip, fun x hx => (by cases hx), fun x hx => (by cases hx), fun h => absurd rfl h, rfl⟩
  have hall := hrun.collect_history (f := owners) (I := fun us st => Foreign me us st)
    (fun us _ lbl => lbl = .event .barButtonPressed → us ≠ [])
    (fun us st lbl st' h hs hpre => h.step hpre hs) hstart hpatient
  rintro ⟨lbl, st'⟩ hx rfl
  obtain ⟨tr₁, tr₂, rfl⟩ := List.append_of_mem hx
  have hbefore := hall tr₁ _ rfl
  -- nothing is presented, so there is nothing to confirm
  have hlast : Turn _ (.event .deleteConfirmed) st' := (isRun_append.mp hrun).2.1
  simp only [Turn, Program.step, program, event, hbefore.presented] at hlast
  cases hlast

/-- **A press that comes too soon** opens the way to the deletion: two more presses are enough. -/
theorem deletes_of_hasty {st st' : Screen} (h : Turn st (.event .barButtonPressed) st') :
    ∃ st₁ st₂, Turn st' (.event .deletePressed) st₁ ∧ Turn st₁ (.event .deleteConfirmed) st₂ := by
  simp only [Turn, Program.step, program, event] at h
  split at h <;> cases h
  exact ⟨_, _, rfl, rfl⟩

/-- Bob's trip, which Ann looks at. -/
def foreignTrip : Firestore where
  users := AList.insert "bob" { newUser "bob" with trips := ["t"] }
    (AList.insert "ann" (newUser "ann") ∅)
  trips := AList.insert "t" ⟨"Trip", some ⟨"cover"⟩, "bob", 0, []⟩ ∅
  entries := ∅
  newsfeed := ∅

/-- Ann opens the screen. -/
def foreignScreen : Screen :=
  start foreignTrip (opened "ann" sampleAnn "t" ∅)

/-- Ann waits for the owner, marks the trip as a favorite, leaves and comes back. -/
def waiting : List (Label Unit Event) :=
  [.event .viewWillAppear, .deliver 0 true (), .deliver 0 true (), .event .favoriteButtonPressed,
    .apply, .event .viewWillAppear, .deliver 0 true (), .deliver 0 false ()]

theorem never_deletes_sample : ∃ tr,
    IsRun Turn foreignScreen tr ∧ Patient foreignScreen tr ∧ tr.map Prod.fst = waiting ∧
      ∀ x ∈ tr, x.1 ≠ .event .deleteConfirmed := by
  obtain ⟨tr, htr⟩ : ∃ tr, tr ∈ play (fun st lbl => program.step lbl st) waiting foreignScreen :=
    Option.isSome_iff_exists.mp (by decide +kernel)
  have hrun : IsRun Turn foreignScreen tr := isRun_of_play htr
  have hlabels : tr.map Prod.fst = waiting := labels_of_play htr
  have hpatient : Patient foreignScreen tr := by
    rintro tr₁ y tr₂ rfl hy
    have hmem : y.1 ∈ waiting := hlabels ▸ List.mem_map_of_mem (by simp)
    rw [hy] at hmem
    simp [waiting] at hmem
  exact ⟨tr, hrun, hpatient, hlabels,
    never_deletes (by decide +kernel) hrun hpatient⟩

/-- Ann is faster than the fetch of the owner. -/
def hasty : List (Label Unit Event) :=
  [.event .viewWillAppear, .event .barButtonPressed, .deliver 0 true (), .deliver 0 true (),
    .event .deletePressed, .event .deleteConfirmed, .deliver 0 true (), .apply, .apply]

/-- **The trip of somebody else is deleted.** -/
theorem foreign_trip_deleted : ∃ tr, IsRun Turn foreignScreen tr ∧
    (∀ d ∈ foreignTrip.trips.lookup "t", d.userID ≠ "ann") ∧
    (∃ x ∈ tr, x.1 = .event .deleteConfirmed) ∧
    (final foreignScreen tr).store.trips.lookup "t" = none := by
  obtain ⟨tr, htr, hgone⟩ :
      ∃ tr ∈ play (fun st lbl => program.step lbl st) hasty foreignScreen,
        (final foreignScreen tr).store.trips.lookup "t" = none := by
    decide +kernel
  have hlabels : tr.map Prod.fst = hasty := labels_of_play htr
  have hmem : Label.event Event.deleteConfirmed ∈ tr.map Prod.fst := by
    rw [hlabels]
    simp [hasty]
  obtain ⟨x, hx, hlbl⟩ := List.mem_map.mp hmem
  exact ⟨tr, isRun_of_play htr, by decide +kernel, ⟨x, hx, hlbl⟩, hgone⟩

end TripInfo

end Wanderlust
