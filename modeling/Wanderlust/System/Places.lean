import Wanderlust.Entries.EntryOnMap
import Wanderlust.System.Trips

/-!
# Where the entries are

An entry has the name of a location and coordinates. The form on the map of a trip asks the
geocoder `G` for the coordinates of the name; the screen that edits a single entry writes the name
only. So the coordinates are those of the name in every state of a run (`pinned_of_run`) if no
name is edited while it is geocoded, and no single entry is given the name of another place.
-/

namespace Wanderlust

open Async Runs

variable {G : String → Option GeoPoint}

/-- The coordinates are those of the location, for the geocoder `G`. -/
def EntryForm.Pinned (G : String → Option GeoPoint) (form : EntryForm) : Prop :=
  G form.locationName = some form.location

def CustomAnnotation.Pinned (G : String → Option GeoPoint) (a : CustomAnnotation) : Prop :=
  G a.locationName = some a.coordinate

def EntryDoc.Pinned (G : String → Option GeoPoint) (e : EntryDoc) : Prop :=
  G e.locationName = some e.coordinates

instance (e : EntryDoc) : Decidable (e.Pinned G) := inferInstanceAs (Decidable (_ = _))

/-- All entries are where their locations are. -/
def Firestore.Pinned (G : String → Option GeoPoint) (db : Firestore) : Prop :=
  ∀ id e, db.entries.lookup id = some e → e.Pinned G

theorem EntryDoc.IsOf.pinned {e : EntryDoc} {a : CustomAnnotation} {uid : Uid} (h : e.IsOf a uid)
    (ha : a.Pinned G) : e.Pinned G := by
  rw [EntryDoc.Pinned, h.locationName, h.coordinates]
  exact ha

/-! ## The screen of a trip -/

namespace EditTrip

/-- The form that is handed over. -/
def Event.form? : Event → Option EntryForm
  | Event.addAnnotation form _ => some form
  | Event.editAnnotation _ form => some form
  | _ => none

/-- All annotations are where their locations are. -/
def AllPinned (G : String → Option GeoPoint) (l : EditTrip) : Prop :=
  ∀ r < l.next, CustomAnnotation.Pinned G (l.heap r)

variable {l l' : EditTrip} {x x' : Direct Firestore EditTrip Callback}

/-- The annotations and where they are stay the same. -/
theorem AllPinned.of_same (h : AllPinned G l) (hnext : l'.next = l.next)
    (hname : ∀ r, (l'.heap r).locationName = (l.heap r).locationName)
    (hplace : ∀ r, (l'.heap r).coordinate = (l.heap r).coordinate) : AllPinned G l' := by
  intro r hr
  unfold CustomAnnotation.Pinned
  rw [hname, hplace]
  exact h r (hnext ▸ hr)

theorem AllPinned.set (h : AllPinned G l) {r : ℕ} {a : CustomAnnotation}
    (ha : r < l.next → a.Pinned G) : AllPinned G (l.set r a) := by
  intro r' hr'
  by_cases hr : r' = r
  · subst hr
    rw [heap_set_self]
    exact ha hr'
  · rw [heap_set_ne hr]
    exact h r' hr'

/-- A new annotation. -/
theorem AllPinned.add (h : AllPinned G l) {a : CustomAnnotation} (ha : a.Pinned G)
    (hnext : l'.next = l.next + 1) (hheap : l'.heap = Function.update l.heap l.next a) :
    AllPinned G l' := by
  intro r hr
  rw [hheap]
  by_cases hrn : r = l.next
  · rw [hrn, Function.update_self]
    exact ha
  · rw [Function.update_of_ne hrn]
    exact h r (by omega)

theorem AllPinned.imageDownloaded (h : AllPinned G l) (r c n : ℕ) (image : UIImage) :
    AllPinned G (EditTrip.imageDownloaded r c n image l) := by
  have hset : AllPinned G (l.set r { l.heap r with
      images := (l.heap r).images ++ [image]
      numPhotos := (l.heap r).images.length + 1 }) := h.set (h r)
  obtain ⟨annotations, temp, list, he⟩ := imageDownloaded_eq r c n image l
  rw [he]
  exact hset

/-- One step before the save: what is handed over is pinned, and what is loaded. -/
theorem AllPinned.step (h : AllPinned G x.loc) (hdb : x.store.Pinned G)
    {m : Async.Move Callback TripID Event} (ha : editing x.loc x.store m)
    (hform : ∀ e ∈ m.event?, ∀ form ∈ e.form?, form.Pinned G)
    (hs : DirectStep program x m x') : AllPinned G x'.loc := by
  cases hs with
  | @event e r he =>
    change event e x.loc x.store = some r at he
    have hp : e.presses = false := by
      cases e with
      | saveButtonPressed => exact ha.elim
      | _ => rfl
    rcases heap_event he hp with ⟨hheap, hnext⟩ | ⟨form, uuid, rfl, hnext, hheap⟩ |
      ⟨s, form, rfl, heq⟩
    · exact h.of_same hnext (fun r' => congrArg _ (congrFun hheap r'))
        fun r' => congrArg _ (congrFun hheap r')
    · have hpin : form.Pinned G := hform _ rfl _ rfl
      exact h.add (a := .ofForm form x.loc.entryList.length uuid) hpin hnext hheap
    · have hpin : form.Pinned G := hform _ rfl _ rfl
      rw [Program.after, heq]
      exact h.set fun _ => hpin
  | @deliver k ok newTrip rest r hb hr =>
    change react k ok newTrip x.loc x.store = some r at hr
    cases k with
    | coverDocFetched t =>
      simp only [react] at hr
      split at hr
      · cases hr
        exact h
      · obtain ⟨url, -, rfl⟩ := Option.map_eq_some_iff.mp hr
        exact h
    | coverDownloaded url =>
      simp only [react] at hr
      split at hr <;> cases hr <;> exact h
    | tripFetched t =>
      simp only [react] at hr
      split at hr <;> cases hr <;> exact h
    | entryFetched id =>
      simp only [react] at hr
      split at hr
      · cases hr
        exact h
      · rename_i d hd
        have hpin : d.Pinned G := by
          split at hd
          · exact hdb id d hd
          · cases hd
        obtain ⟨t, cover, a, -, -, rfl, rfl⟩ := entryFetched_eq_some hr
        refine h.add ?_ rfl rfl
        exact hpin
    | entryCoverDownloaded r url =>
      simp only [react] at hr
      split at hr <;> cases hr
      · exact h
      · exact h.set (h r)
    | imageDownloaded r c n url =>
      simp only [react] at hr
      split at hr <;> cases hr
      · exact h
      · exact h.imageDownloaded r c n _
    | usernameFetched r uid =>
      cases hr
      exact h.set (h r)
    | objectDeleted path =>
      cases hr
      refine h.of_same ?_ (fun r' => ?_) fun r' => ?_ <;> dsimp only [Program.after] <;>
        split <;> rfl
    | imageUploaded c press r path data =>
      cases hr
      refine h.of_same ?_ (fun r' => ?_) fun r' => ?_ <;> dsimp only [Program.after] <;>
        split <;> rfl
    | imageURL c press r path =>
      simp only [react] at hr
      split at hr
      · cases hr
        have hset : AllPinned G ((x.loc.set r { x.loc.heap r with
            imageUrls := (x.loc.heap r).imageUrls ++ [⟨path⟩] }).count c) := h.set (h r)
        dsimp only [Program.after]
        split <;> exact hset
      · cases hr
    | entryWritten press r =>
      cases hr
      refine h.of_same ?_ (fun r' => ?_) fun r' => ?_ <;> dsimp only [Program.after] <;>
        split <;> rfl
    | userFetched p ids =>
      simp only [react] at hr
      split at hr
      · cases hr
        exact h
      · split at hr <;> cases hr
        · refine h.of_same rfl (fun r' => ?_) fun r' => ?_ <;>
            simp only [Program.after, createTrip, updateTripID, uploadTripCoverPhoto,
              Handler.andThen_apply, Handler.issue_apply, Handler.modify_apply, newCount] <;>
            split <;> rfl
        · exact h
    | tripUpdated ids =>
      obtain ⟨t, -, rfl⟩ := Option.map_eq_some_iff.mp hr
      refine h.of_same rfl (fun r' => ?_) fun r' => ?_ <;>
        simp only [Program.after, updateTripID, uploadTripCoverPhoto, Handler.andThen_apply,
          Handler.issue_apply, Handler.modify_apply, newCount] <;>
        split <;> rfl
    | tripIDUpdated c ids t =>
      cases hr
      refine h.of_same ?_ (fun r' => ?_) fun r' => ?_ <;> dsimp only [Program.after] <;>
        split <;> rfl
    | entryOrderUpdated c n t =>
      cases hr
      refine h.of_same ?_ (fun r' => ?_) fun r' => ?_ <;> dsimp only [Program.after] <;>
        split <;> rfl
    | tripCoverUploaded t path data =>
      cases hr
      refine h.of_same ?_ (fun r' => ?_) fun r' => ?_ <;> dsimp only [Program.after] <;>
        split <;> rfl
    | tripCoverURL t path =>
      simp only [react] at hr
      split at hr <;> cases hr <;> exact h

section

variable {db₀ : Firestore} {tripID : Option TripID} {me : User} {bucket : Bucket}
  {now : Timestamp} {edits : List (Label TripID Event)}
  {st₀ st₁ st₂ : State Firestore EditTrip Write Callback}

theorem allPinned_of_trace (hdb : db₀.Pinned G)
    (hnd : ∀ t d, tripID = some t → db₀.trips.lookup t = some d → d.entries.Nodup)
    (hedit : Trace program editing (start db₀ (EditTrip.opened me tripID bucket now)) edits st₀)
    (hform : ∀ e ∈ events edits, ∀ form ∈ e.form?, form.Pinned G) : AllPinned G st₀.loc := by
  have hall : ∀ feeds, Between ∅ Set.univ feeds := fun _ => ⟨by simp, by simp⟩
  have hinv := hedit.invariant (I := fun es x => Phase db₀ tripID me.uid ∅ Set.univ x ∧
      ((∀ e ∈ es, ∀ form ∈ e.form?, form.Pinned G) → AllPinned G x.loc))
    (fun es x m x' hx ha hs => ⟨hx.1.step hnd (fun _ _ => hall _) ha hs, fun hes => ?_⟩)
    [] ⟨Phase.opened bucket now (hall _), fun _ r hr => absurd hr (Nat.not_lt_zero r)⟩
  · rw [List.nil_append] at hinv
    exact hinv.2 hform
  · have hpin : AllPinned G x.loc := hx.2 fun e he => hes e (List.mem_append_left _ he)
    exact hpin.step (hx.1.store ▸ hdb) ha
      (fun e he => hes e (List.mem_append_right _ (Option.mem_toList.mpr he))) hs

/-- **A save keeps the entries where their locations are**, if so are the forms that are handed
over. -/
theorem pinned_of_trace (hdb : db₀.Pinned G) (hme : db₀.fetchUser me.uid = some me)
    (hnd : ∀ t d, tripID = some t → db₀.trips.lookup t = some d → d.entries.Nodup)
    (hedit : Trace program editing (start db₀ (EditTrip.opened me tripID bucket now)) edits st₀)
    (hready : st₀.loc.Editable) (hfields : st₀.loc.emptyField = false)
    (hpress : program.step (.event .saveButtonPressed) st₀ = some st₁)
    (hrun : Reaches program settling st₁ st₂) (hq : Quiescent st₂)
    (hform : ∀ e ∈ events edits, ∀ form ∈ e.form?, form.Pinned G) : st₂.store.Pinned G := by
  have hpin := allPinned_of_trace hdb hnd hedit hform
  have hall : ∀ feeds, Between ∅ Set.univ feeds := fun _ => ⟨by simp, by simp⟩
  obtain ⟨hp, -⟩ := phase_of_trace hnd (hall _) (fun _ _ => hall _) hedit
  have hdoc := (Firestore.fetchUser_eq_some hme).2
  obtain ⟨t, -, hs⟩ := hp.saved hready ⟨_, hdoc, hall _⟩ hfields hpress hrun hq
  have hed := hp.of_editable hready
  intro id e he
  by_cases hid : id ∈ st₀.loc.ids
  · -- the entry is the one of an annotation
    obtain ⟨r, hr, rfl⟩ := List.mem_map.mp hid
    obtain ⟨e', he', hof, -⟩ := hs.published r hr
    obtain rfl : e' = e := Option.some.inj (he'.symm.trans he)
    exact hof.pinned (hpin r (hed.bound r (Or.inl hr)))
  · by_cases hdel : ∃ r ∈ st₀.loc.deleteList, st₀.loc.id r = id
    · obtain ⟨r, hr, rfl⟩ := hdel
      rw [(hs.stored.deleted r hr List.not_mem_nil).1] at he
      cases he
    · rw [hs.stored.entries id hid fun r hr hid' => hdel ⟨r, hr, hid'⟩] at he
      exact hdb id e he

end

end EditTrip

/-! ## The screen of an entry -/

namespace EditEntry

/-- When the document is written, the location is one with the coordinates of the entry. -/
def placed (G : String → Option GeoPoint) (l : EditEntry) (db : Firestore) :
    Async.Move Callback Unit Event → Prop
  | .deliver (.imageURL list _) ok _ =>
    ok = true → l.tempEntryList list + 1 = l.entryImage.length →
      ∀ e ∈ db.entries.lookup l.entryID, G l.locationNameField = some e.coordinates
  | _ => True

instance (l : EditEntry) (db : Firestore) : DecidablePred (placed G l db)
  | .event _ => inferInstanceAs (Decidable True)
  | .deliver (.imageURL list _) ok _ => inferInstanceAs (Decidable
      (ok = true → l.tempEntryList list + 1 = l.entryImage.length →
        ∀ e ∈ db.entries.lookup l.entryID, G l.locationNameField = some e.coordinates))
  | .deliver .entryFetched _ _ => inferInstanceAs (Decidable True)
  | .deliver (.coverDownloaded _) _ _ => inferInstanceAs (Decidable True)
  | .deliver (.imageDownloaded _) _ _ => inferInstanceAs (Decidable True)
  | .deliver (.coverUploaded _ _) _ _ => inferInstanceAs (Decidable True)
  | .deliver (.coverURL _) _ _ => inferInstanceAs (Decidable True)
  | .deliver (.imageUploaded _ _ _) _ _ => inferInstanceAs (Decidable True)
  | .deliver .entryUpdated _ _ => inferInstanceAs (Decidable True)

variable {l : EditEntry} {db : Firestore} {x x' : Direct Firestore EditEntry Callback}

theorem pinned_step (h : x.store.Pinned G) {m : Async.Move Callback Unit Event}
    (ha : placed G x.loc x.store m) (hs : DirectStep program x m x') : x'.store.Pinned G := by
  rcases (store_step hs).2 with hsame | ⟨list, path, a, l, rfl, hfull, hname, hwrite⟩
  · exact hsame ▸ h
  · intro id e he
    rw [hwrite] at he
    simp only [Write.apply, Collection.lookup_modify_eq] at he
    split at he
    · rename_i hid
      obtain ⟨e₀, he₀, rfl⟩ := Option.map_eq_some_iff.mp he
      show G l.locationNameField = some e₀.coordinates
      rw [hname]
      exact ha rfl hfull e₀ (hid ▸ he₀)
    · exact h id e he

theorem pinned_of_reaches {st : State Firestore EditEntry Write Callback} (hdb : db.Pinned G)
    (h : Reaches program (placed G) (start db l) st) (hq : Quiescent st) : st.store.Pinned G := by
  have hend := h.invariant (I := fun x => x.store.Pinned G)
    (fun x m x' hx ha hs => pinned_step hx ha hs) hdb
  rw [hq.direct] at hend
  exact hend

end EditEntry

/-! ## All screens -/

/-- A use of the form on the map of a trip. -/
inductive FormUse
  | goEdit (me : User) (tappedLocationString : String) (uses : List (Label Unit EntryOnMap.Event))
  | fromEditBtn (me : User) (a : CustomAnnotation)
    (uses : List (Label Unit EntryOnMap.Event))

/-- The screen that is opened. -/
def FormUse.screen (b : Bucket) : FormUse → EntryOnMap
  | .goEdit me tappedLocationString _ => .goEdit me tappedLocationString b
  | .fromEditBtn me a _ => .fromEditBtn me a b

/-- What is done on it. -/
def FormUse.uses : FormUse → List (Label Unit EntryOnMap.Event)
  | .goEdit _ _ uses => uses
  | .fromEditBtn _ _ uses => uses

/-- The screen at the end, if its objects are `b` at the beginning. -/
def FormUse.run (G : String → Option GeoPoint) (s : Backend) (b : Bucket) (use : FormUse) :
    Option EntryOnMap :=
  (exec (EntryOnMap.program G) (fun _ _ _ => True) use.uses (start s.store (use.screen b))).map
    fun st => st.loc

/-- The forms that are handed over. -/
def FormUse.handed (G : String → Option GeoPoint) (s : Backend) (use : FormUse) :
    List EntryForm :=
  match use.run G s s.bucket with
  | none => []
  | some l => l.handed

/-- No location is edited while it is geocoded. -/
def FormUse.Steady (G : String → Option GeoPoint) (s : Backend) (use : FormUse) : Prop :=
  (exec (EntryOnMap.program G) EntryOnMap.steady use.uses
    (start s.store (use.screen s.bucket))).isSome

instance (s : Backend) (use : FormUse) : Decidable (use.Steady G s) :=
  inferInstanceAs (Decidable (_ = true))

/-- An action, with the uses of the form in which the entries of a trip are created and edited. -/
structure Visit where
  script : Script
  forms : List FormUse

/-- The forms that the screen of a trip is given. -/
def Script.forms : Script → List EntryForm
  | .saveTrip _ _ edits _ => (events edits).filterMap EditTrip.Event.form?
  | _ => []

/-- What the screen of the script finds: the covers of the forms are stored. -/
def Visit.opened (G : String → Option GeoPoint) (s : Backend) (v : Visit) : Backend :=
  let stored := v.forms.foldl (fun b use => ((use.run G s b).map EntryOnMap.bucket).getD b) s.bucket
  { s with bucket := stored }

/-- What a visit comes to. The forms that the screen of a trip is given are handed over. -/
def Visits (G : String → Option GeoPoint) (s : Backend) (v : Visit) (s' : Backend) : Prop :=
  (∃ act, v.script.perform (v.opened G s) = some (act, s')) ∧
    ∀ form ∈ v.script.forms, ∃ use ∈ v.forms, form ∈ use.handed G s

/-- If a single entry is edited, then it is not given the name of a location with other
coordinates. -/
def Script.Places (G : String → Option GeoPoint) (s : Backend) : Script → Prop
  | .editEntry a id title location description images uses => ∀ me ∈ s.store.fetchUser a,
    (exec EditEntry.program (EditEntry.placed G) uses
      (start s.store (EditEntry.opened me id title location description images s.bucket))).isSome
  | _ => True

instance (s : Backend) : DecidablePred (Script.Places G s)
  | .editEntry a id title location description images uses =>
    inferInstanceAs (Decidable (∀ me ∈ s.store.fetchUser a,
      (exec EditEntry.program (EditEntry.placed G) uses
        (start s.store
          (EditEntry.opened me id title location description images s.bucket))).isSome))
  | .signUp _ _ => inferInstanceAs (Decidable True)
  | .followButtonPressed _ _ _ => inferInstanceAs (Decidable True)
  | .unfollow _ _ _ => inferInstanceAs (Decidable True)
  | .acceptRequest _ _ _ => inferInstanceAs (Decidable True)
  | .denyRequest _ _ _ => inferInstanceAs (Decidable True)
  | .switchToggled _ _ => inferInstanceAs (Decidable True)
  | .saveTrip _ _ _ _ => inferInstanceAs (Decidable True)
  | .deleteTrip _ _ _ => inferInstanceAs (Decidable True)

/-- No location is edited while it is geocoded, and no single entry is given another place. -/
def NamesPlaces (G : String → Option GeoPoint) (s : Backend) (v : Visit) : Prop :=
  (∀ use ∈ v.forms, use.Steady G s) ∧ v.script.Places G (v.opened G s)

instance (s : Backend) (v : Visit) : Decidable (NamesPlaces G s v) :=
  inferInstanceAs (Decidable (_ ∧ _))

/-- A form that is handed over by a steady use. -/
theorem FormUse.Steady.pinned {s : Backend} {use : FormUse} (h : use.Steady G s) {form : EntryForm}
    (hform : form ∈ use.handed G s) : form.Pinned G := by
  obtain ⟨st, hst⟩ := Option.isSome_iff_exists.mp h
  have hopened : ∃ u, EntryOnMap.Opened u s.bucket (use.screen s.bucket) := by
    cases use with
    | goEdit me place uses => exact ⟨me, .goEdit place⟩
    | fromEditBtn me a uses => exact ⟨me, .fromEditBtn a⟩
  obtain ⟨u, hu⟩ := hopened
  simp only [FormUse.handed] at hform
  split at hform
  · cases hform
  · rename_i l hl
    obtain ⟨st', hst', rfl⟩ := Option.map_eq_some_iff.mp hl
    obtain rfl := exec_unique hst hst'
    exact EntryOnMap.handed_located hu ⟨_, trace_of_exec hst⟩ form hform

theorem Integrity.visit {s s' : Backend} {v : Visit} (h : Integrity s.store)
    (hs : Visits G s v s') : Integrity s'.store := by
  obtain ⟨⟨act, hact⟩, -⟩ := hs
  have hopened : Integrity (v.opened G s).store := h
  exact hopened.step (step_of_perform hact)

/-- **One visit.** -/
theorem Firestore.Pinned.visit {s s' : Backend} {v : Visit} (h : s.store.Pinned G)
    (hi : Integrity s.store) (hs : Visits G s v s') (hv : NamesPlaces G s v) :
    s'.store.Pinned G := by
  have hopened : Integrity (v.opened G s).store := hi
  obtain ⟨⟨act, hact⟩, hforms⟩ := hs
  have huid : ∀ {a me}, s.store.fetchUser a = some me → me.uid = a :=
    fun hme => (Firestore.fetchUser_eq_some hme).1
  have hasks := asks_of_perform hact
  cases hscript : v.script with
  | saveTrip a tripID edits answers =>
    rw [hscript] at hact hforms
    obtain ⟨me, st₀, st₁, st₂, hme, howner, hedit, hready, hfields, hpress, hrun, hq, -, rfl⟩ :=
      runs_of_saveTrip hact
    obtain rfl := huid hme
    refine EditTrip.pinned_of_trace h hme (fun t d _ => hi.nodup t d) (trace_of_exec hedit) hready
      hfields hpress ⟨_, trace_of_exec hrun⟩ hq fun e he form hform => ?_
    obtain ⟨use, huse, hhanded⟩ := hforms form (List.mem_filterMap.mpr ⟨e, he, hform⟩)
    exact (hv.1 use huse).pinned hhanded
  | editEntry a id title location description images uses =>
    rw [hscript] at hact
    obtain ⟨me, st, hme, hst, hq, -, rfl⟩ := run_of_editEntry hact
    have hplaced := hv.2
    rw [hscript] at hplaced
    obtain ⟨st', hst'⟩ := Option.isSome_iff_exists.mp (hplaced me hme)
    obtain rfl := exec_unique hst hst'
    exact EditEntry.pinned_of_reaches h ⟨_, trace_of_exec hst'⟩ hq
  | _ =>
    have hsame : s'.store.entries = s.store.entries → s'.store.Pinned G :=
      fun he id e hid => h id e (he ▸ hid)
    rw [hscript] at hasks
    cases hopened.effect_of_step (step_of_perform hact) with
    | saved => cases hasks
    | edited => cases hasks
    | deleted _ _ _ _ hs =>
      intro id e he
      rcases hs.entries id with hsame | ⟨-, hnone⟩
      · exact h id e (hsame ▸ he)
      · rw [hnone] at he
        cases he
    | signedUp _ hs => exact hsame (hs ▸ rfl)
    | kept _ _ hs => exact hsame (hs ▸ rfl)
    | linked _ _ _ _ _ hs => exact hsame hs.entries
    | asked _ _ _ _ _ hs => exact hsame hs.entries
    | unlinked _ _ _ hs => exact hsame hs.entries
    | unlisted _ _ hs => exact hsame hs.entries
    | accepted _ _ hs => exact hsame hs.entries
    | denied _ _ hs => exact hsame hs.entries
    | toggled hs => exact hsame hs.entries

/-- **Pins match places** in every state of every run in which each visit meets the condition. -/
theorem pinned_of_run {tr : List (Visit × Backend)} (h : IsRun (Visits G) .empty tr)
    (hmeets : Meets (NamesPlaces G) .empty tr) : ∀ x ∈ tr, x.2.store.Pinned G := by
  have hstart : Integrity Backend.empty.store ∧ Backend.empty.store.Pinned G :=
    ⟨Integrity.empty, fun id e he => by cases he⟩
  intro x hx
  exact (h.invariant (I := fun s => Integrity s.store ∧ s.store.Pinned G)
    (fun s v s' hI hs hv => ⟨hI.1.visit hs, hI.2.visit hI.1 hs hv⟩) hstart hmeets x hx).2

/-! ## Some visits -/

/-- What a visit comes to, if it can be executed. -/
def Visit.perform (G : String → Option GeoPoint) (s : Backend) (v : Visit) : Option Backend :=
  if ∀ form ∈ v.script.forms, ∃ use ∈ v.forms, form ∈ use.handed G s then
    (v.script.perform (v.opened G s)).map Prod.snd
  else none

theorem visits_of_perform {s s' : Backend} {v : Visit} (h : v.perform G s = some s') :
    Visits G s v s' := by
  simp only [Visit.perform] at h
  split at h
  · rename_i hforms
    obtain ⟨⟨act, s''⟩, hact, rfl⟩ := Option.map_eq_some_iff.mp h
    exact ⟨⟨act, hact⟩, hforms⟩
  · cases h

theorem isRun_of_visits {vs : List Visit} {s : Backend} {tr : List (Visit × Backend)}
    (h : play (Visit.perform G) vs s = some tr) : IsRun (Visits G) s tr := by
  have hrun := isRun_of_play h
  clear h
  induction tr generalizing s with
  | nil => trivial
  | cons x tr ih => exact ⟨visits_of_perform hrun.1, ih hrun.2⟩

namespace Places

/-- The geocoder knows two places. -/
def geocoder : String → Option GeoPoint
  | "park" => some ⟨0, 0⟩
  | "lake" => some ⟨1, 1⟩
  | _ => none

/-- A new entry in the park, in a new trip. -/
def newEntry : Visit where
  script := .saveTrip "bob" none
    [.event .viewDidLoad, .event .viewWillAppear,
      .event (EditTrip.Event.addAnnotation ⟨⟨0, 0⟩, "entry", "text", [.ofData "photo"], "park",
        ⟨"/users/bob/entryCovers/nil"⟩, .ofData "cover"⟩ "a"),
      .event (.editTripName "trip"), .event (.selectTripCover (some (.ofData "cover")))]
    [.deliver 0 true "t", .deliver 0 true "t", .deliver 0 true "t", .apply, .apply,
      .deliver 0 true "t", .deliver 0 true "t", .apply, .apply, .apply, .deliver 0 true "",
      .deliver 0 true "", .apply, .deliver 0 true "", .apply, .deliver 0 true ""]
  forms := [.goEdit { newUser "bob" with uid := "bob" } "park"
    [.event (.editEntryName "entry"), .event (.editDescription "text"),
      .event (.selectCover (.ofData "cover")), .event (.addPhoto (.ofData "photo")),
      .event .saveButton, .deliver 0 true (), .deliver 0 true (), .deliver 0 true ()]]

/-- The entry by itself is given this location. -/
def newLocation (location : String) : Visit where
  script := .editEntry "bob" "a" "entry" "park" "text" [⟨"/users/bob/a/image0"⟩]
    [.event .viewDidLoad, .deliver 0 true (), .deliver 0 true (), .deliver 0 true (),
      .event (.editLocationName location), .event (.editEntryName "name"), .event .saveButton,
      .deliver 0 true (), .deliver 0 true (), .deliver 0 true (), .deliver 0 true (), .apply,
      .deliver 0 true ()]
  forms := []

def signUp : Visit := ⟨.signUp "bob" "bob", []⟩

/-- A run in which an entry is created and given a new name. -/
theorem pinned_of_run_sample : ∃ tr, IsRun (Visits geocoder) .empty tr ∧
    (∃ x ∈ tr, ∃ e, x.2.store.entries.lookup "a" = some e ∧ e.entryName = "name") ∧
    ∀ x ∈ tr, x.2.store.Pinned geocoder := by
  have hplay : (play (Visit.perform geocoder) [signUp, newEntry, newLocation "park"]
      .empty).isSome := by decide +kernel
  have hall : ∀ tr ∈ play (Visit.perform geocoder) [signUp, newEntry, newLocation "park"] .empty,
      ∃ x ∈ tr, (x.2.store.entries.lookup "a").map EntryDoc.entryName = some "name" := by
    decide +kernel
  have hmeets : ∀ tr ∈ play (Visit.perform geocoder) [signUp, newEntry, newLocation "park"] .empty,
      Meets (NamesPlaces geocoder) .empty tr := by
    decide +kernel
  obtain ⟨tr, htr⟩ := Option.isSome_iff_exists.mp hplay
  obtain ⟨x, hx, hname⟩ := hall tr htr
  obtain ⟨e, he, hname⟩ := Option.map_eq_some_iff.mp hname
  have hrun := isRun_of_visits htr
  exact ⟨tr, hrun, ⟨x, hx, e, he, hname⟩, pinned_of_run hrun (hmeets tr htr)⟩

/-- A run in which an entry in the park is given the location of the lake. -/
theorem entry_misplaced : ∃ tr, IsRun (Visits geocoder) .empty tr ∧
    ∃ x ∈ tr, ∃ e, x.2.store.entries.lookup "a" = some e ∧ e.locationName = "lake" ∧
      e.coordinates = ⟨0, 0⟩ ∧ geocoder "lake" = some ⟨1, 1⟩ ∧ ¬x.2.store.Pinned geocoder := by
  have hplay : (play (Visit.perform geocoder) [signUp, newEntry, newLocation "lake"]
      .empty).isSome := by decide +kernel
  have hall : ∀ tr ∈ play (Visit.perform geocoder) [signUp, newEntry, newLocation "lake"] .empty,
      ∃ x ∈ tr, (x.2.store.entries.lookup "a").map (fun e => (e.locationName, e.coordinates)) =
        some ("lake", ⟨0, 0⟩) := by
    decide +kernel
  obtain ⟨tr, htr⟩ := Option.isSome_iff_exists.mp hplay
  obtain ⟨x, hx, he⟩ := hall tr htr
  obtain ⟨e, he, hplace⟩ := Option.map_eq_some_iff.mp he
  obtain ⟨hname, hcoordinates⟩ := Prod.mk.inj hplace
  refine ⟨tr, isRun_of_visits htr, x, hx, e, he, hname, hcoordinates, rfl, fun hpin => ?_⟩
  have hG := hpin "a" e he
  rw [EntryDoc.Pinned, hname, hcoordinates] at hG
  exact absurd hG (by decide)

end Places

end Wanderlust
