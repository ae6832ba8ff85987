import Wanderlust.Entries.Files
import Wanderlust.System.Places
import Wanderlust.Trips.Objects

/-!
# What is left of a deleted entry

The images of an entry are in a folder of their own. The saves of its trip number them from the
first, an edit of the entry by itself stores others, and its deletion deletes as many as it has at
last. So the folder is empty at the end (`photos_freed`) exactly if no edit has stored an image, and
no save of the trip more images than are deleted.
-/

namespace Wanderlust

open Async Runs

variable {G : String → Option GeoPoint}

/-- The folder of the entry has no other name in Storage. -/
structure OwnFolder (uid : Uid) (id : EntryID) : Prop where
  user : '/' ∉ uid.toList
  entry : '/' ∉ id.toList
  tripCovers : id ≠ "tripCovers"
  entryCovers : id ≠ "entryCovers"

/-- The images in the folder of the entry are those that a deletion up to `m` deletes. -/
def NumberedTo (uid : Uid) (id : EntryID) (m : ℕ) (b : Bucket) : Prop :=
  ∀ p ∈ b, InFolder uid id p → ∃ i ≤ m, p = imagePath uid id i

/-- The user who acts. -/
def Script.actor : Script → Uid
  | .signUp uid _ => uid
  | .followButtonPressed a _ _ => a
  | .unfollow a _ _ => a
  | .acceptRequest a _ _ => a
  | .denyRequest a _ _ => a
  | .switchToggled a _ => a
  | .saveTrip a _ _ _ => a
  | .editEntry a _ _ _ _ _ _ => a
  | .deleteTrip a _ _ => a

/-- The edit screen of a trip of the user when its save button is pressed. -/
def Backend.screen (s : Backend) (me : User) (tripID : Option TripID)
    (edits : List (Label TripID EditTrip.Event)) :
    Option (State Firestore EditTrip Write EditTrip.Callback) :=
  exec EditTrip.program EditTrip.editing edits
    (start s.store (EditTrip.opened me tripID s.bucket s.now))

/-- The script deletes the entry. -/
def Script.Deletes (id : EntryID) (s : Backend) : Script → Prop
  | .saveTrip a tripID edits _ => ∃ me ∈ s.store.fetchUser a, ∃ st ∈ s.screen me tripID edits,
    ∃ r ∈ st.loc.deleteList, st.loc.id r = id
  | .deleteTrip _ t _ => ∃ d ∈ s.store.trips.lookup t, d.coverPhoto ≠ none ∧ id ∈ d.entries
  | _ => False

instance (id : EntryID) (s : Backend) : DecidablePred (Script.Deletes id s)
  | .saveTrip a tripID edits _ => inferInstanceAs (Decidable (∃ me ∈ s.store.fetchUser a,
      ∃ st ∈ s.screen me tripID edits, ∃ r ∈ st.loc.deleteList, st.loc.id r = id))
  | .deleteTrip _ t _ => inferInstanceAs (Decidable (∃ d ∈ s.store.trips.lookup t,
      d.coverPhoto ≠ none ∧ id ∈ d.entries))
  | .signUp _ _ => inferInstanceAs (Decidable False)
  | .followButtonPressed _ _ _ => inferInstanceAs (Decidable False)
  | .unfollow _ _ _ => inferInstanceAs (Decidable False)
  | .acceptRequest _ _ _ => inferInstanceAs (Decidable False)
  | .denyRequest _ _ _ => inferInstanceAs (Decidable False)
  | .switchToggled _ _ => inferInstanceAs (Decidable False)
  | .editEntry _ _ _ _ _ _ _ => inferInstanceAs (Decidable False)

/-- The user `uid` deletes the entry, as one with `m` photos, and the objects are deleted that are
there. -/
def Script.Clears (uid : Uid) (id : EntryID) (m : ℕ) (s : Backend) : Script → Prop
  | .saveTrip a tripID edits answers => a = uid ∧
    ∃ me ∈ s.store.fetchUser a, ∃ st ∈ s.screen me tripID edits,
      (∃ r ∈ st.loc.deleteList, st.loc.id r = id ∧ (st.loc.heap r).numPhotos = m) ∧
      ∃ st₁ ∈ EditTrip.program.step (.event .saveButtonPressed) st,
        (exec EditTrip.program EditTrip.clearing answers st₁).isSome
  | .deleteTrip a t answers => a = uid ∧
    ∃ me ∈ s.store.fetchUser a, ∃ d ∈ s.store.trips.lookup t, ∃ e ∈ s.store.entries.lookup id,
      (d.coverPhoto ≠ none ∧ id ∈ d.entries ∧ e.mediaList.length = m) ∧
      (complete TripInfo.program TripInfo.clearing .deleteConfirmed answers s.store
        { TripInfo.opened a me t s.bucket with presented := some .sureToDelete }).isSome
  | _ => False

instance (uid : Uid) (id : EntryID) (m : ℕ) (s : Backend) :
    DecidablePred (Script.Clears uid id m s)
  | .saveTrip a tripID edits answers => inferInstanceAs (Decidable (a = uid ∧
      ∃ me ∈ s.store.fetchUser a, ∃ st ∈ s.screen me tripID edits,
        (∃ r ∈ st.loc.deleteList, st.loc.id r = id ∧ (st.loc.heap r).numPhotos = m) ∧
        ∃ st₁ ∈ EditTrip.program.step (.event .saveButtonPressed) st,
          (exec EditTrip.program EditTrip.clearing answers st₁).isSome))
  | .deleteTrip a t answers => inferInstanceAs (Decidable (a = uid ∧
      ∃ me ∈ s.store.fetchUser a, ∃ d ∈ s.store.trips.lookup t, ∃ e ∈ s.store.entries.lookup id,
        (d.coverPhoto ≠ none ∧ id ∈ d.entries ∧ e.mediaList.length = m) ∧
        (complete TripInfo.program TripInfo.clearing .deleteConfirmed answers s.store
          { TripInfo.opened a me t s.bucket with presented := some .sureToDelete }).isSome))
  | .signUp _ _ => inferInstanceAs (Decidable False)
  | .followButtonPressed _ _ _ => inferInstanceAs (Decidable False)
  | .unfollow _ _ _ => inferInstanceAs (Decidable False)
  | .acceptRequest _ _ _ => inferInstanceAs (Decidable False)
  | .denyRequest _ _ _ => inferInstanceAs (Decidable False)
  | .switchToggled _ _ => inferInstanceAs (Decidable False)
  | .editEntry _ _ _ _ _ _ _ => inferInstanceAs (Decidable False)

/-- The script stores no images of the entry but those that a deletion up to `m` deletes: a save of
the trip stores at most so many, and an edit of the entry by itself none. -/
def Script.StoresTo (uid : Uid) (id : EntryID) (m : ℕ) (s : Backend) : Script → Prop
  | .saveTrip a tripID edits _ => a = uid →
    ∀ me ∈ s.store.fetchUser a, ∀ st ∈ s.screen me tripID edits, ∀ r ∈ st.loc.entryList,
      st.loc.id r = id → (st.loc.heap r).images.length ≤ m + 1
  | .editEntry a id' title location description images uses => a = uid → id' = id →
    ∀ me ∈ s.store.fetchUser a, (exec EditEntry.program EditEntry.storesNone uses
      (start s.store (EditEntry.opened me id' title location description images s.bucket))).isSome
  | _ => True

instance (uid : Uid) (id : EntryID) (m : ℕ) (s : Backend) :
    DecidablePred (Script.StoresTo uid id m s)
  | .saveTrip a tripID edits _ => inferInstanceAs (Decidable (a = uid →
      ∀ me ∈ s.store.fetchUser a, ∀ st ∈ s.screen me tripID edits, ∀ r ∈ st.loc.entryList,
        st.loc.id r = id → (st.loc.heap r).images.length ≤ m + 1))
  | .editEntry a id' title location description images uses => inferInstanceAs (Decidable
      (a = uid → id' = id → ∀ me ∈ s.store.fetchUser a,
        (exec EditEntry.program EditEntry.storesNone uses (start s.store
          (EditEntry.opened me id' title location description images s.bucket))).isSome))
  | .signUp _ _ => inferInstanceAs (Decidable True)
  | .followButtonPressed _ _ _ => inferInstanceAs (Decidable True)
  | .unfollow _ _ _ => inferInstanceAs (Decidable True)
  | .acceptRequest _ _ _ => inferInstanceAs (Decidable True)
  | .denyRequest _ _ _ => inferInstanceAs (Decidable True)
  | .switchToggled _ _ => inferInstanceAs (Decidable True)
  | .deleteTrip _ _ _ => inferInstanceAs (Decidable True)

/-- A visit before the entry is deleted. -/
def Visit.Earlier (G : String → Option GeoPoint) (id : EntryID) (s : Backend) (v : Visit) : Prop :=
  '/' ∉ v.script.actor.toList ∧ ¬v.script.Deletes id (v.opened G s)

instance (id : EntryID) (s : Backend) (v : Visit) : Decidable (v.Earlier G id s) :=
  inferInstanceAs (Decidable (_ ∧ _))

/-- A visit that stores no images of the entry but those that a deletion up to `m` deletes. -/
def Visit.StoresTo (G : String → Option GeoPoint) (uid : Uid) (id : EntryID) (m : ℕ) (s : Backend)
    (v : Visit) : Prop := v.script.StoresTo uid id m (v.opened G s)

instance (uid : Uid) (id : EntryID) (m : ℕ) (s : Backend) (v : Visit) :
    Decidable (v.StoresTo G uid id m s) :=
  inferInstanceAs (Decidable (Script.StoresTo uid id m (v.opened G s) v.script))

/-- The entry has a history, and is then deleted as one with `m` photos. -/
structure Lifetime (G : String → Option GeoPoint) (uid : Uid) (id : EntryID) (m : ℕ)
    (tr : List (Visit × Backend)) (v : Visit) (s' : Backend) : Prop where
  run : IsRun (Visits G) .empty tr
  earlier : Meets (Visit.Earlier G id) .empty tr
  last : Visits G (final .empty tr) v s'
  clears : v.script.Clears uid id m (v.opened G (final .empty tr))

section

variable {uid a : Uid} {id id' : EntryID} {m i : ℕ} {dir name p : String} {b b' : Bucket}
  {s s' : Backend} {act : Action} {v : Visit} {tr : List (Visit × Backend)}

/-! ## The folder -/

theorem OwnFolder.not_inFolder (h : OwnFolder uid id) (ha : '/' ∉ a.toList)
    (hdir : '/' ∉ dir.toList) (hne : dir ≠ id) : ¬InFolder uid id (filePath a dir name) := by
  by_cases hau : a = uid
  · exact hau ▸ not_inFolder_of_dir h.entry hdir hne
  · exact not_inFolder_of_uid h.user ha hau

theorem OwnFolder.not_tripCover (h : OwnFolder uid id) (ha : '/' ∉ a.toList) (t : TripID) :
    ¬InFolder uid id (tripCoverPath a t) :=
  tripCoverPath_eq a t ▸ h.not_inFolder ha (by decide) h.tripCovers.symm

/-- The numbered images in the folder are those of the entry. -/
theorem OwnFolder.numbered_iff (h : OwnFolder uid id) (ha : '/' ∉ a.toList) {stem : String}
    (hstem : '/' ∉ stem.toList) :
    InFolder uid id (filePath a id' (numbered stem i)) ↔ a = uid ∧ id' = id := by
  constructor
  · intro hin
    by_cases hau : a = uid
    · subst hau
      exact ⟨rfl, (inFolder_filePath (slash_notMem_numbered hstem i)).mp hin⟩
    · exact absurd hin (not_inFolder_of_uid h.user ha hau)
  · rintro ⟨rfl, rfl⟩
    exact (inFolder_filePath (slash_notMem_numbered hstem i)).mpr rfl

theorem OwnFolder.imagePath_iff (h : OwnFolder uid id) (ha : '/' ∉ a.toList) :
    InFolder uid id (imagePath a id' i) ↔ a = uid ∧ id' = id :=
  imagePath_eq a id' i ▸ h.numbered_iff ha (by decide)

theorem imagePath_inj {j : ℕ} : imagePath uid id i = imagePath uid id j ↔ i = j := by
  have hslash : ∀ i, '/' ∉ (numbered "image" i).toList :=
    fun i => slash_notMem_numbered (by decide) i
  rw [imagePath_eq, imagePath_eq, filePath_inj (hslash i) (hslash j), numbered_inj]
  exact and_iff_right rfl

theorem numberedTo_congr (h : ∀ p, InFolder uid id p → (p ∈ b' ↔ p ∈ b)) :
    NumberedTo uid id m b' ↔ NumberedTo uid id m b := by
  constructor
  · exact fun hb p hp hin => hb p ((h p hin).mpr hp) hin
  · exact fun hb p hp hin => hb p ((h p hin).mp hp) hin

/-! ## Before the entry is deleted -/

/-- The covers that are stored on the map are not in the folder. -/
theorem OwnFolder.opened_bucket (h : OwnFolder uid id) (hp : InFolder uid id p) :
    p ∈ (v.opened G s).bucket ↔ p ∈ s.bucket := by
  have hslash : '/' ∉ ("nil" : String).toList := by decide
  have hone : ∀ (use : FormUse) (b : Bucket),
      p ∈ ((use.run G s b).map EntryOnMap.bucket).getD b ↔ p ∈ b := by
    intro use b
    cases hrun : use.run G s b with
    | none => exact Iff.rfl
    | some l =>
      obtain ⟨st, hst, rfl⟩ := Option.map_eq_some_iff.mp hrun
      obtain ⟨u, hu⟩ : ∃ u, EntryOnMap.Opened u b (use.screen b) := by
        cases use with
        | goEdit me place uses => exact ⟨me, .goEdit place⟩
        | fromEditBtn me annotation uses => exact ⟨me, .fromEditBtn annotation⟩
      have hsame := (EntryOnMap.handed_cover hu ⟨_, trace_of_exec hst⟩).2 p
      rw [hu.coverPath_eq] at hsame
      have hne : p ≠ filePath u.uid "entryCovers" "nil" := by
        rintro rfl
        obtain ⟨name, hname, he⟩ := hp
        exact h.entryCovers (dir_eq_of_filePath hslash hname (by decide) h.entry he).2.symm
      rw [← AList.lookup_isSome, Option.map_some, Option.getD_some, hsame hne, AList.lookup_isSome]
  simp only [Visit.opened]
  generalize s.bucket = b
  induction v.forms generalizing b with
  | nil => exact Iff.rfl
  | cons use forms ih => exact (ih _).trans (hone use b)

/-- **A save of the trip** that does not delete the entry stores its images. -/
theorem OwnFolder.saveTrip (h : OwnFolder uid id) {tripID : Option TripID}
    {edits answers : List (Label TripID EditTrip.Event)}
    (hnd : ∀ t d, s.store.trips.lookup t = some d → d.entries.Nodup) (ha : '/' ∉ a.toList)
    (hno : ¬(Script.saveTrip a tripID edits answers).Deletes id s)
    (hs : (Script.saveTrip a tripID edits answers).perform s = some (act, s')) :
    NumberedTo uid id m s'.bucket ↔ NumberedTo uid id m s.bucket ∧
      (Script.saveTrip a tripID edits answers).StoresTo uid id m s := by
  obtain ⟨me, st₀, st₁, st₂, hme, howner, hedit, hready, hfields, hpress, hrun, hq, -, rfl⟩ :=
    runs_of_saveTrip hs
  have huid : me.uid = a := (Firestore.fetchUser_eq_some hme).1
  have hcur : st₀.loc.currentUser.uid = a :=
    (EditTrip.phase_of_edits (fun t d _ => hnd t d) (trace_of_exec hedit)).setting.uid.trans huid
  have hkeep : ∀ p, InFolder uid id p → p ∉ st₀.loc.deletedImages := by
    rintro p hp ⟨r, hr, i, -, rfl⟩
    rw [hcur] at hp
    exact hno ⟨me, hme, st₀, hedit, r, hr, ((h.imagePath_iff ha).mp hp).2⟩
  have hmem : ∀ p, InFolder uid id p →
      (p ∈ st₂.loc.bucket ↔ p ∈ st₀.loc.storedImages ∨ p ∈ s.bucket) := by
    intro p hp
    have hsaved := EditTrip.saved_images (F := {p | InFolder uid id p}) (fun t d _ => hnd t d)
      (trace_of_exec hedit) hready hfields hpress (fun _ _ _ h => h)
      (fun l db p ok a _ hp hdel => absurd hdel (hkeep p hp)) ⟨_, trace_of_exec hrun⟩ hq
      (fun t => huid ▸ h.not_tripCover ha t) hp
    rw [hsaved, and_iff_left (hkeep p hp)]
  constructor
  · intro hall
    refine ⟨fun p hp hin => hall p ((hmem p hin).mpr (Or.inr hp)) hin, ?_⟩
    rintro rfl me' hme' st hst r hr hid
    obtain rfl := Option.some.inj (hme.symm.trans hme')
    obtain rfl := Option.some.inj (hedit.symm.trans hst)
    by_contra hlong
    -- the image after the last one that is deleted
    have hin : InFolder a id (imagePath a id (m + 1)) := (h.imagePath_iff ha).mpr ⟨rfl, rfl⟩
    have hstored : imagePath a id (m + 1) ∈ st₀.loc.storedImages :=
      ⟨r, hr, m + 1, by omega, by rw [hcur, hid]⟩
    obtain ⟨i, hi, he⟩ := hall _ ((hmem _ hin).mpr (Or.inl hstored)) hin
    rw [imagePath_inj] at he
    omega
  · rintro ⟨hall, hto⟩ p hp hin
    rcases (hmem p hin).mp hp with ⟨r, hr, i, hi, rfl⟩ | hold
    · rw [hcur] at hin ⊢
      obtain ⟨rfl, hid⟩ := (h.imagePath_iff ha).mp hin
      have hle := hto rfl me hme st₀ hedit r hr hid
      exact ⟨i, by omega, by rw [hid]⟩
    · exact hall p hold hin

/-- **An edit of the entry by itself** stores images that a deletion leaves alone. -/
theorem OwnFolder.editEntry (h : OwnFolder uid id) {title location description : String}
    {images : List URL} {uses : List (Label Unit EditEntry.Event)} (ha : '/' ∉ a.toList)
    (hs : (Script.editEntry a id' title location description images uses).perform s =
      some (act, s')) :
    NumberedTo uid id m s'.bucket ↔ NumberedTo uid id m s.bucket ∧
      (Script.editEntry a id' title location description images uses).StoresTo uid id m s := by
  obtain ⟨me, st, hme, hst, -, -, rfl⟩ := run_of_editEntry hs
  have huid : me.uid = a := (Firestore.fetchUser_eq_some hme).1
  obtain ⟨l, hl⟩ : ∃ l, EditEntry.opened me id' title location description images s.bucket = l :=
    ⟨_, rfl⟩
  have hbucket : l.bucket = s.bucket := hl ▸ rfl
  have hurl : l.entryCoverURL = none := hl ▸ rfl
  have hcover : ¬InFolder uid id l.coverPath := by
    rw [EditEntry.coverPath_eq, ← hl]
    exact h.not_inFolder (huid ▸ ha) (by decide) h.entryCovers.symm
  have himages : ∀ i, l.imagesPath i = filePath a id' (numbered "images" i) := by
    intro i
    rw [EditEntry.imagesPath_eq, ← hl]
    exact huid ▸ rfl
  have himages_iff : ∀ i, InFolder uid id (l.imagesPath i) ↔ a = uid ∧ id' = id :=
    fun i => himages i ▸ h.numbered_iff ha (by decide)
  rw [hl] at hst
  have hstoring := EditEntry.storing_of_reaches hurl ⟨_, trace_of_exec hst⟩
  have hsame : ∀ p, InFolder uid id p → (∀ i, p ≠ l.imagesPath i) →
      (p ∈ st.loc.bucket ↔ p ∈ s.bucket) := by
    intro p hp hi
    have hne : p ≠ l.coverPath := fun he => hcover (he ▸ hp)
    rw [← AList.lookup_isSome, ← AList.lookup_isSome, ← hbucket]
    exact Bool.eq_iff_iff.mp (congrArg Option.isSome (hstoring.others p hne hi))
  by_cases hown : a = uid ∧ id' = id
  · obtain ⟨rfl, rfl⟩ := hown
    constructor
    · intro hall
      refine ⟨fun p hp hin => hall p (hstoring.kept p (hbucket ▸ hp)) hin, fun _ _ me' hme' => ?_⟩
      obtain rfl := Option.some.inj (hme.symm.trans hme')
      rw [hl]
      by_contra hnone
      obtain ⟨i, hi⟩ := EditEntry.images_stored (EditEntry.storing_start hurl s.store) hst
        (Option.not_isSome_iff_eq_none.mp hnone)
      obtain ⟨j, -, he⟩ := hall _ hi ((himages_iff i).mpr ⟨rfl, rfl⟩)
      rw [himages, imagePath_eq] at he
      have hslash : ∀ stem : String, '/' ∉ stem.toList → ∀ i, '/' ∉ (numbered stem i).toList :=
        fun _ h i => slash_notMem_numbered h i
      rw [filePath_inj (hslash _ (by decide) i) (hslash _ (by decide) j)] at he
      exact numbered_image_ne j i he.2.symm
    · rintro ⟨hall, hto⟩ p hp hin
      obtain ⟨st', hst'⟩ := Option.isSome_iff_exists.mp (hto rfl rfl me hme)
      rw [hl] at hst'
      obtain rfl := exec_unique hst hst'
      have hne : p ≠ l.coverPath := fun he => hcover (he ▸ hin)
      have hlookup := EditEntry.stored_of_reaches hurl ⟨_, trace_of_exec hst'⟩ p hne
      refine hall p ?_ hin
      rw [← AList.lookup_isSome, ← hbucket, ← hlookup, AList.lookup_isSome]
      exact hp
  · have htrivial : (Script.editEntry a id' title location description images uses).StoresTo
        uid id m s := fun hau hid => absurd ⟨hau, hid⟩ hown
    rw [and_iff_left htrivial]
    refine numberedTo_congr fun p hp => hsame p hp fun i he => hown ?_
    exact (himages_iff i).mp (he ▸ hp)

/-- The deletion of another trip. -/
theorem OwnFolder.deleteTrip (h : OwnFolder uid id) {t : TripID}
    {answers : List (Label Unit TripInfo.Event)} (ha : '/' ∉ a.toList)
    (hno : ¬(Script.deleteTrip a t answers).Deletes id s)
    (hs : (Script.deleteTrip a t answers).perform s = some (act, s')) :
    NumberedTo uid id m s'.bucket ↔ NumberedTo uid id m s.bucket := by
  obtain ⟨me, d, r, hme, hd, -, hr, -, rfl⟩ := run_of_deleteTrip hs
  have huid : me.uid = a := (Firestore.fetchUser_eq_some hme).1
  have hkeep : d.coverPhoto ≠ none → ∀ p, InFolder uid id p →
      p ∉ TripInfo.deletedImages a s.store d := by
    rintro hcover p hp ⟨id', hid', -, -, i, -, rfl⟩
    exact hno ⟨d, hd, hcover, ((h.imagePath_iff ha).mp hp).2 ▸ hid'⟩
  obtain ⟨l, hl⟩ : ∃ l, { TripInfo.opened a me t s.bucket with
      presented := some .sureToDelete } = l := ⟨_, rfl⟩
  rw [hl] at hr
  have hcur : l.currentUser.uid = a := hl ▸ huid
  have hbucket : l.bucket = s.bucket := hl ▸ rfl
  refine numberedTo_congr fun p hp => ?_
  have hmem := TripInfo.deleted_images (F := {p | InFolder uid id p}) hd (hl ▸ rfl) (hl ▸ rfl) hcur
    (fun _ _ _ h => h) (fun hcover l' db' q ok b _ hq hdel => absurd hdel (hkeep hcover q hq))
    (completes_of_complete hr) hp
  rw [hbucket] at hmem
  exact hmem.trans (and_iff_left fun hcover => hkeep hcover p hp)

/-- **One visit** before the entry is deleted. -/
theorem OwnFolder.visit (h : OwnFolder uid id) (hi : Integrity s.store) (hs : Visits G s v s')
    (hv : v.Earlier G id s) :
    NumberedTo uid id m s'.bucket ↔ NumberedTo uid id m s.bucket ∧ v.StoresTo G uid id m s := by
  obtain ⟨⟨act, hact⟩, -⟩ := hs
  obtain ⟨ha, hno⟩ := hv
  have hasks := asks_of_perform hact
  have hnd : ∀ t d, (v.opened G s).store.trips.lookup t = some d → d.entries.Nodup :=
    fun t d => hi.nodup t d
  have hopened : NumberedTo uid id m (v.opened G s).bucket ↔ NumberedTo uid id m s.bucket :=
    numberedTo_congr fun p hp => h.opened_bucket hp
  rw [← hopened, Visit.StoresTo]
  clear hopened
  generalize v.opened G s = s₁ at *
  generalize v.script = script at *
  cases script with
  | saveTrip a tripID edits answers => exact h.saveTrip hnd ha hno hact
  | editEntry a id' title location description images uses => exact h.editEntry ha hact
  | deleteTrip a t answers =>
    rw [h.deleteTrip ha hno hact]
    exact (and_iff_left trivial).symm
  | _ =>
    have hsame : s'.bucket = s₁.bucket := by
      cases step_of_perform hact <;> first | rfl | cases hasks
    rw [hsame]
    exact (and_iff_left trivial).symm

/-! ## The deletion -/

/-- **The deletion of the entry** empties its folder if the images are those that it deletes. -/
theorem OwnFolder.clears (h : OwnFolder uid id) {script : Script}
    (hnd : ∀ t d, s.store.trips.lookup t = some d → d.entries.Nodup)
    (hc : script.Clears uid id m s) (hs : script.perform s = some (act, s')) :
    (∀ p ∈ s'.bucket, ¬InFolder uid id p) ↔ NumberedTo uid id m s.bucket := by
  have hrest : (∀ p, InFolder uid id p →
      (p ∈ s'.bucket ↔ p ∈ s.bucket ∧ ¬∃ i ≤ m, p = imagePath uid id i)) →
      ((∀ p ∈ s'.bucket, ¬InFolder uid id p) ↔ NumberedTo uid id m s.bucket) := by
    intro hmem
    constructor
    · intro hall p hp hin
      by_contra hno
      exact hall p ((hmem p hin).mpr ⟨hp, hno⟩) hin
    · intro hall p hp hin
      obtain ⟨hold, hno⟩ := (hmem p hin).mp hp
      exact hno (hall p hold hin)
  refine hrest fun p hp => ?_
  clear hrest
  cases script with
  | saveTrip a tripID edits answers =>
    obtain ⟨me, st₀, st₁, st₂, hme, howner, hedit, hready, hfields, hpress, hrun, hq, -, rfl⟩ :=
      runs_of_saveTrip hs
    obtain ⟨rfl, me', hme', st, hst, ⟨r, hr, hid, rfl⟩, st₁', hpress', hclear⟩ := hc
    obtain rfl := Option.some.inj (hme.symm.trans hme')
    obtain rfl := Option.some.inj (hedit.symm.trans hst)
    obtain rfl := Option.some.inj (hpress.symm.trans hpress')
    obtain ⟨st, hst⟩ := Option.isSome_iff_exists.mp hclear
    obtain rfl := exec_unique hrun hst
    have hphase := EditTrip.phase_of_edits (fun t d _ => hnd t d) (trace_of_exec hedit)
    have huid : me.uid = a := (Firestore.fetchUser_eq_some hme).1
    have hcur : st₀.loc.currentUser.uid = a := hphase.setting.uid.trans huid
    have hsame : ∀ r' i, InFolder a id (imagePath a (st₀.loc.id r') i) →
        r' ∈ st₀.loc.entryList ∨ r' ∈ st₀.loc.deleteList → r' = r ∧ r' ∉ st₀.loc.entryList := by
      intro r' i hin hr'
      have hid' := ((h.imagePath_iff h.user).mp hin).2
      exact EditTrip.eq_of_deleted hphase hready hr' hr (hid'.trans hid.symm)
    have hstored : p ∉ st₀.loc.storedImages := by
      rintro ⟨r', hr', i, -, rfl⟩
      rw [hcur] at hp
      exact (hsame r' i hp (Or.inl hr')).2 hr'
    have hdeleted : p ∈ st₀.loc.deletedImages ↔
        ∃ i ≤ (st₀.loc.heap r).numPhotos, p = imagePath a id i := by
      constructor
      · rintro ⟨r', hr', i, hi, rfl⟩
        rw [hcur] at hp ⊢
        obtain ⟨rfl, -⟩ := hsame r' i hp (Or.inr hr')
        exact ⟨i, hi, by rw [hid]⟩
      · rintro ⟨i, hi, rfl⟩
        exact ⟨r, hr, i, hi, by rw [hcur, hid]⟩
    have hsaved := EditTrip.saved_images (F := {p | InFolder a id p}) (fun t d _ => hnd t d)
      (trace_of_exec hedit) hready hfields hpress (fun _ _ _ => EditTrip.settling_of_clearing)
      (fun l db p ok b hok _ _ hmem => hok.2 p rfl hmem) ⟨_, trace_of_exec hst⟩ hq
      (fun t => huid ▸ h.not_tripCover h.user t) hp
    rw [hsaved, or_iff_right hstored, hdeleted]
  | deleteTrip a t answers =>
    obtain ⟨me, d, r, hme, hd, -, hr, -, rfl⟩ := run_of_deleteTrip hs
    obtain ⟨rfl, me', hme', d', hd', e, he, ⟨hcover, hid, rfl⟩, hclear⟩ := hc
    obtain rfl := Option.some.inj (hme.symm.trans hme')
    obtain rfl := Option.some.inj (hd.symm.trans hd')
    obtain ⟨l, hl⟩ : ∃ l, { TripInfo.opened a me t s.bucket with
        presented := some .sureToDelete } = l := ⟨_, rfl⟩
    rw [hl] at hr hclear
    obtain ⟨r', hr'⟩ := Option.isSome_iff_exists.mp hclear
    have hcur : l.currentUser.uid = a := hl ▸ (Firestore.fetchUser_eq_some hme).1
    have hbucket : l.bucket = s.bucket := hl ▸ rfl
    have hdeleted : p ∈ TripInfo.deletedImages a s.store d ↔
        ∃ i ≤ e.mediaList.length, p = imagePath a id i := by
      constructor
      · rintro ⟨id', -, e', he', i, hi, rfl⟩
        obtain ⟨-, rfl⟩ := (h.imagePath_iff h.user).mp hp
        obtain rfl := Option.some.inj (he.symm.trans he')
        exact ⟨i, hi, rfl⟩
      · rintro ⟨i, hi, rfl⟩
        exact ⟨id, hid, e, he, i, hi, rfl⟩
    have hmem := TripInfo.deleted_images (F := {p | InFolder a id p}) hd (hl ▸ rfl) (hl ▸ rfl) hcur
      (fun _ _ _ => TripInfo.deleting_of_clearing)
      (fun _ l' db' p ok b hok _ _ hmem => hok.2 p rfl hmem) (completes_of_complete hr') hp
    obtain rfl := complete_unique hr hr'
    rw [hbucket, hdeleted] at hmem
    exact hmem.trans (and_congr_right fun _ => ⟨fun hno => hno hcover, fun hno _ => hno⟩)
  | _ => exact hc.elim

/-- **What is left of a deleted entry**: its folder is empty exactly if no edit of the entry by
itself has stored an image, and no save of its trip more images than are deleted. -/
theorem photos_freed (h : OwnFolder uid id) (hl : Lifetime G uid id m tr v s') :
    (∀ p ∈ s'.bucket, ¬InFolder uid id p) ↔ Meets (Visit.StoresTo G uid id m) .empty tr := by
  have hstep : ∀ s v s', Integrity s.store → Visits G s v s' → Visit.Earlier G id s v →
      Integrity s'.store ∧ (NumberedTo uid id m s'.bucket ↔
        NumberedTo uid id m s.bucket ∧ Visit.StoresTo G uid id m s v) :=
    fun s v s' hi hs hv => ⟨hi.visit hs, h.visit hi hs hv⟩
  have hstart : NumberedTo uid id m Backend.empty.bucket := fun p hp => by cases hp
  have hi : Integrity (final Backend.empty tr).store :=
    hl.run.final (I := fun s => Integrity s.store) (fun s v s' => Integrity.visit) Integrity.empty
  have hbefore := numberedTo_congr (m := m)
    fun p hp => h.opened_bucket (G := G) (s := final .empty tr) (v := v) hp
  obtain ⟨act, hact⟩ := hl.last.1
  have hnd : ∀ t d, (v.opened G (final .empty tr)).store.trips.lookup t = some d →
      d.entries.Nodup := fun t d => hi.nodup t d
  rw [h.clears hnd hl.clears hact, hbefore]
  exact (hl.run.final_iff_meets (G := fun s => NumberedTo uid id m s.bucket) hstep
    Integrity.empty hl.earlier).trans (and_iff_right hstart)

end

/-! ## Some histories -/

namespace PhotoFiles

open Places

/-- What the app stores for an entry with these photos in the park. -/
def form (photos : List UIImage) : EntryForm :=
  ⟨⟨0, 0⟩, "entry", "text", photos, "park", ⟨"/users/bob/entryCovers/nil"⟩, .ofData "cover"⟩

/-- A new entry with three photos, in a new trip. -/
def threePhotos : Visit where
  script := .saveTrip "bob" none
    [.event .viewDidLoad, .event .viewWillAppear,
      .event (EditTrip.Event.addAnnotation (form [.ofData "x", .ofData "y", .ofData "z"]) "a"),
      .event (.editTripName "trip"), .event (.selectTripCover (some (.ofData "cover")))]
    (List.replicate 7 (.deliver 0 true "t") ++ [.apply, .apply, .deliver 0 true "t",
      .deliver 0 true "t", .apply, .apply, .apply, .deliver 0 true "", .deliver 0 true "", .apply,
      .deliver 0 true "", .apply, .deliver 0 true ""])
  forms := [.goEdit { newUser "bob" with uid := "bob" } "park"
    [.event (.editEntryName "entry"), .event (.editDescription "text"),
      .event (.selectCover (.ofData "cover")), .event (.addPhoto (.ofData "x")),
      .event (.addPhoto (.ofData "y")), .event (.addPhoto (.ofData "z")), .event .saveButton,
      .deliver 0 true (), .deliver 0 true (), .deliver 0 true ()]]

/-- The trip is opened again, and saved with one of the photos. -/
def onePhoto : Visit where
  script := .saveTrip "bob" (some "t")
    ([.event .viewDidLoad, .event .viewWillAppear] ++ List.replicate 8 (.deliver 0 true "") ++
      [.event (EditTrip.Event.editAnnotation 0 (form [.ofData "z"]))])
    [.apply, .apply, .deliver 0 true "", .deliver 0 true "", .deliver 0 true "", .apply,
      .deliver 0 true "", .apply, .deliver 0 true "", .apply, .apply, .deliver 0 true "",
      .deliver 0 true "", .deliver 0 true "", .apply, .deliver 0 true "", .apply,
      .deliver 0 true "", .deliver 0 true "", .apply, .deliver 0 true "", .apply,
      .deliver 0 true ""]
  forms := [.goEdit { newUser "bob" with uid := "bob" } "park"
    [.event (.editEntryName "entry"), .event (.editDescription "text"),
      .event (.selectCover (.ofData "cover")), .event (.addPhoto (.ofData "z")), .event .saveButton,
      .deliver 0 true (), .deliver 0 true (), .deliver 0 true ()]]

/-- The trip is deleted, with its entry, which has one photo. -/
def deletion : Visit where
  script := .deleteTrip "bob" "t" ([.deliver 0 true (), .apply, .apply, .apply] ++
    List.replicate 4 (.deliver 0 true ()) ++ [.apply])
  forms := []

theorem ownFolder : OwnFolder "bob" "a" := ⟨by decide, by decide, by decide, by decide⟩

theorem lifetime_of_play {vs : List Visit} {tr : List (Visit × Backend)} {s' : Backend}
    (htr : play (Visit.perform geocoder) vs .empty = some tr)
    (hearlier : Meets (Visit.Earlier geocoder "a") .empty tr)
    (hs : deletion.perform geocoder (final .empty tr) = some s')
    (hc : deletion.script.Clears "bob" "a" 1 (final .empty tr)) :
    Lifetime geocoder "bob" "a" 1 tr deletion s' :=
  ⟨isRun_of_visits htr, hearlier, visits_of_perform hs, hc⟩

/-- An entry is created with one photo, and deleted with its trip. -/
theorem photos_freed_sample : ∃ tr v s', Lifetime geocoder "bob" "a" 1 tr v s' ∧
    "/users/bob/a/image0" ∈ (final .empty tr).bucket ∧
    ∀ p ∈ s'.bucket, ¬InFolder "bob" "a" p := by
  have hplay : ∃ tr ∈ play (Visit.perform geocoder) [signUp, newEntry] .empty,
      ∃ s' ∈ deletion.perform geocoder (final .empty tr),
        Meets (Visit.Earlier geocoder "a") .empty tr ∧
        deletion.script.Clears "bob" "a" 1 (final .empty tr) ∧
        Meets (Visit.StoresTo geocoder "bob" "a" 1) .empty tr ∧
        "/users/bob/a/image0" ∈ (final .empty tr).bucket := by
    decide +kernel
  obtain ⟨tr, htr, s', hs, hearlier, hc, hmeets, hstored⟩ := hplay
  have hl := lifetime_of_play htr hearlier hs hc
  exact ⟨tr, deletion, s', hl, hstored, (photos_freed ownFolder hl).mpr hmeets⟩

/-- Something is left in the folder after this history. -/
def Left (vs : List Visit) (path : String) : Prop :=
  ∃ tr v s', tr.map Prod.fst = vs ∧ Lifetime geocoder "bob" "a" 1 tr v s' ∧ path ∈ s'.bucket ∧
    InFolder "bob" "a" path

theorem left_of_play {vs : List Visit} {path : String} (hpath : InFolder "bob" "a" path)
    (h : ∃ tr ∈ play (Visit.perform geocoder) vs .empty,
      ∃ s' ∈ deletion.perform geocoder (final .empty tr),
        Meets (Visit.Earlier geocoder "a") .empty tr ∧
        deletion.script.Clears "bob" "a" 1 (final .empty tr) ∧ path ∈ s'.bucket) :
    Left vs path := by
  obtain ⟨tr, htr, s', hs, hearlier, hc, hmem⟩ := h
  exact ⟨tr, deletion, s', labels_of_play htr, lifetime_of_play htr hearlier hs hc, hmem, hpath⟩

/-- Photos that are left: of an entry that has been edited by itself, and of one that has been saved
with fewer photos. -/
theorem photos_left : Left [signUp, newEntry, newLocation "park"] "/users/bob/a/images0" ∧
    Left [signUp, threePhotos, onePhoto] "/users/bob/a/image2" :=
  ⟨left_of_play ⟨"images0", by decide, by decide⟩ (by decide +kernel),
    left_of_play ⟨"image2", by decide, by decide⟩ (by decide +kernel)⟩

end PhotoFiles

end Wanderlust
