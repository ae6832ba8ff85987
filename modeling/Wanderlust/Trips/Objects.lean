import Wanderlust.Entries.Paths
import Wanderlust.Foundations.Objects
import Wanderlust.Trips.Barrier
import Wanderlust.Trips.RoundTrip
import Wanderlust.Trips.TripInfo

/-!
# The images of a trip that are stored and deleted

A save stores the images of the entries on the screen under their numbers, and of each entry on
the delete list it deletes the images up to the number that the screen has for it. In a folder
with no trip cover nothing else happens (`EditTrip.saved_images`).

When a trip is deleted, so are the images of its entries, up to the lengths of their media lists
(`TripInfo.deleted_images`).
-/

namespace Wanderlust

open Async

namespace EditTrip

/-- The images that a save of the screen stores. -/
def storedImages (l : EditTrip) : Set String :=
  {p | ∃ r ∈ l.entryList, ∃ i < (l.heap r).images.length,
    p = imagePath l.currentUser.uid (l.id r) i}

/-- The images that a save of the screen deletes. -/
def deletedImages (l : EditTrip) : Set String :=
  {p | ∃ r ∈ l.deleteList, ∃ i ≤ (l.heap r).numPhotos,
    p = imagePath l.currentUser.uid (l.id r) i}

/-- The images that are being stored. -/
def toStore (bag : Multiset Callback) : Set String :=
  {p | ∃ c press r data, .imageUploaded c press r p data ∈ bag}

/-- The images that are being deleted. -/
def toDelete (bag : Multiset Callback) : Set String := {p | .objectDeleted p ∈ bag}

/-- The objects after an answer. -/
def Callback.onBucket (ok : Bool) (b : Bucket) : Callback → Bucket
  | .objectDeleted path => if ok then b.erase path else b
  | .imageUploaded _ _ _ path data => if ok then b.insert path data else b
  | .tripCoverUploaded _ path data => if ok then b.insert path data else b
  | _ => b

section

variable {k : Callback} {ok : Bool} {a : TripID} {l l' : EditTrip} {db : Firestore}
  {r : EditTrip × List Cmd} {F U D : Set String} {b₀ : Bucket} {uid : Uid} {path : String}
  {x x' : Direct Firestore EditTrip Callback}

/-! ## Pieces of code -/

theorem bucket_react (h : react k ok a l db = some r) : r.1.bucket = k.onBucket ok l.bucket := by
  cases hf : k.fills with
  | true =>
    rw [(unsaved_react h hf).bucket]
    cases k <;> first | rfl | cases hf
  | false =>
    cases k with
    | objectDeleted path =>
      cases h
      cases ok <;> rfl
    | imageUploaded c press s path data =>
      cases h
      cases ok <;> rfl
    | imageURL c press s path =>
      simp only [react] at h
      split at h <;> cases h
      split <;> rfl
    | entryWritten press s =>
      simp only [react, Option.some.injEq] at h
      split at h <;> subst h <;> rfl
    | userFetched p ids =>
      simp only [react] at h
      split at h
      · cases h; rfl
      · split at h <;> cases h <;> rfl
    | tripUpdated ids =>
      obtain ⟨t, -, rfl⟩ := Option.map_eq_some_iff.mp h
      rfl
    | tripIDUpdated c ids t =>
      simp only [react, Option.some.injEq] at h
      split at h <;> subst h <;> rfl
    | entryOrderUpdated c n t =>
      simp only [react, Option.some.injEq] at h
      subst h
      dsimp only
      split <;> rfl
    | tripCoverUploaded t path data =>
      cases h
      cases ok <;> rfl
    | tripCoverURL t path =>
      simp only [react] at h
      split at h <;> cases h <;> rfl
    | _ => cases hf

theorem path_uploadTripCoverPhoto {t t' : TripID} {data : String}
    (h : .tripCoverUploaded t' path data ∈ callbacks (uploadTripCoverPhoto t l).2) :
    path = tripCoverPath l.currentUser.uid t := by
  obtain ⟨c, hc, hk⟩ := mem_callbacks.mp h
  simp only [uploadTripCoverPhoto, Handler.issue_apply] at hc
  split at hc
  · cases hc
  · obtain rfl := List.mem_singleton.mp hc
    cases hk
    rfl

/-- A cover that is uploaded is that of a trip of the user. -/
theorem cover_react {t : TripID} {data : String} (h : react k ok a l db = some r)
    (hk : .tripCoverUploaded t path data ∈ callbacks r.2) :
    ∃ t', path = tripCoverPath l.currentUser.uid t' := by
  have hleads := leads_react h _ hk
  cases hleads with
  | createdCover ids =>
    simp only [react] at h
    split at h
    · cases h; simp at hk
    · split at h <;> cases h
      · simp only [createTrip, Handler.andThen_apply, Handler.issue_apply, Handler.modify_apply,
          callbacks_append, callbacks_write, callbacks_nil, zero_add, add_zero,
          Multiset.mem_add] at hk
        rcases hk with hk | hk
        · cases callbacks_updateTripID hk
        · exact ⟨_, path_uploadTripCoverPhoto hk⟩
      · simp [updateTrip] at hk
  | updatedCover ids =>
    obtain ⟨t', -, rfl⟩ := Option.map_eq_some_iff.mp h
    simp only [Handler.andThen_apply, Handler.modify_apply, callbacks_append, callbacks_nil,
      add_zero, Multiset.mem_add] at hk
    rcases hk with hk | hk
    · exact ⟨_, path_uploadTripCoverPhoto hk⟩
    · cases callbacks_updateTripID hk

/-! ## The press -/

theorem mem_imageUploads_of_lt (uid : Uid) (id : EntryID) (c press s n : ℕ)
    {images : List UIImage} {i : ℕ} (hall : ∀ image ∈ images, image.jpegData.isSome)
    (hi : i < images.length) :
    ∃ data, .request (.imageUploaded c press s (imagePath uid id (n + i)) data) ∈
      imageUploads uid id c press s images n := by
  induction images generalizing n i with
  | nil => simp at hi
  | cons image images ih =>
    obtain ⟨data, hdata⟩ := Option.isSome_iff_exists.mp (hall image List.mem_cons_self)
    simp only [imageUploads, hdata]
    cases i with
    | zero => exact ⟨data, List.mem_cons_self⟩
    | succ i =>
      obtain ⟨data', hmem⟩ := ih (n + 1) (fun image h => hall image (List.mem_cons_of_mem _ h))
        (by simpa using hi)
      rw [Nat.add_right_comm] at hmem
      exact ⟨data', List.mem_cons_of_mem _ hmem⟩

/-- The images of an entry that are uploaded. -/
theorem toStore_addEntryToFirestore {press s : ℕ}
    (hall : ∀ image ∈ (l.heap s).images, image.jpegData.isSome) :
    path ∈ toStore (callbacks (addEntryToFirestore press s l).2) ↔
      ∃ i < (l.heap s).images.length, path = imagePath l.currentUser.uid (l.id s) i := by
  by_cases hzero : (l.heap s).images.length = 0
  · have hcode : addEntryToFirestore press s l = addToFirebase press s l := by
      simp only [addEntryToFirestore, if_pos hzero]
    rw [hcode]
    simp [toStore, callbacks_addToFirebase, hzero]
  · simp only [addEntryToFirestore, if_neg hzero]
    constructor
    · rintro ⟨c, press', s', data, hk⟩
      obtain ⟨cmd, hcmd, hk⟩ := mem_callbacks.mp hk
      obtain ⟨i, data', -, hi, rfl⟩ := mem_imageUploads hcmd
      cases hk
      exact ⟨i, by omega, rfl⟩
    · rintro ⟨i, hi, rfl⟩
      obtain ⟨data, hmem⟩ :=
        mem_imageUploads_of_lt l.currentUser.uid (l.id s) l.nextCount press s 0 hall hi
      rw [Nat.zero_add] at hmem
      exact ⟨_, _, _, data, mem_callbacks.mpr ⟨_, hmem, rfl⟩⟩

theorem toStore_add (b b' : Multiset Callback) : toStore (b + b') = toStore b ∪ toStore b' := by
  ext p
  simp [toStore, exists_or]

theorem toDelete_add (b b' : Multiset Callback) :
    toDelete (b + b') = toDelete b ∪ toDelete b' := by
  ext p
  simp [toDelete]

/-- The images that the loop over the entries uploads. -/
theorem toStore_forEach (press : ℕ) (xs : List ℕ)
    (hall : ∀ s ∈ xs, ∀ image ∈ (l.heap s).images, image.jpegData.isSome) :
    path ∈ toStore (callbacks (Handler.forEach (addEntryToFirestore press) xs l).2) ↔
      ∃ s ∈ xs, ∃ i < (l.heap s).images.length,
        path = imagePath l.currentUser.uid (l.id s) i := by
  induction xs generalizing l with
  | nil => simp [toStore]
  | cons s xs ih =>
    have hst := stays_addEntryToFirestore press s l
    have himages : ∀ t, ((addEntryToFirestore press s l).1.heap t).images = (l.heap t).images :=
      fun t => CustomAnnotation.images_eq_of_content (hst.content t)
    have hid : ∀ t, (addEntryToFirestore press s l).1.id t = l.id t :=
      fun t => CustomAnnotation.entryID_eq_of_content (hst.content t)
    rw [Handler.forEach_cons, Handler.andThen_apply, callbacks_append, toStore_add, Set.mem_union,
      toStore_addEntryToFirestore (hall s List.mem_cons_self), ih, List.exists_mem_cons_iff]
    · simp only [himages, hid, hst.currentUser]
    · intro t ht
      rw [himages]
      exact hall t (List.mem_cons_of_mem s ht)

/-- The images that are deleted with an annotation. -/
theorem toDelete_deleteEntry (s : ℕ) (l : EditTrip) :
    path ∈ toDelete (callbacks (deleteEntry s l).2) ↔
      ∃ i ≤ (l.heap s).numPhotos, path = imagePath l.currentUser.uid (l.id s) i := by
  simp only [toDelete, Set.mem_ofPred_eq, deleteEntry, Handler.issue_apply, List.cons_append,
    callbacks_append, callbacks_write, callbacks_map_write, callbacks_map_request, zero_add,
    Multiset.mem_coe, List.mem_map, List.mem_range, Callback.objectDeleted.injEq]
  exact exists_congr fun i => and_congr Nat.lt_succ_iff eq_comm

/-- The images that the loop over the delete list deletes. -/
theorem toDelete_forEach (xs : List ℕ) :
    path ∈ toDelete (callbacks (Handler.forEach deleteEntry xs l).2) ↔
      ∃ s ∈ xs, ∃ i ≤ (l.heap s).numPhotos, path = imagePath l.currentUser.uid (l.id s) i := by
  induction xs with
  | nil => simp [toDelete]
  | cons s xs ih =>
    rw [Handler.forEach_cons, Handler.andThen_apply, callbacks_append, toDelete_add, Set.mem_union,
      List.exists_mem_cons_iff]
    exact or_congr (toDelete_deleteEntry s l) ih

/-- What a press uploads. -/
theorem toStore_saveButtonPressed (he : l.emptyField = false)
    (hall : ∀ s ∈ l.entryList, ∀ image ∈ (l.heap s).images, image.jpegData.isSome) :
    path ∈ toStore (callbacks (saveButtonPressed l).2) ↔ path ∈ l.storedImages := by
  have hst : Stays l (updateTripInfo l.newCount).1 :=
    (stays_newCount l).trans (stays_updateTripInfo l.newCount)
  have hinfo : path ∉ toStore (callbacks (updateTripInfo l.newCount).2) := by
    rintro ⟨c, press, s, data, hk⟩
    rcases callbacks_updateTripInfo hk with ⟨t, path, data, hk⟩ | ⟨c, ids, t, hk⟩ <;> cases hk
  have hdelete : ∀ l',
      path ∉ toStore (callbacks (Handler.forEach deleteEntry l.deleteList l').2) := by
    rintro l' ⟨c, press, s, data, hk⟩
    obtain ⟨path, hk⟩ := mem_callbacks_forEach (fun _ _ _ => callbacks_deleteEntry) _ _ _ hk
    cases hk
  have himages : ∀ t, ((updateTripInfo l.newCount).1.heap t).images = (l.heap t).images :=
    fun t => CustomAnnotation.images_eq_of_content (hst.content t)
  have hid : ∀ t, (updateTripInfo l.newCount).1.id t = l.id t :=
    fun t => CustomAnnotation.entryID_eq_of_content (hst.content t)
  rw [saveButtonPressed_eq he, Handler.andThen_apply, Handler.andThen_apply, callbacks_append,
    callbacks_append, toStore_add, toStore_add, Set.mem_union, Set.mem_union, or_iff_right hinfo,
    or_iff_right (hdelete _), forEach_deleteEntry_fst, toStore_forEach _ _ (by simpa [himages])]
  simp only [himages, hid, hst.currentUser]
  exact Iff.rfl

/-- What a press deletes. -/
theorem toDelete_saveButtonPressed (he : l.emptyField = false) :
    path ∈ toDelete (callbacks (saveButtonPressed l).2) ↔ path ∈ l.deletedImages := by
  have hst : Stays l (updateTripInfo l.newCount).1 :=
    (stays_newCount l).trans (stays_updateTripInfo l.newCount)
  have hinfo : path ∉ toDelete (callbacks (updateTripInfo l.newCount).2) := by
    intro hk
    rcases callbacks_updateTripInfo hk with ⟨t, path, data, hk⟩ | ⟨c, ids, t, hk⟩ <;> cases hk
  have hstore : ∀ l', path ∉ toDelete
      (callbacks (Handler.forEach (addEntryToFirestore l.nextCount) l.entryList l').2) := by
    intro l' hk
    have hall : ∀ s l', ∀ k ∈ callbacks (addEntryToFirestore l.nextCount s l').2,
        k ≠ .objectDeleted path := by
      rintro s l' k hk rfl
      rcases callbacks_addEntryToFirestore hk with ⟨c, path, data, hk⟩ | hk <;> cases hk
    exact mem_callbacks_forEach hall _ _ _ hk rfl
  have hphotos : ∀ t, ((updateTripInfo l.newCount).1.heap t).numPhotos = (l.heap t).numPhotos :=
    fun t => CustomAnnotation.numPhotos_eq_of_content (hst.content t)
  have hid : ∀ t, (updateTripInfo l.newCount).1.id t = l.id t :=
    fun t => CustomAnnotation.entryID_eq_of_content (hst.content t)
  rw [saveButtonPressed_eq he, Handler.andThen_apply, Handler.andThen_apply, callbacks_append,
    callbacks_append, toDelete_add, toDelete_add, Set.mem_union, Set.mem_union, or_iff_right hinfo,
    or_iff_left (hstore _), toDelete_forEach]
  simp only [hphotos, hid, hst.currentUser]
  exact Iff.rfl

/-- A cover that a press uploads is that of a trip of the user. -/
theorem cover_saveButtonPressed {t : TripID} {data : String}
    (hk : .tripCoverUploaded t path data ∈ callbacks (saveButtonPressed l).2) :
    ∃ t', path = tripCoverPath l.currentUser.uid t' := by
  simp only [saveButtonPressed] at hk
  split at hk
  · simp at hk
  · simp only [Handler.andThen_apply, callbacks_append, Multiset.mem_add] at hk
    rcases hk with hk | hk | hk
    · rw [updateTripInfo_eq] at hk
      simp only [updateTripInfoDidSet] at hk
      split at hk
      · split at hk
        · split at hk
          · simp at hk
          · simp only [Handler.andThen_apply, Handler.issue_apply, callbacks_append,
              callbacks_write, callbacks_nil, zero_add, Multiset.mem_add] at hk
            rcases hk with hk | hk
            · exact ⟨_, path_uploadTripCoverPhoto hk⟩
            · cases callbacks_updateTripID hk
        · simp at hk
      · simp at hk
    · obtain ⟨path, hk⟩ := mem_callbacks_forEach (fun _ _ _ => callbacks_deleteEntry) _ _ _ hk
      cases hk
    · have hall : ∀ s l', ∀ k ∈ callbacks (addEntryToFirestore l.nextCount s l').2,
          k ≠ .tripCoverUploaded t path data := by
        rintro s l' k hk rfl
        rcases callbacks_addEntryToFirestore hk with ⟨c, path, data, hk⟩ | hk <;> cases hk
      exact absurd rfl (mem_callbacks_forEach hall _ _ _ hk)

end

theorem bucket_saveButtonPressed (l : EditTrip) : (saveButtonPressed l).1.bucket = l.bucket := by
  have hdidSet : ∀ n l, (updateTripInfoDidSet n l).1.bucket = l.bucket := by
    intro n l
    simp only [updateTripInfoDidSet]
    split
    · split <;> rfl
    · rfl
  have hadd : ∀ press s l, (addEntryToFirestore press s l).1.bucket = l.bucket := by
    intro press s l
    simp only [addEntryToFirestore]
    split <;> rfl
  simp only [saveButtonPressed]
  split
  · rfl
  · refine Handler.forEach_fst (I := fun l' => l'.bucket = l.bucket)
      (fun s _ l' h => (hadd _ s l').trans h) ?_
    rw [forEach_deleteEntry_fst]
    have hinfo : l.newCount.bucket = l.bucket := rfl
    exact Handler.forEach_fst (I := fun l' => l'.bucket = l.bucket)
      (fun n _ l' h => (hdidSet n l').trans h) hinfo

/-! ## While the trip is edited -/

section

variable {db₀ : Firestore} {me : User} {tripID : Option TripID} {bucket : Bucket}
  {now : Timestamp} {edits : List (Label TripID Event)}
  {st₀ st₁ st₂ : State Firestore EditTrip Write Callback}

/-- Before the press, nothing is stored and nothing deleted. -/
theorem bucket_of_trace
    (hedit : Trace program editing (start db₀ (EditTrip.opened me tripID bucket now)) edits st₀) :
    st₀.loc.bucket = bucket := by
  have hend := Reaches.invariant (I := fun x : Direct Firestore EditTrip Callback =>
      x.loc.bucket = bucket ∧ ∀ k ∈ x.bag, k.inert = true ∨ k.loads = true)
    (fun x m x' hx ha hs => ?_) ⟨edits, hedit⟩ ⟨rfl, by simp⟩
  · exact hend.1
  · obtain ⟨hbucket, hbag⟩ := hx
    cases hs with
    | @event e r he =>
      have hcode : event e x.loc x.store = some r := he
      have hpress : e.presses = false := by cases e <;> first | rfl | exact ha.elim
      refine ⟨(undisturbed_event hcode hpress).bucket.trans hbucket, fun k hk => ?_⟩
      rcases Multiset.mem_add.mp hk with hk | hk
      · exact hbag k hk
      · rcases callbacks_event hcode hpress k hk with ⟨t, rfl⟩ | ⟨t, rfl⟩ | ⟨s, uid, rfl⟩
        · exact Or.inl rfl
        · exact Or.inr rfl
        · exact Or.inl rfl
    | @deliver k ok a rest r hb hr =>
      have hcode : react k ok a x.loc x.store = some r := hr
      have hk := hbag k (hb ▸ Multiset.mem_cons_self k rest)
      constructor
      · refine ((bucket_react hcode).trans ?_).trans hbucket
        cases k <;> first | rfl | simp [Callback.inert, Callback.loads] at hk
      · intro k' hk'
        rcases Multiset.mem_add.mp hk' with hk' | hk'
        · exact hbag k' (hb ▸ Multiset.mem_cons_of_mem hk')
        · cases leads_react hcode k' hk' <;>
            first
            | exact Or.inl rfl
            | exact Or.inr rfl
            | simp [Callback.inert, Callback.loads] at hk

end

/-! ## While a save settles -/

/-- The save of a screen of the user `u` settles. -/
structure Moving (u : Uid) (F U D : Set String) (b₀ : Bucket)
    (x : Direct Firestore EditTrip Callback) : Prop where
  user : x.loc.user = u
  currentUser : x.loc.currentUser.uid = u
  loads : ∀ k ∈ x.bag, k.loads = false
  covers : ∀ t path data, .tripCoverUploaded t path data ∈ x.bag → path ∉ F
  transfer : Transfer F U D b₀ x.loc.bucket (toStore x.bag) (toDelete x.bag)

/-- The object that is deleted. -/
def Callback.deleted? : Callback → Option String
  | .objectDeleted path => some path
  | _ => none

/-- The steps that are considered while a save settles and the objects that are there are
deleted. -/
def clearing (l : EditTrip) (db : Firestore) : Async.Move Callback TripID Event → Prop
  | .event e => settling l db (.event e)
  | .deliver k ok a => settling l db (.deliver k ok a) ∧
    ∀ path ∈ k.deleted?, path ∈ l.bucket → ok = true

instance (l : EditTrip) (db : Firestore) : DecidablePred (clearing l db)
  | .event e => inferInstanceAs (Decidable (settling l db (.event e)))
  | .deliver k ok a => inferInstanceAs (Decidable (settling l db (.deliver k ok a) ∧
      ∀ path ∈ k.deleted?, path ∈ l.bucket → ok = true))

theorem settling_of_clearing {l : EditTrip} {db : Firestore}
    {m : Async.Move Callback TripID Event} (h : clearing l db m) : settling l db m := by
  cases m with
  | event e => exact h
  | deliver k ok a => exact h.1

section

variable {u : Uid} {k : Callback} {ok : Bool} {a : TripID} {F U D : Set String} {b₀ : Bucket}
  {x x' : Direct Firestore EditTrip Callback} {rest : Multiset Callback}
  {m : Async.Move Callback TripID Event}

/-- An answer arrives. -/
theorem Moving.arrive (h : Moving u F U D b₀ x) (hb : x.bag = k ::ₘ rest)
    (hok : k.token ≠ none → ok = true)
    (hclear : ∀ path, k = .objectDeleted path → path ∈ F → path ∈ D → path ∈ x.loc.bucket →
      ok = true) :
    Transfer F U D b₀ (k.onBucket ok x.loc.bucket) (toStore rest) (toDelete rest) := by
  have ht := h.transfer
  rw [hb] at ht
  cases k with
  | objectDeleted path =>
    have hups : ∀ p ∈ F, p ∈ toStore rest ↔ p ∈ toStore (.objectDeleted path ::ₘ rest) := by
      simp [toStore]
    have hsub : ∀ q ∈ F, q ∈ toDelete rest → q ∈ toDelete (.objectDeleted path ::ₘ rest) :=
      fun q _ hq => Multiset.mem_cons_of_mem hq
    have hrest : ∀ q ∈ F, q ∈ toDelete (.objectDeleted path ::ₘ rest) →
        q = path ∨ q ∈ toDelete rest := by
      intro q _ hq
      simpa [toDelete] using hq
    cases ok with
    | true =>
      exact (ht.delete (fun _ => Multiset.mem_cons_self _ _) hsub hrest).congr hups
        fun _ _ => Iff.rfl
    | false =>
      have hskip : path ∈ F → path ∈ D → path ∉ x.loc.bucket := fun hF hD hmem =>
        Bool.false_ne_true (hclear path rfl hF hD hmem)
      exact (ht.skip hskip hsub hrest).congr hups fun _ _ => Iff.rfl
  | imageUploaded c press s path data =>
    obtain rfl := hok (by simp [Callback.token])
    have hdels : ∀ p ∈ F, p ∈ toDelete rest ↔
        p ∈ toDelete (.imageUploaded c press s path data ::ₘ rest) := by
      simp [toDelete]
    refine (ht.store (p := path) (fun _ => ⟨c, press, s, data, Multiset.mem_cons_self _ _⟩) data
      ?_ ?_).congr (fun _ _ => Iff.rfl) hdels
    · rintro q _ ⟨c', press', s', data', hq⟩
      exact ⟨c', press', s', data', Multiset.mem_cons_of_mem hq⟩
    · rintro q _ ⟨c', press', s', data', hq⟩
      rcases Multiset.mem_cons.mp hq with hq | hq
      · cases hq
        exact Or.inl rfl
      · exact Or.inr ⟨c', press', s', data', hq⟩
  | tripCoverUploaded t path data =>
    have hnot : path ∉ F := h.covers t path data (hb ▸ Multiset.mem_cons_self _ _)
    have hsame : Transfer F U D b₀ x.loc.bucket (toStore rest) (toDelete rest) :=
      ht.congr (by simp [toStore]) (by simp [toDelete])
    cases ok with
    | false => exact hsame
    | true =>
      exact hsame.store (fun hF => absurd hF hnot) data (fun _ _ hq => hq) fun _ _ hq => Or.inr hq
  | _ => exact ht.congr (by simp [toStore]) (by simp [toDelete])

/-- **One step.** -/
theorem Moving.step (hcovers : ∀ t, tripCoverPath u t ∉ F) (h : Moving u F U D b₀ x)
    (ha : settling x.loc x.store m)
    (hclear : ∀ path ok a, m = .deliver (.objectDeleted path) ok a → path ∈ F → path ∈ D →
      path ∈ x.loc.bucket → ok = true)
    (hs : DirectStep program x m x') : Moving u F U D b₀ x' := by
  cases hs with
  | @event e r he =>
    cases e with
    | currentUserFetched =>
      simp only [program, event] at he
      split at he <;> cases he
      · simp only [Program.after, callbacks_nil, add_zero]
        exact ⟨h.user, h.currentUser, h.loads, h.covers, h.transfer⟩
      · rename_i user huser
        simp only [Program.after, callbacks_nil, add_zero]
        exact ⟨h.user, (Firestore.fetchUser_eq_some huser).1.trans h.user, h.loads, h.covers,
          h.transfer⟩
    | _ => exact ha.elim
  | @deliver k ok a rest r hb hr =>
    have hcode : react k ok a x.loc x.store = some r := hr
    have hload := h.loads k (hb ▸ Multiset.mem_cons_self k rest)
    have hst := stays_react hcode hload
    have hold : ∀ k' ∈ rest, k' ∈ x.bag := fun k' hk' => hb ▸ Multiset.mem_cons_of_mem hk'
    have harrive := h.arrive hb ha.1 fun path hk => hclear path ok a (hk ▸ rfl)
    refine ⟨hst.user.trans h.user, ?_, fun k' hk' => ?_, fun t path data hk' => ?_, ?_⟩
    · exact (congrArg User.uid hst.currentUser).trans h.currentUser
    · rcases Multiset.mem_add.mp hk' with hk' | hk'
      · exact h.loads k' (hold k' hk')
      · exact not_loads_react hcode hload k' hk'
    · rcases Multiset.mem_add.mp hk' with hk' | hk'
      · exact h.covers t path data (hold _ hk')
      · obtain ⟨t', rfl⟩ := cover_react hcode hk'
        rw [h.currentUser]
        exact hcovers t'
    · -- the code of an answer neither uploads images nor deletes objects
      have hstore : toStore (callbacks r.2) = ∅ := by
        rw [Set.eq_empty_iff_forall_notMem]
        rintro p ⟨c, press, s, data, hk'⟩
        cases leads_react hcode _ hk'
      have hdelete : toDelete (callbacks r.2) = ∅ := by
        rw [Set.eq_empty_iff_forall_notMem]
        intro p hk'
        cases leads_react hcode _ hk'
      simp only [Program.after, toStore_add, toDelete_add, hstore, hdelete, Set.union_empty]
      rw [bucket_react hcode]
      exact harrive

end

/-! ## The whole save -/

section

variable {db₀ : Firestore} {me : User} {tripID : Option TripID} {bucket : Bucket}
  {now : Timestamp} {edits : List (Label TripID Event)} {F : Set String} {path : String}
  {allowed : EditTrip → Firestore → Async.Move Callback TripID Event → Prop}
  {st₀ st₁ st₂ : State Firestore EditTrip Write Callback}

/-- What is known of the screen when it is saved. -/
theorem phase_of_edits
    (hnd : ∀ t d, tripID = some t → db₀.trips.lookup t = some d → d.entries.Nodup)
    (hedit : Trace program editing (start db₀ (EditTrip.opened me tripID bucket now)) edits st₀) :
    Phase db₀ tripID me.uid ∅ Set.univ (program.direct st₀) := by
  have hall : ∀ feeds, Between ∅ Set.univ feeds := fun _ => ⟨by simp, by simp⟩
  exact (phase_of_trace hnd (hall _) (fun _ _ => hall _) hedit).1

/-- An entry on the delete list is no other one on the screen. -/
theorem eq_of_deleted (hp : Phase db₀ tripID me.uid ∅ Set.univ (program.direct st₀))
    (hready : st₀.loc.Editable) {r s : ℕ} (hr : r ∈ st₀.loc.entryList ∨ r ∈ st₀.loc.deleteList)
    (hs : s ∈ st₀.loc.deleteList) (hid : st₀.loc.id r = st₀.loc.id s) :
    r = s ∧ r ∉ st₀.loc.entryList := by
  have hed := hp.of_editable hready
  obtain rfl := hp.setting.inj r (hed.bound r hr) s (hed.bound s (Or.inr hs)) hid
  exact ⟨rfl, hed.deleted r hs⟩

/-- No image is both stored and deleted. -/
theorem storedImages_disjoint
    (hp : Phase db₀ tripID me.uid ∅ Set.univ (program.direct st₀)) (hready : st₀.loc.Editable)
    (hs : path ∈ st₀.loc.storedImages) : path ∉ st₀.loc.deletedImages := by
  rintro ⟨s, hs', j, hj, he⟩
  obtain ⟨r, hr, i, hi, rfl⟩ := hs
  have hslash : ∀ i, '/' ∉ (numbered "image" i).toList :=
    fun i => slash_notMem_numbered (by decide) i
  rw [imagePath_eq, imagePath_eq, filePath_inj (hslash i) (hslash j)] at he
  exact (eq_of_deleted hp hready (Or.inl hr) hs' he.1).2 hr

/-- **What a save does to images**: where there are no trip covers, those of the entries on the
screen are stored, and those of the entries on the delete list are gone. -/
theorem saved_images
    (hnd : ∀ t d, tripID = some t → db₀.trips.lookup t = some d → d.entries.Nodup)
    (hedit : Trace program editing (start db₀ (EditTrip.opened me tripID bucket now)) edits st₀)
    (hready : st₀.loc.Editable) (hfields : st₀.loc.emptyField = false)
    (hpress : program.step (.event .saveButtonPressed) st₀ = some st₁)
    (hallowed : ∀ l db m, allowed l db m → settling l db m)
    (hclear : ∀ l db p ok a, allowed l db (.deliver (.objectDeleted p) ok a) → p ∈ F →
      p ∈ st₀.loc.deletedImages → p ∈ l.bucket → ok = true)
    (hrun : Reaches program allowed st₁ st₂) (hq : Quiescent st₂)
    (hcovers : ∀ t, tripCoverPath me.uid t ∉ F) (hpath : path ∈ F) :
    path ∈ st₂.loc.bucket ↔
      path ∈ st₀.loc.storedImages ∨ path ∈ bucket ∧ path ∉ st₀.loc.deletedImages := by
  have hp := phase_of_edits hnd hedit
  have hed := hp.of_editable hready
  have hset := hp.setting
  have hst := stays_saveButtonPressed st₀.loc
  have hinert : ∀ k ∈ (program.direct st₀).bag, k.inert = true := by
    intro k hk
    by_contra hne
    have hmem : k ∈ active (program.direct st₀).bag :=
      Multiset.mem_filter.mpr ⟨hk, by simpa using hne⟩
    rw [hed.bag] at hmem
    exact Multiset.notMem_zero _ hmem
  have hstore : toStore (program.direct st₀).bag = ∅ := by
    rw [Set.eq_empty_iff_forall_notMem]
    rintro p ⟨c, press, s, data, hk⟩
    cases hinert _ hk
  have hdelete : toDelete (program.direct st₀).bag = ∅ := by
    rw [Set.eq_empty_iff_forall_notMem]
    intro p hk
    cases hinert _ hk
  have hbucket : (saveButtonPressed st₀.loc).1.bucket = bucket :=
    (bucket_saveButtonPressed _).trans (bucket_of_trace hedit)
  have hmoving : Moving me.uid F st₀.loc.storedImages st₀.loc.deletedImages bucket
      (program.direct st₁) := by
    rw [direct_press hpress]
    refine ⟨hst.user.trans hset.user, ?_, fun k hk => ?_, fun t p data hk => ?_, ?_⟩
    · exact (congrArg User.uid hst.currentUser).trans hset.uid
    · rcases Multiset.mem_add.mp hk with hk | hk
      · have := hinert k hk
        cases k <;> first | rfl | cases this
      · rcases callbacks_saveButtonPressed hk with ⟨-, h⟩ | ⟨c, s, p, data, rfl⟩ | ⟨s, rfl⟩
        · exact h
        · rfl
        · rfl
    · rcases Multiset.mem_add.mp hk with hk | hk
      · cases hinert _ hk
      · obtain ⟨t', rfl⟩ := cover_saveButtonPressed hk
        rw [show st₀.loc.currentUser.uid = me.uid from hset.uid]
        exact hcovers t'
    · have hencodable : ∀ s ∈ st₀.loc.entryList, ∀ image ∈ (st₀.loc.heap s).images,
          image.jpegData.isSome := fun s hs => hset.encodable s (hed.bound s (Or.inl hs))
      simp only [Program.after, toStore_add, toDelete_add, hstore, hdelete, Set.empty_union]
      rw [hbucket]
      exact .start (fun _ _ => storedImages_disjoint hp hready)
        (fun _ _ => toStore_saveButtonPressed hfields hencodable)
        (fun _ _ => toDelete_saveButtonPressed hfields) _
  have hend := hrun.invariant (I := Moving me.uid F st₀.loc.storedImages st₀.loc.deletedImages
    bucket) (fun x m x' hx ha hs => hx.step hcovers (hallowed _ _ _ ha)
      (fun p ok a hm => hclear _ _ p ok a (hm ▸ ha)) hs) hmoving
  rw [hq.direct] at hend
  exact hend.transfer.mem_iff (by simp [toStore]) (by simp [toDelete]) hpath

end

end EditTrip

/-! ## The deletion of a trip -/

namespace TripInfo

/-- The images that are deleted with a trip, whose document is `d`. -/
def deletedImages (uid : Uid) (db : Firestore) (d : TripDoc) : Set String :=
  {p | ∃ id ∈ d.entries, ∃ e, db.entries.lookup id = some e ∧ ∃ i ≤ e.mediaList.length,
    p = imagePath uid id i}

/-- The images that are being deleted, or will be when their entries are fetched. -/
def toDelete (uid : Uid) (x : Direct Firestore TripInfo Callback) : Set String :=
  {p | .objectDeleted p ∈ x.bag ∨ ∃ id, .entryToDeleteFetched id ∈ x.bag ∧
    ∃ e, x.store.entries.lookup id = some e ∧ ∃ i ≤ e.mediaList.length, p = imagePath uid id i}

/-- The object that is deleted. -/
def Callback.deleted? : Callback → Option String
  | .objectDeleted path => some path
  | _ => none

/-- The steps that are considered while a trip is deleted, with the objects that are there. -/
def clearing (l : TripInfo) (db : Firestore) : Async.Move Callback Unit Event → Prop
  | .event e => deleting l db (.event e)
  | .deliver k ok a => deleting l db (.deliver k ok a) ∧
    ∀ path ∈ k.deleted?, path ∈ l.bucket → ok = true

instance (l : TripInfo) (db : Firestore) : DecidablePred (clearing l db)
  | .event e => inferInstanceAs (Decidable (deleting l db (.event e)))
  | .deliver k ok a => inferInstanceAs (Decidable (deleting l db (.deliver k ok a) ∧
      ∀ path ∈ k.deleted?, path ∈ l.bucket → ok = true))

theorem deleting_of_clearing {l : TripInfo} {db : Firestore} {m : Async.Move Callback Unit Event}
    (h : clearing l db m) : deleting l db m := by
  cases m with
  | event e => exact h
  | deliver k ok a => exact h.1

/-- The objects while the user `u` deletes a trip, from the confirmation to its end. -/
structure Moving (u : Uid) (F D : Set String) (b₀ : Bucket)
    (x : Direct Firestore TripInfo Callback) : Prop where
  user : x.loc.user = u
  currentUser : x.loc.currentUser.uid = u
  transfer : Transfer F ∅ D b₀ x.loc.bucket ∅ (toDelete u x)

/-- What is on its way once the trip has been fetched. -/
def Callback.deletes : Callback → Prop
  | .entryToDeleteFetched _ => True
  | .objectDeleted _ => True
  | .tripsUpdated => True
  | _ => False

/-- The stages of the deletion. -/
inductive Removing (t : TripID) (d : TripDoc) (u : Uid) (db : Firestore) (F : Set String)
    (b₀ : Bucket) (x : Direct Firestore TripInfo Callback) : Prop
  | fetching (hstore : x.store = db) (hbag : x.bag = {.tripToDeleteFetched t})
    (huser : x.loc.user = u) (hcur : x.loc.currentUser.uid = u) (hbucket : x.loc.bucket = b₀)
  | kept (hbag : x.bag = 0) (hcover : d.coverPhoto = none) (hbucket : x.loc.bucket = b₀)
  | deleted (hcover : d.coverPhoto ≠ none) (hbag : ∀ k ∈ x.bag, k.deletes)
    (h : Moving u F (deletedImages u db d) b₀ x)

section

variable {t : TripID} {d : TripDoc} {u : Uid} {db : Firestore} {F D : Set String} {b₀ : Bucket}
  {path : String} {l l' : TripInfo} {x x' : Direct Firestore TripInfo Callback}
  {m : Async.Move Callback Unit Event}

/-- The documents of the entries are to be fetched. -/
theorem Moving.start (huser : l.user = u) (hcur : l.currentUser.uid = u) :
    Moving u F (deletedImages u db d) l.bucket (program.after (deleteTrip t d l) ⟨db, l, 0⟩) := by
  obtain ⟨feed, hstore, -⟩ := effect_deleteTrip t d l db
  have hfst := deleteTrip_fst t d l
  have hdels : toDelete u (program.after (deleteTrip t d l) ⟨db, l, 0⟩) =
      deletedImages u db d := by
    ext p
    simp only [toDelete, deletedImages, Program.after, callbacks_deleteTrip, zero_add,
      Set.mem_ofPred_eq, Multiset.mem_add, Multiset.mem_map, Multiset.mem_coe,
      Multiset.mem_singleton, reduceCtorEq, and_false, exists_false, or_false, false_or,
      Callback.entryToDeleteFetched.injEq, exists_eq_right]
    rw [show program.apply = Write.apply from rfl, hstore]
  refine ⟨?_, ?_, ?_⟩
  · exact (congrArg TripInfo.user hfst).trans huser
  · exact (congrArg (fun l => l.currentUser.uid) hfst).trans hcur
  · have hbucket : (program.after (deleteTrip t d l) ⟨db, l, 0⟩).loc.bucket = l.bucket :=
      congrArg TripInfo.bucket hfst
    rw [hdels, hbucket]
    exact .start (fun _ _ h => h.elim) (fun _ _ => Iff.rfl) (fun _ _ => Iff.rfl) _

/-- An entry is fetched, and its images are to be deleted. -/
theorem toDelete_entryToDeleteFetched {id : EntryID} {e : EntryDoc} {rest : Multiset Callback}
    (hb : x.bag = .entryToDeleteFetched id ::ₘ rest) (hcur : x.loc.currentUser.uid = u)
    (he : x.store.entries.lookup id = some e) :
    toDelete u (program.after (entryToDeleteFetched id e x.loc) { x with bag := rest }) =
      toDelete u x := by
  ext p
  have hnew : .objectDeleted p ∈ callbacks (entryToDeleteFetched id e x.loc).2 ↔
      ∃ i ≤ e.mediaList.length, p = imagePath u id i := by
    rw [callbacks_entryToDeleteFetched, hcur]
    simp only [Multiset.mem_coe, List.mem_map, List.mem_range, Callback.objectDeleted.injEq]
    exact exists_congr fun i => and_congr Nat.lt_succ_iff eq_comm
  have hno : ∀ id', .entryToDeleteFetched id' ∉ callbacks (entryToDeleteFetched id e x.loc).2 := by
    intro id'
    simp [callbacks_entryToDeleteFetched]
  simp only [toDelete, Program.after, Set.mem_ofPred_eq, Multiset.mem_add, hnew, hno, or_false,
    show program.apply = Write.apply from rfl, effect_entryToDeleteFetched,
    Collection.lookup_erase_eq, hb, Multiset.mem_cons, reduceCtorEq, false_or,
    Callback.entryToDeleteFetched.injEq]
  constructor
  · rintro ((hrest | ⟨i, hi, rfl⟩) | ⟨id', hid', e', he', hi⟩)
    · exact Or.inl hrest
    · exact Or.inr ⟨id, Or.inl rfl, e, he, i, hi, rfl⟩
    · split at he'
      · cases he'
      · exact Or.inr ⟨id', Or.inr hid', e', he', hi⟩
  · rintro (hrest | ⟨id', hid', e', he', hi⟩)
    · exact Or.inl (Or.inl hrest)
    · by_cases hid : id' = id
      · subst hid
        obtain rfl := Option.some.inj (he.symm.trans he')
        exact Or.inl (Or.inr hi)
      · exact Or.inr ⟨id', hid'.resolve_left hid, e', by rw [if_neg hid, he'], hi⟩

/-- An answer that is not about an object. -/
theorem Moving.of_toDelete (h : Moving u F D b₀ x) (huser : x'.loc.user = x.loc.user)
    (hcur : x'.loc.currentUser.uid = u) (hbucket : x'.loc.bucket = x.loc.bucket)
    (hdels : toDelete u x' = toDelete u x) : Moving u F D b₀ x' := by
  refine ⟨huser.trans h.user, hcur, ?_⟩
  rw [hbucket, hdels]
  exact h.transfer

/-- The object whose deletion is answered, and the others. -/
theorem mem_toDelete_of_objectDeleted {rest : Multiset Callback}
    (hb : x.bag = .objectDeleted path ::ₘ rest) (p : String) :
    p ∈ toDelete u x ↔ p = path ∨ p ∈ toDelete u ⟨x.store, x.loc, rest⟩ := by
  simp [toDelete, hb, or_assoc]

/-- The answer to the deletion of an object. -/
theorem Moving.objectDeleted {ok : Bool} {rest : Multiset Callback} (h : Moving u F D b₀ x)
    (hb : x.bag = .objectDeleted path ::ₘ rest)
    (hclear : path ∈ F → path ∈ D → path ∈ x.loc.bucket → ok = true) :
    Moving u F D b₀ (program.after
      (if ok then { x.loc with bucket := x.loc.bucket.erase path } else x.loc, [])
      { x with bag := rest }) := by
  have hdels := mem_toDelete_of_objectDeleted (u := u) hb
  have hsub : ∀ q ∈ F, q ∈ toDelete u ⟨x.store, x.loc, rest⟩ → q ∈ toDelete u x :=
    fun q _ hq => (hdels q).mpr (Or.inr hq)
  have hrest : ∀ q ∈ F, q ∈ toDelete u x → q = path ∨ q ∈ toDelete u ⟨x.store, x.loc, rest⟩ :=
    fun q _ hq => (hdels q).mp hq
  have hpath : path ∈ F → path ∈ toDelete u x := fun _ => (hdels path).mpr (Or.inl rfl)
  cases ok with
  | true =>
    refine ⟨h.user, h.currentUser, ?_⟩
    simp only [Program.after, callbacks_nil, add_zero, if_true]
    exact h.transfer.delete hpath hsub hrest
  | false =>
    have hskip : path ∈ F → path ∈ D → path ∉ x.loc.bucket := fun hF hD hmem =>
      Bool.false_ne_true (hclear hF hD hmem)
    refine ⟨h.user, h.currentUser, ?_⟩
    simp only [Program.after, callbacks_nil, add_zero, Bool.false_eq_true, if_false]
    exact h.transfer.skip hskip hsub hrest

/-- **One step.** -/
theorem Removing.step (hd : db.trips.lookup t = some d) (h : Removing t d u db F b₀ x)
    (ha : deleting x.loc x.store m)
    (hclear : d.coverPhoto ≠ none → ∀ path ok a, m = .deliver (.objectDeleted path) ok a →
      path ∈ F → path ∈ deletedImages u db d → path ∈ x.loc.bucket → ok = true)
    (hs : DirectStep program x m x') : Removing t d u db F b₀ x' := by
  cases hs with
  | @event e r he =>
    cases e with
    | currentUserFetched =>
      have hsame : ∃ l', r = (l', []) ∧ l'.user = x.loc.user ∧ l'.bucket = x.loc.bucket ∧
          (x.loc.user = u → x.loc.currentUser.uid = u → l'.currentUser.uid = u) := by
        simp only [program, event] at he
        split at he <;> cases he
        · exact ⟨_, rfl, rfl, rfl, fun _ hcur => hcur⟩
        · rename_i user huser
          exact ⟨_, rfl, rfl, rfl, fun hu _ => (Firestore.fetchUser_eq_some huser).1.trans hu⟩
      obtain ⟨l', rfl, huser, hbucket, hcur⟩ := hsame
      have hafter : program.after (l', []) x = ⟨x.store, l', x.bag⟩ := by simp [Program.after]
      rw [hafter]
      cases h with
      | fetching hstore hbag hu hc hb₀ =>
        exact .fetching hstore hbag (huser.trans hu) (hcur hu hc) (hbucket.trans hb₀)
      | kept hbag hcover hb₀ => exact .kept hbag hcover (hbucket.trans hb₀)
      | deleted hcover hbag h =>
        exact .deleted hcover hbag (h.of_toDelete huser (hcur h.user h.currentUser) hbucket rfl)
    | _ => exact ha.elim
  | @deliver k ok a rest r hb hr =>
    cases h with
    | fetching hstore hbag huser hcur hb₀ =>
      rw [hbag] at hb
      obtain ⟨rfl, rfl⟩ := (Multiset.singleton_eq_cons_iff _).mp hb
      have hok : ok = true := ha
      simp only [program, react, hok, if_true, hstore, hd, Option.some.injEq] at hr
      subst hr
      split
      · rename_i hcover
        rw [hstore]
        refine .deleted (Option.isSome_iff_ne_none.mp hcover) (fun k hk => ?_)
          (hb₀ ▸ Moving.start huser hcur)
        simp only [Program.after, callbacks_deleteTrip, zero_add, Multiset.mem_add,
          Multiset.mem_map, Multiset.mem_coe, Multiset.mem_singleton] at hk
        rcases hk with ⟨id, -, rfl⟩ | rfl <;> trivial
      · rename_i hcover
        exact .kept rfl (by simpa using hcover) hb₀
    | kept hbag hcover hb₀ => exact absurd (hb.symm.trans hbag) Multiset.cons_ne_zero
    | deleted hcover hbag h =>
      have hold : ∀ k' ∈ rest, k'.deletes :=
        fun k' hk' => hbag k' (hb ▸ Multiset.mem_cons_of_mem hk')
      have hdrop : ∀ l', ∀ k' ∈ (program.after (l', []) { x with bag := rest }).bag,
          k'.deletes := by
        intro l' k' hk'
        exact hold k' (by simpa [Program.after] using hk')
      have hkept : ∀ l', l'.user = x.loc.user → l'.currentUser.uid = u →
          l'.bucket = x.loc.bucket → (∀ p, k ≠ .objectDeleted p) →
          (∀ id, k = .entryToDeleteFetched id → x.store.entries.lookup id = none) →
          Moving u F (deletedImages u db d) b₀ (program.after (l', []) { x with bag := rest }) := by
        intro l' huser hcur hbucket hk hnone
        refine h.of_toDelete huser hcur hbucket ?_
        ext p
        simp only [toDelete, Program.after, callbacks_nil, effect_nil, add_zero, hb,
          Set.mem_ofPred_eq, Multiset.mem_cons, (hk p).symm, false_or]
        refine or_congr_right (exists_congr fun id => ?_)
        constructor
        · exact And.imp_left Or.inr
        · rintro ⟨hid | hid, e, he, hi⟩
          · rw [hnone id hid.symm] at he
            cases he
          · exact ⟨hid, e, he, hi⟩
      have hk : k.deletes := hbag k (hb ▸ Multiset.mem_cons_self k rest)
      cases k with
      | objectDeleted path =>
        simp only [program, react, Option.some.injEq] at hr
        subst hr
        exact .deleted hcover (hdrop _) (h.objectDeleted hb (hclear hcover path ok a rfl))
      | entryToDeleteFetched id =>
        have hok : ok = true := ha
        simp only [program, react, hok, if_true] at hr
        split at hr <;> cases hr
        · rename_i hnone
          exact .deleted hcover (hdrop _) (hkept _ rfl h.currentUser rfl (by simp)
            fun id' hid' => by cases hid'; exact hnone)
        · rename_i e he
          refine .deleted hcover (fun k' hk' => ?_) ?_
          · simp only [Program.after, callbacks_entryToDeleteFetched, Multiset.mem_add,
              Multiset.mem_coe, List.mem_map] at hk'
            rcases hk' with hk' | ⟨index, -, rfl⟩
            · exact hold k' hk'
            · trivial
          · have hdels := toDelete_entryToDeleteFetched hb h.currentUser he
            refine ⟨h.user, h.currentUser, ?_⟩
            rw [hdels]
            exact h.transfer
      | tripsUpdated =>
        simp only [program, react, Option.some.injEq] at hr
        subst hr
        exact .deleted hcover (hdrop _) (hkept _ rfl h.currentUser rfl (by simp) (by simp))
      | _ => exact hk.elim

/-- **What the deletion of a trip does to images**: those of its entries are gone. A trip without a
cover is left alone. -/
theorem deleted_images {db' : Firestore}
    {allowed : TripInfo → Firestore → Async.Move Callback Unit Event → Prop}
    (hd : db.trips.lookup t = some d) (ht : l.tripId = t) (huser : l.user = u)
    (hcur : l.currentUser.uid = u) (hallowed : ∀ l db m, allowed l db m → deleting l db m)
    (hclear : d.coverPhoto ≠ none → ∀ l' db' p ok a,
      allowed l' db' (.deliver (.objectDeleted p) ok a) → p ∈ F → p ∈ deletedImages u db d →
        p ∈ l'.bucket → ok = true)
    (h : Completes program allowed .deleteConfirmed db l db' l') (hpath : path ∈ F) :
    path ∈ l'.bucket ↔ path ∈ l.bucket ∧ (d.coverPhoto ≠ none → path ∉ deletedImages u db d) := by
  have hend : Removing t d u db F l.bucket ⟨db', l', 0⟩ := by
    refine h.invariant (fun r he => ?_) fun x m x' hx ha hs => hx.step hd (hallowed _ _ _ ha)
      (fun hcover p ok a hm => hclear hcover _ _ p ok a (hm ▸ ha)) hs
    simp only [program, event, ht] at he
    split at he <;> cases he
    exact .fetching rfl rfl huser hcur rfl
  cases hend with
  | fetching hstore hbag => exact absurd hbag.symm (Multiset.singleton_ne_zero _)
  | kept hbag hcover hbucket =>
    change l'.bucket = l.bucket at hbucket
    rw [hbucket]
    exact (and_iff_left fun hne => absurd hcover hne).symm
  | deleted hcover hbag h =>
    have hnone : ∀ p ∈ F, p ∉ toDelete u ⟨db', l', 0⟩ := by
      simp [toDelete]
    have hmem := h.transfer.mem_iff (fun p _ hp => hp) hnone hpath
    simpa [hcover] using hmem

end

end TripInfo

end Wanderlust
