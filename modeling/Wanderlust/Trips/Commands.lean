import Wanderlust.Foundations.Handlers
import Wanderlust.Trips.SaveSteps

/-!
# The commands of the screen

Which writes each piece of code can issue, whatever state it starts from. All of them are routine
(`Routine`), apart from the two by which `createTrip` adds a trip and lists it (`writes_react`,
`writes_createTrip`), and most of them only update what there is (`updating_react`).
-/

namespace Wanderlust

open Async

namespace EditTrip

/-- The observer in `updateTripInfo` comes to its end: its list grows through the number of the
annotations on the map. -/
def UpdatesTripInfo (l : EditTrip) : Prop :=
  1 ≤ l.annotations.length ∧ l.annotations.length ≤ l.entryList.length

instance (l : EditTrip) : Decidable l.UpdatesTripInfo := inferInstanceAs (Decidable (_ ∧ _))

theorem annotations_updateTripInfoDidSet (n : ℕ) (l : EditTrip) :
    (updateTripInfoDidSet n l).1.annotations = l.annotations := by
  simp only [updateTripInfoDidSet]
  split
  · split <;> rfl
  · rfl

theorem forEach_updateTripInfoDidSet (s m : ℕ) (l : EditTrip) :
    Handler.forEach updateTripInfoDidSet (List.range' s m) l =
      if s ≤ l.annotations.length ∧ l.annotations.length < s + m then
        updateTripInfoDidSet l.annotations.length l
      else (l, []) := by
  induction m generalizing s l with
  | zero =>
    rw [if_neg (by omega)]
    rfl
  | succ m ih =>
    rw [List.range'_succ, Handler.forEach_cons, Handler.andThen_apply, ih,
      annotations_updateTripInfoDidSet]
    by_cases hs : s = l.annotations.length
    · rw [if_neg (by omega), if_pos (by omega), hs]
      simp
    · have hskip : updateTripInfoDidSet s l = (l, []) := by
        simp only [updateTripInfoDidSet, if_neg hs]
      rw [hskip]
      have hiff : (s + 1 ≤ l.annotations.length ∧ l.annotations.length < s + 1 + m) ↔
          (s ≤ l.annotations.length ∧ l.annotations.length < s + (m + 1)) := by omega
      simp only [hiff, List.nil_append]

theorem updateTripInfo_eq (l : EditTrip) :
    updateTripInfo l =
      if l.UpdatesTripInfo then updateTripInfoDidSet l.annotations.length l else (l, []) := by
  rw [updateTripInfo, forEach_updateTripInfoDidSet]
  have hiff : (1 ≤ l.annotations.length ∧ l.annotations.length < 1 + l.entryList.length) ↔
      l.UpdatesTripInfo := by
    unfold UpdatesTripInfo
    omega
  simp only [hiff]

/-- The annotations on the list belong to the trip afterwards. -/
theorem tripID_updateTripID {l : EditTrip} {r : ℕ} (hr : r ∈ l.entryList) (ids : List EntryID)
    (t : TripID) : ((updateTripID ids t l).1.heap r).tripID = some t := by
  simp only [updateTripID, if_pos hr]

/-- The updates that complete a trip which lists its entries. -/
inductive Completing : Write → Prop
  | cover (t : TripID) (url : URL) :
      Completing (.updateTrip t fun d => { d with coverPhoto := some url })
  | tripID (id : EntryID) (t : TripID) :
      Completing (.updateEntry id fun d => { d with tripID := some t })
  | order (id : EntryID) (i : ℕ) : Completing (.updateEntry id fun d => { d with entryOrder := i })

/-- The updates of trips and entries that the screen issues. -/
inductive Updating : Write → Prop
  | entries (t : TripID) (name : String) (ids : List EntryID) :
      Updating (.updateTrip t fun d => { d with tripName := name, entries := ids })
  | completing {w : Write} (h : Completing w) : Updating w

/-- The writes of the screen, apart from those that create a trip. -/
inductive Routine : Write → Prop
  | updates {w : Write} (h : Updating w) : Routine w
  | setEntry (id : EntryID) (doc : EntryDoc) : Routine (.setEntry id doc)
  | setFeed (u : Uid) (id : EntryID) (doc : FeedDoc) : Routine (.setFeed u id doc)
  | deleteEntry (id : EntryID) : Routine (.deleteEntry id)
  | deleteFeed (u : Uid) (id : EntryID) : Routine (.deleteFeed u id)

/-- Whatever the code starts from, its writes are `Q`. -/
abbrev Issuing (Q : Write → Prop) (f : Handler) : Prop := f.Emits (fun _ => True) (Cmd.Writes Q)

theorem completing_updateEntryOrder (ids : List EntryID) (t : TripID) :
    Issuing Completing (updateEntryOrder ids t) := by
  refine fun l _ => ⟨trivial, fun c hc => ?_⟩
  obtain ⟨i, hi, rfl⟩ := List.mem_mapIdx.mp hc
  exact .order _ _

theorem completing_updateTripID (ids : List EntryID) (t : TripID) :
    Issuing Completing (updateTripID ids t) := by
  refine fun l _ => ⟨trivial, fun c hc => ?_⟩
  obtain ⟨id, hid, rfl⟩ := List.mem_map.mp hc
  exact .tripID _ _

theorem completing_uploadTripCoverPhoto (t : TripID) :
    Issuing Completing (uploadTripCoverPhoto t) := by
  refine Handler.emits_issue fun l _ c hc => ?_
  split at hc
  · cases hc
  · rw [List.mem_singleton.mp hc]
    trivial

/-- The code that runs when the trip has been written. -/
theorem completing_tripUpdated (entryIdList : List EntryID) (t : TripID) (f : EditTrip → EditTrip) :
    Issuing Completing ((uploadTripCoverPhoto t).andThen ((updateTripID entryIdList t).andThen
        (.modify f))) :=
  (completing_uploadTripCoverPhoto t).andThen
    ((completing_updateTripID _ t).andThen (Handler.emits_modify fun _ _ => trivial))

theorem Issuing.mono {Q Q' : Write → Prop} {f : Handler} (h : Issuing Q f)
    (hQ : ∀ w, Q w → Q' w) : Issuing Q' f :=
  Handler.Emits.mono h fun _ hc => hc.mono hQ

theorem updating_updateTripInfoDidSet (n : ℕ) : Issuing Updating (updateTripInfoDidSet n) := by
  refine fun l _ => ⟨trivial, ?_⟩
  simp only [updateTripInfoDidSet]
  split
  · split
    · simp
    · rename_i t ht
      have hentries : Issuing Updating (Handler.issue fun l => [.write (.updateTrip t fun d =>
          { d with tripName := l.tripName, entries := l.ids }) none]) :=
        Handler.emits_issue fun l _ c hc => List.mem_singleton.mp hc ▸ Updating.entries ..
      have hrest : Issuing Completing ((uploadTripCoverPhoto t).andThen (updateTripID l.ids t)) :=
        (completing_uploadTripCoverPhoto t).andThen (completing_updateTripID _ t)
      exact (hentries.andThen (hrest.mono fun _ => .completing) l trivial).2
  · simp

theorem updating_updateTripInfo : Issuing Updating updateTripInfo :=
  fun l => Handler.emits_forEach (fun n _ => updating_updateTripInfoDidSet n) l

theorem routine_deleteEntry (r : ℕ) : Issuing Routine (deleteEntry r) := by
  refine Handler.emits_issue fun l _ c hc => ?_
  simp only [List.cons_append, List.mem_cons, List.mem_append, List.mem_map] at hc
  rcases hc with rfl | ⟨u, _, rfl⟩ | ⟨i, _, rfl⟩
  · exact .deleteEntry _
  · exact .deleteFeed _ _
  · trivial

theorem routine_addToFirebase (press r : ℕ) : Issuing Routine (addToFirebase press r) := by
  refine fun l _ => ⟨trivial, fun c hc => ?_⟩
  rcases List.mem_cons.mp hc with rfl | hc
  · exact .setEntry _ _
  · obtain ⟨u, _, rfl⟩ := List.mem_map.mp hc
    exact .setFeed _ _ _

theorem mem_imageUploads {uid : Uid} {id : EntryID} {c press r : ℕ} {images : List UIImage} {n : ℕ}
    {cmd : Cmd} (h : cmd ∈ imageUploads uid id c press r images n) :
    ∃ i data, n ≤ i ∧ i < n + images.length ∧
      cmd = .request (.imageUploaded c press r (imagePath uid id i) data) := by
  induction images generalizing n with
  | nil => cases h
  | cons image images ih =>
    simp only [imageUploads] at h
    split at h
    · cases h
    · rename_i data hdata
      rcases List.mem_cons.mp h with rfl | h
      · exact ⟨n, data, le_rfl, by simp, rfl⟩
      · obtain ⟨i, data, hle, hlt, rfl⟩ := ih h
        exact ⟨i, data, by omega, by simp only [List.length_cons]; omega, rfl⟩

theorem routine_addEntryToFirestore (press r : ℕ) :
    Issuing Routine (addEntryToFirestore press r) := by
  refine fun l _ => ⟨trivial, fun c hc => ?_⟩
  simp only [addEntryToFirestore] at hc
  split at hc
  · exact (routine_addToFirebase press r l trivial).2 c hc
  · obtain ⟨i, data, -, -, rfl⟩ := mem_imageUploads hc
    trivial

theorem routine_saveButtonPressed : Issuing Routine saveButtonPressed := by
  refine fun l _ => ⟨trivial, ?_⟩
  simp only [saveButtonPressed]
  split
  · simp
  · exact (((updating_updateTripInfo.mono fun _ => .updates).andThen
      ((Handler.emits_forEach fun r _ => routine_deleteEntry r).andThen
        (Handler.emits_forEach fun r _ => routine_addEntryToFirestore _ r))) l.newCount trivial).2

theorem writes_requests {Q : Write → Prop} {cs : List Cmd} (h : ∀ c ∈ cs, ∃ k, c = .request k) :
    ∀ c ∈ cs, c.Writes Q := by
  intro c hc
  obtain ⟨k, rfl⟩ := h c hc
  trivial

/-- The callbacks whose code issues writes. -/
def Callback.writes : Callback → Bool
  | .imageURL _ _ _ _ => true
  | .userFetched _ _ => true
  | .tripUpdated _ => true
  | .tripIDUpdated _ _ _ => true
  | .tripCoverURL _ _ => true
  | _ => false

/-- The user presses the save button. -/
def Event.presses : Event → Bool
  | .saveButtonPressed => true
  | _ => false

/-- What the user does, apart from pressing the save button, at most fetches something: the trip,
if there is one, and who annotates. -/
theorem asks_event {e : Event} {l : EditTrip} {db : Firestore} {r : EditTrip × List Cmd}
    (h : event e l db = some r) (he : e.presses = false) : ∀ c ∈ r.2,
      (∃ t, l.tripID = some t ∧ (c = .request (.coverDocFetched t) ∨
        c = .request (.tripFetched t))) ∨ ∃ s uid, c = .request (.usernameFetched s uid) := by
  cases e with
  | saveButtonPressed => cases he
  | viewDidLoad =>
    cases h
    intro c hc
    obtain ⟨t, ht, rfl⟩ := List.mem_map.mp hc
    exact Or.inl ⟨t, Option.mem_toList.mp ht, Or.inl rfl⟩
  | viewWillAppear =>
    simp only [event] at h
    split at h
    · cases h; simp
    · split at h <;> cases h
      · simp
      · rename_i t ht
        simp [ht]
  | addAnnotation form uuid =>
    cases h
    simp [EditTrip.addAnnotation]
  | currentUserFetched =>
    simp only [event] at h
    split at h <;> cases h <;> simp
  | moveRowAt source destination =>
    obtain ⟨rows, -, rfl⟩ := Option.map_eq_some_iff.mp h
    simp
  | orderWillDisappear =>
    obtain ⟨rows, -, rfl⟩ := Option.map_eq_some_iff.mp h
    simp
  | editTripName name =>
    cases h; simp
  | selectTripCover image =>
    cases h; simp
  | _ =>
    simp only [event] at h
    split at h <;> cases h
    simp

theorem requests_event {e : Event} {l : EditTrip} {db : Firestore} {r : EditTrip × List Cmd}
    (h : event e l db = some r) (he : e.presses = false) : ∀ c ∈ r.2, ∃ k, c = .request k := by
  intro c hc
  rcases asks_event h he c hc with ⟨t, -, rfl | rfl⟩ | ⟨s, uid, rfl⟩ <;> exact ⟨_, rfl⟩

/-- Nothing has been saved. -/
structure Unsaved (l l' : EditTrip) : Prop where
  bucket : l'.bucket = l.bucket
  now : l'.now = l.now
  tripID : l'.tripID = l.tripID
  user : l'.user = l.user
  dismissed : l'.dismissed = l.dismissed

theorem Unsaved.refl (l : EditTrip) : Unsaved l l := ⟨rfl, rfl, rfl, rfl, rfl⟩

/-- Nothing that saving uses is different. -/
structure Undisturbed (l l' : EditTrip) : Prop extends Unsaved l l' where
  counts : l'.counts = l.counts
  nextCount : l'.nextCount = l.nextCount

/-- What the user does, apart from pressing the save button, disturbs no save. -/
theorem undisturbed_event {e : Event} {l : EditTrip} {db : Firestore} {r : EditTrip × List Cmd}
    (h : event e l db = some r) (he : e.presses = false) : Undisturbed l r.1 := by
  have hsame : Undisturbed l l := ⟨.refl l, rfl, rfl⟩
  cases e with
  | saveButtonPressed => cases he
  | viewWillAppear =>
    simp only [event] at h
    split at h
    · cases h; exact hsame
    · split at h <;> cases h
      · exact hsame
      · exact ⟨⟨rfl, rfl, rfl, rfl, rfl⟩, rfl, rfl⟩
  | deleteAnnotation s =>
    simp only [event, deleteAnnotation] at h
    split at h <;> cases h
    split <;> exact ⟨⟨rfl, rfl, rfl, rfl, rfl⟩, rfl, rfl⟩
  | moveRowAt source destination =>
    obtain ⟨rows, -, rfl⟩ := Option.map_eq_some_iff.mp h
    exact ⟨⟨rfl, rfl, rfl, rfl, rfl⟩, rfl, rfl⟩
  | orderWillDisappear =>
    obtain ⟨rows, -, rfl⟩ := Option.map_eq_some_iff.mp h
    exact ⟨⟨rfl, rfl, rfl, rfl, rfl⟩, rfl, rfl⟩
  | currentUserFetched =>
    simp only [event] at h
    split at h <;> cases h
    · exact hsame
    · exact ⟨⟨rfl, rfl, rfl, rfl, rfl⟩, rfl, rfl⟩
  | editAnnotation s form =>
    simp only [event] at h
    split at h <;> cases h
    exact ⟨⟨rfl, rfl, rfl, rfl, rfl⟩, rfl, rfl⟩
  | editOrderButtonPressed =>
    simp only [event] at h
    split at h <;> cases h
    exact ⟨⟨rfl, rfl, rfl, rfl, rfl⟩, rfl, rfl⟩
  | _ => cases h; exact ⟨⟨rfl, rfl, rfl, rfl, rfl⟩, rfl, rfl⟩

/-- What the user does to the annotations: a new one, or an edit of one. -/
theorem heap_event {e : Event} {l : EditTrip} {db : Firestore} {r : EditTrip × List Cmd}
    (h : event e l db = some r) (he : e.presses = false) :
    (r.1.heap = l.heap ∧ r.1.next = l.next) ∨
    (∃ form uuid, e = Event.addAnnotation form uuid ∧ r.1.next = l.next + 1 ∧
      r.1.heap = Function.update l.heap l.next (.ofForm form l.entryList.length uuid)) ∨
    ∃ s form, e = Event.editAnnotation s form ∧ r.1 = l.set s ((l.heap s).edit form) := by
  cases e with
  | saveButtonPressed => cases he
  | addAnnotation form uuid =>
    cases h
    exact Or.inr (Or.inl ⟨form, uuid, rfl, rfl, rfl⟩)
  | editAnnotation s form =>
    simp only [event] at h
    split at h <;> cases h
    exact Or.inr (Or.inr ⟨s, form, rfl, rfl⟩)
  | viewWillAppear =>
    left
    simp only [event] at h
    split at h
    · cases h; exact ⟨rfl, rfl⟩
    · split at h <;> cases h <;> exact ⟨rfl, rfl⟩
  | deleteAnnotation s =>
    left
    simp only [event, deleteAnnotation] at h
    split at h <;> cases h
    split <;> exact ⟨rfl, rfl⟩
  | moveRowAt source destination =>
    obtain ⟨rows, -, rfl⟩ := Option.map_eq_some_iff.mp h
    exact Or.inl ⟨rfl, rfl⟩
  | orderWillDisappear =>
    obtain ⟨rows, -, rfl⟩ := Option.map_eq_some_iff.mp h
    exact Or.inl ⟨rfl, rfl⟩
  | currentUserFetched =>
    left
    simp only [event] at h
    split at h <;> cases h <;> exact ⟨rfl, rfl⟩
  | editOrderButtonPressed =>
    left
    simp only [event] at h
    split at h <;> cases h
    exact ⟨rfl, rfl⟩
  | _ => cases h; exact Or.inl ⟨rfl, rfl⟩

/-- The callbacks that fill the screen. -/
def Callback.fills : Callback → Bool
  | .coverDocFetched _ => true
  | .coverDownloaded _ => true
  | .tripFetched _ => true
  | .entryFetched _ => true
  | .entryCoverDownloaded _ _ => true
  | .imageDownloaded _ _ _ _ => true
  | .usernameFetched _ _ => true
  | _ => false

theorem Callback.writes_of_fills {k : Callback} (h : k.fills = true) : k.writes = false := by
  cases k <;> first | rfl | cases h

/-- What fills the screen saves nothing. -/
theorem unsaved_react {k : Callback} {ok : Bool} {a : TripID} {l : EditTrip} {db : Firestore}
    {r : EditTrip × List Cmd} (h : react k ok a l db = some r) (hk : k.fills = true) :
    Unsaved l r.1 := by
  have hsame : Unsaved l l := .refl l
  cases k with
  | coverDocFetched t =>
    simp only [react] at h
    split at h
    · cases h; exact hsame
    · obtain ⟨url, -, rfl⟩ := Option.map_eq_some_iff.mp h
      exact hsame
  | coverDownloaded url =>
    simp only [react] at h
    split at h <;> cases h <;> exact ⟨rfl, rfl, rfl, rfl, rfl⟩
  | tripFetched t =>
    simp only [react] at h
    split at h <;> cases h <;> exact ⟨rfl, rfl, rfl, rfl, rfl⟩
  | entryFetched id =>
    simp only [react, entryFetched] at h
    split at h
    · cases h; exact hsame
    · split at h <;> cases h
      exact ⟨rfl, rfl, rfl, rfl, rfl⟩
  | entryCoverDownloaded s url =>
    simp only [react] at h
    split at h <;> cases h <;> exact ⟨rfl, rfl, rfl, rfl, rfl⟩
  | imageDownloaded s c n url =>
    simp only [react] at h
    split at h <;> cases h
    · exact hsame
    · rename_i data _
      obtain ⟨annotations, temp, list, he⟩ := imageDownloaded_eq s c n (.ofData data) l
      rw [he]
      exact ⟨rfl, rfl, rfl, rfl, rfl⟩
  | usernameFetched s uid =>
    cases h
    exact ⟨rfl, rfl, rfl, rfl, rfl⟩
  | _ => cases hk

theorem requests_react {k : Callback} {ok : Bool} {a : TripID} {l : EditTrip} {db : Firestore}
    {r : EditTrip × List Cmd} (h : react k ok a l db = some r) (hk : k.writes = false) :
    ∀ c ∈ r.2, ∃ k, c = .request k := by
  cases k with
  | imageURL currentIndex press r' path => cases hk
  | userFetched p ids => cases hk
  | tripUpdated ids => cases hk
  | tripIDUpdated c ids t => cases hk
  | tripCoverURL t path => cases hk
  | coverDocFetched t =>
    simp only [react] at h
    split at h
    · cases h; simp
    · obtain ⟨url, -, rfl⟩ := Option.map_eq_some_iff.mp h
      simp
  | tripFetched t =>
    simp only [react] at h
    split at h <;> cases h
    · simp
    · simp [loadEntryData]
  | entryFetched id =>
    simp only [react, entryFetched] at h
    split at h
    · cases h; simp
    · split at h <;> cases h
      simp
  | entryWritten press r' =>
    simp only [react, Option.some.injEq, entryWritten] at h
    split at h <;> subst h
    · dsimp only
      split <;> simp
    · simp
  | coverDownloaded url =>
    simp only [react] at h
    split at h <;> cases h <;> simp
  | entryCoverDownloaded r' url =>
    simp only [react] at h
    split at h <;> cases h <;> simp
  | imageDownloaded r' c n url =>
    simp only [react] at h
    split at h <;> cases h <;> simp
  | _ =>
    cases h
    simp

/-- What the user does issues routine writes only. -/
theorem writes_event {e : Event} {l : EditTrip} {db : Firestore} {r : EditTrip × List Cmd}
    (h : event e l db = some r) : ∀ c ∈ r.2, c.Writes Routine := by
  cases he : e.presses with
  | false => exact writes_requests (requests_event h he)
  | true =>
    cases e <;> simp only [Event.presses, reduceCtorEq] at he
    simp only [event] at h
    split at h <;> cases h
    exact (routine_saveButtonPressed l trivial).2

/-- Most code that runs for an answer only completes; what lists the entries of a trip, what creates
one, and what publishes an entry when its last URL has arrived, does not. -/
theorem completing_react {k : Callback} {ok : Bool} {a : TripID} {l : EditTrip} {db : Firestore}
    {r : EditTrip × List Cmd} (h : react k ok a l db = some r)
    (hk : ∀ c p s path, k ≠ .imageURL c p s path) :
    (∀ c ∈ r.2, c.Writes Completing) ∨
      (∃ p ids t, k = .userFetched p ids ∧ l.tripID = some t ∧ r = updateTrip ids t l) ∨
      ∃ p ids userData, k = .userFetched p ids ∧ ok = true ∧
        db.users.lookup l.user = some userData ∧ l.tripID = none ∧
        r = createTrip ids userData a l := by
  cases hw : k.writes with
  | false => exact Or.inl (writes_requests (requests_react h hw))
  | true =>
    cases k <;> simp only [Callback.writes, reduceCtorEq] at hw
    case imageURL c p s path => exact absurd rfl (hk c p s path)
    case userFetched p ids =>
      simp only [react] at h
      split at h
      · cases h; simp
      · rename_i userData huser
        split at h <;> cases h
        · rename_i ht
          refine Or.inr (Or.inr ⟨p, ids, userData, rfl, ?_, ?_, ht, rfl⟩)
          · by_contra hok
            simp [hok] at huser
          · by_contra hne
            split at huser
            · exact hne huser
            · cases huser
        · rename_i t ht
          exact Or.inr (Or.inl ⟨p, ids, t, rfl, ht, rfl⟩)
    case tripUpdated ids =>
      left
      obtain ⟨t, -, rfl⟩ := Option.map_eq_some_iff.mp h
      exact (completing_tripUpdated ids t _ l trivial).2
    case tripIDUpdated c ids t =>
      left
      simp only [react, Option.some.injEq] at h
      split at h <;> subst h
      · exact (completing_updateEntryOrder ids t _ trivial).2
      · simp
    case tripCoverURL t path =>
      left
      simp only [react] at h
      split at h <;> cases h
      · simp only [List.mem_singleton, forall_eq]
        exact .cover ..
      · simp

theorem updating_updateTrip (ids : List EntryID) (t : TripID) :
    Issuing Updating (updateTrip ids t) :=
  Handler.emits_issue fun _ _ _ hc => List.mem_singleton.mp hc ▸ Updating.entries ..

/-- Most code that runs for an answer only updates; what creates a trip, and what publishes an
entry when its last URL has arrived, does not. -/
theorem updating_react {k : Callback} {ok : Bool} {a : TripID} {l : EditTrip} {db : Firestore}
    {r : EditTrip × List Cmd} (h : react k ok a l db = some r)
    (hk : ∀ c p s path, k ≠ .imageURL c p s path) :
    (∀ c ∈ r.2, c.Writes Updating) ∨ ∃ p ids userData, k = .userFetched p ids ∧ ok = true ∧
      db.users.lookup l.user = some userData ∧ l.tripID = none ∧
      r = createTrip ids userData a l := by
  rcases completing_react h hk with hw | ⟨p, ids, t, -, -, rfl⟩ | hw
  · exact Or.inl fun c hc => (hw c hc).mono fun _ => .completing
  · exact Or.inl (updating_updateTrip ids t l trivial).2
  · exact Or.inr hw

/-- The only code whose writes are not all routine is that which creates a trip. -/
theorem writes_react {k : Callback} {ok : Bool} {a : TripID} {l : EditTrip} {db : Firestore}
    {r : EditTrip × List Cmd} (h : react k ok a l db = some r) :
    (∀ c ∈ r.2, c.Writes Routine) ∨ ∃ p ids userData, k = .userFetched p ids ∧ ok = true ∧
      db.users.lookup l.user = some userData ∧ l.tripID = none ∧
      r = createTrip ids userData a l := by
  by_cases hk : ∃ c p s path, k = .imageURL c p s path
  · obtain ⟨c, p, s, path, rfl⟩ := hk
    left
    simp only [react] at h
    split at h <;> cases h
    split
    · exact (routine_addToFirebase p s _ trivial).2
    · simp
  · rcases updating_react h fun c p s path he => hk ⟨c, p, s, path, he⟩ with hw | hw
    · exact Or.inl fun c hc => (hw c hc).mono fun _ => .updates
    · exact Or.inr hw

/-- What creates a trip: the trip, its place in the list of the user, and what completes it. -/
theorem writes_createTrip (ids : List EntryID) (userData : UserDoc) (t : TripID) (l : EditTrip) :
    ∃ cs, (createTrip ids userData t l).2 =
        .write (.addTrip t ⟨l.tripName, none, l.user, l.now, ids⟩) none ::
        .write (.updateUser l.user fun d => { d with trips := userData.trips ++ [t] }) none :: cs ∧
      ∀ c ∈ cs, c.Writes Completing := by
  have hrest : Issuing Completing ((Handler.modify fun l => { l with now := l.now + 1 }).andThen
      ((updateTripID ids t).andThen ((uploadTripCoverPhoto t).andThen
        (.modify fun l => { l with dismissed := true })))) :=
    (Handler.emits_modify fun _ _ => trivial).andThen ((completing_updateTripID ids t).andThen
      ((completing_uploadTripCoverPhoto t).andThen (Handler.emits_modify fun _ _ => trivial)))
  exact ⟨_, rfl, (hrest l trivial).2⟩

/-! ## What stays -/

/-- The callbacks that load a trip. -/
def Callback.loads : Callback → Bool
  | .tripFetched _ => true
  | .entryFetched _ => true
  | .imageDownloaded _ _ _ _ => true
  | _ => false

/-- The callbacks of a press of the save button before the trip is written. -/
def Callback.saves : Callback → Bool
  | .imageUploaded _ _ _ _ _ => true
  | .imageURL _ _ _ _ => true
  | .entryWritten _ _ => true
  | .userFetched _ _ => true
  | _ => false

/-- The callback waits for the document of the user, to save the trip. -/
def Callback.awaitsUser : Callback → Bool
  | .userFetched _ _ => true
  | _ => false

/-- What `Stays` depends on. -/
def core (l : EditTrip) :=
  (l.user, l.currentUser, l.entryList, l.deleteList, l.heap, l.next, l.orderList, l.annotations)

/-- What all answers leave alone, apart from those that load a trip. -/
structure Stays (l l' : EditTrip) : Prop extends Keeps l l' where
  next : l'.next = l.next
  orderList : l'.orderList = l.orderList
  annotations : l'.annotations = l.annotations
  nextCount : l.nextCount ≤ l'.nextCount

section

variable {k : Callback} {ok : Bool} {a : TripID} {l l' l'' : EditTrip} {db : Firestore}
  {r : EditTrip × List Cmd}

theorem Stays.refl (l : EditTrip) : Stays l l := ⟨.refl l, rfl, rfl, rfl, le_rfl⟩

theorem stays_set {s : ℕ} {b : CustomAnnotation} (hb : b.content = (l.heap s).content) :
    Stays l (l.set s b) := ⟨keeps_set hb, rfl, rfl, rfl, le_rfl⟩

theorem stays_updateTripID (ids : List EntryID) (t : TripID) (l : EditTrip) :
    Stays l (updateTripID ids t l).1 := ⟨keeps_updateTripID ids t l, rfl, rfl, rfl, Nat.le_succ _⟩

/-- Nothing of this is changed. -/
theorem Stays.of_core (h : Stays l l') (hc : l''.core = l'.core)
    (hn : l'.nextCount ≤ l''.nextCount) : Stays l l'' := by
  simp only [core, Prod.mk.injEq] at hc
  obtain ⟨hu, hcur, he, hd, hh, hnext, ho, ha⟩ := hc
  refine ⟨⟨hu.trans h.user, hcur.trans h.currentUser, he.trans h.entryList, hd.trans h.deleteList,
    fun s => ?_⟩, hnext.trans h.next, ho.trans h.orderList, ha.trans h.annotations,
    h.nextCount.trans hn⟩
  rw [hh]
  exact h.content s

theorem Stays.trans (h : Stays l l') (h' : Stays l' l'') : Stays l l'' :=
  ⟨h.toKeeps.trans h'.toKeeps, h'.next.trans h.next, h'.orderList.trans h.orderList,
    h'.annotations.trans h.annotations, h.nextCount.trans h'.nextCount⟩

theorem stays_forEach {f : ℕ → Handler} (hf : ∀ s l, Stays l (f s l).1) (xs : List ℕ)
    (l : EditTrip) : Stays l (Handler.forEach f xs l).1 :=
  (Handler.emits_forEach (I := Stays l) (p := fun _ => True)
    (fun s _ _ h => ⟨h.trans (hf s _), fun _ _ => trivial⟩) l (.refl l)).1

theorem stays_newCount (l : EditTrip) : Stays l l.newCount :=
  (Stays.refl l).of_core rfl (Nat.le_succ _)

theorem stays_updateTripInfo (l : EditTrip) : Stays l (updateTripInfo l).1 := by
  rw [updateTripInfo_eq]
  split
  · simp only [updateTripInfoDidSet]
    split
    · split
      · exact .refl l
      · exact stays_updateTripID l.ids _ l
    · exact .refl l
  · exact .refl l

theorem stays_addEntryToFirestore (press s : ℕ) (l : EditTrip) :
    Stays l (addEntryToFirestore press s l).1 := by
  simp only [addEntryToFirestore]
  split
  · exact (Stays.refl l).of_core rfl le_rfl
  · have hset : Stays l (l.set s { l.heap s with imageUrls := [] }) := stays_set rfl
    exact hset.of_core rfl (Nat.le_succ _)

/-- What a press does that saves. -/
theorem saveButtonPressed_eq (h : l.emptyField = false) :
    saveButtonPressed l =
      (updateTripInfo.andThen ((Handler.forEach deleteEntry l.deleteList).andThen
        (Handler.forEach (addEntryToFirestore l.nextCount) l.entryList))) l.newCount := by
  simp [saveButtonPressed, h]

theorem stays_saveButtonPressed (l : EditTrip) : Stays l (saveButtonPressed l).1 := by
  simp only [saveButtonPressed]
  split
  · exact .refl l
  · have hdelete : ∀ s l, Stays l (deleteEntry s l).1 := fun _ l => .refl l
    have hinfo := (stays_newCount l).trans (stays_updateTripInfo _)
    exact (hinfo.trans (stays_forEach hdelete _ _)).trans
      (stays_forEach (stays_addEntryToFirestore _) _ _)

theorem stays_react (h : react k ok a l db = some r) (hk : k.loads = false) : Stays l r.1 := by
  have hid : Stays l l := .refl l
  cases k with
  | tripFetched t => cases hk
  | entryFetched id => cases hk
  | imageDownloaded r' c n url => cases hk
  | coverDocFetched t =>
    simp only [react] at h
    split at h
    · cases h; exact hid
    · obtain ⟨url, -, rfl⟩ := Option.map_eq_some_iff.mp h
      exact hid
  | coverDownloaded url =>
    simp only [react] at h
    split at h <;> cases h
    · exact hid
    · exact hid.of_core rfl le_rfl
  | entryCoverDownloaded r' url =>
    simp only [react] at h
    split at h <;> cases h
    · exact hid
    · exact stays_set rfl
  | usernameFetched r' uid =>
    cases h
    exact stays_set rfl
  | objectDeleted path =>
    simp only [react, Option.some.injEq] at h
    split at h <;> subst h
    · exact hid.of_core rfl le_rfl
    · exact hid
  | imageUploaded c press r' path data =>
    simp only [react, Option.some.injEq] at h
    split at h <;> subst h
    · exact hid.of_core rfl le_rfl
    · exact hid
  | imageURL c press r' path =>
    simp only [react] at h
    split at h <;> cases h
    have hset : Stays l (l.set r' { l.heap r' with
        imageUrls := (l.heap r').imageUrls ++ [⟨path⟩] }) := stays_set rfl
    have h₁ : Stays l ((l.set r' { l.heap r' with
        imageUrls := (l.heap r').imageUrls ++ [⟨path⟩] }).count c) := hset.of_core rfl le_rfl
    split
    · exact h₁.of_core rfl le_rfl
    · exact h₁
  | entryWritten press r' =>
    simp only [react, Option.some.injEq, entryWritten] at h
    split at h <;> subst h
    · exact hid.of_core rfl le_rfl
    · exact hid
  | userFetched p ids =>
    simp only [react] at h
    split at h
    · cases h; exact hid
    · split at h <;> cases h
      · exact (stays_updateTripID ids a l).of_core rfl le_rfl
      · exact hid
  | tripUpdated ids =>
    obtain ⟨t, -, rfl⟩ := Option.map_eq_some_iff.mp h
    exact (stays_updateTripID ids t l).of_core rfl le_rfl
  | tripIDUpdated c ids t =>
    simp only [react, Option.some.injEq] at h
    split at h <;> subst h
    · exact hid.of_core rfl (Nat.le_succ _)
    · exact hid.of_core rfl le_rfl
  | entryOrderUpdated c n t =>
    simp only [react, Option.some.injEq] at h
    split at h <;> subst h
    · exact hid.of_core rfl le_rfl
    · exact hid.of_core rfl le_rfl
  | tripCoverUploaded t path data =>
    simp only [react, Option.some.injEq] at h
    split at h <;> subst h
    · exact hid.of_core rfl le_rfl
    · exact hid
  | tripCoverURL t path =>
    simp only [react] at h
    split at h <;> cases h
    · exact hid.of_core rfl le_rfl
    · exact hid

/-- No answer changes the user of the screen. -/
theorem user_react (h : react k ok a l db = some r) : r.1.user = l.user := by
  cases hk : k.fills with
  | false =>
    have hloads : k.loads = false := by cases k <;> first | rfl | cases hk
    exact (stays_react h hloads).user
  | true => exact (unsaved_react h hk).user

/-- The trip of the screen changes only when its entries have been numbered. -/
theorem tripID_react (h : react k ok a l db = some r) :
    r.1.tripID = l.tripID ∨ ∃ c n t, k = .entryOrderUpdated c n t ∧ r.1.tripID = some t := by
  cases hf : k.fills with
  | true => exact Or.inl (unsaved_react h hf).tripID
  | false =>
    cases k with
    | entryOrderUpdated c n t =>
      simp only [react, Option.some.injEq] at h
      split at h <;> subst h
      · exact Or.inr ⟨c, n, t, rfl, rfl⟩
      · exact Or.inl rfl
    | imageURL c press r' path =>
      simp only [react] at h
      split at h <;> cases h
      left
      split <;> rfl
    | userFetched p ids =>
      simp only [react] at h
      split at h
      · cases h; exact Or.inl rfl
      · split at h <;> cases h <;> exact Or.inl rfl
    | tripUpdated ids =>
      obtain ⟨t, -, rfl⟩ := Option.map_eq_some_iff.mp h
      exact Or.inl rfl
    | tripCoverURL t path =>
      simp only [react] at h
      split at h <;> cases h <;> exact Or.inl rfl
    | objectDeleted path =>
      simp only [react, Option.some.injEq] at h
      split at h <;> subst h <;> exact Or.inl rfl
    | imageUploaded c press r' path data =>
      simp only [react, Option.some.injEq] at h
      split at h <;> subst h <;> exact Or.inl rfl
    | entryWritten press r' =>
      simp only [react, Option.some.injEq, entryWritten] at h
      split at h <;> subst h <;> exact Or.inl rfl
    | tripIDUpdated c ids t =>
      simp only [react, Option.some.injEq] at h
      split at h <;> subst h <;> exact Or.inl rfl
    | tripCoverUploaded t path data =>
      simp only [react, Option.some.injEq] at h
      split at h <;> subst h <;> exact Or.inl rfl
    | _ => cases hf

theorem callbacks_updateTripID {ids : List EntryID} {t : TripID} {l : EditTrip}
    (hk : k ∈ callbacks (updateTripID ids t l).2) : k = .tripIDUpdated l.nextCount ids t :=
  Multiset.eq_of_mem_replicate (callbacks_updateTripID_eq ids t l ▸ hk)

theorem callbacks_updateEntryOrder {ids : List EntryID} {t : TripID} {l : EditTrip}
    (hk : k ∈ callbacks (updateEntryOrder ids t l).2) :
    k = .entryOrderUpdated l.nextCount ids.length t :=
  Multiset.eq_of_mem_replicate (callbacks_updateEntryOrder_eq ids t l ▸ hk)

theorem callbacks_uploadTripCoverPhoto {t : TripID} {l : EditTrip}
    (hk : k ∈ callbacks (uploadTripCoverPhoto t l).2) :
    ∃ path data, k = .tripCoverUploaded t path data := by
  obtain ⟨c, hc, hck⟩ := mem_callbacks.mp hk
  simp only [uploadTripCoverPhoto, Handler.issue_apply] at hc
  split at hc
  · cases hc
  · rw [List.mem_singleton.mp hc] at hck
    cases hck
    exact ⟨_, _, rfl⟩

theorem callbacks_addToFirebase (press s : ℕ) (l : EditTrip) :
    callbacks (addToFirebase press s l).2 = {.entryWritten press s} := by
  rw [addToFirebase, callbacks_write_some, callbacks_map_write]
  rfl

theorem callbacks_updateTripInfo {l : EditTrip} (hk : k ∈ callbacks (updateTripInfo l).2) :
    (∃ t path data, k = .tripCoverUploaded t path data) ∨
      ∃ c ids t, k = .tripIDUpdated c ids t := by
  rw [updateTripInfo_eq] at hk
  simp only [updateTripInfoDidSet] at hk
  split at hk
  · split at hk
    · split at hk
      · simp at hk
      · rename_i t _
        simp only [Handler.andThen_apply, Handler.issue_apply, callbacks_append, callbacks_write,
          callbacks_nil, zero_add, Multiset.mem_add] at hk
        rcases hk with hk | hk
        · exact Or.inl ⟨t, callbacks_uploadTripCoverPhoto hk⟩
        · exact Or.inr ⟨_, _, _, callbacks_updateTripID hk⟩
    · simp at hk
  · simp at hk

theorem not_saves_deleteEntry (s : ℕ) (l : EditTrip) :
    ∀ k ∈ callbacks (deleteEntry s l).2, k.saves = false := by
  intro k hk
  obtain ⟨path, rfl⟩ := callbacks_deleteEntry hk
  rfl

/-- The early pass makes none. -/
theorem not_saves_updateTripInfo (l : EditTrip) :
    ∀ k ∈ callbacks (updateTripInfo l).2, k.saves = false := by
  intro k hk
  rcases callbacks_updateTripInfo hk with ⟨t, path, data, rfl⟩ | ⟨c, ids, t, rfl⟩ <;> rfl

/-- Which callbacks the code of a callback puts on their way. -/
inductive Callback.Leads (l : EditTrip) : Callback → Callback → Prop
  | coverDocFetched (t : TripID) (url : URL) : Leads l (.coverDocFetched t) (.coverDownloaded url)
  | tripFetched (t : TripID) (id : EntryID) : Leads l (.tripFetched t) (.entryFetched id)
  | entryFetched (id : EntryID) (r : ℕ) (url : URL) :
      Leads l (.entryFetched id) (.entryCoverDownloaded r url)
  | imageFetched (id : EntryID) (r c n : ℕ) (url : URL) :
      Leads l (.entryFetched id) (.imageDownloaded r c n url)
  | imageUploaded (c p r : ℕ) (path data : String) :
      Leads l (.imageUploaded c p r path data) (.imageURL c p r path)
  | imageURL (c p r : ℕ) (path : String) : Leads l (.imageURL c p r path) (.entryWritten p r)
  | entryWritten (p r : ℕ) : Leads l (.entryWritten p r) (.userFetched p l.ids)
  | tripWritten (p : ℕ) (ids : List EntryID) : Leads l (.userFetched p ids) (.tripUpdated ids)
  | userFetched (p : ℕ) (ids : List EntryID) (c : ℕ) (t : TripID) :
      Leads l (.userFetched p ids) (.tripIDUpdated c ids t)
  | createdCover (p : ℕ) (ids : List EntryID) (t : TripID) (path data : String) :
      Leads l (.userFetched p ids) (.tripCoverUploaded t path data)
  | tripUpdated (ids : List EntryID) (c : ℕ) (t : TripID) :
      Leads l (.tripUpdated ids) (.tripIDUpdated c ids t)
  | updatedCover (ids : List EntryID) (t : TripID) (path data : String) :
      Leads l (.tripUpdated ids) (.tripCoverUploaded t path data)
  | tripIDUpdated (c : ℕ) (ids : List EntryID) (t : TripID) (c' : ℕ) :
      Leads l (.tripIDUpdated c ids t) (.entryOrderUpdated c' ids.length t)
  | tripCoverUploaded (t : TripID) (path data : String) :
      Leads l (.tripCoverUploaded t path data) (.tripCoverURL t path)

/-- The callbacks that the code for an answer puts on their way. -/
theorem leads_react (h : react k ok a l db = some r) : ∀ k' ∈ callbacks r.2, k.Leads l k' := by
  intro k' hk'
  cases k with
  | coverDocFetched t =>
    simp only [react] at h
    split at h
    · cases h; simp at hk'
    · obtain ⟨url, -, rfl⟩ := Option.map_eq_some_iff.mp h
      rw [callbacks_request, callbacks_nil, Multiset.cons_zero, Multiset.mem_singleton] at hk'
      exact hk' ▸ .coverDocFetched t url
  | tripFetched t =>
    simp only [react] at h
    split at h <;> cases h
    · simp at hk'
    · rw [loadEntryData, callbacks_map_request, Multiset.mem_coe] at hk'
      obtain ⟨id, -, rfl⟩ := List.mem_map.mp hk'
      exact .tripFetched t id
  | entryFetched id =>
    simp only [react, entryFetched] at h
    split at h
    · cases h; simp at hk'
    · split at h <;> cases h
      rw [callbacks_request, callbacks_map_request] at hk'
      rcases Multiset.mem_cons.mp hk' with rfl | hk'
      · exact .entryFetched id _ _
      · obtain ⟨url, -, rfl⟩ := List.mem_map.mp (Multiset.mem_coe.mp hk')
        exact .imageFetched id _ _ _ url
  | imageUploaded c press r' path data =>
    cases h
    rw [callbacks_request, callbacks_nil, Multiset.cons_zero, Multiset.mem_singleton] at hk'
    exact hk' ▸ .imageUploaded c press r' path data
  | imageURL c press r' path =>
    simp only [react] at h
    split at h <;> cases h
    split at hk'
    · rw [callbacks_addToFirebase, Multiset.mem_singleton] at hk'
      exact hk' ▸ .imageURL c press r' path
    · simp at hk'
  | entryWritten press r' =>
    simp only [react, Option.some.injEq, entryWritten] at h
    split at h <;> subst h
    · dsimp only at hk'
      split at hk'
      · rw [callbacks_request, callbacks_nil, Multiset.cons_zero, Multiset.mem_singleton] at hk'
        exact hk' ▸ .entryWritten press r'
      · simp at hk'
    · simp at hk'
  | userFetched p ids =>
    simp only [react] at h
    split at h
    · cases h; simp at hk'
    · split at h <;> cases h
      · simp only [createTrip, Handler.andThen_apply, Handler.issue_apply, Handler.modify_apply,
          callbacks_append, callbacks_write, callbacks_nil, zero_add, add_zero,
          Multiset.mem_add] at hk'
        rcases hk' with hk' | hk'
        · exact callbacks_updateTripID hk' ▸ .userFetched p ids _ a
        · obtain ⟨path, data, rfl⟩ := callbacks_uploadTripCoverPhoto hk'
          exact .createdCover p ids a path data
      · rename_i t _
        rw [updateTrip, Handler.issue_apply, callbacks_write_some, callbacks_nil,
          Multiset.cons_zero, Multiset.mem_singleton] at hk'
        exact hk' ▸ .tripWritten p ids
  | tripUpdated ids =>
    obtain ⟨t, -, rfl⟩ := Option.map_eq_some_iff.mp h
    simp only [Handler.andThen_apply, Handler.modify_apply, callbacks_append, callbacks_nil,
      add_zero, Multiset.mem_add] at hk'
    rcases hk' with hk' | hk'
    · obtain ⟨path, data, rfl⟩ := callbacks_uploadTripCoverPhoto hk'
      exact .updatedCover ids t path data
    · exact callbacks_updateTripID hk' ▸ .tripUpdated ids _ t
  | tripIDUpdated c ids t =>
    simp only [react, Option.some.injEq] at h
    split at h <;> subst h
    · exact callbacks_updateEntryOrder hk' ▸ .tripIDUpdated c ids t _
    · simp at hk'
  | tripCoverUploaded t path data =>
    cases h
    rw [callbacks_request, callbacks_nil, Multiset.cons_zero, Multiset.mem_singleton] at hk'
    exact hk' ▸ .tripCoverUploaded t path data
  | tripCoverURL t path =>
    simp only [react] at h
    split at h <;> cases h <;> simp at hk'
  | coverDownloaded url =>
    simp only [react] at h
    split at h <;> cases h <;> simp at hk'
  | entryCoverDownloaded r' url =>
    simp only [react] at h
    split at h <;> cases h <;> simp at hk'
  | imageDownloaded r' c n url =>
    simp only [react] at h
    split at h <;> cases h <;> simp at hk'
  | _ =>
    cases h
    simp at hk'

/-- Only callbacks of a save make more of them. -/
theorem not_saves_react (h : react k ok a l db = some r) (hk : k.saves = false) :
    ∀ k' ∈ callbacks r.2, k'.saves = false := by
  intro k' hk'
  cases leads_react h k' hk' <;> first | rfl | cases hk

/-- The code that is given the user document makes none either. -/
theorem not_saves_userFetched {p : ℕ} {ids : List EntryID}
    (h : react (.userFetched p ids) ok a l db = some r) :
    ∀ k' ∈ callbacks r.2, k'.saves = false := by
  intro k' hk'
  cases leads_react h k' hk' <;> rfl

/-- Only callbacks that load a trip make more of them. -/
theorem not_loads_react (h : react k ok a l db = some r) (hk : k.loads = false) :
    ∀ k' ∈ callbacks r.2, k'.loads = false := by
  intro k' hk'
  cases leads_react h k' hk' <;> first | rfl | cases hk

theorem callbacks_event {e : Event} (h : event e l db = some r) (he : e.presses = false) :
    ∀ k ∈ callbacks r.2, (∃ t, k = .coverDocFetched t) ∨ (∃ t, k = .tripFetched t) ∨
      ∃ s uid, k = .usernameFetched s uid := by
  intro k hk
  obtain ⟨c, hc, hck⟩ := mem_callbacks.mp hk
  rcases asks_event h he c hc with ⟨t, -, rfl | rfl⟩ | ⟨s, uid, rfl⟩ <;> cases hck
  · exact Or.inl ⟨t, rfl⟩
  · exact Or.inr (Or.inl ⟨t, rfl⟩)
  · exact Or.inr (Or.inr ⟨s, uid, rfl⟩)

theorem not_saves_event {e : Event} (h : event e l db = some r) (he : e.presses = false) :
    ∀ k ∈ callbacks r.2, k.saves = false := by
  intro k hk
  rcases callbacks_event h he k hk with ⟨t, rfl⟩ | ⟨t, rfl⟩ | ⟨s, uid, rfl⟩ <;> rfl

end

end EditTrip

end Wanderlust
