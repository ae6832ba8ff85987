import Wanderlust.Foundations.Runs
import Wanderlust.Trips.Commands
import Wanderlust.Trips.NothingLost

/-!
# Saves on many screens

Any number of edit screens of any users on one database, with all their writes and uploads on
their way, in any order and with any failures. A screen that has come to rest may be opened anew.
-/

namespace Wanderlust

open Async Runs

namespace EditTrip

variable {ι : Type} [DecidableEq ι]

/-- The database with the screens. -/
abbrev Screens (ι : Type) := Shared ι Firestore EditTrip Write Callback

/-- What happens to a screen. -/
inductive Act
  | step (lbl : Label TripID Event)
  | opened (currentUser : User) (tripID : Option TripID) (bucket : Bucket) (now : Timestamp)

/-- The trip of a screen, if it is not that of a new trip, is there. -/
def TripExists (db : Firestore) (t? : Option TripID) : Prop := ∀ t ∈ t?, t ∈ db.trips

instance (db : Firestore) (t? : Option TripID) : Decidable (TripExists db t?) :=
  inferInstanceAs (Decidable (∀ t ∈ t?, t ∈ db.trips))

/-- Something happens to one of the screens. -/
def Screens.act (n : Screens ι) : ι × Act → Option (Screens ι)
  | (i, .step lbl) => (program.step lbl (n.state i)).map (n.put i)
  | (i, .opened currentUser tripID bucket now) =>
    if Quiescent (n.state i) ∧ TripExists n.store tripID then
      some (n.put i (start n.store (EditTrip.opened currentUser tripID bucket now)))
    else none

/-- All screens have just been opened. -/
def Screens.Opened (n : Screens ι) : Prop :=
  ∀ i, ∃ currentUser tripID bucket now, TripExists n.store tripID ∧
    n.state i = start n.store (EditTrip.opened currentUser tripID bucket now)

/-- What happens to the screens one after the other. -/
abbrev IsScreensRun (n : Screens ι) (tr : List ((ι × Act) × Screens ι)) : Prop :=
  IsRun (fun n x n' => Screens.act n x = some n') n tr

/-- **The rule for screens**: what holds of a screen with the database when it is opened, and is
kept by its own steps and by those of the other screens, holds of all screens all the time. -/
theorem IsScreensRun.invariant {I : State Firestore EditTrip Write Callback → Prop}
    {cond : Screens ι → ι × Act → Prop} {n : Screens ι} {tr : List ((ι × Act) × Screens ι)}
    (hopened : ∀ st u t? b now, I st → TripExists st.store t? →
      I (start st.store (EditTrip.opened u t? b now)))
    (hstep : ∀ n i lbl st', (∀ j, I (n.state j)) → cond n (i, .step lbl) →
      program.step lbl (n.state i) = some st' →
      I st' ∧ ∀ j, I { n.state j with store := st'.store })
    (h : IsScreensRun n tr) (hn : ∀ i, I (n.state i)) (hc : Meets cond n tr) :
    ∀ x ∈ tr, ∀ i, I (x.2.state i) := by
  refine IsRun.invariant (I := fun n : Screens ι => ∀ i, I (n.state i)) ?_ h hn hc
  rintro n ⟨i, a⟩ n' hn hact hc
  have hput : ∀ st, I st → (∀ j, I { n.state j with store := st.store }) →
      ∀ j, I ((n.put i st).state j) := by
    intro st hst hother j
    by_cases hj : j = i
    · subst hj
      rwa [state_put_self]
    · rw [state_put_ne hj]
      exact hother j
  cases a with
  | step lbl =>
    obtain ⟨st', hst', rfl⟩ := Option.map_eq_some_iff.mp hact
    obtain ⟨hst, hother⟩ := hstep n i lbl st' hn hc hst'
    exact hput st' hst hother
  | opened u t? b now =>
    simp only [Screens.act] at hact
    split at hact
    · rename_i hq
      cases hact
      exact hput _ (hopened _ u t? b now (hn i) hq.2) hn
    · cases hact

/-! ## Trips that are listed -/

/-- The document of a trip decodes as `Trip`: all the other fields are always there. -/
def Decodes (d : TripDoc) : Prop := d.coverPhoto.isSome

/-- Every trip that is listed can be shown. -/
def ListedDecode (db : Firestore) : Prop :=
  ∀ u d, db.users.lookup u = some d → ∀ t ∈ d.trips,
    ∃ trip, db.trips.lookup t = some trip ∧ Decodes trip

/-- The document of the user, which a save waits for, arrives on the screen of a trip only: the
code that creates a trip is not run. -/
def savesTrip (n : Screens ι) : ι × Act → Prop
  | (i, .step (.deliver j true _)) =>
    ∀ x ∈ (n.state i).ready[j]?, x.1.awaitsUser = true → (n.state i).loc.tripID ≠ none
  | _ => True

instance (n : Screens ι) : DecidablePred (savesTrip n)
  | (i, .step (.deliver j true _)) => inferInstanceAs (Decidable (∀ x ∈ (n.state i).ready[j]?,
      x.1.awaitsUser = true → (n.state i).loc.tripID ≠ none))
  | (_, .step (.deliver _ false _)) => isTrue trivial
  | (_, .step (.event _)) => isTrue trivial
  | (_, .step .apply) => isTrue trivial
  | (_, .step .reject) => isTrue trivial
  | (_, .opened _ _ _ _) => isTrue trivial

theorem ListedDecode.routine {db : Firestore} (h : ListedDecode db) {w : Write} (hw : Routine w) :
    ListedDecode (w.apply db) := by
  have hmodify : ∀ t (f : TripDoc → TripDoc), (∀ d, Decodes d → Decodes (f d)) →
      ListedDecode { db with trips := db.trips.modify t f } := by
    intro t f hf u d hd t' ht'
    obtain ⟨trip, htrip, hdec⟩ := h u d hd t' ht'
    by_cases htt : t' = t
    · subst htt
      exact ⟨f trip, by simp [htrip], hf trip hdec⟩
    · exact ⟨trip, (Collection.lookup_modify_ne htt _ _).trans htrip, hdec⟩
  cases hw with
  | updates hw =>
    cases hw with
    | entries t name ids => exact hmodify t _ fun d hd => hd
    | completing hw =>
      cases hw with
      | cover t url => exact hmodify t _ fun d _ => rfl
      | _ => exact h
  | _ => exact h

omit [DecidableEq ι] in
/-- Without new trips, all writes are routine. -/
theorem writes_savesTrip {n : Screens ι} {i : ι} {lbl : Label TripID Event}
    (hc : savesTrip n (i, .step lbl)) {r : EditTrip × List Cmd}
    (hr : program.Runs (n.state i) lbl r) : ∀ c ∈ r.2, c.Writes Routine := by
  cases hr with
  | event he => exact writes_event he
  | @deliver j ok a k o r hi ho hr =>
    rcases writes_react hr with hw | ⟨p, ids, userData, rfl, rfl, -, ht, -⟩
    · exact hw
    · exact absurd ht (hc _ hi rfl)

/-- **While no trip is created, every trip that is listed can be shown.** -/
theorem listed_decode {n : Screens ι} (hopened : n.Opened) (hn : ListedDecode n.store)
    {tr : List ((ι × Act) × Screens ι)} (hrun : IsScreensRun n tr) (hc : Meets savesTrip n tr) :
    ∀ x ∈ tr, ListedDecode x.2.store := by
  have hinv : ∀ x ∈ tr, ∀ i, ListedDecode (x.2.state i).store ∧
      ∀ w ∈ (x.2.state i).queue, Routine w.1 := by
    refine hrun.invariant (I := fun st => ListedDecode st.store ∧ ∀ w ∈ st.queue, Routine w.1)
      (fun st u t? b now hst _ => ⟨hst.1, by simp [start]⟩) (fun n i lbl st' hn hc hst' => ?_)
      (fun i => ?_) hc
    · have hst := step_writes (G := ListedDecode) (Q := Routine)
        (fun w hw db hdb => hdb.routine hw) (hn i).1 (hn i).2 (fun r hr => writes_savesTrip hc hr)
        hst'
      exact ⟨hst, fun j => ⟨hst.1, (hn j).2⟩⟩
    · obtain ⟨u, t?, b, now, -, hi⟩ := hopened i
      rw [hi]
      exact ⟨hn, by simp [start]⟩
  exact fun x hx => (hinv x hx x.1.1).1

/-! ### Two runs -/

/-- The screen of the trip, alone. -/
def sampleScreens : Screens Unit := ⟨tripStore, fun _ => ⟨tripScreen.loc, [], []⟩⟩

/-- The screen of a new trip, alone. -/
def sampleNewScreens : Screens Unit :=
  ⟨sampleDatabase, fun _ => ⟨EditTrip.opened sampleUser none ∅ 0, [], []⟩⟩

/-- The steps of a screen, with the save button pressed between the two lists. -/
def sampleActs (edits answers : List (Label TripID Event)) : List (Unit × Act) :=
  (edits ++ .event .saveButtonPressed :: answers).map fun lbl => ((), .step lbl)

theorem opened_sampleScreens : sampleScreens.Opened :=
  fun _ => ⟨_, some "t", _, _, by decide, rfl⟩

theorem opened_sampleNewScreens : sampleNewScreens.Opened :=
  fun _ => ⟨sampleUser, none, ∅, 0, by simp [TripExists], rfl⟩

theorem listedDecode_of_docs {db : Firestore} (h : ∀ x ∈ db.users.docs, ∀ t ∈ x.2.trips,
    ∃ trip ∈ db.trips.lookup t, trip.coverPhoto.isSome) : ListedDecode db :=
  fun u d hd t ht => h (u, d) (Collection.mem_docs.mpr hd) t ht

/-- A trip is saved that has a cover, and can be shown all the time. -/
theorem listed_decode_sample : ∃ tr,
    IsScreensRun sampleScreens tr ∧ tr.length = 43 ∧ ∀ x ∈ tr, ListedDecode x.2.store := by
  obtain ⟨tr, htr⟩ := Option.isSome_iff_exists.mp (by decide +kernel :
    (play Screens.act (sampleActs sampleCarefulEdits sampleCarefulAnswers) sampleScreens).isSome)
  have hmeets : ∀ tr ∈ play Screens.act (sampleActs sampleCarefulEdits sampleCarefulAnswers)
      sampleScreens, tr.length = 43 ∧ Meets savesTrip sampleScreens tr := by decide +kernel
  obtain ⟨hlen, hc⟩ := hmeets tr htr
  have hdb : ListedDecode sampleScreens.store := listedDecode_of_docs (by decide +kernel)
  exact ⟨tr, isRun_of_play htr, hlen,
    listed_decode opened_sampleScreens hdb (isRun_of_play htr) hc⟩

/-- A new trip is saved, and listed before it has a cover. -/
theorem listed_without_cover : ∃ (n : Screens Unit) (tr : List ((Unit × Act) × Screens Unit)),
    n.Opened ∧ ListedDecode n.store ∧ IsScreensRun n tr ∧ ∃ x ∈ tr, ¬ ListedDecode x.2.store := by
  obtain ⟨tr, htr⟩ := Option.isSome_iff_exists.mp (by decide +kernel :
    (play Screens.act (sampleActs sampleEdits sampleAnswers) sampleNewScreens).isSome)
  have hbad : ∀ tr ∈ play Screens.act (sampleActs sampleEdits sampleAnswers) sampleNewScreens,
      ∃ x ∈ tr, (x.2.store.users.lookup "ann").map (fun d => d.trips) = some ["t"] ∧
        (x.2.store.trips.lookup "t").map (fun d => d.coverPhoto) = some none := by decide +kernel
  have hdb : ListedDecode sampleNewScreens.store := listedDecode_of_docs (by decide +kernel)
  obtain ⟨x, hx, hlisted, hcover⟩ := hbad tr htr
  refine ⟨sampleNewScreens, tr, opened_sampleNewScreens, hdb, isRun_of_play htr, x, hx, fun h => ?_⟩
  obtain ⟨d, hd, htrips⟩ := Option.map_eq_some_iff.mp hlisted
  obtain ⟨trip, htrip, hdec⟩ := h "ann" d hd "t" (by simp [htrips])
  rw [htrip, Option.map_some, Option.some.injEq] at hcover
  simp [Decodes, hcover] at hdec

/-! ## Entries that are published -/

section

variable (T : Set TripID)

/-- Linked to a trip that there is. -/
def IsLinked (t? : Option TripID) : Prop := ∃ t ∈ T, t? = some t

/-- The trips are those of `T`, and every entry is linked to one of them. -/
structure AllLinked (db : Firestore) : Prop where
  trips : ∀ t, t ∈ db.trips ↔ t ∈ T
  entries : ∀ id e, db.entries.lookup id = some e → IsLinked T e.tripID

/-- The writes that keep the entries linked. -/
def KeepsLinks : Write → Prop
  | .setEntry _ doc => IsLinked T doc.tripID
  | .updateEntry _ f => ∀ e, (f e).tripID = e.tripID ∨ IsLinked T (f e).tripID
  | .addTrip _ _ => False
  | .deleteTrip _ => False
  | _ => True

/-- The trip of the screen and those of its annotations are there, and the annotations that are
listed have been made. -/
structure LinkedLoc (l : EditTrip) : Prop where
  tripID : ∀ t, l.tripID = some t → t ∈ T
  heap : ∀ r t, (l.heap r).tripID = some t → t ∈ T
  entryList : ∀ r ∈ l.entryList, r < l.next
  temp : ∀ r ∈ l.tempAnnotations, r < l.next
  rows : ∀ rows, l.orderList = some rows → ∀ r ∈ rows, r < l.next

/-- A callback of a save is that of a screen with a trip, and the annotation that it writes is
linked. -/
def LinkedCallback (l : EditTrip) : Callback → Prop
  | .imageDownloaded r _ _ _ => r < l.next
  | .imageUploaded _ _ r _ _ => r < l.next ∧ (l.heap r).tripID ≠ none ∧ l.tripID ≠ none
  | .imageURL _ _ r _ => r < l.next ∧ (l.heap r).tripID ≠ none ∧ l.tripID ≠ none
  | .entryWritten _ _ => l.tripID ≠ none
  | .userFetched _ _ => l.tripID ≠ none
  | .tripUpdated _ => l.tripID ≠ none
  | .tripIDUpdated _ _ t => t ∈ T
  | .entryOrderUpdated _ _ t => t ∈ T
  | _ => True

def LinkedCmd (l : EditTrip) (c : Cmd) : Prop :=
  c.Writes (KeepsLinks T) ∧ ∀ k, c.callback = some k → LinkedCallback T l k

/-- A screen with the database. -/
structure LinkedScreen (st : State Firestore EditTrip Write Callback) : Prop where
  store : AllLinked T st.store
  loc : LinkedLoc T st.loc
  queue : ∀ x ∈ st.queue, KeepsLinks T x.1 ∧ ∀ k, x.2 = some k → LinkedCallback T st.loc k
  ready : ∀ x ∈ st.ready, LinkedCallback T st.loc x.1

end

/-- What code never takes back. -/
structure Grows (l l' : EditTrip) : Prop where
  next : l.next ≤ l'.next
  heap : ∀ r < l.next, (l.heap r).tripID ≠ none → (l'.heap r).tripID ≠ none
  tripID : l.tripID ≠ none → l'.tripID ≠ none

/-- Save is pressed, when that saves, on the screen of a trip only, and there either all
annotations that are listed are linked already, or the early pass links them. -/
def SavesLinked (l : EditTrip) : Prop :=
  l.emptyField = true ∨ l.tripID ≠ none ∧
    (l.UpdatesTripInfo ∨ ∀ r ∈ l.entryList, (l.heap r).tripID ≠ none)

instance (l : EditTrip) : Decidable l.SavesLinked := inferInstanceAs (Decidable (_ ∨ _ ∧ (_ ∨ _)))

/-- The condition on the steps. -/
def savesLinked (n : Screens ι) : ι × Act → Prop
  | (i, .step (.event e)) => e.presses = true → (n.state i).loc.SavesLinked
  | _ => True

instance (n : Screens ι) : DecidablePred (savesLinked n)
  | (i, .step (.event e)) =>
    inferInstanceAs (Decidable (e.presses = true → (n.state i).loc.SavesLinked))
  | (_, .step (.deliver _ _ _)) => isTrue trivial
  | (_, .step .apply) => isTrue trivial
  | (_, .step .reject) => isTrue trivial
  | (_, .opened _ _ _ _) => isTrue trivial

section

variable {T : Set TripID} {db : Firestore} {l l' l'' : EditTrip} {r : EditTrip × List Cmd}

theorem AllLinked.keeps (h : AllLinked T db) {w : Write} (hw : KeepsLinks T w) :
    AllLinked T (w.apply db) := by
  cases w with
  | setEntry id doc =>
    refine ⟨h.trips, fun id' e he => ?_⟩
    by_cases hid : id' = id
    · subst hid
      rw [Write.apply, AList.lookup_insert, Option.some.injEq] at he
      exact he ▸ hw
    · rw [Write.apply, AList.lookup_insert_ne hid] at he
      exact h.entries id' e he
  | updateEntry id f =>
    refine ⟨h.trips, fun id' e he => ?_⟩
    by_cases hid : id' = id
    · subst hid
      rw [Write.apply, Collection.lookup_modify, Option.map_eq_some_iff] at he
      obtain ⟨e₀, he₀, rfl⟩ := he
      rcases hw e₀ with heq | hl
      · rw [heq]
        exact h.entries id' e₀ he₀
      · exact hl
    · rw [Write.apply, Collection.lookup_modify_ne hid] at he
      exact h.entries id' e he
  | deleteEntry id =>
    refine ⟨h.trips, fun id' e he => ?_⟩
    by_cases hid : id' = id
    · subst hid
      simp at he
    · rw [Write.apply, AList.lookup_erase_ne hid] at he
      exact h.entries id' e he
  | updateTrip t f =>
    refine ⟨fun t' => ?_, h.entries⟩
    rw [← h.trips t', ← AList.lookup_isSome, ← AList.lookup_isSome, Write.apply]
    by_cases ht : t' = t
    · subst ht
      simp
    · rw [Collection.lookup_modify_ne ht]
  | addTrip t doc => exact hw.elim
  | deleteTrip t => exact hw.elim
  | _ => exact ⟨h.trips, h.entries⟩

theorem AllLinked.view {st : State Firestore EditTrip Write Callback}
    (h : AllLinked T st.store) (hq : ∀ x ∈ st.queue, KeepsLinks T x.1) :
    AllLinked T (program.view st) := by
  obtain ⟨store, loc, queue, ready⟩ := st
  simp only [Program.view] at hq ⊢
  induction queue generalizing store with
  | nil => exact h
  | cons x queue ih =>
    exact ih _ (h.keeps (hq x List.mem_cons_self)) fun y hy => hq y (List.mem_cons_of_mem _ hy)

theorem Grows.refl (l : EditTrip) : Grows l l := ⟨le_rfl, fun _ _ h => h, fun h => h⟩

/-- Only what links do not depend on is changed. -/
theorem Grows.of_eq (hn : l'.next = l.next) (hh : l'.heap = l.heap) (ht : l'.tripID = l.tripID) :
    Grows l l' :=
  ⟨hn.ge, fun _ _ h => hh ▸ h, fun h => ht ▸ h⟩

theorem Grows.trans (h : Grows l l') (h' : Grows l' l'') : Grows l l'' where
  next := h.next.trans h'.next
  heap r hr ht := h'.heap r (hr.trans_le h.next) (h.heap r hr ht)
  tripID ht := h'.tripID (h.tripID ht)

theorem LinkedCallback.grows {k : Callback} (h : LinkedCallback T l k) (hg : Grows l l') :
    LinkedCallback T l' k := by
  cases k with
  | imageDownloaded r c n url => exact lt_of_lt_of_le h hg.next
  | imageUploaded c p r path data =>
    exact ⟨h.1.trans_le hg.next, hg.heap r h.1 h.2.1, hg.tripID h.2.2⟩
  | imageURL c p r path => exact ⟨h.1.trans_le hg.next, hg.heap r h.1 h.2.1, hg.tripID h.2.2⟩
  | entryWritten p r => exact hg.tripID h
  | userFetched p ids => exact hg.tripID h
  | tripUpdated ids => exact hg.tripID h
  | _ => exact h

theorem linkedCmd_request {k : Callback} (h : LinkedCallback T l k) :
    LinkedCmd T l (.request k) := by
  refine ⟨trivial, fun k' hk' => ?_⟩
  cases hk'
  exact h

theorem linkedCmd_write {w : Write} (h : KeepsLinks T w) : LinkedCmd T l (.write w none) :=
  ⟨h, fun _ hk => by cases hk⟩

theorem linkedCmd_write_some {w : Write} {k : Callback} (h : KeepsLinks T w)
    (hk : LinkedCallback T l k) : LinkedCmd T l (.write w (some k)) := by
  refine ⟨h, fun k' hk' => ?_⟩
  cases hk'
  exact hk

/-- Changing an annotation, but not its trip. -/
theorem LinkedLoc.set (h : LinkedLoc T l) {r : ℕ} {a : CustomAnnotation}
    (ha : a.tripID = (l.heap r).tripID) : LinkedLoc T (l.set r a) where
  tripID := h.tripID
  heap r' t ht := by
    by_cases hr : r' = r
    · subst hr
      rw [heap_set_self, ha] at ht
      exact h.heap r' t ht
    · rw [heap_set_ne hr] at ht
      exact h.heap r' t ht
  entryList := h.entryList
  temp := h.temp
  rows := h.rows

theorem grows_set {r : ℕ} {a : CustomAnnotation} (ha : a.tripID = (l.heap r).tripID) :
    Grows l (l.set r a) where
  next := le_rfl
  heap r' _ ht := by
    by_cases hr : r' = r
    · subst hr
      rw [heap_set_self, ha]
      exact ht
    · rwa [heap_set_ne hr]
  tripID h := h

/-- A new annotation. -/
theorem LinkedLoc.alloc (h : LinkedLoc T l) {a : CustomAnnotation}
    (ha : ∀ t, a.tripID = some t → t ∈ T) :
    LinkedLoc T { l.set l.next a with next := l.next + 1 } where
  tripID := h.tripID
  heap r' t ht := by
    change ((l.set l.next a).heap r').tripID = some t at ht
    by_cases hr : r' = l.next
    · subst hr
      rw [heap_set_self] at ht
      exact ha t ht
    · rw [heap_set_ne hr] at ht
      exact h.heap r' t ht
  entryList r hr := Nat.lt_succ_of_lt (h.entryList r hr)
  temp r hr := Nat.lt_succ_of_lt (h.temp r hr)
  rows rows hrows r hr := Nat.lt_succ_of_lt (h.rows rows hrows r hr)

theorem grows_alloc (l : EditTrip) (a : CustomAnnotation) :
    Grows l { l.set l.next a with next := l.next + 1 } where
  next := Nat.le_succ _
  heap r' hr ht := by
    change ((l.set l.next a).heap r').tripID ≠ none
    rwa [heap_set_ne hr.ne]
  tripID h := h

/-! ### The code of a save -/

theorem linked_updateEntryOrder {t : TripID} (ht : t ∈ T) (ids : List EntryID) (l : EditTrip) :
    ∀ c ∈ (updateEntryOrder ids t l).2, ∀ l', LinkedCmd T l' c := by
  intro c hc l'
  obtain ⟨i, hi, rfl⟩ := List.mem_mapIdx.mp hc
  exact linkedCmd_write_some (fun e => Or.inl rfl) ht

theorem linked_updateTripID {t : TripID} (ht : t ∈ T) (ids : List EntryID) (l : EditTrip) :
    ∀ c ∈ (updateTripID ids t l).2, ∀ l', LinkedCmd T l' c := by
  intro c hc l'
  obtain ⟨id, hid, rfl⟩ := List.mem_map.mp hc
  exact linkedCmd_write_some (fun e => Or.inr ⟨t, ht, rfl⟩) ht

theorem LinkedLoc.updateTripID (h : LinkedLoc T l) {t : TripID} (ht : t ∈ T)
    (ids : List EntryID) : LinkedLoc T (EditTrip.updateTripID ids t l).1 where
  tripID := h.tripID
  heap r t' ht' := by
    simp only [EditTrip.updateTripID] at ht'
    split at ht'
    · cases ht'
      exact ht
    · exact h.heap r t' ht'
  entryList := h.entryList
  temp := h.temp
  rows := h.rows

theorem grows_updateTripID (ids : List EntryID) (t : TripID) (l : EditTrip) :
    Grows l (EditTrip.updateTripID ids t l).1 where
  next := le_rfl
  heap r _ ht := by
    simp only [EditTrip.updateTripID]
    split
    · simp
    · exact ht
  tripID h := h

theorem linked_uploadTripCoverPhoto (t : TripID) (l : EditTrip) :
    ∀ c ∈ (uploadTripCoverPhoto t l).2, ∀ l', LinkedCmd T l' c := by
  intro c hc l'
  simp only [uploadTripCoverPhoto, Handler.issue_apply] at hc
  split at hc
  · cases hc
  · rw [List.mem_singleton.mp hc]
    exact linkedCmd_request trivial

/-- Writing an entry whose annotation is linked. -/
theorem linked_addToFirebase (h : LinkedLoc T l) {r : ℕ} (hr : (l.heap r).tripID ≠ none)
    (press : ℕ) : ∀ c ∈ (addToFirebase press r l).2, ∀ l', l'.tripID ≠ none → LinkedCmd T l' c := by
  intro c hc l' hl'
  rcases List.mem_cons.mp hc with rfl | hc
  · obtain ⟨t, ht⟩ := Option.ne_none_iff_exists'.mp hr
    exact linkedCmd_write_some ⟨t, h.heap r t ht, ht⟩ hl'
  · obtain ⟨u, _, rfl⟩ := List.mem_map.mp hc
    exact linkedCmd_write trivial

/-- The screen `l`, while the code of a save runs on it, with all listed annotations linked. -/
structure SavingLinked (T : Set TripID) (l l' : EditTrip) : Prop extends LinkedLoc T l' where
  grows : Grows l l'
  listed : l'.entryList = l.entryList
  ofTrip : l'.tripID ≠ none
  linked : ∀ r ∈ l.entryList, (l'.heap r).tripID ≠ none

theorem SavingLinked.uploads {l₁ : EditTrip} (h : SavingLinked T l l₁) {r : ℕ}
    (hr : r ∈ l.entryList) (c press : ℕ) (path data : String) :
    LinkedCallback T l₁ (.imageUploaded c press r path data) :=
  ⟨h.entryList r (h.listed ▸ hr), h.linked r hr, h.ofTrip⟩

theorem savingLinked_updateTripInfo (h : LinkedLoc T l) (ht : l.tripID ≠ none)
    (hl : l.UpdatesTripInfo ∨ ∀ r ∈ l.entryList, (l.heap r).tripID ≠ none) :
    SavingLinked T l (updateTripInfo l).1 ∧
      ∀ c ∈ (updateTripInfo l).2, ∀ l', LinkedCmd T l' c := by
  obtain ⟨t, ht'⟩ := Option.ne_none_iff_exists'.mp ht
  have htT := h.tripID t ht'
  rw [updateTripInfo_eq]
  split
  · have hcode : updateTripInfoDidSet l.annotations.length l =
        ((Handler.issue fun l => [.write (.updateTrip t fun d =>
          { d with tripName := l.tripName, entries := l.ids }) none]).andThen
        ((EditTrip.uploadTripCoverPhoto t).andThen (EditTrip.updateTripID l.ids t))) l := by
      simp only [updateTripInfoDidSet, if_true, ht']
    rw [hcode]
    refine ⟨⟨h.updateTripID htT l.ids, grows_updateTripID l.ids t l, rfl, ht, fun r hr => ?_⟩,
      fun c hc l' => ?_⟩
    · change ((EditTrip.updateTripID l.ids t l).1.heap r).tripID ≠ none
      rw [tripID_updateTripID hr]
      simp
    · rcases List.mem_append.mp hc with hc | hc
      · rw [List.mem_singleton.mp hc]
        exact linkedCmd_write trivial
      · rcases List.mem_append.mp hc with hc | hc
        · exact linked_uploadTripCoverPhoto t _ c hc l'
        · exact linked_updateTripID htT _ _ c hc l'
  · rename_i hno
    exact ⟨⟨h, .refl l, rfl, ht, hl.resolve_left hno⟩, by simp⟩

theorem emits_deleteEntry {I : EditTrip → Prop} (r : ℕ) :
    (deleteEntry r).Emits I fun c => ∀ l', LinkedCmd T l' c := by
  refine Handler.emits_issue fun l₁ _ c hc l' => ?_
  simp only [List.cons_append, List.mem_cons, List.mem_append, List.mem_map] at hc
  rcases hc with rfl | ⟨u, _, rfl⟩ | ⟨i, _, rfl⟩
  · exact linkedCmd_write trivial
  · exact linkedCmd_write trivial
  · exact linkedCmd_request trivial

theorem emits_addEntryToFirestore {r : ℕ} (hr : r ∈ l.entryList) (press : ℕ) :
    (addEntryToFirestore press r).Emits (SavingLinked T l) fun c =>
      ∀ l', SavingLinked T l l' → LinkedCmd T l' c := by
  intro l₁ h₁
  simp only [addEntryToFirestore]
  split
  · refine ⟨⟨⟨h₁.tripID, h₁.heap, h₁.entryList, h₁.temp, h₁.rows⟩,
      h₁.grows.trans (.of_eq rfl rfl rfl), h₁.listed, h₁.ofTrip, h₁.linked⟩, fun c hc l' hl' => ?_⟩
    exact linked_addToFirebase h₁.toLinkedLoc (h₁.linked r hr) press c hc l' hl'.ofTrip
  · have hset : ({ l₁.heap r with imageUrls := [] } : CustomAnnotation).tripID =
      (l₁.newCount.heap r).tripID := rfl
    have hnew : LinkedLoc T l₁.newCount :=
      ⟨h₁.tripID, h₁.heap, h₁.entryList, h₁.temp, h₁.rows⟩
    refine ⟨⟨hnew.set hset, ?_, h₁.listed, h₁.ofTrip, fun r' hr' => ?_⟩, fun c hc l' hl' => ?_⟩
    · exact h₁.grows.trans ((Grows.of_eq rfl rfl rfl : Grows l₁ l₁.newCount).trans
        (grows_set hset))
    · exact (grows_set hset).heap r' (h₁.entryList r' (h₁.listed ▸ hr')) (h₁.linked r' hr')
    · obtain ⟨i, data, -, -, rfl⟩ := mem_imageUploads hc
      exact linkedCmd_request (hl'.uploads hr _ _ _ _)

/-- What is to be shown of code that runs on a screen. -/
structure LinkedRun (T : Set TripID) (l : EditTrip) (r : EditTrip × List Cmd) : Prop where
  loc : LinkedLoc T r.1
  grows : Grows l r.1
  cmds : ∀ c ∈ r.2, LinkedCmd T r.1 c

theorem LinkedLoc.saveButtonPressed (h : LinkedLoc T l) (hs : l.SavesLinked) :
    LinkedRun T l (EditTrip.saveButtonPressed l) := by
  simp only [EditTrip.saveButtonPressed]
  split
  · exact ⟨h, .refl l, by simp⟩
  · rename_i hne
    obtain ⟨ht, hl⟩ := hs.resolve_left hne
    have hnew : LinkedLoc T l.newCount := ⟨h.tripID, h.heap, h.entryList, h.temp, h.rows⟩
    have hg : Grows l l.newCount := .of_eq rfl rfl rfl
    obtain ⟨h₁, hc₁⟩ := savingLinked_updateTripInfo hnew ht hl
    have hrest : ((Handler.forEach deleteEntry l.deleteList).andThen
        (Handler.forEach (addEntryToFirestore l.nextCount) l.entryList)).Emits
          (SavingLinked T l.newCount) fun c =>
            ∀ l', SavingLinked T l.newCount l' → LinkedCmd T l' c :=
      (Handler.emits_forEach fun r _ =>
          (emits_deleteEntry r).mono fun c hc l' _ => hc l').andThen
        (Handler.emits_forEach fun r hr => emits_addEntryToFirestore (l := l.newCount) hr _)
    obtain ⟨h₂, hc₂⟩ := hrest _ h₁
    refine ⟨h₂.toLinkedLoc, hg.trans h₂.grows, fun c hc => ?_⟩
    rcases List.mem_append.mp hc with hc | hc
    · exact hc₁ c hc _
    · exact hc₂ c hc _ h₂

/-- Code that changes nothing that links depend on. -/
theorem LinkedLoc.run_of_eq (h : LinkedLoc T l) {l' : EditTrip} {cs : List Cmd}
    (hn : l'.next = l.next) (hh : l'.heap = l.heap) (ht : l'.tripID = l.tripID)
    (he : l'.entryList = l.entryList) (hta : l'.tempAnnotations = l.tempAnnotations)
    (ho : l'.orderList = l.orderList) (hc : ∀ c ∈ cs, LinkedCmd T l' c) :
    LinkedRun T l (l', cs) where
  loc := by
    constructor <;> simp only [hn, hh, ht, he, hta, ho]
    exacts [h.tripID, h.heap, h.entryList, h.temp, h.rows]
  grows := .of_eq hn hh ht
  cmds := hc

/-- Code that changes an annotation, but not its trip. -/
theorem LinkedLoc.run_set (h : LinkedLoc T l) {r : ℕ} {a : CustomAnnotation} {cs : List Cmd}
    (ha : a.tripID = (l.heap r).tripID) (hc : ∀ c ∈ cs, LinkedCmd T (l.set r a) c) :
    LinkedRun T l (l.set r a, cs) :=
  ⟨h.set ha, grows_set ha, hc⟩

theorem linkedCmd_requests {cs : List Cmd}
    (h : ∀ c ∈ cs, ∃ k, c = .request k ∧ LinkedCallback T l k) : ∀ c ∈ cs, LinkedCmd T l c := by
  intro c hc
  obtain ⟨k, rfl, hk⟩ := h c hc
  exact linkedCmd_request hk

/-- An entry arrives. -/
theorem LinkedLoc.entryFetched (h : LinkedLoc T l) (hdb : AllLinked T db) {id : EntryID}
    {doc : EntryDoc} (hdoc : db.entries.lookup id = some doc)
    (hr : EditTrip.entryFetched id doc l = some r) : LinkedRun T l r := by
  obtain ⟨t, cover, a, ht, -, rfl, rfl⟩ := entryFetched_eq_some hr
  obtain ⟨t', ht', heq⟩ := hdb.entries id doc hdoc
  obtain rfl : t = t' := Option.some.inj (ht.symm.trans heq)
  have hnew : LinkedLoc T l.newCount := ⟨h.tripID, h.heap, h.entryList, h.temp, h.rows⟩
  have hg : Grows l l.newCount := .of_eq rfl rfl rfl
  refine ⟨hnew.alloc ?_, hg.trans (grows_alloc _ _), linkedCmd_requests fun c hc => ?_⟩
  · rintro t'' ⟨⟩
    exact ht'
  · rcases List.mem_cons.mp hc with rfl | hc
    · exact ⟨_, rfl, trivial⟩
    · obtain ⟨url, _, rfl⟩ := List.mem_map.mp hc
      exact ⟨_, rfl, Nat.lt_succ_self l.next⟩

theorem LinkedLoc.appendAnnotation (h : LinkedLoc T l) {r : ℕ} (hr : r < l.next) :
    LinkedLoc T (EditTrip.appendAnnotation r l) := by
  have htemp : ∀ r' ∈ l.tempAnnotations ++ [r], r' < l.next := by
    intro r' hr'
    rcases List.mem_append.mp hr' with hr' | hr'
    · exact h.temp r' hr'
    · rwa [List.mem_singleton.mp hr']
  simp only [EditTrip.appendAnnotation]
  split
  · have hperm := List.perm_insertionSort (fun r r' => (l.heap r).order ≤ (l.heap r').order)
      (l.tempAnnotations ++ [r])
    have hsorted := fun r' hr' => htemp r' (hperm.mem_iff.mp hr')
    exact ⟨h.tripID, h.heap, hsorted, hsorted, h.rows⟩
  · exact ⟨h.tripID, h.heap, h.entryList, htemp, h.rows⟩

theorem grows_append (r : ℕ) (l : EditTrip) :
    Grows l (EditTrip.appendAnnotation r l) := by
  simp only [EditTrip.appendAnnotation]
  split <;> exact .of_eq rfl rfl rfl

theorem LinkedRun.appendAnnotation {l₁ : EditTrip} (h : LinkedRun T l (l₁, [])) {r : ℕ}
    (hr : r < l.next) (as : List ℕ) :
    LinkedRun T l (EditTrip.appendAnnotation r { l₁ with annotations := as }, []) := by
  have h₂ : LinkedLoc T { l₁ with annotations := as } :=
    ⟨h.loc.tripID, h.loc.heap, h.loc.entryList, h.loc.temp, h.loc.rows⟩
  have hg : Grows l { l₁ with annotations := as } := h.grows.trans (.of_eq rfl rfl rfl)
  exact ⟨h₂.appendAnnotation (hr.trans_le hg.next), hg.trans (grows_append r _), by simp⟩

/-- An image arrives. -/
theorem LinkedLoc.imageDownloaded (h : LinkedLoc T l) {r : ℕ} (hr : r < l.next) (c n : ℕ)
    (image : UIImage) : LinkedRun T l (EditTrip.imageDownloaded r c n image l, []) := by
  have hset : ({ l.heap r with
      images := (l.heap r).images ++ [image]
      numPhotos := (l.heap r).images.length + 1 } : CustomAnnotation).tripID =
        (l.heap r).tripID := rfl
  have h₁ : LinkedRun T l ((l.set r _).count c, ([] : List Cmd)) :=
    ⟨⟨h.tripID, (h.set hset).heap, h.entryList, h.temp, h.rows⟩,
      ⟨le_rfl, (grows_set hset).heap, fun h => h⟩, by simp⟩
  simp only [EditTrip.imageDownloaded]
  split
  · exact h₁.appendAnnotation hr _
  · exact h₁

/-- **What the code of an answer does.** -/
theorem LinkedLoc.react (h : LinkedLoc T l) (hdb : AllLinked T db) {k : Callback} {ok : Bool}
    {a : TripID} (hk : LinkedCallback T l k) (hr : EditTrip.react k ok a l db = some r) :
    LinkedRun T l r := by
  have hsame : LinkedRun T l (l, []) := h.run_of_eq rfl rfl rfl rfl rfl rfl (by simp)
  cases k with
  | coverDocFetched t =>
    simp only [EditTrip.react] at hr
    split at hr
    · cases hr; exact hsame
    · obtain ⟨url, -, rfl⟩ := Option.map_eq_some_iff.mp hr
      exact h.run_of_eq rfl rfl rfl rfl rfl rfl (linkedCmd_requests (by simp [LinkedCallback]))
  | coverDownloaded url =>
    simp only [EditTrip.react] at hr
    split at hr <;> cases hr
    · exact hsame
    · exact h.run_of_eq rfl rfl rfl rfl rfl rfl (by simp)
  | tripFetched t =>
    simp only [EditTrip.react] at hr
    split at hr <;> cases hr
    · exact hsame
    · exact h.run_of_eq rfl rfl rfl rfl rfl rfl
        (linkedCmd_requests (by simp [LinkedCallback]))
  | entryFetched id =>
    simp only [EditTrip.react] at hr
    split at hr
    · cases hr; exact hsame
    · rename_i doc hdoc
      split at hdoc
      · exact h.entryFetched hdb hdoc hr
      · cases hdoc
  | entryCoverDownloaded r' url =>
    simp only [EditTrip.react] at hr
    split at hr <;> cases hr
    · exact hsame
    · exact h.run_set rfl (by simp)
  | imageDownloaded r' c n url =>
    simp only [EditTrip.react] at hr
    split at hr <;> cases hr
    · exact hsame
    · exact h.imageDownloaded hk c n _
  | usernameFetched r' uid =>
    cases hr
    exact h.run_set rfl (by simp)
  | objectDeleted path =>
    simp only [EditTrip.react, Option.some.injEq] at hr
    split at hr <;> subst hr
    · exact h.run_of_eq rfl rfl rfl rfl rfl rfl (by simp)
    · exact hsame
  | imageUploaded c press r' path data =>
    cases hr
    split
    · refine h.run_of_eq rfl rfl rfl rfl rfl rfl (linkedCmd_requests ?_)
      simpa [LinkedCallback] using hk
    · refine h.run_of_eq rfl rfl rfl rfl rfl rfl (linkedCmd_requests ?_)
      simpa [LinkedCallback] using hk
  | imageURL c press r' path =>
    simp only [EditTrip.react] at hr
    split at hr <;> cases hr
    have hset : ({ l.heap r' with imageUrls := (l.heap r').imageUrls ++ [⟨path⟩] } :
        CustomAnnotation).tripID = (l.heap r').tripID := rfl
    have h₁ : LinkedLoc T ((l.set r' _).count c) :=
      ⟨h.tripID, (h.set hset).heap, h.entryList, h.temp, h.rows⟩
    have hg : Grows l ((l.set r' _).count c) := ⟨le_rfl, (grows_set hset).heap, fun h => h⟩
    split
    · refine ⟨⟨h₁.tripID, h₁.heap, h₁.entryList, h₁.temp, h₁.rows⟩,
        hg.trans (.of_eq rfl rfl rfl), fun c' hc' => ?_⟩
      exact linked_addToFirebase h₁ (hg.heap r' hk.1 hk.2.1) press c' hc' _ hk.2.2
    · exact ⟨h₁, hg, by simp⟩
  | entryWritten press r' =>
    simp only [EditTrip.react, Option.some.injEq, EditTrip.entryWritten] at hr
    split at hr <;> subst hr
    · refine h.run_of_eq rfl rfl rfl rfl rfl rfl (linkedCmd_requests ?_)
      split
      · simpa [LinkedCallback, count] using hk
      · simp
    · exact hsame
  | userFetched p ids =>
    simp only [EditTrip.react] at hr
    split at hr
    · cases hr; exact hsame
    · split at hr <;> cases hr
      · rename_i ht
        exact absurd ht hk
      · rename_i t ht
        refine h.run_of_eq rfl rfl rfl rfl rfl rfl fun c hc => ?_
        rw [List.mem_singleton.mp hc]
        exact linkedCmd_write_some trivial hk
  | tripUpdated ids =>
    obtain ⟨t, ht, rfl⟩ := Option.map_eq_some_iff.mp hr
    have htT := h.tripID t ht
    have h₁ := h.updateTripID htT ids
    refine ⟨⟨h₁.tripID, h₁.heap, h₁.entryList, h₁.temp, h₁.rows⟩,
      (grows_updateTripID ids t l).trans (.of_eq rfl rfl rfl), fun c hc => ?_⟩
    rcases List.mem_append.mp hc with hc | hc
    · exact linked_uploadTripCoverPhoto t l c hc _
    · rcases List.mem_append.mp hc with hc | hc
      · exact linked_updateTripID htT ids _ c hc _
      · cases hc
  | tripIDUpdated c ids t =>
    simp only [EditTrip.react, Option.some.injEq] at hr
    split at hr <;> subst hr
    · exact h.run_of_eq rfl rfl rfl rfl rfl rfl fun c' hc' =>
        linked_updateEntryOrder hk ids _ c' hc' _
    · exact h.run_of_eq rfl rfl rfl rfl rfl rfl (by simp)
  | entryOrderUpdated c n t =>
    simp only [EditTrip.react, Option.some.injEq] at hr
    split at hr <;> subst hr
    · refine ⟨⟨?_, h.heap, h.entryList, h.temp, h.rows⟩, ⟨le_rfl, fun _ _ h => h, by simp⟩, by simp⟩
      rintro t' ⟨⟩
      exact hk
    · exact h.run_of_eq rfl rfl rfl rfl rfl rfl (by simp)
  | tripCoverUploaded t path data =>
    cases hr
    split
    · exact h.run_of_eq rfl rfl rfl rfl rfl rfl (linkedCmd_requests (by simp [LinkedCallback]))
    · exact h.run_of_eq rfl rfl rfl rfl rfl rfl (linkedCmd_requests (by simp [LinkedCallback]))
  | tripCoverURL t path =>
    simp only [EditTrip.react] at hr
    split at hr <;> cases hr
    · refine h.run_of_eq rfl rfl rfl rfl rfl rfl fun c hc => ?_
      rw [List.mem_singleton.mp hc]
      exact linkedCmd_write trivial
    · exact hsame

/-- **What the code of a user's action does.** -/
theorem LinkedLoc.event (h : LinkedLoc T l) {e : Event}
    (he : e = .saveButtonPressed → l.SavesLinked) (hr : EditTrip.event e l db = some r) :
    LinkedRun T l r := by
  have hsame : LinkedRun T l (l, []) := h.run_of_eq rfl rfl rfl rfl rfl rfl (by simp)
  cases e with
  | viewDidLoad =>
    cases hr
    exact h.run_of_eq rfl rfl rfl rfl rfl rfl (linkedCmd_requests (by simp [LinkedCallback]))
  | viewWillAppear =>
    simp only [EditTrip.event] at hr
    split at hr
    · cases hr; exact hsame
    · split at hr <;> cases hr
      · exact hsame
      · exact h.run_of_eq rfl rfl rfl rfl rfl rfl (linkedCmd_requests (by simp [LinkedCallback]))
  | addAnnotation form uuid =>
    cases hr
    have h₁ : LinkedLoc T { l.set l.next _ with next := l.next + 1 } :=
      h.alloc (a := .ofForm form l.entryList.length uuid) (by rintro t ⟨⟩)
    refine ⟨⟨h₁.tripID, h₁.heap, fun r hr => ?_, h₁.temp, h₁.rows⟩,
      (grows_alloc l _).trans (.of_eq rfl rfl rfl),
      linkedCmd_requests (by simp [EditTrip.addAnnotation, LinkedCallback])⟩
    rcases List.mem_append.mp hr with hr | hr
    · exact h₁.entryList r hr
    · rw [List.mem_singleton.mp hr]
      exact Nat.lt_succ_self _
  | editAnnotation r' form =>
    simp only [EditTrip.event] at hr
    split at hr <;> cases hr
    exact h.run_set rfl (by simp)
  | deleteAnnotation r' =>
    simp only [EditTrip.event, EditTrip.deleteAnnotation] at hr
    split at hr <;> cases hr
    split
    · refine ⟨⟨h.tripID, h.heap, fun r hr => h.entryList r ?_, h.temp, h.rows⟩,
        .of_eq rfl rfl rfl, by simp⟩
      exact List.mem_of_mem_eraseP hr
    · exact h.run_of_eq rfl rfl rfl rfl rfl rfl (by simp)
  | editOrderButtonPressed =>
    simp only [EditTrip.event] at hr
    split at hr <;> cases hr
    refine ⟨⟨h.tripID, h.heap, h.entryList, h.temp, ?_⟩, .of_eq rfl rfl rfl, by simp⟩
    rintro rows ⟨⟩
    exact h.entryList
  | moveRowAt source destination =>
    obtain ⟨rows, hrows, rfl⟩ := Option.map_eq_some_iff.mp hr
    obtain ⟨rows₀, hrows₀, hmove⟩ := Option.bind_eq_some_iff.mp hrows
    refine ⟨⟨h.tripID, h.heap, h.entryList, h.temp, ?_⟩, .of_eq rfl rfl rfl, by simp⟩
    rintro _ ⟨⟩ r hr
    exact h.rows rows₀ hrows₀ r ((moveRow_perm hmove).mem_iff.mp hr)
  | orderWillDisappear =>
    obtain ⟨rows, hrows, rfl⟩ := Option.map_eq_some_iff.mp hr
    exact ⟨⟨h.tripID, h.heap, h.rows rows hrows, h.temp, by rintro _ ⟨⟩⟩, .of_eq rfl rfl rfl,
      by simp⟩
  | editTripName name =>
    cases hr
    exact h.run_of_eq rfl rfl rfl rfl rfl rfl (by simp)
  | selectTripCover image =>
    cases hr
    exact h.run_of_eq rfl rfl rfl rfl rfl rfl (by simp)
  | saveButtonPressed =>
    simp only [EditTrip.event] at hr
    split at hr <;> cases hr
    exact h.saveButtonPressed (he rfl)
  | currentUserFetched =>
    simp only [EditTrip.event] at hr
    split at hr <;> cases hr
    · exact hsame
    · exact h.run_of_eq rfl rfl rfl rfl rfl rfl (by simp)

/-- A screen that is opened. -/
theorem LinkedScreen.opened (h : AllLinked T db) (u : User) {t? : Option TripID} (b : Bucket)
    (now : Timestamp) (ht : TripExists db t?) :
    LinkedScreen T (start db (EditTrip.opened u t? b now)) where
  store := h
  loc := by
    refine ⟨fun t htt => (h.trips t).mp (ht t htt), ?_, ?_, ?_, ?_⟩ <;>
      simp [start, EditTrip.opened, default]
  queue := by simp [start]
  ready := by simp [start]

/-- **One step of a screen.** -/
theorem LinkedScreen.step {st st' : State Firestore EditTrip Write Callback}
    (h : LinkedScreen T st) {lbl : Label TripID Event}
    (hlbl : lbl = .event .saveButtonPressed → st.loc.SavesLinked)
    (hs : program.step lbl st = some st') : LinkedScreen T st' := by
  have hview : AllLinked T (program.view st) := h.store.view fun x hx => (h.queue x hx).1
  have hawaited : ∀ x ∈ st.awaited lbl, LinkedCallback T st.loc x.1 := by
    intro x hx
    cases lbl with
    | deliver i ok a => exact h.ready x (List.mem_of_mem_eraseIdx hx)
    | _ => exact h.ready x hx
  rcases step_runs hs with ⟨r, hr, rfl⟩ | ⟨w, k, q, hq, hend⟩
  · have hrun : LinkedRun T st.loc r := by
      cases hr with
      | @event e r he => exact h.loc.event (fun hpress => hlbl (by rw [hpress])) he
      | @deliver i ok a k o r hi ho hr =>
        exact h.loc.react hview (h.ready _ (List.mem_of_getElem? hi)) hr
    refine ⟨h.store, hrun.loc, fun x hx => ?_, fun x hx => ?_⟩
    · rcases List.mem_append.mp hx with hx | hx
      · exact ⟨(h.queue x hx).1, fun k hk => ((h.queue x hx).2 k hk).grows hrun.grows⟩
      · exact hrun.cmds _ (mem_writes.mp hx)
    · rcases List.mem_append.mp hx with hx | hx
      · exact (hawaited x hx).grows hrun.grows
      · exact (hrun.cmds _ (mem_requests hx)).2 _ rfl
  · have hhead := h.queue (w, k) (hq ▸ List.mem_cons_self)
    have htail : ∀ x ∈ q, KeepsLinks T x.1 ∧ ∀ k, x.2 = some k → LinkedCallback T st.loc k :=
      fun x hx => h.queue x (hq ▸ List.mem_cons_of_mem _ hx)
    have hready : ∀ ok, ∀ x ∈ st.ready ++ k.toList.map fun k => (k, some ok),
        LinkedCallback T st.loc x.1 := by
      intro ok x hx
      rcases List.mem_append.mp hx with hx | hx
      · exact h.ready x hx
      · obtain ⟨k', hk', rfl⟩ := List.mem_map.mp hx
        exact hhead.2 k' (Option.mem_toList.mp hk')
    rcases hend with ⟨-, rfl⟩ | ⟨-, rfl⟩
    · exact ⟨h.store.keeps hhead.1, h.loc, htail, hready _⟩
    · exact ⟨h.store, h.loc, htail, hready _⟩

end

/-- **While every save is made on the screen of a trip that links its entries first, every entry
that is published is linked to a trip that there is.** -/
theorem published_linked {n : Screens ι} (hopened : n.Opened)
    (hn : ∀ id e, n.store.entries.lookup id = some e → ∃ t ∈ n.store.trips, e.tripID = some t)
    {tr : List ((ι × Act) × Screens ι)} (hrun : IsScreensRun n tr) (hc : Meets savesLinked n tr) :
    ∀ x ∈ tr, ∀ id e, x.2.store.entries.lookup id = some e →
      ∃ t ∈ x.2.store.trips, e.tripID = some t := by
  have hdb : AllLinked {t | t ∈ n.store.trips} n.store := ⟨fun t => Iff.rfl, hn⟩
  have hinv : ∀ x ∈ tr, ∀ i, LinkedScreen {t | t ∈ n.store.trips} (x.2.state i) := by
    refine hrun.invariant (fun st u t? b now hst ht => .opened hst.store u b now ht)
      (fun n i lbl st' hn hc hst' => ?_) (fun i => ?_) hc
    · have hst := (hn i).step (fun hpress => by subst hpress; exact hc rfl) hst'
      exact ⟨hst, fun j => ⟨hst.store, (hn j).loc, (hn j).queue, (hn j).ready⟩⟩
    · obtain ⟨u, t?, b, now, ht, hi⟩ := hopened i
      rw [hi]
      exact .opened hdb u b now ht
  intro x hx id e he
  have hstore := (hinv x hx x.1.1).store
  obtain ⟨t, ht, het⟩ := hstore.entries id e he
  exact ⟨t, (hstore.trips t).mpr ht, het⟩

/-- A trip is saved whose entries are linked first. -/
theorem published_linked_sample : ∃ tr, IsScreensRun sampleScreens tr ∧ tr.length = 43 ∧
    ∀ x ∈ tr, ∀ id e, x.2.store.entries.lookup id = some e →
      ∃ t ∈ x.2.store.trips, e.tripID = some t := by
  obtain ⟨tr, htr⟩ := Option.isSome_iff_exists.mp (by decide +kernel :
    (play Screens.act (sampleActs sampleCarefulEdits sampleCarefulAnswers) sampleScreens).isSome)
  have hmeets : ∀ tr ∈ play Screens.act (sampleActs sampleCarefulEdits sampleCarefulAnswers)
      sampleScreens, tr.length = 43 ∧ Meets savesLinked sampleScreens tr := by decide +kernel
  obtain ⟨hlen, hc⟩ := hmeets tr htr
  have hdb : ∀ x ∈ sampleScreens.store.entries.docs, x.2.tripID = some "t" := by decide +kernel
  have ht : "t" ∈ sampleScreens.store.trips := by decide +kernel
  exact ⟨tr, isRun_of_play htr, hlen, published_linked opened_sampleScreens
    (fun id e he => ⟨"t", ht, hdb (id, e) (Collection.mem_docs.mpr he)⟩) (isRun_of_play htr) hc⟩

/-- The entries of a new trip are published before there is the trip. -/
theorem published_unlinked : ∃ (n : Screens Unit) (tr : List ((Unit × Act) × Screens Unit)),
    n.Opened ∧ (∀ id, n.store.entries.lookup id = none) ∧ IsScreensRun n tr ∧
      ∃ x ∈ tr, ∃ id e, x.2.store.entries.lookup id = some e ∧ e.tripID = none := by
  obtain ⟨tr, htr⟩ := Option.isSome_iff_exists.mp (by decide +kernel :
    (play Screens.act (sampleActs sampleEdits sampleAnswers) sampleNewScreens).isSome)
  have hbad : ∀ tr ∈ play Screens.act (sampleActs sampleEdits sampleAnswers) sampleNewScreens,
      ∃ x ∈ tr, (x.2.store.entries.lookup "a").map (fun e => e.tripID) = some none := by
    decide +kernel
  obtain ⟨x, hx, he⟩ := hbad tr htr
  obtain ⟨e, he, ht⟩ := Option.map_eq_some_iff.mp he
  exact ⟨sampleNewScreens, tr, opened_sampleNewScreens, fun _ => rfl, isRun_of_play htr, x, hx, "a",
    e, he, ht⟩

end EditTrip

end Wanderlust
