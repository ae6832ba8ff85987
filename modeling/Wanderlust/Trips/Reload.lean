import Wanderlust.Trips.Commands
import Wanderlust.Trips.RoundTrip

/-!
# Saving a trip as it was loaded

`init(entry:)` takes over all that is shown of an entry, but not the name of its author. So when a
trip is opened again and saved without an edit, its entries are written without that name
(`Unsigned`); all else is written as it was loaded (`Mirrors`), and the save does not change the
text of the entries if and only if no entry had a name (`text_kept_iff`).
-/

namespace Wanderlust

open Async

/-- What an entry says, which is all of it but the time of its last writing and its images. -/
def EntryDoc.text (e : EntryDoc) : EntryDoc := { e with timestamp := 0, mediaList := [] }

/-- The write puts no name on an entry, and does not change when it was written. -/
def Write.Unsigned : Write → Prop
  | .setEntry _ doc => doc.username = none
  | .updateEntry _ f => ∀ d, (f d).username = d.username ∧ (f d).timestamp = d.timestamp
  | _ => True

namespace EditTrip

/-! ## Runs -/

/-- The screen of a user is opened, steps that are `allowed` are taken until it can be edited, and
it is saved. -/
structure SaveRun (allowed : EditTrip → Firestore → Async.Move Callback TripID Event → Prop)
    (db : Firestore) (opened : EditTrip) (lbls : List (Label TripID Event))
    (st₀ st₁ st₂ : State Firestore EditTrip Write Callback) : Prop where
  trace : Trace program allowed (start db opened) lbls st₀
  editable : st₀.loc.Editable
  fields : st₀.loc.emptyField = false
  press : program.step (.event .saveButtonPressed) st₀ = some st₁
  run : Reaches program settling st₁ st₂
  quiescent : Quiescent st₂

/-- The steps before the save in which nothing is edited. -/
def reading (_ : EditTrip) (_ : Firestore) : Async.Move Callback TripID Event → Prop
  | .event .viewDidLoad => True
  | .event .viewWillAppear => True
  | .event .currentUserFetched => True
  | .event _ => False
  | .deliver _ _ _ => True

instance (l : EditTrip) (db : Firestore) : DecidablePred (reading l db)
  | .event .viewDidLoad => inferInstanceAs (Decidable True)
  | .event .viewWillAppear => inferInstanceAs (Decidable True)
  | .event .currentUserFetched => inferInstanceAs (Decidable True)
  | .event (Event.addAnnotation _ _) => inferInstanceAs (Decidable False)
  | .event (Event.editAnnotation _ _) => inferInstanceAs (Decidable False)
  | .event (Event.deleteAnnotation _) => inferInstanceAs (Decidable False)
  | .event .editOrderButtonPressed => inferInstanceAs (Decidable False)
  | .event (.moveRowAt _ _) => inferInstanceAs (Decidable False)
  | .event .orderWillDisappear => inferInstanceAs (Decidable False)
  | .event (.editTripName _) => inferInstanceAs (Decidable False)
  | .event (.selectTripCover _) => inferInstanceAs (Decidable False)
  | .event .saveButtonPressed => inferInstanceAs (Decidable False)
  | .deliver _ _ _ => inferInstanceAs (Decidable True)

/-- The trip `t`, which is `d`, and its entries are as the user `uid` has left them with a save of
the screen of the trip or of a new one. -/
def LeftBySave (uid : Uid) (t : TripID) (d : TripDoc) (db : Firestore) : Prop :=
  ∃ (db₀ : Firestore) (currentUser : User) (tripID : Option TripID) (bucket : Bucket)
    (now : Timestamp) (lbls : List (Label TripID Event))
    (st₀ st₁ st₂ : State Firestore EditTrip Write Callback),
    currentUser.uid = uid ∧ db₀.users.lookup uid ≠ none ∧
      (∀ t' d₀, tripID = some t' → db₀.trips.lookup t' = some d₀ → d₀.entries.Nodup) ∧
      (tripID = some t ∨ tripID = none ∧ db₀.trips.lookup t = none) ∧
      SaveRun editing db₀ (opened currentUser tripID bucket now) lbls st₀ st₁ st₂ ∧
      st₂.store.trips.lookup t = some d ∧ db.trips.lookup t = some d ∧
      ∀ id ∈ d.entries, db.entries.lookup id = st₂.store.entries.lookup id

/-! ## Without a name -/

/-- Callbacks that put a name on an annotation. -/
def Callback.signs : Callback → Bool
  | .usernameFetched _ _ => true
  | _ => false

/-- No annotation has a name, and it is `time` or later. -/
structure Nameless (time : Timestamp) (l : EditTrip) : Prop where
  username : ∀ r, (l.heap r).username = none
  now : time ≤ l.now

/-- The command neither writes a name nor asks for one. -/
def Anonymous : Cmd → Prop
  | .write w k? => w.Unsigned ∧ ∀ k, k? = some k → k.signs = false
  | .request k => k.signs = false

/-- The entries of `ids` that are written at `time` or later have no name. -/
def Unnamed (time : Timestamp) (ids : List EntryID) (db : Firestore) : Prop :=
  ∀ id ∈ ids, ∀ e, db.entries.lookup id = some e → time ≤ e.timestamp → e.username = none

/-- Nothing on the screen has a name, and what is written has none. -/
structure Unsigned (time : Timestamp) (ids : List EntryID)
    (x : Direct Firestore EditTrip Callback) : Prop where
  loc : Nameless time x.loc
  bag : ∀ k ∈ x.bag, k.signs = false
  store : Unnamed time ids x.store

/-- Code that leaves the annotations without names. -/
abbrev Discreet (time : Timestamp) (f : Handler) : Prop := f.Emits (Nameless time) Anonymous

section

variable {time : Timestamp} {ids : List EntryID} {l l' : EditTrip}
  {db db' : Firestore} {x x' : Direct Firestore EditTrip Callback}

theorem Nameless.set {r : ℕ} {a : CustomAnnotation} (h : Nameless time l)
    (ha : a.username = (l.heap r).username) : Nameless time (l.set r a) where
  username r' := by
    by_cases hr : r' = r
    · rw [hr, heap_set_self, ha, h.username]
    · rw [heap_set_ne hr, h.username]
  now := h.now

theorem Unnamed.apply (h : Unnamed time ids db) {w : Write} (hw : w.Unsigned) :
    Unnamed time ids (w.apply db) := by
  intro id hid e he htime
  cases w with
  | setEntry id' doc =>
    simp only [Write.apply, Collection.lookup_insert_eq] at he
    split at he
    · cases he
      exact hw
    · exact h id hid e he htime
  | updateEntry id' f =>
    simp only [Write.apply, Collection.lookup_modify_eq] at he
    split at he
    · obtain ⟨e₀, he₀, rfl⟩ := Option.map_eq_some_iff.mp he
      rename_i hid'
      rw [(hw e₀).2] at htime
      rw [(hw e₀).1]
      exact h id hid e₀ (hid' ▸ he₀) htime
    · exact h id hid e he htime
  | deleteEntry id' =>
    simp only [Write.apply, Collection.lookup_erase_eq] at he
    split at he
    · cases he
    · exact h id hid e he htime
  | _ => exact h id hid e he htime

/-- Running such code. -/
theorem Unsigned.after (h : Unsigned time ids x) {r : EditTrip × List Cmd}
    (hr : Nameless time r.1) (hcs : ∀ c ∈ r.2, Anonymous c) :
    Unsigned time ids (program.after r x) := by
  refine ⟨hr, fun k hk => ?_, ?_⟩
  · rcases Multiset.mem_add.mp hk with hk | hk
    · exact h.bag k hk
    · obtain ⟨c, hc, hck⟩ := mem_callbacks.mp hk
      cases c with
      | write w k' => exact (hcs _ hc).2 k hck
      | request k' =>
        cases hck
        exact hcs _ hc
  · exact effect_invariant (fun w k hw db hdb => hdb.apply (hcs _ hw).1) h.store

theorem discreet_updateEntryOrder (ids : List EntryID) (t : TripID) :
    Discreet time (updateEntryOrder ids t) := by
  refine fun l h => ⟨⟨h.username, h.now⟩, fun c hc => ?_⟩
  obtain ⟨i, hi, rfl⟩ := List.mem_mapIdx.mp hc
  exact ⟨fun _ => ⟨rfl, rfl⟩, by simp [Callback.signs]⟩

theorem discreet_updateTripID (ids : List EntryID) (t : TripID) :
    Discreet time (updateTripID ids t) := by
  refine fun l h => ⟨⟨fun r => ?_, h.now⟩, fun c hc => ?_⟩
  · simp only [updateTripID]
    split <;> exact h.username r
  · obtain ⟨id, hid, rfl⟩ := List.mem_map.mp hc
    exact ⟨fun _ => ⟨rfl, rfl⟩, by simp [Callback.signs]⟩

theorem discreet_uploadTripCoverPhoto (t : TripID) :
    Discreet time (uploadTripCoverPhoto t) := by
  refine Handler.emits_issue fun l _ c hc => ?_
  split at hc
  · cases hc
  · rw [List.mem_singleton.mp hc]
    rfl

theorem discreet_updateTrip (t : TripID) (f : EditTrip → TripDoc → TripDoc) {k? : Option Callback}
    (hk : ∀ k, k? = some k → k.signs = false) :
    Discreet time (.issue fun l => [.write (.updateTrip t (f l)) k?]) :=
  Handler.emits_issue fun _ _ _ hc => List.mem_singleton.mp hc ▸ ⟨trivial, hk⟩

theorem discreet_dismiss : Discreet time (.modify fun l => { l with dismissed := true }) :=
  Handler.emits_modify fun _ h => ⟨h.username, h.now⟩

theorem discreet_updateTripInfoDidSet (n : ℕ) : Discreet time (updateTripInfoDidSet n) := by
  intro l h
  simp only [updateTripInfoDidSet]
  split
  · split
    · exact ⟨h, by simp⟩
    · rename_i t ht
      exact ((discreet_updateTrip t _ (by simp)).andThen
        ((discreet_uploadTripCoverPhoto t).andThen (discreet_updateTripID l.ids t))) l h
  · exact ⟨h, by simp⟩

theorem discreet_deleteEntry (r : ℕ) : Discreet time (deleteEntry r) := by
  refine Handler.emits_issue fun l _ c hc => ?_
  simp only [List.cons_append, List.mem_cons, List.mem_append, List.mem_map] at hc
  rcases hc with rfl | ⟨u, _, rfl⟩ | ⟨i, _, rfl⟩
  · exact ⟨trivial, by simp⟩
  · exact ⟨trivial, by simp⟩
  · rfl

theorem discreet_addToFirebase (press r : ℕ) : Discreet time (addToFirebase press r) := by
  refine fun _ h => ⟨⟨h.username, h.now.trans (Nat.le_succ _)⟩, fun c hc => ?_⟩
  rcases List.mem_cons.mp hc with rfl | hc
  · exact ⟨h.username r, by simp [Callback.signs]⟩
  · obtain ⟨u, _, rfl⟩ := List.mem_map.mp hc
    exact ⟨trivial, by simp⟩

theorem discreet_addEntryToFirestore (press r : ℕ) :
    Discreet time (addEntryToFirestore press r) := by
  intro l h
  simp only [addEntryToFirestore]
  split
  · exact discreet_addToFirebase press r l h
  · refine ⟨Nameless.set (l := l.newCount) ⟨h.username, h.now⟩ rfl, fun c hc => ?_⟩
    obtain ⟨i, data, -, -, rfl⟩ := mem_imageUploads hc
    rfl

theorem discreet_saveButtonPressed : Discreet time saveButtonPressed := by
  intro l h
  simp only [saveButtonPressed]
  split
  · exact ⟨h, by simp⟩
  · exact ((Handler.emits_forEach fun n _ => discreet_updateTripInfoDidSet n).andThen
      ((Handler.emits_forEach fun r _ => discreet_deleteEntry r).andThen
        (Handler.emits_forEach fun r _ => discreet_addEntryToFirestore _ r)))
      l.newCount ⟨h.username, h.now⟩

/-- The code that ends a save. -/
theorem discreet_link (entryIdList : List EntryID) (t : TripID) :
    Discreet time ((updateTripID entryIdList t).andThen ((uploadTripCoverPhoto t).andThen
      (.modify fun l => { l with dismissed := true }))) :=
  (discreet_updateTripID entryIdList t).andThen
    ((discreet_uploadTripCoverPhoto t).andThen discreet_dismiss)

theorem discreet_createTrip (entryIdList : List EntryID) (userData : UserDoc) (t : TripID) :
    Discreet time (createTrip entryIdList userData t) := by
  refine Handler.Emits.andThen ?_ ((Handler.emits_modify fun _ h =>
    ⟨h.username, h.now.trans (Nat.le_succ _)⟩).andThen (discreet_link entryIdList t))
  refine Handler.emits_issue fun l _ c hc => ?_
  simp only [List.mem_cons, List.not_mem_nil, or_false] at hc
  rcases hc with rfl | rfl <;> exact ⟨trivial, by simp⟩

/-- **No answer signs an annotation**, unless it was asked for. -/
theorem discreet_react {k : Callback} {ok : Bool} {newTrip : TripID} {r : EditTrip × List Cmd}
    (hk : k.signs = false) (hr : react k ok newTrip l db = some r) (h : Nameless time l) :
    Nameless time r.1 ∧ ∀ c ∈ r.2, Anonymous c := by
  have hsame : Nameless time l ∧ ∀ c ∈ ([] : List Cmd), Anonymous c := ⟨h, by simp⟩
  have hcount : ∀ c, Nameless time (l.count c) := fun c => ⟨h.username, h.now⟩
  cases k with
  | coverDocFetched t =>
    simp only [react] at hr
    split at hr
    · cases hr
      exact hsame
    · obtain ⟨url, -, rfl⟩ := Option.map_eq_some_iff.mp hr
      exact ⟨h, by simp [Anonymous, Callback.signs]⟩
  | coverDownloaded url =>
    simp only [react] at hr
    split at hr <;> cases hr
    · exact hsame
    · exact ⟨⟨h.username, h.now⟩, by simp⟩
  | tripFetched t =>
    simp only [react] at hr
    split at hr <;> cases hr
    · exact hsame
    · exact ⟨⟨h.username, h.now⟩, by simp [loadEntryData, Anonymous, Callback.signs]⟩
  | entryFetched id =>
    simp only [react] at hr
    split at hr
    · cases hr
      exact hsame
    · obtain ⟨t, cover, a, -, -, rfl, rfl⟩ := entryFetched_eq_some hr
      refine ⟨⟨fun r => ?_, h.now⟩, by simp [Anonymous, Callback.signs]⟩
      by_cases hrn : r = l.next
      · simp [hrn, EditTrip.set, CustomAnnotation.ofEntry]
      · simp [EditTrip.set, hrn, newCount, h.username r]
  | entryCoverDownloaded r url =>
    simp only [react] at hr
    split at hr <;> cases hr
    · exact hsame
    · exact ⟨h.set rfl, by simp⟩
  | imageDownloaded r c n url =>
    simp only [react] at hr
    split at hr <;> cases hr
    · exact hsame
    · rename_i data _
      have hset := h.set (r := r) (a := { l.heap r with
        images := (l.heap r).images ++ [.ofData data],
        numPhotos := (l.heap r).images.length + 1 }) rfl
      obtain ⟨annotations, temp, list, he⟩ := imageDownloaded_eq r c n (.ofData data) l
      rw [he]
      exact ⟨⟨hset.username, hset.now⟩, by simp⟩
  | usernameFetched r uid => cases hk
  | objectDeleted path =>
    cases hr
    refine ⟨?_, by simp⟩
    dsimp only
    split <;> exact ⟨h.username, h.now⟩
  | imageUploaded c press r path data =>
    cases hr
    refine ⟨?_, by simp [Anonymous, Callback.signs]⟩
    dsimp only
    split <;> exact ⟨h.username, h.now⟩
  | imageURL c press r path =>
    simp only [react] at hr
    split at hr <;> cases hr
    have hset := h.set (r := r) (a := { l.heap r with
      imageUrls := (l.heap r).imageUrls ++ [⟨path⟩] }) rfl
    split
    · exact discreet_addToFirebase press r _ ⟨hset.username, hset.now⟩
    · exact ⟨⟨hset.username, hset.now⟩, by simp⟩
  | entryWritten press r =>
    cases hr
    split
    · refine ⟨hcount press, fun c hc => ?_⟩
      simp only [EditTrip.entryWritten] at hc
      split at hc
      · rw [List.mem_singleton.mp hc]
        rfl
      · cases hc
    · exact hsame
  | userFetched p entryIdList =>
    simp only [react] at hr
    split at hr
    · cases hr
      exact hsame
    · split at hr <;> cases hr
      · exact discreet_createTrip _ _ _ l h
      · exact discreet_updateTrip _ _ (by simp [Callback.signs]) l h
  | tripUpdated entryIdList =>
    obtain ⟨t, -, rfl⟩ := Option.map_eq_some_iff.mp hr
    exact ((discreet_uploadTripCoverPhoto t).andThen
      ((discreet_updateTripID entryIdList t).andThen discreet_dismiss)) l h
  | tripIDUpdated c entryIdList t =>
    cases hr
    split
    · exact discreet_updateEntryOrder entryIdList t _ (hcount c)
    · exact ⟨hcount c, by simp⟩
  | entryOrderUpdated c n t =>
    cases hr
    refine ⟨?_, by split <;> simp⟩
    split <;> exact ⟨h.username, h.now⟩
  | tripCoverUploaded t path data =>
    cases hr
    refine ⟨?_, by simp [Anonymous, Callback.signs]⟩
    dsimp only
    split <;> exact ⟨h.username, h.now⟩
  | tripCoverURL t path =>
    simp only [react] at hr
    split at hr <;> cases hr
    · exact ⟨⟨h.username, h.now⟩, by simp [Anonymous, Write.Unsigned]⟩
    · exact hsame

/-- **A step without an edit.** -/
theorem Unsigned.step (h : Unsigned time ids x) {m : Async.Move Callback TripID Event}
    (ha : reading x.loc x.store m ∨ settling x.loc x.store m) (hs : DirectStep program x m x') :
    Unsigned time ids x' := by
  cases hs with
  | @event e r he =>
    change event e x.loc x.store = some r at he
    have hsame : ∀ l', l'.heap = x.loc.heap → l'.now = x.loc.now → Nameless time l' :=
      fun l' hheap hnow => ⟨fun r => hheap ▸ h.loc.username r, hnow ▸ h.loc.now⟩
    cases e with
    | viewDidLoad =>
      cases he
      exact h.after h.loc (by simp [Anonymous, Callback.signs])
    | viewWillAppear =>
      simp only [event] at he
      split at he
      · cases he
        exact h.after h.loc (by simp)
      · split at he <;> cases he
        · exact h.after h.loc (by simp)
        · exact h.after (hsame _ rfl rfl) (by simp [Anonymous, Callback.signs])
    | currentUserFetched =>
      simp only [event] at he
      split at he <;> cases he
      · exact h.after h.loc (by simp)
      · exact h.after (hsame _ rfl rfl) (by simp)
    | _ => exact ha.elim False.elim False.elim
  | @deliver k ok newTrip rest r hb hr =>
    have hrest : Unsigned time ids { x with bag := rest } :=
      ⟨h.loc, fun k' hk' => h.bag k' (hb ▸ Multiset.mem_cons_of_mem hk'), h.store⟩
    have hk := h.bag k (hb ▸ Multiset.mem_cons_self _ _)
    obtain ⟨hloc, hcs⟩ := discreet_react hk hr h.loc
    exact hrest.after hloc hcs

/-- A run that opens the screen, edits nothing and saves. -/
theorem unsigned_of_run {currentUser : User} {tripID : Option TripID} {bucket : Bucket}
    {lbls : List (Label TripID Event)} {st₀ st₁ st₂ : State Firestore EditTrip Write Callback}
    (hold : ∀ id ∈ ids, ∀ e, db.entries.lookup id = some e → e.timestamp < time)
    (hrun : SaveRun reading db (opened currentUser tripID bucket time) lbls st₀ st₁ st₂) :
    time ≤ st₀.loc.now ∧ Unnamed time ids st₂.store := by
  have hstart : Unsigned time ids
      (program.direct (start db (opened currentUser tripID bucket time))) :=
    ⟨⟨fun _ => rfl, le_rfl⟩, by simp [start, Program.direct],
      fun id hid e he htime => absurd (hold id hid e he) (not_lt.mpr htime)⟩
  have h₀ : Unsigned time ids (program.direct st₀) :=
    Reaches.invariant (fun _ _ _ h ha => h.step (Or.inl ha)) ⟨_, hrun.trace⟩ hstart
  have h₁ : Unsigned time ids (program.direct st₁) := by
    obtain ⟨r, he, rfl⟩ := Option.map_eq_some_iff.mp hrun.press
    rw [direct_issue]
    simp only [program, event] at he
    split at he <;> cases he
    obtain ⟨hloc, hcs⟩ := discreet_saveButtonPressed st₀.loc h₀.loc
    exact h₀.after hloc hcs
  have h₂ := hrun.run.invariant (I := Unsigned time ids) (fun _ _ _ h ha => h.step (Or.inr ha)) h₁
  rw [hrun.quiescent.direct] at h₂
  exact ⟨h₀.loc.now, h₂.store⟩

end

/-! ## As it was loaded -/

/-- The annotations show the entries, and those on the list are in the order of the entries. -/
structure Mirrors (db : Firestore) (l : EditTrip) : Prop where
  shows : ∀ r < l.next, ∃ e, db.entries.lookup (l.id r) = some e ∧
    (l.heap r).shown = (.ofEntry (l.id r) e : CustomAnnotation).shown ∧
    (l.heap r).order = e.entryOrder
  sorted : l.entryList.Pairwise fun r s => (l.heap r).order ≤ (l.heap s).order
  deleteList : l.deleteList = []

section

variable {db db₀ : Firestore} {l l' : EditTrip} {t : TripID} {uid : Uid} {lower upper : Set Uid}
  {x x' : Direct Firestore EditTrip Callback}

theorem id_eq_of_shown {r : ℕ} (h : (l'.heap r).shown = (l.heap r).shown) : l'.id r = l.id r := by
  have := congrArg CustomAnnotation.entryID h
  exact this

/-- The annotations look as before. -/
theorem Mirrors.keep (h : Mirrors db l) (hnext : l'.next = l.next)
    (hheap : ∀ r, (l'.heap r).shown = (l.heap r).shown ∧ (l'.heap r).order = (l.heap r).order)
    (hlist : l'.entryList = l.entryList ∨
      l'.entryList.Pairwise fun r s => (l'.heap r).order ≤ (l'.heap s).order)
    (hdel : l'.deleteList = l.deleteList) : Mirrors db l' where
  shows r hr := by
    obtain ⟨e, he, hshown, horder⟩ := h.shows r (hnext ▸ hr)
    rw [id_eq_of_shown (hheap r).1]
    exact ⟨e, he, (hheap r).1.trans hshown, (hheap r).2.trans horder⟩
  sorted := by
    rcases hlist with hlist | hlist
    · rw [hlist]
      refine h.sorted.imp fun {r s} hrs => ?_
      rw [(hheap r).2, (hheap s).2]
      exact hrs
    · exact hlist
  deleteList := hdel.trans h.deleteList

theorem Mirrors.set (h : Mirrors db l) {r : ℕ} {a : CustomAnnotation}
    (hshown : a.shown = (l.heap r).shown) (horder : a.order = (l.heap r).order) :
    Mirrors db (l.set r a) := by
  refine h.keep rfl (fun s => ?_) (Or.inl rfl) rfl
  by_cases hs : s = r
  · rw [hs, heap_set_self]
    exact ⟨hshown, horder⟩
  · rw [heap_set_ne hs]
    exact ⟨rfl, rfl⟩

/-- An entry arrives while the list is still empty. -/
theorem Mirrors.entryFetched (h : Mirrors db l) (hlist : l.entryList = []) {id : EntryID}
    {d : EntryDoc} (hd : db.entries.lookup id = some d) {res : EditTrip × List Cmd}
    (hres : EditTrip.entryFetched id d l = some res) : Mirrors db res.1 := by
  obtain ⟨t, cover, a, -, hcover, rfl, rfl⟩ := entryFetched_eq_some hres
  have hnil : l.entryList = [] := hlist
  refine ⟨fun r hr => ?_, by simp [EditTrip.set, newCount, hnil], h.deleteList⟩
  by_cases hrn : r = l.next
  · subst hrn
    refine ⟨d, ?_, ?_, ?_⟩
    · rw [EditTrip.id, heap_set_self]
      exact hd
    · rw [EditTrip.id, heap_set_self]
      simp [hcover, CustomAnnotation.ofEntry, CustomAnnotation.shown, CustomAnnotation.content]
    · rw [heap_set_self]
      rfl
  · have hlt : r < l.next := lt_of_le_of_ne (Nat.le_of_lt_succ hr) hrn
    rw [EditTrip.id, heap_set_ne hrn]
    exact h.shows r hlt

/-- An image arrives: with the last one, the list is filled in and sorted. -/
theorem Mirrors.imageDownloaded (h : Mirrors db l) (r c n : ℕ) (image : UIImage) :
    Mirrors db (EditTrip.imageDownloaded r c n image l) := by
  have himage : Mirrors db (l.set r { l.heap r with
      images := (l.heap r).images ++ [image]
      numPhotos := (l.heap r).images.length + 1 }) := h.set rfl rfl
  have hset : Mirrors db ((l.set r { l.heap r with
      images := (l.heap r).images ++ [image]
      numPhotos := (l.heap r).images.length + 1 }).count c) :=
    himage.keep rfl (fun _ => ⟨rfl, rfl⟩) (Or.inl rfl) rfl
  simp only [EditTrip.imageDownloaded]
  generalize (l.set r _).count c = l' at hset ⊢
  split
  · unfold appendAnnotation
    dsimp only
    split
    · refine hset.keep rfl (fun _ => ⟨rfl, rfl⟩) (Or.inr ?_) rfl
      have : Std.Total fun r s : ℕ => (l'.heap r).order ≤ (l'.heap s).order :=
        ⟨fun r s => le_total (l'.heap r).order (l'.heap s).order⟩
      have : IsTrans ℕ fun r s => (l'.heap r).order ≤ (l'.heap s).order :=
        ⟨fun _ _ _ h h' => h.trans h'⟩
      exact List.pairwise_insertionSort _ _
    · exact hset.keep rfl (fun _ => ⟨rfl, rfl⟩) (Or.inl rfl) rfl
  · exact hset

/-- **A step of the loading.** -/
theorem Mirrors.step (hp : Phase db (some t) uid lower upper x) (h : Mirrors db x.loc)
    {m : Async.Move Callback TripID Event} (ha : reading x.loc x.store m)
    (hs : DirectStep program x m x') : Mirrors db x'.loc := by
  have hsame : ∀ l', l'.heap = x.loc.heap → l'.next = x.loc.next →
      l'.entryList = x.loc.entryList → l'.deleteList = x.loc.deleteList → Mirrors db l' :=
    fun l' hheap hnext hlist hdel =>
      h.keep hnext (fun r => by simp [hheap]) (Or.inl hlist) hdel
  cases hs with
  | @event e r he =>
    change event e x.loc x.store = some r at he
    change Mirrors db r.1
    cases e with
    | viewDidLoad =>
      cases he
      exact h
    | viewWillAppear =>
      simp only [event] at he
      split at he
      · cases he
        exact h
      · split at he <;> cases he <;> exact hsame _ rfl rfl rfl rfl
    | currentUserFetched =>
      simp only [event] at he
      split at he <;> cases he <;> exact hsame _ rfl rfl rfl rfl
    | _ => exact ha.elim
  | @deliver k ok newTrip rest res hb hres =>
    change react k ok newTrip x.loc x.store = some res at hres
    change Mirrors db res.1
    have hmem : k.inert = true ∨ k ∈ active x.bag := by
      rcases hk : k.inert with _ | _
      · exact Or.inr (Multiset.mem_filter.mpr ⟨hb ▸ Multiset.mem_cons_self _ _, hk⟩)
      · exact Or.inl rfl
    cases k with
    | coverDocFetched t =>
      simp only [react] at hres
      split at hres
      · cases hres
        exact h
      · obtain ⟨url, -, rfl⟩ := Option.map_eq_some_iff.mp hres
        exact h
    | coverDownloaded url =>
      simp only [react] at hres
      split at hres <;> cases hres <;> exact hsame _ rfl rfl rfl rfl
    | tripFetched t =>
      simp only [react] at hres
      split at hres <;> cases hres <;> exact hsame _ rfl rfl rfl rfl
    | entryFetched id =>
      simp only [react] at hres
      split at hres
      · cases hres
        exact h
      · rename_i d hd
        split at hd
        · rw [hp.store] at hd
          refine h.entryFetched ?_ hd hres
          -- an entry is only waited for while nothing is on the list
          have hact := hmem.resolve_left (by simp [Callback.inert])
          rcases hp.phase with ⟨t', -, hw⟩ | ⟨t', d', -, -, hf⟩ | hed
          · exact hw.entryList
          · exact hf.entryList
          · rw [hed.bag] at hact
            exact absurd hact (Multiset.notMem_zero _)
        · cases hd
    | entryCoverDownloaded r url =>
      simp only [react] at hres
      split at hres <;> cases hres
      · exact h
      · exact h.set rfl rfl
    | imageDownloaded r c n url =>
      simp only [react] at hres
      split at hres <;> cases hres
      · exact h
      · exact h.imageDownloaded r c n _
    | usernameFetched r uid =>
      cases hres
      exact h.set rfl rfl
    | _ =>
      exfalso
      have hact := hmem.resolve_left (by simp [Callback.inert])
      rcases hp.phase with ⟨t', -, hw⟩ | ⟨t', d', -, -, hf⟩ | hed
      · rcases hw.bag with hz | ⟨hz, -⟩ <;> simp [hz] at hact
      · rcases hf.bag _ hact with ⟨id, hk⟩ | ⟨r, c, n, url, hk⟩ <;> cases hk
      · rw [hed.bag] at hact
        exact Multiset.notMem_zero _ hact

/-- A list of ids that is sorted by the orders of its entries is the numbered one. -/
theorem eq_of_numbered {ids ids' : List EntryID} (hn : db.Numbered ids) (hperm : ids'.Perm ids)
    (hs : ids'.Pairwise fun id id' => (TripInfo.annotationOf db id).order ≤
      (TripInfo.annotationOf db id').order) : ids' = ids := by
  have hmap := TripInfo.eq_map_annotationOf hn (hperm.map (TripInfo.annotationOf db))
    (List.pairwise_map.mpr hs)
  have hid : ∀ id ∈ ids, (TripInfo.annotationOf db id).entryID = id := by
    intro id hid
    obtain ⟨i, hi⟩ := List.mem_iff_getElem?.mp hid
    obtain ⟨e, he, -⟩ := hn i id hi
    rw [TripInfo.annotationOf_eq he]
    rfl
  have hself : ∀ l : List EntryID, (∀ id ∈ l, id ∈ ids) →
      (l.map (TripInfo.annotationOf db)).map CustomAnnotation.entryID = l := fun l hl => by
    rw [List.map_map]
    exact (List.map_congr_left fun id h => hid id (hl id h)).trans (List.map_id' l)
  have hids := congrArg (List.map CustomAnnotation.entryID) hmap
  rwa [hself ids' fun id h => hperm.mem_iff.mp h, hself ids fun id h => h] at hids

end

/-! ## Loading and saving -/

section

variable {db : Firestore} {t : TripID} {d : TripDoc} {currentUser : User} {bucket : Bucket}
  {now : Timestamp} {lbls : List (Label TripID Event)}
  {st₀ st₁ st₂ : State Firestore EditTrip Write Callback}

/-- The trip and its entries are as every save leaves them. -/
structure AsSaved (uid : Uid) (t : TripID) (d : TripDoc) (db : Firestore) : Prop where
  trip : db.trips.lookup t = some d
  nodup : d.entries.Nodup
  numbered : db.Numbered d.entries
  entries : ∀ id ∈ d.entries, ∃ e, db.entries.lookup id = some e ∧ e.entryID = id ∧
    e.userID = uid ∧ e.tripID = some t

theorem LeftBySave.asSaved {uid : Uid} (h : LeftBySave uid t d db) : AsSaved uid t d db := by
  obtain ⟨db₀, currentUser, tripID, bucket, now, lbls, st₀, st₁, st₂, rfl, huser, hnd, htrip, hrun,
    hd, hdb, hentries⟩ := h
  have hall : ∀ feeds, Between ∅ Set.univ feeds := fun _ => ⟨by simp, by simp⟩
  obtain ⟨hp, -⟩ := phase_of_trace hnd (hall _) (fun _ _ => hall _) hrun.trace
  obtain ⟨userData, hdata⟩ := Option.ne_none_iff_exists'.mp huser
  have hdata' : ∃ userData, db₀.users.lookup currentUser.uid = some userData ∧
      Between ∅ Set.univ (userData.followers ++ [currentUser.uid]) := ⟨userData, hdata, hall _⟩
  obtain ⟨t', htarget, hs⟩ :=
    hp.saved hrun.editable hdata' hrun.fields hrun.press hrun.run hrun.quiescent
  have hnodup : st₀.loc.ids.Nodup := (hp.ready hrun.editable hdata' hrun.fields).nodup
  obtain rfl : t' = t := by
    rcases htrip with htrip | ⟨hnone, hnew⟩
    · rcases htarget with h | ⟨h, -⟩
      · exact Option.some.inj (h.symm.trans htrip)
      · cases h.symm.trans htrip
    · by_contra hne
      have hlookup := hs.stored.trips t fun h => hne (Option.some.inj h)
      rw [hd, hnew] at hlookup
      cases hlookup
  obtain ⟨d', hd', hids⟩ := hs.listed
  obtain rfl : d' = d := Option.some.inj (hd'.symm.trans hd)
  rw [← hids] at hnodup
  refine ⟨hdb, hnodup, fun i id hi => ?_, fun id hid => ?_⟩
  · rw [hentries id (List.mem_of_getElem? hi)]
    exact hs.numbered i id (hids ▸ hi)
  · rw [hentries id hid]
    rw [hids] at hid
    obtain ⟨e, he, ht⟩ := hs.linked id hid
    obtain ⟨r, hr, rfl⟩ := List.mem_map.mp hid
    obtain ⟨e', he', hof, -⟩ := hs.published r hr
    obtain rfl : e' = e := Option.some.inj (he'.symm.trans he)
    exact ⟨e', he', hof.entryID, hof.userID.trans hp.setting.user, ht⟩

/-- The screen when it has been loaded: it lists what the trip lists, as it is. -/
theorem mirrors_of_run (hs : AsSaved currentUser.uid t d db)
    (hrun : SaveRun reading db (opened currentUser (some t) bucket now) lbls st₀ st₁ st₂) :
    Phase db (some t) currentUser.uid ∅ Set.univ (program.direct st₀) ∧ Mirrors db st₀.loc ∧
      st₀.loc.ids = d.entries := by
  have hall : ∀ feeds, Between ∅ Set.univ feeds := fun _ => ⟨by simp, by simp⟩
  have hediting : ∀ l db m, reading l db m → editing l db m := by
    intro l db m hm
    cases m with
    | deliver k ok a => trivial
    | event e => cases e <;> trivial
  have hnd : ∀ t' d', some t = some t' → db.trips.lookup t' = some d' → d'.entries.Nodup := by
    rintro _ d' ⟨⟩ hd'
    rw [hs.trip] at hd'
    exact Option.some.inj hd' ▸ hs.nodup
  have hinv := hrun.trace.invariant (I := fun es x =>
    (Phase db (some t) currentUser.uid ∅ Set.univ x ∧ History db (some t) es x.loc) ∧
      Mirrors db x.loc ∧ ∀ e ∈ es, e.isEdit = false)
    (fun es x m x' ⟨⟨hp, hh⟩, hm, hes⟩ ha hstep =>
      ⟨⟨hp.step hnd (fun _ _ => hall _) (hediting _ _ _ ha) hstep,
        History.step hp hh (hediting _ _ _ ha) hstep⟩, hm.step hp ha hstep, ?_⟩) []
    ⟨⟨Phase.opened bucket now (hall _), History.opened db (some t) currentUser bucket now⟩,
      ⟨fun r hr => absurd hr (Nat.not_lt_zero r), List.Pairwise.nil, rfl⟩, by simp⟩
  · rw [List.nil_append] at hinv
    obtain ⟨⟨hp, hh⟩, hm, hes⟩ := hinv
    have hm : Mirrors db st₀.loc := hm
    have hed : Editing db (some t) st₀.loc _ := hp.of_editable hrun.editable
    refine ⟨hp, hm, eq_of_numbered hs.numbered ?_ ?_⟩
    · refine (List.perm_ext_iff_of_nodup ?_ hs.nodup).mpr fun id => ⟨fun hid => ?_, fun hid => ?_⟩
      · exact hed.nodup.map_on fun r hr s hs he =>
          hp.setting.inj r (hed.bound r (Or.inl hr)) s (hed.bound s (Or.inl hs)) he
      · obtain ⟨r, hr, rfl⟩ := List.mem_map.mp hid
        rcases hh.origin r (hed.bound r (Or.inl hr)) with ⟨t', d', ht', hd', hmem⟩ | ⟨form, hform⟩
        · cases ht'
          rw [hs.trip] at hd'
          exact Option.some.inj hd' ▸ hmem
        · exact absurd (hes _ hform) (by simp [Event.isEdit])
      · obtain ⟨r, hr, rfl⟩ := hed.orig t d rfl hs.trip id hid
        rcases hed.covered r hr with hmem | hmem | hnew
        · exact List.mem_map_of_mem hmem
        · rw [hm.deleteList] at hmem
          cases hmem
        · exact absurd hid (hnew.2 t d rfl hs.trip)
    · refine List.pairwise_map.mpr (hm.sorted.imp_of_mem fun {r s} hr hs' hle => ?_)
      obtain ⟨e, he, -, hor⟩ := hm.shows r (hed.bound r (Or.inl hr))
      obtain ⟨e', he', -, hor'⟩ := hm.shows s (hed.bound s (Or.inl hs'))
      rw [TripInfo.annotationOf_eq he, TripInfo.annotationOf_eq he']
      rw [hor, hor'] at hle
      exact hle
  · intro e he
    rcases List.mem_append.mp he with he | he
    · exact hes e he
    · cases m with
      | deliver k ok a => cases he
      | event e' =>
        obtain rfl : e = e' := by simpa [Async.Move.event?] using he
        cases e <;> first | rfl | exact ha.elim

/-- **What becomes of an entry** of a trip that is loaded and saved: it loses its name. -/
theorem reloaded (hleft : AsSaved currentUser.uid t d db)
    (huser : db.users.lookup currentUser.uid ≠ none)
    (hold : ∀ id ∈ d.entries, ∀ e, db.entries.lookup id = some e → e.timestamp < now)
    (hrun : SaveRun reading db (opened currentUser (some t) bucket now) lbls st₀ st₁ st₂)
    {id : EntryID} (hid : id ∈ d.entries) {e : EntryDoc} (he : db.entries.lookup id = some e) :
    ∃ e', st₂.store.entries.lookup id = some e' ∧ e'.text = { e.text with username := none } := by
  have hall : ∀ feeds, Between ∅ Set.univ feeds := fun _ => ⟨by simp, by simp⟩
  obtain ⟨hp, hm, hids⟩ := mirrors_of_run hleft hrun
  obtain ⟨userData, hdata⟩ := Option.ne_none_iff_exists'.mp huser
  obtain ⟨t', htarget, hs⟩ := hp.saved hrun.editable ⟨userData, hdata, hall _⟩ hrun.fields
    hrun.press hrun.run hrun.quiescent
  obtain rfl : t = t' := by simpa using htarget
  obtain ⟨htime, hnames⟩ := unsigned_of_run hold hrun
  obtain ⟨i, hi⟩ := List.mem_iff_getElem?.mp hid
  -- the old document
  obtain ⟨e₁, he₁, heid, heuser, hetrip⟩ := hleft.entries id hid
  obtain rfl : e₁ = e := Option.some.inj (he₁.symm.trans he)
  obtain ⟨e₂, he₂, horder⟩ := hleft.numbered i id hi
  obtain rfl : e₂ = e₁ := Option.some.inj (he₂.symm.trans he₁)
  -- the new one
  obtain ⟨e', he', horder'⟩ := hs.numbered i id (hids ▸ hi)
  obtain ⟨e₃, he₃, htrip'⟩ := hs.linked id (hids ▸ hid)
  obtain rfl : e₃ = e' := Option.some.inj (he₃.symm.trans he')
  rw [← hids] at hid
  obtain ⟨r, hr, rfl⟩ := List.mem_map.mp hid
  obtain ⟨e₄, he₄, hof, hnow, -⟩ := hs.published r hr
  obtain rfl : e₄ = e₃ := Option.some.inj (he₄.symm.trans he₃)
  have hname : e₄.username = none :=
    hnames _ (hids ▸ hid) e₄ he₄ (htime.trans hnow)
  -- the annotation in between
  obtain ⟨e₅, he₅, hshown, -⟩ :=
    hm.shows r ((hp.of_editable hrun.editable).bound r (Or.inl hr))
  obtain rfl : e₅ = e₂ := Option.some.inj (he₅.symm.trans he₂)
  simp only [true_and, and_true, CustomAnnotation.shown, CustomAnnotation.content,
    CustomAnnotation.ofEntry, CustomAnnotation.mk.injEq] at hshown
  obtain ⟨hlocation, hcoordinate, htitle, htext, hcover⟩ := hshown
  refine ⟨e₄, he₄, ?_⟩
  simp only [EntryDoc.text, EntryDoc.mk.injEq, and_true, true_and]
  exact ⟨hof.coordinates.trans hcoordinate, hof.coverPhoto.trans hcover,
    hof.description.trans htext, hof.entryName.trans htitle, horder'.trans horder.symm,
    hof.entryID.trans heid.symm, hof.locationName.trans hlocation,
    (hof.userID.trans hp.setting.user).trans heuser.symm, hname, htrip'.trans hetrip.symm⟩

/-- **Loading and saving keeps the text of the entries** of a trip that a save of the same user has
left, if and only if none of them had a name. -/
theorem text_kept_iff (hleft : LeftBySave currentUser.uid t d db)
    (huser : db.users.lookup currentUser.uid ≠ none)
    (hold : ∀ id ∈ d.entries, ∀ e, db.entries.lookup id = some e → e.timestamp < now)
    (hrun : SaveRun reading db (opened currentUser (some t) bucket now) lbls st₀ st₁ st₂) :
    (∀ id ∈ d.entries, (st₂.store.entries.lookup id).map EntryDoc.text =
        (db.entries.lookup id).map EntryDoc.text) ↔
      ∀ id ∈ d.entries, ∀ e, db.entries.lookup id = some e → e.username = none := by
  have hs := hleft.asSaved
  constructor
  · intro h id hid e he
    obtain ⟨e', he', htext⟩ := reloaded hs huser hold hrun hid he
    have hkept := h id hid
    rw [he, he', Option.map_some, Option.map_some, htext, Option.some.injEq] at hkept
    exact (congrArg EntryDoc.username hkept).symm
  · intro h id hid
    obtain ⟨e, he, -⟩ := hs.entries id hid
    obtain ⟨e', he', htext⟩ := reloaded hs huser hold hrun hid he
    rw [he, he', Option.map_some, Option.map_some, htext, ← h id hid e he]
    rfl

end

/-! ## Two runs -/

/-- A new trip with one entry, the name of whose author is fetched or not. -/
def sampleNewTrip (ok : Bool) : List (Label TripID Event) :=
  [.event (Event.addAnnotation (sampleForm "a") "a"), .deliver 0 ok "",
    .event (.editTripName "trip"), .event (.selectTripCover (some (.ofData "cover")))]

def sampleNewAnswers : List (Label TripID Event) :=
  [.deliver 0 true "t", .deliver 0 true "t", .apply, .apply, .apply, .deliver 0 true "t",
    .deliver 0 true "t", .apply, .apply, .apply, .deliver 0 true "", .deliver 0 true "", .apply,
    .deliver 0 true "", .apply, .deliver 0 true ""]

/-- The trip is opened again, and all of it arrives. -/
def sampleReading : List (Label TripID Event) :=
  [.event .viewDidLoad, .event .viewWillAppear, .deliver 0 true "", .deliver 0 true "",
    .deliver 0 true "", .deliver 0 true "", .deliver 0 true "", .deliver 0 true ""]

def sampleReadAnswers : List (Label TripID Event) :=
  [.apply, .apply, .deliver 0 true "", .deliver 0 true "", .deliver 0 true "", .apply,
    .deliver 0 true "", .apply, .deliver 0 true "", .apply, .apply, .apply, .deliver 0 true "",
    .deliver 0 true "", .deliver 0 true "", .apply, .deliver 0 true "", .apply,
    .deliver 0 true "", .deliver 0 true "", .apply, .deliver 0 true "", .apply,
    .deliver 0 true ""]

/-- The screen before the press of a run, and after it. -/
def sampleSaveRun (allowed : EditTrip → Firestore → Async.Move Callback TripID Event → Prop)
    [∀ l db, DecidablePred (allowed l db)] (lbls answers : List (Label TripID Event))
    (db : Firestore) (opened : EditTrip) : Option (State Firestore EditTrip Write Callback) :=
  (exec program allowed lbls (start db opened)).bind fun st₀ =>
    if st₀.loc.Editable ∧ st₀.loc.emptyField = false then
      (program.step (.event .saveButtonPressed) st₀).bind (exec program settling answers)
    else none

/-- Such a run, when everything has been answered. -/
theorem saveRun_of_sample
    {allowed : EditTrip → Firestore → Async.Move Callback TripID Event → Prop}
    [∀ l db, DecidablePred (allowed l db)] {lbls answers : List (Label TripID Event)}
    {db : Firestore} {opened : EditTrip} {st₂ : State Firestore EditTrip Write Callback}
    (h : sampleSaveRun allowed lbls answers db opened = some st₂) (hq : Quiescent st₂) :
    ∃ st₀ st₁, SaveRun allowed db opened lbls st₀ st₁ st₂ := by
  obtain ⟨st₀, h₀, h⟩ := Option.bind_eq_some_iff.mp h
  split at h
  · rename_i hready
    obtain ⟨st₁, h₁, h₂⟩ := Option.bind_eq_some_iff.mp h
    exact ⟨st₀, st₁, trace_of_exec h₀, hready.1, hready.2, h₁, ⟨_, trace_of_exec h₂⟩, hq⟩
  · cases h

def sampleLeft (ok : Bool) : Option (State Firestore EditTrip Write Callback) :=
  sampleSaveRun editing (sampleNewTrip ok) sampleNewAnswers sampleDatabase
    (opened sampleUser none ∅ 0)

def sampleReload (st : State Firestore EditTrip Write Callback) :
    Option (State Firestore EditTrip Write Callback) :=
  sampleSaveRun reading sampleReading sampleReadAnswers st.store
    (opened sampleUser (some "t") st.loc.bucket st.loc.now)

/-- The trip is saved, opened again and saved. -/
theorem sample_reload (ok : Bool) : ∃ st ∈ sampleLeft ok, ∃ st₂ ∈ sampleReload st, ∃ d st₀ st₁,
    LeftBySave "ann" "t" d st.store ∧ d.entries = ["a"] ∧
      SaveRun reading st.store (opened sampleUser (some "t") st.loc.bucket st.loc.now)
        sampleReading st₀ st₁ st₂ := by
  have hruns : ∀ ok, ∃ st ∈ sampleLeft ok, Quiescent st ∧
      (st.store.trips.lookup "t").map TripDoc.entries = some ["a"] ∧
      ∃ st₂ ∈ sampleReload st, Quiescent st₂ := by
    decide +kernel
  obtain ⟨st, hst, hq, hids, st₂, hst₂, hq₂⟩ := hruns ok
  obtain ⟨d, hd, hids⟩ := Option.map_eq_some_iff.mp hids
  obtain ⟨st₀', st₁', hrun⟩ := saveRun_of_sample hst hq
  obtain ⟨st₀, st₁, hrun₂⟩ := saveRun_of_sample hst₂ hq₂
  exact ⟨st, hst, st₂, hst₂, d, st₀, st₁,
    ⟨sampleDatabase, sampleUser, none, ∅, 0, _, st₀', st₁', st, rfl, by decide +kernel,
      fun _ _ h => absurd h (Option.some_ne_none _).symm, Or.inr ⟨rfl, rfl⟩, hrun, hd, hd,
      fun _ _ => rfl⟩, hids, hrun₂⟩

/-- The author has not been fetched: saving again changes nothing. -/
theorem text_kept_sample : ∃ st ∈ sampleLeft false, ∃ st₂ ∈ sampleReload st,
    (st₂.store.entries.lookup "a").map EntryDoc.text =
      (st.store.entries.lookup "a").map EntryDoc.text := by
  obtain ⟨st, hst, st₂, hst₂, d, st₀, st₁, hleft, hids, hrun⟩ := sample_reload false
  have hentry : ∀ st ∈ sampleLeft false, st.store.users.lookup "ann" ≠ none ∧
      ∀ e ∈ st.store.entries.lookup "a", e.timestamp < st.loc.now ∧ e.username = none := by
    decide +kernel
  obtain ⟨huser, hentry⟩ := hentry st hst
  have hold : ∀ id ∈ d.entries, ∀ e, st.store.entries.lookup id = some e →
      e.timestamp < st.loc.now := by
    intro id hid e he
    obtain rfl : id = "a" := by simpa [hids] using hid
    exact (hentry e he).1
  have hiff := text_kept_iff hleft huser hold hrun
  refine ⟨st, hst, st₂, hst₂, hiff.mpr (fun id hid e he => ?_) "a" (by simp [hids])⟩
  obtain rfl : id = "a" := by simpa [hids] using hid
  exact (hentry e he).2

/-- **Saving again loses the name**: a trip that has just been saved is opened, loaded and saved
without an edit, and the document of its entry is not what it was. -/
theorem name_lost : ∃ (db : Firestore) (d : TripDoc) (bucket : Bucket) (now : Timestamp)
    (st₀ st₁ st₂ : State Firestore EditTrip Write Callback), LeftBySave "ann" "t" d db ∧
      SaveRun reading db (opened sampleUser (some "t") bucket now) sampleReading st₀ st₁ st₂ ∧
      ∃ id ∈ d.entries, (st₂.store.entries.lookup id).map EntryDoc.text ≠
        (db.entries.lookup id).map EntryDoc.text := by
  obtain ⟨st, hst, st₂, hst₂, d, st₀, st₁, hleft, hids, hrun⟩ := sample_reload true
  have hname : ∀ st ∈ sampleLeft true, ∀ st₂ ∈ sampleReload st,
      (st₂.store.entries.lookup "a").map EntryDoc.text ≠
        (st.store.entries.lookup "a").map EntryDoc.text := by decide +kernel
  exact ⟨st.store, d, st.loc.bucket, st.loc.now, st₀, st₁, st₂, hleft, hrun, "a", by simp [hids],
    hname st hst st₂ hst₂⟩

end EditTrip

end Wanderlust
