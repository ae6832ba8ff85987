import Wanderlust.Entries.CustomAnnotation
import Mathlib.Logic.Function.Basic
import Mathlib.Data.List.Sort

/-!
# The screen of a trip

`TripInfoViewController`: it shows the entries of a trip in order, and lets its owner delete the
trip with all of its entries. The list `tempAnnotations` of each call of `loadEntryData` is a
variable of its own; `temps` holds them.

`loadEntryData_sorted` says that the entries come out in order whatever the order in which they
arrive, and `deleted_of_completes` what is gone when a deletion is complete.
-/

namespace Wanderlust

open Async

/-- What `TripInfoViewController` presents over itself. -/
inductive TripAlert
  | actionSheet
  | sureToDelete
  deriving DecidableEq

/-- The state of the screen, with the globals and the Storage objects that it uses. -/
structure TripInfo where
  /-- The signed-in user, if the trip has been loaded. -/
  user : Uid
  currentUser : User
  tripId : TripID
  trip : Option TripDoc
  tripUser : Option User
  customAnnotations : List CustomAnnotation
  /-- `mapView.annotations`. -/
  annotations : List CustomAnnotation
  /-- The polylines of `mapView.overlays`. -/
  overlays : List (List GeoPoint)
  favorite : Bool
  /-- Whether the settings button is in the navigation bar. -/
  settingsButton : Bool
  presented : Option TripAlert
  temps : ℕ → List CustomAnnotation
  nextTemp : ℕ
  bucket : Bucket
  popped : Bool

namespace TripInfo

inductive Callback
  | tripFetched
  | tripUserFetched (uid : Uid)
  | entryFetched (temp count : ℕ) (id : EntryID)
  -- `deleteTrip` and `deleteEntry`
  | tripToDeleteFetched (t : TripID)
  | entryToDeleteFetched (id : EntryID)
  | objectDeleted (path : String)
  | tripsUpdated
  deriving DecidableEq

inductive Event
  | viewWillAppear
  | favoriteButtonPressed
  | barButtonPressed
  | deletePressed
  | cancelPressed
  | deleteConfirmed
  | currentUserFetched

abbrev Cmd := Async.Cmd Write Callback
abbrev Handler := Async.Handler TripInfo Write Callback

/-- The screen when it is pushed. -/
def opened (user : Uid) (currentUser : User) (tripId : TripID) (bucket : Bucket) : TripInfo where
  user := user
  currentUser := currentUser
  tripId := tripId
  trip := none
  tripUser := none
  customAnnotations := []
  annotations := []
  overlays := []
  favorite := false
  settingsButton := true
  presented := none
  temps := fun _ => []
  nextTemp := 0
  bucket := bucket
  popped := false

/-- The users whose newsfeeds an entry is deleted from. -/
def feeds (l : TripInfo) : List Uid := l.currentUser.followers ++ [l.currentUser.uid]

/-! ## Showing the trip -/

/-- `customAnnotations` is set, with its observer. -/
def setCustomAnnotations (annotations : List CustomAnnotation) (l : TripInfo) : TripInfo :=
  { l with
    customAnnotations := annotations
    overlays := if annotations = [] then l.overlays
      else l.overlays ++ [annotations.map CustomAnnotation.coordinate] }

/-- `loadTripData`. -/
def loadTripData : Handler := fun l =>
  ({ l with customAnnotations := [], annotations := [], overlays := [] }, [.request .tripFetched])

/-- `loadEntryData`. -/
def loadEntryData (entryIds : List EntryID) : Handler := fun l =>
  ({ l with temps := Function.update l.temps l.nextTemp [], nextTemp := l.nextTemp + 1 },
    entryIds.map fun id => .request (.entryFetched l.nextTemp entryIds.length id))

/-- The closure of `loadEntryData` that is given an entry: when all are there, they are sorted and
shown. -/
def entryFetched (temp count : ℕ) (a : CustomAnnotation) (l : TripInfo) : TripInfo :=
  let l := { l with annotations := l.annotations ++ [a] }
  let tempAnnotations := l.temps temp ++ [a]
  if tempAnnotations.length = count then
    let sorted := tempAnnotations.insertionSort fun a b => a.order ≤ b.order
    setCustomAnnotations sorted { l with temps := Function.update l.temps temp sorted }
  else { l with temps := Function.update l.temps temp tempAnnotations }

/-- The closure of `loadTripData`. It traps on a trip without a cover, and for a user without a
list of favorites. -/
def tripFetched (d : TripDoc) : TripInfo → Option (TripInfo × List Cmd) := fun l =>
  match d.coverPhoto, l.currentUser.favorites with
  | some _, some favorites =>
    some (((Handler.modify fun l =>
        { l with trip := some d, favorite := l.tripId ∈ favorites }).andThen
      ((Handler.issue fun _ => [.request (.tripUserFetched d.userID)]).andThen
        (loadEntryData d.entries))) l)
  | _, _ => none

/-- What the closure does to the screen, and what it asks for. -/
theorem tripFetched_eq_some {d : TripDoc} {l : TripInfo} {r : TripInfo × List Cmd}
    (h : tripFetched d l = some r) : ∃ favorite,
    r = ({ l with
        trip := some d
        favorite := favorite
        temps := Function.update l.temps l.nextTemp []
        nextTemp := l.nextTemp + 1 },
      .request (.tripUserFetched d.userID) ::
        d.entries.map fun id => .request (.entryFetched l.nextTemp d.entries.length id)) := by
  unfold tripFetched at h
  split at h
  · cases h
    exact ⟨_, rfl⟩
  · cases h

/-- `favoriteButtonPressed`. It traps when the trip is to be removed from favorites that it is not
among. -/
def favoriteButtonPressed : TripInfo → Option (TripInfo × List Cmd) := fun l =>
  let l := { l with favorite := !l.favorite }
  let favorites := l.currentUser.favorites.getD []
  if l.favorite then
    some (l, [.write (.updateUser l.currentUser.uid fun d =>
      { d with favorites := some (favorites ++ [l.tripId]) }) none])
  else if l.tripId ∈ favorites then
    some (l, [.write (.updateUser l.currentUser.uid fun d =>
      { d with favorites := some (favorites.erase l.tripId) }) none])
  else none

/-! ## Deleting the trip -/

/-- `deleteEntry`. -/
def deleteEntry (id : EntryID) : Handler := .issue fun l =>
  (l.feeds.map fun followerUid => .write (.deleteFeed followerUid id) none) ++
    [.request (.entryToDeleteFetched id)]

/-- The closure of `deleteTrip` that is given the trip. -/
def deleteTrip (t : TripID) (d : TripDoc) : Handler :=
  (Handler.forEach deleteEntry d.entries).andThen (.issue fun l =>
    [.write (.updateUser l.currentUser.uid fun u =>
        { u with trips := l.currentUser.trips.filter fun t' => t' ≠ t }) (some .tripsUpdated),
      .write (.deleteTrip t) none])

/-- The closure of `deleteEntry` that is given the entry. -/
def entryToDeleteFetched (id : EntryID) (entry : EntryDoc) : Handler := .issue fun l =>
  ((List.range (entry.mediaList.length + 1)).map fun index =>
    .request (.objectDeleted (imagePath l.currentUser.uid id index))) ++
    [.write (.deleteEntry id) none]

/-! ## The program -/

/-- The code of the closures. -/
def react : Callback → Bool → Unit → TripInfo → Firestore → Option (TripInfo × List Cmd)
  | .tripFetched, ok, _, l, db =>
    match if ok then db.trips.lookup l.tripId else none with
    | none => some (l, [])
    | some d => tripFetched d l
  | .tripUserFetched uid, ok, _, l, db =>
    let tripUser := if ok then db.fetchUser uid else none
    some ({ l with
      tripUser := tripUser
      settingsButton := tripUser.map (fun user => user.uid) = some l.user }, [])
  | .entryFetched temp count id, ok, _, l, db =>
    match if ok then db.entries.lookup id else none with
    | none => some (l, [])
    | some e => some (entryFetched temp count (.ofEntry id e) l, [])
  | .tripToDeleteFetched t, ok, _, l, db =>
    match if ok then db.trips.lookup t else none with
    -- `(trip?.entries)!` traps
    | none => none
    | some d => some (if d.coverPhoto.isSome then deleteTrip t d l else (l, []))
  | .entryToDeleteFetched id, ok, _, l, db =>
    match if ok then db.entries.lookup id else none with
    | none => some (l, [])
    | some e => some (entryToDeleteFetched id e l)
  | .objectDeleted path, ok, _, l, _ =>
    some (if ok then { l with bucket := l.bucket.erase path } else l, [])
  | .tripsUpdated, ok, _, l, _ => some ({ l with popped := l.popped || ok }, [])

/-- The code of the user's actions. -/
def event : Event → TripInfo → Firestore → Option (TripInfo × List Cmd)
  | .viewWillAppear, l, _ => some (loadTripData l)
  | .favoriteButtonPressed, l, _ => favoriteButtonPressed l
  | .barButtonPressed, l, _ =>
    if l.settingsButton then some ({ l with presented := some .actionSheet }, []) else none
  | .deletePressed, l, _ =>
    if l.presented = some .actionSheet then some ({ l with presented := some .sureToDelete }, [])
    else none
  | .cancelPressed, l, _ => some ({ l with presented := none }, [])
  | .deleteConfirmed, l, _ =>
    if l.presented = some .sureToDelete then
      some ({ l with presented := none }, [.request (.tripToDeleteFetched l.tripId)])
    else none
  | .currentUserFetched, l, db =>
    match db.fetchUser l.user with
    | none => some (l, [])
    | some user => some ({ l with currentUser := user }, [])

/-- `TripInfoViewController`. -/
def program : Program Firestore TripInfo Write Callback Unit Event where
  apply := Write.apply
  react := react
  event := event

/-! ## The trip is shown -/

/-- The steps that are considered while the entries of a trip are loaded: every answer is a
success. -/
def showing (_ : TripInfo) (_ : Firestore) : Async.Move Callback Unit Event → Prop
  | .event _ => False
  | .deliver _ ok _ => ok = true

instance (l : TripInfo) (db : Firestore) : DecidablePred (showing l db)
  | .event _ => inferInstanceAs (Decidable False)
  | .deliver _ ok _ => inferInstanceAs (Decidable (ok = true))

/-- The annotation of an entry that exists. -/
def annotationOf (db : Firestore) (id : EntryID) : CustomAnnotation :=
  ((db.entries.lookup id).map fun e => CustomAnnotation.ofEntry id e).getD default

/-- One call of `loadEntryData`, with `temp` for its list: what has arrived is on the list, and
the entries of `pending` are on their way. -/
structure Showing (db : Firestore) (ids : List EntryID) (temp : ℕ) (pending : Multiset EntryID)
    (x : Direct Firestore TripInfo Callback) : Prop where
  store : x.store = db
  bag : x.bag = pending.map (Callback.entryFetched temp ids.length)
  subset : ∀ id ∈ pending, id ∈ ids
  arrived : ↑(x.loc.temps temp) + pending.map (annotationOf db) =
    (↑(ids.map (annotationOf db)) : Multiset CustomAnnotation)
  shown : pending = 0 → ids ≠ [] → x.loc.customAnnotations = x.loc.temps temp ∧
    (x.loc.temps temp).Pairwise fun a b => a.order ≤ b.order

section

variable {db : Firestore} {ids : List EntryID} {temp : ℕ} {pending : Multiset EntryID}
  {x x' : Direct Firestore TripInfo Callback}

theorem annotationOf_eq {id : EntryID} {e : EntryDoc} (h : db.entries.lookup id = some e) :
    annotationOf db id = .ofEntry id e := by simp [annotationOf, h]

theorem Showing.entryFetched {id : EntryID} {rest : Multiset Callback}
    (h : Showing db ids temp (id ::ₘ pending) x) (hrest : rest = pending.map
      (Callback.entryFetched temp ids.length)) :
    Showing db ids temp pending (program.after
      (TripInfo.entryFetched temp ids.length (annotationOf db id) x.loc, [])
      { x with bag := rest }) := by
  have harr : ↑(x.loc.temps temp ++ [annotationOf db id]) + pending.map (annotationOf db) =
      (↑(ids.map (annotationOf db)) : Multiset CustomAnnotation) := by
    rw [← h.arrived, Multiset.map_cons, ← Multiset.coe_add, Multiset.coe_singleton,
      Multiset.add_cons, ← Multiset.cons_add, ← Multiset.singleton_add, add_comm {_}]
  have hcard : (x.loc.temps temp ++ [annotationOf db id]).length + pending.card = ids.length := by
    have := congrArg Multiset.card harr
    simpa using this
  refine ⟨h.store, by simp [Program.after, hrest], fun id' hid' =>
    h.subset id' (Multiset.mem_cons_of_mem hid'), ?_, fun hp _ => ?_⟩
  · simp only [Program.after, TripInfo.entryFetched]
    split
    · rw [← harr, setCustomAnnotations]
      simp only [Function.update_self]
      congr 1
      exact Multiset.coe_eq_coe.mpr (List.perm_insertionSort _ _)
    · simp only [Function.update_self]
      exact harr
  · have hlast : (x.loc.temps temp ++ [annotationOf db id]).length = ids.length := by
      rw [← hcard, hp, Multiset.card_zero, add_zero]
    simp only [Program.after, TripInfo.entryFetched, if_pos hlast, setCustomAnnotations,
      Function.update_self, true_and]
    have : Std.Total fun a b : CustomAnnotation => a.order ≤ b.order :=
      ⟨fun a b => le_total a.order b.order⟩
    have : IsTrans CustomAnnotation fun a b => a.order ≤ b.order := ⟨fun _ _ _ h h' => h.trans h'⟩
    exact List.pairwise_insertionSort _ _

/-- One entry arrives. -/
theorem Showing.step (hids : db.Numbered ids) (h : Showing db ids temp pending x)
    {m : Async.Move Callback Unit Event} (ha : showing x.loc x.store m)
    (hs : DirectStep program x m x') : ∃ pending', Showing db ids temp pending' x' := by
  cases hs with
  | event => exact ha.elim
  | @deliver k ok a rest r hb hr =>
    rw [h.bag] at hb
    obtain ⟨id, hid, rfl, hrest⟩ := (Multiset.map_eq_cons _ _ _ _).mpr hb
    obtain ⟨i, hi, hget⟩ := List.getElem_of_mem (h.subset id hid)
    obtain ⟨e, he, -⟩ := hids i id (by rw [List.getElem?_eq_getElem hi, hget])
    have hok : ok = true := ha
    simp only [program, react, h.store, hok, if_true, he, Option.some.injEq] at hr
    subst hr
    rw [← annotationOf_eq he]
    refine ⟨pending.erase id, Showing.entryFetched ?_ hrest.symm⟩
    rwa [Multiset.cons_erase hid]

/-- A numbered list is the only order in which its annotations are sorted. -/
theorem eq_map_annotationOf (hids : db.Numbered ids) {as : List CustomAnnotation}
    (hperm : as.Perm (ids.map (annotationOf db))) (hs : as.Pairwise fun a b => a.order ≤ b.order) :
    as = ids.map (annotationOf db) := by
  have hget : ∀ i (hi : i < ids.length), (annotationOf db ids[i]).order = i := by
    intro i hi
    obtain ⟨e, he, ho⟩ := hids i ids[i] (List.getElem?_eq_getElem hi)
    rw [annotationOf_eq he]
    exact ho
  have hsorted : (ids.map (annotationOf db)).Pairwise fun a b => a.order ≤ b.order := by
    rw [List.pairwise_iff_getElem]
    intro i j hi hj hij
    rw [List.length_map] at hi hj
    rw [List.getElem_map, List.getElem_map, hget i hi, hget j hj]
    exact hij.le
  refine hperm.eq_of_pairwise (fun a b ha hb hab hba => ?_) hs hsorted
  obtain ⟨i, hi, rfl⟩ := List.getElem_of_mem (hperm.mem_iff.mp ha)
  obtain ⟨j, hj, rfl⟩ := List.getElem_of_mem hb
  rw [List.length_map] at hi hj
  simp only [List.getElem_map, hget i hi, hget j hj] at hab hba ⊢
  obtain rfl : i = j := le_antisymm hab hba
  rfl

/-- **The entries come out in order**, whatever the order in which they arrive. -/
theorem loadEntryData_sorted (hids : db.Numbered ids) (hne : ids ≠ []) (l : TripInfo)
    {st : State Firestore TripInfo Write Callback}
    (h : Reaches program showing ((start db l).call (loadEntryData ids)) st) (hq : Quiescent st) :
    st.loc.customAnnotations = ids.map (annotationOf db) := by
  have hstart : Showing db ids l.nextTemp ↑ids
      (program.direct ((start db l : State Firestore TripInfo Write Callback).call
        (loadEntryData ids))) := by
    rw [direct_call, direct_start]
    refine ⟨?_, ?_, fun id hid => hid, ?_, fun h0 => ?_⟩
    · simp [Program.after, loadEntryData]
    · simp [Program.after, loadEntryData, start, callbacks_map_request]
    · simp [Program.after, loadEntryData, start]
    · exact fun hne => absurd (Multiset.coe_eq_zero ids |>.mp h0) hne
  have hend : ∃ pending, Showing db ids l.nextTemp pending (program.direct st) :=
    h.invariant (I := fun x => ∃ pending, Showing db ids l.nextTemp pending x)
      (fun x m x' hx ha hs => hx.elim fun _ hx => hx.step hids ha hs) ⟨_, hstart⟩
  obtain ⟨pending, hend⟩ := hend
  rw [hq.direct] at hend
  have h0 : pending = 0 := Multiset.map_eq_zero.mp hend.bag.symm
  obtain ⟨hshown, hsorted⟩ := hend.shown h0 hne
  have harr := hend.arrived
  rw [h0, Multiset.map_zero, add_zero, Multiset.coe_eq_coe] at harr
  rw [hshown]
  exact eq_map_annotationOf hids harr hsorted

end

/-! ## The trip is deleted -/

/-- The steps that are considered while a trip is deleted: the documents are fetched, the images
need not be there, and the copy of the user can be refreshed. -/
def deleting (_ : TripInfo) (_ : Firestore) : Async.Move Callback Unit Event → Prop
  | .event .currentUserFetched => True
  | .event _ => False
  | .deliver (.objectDeleted _) _ _ => True
  | .deliver _ ok _ => ok = true

instance (l : TripInfo) (db : Firestore) : DecidablePred (deleting l db)
  | .event .viewWillAppear => inferInstanceAs (Decidable False)
  | .event .favoriteButtonPressed => inferInstanceAs (Decidable False)
  | .event .barButtonPressed => inferInstanceAs (Decidable False)
  | .event .deletePressed => inferInstanceAs (Decidable False)
  | .event .cancelPressed => inferInstanceAs (Decidable False)
  | .event .deleteConfirmed => inferInstanceAs (Decidable False)
  | .event .currentUserFetched => inferInstanceAs (Decidable True)
  | .deliver .tripFetched ok _ => inferInstanceAs (Decidable (ok = true))
  | .deliver (.tripUserFetched _) ok _ => inferInstanceAs (Decidable (ok = true))
  | .deliver (.entryFetched _ _ _) ok _ => inferInstanceAs (Decidable (ok = true))
  | .deliver (.tripToDeleteFetched _) ok _ => inferInstanceAs (Decidable (ok = true))
  | .deliver (.entryToDeleteFetched _) ok _ => inferInstanceAs (Decidable (ok = true))
  | .deliver (.objectDeleted _) _ _ => inferInstanceAs (Decidable True)
  | .deliver .tripsUpdated ok _ => inferInstanceAs (Decidable (ok = true))

/-- What is gone when the trip `t`, whose document is `d`, has been deleted by `user`; the entries
of `todo` are still to be deleted. -/
structure Deleted (t : TripID) (d : TripDoc) (user : User) (db : Firestore) (todo : Set EntryID)
    (db' : Firestore) : Prop where
  users : ∀ u, db'.users.lookup u = (db.users.lookup u).map fun e =>
    if u = user.uid then { e with trips := user.trips.filter fun t' => t' ≠ t } else e
  trips : ∀ t', db'.trips.lookup t' = if t' = t then none else db.trips.lookup t'
  gone : ∀ id ∈ d.entries, id ∈ todo ∨ db'.entries.lookup id = none
  entries : ∀ id, db'.entries.lookup id = db.entries.lookup id ∨
    id ∈ d.entries ∧ db'.entries.lookup id = none
  newsfeed : ∀ u id, db'.newsfeed.lookup (u, id) =
    if id ∈ d.entries ∧ u ∈ user.followers ++ [user.uid] then none
    else db.newsfeed.lookup (u, id)

section

variable {t : TripID} {d : TripDoc} {user : User} {db : Firestore} {l : TripInfo}
  {x x' : Direct Firestore TripInfo Callback}

/-- The deletion of a list of entries, as far as it does not wait for them. -/
theorem forEach_deleteEntry (ids : List EntryID) (l : TripInfo) :
    (Async.Handler.forEach deleteEntry ids l).1 = l ∧
      callbacks (Async.Handler.forEach deleteEntry ids l).2 =
        (ids : Multiset EntryID).map .entryToDeleteFetched ∧
      ∀ db, ∃ feed, effect Write.apply (Async.Handler.forEach deleteEntry ids l).2 db =
          { db with newsfeed := feed } ∧
        ∀ u id, feed.lookup (u, id) =
          if id ∈ ids ∧ u ∈ l.feeds then none else db.newsfeed.lookup (u, id) := by
  induction ids with
  | nil => exact ⟨rfl, rfl, fun db => ⟨db.newsfeed, rfl, by simp⟩⟩
  | cons id ids ih =>
    obtain ⟨hl, hk, hdb⟩ := ih
    refine ⟨hl, ?_, fun db => ?_⟩
    · simp only [Handler.forEach_cons, Handler.andThen_apply, deleteEntry, Handler.issue_apply,
        callbacks_append, callbacks_map_write, callbacks_request, callbacks_nil, zero_add]
      rw [hk, ← Multiset.cons_coe, Multiset.map_cons, Multiset.cons_add, zero_add]
    · simp only [Handler.forEach_cons, Handler.andThen_apply, deleteEntry, Handler.issue_apply,
        effect_append, effect_deleteFeed, effect_request, effect_nil]
      obtain ⟨feed, hfeed, hlookup⟩ := hdb _
      refine ⟨feed, hfeed, fun u id' => ?_⟩
      have hmem : (u, id') ∈ l.feeds.map (fun x => (x, id)) ↔ id' = id ∧ u ∈ l.feeds := by
        simp only [List.mem_map, Prod.mk.injEq]
        constructor
        · rintro ⟨x, hx, rfl, rfl⟩
          exact ⟨rfl, hx⟩
        · rintro ⟨rfl, hu⟩
          exact ⟨u, hu, rfl, rfl⟩
      rw [hlookup, Collection.lookup_foldl_erase]
      simp only [hmem, List.mem_cons]
      by_cases hu : u ∈ l.feeds <;> by_cases hid : id' = id <;> simp [hu, hid]

theorem deleteTrip_fst (t : TripID) (d : TripDoc) (l : TripInfo) : (deleteTrip t d l).1 = l :=
  (forEach_deleteEntry d.entries l).1

theorem callbacks_deleteTrip (t : TripID) (d : TripDoc) (l : TripInfo) :
    callbacks (deleteTrip t d l).2 =
      (d.entries : Multiset EntryID).map .entryToDeleteFetched + {.tripsUpdated} := by
  simp only [deleteTrip, Handler.andThen_apply, Handler.issue_apply, callbacks_append,
    (forEach_deleteEntry d.entries l).2.1, callbacks_write_some, callbacks_write, callbacks_nil]
  rfl

/-- What the deletion of a trip writes, as far as it does not wait for the entries. -/
theorem effect_deleteTrip (t : TripID) (d : TripDoc) (l : TripInfo) (db : Firestore) :
    ∃ feed, effect Write.apply (deleteTrip t d l).2 db =
      { db with
        users := db.users.modify l.currentUser.uid fun u =>
          { u with trips := l.currentUser.trips.filter fun t' => t' ≠ t }
        trips := db.trips.erase t
        newsfeed := feed } ∧
      ∀ u id, feed.lookup (u, id) =
        if id ∈ d.entries ∧ u ∈ l.feeds then none else db.newsfeed.lookup (u, id) := by
  obtain ⟨hl, -, hdb⟩ := forEach_deleteEntry d.entries l
  obtain ⟨feed, hfeed, hlookup⟩ := hdb db
  refine ⟨feed, ?_, hlookup⟩
  simp only [deleteTrip, Handler.andThen_apply, Handler.issue_apply, effect_append, hfeed, hl]
  rfl

theorem callbacks_entryToDeleteFetched (id : EntryID) (e : EntryDoc) (l : TripInfo) :
    callbacks (entryToDeleteFetched id e l).2 =
      ((List.range (e.mediaList.length + 1)).map fun index =>
        Callback.objectDeleted (imagePath l.currentUser.uid id index) : Multiset Callback) := by
  simp [entryToDeleteFetched, callbacks_map_request]

theorem effect_entryToDeleteFetched (id : EntryID) (e : EntryDoc) (l : TripInfo)
    (db : Firestore) : effect Write.apply (entryToDeleteFetched id e l).2 db =
      { db with entries := db.entries.erase id } := by
  simp [entryToDeleteFetched]

/-- The deletion, from the confirmation to its end. -/
inductive Deleting (t : TripID) (d : TripDoc) (user : User) (db : Firestore)
    (x : Direct Firestore TripInfo Callback) : Prop
  | fetching (hstore : x.store = db) (hbag : x.bag = {.tripToDeleteFetched t})
    (huser : x.loc.user = user.uid) (hcur : x.loc.currentUser = user)
  | kept (hstore : x.store = db) (hbag : x.bag = 0) (hcover : d.coverPhoto = none)
  | deleted (hcover : d.coverPhoto ≠ none)
    (hbag : ∀ k ∈ x.bag, (∃ id ∈ d.entries, k = .entryToDeleteFetched id) ∨
      (∃ path, k = .objectDeleted path) ∨ k = .tripsUpdated)
    (h : Deleted t d user db {id | .entryToDeleteFetched id ∈ x.bag} x.store)

theorem Deleting.deleteTrip (hcover : d.coverPhoto ≠ none) (hcur : l.currentUser = user) :
    Deleting t d user db (program.after (TripInfo.deleteTrip t d l) ⟨db, l, 0⟩) := by
  have hcs := callbacks_deleteTrip t d l
  obtain ⟨feed, hstore, hlookup⟩ := effect_deleteTrip t d l db
  have hfeeds : l.feeds = user.followers ++ [user.uid] := by simp only [feeds, hcur]
  rw [hcur] at hstore
  generalize TripInfo.deleteTrip t d l = r at hcs hstore
  have hbag : (program.after r ⟨db, l, 0⟩).bag =
      (d.entries : Multiset EntryID).map .entryToDeleteFetched + {.tripsUpdated} := by
    rw [← hcs]
    exact zero_add _
  refine .deleted hcover (fun k hmem => ?_) ?_
  · rw [hbag, Multiset.mem_add, Multiset.mem_map, Multiset.mem_singleton] at hmem
    rcases hmem with ⟨id, hid, rfl⟩ | rfl
    · exact Or.inl ⟨id, hid, rfl⟩
    · exact Or.inr (Or.inr rfl)
  · rw [hbag]
    change Deleted t d user db _ (effect Write.apply r.2 db)
    rw [hstore]
    refine ⟨fun u => ?_, fun t' => Collection.lookup_erase_eq _ _ _, fun id hid => Or.inl ?_,
      fun id => Or.inl rfl, fun u id => ?_⟩
    · dsimp only
      rw [Collection.lookup_modify_eq]
      by_cases hu : u = user.uid
      · subst hu
        simp
      · simp [hu]
    · show Callback.entryToDeleteFetched id ∈
        (d.entries : Multiset EntryID).map .entryToDeleteFetched + {.tripsUpdated}
      exact Multiset.mem_add.mpr (Or.inl (Multiset.mem_map_of_mem _ hid))
    · rw [← hfeeds]
      exact hlookup u id

/-- One step of the deletion. -/
theorem Deleting.step (hfresh : db.fetchUser user.uid = some user)
    (hd : db.trips.lookup t = some d) (h : Deleting t d user db x)
    {m : Async.Move Callback Unit Event} (ha : deleting x.loc x.store m)
    (hs : DirectStep program x m x') : Deleting t d user db x' := by
  cases hs with
  | @event e r he =>
    cases e with
    | currentUserFetched =>
      have hsame : ∃ l', r = (l', []) ∧ (x.store.fetchUser x.loc.user = some user →
          l'.user = x.loc.user ∧ l'.currentUser = user) := by
        simp only [program, event] at he
        split at he <;> cases he
        · rename_i hnone
          exact ⟨_, rfl, fun hu => absurd (hnone.symm.trans hu) (by simp)⟩
        · rename_i u' hu'
          exact ⟨_, rfl, fun hu => ⟨rfl, Option.some.inj (hu'.symm.trans hu)⟩⟩
      obtain ⟨l', rfl, hl'⟩ := hsame
      have hafter : program.after (l', []) x = ⟨x.store, l', x.bag⟩ := by simp [Program.after]
      rw [hafter]
      cases h with
      | fetching hstore hbag huser hcur =>
        obtain ⟨h₁, h₂⟩ := hl' (by rw [hstore, huser]; exact hfresh)
        exact .fetching hstore hbag (h₁.trans huser) h₂
      | kept hstore hbag hcover => exact .kept hstore hbag hcover
      | deleted hcover hbag h => exact .deleted hcover hbag h
    | _ => exact ha.elim
  | @deliver k ok a rest r hb hr =>
    cases h with
    | fetching hstore hbag huser hcur =>
      rw [hbag] at hb
      obtain ⟨rfl, rfl⟩ := (Multiset.singleton_eq_cons_iff _).mp hb
      have hok : ok = true := ha
      simp only [program, react, hok, if_true, hstore, hd, Option.some.injEq] at hr
      subst hr
      split
      · rename_i hcover
        rw [hstore]
        exact .deleteTrip (Option.isSome_iff_ne_none.mp hcover) hcur
      · rename_i hcover
        exact .kept hstore rfl (by simpa using hcover)
    | kept hstore hbag hcover => exact absurd (hb.symm.trans hbag) Multiset.cons_ne_zero
    | deleted hcover hbag h =>
      have hmem : ∀ k' ∈ rest, k' ∈ x.bag := fun k' hk' => hb ▸ Multiset.mem_cons_of_mem hk'
      have hdrop : ∀ l', (∀ id, k ≠ .entryToDeleteFetched id) →
          Deleting t d user db (program.after (l', []) { x with bag := rest }) := by
        intro l' hk
        refine .deleted hcover
          (fun k' hk' => hbag k' (hmem k' (by simpa [Program.after] using hk'))) ?_
        have htodo : {id | Callback.entryToDeleteFetched id ∈ x.bag} =
            {id | Callback.entryToDeleteFetched id ∈ rest} := by
          ext id
          simp [hb, (hk id).symm]
        simpa [Program.after, ← htodo] using h
      rcases hbag k (hb ▸ Multiset.mem_cons_self k rest) with ⟨id, hid, rfl⟩ | ⟨path, rfl⟩ | rfl
      · have hok : ok = true := ha
        simp only [program, react, hok, if_true] at hr
        split at hr <;> cases hr
        · rename_i hnone
          refine .deleted hcover
            (fun k' hk' => hbag k' (hmem k' (by simpa [Program.after] using hk'))) ?_
          refine ⟨h.users, h.trips, fun id' hid' => ?_, h.entries, h.newsfeed⟩
          by_cases he : id' = id
          · exact Or.inr (he ▸ hnone)
          · refine (h.gone id' hid').imp_left fun htodo => ?_
            simpa [Program.after, hb, he] using htodo
        · rename_i e _
          have hcs := callbacks_entryToDeleteFetched id e x.loc
          refine .deleted hcover (fun k' hk' => ?_) ?_
          · simp only [Program.after, hcs, Multiset.mem_add, Multiset.mem_coe, List.mem_map] at hk'
            rcases hk' with hk' | ⟨index, -, rfl⟩
            · exact hbag k' (hmem k' hk')
            · exact Or.inr (Or.inl ⟨_, rfl⟩)
          · simp only [Program.after, hcs]
            change Deleted t d user db _ (effect Write.apply _ x.store)
            rw [effect_entryToDeleteFetched]
            refine ⟨h.users, h.trips, fun id' hid' => ?_, fun id' => ?_, h.newsfeed⟩
            · rw [Collection.lookup_erase_eq]
              by_cases he : id' = id
              · exact Or.inr (if_pos he)
              · rw [if_neg he]
                refine (h.gone id' hid').imp_left fun htodo => ?_
                rw [Set.mem_ofPred_eq, hb] at htodo
                simpa [he] using htodo
            · rw [Collection.lookup_erase_eq]
              by_cases he : id' = id
              · exact Or.inr ⟨he ▸ hid, if_pos he⟩
              · rw [if_neg he]
                exact h.entries id'
      · simp only [program, react, Option.some.injEq] at hr
        subst hr
        exact hdrop _ (by simp)
      · simp only [program, react, Option.some.injEq] at hr
        subst hr
        exact hdrop _ (by simp)

/-- **A deletion that is complete**: the trip and its entries are gone, and the entries are in no
newsfeed of the user's followers. A trip without a cover is left alone. -/
theorem deleted_of_completes {db' : Firestore} {l' : TripInfo}
    (hfresh : db.fetchUser user.uid = some user) (hd : db.trips.lookup t = some d)
    (ht : l.tripId = t) (huser : l.user = user.uid) (hcur : l.currentUser = user)
    (h : Completes program deleting .deleteConfirmed db l db' l') :
    d.coverPhoto = none ∧ db' = db ∨ d.coverPhoto ≠ none ∧ Deleted t d user db ∅ db' := by
  have hend : Deleting t d user db ⟨db', l', 0⟩ := by
    refine h.invariant (fun r he => ?_) fun x m x' hx ha hs => hx.step hfresh hd ha hs
    simp only [program, event, ht] at he
    split at he <;> cases he
    exact .fetching rfl rfl huser hcur
  cases hend with
  | fetching hstore hbag => exact absurd hbag.symm (Multiset.singleton_ne_zero _)
  | kept hstore hbag hcover => exact Or.inl ⟨hcover, hstore⟩
  | deleted hcover hbag h => exact Or.inr ⟨hcover, by simpa using h⟩

end

end TripInfo

end Wanderlust
