import Wanderlust.Foundations.Answers
import Wanderlust.Foundations.Handlers
import Wanderlust.Models.User
import Wanderlust.Trips.Barrier
import Wanderlust.Trips.TripInfo

/-!
# The trips of the user of a device

The screens that create and delete trips run side by side on a device and share `currentUser`,
which the listener of the tab bar refreshes after any delay. A trip that is created is put at the
end of the list in the document, as it has been fetched for that; a trip that is deleted is left out
of the list in `currentUser`. Either way the document gets the whole list, and what is fetched is
read at one time and arrives at another. So in the end the document lists the trips of the user
exactly if the last list that has been written was made of a copy that had all of them, and no
others, apart from the one that is deleted (`trips_listed_iff`).
-/

namespace Wanderlust

open Async Runs

/-- The globals of the app, and the screens that have been opened. -/
structure Device where
  /-- The uid of `Auth.auth().currentUser`. -/
  user : Uid
  currentUser : User
  bucket : Bucket
  now : Timestamp
  edits : List EditTrip
  infos : List TripInfo

namespace Device

/-- The closures of the screens. -/
inductive Callback
  | edit (i : ℕ) (k : EditTrip.Callback)
  | info (i : ℕ) (k : TripInfo.Callback)
  deriving DecidableEq

/-- What the user does. -/
inductive Event
  | openEdit (tripID : Option TripID)
  | openInfo (t : TripID)
  | edit (i : ℕ) (e : EditTrip.Event)
  | info (i : ℕ) (e : TripInfo.Event)

abbrev Cmd := Async.Cmd Write Callback

/-- The device when the user has signed in. -/
def signedIn (currentUser : User) (bucket : Bucket) (now : Timestamp) : Device :=
  ⟨currentUser.uid, currentUser, bucket, now, [], []⟩

/-- Code of a screen that edits a trip, with the globals. `currentUser` is left to the listener. -/
def runEdit (i : ℕ) (code : EditTrip → Option (EditTrip × List EditTrip.Cmd)) (d : Device) :
    Option (Device × List Cmd) :=
  d.edits[i]?.bind fun l =>
    (code { l with currentUser := d.currentUser, bucket := d.bucket, now := d.now }).map fun r =>
      ({ d with bucket := r.1.bucket, now := r.1.now, edits := d.edits.set i r.1 },
        r.2.map (Cmd.map (.edit i)))

/-- Code of a screen of a trip, with the globals. -/
def runInfo (i : ℕ) (code : TripInfo → Option (TripInfo × List TripInfo.Cmd)) (d : Device) :
    Option (Device × List Cmd) :=
  d.infos[i]?.bind fun l =>
    (code { l with currentUser := d.currentUser, bucket := d.bucket }).map fun r =>
      ({ d with bucket := r.1.bucket, infos := d.infos.set i r.1 }, r.2.map (Cmd.map (.info i)))

/-- The code of the closures. -/
def react : Callback → Bool → TripID → Device → Firestore → Option (Device × List Cmd)
  | .edit i k, ok, newTrip, d, db => d.runEdit i fun l => EditTrip.react k ok newTrip l db
  | .info i k, ok, _, d, db => d.runInfo i fun l => TripInfo.react k ok () l db

/-- The code of the user's actions. -/
def event : Event → Device → Firestore → Option (Device × List Cmd)
  | .openEdit tripID, d, _ =>
    some ({ d with edits := d.edits ++ [.opened d.currentUser tripID d.bucket d.now] }, [])
  | .openInfo t, d, _ =>
    some ({ d with infos := d.infos ++ [.opened d.user d.currentUser t d.bucket] }, [])
  | .edit i e, d, db => d.runEdit i fun l => EditTrip.event e l db
  | .info i e, d, db => d.runInfo i fun l => TripInfo.event e l db

/-- The screens of the device. -/
def program : Async.Program Firestore Device Write Callback TripID Event where
  apply := Write.apply
  react := react
  event := event

/-- A closure of a screen, whose answer has been read or not, or of the listener. -/
abbrev Closure := Heard (Option User) (Answering Firestore Callback)

/-- The device with the listener of the tab bar, which traps when the user is not there. What the
screens fetch is read at one time and arrives at another, as for the listener. -/
def listening : Async.Program Firestore Device Write Closure TripID (Hearing Event) :=
  program.answering.listening (fun d db => db.fetchUser d.user) fun user d =>
    user.map fun user => { d with currentUser := user }

/-- The device as the screens see it. -/
abbrev Live := Direct Firestore Device Closure

/-- What happens to the device. -/
abbrev Move := Async.Move Closure TripID (Hearing Event)

/-! ## The trips of a user -/

/-- The trips of a user. -/
def owned (u : Uid) (db : Firestore) : List TripID :=
  (db.trips.docs.filter fun x => x.2.userID = u).map Prod.fst

/-- The document of the user lists them, in some order. -/
def Listed (u : Uid) (db : Firestore) : Prop :=
  ∃ d ∈ db.users.lookup u, d.trips.Perm (owned u db)

instance (u : Uid) : DecidablePred (Listed u) :=
  fun db => inferInstanceAs (Decidable (∃ d ∈ db.users.lookup u, d.trips.Perm (owned u db)))

/-- The trips of the user are the same, and so is the list. -/
structure SameTrips (u : Uid) (db db' : Firestore) : Prop where
  owned : (owned u db').Perm (owned u db)
  list : (db'.users.lookup u).map UserDoc.trips = (db.users.lookup u).map UserDoc.trips

/-- The write neither creates nor deletes a trip of the user, and leaves the list alone. -/
def Plain (u : Uid) (w : Write) : Prop := ∀ db, SameTrips u db (w.apply db)

section

variable {u v : Uid} {t : TripID} {w : Write} {db db' : Firestore}

theorem mem_owned : t ∈ owned u db ↔ ∃ d, db.trips.lookup t = some d ∧ d.userID = u := by
  simp only [owned, List.mem_map, List.mem_filter, decide_eq_true_eq, Prod.exists,
    Collection.mem_docs]
  constructor
  · rintro ⟨t, d, ⟨hd, hu⟩, rfl⟩
    exact ⟨d, hd, hu⟩
  · rintro ⟨d, hd, hu⟩
    exact ⟨t, d, ⟨hd, hu⟩, rfl⟩

theorem nodup_owned (u : Uid) (db : Firestore) : (owned u db).Nodup :=
  db.trips.nodup_map_fst_docs.sublist (List.filter_sublist.map Prod.fst)

/-- The trips are known by who is among them. -/
theorem owned_perm {ts : List TripID} (hts : ts.Nodup)
    (h : ∀ t, (∃ d, db.trips.lookup t = some d ∧ d.userID = u) ↔ t ∈ ts) :
    (owned u db).Perm ts :=
  (List.perm_ext_iff_of_nodup (nodup_owned u db) hts).mpr fun t => mem_owned.trans (h t)

theorem SameTrips.refl (u : Uid) (db : Firestore) : SameTrips u db db := ⟨.refl _, rfl⟩

theorem SameTrips.trans {db'' : Firestore} (h : SameTrips u db db') (h' : SameTrips u db' db'') :
    SameTrips u db db'' :=
  ⟨h'.owned.trans h.owned, h'.list.trans h.list⟩

/-- What it is for a list to be right. -/
theorem listed_iff_perm {ts : List TripID} (h : (db.users.lookup u).map UserDoc.trips = some ts) :
    Listed u db ↔ ts.Perm (owned u db) := by
  obtain ⟨d, hd, rfl⟩ := Option.map_eq_some_iff.mp h
  simp only [Listed, hd, Option.mem_some_iff, exists_eq_left']

theorem sameTrips_effect {K : Type*} {cs : List (Async.Cmd Write K)}
    (h : ∀ c ∈ cs, c.Writes (Plain u)) (db : Firestore) :
    SameTrips u db (effect Write.apply cs db) :=
  effect_invariant (I := SameTrips u db) (fun _ _ hw db' hdb' => hdb'.trans (h _ hw db'))
    (.refl u db)

/-- The closures of a screen are closures of the device. -/
theorem sameTrips_map {K K' : Type*} (f : K → K') {cs : List (Async.Cmd Write K)}
    (h : ∀ c ∈ cs, c.Writes (Plain u)) (db : Firestore) :
    SameTrips u db (effect Write.apply (cs.map (Cmd.map f)) db) := by
  rw [effect_map]
  exact sameTrips_effect h db

/-! ### Writes -/

theorem plain_updateUser {f : UserDoc → UserDoc} (hf : ∀ d, (f d).trips = d.trips) :
    Plain u (.updateUser v f) := by
  refine fun db => ⟨.refl _, ?_⟩
  simp only [Write.apply, Collection.lookup_modify_eq]
  split
  · rename_i huv
    subst huv
    rw [Option.map_map]
    exact congrArg (fun g => Option.map g _) (funext hf)
  · rfl

theorem plain_updateTrip {f : TripDoc → TripDoc} (hf : ∀ d, (f d).userID = d.userID) :
    Plain u (.updateTrip t f) := by
  refine fun db => ⟨owned_perm (nodup_owned u db) fun t' => ?_, rfl⟩
  rw [mem_owned]
  simp only [Write.apply, Collection.lookup_modify_eq]
  split
  · rename_i ht
    subst ht
    simp [hf]
  · exact Iff.rfl

theorem plain_of_completing (h : EditTrip.Completing w) : Plain u w := by
  cases h with
  | cover t url => exact plain_updateTrip fun _ => rfl
  | tripID id t => exact fun db => ⟨.refl _, rfl⟩
  | order id i => exact fun db => ⟨.refl _, rfl⟩

theorem plain_of_routine (h : EditTrip.Routine w) : Plain u w := by
  cases h with
  | updates h =>
    cases h with
    | entries t name ids => exact plain_updateTrip fun _ => rfl
    | completing h => exact plain_of_completing h
  | _ => exact fun db => ⟨.refl _, rfl⟩

/-! ### The screens -/

/-- On the screen of a trip the user leaves the trips alone. -/
theorem plain_event {e : TripInfo.Event} {l : TripInfo} {r : TripInfo × List TripInfo.Cmd}
    (h : TripInfo.event e l db = some r) : ∀ c ∈ r.2, c.Writes (Plain u) := by
  cases e with
  | viewWillAppear =>
    cases h
    intro c hc
    rw [List.mem_singleton.mp hc]
    trivial
  | favoriteButtonPressed =>
    simp only [TripInfo.event, TripInfo.favoriteButtonPressed] at h
    split at h
    · cases h
      intro c hc
      rw [List.mem_singleton.mp hc]
      exact plain_updateUser fun _ => rfl
    · split at h <;> cases h
      intro c hc
      rw [List.mem_singleton.mp hc]
      exact plain_updateUser fun _ => rfl
  | deleteConfirmed =>
    simp only [TripInfo.event] at h
    split at h <;> cases h
    intro c hc
    rw [List.mem_singleton.mp hc]
    trivial
  | barButtonPressed =>
    simp only [TripInfo.event] at h
    split at h <;> cases h
    exact fun c hc => by cases hc
  | deletePressed =>
    simp only [TripInfo.event] at h
    split at h <;> cases h
    exact fun c hc => by cases hc
  | cancelPressed =>
    cases h
    exact fun c hc => by cases hc
  | currentUserFetched =>
    simp only [TripInfo.event] at h
    split at h <;> cases h <;> exact fun c hc => by cases hc

/-- An answer deletes a trip, or leaves them alone too. -/
theorem react_deletes_or {k : TripInfo.Callback} {ok : Bool} {l : TripInfo}
    {r : TripInfo × List TripInfo.Cmd} (h : TripInfo.react k ok () l db = some r) :
    (∃ t d, k = .tripToDeleteFetched t ∧ ok = true ∧ db.trips.lookup t = some d ∧
      d.coverPhoto.isSome ∧ r = TripInfo.deleteTrip t d l) ∨
    (∀ t, k = .tripToDeleteFetched t → ((db.trips.lookup t).bind TripDoc.coverPhoto).isNone) ∧
      ∀ c ∈ r.2, c.Writes (Plain u) := by
  cases k with
  | tripToDeleteFetched t =>
    simp only [TripInfo.react] at h
    split at h <;> cases h
    rename_i d hd
    have hlookup : ok = true ∧ db.trips.lookup t = some d := by
      cases ok with
      | false => cases hd
      | true => exact ⟨rfl, hd⟩
    split
    · rename_i hcover
      exact Or.inl ⟨t, d, rfl, hlookup.1, hlookup.2, hcover, rfl⟩
    · rename_i hcover
      refine Or.inr ⟨fun t' heq => ?_, fun c hc => by cases hc⟩
      cases heq
      simpa [hlookup.2] using hcover
  | tripFetched =>
    refine Or.inr ⟨fun t heq => (by cases heq), ?_⟩
    simp only [TripInfo.react] at h
    split at h
    · cases h
      exact fun c hc => by cases hc
    · obtain ⟨favorite, rfl⟩ := TripInfo.tripFetched_eq_some h
      intro c hc
      rcases List.mem_cons.mp hc with rfl | hc
      · trivial
      · obtain ⟨id, -, rfl⟩ := List.mem_map.mp hc
        trivial
  | entryFetched temp count id =>
    refine Or.inr ⟨fun t heq => (by cases heq), ?_⟩
    simp only [TripInfo.react] at h
    split at h <;> cases h <;> exact fun c hc => by cases hc
  | entryToDeleteFetched id =>
    refine Or.inr ⟨fun t heq => (by cases heq), ?_⟩
    simp only [TripInfo.react] at h
    split at h <;> cases h
    · exact fun c hc => by cases hc
    · intro c hc
      rcases List.mem_append.mp hc with hc | hc
      · obtain ⟨i, -, rfl⟩ := List.mem_map.mp hc
        trivial
      · rw [List.mem_singleton.mp hc]
        exact fun db => ⟨.refl _, rfl⟩
  | _ =>
    cases h
    exact Or.inr ⟨fun t heq => (by cases heq), fun c hc => by cases hc⟩

end

/-! ## What a step does to the trips -/

/-- A list of trips that is written: the copy that it is made of, and the trip that is left out, if
one is deleted. -/
structure Rewriting where
  copy : List TripID
  left : Option TripID

/-- The list that a step writes, when it creates or deletes a trip. -/
def rewriting (x : Live) : Move → Option Rewriting
  | .deliver (.callback (.answered (.edit i (.userFetched _ _)) true db)) _ _ =>
    x.loc.edits[i]?.bind fun l =>
      if l.tripID = none then (db.users.lookup l.user).map fun d => ⟨d.trips, none⟩ else none
  | .deliver (.callback (.answered (.info _ (.tripToDeleteFetched t)) true db)) _ _ =>
    if ((db.trips.lookup t).bind TripDoc.coverPhoto).isSome then
      some ⟨x.loc.currentUser.trips, some t⟩
    else none
  | _ => none

/-- What a step does to the trips of the user and to the list of them. -/
inductive TripsStep (u : Uid) (x x' : Live) (m : Move) : Prop
  | same (hm : rewriting x m = none) (hsame : SameTrips u x.store x'.store)
  | created {newTrip : TripID} {copy : List TripID} (hm : rewriting x m = some ⟨copy, none⟩)
      (howned : (owned u x'.store).Perm (owned u x.store ++ [newTrip]))
      (hlist : (x'.store.users.lookup u).map UserDoc.trips =
        (x.store.users.lookup u).map fun _ => copy ++ [newTrip])
  | deleted {t : TripID} {copy : List TripID} (hm : rewriting x m = some ⟨copy, some t⟩)
      (howned : (owned u x'.store).Perm ((owned u x.store).filter fun t' => t' ≠ t))
      (hlist : (x'.store.users.lookup u).map UserDoc.trips =
        (x.store.users.lookup u).map fun _ => copy.filter fun t' => t' ≠ t)

/-- The device is the user's. -/
structure Own (u : Uid) (x : Live) : Prop where
  user : x.loc.user = u
  currentUser : x.loc.currentUser.uid = u
  edits : ∀ l ∈ x.loc.edits, l.user = u
  bag : ∀ user, Heard.snapshot (some user) ∈ x.bag → user.uid = u

/-- The name that `addDocument` chooses is not that of a trip. -/
def Fresh (db : Firestore) : Move → Prop
  | .event _ => True
  | .deliver _ _ newTrip => db.trips.lookup newTrip = none

instance (db : Firestore) : DecidablePred (Fresh db)
  | .event _ => inferInstanceAs (Decidable True)
  | .deliver _ _ newTrip => inferInstanceAs (Decidable (db.trips.lookup newTrip = none))

section

variable {u : Uid} {t newTrip : TripID} {db : Firestore}
  {x x' : Live} {m : Move}

/-- A trip is created. -/
theorem effect_createTrip {l : EditTrip} (ids : List EntryID) (userData : UserDoc)
    (huser : l.user = u) (hnew : db.trips.lookup newTrip = none) :
    (owned u (effect Write.apply (EditTrip.createTrip ids userData newTrip l).2 db)).Perm
        (owned u db ++ [newTrip]) ∧
      ((effect Write.apply (EditTrip.createTrip ids userData newTrip l).2 db).users.lookup u).map
        UserDoc.trips = (db.users.lookup u).map fun _ => userData.trips ++ [newTrip] := by
  obtain ⟨cs, hcs, hrest⟩ := EditTrip.writes_createTrip ids userData newTrip l
  rw [hcs, effect_write, effect_write]
  have hsame := sameTrips_effect (u := u)
    (fun c hc => (hrest c hc).mono fun w => plain_of_completing)
    ((Write.updateUser l.user fun d => { d with trips := userData.trips ++ [newTrip] }).apply
      ((Write.addTrip newTrip ⟨l.tripName, none, l.user, l.now, ids⟩).apply db))
  refine ⟨hsame.owned.trans (owned_perm ?_ fun t => ?_), ?_⟩
  · have hnot : newTrip ∉ owned u db := by
      intro hmem
      obtain ⟨d, hd, -⟩ := mem_owned.mp hmem
      rw [hnew] at hd
      cases hd
    exact List.nodup_append.mpr ⟨nodup_owned u db, List.nodup_singleton _, fun a ha b hb hab =>
      hnot (List.mem_singleton.mp hb ▸ hab ▸ ha)⟩
  · simp only [Write.apply, Collection.lookup_insert_eq, List.mem_append, List.mem_singleton,
      mem_owned]
    split
    · rename_i ht
      simp [ht, huser]
    · rename_i ht
      simp [ht]
  · rw [hsame.list, huser]
    simp only [Write.apply, Collection.lookup_modify, Option.map_map]
    rfl

/-- A trip is deleted. -/
theorem effect_deleteTrip (t : TripID) (d : TripDoc) {l : TripInfo}
    (hcur : l.currentUser.uid = u) (db : Firestore) :
    (owned u (effect Write.apply (TripInfo.deleteTrip t d l).2 db)).Perm
        ((owned u db).filter fun t' => t' ≠ t) ∧
      ((effect Write.apply (TripInfo.deleteTrip t d l).2 db).users.lookup u).map UserDoc.trips =
        (db.users.lookup u).map fun _ => l.currentUser.trips.filter fun t' => t' ≠ t := by
  obtain ⟨feed, hfeed, -⟩ := TripInfo.effect_deleteTrip t d l db
  rw [hfeed]
  refine ⟨owned_perm ((nodup_owned u db).filter _) fun t' => ?_, ?_⟩
  · simp only [Collection.lookup_erase_eq, List.mem_filter, decide_eq_true_eq, mem_owned]
    split
    · rename_i ht
      simp [ht]
    · rename_i ht
      simp [ht]
  · rw [hcur, Collection.lookup_modify, Option.map_map]
    rfl

/-- The device when code has ended in `r.1` and issued `r.2`. -/
def ran (x : Live) (rest : Multiset Closure) (r : Device × List Cmd) : Live :=
  ⟨effect Write.apply r.2 x.store, r.1, rest + (callbacks r.2).map fun k => .callback (.asked k)⟩

/-- The answers of what the code issues are still to be read. -/
theorem ran_asking (x : Live) (rest : Multiset Closure) (r : Device × List Cmd) :
    (⟨effect program.answering.apply (asking r : Device × List (Async.Cmd Write (Answering
        Firestore Callback))).2 x.store, (asking r : Device × List (Async.Cmd Write (Answering
        Firestore Callback))).1, rest + (callbacks (asking r).2).map .callback⟩ : Live) =
      ran x rest r := by
  rw [effect_asking, callbacks_asking, Multiset.map_map]
  rfl

/-- Code runs on the device of the user. -/
theorem Own.code (h : Own u x) {d : Device} {cs : List Cmd} {rest : Multiset Closure}
    (hrest : ∀ k ∈ rest, k ∈ x.bag)
    (hd : d.user = x.loc.user ∧ d.currentUser = x.loc.currentUser)
    (hedits : ∀ l ∈ d.edits, l.user = u) : Own u (ran x rest (d, cs)) := by
  refine ⟨hd.1.trans h.user, ?_, hedits, fun user hmem => ?_⟩
  · show d.currentUser.uid = u
    rw [hd.2]
    exact h.currentUser
  · rcases Multiset.mem_add.mp hmem with hmem | hmem
    · exact h.bag user (hrest _ hmem)
    · obtain ⟨k, -, hk⟩ := Multiset.mem_map.mp hmem
      cases hk

/-- The screens that edit trips are the user's, when one of them has run code. -/
theorem Own.edits_set (h : Own u x) {i : ℕ} {l : EditTrip} (hl : l.user = u) :
    ∀ l' ∈ x.loc.edits.set i l, l'.user = u := by
  intro l' hl'
  rcases List.mem_or_eq_of_mem_set hl' with hl' | rfl
  · exact h.edits l' hl'
  · exact hl

/-- An action of the user. -/
theorem Own.event (h : Own u x) {e : Event} {r : Device × List Cmd}
    (he : Device.event e x.loc x.store = some r) :
    Own u (ran x x.bag r) ∧ SameTrips u x.store (ran x x.bag r).store := by
  cases e with
  | openEdit tripID =>
    cases he
    refine ⟨h.code (fun k hk => hk) ⟨rfl, rfl⟩ fun l hl => ?_, .refl u _⟩
    rcases List.mem_append.mp hl with hl | hl
    · exact h.edits l hl
    · rw [List.mem_singleton.mp hl]
      exact h.currentUser
  | openInfo t =>
    cases he
    exact ⟨h.code (fun k hk => hk) ⟨rfl, rfl⟩ h.edits, .refl u _⟩
  | edit i e =>
    obtain ⟨l, hl, hcode⟩ := Option.bind_eq_some_iff.mp he
    obtain ⟨r, hran, rfl⟩ := Option.map_eq_some_iff.mp hcode
    refine ⟨h.code (fun k hk => hk) ⟨rfl, rfl⟩ (h.edits_set ?_), ?_⟩
    · exact (EditTrip.kept_event hran).2.2.trans (h.edits l (List.mem_of_getElem? hl))
    · exact sameTrips_map _
        (fun c hc => (EditTrip.writes_event hran c hc).mono fun w => plain_of_routine) _
  | info i e =>
    obtain ⟨l, hl, hcode⟩ := Option.bind_eq_some_iff.mp he
    obtain ⟨r, hran, rfl⟩ := Option.map_eq_some_iff.mp hcode
    exact ⟨h.code (fun k hk => hk) ⟨rfl, rfl⟩ h.edits, sameTrips_map _ (plain_event hran) _⟩

/-- The code of an answer for a screen that edits a trip. -/
theorem Own.answerEdit (h : Own u x) {i : ℕ} {k : EditTrip.Callback} {ok ok' : Bool}
    {rest : Multiset Closure} {r : Device × List Cmd} (hrest : ∀ k' ∈ rest, k' ∈ x.bag)
    (hnew : x.store.trips.lookup newTrip = none)
    (hr : Device.react (.edit i k) ok newTrip x.loc db = some r) :
    Own u (ran x rest r) ∧ TripsStep u x (ran x rest r)
      (.deliver (.callback (.answered (.edit i k) ok db)) ok' newTrip) := by
  obtain ⟨l, hl, hcode⟩ := Option.bind_eq_some_iff.mp hr
  obtain ⟨r, hran, rfl⟩ := Option.map_eq_some_iff.mp hcode
  have huser : l.user = u := h.edits l (List.mem_of_getElem? hl)
  refine ⟨h.code hrest ⟨rfl, rfl⟩ (h.edits_set ((EditTrip.user_react hran).trans huser)), ?_⟩
  by_cases hcreates : ∃ p ids d, k = .userFetched p ids ∧ ok = true ∧ l.tripID = none ∧
      db.users.lookup l.user = some d
  · -- the code of this answer creates a trip
    obtain ⟨p, ids, d, rfl, rfl, hnone, hd⟩ := hcreates
    simp only [EditTrip.react, if_true, hd, hnone, Option.some.injEq] at hran
    subst hran
    obtain ⟨howned, hlist⟩ := effect_createTrip (l :=
      { l with currentUser := x.loc.currentUser, bucket := x.loc.bucket, now := x.loc.now })
      ids d huser hnew
    refine @TripsStep.created _ _ _ _ newTrip d.trips ?_ ?_ ?_
    · simp [rewriting, hl, hnone, hd]
    · rw [ran, effect_map]
      exact howned
    · rw [ran, effect_map]
      exact hlist
  · have hroutine : ∀ c ∈ r.2, c.Writes EditTrip.Routine := by
      rcases EditTrip.writes_react hran with hroutine | ⟨p, ids, d, rfl, rfl, hd, hnone, -⟩
      · exact hroutine
      · exact absurd ⟨p, ids, d, rfl, rfl, hnone, hd⟩ hcreates
    refine .same ?_ ?_
    · cases k with
      | userFetched p ids =>
        cases ok with
        | false => rfl
        | true =>
          simp only [rewriting, hl, Option.bind_some]
          split
          · rename_i hnone
            cases hd : db.users.lookup l.user with
            | none => rfl
            | some d => exact absurd ⟨p, ids, d, rfl, rfl, hnone, hd⟩ hcreates
          · rfl
      | _ => rfl
    · exact sameTrips_map _ (fun c hc => (hroutine c hc).mono fun w => plain_of_routine) _

/-- The code of an answer for a screen of a trip. -/
theorem Own.answerInfo (h : Own u x) {i : ℕ} {k : TripInfo.Callback} {ok ok' : Bool}
    {rest : Multiset Closure} {r : Device × List Cmd} (hrest : ∀ k' ∈ rest, k' ∈ x.bag)
    (hr : Device.react (.info i k) ok newTrip x.loc db = some r) :
    Own u (ran x rest r) ∧ TripsStep u x (ran x rest r)
      (.deliver (.callback (.answered (.info i k) ok db)) ok' newTrip) := by
  obtain ⟨l, hl, hcode⟩ := Option.bind_eq_some_iff.mp hr
  obtain ⟨r, hran, rfl⟩ := Option.map_eq_some_iff.mp hcode
  refine ⟨h.code hrest ⟨rfl, rfl⟩ h.edits, ?_⟩
  rcases react_deletes_or hran with ⟨t, d, rfl, rfl, hd, hcover, rfl⟩ | ⟨hnone, hplain⟩
  · obtain ⟨howned, hlist⟩ := effect_deleteTrip t d
      (l := { l with currentUser := x.loc.currentUser, bucket := x.loc.bucket })
      h.currentUser x.store
    refine @TripsStep.deleted _ _ _ _ t x.loc.currentUser.trips ?_ ?_ ?_
    · simp [rewriting, hd, hcover]
    · rw [ran, effect_map]
      exact howned
    · rw [ran, effect_map]
      exact hlist
  · refine .same ?_ ?_
    · cases k with
      | tripToDeleteFetched t =>
        cases ok with
        | false => rfl
        | true =>
          simp only [rewriting]
          rw [if_neg]
          simpa using hnone t rfl
      | _ => rfl
    · exact sameTrips_map _ hplain _

/-- The code of an answer that was read from `db`. -/
theorem Own.answer (h : Own u x) {k : Callback} {ok ok' : Bool} {rest : Multiset Closure}
    {r : Device × List Cmd} (hrest : ∀ k' ∈ rest, k' ∈ x.bag)
    (hnew : x.store.trips.lookup newTrip = none)
    (hr : Device.react k ok newTrip x.loc db = some r) :
    Own u (ran x rest r) ∧ TripsStep u x (ran x rest r)
      (.deliver (.callback (.answered k ok db)) ok' newTrip) := by
  cases k with
  | edit i k => exact h.answerEdit hrest hnew hr
  | info i k => exact h.answerInfo hrest hr

/-- **What a step does.** -/
theorem Own.step (h : Own u x) (hfresh : Fresh x.store m) (hs : DirectStep listening x m x') :
    Own u x' ∧ TripsStep u x x' m := by
  cases listening_step hs with
  | event he =>
    obtain ⟨r, hran, rfl⟩ := answering_event he
    rw [ran_asking]
    obtain ⟨hown, hsame⟩ := h.event hran
    exact ⟨hown, .same rfl hsame⟩
  | read =>
    refine ⟨⟨h.user, h.currentUser, h.edits, fun user hmem => ?_⟩, .same rfl (.refl u _)⟩
    rcases Multiset.mem_cons.mp hmem with heq | hmem
    · have hfetched : x.store.fetchUser x.loc.user = some user :=
        (Heard.snapshot.inj heq).symm
      exact (Firestore.fetchUser_eq_some hfetched).1.trans h.user
    · exact h.bag user hmem
  | @deliver k ok newTrip rest r hb hr =>
    have hrest : ∀ k' ∈ rest, k' ∈ x.bag := fun k' hk' => hb ▸ Multiset.mem_cons_of_mem hk'
    rcases answering_react hr with ⟨k, rfl, rfl⟩ | ⟨k, ok, db, r, rfl, hran, rfl⟩
    · refine ⟨⟨h.user, h.currentUser, h.edits, fun user hmem => ?_⟩, .same rfl (.refl u _)⟩
      rcases Multiset.mem_add.mp hmem with hmem | hmem
      · exact h.bag user (hrest _ hmem)
      · simp at hmem
    · rw [ran_asking]
      exact h.answer hrest hfresh hran
  | @refresh user ok newTrip rest d hb hd =>
    have hrest : ∀ k' ∈ rest, k' ∈ x.bag := fun k' hk' => hb ▸ Multiset.mem_cons_of_mem hk'
    refine ⟨?_, .same rfl (.refl u _)⟩
    split at hd
    · obtain ⟨user, rfl, rfl⟩ := Option.map_eq_some_iff.mp hd
      exact ⟨h.user, h.bag user (hb ▸ Multiset.mem_cons_self _ _), h.edits,
        fun user hmem => h.bag user (hrest _ hmem)⟩
    · obtain rfl := Option.some.inj hd
      exact ⟨h.user, h.currentUser, h.edits, fun user hmem => h.bag user (hrest _ hmem)⟩

end

/-! ## The runs of a device -/

/-- The copy has the trips of the user, apart from the one that is left out. -/
def UpToDate (u : Uid) (db : Firestore) (c : Rewriting) : Prop :=
  (c.copy.filter fun t => some t ≠ c.left).Perm ((owned u db).filter fun t => some t ≠ c.left)

instance (u : Uid) (db : Firestore) : DecidablePred (UpToDate u db) :=
  fun _ => inferInstanceAs (Decidable (List.Perm _ _))

/-- A state of the device with what is under way. -/
abbrev Running := State Firestore Device Write Closure

/-- A step of the device, whose writes are not rejected. -/
def Turn (st : Running) (lbl : Label TripID (Hearing Event)) (st' : Running) : Prop :=
  listening.turn st lbl = some st' ∧ ∀ m ∈ st.move lbl, Fresh (listening.view st) m

/-- The list of trips that a step of a run writes. -/
def rewrites (st : Running) (lbl : Label TripID (Hearing Event)) : Option Rewriting :=
  (st.move lbl).bind (rewriting (listening.direct st))

/-- A trip is created or deleted, and the copy that its list is made of is up to date. -/
def Purges (u : Uid) (st : Running) (lbl : Label TripID (Hearing Event)) : Prop :=
  ∃ c ∈ rewrites st lbl, UpToDate u (listening.view st) c

instance (u : Uid) (st : Running) : DecidablePred (Purges u st) :=
  fun lbl => inferInstanceAs (Decidable (∃ c ∈ rewrites st lbl, UpToDate u (listening.view st) c))

/-- No trip is created or deleted. -/
def Spares (st : Running) (lbl : Label TripID (Hearing Event)) : Prop := (rewrites st lbl).isNone

instance (st : Running) : DecidablePred (Spares st) :=
  fun lbl => inferInstanceAs (Decidable ((rewrites st lbl).isNone = true))

section

variable {u : Uid} {x x' : Live} {m : Move} {st st' : Running}
  {lbl : Label TripID (Hearing Event)}

/-- **One step of the list**: a list that is written makes it right or wrong; what else happens
leaves it so. -/
theorem TripsStep.listed (h : TripsStep u x x' m) (hdoc : (x.store.users.lookup u).isSome) :
    (x'.store.users.lookup u).isSome ∧
      ((∃ c ∈ rewriting x m, UpToDate u x.store c) → Listed u x'.store) ∧
      ((¬ ∃ c ∈ rewriting x m, UpToDate u x.store c) →
        (Listed u x'.store ↔ Listed u x.store ∧ (rewriting x m).isNone)) := by
  obtain ⟨d, hd⟩ := Option.isSome_iff_exists.mp hdoc
  have hdoc' {ts : List TripID} (hlist : (x'.store.users.lookup u).map UserDoc.trips = some ts) :
      (x'.store.users.lookup u).isSome := by
    rw [← Option.isSome_map (f := UserDoc.trips), hlist, Option.isSome_some]
  -- the list is right exactly if the copy was
  have hrewritten {c : Rewriting} (hm : rewriting x m = some c)
      (hup : Listed u x'.store ↔ UpToDate u x.store c) :
      ((∃ c ∈ rewriting x m, UpToDate u x.store c) → Listed u x'.store) ∧
        ((¬ ∃ c ∈ rewriting x m, UpToDate u x.store c) →
          (Listed u x'.store ↔ Listed u x.store ∧ (rewriting x m).isNone)) := by
    simp [hm, hup]
  cases h with
  | same hm hsame =>
    have hlist := hsame.list
    rw [hd, Option.map_some] at hlist
    have hright : Listed u x.store ↔ d.trips.Perm (owned u x.store) :=
      listed_iff_perm (by rw [hd, Option.map_some])
    rw [hm, hright, listed_iff_perm hlist, hsame.owned.congr_right]
    exact ⟨hdoc' hlist, fun ⟨t, ht, _⟩ => (by cases ht), fun _ => by simp⟩
  | @created newTrip copy hm howned hlist =>
    rw [hd, Option.map_some] at hlist
    refine ⟨hdoc' hlist, hrewritten hm ?_⟩
    rw [listed_iff_perm hlist, howned.congr_right, List.perm_append_right_iff]
    simp [UpToDate]
  | @deleted t copy hm howned hlist =>
    rw [hd, Option.map_some] at hlist
    refine ⟨hdoc' hlist, hrewritten hm ?_⟩
    rw [listed_iff_perm hlist, howned.congr_right]
    simp [UpToDate]

/-- A step of a run. -/
theorem Own.turn (h : Own u (listening.direct st))
    (hdoc : ((listening.view st).users.lookup u).isSome) (hs : Turn st lbl st') :
    (Own u (listening.direct st') ∧ ((listening.view st').users.lookup u).isSome) ∧
      (Purges u st lbl → Listed u (listening.view st')) ∧
      (¬ Purges u st lbl →
        (Listed u (listening.view st') ↔ Listed u (listening.view st) ∧ Spares st lbl)) := by
  rcases turn_move hs.1 with ⟨hnone, hsame⟩ | ⟨m, hm, hmove⟩
  · have hview : listening.view st' = listening.view st := congrArg Direct.store hsame
    have hrewrites : rewrites st lbl = none := by rw [rewrites, hnone, Option.bind_none]
    rw [hsame, hview]
    refine ⟨⟨h, hdoc⟩, ?_, fun _ => ?_⟩
    · rintro ⟨t, ht, -⟩
      rw [hrewrites] at ht
      cases ht
    · rw [Spares, hrewrites]
      exact (and_iff_left rfl).symm
  · have hrewrites : rewrites st lbl = rewriting (listening.direct st) m := by
      rw [rewrites, hm, Option.bind_some]
    obtain ⟨hown, hstep⟩ := h.step (hs.2 m hm) hmove
    obtain ⟨hdoc', hpurges, hother⟩ := hstep.listed hdoc
    rw [Purges, Spares, hrewrites]
    exact ⟨⟨hown, hdoc'⟩, hpurges, hother⟩

end

/-- **The list of trips**: however trips are created and deleted on a device, however late what is
fetched arrives, and `currentUser` is refreshed, when everything has arrived, the document of the
user lists the trips of the user exactly if no trip has been created or deleted, or the copy was up
to date that the last list was made of. -/
theorem trips_listed_iff {db : Firestore} {me : User} {bucket : Bucket} {now : Timestamp}
    {tr : List (Label TripID (Hearing Event) × Running)} (hlisted : Listed me.uid db)
    (hrun : IsRun Turn (start db (signedIn me bucket now)) tr)
    (hquiet : Quiescent (final (start db (signedIn me bucket now)) tr)) :
    Listed me.uid (final (start db (signedIn me bucket now)) tr).store ↔
      MeetsSince (Purges me.uid) Spares (start db (signedIn me bucket now)) tr := by
  have hown : Own me.uid (listening.direct (start db (signedIn me bucket now))) := by
    rw [direct_start]
    exact ⟨rfl, rfl, fun l hl => (by cases hl), fun user hmem => (by cases hmem)⟩
  have hdoc : (db.users.lookup me.uid).isSome := by
    obtain ⟨d, hd, -⟩ := hlisted
    rw [Option.mem_def.mp hd, Option.isSome_some]
  have hiff := hrun.final_iff_meetsSince (G := fun st => Listed me.uid (listening.view st))
    (I := fun st => Own me.uid (listening.direct st) ∧
      ((listening.view st).users.lookup me.uid).isSome)
    (fun st lbl st' h hs => h.1.turn h.2 hs) ⟨hown, hdoc⟩
  have hstore : listening.view (final (start db (signedIn me bucket now)) tr) =
      (final (start db (signedIn me bucket now)) tr).store :=
    congrArg Direct.store (hquiet.direct (P := listening))
  rw [hstore] at hiff
  exact hiff.trans (and_iff_right fun _ => hlisted)

/-- Ann has a trip with one entry. -/
def deviceStore : Firestore where
  users := AList.insert "ann" { newUser "ann" with trips := ["s"] } ∅
  trips := AList.insert "s" ⟨"old", some ⟨"s"⟩, "ann", 0, ["e"]⟩ ∅
  entries :=
    AList.insert "e" { sampleEntryDoc "e" with coverPhoto := some ⟨"e"⟩, tripID := some "s" } ∅
  newsfeed := ∅

/-- Ann's device. -/
def sampleDevice : Running :=
  start deviceStore (signedIn { newUser "ann" with trips := ["s"], uid := "ann" } ∅ 1)

/-- Answers are read or arrive, the first one first. -/
def delivers (n : ℕ) : List (Label TripID (Hearing Event)) := List.replicate n (.deliver 0 true "")

/-- Writes take effect. -/
def applies (n : ℕ) : List (Label TripID (Hearing Event)) := List.replicate n .apply

/-- A new trip is put together, with a cover and an entry with one image. -/
def composes : List (Label TripID (Hearing Event)) :=
  [.event (.event (.openEdit none)),
    .event (.event (.edit 0 (EditTrip.Event.addAnnotation
      ⟨⟨0, 0⟩, "new", "", [.ofData "new"], "", ⟨"new"⟩, .ofData "new"⟩ "f"))),
    .event (.event (.edit 0 (.editTripName "new"))),
    .event (.event (.edit 0 (.selectTripCover (some (.ofData "cover")))))]

/-- The trip `t` is created. -/
def creates : List (Label TripID (Hearing Event)) :=
  composes ++ .event (.event (.edit 0 .saveButtonPressed)) :: delivers 6 ++ applies 2 ++
    delivers 3 ++ .deliver 0 true "t" :: applies 3 ++ delivers 4 ++ applies 1 ++ delivers 3 ++
    applies 1 ++ delivers 1

/-- `currentUser` is refreshed. -/
def refreshes : List (Label TripID (Hearing Event)) := [.event .snapshot, .deliver 0 true ""]

/-- The trip `s` is deleted. -/
def deletesOld : List (Label TripID (Hearing Event)) :=
  [.event (.event (.openInfo "s")), .event (.event (.info 0 .viewWillAppear))] ++ delivers 6 ++
    [.event (.event (.info 0 .barButtonPressed)), .event (.event (.info 0 .deletePressed)),
      .event (.event (.info 0 .deleteConfirmed))] ++ delivers 2 ++ applies 3 ++ delivers 3 ++
    applies 1 ++ delivers 3

/-- A run of `trips_listed_iff`. -/
theorem trips_listed_iff_sample : ∃ tr, IsRun Turn sampleDevice tr ∧
    tr.map Prod.fst = creates ++ refreshes ++ deletesOld ++ refreshes ∧
    owned "ann" (final sampleDevice tr).store = ["t"] ∧
    Listed "ann" (final sampleDevice tr).store := by
  obtain ⟨tr, htr, hfresh, hquiet, howned, hmeets⟩ :
      ∃ tr ∈ play listening.turn (creates ++ refreshes ++ deletesOld ++ refreshes) sampleDevice,
        Meets (fun st lbl => ∀ m ∈ st.move lbl, Fresh (listening.view st) m) sampleDevice tr ∧
        Quiescent (final sampleDevice tr) ∧ owned "ann" (final sampleDevice tr).store = ["t"] ∧
        MeetsSince (Purges "ann") Spares sampleDevice tr := by
    decide +kernel
  have hlisted : Listed "ann" deviceStore := by decide +kernel
  have hrun : IsRun Turn sampleDevice tr := (isRun_of_play htr).and_meets hfresh
  exact ⟨tr, hrun, labels_of_play htr, howned, (trips_listed_iff hlisted hrun hquiet).mpr hmeets⟩

/-- The new trip is saved twice, and both times the user is fetched before a trip is created. -/
def createsTwice : List (Label TripID (Hearing Event)) :=
  composes ++ .event (.event (.edit 0 .saveButtonPressed)) ::
    .event (.event (.edit 0 .saveButtonPressed)) :: delivers 9 ++ applies 2 ++ delivers 1 ++
    applies 2 ++ delivers 6 ++ .deliver 0 true "t" :: applies 3 ++ .deliver 0 true "r" ::
    applies 3 ++ delivers 6 ++ applies 1 ++ delivers 2 ++ applies 1 ++ delivers 5 ++ applies 1 ++
    delivers 2 ++ applies 1 ++ delivers 1

/-- **A new trip is dropped**: `currentUser` is refreshed only when the old trip has been deleted,
or no trip is deleted, but two are created with the same copy of the list. -/
theorem new_trip_dropped :
    (∃ tr, IsRun Turn sampleDevice tr ∧
      tr.map Prod.fst = creates ++ deletesOld ++ refreshes ∧ Listed "ann" sampleDevice.store ∧
      Quiescent (final sampleDevice tr) ∧ owned "ann" (final sampleDevice tr).store = ["t"] ∧
      ¬ Listed "ann" (final sampleDevice tr).store) ∧
    ∃ tr, IsRun Turn sampleDevice tr ∧ tr.map Prod.fst = createsTwice ++ refreshes ∧
      Quiescent (final sampleDevice tr) ∧
      owned "ann" (final sampleDevice tr).store = ["r", "t", "s"] ∧
      ¬ Listed "ann" (final sampleDevice tr).store := by
  constructor
  · obtain ⟨tr, htr, hfresh, hrest⟩ :
        ∃ tr ∈ play listening.turn (creates ++ deletesOld ++ refreshes) sampleDevice,
          Meets (fun st lbl => ∀ m ∈ st.move lbl, Fresh (listening.view st) m) sampleDevice tr ∧
          Listed "ann" sampleDevice.store ∧ Quiescent (final sampleDevice tr) ∧
          owned "ann" (final sampleDevice tr).store = ["t"] ∧
          ¬ Listed "ann" (final sampleDevice tr).store := by
      decide +kernel
    exact ⟨tr, (isRun_of_play htr).and_meets hfresh, labels_of_play htr, hrest⟩
  · obtain ⟨tr, htr, hfresh, hrest⟩ :
        ∃ tr ∈ play listening.turn (createsTwice ++ refreshes) sampleDevice,
          Meets (fun st lbl => ∀ m ∈ st.move lbl, Fresh (listening.view st) m) sampleDevice tr ∧
          Quiescent (final sampleDevice tr) ∧
          owned "ann" (final sampleDevice tr).store = ["r", "t", "s"] ∧
          ¬ Listed "ann" (final sampleDevice tr).store := by
      decide +kernel
    exact ⟨tr, (isRun_of_play htr).and_meets hfresh, labels_of_play htr, hrest⟩

end Device

end Wanderlust
