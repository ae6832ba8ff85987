import Wanderlust.Trips.Photos

/-!
# Saving a new trip again

Whether a save creates a trip is decided when the document of the user has arrived, and the screen
has the id of its trip only when the entries have been linked and numbered. So a trip is created
once, however often the save button is pressed, if the document is asked for only while it is not
on its way and there is no trip whose id the screen does not have (`AsksOnce`). From the screen of
a new trip such a run adds at most one trip to the collection and to the list of the user
(`one_trip`); two presses without this add two (`two_trips`).
-/

namespace Wanderlust

open Async Runs

namespace EditTrip

/-- What there is more in `db` than in `db₀`, of trips and in the list of the user: at most `ts`. -/
structure AddsTrips (db₀ : Firestore) (u : Uid) (ts : List TripID) (db : Firestore) : Prop where
  trips : ∀ t ∈ db.trips, t ∈ db₀.trips ∨ t ∈ ts
  users : ∀ d, db.users.lookup u = some d → ∃ d₀, db₀.users.lookup u = some d₀ ∧
    (d.trips = d₀.trips ∨ d.trips = d₀.trips ++ ts)

/-- The document of the user has arrived, and the trip is written. -/
def writesTrip (db : Firestore) (l : EditTrip) : Async.Move Callback TripID Event → Bool
  | .deliver (.userFetched _ _) true _ => (db.users.lookup l.user).isSome
  | _ => false

section

variable (st : State Firestore EditTrip Write Callback) (lbl : Label TripID Event)

/-- The observer of some press fires. -/
def FiresAny : Prop := ((st.move lbl).bind (firing st.loc)).isSome

instance : Decidable (FiresAny st lbl) := inferInstanceAs (Decidable (_ = _))

/-- The trip is written: the step runs the closure that is given the user document. -/
def WritesTrip : Prop := (st.move lbl).any (writesTrip (program.view st) st.loc)

instance : Decidable (WritesTrip st lbl) := inferInstanceAs (Decidable (_ = _))

/-- The number of the fetches of the user document that are on their way. -/
def fetching : ℕ := (program.direct st).bag.countP fun k => k.awaitsUser

end

/-- If a step asks for the document of the user, the screen has a trip; or it has created none, and
the document is not on its way. -/
def AsksOnce (st : State Firestore EditTrip Write Callback) (lbl : Label TripID Event) : Prop :=
  FiresAny st lbl → st.loc.tripID ≠ none ∨ st.loc.dismissed = false ∧ fetching st = 0

instance (st : State Firestore EditTrip Write Callback) (lbl : Label TripID Event) :
    Decidable (AsksOnce st lbl) := inferInstanceAs (Decidable (_ → _))

/-- The callbacks that there are only for a trip: they load it, or follow when it has been
written. -/
def Callback.ofTrip : Callback → Bool
  | .tripUpdated _ => true
  | .tripIDUpdated _ _ _ => true
  | .entryOrderUpdated _ _ _ => true
  | k => k.loads

/-- The screen of the user `u` has no trip, and the document of the user is asked for at most
once. -/
structure Tripless (u : Uid) (x : Direct Firestore EditTrip Callback) : Prop where
  user : x.loc.user = u
  tripID : x.loc.tripID = none
  ofTrip : ∀ k ∈ x.bag, k.ofTrip = false
  fetches : x.bag.countP (fun k => k.awaitsUser) ≤ 1

/-- The screen has a trip, or has created one and does not ask for the document of the user. -/
def HasTrip (x : Direct Firestore EditTrip Callback) : Prop :=
  x.loc.tripID ≠ none ∨
    x.loc.dismissed = true ∧ x.bag.countP (fun k => k.awaitsUser) = 0

section

variable {db₀ db : Firestore} {u : Uid} {t : TripID} {ts : List TripID} {w : Write} {l : EditTrip}
  {k : Callback} {ok : Bool} {a : TripID} {e : Event} {r : EditTrip × List Cmd}
  {x x' : Direct Firestore EditTrip Callback} {m : Async.Move Callback TripID Event}
  {st st' : State Firestore EditTrip Write Callback} {lbl : Label TripID Event}
  {tr : List (Label TripID Event × State Firestore EditTrip Write Callback)}

/-! ## Writes -/

theorem AddsTrips.refl (db₀ : Firestore) (u : Uid) : AddsTrips db₀ u [] db₀ :=
  ⟨fun _ => Or.inl, fun d hd => ⟨d, hd, Or.inl rfl⟩⟩

theorem AddsTrips.mono (h : AddsTrips db₀ u [] db) : AddsTrips db₀ u ts db where
  trips t ht := (h.trips t ht).imp_right fun h => absurd h List.not_mem_nil
  users d hd := by
    obtain ⟨d₀, hd₀, htrips⟩ := h.users d hd
    rw [List.append_nil, or_self] at htrips
    exact ⟨d₀, hd₀, Or.inl htrips⟩

theorem AddsTrips.routine (h : AddsTrips db₀ u ts db) (hw : Routine w) :
    AddsTrips db₀ u ts (w.apply db) := by
  cases hw with
  | updates hw =>
    cases hw with
    | entries t name ids => exact ⟨fun t ht => h.trips t (Collection.mem_modify.mp ht), h.users⟩
    | completing hw =>
      cases hw with
      | cover t url => exact ⟨fun t ht => h.trips t (Collection.mem_modify.mp ht), h.users⟩
      | tripID id t => exact ⟨h.trips, h.users⟩
      | order id i => exact ⟨h.trips, h.users⟩
  | _ => exact ⟨h.trips, h.users⟩

theorem AddsTrips.addTrip (h : AddsTrips db₀ u [t] db) (d : TripDoc) :
    AddsTrips db₀ u [t] ((Write.addTrip t d).apply db) := by
  refine ⟨fun t' ht' => ?_, h.users⟩
  rcases (AList.mem_insert _).mp ht' with rfl | ht'
  · exact Or.inr (List.mem_singleton_self _)
  · exact h.trips t' ht'

/-- The list of the user is written as it was read, with the trip at its end. -/
theorem AddsTrips.updateUser (h : AddsTrips db₀ u [t] db) {userData d₀ : UserDoc}
    (hd₀ : db₀.users.lookup u = some d₀) (htrips : userData.trips = d₀.trips) :
    AddsTrips db₀ u [t]
      ((Write.updateUser u fun d => { d with trips := userData.trips ++ [t] }).apply db) := by
  refine ⟨h.trips, fun d hd => ⟨d₀, hd₀, Or.inr ?_⟩⟩
  simp only [Write.apply, Collection.lookup_modify_eq, if_true] at hd
  obtain ⟨d', -, rfl⟩ := Option.map_eq_some_iff.mp hd
  rw [← htrips]

/-- The commands that create a trip add this one. -/
theorem addsTrips_createTrip {ids : List EntryID} {userData : UserDoc}
    (hview : AddsTrips db₀ l.user [] db) (hu : db.users.lookup l.user = some userData) :
    ∀ c ∈ (createTrip ids userData t l).2, c.Writes fun w =>
      ∀ db, AddsTrips db₀ l.user [t] db → AddsTrips db₀ l.user [t] (w.apply db) := by
  obtain ⟨d₀, hd₀, htrips⟩ := hview.users userData hu
  rw [List.append_nil, or_self] at htrips
  obtain ⟨cs, hcs, hrest⟩ := writes_createTrip ids userData t l
  intro c hc
  rw [hcs] at hc
  rcases List.mem_cons.mp hc with rfl | hc
  · exact fun db h => h.addTrip _
  rcases List.mem_cons.mp hc with rfl | hc
  · exact fun db h => h.updateUser hd₀ htrips
  · exact (hrest c hc).mono fun w hw db h => h.routine (.updates (.completing hw))

/-! ## Code -/

theorem Callback.loads_of_ofTrip (h : k.ofTrip = false) : k.loads = false := by
  cases k <;> first | rfl | exact h

/-- The screen that has been left stays so. -/
theorem dismissed_react (h : react k ok a l db = some r) (hd : l.dismissed = true) :
    r.1.dismissed = true := by
  cases hf : k.fills with
  | true => exact (unsaved_react h hf).dismissed.trans hd
  | false =>
    cases k with
    | imageURL c press r' path =>
      simp only [react] at h
      split at h <;> cases h
      split <;> exact hd
    | userFetched p ids =>
      simp only [react] at h
      split at h
      · cases h; exact hd
      · split at h <;> cases h
        · rfl
        · exact hd
    | tripUpdated ids =>
      obtain ⟨t, -, rfl⟩ := Option.map_eq_some_iff.mp h
      rfl
    | tripCoverURL t path =>
      simp only [react] at h
      split at h <;> cases h <;> exact hd
    | objectDeleted path =>
      simp only [react, Option.some.injEq] at h
      split at h <;> subst h <;> exact hd
    | imageUploaded c press r' path data =>
      simp only [react, Option.some.injEq] at h
      split at h <;> subst h <;> exact hd
    | entryWritten press r' =>
      simp only [react, Option.some.injEq, entryWritten] at h
      split at h <;> subst h <;> exact hd
    | tripIDUpdated c ids t =>
      simp only [react, Option.some.injEq] at h
      split at h <;> subst h <;> exact hd
    | entryOrderUpdated c n t =>
      simp only [react, Option.some.injEq] at h
      split at h <;> subst h <;> exact hd
    | tripCoverUploaded t path data =>
      simp only [react, Option.some.injEq] at h
      split at h <;> subst h <;> exact hd
    | _ => cases hf

/-- Without a trip, what the user does puts nothing on its way that there is only for a trip. -/
theorem not_ofTrip_event (h : event e l db = some r) (ht : l.tripID = none) :
    ∀ k ∈ callbacks r.2, k.ofTrip = false := by
  intro k hk
  cases hp : e.presses with
  | false =>
    obtain ⟨c, hc, hck⟩ := mem_callbacks.mp hk
    rcases asks_event h hp c hc with ⟨t, hsome, -⟩ | ⟨s, uid, rfl⟩
    · rw [ht] at hsome
      cases hsome
    · cases hck
      rfl
  | true =>
    cases e with
    | saveButtonPressed =>
      simp only [event] at h
      split at h <;> cases h
      simp only [saveButtonPressed] at hk
      split at hk
      · simp at hk
      · have hskip : updateTripInfo l.newCount = (l.newCount, []) := by
          rw [updateTripInfo_eq]
          simp [updateTripInfoDidSet, newCount, ht]
        simp only [Handler.andThen_apply, callbacks_append, Multiset.mem_add, hskip,
          callbacks_nil, Multiset.notMem_zero, false_or] at hk
        rcases hk with hk | hk
        · obtain ⟨path, rfl⟩ := mem_callbacks_forEach (fun _ _ _ => callbacks_deleteEntry) _ _ k hk
          rfl
        · refine mem_callbacks_forEach (p := fun k => k.ofTrip = false)
            (fun s l' k' hk' => ?_) _ _ k hk
          rcases callbacks_addEntryToFirestore hk' with ⟨c, path, data, rfl⟩ | rfl <;> rfl
    | _ => cases hp

/-- When the document of the user arrives, a screen without a trip creates one; otherwise it stays
without. -/
theorem tripless_react (h : react k ok a l db = some r) (ht : l.tripID = none)
    (hk : k.ofTrip = false) :
    if writesTrip db l (.deliver k ok a) then
      ∃ p ids userData, k = .userFetched p ids ∧ db.users.lookup l.user = some userData ∧
        r = createTrip ids userData a l
    else r.1.tripID = none ∧ ∀ k' ∈ callbacks r.2, k'.ofTrip = false := by
  by_cases hu : ∃ p ids, k = .userFetched p ids
  · obtain ⟨p, ids, rfl⟩ := hu
    cases ok with
    | false =>
      cases h
      exact ⟨ht, by simp⟩
    | true =>
      simp only [react, ht, if_true] at h
      split at h
      · rename_i huser
        cases h
        rw [if_neg (by simp [writesTrip, huser])]
        exact ⟨ht, by simp⟩
      · rename_i userData huser
        cases h
        rw [if_pos (by simp [writesTrip, huser])]
        exact ⟨p, ids, userData, rfl, huser, rfl⟩
  · have hno : writesTrip db l (.deliver k ok a) = false := by
      cases k <;> first | exact absurd ⟨_, _, rfl⟩ hu | rfl
    rw [hno, if_neg Bool.false_ne_true]
    refine ⟨?_, fun k' hk' => ?_⟩
    · rcases tripID_react h with hr | ⟨c, n, t, rfl, -⟩
      · exact hr.trans ht
      · cases hk
    · cases leads_react h k' hk' <;> first | exact absurd ⟨_, _, rfl⟩ hu | rfl | cases hk

/-! ## One step -/

theorem fetches_deliver (hr : react k ok a l db = some r) (rest : Multiset Callback) :
    (rest + callbacks r.2).countP (fun k => k.awaitsUser) =
      rest.countP (fun k => k.awaitsUser) +
        if (firing l (.deliver k ok a)).isSome then 1 else 0 := by
  rw [Multiset.countP_add, fetches_react hr]

theorem HasTrip.step (h : HasTrip x) (hs : DirectStep program x m x')
    (hask : (firing x.loc m).isSome → x.loc.tripID ≠ none ∨ x.loc.dismissed = false ∧
      x.bag.countP (fun k => k.awaitsUser) = 0) : HasTrip x' := by
  cases hs with
  | event he =>
    obtain ⟨ht, hd, -⟩ := kept_event he
    refine h.imp (fun h => ?_) fun h => ⟨hd.trans h.1, ?_⟩
    · exact ht ▸ h
    · rw [Program.after, Multiset.countP_add, fetches_event he, h.2]
  | @deliver k ok a rest r hb hr =>
    by_cases ht : x.loc.tripID = none
    · obtain ⟨hd, hzero⟩ := h.resolve_left (not_not_intro ht)
      have hquiet : ¬(firing x.loc (.deliver k ok a)).isSome := by
        intro hf
        rcases hask hf with h | ⟨h, -⟩
        · exact h ht
        · exact absurd (hd.symm.trans h) (by decide)
      refine Or.inr ⟨dismissed_react hr hd, (fetches_deliver hr rest).trans ?_⟩
      rw [if_neg hquiet, add_zero]
      rw [hb] at hzero
      exact Nat.le_zero.mp ((Multiset.countP_le_of_le _ (Multiset.le_cons_self _ _)).trans_eq hzero)
    · left
      rcases tripID_react hr with hsame | ⟨c, n, t, -, hsome⟩
      · exact hsame ▸ ht
      · rw [Program.after, hsome]
        simp

/-- When the document of the user arrives, the screen without a trip creates one. -/
theorem Tripless.step (h : Tripless u x) (hs : DirectStep program x m x')
    (hask : (firing x.loc m).isSome → x.loc.tripID ≠ none ∨ x.loc.dismissed = false ∧
      x.bag.countP (fun k => k.awaitsUser) = 0) :
    if writesTrip x.store x.loc m then HasTrip x' else Tripless u x' := by
  cases hs with
  | event he =>
    obtain ⟨ht, -, hu⟩ := kept_event he
    refine ⟨hu.trans h.user, ht.trans h.tripID, fun k hk => ?_, ?_⟩
    · rcases Multiset.mem_add.mp hk with hk | hk
      · exact h.ofTrip k hk
      · exact not_ofTrip_event he h.tripID k hk
    · rw [Program.after, Multiset.countP_add, fetches_event he, add_zero]
      exact h.fetches
  | @deliver k ok a rest r hb hr =>
    have hmem : k ∈ x.bag := hb ▸ Multiset.mem_cons_self _ _
    have hold : ∀ k' ∈ rest, k' ∈ x.bag := fun k' hk' => hb ▸ Multiset.mem_cons_of_mem hk'
    have hle : rest.countP (fun k => k.awaitsUser) ≤ x.bag.countP fun k => k.awaitsUser :=
      hb ▸ Multiset.countP_le_of_le _ (Multiset.le_cons_self _ _)
    have hnew := tripless_react hr h.tripID (h.ofTrip k hmem)
    have hcount := fetches_deliver hr rest
    split
    · rename_i hw
      rw [if_pos hw] at hnew
      obtain ⟨p, ids, userData, rfl, -, rfl⟩ := hnew
      -- this was the only answer of its kind
      have hone := h.fetches
      rw [hb, Multiset.countP_cons_of_pos (p := fun k : Callback => k.awaitsUser = true) _ rfl]
        at hone
      refine Or.inr ⟨rfl, hcount.trans ?_⟩
      simp only [firing, Option.isSome_none, Bool.false_eq_true, if_false, add_zero]
      omega
    · rename_i hw
      rw [if_neg hw] at hnew
      obtain ⟨ht, hcs⟩ := hnew
      have hstays := stays_react hr (Callback.loads_of_ofTrip (h.ofTrip k hmem))
      refine ⟨hstays.user.trans h.user, ht, fun k' hk' => ?_,
        hcount.trans_le ?_⟩
      · exact (Multiset.mem_add.mp hk').elim (fun hk' => h.ofTrip k' (hold k' hk')) (hcs k')
      · split
        · rename_i hf
          obtain ⟨-, hzero⟩ := (hask hf).resolve_left (not_not_intro h.tripID)
          omega
        · exact hle.trans h.fetches

/-! ## The writes of a step -/

theorem routine_of_not_writesTrip (hno : ¬WritesTrip st lbl) (hr : program.Runs st lbl r) :
    ∀ c ∈ r.2, c.Writes Routine := by
  cases hr with
  | event he => exact writes_event he
  | @deliver i ok a k o _ hi ho hr =>
    rcases writes_react hr with hw | ⟨p, ids, userData, rfl, rfl, huser, -⟩
    · exact hw
    · exact absurd (by simp [WritesTrip, State.move, hi, writesTrip, huser]) hno

theorem HasTrip.routine (h : HasTrip (program.direct st)) (hr : program.Runs st lbl r) :
    ∀ c ∈ r.2, c.Writes Routine := by
  cases hr with
  | event he => exact writes_event he
  | @deliver i ok a k o _ hi ho hr =>
    rcases writes_react hr with hw | ⟨p, ids, userData, rfl, -, -, ht, -⟩
    · exact hw
    · rcases h with h | ⟨-, h⟩
      · exact absurd ht h
      · have hmem : Callback.userFetched p ids ∈ (program.direct st).bag :=
          mem_bag_of_ready (List.mem_of_getElem? hi)
        exact absurd rfl (Multiset.countP_eq_zero.mp h _ hmem)

/-- Whatever a step of a screen without a trip writes, there is one trip that it adds at most. -/
theorem Tripless.adds (h : Tripless u (program.direct st))
    (hview : AddsTrips db₀ u [] (program.view st)) (lbl : Label TripID Event) :
    ∃ t, ∀ r, program.Runs st lbl r → ∀ c ∈ r.2, c.Writes fun w =>
      ∀ db, AddsTrips db₀ u [t] db → AddsTrips db₀ u [t] (program.apply w db) := by
  have hkeep : ∀ {t : TripID} {r : EditTrip × List Cmd}, (∀ c ∈ r.2, c.Writes Routine) →
      ∀ c ∈ r.2, c.Writes fun w =>
        ∀ db, AddsTrips db₀ u [t] db → AddsTrips db₀ u [t] (program.apply w db) :=
    fun hr c hc => (hr c hc).mono fun w hw db h => h.routine hw
  have huser : st.loc.user = u := h.user
  by_cases hd : ∃ i ok a, lbl = .deliver i ok a
  · obtain ⟨i, ok, a, rfl⟩ := hd
    refine ⟨a, fun r hr => ?_⟩
    cases hr with
    | deliver hi ho hr =>
      rcases writes_react hr with hw | ⟨p, ids, userData, rfl, -, hdoc, -, rfl⟩
      · exact hkeep hw
      · subst huser
        exact addsTrips_createTrip hview hdoc
  · refine ⟨"", fun r hr => hkeep ?_⟩
    cases hr with
    | event he => exact writes_event he
    | deliver hi ho hr => exact absurd ⟨_, _, _, rfl⟩ hd

/-! ## Runs -/

/-- `AddsTrips` holds of the store, and will, whichever writes in the queue take effect. -/
abbrev AddsThroughout (db₀ : Firestore) (u : Uid) (ts : List TripID)
    (st : State Firestore EditTrip Write Callback) : Prop :=
  Throughout program.apply (fun _ => True) (AddsTrips db₀ u ts) (st.queue.map Prod.fst) st.store

theorem hasTrip_step (h : HasTrip (program.direct st)) (hs : program.step lbl st = some st')
    (hask : AsksOnce st lbl) : HasTrip (program.direct st') := by
  rcases step_move hs with ⟨-, -, s, hd⟩ | ⟨m, hm, hd⟩
  · rw [hd]
    exact h
  · refine h.step hd fun hf => hask ?_
    unfold FiresAny
    rw [hm]
    exact hf

theorem tripless_step (h : Tripless u (program.direct st)) (hs : program.step lbl st = some st')
    (hask : AsksOnce st lbl) :
    if WritesTrip st lbl then HasTrip (program.direct st')
    else Tripless u (program.direct st') := by
  rcases step_move hs with ⟨hm, -, s, hd⟩ | ⟨m, hm, hd⟩
  · rw [if_neg (by simp [WritesTrip, hm]), hd]
    exact ⟨h.user, h.tripID, h.ofTrip, h.fetches⟩
  · have hnew := h.step hd fun hf => hask (by unfold FiresAny; rw [hm]; exact hf)
    have hiff : WritesTrip st lbl ↔
        writesTrip (program.direct st).store (program.direct st).loc m = true := by
      simp only [WritesTrip, hm, Option.any_some]
      rfl
    by_cases hw : WritesTrip st lbl
    · rw [if_pos hw]
      rwa [if_pos (hiff.mp hw)] at hnew
    · rw [if_neg hw]
      rwa [if_neg (mt hiff.mpr hw)] at hnew

/-- A run of a screen with a trip adds no other. -/
theorem HasTrip.run (h : HasTrip (program.direct st)) (hadds : AddsThroughout db₀ u ts st)
    (hrun : IsRun (fun st lbl st' => program.step lbl st = some st') st tr)
    (hask : Meets AsksOnce st tr) : ∀ x ∈ tr, AddsTrips db₀ u ts x.2.store := by
  intro x hx
  have hinv := hrun.invariant
    (I := fun st => HasTrip (program.direct st) ∧ AddsThroughout db₀ u ts st)
    (fun st lbl st' hst hs hask => ?_) ⟨h, hadds⟩ hask x hx
  · exact hinv.2.now
  · refine ⟨hasTrip_step hst.1 hs hask, hst.2.step hs (fun r hr c hc => ?_) fun _ _ _ => trivial⟩
    exact (hst.1.routine hr c hc).mono fun w hw db h => h.routine hw

/-- A run of a screen without a trip adds one at most. -/
theorem Tripless.run (h : Tripless u (program.direct st)) (hadds : AddsThroughout db₀ u [] st)
    (hrun : IsRun (fun st lbl st' => program.step lbl st = some st') st tr)
    (hask : Meets AsksOnce st tr) : ∃ t, ∀ x ∈ tr, AddsTrips db₀ u [t] x.2.store := by
  induction tr generalizing st with
  | nil => exact ⟨"", by simp⟩
  | cons x tr ih =>
    obtain ⟨lbl, st'⟩ := x
    have hnew := tripless_step h hrun.1 hask.1
    by_cases hw : WritesTrip st lbl
    · rw [if_pos hw] at hnew
      obtain ⟨t, ht⟩ := h.adds hadds.view lbl
      have hadds' : AddsThroughout db₀ u [t] st' :=
        (hadds.mono fun _ => AddsTrips.mono).step hrun.1 ht fun _ _ _ => trivial
      exact ⟨t, List.forall_mem_cons.mpr ⟨hadds'.now, hnew.run hadds' hrun.2 hask.2⟩⟩
    · rw [if_neg hw] at hnew
      have hadds' : AddsThroughout db₀ u [] st' :=
        hadds.step hrun.1 (fun r hr c hc => ((routine_of_not_writesTrip hw hr) c hc).mono
          fun w hw db h => h.routine hw) fun _ _ _ => trivial
      obtain ⟨t, ht⟩ := ih hnew hadds' hrun.2 hask.2
      exact ⟨t, List.forall_mem_cons.mpr ⟨hadds'.now.mono, ht⟩⟩

/-- **One trip**, in every run of the screen of a new trip in which the document of the user is
asked for once at a time. -/
theorem one_trip {db : Firestore} {u : User} {b : Bucket} {now : Timestamp}
    {tr : List (Label TripID Event × State Firestore EditTrip Write Callback)}
    (hrun : IsRun (fun st lbl st' => program.step lbl st = some st')
      (start db (opened u none b now)) tr)
    (hask : Meets AsksOnce (start db (opened u none b now)) tr) :
    ∃ t, ∀ x ∈ tr, AddsTrips db u.uid [t] x.2.store := by
  have hstart : Tripless u.uid (program.direct (start db (opened u none b now))) := by
    rw [direct_start]
    exact ⟨rfl, rfl, by simp, by simp⟩
  exact hstart.run (AddsTrips.refl db u.uid) hrun hask

end

/-! ## Two runs -/

/-- Save is pressed twice, the entry of the second press is rejected, and everything else
succeeds. -/
def samplePressRejected : List (Label TripID Event) :=
  [.event .saveButtonPressed, .event .saveButtonPressed, .deliver 0 true "", .deliver 0 true "",
    .deliver 0 true "", .deliver 0 true "", .deliver 0 true "", .apply, .apply, .apply, .reject,
    .apply, .apply, .deliver 0 true "", .deliver 0 false "", .deliver 0 true "t", .apply, .apply,
    .apply, .deliver 0 true "", .apply, .deliver 0 true ""]

/-- A run of `one_trip` with two presses: the trip is there at the end. -/
theorem one_trip_sample : ∃ (t : TripID) (db : Firestore), "t" ∈ db.trips ∧
    AddsTrips sampleDatabase "ann" [t] db := by
  have hplay : (play (fun st lbl => program.step lbl st) (sampleOneEntry ++ samplePressRejected)
      sampleNewScreen).isSome ∧
      ∀ tr ∈ play (fun st lbl => program.step lbl st) (sampleOneEntry ++ samplePressRejected)
        sampleNewScreen, Meets AsksOnce sampleNewScreen tr ∧
      ∃ x ∈ tr.getLast?, "t" ∈ x.2.store.trips := by
    decide +kernel
  obtain ⟨hsome, hall⟩ := hplay
  obtain ⟨tr, htr⟩ := Option.isSome_iff_exists.mp hsome
  obtain ⟨hask, x, hx, hmem⟩ := hall tr htr
  obtain ⟨t, ht⟩ := one_trip (isRun_of_play htr) hask
  exact ⟨t, x.2.store, hmem, ht x (List.mem_of_getLast? hx)⟩

/-- A run in which everything succeeds, and two presses add two trips. -/
theorem two_trips : ∃ tr, play (fun st lbl => program.step lbl st)
      (sampleOneEntry ++ samplePressedTwice) sampleNewScreen = some tr ∧
    Quiescent (final sampleNewScreen tr) ∧
    ¬∃ t, ∀ x ∈ tr, AddsTrips sampleDatabase "ann" [t] x.2.store := by
  have hplay : (play (fun st lbl => program.step lbl st) (sampleOneEntry ++ samplePressedTwice)
      sampleNewScreen).isSome ∧
      ∀ tr ∈ play (fun st lbl => program.step lbl st) (sampleOneEntry ++ samplePressedTwice)
        sampleNewScreen, Quiescent (final sampleNewScreen tr) ∧
      ∃ x ∈ tr, "s" ∈ x.2.store.trips ∧ "t" ∈ x.2.store.trips ∧
        (x.2.store.users.lookup "ann").map UserDoc.trips = some ["t", "s"] := by
    decide +kernel
  obtain ⟨hsome, hall⟩ := hplay
  obtain ⟨tr, htr⟩ := Option.isSome_iff_exists.mp hsome
  obtain ⟨hq, x, hx, hs, ht, -⟩ := hall tr htr
  refine ⟨tr, htr, hq, fun ⟨t, h⟩ => ?_⟩
  have hadds := (h x hx).trips
  have hs' := (hadds "s" hs).resolve_left (by decide)
  have ht' := (hadds "t" ht).resolve_left (by decide)
  have hst : ("s" : TripID) = "t" :=
    (List.mem_singleton.mp hs').trans (List.mem_singleton.mp ht').symm
  exact absurd hst (by decide)

end EditTrip

end Wanderlust
