import Wanderlust.Models.Timestamps
import Wanderlust.Trips.Commands
import Wanderlust.Trips.RoundTrip

/-!
# What saving a trip comes to

The edit screen and a save, from the opening of the screen to the end of the save, as one step
from database to database: `Resaved` says what has become of users, trips, entries and newsfeeds,
and `resaved_of_trace` that every complete save does just that. `stamped_of_trace` says that the
new entries are newer than the old ones.
-/

namespace Wanderlust

open Async

namespace EditTrip

/-! ## Timestamps -/

/-- The command gives no entry a new time. -/
def Timeless : Cmd → Prop
  | .write w _ => w.Timeless
  | .request _ => True

/-- Code that ended in `r.1` and issued `r.2`, and was started at `now`, keeps the times of the
entries different and before the present. -/
def Ticks (now : Timestamp) (r : EditTrip × List Cmd) : Prop :=
  ∀ db : Firestore, db.Stamped now → (effect Write.apply r.2 db).Stamped r.1.now

variable {l : EditTrip} {now : Timestamp} {x x' : Direct Firestore EditTrip Callback}

theorem Ticks.of_timeless {r : EditTrip × List Cmd} (hnow : now ≤ r.1.now)
    (hcs : ∀ c ∈ r.2, Timeless c) : Ticks now r := fun _ h =>
  (h.effect fun w k hw => hcs (.write w k) hw).mono hnow

theorem Ticks.andThen {f g : Handler} (hf : Ticks now (f l)) (hg : ∀ l', Ticks l'.now (g l')) :
    Ticks now (f.andThen g l) := by
  intro db h
  rw [Handler.andThen_apply, effect_append]
  exact hg _ _ (hf db h)

theorem Ticks.forEach {α : Type*} {f : α → Handler} {xs : List α}
    (h : ∀ x l, Ticks l.now (f x l)) (l : EditTrip) :
    Ticks l.now (Async.Handler.forEach f xs l) := by
  induction xs generalizing l with
  | nil => exact fun _ hs => hs
  | cons x xs ih => exact (h x l).andThen ih

theorem ticks_updateTripID (ids : List EntryID) (t : TripID) (l : EditTrip) :
    Ticks l.now (updateTripID ids t l) :=
  .of_timeless le_rfl (by simp [updateTripID, Timeless, Write.Timeless])

theorem ticks_updateEntryOrder (ids : List EntryID) (t : TripID) (l : EditTrip) :
    Ticks l.now (updateEntryOrder ids t l) := by
  refine .of_timeless le_rfl fun c hc => ?_
  obtain ⟨i, hi, rfl⟩ := List.mem_mapIdx.mp hc
  exact fun _ => rfl

theorem ticks_uploadTripCoverPhoto (t : TripID) (l : EditTrip) :
    Ticks l.now (uploadTripCoverPhoto t l) := by
  refine .of_timeless le_rfl fun c hc => ?_
  simp only [uploadTripCoverPhoto, Handler.issue_apply] at hc
  split at hc
  · cases hc
  · rw [List.mem_singleton.mp hc]
    trivial

theorem ticks_deleteEntry (r : ℕ) (l : EditTrip) : Ticks l.now (deleteEntry r l) :=
  .of_timeless le_rfl (by simp [deleteEntry, Timeless, Write.Timeless, or_imp, forall_and])

/-- The entry gets the present time, and the clock ticks. -/
theorem ticks_addToFirebase (press r : ℕ) (l : EditTrip) :
    Ticks l.now (addToFirebase press r l) := by
  intro db h
  have htime : ((l.heap r).entryDoc l.currentUser.uid l.now).timestamp = l.now := rfl
  have hset := h.setEntry (l.id r) htime
  rw [addToFirebase, effect_write]
  refine hset.effect fun w k hw => ?_
  obtain ⟨u, -, hw⟩ := List.mem_map.mp hw
  cases hw
  trivial

theorem ticks_addEntryToFirestore (press r : ℕ) (l : EditTrip) :
    Ticks l.now (addEntryToFirestore press r l) := by
  simp only [addEntryToFirestore]
  split
  · exact ticks_addToFirebase press r l
  · intro db h
    rw [imageUploads_effect]
    exact h

theorem ticks_updateTripInfo (l : EditTrip) : Ticks l.now (updateTripInfo l) := by
  refine Ticks.forEach (fun count l => ?_) l
  simp only [updateTripInfoDidSet]
  split
  · split
    · exact fun _ h => h
    · rename_i t _
      refine Ticks.andThen ?_ fun l' =>
        (ticks_uploadTripCoverPhoto t l').andThen (ticks_updateTripID l.ids t)
      exact .of_timeless le_rfl (by simp [Timeless, Write.Timeless])
  · exact fun _ h => h

theorem ticks_saveButtonPressed (l : EditTrip) : Ticks l.now (saveButtonPressed l) := by
  simp only [saveButtonPressed]
  split
  · exact fun _ h => h
  · exact (ticks_updateTripInfo l.newCount).andThen fun l' =>
      (Ticks.forEach ticks_deleteEntry l').andThen
        (Ticks.forEach (ticks_addEntryToFirestore l.nextCount))

theorem ticks_createTrip (ids : List EntryID) (userData : UserDoc) (t : TripID) (l : EditTrip) :
    Ticks l.now (createTrip ids userData t l) := by
  refine Ticks.andThen ?_ fun l' => Ticks.andThen ?_ fun l' =>
    (ticks_updateTripID ids t l').andThen fun l' =>
      (ticks_uploadTripCoverPhoto t l').andThen fun l' => ?_
  · exact .of_timeless le_rfl (by simp [Timeless, Write.Timeless])
  · exact .of_timeless (Nat.le_succ _) (by simp)
  · exact .of_timeless le_rfl (by simp)

/-- One step of the screen, whatever it is. -/
theorem stamped_step {m : Async.Move Callback TripID Event} (h : x.store.Stamped x.loc.now)
    (hs : DirectStep program x m x') : x'.store.Stamped x'.loc.now := by
  have hsame : ∀ l : EditTrip, l.now = x.loc.now → Ticks x.loc.now (l, []) :=
    fun l hl => .of_timeless hl.ge (by simp)
  cases hs with
  | @event e r he =>
    change event e x.loc x.store = some r at he
    refine (?_ : Ticks x.loc.now r) x.store h
    cases hp : e.presses with
    | false =>
      refine .of_timeless (undisturbed_event he hp).now.ge fun c hc => ?_
      obtain ⟨k, rfl⟩ := requests_event he hp c hc
      trivial
    | true =>
      cases e <;> simp only [Event.presses, reduceCtorEq] at hp
      simp only [event] at he
      split at he <;> cases he
      exact ticks_saveButtonPressed x.loc
  | @deliver k ok newTrip rest r hb hr =>
    change react k ok newTrip x.loc x.store = some r at hr
    refine (?_ : Ticks x.loc.now r) x.store h
    cases hf : k.fills with
    | true =>
      refine .of_timeless (unsaved_react hr hf).now.ge fun c hc => ?_
      obtain ⟨k', rfl⟩ := requests_react hr (Callback.writes_of_fills hf) c hc
      trivial
    | false =>
      cases k with
      | objectDeleted path =>
        cases hr
        refine hsame _ ?_
        split <;> rfl
      | imageUploaded c press r path data =>
        cases hr
        refine .of_timeless ?_ (by simp [Timeless])
        dsimp only
        split <;> exact le_rfl
      | imageURL c press r path =>
        simp only [react] at hr
        split at hr <;> cases hr
        split
        · exact ticks_addToFirebase press r
            ((x.loc.set r { x.loc.heap r with
              imageUrls := (x.loc.heap r).imageUrls ++ [⟨path⟩] }).count c)
        · exact hsame _ rfl
      | entryWritten press r =>
        simp only [react, Option.some.injEq] at hr
        split at hr <;> subst hr
        · refine .of_timeless le_rfl ?_
          simp only [entryWritten]
          split <;> simp [Timeless]
        · exact hsame _ rfl
      | userFetched p ids =>
        simp only [react] at hr
        split at hr
        · cases hr
          exact hsame _ rfl
        · split at hr <;> cases hr
          · exact ticks_createTrip ids _ newTrip x.loc
          · exact .of_timeless le_rfl (by simp [updateTrip, Timeless, Write.Timeless])
      | tripUpdated ids =>
        obtain ⟨t, -, rfl⟩ := Option.map_eq_some_iff.mp hr
        exact (ticks_uploadTripCoverPhoto t x.loc).andThen fun l' =>
          (ticks_updateTripID ids t l').andThen fun _ => .of_timeless le_rfl (by simp)
      | tripIDUpdated c ids t =>
        cases hr
        split
        · exact ticks_updateEntryOrder ids t (x.loc.count c)
        · exact hsame _ rfl
      | entryOrderUpdated c n t =>
        cases hr
        split <;> exact hsame _ rfl
      | tripCoverUploaded t path data =>
        cases hr
        refine .of_timeless ?_ (by simp [Timeless])
        dsimp only
        split <;> exact le_rfl
      | tripCoverURL t path =>
        simp only [react] at hr
        split at hr <;> cases hr
        · exact .of_timeless le_rfl (by simp [Timeless, Write.Timeless])
        · exact hsame _ rfl
      | _ => cases hf

/-- The step of the press, too. -/
theorem stamped_of_step {st st' : State Firestore EditTrip Write Callback}
    {lbl : Label TripID Event} (h : (program.direct st).store.Stamped st.loc.now)
    (hp : Permits program (fun _ _ _ => True) st lbl) (hs : program.step lbl st = some st') :
    (program.direct st').store.Stamped st'.loc.now := by
  rcases direct_step hp hs with ⟨hd, -⟩ | ⟨m, -, hd, -⟩
  · have hnow : st'.loc.now = st.loc.now := congrArg (fun x => x.loc.now) hd
    rw [hd, hnow]
    exact h
  · exact stamped_step h hd

theorem stamped_of_reaches {st st' : State Firestore EditTrip Write Callback}
    {allowed : EditTrip → Firestore → Async.Move Callback TripID Event → Prop}
    (h : (program.direct st).store.Stamped st.loc.now) (hr : Reaches program allowed st st') :
    (program.direct st').store.Stamped st'.loc.now :=
  hr.invariant (I := fun x => x.store.Stamped x.loc.now) (fun _ _ _ hx _ hs => stamped_step hx hs) h

/-! ## The whole step -/

/-- The ids of the entries to be deleted by a save. -/
abbrev deletedIds (l : EditTrip) : List EntryID := l.deleteList.map l.id

/-- What has become of the database `db` when the screen `l` has been saved to the trip `t` by a
user whose entries are put into `feeds`. -/
structure Resaved (l : EditTrip) (feeds : List Uid) (t : TripID) (db db' : Firestore) : Prop where
  users : ∀ u, db'.users.lookup u = (db.users.lookup u).map fun d =>
    if u = l.user ∧ l.tripID = none then { d with trips := d.trips ++ [t] } else d
  target : l.tripID = none ∧ db.trips.lookup t = none ∨
    l.tripID = some t ∧ ∃ d, db.trips.lookup t = some d ∧ d.userID = l.user ∧
      ∀ id ∈ d.entries, id ∈ l.ids ∨ id ∈ l.deletedIds
  trip : ∃ d, db'.trips.lookup t = some d ∧ d.userID = l.user ∧ d.entries = l.ids
  trips : ∀ t', t' ≠ t → db'.trips.lookup t' = db.trips.lookup t'
  nodup : l.ids.Nodup
  source : ∀ id, id ∈ l.ids ∨ id ∈ l.deletedIds →
    db.entries.lookup id = none ∨ ∃ d, db.trips.lookup t = some d ∧ id ∈ d.entries
  listed : ∀ i id, l.ids[i]? = some id → ∃ e, db'.entries.lookup id = some e ∧ e.entryOrder = i ∧
    e.tripID = some t ∧ e.entryID = id ∧ e.userID = l.user ∧ l.now ≤ e.timestamp ∧
      ∀ u ∈ feeds, db'.newsfeed.lookup (u, id) = some ⟨e.timestamp, l.user⟩
  deleted : ∀ id ∈ l.deletedIds, id ∉ l.ids ∧ db'.entries.lookup id = none ∧
    ∀ u ∈ feeds, db'.newsfeed.lookup (u, id) = none
  entries : ∀ id, id ∉ l.ids → id ∉ l.deletedIds →
    db'.entries.lookup id = db.entries.lookup id
  newsfeed : ∀ u id, u ∉ feeds ∨ id ∉ l.ids ∧ id ∉ l.deletedIds →
    db'.newsfeed.lookup (u, id) = db.newsfeed.lookup (u, id)

section

variable {db₀ db : Firestore} {tripID : Option TripID} {lower upper : Set Uid} {uid : Uid}
  {me : User} {bucket : Bucket} {edits : List (Label TripID Event)}
  {st₀ st₁ st₂ : State Firestore EditTrip Write Callback}

/-- The entries that were added had no documents. -/
theorem added_new (hnd : ∀ t d, tripID = some t → db₀.trips.lookup t = some d → d.entries.Nodup)
    (hedit : Trace program editing (start db₀ (EditTrip.opened me tripID bucket now)) edits st₀)
    {form : EntryForm} {uuid : EntryID} (h : Event.addAnnotation form uuid ∈ events edits) :
    db₀.entries.lookup uuid = none := by
  have hall : ∀ feeds, Between ∅ Set.univ feeds := fun _ => ⟨by simp, by simp⟩
  have hinv := hedit.invariant (I := fun es x =>
    Phase db₀ tripID me.uid ∅ Set.univ x ∧
      ∀ form uuid, Event.addAnnotation form uuid ∈ es → db₀.entries.lookup uuid = none)
    (fun es x m x' hx ha hs => ⟨hx.1.step hnd (fun _ _ => hall _) ha hs, fun form uuid hmem => ?_⟩)
    [] ⟨Phase.opened bucket now (hall _), fun _ _ hmem => by cases hmem⟩
  · rw [List.nil_append] at hinv
    exact hinv.2 form uuid h
  · rcases List.mem_append.mp hmem with hmem | hmem
    · exact hx.2 form uuid hmem
    · cases m with
      | deliver k ok a => cases hmem
      | event e =>
        obtain rfl : Event.addAnnotation form uuid = e := by
          simpa [Async.Move.event?] using hmem
        rw [← hx.1.store]
        exact ha.2.2.1

/-- **What a save comes to**, from the opening of the screen with an up-to-date copy of the
user. -/
theorem resaved_of_trace (hme : db₀.fetchUser me.uid = some me)
    (hnd : ∀ t d, tripID = some t → db₀.trips.lookup t = some d → d.entries.Nodup)
    (howner : ∀ t d, tripID = some t → db₀.trips.lookup t = some d → d.userID = me.uid)
    (hedit : Trace program editing (start db₀ (EditTrip.opened me tripID bucket now)) edits st₀)
    (hready : st₀.loc.Editable) (hfields : st₀.loc.emptyField = false)
    (hpress : program.step (.event .saveButtonPressed) st₀ = some st₁)
    (hrun : Reaches program settling st₁ st₂) (hq : Quiescent st₂) :
    st₀.loc.user = me.uid ∧
      ∃ t, Resaved st₀.loc (me.followers ++ [me.uid]) t db₀ st₂.store := by
  have hdoc := (Firestore.fetchUser_eq_some hme).2
  have hfeeds : Between {u | u ∈ me.followers ++ [me.uid]} {u | u ∈ me.followers ++ [me.uid]}
      (me.followers ++ [me.uid]) := ⟨fun _ h => h, fun _ h => h⟩
  obtain ⟨hp, hh⟩ := phase_of_trace hnd hfeeds
    (fun d hd => by rw [hdoc] at hd; cases hd; exact hfeeds) hedit
  obtain ⟨t, htarget, hs⟩ := hp.saved hready ⟨_, hdoc, hfeeds⟩ hfields hpress hrun hq
  have huser : st₀.loc.user = me.uid := hp.setting.user
  have htrip : st₀.loc.tripID = tripID := hp.setting.tripID
  have hed := hp.of_editable hready
  -- what is on the screen was listed by the trip or was added
  have hsource : ∀ r < st₀.loc.next, db₀.entries.lookup (st₀.loc.id r) = none ∨
      ∃ d, db₀.trips.lookup t = some d ∧ st₀.loc.id r ∈ d.entries := by
    intro r hr
    rcases hh.origin r hr with ⟨t', d, ht', hd, hid⟩ | ⟨form, hform⟩
    · rcases htarget with ht | ⟨hnone, -⟩
      · cases ht.symm.trans ht'
        exact Or.inr ⟨d, hd, hid⟩
      · cases hnone.symm.trans ht'
    · exact Or.inl (added_new hnd hedit hform)
  have hr := hp.ready hready ⟨_, hdoc, hfeeds⟩ hfields
  have hst := hs.stored
  obtain ⟨d, hd, hids⟩ := hs.listed
  obtain ⟨d', hd', howner'⟩ := hst.owner t rfl
  obtain rfl : d = d' := Option.some.inj (hd.symm.trans hd')
  refine ⟨huser, t, fun u => ?_, ?_, ⟨d, hd, ?_, hids⟩, fun t' ht' => ?_, hr.nodup,
    fun id hid => ?_, fun i id hi => ?_, fun id hid => ?_, fun id hid hid' => ?_, fun u id h => ?_⟩
  · by_cases hu : u = st₀.loc.user
    · rw [hu, hst.user]
      rcases hs.target with ht | ⟨ht, -⟩ <;> simp [ht]
    · simp [hst.users u hu, hu]
  · rcases hs.target with ht | ⟨ht, hnone⟩
    · rw [if_pos ht.symm] at howner'
      obtain ⟨d₀, hd₀, -⟩ := howner'
      have ht' : tripID = some t := htrip.symm.trans ht
      refine Or.inr ⟨ht, d₀, hd₀, (howner t d₀ ht' hd₀).trans huser.symm, fun id hid => ?_⟩
      obtain ⟨r, hlt, rfl⟩ := hed.orig t d₀ ht' hd₀ id hid
      rcases hed.covered r hlt with hmem | hmem | hnew
      · exact Or.inl (List.mem_map_of_mem hmem)
      · exact Or.inr (List.mem_map_of_mem hmem)
      · exact absurd hid (hnew.2 t d₀ ht' hd₀)
    · exact Or.inl ⟨ht, hnone⟩
  · split at howner'
    · rename_i ht
      obtain ⟨d₀, hd₀, hu⟩ := howner'
      rw [hu, huser]
      exact howner t d₀ (htrip.symm.trans ht.symm) hd₀
    · exact howner'.1
  · exact hst.trips t' fun h => ht' (Option.some.inj h).symm
  · rcases hid with hid | hid <;> obtain ⟨r, hmem, rfl⟩ := List.mem_map.mp hid
    · exact hsource r (hed.bound r (Or.inl hmem))
    · exact hsource r (hed.bound r (Or.inr hmem))
  · have hmem := List.mem_of_getElem? hi
    obtain ⟨e, he, ho⟩ := hs.numbered i id hi
    obtain ⟨e₁, he₁, ht⟩ := hs.linked id hmem
    obtain ⟨r, hmem', rfl⟩ := List.mem_map.mp hmem
    obtain ⟨e₂, he₂, hof, hnow, hfeed⟩ := hs.published r hmem'
    obtain rfl : e₁ = e := Option.some.inj (he₁.symm.trans he)
    obtain rfl : e₂ = e₁ := Option.some.inj (he₂.symm.trans he₁)
    exact ⟨e₂, he₂, ho, ht, hof.entryID, hof.userID, hnow, hfeed⟩
  · obtain ⟨r, hmem, rfl⟩ := List.mem_map.mp hid
    obtain ⟨hgone, hfeed⟩ := hst.deleted r hmem List.not_mem_nil
    exact ⟨hr.deleted r hmem, hgone, hfeed⟩
  · exact hst.entries id hid fun r hmem he => hid' (he ▸ List.mem_map_of_mem hmem)
  · exact hst.newsfeed u id (h.imp_right fun ⟨h₁, h₂⟩ =>
      ⟨h₁, fun r hmem he => h₂ (he ▸ List.mem_map_of_mem hmem)⟩)

/-- The old entries are older than what is written after the press, and all times stay
different. -/
theorem stamped_of_trace
    (hnd : ∀ t d, tripID = some t → db₀.trips.lookup t = some d → d.entries.Nodup)
    (hedit : Trace program editing (start db₀ (EditTrip.opened me tripID bucket now)) edits st₀)
    (hpress : program.step (.event .saveButtonPressed) st₀ = some st₁)
    (hrun : Reaches program settling st₁ st₂) (hq : Quiescent st₂) (h : db₀.Stamped now) :
    db₀.Stamped st₀.loc.now ∧ st₂.store.Stamped st₂.loc.now := by
  have hall : ∀ feeds, Between ∅ Set.univ feeds := fun _ => ⟨by simp, by simp⟩
  have hstore := (phase_of_trace hnd (hall _) (fun _ _ => hall _) hedit).1.store
  have hstart : (program.direct (start db₀ (EditTrip.opened me tripID bucket now))).store.Stamped
      now := h
  have h₀ := stamped_of_reaches hstart ⟨_, hedit⟩
  have hp : Permits program (fun _ _ _ => True) st₀ (.event .saveButtonPressed) := trivial
  have h₂ := stamped_of_reaches (stamped_of_step h₀ hp hpress) hrun
  rw [hstore] at h₀
  rw [hq.direct] at h₂
  exact ⟨h₀, h₂⟩

end

end EditTrip

end Wanderlust
