import Wanderlust.Foundations.Handlers
import Wanderlust.Models.User
import Wanderlust.Trips.TripInfo
import Mathlib.Algebra.BigOperators.Group.Multiset.Basic

/-!
# Pins and lines

Every appearance of the screen of a trip clears the map and loads the trip again, and what an
earlier load has asked for arrives on the same map. A trip puts as many pins on the map as it has
entries and an entry puts one (`pins`), so the number of the pins that are there and on their way
is kept from one appearance to the next (`MapStep.total`). The map is as it should be exactly if
the last appearance finds no earlier load under way (`one_pin_iff`).
-/

namespace Wanderlust

open Async Runs

namespace TripInfo

/-- The fetches of trips and entries are answered with what is stored, and the trip is not
deleted. -/
def Succeeds (db : Firestore) : Async.Move Callback Unit Event → Prop
  | .event e => e ≠ .deleteConfirmed
  | .deliver .tripFetched ok _ => ok = true
  | .deliver (.entryFetched _ _ id) ok _ => ok = true ∧ db.entries.lookup id ≠ none
  | .deliver _ _ _ => True

instance (db : Firestore) : DecidablePred (Succeeds db)
  | .event .viewWillAppear => isTrue (by simp [Succeeds])
  | .event .favoriteButtonPressed => isTrue (by simp [Succeeds])
  | .event .barButtonPressed => isTrue (by simp [Succeeds])
  | .event .deletePressed => isTrue (by simp [Succeeds])
  | .event .cancelPressed => isTrue (by simp [Succeeds])
  | .event .deleteConfirmed => isFalse (by simp [Succeeds])
  | .event .currentUserFetched => isTrue (by simp [Succeeds])
  | .deliver .tripFetched ok _ => inferInstanceAs (Decidable (ok = true))
  | .deliver (.tripUserFetched _) _ _ => inferInstanceAs (Decidable True)
  | .deliver (.entryFetched _ _ id) ok _ =>
    inferInstanceAs (Decidable (ok = true ∧ db.entries.lookup id ≠ none))
  | .deliver (.tripToDeleteFetched _) _ _ => inferInstanceAs (Decidable True)
  | .deliver (.entryToDeleteFetched _) _ _ => inferInstanceAs (Decidable True)
  | .deliver (.objectDeleted _) _ _ => inferInstanceAs (Decidable True)
  | .deliver .tripsUpdated _ _ => inferInstanceAs (Decidable True)

/-- A step of the screen while its fetches succeed, and no write is rejected. -/
def MapTurn (db : Firestore) (st : State Firestore TripInfo Write Callback)
    (lbl : Label Unit Event) (st' : State Firestore TripInfo Write Callback) : Prop :=
  program.turn st lbl = some st' ∧ ∀ m ∈ st.move lbl, Succeeds db m

/-- A callback that puts pins on the map, or leads to one that does. -/
def Callback.Loads : Callback → Prop
  | .tripFetched => True
  | .entryFetched _ _ _ => True
  | _ => False

instance : DecidablePred Callback.Loads
  | .tripFetched => inferInstanceAs (Decidable True)
  | .tripUserFetched _ => inferInstanceAs (Decidable False)
  | .entryFetched _ _ _ => inferInstanceAs (Decidable True)
  | .tripToDeleteFetched _ => inferInstanceAs (Decidable False)
  | .entryToDeleteFetched _ => inferInstanceAs (Decidable False)
  | .objectDeleted _ => inferInstanceAs (Decidable False)
  | .tripsUpdated => inferInstanceAs (Decidable False)

/-- A callback of a screen that only shows the trip. -/
def Callback.Shows : Callback → Prop
  | .tripFetched => True
  | .tripUserFetched _ => True
  | .entryFetched _ _ _ => True
  | _ => False

/-- What is under way to the map. -/
def loads (x : Direct Firestore TripInfo Callback) : Multiset Callback :=
  x.bag.filter Callback.Loads

/-- Nothing is under way to the map. -/
def Settled (st : State Firestore TripInfo Write Callback) : Prop := loads (program.direct st) = 0

instance : DecidablePred Settled :=
  fun st => inferInstanceAs (Decidable (loads (program.direct st) = 0))

/-- One pin for each entry, and one line through them in order. -/
structure OnePin (db : Firestore) (ids : List EntryID) (l : TripInfo) : Prop where
  annotations : l.annotations.Perm (ids.map (annotationOf db))
  overlays : ∃ stops : List CustomAnnotation, stops.Perm (ids.map (annotationOf db)) ∧
    (stops.Pairwise fun a b => a.order ≤ b.order) ∧
    l.overlays = [stops.map CustomAnnotation.coordinate]

/-- What a step does to the map of a trip with the entries `ids`. -/
inductive MapStep (db : Firestore) (ids : List EntryID)
    (x x' : Direct Firestore TripInfo Callback) : Async.Move Callback Unit Event → Prop
  | appears (hpins : x'.loc.annotations = []) (hlines : x'.loc.overlays = [])
      (hloads : loads x' = .tripFetched ::ₘ loads x) : MapStep db ids x x' (.event .viewWillAppear)
  | other {m : Async.Move Callback Unit Event} (hm : m ≠ .event .viewWillAppear)
      (hpins : x'.loc.annotations = x.loc.annotations) (hlines : x'.loc.overlays = x.loc.overlays)
      (htemps : x'.loc.temps = x.loc.temps) (hloads : loads x' = loads x) : MapStep db ids x x' m
  | trip {ok : Bool} {a : Unit} {rest : Multiset Callback}
      (hpins : x'.loc.annotations = x.loc.annotations) (hlines : x'.loc.overlays = x.loc.overlays)
      (htemps : x'.loc.temps = Function.update x.loc.temps x.loc.nextTemp [])
      (hold : loads x = .tripFetched ::ₘ rest)
      (hloads : loads x' = rest + ↑(ids.map (Callback.entryFetched x.loc.nextTemp ids.length))) :
      MapStep db ids x x' (.deliver .tripFetched ok a)
  | entry {ok : Bool} {a : Unit} {temp count : ℕ} {id : EntryID} {rest : Multiset Callback}
      (hloc : x'.loc = TripInfo.entryFetched temp count (annotationOf db id) x.loc)
      (hold : loads x = .entryFetched temp count id ::ₘ rest) (hloads : loads x' = rest) :
      MapStep db ids x x' (.deliver (.entryFetched temp count id) ok a)

/-- What every step keeps: the trip and the entries, and that no line is empty. -/
structure Mapping (db : Firestore) (t : TripID) (x : Direct Firestore TripInfo Callback) :
    Prop where
  tripId : x.loc.tripId = t
  trips : x.store.trips = db.trips
  entries : x.store.entries = db.entries
  bag : ∀ k ∈ x.bag, k.Shows
  overlays : ∀ line ∈ x.loc.overlays, line ≠ []

section

variable {db : Firestore} {t : TripID} {d : TripDoc} {ids : List EntryID}
  {x x' : Direct Firestore TripInfo Callback} {m : Async.Move Callback Unit Event}
  {st st' : State Firestore TripInfo Write Callback}

theorem loads_after (r : TripInfo × List Cmd) (x : Direct Firestore TripInfo Callback) :
    loads (program.after r x) = loads x + (callbacks r.2).filter Callback.Loads :=
  Multiset.filter_add _ _ _

theorem loads_of_bag {k : Callback} {rest : Multiset Callback} (hb : x.bag = k ::ₘ rest)
    (hk : k.Loads) : loads x = k ::ₘ loads { x with bag := rest } := by
  rw [loads, hb, Multiset.filter_cons_of_pos _ hk]
  rfl

/-- A step that has nothing to do with the map. -/
theorem Mapping.other (ids : List EntryID) (h : Mapping db t x) {bag : Multiset Callback}
    {r : TripInfo × List Cmd}
    (hm : m ≠ .event .viewWillAppear) (hbag : ∀ k ∈ bag, k ∈ x.bag)
    (hloads : bag.filter Callback.Loads = loads x)
    (hloc : r.1.tripId = x.loc.tripId ∧ r.1.annotations = x.loc.annotations ∧
      r.1.overlays = x.loc.overlays ∧ r.1.temps = x.loc.temps)
    (hnew : callbacks r.2 = 0)
    (hstore : (effect Write.apply r.2 x.store).trips = x.store.trips ∧
      (effect Write.apply r.2 x.store).entries = x.store.entries) :
    Mapping db t (program.after r { x with bag := bag }) ∧
      MapStep db ids x (program.after r { x with bag := bag }) m := by
  obtain ⟨htripId, hpins, hlines, htemps⟩ := hloc
  refine ⟨⟨htripId.trans h.tripId, hstore.1.trans h.trips, hstore.2.trans h.entries, fun k hk => ?_,
    ?_⟩, .other hm hpins hlines htemps ?_⟩
  · have hk' : k ∈ bag := by simpa [Program.after, hnew] using hk
    exact h.bag k (hbag k hk')
  · show ∀ line ∈ r.1.overlays, line ≠ []
    rw [hlines]
    exact h.overlays
  · rw [loads_after, hnew, Multiset.filter_zero, add_zero]
    exact hloads

/-- A line that is added to the map is not empty. -/
theorem overlays_setCustomAnnotations {as : List CustomAnnotation} {l : TripInfo}
    (h : ∀ line ∈ l.overlays, line ≠ []) :
    ∀ line ∈ (setCustomAnnotations as l).overlays, line ≠ [] := by
  simp only [setCustomAnnotations]
  split
  · exact h
  · rename_i hne
    intro line hline
    rcases List.mem_append.mp hline with hline | hline
    · exact h line hline
    · rw [List.mem_singleton.mp hline]
      simpa using hne

/-- **What a step does to the map.** -/
theorem Mapping.step (h : Mapping db t x) (hd : db.trips.lookup t = some d)
    (ha : Succeeds db m) (hs : DirectStep program x m x') :
    Mapping db t x' ∧ MapStep db d.entries x x' m := by
  cases hs with
  | @event e r he =>
    have hother := fun hm hloc hnew hstore => h.other (m := .event e) (r := r) d.entries hm
      (fun k hk => hk) rfl hloc hnew hstore
    cases e with
    | viewWillAppear =>
      cases he
      have hloads : loads (program.after (loadTripData x.loc) x) = .tripFetched ::ₘ loads x := by
        rw [loads_after, add_comm]
        rfl
      refine ⟨⟨h.tripId, h.trips, h.entries, fun k hk => ?_, fun line hline => by cases hline⟩,
        .appears rfl rfl hloads⟩
      rcases Multiset.mem_add.mp hk with hk | hk
      · exact h.bag k hk
      · obtain rfl : k = .tripFetched := by simpa [loadTripData] using hk
        trivial
    | favoriteButtonPressed =>
      simp only [program, event, favoriteButtonPressed] at he
      split at he
      · cases he
        exact hother (by simp) ⟨rfl, rfl, rfl, rfl⟩ rfl ⟨rfl, rfl⟩
      · split at he <;> cases he
        exact hother (by simp) ⟨rfl, rfl, rfl, rfl⟩ rfl ⟨rfl, rfl⟩
    | barButtonPressed =>
      simp only [program, event] at he
      split at he <;> cases he
      exact hother (by simp) ⟨rfl, rfl, rfl, rfl⟩ rfl ⟨rfl, rfl⟩
    | deletePressed =>
      simp only [program, event] at he
      split at he <;> cases he
      exact hother (by simp) ⟨rfl, rfl, rfl, rfl⟩ rfl ⟨rfl, rfl⟩
    | cancelPressed =>
      cases he
      exact hother (by simp) ⟨rfl, rfl, rfl, rfl⟩ rfl ⟨rfl, rfl⟩
    | deleteConfirmed => exact absurd rfl ha
    | currentUserFetched =>
      simp only [program, event] at he
      split at he <;> cases he <;> exact hother (by simp) ⟨rfl, rfl, rfl, rfl⟩ rfl ⟨rfl, rfl⟩
  | @deliver k ok a rest r hb hr =>
    have hrest : ∀ k' ∈ rest, k'.Shows :=
      fun k' hk' => h.bag k' (hb ▸ Multiset.mem_cons_of_mem hk')
    have hk := h.bag k (hb ▸ Multiset.mem_cons_self k rest)
    cases k with
    | tripFetched =>
      have hok : ok = true := ha
      have hlookup : db.trips.lookup x.loc.tripId = some d := by
        rw [h.tripId]
        exact hd
      simp only [program, react, hok, if_true, h.trips, hlookup] at hr
      obtain ⟨favorite, rfl⟩ := tripFetched_eq_some hr
      refine ⟨⟨h.tripId, ?_, ?_, fun k hk => ?_, h.overlays⟩,
        .trip rfl rfl rfl (loads_of_bag hb trivial) ?_⟩
      · simpa [Program.after] using h.trips
      · simpa [Program.after] using h.entries
      · rcases Multiset.mem_add.mp hk with hk | hk
        · exact hrest k hk
        · rw [callbacks_request, callbacks_map_request, Multiset.mem_cons] at hk
          rcases hk with rfl | hk
          · trivial
          · obtain ⟨id, -, rfl⟩ := List.mem_map.mp (Multiset.mem_coe.mp hk)
            trivial
      · rw [loads_after, callbacks_request, callbacks_map_request,
          Multiset.filter_cons_of_neg _ (by exact id), Multiset.filter_eq_self.mpr]
        rintro k hk
        obtain ⟨id, -, rfl⟩ := List.mem_map.mp (Multiset.mem_coe.mp hk)
        trivial
    | tripUserFetched uid =>
      cases hr
      have hloads : rest.filter Callback.Loads = loads x := by
        rw [loads, hb, Multiset.filter_cons_of_neg _ (by exact id)]
      exact h.other _ (by simp) (fun k hk => hb ▸ Multiset.mem_cons_of_mem hk) hloads
        ⟨rfl, rfl, rfl, rfl⟩ rfl ⟨rfl, rfl⟩
    | entryFetched temp count id =>
      obtain ⟨hok, hentry⟩ : ok = true ∧ db.entries.lookup id ≠ none := ha
      obtain ⟨e, he⟩ := Option.ne_none_iff_exists'.mp hentry
      simp only [program, react, hok, if_true, h.entries, he, Option.some.injEq] at hr
      subst hr
      rw [← annotationOf_eq he]
      refine ⟨⟨?_, h.trips, h.entries, fun k hk => ?_, ?_⟩,
        .entry rfl (loads_of_bag hb trivial) ?_⟩
      · simp only [Program.after, TripInfo.entryFetched]
        split <;> exact h.tripId
      · exact hrest k (by simpa [Program.after] using hk)
      · simp only [Program.after, TripInfo.entryFetched]
        split
        · exact overlays_setCustomAnnotations h.overlays
        · exact h.overlays
      · rw [loads_after]
        simp
    | _ => exact hk.elim

/-! ## How many pins there are -/

/-- The pins that a callback will have put on the map of a trip with `n` entries. -/
def pins (n : ℕ) : Callback → ℕ
  | .tripFetched => n
  | .entryFetched _ _ _ => 1
  | _ => 0

/-- The pins that are on the map and on their way. -/
def total (n : ℕ) (x : Direct Firestore TripInfo Callback) : ℕ :=
  x.loc.annotations.length + ((loads x).map (pins n)).sum

theorem annotations_entryFetched (temp count : ℕ) (a : CustomAnnotation) (l : TripInfo) :
    (entryFetched temp count a l).annotations = l.annotations ++ [a] := by
  simp only [entryFetched]
  split <;> rfl

/-- **Between two appearances** no pin is lost or added. -/
theorem MapStep.total (h : MapStep db ids x x' m) (hm : m ≠ .event .viewWillAppear) :
    total ids.length x' = total ids.length x := by
  cases h with
  | appears hpins hlines hloads => exact absurd rfl hm
  | other hm hpins hlines htemps hloads => rw [TripInfo.total, TripInfo.total, hpins, hloads]
  | trip hpins hlines htemps hold hloads =>
    have hsum : (ids.map (pins ids.length ∘
        Callback.entryFetched x.loc.nextTemp ids.length)).sum = ids.length := by
      simp [Function.comp_def, pins]
    rw [TripInfo.total, TripInfo.total, hpins, hold, hloads, Multiset.map_add, Multiset.map_cons,
      Multiset.sum_add, Multiset.sum_cons, Multiset.map_coe, Multiset.sum_coe, List.map_map, hsum]
    show _ = _ + (ids.length + _)
    omega
  | entry hloc hold hloads =>
    rw [TripInfo.total, TripInfo.total, hloc, annotations_entryFetched, hold, hloads,
      Multiset.map_cons, Multiset.sum_cons, List.length_append, List.length_singleton]
    show _ = _ + (1 + _)
    omega

/-- A map without duplicates had nothing of an earlier load under way, and the trip has an
entry. -/
theorem loads_eq_zero_of_total {n : ℕ} {old : Multiset Callback} (hn : n ≠ 0)
    (hold : ∀ k ∈ old, k.Loads) (h : n + (old.map (pins n)).sum = n) : old = 0 := by
  refine Multiset.eq_zero_of_forall_notMem fun k hk => ?_
  obtain ⟨rest, rfl⟩ := Multiset.exists_cons_of_mem hk
  have hpos : 0 < pins n k := by
    have hload := hold k hk
    cases k with
    | tripFetched => exact Nat.pos_of_ne_zero hn
    | entryFetched temp count id => exact Nat.one_pos
    | _ => exact hload.elim
  rw [Multiset.map_cons, Multiset.sum_cons] at h
  omega

/-! ## One load at a time -/

/-- A load of which nothing else is under way: the trip is still to come, or the entries of
`pending` are. -/
inductive Stage (db : Firestore) (ids : List EntryID) (x : Direct Firestore TripInfo Callback) :
    Prop
  | waiting (hpins : x.loc.annotations = []) (hlines : x.loc.overlays = [])
      (hloads : loads x = {.tripFetched})
  | arriving {temp : ℕ} {pending : Multiset EntryID} (hpending : pending ≠ 0)
      (hloads : loads x = pending.map (Callback.entryFetched temp ids.length))
      (hpins : ↑x.loc.annotations + pending.map (annotationOf db) =
        (↑(ids.map (annotationOf db)) : Multiset CustomAnnotation))
      (htemp : x.loc.temps temp = x.loc.annotations) (hlines : x.loc.overlays = [])
  | shown (hloads : loads x = 0) (hmap : OnePin db ids x.loc)

/-- The last entry arrives. -/
theorem onePin_entryFetched {temp : ℕ} {a : CustomAnnotation} {l : TripInfo}
    (hpins : (l.annotations ++ [a]).Perm (ids.map (annotationOf db)))
    (htemp : l.temps temp = l.annotations) (hlines : l.overlays = []) :
    OnePin db ids (entryFetched temp ids.length a l) := by
  have hlength : (l.annotations ++ [a]).length = ids.length := by
    rw [hpins.length_eq, List.length_map]
  refine ⟨by rwa [annotations_entryFetched],
    (l.annotations ++ [a]).insertionSort fun a b => a.order ≤ b.order,
    (List.perm_insertionSort _ _).trans hpins, ?_, ?_⟩
  · have : Std.Total fun a b : CustomAnnotation => a.order ≤ b.order :=
      ⟨fun a b => le_total a.order b.order⟩
    have : IsTrans CustomAnnotation fun a b => a.order ≤ b.order := ⟨fun _ _ _ h h' => h.trans h'⟩
    exact List.pairwise_insertionSort _ _
  · have hne : (l.annotations ++ [a]).insertionSort (fun a b => a.order ≤ b.order) ≠ [] := by
      intro hnil
      have := congrArg List.length hnil
      simp at this
    simp only [entryFetched, htemp, if_pos hlength, setCustomAnnotations, if_neg hne, hlines,
      List.nil_append]

/-- **One step of one load.** -/
theorem Stage.step (hne : ids ≠ []) (h : Stage db ids x) (hs : MapStep db ids x x' m)
    (hm : m ≠ .event .viewWillAppear) : Stage db ids x' := by
  cases hs with
  | appears hpins hlines hloads => exact absurd rfl hm
  | other hm hpins hlines htemps hloads =>
    cases h with
    | waiting hpins' hlines' hloads' =>
      exact .waiting (hpins.trans hpins') (hlines.trans hlines') (hloads.trans hloads')
    | arriving hpending hloads' hpins' htemp hlines' =>
      refine .arriving hpending (hloads.trans hloads') ?_ ?_ (hlines.trans hlines')
      · rw [hpins]
        exact hpins'
      · rw [htemps, hpins]
        exact htemp
    | shown hloads' hmap =>
      refine .shown (hloads.trans hloads') ⟨?_, ?_⟩
      · rw [hpins]
        exact hmap.annotations
      · rw [hlines]
        exact hmap.overlays
  | @trip ok a rest hpins hlines htemps hold hloads =>
    cases h with
    | waiting hpins' hlines' hloads' =>
      obtain rfl : rest = 0 := by
        have hsame := hold.symm.trans hloads'
        rwa [← Multiset.cons_zero, Multiset.cons_inj_right] at hsame
      refine @Stage.arriving _ _ _ x.loc.nextTemp ↑ids (by simpa using hne) ?_ ?_ ?_
        (hlines.trans hlines')
      · rw [hloads, zero_add, Multiset.map_coe]
      · rw [hpins, hpins', Multiset.map_coe]
        exact zero_add _
      · rw [htemps, Function.update_self, hpins, hpins']
    | arriving hpending hloads' hpins' htemp hlines' =>
      obtain ⟨id, -, hid⟩ := Multiset.mem_map.mp (hloads' ▸ hold ▸ Multiset.mem_cons_self _ _)
      cases hid
    | shown hloads' hmap => exact absurd (hold.symm.trans hloads') (Multiset.cons_ne_zero)
  | @entry ok a temp count id rest hloc hold hloads =>
    cases h with
    | waiting hpins' hlines' hloads' =>
      have : Callback.entryFetched temp count id ∈ ({.tripFetched} : Multiset Callback) :=
        hloads' ▸ hold ▸ Multiset.mem_cons_self _ _
      cases Multiset.mem_singleton.mp this
    | @arriving temp' pending hpending hloads' hpins' htemp hlines' =>
      obtain ⟨id', hid', heq, hrest⟩ := (Multiset.map_eq_cons _ _ _ _).mpr (hloads'.symm.trans hold)
      cases heq
      have hpins : ↑(x.loc.annotations ++ [annotationOf db id]) +
          (pending.erase id).map (annotationOf db) =
            (↑(ids.map (annotationOf db)) : Multiset CustomAnnotation) := by
        rw [← hpins', ← Multiset.coe_add, Multiset.coe_singleton, add_assoc,
          Multiset.singleton_add, ← Multiset.map_cons, Multiset.cons_erase hid']
      by_cases hlast : pending.erase id = 0
      · rw [hlast, Multiset.map_zero, add_zero, Multiset.coe_eq_coe] at hpins
        refine .shown (by rw [hloads, ← hrest, hlast]; rfl) ?_
        rw [hloc]
        exact onePin_entryFetched hpins htemp hlines'
      · have hmore : (x.loc.annotations ++ [annotationOf db id]).length ≠ ids.length := by
          have hcard := congrArg Multiset.card hpins
          have hpos := Multiset.card_pos.mpr hlast
          rw [Multiset.card_add, Multiset.card_map, Multiset.coe_card, Multiset.coe_card,
            List.length_map] at hcard
          omega
        have hnext : x'.loc = { x.loc with
            annotations := x.loc.annotations ++ [annotationOf db id]
            temps := Function.update x.loc.temps temp
              (x.loc.annotations ++ [annotationOf db id]) } := by
          rw [hloc]
          simp only [TripInfo.entryFetched, htemp, if_neg hmore]
        refine @Stage.arriving _ _ _ temp _ hlast (by rw [hloads, ← hrest]) ?_ ?_ ?_
        · rw [hnext]
          exact hpins
        · rw [hnext]
          exact Function.update_self _ _ _
        · rw [hnext]
          exact hlines'
    | shown hloads' hmap => exact absurd (hold.symm.trans hloads') Multiset.cons_ne_zero

/-! ## The runs of the screen -/

/-- A step of a run, as far as the map is concerned. -/
theorem Mapping.turn {lbl : Label Unit Event} (h : Mapping db t (program.direct st))
    (hd : db.trips.lookup t = some d) (hs : MapTurn db st lbl st') :
    Mapping db t (program.direct st') ∧
      ((st.move lbl = none ∧ program.direct st' = program.direct st) ∨
        ∃ m, st.move lbl = some m ∧
          MapStep db d.entries (program.direct st) (program.direct st') m) := by
  rcases turn_move hs.1 with ⟨hnone, hsame⟩ | ⟨m, hm, hmove⟩
  · exact ⟨hsame ▸ h, Or.inl ⟨hnone, hsame⟩⟩
  · obtain ⟨h', hmap⟩ := h.step hd (hs.2 m hm) hmove
    exact ⟨h', Or.inr ⟨m, hm, hmap⟩⟩

/-- What every step that is no appearance keeps, a run without appearances keeps. -/
theorem keeps_of_run {I : Direct Firestore TripInfo Callback → Prop}
    {tr : List (Label Unit Event × State Firestore TripInfo Write Callback)}
    (hd : db.trips.lookup t = some d)
    (hI : ∀ x x' m, I x → MapStep db d.entries x x' m → m ≠ .event .viewWillAppear → I x')
    (h : Mapping db t (program.direct st)) (hst : I (program.direct st))
    (hrun : IsRun (MapTurn db) st tr) (hlast : ∀ x ∈ tr, x.1 ≠ .event .viewWillAppear) :
    Mapping db t (program.direct (final st tr)) ∧ I (program.direct (final st tr)) := by
  induction tr generalizing st with
  | nil => exact ⟨h, hst⟩
  | cons x tr ih =>
    obtain ⟨h', hmap⟩ := h.turn hd hrun.1
    refine ih h' ?_ hrun.2 fun y hy => hlast y (List.mem_cons_of_mem _ hy)
    rcases hmap with ⟨-, hsame⟩ | ⟨m, hm, hmap⟩
    · rwa [hsame]
    · refine hI _ _ m hst hmap fun hne => hlast x List.mem_cons_self ?_
      exact move_eq_event.mp (hm.trans (congrArg some hne))

end

/-- **One pin per stop**: after any number of appearances, when everything has arrived, the map
shows each entry once, and one line through them in order, exactly if the last appearance found
nothing of an earlier load under way and the trip has an entry. -/
theorem one_pin_iff {db : Firestore} {me : Uid} {currentUser : User} {t : TripID} {bucket : Bucket}
    {d : TripDoc} {tr₁ tr₂ : List (Label Unit Event × State Firestore TripInfo Write Callback)}
    {st₁ : State Firestore TripInfo Write Callback} (hd : db.trips.lookup t = some d)
    (hrun : IsRun (MapTurn db) (start db (opened me currentUser t bucket))
      (tr₁ ++ (.event .viewWillAppear, st₁) :: tr₂))
    (hlast : ∀ x ∈ tr₂, x.1 ≠ .event .viewWillAppear) (hquiet : Quiescent (final st₁ tr₂)) :
    OnePin db d.entries (final st₁ tr₂).loc ↔
      Settled (final (start db (opened me currentUser t bucket)) tr₁) ∧ d.entries ≠ [] := by
  obtain ⟨hrun₁, happear, hrun₂⟩ := isRun_append.mp hrun
  have hstart : Mapping db t
      (program.direct (start db (opened me currentUser t bucket) :
        State Firestore TripInfo Write Callback)) := by
    rw [direct_start]
    exact ⟨rfl, rfl, rfl, fun k hk => by simp at hk, fun line hline => by cases hline⟩
  have hbefore := hrun₁.final (I := fun st => Mapping db t (program.direct st))
    (fun st lbl st' h hs => (h.turn hd hs).1) hstart
  obtain ⟨hmapping, hmap⟩ := hbefore.turn hd happear
  -- the last appearance
  obtain ⟨hpins, hlines, hloads⟩ : (program.direct st₁).loc.annotations = [] ∧
      (program.direct st₁).loc.overlays = [] ∧ loads (program.direct st₁) =
        .tripFetched ::ₘ loads (program.direct (final (start db (opened me currentUser t bucket))
          tr₁)) := by
    rcases hmap with ⟨hnone, -⟩ | ⟨m, hm, hmap⟩
    · cases hnone
    · cases hm
      cases hmap with
      | appears hpins hlines hloads => exact ⟨hpins, hlines, hloads⟩
      | other hm => exact absurd rfl hm
  have hend : loads (program.direct (final st₁ tr₂)) = 0 := by
    rw [hquiet.direct]
    rfl
  constructor
  · intro hone
    obtain ⟨hmapping', htotal⟩ := keeps_of_run
      (I := fun x => total d.entries.length x = total d.entries.length (program.direct st₁)) hd
      (fun x x' m h hs hm => (hs.total hm).trans h) hmapping rfl hrun₂ hlast
    have hne : d.entries ≠ [] := by
      intro hnil
      obtain ⟨stops, hperm, -, hoverlays⟩ := hone.overlays
      rw [hnil, List.map_nil, List.perm_nil] at hperm
      subst hperm
      exact hmapping'.overlays [] (hoverlays ▸ List.mem_singleton_self _) rfl
    refine ⟨loads_eq_zero_of_total (n := d.entries.length) (by simpa using hne)
      (fun k hk => (Multiset.mem_filter.mp hk).2) ?_, hne⟩
    have hlength : (program.direct (final st₁ tr₂)).loc.annotations.length = d.entries.length := by
      have hperm := hone.annotations.length_eq
      rwa [List.length_map] at hperm
    rw [total, total, hlength, hend, hpins, hloads, Multiset.map_cons, Multiset.sum_cons,
      Multiset.map_zero, Multiset.sum_zero, List.length_nil, zero_add, add_zero] at htotal
    exact htotal.symm
  · rintro ⟨hsettled, hne⟩
    have hwaiting : Stage db d.entries (program.direct st₁) := by
      refine .waiting hpins hlines ?_
      rw [hloads, hsettled]
      rfl
    obtain ⟨-, hstage⟩ := keeps_of_run hd (fun x x' m h hs hm => h.step hne hs hm) hmapping
      hwaiting hrun₂ hlast
    cases hstage with
    | waiting hpins hlines hloads =>
      exact absurd (hloads.symm.trans hend) (Multiset.singleton_ne_zero _)
    | arriving hpending hloads =>
      exact absurd (Multiset.map_eq_zero.mp (hloads.symm.trans hend)) hpending
    | shown hloads hmap => exact hmap

/-- A trip with two entries. -/
def mapDoc : TripDoc := ⟨"Trip", some ⟨"cover"⟩, "ann", 0, ["e", "f"]⟩

/-- The store with the trip. -/
def mapStore : Firestore where
  users := AList.insert "ann" (newUser "ann") ∅
  trips := AList.insert "t" mapDoc ∅
  entries := AList.insert "e" ⟨⟨1, 1⟩, none, "", "e", 0, "e", "", 2, "ann", none, some "t", []⟩
    (AList.insert "f" ⟨⟨2, 2⟩, none, "", "f", 1, "f", "", 1, "ann", none, some "t", []⟩ ∅)
  newsfeed := ∅

/-- The screen of the trip. -/
def mapScreen : State Firestore TripInfo Write Callback :=
  start mapStore (opened "ann" sampleAnn "t" ∅)

/-- The trip is shown; its second entry arrives first. -/
def firstLoad : List (Label Unit Event) :=
  [.event .viewWillAppear, .deliver 0 true (), .deliver 2 true (), .deliver 0 true (),
    .deliver 0 true ()]

/-- The trip is shown again, and everything arrives in order. -/
def secondLoad : List (Label Unit Event) :=
  [.deliver 0 true (), .deliver 0 true (), .deliver 0 true (), .deliver 0 true ()]

/-- The screen is left and shown again when everything has arrived. -/
theorem one_pin_iff_sample : ∃ tr₁ st₁ tr₂,
    IsRun (MapTurn mapStore) mapScreen (tr₁ ++ (.event .viewWillAppear, st₁) :: tr₂) ∧
    tr₁.map Prod.fst = firstLoad ∧ OnePin mapStore ["e", "f"] (final st₁ tr₂).loc := by
  obtain ⟨tr₁, htr₁, st₁, hst₁, tr₂, htr₂, hcond, hquiet, hsettled⟩ :
      ∃ tr₁ ∈ play program.turn firstLoad mapScreen,
      ∃ st₁ ∈ program.turn (final mapScreen tr₁) (.event .viewWillAppear),
      ∃ tr₂ ∈ play program.turn secondLoad st₁,
        Meets (fun st lbl => ∀ m ∈ st.move lbl, Succeeds mapStore m) mapScreen
          (tr₁ ++ (.event .viewWillAppear, st₁) :: tr₂) ∧
        Quiescent (final st₁ tr₂) ∧ Settled (final mapScreen tr₁) := by
    decide +kernel
  have hrun : IsRun (MapTurn mapStore) mapScreen (tr₁ ++ (.event .viewWillAppear, st₁) :: tr₂) :=
    (isRun_append.mpr ⟨isRun_of_play htr₁,
      isRun_cons.mpr ⟨hst₁, isRun_of_play htr₂⟩⟩).and_meets hcond
  have hlast : ∀ x ∈ tr₂, x.1 ≠ .event .viewWillAppear := by
    intro x hx heq
    have hmem := List.mem_map_of_mem (f := Prod.fst) hx
    rw [labels_of_play htr₂, heq] at hmem
    simp [secondLoad] at hmem
  exact ⟨tr₁, st₁, tr₂, hrun, labels_of_play htr₁,
    (one_pin_iff (d := mapDoc) (by decide +kernel) hrun hlast hquiet).mpr ⟨hsettled, by decide⟩⟩

/-- The screen is left before the entries arrive. -/
def cutLoad : List (Label Unit Event) := [.event .viewWillAppear, .deliver 0 true ()]

/-- The entries of both loads arrive. -/
def bothLoads : List (Label Unit Event) :=
  [.deliver 3 true (), .deliver 0 true (), .deliver 0 true (), .deliver 0 true (),
    .deliver 0 true (), .deliver 0 true (), .deliver 0 true ()]

/-- **Every stop has two pins.** -/
theorem two_pins : ∃ tr₁ st₁ tr₂,
    IsRun (MapTurn mapStore) mapScreen (tr₁ ++ (.event .viewWillAppear, st₁) :: tr₂) ∧
    Quiescent (final st₁ tr₂) ∧ ¬ OnePin mapStore ["e", "f"] (final st₁ tr₂).loc := by
  obtain ⟨tr₁, htr₁, st₁, hst₁, tr₂, htr₂, hcond, hquiet, hpins⟩ :
      ∃ tr₁ ∈ play program.turn cutLoad mapScreen,
      ∃ st₁ ∈ program.turn (final mapScreen tr₁) (.event .viewWillAppear),
      ∃ tr₂ ∈ play program.turn bothLoads st₁,
        Meets (fun st lbl => ∀ m ∈ st.move lbl, Succeeds mapStore m) mapScreen
          (tr₁ ++ (.event .viewWillAppear, st₁) :: tr₂) ∧
        Quiescent (final st₁ tr₂) ∧ (final st₁ tr₂).loc.annotations.length = 4 := by
    decide +kernel
  have hrun : IsRun (MapTurn mapStore) mapScreen (tr₁ ++ (.event .viewWillAppear, st₁) :: tr₂) :=
    (isRun_append.mpr ⟨isRun_of_play htr₁,
      isRun_cons.mpr ⟨hst₁, isRun_of_play htr₂⟩⟩).and_meets hcond
  refine ⟨tr₁, st₁, tr₂, hrun, hquiet, fun hone => ?_⟩
  have hlength := hone.annotations.length_eq
  rw [hpins] at hlength
  cases hlength

end TripInfo

end Wanderlust
