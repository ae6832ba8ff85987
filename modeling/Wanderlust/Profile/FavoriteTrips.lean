import Wanderlust.Foundations.Handlers
import Wanderlust.Profile.Favorites

/-!
# What the favorites view shows

A call of `handleFavoriteTrips` collects the favorites that exist as their fetches are answered, and
shows what it has collected when as many have been answered as there are favorites in the copy of
the user, which the listener refreshes meanwhile. `Shown` is what that comes to for any order of the
answers and any refreshes, and `favorites_shown_iff` says when the favorites are what is shown.
-/

namespace Wanderlust

open Async Runs

namespace FavoritesPage

/-- A trip calls back if it is gone or has a cover. -/
def callsBack (trips : Collection TripID TripDoc) (t : TripID) : Bool :=
  (trips.lookup t).all fun d => d.coverPhoto.isSome

/-- The answer that arrives in a step: the trip, and how many favorites the copy has then. -/
def answer (l : FavoritesPage) (db : Firestore) :
    Async.Move (Heard (Option User) Callback) Unit (Hearing Event) → List (TripID × ℕ)
  | .deliver (.callback (.tripFetched _ t)) _ _ =>
    if callsBack db.trips t then [(t, (l.currentUser.favorites.getD []).length)] else []
  | _ => []

/-- The answers so far are as many as there are favorites when the `i`-th arrives. -/
def Complete (as : List (TripID × ℕ)) (i : ℕ) : Prop := as[i]?.map Prod.snd = some (i + 1)

/-- The trips of the first answers. -/
def firstTrips (as : List (TripID × ℕ)) (n : ℕ) : List TripID := (as.take n).map Prod.fst

/-- What is shown after the answers `as`: what has been collected when they were last complete, or
the view from before. -/
def Shown (trips : Collection TripID TripDoc) (view : List TripID) (as : List (TripID × ℕ))
    (selected : List TripID) : Prop :=
  (∃ i, Complete as i ∧ (∀ j, i < j → ¬Complete as j) ∧
      selected = (existing trips (firstTrips as (i + 1))).reverse) ∨
    (∀ i, ¬Complete as i) ∧ selected = view

/-- The answers are complete at a time when those of all favorites that exist have arrived, in the
order of the list; or they are never complete, and the view was that of the favorites before. -/
def InOrder (trips : Collection TripID TripDoc) (F view : List TripID)
    (as : List (TripID × ℕ)) : Prop :=
  (∃ i, Complete as i ∧ existing trips (firstTrips as (i + 1)) = existing trips F) ∨
    (∀ i, ¬Complete as i) ∧ view = (existing trips F).reverse

section

variable {trips : Collection TripID TripDoc} {F view selected : List TripID}
  {as : List (TripID × ℕ)} {t : TripID} {c i : ℕ}

theorem Complete.lt (h : Complete as i) : i < as.length := by
  obtain ⟨a, ha, -⟩ := Option.map_eq_some_iff.mp h
  exact (List.getElem?_eq_some_iff.mp ha).1

theorem complete_append : Complete (as ++ [(t, c)]) i ↔
    Complete as i ∨ i = as.length ∧ c = as.length + 1 := by
  unfold Complete
  rcases Nat.lt_trichotomy i as.length with hlt | rfl | hgt
  · rw [List.getElem?_append_left hlt]
    simp only [hlt.ne, false_and, or_false]
  · simp
  · have hold : as[i]? = none := List.getElem?_eq_none_iff.mpr hgt.le
    have hnew : (as ++ [(t, c)])[i]? = none := by
      rw [List.getElem?_eq_none_iff, List.length_append, List.length_singleton]
      omega
    simp [hold, hnew, hgt.ne']

theorem firstTrips_append (h : i ≤ as.length) :
    firstTrips (as ++ [(t, c)]) i = firstTrips as i := by
  unfold firstTrips
  rw [List.take_append_of_le_length h]

theorem firstTrips_all (h : as.length ≤ i) : firstTrips as i = as.map Prod.fst := by
  unfold firstTrips
  rw [List.take_of_length_le h]

/-- An answer that makes the answers complete. -/
theorem shown_of_complete (view : List TripID) (hc : c = as.length + 1) :
    Shown trips view (as ++ [(t, c)])
      (existing trips ((as ++ [(t, c)]).map Prod.fst)).reverse := by
  refine Or.inl ⟨as.length, complete_append.mpr (Or.inr ⟨rfl, hc⟩), fun j hj hcomplete => ?_, ?_⟩
  · have hlt := hcomplete.lt
    rw [List.length_append, List.length_singleton] at hlt
    omega
  · rw [firstTrips_all]
    simp

/-- An answer after which the answers are not complete. -/
theorem Shown.incomplete (h : Shown trips view as selected) (hc : c ≠ as.length + 1) :
    Shown trips view (as ++ [(t, c)]) selected := by
  have hsame : ∀ j, Complete (as ++ [(t, c)]) j ↔ Complete as j := fun j => by
    rw [complete_append]
    exact or_iff_left fun hj => hc hj.2
  rcases h with ⟨i, hi, hlast, rfl⟩ | ⟨hnone, rfl⟩
  · refine Or.inl ⟨i, (hsame i).mpr hi, fun j hj hcomplete => ?_, ?_⟩
    · exact hlast j hj ((hsame j).mp hcomplete)
    · rw [firstTrips_append hi.lt]
  · exact Or.inr ⟨fun j hcomplete => hnone j ((hsame j).mp hcomplete), rfl⟩

/-- Once all favorites that exist have been collected, nothing more is. -/
theorem existing_firstTrips (hle : (existing trips (as.map Prod.fst)).length ≤
      (existing trips F).length) {j : ℕ} (hij : i ≤ j)
    (hi : existing trips (firstTrips as i) = existing trips F) :
    existing trips (firstTrips as j) = existing trips F := by
  have hfirst : (existing trips (firstTrips as i)) <+: existing trips (firstTrips as j) :=
    ((List.take_prefix_take_left hij).map Prod.fst).filter _
  have hall : (existing trips (firstTrips as j)) <+: existing trips (as.map Prod.fst) :=
    ((List.take_prefix j as).map Prod.fst).filter _
  rw [hi] at hfirst
  exact (hfirst.eq_of_length_le (hall.length_le.trans hle)).symm

/-- **What is shown is right** exactly if the answers are in order. -/
theorem Shown.right_iff (h : Shown trips view as selected)
    (hle : (existing trips (as.map Prod.fst)).length ≤ (existing trips F).length) :
    selected = (existing trips F).reverse ↔ InOrder trips F view as := by
  rcases h with ⟨i, hi, hlast, rfl⟩ | ⟨hnone, rfl⟩
  · rw [List.reverse_inj]
    constructor
    · intro heq
      exact Or.inl ⟨i, hi, heq⟩
    · rintro (⟨j, hj, heq⟩ | ⟨hnone, -⟩)
      · have hji : j + 1 ≤ i + 1 := by
          by_contra hlt
          exact hlast j (by omega) hj
        exact existing_firstTrips hle hji heq
      · exact absurd hi (hnone i)
  · constructor
    · intro heq
      exact Or.inr ⟨hnone, heq⟩
    · rintro (⟨j, hj, -⟩ | ⟨-, heq⟩)
      · exact absurd hj (hnone j)
      · exact heq

end

/-! ## A call of `handleFavoriteTrips` -/

/-- The trip that a callback is for. -/
def fetches : Heard (Option User) Callback → Option TripID
  | .callback (.tripFetched _ t) => some t
  | .snapshot _ => none

/-- The invariant of the call `call` for the favorites `F`, after the answers `as`. -/
structure Collecting (trips : Collection TripID TripDoc) (call : ℕ) (F view : List TripID)
    (as : List (TripID × ℕ))
    (x : Direct Firestore FavoritesPage (Heard (Option User) Callback)) : Prop where
  stored : x.store.trips = trips
  ct : x.loc.ct call = as.length
  holdSelected : x.loc.holdSelected call = existing trips (as.map Prod.fst)
  shown : Shown trips view as x.loc.selectedTripData
  calls : ∀ n t, .callback (.tripFetched n t) ∈ x.bag → n = call
  fetched : (↑(as.map Prod.fst) : Multiset TripID) + x.bag.filterMap fetches ≤ ↑F

section

variable {trips : Collection TripID TripDoc} {F view : List TripID} {as : List (TripID × ℕ)}
  {t : TripID} {call : ℕ} {l : FavoritesPage} {db : Firestore} {r : FavoritesPage × List Cmd}
  {x x' : Direct Firestore FavoritesPage (Heard (Option User) Callback)}
  {m : Async.Move (Heard (Option User) Callback) Unit (Hearing Event)}

/-- What counting an answer does. -/
theorem count_cases {l' : FavoritesPage} (h : count call l = some l') :
    l'.ct call = l.ct call + 1 ∧ l'.holdSelected = l.holdSelected ∧
      l'.selectedTripData =
        if (l.currentUser.favorites.getD []).length = l.ct call + 1 then
          (l.holdSelected call).reverse
        else l.selectedTripData := by
  simp only [count] at h
  obtain ⟨favorites, hfavorites, rfl⟩ := Option.map_eq_some_iff.mp h
  rw [hfavorites, Option.getD_some]
  by_cases hct : favorites.length = l.ct call + 1
  · simp [hct]
  · simp [hct, Ne.symm hct]

/-- **What an answer does**: nothing, or the trip is collected if it exists and the answer is
counted. -/
theorem react_answer (h : react (.tripFetched call t) true () l db = some r) :
    callsBack db.trips t = false ∧ r = (l, []) ∨
      callsBack db.trips t = true ∧ r.1.ct call = l.ct call + 1 ∧
        r.1.holdSelected call = l.holdSelected call ++ existing db.trips [t] ∧
        r.1.selectedTripData =
          if (l.currentUser.favorites.getD []).length = l.ct call + 1 then
            (r.1.holdSelected call).reverse
          else l.selectedTripData := by
  unfold callsBack
  simp only [react, if_true] at h
  split at h
  · rename_i hgone
    obtain ⟨w, -, h⟩ := Option.bind_eq_some_iff.mp h
    obtain ⟨l', hl', rfl⟩ := Option.map_eq_some_iff.mp h
    obtain ⟨hct, hhold, hselected⟩ := count_cases hl'
    refine Or.inr ⟨by rw [hgone]; rfl, hct, ?_, ?_⟩
    · rw [hhold]
      simp [existing, hgone]
    · rw [hselected, hhold]
  · rename_i d hd
    rw [hd]
    split at h
    · rename_i hcover
      obtain ⟨l', hl', rfl⟩ := Option.map_eq_some_iff.mp h
      obtain ⟨hct, hhold, hselected⟩ := count_cases hl'
      refine Or.inr ⟨hcover, hct, ?_, ?_⟩
      · rw [hhold]
        simp [existing, hd]
      · rw [hselected, hhold]
    · rename_i hcover
      cases h
      exact Or.inl ⟨by simpa using hcover, rfl⟩

/-- What is collected is among the favorites. -/
theorem Collecting.length_le (h : Collecting trips call F view as x) :
    (existing trips (as.map Prod.fst)).length ≤ (existing trips F).length := by
  have hle : (↑(as.map Prod.fst) : Multiset TripID) ≤ ↑F :=
    (Multiset.le_add_right _ _).trans h.fetched
  exact ((Multiset.coe_le.mp hle).filter _).length_le

/-- **One step.** -/
theorem Collecting.step (h : Collecting trips call F view as x) (ha : fetching x.loc x.store m)
    (hs : DirectStep listening x m x') :
    Collecting trips call F view (as ++ answer x.loc x.store m) x' := by
  cases listening_step hs with
  | event he => exact ha.elim
  | read =>
    change Collecting trips call F view (as ++ []) _
    rw [List.append_nil]
    refine ⟨h.stored, h.ct, h.holdSelected, h.shown, fun n t hmem => ?_, ?_⟩
    · exact h.calls n t ((Multiset.mem_cons.mp hmem).resolve_left (by simp))
    · rw [Multiset.filterMap_cons_none _ _ rfl]
      exact h.fetched
  | @deliver k ok a rest r hb hr =>
    obtain rfl : ok = true := ha
    obtain ⟨n, t⟩ := k
    obtain rfl : n = call := h.calls n t (hb ▸ Multiset.mem_cons_self _ _)
    obtain ⟨-, hcs, hcases⟩ := react_cases hr
    have hstored : (effect program.apply r.2 x.store).trips = trips := by
      rcases hcases with ⟨-, heffect⟩ | ⟨-, -, heffect⟩
      · exact (congrArg Firestore.trips heffect).trans h.stored
      · exact (congrArg Firestore.trips heffect).trans h.stored
    have hcalls : ∀ n' t', .callback (.tripFetched n' t') ∈ rest → n' = n :=
      fun n' t' hmem => h.calls n' t' (hb ▸ Multiset.mem_cons_of_mem hmem)
    have hfetched := h.fetched
    rw [hb, Multiset.filterMap_cons_some fetches (.callback (.tripFetched n t)) rest rfl]
      at hfetched
    rw [hcs, Multiset.map_zero, add_zero]
    have hr' := react_answer hr
    rw [h.stored] at hr'
    have hanswer : answer x.loc x.store (.deliver (.callback (.tripFetched n t)) true a) =
        if callsBack trips t then [(t, (x.loc.currentUser.favorites.getD []).length)] else [] := by
      rw [← h.stored]
      rfl
    rw [hanswer]
    rcases hr' with ⟨hsilent, rfl⟩ | ⟨hcalled, hct, hhold, hselected⟩
    · rw [hsilent, if_neg Bool.false_ne_true, List.append_nil]
      refine ⟨hstored, h.ct, h.holdSelected, h.shown, hcalls, le_trans ?_ hfetched⟩
      exact add_le_add_right (Multiset.le_cons_self _ _) _
    · rw [hcalled, if_pos rfl]
      have hhold' : r.1.holdSelected n = existing trips
          ((as ++ [(t, (x.loc.currentUser.favorites.getD []).length)]).map Prod.fst) := by
        rw [hhold, h.holdSelected]
        simp [existing]
      refine ⟨hstored, ?_, hhold', ?_, hcalls, ?_⟩
      · change r.1.ct n = _
        rw [hct, h.ct, List.length_append, List.length_singleton]
      · change Shown trips view _ r.1.selectedTripData
        rw [hselected, hhold', h.ct]
        split
        · rename_i hcomplete
          exact shown_of_complete view hcomplete
        · rename_i hincomplete
          exact h.shown.incomplete hincomplete
      · refine le_trans (le_of_eq ?_) hfetched
        simp [← Multiset.coe_add, Multiset.add_cons, add_assoc]
  | @refresh user ok a rest l hb hl =>
    change Collecting trips call F view (as ++ []) _
    rw [List.append_nil]
    have hl' : l.ct = x.loc.ct ∧ l.holdSelected = x.loc.holdSelected ∧
        l.selectedTripData = x.loc.selectedTripData := by
      split at hl
      · obtain ⟨user', -, rfl⟩ := Option.map_eq_some_iff.mp hl
        exact ⟨rfl, rfl, rfl⟩
      · obtain rfl := Option.some.inj hl
        exact ⟨rfl, rfl, rfl⟩
    obtain ⟨hct, hhold, hselected⟩ := hl'
    have hfetched := h.fetched
    rw [hb, Multiset.filterMap_cons_none _ _ rfl] at hfetched
    refine ⟨h.stored, ?_, ?_, ?_, fun n t hmem => ?_, hfetched⟩
    · exact (congrFun hct call).trans h.ct
    · exact (congrFun hhold call).trans h.holdSelected
    · exact hselected ▸ h.shown
    · exact h.calls n t (hb ▸ Multiset.mem_cons_of_mem hmem)

end

/-! ## A whole run -/

/-- A run of the page. -/
abbrev Page := State Firestore FavoritesPage Write (Heard (Option User) Callback)

/-- A step after the user's action: a fetch is answered, or the listener reads or refreshes. -/
def fetch (st : Page) (lbl : Label Unit (Hearing Event)) : Option Page :=
  if Permits listening fetching st lbl then listening.step lbl st else none

/-- The answer that arrives in a step of a run. -/
def answers (st : Page) (lbl : Label Unit (Hearing Event)) : List (TripID × ℕ) :=
  (st.move lbl).toList.flatMap (answer st.loc (listening.view st))

section

variable {trips : Collection TripID TripDoc} {F view : List TripID} {as : List (TripID × ℕ)}
  {call : ℕ} {l : FavoritesPage} {db : Firestore} {e : Event} {st st' st₁ : Page}
  {lbl : Label Unit (Hearing Event)} {tr : List (Label Unit (Hearing Event) × Page)}

theorem Collecting.fetch (h : Collecting trips call F view as (listening.direct st))
    (hs : fetch st lbl = some st') :
    Collecting trips call F view (as ++ answers st lbl) (listening.direct st') := by
  unfold FavoritesPage.fetch at hs
  split at hs
  · rename_i hp
    unfold answers
    rcases step_move hs with ⟨hnone, hsame, -⟩ | ⟨m, hm, hd⟩
    · have hlbl : lbl ≠ .reject := by
        rintro rfl
        exact hp
      rw [hnone, hsame.resolve_left hlbl, Option.toList_none, List.flatMap_nil, List.append_nil]
      exact h
    · rw [hm, Option.toList_some, List.flatMap_singleton]
      exact h.step ((permits_iff_of_move hm).mp hp) hd
  · cases hs

/-- All favorites are fetched. -/
theorem collecting_of_start (hfav : l.currentUser.favorites = some F) (hcalls : e.calls l)
    (hstart : listening.step (.event (.event e)) (start db l) = some st₁) :
    Collecting db.trips l.nextCall F l.selectedTripData [] (listening.direct st₁) := by
  obtain ⟨showing, hdirect⟩ := asked_of_start hfav hcalls hstart
  rw [hdirect]
  refine ⟨rfl, ?_, ?_, Or.inr ⟨fun i h => ?_, rfl⟩, fun n t hmem => ?_, ?_⟩
  · exact Function.update_self ..
  · exact Function.update_self ..
  · exact absurd h.lt (Nat.not_lt_zero i)
  · obtain ⟨t', -, heq⟩ := List.mem_map.mp (Multiset.mem_coe.mp hmem)
    cases heq
    rfl
  · have hbag : Multiset.filterMap fetches (Multiset.ofList
        (F.map (Heard.callback ∘ Callback.tripFetched l.nextCall))) = ↑F := by
      simp [Multiset.filterMap_coe, List.filterMap_map, Function.comp_def, fetches]
    rw [hbag, List.map_nil, Multiset.coe_nil, zero_add]

/-- **What the favorites view shows**: at any time after the user's action, and so when all fetches
have been answered, the view shows the favorites that exist, the last of the list first, exactly if
the answers that have arrived are in order. -/
theorem favorites_shown_iff (hfav : l.currentUser.favorites = some F) (hcalls : e.calls l)
    (hstart : listening.step (.event (.event e)) (start db l) = some st₁)
    (hrun : IsRun (fun st lbl st' => fetch st lbl = some st') st₁ tr) :
    (final st₁ tr).loc.selectedTripData = (existing db.trips F).reverse ↔
      InOrder db.trips F l.selectedTripData (collect answers st₁ tr) := by
  have h := hrun.collect (f := answers)
    (I := fun as st => Collecting db.trips l.nextCall F l.selectedTripData as (listening.direct st))
    (fun as st lbl st' h hs => h.fetch hs) (collecting_of_start hfav hcalls hstart)
  rw [List.nil_append] at h
  exact h.shown.right_iff h.length_le

end

/-! ## Two favorites -/

/-- A trip with a cover. -/
def coveredTrip : TripDoc := ⟨"trip", some ⟨"/trip"⟩, "bob", 0, []⟩

/-- Ann's favorites both exist. -/
def sampleTrips : Firestore :=
  { favoritesStore with trips := AList.insert "s" coveredTrip (AList.insert "t" coveredTrip ∅) }

/-- Ann has no favorites, and one trip. -/
def sampleLonely : FavoritesPage :=
  { opened { fan with trips := ["own"], favorites := some [] } with
    selectedTripData := ["own"] }

/-- Both favorites are shown if they arrive in order. -/
theorem favorites_shown_iff_sample : ∃ st₁ tr,
    listening.step (.event (.event .favoritesButtonPressed))
      (start sampleTrips (opened fan)) = some st₁ ∧
    IsRun (fun st lbl st' => fetch st lbl = some st') st₁ tr ∧
    (final st₁ tr).loc.selectedTripData = ["t", "s"] ∧
    InOrder sampleTrips.trips ["s", "t"] [] (collect answers st₁ tr) := by
  obtain ⟨st₁, hst₁, tr, htr, hend⟩ :
      ∃ st₁ ∈ listening.step (.event (.event .favoritesButtonPressed))
        (start sampleTrips (opened fan)),
      ∃ tr ∈ play fetch [.deliver 0 true (), .deliver 0 true ()] st₁,
        (final st₁ tr).loc.selectedTripData = ["t", "s"] := by
    decide +kernel
  have hrun := isRun_of_play htr
  have hiff := favorites_shown_iff (l := opened fan) (e := .favoritesButtonPressed) rfl rfl
    hst₁ hrun
  exact ⟨st₁, tr, hst₁, hrun, hend, hiff.mp (hend.trans (by decide +kernel))⟩

/-- They are shown the wrong way round if the second arrives first; and without favorites the view
keeps showing the user's own trips. -/
theorem favorites_not_shown :
    (∃ st₁ tr, listening.step (.event (.event .favoritesButtonPressed))
        (start sampleTrips (opened fan)) = some st₁ ∧
      IsRun (fun st lbl st' => fetch st lbl = some st') st₁ tr ∧ Quiescent (final st₁ tr) ∧
      (final st₁ tr).loc.selectedTripData ≠ (existing sampleTrips.trips ["s", "t"]).reverse) ∧
    ∃ st₁, listening.step (.event (.event .favoritesButtonPressed))
        (start favoritesStore sampleLonely) = some st₁ ∧ Quiescent st₁ ∧
      st₁.loc.selectedTripData ≠ (existing favoritesStore.trips []).reverse := by
  constructor
  · obtain ⟨st₁, hst₁, tr, htr, hend⟩ :
        ∃ st₁ ∈ listening.step (.event (.event .favoritesButtonPressed))
          (start sampleTrips (opened fan)),
        ∃ tr ∈ play fetch [.deliver 1 true (), .deliver 0 true ()] st₁,
          Quiescent (final st₁ tr) ∧
          (final st₁ tr).loc.selectedTripData ≠
            (existing sampleTrips.trips ["s", "t"]).reverse := by
      decide +kernel
    exact ⟨st₁, tr, hst₁, isRun_of_play htr, hend⟩
  · obtain ⟨st₁, hst₁, hend⟩ :
        ∃ st₁ ∈ listening.step (.event (.event .favoritesButtonPressed))
          (start favoritesStore sampleLonely),
          Quiescent st₁ ∧
          st₁.loc.selectedTripData ≠ (existing favoritesStore.trips []).reverse := by
      decide +kernel
    exact ⟨st₁, hst₁, hend⟩

end FavoritesPage

end Wanderlust
