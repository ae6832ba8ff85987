import Mathlib.Logic.Function.Basic
import Wanderlust.Foundations.Listener
import Wanderlust.Models.User

/-!
# The favorites on the profile page

`ProfilePageViewController` on the page of the signed-in user, which can show the favorites. Every
favorite is fetched, and those that no longer exist are removed, each by a write of the whole list
as it is in the copy of the user, which a listener refreshes.

So all of them are gone in the end exactly if every removal has found a copy with the favorites
that the earlier removals have left (`purged_iff`).
-/

namespace Wanderlust

open Async

/-- The state of the page, with the cached user. The variables of each call of
`handleFavoriteTrips` are its own. -/
structure FavoritesPage where
  currentUser : User
  favoriteView : Bool
  selectedTripData : List TripID
  ct : ℕ → ℕ
  holdSelected : ℕ → List TripID
  nextCall : ℕ

/-- The favorites of a user. -/
def Firestore.favoritesOf (db : Firestore) (u : Uid) : Option (List TripID) :=
  (db.users.lookup u).bind UserDoc.favorites

namespace FavoritesPage

inductive Callback
  -- `handleFavoriteTrips`
  | tripFetched (call : ℕ) (tripId : TripID)
  deriving DecidableEq

inductive Event
  | viewWillAppear
  | favoritesButtonPressed

abbrev Cmd := Async.Cmd Write Callback

/-- The page before it appears. -/
def opened (currentUser : User) : FavoritesPage where
  currentUser := currentUser
  favoriteView := false
  selectedTripData := []
  ct := fun _ => 0
  holdSelected := fun _ => []
  nextCall := 0

/-- `handleFavoriteTrips`. It traps for a user without a list of favorites. -/
def handleFavoriteTrips (l : FavoritesPage) : Option (FavoritesPage × List Cmd) :=
  l.currentUser.favorites.map fun favorites =>
    ({ l with
        ct := Function.update l.ct l.nextCall 0
        holdSelected := Function.update l.holdSelected l.nextCall []
        nextCall := l.nextCall + 1 },
      favorites.map fun tripId => .request (.tripFetched l.nextCall tripId))

/-- `setUpProfilePage(userProfile: currentUser!)`. -/
def setUpProfilePage (l : FavoritesPage) : Option (FavoritesPage × List Cmd) :=
  if l.favoriteView then handleFavoriteTrips l
  else some ({ l with selectedTripData := l.currentUser.trips.reverse }, [])

/-- `ct = ct + 1` with its observer. -/
def count (call : ℕ) (l : FavoritesPage) : Option FavoritesPage :=
  let l := { l with ct := Function.update l.ct call (l.ct call + 1) }
  l.currentUser.favorites.map fun favorites =>
    if l.ct call = favorites.length then
      { l with selectedTripData := (l.holdSelected call).reverse }
    else l

/-- The closure that is given a trip, if there is one. -/
def tripFetched (call : ℕ) (tripId : TripID) (trip : Option TripDoc) (l : FavoritesPage) :
    Option (FavoritesPage × List Cmd) :=
  match trip with
  | none =>
    (removeFromUsersFavorites tripId l.currentUser).bind fun w =>
      (count call l).map fun l => (l, [.write w none])
  | some _ =>
    let holdSelected := Function.update l.holdSelected call (l.holdSelected call ++ [tripId])
    (count call { l with holdSelected := holdSelected }).map fun l => (l, [])

/-- The code of the closures. `fetchTrip` calls back with nothing if the fetch fails, and not at
all if the trip cannot be decoded, since it has no cover. -/
def react : Callback → Bool → Unit → FavoritesPage → Firestore →
    Option (FavoritesPage × List Cmd)
  | .tripFetched call tripId, ok, _, l, db =>
    match if ok then db.trips.lookup tripId else none with
    | none => tripFetched call tripId none l
    | some d => if d.coverPhoto.isSome then tripFetched call tripId (some d) l else some (l, [])

/-- The code of the user's actions. -/
def event : Event → FavoritesPage → Firestore → Option (FavoritesPage × List Cmd)
  | .viewWillAppear, l, _ => setUpProfilePage l
  | .favoritesButtonPressed, l, _ => setUpProfilePage { l with favoriteView := !l.favoriteView }

/-- `ProfilePageViewController`, for the signed-in user. -/
def program : Async.Program Firestore FavoritesPage Write Callback Unit Event where
  apply := Write.apply
  react := react
  event := event

/-- The page with the listener of `TabBarViewController`, which traps if the user is not there. -/
def listening : Async.Program Firestore FavoritesPage Write (Heard (Option User) Callback) Unit
    (Hearing Event) :=
  program.listening (fun l db => db.fetchUser l.currentUser.uid) fun user l =>
    user.map fun user => { l with currentUser := user }

/-- The steps of one call of `handleFavoriteTrips`: its fetches succeed, and the listener may read
and refresh at any time. -/
def fetching (_ : FavoritesPage) (_ : Firestore) :
    Async.Move (Heard (Option User) Callback) Unit (Hearing Event) → Prop
  | .event .snapshot => True
  | .event _ => False
  | .deliver (.snapshot _) _ _ => True
  | .deliver (.callback _) ok _ => ok = true

/-- The copy has the favorites of the document. -/
def UpToDate (l : FavoritesPage) (db : Firestore) : Prop :=
  ∀ d ∈ db.users.lookup l.currentUser.uid, d.favorites = l.currentUser.favorites

/-- The same steps, where a favorite is only removed from a copy that is up to date. -/
def careful (l : FavoritesPage) (db : Firestore)
    (m : Async.Move (Heard (Option User) Callback) Unit (Hearing Event)) : Prop :=
  fetching l db m ∧ ∀ call tripId ok, m = .deliver (.callback (.tripFetched call tripId)) ok () →
    db.trips.lookup tripId = none → UpToDate l db

/-! ## What a step does to the favorites -/

section

variable {l l' : FavoritesPage} {db : Firestore} {t : TripID} {call : ℕ}
  {r : FavoritesPage × List Cmd}

theorem currentUser_of_count (h : count call l = some l') : l'.currentUser = l.currentUser := by
  simp only [count] at h
  obtain ⟨favorites, -, rfl⟩ := Option.map_eq_some_iff.mp h
  split <;> rfl

/-- The answer to a fetch leaves everything alone, or removes a favorite that does not exist. -/
theorem react_cases (h : react (.tripFetched call t) true () l db = some r) :
    r.1.currentUser = l.currentUser ∧ callbacks r.2 = 0 ∧
      ((db.trips.lookup t).isSome ∧ effect Write.apply r.2 db = db ∨
        db.trips.lookup t = none ∧ t ∈ l.currentUser.favorites.getD [] ∧
          effect Write.apply r.2 db = { db with
            users := db.users.modify l.currentUser.uid fun d =>
              { d with favorites := some ((l.currentUser.favorites.getD []).erase t) } }) := by
  simp only [react, if_true] at h
  split at h
  · -- the trip is gone
    rename_i hgone
    obtain ⟨w, hw, h⟩ := Option.bind_eq_some_iff.mp h
    obtain ⟨l', hl', rfl⟩ := Option.map_eq_some_iff.mp h
    obtain ⟨hmem, rfl⟩ := of_removeFromUsersFavorites hw
    exact ⟨currentUser_of_count hl', rfl, Or.inr ⟨hgone, hmem, rfl⟩⟩
  · rename_i d hd
    have hsome : (db.trips.lookup t).isSome := by
      rw [hd]
      rfl
    split at h
    · obtain ⟨l', hl', rfl⟩ := Option.map_eq_some_iff.mp h
      exact ⟨(currentUser_of_count hl' :), rfl, Or.inl ⟨hsome, rfl⟩⟩
    · cases h
      exact ⟨rfl, rfl, Or.inl ⟨hsome, rfl⟩⟩

theorem favoritesOf_modify {u : Uid} {D favorites : List TripID}
    (h : db.favoritesOf u = some D) :
    Firestore.favoritesOf { db with
      users := db.users.modify u fun d => { d with favorites := some favorites } } u =
        some favorites := by
  obtain ⟨d, hd, -⟩ := Option.bind_eq_some_iff.mp h
  rw [Firestore.favoritesOf, Collection.lookup_modify, hd]
  rfl

end

/-! ## What is still to be removed -/

section

variable (trips : Collection TripID TripDoc)

/-- The answer is that a trip is gone. -/
def goneIn : Heard (Option User) Callback → Bool
  | .callback (.tripFetched _ t) => (trips.lookup t).isNone
  | .snapshot _ => false

/-- How many favorites are still to be removed. -/
def pending (bag : Multiset (Heard (Option User) Callback)) : ℕ :=
  bag.countP fun k => goneIn trips k = true

/-- The favorites that exist. -/
def existing (favorites : List TripID) : List TripID :=
  favorites.filter fun t => (trips.lookup t).isSome

end

section

variable {trips : Collection TripID TripDoc} {rest : Multiset (Heard (Option User) Callback)}

theorem pending_cons_gone {k : Heard (Option User) Callback} (h : goneIn trips k = true) :
    pending trips (k ::ₘ rest) = pending trips rest + 1 := Multiset.countP_cons_of_pos _ h

theorem pending_cons_other {k : Heard (Option User) Callback} (h : goneIn trips k = false) :
    pending trips (k ::ₘ rest) = pending trips rest :=
  Multiset.countP_cons_of_neg _ (by simp [h])

end

/-- A copy of the favorites is that of the document, `favorites`, or one that is longer than the
document will ever be again: `n` favorites are still to be removed, and `kept` are to be left. -/
def Copy (u : Uid) (kept : ℕ) (favorites : List TripID) (n : ℕ) (user : User) : Prop :=
  user.uid = u ∧ ∃ copy, user.favorites = some copy ∧
    (copy = favorites ∨ kept + n < copy.length)

/-- No list is too short. -/
structure Held (trips : Collection TripID TripDoc) (u : Uid) (kept : ℕ) (favorites : List TripID)
    (x : Direct Firestore FavoritesPage (Heard (Option User) Callback)) : Prop where
  stored : x.store.trips = trips
  doc : x.store.favoritesOf u = some favorites
  long : kept + pending trips x.bag ≤ favorites.length
  copy : Copy u kept favorites (pending trips x.bag) x.loc.currentUser
  snapshot : ∀ user, .snapshot user ∈ x.bag →
    ∃ user' ∈ user, Copy u kept favorites (pending trips x.bag) user'

section

variable {trips : Collection TripID TripDoc} {u : Uid} {kept : ℕ} {favorites : List TripID}
  {x x' : Direct Firestore FavoritesPage (Heard (Option User) Callback)}
  {m : Async.Move (Heard (Option User) Callback) Unit (Hearing Event)}

/-- What becomes of the copies when a favorite is removed: they are not those of the document any
more, but they were not too short before. -/
theorem Copy.removed {n : ℕ} {user : User} (h : Copy u kept favorites (n + 1) user)
    (hlong : kept + (n + 1) ≤ favorites.length) (favorites' : List TripID) :
    Copy u kept favorites' n user := by
  obtain ⟨hu, copy, hcopy, rfl | hlonger⟩ := h
  · exact ⟨hu, copy, hcopy, Or.inr (by omega)⟩
  · exact ⟨hu, copy, hcopy, Or.inr (by omega)⟩

/-- The listener reads the document. -/
theorem Copy.read {db : Firestore} {n : ℕ} (h : db.favoritesOf u = some favorites) :
    ∃ user ∈ db.fetchUser u, Copy u kept favorites n user := by
  obtain ⟨d, hd, hfav⟩ := Option.bind_eq_some_iff.mp h
  refine ⟨{ d with uid := u }, ?_, rfl, favorites, hfav, Or.inl rfl⟩
  rw [Firestore.fetchUser, hd]
  rfl

/-- A favorite is removed. -/
theorem Held.removed {l : FavoritesPage} {t : TripID} {k : Heard (Option User) Callback}
    {rest : Multiset (Heard (Option User) Callback)} (h : Held trips u kept favorites x)
    (hb : x.bag = k ::ₘ rest) (hk : goneIn trips k = true)
    (hmem : t ∈ x.loc.currentUser.favorites.getD [])
    (hcur : l.currentUser = x.loc.currentUser) :
    ∃ favorites', Held trips u kept favorites' ⟨{ x.store with
        users := x.store.users.modify x.loc.currentUser.uid fun d =>
          { d with favorites := some ((x.loc.currentUser.favorites.getD []).erase t) } }, l, rest⟩ ∧
      (kept + pending trips x.bag < favorites.length ∨
          ¬ UpToDate x.loc x.store → kept + pending trips rest < favorites'.length) := by
  have hlong := h.long
  have hcopy := h.copy
  have hsnapshot := h.snapshot
  rw [hb, pending_cons_gone hk] at hlong hcopy hsnapshot ⊢
  obtain ⟨hu, copy, hfav, hsame⟩ := id hcopy
  rw [hfav, Option.getD_some] at hmem ⊢
  have hlen : (copy.erase t).length + 1 = copy.length := by
    rw [List.length_erase_of_mem hmem]
    have := List.length_pos_of_mem hmem
    omega
  refine ⟨copy.erase t, ⟨h.stored, ?_, ?_, ?_, fun user huser => ?_⟩, ?_⟩
  · rw [hu]
    exact favoritesOf_modify h.doc
  · change kept + pending trips rest ≤ _
    rcases hsame with rfl | hlonger <;> omega
  · change Copy u kept _ _ l.currentUser
    rw [hcur]
    exact hcopy.removed hlong _
  · obtain ⟨user', huser', hcopy'⟩ := hsnapshot user (Multiset.mem_cons_of_mem huser)
    exact ⟨user', huser', hcopy'.removed hlong _⟩
  · rintro (htoo | hstale)
    · rcases hsame with rfl | hlonger <;> omega
    · -- the copy is not that of the document
      have hne : copy ≠ favorites := by
        rintro rfl
        refine hstale fun d hd => ?_
        rw [hu] at hd
        have hdoc := h.doc
        rw [Firestore.favoritesOf, Option.mem_def.mp hd] at hdoc
        exact hdoc.trans hfav.symm
      have hlonger := hsame.resolve_left hne
      omega

/-- **One step**: the lists do not become too short, one that is too long stays so, and a removal
from a copy that is not up to date leaves one that is too long. -/
theorem Held.step (h : Held trips u kept favorites x) (ha : fetching x.loc x.store m)
    (hs : DirectStep listening x m x') :
    ∃ favorites', Held trips u kept favorites' x' ∧
      (kept + pending trips x.bag < favorites.length ∨ ¬ careful x.loc x.store m →
        kept + pending trips x'.bag < favorites'.length) := by
  cases listening_step hs with
  | event he => exact ha.elim
  | read =>
    have hcareful : careful x.loc x.store (.event .snapshot) := ⟨trivial, by rintro _ _ _ ⟨⟩⟩
    have hcount : pending trips (.snapshot (x.store.fetchUser x.loc.currentUser.uid) ::ₘ x.bag) =
        pending trips x.bag := pending_cons_other rfl
    refine ⟨favorites, ⟨h.stored, h.doc, ?_, ?_, ?_⟩, ?_⟩
    · rw [hcount]
      exact h.long
    · rw [hcount]
      exact h.copy
    · intro user huser
      rw [hcount]
      rcases Multiset.mem_cons.mp huser with heq | huser
      · cases heq
        rw [h.copy.1]
        exact Copy.read h.doc
      · exact h.snapshot user huser
    · rw [hcount]
      exact fun hor => hor.resolve_right (not_not_intro hcareful)
  | @deliver k ok a rest r hb hr =>
    obtain rfl : ok = true := ha
    obtain ⟨call, t⟩ := k
    obtain ⟨hcur, hcs, hcases⟩ := react_cases hr
    rw [hcs, Multiset.map_zero, add_zero]
    rcases hcases with ⟨hexists, heffect⟩ | ⟨hgone, hmem, heffect⟩
    · -- the trip is there
      have hcount : pending trips x.bag = pending trips rest := by
        rw [hb]
        refine pending_cons_other ?_
        rw [h.stored] at hexists
        simpa [goneIn, Option.isNone_eq_false_iff] using hexists
      have hcareful :
          careful x.loc x.store (.deliver (.callback (.tripFetched call t)) true a) := by
        refine ⟨rfl, ?_⟩
        rintro call' t' ok' ⟨⟩ hnone
        rw [hnone] at hexists
        cases hexists
      have hstore : effect program.apply r.2 x.store = x.store := heffect
      rw [hstore]
      refine ⟨favorites, ⟨h.stored, h.doc, ?_, ?_, fun user huser => ?_⟩, ?_⟩
      · exact hcount ▸ h.long
      · change Copy u kept favorites _ r.1.currentUser
        rw [hcur]
        exact hcount ▸ h.copy
      · exact hcount ▸ h.snapshot user (hb ▸ Multiset.mem_cons_of_mem huser)
      · rw [hcount]
        exact fun hor => hor.resolve_right (not_not_intro hcareful)
    · -- the trip is gone
      have hk : goneIn trips (.callback (.tripFetched call t)) = true := by
        rw [h.stored] at hgone
        simp [goneIn, hgone]
      have hstore : effect program.apply r.2 x.store = _ := heffect
      rw [hstore]
      obtain ⟨favorites', hheld, hlong⟩ := h.removed hb hk hmem hcur
      refine ⟨favorites', hheld, fun hor => hlong (hor.imp id fun hno hupToDate => hno ⟨rfl, ?_⟩)⟩
      exact fun _ _ _ _ _ => hupToDate
  | @refresh user ok a rest l hb hl =>
    have hcareful : careful x.loc x.store (.deliver (.snapshot user) ok a) :=
      ⟨trivial, by rintro _ _ _ ⟨⟩⟩
    have hcount : pending trips x.bag = pending trips rest := by
      rw [hb]
      exact pending_cons_other rfl
    refine ⟨favorites, ⟨h.stored, h.doc, ?_, ?_, fun user' huser => ?_⟩, ?_⟩
    · exact hcount ▸ h.long
    · change Copy u kept favorites (pending trips rest) l.currentUser
      rw [← hcount]
      split at hl
      · obtain ⟨user', huser', hcopy⟩ := h.snapshot user (hb ▸ Multiset.mem_cons_self _ _)
        rw [Option.mem_def.mp huser'] at hl
        cases hl
        exact hcopy
      · cases hl
        exact h.copy
    · exact hcount ▸ h.snapshot user' (hb ▸ Multiset.mem_cons_of_mem huser)
    · rw [hcount]
      exact fun hor => hor.resolve_right (not_not_intro hcareful)

end

/-! ## Careful removals -/

/-- The answer to a fetch of this trip. -/
def fetchOf (t : TripID) : Heard (Option User) Callback → Bool
  | .callback (.tripFetched _ t') => t' = t
  | .snapshot _ => false

/-- Of the favorites that do not exist, those are left whose fetches are on their way. -/
structure Removing (trips : Collection TripID TripDoc) (u : Uid) (kept favorites : List TripID)
    (x : Direct Firestore FavoritesPage (Heard (Option User) Callback)) : Prop where
  held : Held trips u kept.length favorites x
  existing : existing trips favorites = kept
  gone : ∀ t, trips.lookup t = none →
    favorites.count t = x.bag.countP fun k => fetchOf t k = true

section

variable {trips : Collection TripID TripDoc} {u : Uid} {kept favorites : List TripID}
  {x x' : Direct Firestore FavoritesPage (Heard (Option User) Callback)}
  {m : Async.Move (Heard (Option User) Callback) Unit (Hearing Event)}

theorem countP_fetchOf_cons (t t' : TripID) (call : ℕ)
    (rest : Multiset (Heard (Option User) Callback)) :
    Multiset.countP (fun k => fetchOf t k = true) (.callback (.tripFetched call t') ::ₘ rest) =
      rest.countP (fun k => fetchOf t k = true) + if t' = t then 1 else 0 := by
  rw [Multiset.countP_cons]
  by_cases h : t' = t <;> simp [fetchOf, h]

theorem existing_erase {t : TripID} (h : trips.lookup t = none) (favorites : List TripID) :
    existing trips (favorites.erase t) = existing trips favorites := by
  have hnot : t ∉ existing trips favorites := fun hmem => by
    simpa [h] using (List.mem_filter.mp hmem).2
  rw [existing, ← List.erase_filter]
  exact List.erase_of_not_mem hnot

/-- A careful removal is from the list in the document. -/
theorem Removing.removed {l : FavoritesPage} {call : ℕ} {t : TripID}
    {rest : Multiset (Heard (Option User) Callback)} (h : Removing trips u kept favorites x)
    (hb : x.bag = .callback (.tripFetched call t) ::ₘ rest) (hgone : trips.lookup t = none)
    (hmem : t ∈ x.loc.currentUser.favorites.getD [])
    (hcur : l.currentUser = x.loc.currentUser) (hcareful : UpToDate x.loc x.store) :
    ∃ favorites', Removing trips u kept favorites' ⟨{ x.store with
        users := x.store.users.modify x.loc.currentUser.uid fun d =>
          { d with favorites := some ((x.loc.currentUser.favorites.getD []).erase t) } },
        l, rest⟩ := by
  have hk : goneIn trips (.callback (.tripFetched call t)) = true := by simp [goneIn, hgone]
  obtain ⟨favorites', hheld, -⟩ := h.held.removed hb hk hmem hcur
  obtain ⟨d, hd, hfav⟩ := Option.bind_eq_some_iff.mp h.held.doc
  have hcopy : x.loc.currentUser.favorites = some favorites := by
    rw [← hfav]
    exact (hcareful d (by rw [h.held.copy.1]; exact hd)).symm
  obtain rfl : favorites.erase t = favorites' := by
    have hdoc := hheld.doc
    rw [hcopy, Option.getD_some, h.held.copy.1] at hdoc
    exact Option.some.inj ((favoritesOf_modify h.held.doc).symm.trans hdoc)
  refine ⟨favorites.erase t, hheld, (existing_erase hgone _).trans h.existing, fun t' ht' => ?_⟩
  have hcount := h.gone t' ht'
  rw [hb, countP_fetchOf_cons] at hcount
  by_cases heq : t = t'
  · subst heq
    rw [List.count_erase_self, hcount, if_pos rfl]
    exact Nat.add_sub_cancel _ _
  · rw [List.count_erase_of_ne (Ne.symm heq), hcount, if_neg heq]
    rfl

theorem Removing.step (h : Removing trips u kept favorites x) (ha : careful x.loc x.store m)
    (hs : DirectStep listening x m x') : ∃ favorites', Removing trips u kept favorites' x' := by
  obtain ⟨favorites', hheld, -⟩ := h.held.step ha.1 hs
  have hsame : x'.store.favoritesOf u = some favorites →
      (∀ t, trips.lookup t = none → x'.bag.countP (fun k => fetchOf t k = true) =
        x.bag.countP fun k => fetchOf t k = true) → Removing trips u kept favorites x' := by
    intro hdoc hbag
    obtain rfl := Option.some.inj (hdoc.symm.trans hheld.doc)
    exact ⟨hheld, h.existing, fun t ht => (h.gone t ht).trans (hbag t ht).symm⟩
  cases listening_step hs with
  | event he => exact ha.1.elim
  | read =>
    exact ⟨favorites, hsame h.held.doc fun t _ =>
      Multiset.countP_cons_of_neg _ (by simp [fetchOf])⟩
  | @deliver k ok a rest r hb hr =>
    obtain rfl : ok = true := ha.1
    obtain ⟨call, t⟩ := k
    obtain ⟨hcur, hcs, hcases⟩ := react_cases hr
    rw [hcs, Multiset.map_zero, add_zero] at hsame ⊢
    rcases hcases with ⟨hexists, heffect⟩ | ⟨hgone, hmem, heffect⟩
    · have hstore : effect program.apply r.2 x.store = x.store := heffect
      refine ⟨favorites, hsame (by rw [hstore]; exact h.held.doc) fun t' ht' => ?_⟩
      have hne : t ≠ t' := by
        rintro rfl
        rw [h.held.stored, ht'] at hexists
        cases hexists
      rw [hb, countP_fetchOf_cons, if_neg hne]
      rfl
    · have hstore : effect program.apply r.2 x.store = _ := heffect
      rw [hstore]
      have hupToDate := ha.2 call t true rfl hgone
      rw [h.held.stored] at hgone
      exact h.removed hb hgone hmem hcur hupToDate
  | @refresh user ok a rest l hb hl =>
    refine ⟨favorites, hsame h.held.doc fun t _ => ?_⟩
    rw [hb, Multiset.countP_cons_of_neg _ (by simp [fetchOf])]

/-- A careful removal does not trap: the favorite is there. -/
theorem Removing.mem {call : ℕ} {t : TripID} (h : Removing trips u kept favorites x)
    (hmem : .callback (.tripFetched call t) ∈ x.bag) (hgone : trips.lookup t = none)
    (hcareful : UpToDate x.loc x.store) : t ∈ x.loc.currentUser.favorites.getD [] := by
  obtain ⟨d, hd, hfav⟩ := Option.bind_eq_some_iff.mp h.held.doc
  have hcopy : x.loc.currentUser.favorites = some favorites := by
    rw [← hfav]
    exact (hcareful d (by rw [h.held.copy.1]; exact hd)).symm
  have hpos : 0 < favorites.count t := by
    rw [h.gone t hgone, Multiset.countP_pos]
    exact ⟨_, hmem, by simp [fetchOf]⟩
  rw [hcopy]
  exact List.count_pos_iff.mp hpos

end

/-! ## A whole run -/

/-- The user's action calls `handleFavoriteTrips`. -/
def Event.calls (l : FavoritesPage) : Event → Prop
  | .viewWillAppear => l.favoriteView = true
  | .favoritesButtonPressed => l.favoriteView = false

section

variable {l : FavoritesPage} {db : Firestore} {F : List TripID} {e : Event}
  {st₁ st : State Firestore FavoritesPage Write (Heard (Option User) Callback)}
  {lbls : List (Label Unit (Hearing Event))}

theorem handles_of_event {r : FavoritesPage × List Cmd} (hcalls : e.calls l)
    (h : event e l db = some r) :
    ∃ view, handleFavoriteTrips { l with favoriteView := view } = some r := by
  cases e with
  | viewWillAppear =>
    have hview : l.favoriteView = true := hcalls
    change setUpProfilePage l = some r at h
    rw [setUpProfilePage, if_pos hview] at h
    exact ⟨_, h⟩
  | favoritesButtonPressed =>
    have hview : l.favoriteView = false := hcalls
    change setUpProfilePage { l with favoriteView := !l.favoriteView } = some r at h
    rw [setUpProfilePage, if_pos (by simp [hview])] at h
    exact ⟨_, h⟩

/-- All favorites are asked for, and nothing else has been done. -/
theorem asked_of_start (hfav : l.currentUser.favorites = some F) (hcalls : e.calls l)
    (hstart : listening.step (.event (.event e)) (start db l) = some st₁) :
    ∃ view, listening.direct st₁ = ⟨db, { l with
      favoriteView := view
      ct := Function.update l.ct l.nextCall 0
      holdSelected := Function.update l.holdSelected l.nextCall []
      nextCall := l.nextCall + 1 },
      Multiset.ofList (F.map (Heard.callback ∘ Callback.tripFetched l.nextCall))⟩ := by
  obtain ⟨-, ⟨⟩, hd⟩ := (step_move hstart).resolve_left (by rintro ⟨⟨⟩, -⟩)
  generalize listening.direct st₁ = x at hd
  cases listening_step hd with
  | @event _ r he =>
    obtain ⟨view, hr⟩ := handles_of_event hcalls he
    simp only [handleFavoriteTrips, hfav, Option.map_some, Option.some.injEq] at hr
    subst hr
    refine ⟨view, ?_⟩
    simp only [direct_start, effect_map_request, callbacks_map_request, Multiset.map_coe,
      List.map_map, zero_add]

/-- All favorites are fetched. -/
theorem removing_of_start (hcur : db.fetchUser l.currentUser.uid = some l.currentUser)
    (hfav : l.currentUser.favorites = some F) (hcalls : e.calls l)
    (hstart : listening.step (.event (.event e)) (start db l) = some st₁) :
    Removing db.trips l.currentUser.uid (existing db.trips F) F (listening.direct st₁) := by
  obtain ⟨view, hdirect⟩ := asked_of_start hfav hcalls hstart
  rw [hdirect]
  have hdoc : db.favoritesOf l.currentUser.uid = some F := by
    obtain ⟨-, hlookup⟩ := Firestore.fetchUser_eq_some hcur
    rw [Firestore.favoritesOf, hlookup]
    exact hfav
  have hpending : pending db.trips
      (Multiset.ofList (F.map (Heard.callback ∘ Callback.tripFetched l.nextCall))) =
        F.countP fun t => (db.trips.lookup t).isNone := by
    rw [pending, Multiset.coe_countP, List.countP_map]
    exact List.countP_congr fun t _ => by simp [goneIn]
  have hlen : (existing db.trips F).length + (F.countP fun t => (db.trips.lookup t).isNone) =
      F.length := by
    rw [List.length_eq_countP_add_countP (fun t => (db.trips.lookup t).isSome) (l := F), existing,
      ← List.countP_eq_length_filter]
    refine congrArg _ (List.countP_congr fun t _ => ?_)
    simp
  refine ⟨⟨rfl, hdoc, ?_, ⟨rfl, F, hfav, Or.inl rfl⟩, fun user huser => ?_⟩, rfl, fun t _ => ?_⟩
  · rw [hpending, hlen]
  · simp at huser
  · rw [Multiset.coe_countP, List.countP_map, List.count]
    exact List.countP_congr fun t' _ => by simp [fetchOf]

/-- **All dead favorites are purged** exactly if every removal is made from a copy that is up to
date. -/
theorem purged_iff (hcur : db.fetchUser l.currentUser.uid = some l.currentUser)
    (hfav : l.currentUser.favorites = some F) (hcalls : e.calls l)
    (hstart : listening.step (.event (.event e)) (start db l) = some st₁)
    (htrace : Trace listening fetching st₁ lbls st) (hq : Quiescent st) :
    st.store.favoritesOf l.currentUser.uid = some (existing db.trips F) ↔
      Trace listening careful st₁ lbls st := by
  have h₀ := removing_of_start hcur hfav hcalls hstart
  constructor
  · intro hend
    refine (htrace.careful_or
      (I := fun x => ∃ D, Held db.trips l.currentUser.uid (existing db.trips F).length D x)
      (J := fun x => ∃ D, x.store.favoritesOf l.currentUser.uid = some D ∧
        (existing db.trips F).length + pending db.trips x.bag < D.length)
      ?_ ?_ ?_ ⟨F, h₀.held⟩).resolve_right ?_
    · rintro x m x' ⟨D, hD⟩ ha hs
      obtain ⟨D', hD', -⟩ := hD.step ha hs
      exact ⟨D', hD'⟩
    · rintro x m x' ⟨D, hD⟩ ⟨D₁, hdoc, hlong⟩ ha hs
      obtain rfl := Option.some.inj (hD.doc.symm.trans hdoc)
      obtain ⟨D', hD', hkeep⟩ := hD.step ha hs
      exact ⟨D', hD'.doc, hkeep (Or.inl hlong)⟩
    · rintro x m x' ⟨D, hD⟩ ha hno hs
      obtain ⟨D', hD', hdamage⟩ := hD.step ha hs
      exact ⟨D', hD'.doc, hdamage (Or.inr hno)⟩
    · -- the list in the end is not too long
      rintro ⟨D, hD, hlong⟩
      rw [hq.direct] at hD hlong
      obtain rfl := Option.some.inj (hend.symm.trans hD)
      exact absurd hlong (by simp [pending])
  · intro hcareful
    obtain ⟨D, hD⟩ := Reaches.invariant (I := fun x =>
        ∃ D, Removing db.trips l.currentUser.uid (existing db.trips F) D x)
      (fun x m x' ⟨D, hD⟩ ha hs => hD.step ha hs) ⟨lbls, hcareful⟩ ⟨F, h₀⟩
    have hall : existing db.trips D = D := by
      rw [existing, List.filter_eq_self]
      intro t ht
      by_contra hnone
      have hgone : db.trips.lookup t = none := by simpa using hnone
      have hcount := hD.gone t hgone
      rw [hq.direct, Multiset.countP_zero, List.count_eq_zero] at hcount
      exact hcount ht
    have hdoc := hD.held.doc
    rw [hq.direct] at hdoc
    rw [← hD.existing, hall]
    exact hdoc

/-- As long as all removals are careful, none traps. -/
theorem removal_of_careful (hcur : db.fetchUser l.currentUser.uid = some l.currentUser)
    (hfav : l.currentUser.favorites = some F) (hcalls : e.calls l)
    (hstart : listening.step (.event (.event e)) (start db l) = some st₁)
    (hreach : Reaches listening careful st₁ st) {call : ℕ} {t : TripID}
    (hmem : .callback (.tripFetched call t) ∈ (listening.direct st).bag)
    (hgone : db.trips.lookup t = none)
    (hcareful : UpToDate st.loc (listening.view st)) :
    (removeFromUsersFavorites t st.loc.currentUser).isSome := by
  obtain ⟨D, hD⟩ := hreach.invariant (I := fun x =>
      ∃ D, Removing db.trips l.currentUser.uid (existing db.trips F) D x)
    (fun x m x' ⟨D, hD⟩ ha hs => hD.step ha hs)
    ⟨F, removing_of_start hcur hfav hcalls hstart⟩
  have hfound : t ∈ st.loc.currentUser.favorites.getD [] := hD.mem hmem hgone hcareful
  simp only [removeFromUsersFavorites, if_pos hfound]
  rfl

end

/-! ## Two dead favorites -/

/-- Ann, with two favorites. -/
def fan : User := sampleFan ["s", "t"]

/-- Her document; there are no trips. -/
def favoritesStore : Firestore := .ofUser fan

/-- Both are fetched, and in between the listener refreshes the copy. -/
def sampleRefreshed : List (Label Unit (Hearing Event)) :=
  [.deliver 0 true (), .event .snapshot, .deliver 1 true (), .deliver 0 true (), .apply, .apply]

/-- Both are fetched from the same copy. -/
def sampleStale : List (Label Unit (Hearing Event)) :=
  [.deliver 0 true (), .deliver 0 true (), .apply, .apply]

instance (l : FavoritesPage) (db : Firestore) : Decidable (UpToDate l db) :=
  inferInstanceAs (Decidable (∀ d ∈ db.users.lookup l.currentUser.uid, _))

instance : ∀ (l : FavoritesPage) (db : Firestore)
    (m : Async.Move (Heard (Option User) Callback) Unit (Hearing Event)),
    Decidable (fetching l db m)
  | _, _, .event .snapshot => .isTrue trivial
  | _, _, .event (.event _) => .isFalse id
  | _, _, .deliver (.snapshot _) _ _ => .isTrue trivial
  | _, _, .deliver (.callback _) ok _ => inferInstanceAs (Decidable (ok = true))

/-- Both are purged if the copy is refreshed in between. -/
theorem purged_iff_sample : ∃ st₁ st,
    listening.step (.event (.event .favoritesButtonPressed))
      (start favoritesStore (opened fan)) = some st₁ ∧
    Trace listening fetching st₁ sampleRefreshed st ∧
    (st.store.favoritesOf "ann" = some (existing favoritesStore.trips ["s", "t"]) ↔
      Trace listening careful st₁ sampleRefreshed st) := by
  obtain ⟨st₁, hst₁⟩ := Option.isSome_iff_exists.mp (by decide +kernel : (listening.step
    (.event (.event .favoritesButtonPressed)) (start favoritesStore (opened fan))).isSome)
  have hrun : ∀ st₁ ∈ listening.step (.event (.event .favoritesButtonPressed))
      (start favoritesStore (opened fan)),
      ((exec listening fetching sampleRefreshed st₁).any fun st => Quiescent st) := by
    decide +kernel
  obtain ⟨st, hst, hq⟩ := (Option.any_eq_true _ _).mp (hrun st₁ hst₁)
  have htrace := trace_of_exec hst
  exact ⟨st₁, st, hst₁, htrace, purged_iff (l := opened fan) (e := .favoritesButtonPressed)
    rfl rfl rfl hst₁ htrace (by simpa using hq)⟩

/-- One of them stays if it is not. -/
theorem dead_favorite_stays : ∃ st₁ st,
    listening.step (.event (.event .favoritesButtonPressed))
      (start favoritesStore (opened fan)) = some st₁ ∧
    Trace listening fetching st₁ sampleStale st ∧ Quiescent st ∧
    existing favoritesStore.trips ["s", "t"] = [] ∧ st.store.favoritesOf "ann" = some ["s"] := by
  obtain ⟨st₁, hst₁⟩ := Option.isSome_iff_exists.mp (by decide +kernel : (listening.step
    (.event (.event .favoritesButtonPressed)) (start favoritesStore (opened fan))).isSome)
  have hrun : ∀ st₁ ∈ listening.step (.event (.event .favoritesButtonPressed))
      (start favoritesStore (opened fan)),
      ((exec listening fetching sampleStale st₁).any fun st =>
        Quiescent st ∧ st.store.favoritesOf "ann" = some ["s"]) := by
    decide +kernel
  obtain ⟨st, hst, hend⟩ := (Option.any_eq_true _ _).mp (hrun st₁ hst₁)
  obtain ⟨hq, hfavorites⟩ := of_decide_eq_true hend
  exact ⟨st₁, st, hst₁, trace_of_exec hst, hq, rfl, hfavorites⟩

end FavoritesPage

end Wanderlust
