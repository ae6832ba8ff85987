import Wanderlust.Foundations.Listener
import Wanderlust.Models.User
import Wanderlust.Trips.TripInfo

/-!
# The favorite button

A press of the button on the screen of a trip flips a flag and writes the list of favorites as it
is in the copy of the user, with the trip added or removed. The copy is refreshed by a listener,
with any delay.

A press is right exactly if the flag says whether the trip is in the copy (`press_iff`), and when
all presses of a run are, the favorites come out right (`favored_of_run`).
-/

namespace Wanderlust

open Async

namespace TripInfo

/-- The screen with the listener of `TabBarViewController`, which traps if the user is not
there. -/
def listening : Async.Program Firestore TripInfo Write (Heard (Option User) Callback) Unit
    (Hearing Event) :=
  program.listening (fun l db => db.fetchUser l.user) fun user l =>
    user.map fun user => { l with currentUser := user }

/-- The favorites of the copy. -/
def favorites (l : TripInfo) : List TripID := l.currentUser.favorites.getD []

/-- The flag says whether the trip is in the copy. -/
def Matches (l : TripInfo) : Prop := l.favorite = true ↔ l.tripId ∈ l.favorites

/-- The user presses the button, and the listener may read and refresh at any time. -/
def toggling (_ : TripInfo) (_ : Firestore) :
    Async.Move (Heard (Option User) Callback) Unit (Hearing Event) → Prop
  | .event (.event .favoriteButtonPressed) => True
  | .event (.event _) => False
  | .event .snapshot => True
  | .deliver (.snapshot _) _ _ => True
  | .deliver (.callback _) _ _ => False

/-- The same steps, where the button is only pressed when the flag says whether the trip is in the
copy. -/
def careful (l : TripInfo) (db : Firestore)
    (m : Async.Move (Heard (Option User) Callback) Unit (Hearing Event)) : Prop :=
  toggling l db m ∧ (m = .event (.event .favoriteButtonPressed) → l.Matches)

/-- The trip is among the favorites of `u` once if the flag is set, and not at all otherwise; the
others are `others`. -/
def Favored (u : Uid) (t : TripID) (others : List TripID) (flag : Bool) (db : Firestore) : Prop :=
  ∃ D, (∃ d ∈ db.users.lookup u, d.favorites = some D) ∧
    D.count t = (if flag then 1 else 0) ∧ D.filter (fun t' => t' ≠ t) = others

/-- The user is `u`, with these other favorites, and the trip is among them at most once. -/
def Holds (u : Uid) (t : TripID) (others : List TripID) (user : User) : Prop :=
  user.uid = u ∧ ∃ C, user.favorites = some C ∧ C.count t ≤ 1 ∧
    C.filter (fun t' => t' ≠ t) = others

section

variable {u : Uid} {t : TripID} {others : List TripID} {flag : Bool} {db : Firestore}
  {l : TripInfo} {r : TripInfo × List Cmd}

/-- What is read is the document. -/
theorem Favored.read (h : Favored u t others flag db) :
    ∃ user ∈ db.fetchUser u, Holds u t others user := by
  obtain ⟨D, ⟨d, hd, hfav⟩, hcount, hothers⟩ := h
  refine ⟨{ d with uid := u }, ?_, rfl, D, hfav, ?_, hothers⟩
  · rw [Firestore.fetchUser, Option.mem_def.mp hd]
    rfl
  · rw [hcount]
    split <;> omega

/-- What a press does, in the words of the model of users. -/
theorem favoriteButtonPressed_eq (l : TripInfo) : favoriteButtonPressed l =
    if l.favorite then
      (removeFromUsersFavorites l.tripId l.currentUser).map fun w =>
        ({ l with favorite := false }, [.write w none])
    else
      some ({ l with favorite := true },
        [.write (addToUsersFavorites l.tripId l.currentUser) none]) := by
  cases hflag : l.favorite with
  | false => simp [favoriteButtonPressed, hflag, addToUsersFavorites]
  | true =>
    by_cases hmem : l.tripId ∈ l.currentUser.favorites.getD []
    · simp [favoriteButtonPressed, hflag, removeFromUsersFavorites, hmem]
    · simp [favoriteButtonPressed, hflag, removeFromUsersFavorites, hmem]

theorem favored_updateUser {D : List TripID} (hdoc : ∃ d, db.users.lookup u = some d)
    (hcount : D.count t = if flag then 1 else 0) (hothers : D.filter (fun t' => t' ≠ t) = others) :
    Favored u t others flag
      (Write.apply (.updateUser u fun d => { d with favorites := some D }) db) := by
  obtain ⟨d, hd⟩ := hdoc
  refine ⟨D, ⟨{ d with favorites := some D }, ?_, rfl⟩, hcount, hothers⟩
  simp [hd]

/-- A press adds the trip to the copy, or removes it from the copy. -/
theorem press_cases (h : favoriteButtonPressed l = some r) :
    (l.favorite = false ∧ r.1 = { l with favorite := true } ∧
      r.2 = [.write (.updateUser l.currentUser.uid fun d =>
        { d with favorites := some (l.favorites ++ [l.tripId]) }) none]) ∨
    (l.favorite = true ∧ l.tripId ∈ l.favorites ∧ r.1 = { l with favorite := false } ∧
      r.2 = [.write (.updateUser l.currentUser.uid fun d =>
        { d with favorites := some (l.favorites.erase l.tripId) }) none]) := by
  rw [favoriteButtonPressed_eq] at h
  split at h
  · rename_i hflag
    obtain ⟨w, hw, rfl⟩ := Option.map_eq_some_iff.mp h
    obtain ⟨hmem, rfl⟩ := of_removeFromUsersFavorites hw
    exact Or.inr ⟨hflag, hmem, rfl, rfl⟩
  · rename_i hflag
    cases h
    exact Or.inl ⟨by simpa using hflag, rfl, rfl⟩

/-- **A press is right** exactly if the flag says whether the trip is in the copy. -/
theorem press_iff (hcopy : Holds u l.tripId others l.currentUser)
    (hdoc : ∃ d, db.users.lookup u = some d) :
    (∃ r, favoriteButtonPressed l = some r ∧
      Favored u l.tripId others r.1.favorite (effect Write.apply r.2 db)) ↔ l.Matches := by
  obtain ⟨hu, C, hC, honce, hothers⟩ := hcopy
  have hfav : l.favorites = C := by rw [favorites, hC, Option.getD_some]
  have hcount : l.tripId ∈ C ↔ C.count l.tripId = 1 := by
    rw [← List.count_pos_iff]
    omega
  constructor
  · rintro ⟨r, hr, hright⟩
    obtain ⟨D, ⟨d', hd', hD⟩, hD1, -⟩ := hright
    obtain ⟨d, hd⟩ := hdoc
    rw [Matches, hfav]
    rcases press_cases hr with ⟨hflag, hl, hcs⟩ | ⟨hflag, hmem, -, -⟩
    · -- the trip has been added
      rw [hcs, hu, hfav] at hd'
      simp only [effect_write, effect_nil, Write.apply, Collection.lookup_modify, hd,
        Option.map_some, Option.mem_def, Option.some.injEq] at hd'
      subst hd'
      cases hD
      rw [hl, List.count_append, List.count_singleton_self] at hD1
      simp only [if_true] at hD1
      rw [hflag, hcount]
      simp only [Bool.false_eq_true, false_iff]
      omega
    · rw [← hfav]
      exact iff_of_true hflag hmem
  · intro hmatch
    rw [Matches, hfav] at hmatch
    rw [favoriteButtonPressed_eq]
    cases hflag : l.favorite with
    | false =>
      have hnot : l.tripId ∉ C := fun hmem => by
        rw [hmatch.mpr hmem] at hflag
        cases hflag
      refine ⟨_, rfl, ?_⟩
      simp only [effect_write, effect_nil, addToUsersFavorites, hu, hC, Option.getD_some]
      refine favored_updateUser hdoc ?_ ?_
      · rw [List.count_append, List.count_singleton_self, List.count_eq_zero.mpr hnot]
        rfl
      · rw [List.filter_append, hothers]
        simp
    | true =>
      have hmem : l.tripId ∈ C := hmatch.mp hflag
      simp only [removeFromUsersFavorites, hC, Option.getD_some, if_pos hmem, if_true,
        Option.map_some]
      refine ⟨_, rfl, ?_⟩
      simp only [effect_write, effect_nil, hu]
      refine favored_updateUser hdoc ?_ ?_
      · rw [List.count_erase_self, hcount.mp hmem]
        rfl
      · rw [← List.erase_filter, hothers, List.erase_of_not_mem]
        rw [← hothers]
        simp

end

/-! ## A whole run -/

/-- Everything that is known of the favorites is right. -/
structure Toggled (u : Uid) (t : TripID) (others : List TripID)
    (x : Direct Firestore TripInfo (Heard (Option User) Callback)) : Prop where
  user : x.loc.user = u
  tripId : x.loc.tripId = t
  doc : Favored u t others x.loc.favorite x.store
  copy : Holds u t others x.loc.currentUser
  snapshot : ∀ user, .snapshot user ∈ x.bag → ∃ user' ∈ user, Holds u t others user'

section

variable {u : Uid} {t : TripID} {others : List TripID} {db : Firestore} {l : TripInfo}

theorem Toggled.step {x x' : Direct Firestore TripInfo (Heard (Option User) Callback)}
    {m : Async.Move (Heard (Option User) Callback) Unit (Hearing Event)}
    (h : Toggled u t others x) (ha : careful x.loc x.store m) (hs : DirectStep listening x m x') :
    Toggled u t others x' := by
  cases listening_step hs with
  | @event e r he =>
    cases e with
    | favoriteButtonPressed =>
      obtain ⟨D, ⟨d, hd, -⟩, -⟩ := h.doc
      have hcopy := h.copy
      rw [← h.tripId] at hcopy
      obtain ⟨r', hr', hright⟩ := (press_iff hcopy ⟨d, hd⟩).mpr (ha.2 rfl)
      obtain rfl : r' = r := Option.some.inj (hr'.symm.trans he)
      rw [h.tripId] at hright
      obtain ⟨hl, hbag⟩ : (∃ flag, r'.1 = { x.loc with favorite := flag }) ∧
          callbacks r'.2 = 0 := by
        rcases press_cases hr' with ⟨-, hl, hcs⟩ | ⟨-, -, hl, hcs⟩
        · exact ⟨⟨_, hl⟩, by rw [hcs]; rfl⟩
        · exact ⟨⟨_, hl⟩, by rw [hcs]; rfl⟩
      obtain ⟨flag, hl⟩ := hl
      refine ⟨?_, ?_, hright, ?_, ?_⟩
      · rw [hl]
        exact h.user
      · rw [hl]
        exact h.tripId
      · rw [hl]
        exact h.copy
      · rw [hbag, Multiset.map_zero, add_zero]
        exact h.snapshot
    | _ => exact ha.1.elim
  | read =>
    refine ⟨h.user, h.tripId, h.doc, h.copy, fun user huser => ?_⟩
    rcases Multiset.mem_cons.mp huser with heq | huser
    · cases heq
      rw [h.user]
      exact h.doc.read
    · exact h.snapshot user huser
  | deliver hb hr => exact ha.1.elim
  | @refresh user ok a rest l hb hl =>
    have hrest : ∀ user, .snapshot user ∈ rest → ∃ user' ∈ user, Holds u t others user' :=
      fun user huser => h.snapshot user (hb ▸ Multiset.mem_cons_of_mem huser)
    split at hl
    · obtain ⟨user', huser', hcopy⟩ := h.snapshot user (hb ▸ Multiset.mem_cons_self _ _)
      rw [Option.mem_def.mp huser'] at hl
      cases hl
      exact ⟨h.user, h.tripId, h.doc, hcopy, hrest⟩
    · cases hl
      exact ⟨h.user, h.tripId, h.doc, h.copy, hrest⟩

/-- The flag when the trip has been loaded. -/
theorem favorite_of_tripFetched {d : TripDoc} {r : TripInfo × List Cmd}
    (h : tripFetched d l = some r) : r.1.favorite = decide (l.tripId ∈ l.favorites) := by
  simp only [tripFetched] at h
  split at h <;> cases h
  rename_i hfav
  simp only [favorites, hfav]
  rfl

/-- **The favorites come out right**, and no press traps, in every run in which the button is only
pressed when the flag says whether the trip is in the copy of the user. -/
theorem favored_of_run {D : List TripID}
    {st : State Firestore TripInfo Write (Heard (Option User) Callback)}
    (hcur : db.fetchUser l.user = some l.currentUser) (hfav : l.currentUser.favorites = some D)
    (honce : D.count l.tripId ≤ 1) (hflag : l.favorite = decide (l.tripId ∈ l.favorites))
    (hrun : Reaches listening careful (start db l) st) :
    (st.loc.Matches → (favoriteButtonPressed st.loc).isSome) ∧
      (Quiescent st → Favored l.user l.tripId (D.filter fun t => t ≠ l.tripId) st.loc.favorite
        st.store) := by
  obtain ⟨huid, hdoc⟩ := Firestore.fetchUser_eq_some hcur
  have hstart : Toggled l.user l.tripId (D.filter fun t => t ≠ l.tripId)
      (listening.direct (start db l)) := by
    refine ⟨rfl, rfl, ⟨D, ⟨_, hdoc, hfav⟩, ?_, rfl⟩, ⟨huid, D, hfav, honce, rfl⟩,
      fun user huser => ?_⟩
    · have hmem : l.favorite = decide (l.tripId ∈ D) := by
        rw [hflag, favorites, hfav]
        rfl
      change D.count l.tripId = if l.favorite then 1 else 0
      by_cases hin : l.tripId ∈ D
      · have hpos := List.count_pos_iff.mpr hin
        rw [hmem, if_pos (by simpa using hin)]
        omega
      · rw [hmem, if_neg (by simpa using hin)]
        exact List.count_eq_zero.mpr hin
    · exact absurd huser (Multiset.notMem_zero _)
  have hend := hrun.invariant (fun x m x' hx ha hs => hx.step ha hs) hstart
  refine ⟨fun hmatch => ?_, fun hq => ?_⟩
  · obtain ⟨D', ⟨d, hd, -⟩, -⟩ := hend.doc
    have hcopy := hend.copy
    have htrip : st.loc.tripId = l.tripId := hend.tripId
    rw [← htrip] at hcopy
    obtain ⟨r, hr, -⟩ := (press_iff hcopy ⟨d, hd⟩).mpr hmatch
    have hsome : favoriteButtonPressed st.loc = some r := hr
    rw [hsome]
    rfl
  · have hright := hend.doc
    rw [hq.direct] at hright
    exact hright

end

/-! ## One press, and two -/

/-- Ann has a favorite. -/
def favoringStore : Firestore := .ofUser (sampleFan ["s"])

/-- She looks at a trip. -/
def favoriteScreen : TripInfo := opened "ann" (sampleFan ["s"]) "t" ∅

/-- Two presses, with a refresh in between. -/
def refreshedPresses : List (Label Unit (Hearing Event)) :=
  [.event (.event .favoriteButtonPressed), .event .snapshot, .deliver 0 true (),
    .event (.event .favoriteButtonPressed), .apply, .apply]

instance (l : TripInfo) : Decidable l.Matches :=
  inferInstanceAs (Decidable (l.favorite = true ↔ l.tripId ∈ l.favorites))

instance : ∀ (l : TripInfo) (db : Firestore)
    (m : Async.Move (Heard (Option User) Callback) Unit (Hearing Event)),
    Decidable (careful l db m)
  | l, _, .event (.event .favoriteButtonPressed) =>
    decidable_of_iff l.Matches ⟨fun h => ⟨trivial, fun _ => h⟩, fun h => h.2 rfl⟩
  | _, _, .event (.event .viewWillAppear) => .isFalse fun h => h.1
  | _, _, .event (.event .barButtonPressed) => .isFalse fun h => h.1
  | _, _, .event (.event .deletePressed) => .isFalse fun h => h.1
  | _, _, .event (.event .cancelPressed) => .isFalse fun h => h.1
  | _, _, .event (.event .deleteConfirmed) => .isFalse fun h => h.1
  | _, _, .event (.event .currentUserFetched) => .isFalse fun h => h.1
  | _, _, .event .snapshot => .isTrue ⟨trivial, by rintro ⟨⟩⟩
  | _, _, .deliver (.snapshot _) _ _ => .isTrue ⟨trivial, by rintro ⟨⟩⟩
  | _, _, .deliver (.callback _) _ _ => .isFalse fun h => h.1

/-- Two presses with a refresh in between. -/
theorem favored_of_run_sample : ∃ st,
    Reaches listening careful (start favoringStore favoriteScreen) st ∧
    (st.loc.Matches → (favoriteButtonPressed st.loc).isSome) ∧
      (Quiescent st → Favored "ann" "t" ["s"] st.loc.favorite st.store) := by
  obtain ⟨st, hst⟩ := Option.isSome_iff_exists.mp (by decide +kernel :
    (exec listening careful refreshedPresses (start favoringStore favoriteScreen)).isSome)
  have hrun : Reaches listening careful (start favoringStore favoriteScreen) st :=
    ⟨_, trace_of_exec hst⟩
  exact ⟨st, hrun, favored_of_run (l := favoriteScreen) rfl rfl (by decide) rfl hrun⟩

/-- The second of two presses traps if the copy has not been refreshed. -/
theorem second_press_traps : ∃ st,
    listening.step (.event (.event .favoriteButtonPressed)) (start favoringStore favoriteScreen) =
      some st ∧ listening.step (.event (.event .favoriteButtonPressed)) st = none := by
  obtain ⟨st, hst⟩ := Option.isSome_iff_exists.mp (by decide +kernel : (listening.step
    (.event (.event .favoriteButtonPressed)) (start favoringStore favoriteScreen)).isSome)
  have htrap : ∀ st ∈ listening.step (.event (.event .favoriteButtonPressed))
      (start favoringStore favoriteScreen),
      (listening.step (.event (.event .favoriteButtonPressed)) st).isNone := by
    decide +kernel
  exact ⟨st, hst, Option.isNone_iff_eq_none.mp (htrap st hst)⟩

end TripInfo

end Wanderlust
