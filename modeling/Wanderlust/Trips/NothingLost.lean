import Wanderlust.Trips.RoundTrip

/-!
# Which entries a save keeps

Saving the trip of a screen overwrites the list of its entries with what is on the screen, and
what is on the screen is replaced when the last image has been loaded. Entries are lost when the
two overlap; they are not when the user is `careful`: edits and saves only what is loaded, and
adds nothing behind the reorder screen. Then the trip lists what it listed and what was added,
without what was deleted (`save_keeps`).
-/

namespace Wanderlust

open Async

namespace EditTrip

/-- The steps before the save that the user and the answers can take at all: new ids are new, and
images can be encoded. -/
def possible (l : EditTrip) (db : Firestore) : Async.Move Callback TripID Event → Prop
  | .event (Event.addAnnotation form uuid) =>
    (∀ image ∈ form.images, image.jpegData.isSome) ∧
      db.entries.lookup uuid = none ∧ ∀ r < l.next, l.id r ≠ uuid
  | .event (Event.editAnnotation _ form) => ∀ image ∈ form.images, image.jpegData.isSome
  | .event .saveButtonPressed => False
  | _ => True

/-- Entries are added, deleted and moved when all of the trip is loaded, and when the reorder
screen closes, it has all of the entries. -/
def careful (l : EditTrip) : Async.Move Callback TripID Event → Prop
  | .event (Event.addAnnotation _ _) => l.Loaded
  | .event (Event.deleteAnnotation _) => l.Loaded
  | .event .editOrderButtonPressed => l.Loaded
  | .event (.moveRowAt _ _) => l.Loaded
  | .event .orderWillDisappear => l.Loaded ∧ ∀ rows ∈ l.orderList, ∀ r ∈ l.entryList, r ∈ rows
  | _ => True

instance (l : EditTrip) (db : Firestore) : DecidablePred (possible l db)
  | .event .viewDidLoad => inferInstanceAs (Decidable True)
  | .event .viewWillAppear => inferInstanceAs (Decidable True)
  | .event (Event.addAnnotation form uuid) => inferInstanceAs (Decidable
      ((∀ image ∈ form.images, image.jpegData.isSome) ∧
        db.entries.lookup uuid = none ∧ ∀ r < l.next, l.id r ≠ uuid))
  | .event (Event.editAnnotation _ form) =>
    inferInstanceAs (Decidable (∀ image ∈ form.images, image.jpegData.isSome))
  | .event (Event.deleteAnnotation _) => inferInstanceAs (Decidable True)
  | .event .editOrderButtonPressed => inferInstanceAs (Decidable True)
  | .event (.moveRowAt _ _) => inferInstanceAs (Decidable True)
  | .event .orderWillDisappear => inferInstanceAs (Decidable True)
  | .event (.editTripName _) => inferInstanceAs (Decidable True)
  | .event (.selectTripCover _) => inferInstanceAs (Decidable True)
  | .event .saveButtonPressed => inferInstanceAs (Decidable False)
  | .event .currentUserFetched => inferInstanceAs (Decidable True)
  | .deliver _ _ _ => inferInstanceAs (Decidable True)

instance (l : EditTrip) : DecidablePred (careful l)
  | .event .viewDidLoad => inferInstanceAs (Decidable True)
  | .event .viewWillAppear => inferInstanceAs (Decidable True)
  | .event (Event.addAnnotation _ _) => inferInstanceAs (Decidable l.Loaded)
  | .event (Event.editAnnotation _ _) => inferInstanceAs (Decidable True)
  | .event (Event.deleteAnnotation _) => inferInstanceAs (Decidable l.Loaded)
  | .event .editOrderButtonPressed => inferInstanceAs (Decidable l.Loaded)
  | .event (.moveRowAt _ _) => inferInstanceAs (Decidable l.Loaded)
  | .event .orderWillDisappear => inferInstanceAs
      (Decidable (l.Loaded ∧ ∀ rows ∈ l.orderList, ∀ r ∈ l.entryList, r ∈ rows))
  | .event (.editTripName _) => inferInstanceAs (Decidable True)
  | .event (.selectTripCover _) => inferInstanceAs (Decidable True)
  | .event .saveButtonPressed => inferInstanceAs (Decidable True)
  | .event .currentUserFetched => inferInstanceAs (Decidable True)
  | .deliver _ _ _ => inferInstanceAs (Decidable True)

section

variable {db₀ : Firestore} {t : TripID} {tripID : Option TripID} {uid : Uid}
  {lower upper : Set Uid} {es es' : List Event} {l l' : EditTrip}
  {x x' : Direct Firestore EditTrip Callback}

theorem editing_of_careful {db : Firestore} {m : Async.Move Callback TripID Event}
    (hp : possible l db m) (hc : careful l m) : editing l db m := by
  cases m with
  | deliver k ok a => trivial
  | event e =>
    cases e with
    | addAnnotation form uuid => exact ⟨Or.inr hc, hp⟩
    | editAnnotation r form => exact hp
    | deleteAnnotation r => exact Or.inr hc
    | editOrderButtonPressed => exact Or.inr hc
    | moveRowAt source destination => exact Or.inr hc
    | orderWillDisappear => exact Or.inr hc.1
    | saveButtonPressed => exact hp
    | _ => trivial

/-- Every entry that was added is still there, on the list unless it was deleted. -/
structure Kept (db₀ : Firestore) (tripID : Option TripID) (es : List Event) (l : EditTrip) :
    Prop where
  added : ∀ form uuid, Event.addAnnotation form uuid ∈ es → ∃ r < l.next, l.id r = uuid
  listed : ∀ r < l.next, IsNew db₀ tripID (l.id r) →
    r ∈ l.entryList ∨ Event.deleteAnnotation r ∈ es

/-- Steps that neither add nor delete. -/
theorem Kept.keep (h : Kept db₀ tripID es l) (hlist : ∀ r ∈ l.entryList, r ∈ l'.entryList)
    (hnext : l'.next = l.next) (hid : ∀ r, l'.id r = l.id r)
    (hes : ∀ e ∈ es', e ∈ es ∨ e.isEdit = false) (hes' : ∀ e ∈ es, e ∈ es') :
    Kept db₀ tripID es' l' where
  added form uuid hmem := by
    obtain ⟨r, hr, hrid⟩ := h.added form uuid ((hes _ hmem).resolve_right (by simp [Event.isEdit]))
    exact ⟨r, hnext ▸ hr, (hid r).trans hrid⟩
  listed r hr hnew := by
    rw [hid] at hnew
    exact (h.listed r (hnext ▸ hr) hnew).imp (hlist r) (hes' _)

/-- Before the trip is loaded, nothing has been added. -/
theorem Kept.of_early (hh : History db₀ tripID es l) (hearly : ∀ e ∈ es, e.isEdit = false) :
    Kept db₀ tripID es l where
  added form uuid hmem := absurd (hearly _ hmem) (by simp [Event.isEdit])
  listed r hr hnew := by
    rcases hh.origin r hr with ⟨t, d, ht, hd, hid⟩ | ⟨form, hmem⟩
    · exact absurd hid (hnew.2 t d ht hd)
    · exact absurd (hearly _ hmem) (by simp [Event.isEdit])

theorem Kept.addAnnotation (h : Kept db₀ tripID es l) (form : EntryForm) (uuid : EntryID) :
    Kept db₀ tripID (es ++ [Event.addAnnotation form uuid])
      (EditTrip.addAnnotation form uuid l).1 := by
  have hid : ∀ r, (EditTrip.addAnnotation form uuid l).1.id r =
      if r = l.next then uuid else l.id r := by
    intro r
    simp only [EditTrip.addAnnotation, EditTrip.id, set, Function.update_apply]
    split <;> rfl
  refine ⟨fun form' uuid' hmem => ?_, fun r hr hnew => ?_⟩
  · rcases List.mem_append.mp hmem with hmem | hmem
    · obtain ⟨r, hr, hrid⟩ := h.added form' uuid' hmem
      refine ⟨r, Nat.lt_succ_of_lt hr, ?_⟩
      rw [hid, if_neg hr.ne, hrid]
    · obtain ⟨rfl, rfl⟩ : form' = form ∧ uuid' = uuid := by simpa using hmem
      exact ⟨l.next, Nat.lt_succ_self _, by rw [hid, if_pos rfl]⟩
  · change r ∈ l.entryList ++ [l.next] ∨ _
    by_cases hrn : r = l.next
    · simp [hrn]
    · rw [hid, if_neg hrn] at hnew
      have hlt : r < l.next := lt_of_le_of_ne (Nat.le_of_lt_succ hr) hrn
      exact (h.listed r hlt hnew).imp (List.mem_append_left _) (List.mem_append_left _)

theorem Kept.deleteAnnotation (hset : Setting tripID uid lower upper l)
    {A : Multiset Callback} (hed : Editing db₀ tripID l A) (h : Kept db₀ tripID es l) {r : ℕ}
    (hr : r ∈ l.annotations) :
    Kept db₀ tripID (es ++ [Event.deleteAnnotation r]) (EditTrip.deleteAnnotation r l) := by
  have hsame : (EditTrip.deleteAnnotation r l).next = l.next ∧
      (EditTrip.deleteAnnotation r l).heap = l.heap := by
    simp only [EditTrip.deleteAnnotation]
    split <;> exact ⟨rfl, rfl⟩
  obtain ⟨hnext, hheap⟩ := hsame
  refine ⟨fun form uuid hmem => ?_, fun r' hr' hnew => ?_⟩
  · obtain ⟨r', hr', hid⟩ := h.added form uuid (by simpa using hmem)
    exact ⟨r', hnext ▸ hr', by simpa only [EditTrip.id, hheap] using hid⟩
  · rw [hnext] at hr'
    simp only [EditTrip.id, hheap] at hnew
    by_cases hrr : r' = r
    · exact Or.inr (by simp [hrr])
    · refine (h.listed r' hr' hnew).imp (fun hmem => ?_) (List.mem_append_left _)
      simp only [EditTrip.deleteAnnotation]
      split
      · exact (hed.mem_eraseP hset (hset.annotations r hr)).mpr ⟨hmem, hrr⟩
      · exact hmem

/-- **One careful step loses nothing.** -/
theorem Kept.step (hp : Phase db₀ tripID uid lower upper x) (hh : History db₀ tripID es x.loc)
    (h : Kept db₀ tripID es x.loc) {m : Async.Move Callback TripID Event}
    (ha : possible x.loc x.store m) (hc : careful x.loc m) (hs : DirectStep program x m x') :
    Kept db₀ tripID (es ++ m.event?.toList) x'.loc := by
  have hh' := History.step hp hh (editing_of_careful ha hc) hs
  have hkeep : ∀ (e : Event) (l' : EditTrip), e.isEdit = false →
      (∀ r ∈ x.loc.entryList, r ∈ l'.entryList) → l'.next = x.loc.next →
      (∀ r, l'.id r = x.loc.id r) → Kept db₀ tripID (es ++ [e]) l' := by
    intro e l' he h₁ h₂ h₃
    refine h.keep h₁ h₂ h₃ (fun e' hmem => ?_) fun e' hmem => List.mem_append_left _ hmem
    rcases List.mem_append.mp hmem with hmem | hmem
    · exact Or.inl hmem
    · rw [List.mem_singleton.mp hmem]
      exact Or.inr he
  have hsame : ∀ (e : Event) (l' : EditTrip), e.isEdit = false →
      l'.entryList = x.loc.entryList → l'.next = x.loc.next → l'.heap = x.loc.heap →
      Kept db₀ tripID (es ++ [e]) l' := fun e l' he h₁ h₂ h₃ =>
    hkeep e l' he (fun r hr => h₁ ▸ hr) h₂ fun r => by simp only [EditTrip.id, h₃]
  cases hs with
  | @event e r he =>
    change event e x.loc x.store = some r at he
    change Kept db₀ tripID (es ++ [e]) r.1
    cases e with
    | viewDidLoad =>
      cases he
      exact hsame _ _ rfl rfl rfl rfl
    | viewWillAppear =>
      simp only [event] at he
      split at he
      · cases he
        exact hsame _ _ rfl rfl rfl rfl
      · split at he <;> cases he <;> exact hsame _ _ rfl rfl rfl rfl
    | addAnnotation form uuid =>
      cases he
      exact h.addAnnotation form uuid
    | editAnnotation r form =>
      simp only [event] at he
      split at he <;> cases he
      exact hkeep _ _ rfl (fun _ hr => hr) rfl (id_set rfl)
    | deleteAnnotation r =>
      simp only [event] at he
      split at he <;> cases he
      rename_i hg
      exact h.deleteAnnotation hp.setting (hp.of_editable (Or.inr hc)) hg.1
    | editOrderButtonPressed =>
      simp only [event] at he
      split at he <;> cases he
      exact hsame _ _ rfl rfl rfl rfl
    | moveRowAt source destination =>
      obtain ⟨rows, -, rfl⟩ := Option.map_eq_some_iff.mp he
      exact hsame _ _ rfl rfl rfl rfl
    | orderWillDisappear =>
      obtain ⟨rows, hrows, rfl⟩ := Option.map_eq_some_iff.mp he
      exact hkeep _ _ rfl (hc.2 rows hrows) rfl fun _ => rfl
    | editTripName name =>
      cases he
      exact hsame _ _ rfl rfl rfl rfl
    | selectTripCover image =>
      cases he
      exact hsame _ _ rfl rfl rfl rfl
    | saveButtonPressed => exact ha.elim
    | currentUserFetched =>
      simp only [event] at he
      split at he <;> cases he <;> exact hsame _ _ rfl rfl rfl rfl
  | @deliver k ok newTrip rest res hb hres =>
    change react k ok newTrip x.loc x.store = some res at hres
    change Kept db₀ tripID (es ++ []) res.1
    change History db₀ tripID (es ++ []) res.1 at hh'
    rw [List.append_nil] at hh' ⊢
    by_cases hk : k.inert = true
    · have hsim := (react_inert hk hres).1
      exact h.keep (fun r hr => by rwa [hsim.entryList]) hsim.next hsim.id (fun e he => Or.inl he)
        fun e he => he
    · have hmem : k ∈ active x.bag :=
        Multiset.mem_filter.mpr ⟨hb ▸ Multiset.mem_cons_self _ _, by simpa using hk⟩
      refine .of_early hh' (hh.early fun he => ?_)
      rw [(hp.of_editable he).bag] at hmem
      exact Multiset.notMem_zero _ hmem

/-- What is on a loaded screen. -/
theorem Kept.mem_ids (hp : Phase db₀ (some t) uid lower upper x)
    (hh : History db₀ (some t) es x.loc) (h : Kept db₀ (some t) es x.loc) (he : x.loc.Editable)
    {d₀ : TripDoc} (hd₀ : db₀.trips.lookup t = some d₀) (id : EntryID) :
    id ∈ x.loc.ids ↔
      (id ∈ d₀.entries ∨ ∃ form, Event.addAnnotation form id ∈ es) ∧
        ¬ ∃ r, Event.deleteAnnotation r ∈ es ∧ x.loc.id r = id := by
  have hed := hp.of_editable he
  constructor
  · intro hid
    obtain ⟨r, hr, rfl⟩ := List.mem_map.mp hid
    have hlt := hed.bound r (Or.inl hr)
    refine ⟨?_, ?_⟩
    · rcases hh.origin r hlt with ⟨t', d, ht, hd, hid⟩ | hadd
      · cases ht
        rw [hd₀] at hd
        exact Or.inl (Option.some.inj hd ▸ hid)
      · exact Or.inr hadd
    · rintro ⟨r', hr', hid'⟩
      obtain ⟨hlt', hnot⟩ := hh.deleted r' hr'
      exact hnot (hp.setting.inj r' hlt' r hlt hid' ▸ hr)
  · rintro ⟨hsrc, hdel⟩
    have hsome : ∃ r < x.loc.next, x.loc.id r = id := by
      rcases hsrc with hsrc | ⟨form, hform⟩
      · exact hed.orig t d₀ rfl hd₀ id hsrc
      · exact h.added form id hform
    obtain ⟨r, hlt, rfl⟩ := hsome
    rcases hed.covered r hlt with hr | hr | hnew
    · exact List.mem_map_of_mem hr
    · exact absurd ⟨r, hh.listed r hr, rfl⟩ hdel
    · rcases h.listed r hlt hnew with hr | hr
      · exact List.mem_map_of_mem hr
      · exact absurd ⟨r, hr, rfl⟩ hdel

/-- **A careful user loses nothing.** The screen of a trip is edited and saved when all of the
trip is loaded. Then the trip lists the entries that it listed and those that were added, except
those that were deleted. -/
theorem save_keeps {currentUser : User} {bucket : Bucket} {now : Timestamp}
    {edits : List (Label TripID Event)} {st₀ st₁ st₂ : State Firestore EditTrip Write Callback}
    {d₀ : TripDoc} (htrip : db₀.trips.lookup t = some d₀) (hnd : d₀.entries.Nodup)
    (huser : db₀.users.lookup currentUser.uid ≠ none)
    (hedit : Trace program (fun l db m => possible l db m ∧ careful l m)
      (start db₀ (EditTrip.opened currentUser (some t) bucket now)) edits st₀)
    (hloaded : st₀.loc.Loaded) (hfields : st₀.loc.emptyField = false)
    (hpress : program.step (.event .saveButtonPressed) st₀ = some st₁)
    (hrun : Reaches program settling st₁ st₂) (hq : Quiescent st₂) :
    ∃ d, st₂.store.trips.lookup t = some d ∧ ∀ id, id ∈ d.entries ↔
      (id ∈ d₀.entries ∨ ∃ form, Event.addAnnotation form id ∈ events edits) ∧
        ¬ ∃ r, Event.deleteAnnotation r ∈ events edits ∧ st₀.loc.id r = id := by
  have hall : ∀ feeds, Between ∅ Set.univ feeds := fun _ => ⟨by simp, by simp⟩
  have hnd' : ∀ t' d, some t = some t' → db₀.trips.lookup t' = some d → d.entries.Nodup := by
    rintro _ d ⟨⟩ hd
    rw [htrip] at hd
    exact Option.some.inj hd ▸ hnd
  have hinv := hedit.invariant (I := fun es x =>
    Phase db₀ (some t) currentUser.uid ∅ Set.univ x ∧ History db₀ (some t) es x.loc ∧
      Kept db₀ (some t) es x.loc)
    (fun es x m x' ⟨hp, hh, hk⟩ ⟨ha, hc⟩ hs =>
      ⟨hp.step hnd' (fun _ _ => hall _) (editing_of_careful ha hc) hs,
        History.step hp hh (editing_of_careful ha hc) hs, Kept.step hp hh hk ha hc hs⟩) []
    ⟨Phase.opened bucket now (hall _), History.opened db₀ (some t) currentUser bucket now,
      .of_early (History.opened db₀ (some t) currentUser bucket now) (by simp)⟩
  rw [List.nil_append] at hinv
  obtain ⟨hp, hh, hk⟩ := hinv
  obtain ⟨userData, hdata⟩ := Option.ne_none_iff_exists'.mp huser
  obtain ⟨t', htarget, hs⟩ :=
    hp.saved (Or.inr hloaded) ⟨userData, hdata, hall _⟩ hfields hpress hrun hq
  obtain rfl : t = t' := by simpa using htarget
  obtain ⟨d, hd, hids⟩ := hs.listed
  refine ⟨d, hd, fun id => ?_⟩
  rw [hids]
  exact hk.mem_ids hp hh (Or.inr hloaded) htrip id

end

/-! ## Two runs -/

def tripEntry : EntryDoc := { sampleEntryDoc "a" with mediaList := [⟨"image"⟩] }

/-- A trip with one entry. -/
def tripStore : Firestore where
  users := sampleDatabase.users.modify "ann" fun d => { d with trips := ["t"] }
  trips := (∅ : Collection TripID TripDoc).insert "t"
    { tripName := "trip", coverPhoto := some ⟨"cover"⟩, userID := "ann", timestamp := 1,
      entries := ["a"] }
  entries := (∅ : Collection EntryID EntryDoc).insert "a" tripEntry
  newsfeed := ∅

def tripScreen : State Firestore EditTrip Write Callback :=
  start tripStore (EditTrip.opened { sampleUser with trips := ["t"] } (some "t")
    (((∅ : Bucket).insert "cover" "cover").insert "image" "image") 2)

/-- The trip and its entry arrive, and an entry is added. -/
def sampleCarefulEdits : List (Label TripID Event) :=
  [.event .viewDidLoad, .event .viewWillAppear, .deliver 1 true "", .deliver 1 true "",
    .deliver 1 false "", .deliver 0 false "", .deliver 0 true "", .event (.selectTripCover none),
    .event (Event.addAnnotation (sampleForm "c") "c")]

def sampleCarefulAnswers : List (Label TripID Event) :=
  [.apply, .apply, .apply, .deliver 4 true "", .deliver 3 true "", .apply, .apply,
    .deliver 4 true "", .deliver 3 true "", .deliver 2 true "", .deliver 2 true "", .apply,
    .apply, .apply, .deliver 2 true "", .deliver 1 true "", .deliver 1 true "", .apply, .apply,
    .apply, .deliver 1 true "", .deliver 1 true "", .apply, .deliver 1 true "", .apply, .apply,
    .deliver 2 true "", .deliver 1 true "", .apply, .apply, .deliver 2 true "",
    .deliver 1 true "", .deliver 0 true ""]
def sampleCareful : Option (State Firestore EditTrip Write Callback) :=
  exec program (fun l db m => possible l db m ∧ careful l m) sampleCarefulEdits tripScreen

def sampleCarefulSaved : Option (State Firestore EditTrip Write Callback) :=
  (sampleCareful.bind (program.step (.event .saveButtonPressed))).bind
    (exec program settling sampleCarefulAnswers)

/-- A run of `save_keeps`: the trip lists both entries. -/
theorem save_keeps_sample : ∃ st₂ ∈ sampleCarefulSaved, ∃ d,
    st₂.store.trips.lookup "t" = some d ∧ "a" ∈ d.entries ∧ "c" ∈ d.entries := by
  obtain ⟨st₂, h₂⟩ := Option.isSome_iff_exists.mp (by decide +kernel : sampleCarefulSaved.isSome)
  obtain ⟨st₁, h₁, hrun⟩ := Option.bind_eq_some_iff.mp h₂
  obtain ⟨st₀, h₀, hpress⟩ := Option.bind_eq_some_iff.mp h₁
  have hst₀ : ∀ st ∈ sampleCareful, st.loc.Loaded ∧ st.loc.emptyField = false := by
    decide +kernel
  have hq : ∀ st ∈ sampleCarefulSaved, Quiescent st := by decide +kernel
  obtain ⟨hloaded, hfields⟩ := hst₀ st₀ h₀
  obtain ⟨d, hd, hids⟩ := save_keeps (AList.lookup_insert _) (by decide) (by decide +kernel)
    (trace_of_exec h₀) hloaded hfields hpress ⟨_, trace_of_exec hrun⟩ (hq st₂ h₂)
  have hdel : ∀ r, Event.deleteAnnotation r ∉ events sampleCarefulEdits := by
    simp [events, sampleCarefulEdits]
  refine ⟨st₂, h₂, d, hd, (hids "a").mpr ⟨Or.inl (by decide), fun ⟨r, hr, _⟩ => hdel r hr⟩,
    (hids "c").mpr ⟨Or.inr ⟨sampleForm "c", ?_⟩, fun ⟨r, hr, _⟩ => hdel r hr⟩⟩
  simp [events, sampleCarefulEdits]

/-- An entry is added and the trip is saved before its entry has arrived. -/
def sampleCarelessEdits : List (Label TripID Event) :=
  [.event .viewDidLoad, .event .viewWillAppear, .deliver 0 true "", .deliver 0 true "",
    .event (Event.addAnnotation (sampleForm "c") "c"), .event (.selectTripCover none)]

def sampleCarelessAnswers : List (Label TripID Event) :=
  [.apply, .apply, .deliver 4 true "", .apply, .deliver 4 true "", .deliver 3 true "",
    .deliver 3 true "", .apply, .apply, .apply, .deliver 3 true "", .deliver 3 true "", .apply,
    .deliver 3 true "", .apply, .deliver 3 true "", .apply, .deliver 3 true "",
    .deliver 2 true "", .deliver 1 true "", .deliver 2 true "", .deliver 1 true "",
    .deliver 0 true ""]

def sampleCareless : Option (State Firestore EditTrip Write Callback) :=
  exec program possible sampleCarelessEdits tripScreen

def sampleCarelessSaved : Option (State Firestore EditTrip Write Callback) :=
  (sampleCareless.bind (program.step (.event .saveButtonPressed))).bind
    (exec program settling sampleCarelessAnswers)

/-- A save that loses an entry: nothing is deleted on the screen, and the trip no longer lists
what it listed. -/
theorem save_loses : (∃ d₀, tripStore.trips.lookup "t" = some d₀ ∧ "a" ∈ d₀.entries) ∧
    (∀ r, Event.deleteAnnotation r ∉ events sampleCarelessEdits) ∧
    ∃ st₀ st₁ st₂, Trace program possible tripScreen sampleCarelessEdits st₀ ∧
      program.step (.event .saveButtonPressed) st₀ = some st₁ ∧
      Reaches program settling st₁ st₂ ∧ Quiescent st₂ ∧
      ∃ d, st₂.store.trips.lookup "t" = some d ∧ "a" ∉ d.entries := by
  refine ⟨⟨_, AList.lookup_insert _, by decide⟩, by simp [events, sampleCarelessEdits], ?_⟩
  obtain ⟨st₂, h₂⟩ := Option.isSome_iff_exists.mp (by decide +kernel : sampleCarelessSaved.isSome)
  obtain ⟨st₁, h₁, hrun⟩ := Option.bind_eq_some_iff.mp h₂
  obtain ⟨st₀, h₀, hpress⟩ := Option.bind_eq_some_iff.mp h₁
  have hend : ∀ st ∈ sampleCarelessSaved, Quiescent st ∧
      (st.store.trips.lookup "t").map TripDoc.entries = some ["c"] := by decide +kernel
  obtain ⟨hq, hids⟩ := hend st₂ h₂
  obtain ⟨d, hd, hids⟩ := Option.map_eq_some_iff.mp hids
  exact ⟨st₀, st₁, st₂, trace_of_exec h₀, hpress, ⟨_, trace_of_exec hrun⟩, hq, d, hd,
    by simp [hids]⟩

end EditTrip

end Wanderlust
