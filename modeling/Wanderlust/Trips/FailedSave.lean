import Wanderlust.Trips.SaveBarrier
import Wanderlust.Trips.SavedTrip

/-!
# A save that fails

What a save leaves behind when some of its uploads and `setData` writes fail, at every point of it.
The trip lists the entries on the screen as soon as the early pass of the save has been written,
before they are there; the list that it has then must name entries that there are and that are not
deleted (`ListsWritten`). This is also enough: the trip is written again only when every entry of
the press has been written (`Sound.step`), so that it never names an entry that is missing
(`none_dangling`).
-/

namespace Wanderlust

open Async Runs

namespace EditTrip

/-- Every entry that the trip lists is there. -/
def NoneDangling (t : TripID) (db : Firestore) : Prop :=
  ∀ d, db.trips.lookup t = some d → ∀ id ∈ d.entries, id ∈ db.entries

/-- The writes that are made by `setData`. -/
def setsData : Write → Prop
  | .setEntry _ _ => True
  | .setFeed _ _ _ => True
  | _ => False

instance : DecidablePred setsData := fun w =>
  match w with
  | .setEntry _ _ => isTrue trivial
  | .setFeed _ _ _ => isTrue trivial
  | .setUser _ _ => isFalse fun h => h
  | .updateUser _ _ => isFalse fun h => h
  | .addTrip _ _ => isFalse fun h => h
  | .updateTrip _ _ => isFalse fun h => h
  | .deleteTrip _ => isFalse fun h => h
  | .updateEntry _ _ => isFalse fun h => h
  | .deleteEntry _ => isFalse fun h => h
  | .deleteFeed _ _ => isFalse fun h => h

/-- The listener of the tab bar refreshes `currentUser`. -/
def Event.refreshes : Event → Bool
  | .currentUserFetched => true
  | _ => false

/-- How a save turns out: its answers are successes or failures, in any order, and its writes take
effect, or are rejected if they are made by `setData`. -/
def TurnsOut (st : State Firestore EditTrip Write Callback) : Label TripID Event → Prop
  | .event e => e.refreshes = true
  | .apply => True
  | .reject => ∀ x ∈ st.queue.head?, setsData x.1
  | .deliver _ _ _ => True

instance (st : State Firestore EditTrip Write Callback) : DecidablePred (TurnsOut st)
  | .event e => inferInstanceAs (Decidable (e.refreshes = true))
  | .apply => isTrue trivial
  | .reject => inferInstanceAs (Decidable (∀ x ∈ st.queue.head?, setsData x.1))
  | .deliver _ _ _ => isTrue trivial

/-- The entries that the trip lists when the first writes of a press have taken effect. -/
def listedFirst (t : TripID) (l : EditTrip) (db : Firestore) : List EntryID :=
  if l.UpdatesTripInfo then l.ids else ((db.trips.lookup t).map TripDoc.entries).getD []

/-- A press saves nothing, or the entries that the trip lists first are there, and none of them is
to be deleted. -/
def ListsWritten (t : TripID) (l : EditTrip) (db : Firestore) : Prop :=
  l.emptyField = true ∨ ∀ id ∈ listedFirst t l db, id ∈ db.entries ∧ id ∉ l.deletedIds

/-! ## Writes -/

/-- The writes that change no list of entries, and delete no entry of `K`. -/
inductive Sparing (K : Set EntryID) : Write → Prop
  | completing {w : Write} (h : Completing w) : Sparing K w
  | setEntry (id : EntryID) (doc : EntryDoc) : Sparing K (.setEntry id doc)
  | setFeed (u : Uid) (id : EntryID) (doc : FeedDoc) : Sparing K (.setFeed u id doc)
  | deleteFeed (u : Uid) (id : EntryID) : Sparing K (.deleteFeed u id)
  | deleteEntry (id : EntryID) (h : id ∉ K) : Sparing K (.deleteEntry id)

section

variable {t : TripID} {K : Set EntryID} {id : EntryID} {w : Write} {db : Firestore} {d : TripDoc}
  {l l₀ : EditTrip} {k : Callback} {ok : Bool} {a : TripID} {r : EditTrip × List Cmd}

theorem mem_entries_apply (h : w ≠ .deleteEntry id) (hid : id ∈ db.entries) :
    id ∈ (w.apply db).entries := by
  cases w with
  | setEntry id' doc => exact (AList.mem_insert _).mpr (Or.inr hid)
  | updateEntry id' f => exact Collection.mem_modify.mpr hid
  | deleteEntry id' =>
    refine AList.mem_erase.mpr ⟨?_, hid⟩
    rintro rfl
    exact h rfl
  | _ => exact hid

theorem Sparing.mono {K' : Set EntryID} (h : Sparing K w) (hK : K' ⊆ K) : Sparing K' w := by
  cases h with
  | completing h => exact .completing h
  | setEntry id doc => exact .setEntry id doc
  | setFeed u id doc => exact .setFeed u id doc
  | deleteFeed u id => exact .deleteFeed u id
  | deleteEntry id h => exact .deleteEntry id fun hid => h (hK hid)

theorem Sparing.mem (h : Sparing K w) (hK : id ∈ K) (hid : id ∈ db.entries) :
    id ∈ (w.apply db).entries := by
  refine mem_entries_apply ?_ hid
  rintro rfl
  cases h with
  | completing h => cases h
  | deleteEntry _ h => exact h hK

theorem Completing.lists (h : Completing w) (hd : (w.apply db).trips.lookup t = some d) :
    ∃ d', db.trips.lookup t = some d' ∧ d'.entries = d.entries := by
  cases h with
  | cover t' url =>
    simp only [Write.apply, Collection.lookup_modify_eq] at hd
    split at hd
    · rename_i htt
      subst htt
      obtain ⟨d', hd', rfl⟩ := Option.map_eq_some_iff.mp hd
      exact ⟨d', hd', rfl⟩
    · exact ⟨d, hd, rfl⟩
  | tripID id' t' => exact ⟨d, hd, rfl⟩
  | order id' i => exact ⟨d, hd, rfl⟩

theorem Sparing.lists (h : Sparing K w) (hd : (w.apply db).trips.lookup t = some d) :
    ∃ d', db.trips.lookup t = some d' ∧ d'.entries = d.entries := by
  cases h with
  | completing h => exact h.lists hd
  | _ => exact ⟨d, hd, rfl⟩

theorem Sparing.keeps_list (h : Sparing K w) (hd : db.trips.lookup t = some d) :
    ∃ d', (w.apply db).trips.lookup t = some d' ∧ d'.entries = d.entries := by
  cases h with
  | completing h =>
    cases h with
    | cover t' url =>
      simp only [Write.apply, Collection.lookup_modify_eq]
      split
      · rename_i htt
        rw [← htt, hd]
        exact ⟨_, rfl, rfl⟩
      · exact ⟨d, hd, rfl⟩
    | tripID id' t' => exact ⟨d, hd, rfl⟩
    | order id' i => exact ⟨d, hd, rfl⟩
  | _ => exact ⟨d, hd, rfl⟩

/-- Nothing is deleted, and no list is changed. -/
theorem NoneDangling.sparing (h : NoneDangling t db) (hw : Sparing Set.univ w) :
    NoneDangling t (w.apply db) := by
  intro d hd id hid
  obtain ⟨d', hd', hentries⟩ := hw.lists hd
  exact hw.mem (Set.mem_univ id) (h d' hd' id (hentries ▸ hid))

/-- The trip lists entries that there are. -/
theorem NoneDangling.entries (h : NoneDangling t db) {t' : TripID} {name : String}
    {ids : List EntryID} (hids : ∀ id ∈ ids, id ∈ db.entries) :
    NoneDangling t ((Write.updateTrip t' fun d =>
      { d with tripName := name, entries := ids }).apply db) := by
  intro d hd id hid
  simp only [Write.apply, Collection.lookup_modify_eq] at hd
  split at hd
  · obtain ⟨d', -, rfl⟩ := Option.map_eq_some_iff.mp hd
    exact hids id hid
  · exact h d hd id hid

/-- The entries that the trip lists are there, and in `K`. -/
def Within (t : TripID) (K : Set EntryID) (db : Firestore) : Prop :=
  ∀ d, db.trips.lookup t = some d → ∀ id ∈ d.entries, id ∈ K ∧ id ∈ db.entries

theorem Within.noneDangling (h : Within t K db) : NoneDangling t db :=
  fun d hd id hid => (h d hd id hid).2

theorem Within.sparing (h : Within t K db) (hw : Sparing K w) : Within t K (w.apply db) := by
  intro d hd id hid
  obtain ⟨d', hd', hentries⟩ := hw.lists hd
  obtain ⟨hK, hthere⟩ := h d' hd' id (hentries ▸ hid)
  exact ⟨hK, hw.mem hK hthere⟩

/-! ## Code -/

theorem sparing_addToFirebase (press s : ℕ) :
    Issuing (Sparing Set.univ) (addToFirebase press s) := by
  refine fun l _ => ⟨trivial, fun c hc => ?_⟩
  rcases List.mem_cons.mp hc with rfl | hc
  · exact .setEntry _ _
  · obtain ⟨u, _, rfl⟩ := List.mem_map.mp hc
    exact .setFeed _ _ _

theorem sparing_addEntryToFirestore (press s : ℕ) :
    Issuing (Sparing Set.univ) (addEntryToFirestore press s) := by
  refine fun l _ => ⟨trivial, fun c hc => ?_⟩
  simp only [addEntryToFirestore] at hc
  split at hc
  · exact (sparing_addToFirebase press s l trivial).2 c hc
  · obtain ⟨i, data, -, -, rfl⟩ := mem_imageUploads hc
    trivial

/-- On the screen of a trip, the only code for an answer that changes the list of a trip is that
which is given the user document. -/
theorem sparing_react (h : react k ok a l db = some r) (ht : l.tripID ≠ none) :
    (∀ c ∈ r.2, c.Writes (Sparing Set.univ)) ∨
      ∃ p ids t, k = .userFetched p ids ∧ r = updateTrip ids t l := by
  by_cases hk : ∃ c p s path, k = .imageURL c p s path
  · obtain ⟨c, p, s, path, rfl⟩ := hk
    left
    simp only [react] at h
    split at h <;> cases h
    split
    · exact (sparing_addToFirebase p s _ trivial).2
    · simp
  · rcases completing_react h fun c p s path he => hk ⟨c, p, s, path, he⟩ with
      hw | ⟨p, ids, t, rfl, -, rfl⟩ | ⟨-, -, -, -, -, -, hnone, -⟩
    · exact Or.inl fun c hc => (hw c hc).mono fun _ => .completing
    · exact Or.inr ⟨p, ids, t, rfl, rfl⟩
    · exact absurd hnone ht

/-- If the command waits for an entry of a press, it is the write of that entry. -/
def Tied (l : EditTrip) (c : Cmd) : Prop :=
  ∀ p s, c.callback = some (.entryWritten p s) →
    ∃ doc, c = .write (.setEntry (l.id s) doc) (some (.entryWritten p s))

theorem tied_of_callbacks {cs : List Cmd} (h : ∀ k ∈ callbacks cs, ∀ p s, k ≠ .entryWritten p s)
    (l : EditTrip) : ∀ c ∈ cs, Tied l c := by
  intro c hc p s hcs
  exact absurd rfl (h _ (mem_callbacks.mpr ⟨c, hc, hcs⟩) p s)

theorem tied_addToFirebase (p s : ℕ) (l : EditTrip) : ∀ c ∈ (addToFirebase p s l).2, Tied l c := by
  intro c hc p' s' hcs
  rcases List.mem_cons.mp hc with rfl | hc
  · cases hcs
    exact ⟨_, rfl⟩
  · obtain ⟨u, -, rfl⟩ := List.mem_map.mp hc
    cases hcs

theorem tied_addEntryToFirestore (p s : ℕ) (l : EditTrip) :
    ∀ c ∈ (addEntryToFirestore p s l).2, Tied l c := by
  intro c hc p' s' hcs
  simp only [addEntryToFirestore] at hc
  split at hc
  · exact tied_addToFirebase p s l c hc p' s' hcs
  · obtain ⟨i, data, -, -, rfl⟩ := mem_imageUploads hc
    cases hcs

theorem tied_react (h : react k ok a l db = some r) : ∀ c ∈ r.2, Tied l c := by
  by_cases hk : ∃ c p s path, k = .imageURL c p s path
  · obtain ⟨c, p, s, path, rfl⟩ := hk
    simp only [react] at h
    split at h <;> cases h
    intro c' hc' p' s' hcs
    split at hc'
    · obtain ⟨doc, rfl⟩ := tied_addToFirebase p s _ c' hc' p' s' hcs
      refine ⟨doc, ?_⟩
      by_cases hs : s' = s
      · subst hs
        simp [EditTrip.id, EditTrip.count]
      · have hid : ((l.set s { l.heap s with imageUrls := (l.heap s).imageUrls ++ [⟨path⟩] }).count
            c).id s' = l.id s' := congrArg CustomAnnotation.entryID (heap_set_ne hs l _)
        rw [hid]
    · cases hc'
  · refine tied_of_callbacks (fun k' hk' p s he => ?_) l
    subst he
    cases leads_react h _ hk' with
    | imageURL c p s path => exact hk ⟨c, p, s, path, rfl⟩

end

/-! ## After the press -/

/-- The answers that a save waits for, and a refresh of the user document. -/
def answers : Async.Move Callback TripID Event → Prop
  | .event e => e.refreshes = true
  | .deliver _ _ _ => True

/-- The screen `l₀` has been saved by a press, and nothing else is done. -/
structure Fixed (l₀ : EditTrip) (press : ℕ) (x : Direct Firestore EditTrip Callback) : Prop where
  entryList : x.loc.entryList = l₀.entryList
  content : ∀ s, (x.loc.heap s).content = (l₀.heap s).content
  tripID : x.loc.tripID ≠ none
  loads : ∀ k ∈ x.bag, k.loads = false
  ofPress : ∀ k ∈ x.bag, ∀ p, k.ofPress = some p → p = press
  fetched : ∀ p ids, .userFetched p ids ∈ x.bag → ids = l₀.ids

/-- The entries of the press that have been counted are `done`, and the trip is not written yet. -/
structure Counting (l₀ : EditTrip) (press : ℕ) (done : Multiset ℕ)
    (x : Direct Firestore EditTrip Callback) : Prop where
  tally : ∃ role opened rest, Wired (fun p => {s | p = press ∧ s ∈ l₀.entryList}) role x ∧
    Tally role press ↑l₀.entryList opened done rest x
  unfetched : ∀ k ∈ x.bag, k.awaitsUser = false

/-- The entry is there, and stays there. -/
abbrev Lasting (id : EntryID) (st : State Firestore EditTrip Write Callback) : Prop :=
  Throughout Write.apply setsData (fun db => id ∈ db.entries) (st.queue.map Prod.fst) st.store

/-- The entries that are counted or whose writing has been answered are there. -/
structure Acknowledged (l₀ : EditTrip) (press : ℕ) (done : Multiset ℕ)
    (st : State Firestore EditTrip Write Callback) : Prop where
  done : ∀ s ∈ done, Lasting (l₀.id s) st
  ready : ∀ x ∈ st.ready, ∀ s, x.1 = .entryWritten press s →
    ∃ ok, x.2 = some ok ∧ (ok = true → Lasting (l₀.id s) st)
  queue : ∀ x ∈ st.queue, ∀ s, x.2 = some (.entryWritten press s) →
    ∃ doc, x.1 = .setEntry (l₀.id s) doc
  order : st.queue.Pairwise fun x y => setsData x.1 → ∀ id, y.1 ≠ .deleteEntry id

/-- **What is kept**: however the writes turn out that are on their way, the trip lists entries that
there are; and the trip is not written again before the entries of the press are there. -/
structure Sound (t : TripID) (l₀ : EditTrip) (press : ℕ)
    (st : State Firestore EditTrip Write Callback) : Prop where
  fixed : Fixed l₀ press (program.direct st)
  dangling : Throughout Write.apply setsData (NoneDangling t) (st.queue.map Prod.fst) st.store
  stage : (∀ k ∈ (program.direct st).bag, k.saves = false) ∨ (∀ id ∈ l₀.ids, Lasting id st) ∨
    ∃ done, Counting l₀ press done (program.direct st) ∧ Acknowledged l₀ press done st

section

variable {t : TripID} {l₀ : EditTrip} {press : ℕ} {done : Multiset ℕ}
  {x x' : Direct Firestore EditTrip Callback} {m : Async.Move Callback TripID Event}
  {st st' : State Firestore EditTrip Write Callback} {lbl : Label TripID Event}

theorem firing_isSome {k : Callback} {ok : Bool} {a : TripID} {l : EditTrip}
    (h : (firing l (.deliver k ok a)).isSome) :
    ∃ p s, k = .entryWritten p s ∧ ok = true ∧ l.counts p + 1 = l.entryList.length := by
  cases k <;> try cases h
  rename_i p s
  cases ok <;> simp only [firing] at h
  · cases h
  · split at h
    · rename_i hlen
      exact ⟨p, s, rfl, rfl, hlen⟩
    · cases h

theorem Fixed.id (h : Fixed l₀ press x) (s : ℕ) : x.loc.id s = l₀.id s :=
  CustomAnnotation.entryID_eq_of_content (h.content s)

theorem Fixed.ids (h : Fixed l₀ press x) : x.loc.ids = l₀.ids := by
  simp only [EditTrip.ids, h.entryList]
  exact List.map_congr_left fun s _ => h.id s

theorem Fixed.images (h : Fixed l₀ press x) (s : ℕ) :
    (x.loc.heap s).images = (l₀.heap s).images :=
  CustomAnnotation.images_eq_of_content (h.content s)

theorem Fixed.step (h : Fixed l₀ press x) (hs : DirectStep program x m x') (hm : answers m) :
    Fixed l₀ press x' := by
  cases hs with
  | @event e r he =>
    cases e <;> try cases hm
    simp only [program, event] at he
    split at he <;> cases he <;>
      exact ⟨h.entryList, h.content, h.tripID, by simpa [Program.after] using h.loads,
        by simpa [Program.after] using h.ofPress, by simpa [Program.after] using h.fetched⟩
  | @deliver k ok a rest r hb hr =>
    have hmem : k ∈ x.bag := hb ▸ Multiset.mem_cons_self _ _
    have hold : ∀ k' ∈ rest, k' ∈ x.bag := fun k' hk' => hb ▸ Multiset.mem_cons_of_mem hk'
    have hst := stays_react hr (h.loads k hmem)
    refine ⟨hst.entryList.trans h.entryList, fun s => (hst.content s).trans (h.content s), ?_,
      fun k' hk' => ?_, fun k' hk' p hp => ?_, fun p ids hk' => ?_⟩
    · rcases tripID_react hr with ht | ⟨c, n, t, -, ht⟩
      · exact ht ▸ h.tripID
      · simp [Program.after, ht]
    · rcases Multiset.mem_add.mp hk' with hk' | hk'
      · exact h.loads k' (hold k' hk')
      · exact not_loads_react hr (h.loads k hmem) k' hk'
    · rcases Multiset.mem_add.mp hk' with hk' | hk'
      · exact h.ofPress k' (hold k' hk') p hp
      · cases leads_react hr k' hk' <;> cases hp <;> exact h.ofPress _ hmem p rfl
    · rcases Multiset.mem_add.mp hk' with hk' | hk'
      · exact h.fetched p ids (hold _ hk')
      · cases leads_react hr _ hk'
        exact h.ids

theorem Fixed.store (h : Fixed l₀ press x) (s : Firestore) : Fixed l₀ press { x with store := s } :=
  ⟨h.entryList, h.content, h.tripID, h.loads, h.ofPress, h.fetched⟩

theorem presses_of_answers {e : Event} (h : answers (.event e)) : e.presses = false := by
  cases e <;> first | rfl | cases h

/-- When nothing is saved, nothing is saved afterwards. -/
theorem not_saves_step (hs : DirectStep program x m x') (hm : answers m)
    (h : ∀ k ∈ x.bag, k.saves = false) : ∀ k ∈ x'.bag, k.saves = false := by
  cases hs with
  | event he =>
    intro k hk
    exact (Multiset.mem_add.mp hk).elim (h k) (not_saves_event he (presses_of_answers hm) k)
  | deliver hb hr =>
    intro k hk
    rcases Multiset.mem_add.mp hk with hk | hk
    · exact h k (hb ▸ Multiset.mem_cons_of_mem hk)
    · exact not_saves_react hr (h _ (hb ▸ Multiset.mem_cons_self _ _)) k hk

/-- **One answer**: the trip is not written, or all entries of the press have been counted. -/
theorem Counting.step (hf : Fixed l₀ press x) (h : Counting l₀ press done x)
    (hs : DirectStep program x m x') (hm : answers m) :
    Counting l₀ press ((completes press m).elim done (· ::ₘ done)) x' ∨
      (completes press m).elim done (· ::ₘ done) = ↑l₀.entryList := by
  obtain ⟨⟨role, opened, rest, hw, ht⟩, hun⟩ := h
  have hf' := hf.step hs hm
  obtain ⟨hnext, role', hr', hw'⟩ := hw.step hs fun s p _ =>
    (hf'.images s).trans (hf.images s).symm
  cases hs with
  | @event e r he =>
    left
    have hp := presses_of_answers hm
    obtain ⟨opened', ht', -⟩ := ht.event he hnext hr'
    refine ⟨⟨role', opened', rest, hw', ht'⟩, fun k hk => ?_⟩
    rcases Multiset.mem_add.mp hk with hk | hk
    · exact hun k hk
    · exact Callback.awaitsUser_of_not_saves (not_saves_event he hp k hk)
  | @deliver k ok a bag r hb hr =>
    obtain ⟨done', rest', hcounts, opened', ht', -⟩ :=
      ht.deliver hw (fun s hs => ⟨rfl, hs⟩) hb hr hnext hr'
    have hdone : (completes press (.deliver k ok a)).elim done (· ::ₘ done) = done' := by
      rcases hcounts with ⟨hne, rfl, -⟩ | ⟨s, rfl, ⟨rfl, rfl, -⟩ | ⟨rfl, rfl, -⟩⟩
      · have hno : completes press (.deliver k ok a) = none := by
          cases k <;> try rfl
          rename_i p s
          have hps : p ≠ press := fun hps => hne s (by rw [hps])
          cases ok <;> simp [completes, hps]
        rw [hno]
        rfl
      · simp [completes]
      · rfl
    rw [hdone]
    by_cases hfire : (firing x.loc (.deliver k ok a)).isSome
    · right
      obtain ⟨p', s, rfl, rfl, hlen⟩ := firing_isSome hfire
      have hmem : Callback.entryWritten p' s ∈ x.bag := hb ▸ Multiset.mem_cons_self _ _
      obtain rfl := hf.ofPress _ hmem p' rfl
      have hcount := ht'.count
      rw [← hdone] at hcount ⊢
      simp only [completes, if_true, Option.elim_some, Multiset.card_cons, ← ht.count,
        hlen, hf.entryList] at hcount ⊢
      rw [← hdone] at ht'
      simp only [completes, if_true, Option.elim_some] at ht'
      exact (ht'.full (by rw [hcount, Multiset.coe_card])).1
    · left
      refine ⟨⟨role', opened', rest', hw', ht'⟩, fun k' hk' => ?_⟩
      rcases Multiset.mem_add.mp hk' with hk' | hk'
      · exact hun k' (hb ▸ Multiset.mem_cons_of_mem hk')
      · have hzero := fetches_react hr
        rw [if_neg hfire, Multiset.countP_eq_zero] at hzero
        simpa using hzero k' hk'

/-! ### The queue -/

theorem answers_of_turnsOut (h : TurnsOut st lbl) (hm : st.move lbl = some m) : answers m := by
  cases lbl with
  | event e =>
    cases hm
    exact h
  | apply => cases hm
  | reject => cases hm
  | deliver i ok a =>
    obtain ⟨x, -, rfl⟩ := Option.map_eq_some_iff.mp hm
    trivial

/-- What the code of a step issues: no entry is deleted, and no list is changed before the user
document has been fetched. -/
theorem Fixed.code (hf : Fixed l₀ press (program.direct st)) (h : TurnsOut st lbl)
    {r : EditTrip × List Cmd} (hr : program.Runs st lbl r) :
    (∀ c ∈ r.2, Tied l₀ c) ∧ ((∀ c ∈ r.2, c.Writes (Sparing Set.univ)) ∨
      ∃ p t', .userFetched p l₀.ids ∈ (program.direct st).bag ∧
        r = updateTrip l₀.ids t' st.loc) := by
  cases hr with
  | @event e r he =>
    cases e <;> try cases h
    simp only [program, event] at he
    split at he <;> cases he <;> simp
  | @deliver i ok a k o r hi ho hr =>
    have hmem : k ∈ (program.direct st).bag := mem_bag_of_ready (List.mem_of_getElem? hi)
    refine ⟨fun c hc p s hcs => ?_, ?_⟩
    · obtain ⟨doc, rfl⟩ := tied_react hr c hc p s hcs
      exact ⟨doc, by rw [← hf.id s]; rfl⟩
    · rcases sparing_react hr hf.tripID with hw | ⟨p, ids, t', rfl, rfl⟩
      · exact Or.inl hw
      · obtain rfl := hf.fetched p ids hmem
        exact Or.inr ⟨p, t', hmem, rfl⟩

/-- An entry is counted when the success of its writing is delivered. -/
theorem ready_of_completes {s : ℕ} (hs : program.step lbl st = some st')
    (h : Completes press st lbl = some s) : ∃ i a o, lbl = .deliver i true a ∧
      st.ready[i]? = some (.entryWritten press s, o) ∧ (o = none ∨ o = some true) := by
  obtain ⟨m, hm, hc⟩ := Option.bind_eq_some_iff.mp h
  cases lbl with
  | event e => cases hm; cases hc
  | apply => cases hm
  | reject => cases hm
  | deliver i ok a =>
    obtain ⟨⟨k, o⟩, hi, rfl⟩ := Option.map_eq_some_iff.mp hm
    cases k <;> try cases hc
    cases ok <;> simp only [completes, reduceCtorEq] at hc
    split at hc <;> cases hc
    rename_i p hp
    subst hp
    refine ⟨i, a, o, rfl, hi, ?_⟩
    simp only [Program.step, hi] at hs
    split at hs
    · assumption
    · cases hs

/-- No entry is deleted. -/
theorem Fixed.keeps (hf : Fixed l₀ press (program.direct st)) (h : TurnsOut st lbl)
    {r : EditTrip × List Cmd} (hr : program.Runs st lbl r) :
    ∀ c ∈ r.2, c.Writes fun w => ∀ id, w ≠ .deleteEntry id := by
  rcases (hf.code h hr).2 with hw | ⟨p, t', -, rfl⟩
  · refine fun c hc => (hw c hc).mono fun w hsp id => ?_
    rintro rfl
    cases hsp with
    | completing hsp => cases hsp
    | deleteEntry _ hid => exact hid (Set.mem_univ id)
  · intro c hc
    rw [List.mem_singleton.mp hc]
    exact fun id => by simp

theorem Lasting.step {id : EntryID} (hid : Lasting id st) (hf : Fixed l₀ press (program.direct st))
    (h : TurnsOut st lbl) (hs : program.step lbl st = some st') : Lasting id st' := by
  refine Throughout.step (P := program) hid hs (fun r hr c hc => ?_) fun he => ?_
  · exact (hf.keeps h hr c hc).mono fun w hw db => mem_entries_apply (hw id)
  · subst he
    exact h

/-- **One step**, for the entries that have been written. -/
theorem Acknowledged.step (hf : Fixed l₀ press (program.direct st))
    (h : Acknowledged l₀ press done st) (hlbl : TurnsOut st lbl)
    (hs : program.step lbl st = some st') :
    Acknowledged l₀ press ((Completes press st lbl).elim done (· ::ₘ done)) st' := by
  have hlast : ∀ s, Lasting (l₀.id s) st → Lasting (l₀.id s) st' :=
    fun s hs' => hs'.step hf hlbl hs
  have hdone : ∀ s ∈ (Completes press st lbl).elim done (· ::ₘ done), Lasting (l₀.id s) st' := by
    intro s hsdone
    refine hlast s ?_
    rcases hc : Completes press st lbl with _ | s'
    · rw [hc] at hsdone
      exact h.done s hsdone
    · rw [hc] at hsdone
      rcases Multiset.mem_cons.mp hsdone with rfl | hsdone
      · obtain ⟨i, a, o, -, hi, ho⟩ := ready_of_completes hs hc
        obtain ⟨ok, hok, hstored⟩ := h.ready _ (List.mem_of_getElem? hi) s rfl
        rcases ho with rfl | rfl
        · cases hok
        · exact hstored (Option.some.inj hok).symm
      · exact h.done s hsdone
  rcases step_runs hs with ⟨r, hr, rfl⟩ | ⟨w, k, q, hq, ⟨rfl, rfl⟩ | ⟨rfl, rfl⟩⟩
  · obtain ⟨htied, -⟩ := hf.code hlbl hr
    refine ⟨hdone, fun x hx s hxs => ?_, fun x hx s hxs => ?_, ?_⟩
    · rcases List.mem_append.mp hx with hx | hx
      · obtain ⟨ok, hok, hstored⟩ := h.ready x (mem_ready_of_awaited hx) s hxs
        exact ⟨ok, hok, fun he => hlast s (hstored he)⟩
      · have hc := mem_requests hx
        obtain ⟨doc, hdoc⟩ := htied _ hc press s (congrArg some hxs)
        cases hdoc
    · rcases List.mem_append.mp hx with hx | hx
      · exact h.queue x hx s hxs
      · obtain ⟨doc, hdoc⟩ := htied _ (mem_writes.mp hx) press s hxs
        exact ⟨doc, (Async.Cmd.write.inj hdoc).1⟩
    · have hnew : ∀ x : Write × Option Callback, ∀ y ∈ writes r.2, setsData x.1 →
          ∀ id, y.1 ≠ .deleteEntry id :=
        fun x y hy _ => hf.keeps hlbl hr _ (mem_writes.mp hy)
      exact List.pairwise_append.mpr ⟨h.order, List.pairwise_of_forall_mem_list
        fun x _ y hy => hnew x y hy, fun x _ y hy => hnew x y hy⟩
  · have horder := h.order
    rw [hq] at horder
    obtain ⟨hhead, horder⟩ := List.pairwise_cons.mp horder
    refine ⟨hdone, fun x hx s hxs => ?_, fun x hx s hxs => ?_, horder⟩
    · rcases List.mem_append.mp hx with hx | hx
      · obtain ⟨ok, hok, hstored⟩ := h.ready x hx s hxs
        exact ⟨ok, hok, fun he => hlast s (hstored he)⟩
      · obtain ⟨k', hk', rfl⟩ := List.mem_map.mp hx
        obtain rfl := Option.mem_toList.mp hk'
        refine ⟨true, rfl, fun _ => ?_⟩
        obtain ⟨doc, rfl⟩ := h.queue (w, some k') (hq ▸ List.mem_cons_self) s (congrArg some hxs)
        refine throughout_of_keep ((AList.mem_insert _).mpr (Or.inl rfl)) fun w' hw' db => ?_
        obtain ⟨y, hy, rfl⟩ := List.mem_map.mp hw'
        exact mem_entries_apply (hhead y hy trivial _)
    · exact h.queue x (hq ▸ List.mem_cons_of_mem _ hx) s hxs
  · have horder := h.order
    rw [hq] at horder
    refine ⟨hdone, fun x hx s hxs => ?_, fun x hx s hxs => ?_, (List.pairwise_cons.mp horder).2⟩
    · rcases List.mem_append.mp hx with hx | hx
      · obtain ⟨ok, hok, hstored⟩ := h.ready x hx s hxs
        exact ⟨ok, hok, fun he => hlast s (hstored he)⟩
      · obtain ⟨k', hk', rfl⟩ := List.mem_map.mp hx
        exact ⟨false, rfl, fun he => by cases he⟩
    · exact h.queue x (hq ▸ List.mem_cons_of_mem _ hx) s hxs

/-- Before the user document has been fetched, no list is changed. -/
theorem Fixed.dangling (hf : Fixed l₀ press (program.direct st))
    (hun : ∀ k ∈ (program.direct st).bag, k.awaitsUser = false)
    (hd : Throughout Write.apply setsData (NoneDangling t) (st.queue.map Prod.fst) st.store)
    (hlbl : TurnsOut st lbl) (hs : program.step lbl st = some st') :
    Throughout Write.apply setsData (NoneDangling t) (st'.queue.map Prod.fst) st'.store := by
  refine Throughout.step (P := program) hd hs (fun r hr c hc => ?_) fun he => ?_
  · rcases (hf.code hlbl hr).2 with hw | ⟨p, t', hmem, -⟩
    · exact (hw c hc).mono fun w hw db hdb => hdb.sparing hw
    · have hfetch := hun _ hmem
      cases hfetch
  · subst he
    exact hlbl

/-- **One step** of a save. -/
theorem Sound.step (h : Sound t l₀ press st) (hlbl : TurnsOut st lbl)
    (hs : program.step lbl st = some st') : Sound t l₀ press st' := by
  have hf' : Fixed l₀ press (program.direct st') := by
    rcases step_move hs with ⟨-, -, s, hd⟩ | ⟨m, hm, hd⟩
    · rw [hd]
      exact h.fixed.store s
    · exact h.fixed.step hd (answers_of_turnsOut hlbl hm)
  rcases h.stage with hidle | hthere | ⟨done, hcount, hack⟩
  · refine ⟨hf', h.fixed.dangling (fun k hk => Callback.awaitsUser_of_not_saves (hidle k hk))
      h.dangling hlbl hs, Or.inl ?_⟩
    rcases step_move hs with ⟨-, -, s, hd⟩ | ⟨m, hm, hd⟩
    · rw [hd]
      exact hidle
    · exact not_saves_step hd (answers_of_turnsOut hlbl hm) hidle
  · have hboth := h.dangling.and (throughout_forall hthere)
    have hboth' : Throughout Write.apply setsData
        (fun db => NoneDangling t db ∧ ∀ id ∈ l₀.ids, id ∈ db.entries)
        (st'.queue.map Prod.fst) st'.store := by
      refine Throughout.step (P := program) hboth hs (fun r hr c hc => ?_) fun he => ?_
      · rcases (h.fixed.code hlbl hr).2 with hw | ⟨p, t', -, rfl⟩
        · exact (hw c hc).mono fun w hw db hdb =>
            ⟨hdb.1.sparing hw, fun id hid => hw.mem (Set.mem_univ id) (hdb.2 id hid)⟩
        · rw [List.mem_singleton.mp hc]
          exact fun db hdb => ⟨hdb.1.entries hdb.2, hdb.2⟩
      · subst he
        exact hlbl
    exact ⟨hf', hboth'.mono fun _ hdb => hdb.1, Or.inr (Or.inl fun id hid =>
      hboth'.mono fun _ hdb => hdb.2 id hid)⟩
  · refine ⟨hf', h.fixed.dangling hcount.unfetched h.dangling hlbl hs, Or.inr ?_⟩
    have hack' := hack.step h.fixed hlbl hs
    rcases step_move hs with ⟨hm, -, s, hd⟩ | ⟨m, hm, hd⟩
    · right
      refine ⟨done, ?_, ?_⟩
      · rw [hd]
        obtain ⟨⟨role, opened, rest, hw, ht⟩, hun⟩ := hcount
        exact ⟨⟨role, opened, rest, ⟨hw.uses, hw.filled⟩,
          ⟨ht.lt, ht.entries, ht.count, ht.made, ht.uploads, ht.split⟩⟩, hun⟩
      · have hno : Completes press st lbl = none := by simp [Completes, hm]
        rw [hno] at hack'
        exact hack'
    · have hyes : Completes press st lbl = completes press m := by simp [Completes, hm]
      rw [hyes] at hack'
      rcases hcount.step h.fixed hd (answers_of_turnsOut hlbl hm) with hcount' | hall
      · exact Or.inr ⟨_, hcount', hack'⟩
      · left
        intro id hid
        obtain ⟨s, hsl, rfl⟩ := List.mem_map.mp hid
        exact hack'.done s (hall ▸ hsl)

/-- **The run** of a save. -/
theorem Sound.run (h : Sound t l₀ press st)
    {tr : List (Label TripID Event × State Firestore EditTrip Write Callback)}
    (hrun : IsRun (fun st lbl st' => program.step lbl st = some st' ∧ TurnsOut st lbl) st tr) :
    NoneDangling t (final st tr).store :=
  (IsRun.final (fun _ _ _ hst hs => hst.step hs.2 hs.1) hrun h).dangling.now

/-! ## The press -/

/-- The early pass: the trip is to list the entries on the screen, or nothing happens. -/
theorem updateTripInfo_cmds {l : EditTrip} (ht : l.tripID = some t) :
    ¬l.UpdatesTripInfo ∧ (updateTripInfo l).2 = [] ∨ l.UpdatesTripInfo ∧ ∃ cs,
      (updateTripInfo l).2 = .write (.updateTrip t fun d =>
        { d with tripName := l.tripName, entries := l.ids }) none :: cs ∧
        ∀ c ∈ cs, c.Writes Completing := by
  rw [updateTripInfo_eq]
  split
  · rename_i hu
    refine Or.inr ⟨hu, ?_⟩
    simp only [updateTripInfoDidSet, if_true, ht]
    exact ⟨_, rfl, ((completing_uploadTripCoverPhoto t).andThen
      (completing_updateTripID l.ids t) l trivial).2⟩
  · rename_i hu
    exact Or.inl ⟨hu, rfl⟩

/-- The deletions of a press. -/
theorem deleting_forEach (xs : List ℕ) (l : EditTrip) :
    ∀ c ∈ (Handler.forEach deleteEntry xs l).2, c.Writes fun w =>
      (∃ u id, w = .deleteFeed u id) ∨ ∃ s ∈ xs, w = .deleteEntry (l.id s) := by
  refine (Handler.emits_forEach (I := fun l' => l' = l) (fun s hs => ?_) l rfl).2
  refine Handler.emits_issue fun l' hl' c hc => ?_
  subst hl'
  simp only [List.cons_append, List.mem_cons, List.mem_append, List.mem_map] at hc
  rcases hc with rfl | ⟨u, _, rfl⟩ | ⟨i, _, rfl⟩
  · exact Or.inr ⟨s, hs, rfl⟩
  · exact Or.inl ⟨u, _, rfl⟩
  · trivial

/-- The uploads and writes of a press. -/
theorem adding_forEach (press : ℕ) (xs : List ℕ) (l : EditTrip) :
    ∀ c ∈ (Handler.forEach (addEntryToFirestore press) xs l).2,
      c.Writes (Sparing Set.univ) ∧ Tied l c := by
  refine (Handler.emits_forEach (I := fun l' => ∀ s, l'.id s = l.id s)
    (fun s _ l' hl' => ⟨fun s' => ?_, fun c hc => ⟨?_, fun p' s' hcs => ?_⟩⟩) l fun _ => rfl).2
  · exact ((stays_addEntryToFirestore press s l').toKeeps.id s').trans (hl' s')
  · exact (sparing_addEntryToFirestore press s l' trivial).2 c hc
  · obtain ⟨doc, rfl⟩ := tied_addEntryToFirestore press s l' c hc p' s' hcs
    exact ⟨doc, by rw [hl']⟩

/-- What is deleted and not written is not there. -/
theorem notMem_entries_apply {w : Write} {id : EntryID} {db : Firestore} (hw : ¬setsData w)
    (hid : id ∉ db.entries) : id ∉ (w.apply db).entries := by
  cases w with
  | setEntry id' doc => exact absurd trivial hw
  | updateEntry id' f => exact fun h => hid (Collection.mem_modify.mp h)
  | deleteEntry id' => exact fun h => hid (AList.mem_erase.mp h).2
  | _ => exact hid

theorem notMem_effect {cs : List Cmd} {id : EntryID} {db : Firestore}
    (hcs : ∀ c ∈ cs, c.Writes fun w => ¬setsData w) (hid : id ∉ db.entries) :
    id ∉ (effect Write.apply cs db).entries :=
  effect_invariant (I := fun db : Firestore => id ∉ db.entries)
    (fun _ _ hw _ hdb => notMem_entries_apply (hcs _ hw) hdb) hid

/-- The entries that a press deletes are not there when its deletions have taken effect. -/
theorem notMem_forEach_deleteEntry {xs : List ℕ} {s : ℕ} (hs : s ∈ xs) (l : EditTrip)
    (db : Firestore) :
    l.id s ∉ (effect Write.apply (Handler.forEach deleteEntry xs l).2 db).entries := by
  have hno : ∀ xs, ∀ c ∈ (Handler.forEach deleteEntry xs l).2, c.Writes fun w => ¬setsData w := by
    refine fun xs c hc => (deleting_forEach xs l c hc).mono fun w hw => ?_
    rcases hw with ⟨u, id, rfl⟩ | ⟨s, -, rfl⟩ <;> exact fun h => h
  induction xs generalizing db with
  | nil => cases hs
  | cons s' xs ih =>
    rw [Handler.forEach_cons, Handler.andThen_apply, effect_append]
    rcases List.mem_cons.mp hs with rfl | hs
    · have hone := hno [s]
      rw [Handler.forEach_cons, Handler.andThen_apply] at hone
      refine notMem_effect (hno xs) ?_
      simp only [deleteEntry, Handler.issue_apply, List.cons_append, effect_write]
      refine notMem_effect (fun c hc => hone c ?_) fun h => ?_
      · simpa [deleteEntry] using Or.inr hc
      · exact (AList.mem_erase.mp h).1 rfl
    · exact ih hs _

/-- The commands of a press that saves: the early pass, the deletions, and the entries. -/
theorem saveButtonPressed_cmds {l : EditTrip} (hfields : l.emptyField = false)
    (ht : l.tripID = some t) : ∃ A D S, (saveButtonPressed l).2 = A ++ (D ++ S) ∧
      (¬l.UpdatesTripInfo ∧ A = [] ∨ l.UpdatesTripInfo ∧ ∃ cs,
        A = .write (.updateTrip t fun d =>
          { d with tripName := l.tripName, entries := l.ids }) none :: cs ∧
        ∀ c ∈ cs, c.Writes Completing) ∧
      (∀ c ∈ D, c.Writes fun w =>
        (∃ u id, w = .deleteFeed u id) ∨ ∃ id ∈ l.deletedIds, w = .deleteEntry id) ∧
      (∀ c ∈ S, c.Writes (Sparing Set.univ)) ∧ (∀ c ∈ A ++ (D ++ S), Tied l c) ∧
      ∀ db, ∀ id ∈ l.deletedIds, id ∉ (effect Write.apply D db).entries := by
  have hid : ∀ s, (updateTripInfo l.newCount).1.id s = l.id s :=
    (stays_updateTripInfo l.newCount).toKeeps.id
  refine ⟨(updateTripInfo l.newCount).2,
    (Handler.forEach deleteEntry l.deleteList (updateTripInfo l.newCount).1).2,
    (Handler.forEach (addEntryToFirestore l.nextCount) l.entryList (updateTripInfo l.newCount).1).2,
    ?_, updateTripInfo_cmds (l := l.newCount) ht, fun c hc => ?_,
    fun c hc => (adding_forEach _ _ _ c hc).1, ?_, ?_⟩
  · rw [saveButtonPressed_eq hfields]
    simp only [Handler.andThen_apply, forEach_deleteEntry_fst]
  · refine (deleting_forEach _ _ c hc).mono fun w hw => hw.imp_right ?_
    rintro ⟨s, hs, rfl⟩
    exact ⟨_, List.mem_map_of_mem hs, by rw [hid]⟩
  · intro c hc
    rcases List.mem_append.mp hc with hc | hc
    · refine tied_of_callbacks (fun k hk p s he => ?_) l c hc
      have hsaves := not_saves_updateTripInfo _ k hk
      rw [he] at hsaves
      cases hsaves
    · rcases List.mem_append.mp hc with hc | hc
      · refine tied_of_callbacks (fun k hk p s he => ?_) l c hc
        have hsaves := mem_callbacks_forEach not_saves_deleteEntry _ _ k hk
        rw [he] at hsaves
        cases hsaves
      · intro p s hcs
        obtain ⟨doc, rfl⟩ := (adding_forEach _ _ _ c hc).2 p s hcs
        exact ⟨doc, by rw [hid]⟩
  · intro db id hmem
    obtain ⟨s, hs, rfl⟩ := List.mem_map.mp hmem
    rw [← hid s]
    exact notMem_forEach_deleteEntry hs _ db

/-- Nothing that loads a trip or saves one is on its way. -/
def Settled (st : State Firestore EditTrip Write Callback) : Prop :=
  st.queue = [] ∧ ∀ x ∈ st.ready, x.1.saves = false ∧ x.1.loads = false

instance (st : State Firestore EditTrip Write Callback) : Decidable (Settled st) :=
  decidable_of_iff (st.queue.isEmpty ∧ ∀ x ∈ st.ready, x.1.saves = false ∧ x.1.loads = false)
    (by simp [Settled])

theorem Settled.bag (h : Settled st) :
    ∀ k ∈ (program.direct st).bag, k.saves = false ∧ k.loads = false := by
  intro k hk
  simp only [Program.direct, h.1, List.filterMap_nil, Multiset.coe_nil, add_zero,
    Multiset.mem_coe] at hk
  obtain ⟨x, hx, rfl⟩ := List.mem_map.mp hk
  exact h.2 x hx

theorem fixed_press (hidle : Settled st) (ht : st.loc.tripID = some t)
    (hpress : program.step (.event .saveButtonPressed) st = some st') :
    Fixed st.loc st.loc.nextCount (program.direct st') := by
  have hst := stays_saveButtonPressed st.loc
  have hbag : ∀ k ∈ (program.direct st).bag + callbacks (saveButtonPressed st.loc).2,
      k.loads = false ∧ (∀ p, k.ofPress = some p → p = st.loc.nextCount) ∧
        ∀ p ids, k ≠ .userFetched p ids := by
    have hplain : ∀ k : Callback, k.saves = false → k.loads = false → k.loads = false ∧
        (∀ p, k.ofPress = some p → p = st.loc.nextCount) ∧ ∀ p ids, k ≠ .userFetched p ids := by
      intro k hs hl
      refine ⟨hl, fun p hp => ?_, ?_⟩
      · rw [Callback.ofPress_of_not_saves hs] at hp
        cases hp
      · rintro p ids rfl
        cases hs
    intro k hk
    rcases Multiset.mem_add.mp hk with hk | hk
    · exact hplain k (hidle.bag k hk).1 (hidle.bag k hk).2
    · rcases callbacks_saveButtonPressed hk with ⟨hs, hl⟩ | ⟨c, s, path, data, rfl⟩ | ⟨s, rfl⟩
      · exact hplain k hs hl
      · exact ⟨rfl, fun p hp => (Option.some.inj hp).symm, by simp⟩
      · exact ⟨rfl, fun p hp => (Option.some.inj hp).symm, by simp⟩
  rw [direct_press hpress]
  refine ⟨hst.entryList, hst.content, ?_, fun k hk => (hbag k hk).1, fun k hk => (hbag k hk).2.1,
    fun p ids hk => absurd rfl ((hbag _ hk).2.2 p ids)⟩
  rw [Program.after, (kept_saveButtonPressed _).1, ht]
  simp

/-- The press, as a step from a state in which nothing is queued. -/
theorem state_press (hidle : Settled st)
    (hpress : program.step (.event .saveButtonPressed) st = some st') :
    st' = ⟨st.store, (saveButtonPressed st.loc).1, writes (saveButtonPressed st.loc).2,
      st.ready ++ requests (saveButtonPressed st.loc).2⟩ := by
  obtain ⟨r, he, rfl⟩ := Option.map_eq_some_iff.mp hpress
  have hr : r = saveButtonPressed st.loc := by
    simp only [program, event] at he
    split at he <;> cases he
    rfl
  rw [issue_eq, hidle.1, hr]
  rfl

/-- The press begins to count its entries. -/
theorem counting_press {role : ℕ → Role} (hw : Wired (fun _ => ∅) role (program.direct st))
    (hidle : Settled st) (hfields : st.loc.emptyField = false)
    (hpress : program.step (.event .saveButtonPressed) st = some st') :
    Counting st.loc st.loc.nextCount 0 (program.direct st') := by
  have hw' : Wired (fun p => {s | p = st.loc.nextCount ∧ s ∈ st.loc.entryList}) role
      (program.direct st) :=
    hw.fresh fun p hp => Set.eq_empty_of_forall_notMem fun s hs => hp.ne hs.1
  obtain ⟨role', -, hw'', opened, htally, -⟩ := tally_saveButtonPressed hw' hfields
  rw [direct_press hpress]
  refine ⟨⟨role', opened, 0, hw'', htally⟩, fun k hk => ?_⟩
  rcases Multiset.mem_add.mp hk with hk | hk
  · exact Callback.awaitsUser_of_not_saves (hidle.bag k hk).1
  · rcases callbacks_saveButtonPressed hk with ⟨hs, -⟩ | ⟨c, s, path, data, rfl⟩ | ⟨s, rfl⟩
    · exact Callback.awaitsUser_of_not_saves hs
    · rfl
    · rfl

/-- No entry has been written yet, and the deletions come before the entries. -/
theorem acknowledged_press (hidle : Settled st) {D S : List Cmd}
    (hst' : st' = ⟨st.store, (saveButtonPressed st.loc).1, writes (D ++ S),
      st.ready ++ requests (D ++ S)⟩)
    (hD : ∀ c ∈ D, c.Writes fun w => ¬setsData w) (hS : ∀ c ∈ S, c.Writes (Sparing Set.univ))
    (htied : ∀ c ∈ D ++ S, Tied st.loc c) :
    Acknowledged st.loc st.loc.nextCount 0 st' := by
  subst hst'
  refine ⟨by simp, fun x hx s hxs => ?_, fun x hx s hxs => ?_, ?_⟩
  · rcases List.mem_append.mp hx with hx | hx
    · have hsaves := (hidle.2 x hx).1
      rw [hxs] at hsaves
      cases hsaves
    · obtain ⟨doc, hdoc⟩ := htied _ (mem_requests hx) st.loc.nextCount s (congrArg some hxs)
      cases hdoc
  · obtain ⟨doc, hdoc⟩ := htied _ (mem_writes.mp hx) st.loc.nextCount s hxs
    exact ⟨doc, (Async.Cmd.write.inj hdoc).1⟩
  · have hno : ∀ x ∈ writes D, ¬setsData x.1 := fun x hx => hD _ (mem_writes.mp hx)
    have hkeep : ∀ y ∈ writes S, ∀ id, y.1 ≠ .deleteEntry id := by
      intro y hy id he
      have hsp : Sparing Set.univ y.1 := hS _ (mem_writes.mp hy)
      rw [he] at hsp
      cases hsp with
      | completing hsp => cases hsp
      | deleteEntry _ hid => exact hid (Set.mem_univ id)
    rw [writes_append]
    refine List.pairwise_append.mpr ⟨?_, ?_, ?_⟩
    · exact List.pairwise_of_forall_mem_list fun x hx _ _ hset => absurd hset (hno x hx)
    · exact List.pairwise_of_forall_mem_list fun _ _ y hy _ => hkeep y hy
    · exact fun x hx _ _ hset => absurd hset (hno x hx)

/-- **The press**, when the entries that the trip lists first are there. -/
theorem sound_press {role : ℕ → Role} (hw : Wired (fun _ => ∅) role (program.direct st))
    (hidle : Settled st) (ht : st.loc.tripID = some t) (hd : NoneDangling t st.store)
    (hc : ListsWritten t st.loc st.store)
    (hpress : program.step (.event .saveButtonPressed) st = some st') :
    Sound t st.loc st.loc.nextCount st' := by
  have hfixed := fixed_press hidle ht hpress
  have hst' := state_press hidle hpress
  have hstore : st'.store = st.store := by rw [hst']
  have hqueue : st'.queue = writes (saveButtonPressed st.loc).2 := by rw [hst']
  cases hfields : st.loc.emptyField with
  | true =>
    have hnone : saveButtonPressed st.loc = (st.loc, []) := by simp [saveButtonPressed, hfields]
    refine ⟨hfixed, ?_, Or.inl ?_⟩
    · rw [hqueue, hnone, hstore]
      exact hd
    · rw [direct_press hpress, hnone]
      simpa [Program.after] using fun k hk => (hidle.bag k hk).1
  | false =>
    have hfirst := hc.resolve_left (by simp [hfields])
    obtain ⟨A, D, S, hcmds, hA, hD, hS, htied, -⟩ := saveButtonPressed_cmds hfields ht
    obtain ⟨K, hK⟩ : ∃ K : Set EntryID, ∀ id, id ∈ K ↔ id ∉ st.loc.deletedIds :=
      ⟨{id | id ∉ st.loc.deletedIds}, fun _ => Iff.rfl⟩
    have hrest : ∀ w ∈ (writes (D ++ S)).map Prod.fst, Sparing K w := by
      intro w hw'
      obtain ⟨x, hx, rfl⟩ := List.mem_map.mp hw'
      rcases List.mem_append.mp (mem_writes.mp hx) with hmem | hmem
      · rcases hD _ hmem with ⟨u, id, he⟩ | ⟨id, hid, he⟩
        · exact he ▸ .deleteFeed u id
        · exact he ▸ .deleteEntry id fun h => (hK id).mp h hid
      · exact Sparing.mono (hS _ hmem) (Set.subset_univ K)
    have hspare : ∀ {ws : List Write} {db : Firestore}, Within t K db → (∀ w ∈ ws, Sparing K w) →
        Throughout Write.apply setsData (NoneDangling t) ws db := fun hdb hws =>
      (throughout_of_keep hdb fun w hw' _ hdb' => hdb'.sparing (hws w hw')).mono
        fun _ => Within.noneDangling
    rcases hA with ⟨hu, rfl⟩ | ⟨hu, cs, rfl, hcs⟩
    · -- the trip keeps its list until the user document has been fetched
      rw [List.nil_append] at hcmds htied
      rw [hcmds] at hqueue
      simp only [listedFirst, if_neg hu] at hfirst
      refine ⟨hfixed, ?_, Or.inr (Or.inr ⟨0, counting_press hw hidle hfields hpress, ?_⟩)⟩
      · rw [hqueue, hstore]
        refine hspare (fun d hdoc id hid => ?_) hrest
        rw [hdoc] at hfirst
        obtain ⟨hthere, hkept⟩ := hfirst id hid
        exact ⟨(hK id).mpr hkept, hthere⟩
      · rw [hcmds] at hst'
        refine acknowledged_press hidle hst' (fun c hc => (hD c hc).mono fun w hw' => ?_) hS htied
        rcases hw' with ⟨u, id, rfl⟩ | ⟨id, -, rfl⟩ <;> exact fun h => h
    · -- the trip lists the entries on the screen, which are there
      simp only [listedFirst, if_pos hu] at hfirst
      have hall : ∀ w ∈ (writes cs ++ writes (D ++ S)).map Prod.fst, Sparing K w := by
        intro w hw'
        rw [List.map_append] at hw'
        rcases List.mem_append.mp hw' with hw' | hw'
        · obtain ⟨x, hx, rfl⟩ := List.mem_map.mp hw'
          exact .completing (hcs _ (mem_writes.mp hx))
        · exact hrest w hw'
      have hlist : st'.queue.map Prod.fst = (Write.updateTrip t fun d =>
          { d with tripName := st.loc.tripName, entries := st.loc.ids }) ::
            (writes cs ++ writes (D ++ S)).map Prod.fst := by
        rw [hqueue, hcmds, List.cons_append, writes, writes_append]
        rfl
      refine ⟨hfixed, ?_, Or.inr (Or.inl fun id hid => ?_)⟩
      · rw [hlist, hstore]
        refine ⟨hd, hspare (fun d hdoc id hid => ?_) hall, fun hfail => hfail.elim⟩
        simp only [Write.apply, Collection.lookup_modify] at hdoc
        obtain ⟨d', -, rfl⟩ := Option.map_eq_some_iff.mp hdoc
        obtain ⟨hthere, hkept⟩ := hfirst id hid
        exact ⟨(hK id).mpr hkept, hthere⟩
      · unfold Lasting
        rw [hlist, hstore]
        obtain ⟨hthere, hkept⟩ := hfirst id hid
        refine throughout_of_keep hthere fun w hw' db hdb => ?_
        rcases List.mem_cons.mp hw' with rfl | hw'
        · exact hdb
        · exact (hall w hw').mem ((hK id).mpr hkept) hdb

/-- The writes of the early pass and the deletions, taken together. -/
theorem effect_first {A D : List Cmd} {l : EditTrip} {db : Firestore} {d : TripDoc}
    (hA : ¬l.UpdatesTripInfo ∧ A = [] ∨ l.UpdatesTripInfo ∧ ∃ cs,
      A = .write (.updateTrip t fun d =>
        { d with tripName := l.tripName, entries := l.ids }) none :: cs ∧
      ∀ c ∈ cs, c.Writes Completing)
    (hD : ∀ c ∈ D, c.Writes fun w =>
      (∃ u id, w = .deleteFeed u id) ∨ ∃ id ∈ l.deletedIds, w = .deleteEntry id)
    (hd : db.trips.lookup t = some d) :
    (∃ d', (effect Write.apply (A ++ D) db).trips.lookup t = some d' ∧
      d'.entries = listedFirst t l db) ∧
    ∀ id, id ∉ db.entries → id ∉ (effect Write.apply (A ++ D) db).entries := by
  have hno : ∀ c ∈ A ++ D, c.Writes fun w => ¬setsData w := by
    intro c hc
    rcases List.mem_append.mp hc with hc | hc
    · rcases hA with ⟨-, rfl⟩ | ⟨-, cs, rfl, hcs⟩
      · cases hc
      · rcases List.mem_cons.mp hc with rfl | hc
        · exact fun h => h
        · refine (hcs c hc).mono fun w hw => ?_
          cases hw <;> exact fun h => h
    · refine (hD c hc).mono fun w hw => ?_
      rcases hw with ⟨u, id, rfl⟩ | ⟨id, -, rfl⟩ <;> exact fun h => h
  refine ⟨?_, fun id hid => notMem_effect hno hid⟩
  have hkeep : ∀ cs : List Cmd, (∀ c ∈ cs, c.Writes (Sparing ∅)) → ∀ ids (db : Firestore),
      (∃ d', db.trips.lookup t = some d' ∧ d'.entries = ids) →
      ∃ d', (effect Write.apply cs db).trips.lookup t = some d' ∧ d'.entries = ids := by
    intro cs hcs ids db hdb
    refine effect_invariant (I := fun db : Firestore => ∃ d', db.trips.lookup t = some d' ∧
      d'.entries = ids) (fun w k hw db' hdb' => ?_) hdb
    obtain ⟨d', hd', hentries⟩ := hdb'
    obtain ⟨d'', hd'', he⟩ := (show Sparing ∅ w from hcs _ hw).keeps_list hd'
    exact ⟨d'', hd'', he.trans hentries⟩
  have hD' : ∀ c ∈ D, c.Writes (Sparing ∅) := by
    refine fun c hc => (hD c hc).mono fun w hw => ?_
    rcases hw with ⟨u, id, rfl⟩ | ⟨id, -, rfl⟩
    · exact .deleteFeed u id
    · exact .deleteEntry id (Set.notMem_empty id)
  rw [effect_append]
  refine hkeep D hD' _ _ ?_
  rcases hA with ⟨hu, rfl⟩ | ⟨hu, cs, rfl, hcs⟩
  · exact ⟨d, hd, by simp [listedFirst, hu, hd]⟩
  · rw [effect_write]
    refine hkeep cs (fun c hc => (hcs c hc).mono fun _ => .completing) _ _ ?_
    simp [hd, listedFirst, hu]

/-- **A save that fails**, for every press on the screen of a trip, in every run of the screen, when
nothing else is loaded or saved and the trip lists entries that there are. -/
theorem none_dangling {db : Firestore} {u : User} {t? : Option TripID} {b : Bucket}
    {now : Timestamp} {st₀ st₁ : State Firestore EditTrip Write Callback}
    {tr₀ : List (Label TripID Event × State Firestore EditTrip Write Callback)}
    (hrun₀ : IsRun (fun st lbl st' => program.step lbl st = some st')
      (start db (opened u t? b now)) tr₀)
    (hst₀ : final (start db (opened u t? b now)) tr₀ = st₀) (hidle : Settled st₀)
    (ht : st₀.loc.tripID = some t) (hthere : t ∈ st₀.store.trips) (hd : NoneDangling t st₀.store)
    (hpress : program.step (.event .saveButtonPressed) st₀ = some st₁) :
    (∀ tr, IsRun (fun st lbl st' => program.step lbl st = some st' ∧ TurnsOut st lbl) st₁ tr →
      NoneDangling t (final st₁ tr).store) ↔ ListsWritten t st₀.loc st₀.store := by
  obtain ⟨role, hw⟩ := hst₀ ▸ wired_run hrun₀
  constructor
  · intro hall
    cases hfields : st₀.loc.emptyField with
    | true => exact Or.inl hfields
    | false =>
      refine Or.inr fun id hid => ?_
      obtain ⟨d, hdoc⟩ := Option.isSome_iff_exists.mp (AList.lookup_isSome.mpr hthere)
      obtain ⟨A, D, S, hcmds, hA, hD, -, -, hdel⟩ := saveButtonPressed_cmds hfields ht
      have hqueue : st₁.queue = writes (A ++ D) ++ writes S := by
        rw [state_press hidle hpress, hcmds, ← List.append_assoc, writes_append]
      have hstore : st₁.store = st₀.store := by rw [state_press hidle hpress]
      have happly : ∀ st, TurnsOut st .apply := fun _ => trivial
      obtain ⟨tr, hrun, hend⟩ := exists_applies (P := program) happly hqueue
      have heffect : effect program.apply (A ++ D) st₁.store =
          (writes (A ++ D)).foldl (fun s w => program.apply w.1 s) st₁.store := effect_eq_foldl _ _
      rw [← heffect, hstore] at hend
      obtain ⟨⟨d', hd', hentries⟩, habsent⟩ := effect_first hA hD hdoc
      have hmem := hall tr hrun d' (by rw [hend]; exact hd') id (hentries ▸ hid)
      rw [hend] at hmem
      refine ⟨by_contra fun hno => habsent id hno hmem, fun hdeleted => ?_⟩
      rw [effect_append] at hmem
      exact hdel _ id hdeleted hmem
  · exact fun hc tr hrun => (sound_press hw hidle ht hd hc hpress).run hrun

end

/-! ## Two saves -/

/-- The trip and its entry arrive. -/
def loadTrip : List (Label TripID Event) :=
  [.event .viewDidLoad, .event .viewWillAppear, .deliver 0 true "", .deliver 0 true "",
    .deliver 0 true "", .deliver 0 true "", .deliver 0 true "", .deliver 0 true ""]

/-- A trip is saved as it is, and a new entry of it cannot be lost, since there is none. -/
theorem none_dangling_sample : ∃ st₁ : State Firestore EditTrip Write Callback,
    st₁.queue.length = 2 ∧ ∀ tr, IsRun (fun st lbl st' => program.step lbl st = some st' ∧
      TurnsOut st lbl) st₁ tr → NoneDangling "t" (final st₁ tr).store := by
  obtain ⟨tr₀, h₀⟩ := Option.isSome_iff_exists.mp (by decide +kernel :
    (play (fun st lbl => program.step lbl st) loadTrip tripScreen).isSome)
  have hst : ∀ tr₀ ∈ play (fun st lbl => program.step lbl st) loadTrip tripScreen,
      Settled (final tripScreen tr₀) ∧ (final tripScreen tr₀).loc.tripID = some "t" ∧
      "t" ∈ (final tripScreen tr₀).store.trips ∧
      (∀ d ∈ (final tripScreen tr₀).store.trips.lookup "t",
        ∀ id ∈ d.entries, id ∈ (final tripScreen tr₀).store.entries) ∧
      (∀ id ∈ listedFirst "t" (final tripScreen tr₀).loc (final tripScreen tr₀).store,
        id ∈ (final tripScreen tr₀).store.entries ∧
          id ∉ (final tripScreen tr₀).loc.deletedIds) ∧
      (program.step (.event .saveButtonPressed) (final tripScreen tr₀)).isSome ∧
      ∀ st₁ ∈ program.step (.event .saveButtonPressed) (final tripScreen tr₀),
        st₁.queue.length = 2 := by
    decide +kernel
  obtain ⟨hidle, ht, hthere, hd, hlists, hpress, hlen⟩ := hst tr₀ h₀
  obtain ⟨st₁, hpress⟩ := Option.isSome_iff_exists.mp hpress
  exact ⟨st₁, hlen st₁ hpress, (none_dangling (isRun_of_play h₀) rfl hidle ht hthere hd hpress).mpr
    (Or.inr hlists)⟩

/-- An entry is added, and its `setData` is rejected. -/
def sampleRejected : List (Label TripID Event) :=
  [.apply, .apply, .deliver 0 true "", .deliver 0 true "", .deliver 0 true "", .deliver 0 true "",
    .deliver 0 true "", .deliver 0 true "", .deliver 0 true "", .deliver 0 true "", .apply, .apply,
    .apply, .apply, .apply, .reject, .apply, .apply, .deliver 0 true "", .apply, .apply,
    .deliver 0 true "", .deliver 0 false "", .deliver 0 true "", .deliver 0 true ""]

/-- Everything of a save succeeds but the writing of the new entry: the trip lists an entry that is
not there. -/
theorem dangling : ∃ tr₀ st₁ tr, play (fun st lbl => program.step lbl st)
      (loadTrip ++ [.event (Event.addAnnotation (sampleForm "b") "b")]) tripScreen = some tr₀ ∧
    Settled (final tripScreen tr₀) ∧ NoneDangling "t" (final tripScreen tr₀).store ∧
    program.step (.event .saveButtonPressed) (final tripScreen tr₀) = some st₁ ∧
    play (fun st lbl => program.step lbl st) sampleRejected st₁ = some tr ∧
    Meets TurnsOut st₁ tr ∧ Quiescent (final st₁ tr) ∧ ¬NoneDangling "t" (final st₁ tr).store := by
  obtain ⟨tr₀, h₀⟩ := Option.isSome_iff_exists.mp (by decide +kernel :
    (play (fun st lbl => program.step lbl st)
      (loadTrip ++ [.event (Event.addAnnotation (sampleForm "b") "b")]) tripScreen).isSome)
  have hst : ∀ tr₀ ∈ play (fun st lbl => program.step lbl st)
      (loadTrip ++ [.event (Event.addAnnotation (sampleForm "b") "b")]) tripScreen,
      Settled (final tripScreen tr₀) ∧
      (∀ d ∈ (final tripScreen tr₀).store.trips.lookup "t",
        ∀ id ∈ d.entries, id ∈ (final tripScreen tr₀).store.entries) ∧
      (program.step (.event .saveButtonPressed) (final tripScreen tr₀)).isSome ∧
      ∀ st₁ ∈ program.step (.event .saveButtonPressed) (final tripScreen tr₀),
        (play (fun st lbl => program.step lbl st) sampleRejected st₁).isSome ∧
        ∀ tr ∈ play (fun st lbl => program.step lbl st) sampleRejected st₁,
          Meets TurnsOut st₁ tr ∧ Quiescent (final st₁ tr) ∧
          ((final st₁ tr).store.trips.lookup "t").map TripDoc.entries = some ["a", "b"] ∧
          "b" ∉ (final st₁ tr).store.entries := by
    decide +kernel
  obtain ⟨hidle, hd, hpress, hrun⟩ := hst tr₀ h₀
  obtain ⟨st₁, hpress⟩ := Option.isSome_iff_exists.mp hpress
  obtain ⟨htr, hrun⟩ := hrun st₁ hpress
  obtain ⟨tr, htr⟩ := Option.isSome_iff_exists.mp htr
  obtain ⟨hout, hq, hlists, hmissing⟩ := hrun tr htr
  refine ⟨tr₀, st₁, tr, h₀, hidle, hd, hpress, htr, hout, hq, fun h => hmissing ?_⟩
  obtain ⟨d, hdoc, hentries⟩ := Option.map_eq_some_iff.mp hlists
  exact h d hdoc "b" (by simp [hentries])

end EditTrip

end Wanderlust
