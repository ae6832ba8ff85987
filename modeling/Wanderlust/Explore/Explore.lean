import Mathlib.Data.Prod.Lex
import Mathlib.Data.String.Basic
import Wanderlust.Models.Firestore

/-!
# The explore screen

`ExploreViewController`: it shows the entries of all users, newest first, or those of the place
that has been searched for.

Nothing of the privacy of their owners is looked at. So for a viewer who may not see the entries
of a user, what these are changes what is shown, unless the entries that are found agree in what
the screen decodes of them and in their places (`entries_eq_iff`).
-/

namespace Wanderlust

open Async

/-- The `Entry` that is decoded from a document. -/
structure Entry where
  entryId : EntryID
  coordinates : GeoPoint
  coverPhoto : Option URL
  description : String
  entryName : String
  locationName : String
  entryOrder : ℕ
  mediaList : List URL
  deriving DecidableEq

/-- `document.data(as: Entry.self)`. -/
def EntryDoc.entry (id : EntryID) (d : EntryDoc) : Entry where
  entryId := id
  coordinates := d.coordinates
  coverPhoto := d.coverPhoto
  description := d.description
  entryName := d.entryName
  locationName := d.locationName
  entryOrder := d.entryOrder
  mediaList := d.mediaList

/-- The entry is of the place that is searched for, or nothing is searched for. -/
abbrev EntryDoc.Matches (d : EntryDoc) (searchQuery : String) : Prop :=
  searchQuery.isEmpty ∨ d.locationName = searchQuery

/-- What the query is ordered by: documents of one time are ordered by their names. -/
def entryKey (e : EntryID × EntryDoc) : ℕ ×ₗ String := toLex (e.2.timestamp, e.1)

/-- The query of the screen. -/
def Firestore.exploreQuery (db : Firestore) (searchQuery : String) : List (EntryID × EntryDoc) :=
  (db.entries.docs.filter fun e => e.2.Matches searchQuery).insertionSort
    fun e e' => entryKey e' ≤ entryKey e

/-- The entries of the documents, but for those without a cover. -/
def shownEntries (documents : List (EntryID × EntryDoc)) : List Entry :=
  (documents.map fun e => e.2.entry e.1).filter fun entry => entry.coverPhoto.isSome

/-- The state of the screen. -/
structure Explore where
  /-- `Auth.auth().currentUser`. -/
  authUser : Option Uid
  user : Option Uid
  entries : List Entry
  searchQuery : String
  isFiltered : Bool
  refreshing : Bool

namespace Explore

inductive Callback
  -- `DispatchQueue.global(qos: .background).async` of `refreshEntries`
  | loadEntryData
  | entriesFetched (searchQuery : String)

inductive Event
  | viewDidLoad
  | refreshEntries
  | textDidChange (searchText : String)
  | searchButtonClicked
  -- the place that a search result stands for has been found
  | placeFound (title : String)

abbrev Cmd := Async.Cmd Write Callback
abbrev Handler := Async.Handler Explore Write Callback

/-- The screen before its view is loaded. -/
def opened (authUser : Option Uid) : Explore where
  authUser := authUser
  user := none
  entries := []
  searchQuery := ""
  isFiltered := false
  refreshing := false

/-- `refreshEntries`. -/
def refreshEntries : Handler := .issue fun _ => [.request .loadEntryData]

/-- `loadEntryData`. -/
def loadEntryData : Handler := fun l =>
  let l := { l with user := l.authUser }
  match l.user with
  | none => (l, [])
  | some _ => (l, [.request (.entriesFetched l.searchQuery)])

/-- The closure that is given the query. -/
def entriesFetched (documents : List (EntryID × EntryDoc)) (l : Explore) : Explore :=
  { l with
    entries := shownEntries documents
    isFiltered := if l.searchQuery.isEmpty then false else true
    searchQuery := ""
    refreshing := false }

/-- The code of the closures. -/
def react : Callback → Bool → Unit → Explore → Firestore → Option (Explore × List Cmd)
  | .loadEntryData, _, _, l, _ => some (loadEntryData l)
  | .entriesFetched searchQuery, ok, _, l, db =>
    some (if ok then entriesFetched (db.exploreQuery searchQuery) l else l, [])

/-- The code of the user's actions. -/
def event : Event → Explore → Firestore → Option (Explore × List Cmd)
  | .viewDidLoad, l, _ => some (refreshEntries l)
  | .refreshEntries, l, _ => some (refreshEntries { l with refreshing := true })
  | .textDidChange searchText, l, _ =>
    let l := { l with searchQuery := searchText }
    some (if searchText.isEmpty ∧ l.isFiltered then refreshEntries l else (l, []))
  | .searchButtonClicked, l, _ => some (refreshEntries l)
  | .placeFound title, l, _ => some (refreshEntries { l with searchQuery := title })

/-- `ExploreViewController`. -/
def program : Async.Program Firestore Explore Write Callback Unit Event where
  apply := Write.apply
  react := react
  event := event

/-- The steps of a single load that succeeds. -/
def loading (_ : Explore) (_ : Firestore) : Async.Move Callback Unit Event → Prop
  | .event _ => False
  | .deliver _ ok _ => ok = true

/-- The entries that a load from `db` may show. -/
def Shows (db : Firestore) (l : Explore) (entries : List Entry) : Prop :=
  ∃ db' l', Completes program loading .searchButtonClicked db l db' l' ∧ entries = l'.entries

section

variable {db : Firestore} {l : Explore} {v : Uid} {entries : List Entry}

/-- A load is on its way, or has ended. -/
structure Load (db : Firestore) (v : Uid) (q : String) (x : Direct Firestore Explore Callback) :
    Prop where
  store : x.store = db
  authUser : x.loc.authUser = some v
  stage : x.bag = {.loadEntryData} ∧ x.loc.searchQuery = q ∨ x.bag = {.entriesFetched q} ∨
    x.bag = 0 ∧ x.loc.entries = shownEntries (db.exploreQuery q)

theorem Load.step {q : String} {x x' : Direct Firestore Explore Callback}
    {m : Async.Move Callback Unit Event} (h : Load db v q x) (ha : loading x.loc x.store m)
    (hs : DirectStep program x m x') : Load db v q x' := by
  cases hs with
  | event he => exact ha.elim
  | @deliver k ok a rest r hb hr =>
    obtain rfl : ok = true := ha
    have hsingle : ∀ k', x.bag = {k'} → k = k' ∧ rest = 0 := by
      intro k' hk'
      rw [hk'] at hb
      rcases Multiset.cons_eq_cons.mp hb with ⟨hk, hrest⟩ | ⟨-, c, hrest, -⟩
      · exact ⟨hk.symm, hrest.symm⟩
      · exact absurd hrest.symm Multiset.cons_ne_zero
    rcases h.stage with ⟨hbag, hq⟩ | hbag | ⟨hbag, -⟩
    · obtain ⟨rfl, rfl⟩ := hsingle _ hbag
      cases hr
      simp only [loadEntryData, h.authUser]
      exact ⟨h.store, rfl, Or.inr (Or.inl (by rw [← hq]; rfl))⟩
    · obtain ⟨rfl, rfl⟩ := hsingle _ hbag
      cases hr
      refine ⟨h.store, h.authUser, Or.inr (Or.inr ⟨rfl, ?_⟩)⟩
      rw [← h.store]
      rfl
    · exact absurd (hb.symm.trans hbag) Multiset.cons_ne_zero

/-- What a load shows. -/
theorem shows_iff (hv : l.authUser = some v) :
    Shows db l entries ↔ entries = shownEntries (db.exploreQuery l.searchQuery) := by
  constructor
  · rintro ⟨db', l', h, rfl⟩
    have hload : Load db v l.searchQuery ⟨db', l', 0⟩ := by
      refine h.invariant (I := Load db v l.searchQuery) (fun r hr => ?_) fun x m x' hx ha hs =>
        hx.step ha hs
      cases hr
      exact ⟨rfl, hv, Or.inl ⟨rfl, rfl⟩⟩
    rcases hload.stage with ⟨hbag, -⟩ | hbag | ⟨-, hentries⟩
    · exact absurd hbag.symm (Multiset.singleton_ne_zero _)
    · exact absurd hbag.symm (Multiset.singleton_ne_zero _)
    · exact hentries
  · rintro rfl
    obtain ⟨authUser, user, entries, searchQuery, isFiltered, refreshing⟩ := l
    obtain rfl : authUser = some v := hv
    exact ⟨db, _, ⟨_, rfl, [.deliver 0 true (), .deliver 0 true ()],
      .cons rfl rfl (.cons rfl rfl (.nil _))⟩, rfl⟩

end

end Explore

/-! ## Two stores -/

namespace Firestore

section

variable (db db' : Firestore) (p : Uid) (q : String)

/-- The document of an entry, if a search finds it and it is shown. -/
def found (id : EntryID) : Option EntryDoc :=
  (db.entries.lookup id).filter fun d => d.Matches q ∧ d.coverPhoto.isSome

/-- The names of the entries that are shown. -/
def foundIDs : List EntryID :=
  ((db.exploreQuery q).filter fun e => e.2.coverPhoto.isSome).map Prod.fst

/-- The place of an entry. -/
def entryRank (id : EntryID) : ℕ ×ₗ String :=
  toLex (((db.entries.lookup id).map EntryDoc.timestamp).getD 0, id)

/-- The stores differ only in the entries of `p`. -/
structure DifferOnly : Prop where
  users : db'.users = db.users
  trips : db'.trips = db.trips
  newsfeed : db'.newsfeed = db.newsfeed
  entries : ∀ id, db.entries.lookup id = db'.entries.lookup id ∨
    (∀ d ∈ db.entries.lookup id, d.userID = p) ∧ ∀ d ∈ db'.entries.lookup id, d.userID = p

/-- The entries of `p` that a search finds are the same to the screen, which decodes neither their
owner nor their time; and they are in the same places among all entries that it finds. -/
structure Alike : Prop where
  decoded : ∀ id, (∀ d ∈ db.found q id, d.userID = p) → (∀ d ∈ db'.found q id, d.userID = p) →
    (db.found q id).map (EntryDoc.entry id) = (db'.found q id).map (EntryDoc.entry id)
  place : ∀ id id', ∀ d ∈ db.found q id, ∀ d' ∈ db.found q id', ∀ e ∈ db'.found q id,
    ∀ e' ∈ db'.found q id', d.userID = p → e.userID = p →
      (entryKey (id, d) ≤ entryKey (id', d') ↔ entryKey (id, e) ≤ entryKey (id', e'))

end

section

variable {db db' : Firestore} {p : Uid} {q : String} {id : EntryID} {d : EntryDoc}

theorem found_eq_some : db.found q id = some d ↔
    db.entries.lookup id = some d ∧ d.Matches q ∧ d.coverPhoto.isSome := by
  rw [found, Option.filter_eq_some_iff, decide_eq_true_eq]

theorem mem_exploreQuery {e : EntryID × EntryDoc} :
    e ∈ (db.exploreQuery q).filter (fun e => e.2.coverPhoto.isSome) ↔
      db.found q e.1 = some e.2 := by
  rw [found_eq_some, List.mem_filter, exploreQuery, List.mem_insertionSort, List.mem_filter,
    decide_eq_true_eq]
  constructor
  · rintro ⟨⟨hmem, hmatch⟩, hcover⟩
    exact ⟨Collection.mem_docs.mp hmem, hmatch, hcover⟩
  · rintro ⟨hmem, hmatch, hcover⟩
    exact ⟨⟨Collection.mem_docs.mpr hmem, hmatch⟩, hcover⟩

theorem mem_foundIDs : id ∈ db.foundIDs q ↔ (db.found q id).isSome := by
  rw [foundIDs, List.mem_map, Option.isSome_iff_exists]
  constructor
  · rintro ⟨e, he, rfl⟩
    exact ⟨e.2, mem_exploreQuery.mp he⟩
  · rintro ⟨d, hd⟩
    exact ⟨(id, d), mem_exploreQuery.mpr hd, rfl⟩

theorem nodup_foundIDs : (db.foundIDs q).Nodup := by
  have hdocs := db.entries.nodup_map_fst_docs
  have hsort : ((db.exploreQuery q).map Prod.fst).Nodup := by
    rw [exploreQuery, ((List.perm_insertionSort _ _).map Prod.fst).nodup_iff]
    exact hdocs.sublist (List.filter_sublist.map _)
  exact hsort.sublist (List.filter_sublist.map _)

/-- What is shown, name by name. -/
theorem shownEntries_eq : shownEntries (db.exploreQuery q) =
    (db.foundIDs q).filterMap fun id => (db.found q id).map (EntryDoc.entry id) := by
  have hmap : shownEntries (db.exploreQuery q) =
      ((db.exploreQuery q).filter fun e => e.2.coverPhoto.isSome).map fun e => e.2.entry e.1 := by
    rw [shownEntries, List.filter_map]
    rfl
  rw [hmap, foundIDs, List.filterMap_map, ← List.filterMap_eq_map]
  refine List.filterMap_congr fun e he => ?_
  simp only [Function.comp_apply, mem_exploreQuery.mp he, Option.map_some]

theorem map_entryId_shownEntries : (shownEntries (db.exploreQuery q)).map Entry.entryId =
    db.foundIDs q := by
  rw [shownEntries, foundIDs, List.filter_map, List.map_map]
  rfl

theorem entryRank_of_found (h : db.found q id = some d) : db.entryRank id = entryKey (id, d) := by
  rw [entryRank, (found_eq_some.mp h).1]
  rfl

theorem entryRank_injective : Function.Injective db.entryRank := fun _ _ h =>
  congrArg (fun k => (ofLex k).2) h

theorem pairwise_foundIDs : (db.foundIDs q).Pairwise fun id id' =>
    db.entryRank id' ≤ db.entryRank id := by
  rw [foundIDs, List.pairwise_map]
  have hsorted : ((db.exploreQuery q).filter fun e => e.2.coverPhoto.isSome).Pairwise
      fun e e' => entryKey e' ≤ entryKey e :=
    (pairwise_newest entryKey _).sublist List.filter_sublist
  refine List.Pairwise.imp_of_mem ?_ hsorted
  intro e e' he he' hle
  rw [entryRank_of_found (mem_exploreQuery.mp he), entryRank_of_found (mem_exploreQuery.mp he')]
  exact hle

/-- The screen shows the same if what it decodes is the same and in the same order. -/
theorem shownEntries_eq_iff : shownEntries (db.exploreQuery q) = shownEntries (db'.exploreQuery q) ↔
    (∀ id, (db.found q id).map (EntryDoc.entry id) = (db'.found q id).map (EntryDoc.entry id)) ∧
      ∀ id ∈ db.foundIDs q, ∀ id' ∈ db.foundIDs q,
        db.entryRank id ≤ db.entryRank id' ↔ db'.entryRank id ≤ db'.entryRank id' := by
  have hsorted : ∀ db : Firestore, (db.foundIDs q).Pairwise fun id id' =>
      db.entryRank id' ≤ db.entryRank id := fun _ => pairwise_foundIDs
  have hids := sorted_eq_iff entryRank_injective entryRank_injective (hsorted db) (hsorted db')
  constructor
  · intro heq
    have hsame : db.foundIDs q = db'.foundIDs q := by
      rw [← map_entryId_shownEntries, heq, map_entryId_shownEntries]
    refine ⟨fun id => ?_, (hids.mp hsame).2⟩
    have hmem : ∀ (db : Firestore) (a : Entry), (db.found q id).map (EntryDoc.entry id) = some a ↔
        a ∈ shownEntries (db.exploreQuery q) ∧ a.entryId = id := by
      intro db a
      rw [shownEntries_eq, List.mem_filterMap]
      constructor
      · intro ha
        obtain ⟨d, hd, rfl⟩ := Option.map_eq_some_iff.mp ha
        exact ⟨⟨id, mem_foundIDs.mpr (by rw [hd]; rfl), ha⟩, rfl⟩
      · rintro ⟨⟨id', -, ha⟩, hid⟩
        obtain ⟨d, hd, rfl⟩ := Option.map_eq_some_iff.mp ha
        obtain rfl : id' = id := hid
        exact ha
    exact Option.ext fun a => by rw [hmem, hmem, heq]
  · rintro ⟨hdecoded, hplace⟩
    have hsome : ∀ id, (db.found q id).isSome = (db'.found q id).isSome := fun id => by
      rw [← Option.isSome_map (f := EntryDoc.entry id), hdecoded, Option.isSome_map]
    have hperm : (db.foundIDs q).Perm (db'.foundIDs q) :=
      (List.perm_ext_iff_of_nodup nodup_foundIDs nodup_foundIDs).mpr fun id => by
        rw [mem_foundIDs, mem_foundIDs, hsome]
    rw [shownEntries_eq, shownEntries_eq, hids.mpr ⟨hperm, hplace⟩]
    simp only [hdecoded]

/-- A comparison is known from that the other way round. -/
theorem entryRank_le_iff {id id' : EntryID}
    (h : db.entryRank id' ≤ db.entryRank id ↔ db'.entryRank id' ≤ db'.entryRank id) :
    db.entryRank id ≤ db.entryRank id' ↔ db'.entryRank id ≤ db'.entryRank id' := by
  by_cases hid : id = id'
  · rw [hid]
    simp
  · have hne : db.entryRank id' ≠ db.entryRank id := fun he => hid (entryRank_injective he).symm
    have hne' : db'.entryRank id' ≠ db'.entryRank id := fun he =>
      hid (entryRank_injective he).symm
    rw [← not_lt, ← not_lt, ← hne.le_iff_lt, ← hne'.le_iff_lt, h]

/-- For stores that differ only in the entries of one user, only these matter. -/
theorem DifferOnly.shownEntries_eq_iff (hdiff : DifferOnly db db' p) :
    shownEntries (db.exploreQuery q) = shownEntries (db'.exploreQuery q) ↔ Alike db db' p q := by
  rw [Firestore.shownEntries_eq_iff]
  constructor
  · rintro ⟨hdecoded, hplace⟩
    refine ⟨fun id _ _ => hdecoded id, ?_⟩
    intro id id' d hd d' hd' e he e' he' _ _
    have hrank := hplace id (mem_foundIDs.mpr (Option.isSome_of_mem hd)) id'
      (mem_foundIDs.mpr (Option.isSome_of_mem hd'))
    rwa [entryRank_of_found hd, entryRank_of_found hd', entryRank_of_found he,
      entryRank_of_found he'] at hrank
  · intro h
    have hdecoded : ∀ id, (db.found q id).map (EntryDoc.entry id) =
        (db'.found q id).map (EntryDoc.entry id) := by
      intro id
      rcases hdiff.entries id with hsame | ⟨hp, hp'⟩
      · rw [found, found, hsame]
      · exact h.decoded id (fun d hd => hp d (found_eq_some.mp hd).1)
          fun d hd => hp' d (found_eq_some.mp hd).1
    have hfound : ∀ id ∈ db.foundIDs q, ∃ d ∈ db.found q id, ∃ e ∈ db'.found q id, True := by
      intro id hid
      obtain ⟨d, hd⟩ := Option.isSome_iff_exists.mp (mem_foundIDs.mp hid)
      have hsome : ((db'.found q id).map (EntryDoc.entry id)).isSome := by
        rw [← hdecoded, hd]
        rfl
      rw [Option.isSome_map] at hsome
      obtain ⟨e, he⟩ := Option.isSome_iff_exists.mp hsome
      exact ⟨d, hd, e, he, trivial⟩
    -- the place of an entry of `p` among the others
    have howned : ∀ id ∈ db.foundIDs q, ∀ id' ∈ db.foundIDs q,
        ((∀ d ∈ db.entries.lookup id, d.userID = p) ∧ ∀ d ∈ db'.entries.lookup id, d.userID = p) →
        (db.entryRank id ≤ db.entryRank id' ↔ db'.entryRank id ≤ db'.entryRank id') := by
      intro id hid id' hid' ⟨hp, hp'⟩
      obtain ⟨d, hd, e, he, -⟩ := hfound id hid
      obtain ⟨d', hd', e', he', -⟩ := hfound id' hid'
      rw [entryRank_of_found hd, entryRank_of_found hd', entryRank_of_found he,
        entryRank_of_found he']
      exact h.place id id' d hd d' hd' e he e' he' (hp d (found_eq_some.mp hd).1)
        (hp' e (found_eq_some.mp he).1)
    refine ⟨hdecoded, fun id hid id' hid' => ?_⟩
    rcases hdiff.entries id with hsame | hp
    · rcases hdiff.entries id' with hsame' | hp'
      · rw [entryRank, entryRank, entryRank, entryRank, hsame, hsame']
      · exact entryRank_le_iff (howned id' hid' id hid hp')
    · exact howned id hid id' hid' hp

end

end Firestore

namespace Explore

open Firestore

/-- **What a stranger sees of somebody's entries**: two stores that differ only in the entries of
`p` look the same on the explore screen exactly if these entries do. -/
theorem entries_eq_iff {db db' : Firestore} {l : Explore} {v p : Uid}
    (hdiff : DifferOnly db db' p) (hv : l.authUser = some v) :
    (∀ entries entries', Shows db l entries → Shows db' l entries' → entries = entries') ↔
      Alike db db' p l.searchQuery := by
  rw [← hdiff.shownEntries_eq_iff]
  constructor
  · intro h
    exact h _ _ ((shows_iff hv).mpr rfl) ((shows_iff hv).mpr rfl)
  · intro h entries entries' hshows hshows'
    rw [(shows_iff hv).mp hshows, (shows_iff hv).mp hshows', h]

/-- A store with Peter, who is private and has no followers, and Ann. Peter has these entries. -/
def samplePrivate (entries : Collection EntryID EntryDoc) : Firestore where
  users := (AList.insert "ann" ⟨"ann", [], [], [], "", true, [], none, none⟩ ∅).insert "peter"
    ⟨"peter", [], [], [], "", false, [], none, none⟩
  trips := ∅
  entries := entries
  newsfeed := ∅

/-- An entry of Peter. -/
def sampleSecret : EntryDoc :=
  { sampleEntryDoc "a" with
    entryName := "secret"
    locationName := "Rome"
    timestamp := 1
    userID := "peter"
    username := none
    tripID := none }

/-- The stores differ only in whether Peter has the entry. -/
theorem differOnly_sample (d : EntryDoc) (hd : d.userID = "peter") :
    DifferOnly (samplePrivate ∅) (samplePrivate (AList.insert "a" d ∅)) "peter" := by
  refine ⟨rfl, rfl, rfl, fun id => Or.inr ⟨fun d hd => by simp [samplePrivate] at hd, ?_⟩⟩
  intro d' hd'
  change (AList.insert "a" d ∅ : Collection EntryID EntryDoc).lookup id = some d' at hd'
  rw [Collection.lookup_insert_eq] at hd'
  split at hd' <;> simp_all

/-- Peter has the entry since this time, and Ann has another one. -/
def sampleTimes (time : Timestamp) : Firestore :=
  samplePrivate (AList.insert "a" { sampleSecret with timestamp := time }
    (AList.insert "b" { sampleSecret with userID := "ann", timestamp := 5 } ∅))

theorem lookup_sampleTimes (time : Timestamp) (id : EntryID) :
    (sampleTimes time).entries.lookup id =
      if id = "a" then some { sampleSecret with timestamp := time }
      else if id = "b" then some { sampleSecret with userID := "ann", timestamp := 5 }
      else none := by
  change AList.lookup id (AList.insert "a" _ (AList.insert "b" _ ∅)) = _
  rw [Collection.lookup_insert_eq, Collection.lookup_insert_eq, AList.lookup_empty]

theorem found_sampleTimes (time : Timestamp) (id : EntryID) :
    (sampleTimes time).found "" id = (sampleTimes time).entries.lookup id := by
  rw [Firestore.found, lookup_sampleTimes]
  split_ifs <;> rfl

/-- When Peter made his entry cannot be seen, if it was before Ann made hers. -/
theorem entries_eq_iff_sample :
    DifferOnly (sampleTimes 1) (sampleTimes 2) "peter" ∧
    (sampleTimes 1).foundIDs "" = ["b", "a"] ∧
    ∀ entries entries', Shows (sampleTimes 1) (opened (some "ann")) entries →
      Shows (sampleTimes 2) (opened (some "ann")) entries' → entries = entries' := by
  have hdiff : DifferOnly (sampleTimes 1) (sampleTimes 2) "peter" := by
    refine ⟨rfl, rfl, rfl, fun id => ?_⟩
    rw [lookup_sampleTimes, lookup_sampleTimes]
    split_ifs
    · exact .inr ⟨by rintro _ ⟨⟩; rfl, by rintro _ ⟨⟩; rfl⟩
    · exact .inl rfl
    · exact .inl rfl
  refine ⟨hdiff, by decide +kernel,
    (entries_eq_iff (v := "ann") hdiff rfl).mpr ⟨fun id _ _ => ?_, ?_⟩⟩
  · change ((sampleTimes 1).found "" id).map _ = ((sampleTimes 2).found "" id).map _
    rw [found_sampleTimes, found_sampleTimes, lookup_sampleTimes, lookup_sampleTimes]
    split_ifs <;> rfl
  · intro id id' d hd d' hd' e he e' he' hp hp'
    change d ∈ (sampleTimes 1).found "" id at hd
    change d' ∈ (sampleTimes 1).found "" id' at hd'
    change e ∈ (sampleTimes 2).found "" id at he
    change e' ∈ (sampleTimes 2).found "" id' at he'
    rw [found_sampleTimes, lookup_sampleTimes] at hd hd' he he'
    split_ifs at hd he hd' he' <;> cases hd <;> cases he <;> cases hd' <;> cases he'
    · subst_vars
      exact iff_of_true le_rfl le_rfl
    · subst_vars
      exact iff_of_true (by decide) (by decide)
    · exact absurd hp (by decide)
    · exact absurd hp (by decide)

/-- Ann sees the entry of Peter, who is private and whom she does not follow. -/
theorem secret_shown :
    (∃ d ∈ (samplePrivate ∅).users.lookup "peter", d.publicUser = false ∧ "ann" ∉ d.followers) ∧
      DifferOnly (samplePrivate ∅) (samplePrivate (AList.insert "a" sampleSecret ∅)) "peter" ∧
      ∃ entries entries', Shows (samplePrivate ∅) (opened (some "ann")) entries ∧
        Shows (samplePrivate (AList.insert "a" sampleSecret ∅)) (opened (some "ann")) entries' ∧
        entries ≠ entries' := by
  refine ⟨⟨_, rfl, rfl, by decide⟩, differOnly_sample _ rfl, _, _, (shows_iff rfl).mpr rfl,
    (shows_iff rfl).mpr rfl, ?_⟩
  decide +kernel

end Explore

end Wanderlust
