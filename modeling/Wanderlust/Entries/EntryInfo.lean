import Wanderlust.Entries.EditEntry
import Wanderlust.Foundations.Handlers
import Wanderlust.Foundations.Listener
import Wanderlust.Models.User

/-!
# The screen of an entry

`EntryInfoViewController`, with the screens on which the entry is edited from it, which share
`currentUser` and the Storage objects with it.

The settings button is disabled when the entry has arrived and is somebody else's. Whoever opens the
sheet before that can still edit from it, but an edit that starts without the images of the entry
writes nothing. So a stranger changes nothing unless the sheet is open while the entry arrives
(`stranger_changes_nothing`); if it is, the edit starts with all that the entry has
(`edits_of_open_sheet`).
-/

namespace Wanderlust

open Async Runs

/-- The state of the screen, with the globals and the screens that it has pushed. -/
structure EntryInfo where
  /-- The uid of `Auth.auth().currentUser`. -/
  user : Uid
  currentUser : User
  entryID : EntryID
  entryName : String
  entryLocation : String
  entryDescription : String
  username : Option String
  /-- The title of `tripLink`. -/
  tripLink : String
  tripID : Option TripID
  entryImages : List URL
  /-- `settingsButton` is enabled. -/
  settingsButton : Bool
  /-- The sheet of `barButtonPressed` is presented. -/
  sheet : Bool
  bucket : Bucket
  edits : List EditEntry

namespace EntryInfo

inductive Callback
  -- `loadEntryInfo`
  | entryFetched
  | tripFetched (t : TripID)
  | userFetched (uid : Uid)
  /-- A closure of a screen that has been pushed. -/
  | edit (i : ℕ) (k : EditEntry.Callback)
  deriving DecidableEq

inductive Event
  | viewWillAppear
  | barButtonPressed
  | editPressed
  | cancelPressed
  | tripLinkPressed
  /-- Something is done on a screen that has been pushed. -/
  | edit (i : ℕ) (e : EditEntry.Event)

abbrev Cmd := Async.Cmd Write Callback
abbrev Handler := Async.Handler EntryInfo Write Callback

/-- The screen before it appears, with the texts of the storyboard. -/
def opened (user : Uid) (currentUser : User) (entryID : EntryID) (bucket : Bucket) : EntryInfo where
  user := user
  currentUser := currentUser
  entryID := entryID
  entryName := "Entry Name"
  entryLocation := "Entry Location"
  entryDescription := "Description"
  username := some "Username"
  tripLink := "Trip Name"
  tripID := none
  entryImages := []
  settingsButton := true
  sheet := false
  bucket := bucket
  edits := []

/-- `loadEntryInfo`. -/
def loadEntryInfo : Handler := .issue fun _ => [.request .entryFetched]

/-- `loadEntryImages` and `checkUser`. -/
def loadEntryImages (document : Option EntryDoc) (l : EntryInfo) : EntryInfo :=
  { l with
    entryImages := (document.map EntryDoc.mediaList).getD []
    settingsButton := l.settingsButton && document.all fun d => decide (l.user = d.userID) }

/-- What the screen shows of an entry of the trip `t`. -/
def showEntry (d : EntryDoc) (t : TripID) (l : EntryInfo) : EntryInfo :=
  loadEntryImages (some d)
    { l with
      entryName := d.entryName
      entryLocation := d.locationName
      entryDescription := d.description
      tripID := some t }

/-- The closure of `loadEntryInfo` that is given the document. `as! String` traps on an entry that
has not been put into a trip. -/
def entryFetched (document : Option EntryDoc) (l : EntryInfo) : Option (EntryInfo × List Cmd) :=
  match document with
  | none => some (loadEntryImages none l, [])
  | some d => d.tripID.map fun t =>
    (showEntry d t l, [.request (.tripFetched t), .request (.userFetched d.userID)])

/-- Code of a screen that has been pushed, with the globals. -/
def runEdit (i : ℕ) (code : EditEntry → Option (EditEntry × List EditEntry.Cmd)) (l : EntryInfo) :
    Option (EntryInfo × List Cmd) :=
  l.edits[i]?.bind fun edit =>
    (code { edit with currentUser := l.currentUser, bucket := l.bucket }).map fun r =>
      ({ l with bucket := r.1.bucket, edits := l.edits.set i r.1 }, r.2.map (Cmd.map (.edit i)))

/-- The screen that `Edit` pushes. -/
def editScreen (l : EntryInfo) : EditEntry :=
  .opened l.currentUser l.entryID l.entryName l.entryLocation l.entryDescription l.entryImages
    l.bucket

/-- The code of the closures. -/
def react : Callback → Bool → Unit → EntryInfo → Firestore → Option (EntryInfo × List Cmd)
  | .entryFetched, ok, _, l, db =>
    -- `document!` traps
    if ok then entryFetched (db.entries.lookup l.entryID) l else none
  | .tripFetched t, ok, _, l, db =>
    match if ok then db.trips.lookup t else none with
    | none => some (l, [])
    | some d => some ({ l with tripLink := d.tripName }, [])
  | .userFetched uid, ok, _, l, db =>
    let user := if ok then db.fetchUser uid else none
    some ({ l with username := user.map fun user => user.username }, [])
  | .edit i k, ok, a, l, db => l.runEdit i fun edit => EditEntry.react k ok a edit db

/-- The code of the user's actions. -/
def event : Event → EntryInfo → Firestore → Option (EntryInfo × List Cmd)
  | .viewWillAppear, l, _ => some (loadEntryInfo l)
  | .barButtonPressed, l, _ =>
    if l.settingsButton then some ({ l with sheet := true }, []) else none
  | .editPressed, l, _ =>
    if l.sheet then some ({ l with sheet := false, edits := l.edits ++ [l.editScreen] }, [])
    else none
  | .cancelPressed, l, _ => some ({ l with sheet := false }, [])
  -- `tripID!` traps
  | .tripLinkPressed, l, _ => l.tripID.map fun _ => (l, [])
  | .edit i e, l, db => l.runEdit i fun edit => EditEntry.event e edit db

/-- `EntryInfoViewController`. -/
def program : Async.Program Firestore EntryInfo Write Callback Unit Event where
  apply := Write.apply
  react := react
  event := event

end EntryInfo

/-! ## An edit without images -/

namespace EditEntry

/-- The edit, which is by the user of `l₀` and of the same entry, has started without the images of
the entry, and nothing has been loaded. -/
structure Blank (l₀ l : EditEntry) : Prop where
  uid : l.currentUser.uid = l₀.currentUser.uid
  entryID : l.entryID = l₀.entryID
  initialImageCount : l.initialImageCount = 0
  entryInfoImages : l.entryInfoImages = []

/-- A closure of such an edit: only the cover is stored. -/
def Callback.CoverOnly (l₀ : EditEntry) : Callback → Prop
  | .coverUploaded path _ => path = l₀.coverPath
  | .coverURL _ => True
  | _ => False

/-- Code of such an edit leaves it blank, stores nothing but the cover, and writes nothing. -/
structure Idles (l₀ l : EditEntry) (r : EditEntry × List Cmd) : Prop where
  blank : Blank l₀ r.1
  bucket : ∀ path, path ≠ l₀.coverPath → r.1.bucket.lookup path = l.bucket.lookup path
  commands : ∀ c ∈ r.2, ∃ k, c = .request k ∧ k.CoverOnly l₀

section

variable {l₀ l : EditEntry} {r : EditEntry × List Cmd} {db : Firestore}

theorem Blank.coverPath (h : Blank l₀ l) : l.coverPath = l₀.coverPath := by
  rw [EditEntry.coverPath, EditEntry.coverPath, h.uid, h.entryID]

theorem Blank.skip (h : Blank l₀ l) {l' : EditEntry} (hblank : Blank l l')
    (hbucket : l'.bucket = l.bucket) : Idles l₀ l (l', []) :=
  ⟨⟨hblank.uid.trans h.uid, hblank.entryID.trans h.entryID, hblank.initialImageCount,
    hblank.entryInfoImages⟩, fun _ _ => by rw [hbucket], fun c hc => by cases hc⟩

/-- What the user does. -/
theorem Blank.event (h : Blank l₀ l) {e : Event} (he : EditEntry.event e l db = some r) :
    Idles l₀ l r := by
  have hsame : Blank l l := ⟨rfl, rfl, h.initialImageCount, h.entryInfoImages⟩
  cases e with
  | viewDidLoad =>
    cases he
    have hnone : ¬ 0 < l.entryInfoImages.length := by rw [h.entryInfoImages]; exact lt_irrefl 0
    rw [viewDidLoad, if_neg hnone]
    exact h.skip hsame rfl
  | deleteImage index =>
    simp only [EditEntry.event] at he
    split at he <;> cases he
    exact h.skip ⟨rfl, rfl, h.initialImageCount, h.entryInfoImages⟩ rfl
  | saveButton =>
    cases he
    simp only [saveButton]
    split
    · exact h.skip ⟨rfl, rfl, h.initialImageCount, h.entryInfoImages⟩ rfl
    · simp only [uploadEntryCoverPhoto, Handler.issue_apply]
      refine ⟨h, fun _ _ => rfl, fun c hc => ?_⟩
      split at hc
      · cases hc
      · exact ⟨_, List.mem_singleton.mp hc, h.coverPath⟩
  | _ =>
    cases he
    exact h.skip ⟨rfl, rfl, h.initialImageCount, h.entryInfoImages⟩ rfl

/-- What its closures do. -/
theorem Blank.react (h : Blank l₀ l) {k : Callback} (hk : k.CoverOnly l₀) {ok : Bool} {a : Unit}
    (hr : EditEntry.react k ok a l db = some r) : Idles l₀ l r := by
  cases k with
  | coverUploaded path data =>
    obtain rfl : path = l₀.coverPath := hk
    cases hr
    refine ⟨?_, fun p hp => ?_, fun c hc => ⟨_, List.mem_singleton.mp hc, trivial⟩⟩
    · cases ok <;> exact ⟨h.uid, h.entryID, h.initialImageCount, h.entryInfoImages⟩
    · cases ok
      · rfl
      · exact AList.lookup_insert_ne hp
  | coverURL path =>
    have hnone : ¬ 0 < l.initialImageCount := by rw [h.initialImageCount]; exact lt_irrefl 0
    simp only [EditEntry.react, coverSaved, gt_iff_lt, if_neg hnone] at hr
    split at hr <;> cases hr <;>
      exact h.skip ⟨rfl, rfl, h.initialImageCount, h.entryInfoImages⟩ rfl
  | _ => exact hk.elim

end

end EditEntry

/-! ## Strangers -/

namespace EntryInfo

/-- A state of the screen with what is under way. -/
abbrev Screen := State Firestore EntryInfo Write Callback

/-- A step of the screen. -/
def Turn (st : Screen) (lbl : Label Unit Event) (st' : Screen) : Prop :=
  program.step lbl st = some st'

/-- The entry arrives. -/
def arrives : Async.Move Callback Unit Event → Bool
  | .deliver .entryFetched _ _ => true
  | _ => false

/-- The sheet is not open if the entry arrives. -/
def NoSheet (st : Screen) (lbl : Label Unit Event) : Prop :=
  (st.move lbl).any arrives = true → st.loc.sheet = false

instance (st : Screen) : DecidablePred (NoSheet st) := fun lbl =>
  inferInstanceAs (Decidable ((st.move lbl).any arrives = true → st.loc.sheet = false))

/-- A closure of the screen of a stranger. -/
def Callback.Harmless (l₀ : EntryInfo) : Callback → Prop
  | .edit _ k => k.CoverOnly l₀.editScreen
  | _ => True

/-- What the screen has of an entry that is not the user's: when the images are there, there is no
way to edit. -/
structure Locked (l₀ l : EntryInfo) : Prop where
  user : l.user = l₀.user
  currentUser : l.currentUser = l₀.currentUser
  entryID : l.entryID = l₀.entryID
  closed : l.entryImages = [] ∨ l.settingsButton = false ∧ l.sheet = false
  edits : ∀ edit ∈ l.edits, EditEntry.Blank l₀.editScreen edit
  bucket : ∀ path, path ≠ l₀.editScreen.coverPath → l.bucket.lookup path = l₀.bucket.lookup path

/-- Code of the screen writes nothing. -/
structure Keeps (l₀ : EntryInfo) (r : EntryInfo × List Cmd) : Prop where
  locked : Locked l₀ r.1
  commands : ∀ c ∈ r.2, ∃ k, c = .request k ∧ k.Harmless l₀

/-- The invariant. -/
structure Stranger (l₀ : EntryInfo) (db : Firestore) (st : Screen) : Prop where
  store : st.store = db
  queue : st.queue = []
  locked : Locked l₀ st.loc
  ready : ∀ x ∈ st.ready, x.1.Harmless l₀

section

variable {l₀ l l' : EntryInfo} {db : Firestore} {st st' : Screen} {lbl : Label Unit Event}
  {r : EntryInfo × List Cmd}

theorem Locked.skip (h : Locked l₀ l') : Keeps l₀ (l', []) := ⟨h, fun c hc => by cases hc⟩

/-- Code of a pushed screen. -/
theorem Locked.runEdit (h : Locked l₀ l) {i : ℕ}
    {code : EditEntry → Option (EditEntry × List EditEntry.Cmd)}
    (hcode : ∀ edit r, EditEntry.Blank l₀.editScreen edit → code edit = some r →
      EditEntry.Idles l₀.editScreen edit r)
    (hr : l.runEdit i code = some r) : Keeps l₀ r := by
  obtain ⟨edit, hedit, hr⟩ := Option.bind_eq_some_iff.mp hr
  obtain ⟨r', hr', rfl⟩ := Option.map_eq_some_iff.mp hr
  have hblank := h.edits edit (List.mem_of_getElem? hedit)
  have huid : l.currentUser.uid = l₀.currentUser.uid := congrArg User.uid h.currentUser
  have hidles := hcode { edit with currentUser := l.currentUser, bucket := l.bucket } r'
    ⟨huid, hblank.entryID, hblank.initialImageCount, hblank.entryInfoImages⟩ hr'
  refine ⟨⟨h.user, h.currentUser, h.entryID, h.closed, fun edit' hedit' => ?_,
    fun path hpath => (hidles.bucket path hpath).trans (h.bucket path hpath)⟩, fun c hc => ?_⟩
  · rcases List.mem_or_eq_of_mem_set hedit' with hmem | rfl
    · exact h.edits edit' hmem
    · exact hidles.blank
  · obtain ⟨c', hc', rfl⟩ := List.mem_map.mp hc
    obtain ⟨k, rfl, hk⟩ := hidles.commands c' hc'
    exact ⟨.edit i k, rfl, hk⟩

/-- What the user does. -/
theorem Locked.event (h : Locked l₀ l) {e : Event} (he : EntryInfo.event e l db = some r) :
    Keeps l₀ r := by
  cases e with
  | viewWillAppear =>
    cases he
    exact ⟨h, fun c hc => ⟨_, List.mem_singleton.mp hc, trivial⟩⟩
  | barButtonPressed =>
    simp only [EntryInfo.event] at he
    split at he <;> cases he
    rename_i hbutton
    have hnone := h.closed.resolve_right fun hlocked => by simp [hlocked.1] at hbutton
    exact Locked.skip ⟨h.user, h.currentUser, h.entryID, .inl hnone, h.edits, h.bucket⟩
  | editPressed =>
    simp only [EntryInfo.event] at he
    split at he <;> cases he
    rename_i hsheet
    have hnone := h.closed.resolve_right fun hlocked => by simp [hlocked.2] at hsheet
    refine Locked.skip ⟨h.user, h.currentUser, h.entryID, .inl hnone, fun edit hedit => ?_,
      h.bucket⟩
    rcases List.mem_append.mp hedit with hold | hnew
    · exact h.edits edit hold
    · have huid : l.currentUser.uid = l₀.currentUser.uid := congrArg User.uid h.currentUser
      rw [List.mem_singleton.mp hnew]
      exact ⟨huid, h.entryID, rfl, hnone⟩
  | cancelPressed =>
    cases he
    exact Locked.skip ⟨h.user, h.currentUser, h.entryID,
      h.closed.imp_right fun hlocked => ⟨hlocked.1, rfl⟩, h.edits, h.bucket⟩
  | tripLinkPressed =>
    obtain ⟨t, -, rfl⟩ := Option.map_eq_some_iff.mp he
    exact h.skip
  | edit i e => exact h.runEdit (fun edit r hblank hr => hblank.event hr) he

/-- The entry arrives. -/
theorem Locked.entryFetched (h : Locked l₀ l) {document : Option EntryDoc}
    (hdoc : ∀ d ∈ document, d.userID ≠ l₀.user) (hsheet : l.sheet = false)
    (hr : EntryInfo.entryFetched document l = some r) : Keeps l₀ r := by
  cases document with
  | none =>
    cases hr
    exact Locked.skip ⟨h.user, h.currentUser, h.entryID, .inl rfl, h.edits, h.bucket⟩
  | some d =>
    obtain ⟨t, -, rfl⟩ := Option.map_eq_some_iff.mp hr
    have hbutton : (l.settingsButton && decide (l.user = d.userID)) = false := by
      rw [h.user, decide_eq_false (Ne.symm (hdoc d rfl)), Bool.and_false]
    refine ⟨⟨h.user, h.currentUser, h.entryID, .inr ⟨hbutton, hsheet⟩, h.edits, h.bucket⟩,
      fun c hc => ?_⟩
    rcases List.mem_cons.mp hc with rfl | hc
    · exact ⟨_, rfl, trivial⟩
    · exact ⟨_, List.mem_singleton.mp hc, trivial⟩

/-- What the closures do. -/
theorem Locked.react (h : Locked l₀ l) (hdoc : ∀ d ∈ db.entries.lookup l₀.entryID,
    d.userID ≠ l₀.user) {k : Callback} (hk : k.Harmless l₀) {ok : Bool} {a : Unit}
    (hsheet : k = .entryFetched → l.sheet = false)
    (hr : EntryInfo.react k ok a l db = some r) : Keeps l₀ r := by
  cases k with
  | entryFetched =>
    simp only [EntryInfo.react] at hr
    split at hr
    · rw [h.entryID] at hr
      exact h.entryFetched hdoc (hsheet rfl) hr
    · cases hr
  | tripFetched t =>
    simp only [EntryInfo.react] at hr
    split at hr <;> cases hr
    · exact h.skip
    · exact Locked.skip ⟨h.user, h.currentUser, h.entryID, h.closed, h.edits, h.bucket⟩
  | userFetched uid =>
    cases hr
    exact Locked.skip ⟨h.user, h.currentUser, h.entryID, h.closed, h.edits, h.bucket⟩
  | edit i k => exact h.runEdit (fun edit r hblank hr => hblank.react hk hr) hr

/-- **One step.** -/
theorem Stranger.step (h : Stranger l₀ db st)
    (hdoc : ∀ d ∈ db.entries.lookup l₀.entryID, d.userID ≠ l₀.user) (hs : Turn st lbl st')
    (hsheet : NoSheet st lbl) : Stranger l₀ db st' := by
  have hview : program.view st = db := by rw [Program.view, h.queue, List.foldl_nil, h.store]
  rcases step_runs hs with ⟨r, hr, rfl⟩ | ⟨w, k, q, hq, -⟩
  · have hkeeps : Keeps l₀ r := by
      cases hr with
      | event he => exact h.locked.event he
      | @deliver i ok a k o r hi ho hr =>
        rw [hview] at hr
        refine h.locked.react hdoc (h.ready _ (List.mem_of_getElem? hi)) (fun hk => hsheet ?_) hr
        subst hk
        simp [State.move, hi, arrives]
    refine ⟨h.store, ?_, hkeeps.locked, fun x hx => ?_⟩
    · rw [h.queue, List.nil_append, List.eq_nil_iff_forall_not_mem]
      intro x hx
      obtain ⟨k, hk, -⟩ := hkeeps.commands _ (mem_writes.mp hx)
      cases hk
    · rcases List.mem_append.mp hx with hx | hx
      · exact h.ready x (mem_ready_of_awaited hx)
      · obtain ⟨k, hk, hharmless⟩ := hkeeps.commands _ (mem_requests hx)
        cases hk
        exact hharmless
  · rw [h.queue] at hq
    cases hq

/-- **A stranger changes nothing**: on the screen of an entry that is somebody else's, and on all
screens that are pushed from it, nothing is written, and nothing but the user's own cover is stored,
unless the sheet is open when the entry arrives. -/
theorem stranger_changes_nothing {me : Uid} {currentUser : User} {id : EntryID} {bucket : Bucket}
    {tr : List (Label Unit Event × Screen)}
    (hdoc : ∀ d ∈ db.entries.lookup id, d.userID ≠ me)
    (hrun : IsRun Turn (start db (opened me currentUser id bucket)) tr)
    (hsheet : Meets NoSheet (start db (opened me currentUser id bucket)) tr) :
    ∀ x ∈ tr, x.2.store = db ∧ x.2.queue = [] ∧
      ∀ path, path ≠ (opened me currentUser id bucket).editScreen.coverPath →
        x.2.loc.bucket.lookup path = bucket.lookup path := by
  have hstart : Stranger (opened me currentUser id bucket) db
      (start db (opened me currentUser id bucket)) :=
    ⟨rfl, rfl, ⟨rfl, rfl, rfl, .inl rfl, fun _ he => (by cases he), fun _ _ => rfl⟩,
      fun _ hx => (by cases hx)⟩
  intro x hx
  have hend := hrun.invariant (I := Stranger (opened me currentUser id bucket) db)
    (fun st lbl _ h hs (hc : NoSheet st lbl) => h.step hdoc hs hc) hstart hsheet x hx
  exact ⟨hend.store, hend.queue, hend.locked.bucket⟩

/-- **A sheet that is open when the entry arrives** leads to an edit with all that the entry has. -/
theorem edits_of_open_sheet {d : EntryDoc} {t : TripID} {i : ℕ}
    (hi : st.ready[i]? = some (.entryFetched, none))
    (hd : (program.view st).entries.lookup st.loc.entryID = some d) (ht : d.tripID = some t)
    (hsheet : st.loc.sheet = true) :
    ∃ st₁ st₂, Turn st (.deliver i true ()) st₁ ∧ Turn st₁ (.event .editPressed) st₂ ∧
      EditEntry.opened st.loc.currentUser st.loc.entryID d.entryName d.locationName d.description
        d.mediaList st.loc.bucket ∈ st₂.loc.edits := by
  have hreact : program.react .entryFetched true () st.loc (program.view st) =
      some (showEntry d t st.loc,
        [.request (.tripFetched t), .request (.userFetched d.userID)]) := by
    show entryFetched _ st.loc = _
    rw [hd, entryFetched, ht]
    rfl
  have hfirst : ∃ st₁, Turn st (.deliver i true ()) st₁ ∧ st₁.loc = showEntry d t st.loc := by
    refine ⟨{ st with loc := showEntry d t st.loc, ready := st.ready.eraseIdx i }.issue
      [.request (.tripFetched t), .request (.userFetched d.userID)], ?_, loc_issue _ _⟩
    simp only [Turn, Program.step, hi, true_or, if_true, hreact, Option.map_some]
  obtain ⟨st₁, hst₁, hloc⟩ := hfirst
  have hopen : st₁.loc.sheet = true := by
    rw [hloc]
    exact hsheet
  refine ⟨st₁, { st₁ with loc :=
    { st₁.loc with sheet := false, edits := st₁.loc.edits ++ [st₁.loc.editScreen] } }, hst₁, ?_, ?_⟩
  · simp only [Turn, Program.step, program, event, hopen, if_true]
    rfl
  · rw [hloc]
    exact List.mem_append_right _ (List.mem_singleton.mpr rfl)

end

/-- Bob's entry, which Ann looks at. -/
def foreignDoc : EntryDoc :=
  { sampleEntryDoc "e" with
    description := "text"
    entryName := "Rome"
    locationName := "Rome"
    userID := "bob"
    username := some "bob"
    mediaList := [⟨"photo"⟩] }

def foreignEntry : Firestore where
  users := AList.insert "bob" (newUser "bob") ∅
  trips := AList.insert "t" ⟨"Trip", some ⟨"cover"⟩, "bob", 0, ["e"]⟩ ∅
  entries := AList.insert "e" foreignDoc ∅
  newsfeed := ∅

/-- Ann opens the screen. -/
def foreignScreen : Screen :=
  start foreignEntry (opened "ann" sampleAnn "e"
    (AList.insert "photo" "photo" (AList.insert "cover" "cover" ∅)))

/-- Ann opens the edit before the entry arrives, and saves it when the entry has arrived. -/
def blankEdit : List (Label Unit Event) :=
  [.event .viewWillAppear, .event .barButtonPressed, .event .editPressed, .deliver 0 true (),
    .event (.edit 0 .viewDidLoad), .event (.edit 0 (.selectCover (.ofData "mine"))),
    .event (.edit 0 (.addPhoto (.ofData "mine"))), .event (.edit 0 .saveButton),
    .deliver 2 true (), .deliver 2 true (), .deliver 0 true (), .deliver 0 true ()]

theorem stranger_changes_nothing_sample : ∃ tr, IsRun Turn foreignScreen tr ∧
    Meets NoSheet foreignScreen tr ∧ tr.map Prod.fst = blankEdit ∧
    ∀ x ∈ tr, x.2.store = foreignEntry := by
  obtain ⟨tr, htr⟩ : ∃ tr,
      tr ∈ play (fun st lbl => program.step lbl st) blankEdit foreignScreen :=
    Option.isSome_iff_exists.mp (by decide +kernel)
  have hsheet : ∀ tr ∈ play (fun st lbl => program.step lbl st) blankEdit foreignScreen,
      Meets NoSheet foreignScreen tr := by
    decide +kernel
  have hrun : IsRun Turn foreignScreen tr := isRun_of_play htr
  exact ⟨tr, hrun, hsheet tr htr, labels_of_play htr, fun x hx =>
    (stranger_changes_nothing (by decide +kernel) hrun (hsheet tr htr) x hx).1⟩

/-- Ann has the sheet open while the entry arrives. -/
def openSheet : List (Label Unit Event) :=
  [.event .viewWillAppear, .event .barButtonPressed, .deliver 0 true (), .event .editPressed,
    .event (.edit 0 .viewDidLoad), .deliver 2 true (), .deliver 3 true (), .deliver 2 true (),
    .event (.edit 0 (.editEntryName "Ann was here")), .event (.edit 0 .saveButton),
    .deliver 2 true (), .deliver 2 true (), .deliver 2 true (), .deliver 2 true (), .apply]

/-- **The entry of somebody else is edited.** -/
theorem foreign_entry_edited : ∃ tr, IsRun Turn foreignScreen tr ∧
    ((final foreignScreen tr).store.entries.lookup "e").map EntryDoc.entryName =
      some "Ann was here" := by
  obtain ⟨tr, htr, hname⟩ :
      ∃ tr ∈ play (fun st lbl => program.step lbl st) openSheet foreignScreen,
        ((final foreignScreen tr).store.entries.lookup "e").map EntryDoc.entryName =
          some "Ann was here" := by
    decide +kernel
  exact ⟨tr, isRun_of_play htr, hname⟩

end EntryInfo

end Wanderlust
