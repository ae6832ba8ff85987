import Wanderlust.Explore.Explore
import Wanderlust.Foundations.Handlers
import Wanderlust.Foundations.Slots

/-!
# The tiles of the explore screen

The cells of the collection view of `ExploreViewController`. A cell that is handed to a row shows
the cover of its entry from the cache, or downloads it; a download keeps the cell, not the row, so
when the cell has been handed to another row in the meantime, the image of the old row is put into
it. So a tile ends with its own cover exactly if, since the cell was handed out last, each other
image arrives while its own cover is still on its way (`covers_shown_iff`).
-/

namespace Wanderlust

open Async Runs

/-- The collection view with its cells, and the Storage objects. Cells are numbered. -/
structure Tiles where
  entries : List Entry
  cache : URL → Option UIImage
  /-- The visible cells, with their rows. -/
  visible : Collection ℕ ℕ
  /-- `imageView.image` of a cell. -/
  image : ℕ → Option UIImage
  bucket : Bucket

namespace Tiles

inductive Callback
  -- `getData` of `cellForItemAt`
  | imageDownloaded (cell : ℕ) (url : URL)
  deriving DecidableEq

/-- What the collection view does, and the system with the cache. -/
inductive Event
  | cellForItemAt (cell row : ℕ)
  | didEndDisplaying (cell : ℕ)
  | evict (url : URL)

abbrev Cmd := Async.Cmd Write Callback

/-- The screen when the entries have been loaded. -/
def opened (entries : List Entry) (bucket : Bucket) : Tiles where
  entries := entries
  cache := fun _ => none
  visible := ∅
  image := fun _ => none
  bucket := bucket

/-- `cellForItemAt`, of the cell that is handed to the row. -/
def cellForItemAt (cell row : ℕ) (l : Tiles) : Option (Tiles × List Cmd) :=
  l.entries[row]?.map fun entry =>
    let l := { l with visible := l.visible.insert cell row }
    match entry.coverPhoto with
    | none => (l, [])
    | some coverPhotoUrl =>
      match l.cache coverPhotoUrl with
      | some imageFromCache =>
        ({ l with image := Function.update l.image cell (some imageFromCache) }, [])
      | none => (l, [.request (.imageDownloaded cell coverPhotoUrl)])

/-- The code of the closure. -/
def react : Callback → Bool → Unit → Tiles → Firestore → Option (Tiles × List Cmd)
  | .imageDownloaded cell url, ok, _, l, _ =>
    match if ok then l.bucket.lookup url.path else none with
    | none => some ({ l with image := Function.update l.image cell (some .entryPlaceholder) }, [])
    | some data =>
      some ({ l with
        cache := Function.update l.cache url (some (.ofData data))
        image := Function.update l.image cell (some (.ofData data)) }, [])

/-- The code of the collection view's data source. -/
def event : Event → Tiles → Firestore → Option (Tiles × List Cmd)
  | .cellForItemAt cell row, l, _ => cellForItemAt cell row l
  | .didEndDisplaying cell, l, _ => some ({ l with visible := l.visible.erase cell }, [])
  | .evict url, l, _ => some ({ l with cache := Function.update l.cache url none }, [])

/-- `ExploreViewController`, with its cells. -/
def program : Program Firestore Tiles Write Callback Unit Event where
  apply := Write.apply
  react := react
  event := event

/-! ## The cells -/

/-- A state of the screen with what is under way. -/
abbrev Screen := State Firestore Tiles Write Callback

/-- The image of an object. -/
def imageOf (bucket : Bucket) (url : URL) : Option UIImage :=
  (bucket.lookup url.path).map UIImage.ofData

/-- The cover of the entry at the row. -/
def coverAt (entries : List Entry) (row : ℕ) : Option URL :=
  entries[row]?.bind fun entry => entry.coverPhoto

/-- The image that a download puts into the cell. -/
def Callback.imageFor (bucket : Bucket) (cell : ℕ) : Callback → Option (Option UIImage)
  | .imageDownloaded c url => if c = cell then some (imageOf bucket url) else none

/-- A cell: the cover of the entry at its row, the image that it shows, and the images that are on
their way to it. -/
def slot (cell : ℕ) (x : Direct Firestore Tiles Callback) : Slot (Option UIImage) where
  wanted := ((x.loc.visible.lookup cell).bind (coverAt x.loc.entries)).map (imageOf x.loc.bucket)
  shown := x.loc.image cell
  pending := x.bag.filterMap (Callback.imageFor x.loc.bucket cell)

/-- The image that is put into the cell. -/
def imageIn (bucket : Bucket) (cell : ℕ) :
    Async.Move Callback Unit Event → Option (Option UIImage)
  | .event _ => none
  | .deliver k _ _ => k.imageFor bucket cell

/-- The image that a step puts into the cell. -/
def answer (cell : ℕ) (st : Screen) (lbl : Label Unit Event) : Option (Option UIImage) :=
  (st.move lbl).bind (imageIn st.loc.bucket cell)

/-- The cell is handed to a row, or taken away. -/
def Hands (cell : ℕ) : Event → Prop
  | .cellForItemAt c _ => c = cell
  | .didEndDisplaying c => c = cell
  | .evict _ => False

instance (cell : ℕ) : DecidablePred (Hands cell)
  | .cellForItemAt c _ => inferInstanceAs (Decidable (c = cell))
  | .didEndDisplaying c => inferInstanceAs (Decidable (c = cell))
  | .evict _ => inferInstanceAs (Decidable False)

/-- The cell is handed to a row in the step, or taken away. -/
def Handed (cell : ℕ) (_ : Screen) : Label Unit Event → Prop
  | .event e => Hands cell e
  | _ => False

instance (cell : ℕ) (st : Screen) : DecidablePred (Handed cell st)
  | .event e => inferInstanceAs (Decidable (Hands cell e))
  | .deliver _ _ _ => inferInstanceAs (Decidable False)
  | .apply => inferInstanceAs (Decidable False)
  | .reject => inferInstanceAs (Decidable False)

/-- The downloads succeed. -/
def Answered (l : Tiles) : Async.Move Callback Unit Event → Prop
  | .event _ => True
  | .deliver (.imageDownloaded _ url) ok _ => ok = true ∧ l.bucket.lookup url.path ≠ none

instance (l : Tiles) : DecidablePred (Answered l)
  | .event _ => inferInstanceAs (Decidable True)
  | .deliver (.imageDownloaded _ url) ok _ =>
    inferInstanceAs (Decidable (ok = true ∧ l.bucket.lookup url.path ≠ none))

/-- A step of the screen. -/
def Turn (st : Screen) (lbl : Label Unit Event) (st' : Screen) : Prop :=
  program.step lbl st = some st' ∧ ∀ m ∈ st.move lbl, Answered st.loc m

/-- The cache has the images of the objects. -/
def Cached (l : Tiles) : Prop :=
  ∀ url image, l.cache url = some image → some image = imageOf l.bucket url

section

variable {cell : ℕ} {st st' : Screen} {lbl : Label Unit Event}
  {x x' : Direct Firestore Tiles Callback} {m : Async.Move Callback Unit Event}

/-- What handing out a cell does: it stays as it is, if the entry has no cover, or shows an image of
the cache, or asks for one. -/
theorem cellForItemAt_cases {c row : ℕ} {l : Tiles} {r : Tiles × List Cmd}
    (h : cellForItemAt c row l = some r) :
    (r.1.entries = l.entries ∧ r.1.bucket = l.bucket ∧ r.1.cache = l.cache ∧
      r.1.visible = l.visible.insert c row ∧ ∀ cell ≠ c, r.1.image cell = l.image cell) ∧
    (coverAt l.entries row = none ∧ r.2 = [] ∨ ∃ url, coverAt l.entries row = some url ∧
      ((∃ image, l.cache url = some image ∧ r.1.image c = some image ∧ r.2 = []) ∨
        r.2 = [.request (.imageDownloaded c url)])) := by
  obtain ⟨entry, hentry, h⟩ := Option.map_eq_some_iff.mp h
  have hcover : coverAt l.entries row = entry.coverPhoto := by
    rw [coverAt, hentry]
    rfl
  rw [hcover]
  cases hphoto : entry.coverPhoto with
  | none =>
    simp only [hphoto] at h
    subst h
    exact ⟨⟨rfl, rfl, rfl, rfl, fun _ _ => rfl⟩, Or.inl ⟨rfl, rfl⟩⟩
  | some url =>
    cases hcache : l.cache url with
    | none =>
      simp only [hphoto, hcache] at h
      subst h
      exact ⟨⟨rfl, rfl, rfl, rfl, fun _ _ => rfl⟩, Or.inr ⟨url, rfl, Or.inr rfl⟩⟩
    | some image =>
      simp only [hphoto, hcache] at h
      subst h
      exact ⟨⟨rfl, rfl, rfl, rfl, fun _ hne => Function.update_of_ne hne _ _⟩,
        Or.inr ⟨url, rfl, Or.inl ⟨image, hcache, Function.update_self _ _ _, rfl⟩⟩⟩

/-- One more download. -/
theorem filterMap_cons_imageFor (bucket : Bucket) (c : ℕ) (url : URL) (bag : Multiset Callback) :
    (.imageDownloaded c url ::ₘ bag).filterMap (Callback.imageFor bucket cell) =
      if c = cell then imageOf bucket url ::ₘ bag.filterMap (Callback.imageFor bucket cell)
      else bag.filterMap (Callback.imageFor bucket cell) := by
  split
  · rename_i h
    exact Multiset.filterMap_cons_some _ _ _ (if_pos h)
  · rename_i h
    exact Multiset.filterMap_cons_none _ _ (if_neg h)

/-- Nothing is to be seen of a step at a cell. -/
theorem slot_same {l : Tiles} {bag : Multiset Callback} {db : Firestore}
    (hvisible : l.visible.lookup cell = x.loc.visible.lookup cell)
    (hentries : l.entries = x.loc.entries) (hbucket : l.bucket = x.loc.bucket)
    (himage : l.image cell = x.loc.image cell)
    (hbag : bag.filterMap (Callback.imageFor x.loc.bucket cell) = (slot cell x).pending) :
    (slot cell x).Step (slot cell ⟨db, l, bag⟩) none := by
  refine .other ?_ himage ?_
  · simp only [slot, hvisible, hentries, hbucket]
  · simpa only [slot, hbucket] using hbag

/-- The cell is handed to a row: its cover is shown, or on its way. -/
theorem promised_cellForItemAt {row : ℕ} {r : Tiles × List Cmd} (h : Cached x.loc)
    (hr : cellForItemAt cell row x.loc = some r) :
    (slot cell (program.after r x)).Promised := by
  obtain ⟨⟨hentries, hbucket, hcache, hvisible, -⟩, hcases⟩ := cellForItemAt_cases hr
  intro image himage
  have hwanted : (coverAt x.loc.entries row).map (imageOf x.loc.bucket) = some image := by
    simpa [slot, Program.after, hvisible, hentries, hbucket] using himage
  obtain ⟨url, hurl, rfl⟩ := Option.map_eq_some_iff.mp hwanted
  rcases hcases with ⟨hnone, -⟩ | ⟨url', hurl', ⟨image, hcached, hshown, -⟩ | hcs⟩
  · rw [hnone] at hurl
    cases hurl
  · obtain rfl : url = url' := Option.some.inj (hurl.symm.trans hurl')
    exact Or.inl (hshown.trans (h url image hcached))
  · obtain rfl : url = url' := Option.some.inj (hurl.symm.trans hurl')
    refine Or.inr ?_
    show _ ∈ (x.bag + callbacks r.2).filterMap (Callback.imageFor r.1.bucket cell)
    rw [hcs, hbucket, Multiset.filterMap_add]
    refine Multiset.mem_add.mpr (Or.inr ((Multiset.mem_filterMap _ _).mpr
      ⟨.imageDownloaded cell url, ?_, if_pos rfl⟩))
    simp

/-- **One step** hands the cell out, or is to it what it should be. -/
theorem slot_step (cell : ℕ) (h : Cached x.loc) (hm : Answered x.loc m)
    (hs : DirectStep program x m x') :
    (Cached x'.loc ∧ x'.loc.entries = x.loc.entries ∧ x'.loc.bucket = x.loc.bucket) ∧
      (∀ e, m = .event e → Hands cell e → (slot cell x').Promised) ∧
      ((∀ e, m = .event e → ¬ Hands cell e) →
        (slot cell x).Step (slot cell x') (imageIn x.loc.bucket cell m)) := by
  cases hs with
  | @event e r he =>
    cases e with
    | cellForItemAt c row =>
      obtain ⟨⟨hentries, hbucket, hcache, hvisible, himage⟩, hcases⟩ := cellForItemAt_cases he
      refine ⟨⟨?_, hentries, hbucket⟩, ?_, fun hother => ?_⟩
      · intro url image hcached
        rw [Program.after, hcache] at hcached
        rw [Program.after, hbucket]
        exact h url image hcached
      · rintro _ heq hhands
        cases heq
        obtain rfl : c = cell := hhands
        exact promised_cellForItemAt h he
      · have hne : cell ≠ c := fun heq => hother _ rfl heq.symm
        refine slot_same ?_ hentries hbucket (himage cell hne) ?_
        · rw [hvisible, Collection.lookup_insert_eq, if_neg hne]
        · rw [Multiset.filterMap_add]
          have hnone : (callbacks r.2).filterMap (Callback.imageFor x.loc.bucket cell) = 0 := by
            rcases hcases with ⟨-, hcs⟩ | ⟨url, -, ⟨image, -, -, hcs⟩ | hcs⟩
            · rw [hcs]
              rfl
            · rw [hcs]
              rfl
            · rw [hcs, callbacks_request, callbacks_nil, filterMap_cons_imageFor,
                if_neg (Ne.symm hne), Multiset.filterMap_zero]
          rw [hnone, add_zero]
          rfl
    | didEndDisplaying c =>
      cases he
      refine ⟨⟨h, rfl, rfl⟩, ?_, fun hother => ?_⟩
      · rintro _ heq hhands image himage
        cases heq
        obtain rfl : c = cell := hhands
        simp [slot, Program.after] at himage
      · have hne : cell ≠ c := fun heq => hother _ rfl heq.symm
        refine slot_same ?_ rfl rfl rfl (by rw [callbacks_nil, add_zero]; rfl)
        show (x.loc.visible.erase c).lookup cell = _
        rw [Collection.lookup_erase_eq, if_neg hne]
    | evict url =>
      cases he
      refine ⟨⟨?_, rfl, rfl⟩, ?_, fun _ => ?_⟩
      · intro url' image hcached
        by_cases hurl : url' = url
        · subst hurl
          simp [Program.after] at hcached
        · rw [Program.after] at hcached
          exact h url' image (by simpa [Function.update_of_ne hurl] using hcached)
      · rintro _ heq hhands
        cases heq
        exact hhands.elim
      · exact slot_same rfl rfl rfl rfl (by rw [callbacks_nil, add_zero]; rfl)
  | @deliver k ok a rest r hb hr =>
    obtain ⟨c, url⟩ := k
    obtain ⟨hok, hobject⟩ : ok = true ∧ x.loc.bucket.lookup url.path ≠ none := hm
    obtain ⟨data, hdata⟩ := Option.ne_none_iff_exists'.mp hobject
    have himageOf : imageOf x.loc.bucket url = some (.ofData data) := by rw [imageOf, hdata]; rfl
    simp only [program, react, hok, if_true, hdata, Option.some.injEq] at hr
    subst hr
    refine ⟨⟨?_, rfl, rfl⟩, fun e heq => (by cases heq), fun _ => ?_⟩
    · intro url' image hcached
      by_cases hurl : url' = url
      · subst hurl
        rw [← hcached]
        exact (Function.update_self _ _ _).trans himageOf.symm
      · rw [Program.after] at hcached
        exact h url' image (by simpa [Function.update_of_ne hurl] using hcached)
    · by_cases hcell : c = cell
      · subst hcell
        have hanswer : imageIn x.loc.bucket c (.deliver (.imageDownloaded c url) ok a : Async.Move
            Callback Unit Event) = some (imageOf x.loc.bucket url) := if_pos rfl
        rw [hanswer]
        refine .answer rfl (fun _ => ?_) ?_
        · rw [himageOf]
          exact Function.update_self _ _ _
        · rw [slot, hb, filterMap_cons_imageFor, if_pos rfl]
          simp [slot, Program.after]
      · have hanswer : imageIn x.loc.bucket cell (.deliver (.imageDownloaded c url) ok a :
            Async.Move Callback Unit Event) = none := if_neg hcell
        rw [hanswer]
        refine slot_same rfl rfl rfl (Function.update_of_ne (Ne.symm hcell) _ _) ?_
        rw [callbacks_nil, add_zero, slot, hb, filterMap_cons_imageFor, if_neg hcell]

/-- A step of a run. -/
theorem slot_turn (cell : ℕ) (h : Cached st.loc) (hs : Turn st lbl st') :
    (Cached st'.loc ∧ st'.loc.entries = st.loc.entries ∧ st'.loc.bucket = st.loc.bucket) ∧
      (Handed cell st lbl → (slot cell (program.direct st')).Promised) ∧
      (¬ Handed cell st lbl → (slot cell (program.direct st)).Step
        (slot cell (program.direct st')) (answer cell st lbl)) := by
  rcases step_move hs.1 with ⟨hnone, -, s, hsame⟩ | ⟨m, hm, hmove⟩
  · -- a write leaves the queue
    have hloc : st'.loc = st.loc := congrArg Direct.loc hsame
    refine ⟨by rw [hloc]; exact ⟨h, rfl, rfl⟩, fun hhanded => ?_, fun _ => ?_⟩
    · cases lbl with
      | event e => cases hnone
      | _ => exact hhanded.elim
    · rw [answer, hnone, hsame]
      exact .other rfl rfl rfl
  · obtain ⟨hkeep, hreset, hother⟩ := slot_step cell h (hs.2 m hm) hmove
    refine ⟨hkeep, fun hhanded => ?_, fun hhanded => ?_⟩
    · cases lbl with
      | event e => exact hreset e (Option.some.inj hm).symm hhanded
      | _ => exact hhanded.elim
    · rw [answer, hm]
      refine hother fun e heq hhands => hhanded ?_
      rw [move_eq_event.mp (hm.trans (congrArg some heq))]
      exact hhands

end

/-- If the image of another entry is put into the cell, its own is still on its way to it. -/
def Timely (cell : ℕ) (st : Screen) (lbl : Label Unit Event) : Prop :=
  (slot cell (program.direct st)).Timely (answer cell st lbl)

instance (cell : ℕ) (st : Screen) : DecidablePred (Timely cell st) :=
  fun lbl =>
    inferInstanceAs (Decidable ((slot cell (program.direct st)).Timely (answer cell st lbl)))

/-- **Tiles show their own cover**: however cells are handed out, when all downloads have arrived,
each visible cell shows the cover of the entry at its row exactly if, since it was handed out last,
no other image came to it after its own. -/
theorem covers_shown_iff {db : Firestore} {entries : List Entry} {bucket : Bucket}
    {tr : List (Label Unit Event × Screen)}
    (hrun : IsRun Turn (start db (opened entries bucket)) tr)
    (hquiet : Quiescent (final (start db (opened entries bucket)) tr)) :
    (∀ cell row url,
        (final (start db (opened entries bucket)) tr).loc.visible.lookup cell = some row →
        coverAt entries row = some url →
        (final (start db (opened entries bucket)) tr).loc.image cell = imageOf bucket url) ↔
      ∀ x ∈ (final (start db (opened entries bucket)) tr).loc.visible.docs,
        MeetsSince (Handed x.1) (Timely x.1) (start db (opened entries bucket)) tr := by
  have hstart : Cached (opened entries bucket) := fun url image h => by cases h
  have hkeep : ∀ (st : Screen) lbl st', (Cached st.loc ∧ st.loc.entries = entries ∧
      st.loc.bucket = bucket) → Turn st lbl st' → Cached st'.loc ∧ st'.loc.entries = entries ∧
      st'.loc.bucket = bucket := by
    rintro st lbl st' ⟨h, hentries, hbucket⟩ hs
    obtain ⟨⟨h', hentries', hbucket'⟩, -⟩ := slot_turn 0 h hs
    exact ⟨h', hentries'.trans hentries, hbucket'.trans hbucket⟩
  obtain ⟨-, hentries, hbucket⟩ := hrun.final hkeep ⟨hstart, rfl, rfl⟩
  have hcell := fun cell => hrun.shown_iff (fun st => slot cell (program.direct st)) (answer cell)
    (Handed cell)
    (fun st lbl st' h hs => ⟨hkeep st lbl st' h hs, (slot_turn cell h.1 hs).2⟩) ⟨hstart, rfl, rfl⟩
    (fun image himage => by cases himage) (by rw [hquiet.direct]; rfl)
  have hwanted : ∀ cell image, image ∈ (slot cell (program.direct
      (final (start db (opened entries bucket)) tr))).wanted ↔ ∃ row url,
        (final (start db (opened entries bucket)) tr).loc.visible.lookup cell = some row ∧
        coverAt entries row = some url ∧ imageOf bucket url = image := by
    intro cell image
    have hcoverAt : coverAt (program.direct
        (final (start db (opened entries bucket)) tr)).loc.entries = coverAt entries :=
      congrArg coverAt hentries
    show Option.map (imageOf (final (start db (opened entries bucket)) tr).loc.bucket) _ =
      some image ↔ _
    rw [hbucket, hcoverAt, Option.map_eq_some_iff]
    constructor
    · rintro ⟨url, hurl, himage⟩
      obtain ⟨row, hrow, hcover⟩ := Option.bind_eq_some_iff.mp hurl
      exact ⟨row, url, hrow, hcover, himage⟩
    · rintro ⟨row, url, hrow, hcover, himage⟩
      exact ⟨url, Option.bind_eq_some_iff.mpr ⟨row, hrow, hcover⟩, himage⟩
  constructor
  · rintro hall ⟨cell, row⟩ -
    refine (hcell cell).mp fun image himage => ?_
    obtain ⟨row, url, hrow, hcover, rfl⟩ := (hwanted cell image).mp himage
    exact hall cell row url hrow hcover
  · intro hmeets cell row url hrow hcover
    exact (hcell cell).mpr (hmeets (cell, row) (Collection.mem_docs.mpr hrow)) _
      ((hwanted cell _).mpr ⟨row, url, hrow, hcover, rfl⟩)

/-- Two entries with their covers. -/
def tileEntries : List Entry :=
  [⟨"e", ⟨0, 0⟩, some ⟨"e"⟩, "", "e", "", 0, []⟩, ⟨"f", ⟨0, 0⟩, some ⟨"f"⟩, "", "f", "", 1, []⟩]

/-- The images of the covers. -/
def sampleBucket : Bucket := AList.insert "e" "image e" (AList.insert "f" "image f" ∅)

/-- The screen when the entries have been loaded. -/
def tilesScreen : Screen := start Firestore.empty (opened tileEntries sampleBucket)

/-- A cell is handed from the first row to the second, and the images arrive in order. -/
def inOrder : List (Label Unit Event) :=
  [.event (.cellForItemAt 0 0), .event (.didEndDisplaying 0), .event (.cellForItemAt 0 1),
    .deliver 0 true (), .deliver 0 true ()]

theorem covers_shown_iff_sample : ∃ tr, IsRun Turn tilesScreen tr ∧ tr.map Prod.fst = inOrder ∧
    ∀ cell row url, (final tilesScreen tr).loc.visible.lookup cell = some row →
      coverAt tileEntries row = some url →
      (final tilesScreen tr).loc.image cell = imageOf sampleBucket url := by
  obtain ⟨tr, htr, hcond, hquiet, htimely⟩ :
      ∃ tr ∈ play (fun st lbl => program.step lbl st) inOrder tilesScreen,
        Meets (fun st lbl => ∀ m ∈ st.move lbl, Answered st.loc m) tilesScreen tr ∧
        Quiescent (final tilesScreen tr) ∧ ∀ x ∈ (final tilesScreen tr).loc.visible.docs,
          MeetsSince (Handed x.1) (Timely x.1) tilesScreen tr := by
    decide +kernel
  have hrun : IsRun Turn tilesScreen tr := (isRun_of_play htr).and_meets hcond
  exact ⟨tr, hrun, labels_of_play htr, (covers_shown_iff hrun hquiet).mpr htimely⟩

/-- The image of the second row arrives first. -/
def overtaken : List (Label Unit Event) :=
  [.event (.cellForItemAt 0 0), .event (.didEndDisplaying 0), .event (.cellForItemAt 0 1),
    .deliver 1 true (), .deliver 0 true ()]

/-- **The second tile shows the cover of the first entry.** -/
theorem wrong_cover_shown : ∃ tr, IsRun Turn tilesScreen tr ∧ Quiescent (final tilesScreen tr) ∧
    (final tilesScreen tr).loc.visible.lookup 0 = some 1 ∧
    coverAt tileEntries 1 = some ⟨"f"⟩ ∧
    (final tilesScreen tr).loc.image 0 ≠ imageOf sampleBucket ⟨"f"⟩ := by
  obtain ⟨tr, htr, hcond, hquiet, hvisible, himage⟩ :
      ∃ tr ∈ play (fun st lbl => program.step lbl st) overtaken tilesScreen,
        Meets (fun st lbl => ∀ m ∈ st.move lbl, Answered st.loc m) tilesScreen tr ∧
        Quiescent (final tilesScreen tr) ∧
        (final tilesScreen tr).loc.visible.lookup 0 = some 1 ∧
        (final tilesScreen tr).loc.image 0 ≠ imageOf sampleBucket ⟨"f"⟩ := by
    decide +kernel
  exact ⟨tr, (isRun_of_play htr).and_meets hcond, hquiet, hvisible, rfl, himage⟩

end Tiles

end Wanderlust
