import Wanderlust.System.PhotoOrder

/-!
# Saving an entry early

The photos of an entry arrive on the form one by one, and the entry can be saved before all have.
A save stores the photos that are there when `updateEntry` is called, and counts their URLs against
those that are there when the URLs arrive. So if a photo joins in between, the document is never
written; and if none does, the document loses the photos that have not arrived (`early_save`).
-/

namespace Wanderlust

open Async Runs

namespace EditEntry

/-- A photo joins those on the form. -/
def joins (l : EditEntry) : Async.Move Callback Unit Event → Bool
  | .event (.addPhoto _) => true
  | .deliver (.imageDownloaded url) ok _ => ok && (l.bucket.lookup url.path).isSome
  | _ => false

/-- A photo is taken off the form. -/
def leaves : Async.Move Callback Unit Event → Bool
  | .event (.deleteImage _) => true
  | _ => false

/-- The URL of a photo that is being stored, and the list that it is for. -/
def Callback.photo : Callback → Option (ℕ × URL)
  | .imageUploaded list path _ => some (list, ⟨path⟩)
  | .imageURL list path => some (list, ⟨path⟩)
  | _ => none

/-- The URLs of the photos that are being stored. -/
def storing (bag : Multiset Callback) : Multiset (ℕ × URL) := bag.filterMap Callback.photo

/-- The document has been written. -/
def Written (x : Direct Firestore EditEntry Callback) : Prop :=
  x.loc.popped = true ∨ .entryUpdated ∈ x.bag

/-- If a photo joins with a step, `n` URLs are there already. -/
def JoinsLate (c n : ℕ) (st : State Firestore EditEntry Write Callback) (lbl : Label Unit Event) :
    Prop :=
  (st.move lbl).any (joins st.loc) = true → st.loc.tempEntryList c = n

instance (c n : ℕ) (st : State Firestore EditEntry Write Callback) :
    DecidablePred (JoinsLate c n st) := fun _ => inferInstanceAs (Decidable (_ → _))

/-- A step with which nothing fails that stores a photo, the entry is not saved again, and no photo
is taken off the form. -/
def Stores (st : State Firestore EditEntry Write Callback) (lbl : Label Unit Event) : Prop :=
  Settles st lbl ∧ (st.move lbl).any leaves = false

instance (st : State Firestore EditEntry Write Callback) : DecidablePred (Stores st) :=
  fun _ => inferInstanceAs (Decidable (_ ∧ _))

/-- A single save of the entry of the screen: `updateEntry` is called in `st`, before the document
has been written and with no photo being stored, and until nothing is on its way the photos that are
there stay and it is not called again. Others may join. -/
structure EarlySave (st st' : State Firestore EditEntry Write Callback)
    (tr : List (Label Unit Event × State Firestore EditEntry Write Callback)) : Prop where
  none_pending : storing (program.direct st).bag = 0
  unwritten : ¬ Written (program.direct st)
  call : ∃ i path a o, st.ready[i]? = some (.coverURL path, o) ∧
    program.step (.deliver i true a) st = some st'
  initial : 0 < st.loc.initialImageCount
  encodable : ∀ image ∈ st.loc.entryImage, image.jpegData.isSome
  stored : ((program.view st).entries.lookup st.loc.entryID).isSome
  run : IsRun (fun st lbl st' => program.step lbl st = some st') st' tr
  stores : Meets Stores st' tr
  quiescent : Quiescent (final st' tr)

section

variable {l : EditEntry} {db : Firestore} {res : EditEntry × List Cmd} {bag : Multiset Callback}
  {x x' : Direct Firestore EditEntry Callback} {k : Callback} {ok : Bool} {a : Unit}
  {id : EntryID} {c : ℕ} {urls : List URL} {st st' : State Firestore EditEntry Write Callback}
  {tr : List (Label Unit Event × State Firestore EditEntry Write Callback)}

@[simp] theorem storing_zero : storing 0 = 0 := rfl

@[simp] theorem storing_add (bag bag' : Multiset Callback) :
    storing (bag + bag') = storing bag + storing bag' := Multiset.filterMap_add _ _ _

theorem storing_cons_some {o : ℕ × URL} (hk : k.photo = some o) (bag : Multiset Callback) :
    storing (k ::ₘ bag) = o ::ₘ storing bag := Multiset.filterMap_cons_some _ _ _ hk

theorem storing_cons_none (hk : k.photo = none) (bag : Multiset Callback) :
    storing (k ::ₘ bag) = storing bag := Multiset.filterMap_cons_none _ _ hk

theorem storing_downloads (urls : List URL) :
    storing ↑(urls.map Callback.imageDownloaded) = 0 := by
  induction urls with
  | nil => rfl
  | cons url urls ih => exact (storing_cons_none (k := .imageDownloaded url) rfl _).trans ih

/-- The photos that `updateEntry` uploads, when every photo can be encoded. -/
theorem storing_imageUploads (l : EditEntry) (c : ℕ) {images : List UIImage}
    (h : ∀ image ∈ images, image.jpegData.isSome) (n : ℕ) :
    storing (callbacks (imageUploads l c images n)) =
      ↑((List.range' n images.length).map fun i => (c, (⟨l.imagesPath i⟩ : URL))) := by
  induction images generalizing n with
  | nil => rfl
  | cons image images ih =>
    obtain ⟨hfirst, hrest⟩ := List.forall_mem_cons.mp h
    obtain ⟨data, hdata⟩ := Option.isSome_iff_exists.mp hfirst
    have hphoto : (Callback.imageUploaded c (l.imagesPath n) data).photo =
        some (c, ⟨l.imagesPath n⟩) := rfl
    simp only [imageUploads, hdata, callbacks_request, storing_cons_some hphoto, ih hrest,
      List.length_cons, List.range'_succ, List.map_cons, Multiset.cons_coe]

theorem not_entryUpdated_imageUploads (l : EditEntry) (c : ℕ) (images : List UIImage) (n : ℕ) :
    .entryUpdated ∉ callbacks (imageUploads l c images n) := by
  induction images generalizing n with
  | nil => exact Multiset.notMem_zero _
  | cons image images ih =>
    simp only [imageUploads]
    split
    · exact Multiset.notMem_zero _
    · simpa using ih (n + 1)

theorem uploads_updateEntry (l : EditEntry) (h : ∀ image ∈ l.entryImage, image.jpegData.isSome) :
    storing (callbacks (updateEntry l).2) = ↑((photoURLs l).map (Prod.mk l.nextList)) ∧
      .entryUpdated ∉ callbacks (updateEntry l).2 := by
  refine ⟨?_, not_entryUpdated_imageUploads _ _ _ _⟩
  rw [updateEntry, storing_imageUploads l l.nextList h, ← List.range_eq_range', photoURLs,
    List.map_map]
  rfl

/-- Whether a photo that arrives joins. -/
theorem joins_download (l : EditEntry) (url : URL) (ok : Bool) (a : Unit) :
    joins l (.deliver (.imageDownloaded url) ok a) =
      (if ok then l.bucket.lookup url.path else none).isSome := by
  cases ok <;> rfl

/-- Code that has nothing to do with the URLs of photos, where `joined` says whether a photo
joins, and `ks` is what is being stored of what was answered. -/
structure Aside (l : EditEntry) (joined : Bool) (ks : Multiset (ℕ × URL))
    (res : EditEntry × List Cmd) : Prop where
  length : res.1.entryImage.length = l.entryImage.length + if joined then 1 else 0
  popped : res.1.popped = l.popped
  stored : storing (callbacks res.2) = ks
  updated : Callback.entryUpdated ∉ callbacks res.2

/-- What the user does. -/
theorem aside_event {e : Event} (h : event e l db = some res)
    (hstay : leaves (.event e) = false) : Aside l (joins l (.event e)) 0 res := by
  cases e with
  | viewDidLoad =>
    simp only [event, viewDidLoad] at h
    split at h <;> cases h
    · have hrequests : callbacks (loadImagesFromEntryInfo l).2 =
          .entryFetched ::ₘ ↑(l.entryInfoImages.map Callback.imageDownloaded) := by
        rw [loadImagesFromEntryInfo, callbacks_request, callbacks_map_request]
      refine ⟨rfl, rfl, ?_, ?_⟩
      · rw [Handler.andThen_apply, callbacks_append, hrequests, Handler.modify_apply,
          callbacks_nil, add_zero, storing_cons_none rfl, storing_downloads]
      · rw [Handler.andThen_apply, callbacks_append, hrequests]
        simp
    · exact ⟨rfl, rfl, rfl, Multiset.notMem_zero _⟩
  | saveButton =>
    simp only [event, saveButton, uploadEntryCoverPhoto, Handler.issue_apply] at h
    split at h <;> cases h
    · exact ⟨rfl, rfl, rfl, Multiset.notMem_zero _⟩
    · split
      · exact ⟨rfl, rfl, rfl, Multiset.notMem_zero _⟩
      · exact ⟨rfl, rfl, rfl, by simp⟩
  | deleteImage index => cases hstay
  | addPhoto image =>
    cases h
    exact ⟨List.length_append, rfl, rfl, Multiset.notMem_zero _⟩
  | _ =>
    cases h
    exact ⟨rfl, rfl, rfl, Multiset.notMem_zero _⟩

/-- The code of the closures. -/
theorem aside_react (h : react k ok a l db = some res) (hk : k ≠ .entryUpdated)
    (hcover : ∀ path, k = .coverURL path → ok = false)
    (hphoto : ∀ c path, k ≠ .imageURL c path) :
    Aside l (joins l (.deliver k ok a)) (storing {k}) res := by
  cases k with
  | entryFetched =>
    simp only [react] at h
    split at h
    · cases h
      exact ⟨rfl, rfl, rfl, Multiset.notMem_zero _⟩
    · obtain ⟨url, -, rfl⟩ := Option.map_eq_some_iff.mp h
      exact ⟨rfl, rfl, rfl, by simp⟩
  | coverDownloaded url =>
    simp only [react] at h
    split at h <;> cases h <;> exact ⟨rfl, rfl, rfl, Multiset.notMem_zero _⟩
  | imageDownloaded url =>
    rw [joins_download]
    simp only [react] at h
    split at h <;> cases h
    · rename_i hnone
      rw [hnone]
      exact ⟨rfl, rfl, rfl, Multiset.notMem_zero _⟩
    · rename_i data hdata
      rw [hdata]
      refine ⟨?_, ?_, rfl, Multiset.notMem_zero _⟩ <;> simp only [imageDownloaded] <;> split <;>
        simp
  | coverUploaded path data =>
    cases h
    exact ⟨by dsimp only; split <;> rfl, by dsimp only; split <;> rfl, rfl, by simp⟩
  | coverURL path =>
    obtain rfl := hcover path rfl
    cases h
    exact ⟨rfl, rfl, rfl, Multiset.notMem_zero _⟩
  | imageUploaded c path data =>
    cases h
    exact ⟨by dsimp only; split <;> rfl, by dsimp only; split <;> rfl, rfl, by simp⟩
  | imageURL c path => exact absurd rfl (hphoto c path)
  | entryUpdated => exact absurd rfl hk

/-- What it does to the client. -/
theorem Aside.after {joined : Bool} {ks : Multiset (ℕ × URL)} {rest : Multiset Callback}
    (h : Aside x.loc joined ks res) (hbag : storing x.bag = ks + storing rest)
    (hrest : .entryUpdated ∈ rest ↔ .entryUpdated ∈ x.bag) :
    let x' := program.after res { x with bag := rest }
    x'.loc.entryImage.length = x.loc.entryImage.length + (if joined then 1 else 0) ∧
      storing x'.bag = storing x.bag ∧ (Written x' ↔ Written x) := by
  refine ⟨h.length, ?_, ?_⟩
  · rw [Program.after, storing_add, h.stored, hbag, add_comm]
  · simp only [Written, Program.after, h.popped, Multiset.mem_add, h.updated, or_false, hrest]

/-- A step without a URL. -/
theorem aside_step {m : Async.Move Callback Unit Event} (hm : settles m = true)
    (hstay : leaves m = false) (hno : arrival m = none) (hs : DirectStep program x m x') :
    x'.loc.entryImage.length = x.loc.entryImage.length + (if joins x.loc m then 1 else 0) ∧
      storing x'.bag = storing x.bag ∧ (Written x' ↔ Written x) := by
  cases hs with
  | event he => exact (aside_event he hstay).after (by simp) Iff.rfl
  | @deliver k ok a rest res hb hreact =>
    have hcode : react k ok a x.loc x.store = some res := hreact
    by_cases hk : k = .entryUpdated
    · subst hk
      cases hcode
      refine ⟨rfl, ?_, ?_⟩
      · rw [hb, storing_cons_none rfl]
        simp [Program.after]
      · simp [Written, Program.after, hb]
    · have hcover : ∀ path, k = .coverURL path → ok = false := by
        rintro path rfl
        simpa [settles] using hm
      have hphoto : ∀ c path, k ≠ .imageURL c path := by
        rintro c path rfl
        obtain rfl : ok = true := hm
        cases hno
      refine (aside_react hcode hk hcover hphoto).after ?_ ?_
      · rw [hb, ← Multiset.singleton_add, storing_add]
      · rw [hb, Multiset.mem_cons]
        exact ⟨.inr, fun h => h.resolve_left (Ne.symm hk)⟩

/-- The code for the URL of a photo. -/
theorem react_url {path : String} (h : react (.imageURL c path) true a l db = some res) :
    res.1.entryImage = l.entryImage ∧ res.1.popped = l.popped ∧ storing (callbacks res.2) = 0 ∧
      (.entryUpdated ∈ callbacks res.2 ↔ l.tempEntryList c + 1 = l.entryImage.length) ∧
      (l.tempEntryList c + 1 ≠ l.entryImage.length → effect Write.apply res.2 db = db) := by
  simp only [react, imageSaved, Function.update_self, if_true, Option.some.injEq] at h
  subst h
  refine ⟨rfl, rfl, ?_⟩
  by_cases hfull : l.tempEntryList c + 1 = l.entryImage.length
  · simp only [if_pos hfull]
    exact ⟨rfl, iff_of_true (by simp) hfull, fun hne => absurd hfull hne⟩
  · simp only [if_neg hfull]
    exact ⟨rfl, iff_of_false (Multiset.notMem_zero _) hfull, fun _ => rfl⟩

/-- A save that stores the photos with these URLs. Until the document is written, the store is as
it was; it is written when all URLs are there. -/
structure Counting (db : Firestore) (id : EntryID) (c : ℕ) (urls : List URL)
    (x : Direct Firestore EditEntry Callback) : Prop where
  entryID : x.loc.entryID = id
  pending : ∃ rest : Multiset URL, storing x.bag = rest.map (Prod.mk c) ∧
    rest + ↑x.loc.entryInfoImages = (↑urls : Multiset URL)
  count : x.loc.entryInfoImages.length = x.loc.tempEntryList c
  grown : urls.length ≤ x.loc.entryImage.length
  written : Written x → x.loc.tempEntryList c = urls.length ∧
    EditTrip.mediaList id x.store = some x.loc.entryInfoImages
  unwritten : ¬ Written x → x.store = db

/-- No photo has joined while the photos were stored. -/
def OnCourse (c n : ℕ) (x : Direct Firestore EditEntry Callback) : Prop :=
  x.loc.tempEntryList c < n ∧ x.loc.entryImage.length = n ∨ x.loc.tempEntryList c = n ∧ Written x

/-- One step. -/
theorem Counting.step (h : Counting db id c urls x) (hdoc : (EditTrip.mediaList id db).isSome)
    {m : Async.Move Callback Unit Event} (hm : settles m = true) (hstay : leaves m = false)
    (hs : DirectStep program x m x') :
    Counting db id c urls x' ∧ (OnCourse c urls.length x' ↔ OnCourse c urls.length x ∧
      (joins x.loc m = true → x.loc.tempEntryList c = urls.length)) := by
  obtain ⟨pending, hbag, htotal⟩ := h.pending
  have hgrown := h.grown
  have hcard := congrArg Multiset.card htotal
  rw [Multiset.card_add, Multiset.coe_card, Multiset.coe_card, h.count] at hcard
  have hentry : x'.loc.entryID = id := (store_step hs).1.trans h.entryID
  rcases photo_step hm hs with ⟨hno, hkeep, -, hstore⟩ |
    ⟨d, path, a, rest, res, rfl, hb, hcode, rfl⟩
  · obtain ⟨hlength, hstoring, hwritten⟩ := aside_step hm hstay hno hs
    have hcount : x'.loc.tempEntryList c = x.loc.tempEntryList c := by rw [hkeep.tempEntryList]
    refine ⟨⟨hentry, ⟨pending, hstoring.trans hbag, ?_⟩, ?_, ?_, ?_, ?_⟩, ?_⟩
    · rw [hkeep.entryInfoImages, htotal]
    · rw [hkeep.entryInfoImages, hcount, h.count]
    · rw [hlength]
      exact hgrown.trans (Nat.le_add_right _ _)
    · rw [hwritten, hcount, hstore, hkeep.entryInfoImages]
      exact h.written
    · rw [hwritten, hstore]
      exact h.unwritten
    · simp only [OnCourse, hcount, hlength, hwritten]
      cases joins x.loc m with
      | false => simp
      | true =>
        -- the photos are more than their URLs from now on
        simp only [if_true, forall_const]
        constructor
        · rintro (⟨-, hmore⟩ | hdone)
          · omega
          · exact ⟨.inr hdone, hdone.1⟩
        · rintro ⟨⟨hlt, -⟩ | hdone, hall⟩
          · omega
          · exact .inr hdone
  · -- the URL is one of those that are being stored
    have hphoto : (Callback.imageURL d path).photo = some (d, ⟨path⟩) := rfl
    rw [hb, storing_cons_some hphoto] at hbag
    obtain ⟨url, hurl, hpair⟩ :=
      Multiset.mem_map.mp (hbag ▸ Multiset.mem_cons_self (d, (⟨path⟩ : URL)) _)
    obtain ⟨rfl, rfl⟩ := Prod.mk.inj hpair
    obtain ⟨pending, rfl⟩ := Multiset.exists_cons_of_mem hurl
    rw [Multiset.map_cons, Multiset.cons_inj_right] at hbag
    rw [Multiset.card_cons] at hcard
    have hunwritten : ¬ Written x := fun hw => by
      have hall := (h.written hw).1
      omega
    obtain ⟨-, hurls, hcount, -, hmedia⟩ := react_imageURL hcode
    obtain ⟨himages, hpopped, hnone, hupdated, hstore⟩ := react_url hcode
    have hwritten : Written (program.after res { x with bag := rest }) ↔
        x.loc.tempEntryList c + 1 = x.loc.entryImage.length := by
      simp only [Written, hb, Multiset.mem_cons, reduceCtorEq, false_or, not_or] at hunwritten
      simp only [Written, Program.after, hpopped, Multiset.mem_add, hunwritten.1, hunwritten.2,
        hupdated, false_or, Bool.false_eq_true]
    refine ⟨⟨hentry, ⟨pending, ?_, ?_⟩, ?_, ?_, ?_, ?_⟩, ?_⟩
    · rw [Program.after, storing_add, hnone, add_zero, hbag]
    · change pending + ↑res.1.entryInfoImages = (↑urls : Multiset URL)
      rw [hurls, ← htotal, ← Multiset.coe_add, Multiset.coe_singleton, Multiset.cons_add,
        ← add_assoc, Multiset.add_comm _ {_}, Multiset.singleton_add]
    · change res.1.entryInfoImages.length = res.1.tempEntryList c
      rw [hurls, hcount, List.length_append, h.count]
      rfl
    · change urls.length ≤ res.1.entryImage.length
      rwa [himages]
    · intro hw
      have hfull := hwritten.mp hw
      change res.1.tempEntryList c = urls.length ∧
        EditTrip.mediaList id (effect Write.apply res.2 x.store) = some res.1.entryInfoImages
      obtain ⟨old, hold⟩ := Option.isSome_iff_exists.mp hdoc
      rw [hmedia, if_pos ⟨hfull, h.entryID.symm⟩, h.unwritten hunwritten, hold, hurls, hcount]
      exact ⟨by omega, rfl⟩
    · intro hw
      exact (hstore fun hfull => hw (hwritten.mpr hfull)).trans (h.unwritten hunwritten)
    · have hcourse : OnCourse c urls.length (program.after res { x with bag := rest }) ↔
          x.loc.tempEntryList c + 1 < urls.length ∧ x.loc.entryImage.length = urls.length ∨
            x.loc.tempEntryList c + 1 = urls.length ∧
              x.loc.tempEntryList c + 1 = x.loc.entryImage.length := by
        rw [OnCourse, hwritten]
        simp only [Program.after, hcount, himages]
      rw [hcourse, OnCourse, and_iff_left fun hj => by cases hj]
      simp only [hunwritten, and_false, or_false]
      omega

theorem Counting.state_step (h : Counting db id c urls (program.direct st))
    (hdoc : (EditTrip.mediaList id db).isSome) {lbl : Label Unit Event}
    (hstep : program.step lbl st = some st') (hstores : Stores st lbl) :
    Counting db id c urls (program.direct st') ∧ (OnCourse c urls.length (program.direct st') ↔
      OnCourse c urls.length (program.direct st) ∧ JoinsLate c urls.length st lbl) := by
  obtain ⟨hsettles, hstay⟩ := hstores
  rcases step_move hstep with ⟨hmove, rfl | hd, -⟩ | ⟨m, hmove, hd⟩
  · exact hsettles.elim
  · have hlate : JoinsLate c urls.length st lbl := fun hj => by
      rw [hmove] at hj
      cases hj
    rw [hd]
    exact ⟨h, (and_iff_left hlate).symm⟩
  · have hall : settles m = true := by
      cases lbl <;> first | exact hsettles.elim | simpa [Settles, hmove] using hsettles
    rw [hmove, Option.any_some] at hstay
    rw [JoinsLate, hmove, Option.any_some]
    exact h.step hdoc hall hstay hd

theorem Counting.run (h : Counting db id c urls (program.direct st))
    (hdoc : (EditTrip.mediaList id db).isSome)
    (hrun : IsRun (fun st lbl st' => program.step lbl st = some st') st tr)
    (hstores : Meets Stores st tr) :
    Counting db id c urls (program.direct (final st tr)) ∧
      (OnCourse c urls.length (program.direct (final st tr)) ↔
        OnCourse c urls.length (program.direct st) ∧ Meets (JoinsLate c urls.length) st tr) := by
  let I : State Firestore EditEntry Write Callback → Prop := fun st =>
    Counting db id c urls (program.direct st)
  have hI : I st := h
  constructor
  · exact final_of_forall hI (hrun.invariant
      (fun s lbl s' hs hstep (hx : Stores s lbl) => (Counting.state_step hs hdoc hstep hx).1) hI
        hstores)
  · exact hrun.final_iff_meets (I := I) (G := fun s => OnCourse c urls.length (program.direct s))
      (fun s lbl s' hs hstep (hx : Stores s lbl) => Counting.state_step hs hdoc hstep hx) hI hstores

/-- **The call of `updateEntry`.** -/
theorem EarlySave.counting (h : EarlySave st st' tr) :
    Counting (program.view st) st.loc.entryID st.loc.nextList (photoURLs st.loc)
        (program.direct st') ∧
      OnCourse st.loc.nextList (photoURLs st.loc).length (program.direct st') := by
  obtain ⟨i, path, a, o, hi, hstep⟩ := h.call
  have hmove : st.move (.deliver i true a) =
      some (.deliver (.coverURL path) true a : Async.Move Callback Unit Event) := by
    simp only [State.move, hi, Option.map_some]
  have hbefore := h.none_pending
  obtain ⟨hpopped, hupdated⟩ := not_or.mp h.unwritten
  obtain ⟨m, hm, hd⟩ := (step_move hstep).resolve_left (by simp [hmove])
  obtain rfl := Option.some.inj (hmove.symm.trans hm)
  obtain ⟨x', hx'⟩ : ∃ x', program.direct st' = x' := ⟨_, rfl⟩
  rw [hx'] at hd ⊢
  cases hd with
  | @deliver _ _ _ rest res hb hreact =>
    have hcode : coverSaved { st.loc with entryCoverURL := some ⟨path⟩ } = some res := hreact
    rw [hb, storing_cons_none rfl] at hbefore
    rw [hb, Multiset.mem_cons] at hupdated
    simp only [coverSaved, if_pos h.initial] at hcode
    split at hcode <;> cases hcode
    rename_i hne
    have hpos : 0 < st.loc.entryImage.length := List.length_pos_of_ne_nil hne
    have hlength : (photoURLs st.loc).length = st.loc.entryImage.length := by simp [photoURLs]
    have hcall := uploads_updateEntry
      { st.loc with entryCoverURL := some ⟨path⟩, entryInfoImages := [] } h.encodable
    have hno : ¬ Written (program.after
        (updateEntry { st.loc with entryCoverURL := some ⟨path⟩, entryInfoImages := [] })
        { program.direct st with bag := rest }) := by
      simp only [Written, Program.after, Multiset.mem_add, not_or]
      exact ⟨hpopped, fun hin => hupdated (.inr hin), hcall.2⟩
    refine ⟨⟨rfl, ⟨↑(photoURLs st.loc), ?_, add_zero _⟩, ?_, hlength.le, fun hw => absurd hw hno,
      fun _ => imageUploads_effect _ _ _ _ _⟩, .inl ⟨?_, hlength.symm⟩⟩
    · rw [Program.after, storing_add, hbefore, zero_add, hcall.1]
      rfl
    · simp [Program.after, updateEntry]
    · simpa [Program.after, updateEntry, hlength] using hpos

/-- **Saving early**: the entry is written exactly if no photo joins the form until all URLs are
there. Then it has the photos that were there when it was saved, in some order, and no others; or
else nothing is written. -/
theorem early_save (h : EarlySave st st' tr) :
    ((final st' tr).loc.popped = true ↔
        Meets (JoinsLate st.loc.nextList st.loc.entryImage.length) st' tr) ∧
      if (final st' tr).loc.popped then
        ∃ urls, List.Perm urls (photoURLs st.loc) ∧
          EditTrip.mediaList st.loc.entryID (final st' tr).store = some urls
      else (final st' tr).store = program.view st := by
  obtain ⟨hstart, hcourse⟩ := h.counting
  have hdoc : (EditTrip.mediaList st.loc.entryID (program.view st)).isSome := by
    rw [EditTrip.mediaList, Option.isSome_map]
    exact h.stored
  have hlength : (photoURLs st.loc).length = st.loc.entryImage.length := by simp [photoURLs]
  obtain ⟨hend, hrule⟩ := hstart.run hdoc h.run h.stores
  rw [h.quiescent.direct] at hend hrule
  -- all URLs are there
  obtain ⟨rest, hzero, htotal⟩ := hend.pending
  obtain rfl : rest = 0 := Multiset.map_eq_zero.mp hzero.symm
  rw [zero_add] at htotal
  have hperm : List.Perm (final st' tr).loc.entryInfoImages (photoURLs st.loc) :=
    Multiset.coe_eq_coe.mp htotal
  have hall : (final st' tr).loc.tempEntryList st.loc.nextList = (photoURLs st.loc).length :=
    hend.count.symm.trans hperm.length_eq
  have hpopped : Written ⟨(final st' tr).store, (final st' tr).loc, (0 : Multiset Callback)⟩ ↔
      (final st' tr).loc.popped = true := or_iff_left (Multiset.notMem_zero _)
  constructor
  · rw [← hpopped, ← hlength, ← and_iff_right hcourse (b := Meets _ _ _), ← hrule, OnCourse]
    simp [hall]
  · split
    · rename_i hpop
      exact ⟨_, hperm, (hend.written (hpopped.mpr hpop)).2⟩
    · rename_i hpop
      exact hend.unwritten (mt hpopped.mp hpop)

/-! ## An entry with two photos of which one has arrived -/

/-- The screen that edits the entry of a trip, which has two photos. -/
def sampleStored : State Firestore EditEntry Write Callback :=
  start { EditTrip.tripStore with entries := EditTrip.tripStore.entries.modify "a" fun d =>
    { d with mediaList := [⟨"x"⟩, ⟨"y"⟩] } } photoScreen.loc

/-- The first photo has arrived, a cover is chosen, and the entry is saved. -/
def sampleHasty : List (Label Unit Event) :=
  [.event .viewDidLoad, .deliver 1 true (), .deliver 0 true (), .deliver 1 true (),
    .event (.selectCover (.ofData "c")), .event .saveButton, .deliver 1 true ()]

/-- The other photo arrives after all URLs, or before. -/
def sampleLate : Bool → List (Label Unit Event)
  | true => [.deliver 1 true (), .deliver 1 true (), .deliver 0 true (), .apply, .deliver 0 true ()]
  | false => [.deliver 0 true (), .deliver 0 true (), .deliver 0 true ()]

/-- The states before and after `updateEntry` is called, and the run until everything is
answered. -/
def sampleEarly (late : Bool) : Option (State Firestore EditEntry Write Callback ×
    State Firestore EditEntry Write Callback ×
    List (Label Unit Event × State Firestore EditEntry Write Callback)) :=
  (play (fun st lbl => program.step lbl st) sampleHasty sampleStored).bind fun tr₀ =>
    (program.step (.deliver 1 true ()) (final sampleStored tr₀)).bind fun st' =>
      (play (fun st lbl => program.step lbl st) (sampleLate late) st').map fun tr =>
        (final sampleStored tr₀, st', tr)

theorem earlySave_sampleEarly {late : Bool} {st st' : State Firestore EditEntry Write Callback}
    {tr : List (Label Unit Event × State Firestore EditEntry Write Callback)}
    (h : sampleEarly late = some (st, st', tr))
    (hst : storing (program.direct st).bag = 0 ∧ st.loc.popped = false ∧
      .entryUpdated ∉ (program.direct st).bag ∧
      st.ready[1]? = some (.coverURL st.loc.coverPath, none) ∧ 0 < st.loc.initialImageCount ∧
      (∀ image ∈ st.loc.entryImage, image.jpegData.isSome) ∧
      ((program.view st).entries.lookup st.loc.entryID).isSome)
    (htr : Meets Stores st' tr ∧ Quiescent (final st' tr)) : EarlySave st st' tr := by
  obtain ⟨tr₀, -, h⟩ := Option.bind_eq_some_iff.mp h
  obtain ⟨st₁, hcall, h⟩ := Option.bind_eq_some_iff.mp h
  obtain ⟨tr₁, hplay, h⟩ := Option.map_eq_some_iff.mp h
  cases h
  obtain ⟨hnone, hpopped, hupdated, hready, hinitial, henc, hdoc⟩ := hst
  have hpopped : ¬ (final sampleStored tr₀).loc.popped = true := by simp [hpopped]
  exact ⟨hnone, not_or.mpr ⟨hpopped, hupdated⟩,
    ⟨1, (final sampleStored tr₀).loc.coverPath, (), none, hready, hcall⟩, hinitial, henc, hdoc,
    isRun_of_play hplay, htr.1, htr.2⟩

/-- If the other photo arrives late, it is lost; if it arrives in time, nothing is saved. -/
theorem early_save_sample :
    (∃ st : State Firestore EditEntry Write Callback, Quiescent st ∧ st.loc.popped = true ∧
      EditTrip.mediaList "a" st.store = some [⟨"/users/ann/a/images0"⟩]) ∧
    ∃ st : State Firestore EditEntry Write Callback, Quiescent st ∧ ¬ st.loc.popped = true ∧
      EditTrip.mediaList "a" st.store = some [⟨"x"⟩, ⟨"y"⟩] := by
  have hsample : ∀ late, (sampleEarly late).isSome ∧ ∀ x ∈ sampleEarly late,
      (storing (program.direct x.1).bag = 0 ∧ x.1.loc.popped = false ∧
        .entryUpdated ∉ (program.direct x.1).bag ∧
        x.1.ready[1]? = some (.coverURL x.1.loc.coverPath, none) ∧ 0 < x.1.loc.initialImageCount ∧
        (∀ image ∈ x.1.loc.entryImage, image.jpegData.isSome) ∧
        ((program.view x.1).entries.lookup x.1.loc.entryID).isSome) ∧
      (Meets Stores x.2.1 x.2.2 ∧ Quiescent (final x.2.1 x.2.2)) ∧ x.1.loc.entryID = "a" ∧
      photoURLs x.1.loc = [⟨"/users/ann/a/images0"⟩] ∧
      EditTrip.mediaList "a" (program.view x.1) = some [⟨"x"⟩, ⟨"y"⟩] ∧
      (Meets (JoinsLate x.1.loc.nextList x.1.loc.entryImage.length) x.2.1 x.2.2 ↔ late = true) := by
    intro late
    cases late <;> decide +kernel
  constructor
  · obtain ⟨hsome, hall⟩ := hsample true
    obtain ⟨⟨st, st', tr⟩, h⟩ := Option.isSome_iff_exists.mp hsome
    obtain ⟨hst, htr, hid, hurls, -, hlate⟩ := hall _ h
    obtain ⟨hiff, hif⟩ := early_save (earlySave_sampleEarly h hst htr)
    have hpopped := hiff.mpr (hlate.mpr rfl)
    rw [if_pos hpopped, hid, hurls] at hif
    obtain ⟨urls, hperm, hmedia⟩ := hif
    rw [List.perm_singleton.mp hperm] at hmedia
    exact ⟨_, htr.2, hpopped, hmedia⟩
  · obtain ⟨hsome, hall⟩ := hsample false
    obtain ⟨⟨st, st', tr⟩, h⟩ := Option.isSome_iff_exists.mp hsome
    obtain ⟨hst, htr, -, -, hmedia, hlate⟩ := hall _ h
    obtain ⟨hiff, hif⟩ := early_save (earlySave_sampleEarly h hst htr)
    have hpopped := mt hiff.mp (mt hlate.mp Bool.false_ne_true)
    rw [if_neg hpopped] at hif
    exact ⟨_, htr.2, hpopped, hif ▸ hmedia⟩

end

end EditEntry

end Wanderlust
