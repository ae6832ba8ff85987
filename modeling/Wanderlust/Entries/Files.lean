import Wanderlust.Entries.Paths
import Wanderlust.Foundations.Handlers

/-!
# What is stored when an entry is edited

The screen that edits a single entry stores the cover of the entry where its id says, and its
images under names of their own (`Storing.step`). Nothing is ever deleted; so an image that was
stored is there at the end (`images_stored`), and apart from the cover nothing has changed if none
was (`stored_of_reaches`).
-/

namespace Wanderlust

open Async

namespace EditEntry

/-- If the callback carries a path, it is that of the cover, or that of an image. -/
def Callback.StoresFor (l₀ : EditEntry) : Callback → Prop
  | .coverUploaded path _ => path = l₀.coverPath
  | .coverURL path => path = l₀.coverPath
  | .imageUploaded _ path _ => ∃ i, path = l₀.imagesPath i
  | .imageURL _ path => ∃ i, path = l₀.imagesPath i
  | _ => True

/-- The cover that the document of an entry has. -/
def coverOf (db : Firestore) (id : EntryID) : Option URL :=
  (db.entries.lookup id).bind EntryDoc.coverPhoto

/-- The cover `c` that the entry had, or the one that the screen `l₀` has stored. -/
def Covers (l₀ : EditEntry) (c c' : Option URL) : Prop :=
  c' = none ∨ c' = c ∨ c' = some ⟨l₀.coverPath⟩

/-- What the screen `l₀` of an entry with the cover `c` does to Storage. -/
structure Storing (l₀ : EditEntry) (c : Option URL) (x : Direct Firestore EditEntry Callback) :
    Prop where
  uid : x.loc.currentUser.uid = l₀.currentUser.uid
  entryID : x.loc.entryID = l₀.entryID
  bag : ∀ k ∈ x.bag, k.StoresFor l₀
  url : Covers l₀ c x.loc.entryCoverURL
  cover : Covers l₀ c (coverOf x.store l₀.entryID)
  others : ∀ p, p ≠ l₀.coverPath → (∀ i, p ≠ l₀.imagesPath i) →
    x.loc.bucket.lookup p = l₀.bucket.lookup p
  kept : ∀ p ∈ l₀.bucket, p ∈ x.loc.bucket

/-- No image is stored. -/
def storesNone (_ : EditEntry) (_ : Firestore) : Async.Move Callback Unit Event → Prop
  | .deliver (.imageUploaded _ _ _) ok _ => ok = false
  | _ => True

instance (l : EditEntry) (db : Firestore) : DecidablePred (storesNone l db)
  | .event _ => inferInstanceAs (Decidable True)
  | .deliver (.imageUploaded _ _ _) ok _ => inferInstanceAs (Decidable (ok = false))
  | .deliver .entryFetched _ _ => inferInstanceAs (Decidable True)
  | .deliver (.coverDownloaded _) _ _ => inferInstanceAs (Decidable True)
  | .deliver (.imageDownloaded _) _ _ => inferInstanceAs (Decidable True)
  | .deliver (.coverUploaded _ _) _ _ => inferInstanceAs (Decidable True)
  | .deliver (.coverURL _) _ _ => inferInstanceAs (Decidable True)
  | .deliver (.imageURL _ _) _ _ => inferInstanceAs (Decidable True)
  | .deliver .entryUpdated _ _ => inferInstanceAs (Decidable True)

section

variable {l l₀ : EditEntry} {c : Option URL} {db : Firestore}
  {x x' : Direct Firestore EditEntry Callback} {m : Async.Move Callback Unit Event}
  {allowed : EditEntry → Firestore → Async.Move Callback Unit Event → Prop}
  {st st' : State Firestore EditEntry Write Callback} {lbls : List (Label Unit Event)}

/-- An object is stored when an upload is answered, and only then. -/
theorem bucket_step (hs : DirectStep program x m x') :
    x'.loc.bucket = x.loc.bucket ∨ ∃ path data a, x'.loc.bucket = x.loc.bucket.insert path data ∧
      (m = .deliver (.coverUploaded path data) true a ∨
        ∃ list, m = .deliver (.imageUploaded list path data) true a) := by
  cases hs with
  | @event e r he =>
    left
    change event e x.loc x.store = some r at he
    cases e with
    | viewDidLoad =>
      simp only [event, viewDidLoad] at he
      split at he <;> cases he <;> rfl
    | saveButton =>
      simp only [event, saveButton, uploadEntryCoverPhoto, Handler.issue_apply] at he
      split at he <;> cases he <;> rfl
    | deleteImage index =>
      simp only [event] at he
      split at he <;> cases he
      rfl
    | _ =>
      cases he
      rfl
  | @deliver k ok a rest r hb hr =>
    change react k ok a x.loc x.store = some r at hr
    cases k with
    | entryFetched =>
      left
      simp only [react] at hr
      split at hr
      · cases hr
        rfl
      · obtain ⟨url, -, rfl⟩ := Option.map_eq_some_iff.mp hr
        rfl
    | coverDownloaded url =>
      left
      simp only [react] at hr
      split at hr <;> cases hr <;> rfl
    | imageDownloaded url =>
      left
      simp only [react, imageDownloaded] at hr
      split at hr <;> cases hr
      · rfl
      · simp only [Program.after]
        split <;> rfl
    | coverUploaded path data =>
      cases hr
      cases ok with
      | false => exact Or.inl rfl
      | true => exact Or.inr ⟨path, data, a, rfl, Or.inl rfl⟩
    | coverURL path =>
      left
      simp only [react, coverSaved] at hr
      split at hr
      · split at hr
        · split at hr <;> cases hr
          rfl
        · cases hr
          rfl
      · cases hr
        rfl
    | imageUploaded list path data =>
      cases hr
      cases ok with
      | false => exact Or.inl rfl
      | true => exact Or.inr ⟨path, data, a, rfl, Or.inr ⟨list, rfl⟩⟩
    | imageURL list path =>
      left
      simp only [react, Option.some.injEq] at hr
      split at hr <;> subst hr <;> rfl
    | entryUpdated =>
      left
      cases hr
      rfl

theorem Storing.imagesPath (h : Storing l₀ c x) (i : ℕ) :
    x.loc.imagesPath i = l₀.imagesPath i := by
  rw [EditEntry.imagesPath, EditEntry.imagesPath, h.uid, h.entryID]

theorem Storing.coverPath (h : Storing l₀ c x) : x.loc.coverPath = l₀.coverPath := by
  rw [EditEntry.coverPath, EditEntry.coverPath, h.uid, h.entryID]

/-- What is stored is the cover, or an image. -/
theorem Storing.bucket_step (h : Storing l₀ c x) (hs : DirectStep program x m x') :
    (∀ p, p ≠ l₀.coverPath → (∀ i, p ≠ l₀.imagesPath i) →
      x'.loc.bucket.lookup p = l₀.bucket.lookup p) ∧ ∀ p ∈ l₀.bucket, p ∈ x'.loc.bucket := by
  rcases EditEntry.bucket_step hs with hsame | ⟨path, data, a, hnew, hm⟩
  · rw [hsame]
    exact ⟨h.others, h.kept⟩
  · have hpath : path = l₀.coverPath ∨ ∃ i, path = l₀.imagesPath i := by
      cases hs with
      | event he => rcases hm with hm | ⟨list, hm⟩ <;> cases hm
      | @deliver k ok a' rest r hb hr =>
        have hk := h.bag k (hb ▸ Multiset.mem_cons_self _ _)
        rcases hm with hm | ⟨list, hm⟩
        · cases hm
          exact Or.inl hk
        · cases hm
          exact Or.inr hk
    rw [hnew]
    refine ⟨fun p hp hi => ?_, fun p hp => (AList.mem_insert _).mpr (Or.inr (h.kept p hp))⟩
    rw [AList.lookup_insert_ne, h.others p hp hi]
    rintro rfl
    rcases hpath with hpath | ⟨i, hpath⟩
    · exact hp hpath
    · exact hi i hpath

/-- Code that keeps the names, knows the cover and writes it. -/
theorem Storing.code (h : Storing l₀ c x) {r : EditEntry × List Cmd} {rest : Multiset Callback}
    (hrest : ∀ k ∈ rest, k ∈ x.bag)
    (hbucket : (∀ p, p ≠ l₀.coverPath → (∀ i, p ≠ l₀.imagesPath i) →
      r.1.bucket.lookup p = l₀.bucket.lookup p) ∧ ∀ p ∈ l₀.bucket, p ∈ r.1.bucket)
    (huid : r.1.currentUser = x.loc.currentUser) (hid : r.1.entryID = x.loc.entryID)
    (hurl : Covers l₀ c r.1.entryCoverURL) (hcs : ∀ k ∈ callbacks r.2, k.StoresFor l₀)
    (hcover : Covers l₀ c (coverOf (effect Write.apply r.2 x.store) l₀.entryID)) :
    Storing l₀ c (program.after r { x with bag := rest }) where
  uid := huid ▸ h.uid
  entryID := hid.trans h.entryID
  bag k hk := (Multiset.mem_add.mp hk).elim (fun hk => h.bag k (hrest k hk)) (hcs k)
  url := hurl
  cover := hcover
  others := hbucket.1
  kept := hbucket.2

theorem mem_imageUploads {list : ℕ} {images : List UIImage} {n : ℕ} {cmd : Cmd}
    (h : cmd ∈ imageUploads l list images n) :
    ∃ i data, cmd = .request (.imageUploaded list (l.imagesPath i) data) := by
  induction images generalizing n with
  | nil => cases h
  | cons image images ih =>
    simp only [imageUploads] at h
    split at h
    · cases h
    · rcases List.mem_cons.mp h with rfl | h
      · exact ⟨n, _, rfl⟩
      · exact ih h

theorem Storing.step (h : Storing l₀ c x) (hs : DirectStep program x m x') :
    Storing l₀ c x' := by
  have hbucket := h.bucket_step hs
  cases hs with
  | @event e r he =>
    change event e x.loc x.store = some r at he
    have hrest : ∀ k ∈ x.bag, k ∈ x.bag := fun _ hk => hk
    cases e with
    | viewDidLoad =>
      simp only [event, viewDidLoad] at he
      split at he <;> cases he
      · refine h.code hrest hbucket rfl rfl h.url (fun k hk => ?_) ?_
        · simp only [Handler.andThen_apply, loadImagesFromEntryInfo, Handler.modify_apply,
            List.append_nil, callbacks_request, callbacks_map_request, Multiset.mem_cons,
            Multiset.mem_coe, List.mem_map] at hk
          rcases hk with rfl | ⟨url, -, rfl⟩ <;> trivial
        · simpa [loadImagesFromEntryInfo] using h.cover
      · exact h.code hrest hbucket rfl rfl h.url (by simp) h.cover
    | saveButton =>
      simp only [event, saveButton, uploadEntryCoverPhoto, Handler.issue_apply] at he
      split at he <;> cases he
      · exact h.code hrest hbucket rfl rfl h.url (by simp) h.cover
      · refine h.code hrest hbucket rfl rfl h.url (fun k hk => ?_) ?_
        · dsimp only at hk
          split at hk
          · simp at hk
          · obtain rfl : k = _ := by simpa using hk
            exact h.coverPath
        · dsimp only
          split <;> exact h.cover
    | deleteImage index =>
      simp only [event] at he
      split at he <;> cases he
      exact h.code hrest hbucket rfl rfl h.url (by simp) h.cover
    | _ =>
      cases he
      exact h.code hrest hbucket rfl rfl h.url (by simp) h.cover
  | @deliver k ok a rest r hb hr =>
    change react k ok a x.loc x.store = some r at hr
    have hk : k.StoresFor l₀ := h.bag k (hb ▸ Multiset.mem_cons_self _ _)
    have hrest : ∀ k' ∈ rest, k' ∈ x.bag := fun k' hk' => hb ▸ Multiset.mem_cons_of_mem hk'
    cases k with
    | entryFetched =>
      simp only [react] at hr
      split at hr
      · cases hr
        exact h.code hrest hbucket rfl rfl h.url (by simp) h.cover
      · rename_i d hd
        obtain ⟨url, hurl, rfl⟩ := Option.map_eq_some_iff.mp hr
        have hcover : coverOf x.store l₀.entryID = some url := by
          split at hd
          · rw [h.entryID] at hd
            rw [coverOf, hd]
            exact hurl
          · cases hd
        refine h.code hrest hbucket rfl rfl (hcover ▸ h.cover) (fun k' hk' => ?_) h.cover
        obtain rfl : k' = _ := by simpa using hk'
        trivial
    | coverDownloaded url =>
      simp only [react] at hr
      split at hr <;> cases hr <;> exact h.code hrest hbucket rfl rfl h.url (by simp) h.cover
    | imageDownloaded url =>
      simp only [react, imageDownloaded] at hr
      split at hr <;> cases hr
      · exact h.code hrest hbucket rfl rfl h.url (by simp) h.cover
      · refine h.code hrest hbucket ?_ ?_ ?_ (by simp) h.cover
        · dsimp only
          split <;> rfl
        · dsimp only
          split <;> rfl
        · dsimp only
          split <;> exact h.url
    | coverUploaded path data =>
      cases hr
      refine h.code hrest hbucket ?_ ?_ ?_ (fun k' hk' => ?_) h.cover
      · dsimp only
        split <;> rfl
      · dsimp only
        split <;> rfl
      · dsimp only
        split <;> exact h.url
      · obtain rfl : k' = _ := by simpa using hk'
        exact hk
    | coverURL path =>
      obtain rfl : path = l₀.coverPath := hk
      simp only [react, coverSaved] at hr
      split at hr
      · split at hr
        · split at hr <;> cases hr
          refine h.code hrest hbucket rfl rfl (Or.inr (Or.inr rfl)) (fun k' hk' => ?_) ?_
          · obtain ⟨cmd, hcmd, hk'⟩ := mem_callbacks.mp hk'
            obtain ⟨i, data, rfl⟩ := mem_imageUploads hcmd
            cases hk'
            exact ⟨i, h.imagesPath i⟩
          · simpa only [updateEntry, imageUploads_effect] using h.cover
        · cases hr
          exact h.code hrest hbucket rfl rfl (Or.inr (Or.inr rfl)) (by simp) h.cover
      · cases hr
        exact h.code hrest hbucket rfl rfl h.url (by simp) h.cover
    | imageUploaded list path data =>
      cases hr
      refine h.code hrest hbucket ?_ ?_ ?_ (fun k' hk' => ?_) h.cover
      · dsimp only
        split <;> rfl
      · dsimp only
        split <;> rfl
      · dsimp only
        split <;> exact h.url
      · obtain rfl : k' = _ := by simpa using hk'
        exact hk
    | imageURL list path =>
      simp only [react, Option.some.injEq] at hr
      split at hr <;> subst hr
      · refine h.code hrest hbucket rfl rfl h.url (fun k' hk' => ?_) ?_
        · simp only [imageSaved] at hk'
          split at hk'
          · obtain rfl : k' = _ := by simpa using hk'
            trivial
          · simp at hk'
        · simp only [imageSaved]
          split
          · -- the document is written with the cover that the screen knows
            simp only [effect_write, effect_nil, Write.apply, coverOf, h.entryID,
              Collection.lookup_modify_eq, if_true]
            cases x.store.entries.lookup l₀.entryID with
            | none => exact Or.inl rfl
            | some d => exact h.url
          · exact h.cover
      · exact h.code hrest hbucket rfl rfl h.url (by simp) h.cover
    | entryUpdated =>
      cases hr
      exact h.code hrest hbucket rfl rfl h.url (by simp) h.cover

/-! ## Runs -/

theorem storing_start (hl : l.entryCoverURL = none) (db : Firestore) :
    Storing l (coverOf db l.entryID) (program.direct (start db l)) :=
  ⟨rfl, rfl, by simp, Or.inl hl, Or.inr (Or.inl rfl), fun _ _ _ => rfl, fun _ h => h⟩

theorem storing_of_reaches (hl : l.entryCoverURL = none)
    (h : Reaches program allowed (start db l) st) :
    Storing l (coverOf db l.entryID) (program.direct st) :=
  h.invariant (I := Storing l (coverOf db l.entryID)) (fun _ _ _ hx _ hs => hx.step hs)
    (storing_start hl db)

/-- Nothing is deleted. -/
theorem kept_of_reaches (h : Reaches program allowed st st') {p : String}
    (hp : p ∈ st.loc.bucket) : p ∈ st'.loc.bucket :=
  h.invariant (I := fun x => p ∈ x.loc.bucket) (fun x m x' hx _ hs => by
    rcases bucket_step hs with hsame | ⟨path, data, a, hnew, -⟩
    · exact hsame ▸ hx
    · exact hnew ▸ (AList.mem_insert _).mpr (Or.inr hx)) hp

/-- **Apart from the cover nothing has changed**, if no image has been stored. -/
theorem stored_of_reaches (hl : l.entryCoverURL = none)
    (h : Reaches program storesNone (start db l) st) :
    ∀ p ≠ l.coverPath, st.loc.bucket.lookup p = l.bucket.lookup p := by
  have hend := h.invariant (I := fun x => Storing l (coverOf db l.entryID) x ∧
    ∀ p ≠ l.coverPath, x.loc.bucket.lookup p = l.bucket.lookup p) (fun x m x' hx ha hs => ?_)
    ⟨storing_start hl db, fun _ _ => rfl⟩
  · exact hend.2
  · refine ⟨hx.1.step hs, fun p hp => ?_⟩
    rw [← hx.2 p hp]
    rcases bucket_step hs with hsame | ⟨path, data, a, hnew, rfl | ⟨list, rfl⟩⟩
    · rw [hsame]
    · have hpath : path = l.coverPath := by
        cases hs with
        | deliver hb hr => exact hx.1.bag _ (hb ▸ Multiset.mem_cons_self _ _)
      rw [hnew, AList.lookup_insert_ne (hpath ▸ hp)]
    · cases ha

theorem mem_bucket_of_upload {list : ℕ} {path data : String} {a : Unit}
    (hs : DirectStep program x (.deliver (.imageUploaded list path data) true a) x') :
    path ∈ x'.loc.bucket := by
  cases hs with
  | deliver hb hr =>
    cases hr
    exact (AList.mem_insert _).mpr (Or.inl rfl)

/-- A step that stores an image. -/
theorem upload_of_not_storesNone {lbl : Label Unit Event} (hs : program.step lbl st = some st')
    (hp : Permits program (fun _ _ _ => True) st lbl) (hno : ¬Permits program storesNone st lbl) :
    ∃ list path data, .imageUploaded list path data ∈ (program.direct st).bag ∧
      path ∈ st'.loc.bucket := by
  cases lbl with
  | event e => exact absurd trivial hno
  | apply => exact absurd trivial hno
  | reject => exact hp.elim
  | deliver i ok a =>
    rcases hi : st.ready[i]? with _ | ⟨k, o⟩
    · simp [Program.step, hi] at hs
    · have hmem : k ∈ (program.direct st).bag := mem_bag_of_ready (List.mem_of_getElem? hi)
      simp only [Permits, hi] at hno
      cases k with
      | imageUploaded list path data =>
        have hok : ok = true := by simpa [storesNone] using hno
        subst hok
        refine ⟨list, path, data, hmem, ?_⟩
        rcases step_move hs with ⟨hm, -⟩ | ⟨m, hm, hd⟩
        · simp [State.move, hi] at hm
        · obtain rfl : Async.Move.deliver (Callback.imageUploaded list path data) true a = m := by
            simpa [State.move, hi] using hm
          exact mem_bucket_of_upload hd
      | _ => exact absurd trivial hno

/-- **An image that has been stored is there**: if a use of the screen is not one in which none is
stored. -/
theorem images_stored (hx : Storing l₀ c (program.direct st))
    (h : exec program (fun _ _ _ => True) lbls st = some st')
    (hno : exec program storesNone lbls st = none) : ∃ i, l₀.imagesPath i ∈ st'.loc.bucket := by
  induction lbls generalizing st with
  | nil => cases hno
  | cons lbl lbls ih =>
    simp only [exec] at h hno
    split at h
    · rename_i hp
      obtain ⟨st₁, hst₁, h⟩ := Option.bind_eq_some_iff.mp h
      by_cases hq : Permits program storesNone st lbl
      · rw [if_pos hq, hst₁, Option.bind_some] at hno
        refine ih ?_ h hno
        rcases direct_step hq hst₁ with ⟨hd, -⟩ | ⟨m, -, hd, -⟩
        · exact hd ▸ hx
        · exact hx.step hd
      · obtain ⟨list, path, data, hmem, hpath⟩ := upload_of_not_storesNone hst₁ hp hq
        obtain ⟨i, rfl⟩ := hx.bag _ hmem
        exact ⟨i, kept_of_reaches ⟨lbls, trace_of_exec h⟩ hpath⟩
    · cases h

end

end EditEntry

end Wanderlust
