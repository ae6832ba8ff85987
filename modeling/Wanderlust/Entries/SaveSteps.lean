import Mathlib.Data.Multiset.Filter
import Wanderlust.Entries.Paths
import Wanderlust.Foundations.Handlers
import Wanderlust.Foundations.Listener
import Wanderlust.Models.User

/-!
# The steps of a save of an entry

Saving an entry that has been edited uploads its cover and then, while the place is looked up, its
photos, each to a path that does not depend on what is uploaded; when the URLs of all photos have
been fetched, the document is written. What a single answer does to the save is said once
(`saveStep`), and what it writes (`runs_writes`).
-/

namespace Wanderlust

open Async Runs

/-- The objects that the document of an entry refers to. -/
def EntryDoc.photoURLs (d : EntryDoc) : List URL := d.coverPhoto.toList ++ d.mediaList

namespace EditEntry

/-- The closures of the screen, with that of the geocoder. -/
inductive Closure
  | screen (k : Callback)
  -- `geocodeAddressString` of `saveButton`
  | geocoded
  deriving DecidableEq

/-- The geocoder is asked when the cover has its URL. -/
def geocoding : Callback → Bool → List (Async.Cmd Write Closure)
  | .coverURL _, true => [.request .geocoded]
  | _, _ => []

/-- The code of the closures. Whether a location is found or not, nothing is done with it here:
neither of the screens that use it is the delegate. -/
def reactGeocoding : Closure → Bool → Unit → EditEntry → Firestore →
    Option (EditEntry × List (Async.Cmd Write Closure))
  | .screen k, ok, a, l, db =>
    (react k ok a l db).map fun r => (r.1, geocoding k ok ++ r.2.map (Cmd.map .screen))
  | .geocoded, _, _, l, _ => some (l, [])

/-- `EditEntryViewController` with the geocoder. -/
def geocodingProgram : Program Firestore EditEntry Write Closure Unit Event where
  apply := Write.apply
  react := reactGeocoding
  event := fun e l db => (event e l db).map fun r => (r.1, r.2.map (Cmd.map .screen))

/-! ## What a step of a save does -/

/-- A callback of a save, before the document is written. -/
def Callback.Saving : Callback → Prop
  | .coverUploaded _ _ => True
  | .coverURL _ => True
  | .imageUploaded _ _ _ => True
  | .imageURL _ _ => True
  | _ => False

instance : DecidablePred Callback.Saving
  | .entryFetched => inferInstanceAs (Decidable False)
  | .coverDownloaded _ => inferInstanceAs (Decidable False)
  | .imageDownloaded _ => inferInstanceAs (Decidable False)
  | .coverUploaded _ _ => inferInstanceAs (Decidable True)
  | .coverURL _ => inferInstanceAs (Decidable True)
  | .imageUploaded _ _ _ => inferInstanceAs (Decidable True)
  | .imageURL _ _ => inferInstanceAs (Decidable True)
  | .entryUpdated => inferInstanceAs (Decidable False)

/-- The callback of the screen, if it is one of a save. -/
def Closure.saving : Closure → Option Callback
  | .screen k => if k.Saving then some k else none
  | .geocoded => none

/-- What is under way of a save. -/
def saves (bag : Multiset Closure) : Multiset Callback := bag.filterMap Closure.saving

/-- An object that is stored: its path and its data. -/
def stored : Async.Move Closure Unit Event → Option (String × String)
  | .deliver (.screen (.coverUploaded path data)) true _ => some (path, data)
  | .deliver (.screen (.imageUploaded _ path data)) true _ => some (path, data)
  | _ => none

/-- The URLs of the photos that have been fetched are the same. -/
structure Steady (l l' : EditEntry) : Prop where
  entryInfoImages : l'.entryInfoImages = l.entryInfoImages
  tempEntryList : l'.tempEntryList = l.tempEntryList

/-- What a step does to a save: it is none of it, or an answer of it. -/
inductive SaveStep (x x' : Direct Firestore EditEntry Closure) :
    Async.Move Closure Unit Event → Prop
  | other {m : Async.Move Closure Unit Event} (hm : stored m = none)
      (hfetched : ∀ list path a, m ≠ .deliver (.screen (.imageURL list path)) true a)
      (hsaves : saves x'.bag = saves x.bag) (hbucket : x'.loc.bucket = x.loc.bucket)
      (hsteady : Steady x.loc x'.loc) : SaveStep x x' m
  | coverUploaded {path data : String} {ok : Bool} {a : Unit} {rest : Multiset Callback}
      (hold : saves x.bag = .coverUploaded path data ::ₘ rest)
      (hsaves : saves x'.bag = .coverURL path ::ₘ rest)
      (hbucket : x'.loc.bucket = if ok then x.loc.bucket.insert path data else x.loc.bucket) :
      SaveStep x x' (.deliver (.screen (.coverUploaded path data)) ok a)
  | coverURL {path : String} {ok : Bool} {a : Unit} {rest : Multiset Callback}
      (hold : saves x.bag = .coverURL path ::ₘ rest) (hsaves : saves x'.bag = rest)
      (hbucket : x'.loc.bucket = x.loc.bucket) :
      SaveStep x x' (.deliver (.screen (.coverURL path)) ok a)
  | updateEntry {path : String} {a : Unit} {rest : Multiset Callback}
      (hold : saves x.bag = .coverURL path ::ₘ rest)
      (hsaves : saves x'.bag = rest +
        callbacks (imageUploads x.loc x.loc.nextList x.loc.entryImage 0))
      (hbucket : x'.loc.bucket = x.loc.bucket) (hcover : x'.loc.entryCoverURL = some ⟨path⟩)
      (hnone : x'.loc.entryInfoImages = []) (hlist : x'.loc.tempEntryList x.loc.nextList = 0) :
      SaveStep x x' (.deliver (.screen (.coverURL path)) true a)
  | imageUploaded {list : ℕ} {path data : String} {ok : Bool} {a : Unit}
      {rest : Multiset Callback} (hold : saves x.bag = .imageUploaded list path data ::ₘ rest)
      (hsaves : saves x'.bag = .imageURL list path ::ₘ rest)
      (hbucket : x'.loc.bucket = if ok then x.loc.bucket.insert path data else x.loc.bucket)
      (hsteady : Steady x.loc x'.loc) :
      SaveStep x x' (.deliver (.screen (.imageUploaded list path data)) ok a)
  | urlFailed {list : ℕ} {path : String} {a : Unit} {rest : Multiset Callback}
      (hold : saves x.bag = .imageURL list path ::ₘ rest) (hsaves : saves x'.bag = rest)
      (hbucket : x'.loc.bucket = x.loc.bucket) (hsteady : Steady x.loc x'.loc) :
      SaveStep x x' (.deliver (.screen (.imageURL list path)) false a)
  | imageURL {list : ℕ} {path : String} {a : Unit} {rest : Multiset Callback}
      (hold : saves x.bag = .imageURL list path ::ₘ rest) (hsaves : saves x'.bag = rest)
      (hbucket : x'.loc.bucket = x.loc.bucket)
      (hurls : x'.loc.entryInfoImages = x.loc.entryInfoImages ++ [⟨path⟩])
      (hlist : x'.loc.tempEntryList list = x.loc.tempEntryList list + 1) :
      SaveStep x x' (.deliver (.screen (.imageURL list path)) true a)

section

variable {x x' : Direct Firestore EditEntry Closure} {m : Async.Move Closure Unit Event}

theorem saves_map (bag : Multiset Callback) :
    saves (bag.map .screen) = bag.filter Callback.Saving := by
  induction bag using Multiset.induction with
  | empty => rfl
  | cons k bag ih =>
    rw [Multiset.map_cons]
    by_cases hk : k.Saving
    · rw [Multiset.filter_cons_of_pos _ hk, ← ih]
      exact Multiset.filterMap_cons_some _ _ _ (if_pos hk)
    · rw [Multiset.filter_cons_of_neg _ hk, ← ih]
      exact Multiset.filterMap_cons_none _ _ (if_neg hk)

theorem saves_geocoding (k : Callback) (ok : Bool) : saves (callbacks (geocoding k ok)) = 0 := by
  cases k with
  | coverURL path => cases ok <;> rfl
  | _ => rfl

/-- Of the commands of the screen, those of a save. -/
theorem saves_after (r : EditEntry × List Cmd) (k : Callback) (ok : Bool)
    (x : Direct Firestore EditEntry Closure) :
    saves (geocodingProgram.after (r.1, geocoding k ok ++ r.2.map (Cmd.map .screen)) x).bag =
      saves x.bag + (callbacks r.2).filter Callback.Saving := by
  simp only [Program.after, callbacks_append, callbacks_map]
  rw [saves, Multiset.filterMap_add, Multiset.filterMap_add]
  change saves x.bag + (saves _ + saves _) = _
  rw [saves_geocoding, saves_map, zero_add]

theorem saves_cons {k : Callback} (hk : k.Saving) (bag : Multiset Closure) :
    saves (.screen k ::ₘ bag) = k ::ₘ saves bag :=
  Multiset.filterMap_cons_some _ _ _ (if_pos hk)

theorem saves_cons_of_not {k : Callback} (hk : ¬ k.Saving) (bag : Multiset Closure) :
    saves (.screen k ::ₘ bag) = saves bag :=
  Multiset.filterMap_cons_none _ _ (if_neg hk)

/-! ### The uploads of the photos -/

theorem imageUploads_congr (l l' : EditEntry) (h : ∀ i, l.imagesPath i = l'.imagesPath i) (c : ℕ)
    (images : List UIImage) (n : ℕ) :
    imageUploads l c images n = imageUploads l' c images n := by
  induction images generalizing n with
  | nil => rfl
  | cons image images ih => simp only [imageUploads, h, ih]

/-- The path of an upload of a photo. -/
def Callback.uploadPath : Callback → Option String
  | .imageUploaded _ path _ => some path
  | _ => none

/-- The paths of the photos that are still to be uploaded. -/
def uploadPaths (ks : Multiset Callback) : Multiset String := ks.filterMap Callback.uploadPath

variable {l : EditEntry} {c n : ℕ} {images : List UIImage} {k : Callback}

@[simp] theorem uploadPaths_imageUploaded (path data : String) (ks : Multiset Callback) :
    uploadPaths (.imageUploaded c path data ::ₘ ks) = path ::ₘ uploadPaths ks :=
  Multiset.filterMap_cons_some Callback.uploadPath _ _ rfl

@[simp] theorem uploadPaths_imageURL (path : String) (ks : Multiset Callback) :
    uploadPaths (.imageURL c path ::ₘ ks) = uploadPaths ks :=
  Multiset.filterMap_cons_none _ _ rfl

/-- **An upload of a photo** is to the path with its number, and of its data. -/
theorem mem_callbacks_imageUploads (h : k ∈ callbacks (imageUploads l c images n)) :
    ∃ i data, k = .imageUploaded c (l.imagesPath (n + i)) data ∧
      images[i]?.bind UIImage.jpegData = some data := by
  induction images generalizing n with
  | nil => simp [imageUploads] at h
  | cons image images ih =>
    simp only [imageUploads] at h
    split at h
    · simp at h
    · rename_i data hdata
      rw [callbacks_request, Multiset.mem_cons] at h
      rcases h with rfl | h
      · exact ⟨0, data, rfl, hdata⟩
      · obtain ⟨i, data, rfl, hi⟩ := ih h
        exact ⟨i + 1, data, by rw [Nat.add_right_comm, Nat.add_assoc], hi⟩

theorem card_callbacks_imageUploads (l : EditEntry) (c : ℕ) (images : List UIImage) (n : ℕ) :
    (callbacks (imageUploads l c images n)).card ≤ images.length := by
  induction images generalizing n with
  | nil => exact Nat.le_refl 0
  | cons image images ih =>
    simp only [imageUploads]
    split
    · exact Nat.zero_le _
    · rw [callbacks_request, Multiset.card_cons]
      exact Nat.succ_le_succ (ih (n + 1))

theorem imagesPath_inj {i j : ℕ} : l.imagesPath i = l.imagesPath j ↔ i = j := by
  rw [imagesPath_eq, imagesPath_eq]
  unfold filePath
  rw [String.append_right_inj]
  exact numbered_inj

/-- No two photos are uploaded to the same path. -/
theorem nodup_imageUploads (l : EditEntry) (c : ℕ) (images : List UIImage) (n : ℕ) :
    (uploadPaths (callbacks (imageUploads l c images n))).Nodup := by
  induction images generalizing n with
  | nil => exact Multiset.nodup_zero
  | cons image images ih =>
    simp only [imageUploads]
    split
    · exact Multiset.nodup_zero
    · rename_i data _
      rw [callbacks_request, uploadPaths_imageUploaded, Multiset.nodup_cons]
      refine ⟨fun hmem => ?_, ih (n + 1)⟩
      obtain ⟨k, hk, hpath⟩ := (Multiset.mem_filterMap _ _).mp hmem
      obtain ⟨i, data', rfl, -⟩ := mem_callbacks_imageUploads hk
      have hsame : n + 1 + i = n := imagesPath_inj.mp (Option.some.inj hpath)
      omega

/-- No photo is uploaded to the path of the cover. -/
theorem imagesPath_ne_coverPath (l : EditEntry) (i : ℕ) : l.imagesPath i ≠ l.coverPath := by
  rw [imagesPath_eq, coverPath_eq]
  exact filePath_numbered_ne_coverName

/-! ### The steps -/

/-- Code that has nothing to do with a save. -/
structure Quiet (l : EditEntry) (r : EditEntry × List Cmd) : Prop where
  bucket : r.1.bucket = l.bucket
  steady : Steady l r.1
  callbacks : (callbacks r.2).filter Callback.Saving = 0
  writes : writes r.2 = []

theorem quiet_event {e : Event} {db : Firestore} {r : EditEntry × List Cmd}
    (he : e ≠ .saveButton) (h : event e l db = some r) : Quiet l r := by
  cases e with
  | saveButton => exact absurd rfl he
  | deleteImage index =>
    simp only [event] at h
    split at h <;> cases h
    exact ⟨rfl, ⟨rfl, rfl⟩, rfl, rfl⟩
  | viewDidLoad =>
    simp only [event, viewDidLoad] at h
    split at h <;> cases h
    · refine ⟨rfl, ⟨rfl, rfl⟩, ?_, ?_⟩
      · refine Multiset.filter_eq_nil.mpr fun k hk => ?_
        have hload : k = .entryFetched ∨ ∃ url ∈ l.entryInfoImages, .imageDownloaded url = k := by
          simpa [loadImagesFromEntryInfo, callbacks_map_request] using hk
        rcases hload with rfl | ⟨url, -, rfl⟩ <;> exact id
      · simp [loadImagesFromEntryInfo, writes]
    · exact ⟨rfl, ⟨rfl, rfl⟩, rfl, rfl⟩
  | _ =>
    cases h
    exact ⟨rfl, ⟨rfl, rfl⟩, rfl, rfl⟩

theorem quiet_react {ok : Bool} {a : Unit} {db : Firestore} {r : EditEntry × List Cmd}
    (hk : ¬ k.Saving) (h : react k ok a l db = some r) : Quiet l r := by
  cases k with
  | entryFetched =>
    simp only [react] at h
    split at h
    · cases h
      exact ⟨rfl, ⟨rfl, rfl⟩, rfl, rfl⟩
    · obtain ⟨url, -, rfl⟩ := Option.map_eq_some_iff.mp h
      exact ⟨rfl, ⟨rfl, rfl⟩, rfl, rfl⟩
  | coverDownloaded url =>
    simp only [react] at h
    split at h <;> cases h <;> exact ⟨rfl, ⟨rfl, rfl⟩, rfl, rfl⟩
  | imageDownloaded url =>
    simp only [react] at h
    split at h <;> cases h
    · exact ⟨rfl, ⟨rfl, rfl⟩, rfl, rfl⟩
    · simp only [imageDownloaded]
      split <;> exact ⟨rfl, ⟨rfl, rfl⟩, rfl, rfl⟩
  | entryUpdated =>
    cases h
    exact ⟨rfl, ⟨rfl, rfl⟩, rfl, rfl⟩
  | _ => exact absurd trivial hk

/-- A request of a save. -/
theorem saves_request (hk : k.Saving) (ks : Multiset Callback) :
    ks + (callbacks [(.request k : Cmd)]).filter Callback.Saving = k ::ₘ ks := by
  rw [callbacks_request, callbacks_nil, Multiset.filter_cons_of_pos _ hk, Multiset.filter_zero,
    Multiset.add_cons, add_zero]

/-- A step that has nothing to do with the save. -/
theorem Quiet.other (k : Callback) (ok : Bool) {r : EditEntry × List Cmd} {rest : Multiset Closure}
    (h : Quiet x.loc r) (hm : stored m = none)
    (hfetched : ∀ list path a, m ≠ .deliver (.screen (.imageURL list path)) true a)
    (hrest : saves rest = saves x.bag) :
    SaveStep x (geocodingProgram.after (r.1, geocoding k ok ++ r.2.map (Cmd.map .screen))
      { x with bag := rest }) m := by
  refine .other hm hfetched ?_ h.bucket h.steady
  rw [saves_after, h.callbacks, add_zero]
  exact hrest

/-- What the last answer of a list may lead to is no part of the save any more. -/
theorem filter_imageSaved (list : ℕ) (url : URL) (l : EditEntry) :
    (callbacks (imageSaved list url l).2).filter Callback.Saving = 0 := by
  simp only [imageSaved]
  split <;> rfl

/-- **What a step does**, unless the save is pressed. -/
theorem saveStep (hm : m ≠ .event .saveButton) (hs : DirectStep geocodingProgram x m x') :
    SaveStep x x' m := by
  cases hs with
  | @event e r he =>
    obtain ⟨r, hcode, rfl⟩ := Option.map_eq_some_iff.mp he
    have hquiet := quiet_event (fun heq => hm (congrArg _ heq)) hcode
    exact hquiet.other .entryFetched true rfl nofun rfl
  | @deliver k ok a rest r hb hr =>
    cases k with
    | geocoded =>
      cases hr
      refine .other rfl nofun ?_ rfl ⟨rfl, rfl⟩
      rw [hb, Program.after, callbacks_nil, add_zero]
      exact (Multiset.filterMap_cons_none _ _ rfl).symm
    | screen k =>
      obtain ⟨r, hcode, rfl⟩ := Option.map_eq_some_iff.mp hr
      have hafter := saves_after r k ok { x with bag := rest }
      by_cases hk : k.Saving
      · have hold : saves x.bag = k ::ₘ saves rest := by rw [hb, saves_cons hk]
        cases k with
        | coverUploaded path data =>
          cases hcode
          refine .coverUploaded hold
            (hafter.trans (saves_request (k := .coverURL path) trivial _)) ?_
          cases ok <;> rfl
        | coverURL path =>
          cases ok with
          | false =>
            cases hcode
            exact .coverURL hold (hafter.trans (add_zero _)) rfl
          | true =>
            simp only [react, if_true, coverSaved] at hcode
            split at hcode
            · split at hcode <;> cases hcode
              refine .updateEntry hold ?_ rfl rfl rfl (Function.update_self ..)
              rw [hafter, Multiset.filter_eq_self.mpr]
              · exact congrArg (fun cs => saves rest + callbacks cs) (imageUploads_congr
                  { x.loc with entryCoverURL := some ⟨path⟩, entryInfoImages := [] } x.loc
                  (fun _ => rfl) x.loc.nextList x.loc.entryImage 0)
              · intro k hk
                obtain ⟨i, data, rfl, -⟩ := mem_callbacks_imageUploads hk
                trivial
            · cases hcode
              exact .coverURL hold (hafter.trans (add_zero _)) rfl
        | imageUploaded list path data =>
          cases hcode
          refine .imageUploaded hold
            (hafter.trans (saves_request (k := .imageURL list path) trivial _)) ?_ ?_
          · cases ok <;> rfl
          · cases ok <;> exact ⟨rfl, rfl⟩
        | imageURL list path =>
          cases hcode
          cases ok with
          | false => exact .urlFailed hold (hafter.trans (add_zero _)) rfl ⟨rfl, rfl⟩
          | true =>
            refine .imageURL hold ?_ rfl rfl (Function.update_self ..)
            rw [hafter]
            exact (congrArg (saves rest + ·) (filter_imageSaved _ _ _)).trans (add_zero _)
        | _ => exact hk.elim
      · have hquiet := quiet_react hk hcode
        refine hquiet.other _ _ ?_ ?_ ?_
        · cases k with
          | coverUploaded path data => exact absurd trivial hk
          | imageUploaded list path data => exact absurd trivial hk
          | _ => rfl
        · rintro list path a ⟨⟩
          exact hk trivial
        · rw [hb, saves_cons_of_not hk]

/-! ### What the form keeps -/

/-- What is the same, or only grows, unless a photo is removed. -/
structure Kept (l l' : EditEntry) : Prop where
  currentUser : l'.currentUser = l.currentUser
  entryID : l'.entryID = l.entryID
  entryImage : l.entryImage <+: l'.entryImage

theorem Kept.imagesPath {l l' : EditEntry} (h : Kept l l') (i : ℕ) :
    l'.imagesPath i = l.imagesPath i := by
  rw [EditEntry.imagesPath, EditEntry.imagesPath, h.currentUser, h.entryID]

theorem kept_event {e : Event} {db : Firestore} {r : EditEntry × List Cmd}
    (hdelete : ∀ index, e ≠ .deleteImage index) (h : event e l db = some r) : Kept l r.1 := by
  cases e with
  | deleteImage index => exact absurd rfl (hdelete index)
  | viewDidLoad =>
    simp only [event, viewDidLoad] at h
    split at h <;> cases h <;> exact ⟨rfl, rfl, List.prefix_rfl⟩
  | addPhoto image =>
    cases h
    exact ⟨rfl, rfl, List.prefix_append _ _⟩
  | saveButton =>
    simp only [event, saveButton, uploadEntryCoverPhoto, Handler.issue_apply] at h
    split at h <;> cases h <;> exact ⟨rfl, rfl, List.prefix_rfl⟩
  | _ =>
    cases h
    exact ⟨rfl, rfl, List.prefix_rfl⟩

theorem kept_react {ok : Bool} {a : Unit} {db : Firestore} {r : EditEntry × List Cmd}
    (h : react k ok a l db = some r) : Kept l r.1 := by
  cases k with
  | entryFetched =>
    simp only [react] at h
    split at h
    · cases h
      exact ⟨rfl, rfl, List.prefix_rfl⟩
    · obtain ⟨url, -, rfl⟩ := Option.map_eq_some_iff.mp h
      exact ⟨rfl, rfl, List.prefix_rfl⟩
  | coverDownloaded url =>
    simp only [react] at h
    split at h <;> cases h <;> exact ⟨rfl, rfl, List.prefix_rfl⟩
  | imageDownloaded url =>
    simp only [react] at h
    split at h <;> cases h
    · exact ⟨rfl, rfl, List.prefix_rfl⟩
    · simp only [imageDownloaded]
      split <;> exact ⟨rfl, rfl, List.prefix_append _ _⟩
  | coverURL path =>
    simp only [react, coverSaved] at h
    split at h
    · split at h
      · split at h <;> cases h
        exact ⟨rfl, rfl, List.prefix_rfl⟩
      · cases h
        exact ⟨rfl, rfl, List.prefix_rfl⟩
    · cases h
      exact ⟨rfl, rfl, List.prefix_rfl⟩
  | _ =>
    cases h
    cases ok <;> exact ⟨rfl, rfl, List.prefix_rfl⟩

/-- **What a step keeps of the form.** -/
theorem kept_step (hdelete : ∀ index, m ≠ .event (.deleteImage index))
    (hs : DirectStep geocodingProgram x m x') : Kept x.loc x'.loc := by
  cases hs with
  | event he =>
    obtain ⟨r, hcode, rfl⟩ := Option.map_eq_some_iff.mp he
    exact kept_event (fun index heq => hdelete index (congrArg _ heq)) hcode
  | @deliver k ok a rest r hb hr =>
    cases k with
    | geocoded =>
      cases hr
      exact ⟨rfl, rfl, List.prefix_rfl⟩
    | screen k =>
      obtain ⟨r, hcode, rfl⟩ := Option.map_eq_some_iff.mp hr
      exact kept_react hcode

end

/-! ## The writes -/

/-- A state of the screen with what is under way. -/
abbrev Screen := State Firestore EditEntry Write Closure

/-- What a step of a save writes. -/
def saved (l : EditEntry) : Async.Move Closure Unit Event → List (Write × Option Closure)
  | .deliver (.screen (.imageURL list path)) true _ =>
    if l.tempEntryList list + 1 = l.entryImage.length then
      [(.updateEntry l.entryID (imageSaved list ⟨path⟩ l).1.merge, some (.screen .entryUpdated))]
    else []
  | _ => []

section

variable {st : Screen} {lbl : Label Unit Event} {r : EditEntry × List (Async.Cmd Write Closure)}

theorem writes_imageUploads (l : EditEntry) (c : ℕ) (images : List UIImage) (n : ℕ) :
    writes (imageUploads l c images n) = [] := by
  induction images generalizing n with
  | nil => rfl
  | cons image images ih =>
    simp only [imageUploads]
    split
    · rfl
    · exact ih (n + 1)

theorem writes_screen (cs : List Cmd) : writes (cs.map (Cmd.map Closure.screen)) =
    (writes cs).map fun y => (y.1, y.2.map .screen) := by
  induction cs with
  | nil => rfl
  | cons c cs ih =>
    cases c with
    | write w k => exact congrArg (_ :: ·) ih
    | request k => exact ih

/-- The writes of the screen with the geocoder. -/
theorem writes_geocoding (k : Callback) (ok : Bool) (cs : List Cmd) :
    writes (geocoding k ok ++ cs.map (Cmd.map .screen)) =
      (writes cs).map fun y => (y.1, y.2.map .screen) := by
  have hgeo : writes (geocoding k ok) = [] := by
    cases k with
    | coverURL path => cases ok <;> rfl
    | _ => rfl
  rw [writes_append, hgeo, writes_screen, List.nil_append]

/-- The closures write the document when the last URL of a list has been fetched. -/
theorem react_writes {k : Callback} {ok : Bool} {a : Unit} {l : EditEntry} {db : Firestore}
    {r : EditEntry × List Cmd} (h : react k ok a l db = some r) :
    (writes r.2).map (fun y => (y.1, y.2.map .screen)) =
      saved l (.deliver (.screen k) ok ()) := by
  cases k with
  | coverURL path =>
    simp only [react, coverSaved] at h
    split at h
    · split at h
      · split at h <;> cases h
        rw [updateEntry, writes_imageUploads]
        rfl
      · cases h
        rfl
    · cases h
      rfl
  | imageURL list path =>
    cases h
    cases ok with
    | false => rfl
    | true =>
      simp only [if_true, imageSaved, saved, Function.update_self]
      split <;> rfl
  | coverUploaded path data =>
    cases h
    rfl
  | imageUploaded list path data =>
    cases h
    rfl
  | _ =>
    rw [(quiet_react id h).writes]
    rfl

/-- **What the code of a step writes.** -/
theorem runs_writes (hr : geocodingProgram.Runs st lbl r) :
    writes r.2 = (st.move lbl).elim [] (saved st.loc) := by
  cases hr with
  | @event e r he =>
    obtain ⟨r, hcode, rfl⟩ := Option.map_eq_some_iff.mp he
    have hnone : writes r.2 = [] := by
      by_cases hsave : e = .saveButton
      · subst hsave
        simp only [event, saveButton, uploadEntryCoverPhoto, Handler.issue_apply] at hcode
        split at hcode <;> cases hcode
        · rfl
        · dsimp only
          split <;> rfl
      · exact (quiet_event hsave hcode).writes
    exact (writes_geocoding .entryFetched true r.2).trans (by rw [hnone]; rfl)
  | @deliver i ok a k o r hi ho hr =>
    have hmove : st.move (E := Event) (.deliver i ok a) = some (.deliver k ok a) := by
      rw [State.move, hi]
      rfl
    rw [hmove]
    cases k with
    | geocoded =>
      cases hr
      rfl
    | screen k =>
      obtain ⟨r, hcode, rfl⟩ := Option.map_eq_some_iff.mp hr
      exact (writes_geocoding k ok r.2).trans (react_writes hcode)

end

end EditEntry

end Wanderlust
