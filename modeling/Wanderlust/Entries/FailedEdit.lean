import Wanderlust.Entries.SaveSteps

/-!
# An edit that fails

What an upload replaces stays replaced when another fails, and the document is written whatever the
geocoder says. So an edit that fails leaves the entry as it was exactly if each upload that succeeds
is to an object that the document does not refer to, or of what is there already, and the document
is not written, because the URL of some photo has not been fetched, or with what it had before
(`failed_edit_iff`). What the objects and the document had before is compared with the form, and
with what the answers bring, in the order in which they arrive.
-/

namespace Wanderlust

open Async Runs

namespace EditEntry

/-! ## The condition -/

/-- What has happened at the screen. -/
abbrev History := List (Async.Move Closure Unit Event)

/-- The URL of a photo that has been fetched. -/
def photoURL : Async.Move Closure Unit Event → Option URL
  | .deliver (.screen (.imageURL _ path)) true _ => some ⟨path⟩
  | _ => none

/-- The URLs of the photos, in the order in which they have been fetched. -/
def fetched (ms : History) : List URL := ms.filterMap photoURL

/-- The URL of the cover that an answer brings, that of the document or that of the new cover. -/
def coverURL (d : EntryDoc) : Async.Move Closure Unit Event → Option URL
  | .deliver (.screen .entryFetched) true _ => d.coverPhoto
  | .deliver (.screen (.coverURL path)) true _ => some ⟨path⟩
  | _ => none

/-- The URL of the cover that has arrived last. -/
def shownCover (d : EntryDoc) (ms : History) : Option URL := (ms.filterMap (coverURL d)).getLast?

/-- An upload that succeeds is to an object that the document does not refer to, or of what was
there when the save of `l₀` began: that of the cover of `l₀`, or that of a photo on the form. -/
def Harmless (d : EntryDoc) (l₀ l : EditEntry) : Async.Move Closure Unit Event → Prop
  | .deliver (.screen (.coverUploaded _ _)) true _ => ⟨l₀.coverPath⟩ ∈ d.photoURLs →
    l₀.bucket.lookup l₀.coverPath = l₀.entryCoverPhoto.bind UIImage.jpegData
  | .deliver (.screen (.imageUploaded _ path _)) true _ => ∀ i < l.entryImage.length,
    path = l₀.imagesPath i → ⟨path⟩ ∈ d.photoURLs →
      l₀.bucket.lookup path = l.entryImage[i]?.bind UIImage.jpegData
  | _ => True

instance (d : EntryDoc) (l₀ l : EditEntry) : DecidablePred (Harmless d l₀ l)
  | .deliver (.screen (.coverUploaded _ _)) true _ => inferInstanceAs (Decidable
      (⟨l₀.coverPath⟩ ∈ d.photoURLs →
        l₀.bucket.lookup l₀.coverPath = l₀.entryCoverPhoto.bind UIImage.jpegData))
  | .deliver (.screen (.imageUploaded _ path _)) true _ => inferInstanceAs (Decidable
      (∀ i < l.entryImage.length, path = l₀.imagesPath i → ⟨path⟩ ∈ d.photoURLs →
        l₀.bucket.lookup path = l.entryImage[i]?.bind UIImage.jpegData))
  | .event _ => isTrue trivial
  | .deliver .geocoded _ _ => isTrue trivial
  | .deliver (.screen (.coverUploaded _ _)) false _ => isTrue trivial
  | .deliver (.screen (.imageUploaded _ _ _)) false _ => isTrue trivial
  | .deliver (.screen .entryFetched) _ _ => isTrue trivial
  | .deliver (.screen (.coverDownloaded _)) _ _ => isTrue trivial
  | .deliver (.screen (.imageDownloaded _)) _ _ => isTrue trivial
  | .deliver (.screen (.coverURL _)) _ _ => isTrue trivial
  | .deliver (.screen (.imageURL _ _)) _ _ => isTrue trivial
  | .deliver (.screen .entryUpdated) _ _ => isTrue trivial

/-- When the URLs of as many photos have been fetched as there are on the form, the form has the
texts of the document, the cover that has arrived last is its cover, and the URLs are those of its
photos. -/
def Agrees (d : EntryDoc) (ms : History) (l : EditEntry) (m : Async.Move Closure Unit Event) :
    Prop :=
  ∀ url ∈ photoURL m, (fetched ms).length + 1 = l.entryImage.length →
    (l.entryNameField = d.entryName ∧ l.locationNameField = d.locationName ∧
      l.descriptionField = d.description) ∧
    shownCover d ms = d.coverPhoto ∧ fetched ms ++ [url] = d.mediaList

instance (d : EntryDoc) (ms : History) (l : EditEntry) : DecidablePred (Agrees d ms l) :=
  fun m => inferInstanceAs (Decidable (∀ url ∈ photoURL m, _ → _))

/-- What happens at the screen in a step. -/
def happens (st : Screen) (lbl : Label Unit Event) : History := (st.move lbl).toList

/-- The upload of a step is harmless. -/
def Careful (d : EntryDoc) (l₀ : EditEntry) (st : Screen) (lbl : Label Unit Event) : Prop :=
  ∀ m ∈ st.move lbl, Harmless d l₀ st.loc m

/-- The last URL of a step agrees with the document. -/
def Restores (d : EntryDoc) (ms : History) (st : Screen) (lbl : Label Unit Event) : Prop :=
  ∀ m ∈ st.move lbl, Agrees d ms st.loc m

instance (d : EntryDoc) (l₀ : EditEntry) (st : Screen) : DecidablePred (Careful d l₀ st) :=
  fun lbl => inferInstanceAs (Decidable (∀ m ∈ st.move lbl, Harmless d l₀ st.loc m))

instance (d : EntryDoc) (ms : History) (st : Screen) : DecidablePred (Restores d ms st) :=
  fun lbl => inferInstanceAs (Decidable (∀ m ∈ st.move lbl, Agrees d ms st.loc m))

/-- The write of the document is rejected. -/
def Rejects : Label Unit Event → Bool
  | .reject => true
  | _ => false

/-- The objects that the document refers to are the same. -/
def SameObjects (d : EntryDoc) (bucket bucket' : Bucket) : Prop :=
  ∀ url ∈ d.photoURLs, bucket'.lookup url.path = bucket.lookup url.path

instance (d : EntryDoc) (bucket bucket' : Bucket) : Decidable (SameObjects d bucket bucket') :=
  inferInstanceAs (Decidable
    (∀ url ∈ d.photoURLs, bucket'.lookup url.path = bucket.lookup url.path))

section

variable {d : EntryDoc} {l₀ l l' : EditEntry} {ms : History} {m : Async.Move Closure Unit Event}
  {bucket bucket' : Bucket} {path data : String}

theorem fetched_append (ms : History) (m : Async.Move Closure Unit Event) :
    fetched (ms ++ [m]) = fetched ms ++ (photoURL m).toList := by
  rw [fetched, fetched, List.filterMap_append]
  cases h : photoURL m <;> simp [h]

theorem shownCover_append (d : EntryDoc) (ms : History) (m : Async.Move Closure Unit Event) :
    shownCover d (ms ++ [m]) = (coverURL d m).or (shownCover d ms) := by
  rw [shownCover, shownCover, List.filterMap_append]
  cases h : coverURL d m <;> simp [h]

theorem photoURL_eq_none (h : ∀ list path a, m ≠ .deliver (.screen (.imageURL list path)) true a) :
    photoURL m = none := by
  cases m with
  | event e => rfl
  | deliver k ok a =>
    cases k with
    | geocoded => rfl
    | screen k =>
      cases k with
      | imageURL list path =>
        cases ok with
        | false => rfl
        | true => exact absurd rfl (h list path a)
      | _ => rfl

theorem harmless_of_none (h : stored m = none) : Harmless d l₀ l m := by
  cases m with
  | event e => trivial
  | deliver k ok a =>
    cases k with
    | geocoded => trivial
    | screen k =>
      cases k with
      | coverUploaded path data =>
        cases ok with
        | false => trivial
        | true => cases h
      | imageUploaded list path data =>
        cases ok with
        | false => trivial
        | true => cases h
      | _ => trivial

/-- An object is stored where there is still the old one. -/
theorem sameObjects_insert (h : bucket'.lookup path = bucket.lookup path) :
    SameObjects d bucket (bucket'.insert path data) ↔
      SameObjects d bucket bucket' ∧ (⟨path⟩ ∈ d.photoURLs → bucket.lookup path = some data) := by
  constructor
  · intro hsame
    refine ⟨fun url hurl => ?_, fun hpath => ?_⟩
    · by_cases hne : url.path = path
      · rw [hne, h]
      · rw [← hsame url hurl, AList.lookup_insert_ne hne]
    · rw [← hsame ⟨path⟩ hpath, AList.lookup_insert]
  · rintro ⟨hsame, hdata⟩ ⟨p⟩ hurl
    by_cases hne : p = path
    · subst hne
      rw [AList.lookup_insert, hdata hurl]
    · rw [AList.lookup_insert_ne hne]
      exact hsame ⟨p⟩ hurl

/-- An upload that succeeds or fails. -/
theorem sameObjects_upload {ok : Bool} (h : bucket'.lookup path = bucket.lookup path)
    (hm : Harmless d l₀ l m ↔
      (ok = true → ⟨path⟩ ∈ d.photoURLs → bucket.lookup path = some data)) :
    SameObjects d bucket (if ok then bucket'.insert path data else bucket') ↔
      SameObjects d bucket bucket' ∧ Harmless d l₀ l m := by
  cases ok with
  | false => exact (and_iff_left (hm.mpr nofun)).symm
  | true =>
    refine (sameObjects_insert h).trans (and_congr_right fun _ => ?_)
    rw [hm]
    exact ⟨fun hdata _ => hdata, fun hdata => hdata rfl⟩

end

/-! ## What is under way -/

/-- A callback of the photos of a save, on the list `c`: what is uploaded is on the form. -/
def Photo (l₀ : EditEntry) (c : ℕ) (l : EditEntry) : Callback → Prop
  | .imageUploaded list path data => list = c ∧ ∃ i, path = l₀.imagesPath i ∧
    l.entryImage[i]?.bind UIImage.jpegData = some data
  | .imageURL list _ => list = c
  | _ => False

/-- The photos are stored. -/
structure Photos (d : EntryDoc) (l₀ : EditEntry) (c : ℕ) (ms : History)
    (x : Direct Firestore EditEntry Closure) : Prop where
  photo : ∀ k ∈ saves x.bag, Photo l₀ c x.loc k
  nodup : (uploadPaths (saves x.bag)).Nodup
  bucket : ∀ path ∈ uploadPaths (saves x.bag), x.loc.bucket.lookup path = l₀.bucket.lookup path
  urls : x.loc.entryInfoImages = fetched ms
  count : x.loc.tempEntryList c = (fetched ms).length
  card : (saves x.bag).card + (fetched ms).length ≤ x.loc.entryImage.length
  cover : x.loc.entryCoverURL = shownCover d ms

/-- A save of `l₀`, with what has happened since it began: the cover is stored, and then the
photos. -/
inductive Stage (d : EntryDoc) (l₀ : EditEntry) (ms : History)
    (x : Direct Firestore EditEntry Closure) : Prop
  | ended (hsaves : saves x.bag = 0)
  | cover {data : String} (hsaves : saves x.bag = {.coverUploaded l₀.coverPath data})
      (hdata : l₀.entryCoverPhoto.bind UIImage.jpegData = some data)
      (hbucket : x.loc.bucket = l₀.bucket) (hfetched : fetched ms = [])
  | coverURL (hsaves : saves x.bag = {.coverURL l₀.coverPath})
      (hbucket : ∀ path, path ≠ l₀.coverPath →
        x.loc.bucket.lookup path = l₀.bucket.lookup path)
      (hfetched : fetched ms = [])
  | photos {c : ℕ} (h : Photos d l₀ c ms x)

section

variable {d : EntryDoc} {l₀ : EditEntry} {c : ℕ} {ms : History}
  {x x' : Direct Firestore EditEntry Closure} {m : Async.Move Closure Unit Event}
  {k : Callback} {rest : Multiset Callback} {path data : String}

theorem Photo.mono {l l' : EditEntry} (h : Photo l₀ c l k) (hkept : Kept l l') :
    Photo l₀ c l' k := by
  cases k with
  | imageUploaded list path data =>
    obtain ⟨hlist, i, hpath, hdata⟩ := h
    obtain ⟨image, himage, -⟩ := Option.bind_eq_some_iff.mp hdata
    refine ⟨hlist, i, hpath, ?_⟩
    rw [List.prefix_iff_getElem?.mp hkept.entryImage i (List.getElem?_eq_some_iff.mp himage).1]
    rwa [List.getElem?_eq_getElem] at hdata
  | imageURL list path => exact h
  | _ => exact h.elim

/-- The cover is to be uploaded. -/
theorem Stage.coverUploaded (h : Stage d l₀ ms x)
    (hold : saves x.bag = .coverUploaded path data ::ₘ rest) :
    (path = l₀.coverPath ∧ l₀.entryCoverPhoto.bind UIImage.jpegData = some data) ∧ rest = 0 ∧
      x.loc.bucket = l₀.bucket ∧ fetched ms = [] := by
  cases h with
  | ended hsaves => exact absurd (hold.symm.trans hsaves) (Multiset.cons_ne_zero)
  | cover hsaves hdata hbucket hfetched =>
    obtain ⟨heq, rfl⟩ := (Multiset.singleton_eq_cons_iff _).mp (hsaves.symm.trans hold)
    cases heq
    exact ⟨⟨rfl, hdata⟩, rfl, hbucket, hfetched⟩
  | coverURL hsaves =>
    obtain ⟨heq, -⟩ := (Multiset.singleton_eq_cons_iff _).mp (hsaves.symm.trans hold)
    cases heq
  | photos h => exact (h.photo (.coverUploaded path data) (by simp [hold])).elim

/-- The URL of the cover is fetched. -/
theorem Stage.urlAwaited (h : Stage d l₀ ms x) (hold : saves x.bag = .coverURL path ::ₘ rest) :
    path = l₀.coverPath ∧ rest = 0 ∧ fetched ms = [] ∧ ∀ path, path ≠ l₀.coverPath →
      x.loc.bucket.lookup path = l₀.bucket.lookup path := by
  cases h with
  | ended hsaves => exact absurd (hold.symm.trans hsaves) (Multiset.cons_ne_zero)
  | cover hsaves =>
    obtain ⟨heq, -⟩ := (Multiset.singleton_eq_cons_iff _).mp (hsaves.symm.trans hold)
    cases heq
  | coverURL hsaves hbucket hfetched =>
    obtain ⟨heq, rfl⟩ := (Multiset.singleton_eq_cons_iff _).mp (hsaves.symm.trans hold)
    cases heq
    exact ⟨rfl, rfl, hfetched, hbucket⟩
  | photos h => exact (h.photo (.coverURL path) (by simp [hold])).elim

/-- A photo is stored. -/
theorem Stage.photoAwaited {list : ℕ} (h : Stage d l₀ ms x) (hold : saves x.bag = k ::ₘ rest)
    (hk : (∃ data, k = .imageUploaded list path data) ∨ k = .imageURL list path) :
    Photos d l₀ list ms x := by
  cases h with
  | ended hsaves => exact absurd (hold.symm.trans hsaves) (Multiset.cons_ne_zero)
  | cover hsaves =>
    obtain ⟨rfl, -⟩ := (Multiset.singleton_eq_cons_iff _).mp (hsaves.symm.trans hold)
    rcases hk with ⟨data, heq⟩ | heq <;> cases heq
  | coverURL hsaves =>
    obtain ⟨rfl, -⟩ := (Multiset.singleton_eq_cons_iff _).mp (hsaves.symm.trans hold)
    rcases hk with ⟨data, heq⟩ | heq <;> cases heq
  | photos h =>
    have hphoto := h.photo k (hold ▸ Multiset.mem_cons_self _ _)
    rcases hk with ⟨data, rfl⟩ | rfl
    · exact hphoto.1 ▸ h
    · obtain rfl : list = _ := hphoto
      exact h

/-- The cover on the form. -/
theorem cover_step (hd : x.store.entries.lookup x.loc.entryID = some d)
    (hs : DirectStep geocodingProgram x m x') :
    x'.loc.entryCoverURL = (coverURL d m).or x.loc.entryCoverURL := by
  cases hs with
  | @event e r he =>
    obtain ⟨r, hcode, rfl⟩ := Option.map_eq_some_iff.mp he
    change r.1.entryCoverURL = x.loc.entryCoverURL
    cases e with
    | viewDidLoad =>
      simp only [event, viewDidLoad] at hcode
      split at hcode <;> cases hcode <;> rfl
    | saveButton =>
      simp only [event, saveButton, uploadEntryCoverPhoto, Handler.issue_apply] at hcode
      split at hcode <;> cases hcode <;> rfl
    | deleteImage index =>
      simp only [event] at hcode
      split at hcode <;> cases hcode
      rfl
    | _ =>
      cases hcode
      rfl
  | @deliver k ok a rest r hb hr =>
    cases k with
    | geocoded =>
      cases hr
      rfl
    | screen k =>
      obtain ⟨r, hcode, rfl⟩ := Option.map_eq_some_iff.mp hr
      change react k ok a x.loc x.store = some r at hcode
      change r.1.entryCoverURL = _
      cases k with
      | entryFetched =>
        simp only [react] at hcode
        cases ok with
        | false =>
          cases hcode
          rfl
        | true =>
          simp only [if_true, hd] at hcode
          obtain ⟨url, hurl, rfl⟩ := Option.map_eq_some_iff.mp hcode
          simp [EditEntry.coverURL, hurl]
      | coverDownloaded url =>
        simp only [react] at hcode
        split at hcode <;> cases hcode <;> rfl
      | imageDownloaded url =>
        simp only [react] at hcode
        split at hcode <;> cases hcode
        · rfl
        · simp only [imageDownloaded]
          split <;> rfl
      | coverURL path =>
        simp only [react, coverSaved] at hcode
        split at hcode
        · rename_i hok
          subst hok
          split at hcode
          · split at hcode <;> cases hcode
            rfl
          · cases hcode
            rfl
        · rename_i hok
          obtain rfl := Bool.not_eq_true _ ▸ hok
          cases hcode
          rfl
      | _ =>
        cases hcode
        cases ok <;> rfl

/-- The photos, after a step that is none of the save. -/
theorem Photos.other (h : Photos d l₀ c ms x) (hkept : Kept x.loc x'.loc)
    (hcover : x'.loc.entryCoverURL = shownCover d (ms ++ [m])) (hm : photoURL m = none)
    (hsaves : saves x'.bag = saves x.bag) (hbucket : x'.loc.bucket = x.loc.bucket)
    (hsteady : Steady x.loc x'.loc) : Photos d l₀ c (ms ++ [m]) x' := by
  have hfetched : fetched (ms ++ [m]) = fetched ms := by
    rw [fetched_append, hm, Option.toList_none, List.append_nil]
  refine ⟨?_, ?_, ?_, ?_, ?_, ?_, hcover⟩
  · rw [hsaves]
    exact fun k hk => (h.photo k hk).mono hkept
  · rw [hsaves]
    exact h.nodup
  · rw [hsaves, hbucket]
    exact h.bucket
  · rw [hsteady.entryInfoImages, hfetched]
    exact h.urls
  · rw [hsteady.tempEntryList, hfetched]
    exact h.count
  · rw [hsaves, hfetched]
    exact h.card.trans hkept.entryImage.length_le

/-- The photos are about to be stored. -/
theorem photos_updateEntry (hl₀ : Kept l₀ x.loc) (hkept : Kept x.loc x'.loc)
    (hcover : x'.loc.entryCoverURL = shownCover d (ms ++ [m])) (hfetched : fetched (ms ++ [m]) = [])
    (hsaves : saves x'.bag = callbacks (imageUploads x.loc c x.loc.entryImage 0))
    (hbucket : ∀ path, path ≠ l₀.coverPath →
      x'.loc.bucket.lookup path = l₀.bucket.lookup path)
    (hnone : x'.loc.entryInfoImages = []) (hlist : x'.loc.tempEntryList c = 0) :
    Photos d l₀ c (ms ++ [m]) x' := by
  have huploads : ∀ k ∈ saves x'.bag, ∃ i data, k = .imageUploaded c (l₀.imagesPath i) data ∧
      x.loc.entryImage[i]?.bind UIImage.jpegData = some data := by
    intro k hk
    obtain ⟨i, data, rfl, hdata⟩ := mem_callbacks_imageUploads (hsaves ▸ hk)
    exact ⟨i, data, by rw [hl₀.imagesPath, zero_add], hdata⟩
  refine ⟨fun k hk => ?_, ?_, fun path hpath => ?_, ?_, ?_, ?_, hcover⟩
  · obtain ⟨i, data, rfl, hdata⟩ := huploads k hk
    have hphoto : Photo l₀ c x.loc (.imageUploaded c (l₀.imagesPath i) data) :=
      ⟨rfl, i, rfl, hdata⟩
    exact hphoto.mono hkept
  · rw [hsaves]
    exact nodup_imageUploads _ _ _ _
  · obtain ⟨k, hk, hkpath⟩ := (Multiset.mem_filterMap _ _).mp hpath
    obtain ⟨i, data, rfl, -⟩ := huploads k hk
    cases hkpath
    exact hbucket _ (imagesPath_ne_coverPath _ _)
  · rw [hnone, hfetched]
  · rw [hlist, hfetched]
    rfl
  · rw [hsaves, hfetched]
    exact (card_callbacks_imageUploads _ _ _ _).trans hkept.entryImage.length_le

/-- A photo has been stored, or not. -/
theorem Photos.imageUploaded {ok : Bool} (h : Photos d l₀ c ms x) (hkept : Kept x.loc x'.loc)
    (hcover : x'.loc.entryCoverURL = shownCover d (ms ++ [m])) (hm : photoURL m = none)
    (hold : saves x.bag = .imageUploaded c path data ::ₘ rest)
    (hsaves : saves x'.bag = .imageURL c path ::ₘ rest)
    (hbucket : x'.loc.bucket = if ok then x.loc.bucket.insert path data else x.loc.bucket)
    (hsteady : Steady x.loc x'.loc) : Photos d l₀ c (ms ++ [m]) x' := by
  have hfetched : fetched (ms ++ [m]) = fetched ms := by
    rw [fetched_append, hm, Option.toList_none, List.append_nil]
  obtain ⟨hphoto, hnodup, hlookup, hurls, hcount, hcard, -⟩ := h
  rw [hold, uploadPaths_imageUploaded] at hnodup hlookup
  obtain ⟨hfresh, hnodup⟩ := Multiset.nodup_cons.mp hnodup
  refine ⟨fun k hk => ?_, ?_, fun p hp => ?_, ?_, ?_, ?_, hcover⟩
  · rcases Multiset.mem_cons.mp (hsaves ▸ hk) with rfl | hk
    · rfl
    · exact (hphoto k (hold ▸ Multiset.mem_cons_of_mem hk)).mono hkept
  · rwa [hsaves, uploadPaths_imageURL]
  · rw [hsaves, uploadPaths_imageURL] at hp
    have hne : p ≠ path := fun heq => hfresh (heq ▸ hp)
    rw [← hlookup p (Multiset.mem_cons_of_mem hp), hbucket]
    cases ok with
    | false => rfl
    | true => exact AList.lookup_insert_ne hne
  · rw [hsteady.entryInfoImages, hfetched, hurls]
  · rw [hsteady.tempEntryList, hfetched, hcount]
  · rw [hold, Multiset.card_cons] at hcard
    rw [hsaves, hfetched, Multiset.card_cons]
    exact hcard.trans hkept.entryImage.length_le

/-- The URL of a photo has been fetched, or not. -/
theorem Photos.imageURL (h : Photos d l₀ c ms x) (hkept : Kept x.loc x'.loc)
    (hcover : x'.loc.entryCoverURL = shownCover d (ms ++ [m]))
    (hold : saves x.bag = .imageURL c path ::ₘ rest) (hsaves : saves x'.bag = rest)
    (hbucket : x'.loc.bucket = x.loc.bucket)
    (hurls : x'.loc.entryInfoImages = x.loc.entryInfoImages ++ (photoURL m).toList)
    (hlist : x'.loc.tempEntryList c = x.loc.tempEntryList c + (photoURL m).toList.length) :
    Photos d l₀ c (ms ++ [m]) x' := by
  obtain ⟨hphoto, hnodup, hlookup, hurls₀, hcount, hcard, -⟩ := h
  rw [hold, uploadPaths_imageURL] at hnodup hlookup
  refine ⟨fun k hk => ?_, ?_, ?_, ?_, ?_, ?_, hcover⟩
  · rw [hsaves] at hk
    exact (hphoto k (hold ▸ Multiset.mem_cons_of_mem hk)).mono hkept
  · rwa [hsaves]
  · rwa [hsaves, hbucket]
  · rw [hurls, hurls₀, fetched_append]
  · rw [hlist, hcount, fetched_append, List.length_append]
  · have hone : (photoURL m).toList.length ≤ 1 := by cases photoURL m <;> simp
    have hlong := hkept.entryImage.length_le
    rw [hold, Multiset.card_cons] at hcard
    rw [hsaves, fetched_append, List.length_append]
    omega

/-- **One step of a save**: the objects stay the same exactly if its upload is harmless. -/
theorem Stage.step (h : Stage d l₀ ms x) (hl₀ : Kept l₀ x.loc) (hm : m ≠ .event .saveButton)
    (hdelete : ∀ index, m ≠ .event (.deleteImage index))
    (hd : saves x.bag ≠ 0 → x.store.entries.lookup x.loc.entryID = some d)
    (hs : DirectStep geocodingProgram x m x') :
    Stage d l₀ (ms ++ [m]) x' ∧ (SameObjects d l₀.bucket x'.loc.bucket ↔
      SameObjects d l₀.bucket x.loc.bucket ∧ Harmless d l₀ x.loc m) := by
  have hkept := kept_step hdelete hs
  -- the photos know the cover that the form shows
  have hcover (hsome : saves x.bag ≠ 0) (hshown : x.loc.entryCoverURL = shownCover d ms) :
      x'.loc.entryCoverURL = shownCover d (ms ++ [m]) := by
    rw [shownCover_append, ← hshown]
    exact cover_step (hd hsome) hs
  have hsome {k : Callback} {rest : Multiset Callback} (hold : saves x.bag = k ::ₘ rest) :
      saves x.bag ≠ 0 := hold ▸ Multiset.cons_ne_zero
  have hquiet (hm : stored m = none) (hbucket : x'.loc.bucket = x.loc.bucket) :
      SameObjects d l₀.bucket x'.loc.bucket ↔
        SameObjects d l₀.bucket x.loc.bucket ∧ Harmless d l₀ x.loc m := by
    rw [hbucket]
    exact (and_iff_left (harmless_of_none hm)).symm
  cases saveStep hm hs with
  | other hm hfetched hsaves hbucket hsteady =>
    refine ⟨?_, hquiet hm hbucket⟩
    have hnone := photoURL_eq_none hfetched
    have hsame : fetched (ms ++ [m]) = fetched ms := by
      rw [fetched_append, hnone, Option.toList_none, List.append_nil]
    cases h with
    | ended hold => exact .ended (hsaves.trans hold)
    | cover hold hdata hbucket₀ hnil =>
      exact .cover (hsaves.trans hold) hdata (hbucket.trans hbucket₀) (hsame.trans hnil)
    | coverURL hold hbucket₀ hnil =>
      exact .coverURL (hsaves.trans hold) (hbucket ▸ hbucket₀) (hsame.trans hnil)
    | photos h =>
      by_cases hzero : saves x.bag = 0
      · exact .ended (hsaves.trans hzero)
      · exact .photos (h.other hkept (hcover hzero h.cover) hnone hsaves hbucket hsteady)
  | @coverUploaded path data ok a rest hold hsaves hbucket =>
    obtain ⟨⟨rfl, hdata⟩, rfl, hbucket₀, hnil⟩ := h.coverUploaded hold
    refine ⟨.coverURL hsaves (fun p hp => ?_) (by rw [fetched_append, hnil]; rfl), ?_⟩
    · rw [hbucket, ← hbucket₀]
      cases ok with
      | false => rfl
      | true => exact AList.lookup_insert_ne hp
    · rw [hbucket]
      refine sameObjects_upload (by rw [hbucket₀]) ?_
      cases ok with
      | false => exact iff_of_true trivial nofun
      | true => simp [Harmless, hdata]
  | coverURL hold hsaves hbucket =>
    obtain ⟨-, rfl, -⟩ := h.urlAwaited hold
    exact ⟨.ended hsaves, hquiet rfl hbucket⟩
  | @updateEntry path a rest hold hsaves hbucket hnew hnone hlist =>
    obtain ⟨-, rfl, hnil, hbucket₀⟩ := h.urlAwaited hold
    refine ⟨.photos (photos_updateEntry hl₀ hkept ?_ ?_ (hsaves.trans (zero_add _)) ?_ hnone
      hlist), hquiet rfl hbucket⟩
    · rw [shownCover_append, hnew]
      rfl
    · rw [fetched_append, hnil]
      rfl
    · rw [hbucket]
      exact hbucket₀
  | @imageUploaded list path data ok a rest hold hsaves hbucket hsteady =>
    have hphotos := h.photoAwaited hold (Or.inl ⟨data, rfl⟩)
    obtain ⟨-, i, rfl, hdata⟩ := hphotos.photo _ (hold ▸ Multiset.mem_cons_self _ _)
    refine ⟨.photos (hphotos.imageUploaded hkept (hcover (hsome hold) hphotos.cover) rfl hold hsaves
      hbucket hsteady), ?_⟩
    rw [hbucket]
    refine sameObjects_upload (hphotos.bucket _ ?_) ?_
    · rw [hold, uploadPaths_imageUploaded]
      exact Multiset.mem_cons_self _ _
    · cases ok with
      | false => exact iff_of_true trivial nofun
      | true =>
        obtain ⟨image, himage, -⟩ := Option.bind_eq_some_iff.mp hdata
        have hi := (List.getElem?_eq_some_iff.mp himage).1
        simp only [Harmless, imagesPath_inj, forall_const]
        constructor
        · intro hall hmem
          rw [hall i hi rfl hmem, hdata]
        · rintro hlookup j - rfl hmem
          rw [hlookup hmem, hdata]
  | @urlFailed list path a rest hold hsaves hbucket hsteady =>
    have hphotos := h.photoAwaited hold (Or.inr rfl)
    exact ⟨.photos (hphotos.imageURL hkept (hcover (hsome hold) hphotos.cover) hold hsaves hbucket
      (by rw [hsteady.entryInfoImages]; exact (List.append_nil _).symm)
      (by rw [hsteady.tempEntryList]; rfl)), hquiet rfl hbucket⟩
  | @imageURL list path a rest hold hsaves hbucket hurls hlist =>
    have hphotos := h.photoAwaited hold (Or.inr rfl)
    exact ⟨.photos (hphotos.imageURL hkept (hcover (hsome hold) hphotos.cover) hold hsaves hbucket
      hurls hlist), hquiet rfl hbucket⟩

/-! ## The document -/

theorem saved_eq_nil (l : EditEntry) (hm : photoURL m = none) : saved l m = [] := by
  cases m with
  | event e => rfl
  | deliver k ok a =>
    cases k with
    | geocoded => rfl
    | screen k =>
      cases k with
      | imageURL list path =>
        cases ok with
        | false => rfl
        | true => cases hm
      | _ => rfl

/-- The document is the same if the form has what it has. -/
theorem merge_eq_iff (l : EditEntry) (d : EntryDoc) : l.merge d = d ↔
    (l.entryNameField = d.entryName ∧ l.locationNameField = d.locationName ∧
      l.descriptionField = d.description) ∧
    l.entryCoverURL = d.coverPhoto ∧ l.entryInfoImages = d.mediaList := by
  cases d
  simp only [merge, EntryDoc.mk.injEq, true_and]
  tauto

/-- Nothing is written when nothing is under way. -/
theorem saved_of_saves (h : saves x.bag = 0) (hs : SaveStep x x' m) :
    photoURL m = none ∧ saves x'.bag = 0 := by
  cases hs with
  | other hm hfetched hsaves => exact ⟨photoURL_eq_none hfetched, hsaves.trans h⟩
  | coverUploaded hold => exact absurd (hold.symm.trans h) Multiset.cons_ne_zero
  | coverURL hold => exact absurd (hold.symm.trans h) Multiset.cons_ne_zero
  | updateEntry hold => exact absurd (hold.symm.trans h) Multiset.cons_ne_zero
  | imageUploaded hold => exact absurd (hold.symm.trans h) Multiset.cons_ne_zero
  | urlFailed hold => exact absurd (hold.symm.trans h) Multiset.cons_ne_zero
  | imageURL hold => exact absurd (hold.symm.trans h) Multiset.cons_ne_zero

/-- **What a step of a save writes**: nothing, or, when the last URL has been fetched, the form with
the URLs that have been fetched. Then nothing of the save is under way any more. -/
theorem Stage.saved (h : Stage d l₀ ms x) (hs : SaveStep x x' m) :
    (EditEntry.saved x.loc m = [] ∧ Agrees d ms x.loc m) ∨
    saves x.bag ≠ 0 ∧ saves x'.bag = 0 ∧ ∃ l : EditEntry, EditEntry.saved x.loc m =
        [(.updateEntry x.loc.entryID l.merge, some (.screen .entryUpdated))] ∧
      (l.merge d = d ↔ Agrees d ms x.loc m) := by
  have hnothing (hm : photoURL m = none) :
      EditEntry.saved x.loc m = [] ∧ Agrees d ms x.loc m := by
    refine ⟨saved_eq_nil _ hm, fun url hurl => ?_⟩
    rw [hm] at hurl
    cases hurl
  cases hs with
  | other hm hfetched => exact Or.inl (hnothing (photoURL_eq_none hfetched))
  | coverUploaded => exact Or.inl (hnothing rfl)
  | coverURL => exact Or.inl (hnothing rfl)
  | updateEntry => exact Or.inl (hnothing rfl)
  | imageUploaded => exact Or.inl (hnothing rfl)
  | urlFailed => exact Or.inl (hnothing rfl)
  | @imageURL list path a rest hold hsaves =>
    have hphotos := h.photoAwaited hold (Or.inr rfl)
    have hcount := hphotos.count
    by_cases hfull : x.loc.tempEntryList list + 1 = x.loc.entryImage.length
    · have hrest : rest = 0 := by
        have hcard := hphotos.card
        rw [hold, Multiset.card_cons] at hcard
        exact Multiset.card_eq_zero.mp (by omega)
      refine Or.inr ⟨hold ▸ Multiset.cons_ne_zero, hsaves.trans hrest,
        (imageSaved list ⟨path⟩ x.loc).1, if_pos hfull, ?_⟩
      rw [merge_eq_iff]
      change _ ∧ x.loc.entryCoverURL = d.coverPhoto ∧
        x.loc.entryInfoImages ++ [⟨path⟩] = d.mediaList ↔ _
      rw [hphotos.cover, hphotos.urls]
      constructor
      · rintro hform url hurl -
        obtain rfl := Option.some.inj hurl
        exact hform
      · exact fun hform => hform _ rfl (hcount ▸ hfull)
    · exact Or.inl ⟨if_neg hfull, fun url _ hall => absurd (hcount ▸ hall) hfull⟩

end

/-! ## The run of a save -/

/-- The save is pressed. -/
def Presses : Label Unit Event → Bool
  | .event .saveButton => true
  | _ => false

/-- A photo is removed. -/
def Removes : Label Unit Event → Bool
  | .event (.deleteImage _) => true
  | _ => false

/-- A step in which the save is not pressed. -/
def Turn (st : Screen) (lbl : Label Unit Event) (st' : Screen) : Prop :=
  geocodingProgram.step lbl st = some st' ∧ Presses lbl = false

/-- Such a step in which no photo is removed. -/
def Onward (st : Screen) (lbl : Label Unit Event) (st' : Screen) : Prop :=
  Turn st lbl st' ∧ Removes lbl = false

/-- No save is under way. -/
structure Idle (st : Screen) : Prop where
  queue : st.queue = []
  saves : saves (geocodingProgram.direct st).bag = 0

/-- The document is `d`, when the write that is on its way has taken effect. -/
def Stays (id : EntryID) (d : EntryDoc) (st : Screen) : Prop :=
  (geocodingProgram.view st).entries.lookup id = some d

/-- The document is not written yet, its write is on its way, or has left the queue. -/
inductive Phase (id : EntryID) (d : EntryDoc) (st : Screen) : Prop
  | unwritten (hqueue : st.queue = []) (hdoc : st.store.entries.lookup id = some d)
  | written {l : EditEntry} {k : Option Closure}
      (hqueue : st.queue = [(.updateEntry id l.merge, k)])
      (hsaves : saves (geocodingProgram.direct st).bag = 0)
      (hdoc : st.store.entries.lookup id = some d)
  | settled (hqueue : st.queue = []) (hsaves : saves (geocodingProgram.direct st).bag = 0)

/-- The save of `l₀`, with what has happened since it began. -/
structure Saving (d : EntryDoc) (l₀ : EditEntry) (ms : History) (st : Screen) : Prop where
  kept : Kept l₀ st.loc
  stage : Stage d l₀ ms (geocodingProgram.direct st)
  phase : Phase l₀.entryID d st

section

variable {id : EntryID} {d : EntryDoc} {l₀ : EditEntry} {ms : History} {st st' : Screen}
  {lbl : Label Unit Event}

theorem Kept.trans {l l' l'' : EditEntry} (h : Kept l l') (h' : Kept l' l'') : Kept l l'' :=
  ⟨h'.currentUser.trans h.currentUser, h'.entryID.trans h.entryID,
    h.entryImage.trans h'.entryImage⟩

/-- Code runs, or a write leaves the queue. -/
theorem turn_cases (hs : geocodingProgram.step lbl st = some st') :
    (∃ r m, st.move lbl = some m ∧ st' = ⟨st.store, r, st.queue ++ saved st.loc m, st'.ready⟩ ∧
      DirectStep geocodingProgram (geocodingProgram.direct st) m (geocodingProgram.direct st')) ∨
    st.move lbl = none ∧ st'.loc = st.loc ∧
      (geocodingProgram.direct st').bag = (geocodingProgram.direct st).bag ∧
      ∃ w k q, st.queue = (w, k) :: q ∧ st'.queue = q ∧
        (lbl = .apply ∧ st'.store = w.apply st.store ∨ lbl = .reject ∧ st'.store = st.store) := by
  rcases step_move hs with ⟨hnone, -, s, hsame⟩ | ⟨m, hm, hmove⟩
  · refine Or.inr ⟨hnone, congrArg Direct.loc hsame, by rw [hsame], ?_⟩
    rcases step_runs hs with ⟨r, hr, -⟩ | ⟨w, k, q, hq, ⟨rfl, rfl⟩ | ⟨rfl, rfl⟩⟩
    · cases hr with
      | event => cases hnone
      | deliver hi => simp [State.move, hi] at hnone
    · exact ⟨w, k, q, hq, rfl, Or.inl ⟨rfl, rfl⟩⟩
    · exact ⟨w, k, q, hq, rfl, Or.inr ⟨rfl, rfl⟩⟩
  · refine Or.inl ?_
    rcases step_runs hs with ⟨r, hr, rfl⟩ | ⟨w, k, q, -, ⟨rfl, -⟩ | ⟨rfl, -⟩⟩
    · refine ⟨r.1, m, hm, ?_, hmove⟩
      rw [runs_writes hr, hm]
      rfl
    · cases hm
    · cases hm

/-- What `saveButton` does. -/
theorem saveButton_cases (l : EditEntry) :
    (saveButton l).1.bucket = l.bucket ∧ Kept l (saveButton l).1 ∧
      ((callbacks (saveButton l).2).filter Callback.Saving = 0 ∨
        ∃ data, l.entryCoverPhoto.bind UIImage.jpegData = some data ∧
          (callbacks (saveButton l).2).filter Callback.Saving =
            {.coverUploaded l.coverPath data}) := by
  simp only [saveButton, uploadEntryCoverPhoto, Handler.issue_apply]
  split
  · exact ⟨rfl, ⟨rfl, rfl, List.prefix_rfl⟩, Or.inl rfl⟩
  · refine ⟨rfl, ⟨rfl, rfl, List.prefix_rfl⟩, ?_⟩
    dsimp only
    split
    · exact Or.inl rfl
    · rename_i data hdata
      exact Or.inr ⟨data, hdata, rfl⟩

/-- **The press of the button** stores nothing yet. -/
theorem stage_press {x x' : Direct Firestore EditEntry Closure} (hzero : saves x.bag = 0)
    (hs : DirectStep geocodingProgram x (.event .saveButton) x') :
    Stage d x.loc [] x' ∧ Kept x.loc x'.loc ∧ x'.loc.bucket = x.loc.bucket := by
  cases hs with
  | event he =>
    cases he
    have hafter := saves_after (saveButton x.loc) .entryFetched true x
    rw [hzero, zero_add] at hafter
    obtain ⟨hbucket, hkept, hnone | ⟨data, hdata, hcover⟩⟩ := saveButton_cases x.loc
    · exact ⟨.ended (hafter.trans hnone), hkept, hbucket⟩
    · exact ⟨.cover (hafter.trans hcover) hdata hbucket rfl, hkept, hbucket⟩

/-- **A save begins.** -/
theorem Idle.press (h : Idle st) (hd : st.store.entries.lookup st.loc.entryID = some d)
    (hs : geocodingProgram.step (.event .saveButton) st = some st') :
    Saving d st.loc [] st' ∧ st'.loc.bucket = st.loc.bucket ∧ Stays st.loc.entryID d st' := by
  rcases turn_cases hs with ⟨r, m, hm, hst', hmove⟩ | ⟨hnone, -⟩
  · cases hm
    obtain ⟨hstage, hkept, hbucket⟩ := stage_press (d := d) h.saves hmove
    have hqueue : st'.queue = [] := by
      rw [hst']
      exact (List.append_nil _).trans h.queue
    have hdoc : st'.store.entries.lookup st.loc.entryID = some d := by
      rw [hst']
      exact hd
    refine ⟨⟨hkept, hstage, .unwritten hqueue hdoc⟩, hbucket, ?_⟩
    rwa [Stays, Program.view, hqueue]
  · cases hnone

/-- Code runs, and writes the document, or not. -/
theorem Saving.write (h : Saving d l₀ ms st) {m : Async.Move Closure Unit Event}
    (hcode : SaveStep (geocodingProgram.direct st) (geocodingProgram.direct st') m)
    (hqueue : st'.queue = st.queue ++ saved st.loc m) (hstore : st'.store = st.store) :
    Phase l₀.entryID d st' ∧
      (Stays l₀.entryID d st' ↔ Stays l₀.entryID d st ∧ Agrees d ms st.loc m) := by
  have hnothing : saves (geocodingProgram.direct st).bag = 0 →
      saves (geocodingProgram.direct st').bag = 0 := fun hzero => (saved_of_saves hzero hcode).2
  rcases h.stage.saved hcode with ⟨hnil, hagrees⟩ | ⟨hsome, hzero, l, hsaved, hmerge⟩
  · have hqueue' : st'.queue = st.queue := by
      rw [hqueue]
      exact (congrArg _ hnil).trans (List.append_nil _)
    refine ⟨?_, ?_⟩
    · cases h.phase with
      | unwritten hq hdoc => exact .unwritten (hqueue'.trans hq) (hstore ▸ hdoc)
      | written hq hsaves hdoc =>
        exact .written (hqueue'.trans hq) (hnothing hsaves) (hstore ▸ hdoc)
      | settled hq hsaves => exact .settled (hqueue'.trans hq) (hnothing hsaves)
    · rw [Stays, Stays, Program.view, Program.view, hqueue', hstore]
      exact (and_iff_left hagrees).symm
  · cases h.phase with
    | written hq hsaves => exact absurd hsaves hsome
    | settled hq hsaves => exact absurd hsaves hsome
    | unwritten hq hdoc =>
      have hqueue' : st'.queue =
          [(.updateEntry l₀.entryID l.merge, some (.screen .entryUpdated))] := by
        rw [hqueue, hq, List.nil_append, ← h.kept.entryID]
        exact hsaved
      have hwritten : (geocodingProgram.view st').entries.lookup l₀.entryID =
          some (l.merge d) := by
        simp [Program.view, hqueue', hstore, geocodingProgram, Write.apply, hdoc]
      have hstays : Stays l₀.entryID d st := by
        rwa [Stays, Program.view, hq]
      refine ⟨.written hqueue' hzero (hstore ▸ hdoc), ?_⟩
      rw [and_iff_right hstays, Stays, hwritten, Option.some.injEq]
      exact hmerge

/-- The write of the document leaves the queue. -/
theorem Saving.leave (h : Saving d l₀ ms st) {w : Write} {k : Option Closure}
    {q : List (Write × Option Closure)} (hq : st.queue = (w, k) :: q) (hq' : st'.queue = q)
    (hbag : (geocodingProgram.direct st').bag = (geocodingProgram.direct st).bag) :
    Phase l₀.entryID d st' ∧ (st'.store = w.apply st.store →
      (Stays l₀.entryID d st' ↔ Stays l₀.entryID d st)) ∧
    (st'.store = st.store → st'.store.entries.lookup l₀.entryID = some d) ∧ q = [] ∧
      saves (geocodingProgram.direct st').bag = 0 := by
  cases h.phase with
  | unwritten hqueue => cases hqueue.symm.trans hq
  | settled hqueue => cases hqueue.symm.trans hq
  | written hqueue hsaves hdoc =>
    cases hqueue.symm.trans hq
    have hzero : saves (geocodingProgram.direct st').bag = 0 := by rwa [hbag]
    refine ⟨.settled hq' hzero, fun hstore => ?_, fun hstore => hstore ▸ hdoc, rfl, hzero⟩
    rw [Stays, Stays, Program.view, Program.view, hq, hq', hstore]
    rfl

/-- **One step of a save**: the objects stay the same exactly if its upload is harmless, and the
document exactly if the last URL agrees with it, unless its write is rejected. -/
theorem Saving.step (h : Saving d l₀ ms st) (hs : Onward st lbl st') :
    Saving d l₀ (ms ++ happens st lbl) st' ∧
      (SameObjects d l₀.bucket st'.loc.bucket ↔
        SameObjects d l₀.bucket st.loc.bucket ∧ Careful d l₀ st lbl) ∧
      (Rejects lbl = false → (Stays l₀.entryID d st' ↔
        Stays l₀.entryID d st ∧ Restores d ms st lbl)) := by
  obtain ⟨⟨hstep, hpress⟩, hremove⟩ := hs
  rcases turn_cases hstep with ⟨r, m, hm, hst', hmove⟩ |
    ⟨hnone, hloc, hbag, w, k, q, hq, hq', hstore⟩
  · have hsave : m ≠ .event .saveButton := by
      rintro rfl
      rw [move_eq_event.mp hm] at hpress
      cases hpress
    have hdelete : ∀ index, m ≠ .event (.deleteImage index) := by
      rintro index rfl
      rw [move_eq_event.mp hm] at hremove
      cases hremove
    have hcode := saveStep hsave hmove
    -- while something is under way, the document is not written yet
    have hd : saves (geocodingProgram.direct st).bag ≠ 0 →
        (geocodingProgram.view st).entries.lookup st.loc.entryID = some d := by
      intro hsome
      cases h.phase with
      | unwritten hqueue hdoc => rwa [Program.view, hqueue, h.kept.entryID]
      | written hqueue hsaves => exact absurd hsaves hsome
      | settled hqueue hsaves => exact absurd hsaves hsome
    have hkept : Kept st.loc st'.loc := kept_step hdelete hmove
    obtain ⟨hstage, hobjects⟩ := h.stage.step h.kept hsave hdelete hd hmove
    obtain ⟨hphase, hstays⟩ := h.write hcode (by rw [hst']) (by rw [hst'])
    have hcareful : Careful d l₀ st lbl ↔ Harmless d l₀ st.loc m := by simp [Careful, hm]
    have hrestores : Restores d ms st lbl ↔ Agrees d ms st.loc m := by simp [Restores, hm]
    rw [happens, hm, Option.toList_some, hcareful, hrestores]
    exact ⟨⟨h.kept.trans hkept, hstage, hphase⟩, hobjects, fun _ => hstays⟩
  · obtain ⟨hphase, hstays, -, -, hzero⟩ := h.leave hq hq' hbag
    have hcareful : Careful d l₀ st lbl := by simp [Careful, hnone]
    have hrestores : Restores d ms st lbl := by simp [Restores, hnone]
    refine ⟨⟨hloc ▸ h.kept, .ended hzero, hphase⟩, ?_, fun hlbl => ?_⟩
    · rw [hloc]
      exact (and_iff_left hcareful).symm
    · rw [and_iff_left hrestores]
      rcases hstore with ⟨-, hstore⟩ | ⟨rfl, -⟩
      · exact hstays hstore
      · cases hlbl

/-- Until the button is pressed, no save is under way. -/
theorem Idle.turn (h : Idle st) (hs : Turn st lbl st') :
    Idle st' ∧ st'.store = st.store ∧ st'.loc.bucket = st.loc.bucket := by
  obtain ⟨hstep, hpress⟩ := hs
  rcases turn_cases hstep with ⟨r, m, hm, hst', hmove⟩ | ⟨-, -, -, w, k, q, hq, -⟩
  · have hsave : m ≠ .event .saveButton := by
      rintro rfl
      rw [move_eq_event.mp hm] at hpress
      cases hpress
    have hcode := saveStep hsave hmove
    obtain ⟨hnone, hzero⟩ := saved_of_saves h.saves hcode
    refine ⟨⟨?_, hzero⟩, by rw [hst'], ?_⟩
    · rw [hst', h.queue, saved_eq_nil _ hnone]
      rfl
    · cases hcode with
      | other hm hfetched hsaves hbucket => exact hbucket
      | coverUploaded hold => exact absurd (hold.symm.trans h.saves) Multiset.cons_ne_zero
      | coverURL hold hsaves hbucket => exact hbucket
      | updateEntry hold hsaves hbucket => exact hbucket
      | imageUploaded hold => exact absurd (hold.symm.trans h.saves) Multiset.cons_ne_zero
      | urlFailed hold hsaves hbucket => exact hbucket
      | imageURL hold hsaves hbucket => exact hbucket
  · rw [h.queue] at hq
    cases hq

/-- **An edit begins** in such a state: the screen has been opened, and used but not saved. -/
theorem idle_of_opened {db : Firestore} {me : User} {title location description : String}
    {urls : List URL} {bucket : Bucket} {tr : List (Label Unit Event × Screen)}
    (hrun : IsRun Turn (start db (opened me id title location description urls bucket)) tr) :
    Idle (final (start db (opened me id title location description urls bucket)) tr) ∧
      (final (start db (opened me id title location description urls bucket)) tr).store = db ∧
      (final (start db (opened me id title location description urls bucket)) tr).loc.bucket =
        bucket := by
  refine hrun.final (I := fun st => Idle st ∧ st.store = db ∧ st.loc.bucket = bucket) ?_
    ⟨⟨rfl, rfl⟩, rfl, rfl⟩
  rintro st lbl st' ⟨hidle, hstore, hbucket⟩ hs
  obtain ⟨hidle', hstore', hbucket'⟩ := hidle.turn hs
  exact ⟨hidle', hstore'.trans hstore, hbucket'.trans hbucket⟩

end

/-! ## The runs of a save -/

/-- The place is not found, an object is not stored, or its URL is not fetched. -/
def Fails : Async.Move Closure Unit Event → Prop
  | .deliver (.screen k) false _ => k.Saving
  | .deliver .geocoded false _ => True
  | _ => False

instance : DecidablePred Fails
  | .event _ => inferInstanceAs (Decidable False)
  | .deliver (.screen k) false _ => inferInstanceAs (Decidable k.Saving)
  | .deliver (.screen _) true _ => inferInstanceAs (Decidable False)
  | .deliver .geocoded false _ => inferInstanceAs (Decidable True)
  | .deliver .geocoded true _ => inferInstanceAs (Decidable False)

/-- Something has failed. -/
def Failed (st : Screen) (tr : List (Label Unit Event × Screen)) : Prop :=
  ¬ Meets (fun st lbl => ∀ m ∈ st.move lbl, ¬ Fails m) st tr

instance (st : Screen) (tr : List (Label Unit Event × Screen)) : Decidable (Failed st tr) :=
  inferInstanceAs (Decidable (¬ Meets (fun st lbl => ∀ m ∈ st.move lbl, ¬ Fails m) st tr))

/-- The entry is as it was. -/
structure Unchanged (d : EntryDoc) (st₀ st : Screen) : Prop where
  document : st.store.entries.lookup st₀.loc.entryID = some d
  objects : SameObjects d st₀.loc.bucket st.loc.bucket

section

variable {d : EntryDoc} {l₀ : EditEntry} {ms : History} {st : Screen}
  {tr : List (Label Unit Event × Screen)}

/-- What is left of a save whose write has been rejected changes nothing. -/
theorem document_of_rested {id : EntryID} (hqueue : st.queue = [])
    (hsaves : saves (geocodingProgram.direct st).bag = 0)
    (hdoc : st.store.entries.lookup id = some d) (hrun : IsRun Onward st tr) :
    (final st tr).store.entries.lookup id = some d := by
  have hrest := hrun.final (I := fun st => Idle st ∧ st.store.entries.lookup id = some d)
    (fun st lbl st' h hs => by
      obtain ⟨hidle, hstore, -⟩ := h.1.turn hs.1
      exact ⟨hidle, hstore ▸ h.2⟩) ⟨⟨hqueue, hsaves⟩, hdoc⟩
  exact hrest.2

/-- **A rejected write** leaves the document as it was. -/
theorem Saving.document_of_rejected (h : Saving d l₀ ms st) (hrun : IsRun Onward st tr)
    (hrejected : ¬ Meets (fun _ lbl => Rejects lbl = false) st tr) :
    (final st tr).store.entries.lookup l₀.entryID = some d := by
  induction tr generalizing st ms with
  | nil => exact absurd trivial hrejected
  | cons x tr ih =>
    obtain ⟨lbl, st'⟩ := x
    obtain ⟨hs, hrun⟩ := hrun
    by_cases hlbl : Rejects lbl = false
    · exact ih (h.step hs).1 hrun fun hmeets => hrejected ⟨hlbl, hmeets⟩
    · rcases turn_cases hs.1.1 with ⟨r, m, hm, -⟩ | ⟨-, -, hbag, w, k, q, hq, hq', hstore⟩
      · cases lbl <;> first | exact absurd rfl hlbl | cases hm
      · obtain ⟨-, -, hkeep, rfl, hzero⟩ := h.leave hq hq' hbag
        rcases hstore with ⟨rfl, -⟩ | ⟨-, hstore⟩
        · exact absurd rfl hlbl
        · change (final st' tr).store.entries.lookup l₀.entryID = some d
          exact document_of_rested hq' hzero (hkeep hstore) hrun

end

/-- **An edit that fails**: when the save of an edit has failed and all callbacks have been
delivered, the entry is as it was exactly if each upload that has succeeded was to an object that
the document does not refer to, or of what was there, and the write of the document has been
rejected, or the last URL of a photo, if all have been fetched, agreed with the document. -/
theorem failed_edit_iff {d : EntryDoc} {st₀ st₁ : Screen} {tr : List (Label Unit Event × Screen)}
    (hidle : Idle st₀) (hd : st₀.store.entries.lookup st₀.loc.entryID = some d)
    (hpress : geocodingProgram.step (.event .saveButton) st₀ = some st₁)
    (hrun : IsRun Onward st₁ tr) (hquiet : Quiescent (final st₁ tr)) :
    (Failed st₁ tr → Unchanged d st₀ (final st₁ tr)) ↔
      (Failed st₁ tr → Meets (Careful d st₀.loc) st₁ tr ∧
        (Meets (fun _ lbl => Rejects lbl = false) st₁ tr →
          MeetsAfter happens (Restores d) [] st₁ tr)) := by
  refine imp_congr_right fun _ => ?_
  obtain ⟨hsaving, hbucket, hstays⟩ := hidle.press hd hpress
  -- the objects
  have hall : Meets (fun _ _ => True) st₁ tr := hrun.meets fun _ _ _ _ => trivial
  have hobjects : SameObjects d st₀.loc.bucket (final st₁ tr).loc.bucket ↔
      SameObjects d st₀.loc.bucket st₁.loc.bucket ∧ Meets (Careful d st₀.loc) st₁ tr :=
    hrun.final_iff_meets (I := fun st => ∃ ms, Saving d st₀.loc ms st)
      (G := fun st => SameObjects d st₀.loc.bucket st.loc.bucket)
      (fun st lbl st' ⟨ms, h⟩ hs _ => ⟨⟨_, (h.step hs).1⟩, (h.step hs).2.1⟩) ⟨[], hsaving⟩ hall
  have hobjects₁ : SameObjects d st₀.loc.bucket st₁.loc.bucket := by
    rw [hbucket]
    exact fun url hurl => rfl
  rw [and_iff_right hobjects₁] at hobjects
  -- the document
  have hdocument : (final st₁ tr).store.entries.lookup st₀.loc.entryID = some d ↔
      (Meets (fun _ lbl => Rejects lbl = false) st₁ tr →
        MeetsAfter happens (Restores d) [] st₁ tr) := by
    by_cases hrejected : Meets (fun _ lbl => Rejects lbl = false) st₁ tr
    · have hend : Stays st₀.loc.entryID d (final st₁ tr) ↔
          Stays st₀.loc.entryID d st₁ ∧ MeetsAfter happens (Restores d) [] st₁ tr :=
        hrun.final_iff_meetsAfter (I := Saving d st₀.loc)
          (fun ms st lbl st' h hs (hlbl : Rejects lbl = false) =>
            ⟨(h.step hs).1, (h.step hs).2.2 hlbl⟩) hsaving hrejected
      rw [and_iff_right hstays, Stays, Program.view, hquiet.1] at hend
      exact hend.trans ⟨fun h _ => h, fun h => h hrejected⟩
    · exact iff_of_true (hsaving.document_of_rejected hrun hrejected)
        fun hmeets => absurd hmeets hrejected
  rw [← hobjects, ← hdocument]
  exact ⟨fun h => ⟨h.objects, h.document⟩, fun h => ⟨h.2, h.1⟩⟩

/-- An entry with a cover and a photo. -/
def sampleDoc (cover photo : String) : EntryDoc :=
  { sampleEntryDoc "e" with
    coverPhoto := some ⟨cover⟩
    description := "text"
    entryName := "name"
    locationName := "place"
    mediaList := [⟨photo⟩] }

/-- The entry is opened from its page. -/
def entryScreen (cover photo : String) : Screen :=
  start { Firestore.empty with entries := AList.insert "e" (sampleDoc cover photo) ∅ }
    (opened sampleAnn "e" "name" "place" "text" [⟨photo⟩]
      (AList.insert cover "cover" (AList.insert photo "photo" ∅)))

/-- The form is filled in, and the name and the cover are changed. -/
def form : List (Label Unit Event) :=
  [.event .viewDidLoad, .deliver 0 true (), .deliver 0 true (), .deliver 0 true (),
    .event (.editEntryName "new name"), .event (.selectCover (.ofData "new cover"))]

/-- All goes well but for the last step, the fetch of the URL of the photo. -/
def urlFails : List (Label Unit Event) :=
  [.deliver 0 true (), .deliver 0 true (), .deliver 0 true (), .deliver 0 true (),
    .deliver 0 false ()]

/-- A run of `failed_edit_iff`. -/
theorem failed_edit_iff_sample : ∃ tr₀ st₁ tr, IsRun Turn (entryScreen "cover" "photo") tr₀ ∧
    geocodingProgram.step (.event .saveButton) (final (entryScreen "cover" "photo") tr₀) =
      some st₁ ∧ IsRun Onward st₁ tr ∧ Quiescent (final st₁ tr) ∧ Failed st₁ tr ∧
    Unchanged (sampleDoc "cover" "photo") (final (entryScreen "cover" "photo") tr₀)
      (final st₁ tr) := by
  obtain ⟨tr₀, htr₀, st₁, hpress, tr, htr, hwaits₀, hwaits, hkeeps, hquiet, hfailed, hd, hcareful,
      hrestores⟩ :
      ∃ tr₀ ∈ play (fun st lbl => geocodingProgram.step lbl st) form
          (entryScreen "cover" "photo"),
        ∃ st₁ ∈ geocodingProgram.step (.event .saveButton)
            (final (entryScreen "cover" "photo") tr₀),
          ∃ tr ∈ play (fun st lbl => geocodingProgram.step lbl st) urlFails st₁,
            Meets (fun _ lbl => Presses lbl = false) (entryScreen "cover" "photo") tr₀ ∧
            Meets (fun _ lbl => Presses lbl = false) st₁ tr ∧
            Meets (fun _ lbl => Removes lbl = false) st₁ tr ∧
            Quiescent (final st₁ tr) ∧ Failed st₁ tr ∧
            (final (entryScreen "cover" "photo") tr₀).store.entries.lookup
              (final (entryScreen "cover" "photo") tr₀).loc.entryID =
                some (sampleDoc "cover" "photo") ∧
            Meets (Careful (sampleDoc "cover" "photo")
              (final (entryScreen "cover" "photo") tr₀).loc) st₁ tr ∧
            MeetsAfter happens (Restores (sampleDoc "cover" "photo")) [] st₁ tr := by
    decide +kernel
  have hrun₀ : IsRun Turn (entryScreen "cover" "photo") tr₀ :=
    (isRun_of_play htr₀).and_meets hwaits₀
  have hrun : IsRun Onward st₁ tr := ((isRun_of_play htr).and_meets hwaits).and_meets hkeeps
  refine ⟨tr₀, st₁, tr, hrun₀, hpress, hrun, hquiet, hfailed, ?_⟩
  exact (failed_edit_iff (idle_of_opened hrun₀).1 hd hpress hrun hquiet).mpr
    (fun _ => ⟨hcareful, fun _ => hrestores⟩) hfailed

/-- The place is not found. -/
def placeFails : List (Label Unit Event) :=
  [.deliver 0 true (), .deliver 0 true (), .deliver 0 false (), .deliver 0 true (),
    .deliver 0 true (), .apply, .deliver 0 true ()]

/-- The cover is stored, and the photo is not. -/
def photoFails : List (Label Unit Event) :=
  [.deliver 0 true (), .deliver 0 true (), .deliver 0 true (), .deliver 0 false (),
    .deliver 0 false ()]

/-- Where the cover is after an edit. -/
def editedCover : String := "/users/ann/entryCovers/Optional(\"e\")"

/-- Where the photo is after an edit. -/
def editedPhoto : String := "/users/ann/e/images0"

/-- The screen of an entry that has been edited before. -/
def editedScreen : Screen := entryScreen editedCover editedPhoto

/-- **A failed edit changes** the document when the place is not found, and the cover when the
photo is not stored. -/
theorem failed_edit_changes :
    (∃ tr₀ st₁ tr, IsRun Turn (entryScreen "cover" "photo") tr₀ ∧
      geocodingProgram.step (.event .saveButton) (final (entryScreen "cover" "photo") tr₀) =
        some st₁ ∧ IsRun Onward st₁ tr ∧ Quiescent (final st₁ tr) ∧ Failed st₁ tr ∧
      ¬ Unchanged (sampleDoc "cover" "photo") (final (entryScreen "cover" "photo") tr₀)
        (final st₁ tr)) ∧
    ∃ tr₀ st₁ tr, IsRun Turn editedScreen tr₀ ∧
      geocodingProgram.step (.event .saveButton) (final editedScreen tr₀) = some st₁ ∧
      IsRun Onward st₁ tr ∧ Quiescent (final st₁ tr) ∧ Failed st₁ tr ∧
      ¬ Unchanged (sampleDoc editedCover editedPhoto) (final editedScreen tr₀) (final st₁ tr) := by
  constructor
  · obtain ⟨tr₀, htr₀, st₁, hpress, tr, htr, hwaits₀, hwaits, hkeeps, hquiet, hfailed, hid, hdoc⟩ :
        ∃ tr₀ ∈ play (fun st lbl => geocodingProgram.step lbl st) form
            (entryScreen "cover" "photo"),
          ∃ st₁ ∈ geocodingProgram.step (.event .saveButton)
              (final (entryScreen "cover" "photo") tr₀),
            ∃ tr ∈ play (fun st lbl => geocodingProgram.step lbl st) placeFails st₁,
              Meets (fun _ lbl => Presses lbl = false) (entryScreen "cover" "photo") tr₀ ∧
              Meets (fun _ lbl => Presses lbl = false) st₁ tr ∧
              Meets (fun _ lbl => Removes lbl = false) st₁ tr ∧
              Quiescent (final st₁ tr) ∧ Failed st₁ tr ∧
              (final (entryScreen "cover" "photo") tr₀).loc.entryID = "e" ∧
              (final st₁ tr).store.entries.lookup "e" ≠ some (sampleDoc "cover" "photo") := by
      decide +kernel
    exact ⟨tr₀, st₁, tr, (isRun_of_play htr₀).and_meets hwaits₀, hpress,
      ((isRun_of_play htr).and_meets hwaits).and_meets hkeeps, hquiet, hfailed,
      fun h => hdoc (hid ▸ h.document)⟩
  · obtain ⟨tr₀, htr₀, st₁, hpress, tr, htr, hwaits₀, hwaits, hkeeps, hquiet, hfailed, hcover⟩ :
        ∃ tr₀ ∈ play (fun st lbl => geocodingProgram.step lbl st) form editedScreen,
          ∃ st₁ ∈ geocodingProgram.step (.event .saveButton) (final editedScreen tr₀),
            ∃ tr ∈ play (fun st lbl => geocodingProgram.step lbl st) photoFails st₁,
              Meets (fun _ lbl => Presses lbl = false) editedScreen tr₀ ∧
              Meets (fun _ lbl => Presses lbl = false) st₁ tr ∧
              Meets (fun _ lbl => Removes lbl = false) st₁ tr ∧
              Quiescent (final st₁ tr) ∧ Failed st₁ tr ∧
              (final st₁ tr).loc.bucket.lookup editedCover ≠
                (final editedScreen tr₀).loc.bucket.lookup editedCover := by
      decide +kernel
    exact ⟨tr₀, st₁, tr, (isRun_of_play htr₀).and_meets hwaits₀, hpress,
      ((isRun_of_play htr).and_meets hwaits).and_meets hkeeps, hquiet, hfailed,
      fun h => hcover (h.objects ⟨editedCover⟩ List.mem_cons_self)⟩

end EditEntry

end Wanderlust
