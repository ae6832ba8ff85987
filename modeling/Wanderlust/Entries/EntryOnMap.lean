import Wanderlust.Entries.EditEntry

/-!
# The screen that edits an entry on the map of its trip

`EditEntryViewController` as `EditTripViewController` opens it: for a place that was pressed or
searched (`goEdit`), or for an annotation (`fromEditBtn`). Saving it uploads the cover and then asks
the geocoder `G` for the location; with its answer, the form is handed over to the screen of the
trip. The id of the entry is not set on the way here, so that there is one Storage object for the
covers of all entries (`handed_cover`); and the location is that of the text which was in its field
when the cover had been uploaded (`handed_located`).
-/

namespace Wanderlust

open Async

/-- The state of the screen, with the globals and the Storage objects that it uses. -/
structure EntryOnMap where
  currentUser : User
  entryID : Option EntryID
  /-- The annotation that is edited; for a new one there is none, and `addNew`. -/
  currentAnnotation : Option CustomAnnotation
  entryNameField : String
  locationNameField : String
  descriptionField : String
  entryCoverPhoto : Option UIImage
  entryCoverURL : Option URL
  entryImage : List UIImage
  bucket : Bucket
  /-- `pictureCheck` is presented. -/
  pictureCheck : Bool
  /-- What `addAnnotation` has been called with, or the annotation been set to. -/
  handed : List EntryForm
  popped : Bool

namespace EntryOnMap

inductive Callback
  -- `uploadEntryCoverPhoto`
  | coverUploaded (path data : String)
  | coverURL (path : String)
  -- `saveButton`
  | geocoded (address : String)
  deriving DecidableEq

inductive Event
  | editEntryName (text : String)
  | editLocationName (text : String)
  | editDescription (text : String)
  | selectCover (image : UIImage)
  | addPhoto (image : UIImage)
  | deleteImage (index : ℕ)
  | saveButton

abbrev Cmd := Async.Cmd Write Callback
abbrev Handler := Async.Handler EntryOnMap Write Callback

/-- The screen for a new entry, with the address of a place. -/
def goEdit (currentUser : User) (tappedLocationString : String) (bucket : Bucket) : EntryOnMap where
  currentUser := currentUser
  entryID := none
  currentAnnotation := none
  entryNameField := ""
  locationNameField := tappedLocationString
  descriptionField := ""
  entryCoverPhoto := some .entryPlaceholder
  entryCoverURL := none
  entryImage := []
  bucket := bucket
  pictureCheck := false
  handed := []
  popped := false

/-- The screen for an annotation that exists. -/
def fromEditBtn (currentUser : User) (a : CustomAnnotation) (bucket : Bucket) :
    EntryOnMap where
  currentUser := currentUser
  entryID := none
  currentAnnotation := some a
  entryNameField := a.title
  locationNameField := a.locationName
  descriptionField := a.text
  entryCoverPhoto := a.coverPhotoImage
  entryCoverURL := a.coverPhoto
  entryImage := a.images
  bucket := bucket
  pictureCheck := false
  handed := []
  popped := false

/-- The path of the cover: the id is interpolated as an optional. -/
def coverPath (l : EntryOnMap) : String :=
  "/users/" ++ l.currentUser.uid ++ "/entryCovers/" ++
    match l.entryID with
    | none => "nil"
    | some id => "Optional(\"" ++ id ++ "\")"

/-- Whether `saveButton` presents `pictureCheck` instead of saving. -/
def emptyField (l : EntryOnMap) : Bool :=
  l.entryImage.length = 0 ∨ l.entryNameField = "" ∨ l.locationNameField = "" ∨
    l.descriptionField = "" ∨ l.entryCoverPhoto = some .entryPlaceholder

/-- `uploadEntryCoverPhoto`. -/
def uploadEntryCoverPhoto : Handler := .issue fun l =>
  match l.entryCoverPhoto.bind UIImage.jpegData with
  | none => []
  | some data => [.request (.coverUploaded l.coverPath data)]

/-- `saveButton`. -/
def saveButton : Handler := fun l =>
  if l.emptyField then ({ l with pictureCheck := true }, []) else uploadEntryCoverPhoto l

/-- The closure of `saveButton` that is given a location: the form is handed over. It traps without
a cover. -/
def geocoded (location : GeoPoint) (l : EntryOnMap) : Option EntryOnMap :=
  match l.entryCoverURL, l.entryCoverPhoto with
  | some entryCoverURL, some entryCoverPhoto => some
    { l with
      handed := l.handed ++ [⟨location, l.entryNameField, l.descriptionField, l.entryImage,
        l.locationNameField, entryCoverURL, entryCoverPhoto⟩]
      popped := true }
  | _, _ => none

variable (G : String → Option GeoPoint)

/-- The code of the closures. There are no `entryInfoImages`, and so no `updateEntry`. -/
def react : Callback → Bool → Unit → EntryOnMap → Firestore → Option (EntryOnMap × List Cmd)
  | .coverUploaded path data, ok, _, l, _ =>
    some (if ok then { l with bucket := l.bucket.insert path data } else l,
      [.request (.coverURL path)])
  | .coverURL path, ok, _, l, _ =>
    some (if ok then
      ({ l with entryCoverURL := some ⟨path⟩ }, [.request (.geocoded l.locationNameField)])
      else (l, []))
  | .geocoded address, ok, _, l, _ =>
    match if ok then G address else none with
    | none => some (l, [])
    | some location => (geocoded location l).map fun l => (l, [])

/-- The code of the user's actions. -/
def event : Event → EntryOnMap → Firestore → Option (EntryOnMap × List Cmd)
  | .editEntryName text, l, _ => some ({ l with entryNameField := text }, [])
  | .editLocationName text, l, _ => some ({ l with locationNameField := text }, [])
  | .editDescription text, l, _ => some ({ l with descriptionField := text }, [])
  | .selectCover image, l, _ => some ({ l with entryCoverPhoto := some image }, [])
  | .addPhoto image, l, _ => some ({ l with entryImage := l.entryImage ++ [image] }, [])
  | .deleteImage index, l, _ =>
    if index < l.entryImage.length then
      some ({ l with entryImage := l.entryImage.eraseIdx index }, [])
    else none
  | .saveButton, l, _ => some (saveButton l)

/-- `EditEntryViewController`, with a trip screen behind it. -/
def program : Program Firestore EntryOnMap Write Callback Unit Event where
  apply := Write.apply
  react := react G
  event := event

/-- The screens that `EditTripViewController` opens. -/
inductive Opened (u : User) (b : Bucket) : EntryOnMap → Prop
  | goEdit (tappedLocationString : String) : Opened u b (goEdit u tappedLocationString b)
  | fromEditBtn (a : CustomAnnotation) : Opened u b (fromEditBtn u a b)

/-- The location is not edited while it is geocoded. -/
def steady (l : EntryOnMap) (_ : Firestore) : Async.Move Callback Unit Event → Prop
  | .deliver (.geocoded address) _ _ => l.locationNameField = address
  | _ => True

instance (l : EntryOnMap) (db : Firestore) : DecidablePred (steady l db)
  | .event _ => inferInstanceAs (Decidable True)
  | .deliver (.coverUploaded _ _) _ _ => inferInstanceAs (Decidable True)
  | .deliver (.coverURL _) _ _ => inferInstanceAs (Decidable True)
  | .deliver (.geocoded address) _ _ =>
    inferInstanceAs (Decidable (l.locationNameField = address))

section

variable {G} {u : User} {b : Bucket} {db : Firestore} {l l₀ : EntryOnMap}
  {x x' : Direct Firestore EntryOnMap Callback} {m : Async.Move Callback Unit Event}
  {allowed : EntryOnMap → Firestore → Async.Move Callback Unit Event → Prop}
  {st : State Firestore EntryOnMap Write Callback}

/-- A form is handed over when the geocoder answers. -/
theorem handed_step (h : DirectStep (program G) x m x') :
    x'.loc.handed = x.loc.handed ∨ ∃ address ok a form, m = .deliver (.geocoded address) ok a ∧
      G address = some form.location ∧ form.locationName = x.loc.locationNameField ∧
      x.loc.entryCoverURL = some form.coverPhotoURL ∧ x'.loc.handed = x.loc.handed ++ [form] := by
  cases h with
  | @event e r he =>
    left
    change event e x.loc x.store = some r at he
    cases e with
    | saveButton =>
      simp only [event, saveButton, uploadEntryCoverPhoto, Handler.issue_apply] at he
      split at he <;> cases he <;> rfl
    | deleteImage index =>
      simp only [event] at he
      split at he <;> cases he
      rfl
    | _ =>
      cases he
      rfl
  | @deliver k ok a rest r hb hr =>
    change react G k ok a x.loc x.store = some r at hr
    cases k with
    | coverUploaded path data =>
      left
      cases hr
      simp only [Program.after]
      split <;> rfl
    | coverURL path =>
      left
      simp only [react, Option.some.injEq] at hr
      split at hr <;> subst hr <;> rfl
    | geocoded address =>
      simp only [react] at hr
      split at hr
      · cases hr
        exact Or.inl rfl
      · rename_i location hlocation
        obtain ⟨l', hl', rfl⟩ := Option.map_eq_some_iff.mp hr
        simp only [geocoded] at hl'
        split at hl' <;> cases hl'
        rename_i url image hurl himage
        split at hlocation
        · exact Or.inr ⟨address, ok, a, _, rfl, hlocation, rfl, hurl, rfl⟩
        · cases hlocation

/-- **The location is that of the text**, if the text is not edited while it is geocoded. -/
theorem handed_located (hl : Opened u b l) (h : Reaches (program G) steady (start db l) st) :
    ∀ form ∈ st.loc.handed, G form.locationName = some form.location := by
  refine h.invariant (I := fun x => ∀ form ∈ x.loc.handed,
    G form.locationName = some form.location) (fun x m x' hx ha hs => ?_) ?_
  · rcases handed_step hs with hsame | ⟨address, ok, a, form, rfl, hG, hname, -, hnew⟩
    · rwa [hsame]
    · intro form' hform'
      rw [hnew] at hform'
      rcases List.mem_append.mp hform' with hform' | hform'
      · exact hx form' hform'
      · obtain rfl := List.mem_singleton.mp hform'
        have hsteady : x.loc.locationNameField = address := ha
        rw [hname, hsteady, hG]
  · cases hl <;> simp [goEdit, fromEditBtn]

/-- The callback carries this path, if it carries one. -/
def Callback.At (path : String) : Callback → Prop
  | .coverUploaded p _ => p = path
  | .coverURL p => p = path
  | .geocoded _ => True

/-- What the screen `l₀` does to Storage: there is one object that it writes, and this is the cover
of what it hands over. -/
structure Covering (l₀ : EntryOnMap) (x : Direct Firestore EntryOnMap Callback) : Prop where
  coverPath : x.loc.coverPath = l₀.coverPath
  bag : ∀ k ∈ x.bag, k.At l₀.coverPath
  url : (∃ address, .geocoded address ∈ x.bag) → x.loc.entryCoverURL = some ⟨l₀.coverPath⟩
  handed : ∀ form ∈ x.loc.handed, form.coverPhotoURL = ⟨l₀.coverPath⟩
  bucket : ∀ p ≠ l₀.coverPath, x.loc.bucket.lookup p = l₀.bucket.lookup p

theorem Covering.handed_step (h : Covering l₀ x) (hs : DirectStep (program G) x m x') :
    ∀ form ∈ x'.loc.handed, form.coverPhotoURL = ⟨l₀.coverPath⟩ := by
  rcases EntryOnMap.handed_step hs with hsame | ⟨address, ok, a, form, rfl, -, -, hurl, hnew⟩
  · rw [hsame]
    exact h.handed
  · have hmem : Callback.geocoded address ∈ x.bag := by
      cases hs with
      | deliver hb hr => exact hb ▸ Multiset.mem_cons_self _ _
    rw [h.url ⟨address, hmem⟩] at hurl
    intro form' hform'
    rw [hnew] at hform'
    rcases List.mem_append.mp hform' with hform' | hform'
    · exact h.handed form' hform'
    · rw [List.mem_singleton.mp hform', ← Option.some.inj hurl]

/-- Code that asks for no location, and keeps all of this. -/
theorem Covering.after (h : Covering l₀ x) {r : EntryOnMap × List Cmd} {rest : Multiset Callback}
    (hrest : ∀ k ∈ rest, k ∈ x.bag)
    (hhanded : ∀ form ∈ r.1.handed, form.coverPhotoURL = ⟨l₀.coverPath⟩)
    (hpath : r.1.coverPath = x.loc.coverPath) (hurl : r.1.entryCoverURL = x.loc.entryCoverURL)
    (hbucket : ∀ p ≠ l₀.coverPath, r.1.bucket.lookup p = x.loc.bucket.lookup p)
    (hcs : ∀ k ∈ callbacks r.2, k.At l₀.coverPath ∧ ∀ address, k ≠ .geocoded address) :
    Covering l₀ ((program G).after r { x with bag := rest }) := by
  refine ⟨hpath.trans h.coverPath, fun k hk => ?_, fun ⟨address, hk⟩ => ?_, hhanded,
    fun p hp => (hbucket p hp).trans (h.bucket p hp)⟩
  · rcases Multiset.mem_add.mp hk with hk | hk
    · exact h.bag k (hrest k hk)
    · exact (hcs k hk).1
  · rcases Multiset.mem_add.mp hk with hk | hk
    · exact hurl.trans (h.url ⟨address, hrest _ hk⟩)
    · exact absurd rfl ((hcs _ hk).2 address)

theorem Covering.step (h : Covering l₀ x) (hs : DirectStep (program G) x m x') :
    Covering l₀ x' := by
  have hhanded := h.handed_step hs
  cases hs with
  | @event e r he =>
    change event e x.loc x.store = some r at he
    have hrest : ∀ k ∈ x.bag, k ∈ x.bag := fun _ hk => hk
    cases e with
    | saveButton =>
      simp only [event, saveButton, uploadEntryCoverPhoto, Handler.issue_apply] at he
      split at he <;> cases he
      · exact h.after hrest hhanded rfl rfl (fun _ _ => rfl) (by simp)
      · refine h.after hrest hhanded rfl rfl (fun _ _ => rfl) fun k hk => ?_
        dsimp only at hk
        split at hk
        · simp at hk
        · obtain rfl : k = _ := by simpa using hk
          exact ⟨h.coverPath, by simp⟩
    | deleteImage index =>
      simp only [event] at he
      split at he <;> cases he
      exact h.after hrest hhanded rfl rfl (fun _ _ => rfl) (by simp)
    | _ =>
      cases he
      exact h.after hrest hhanded rfl rfl (fun _ _ => rfl) (by simp)
  | @deliver k ok a rest r hb hr =>
    change react G k ok a x.loc x.store = some r at hr
    have hat : k.At l₀.coverPath := h.bag k (hb ▸ Multiset.mem_cons_self _ _)
    have hrest : ∀ k' ∈ rest, k' ∈ x.bag := fun k' hk' => hb ▸ Multiset.mem_cons_of_mem hk'
    cases k with
    | coverUploaded path data =>
      obtain rfl : path = l₀.coverPath := hat
      cases hr
      refine h.after hrest hhanded ?_ ?_ (fun p hp => ?_) fun k' hk' => ?_
      · dsimp only
        split <;> rfl
      · dsimp only
        split <;> rfl
      · dsimp only
        split
        · exact AList.lookup_insert_ne hp
        · rfl
      · obtain rfl : k' = _ := by simpa using hk'
        exact ⟨rfl, by simp⟩
    | coverURL path =>
      obtain rfl : path = l₀.coverPath := hat
      simp only [react, Option.some.injEq] at hr
      split at hr <;> subst hr
      · refine ⟨h.coverPath, fun k' hk' => ?_, fun _ => rfl, hhanded, h.bucket⟩
        rcases Multiset.mem_add.mp hk' with hk' | hk'
        · exact h.bag k' (hrest k' hk')
        · obtain rfl : k' = _ := by simpa using hk'
          trivial
      · exact h.after hrest hhanded rfl rfl (fun _ _ => rfl) (by simp)
    | geocoded address =>
      simp only [react] at hr
      split at hr
      · cases hr
        exact h.after hrest hhanded rfl rfl (fun _ _ => rfl) (by simp)
      · obtain ⟨l', hl', rfl⟩ := Option.map_eq_some_iff.mp hr
        simp only [geocoded] at hl'
        split at hl' <;> cases hl'
        exact h.after hrest hhanded rfl rfl (fun _ _ => rfl) (by simp)

/-- **One object for all covers**: on the way here, the id of the entry has no part in where its
cover is stored. -/
theorem handed_cover (hl : Opened u b l) (h : Reaches (program G) allowed (start db l) st) :
    (∀ form ∈ st.loc.handed, form.coverPhotoURL = ⟨l.coverPath⟩) ∧
      ∀ p ≠ l.coverPath, st.loc.bucket.lookup p = b.lookup p := by
  have hb : l.bucket = b := by cases hl <;> rfl
  have hnone : l.handed = [] := by cases hl <;> rfl
  have hend := h.invariant (I := Covering l) (fun x m x' hx _ hs => hx.step hs)
    ⟨rfl, by simp, by simp, by simp [hnone], fun _ _ => rfl⟩
  exact ⟨hend.handed, hb ▸ hend.bucket⟩

end

end EntryOnMap

end Wanderlust
