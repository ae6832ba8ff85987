import Wanderlust.Entries.Files
import Wanderlust.Models.User

/-!
# The covers of a user's entries

A user edits entries one after the other, on the map of a trip or by themselves, and stores their
covers. The screen on the map does not know the id of its entry, so that all covers that come from
there are one object. A cover is overwritten by that of another entry exactly when it is this
object and another entry is edited on the map (`apart_iff`).
-/

namespace Wanderlust

open Async Runs

/-- The Storage objects, and the cover that each entry has: in its document, or on the map. -/
structure Gallery where
  covers : EntryID → Option URL
  bucket : Bucket

/-- An entry is edited on the map of a trip, or by itself. -/
inductive CoverSave
  | onMap (id : EntryID)
  | entryInfo (id : EntryID)

/-- The entry. -/
def CoverSave.id : CoverSave → EntryID
  | .onMap id => id
  | .entryInfo id => id

/-- The cover of all entries on the map. -/
def coverOnMap (uid : Uid) : URL := ⟨filePath uid "entryCovers" "nil"⟩

/-- The cover of an entry that is edited by itself. -/
def coverOfEntry (uid : Uid) (id : EntryID) : URL := ⟨filePath uid "entryCovers" (coverName id)⟩

/-- A save of an entry by the user `uid`, with the geocoder `G`. On the map of a trip, the entry is
new or one with an annotation, and its cover is the one that is handed over; by itself, it is the
one that its document has at the end. -/
inductive Saves (G : String → Option GeoPoint) (uid : Uid) : Gallery → CoverSave → Gallery → Prop
  | onMap {g : Gallery} {id : EntryID} {me : User} {db : Firestore} {l : EntryOnMap}
    {st : State Firestore EntryOnMap Write EntryOnMap.Callback} {form : EntryForm}
    (hme : me.uid = uid) (hl : EntryOnMap.Opened me g.bucket l)
    (hrun : Reaches (EntryOnMap.program G) (fun _ _ _ => True) (start db l) st)
    (hform : form ∈ st.loc.handed) :
    Saves G uid g (.onMap id)
      ⟨Function.update g.covers id (some form.coverPhotoURL), st.loc.bucket⟩
  | entryInfo {g : Gallery} {id : EntryID} {me : User} {db : Firestore}
    {title location description : String} {images : List URL}
    {st : State Firestore EditEntry Write EditEntry.Callback} (hme : me.uid = uid)
    (hdb : EditEntry.coverOf db id = g.covers id)
    (hrun : Reaches EditEntry.program (fun _ _ _ => True)
      (start db (EditEntry.opened me id title location description images g.bucket)) st)
    (hq : Quiescent st) :
    Saves G uid g (.entryInfo id)
      ⟨Function.update g.covers id (EditEntry.coverOf st.store id), st.loc.bucket⟩

/-- The save of the entry `id` leaves the objects alone that are the covers of other entries, and
none of them is its cover. -/
def Apart (g : Gallery) (id : EntryID) (g' : Gallery) : Prop :=
  ∀ id' ≠ id, ∀ url, g.covers id' = some url →
    g'.bucket.lookup url.path = g.bucket.lookup url.path ∧ g'.covers id ≠ some url

/-- An entry is edited by itself, or no other entry has the cover of those on the map. -/
def OwnObject (uid : Uid) (g : Gallery) : CoverSave → Prop
  | .onMap id => ∀ id' ≠ id, g.covers id' ≠ some (coverOnMap uid)
  | .entryInfo _ => True

/-- Every cover is that of its entry or the one on the map, and this is the cover of at most one
entry. -/
structure OwnCovers (uid : Uid) (g : Gallery) : Prop where
  own : ∀ id url, g.covers id = some url → url = coverOfEntry uid id ∨ url = coverOnMap uid
  once : ∀ id id', g.covers id = some (coverOnMap uid) → g.covers id' = some (coverOnMap uid) →
    id = id'

section

variable {G : String → Option GeoPoint} {uid : Uid} {g g' : Gallery} {s : CoverSave}
  {tr : List (CoverSave × Gallery)} {id id' : EntryID}

theorem coverOfEntry_inj : coverOfEntry uid id = coverOfEntry uid id' ↔ id = id' := by
  simp only [coverOfEntry, URL.mk.injEq, filePath_coverName_inj]

theorem coverOfEntry_ne_onMap : coverOfEntry uid id ≠ coverOnMap uid := by
  simp only [coverOfEntry, coverOnMap, ne_eq, URL.mk.injEq]
  exact filePath_coverName_ne_nil

/-- What a save comes to: the entry has the cover of those on the map, and only this object is
written; or it has its own or the one that it had, and no cover but its own is written. -/
theorem saves_cases (h : Saves G uid g s g') :
    (∃ id, s = .onMap id ∧ g'.covers = Function.update g.covers id (some (coverOnMap uid)) ∧
      ∀ p ≠ (coverOnMap uid).path, g'.bucket.lookup p = g.bucket.lookup p) ∨
    ∃ id c, s = .entryInfo id ∧ g'.covers = Function.update g.covers id c ∧
      (c = none ∨ c = g.covers id ∨ c = some (coverOfEntry uid id)) ∧
      g'.bucket.lookup (coverOnMap uid).path = g.bucket.lookup (coverOnMap uid).path ∧
      ∀ id' ≠ id, g'.bucket.lookup (coverOfEntry uid id').path =
        g.bucket.lookup (coverOfEntry uid id').path := by
  cases h with
  | @onMap id me db l st form hme hl hrun hform =>
    left
    obtain ⟨hcover, hbucket⟩ := EntryOnMap.handed_cover hl hrun
    rw [hl.coverPath_eq, hme] at hcover hbucket
    refine ⟨id, rfl, ?_, hbucket⟩
    rw [hcover form hform]
    rfl
  | @entryInfo id me db title location description images st hme hdb hrun hq =>
    right
    have hst := EditEntry.storing_of_reaches rfl hrun
    rw [hq.direct] at hst
    have hpath : (EditEntry.opened me id title location description images g.bucket).coverPath =
        (coverOfEntry uid id).path := by
      rw [EditEntry.coverPath_eq]
      simp only [EditEntry.opened, coverOfEntry, hme]
    have himages : ∀ i, (EditEntry.opened me id title location description images
        g.bucket).imagesPath i = filePath uid id (numbered "images" i) := by
      intro i
      rw [EditEntry.imagesPath_eq]
      simp only [EditEntry.opened, hme]
    refine ⟨id, _, rfl, rfl, ?_, hst.others _ ?_ fun i => ?_, fun id' hid' => hst.others _ ?_
      fun i => ?_⟩
    · have hcover := hst.cover
      rw [EditEntry.Covers, hpath] at hcover
      exact hdb ▸ hcover
    · rw [hpath]
      exact filePath_coverName_ne_nil.symm
    · rw [himages]
      exact filePath_numbered_ne_nil.symm
    · rw [hpath]
      exact fun he => hid' (filePath_coverName_inj.mp he)
    · rw [himages]
      exact filePath_numbered_ne_coverName.symm

/-- **One save**: exactly the condition keeps the covers apart. -/
theorem OwnCovers.apart_step (h : OwnCovers uid g) (hs : Saves G uid g s g') :
    Apart g s.id g' ↔ OwnObject uid g s := by
  rcases saves_cases hs with ⟨id, rfl, hcovers, hbucket⟩ |
    ⟨id, c, rfl, hcovers, hc, hmap, hothers⟩
  · have hnew : g'.covers id = some (coverOnMap uid) := by
      rw [hcovers, Function.update_self]
    constructor
    · intro hapart id' hid' hcover
      exact (hapart id' hid' _ hcover).2 hnew
    · intro hown id' hid' url hcover
      have hne : url ≠ coverOnMap uid := fun he => hown id' hid' (he ▸ hcover)
      refine ⟨hbucket _ fun he => hne (congrArg URL.mk he), fun he => hne ?_⟩
      exact Option.some.inj (he.symm.trans hnew)
  · refine ⟨fun _ => trivial, fun _ id' hid' url hcover => ?_⟩
    have hnew : g'.covers id = c := by rw [hcovers, Function.update_self]
    rcases h.own id' url hcover with rfl | rfl
    · -- the other entry has its own cover
      refine ⟨hothers id' hid', fun he => ?_⟩
      rw [CoverSave.id, hnew] at he
      rcases hc with rfl | rfl | rfl
      · cases he
      · rcases h.own id _ he with he | he
        · exact hid' (coverOfEntry_inj.mp he)
        · exact coverOfEntry_ne_onMap he
      · exact hid' (coverOfEntry_inj.mp (Option.some.inj he)).symm
    · -- the other entry has the cover of those on the map
      refine ⟨hmap, fun he => ?_⟩
      rw [CoverSave.id, hnew] at he
      rcases hc with rfl | rfl | rfl
      · cases he
      · exact hid' (h.once id' id hcover he)
      · exact coverOfEntry_ne_onMap (Option.some.inj he)

theorem OwnCovers.step (h : OwnCovers uid g) (hs : Saves G uid g s g')
    (hown : OwnObject uid g s) : OwnCovers uid g' := by
  have hold : ∀ {id c}, g'.covers = Function.update g.covers id c → ∀ id' ≠ id,
      g'.covers id' = g.covers id' := fun hcovers id' hid' => by
    rw [hcovers, Function.update_of_ne hid']
  rcases saves_cases hs with ⟨id, rfl, hcovers, -⟩ | ⟨id, c, rfl, hcovers, hc, -, -⟩
  · -- no other entry has the cover of those on the map
    have hnone : ∀ id', g'.covers id' = some (coverOnMap uid) → id' = id := by
      intro id' hcover
      by_contra hid'
      exact hown id' hid' (hold hcovers id' hid' ▸ hcover)
    refine ⟨fun id' url hcover => ?_, fun id₁ id₂ h₁ h₂ => (hnone id₁ h₁).trans (hnone id₂ h₂).symm⟩
    by_cases hid' : id' = id
    · subst hid'
      rw [hcovers, Function.update_self] at hcover
      exact Or.inr (Option.some.inj hcover).symm
    · exact h.own id' url (hold hcovers id' hid' ▸ hcover)
  · -- the cover of the entry is its own, or as it was
    have hsame : ∀ id', g'.covers id' = some (coverOnMap uid) →
        g.covers id' = some (coverOnMap uid) := by
      intro id' hcover
      by_cases hid' : id' = id
      · subst hid'
        rw [hcovers, Function.update_self] at hcover
        subst hcover
        rcases hc with hc | hc | hc
        · cases hc
        · exact hc.symm
        · exact absurd (Option.some.inj hc).symm coverOfEntry_ne_onMap
      · exact hold hcovers id' hid' ▸ hcover
    refine ⟨fun id' url hcover => ?_,
      fun id₁ id₂ h₁ h₂ => h.once id₁ id₂ (hsame id₁ h₁) (hsame id₂ h₂)⟩
    by_cases hid' : id' = id
    · subst hid'
      rw [hcovers, Function.update_self] at hcover
      subst hcover
      rcases hc with hc | hc | hc
      · cases hc
      · exact h.own id' url hc.symm
      · exact Or.inl (Option.some.inj hc)
    · exact h.own id' url (hold hcovers id' hid' ▸ hcover)

/-- **The covers do not collide** in exactly those sequences of saves in which no entry is edited on
the map while another has the cover of those on the map. -/
theorem apart_iff (h₀ : ∀ id, g.covers id = none) (hrun : IsRun (Saves G uid) g tr) :
    (∀ tr₁ x tr₂, tr = tr₁ ++ x :: tr₂ → Apart (final g tr₁) x.1.id x.2) ↔
      Meets (OwnObject uid) g tr := by
  have hstart : OwnCovers uid g :=
    ⟨fun id url hcover => by simp [h₀] at hcover, fun id id' hcover => by simp [h₀] at hcover⟩
  clear h₀
  induction tr generalizing g with
  | nil => simp
  | cons x tr ih =>
    obtain ⟨s, g'⟩ := x
    have hs := hrun.1
    constructor
    · intro hall
      have hown := (hstart.apart_step hs).mp (hall [] (s, g') tr rfl)
      refine ⟨hown, (ih hrun.2 (hstart.step hs hown)).mp fun tr₁ x tr₂ htr => ?_⟩
      exact hall ((s, g') :: tr₁) x tr₂ (htr ▸ rfl)
    · rintro ⟨hown, hmeets⟩ tr₁ x tr₂ htr
      cases tr₁ with
      | nil =>
        cases htr
        exact (hstart.apart_step hs).mpr hown
      | cons y tr₁ =>
        obtain ⟨rfl, hrest⟩ := List.cons_eq_cons.mp htr
        exact (ih hrun.2 (hstart.step hs hown)).mpr hmeets tr₁ x tr₂ hrest

end

/-! ## Some saves -/

/-- A new entry on the map, saved with this cover: what the screen does, and the gallery at the
end. -/
def savedOnMap (G : String → Option GeoPoint) (me : User) (g : Gallery) (id : EntryID)
    (place : String) (uses : List (Label Unit EntryOnMap.Event)) : Option Gallery :=
  (exec (EntryOnMap.program G) (fun _ _ _ => True) uses
      (start Firestore.empty (EntryOnMap.goEdit me place g.bucket))).bind fun st =>
    st.loc.handed.getLast?.map fun form =>
      ⟨Function.update g.covers id (some form.coverPhotoURL), st.loc.bucket⟩

theorem saves_of_savedOnMap {G : String → Option GeoPoint} {me : User} {g g' : Gallery}
    {id : EntryID} {place : String} {uses : List (Label Unit EntryOnMap.Event)}
    (h : savedOnMap G me g id place uses = some g') : Saves G me.uid g (.onMap id) g' := by
  obtain ⟨st, hst, h⟩ := Option.bind_eq_some_iff.mp h
  obtain ⟨form, hform, rfl⟩ := Option.map_eq_some_iff.mp h
  exact .onMap rfl (.goEdit place) ⟨uses, trace_of_exec hst⟩ (List.mem_of_getLast? hform)

/-- The form is filled in and saved. -/
def sampleUses (cover : String) : List (Label Unit EntryOnMap.Event) :=
  [.event (.editEntryName "entry"), .event (.editDescription "text"),
    .event (.selectCover (.ofData cover)), .event (.addPhoto (.ofData "photo")),
    .event .saveButton, .deliver 0 true (), .deliver 0 true (), .deliver 0 true ()]

/-- The geocoder knows all places. -/
def sampleGeocoder (_ : String) : Option GeoPoint := some ⟨0, 0⟩

def sampleGallery : Gallery := ⟨fun _ => none, ∅⟩

/-- An entry with the cover that it has in the gallery. -/
def galleryEntry (g : Gallery) (id : EntryID) : EntryDoc :=
  { sampleEntryDoc id with
    coverPhoto := g.covers id
    description := "text"
    entryName := "entry"
    locationName := "place"
    mediaList := [⟨"photo"⟩] }

/-- The entry, opened from its page and saved: what the screen does, and the gallery at the end. -/
def savedInEntryInfo (me : User) (g : Gallery) (id : EntryID)
    (uses : List (Label Unit EditEntry.Event)) : Option Gallery :=
  (exec EditEntry.program (fun _ _ _ => True) uses
      (start
        { Firestore.empty with entries := AList.insert id (galleryEntry g id) ∅ }
        (EditEntry.opened me id "entry" "place" "text" [⟨"photo"⟩] g.bucket))).bind fun st =>
    if Quiescent st then
      some ⟨Function.update g.covers id (EditEntry.coverOf st.store id), st.loc.bucket⟩
    else none

theorem saves_of_savedInEntryInfo {G : String → Option GeoPoint} {me : User} {g g' : Gallery}
    {id : EntryID} {uses : List (Label Unit EditEntry.Event)}
    (h : savedInEntryInfo me g id uses = some g') : Saves G me.uid g (.entryInfo id) g' := by
  obtain ⟨st, hst, h⟩ := Option.bind_eq_some_iff.mp h
  split at h <;> cases h
  rename_i hq
  refine .entryInfo rfl ?_ ⟨uses, trace_of_exec hst⟩ hq
  rw [EditEntry.coverOf, AList.lookup_insert]
  rfl

/-- The form is loaded, another cover and a photo are chosen, and it is saved. -/
def coverEdits (cover : String) : List (Label Unit EditEntry.Event) :=
  [.event .viewDidLoad, .deliver 0 true (), .deliver 0 true (), .deliver 0 true (),
    .event (.selectCover (.ofData cover)), .event (.addPhoto (.ofData "photo")),
    .event .saveButton, .deliver 0 true (), .deliver 0 true (), .deliver 0 true (),
    .deliver 0 true (), .apply, .deliver 0 true ()]

/-- A run with two entries: `b` is saved on the map and then from its page, so that `a` can be
saved on the map, and `b` from its page again. -/
theorem apart_iff_sample : ∃ g₁ g₂ g₃ g₄ : Gallery,
    IsRun (Saves sampleGeocoder "ann") sampleGallery
      [(.onMap "b", g₁), (.entryInfo "b", g₂), (.onMap "a", g₃), (.entryInfo "b", g₄)] ∧
    (g₂.covers "b" = some (coverOfEntry "ann" "b") ∧ Apart g₂ "a" g₃) ∧
    g₃.covers "a" = some (coverOnMap "ann") ∧ Apart g₃ "b" g₄ := by
  obtain ⟨g₁, hg₁, g₂, hg₂, g₃, hg₃, g₄, hg₄, hb, ha⟩ :
      ∃ g₁ ∈ savedOnMap sampleGeocoder sampleAnn sampleGallery "b" "park" (sampleUses "red"),
        ∃ g₂ ∈ savedInEntryInfo sampleAnn g₁ "b" (coverEdits "green"),
        ∃ g₃ ∈ savedOnMap sampleGeocoder sampleAnn g₂ "a" "lake" (sampleUses "blue"),
        ∃ g₄ ∈ savedInEntryInfo sampleAnn g₃ "b" (coverEdits "white"),
        g₂.covers "b" = some (coverOfEntry "ann" "b") ∧
          g₃.covers "a" = some (coverOnMap "ann") := by
    decide +kernel
  have hs₁ : Saves sampleGeocoder "ann" sampleGallery (.onMap "b") g₁ := saves_of_savedOnMap hg₁
  have hs₂ : Saves sampleGeocoder "ann" g₁ (.entryInfo "b") g₂ := saves_of_savedInEntryInfo hg₂
  have hs₃ : Saves sampleGeocoder "ann" g₂ (.onMap "a") g₃ := saves_of_savedOnMap hg₃
  have hs₄ : Saves sampleGeocoder "ann" g₃ (.entryInfo "b") g₄ := saves_of_savedInEntryInfo hg₄
  have hrun : IsRun (Saves sampleGeocoder "ann") sampleGallery
      [(.onMap "b", g₁), (.entryInfo "b", g₂), (.onMap "a", g₃), (.entryInfo "b", g₄)] :=
    ⟨hs₁, hs₂, hs₃, hs₄, trivial⟩
  have hothers : ∀ id' ≠ "a", g₂.covers id' ≠ some (coverOnMap "ann") := by
    intro id' _ hid'
    rcases saves_cases hs₁ with ⟨_, ⟨⟩, h₁, -⟩ | ⟨_, _, ⟨⟩, -⟩
    rcases saves_cases hs₂ with ⟨_, ⟨⟩, -⟩ | ⟨_, c, ⟨⟩, h₂, -⟩
    by_cases hb' : id' = "b"
    · rw [hb', hb] at hid'
      exact coverOfEntry_ne_onMap (Option.some.inj hid')
    · rw [h₂, Function.update_of_ne hb', h₁, Function.update_of_ne hb'] at hid'
      cases hid'
  have hmeets : Meets (OwnObject "ann") sampleGallery
      [(.onMap "b", g₁), (.entryInfo "b", g₂), (.onMap "a", g₃), (.entryInfo "b", g₄)] :=
    ⟨fun _ _ => Option.some_ne_none _ |>.symm, trivial, hothers, trivial, trivial⟩
  have hall := (apart_iff (fun _ => rfl) hrun).mpr hmeets
  exact ⟨g₁, g₂, g₃, g₄, hrun, ⟨hb, hall [_, _] _ _ rfl⟩, ha, hall [_, _, _] _ _ rfl⟩

/-- Two entries of one user, saved on the map one after the other: the cover of the first is
overwritten by that of the second. -/
theorem covers_collide : ∃ g₁ g₂ : Gallery,
    Saves sampleGeocoder "ann" sampleGallery (.onMap "a") g₁ ∧
    Saves sampleGeocoder "ann" g₁ (.onMap "b") g₂ ∧
    (∃ url, g₁.covers "a" = some url ∧ g₁.bucket.lookup url.path = some "red" ∧
      g₂.bucket.lookup url.path = some "blue") ∧
    ¬Apart g₁ "b" g₂ := by
  have hplay : ∃ g₁ ∈ savedOnMap sampleGeocoder sampleAnn sampleGallery "a" "park"
      (sampleUses "red"), ∃ g₂ ∈ savedOnMap sampleGeocoder sampleAnn g₁ "b" "lake"
      (sampleUses "blue"), g₁.covers "a" = some (coverOnMap "ann") ∧
        g₁.bucket.lookup (coverOnMap "ann").path = some "red" ∧
        g₂.bucket.lookup (coverOnMap "ann").path = some "blue" := by
    decide +kernel
  obtain ⟨g₁, hg₁, g₂, hg₂, hcover, hred, hblue⟩ := hplay
  refine ⟨g₁, g₂, saves_of_savedOnMap hg₁, saves_of_savedOnMap hg₂, ⟨_, hcover, hred, hblue⟩,
    fun hapart => ?_⟩
  have hsame := (hapart "a" (by decide) _ hcover).1
  rw [hred, hblue] at hsame
  exact absurd hsame (by decide)

end Wanderlust
