import Wanderlust.Trips.Loading
import Wanderlust.Trips.Objects

/-!
# Two ways to delete an entry

The edit screen deletes an entry with what it has in memory: the document first, and then as many
images as the annotation says (`EditTrip.deleteEntry`). The screen of a trip fetches the entry
again, deletes as many images as its media list is long, and the document last
(`TripInfo.deleteEntry`). When the annotation has been loaded, and its photos have not been edited,
both numbers are the same (`Opening`), and the two ways lead to the same database and the same
objects (`deleteEntry_agree`).
-/

namespace Wanderlust

open Async

/-- The database when `user` has deleted an entry: it is also out of the newsfeeds of the user and
of the followers. -/
def Firestore.dropEntry (db : Firestore) (user : User) (id : EntryID) : Firestore :=
  { db with
    entries := db.entries.erase id
    newsfeed := ((user.followers ++ [user.uid]).map fun u => (u, id)).foldl
      (fun c k => c.erase k) db.newsfeed }

/-- The images of an entry up to a number. -/
def imagesUpTo (uid : Uid) (id : EntryID) (n : ℕ) : Set String :=
  {p | ∃ i ≤ n, p = imagePath uid id i}

namespace EditTrip

/-- The steps by which nothing is saved and the photos of the annotation `r` are not edited: a
press of the save button only presents its alert, and what is edited keeps the photos. -/
def sparing (r : ℕ) (l : EditTrip) (_ : Firestore) : Async.Move Callback TripID Event → Prop
  | .event .saveButtonPressed => l.emptyField = true
  | .event (Event.editAnnotation s form) => s = r → form.images = (l.heap r).images
  | _ => True

instance (r : ℕ) (l : EditTrip) (db : Firestore) : DecidablePred (sparing r l db)
  | .event .viewDidLoad => isTrue trivial
  | .event .viewWillAppear => isTrue trivial
  | .event (Event.addAnnotation _ _) => isTrue trivial
  | .event (Event.editAnnotation s form) =>
    inferInstanceAs (Decidable (s = r → form.images = (l.heap r).images))
  | .event (Event.deleteAnnotation _) => isTrue trivial
  | .event .editOrderButtonPressed => isTrue trivial
  | .event (.moveRowAt _ _) => isTrue trivial
  | .event .orderWillDisappear => isTrue trivial
  | .event (.editTripName _) => isTrue trivial
  | .event (.selectTripCover _) => isTrue trivial
  | .event .saveButtonPressed => inferInstanceAs (Decidable (l.emptyField = true))
  | .event .currentUserFetched => isTrue trivial
  | .deliver _ _ _ => isTrue trivial

/-- The annotation `r` has been made for the entry whose document is `e`; the counter `c` counts its
images. -/
structure Album (db : Firestore) (r c : ℕ) (e : EntryDoc) (x : Direct Firestore EditTrip Callback) :
    Prop where
  doc : db.entries.lookup (x.loc.id r) = some e
  annotation_lt : r < x.loc.next
  counter_lt : c < x.loc.nextCount
  own : ∀ s c' n url, .imageDownloaded s c' n url ∈ x.bag →
    (s = r ∧ c' = c ∧ n = e.mediaList.length) ∨ s ≠ r ∧ c' ≠ c
  counts : x.loc.counts c = (x.loc.heap r).images.length
  pending : (x.loc.heap r).images.length + (pendingImages r x.bag).card ≤ e.mediaList.length
  full : r ∈ x.loc.tempAnnotations → (x.loc.heap r).images.length = e.mediaList.length ∧
    (x.loc.heap r).numPhotos = e.mediaList.length

/-- While the screen loads and is edited, an annotation that has been loaded has as many photos as
the media list of its entry is long. -/
structure Opening (db : Firestore) (r : ℕ) (x : Direct Firestore EditTrip Callback) : Prop where
  store : x.store = db
  bag : ∀ k ∈ x.bag, k.fills = true
  downloads : ∀ s c n url, .imageDownloaded s c n url ∈ x.bag →
    s < x.loc.next ∧ c < x.loc.nextCount
  temp : ∀ s ∈ x.loc.tempAnnotations, s < x.loc.next
  album : (∃ c e, Album db r c e x) ∨
    r ∉ x.loc.tempAnnotations ∧ ∀ s c n url, .imageDownloaded s c n url ∈ x.bag → s ≠ r

/-- The annotation has the same id and the same photos, and `numPhotos` is as before or has been set
to their number. -/
structure SamePhotos (r : ℕ) (l l' : EditTrip) : Prop where
  id : l'.id r = l.id r
  images : (l'.heap r).images = (l.heap r).images
  numPhotos : (l'.heap r).numPhotos = (l.heap r).numPhotos ∨
    (l'.heap r).numPhotos = (l.heap r).images.length

section

variable {db : Firestore} {r c : ℕ} {e : EntryDoc} {x x' : Direct Firestore EditTrip Callback}

theorem tempAnnotations_event {e : Event} {l : EditTrip} {r : EditTrip × List Cmd}
    (h : event e l db = some r) (he : e.presses = false) :
    r.1.tempAnnotations = l.tempAnnotations := by
  cases e with
  | saveButtonPressed => cases he
  | viewWillAppear =>
    simp only [event] at h
    split at h
    · cases h; rfl
    · split at h <;> cases h <;> rfl
  | deleteAnnotation s =>
    simp only [event, deleteAnnotation] at h
    split at h <;> cases h
    split <;> rfl
  | moveRowAt source destination =>
    obtain ⟨rows, -, rfl⟩ := Option.map_eq_some_iff.mp h
    rfl
  | orderWillDisappear =>
    obtain ⟨rows, -, rfl⟩ := Option.map_eq_some_iff.mp h
    rfl
  | currentUserFetched =>
    simp only [event] at h
    split at h <;> cases h <;> rfl
  | editAnnotation s form =>
    simp only [event] at h
    split at h <;> cases h
    rfl
  | editOrderButtonPressed =>
    simp only [event] at h
    split at h <;> cases h
    rfl
  | _ => cases h; rfl

/-- Who has arrived, when an image has. -/
theorem mem_tempAnnotations_imageDownloaded {s n t : ℕ} {image : UIImage} {l : EditTrip} :
    t ∈ (EditTrip.imageDownloaded s c n image l).tempAnnotations ↔
      t ∈ l.tempAnnotations ∨ t = s ∧ l.counts c + 1 = n := by
  simp only [EditTrip.imageDownloaded, counts_count_self, appendAnnotation]
  split
  · rename_i hn
    have hcount : l.counts c + 1 = n := hn
    split
    · simp [hcount, List.mem_insertionSort, EditTrip.count, EditTrip.set]
    · simp [hcount, EditTrip.count, EditTrip.set]
  · rename_i hn
    have hcount : ¬l.counts c + 1 = n := hn
    simp [hcount, EditTrip.count, EditTrip.set]

/-- All else that an image changes. -/
theorem imageDownloaded_heap (s c n : ℕ) (image : UIImage) (l : EditTrip) :
    (EditTrip.imageDownloaded s c n image l).heap = (l.set s { l.heap s with
        images := (l.heap s).images ++ [image]
        numPhotos := (l.heap s).images.length + 1 }).heap ∧
      (EditTrip.imageDownloaded s c n image l).counts = (l.count c).counts ∧
      (EditTrip.imageDownloaded s c n image l).next = l.next ∧
      (EditTrip.imageDownloaded s c n image l).nextCount = l.nextCount := by
  obtain ⟨annotations, temp, list, he⟩ := imageDownloaded_eq s c n image l
  rw [he]
  exact ⟨rfl, rfl, rfl, rfl⟩

theorem samePhotos_set {a : CustomAnnotation} {l : EditTrip} {s : ℕ} (hid : a.entryID = l.id s)
    (himages : a.images = (l.heap s).images) (hphotos : a.numPhotos = (l.heap s).numPhotos) :
    SamePhotos r l (l.set s a) := by
  by_cases hs : r = s
  · subst hs
    refine ⟨?_, ?_, Or.inl ?_⟩ <;> simp only [EditTrip.id, heap_set_self] <;> assumption
  · refine ⟨?_, ?_, Or.inl ?_⟩ <;> simp only [EditTrip.id, heap_set_ne hs]

/-- What the annotation depends on. -/
theorem Album.keep (h : Album db r c e x) (hnext : x.loc.next ≤ x'.loc.next)
    (hnextCount : x.loc.nextCount ≤ x'.loc.nextCount)
    (hcounts : x'.loc.counts c = x.loc.counts c)
    (htemp : r ∈ x'.loc.tempAnnotations → r ∈ x.loc.tempAnnotations)
    (hphotos : SamePhotos r x.loc x'.loc)
    (hbag : ∀ s c' n url, .imageDownloaded s c' n url ∈ x'.bag →
      .imageDownloaded s c' n url ∈ x.bag ∨ s ≠ r ∧ c' ≠ c)
    (hpending : (pendingImages r x'.bag).card ≤ (pendingImages r x.bag).card) :
    Album db r c e x' where
  doc := hphotos.id ▸ h.doc
  annotation_lt := h.annotation_lt.trans_le hnext
  counter_lt := h.counter_lt.trans_le hnextCount
  own s c' n url hmem := (hbag s c' n url hmem).elim (h.own s c' n url) Or.inr
  counts := by rw [hcounts, hphotos.images, h.counts]
  pending := by
    rw [hphotos.images]
    exact (Nat.add_le_add_left hpending _).trans h.pending
  full hr := by
    obtain ⟨hlen, hnum⟩ := h.full (htemp hr)
    rw [hphotos.images]
    exact ⟨hlen, hphotos.numPhotos.elim (fun heq => heq.trans hnum) fun heq => heq.trans hlen⟩

/-- Steps that start no download. -/
theorem Opening.keep (h : Opening db r x) {rest new : Multiset Callback} (hrest : rest ≤ x.bag)
    (hbag : x'.bag = rest + new)
    (hnew : ∀ k ∈ new, k.fills = true ∧ ∀ s c n url, k ≠ .imageDownloaded s c n url)
    (hstore : x'.store = x.store) (hnext : x.loc.next ≤ x'.loc.next)
    (hnextCount : x'.loc.nextCount = x.loc.nextCount) (hcounts : x'.loc.counts = x.loc.counts)
    (htemp : x'.loc.tempAnnotations = x.loc.tempAnnotations)
    (hphotos : r < x.loc.next → SamePhotos r x.loc x'.loc) : Opening db r x' := by
  have hmem : ∀ k ∈ x'.bag, k ∈ x.bag ∨ k ∈ new := by
    intro k hk
    rw [hbag, Multiset.mem_add] at hk
    exact hk.imp_left (Multiset.mem_of_le hrest)
  have hold : ∀ s c n url, .imageDownloaded s c n url ∈ x'.bag →
      .imageDownloaded s c n url ∈ x.bag :=
    fun s c n url hk => (hmem _ hk).resolve_right fun hk => (hnew _ hk).2 s c n url rfl
  constructor
  · exact hstore.trans h.store
  · exact fun k hk => (hmem k hk).elim (h.bag k) fun hk => (hnew k hk).1
  · intro s c n url hk
    obtain ⟨hs, hc⟩ := h.downloads s c n url (hold s c n url hk)
    exact ⟨hs.trans_le hnext, hnextCount ▸ hc⟩
  · rw [htemp]
    exact fun s hs => (h.temp s hs).trans_le hnext
  · rcases h.album with ⟨c, e, halbum⟩ | ⟨hr, hnone⟩
    · have hzero : pendingImages r new = 0 := pendingImages_eq_zero_of fun k hk => by
        cases k with
        | imageDownloaded s c n url => exact absurd rfl ((hnew _ hk).2 s c n url)
        | _ => rfl
      refine Or.inl ⟨c, e, halbum.keep hnext hnextCount.ge (by rw [hcounts])
        (fun hr => htemp ▸ hr) (hphotos halbum.annotation_lt)
        (fun s c' n url hk => Or.inl (hold s c' n url hk)) ?_⟩
      rw [hbag, pendingImages_add, hzero, add_zero]
      exact Multiset.card_le_card (Multiset.filterMap_le_filterMap _ hrest)
    · rw [htemp]
      exact Or.inr ⟨hr, fun s c n url hk => hnone s c n url (hold s c n url hk)⟩

/-- The user does something. -/
theorem Opening.event (h : Opening db r x) {ev : Event} {l : EditTrip × List Cmd}
    (he : EditTrip.event ev x.loc x.store = some l) (ha : sparing r x.loc x.store (.event ev)) :
    Opening db r (program.after l x) := by
  by_cases hpress : ev.presses = true
  · -- the alert
    cases ev with
    | saveButtonPressed =>
      simp only [EditTrip.event] at he
      split at he <;> cases he
      have hempty : x.loc.emptyField = true := ha
      rw [saveButtonPressed, if_pos hempty]
      refine h.keep le_rfl rfl (by simp) rfl le_rfl rfl rfl rfl fun _ => ⟨rfl, rfl, Or.inl rfl⟩
    | _ => cases hpress
  · rw [Bool.not_eq_true] at hpress
    have hrequests := requests_event he hpress
    obtain ⟨hunsaved, hcounts, hnextCount⟩ := undisturbed_event he hpress
    have hstore : (program.after l x).store = x.store :=
      effect_invariant (I := fun db => db = x.store)
        (fun w k hw => by obtain ⟨k, hk⟩ := hrequests _ hw; cases hk) rfl
    have hnew : ∀ k ∈ callbacks l.2, k.fills = true ∧
        ∀ s c n url, k ≠ .imageDownloaded s c n url := by
      intro k hk
      rcases callbacks_event he hpress k hk with ⟨t, rfl⟩ | ⟨t, rfl⟩ | ⟨s, uid, rfl⟩ <;>
        exact ⟨rfl, by simp⟩
    have htemp := tempAnnotations_event he hpress
    rcases heap_event he hpress with ⟨hheap, hnext⟩ | ⟨form, uuid, rfl, hnext, hheap⟩ |
      ⟨s, form, rfl, hset⟩
    · refine h.keep le_rfl rfl hnew hstore hnext.ge hnextCount hcounts htemp fun _ => ?_
      refine ⟨?_, ?_, Or.inl ?_⟩ <;> simp only [Program.after, EditTrip.id, hheap]
    · refine h.keep le_rfl rfl hnew hstore (hnext ▸ Nat.le_succ _) hnextCount hcounts htemp
        fun hr => ?_
      have hsame : l.1.heap r = x.loc.heap r := by
        rw [hheap]
        exact Function.update_of_ne hr.ne _ _
      refine ⟨?_, ?_, Or.inl ?_⟩ <;> simp only [Program.after, EditTrip.id, hsame]
    · have hnext : l.1.next = x.loc.next := by
        rw [hset]
        rfl
      refine h.keep le_rfl rfl hnew hstore hnext.ge hnextCount hcounts htemp fun _ => ?_
      by_cases hs : s = r
      · subst hs
        have hform : form.images = (x.loc.heap s).images := ha rfl
        refine ⟨?_, ?_, Or.inr ?_⟩ <;>
          simp only [Program.after, EditTrip.id, hset, heap_set_self, CustomAnnotation.edit, hform]
      · refine ⟨?_, ?_, Or.inl ?_⟩ <;>
          simp only [Program.after, EditTrip.id, hset, heap_set_ne (Ne.symm hs)]

/-- The document of an entry arrives: a new annotation, with a new counter. -/
theorem Opening.entryFetched (h : Opening db r x) {id : EntryID} {doc : EntryDoc}
    {rest : Multiset Callback} {l : EditTrip × List Cmd} (hb : x.bag = .entryFetched id ::ₘ rest)
    (hdoc : db.entries.lookup id = some doc) (hl : EditTrip.entryFetched id doc x.loc = some l) :
    Opening db r (program.after l { x with bag := rest }) := by
  have hx' : Annotating id doc rest x (program.after l { x with bag := rest }) :=
    annotating_of_entryFetched hl
  generalize program.after l { x with bag := rest } = x' at hx' ⊢
  have hrest : ∀ k ∈ rest, k ∈ x.bag := fun k hk => hb ▸ Multiset.mem_cons_of_mem hk
  have hdownloads : ∀ s c n url, .imageDownloaded s c n url ∈ x'.bag →
      .imageDownloaded s c n url ∈ x.bag ∨
        s = x.loc.next ∧ c = x.loc.nextCount ∧ n = doc.mediaList.length := by
    intro s c n url hk
    rcases hx'.mem_bag hk with hk | ⟨cover, hk⟩ | ⟨url', hk⟩
    · exact Or.inl (hrest _ hk)
    · cases hk
    · cases hk
      exact Or.inr ⟨rfl, rfl, rfl⟩
  have hpending : pendingImages r x'.bag =
      pendingImages r x.bag + if x.loc.next = r then ↑doc.mediaList else 0 := by
    rw [hx'.pendingImages_eq, hb, pendingImages_cons_none rfl]
  constructor
  · exact hx'.store.trans h.store
  · intro k hk
    rcases hx'.mem_bag hk with hk | ⟨cover, rfl⟩ | ⟨url, rfl⟩
    · exact h.bag k (hrest k hk)
    · rfl
    · rfl
  · intro s c n url hk
    rw [hx'.next, hx'.nextCount]
    rcases hdownloads s c n url hk with hk | ⟨rfl, rfl, -⟩
    · obtain ⟨hs, hc⟩ := h.downloads s c n url hk
      exact ⟨hs.trans (Nat.lt_succ_self _), hc.trans (Nat.lt_succ_self _)⟩
    · exact ⟨Nat.lt_succ_self _, Nat.lt_succ_self _⟩
  · rw [hx'.temp, hx'.next]
    exact fun s hs => (h.temp s hs).trans (Nat.lt_succ_self _)
  by_cases hr : r = x.loc.next
  · -- this is the annotation
    subst hr
    have hzero : pendingImages x.loc.next x.bag = 0 := pendingImages_eq_zero_of fun k hk => by
      cases k with
      | imageDownloaded s c n url => exact if_neg (h.downloads s c n url hk).1.ne
      | _ => rfl
    refine Or.inl ⟨x.loc.nextCount, doc, ?_, ?_, ?_, fun s c n url hk => ?_, ?_, ?_, fun hold => ?_⟩
    · rw [hx'.entryID, hdoc]
    · rw [hx'.next]
      exact Nat.lt_succ_self _
    · rw [hx'.nextCount]
      exact Nat.lt_succ_self _
    · rcases hdownloads s c n url hk with hk | hnew
      · obtain ⟨hs, hc⟩ := h.downloads s c n url hk
        exact Or.inr ⟨hs.ne, hc.ne⟩
      · exact Or.inl hnew
    · rw [hx'.images, hx'.count]
      rfl
    · rw [hx'.images, hpending, hzero, if_pos rfl]
      simp
    · rw [hx'.temp] at hold
      exact absurd (h.temp _ hold) (lt_irrefl _)
  · have hsame : x'.loc.heap r = x.loc.heap r := hx'.heap r hr
    rw [if_neg (Ne.symm hr), add_zero] at hpending
    rcases h.album with ⟨c, e, halbum⟩ | ⟨hnot, hnone⟩
    · refine Or.inl ⟨c, e, halbum.keep (hx'.next ▸ Nat.le_succ _)
        (hx'.nextCount ▸ Nat.le_succ _) (hx'.counts c halbum.counter_lt.ne)
        (fun hold => hx'.temp ▸ hold) ⟨?_, ?_, Or.inl ?_⟩ (fun s c' n url hk => ?_) ?_⟩
      · rw [EditTrip.id, hsame]
      · rw [hsame]
      · rw [hsame]
      · refine (hdownloads s c' n url hk).imp_right ?_
        rintro ⟨rfl, rfl, -⟩
        exact ⟨Ne.symm hr, halbum.counter_lt.ne'⟩
      · rw [hpending]
    · refine Or.inr ⟨hx'.temp ▸ hnot, fun s c n url hk => ?_⟩
      rcases hdownloads s c n url hk with hk | ⟨rfl, -, -⟩
      · exact hnone s c n url hk
      · exact Ne.symm hr

/-- An image arrives. -/
theorem Opening.imageDownloaded (h : Opening db r x) {s c' n : ℕ} {url : URL} {image : UIImage}
    {rest : Multiset Callback} (hb : x.bag = .imageDownloaded s c' n url ::ₘ rest) :
    Opening db r (program.after (EditTrip.imageDownloaded s c' n image x.loc, [])
      { x with bag := rest }) := by
  obtain ⟨hheap, hcounts, hnext, hnextCount⟩ := imageDownloaded_heap (c := c') s n image x.loc
  have htemp : ∀ t, t ∈ (EditTrip.imageDownloaded s c' n image x.loc).tempAnnotations ↔
      t ∈ x.loc.tempAnnotations ∨ t = s ∧ x.loc.counts c' + 1 = n :=
    fun t => mem_tempAnnotations_imageDownloaded
  generalize EditTrip.imageDownloaded s c' n image x.loc = l'
    at hheap hcounts hnext hnextCount htemp
  have hafter : program.after (l', []) { x with bag := rest } = ⟨x.store, l', rest⟩ := by
    simp [Program.after]
  have hmem : ∀ k ∈ rest, k ∈ x.bag := fun k hk => hb ▸ Multiset.mem_cons_of_mem hk
  have hs := h.downloads s c' n url (hb ▸ Multiset.mem_cons_self _ _)
  rw [hafter]
  constructor
  · exact h.store
  · exact fun k hk => h.bag k (hmem k hk)
  · rw [hnext, hnextCount]
    exact fun s c n url hk => h.downloads s c n url (hmem _ hk)
  · intro t ht
    rw [hnext]
    rcases (htemp t).mp ht with ht | ⟨rfl, -⟩
    · exact h.temp t ht
    · exact hs.1
  rcases h.album with ⟨c, e, halbum⟩ | ⟨hnot, hnone⟩
  · refine Or.inl ⟨c, e, ?_⟩
    rcases halbum.own s c' n url (hb ▸ Multiset.mem_cons_self _ _) with ⟨rfl, rfl, rfl⟩ | ⟨hsr, hc⟩
    · -- an image of the annotation
      have hpending := halbum.pending
      rw [hb, pendingImages_cons_image, Multiset.card_cons] at hpending
      have hself : (l'.heap s).images = (x.loc.heap s).images ++ [image] ∧
          (l'.heap s).numPhotos = (x.loc.heap s).images.length + 1 ∧ l'.id s = x.loc.id s := by
        rw [EditTrip.id, hheap, heap_set_self]
        exact ⟨rfl, rfl, rfl⟩
      obtain ⟨himages, hphotos, hid⟩ := hself
      have hlen : (l'.heap s).images.length = (x.loc.heap s).images.length + 1 := by
        rw [himages, List.length_append, List.length_singleton]
      refine ⟨hid ▸ halbum.doc, hnext ▸ halbum.annotation_lt, hnextCount ▸ halbum.counter_lt,
        fun s c n url hk => halbum.own s c n url (hmem _ hk), ?_, ?_, fun hr => ?_⟩
      · rw [hcounts, counts_count_self, hlen, halbum.counts]
      · rw [hlen]
        dsimp only
        omega
      · rw [hlen, hphotos]
        rcases (htemp s).mp hr with hold | ⟨-, hlast⟩
        · have hfull := (halbum.full hold).1
          omega
        · have hcount := halbum.counts
          omega
    · have hsame : l'.heap r = x.loc.heap r := by
        rw [hheap]
        exact heap_set_ne (Ne.symm hsr) _ _
      refine halbum.keep hnext.ge hnextCount.ge ?_ (fun hr => ?_) ⟨?_, ?_, Or.inl ?_⟩
        (fun s c n url hk => Or.inl (hmem _ hk)) ?_
      · rw [hcounts, counts_count_ne (Ne.symm hc)]
      · exact ((htemp r).mp hr).resolve_right fun hlast => hsr hlast.1.symm
      · rw [EditTrip.id, hsame]
      · rw [hsame]
      · rw [hsame]
      · rw [hb, pendingImages_cons_other hsr]
  · have hsr : s ≠ r := hnone s c' n url (hb ▸ Multiset.mem_cons_self _ _)
    refine Or.inr ⟨fun hr => ?_, fun s c n url hk => hnone s c n url (hmem _ hk)⟩
    rcases (htemp r).mp hr with hold | ⟨heq, -⟩
    · exact hnot hold
    · exact hsr heq.symm

/-- An answer arrives. -/
theorem Opening.deliver (h : Opening db r x) {k : Callback} {ok : Bool} {a : TripID}
    {rest : Multiset Callback} {l : EditTrip × List Cmd} (hb : x.bag = k ::ₘ rest)
    (hl : react k ok a x.loc x.store = some l) :
    Opening db r (program.after l { x with bag := rest }) := by
  have hrest : rest ≤ x.bag := hb ▸ Multiset.le_cons_self _ _
  have hfills : k.fills = true := h.bag k (hb ▸ Multiset.mem_cons_self _ _)
  -- an answer that only changes what the annotation does not depend on
  have hquiet : ∀ (l' : EditTrip) (cs : List Cmd), (∀ c ∈ cs, ∃ k, c = .request k ∧ k.fills = true ∧
      ∀ s c n url, k ≠ .imageDownloaded s c n url) → l'.next = x.loc.next →
      l'.nextCount = x.loc.nextCount → l'.counts = x.loc.counts →
      l'.tempAnnotations = x.loc.tempAnnotations → SamePhotos r x.loc l' →
      Opening db r (program.after (l', cs) { x with bag := rest }) := by
    intro l' cs hcs hnext hnextCount hcounts htemp hphotos
    refine h.keep hrest rfl (fun k hk => ?_) ?_ hnext.ge hnextCount hcounts htemp
      fun _ => hphotos
    · obtain ⟨c, hc, hck⟩ := mem_callbacks.mp hk
      obtain ⟨k', rfl, hk'⟩ := hcs c hc
      cases hck
      exact hk'
    · exact effect_invariant (I := fun db => db = x.store)
        (fun w k hw => by obtain ⟨k, hk, -⟩ := hcs _ hw; cases hk) rfl
  have hsame : SamePhotos r x.loc x.loc := ⟨rfl, rfl, Or.inl rfl⟩
  cases k with
  | coverDocFetched t =>
    simp only [react] at hl
    split at hl
    · cases hl
      exact hquiet _ _ (by simp) rfl rfl rfl rfl hsame
    · obtain ⟨url, -, rfl⟩ := Option.map_eq_some_iff.mp hl
      exact hquiet _ _ (by simp [Callback.fills]) rfl rfl rfl rfl hsame
  | coverDownloaded url =>
    simp only [react] at hl
    split at hl <;> cases hl
    · exact hquiet _ _ (by simp) rfl rfl rfl rfl hsame
    · exact hquiet _ _ (by simp) rfl rfl rfl rfl ⟨rfl, rfl, Or.inl rfl⟩
  | tripFetched t =>
    simp only [react] at hl
    split at hl <;> cases hl
    · exact hquiet _ _ (by simp) rfl rfl rfl rfl hsame
    · exact hquiet _ _ (by simp [Callback.fills]) rfl rfl rfl rfl
        ⟨rfl, rfl, Or.inl rfl⟩
  | entryCoverDownloaded s url =>
    simp only [react] at hl
    split at hl <;> cases hl
    · exact hquiet _ _ (by simp) rfl rfl rfl rfl hsame
    · exact hquiet _ _ (by simp) rfl rfl rfl rfl (samePhotos_set rfl rfl rfl)
  | usernameFetched s uid =>
    cases hl
    exact hquiet _ _ (by simp) rfl rfl rfl rfl (samePhotos_set rfl rfl rfl)
  | entryFetched id =>
    simp only [react] at hl
    split at hl
    · cases hl
      exact hquiet _ _ (by simp) rfl rfl rfl rfl hsame
    · rename_i doc hdoc
      refine h.entryFetched hb ?_ hl
      rw [← h.store]
      split at hdoc
      · exact hdoc
      · cases hdoc
  | imageDownloaded s c n url =>
    simp only [react] at hl
    split at hl <;> cases hl
    · exact hquiet _ _ (by simp) rfl rfl rfl rfl hsame
    · exact h.imageDownloaded hb
  | _ => cases hfills

theorem Opening.step (h : Opening db r x) {m : Async.Move Callback TripID Event}
    (ha : sparing r x.loc x.store m) (hs : DirectStep program x m x') : Opening db r x' := by
  cases hs with
  | event he => exact h.event he ha
  | deliver hb hr => exact h.deliver hb hr

theorem Opening.start (db : Firestore) (r : ℕ) (me : User) (tripID : Option TripID)
    (bucket : Bucket) (now : Timestamp) :
    Opening db r ⟨db, opened me tripID bucket now, 0⟩ where
  store := rfl
  bag _ hk := absurd hk (Multiset.notMem_zero _)
  downloads _ _ _ _ hk := absurd hk (Multiset.notMem_zero _)
  temp _ hs := absurd hs List.not_mem_nil
  album := Or.inr ⟨List.not_mem_nil, fun _ _ _ _ hk => absurd hk (Multiset.notMem_zero _)⟩

/-- **The number of photos** of an annotation that has been loaded. -/
theorem Opening.numPhotos (h : Opening db r x) (hr : r ∈ x.loc.tempAnnotations) :
    ∃ e, db.entries.lookup (x.loc.id r) = some e ∧
      (x.loc.heap r).numPhotos = e.mediaList.length := by
  obtain ⟨c, e, halbum⟩ := h.album.resolve_right fun hnot => hnot.1 hr
  exact ⟨e, halbum.doc, (halbum.full hr).2⟩

end

/-! ## The deletion on the edit screen -/

/-- The steps by which a deletion goes on: the deletion of an object that is there succeeds. -/
def delivering (l : EditTrip) (_ : Firestore) : Async.Move Callback TripID Event → Prop
  | .event _ => False
  | .deliver k ok _ => ∀ path ∈ k.deleted?, path ∈ l.bucket → ok = true

instance (l : EditTrip) (db : Firestore) : DecidablePred (delivering l db)
  | .event _ => inferInstanceAs (Decidable False)
  | .deliver k ok _ =>
    inferInstanceAs (Decidable (∀ path ∈ k.deleted?, path ∈ l.bucket → ok = true))

/-- The documents are `db`, the objects in `D` are being deleted, and what is left of the loading of
the screen may still be on its way. -/
structure Dropping (db : Firestore) (D : Set String) (b₀ : Bucket)
    (x : Direct Firestore EditTrip Callback) : Prop where
  store : x.store = db
  bag : ∀ k ∈ x.bag, k.fills = true ∨ ∃ path, k = .objectDeleted path
  erasing : Erasing D b₀ x.loc.bucket (toDelete x.bag)

section

variable {db : Firestore} {r : ℕ} {D : Set String} {b₀ : Bucket}
  {x x' : Direct Firestore EditTrip Callback}

theorem fills_react {k : Callback} {ok : Bool} {a : TripID} {l : EditTrip}
    {res : EditTrip × List Cmd} (h : react k ok a l db = some res) (hk : k.fills = true) :
    ∀ k' ∈ callbacks res.2, k'.fills = true := by
  intro k' hk'
  cases leads_react h k' hk' <;> first | rfl | cases hk

/-- What fills the screen deletes nothing. -/
theorem toDelete_of_fills {bag : Multiset Callback} (h : ∀ k ∈ bag, k.fills = true) :
    toDelete bag = ∅ := by
  rw [Set.eq_empty_iff_forall_notMem]
  intro p hp
  cases h _ hp

/-- `deleteEntry` is called. -/
theorem Dropping.start (h : Opening db r x) :
    Dropping (db.dropEntry x.loc.currentUser (x.loc.id r))
      (imagesUpTo x.loc.currentUser.uid (x.loc.id r) (x.loc.heap r).numPhotos)
      x.loc.bucket (program.after (deleteEntry r x.loc) x) where
  store := by
    rw [← h.store]
    exact deleteEntry_effect r x.loc x.store
  bag k hk := by
    rcases Multiset.mem_add.mp hk with hk | hk
    · exact Or.inl (h.bag k hk)
    · exact Or.inr (callbacks_deleteEntry hk)
  erasing := by
    have hdels : toDelete (program.after (deleteEntry r x.loc) x).bag =
        imagesUpTo x.loc.currentUser.uid (x.loc.id r) (x.loc.heap r).numPhotos := by
      ext p
      simp only [Program.after, toDelete_add, toDelete_of_fills h.bag, Set.empty_union,
        toDelete_deleteEntry, imagesUpTo, Set.mem_ofPred_eq]
    rw [hdels]
    exact Erasing.start _ _

/-- One answer. -/
theorem Dropping.step (h : Dropping db D b₀ x) {m : Async.Move Callback TripID Event}
    (ha : delivering x.loc x.store m) (hs : DirectStep program x m x') : Dropping db D b₀ x' := by
  cases hs with
  | event he => exact ha.elim
  | @deliver k ok a rest res hb hreact =>
    have hmem : ∀ k' ∈ rest, k' ∈ x.bag := fun k' hk' => hb ▸ Multiset.mem_cons_of_mem hk'
    rcases h.bag k (hb ▸ Multiset.mem_cons_self _ _) with hk | ⟨path, rfl⟩
    · -- the screen is still being filled
      have hnew := fills_react hreact hk
      have hrequests := requests_react hreact (Callback.writes_of_fills hk)
      constructor
      · refine effect_invariant (I := fun db' => db' = db) (fun w k hw => ?_) h.store
        obtain ⟨k, hk⟩ := hrequests _ hw
        cases hk
      · intro k' hk'
        rcases Multiset.mem_add.mp hk' with hk' | hk'
        · exact h.bag k' (hmem k' hk')
        · exact Or.inl (hnew k' hk')
      · have hold : toDelete x.bag = toDelete rest := by
          rw [hb, ← Multiset.singleton_add, toDelete_add,
            toDelete_of_fills (by simpa using hk), Set.empty_union]
        have herasing := h.erasing
        rw [hold] at herasing
        simp only [Program.after, toDelete_add, toDelete_of_fills hnew, Set.union_empty,
          (unsaved_react hreact hk).bucket]
        exact herasing
    · -- an object
      cases hreact
      have hok : path ∈ x.loc.bucket → ok = true := ha path rfl
      have hsub : ∀ q ∈ toDelete rest, q ∈ toDelete x.bag := fun q hq => hmem _ hq
      have hrest : ∀ q ∈ toDelete x.bag, q = path ∨ q ∈ toDelete rest := by
        intro q hq
        rw [hb] at hq
        simpa [toDelete] using hq
      have herasing := h.erasing.answer (p := path) (hb ▸ Multiset.mem_cons_self _ _) hok hsub hrest
      refine ⟨h.store, fun k' hk' => h.bag k' (hmem k' (by simpa [Program.after] using hk')), ?_⟩
      simp only [Program.after, callbacks_nil, add_zero]
      rwa [apply_ite EditTrip.bucket]

/-- What a deletion leaves behind, and what of the objects. -/
theorem deleteEntry_leaves {st st' : State Firestore EditTrip Write Callback}
    (hopening : Opening db r (program.direct st))
    (h : Reaches program delivering (st.call (deleteEntry r)) st') (hq : Quiescent st') :
    st'.store = db.dropEntry st.loc.currentUser (st.loc.id r) ∧
      Erasing (imagesUpTo st.loc.currentUser.uid (st.loc.id r) (st.loc.heap r).numPhotos)
        st.loc.bucket st'.loc.bucket ∅ := by
  have hstart : Dropping (db.dropEntry st.loc.currentUser (st.loc.id r))
      (imagesUpTo st.loc.currentUser.uid (st.loc.id r) (st.loc.heap r).numPhotos) st.loc.bucket
      (program.direct (st.call (deleteEntry r))) := by
    rw [direct_call]
    exact .start hopening
  have hend := h.invariant (fun x m x' hx ha hs => hx.step ha hs) hstart
  rw [hq.direct] at hend
  have hdels : toDelete (0 : Multiset Callback) = ∅ := toDelete_of_fills (by simp)
  exact ⟨hend.store, hdels ▸ hend.erasing⟩

end

end EditTrip

/-! ## The deletion on the screen of a trip -/

namespace TripInfo

/-- The steps by which a deletion goes on: the entry is fetched, and the deletion of an object that
is there succeeds. -/
def delivering (l : TripInfo) (db : Firestore) (m : Async.Move Callback Unit Event) : Prop :=
  m.event? = none ∧ clearing l db m

instance (l : TripInfo) (db : Firestore) : DecidablePred (delivering l db)
  | .event _ => isFalse fun h => by cases h.1
  | .deliver k ok a => decidable_of_iff (clearing l db (.deliver k ok a))
      ⟨fun h => ⟨rfl, h⟩, fun h => h.2⟩

/-- The user deletes the entry `id` of the store `db`: it is out of the newsfeeds, and is to be
fetched or has been. The objects in `D` are being deleted or will be. -/
structure Dropping (db : Firestore) (id : EntryID) (user : User) (D : Set String) (b₀ : Bucket)
    (x : Direct Firestore TripInfo Callback) : Prop where
  currentUser : x.loc.currentUser = user
  stage : x.bag = {.entryToDeleteFetched id} ∧
      x.store = { db with newsfeed := (db.dropEntry user id).newsfeed } ∨
    (∀ k ∈ x.bag, ∃ path, k = .objectDeleted path) ∧ x.store = db.dropEntry user id
  erasing : Erasing D b₀ x.loc.bucket (toDelete user.uid x)

section

variable {db : Firestore} {id : EntryID} {e : EntryDoc} {user : User} {D : Set String}
  {b₀ : Bucket} {l : TripInfo} {x x' : Direct Firestore TripInfo Callback}

/-- `deleteEntry` is called. -/
theorem Dropping.start (he : db.entries.lookup id = some e) (l : TripInfo) :
    Dropping db id l.currentUser (imagesUpTo l.currentUser.uid id e.mediaList.length) l.bucket
      (program.after (deleteEntry id l) ⟨db, l, 0⟩) := by
  have hbag : (program.after (deleteEntry id l) ⟨db, l, 0⟩).bag = {.entryToDeleteFetched id} := by
    simp [Program.after, deleteEntry, callbacks_map_write]
  have hstore : (program.after (deleteEntry id l) ⟨db, l, 0⟩).store =
      { db with newsfeed := (db.dropEntry l.currentUser id).newsfeed } := by
    simp [Program.after, deleteEntry, effect_deleteFeed, program, Firestore.dropEntry, feeds]
  refine ⟨rfl, Or.inl ⟨hbag, hstore⟩, ?_⟩
  have hdels : toDelete l.currentUser.uid (program.after (deleteEntry id l) ⟨db, l, 0⟩) =
      imagesUpTo l.currentUser.uid id e.mediaList.length := by
    ext p
    simp [toDelete, hbag, hstore, he, imagesUpTo]
  rw [hdels]
  exact Erasing.start _ _

/-- One answer. -/
theorem Dropping.step (he : db.entries.lookup id = some e) (h : Dropping db id user D b₀ x)
    {m : Async.Move Callback Unit Event} (ha : delivering x.loc x.store m)
    (hs : DirectStep program x m x') : Dropping db id user D b₀ x' := by
  cases hs with
  | event _ => cases ha.1
  | @deliver k ok a rest res hb hreact =>
    rcases h.stage with ⟨hbag, hstore⟩ | ⟨hbag, hstore⟩
    · obtain ⟨rfl, rfl⟩ := (Multiset.singleton_eq_cons_iff _).mp (hbag.symm.trans hb)
      have hok : ok = true := ha.2.1
      simp only [program, react, hok, if_true, hstore, he, Option.some.injEq] at hreact
      subst hreact
      have hdels := toDelete_entryToDeleteFetched hb (congrArg User.uid h.currentUser)
        (by rwa [hstore])
      refine ⟨h.currentUser, Or.inr ⟨fun k hk => ?_, ?_⟩, ?_⟩
      · simp only [Program.after, callbacks_entryToDeleteFetched, zero_add, Multiset.mem_coe,
          List.mem_map] at hk
        obtain ⟨index, -, rfl⟩ := hk
        exact ⟨_, rfl⟩
      · refine (effect_entryToDeleteFetched id e x.loc x.store).trans ?_
        rw [hstore]
        rfl
      · rw [hdels]
        exact h.erasing
    · obtain ⟨path, rfl⟩ := hbag k (hb ▸ Multiset.mem_cons_self _ _)
      cases hreact
      have hok : path ∈ x.loc.bucket → ok = true := ha.2.2 path rfl
      have hrest : ∀ k' ∈ rest, ∃ path, k' = .objectDeleted path :=
        fun k' hk' => hbag k' (hb ▸ Multiset.mem_cons_of_mem hk')
      have hdels := mem_toDelete_of_objectDeleted (u := user.uid) hb
      have herasing := h.erasing.answer ((hdels path).mpr (Or.inl rfl)) hok
        (fun q hq => (hdels q).mpr (Or.inr hq)) fun q => (hdels q).mp
      simp only [Program.after, callbacks_nil, add_zero, effect_nil]
      refine ⟨?_, Or.inr ⟨hrest, hstore⟩, ?_⟩
      · dsimp only
        rw [apply_ite TripInfo.currentUser, ite_self]
        exact h.currentUser
      · dsimp only
        rw [apply_ite TripInfo.bucket]
        exact herasing

/-- What a deletion leaves behind, and what of the objects. -/
theorem deleteEntry_leaves {st : State Firestore TripInfo Write Callback}
    (he : db.entries.lookup id = some e)
    (h : Reaches program delivering ((start db l).call (deleteEntry id)) st) (hq : Quiescent st) :
    st.store = db.dropEntry l.currentUser id ∧
      Erasing (imagesUpTo l.currentUser.uid id e.mediaList.length) l.bucket st.loc.bucket ∅ := by
  have hstart : Dropping db id l.currentUser
      (imagesUpTo l.currentUser.uid id e.mediaList.length) l.bucket
      (program.direct ((start db l).call (deleteEntry id))) := by
    rw [direct_call]
    exact .start he l
  have hend := h.invariant (fun x m x' hx ha hs => hx.step he ha hs) hstart
  rw [hq.direct] at hend
  obtain ⟨hbag, -⟩ | ⟨-, hstore⟩ := hend.stage
  · exact absurd hbag.symm (Multiset.singleton_ne_zero _)
  · have hdels : toDelete l.currentUser.uid ⟨st.store, st.loc, 0⟩ = ∅ := by
      simp [toDelete]
    exact ⟨hstore, hdels ▸ hend.erasing⟩

end

end TripInfo

/-! ## One effect -/

/-- **Two ways to delete, one effect**: when an annotation has been loaded and its photos have not
been edited, the deletion on the edit screen and the deletion of its entry on the screen of the trip
lead to the same documents and the same objects. -/
theorem deleteEntry_agree {db : Firestore} {me : User} {tripID : Option TripID} {bucket : Bucket}
    {now : Timestamp} {r : ℕ} {st st₁ : State Firestore EditTrip Write EditTrip.Callback}
    {l : TripInfo} {st₂ : State Firestore TripInfo Write TripInfo.Callback}
    (hopen : Reaches EditTrip.program (EditTrip.sparing r)
      (start db (EditTrip.opened me tripID bucket now)) st)
    (hr : r ∈ st.loc.tempAnnotations) (huser : l.currentUser = st.loc.currentUser)
    (hbucket : l.bucket = st.loc.bucket)
    (h₁ : Reaches EditTrip.program EditTrip.delivering (st.call (EditTrip.deleteEntry r)) st₁)
    (hq₁ : Quiescent st₁)
    (h₂ : Reaches TripInfo.program TripInfo.delivering
      ((start db l).call (TripInfo.deleteEntry (st.loc.id r))) st₂)
    (hq₂ : Quiescent st₂) :
    st₁.store = st₂.store ∧ ∀ path, st₁.loc.bucket.lookup path = st₂.loc.bucket.lookup path := by
  have hopening : EditTrip.Opening db r (EditTrip.program.direct st) :=
    hopen.invariant (fun x m x' hx ha hs => hx.step ha hs) (.start db r me tripID bucket now)
  obtain ⟨e, he, hphotos⟩ := hopening.numPhotos hr
  change db.entries.lookup (st.loc.id r) = some e at he
  change (st.loc.heap r).numPhotos = e.mediaList.length at hphotos
  obtain ⟨hstore₁, herasing₁⟩ := EditTrip.deleteEntry_leaves hopening h₁ hq₁
  obtain ⟨hstore₂, herasing₂⟩ := TripInfo.deleteEntry_leaves he h₂ hq₂
  rw [huser] at hstore₂ herasing₂
  rw [hbucket, ← hphotos] at herasing₂
  exact ⟨hstore₁.trans hstore₂.symm, herasing₁.lookup_eq herasing₂⟩

/-! ## A run -/

/-- A user with a follower. -/
def sampleFollowed : User := { sampleAnn with followers := ["bob"] }

/-- A trip whose entry has one image, and is in the newsfeed of the follower. -/
def sampleTripInFeed : Firestore where
  users := ∅
  trips := (∅ : Collection TripID TripDoc).insert "t"
    { tripName := "t", coverPhoto := none, userID := "ann", timestamp := 0, entries := ["a"] }
  entries := (∅ : Collection EntryID EntryDoc).insert "a"
    (EditTrip.sampleAlbum "a" 0 [⟨imagePath "ann" "a" 0⟩])
  newsfeed := (∅ : Collection (Uid × EntryID) FeedDoc).insert ("bob", "a") ⟨0, "ann"⟩

/-- The screen loads the trip. -/
def sampleOpening : Option (State Firestore EditTrip Write EditTrip.Callback) :=
  exec EditTrip.program (EditTrip.sparing 0)
    [.event .viewWillAppear, .deliver 0 true "", .deliver 0 true "", .deliver 1 true ""]
    (start sampleTripInFeed (EditTrip.opened sampleFollowed (some "t")
      ((∅ : Bucket).insert (imagePath "ann" "a" 0) "x") 0))

/-- The entry is deleted on the edit screen. -/
def sampleDropping (st : State Firestore EditTrip Write EditTrip.Callback) :
    Option (State Firestore EditTrip Write EditTrip.Callback) :=
  exec EditTrip.program EditTrip.delivering
    [.apply, .apply, .apply, .deliver 2 false "", .deliver 1 true "", .deliver 0 false ""]
    (st.call (EditTrip.deleteEntry 0))

/-- The entry is deleted on the screen of the trip. -/
def sampleDroppingThere (st : State Firestore EditTrip Write EditTrip.Callback) :
    Option (State Firestore TripInfo Write TripInfo.Callback) :=
  exec TripInfo.program TripInfo.delivering
    [.apply, .deliver 0 true (), .deliver 1 false (), .apply, .deliver 0 true (), .apply]
    ((start sampleTripInFeed (TripInfo.opened "ann" st.loc.currentUser "t" st.loc.bucket)).call
      (TripInfo.deleteEntry (st.loc.id 0)))

/-- Runs of `deleteEntry_agree`: the entry is gone, and so is its image. -/
theorem deleteEntry_agree_sample :
    ∃ (st₁ : State Firestore EditTrip Write EditTrip.Callback)
      (st₂ : State Firestore TripInfo Write TripInfo.Callback),
      (st₁.store = st₂.store ∧
        ∀ path, st₁.loc.bucket.lookup path = st₂.loc.bucket.lookup path) ∧
      st₁.store.entries.lookup "a" = none ∧ st₁.store.newsfeed.lookup ("bob", "a") = none ∧
      st₁.loc.bucket.lookup (imagePath "ann" "a" 0) = none := by
  have hopens : sampleOpening.isSome ∧ ∀ st ∈ sampleOpening, 0 ∈ st.loc.tempAnnotations ∧
      (sampleDropping st).isSome ∧ (sampleDroppingThere st).isSome ∧
      (∀ st₁ ∈ sampleDropping st, Quiescent st₁ ∧
        st₁.store.entries.lookup "a" = none ∧ st₁.store.newsfeed.lookup ("bob", "a") = none ∧
        st₁.loc.bucket.lookup (imagePath "ann" "a" 0) = none) ∧
      ∀ st₂ ∈ sampleDroppingThere st, Quiescent st₂ := by
    decide +kernel
  obtain ⟨hopened, hall⟩ := hopens
  obtain ⟨st, hst⟩ := Option.isSome_iff_exists.mp hopened
  obtain ⟨htemp, hsome₁, hsome₂, hend₁, hend₂⟩ := hall st hst
  obtain ⟨st₁, hst₁⟩ := Option.isSome_iff_exists.mp hsome₁
  obtain ⟨st₂, hst₂⟩ := Option.isSome_iff_exists.mp hsome₂
  obtain ⟨hq₁, hgone⟩ := hend₁ st₁ hst₁
  exact ⟨st₁, st₂, deleteEntry_agree ⟨_, trace_of_exec hst⟩ htemp rfl rfl
    ⟨_, trace_of_exec hst₁⟩ hq₁ ⟨_, trace_of_exec hst₂⟩ (hend₂ st₂ hst₂), hgone⟩

end Wanderlust
