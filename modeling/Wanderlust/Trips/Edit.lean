import Mathlib.Data.List.Perm.Basic
import Wanderlust.Trips.Save

/-!
# Loading and editing a trip

What happens on the edit screen before the save button is pressed. The screen of a trip waits for
the trip (`Waiting`), then for its entries and their images (`Fetching`), and can be edited when
the list has been filled in (`Editing`); the screen of a new trip can be edited at once.
`Phase.step` follows the three phases through every order of answers, some of which may be
failures, and `Phase.ready` says that a screen that can be edited is ready to be saved.
-/

namespace Wanderlust

open Async

namespace EditTrip

/-- The entries of the trip are all there. -/
def Loaded (l : EditTrip) : Prop := l.entryIds.map List.length = some l.tempAnnotations.length

/-- The screen shows a new trip, or a trip that is fully loaded. -/
def Editable (l : EditTrip) : Prop := l.tripID = none ∨ l.Loaded

instance (l : EditTrip) : Decidable l.Loaded := inferInstanceAs (Decidable (_ = _))

instance (l : EditTrip) : Decidable l.Editable := inferInstanceAs (Decidable (_ ∨ _))

/-- The steps that are considered before the save: whatever happens to the answers, entries are
added, deleted and moved on an empty new trip or on a fully loaded one. New ids are new, and
images can be encoded. -/
def editing (l : EditTrip) (db : Firestore) : Async.Move Callback TripID Event → Prop
  | .event (Event.addAnnotation form uuid) =>
    l.Editable ∧ (∀ image ∈ form.images, image.jpegData.isSome) ∧
      db.entries.lookup uuid = none ∧ ∀ r < l.next, l.id r ≠ uuid
  | .event (Event.editAnnotation _ form) => ∀ image ∈ form.images, image.jpegData.isSome
  | .event (Event.deleteAnnotation _) => l.Editable
  | .event .editOrderButtonPressed => l.Editable
  | .event (.moveRowAt _ _) => l.Editable
  | .event .orderWillDisappear => l.Editable
  | .event .saveButtonPressed => False
  | _ => True

instance (l : EditTrip) (db : Firestore) : DecidablePred (editing l db)
  | .event .viewDidLoad => inferInstanceAs (Decidable True)
  | .event .viewWillAppear => inferInstanceAs (Decidable True)
  | .event (Event.addAnnotation form uuid) => inferInstanceAs (Decidable
      (l.Editable ∧ (∀ image ∈ form.images, image.jpegData.isSome) ∧
        db.entries.lookup uuid = none ∧ ∀ r < l.next, l.id r ≠ uuid))
  | .event (Event.editAnnotation _ form) =>
    inferInstanceAs (Decidable (∀ image ∈ form.images, image.jpegData.isSome))
  | .event (Event.deleteAnnotation _) => inferInstanceAs (Decidable l.Editable)
  | .event .editOrderButtonPressed => inferInstanceAs (Decidable l.Editable)
  | .event (.moveRowAt _ _) => inferInstanceAs (Decidable l.Editable)
  | .event .orderWillDisappear => inferInstanceAs (Decidable l.Editable)
  | .event (.editTripName _) => inferInstanceAs (Decidable True)
  | .event (.selectTripCover _) => inferInstanceAs (Decidable True)
  | .event .saveButtonPressed => inferInstanceAs (Decidable False)
  | .event .currentUserFetched => inferInstanceAs (Decidable True)
  | .deliver _ _ _ => inferInstanceAs (Decidable True)

/-- Answers that nothing but the look of the screen depends on. -/
def Callback.inert : Callback → Bool
  | .coverDocFetched _ => true
  | .coverDownloaded _ => true
  | .entryCoverDownloaded _ _ => true
  | .usernameFetched _ _ => true
  | _ => false

/-- The other callbacks on their way. -/
def active (bag : Multiset Callback) : Multiset Callback := bag.filter fun k => k.inert = false

/-- The annotation, the counter and the number of images that an image is waited for with. -/
def Callback.download : Callback → Option (ℕ × ℕ × ℕ)
  | .imageDownloaded r doneCounter urls _ => some (r, doneCounter, urls)
  | _ => none

/-- The images on their way. -/
def downloads (A : Multiset Callback) : Multiset (ℕ × ℕ × ℕ) := A.filterMap Callback.download

section

variable (db₀ : Firestore) (tripID : Option TripID) (uid : Uid) (lower upper : Set Uid)

/-- What holds of the screen all the time. -/
structure Setting (l : EditTrip) : Prop where
  tripID : l.tripID = tripID
  user : l.user = uid
  uid : l.currentUser.uid = uid
  feeds : Between lower upper l.feeds
  encodable : ∀ r < l.next, ∀ image ∈ (l.heap r).images, image.jpegData.isSome
  inj : ∀ r < l.next, ∀ r' < l.next, l.id r = l.id r' → r = r'
  annotations : ∀ r ∈ l.annotations, r < l.next

/-- Nothing is on the list yet. -/
structure Blank (l : EditTrip) : Prop where
  entryList : l.entryList = []
  deleteList : l.deleteList = []
  orderList : l.orderList = none

/-- The trip has not been fetched. -/
structure Waiting (t : TripID) (l : EditTrip) (A : Multiset Callback) : Prop extends Blank l where
  entryIds : l.entryIds = none
  next : l.next = 0
  tempAnnotations : l.tempAnnotations = []
  bag : A = 0 ∨ A = {.tripFetched t} ∧ l.loadedToEdit = true

/-- The entries of the trip `d` are being fetched. -/
structure Fetching (d : TripDoc) (l : EditTrip) (A : Multiset Callback) : Prop extends Blank l where
  loadedToEdit : l.loadedToEdit = true
  entryIds : l.entryIds = some d.entries
  bag : ∀ k ∈ A, (∃ id, k = .entryFetched id) ∨ ∃ r c n url, k = .imageDownloaded r c n url
  fetch : ∀ id, .entryFetched id ∈ A → id ∈ d.entries ∧ A.count (.entryFetched id) = 1 ∧
    ∀ r < l.next, l.id r ≠ id
  alloc : ∀ r < l.next, l.id r ∈ d.entries
  nodup : l.tempAnnotations.Nodup
  temp : ∀ r ∈ l.tempAnnotations, r < l.next
  short : l.tempAnnotations.length < d.entries.length
  image : ∀ r c n, (r, c, n) ∈ downloads A → r < l.next ∧ c < l.nextCount ∧
    r ∉ l.tempAnnotations ∧ l.counts c + (downloads A).count (r, c, n) ≤ n
  cell : ∀ r c n r' c' n', (r, c, n) ∈ downloads A → (r', c', n') ∈ downloads A →
    (r = r' ∨ c = c') → (r, c, n) = (r', c', n')

/-- The id of an entry that was added on the screen. -/
def IsNew (id : EntryID) : Prop :=
  db₀.entries.lookup id = none ∧
    ∀ t d, tripID = some t → db₀.trips.lookup t = some d → id ∉ d.entries

/-- The screen can be edited. -/
structure Editing (l : EditTrip) (A : Multiset Callback) : Prop where
  bag : A = 0
  loaded : ∀ t, tripID = some t → l.loadedToEdit = true ∧
    ∃ d, db₀.trips.lookup t = some d ∧ l.entryIds = some d.entries ∧
      l.tempAnnotations.length = d.entries.length
  orig : ∀ t d, tripID = some t → db₀.trips.lookup t = some d →
    ∀ id ∈ d.entries, ∃ r < l.next, l.id r = id
  nodup : l.entryList.Nodup
  bound : ∀ r, r ∈ l.entryList ∨ r ∈ l.deleteList → r < l.next
  deleted : ∀ r ∈ l.deleteList, r ∉ l.entryList
  order : ∀ rows, l.orderList = some rows → rows.Nodup ∧ (∀ r ∈ rows, r ∈ l.entryList) ∧
    ∀ r ∈ l.entryList, r ∈ rows ∨ IsNew db₀ tripID (l.id r)
  covered : ∀ r < l.next,
    r ∈ l.entryList ∨ r ∈ l.deleteList ∨ IsNew db₀ tripID (l.id r)

/-- The invariant of the screen. -/
structure Phase (x : Direct Firestore EditTrip Callback) : Prop where
  store : x.store = db₀
  setting : Setting tripID uid lower upper x.loc
  phase : (∃ t, tripID = some t ∧ Waiting t x.loc (active x.bag)) ∨
    (∃ t d, tripID = some t ∧ db₀.trips.lookup t = some d ∧ Fetching d x.loc (active x.bag)) ∨
    Editing db₀ tripID x.loc (active x.bag)

end

/-! ## Steps that only change the look -/

/-- The screens differ only in what no phase depends on. -/
structure Similar (l l' : EditTrip) : Prop where
  tripID : l'.tripID = l.tripID
  user : l'.user = l.user
  next : l'.next = l.next
  entryList : l'.entryList = l.entryList
  deleteList : l'.deleteList = l.deleteList
  annotations : l'.annotations = l.annotations
  orderList : l'.orderList = l.orderList
  loadedToEdit : l'.loadedToEdit = l.loadedToEdit
  entryIds : l'.entryIds = l.entryIds
  tempAnnotations : l'.tempAnnotations = l.tempAnnotations
  counts : l'.counts = l.counts
  nextCount : l'.nextCount = l.nextCount
  id : ∀ r, l'.id r = l.id r
  images : ∀ r, (l'.heap r).images = (l.heap r).images ∨
    ∀ image ∈ (l'.heap r).images, image.jpegData.isSome

section

variable {db₀ : Firestore} {tripID : Option TripID} {uid : Uid} {lower upper : Set Uid}
  {l l' : EditTrip} {A A' : Multiset Callback} {t : TripID} {d : TripDoc}
  {x x' : Direct Firestore EditTrip Callback} {rest bag' : Multiset Callback} {k : Callback}

theorem Similar.refl (l : EditTrip) : Similar l l :=
  ⟨rfl, rfl, rfl, rfl, rfl, rfl, rfl, rfl, rfl, rfl, rfl, rfl, fun _ => rfl, fun _ => Or.inl rfl⟩

theorem id_set {r : ℕ} {a : CustomAnnotation} (hid : a.entryID = l.id r) (r' : ℕ) :
    (l.set r a).id r' = l.id r' := by
  by_cases h : r' = r
  · subst h; simp [EditTrip.id, set, hid]
  · simp [EditTrip.id, set, h]

theorem similar_set {r : ℕ} {a : CustomAnnotation} (hid : a.entryID = l.id r)
    (himg : a.images = (l.heap r).images ∨ ∀ image ∈ a.images, image.jpegData.isSome) :
    Similar l (l.set r a) := by
  refine ⟨rfl, rfl, rfl, rfl, rfl, rfl, rfl, rfl, rfl, rfl, rfl, rfl, id_set hid, fun r' => ?_⟩
  by_cases h : r' = r
  · subst h; simpa [set] using himg
  · simp [set, h]

theorem Setting.similar (h : Setting tripID uid lower upper l) (hs : Similar l l')
    (huid : l'.currentUser.uid = uid) (hfeeds : Between lower upper l'.feeds) :
    Setting tripID uid lower upper l' where
  tripID := hs.tripID.trans h.tripID
  user := hs.user.trans h.user
  uid := huid
  feeds := hfeeds
  encodable r hr image himg := by
    rw [hs.next] at hr
    rcases hs.images r with he | he
    · exact h.encodable r hr image (he ▸ himg)
    · exact he image himg
  inj r hr r' hr' he := by
    rw [hs.next] at hr hr'
    rw [hs.id, hs.id] at he
    exact h.inj r hr r' hr' he
  annotations r hr := by
    rw [hs.annotations] at hr
    rw [hs.next]
    exact h.annotations r hr

theorem Blank.similar (h : Blank l) (hs : Similar l l') : Blank l' :=
  ⟨hs.entryList.trans h.entryList, hs.deleteList.trans h.deleteList,
    hs.orderList.trans h.orderList⟩

theorem Waiting.similar (h : Waiting t l A) (hs : Similar l l') : Waiting t l' A where
  toBlank := h.toBlank.similar hs
  entryIds := hs.entryIds.trans h.entryIds
  next := hs.next.trans h.next
  tempAnnotations := hs.tempAnnotations.trans h.tempAnnotations
  bag := by rw [hs.loadedToEdit]; exact h.bag

theorem Fetching.similar (h : Fetching d l A) (hs : Similar l l') : Fetching d l' A where
  toBlank := h.toBlank.similar hs
  loadedToEdit := hs.loadedToEdit.trans h.loadedToEdit
  entryIds := hs.entryIds.trans h.entryIds
  bag := h.bag
  fetch id hid := by
    simp only [hs.next, hs.id]
    exact h.fetch id hid
  alloc r hr := by
    rw [hs.next] at hr
    rw [hs.id]
    exact h.alloc r hr
  nodup := by rw [hs.tempAnnotations]; exact h.nodup
  temp := by rw [hs.tempAnnotations, hs.next]; exact h.temp
  short := by rw [hs.tempAnnotations]; exact h.short
  image := by
    rw [hs.tempAnnotations, hs.next, hs.nextCount, hs.counts]
    exact h.image
  cell := h.cell

theorem Editing.similar (h : Editing db₀ tripID l A) (hs : Similar l l') :
    Editing db₀ tripID l' A where
  bag := h.bag
  loaded := by rw [hs.loadedToEdit, hs.entryIds, hs.tempAnnotations]; exact h.loaded
  orig t d ht hd id hid := by
    obtain ⟨r, hr, he⟩ := h.orig t d ht hd id hid
    exact ⟨r, by rw [hs.next]; exact hr, by rw [hs.id, he]⟩
  nodup := by rw [hs.entryList]; exact h.nodup
  bound := by rw [hs.entryList, hs.deleteList, hs.next]; exact h.bound
  deleted := by rw [hs.deleteList, hs.entryList]; exact h.deleted
  order rows hrows := by
    rw [hs.orderList] at hrows
    rw [hs.entryList]
    obtain ⟨h₁, h₂, h₃⟩ := h.order rows hrows
    refine ⟨h₁, h₂, fun r hr => ?_⟩
    rw [hs.id]
    exact h₃ r hr
  covered r hr := by
    rw [hs.next] at hr
    rw [hs.entryList, hs.deleteList, hs.id]
    exact h.covered r hr

theorem Phase.similar (h : Phase db₀ tripID uid lower upper x) (hs : Similar x.loc l')
    (huid : l'.currentUser.uid = uid) (hfeeds : Between lower upper l'.feeds)
    (hA : active bag' = active x.bag) : Phase db₀ tripID uid lower upper ⟨x.store, l', bag'⟩ where
  store := h.store
  setting := h.setting.similar hs huid hfeeds
  phase := by
    rw [hA]
    rcases h.phase with ⟨t, ht, h⟩ | ⟨t, d, ht, hd, h⟩ | h
    · exact Or.inl ⟨t, ht, h.similar hs⟩
    · exact Or.inr (Or.inl ⟨t, d, ht, hd, h.similar hs⟩)
    · exact Or.inr (Or.inr (h.similar hs))

/-! ## Loading -/

theorem active_cons_inert (hk : k.inert = true) : active (k ::ₘ rest) = active rest :=
  Multiset.filter_cons_of_neg _ (by simp [hk])

theorem active_cons (hk : k.inert = false) : active (k ::ₘ rest) = k ::ₘ active rest :=
  Multiset.filter_cons_of_pos _ hk

@[simp] theorem active_add (b b' : Multiset Callback) : active (b + b') = active b + active b' :=
  Multiset.filter_add _ _ _

theorem active_eq_zero (h : ∀ k ∈ rest, k.inert = true) : active rest = 0 := by
  rw [active, Multiset.filter_eq_nil]
  intro k hk
  simp [h k hk]

theorem active_eq_self (h : ∀ k ∈ rest, k.inert = false) : active rest = rest :=
  Multiset.filter_eq_self.mpr h

theorem mem_downloads {r c n : ℕ} :
    (r, c, n) ∈ downloads A ↔ ∃ url, .imageDownloaded r c n url ∈ A := by
  simp only [downloads, Multiset.mem_filterMap]
  constructor
  · rintro ⟨k, hk, h⟩
    cases k with
    | imageDownloaded r' c' n' url => cases h; exact ⟨url, hk⟩
    | _ => cases h
  · rintro ⟨url, h⟩
    exact ⟨_, h, rfl⟩

@[simp] theorem downloads_add (A A' : Multiset Callback) :
    downloads (A + A') = downloads A + downloads A' := Multiset.filterMap_add _ _ _

theorem downloads_cons_image (r c n : ℕ) (url : URL) (A : Multiset Callback) :
    downloads (.imageDownloaded r c n url ::ₘ A) = (r, c, n) ::ₘ downloads A :=
  Multiset.filterMap_cons_some _ _ _ rfl

/-- A screen that can be edited has nothing of the loading on its way. -/
theorem Phase.of_editable (h : Phase db₀ tripID uid lower upper x) (he : x.loc.Editable) :
    Editing db₀ tripID x.loc (active x.bag) := by
  have hne : ∀ t, tripID = some t → x.loc.Loaded := by
    intro t ht
    refine he.resolve_left ?_
    rw [h.setting.tripID, ht]
    exact Option.some_ne_none t
  rcases h.phase with ⟨t, ht, hw⟩ | ⟨t, d, ht, -, hf⟩ | h
  · have := hne t ht
    simp [Loaded, hw.entryIds] at this
  · have := hne t ht
    have hshort := hf.short
    simp only [Loaded, hf.entryIds, Option.map_some, Option.some.injEq] at this
    omega
  · exact h

/-- The trip has arrived. -/
theorem Waiting.tripFetched (h : Waiting t l A) (htrip : tripID = some t)
    (hd : db₀.trips.lookup t = some d) (hnd : d.entries.Nodup) (hl : l.loadedToEdit = true)
    (name : String) :
    Fetching d { l with tripName := name, entryIds := some d.entries }
        ↑(d.entries.map Callback.entryFetched) ∨
      Editing db₀ tripID { l with tripName := name, entryIds := some d.entries }
        ↑(d.entries.map Callback.entryFetched) := by
  rcases hempty : d.entries with _ | ⟨id₀, ids₀⟩
  · right
    refine ⟨rfl, fun t' ht' => ⟨hl, d, ?_, by rw [hempty], ?_⟩, fun t' d' ht' hd' id hid => ?_, ?_,
      ?_, ?_, ?_, ?_⟩
    · rw [htrip] at ht'
      rw [← Option.some.inj ht', hd]
    · simp [h.tempAnnotations, hempty]
    · rw [htrip] at ht'
      rw [← Option.some.inj ht', hd] at hd'
      rw [← Option.some.inj hd', hempty] at hid
      cases hid
    · simp [h.entryList]
    · simp [h.entryList, h.deleteList]
    · simp [h.deleteList]
    · simp [h.orderList]
    · simp [h.next]
  · left
    rw [← hempty]
    have hinj : Function.Injective Callback.entryFetched := fun a b h => by cases h; rfl
    refine ⟨⟨h.entryList, h.deleteList, h.orderList⟩, hl, rfl, ?_, ?_, ?_, ?_, ?_, ?_, ?_, ?_⟩
    · intro k hk
      obtain ⟨id, -, rfl⟩ := List.mem_map.mp (Multiset.mem_coe.mp hk)
      exact Or.inl ⟨id, rfl⟩
    · intro id hid
      obtain ⟨id', hid', he⟩ := List.mem_map.mp (Multiset.mem_coe.mp hid)
      cases he
      refine ⟨hid', ?_, by simp [h.next]⟩
      rw [Multiset.coe_count]
      exact List.count_eq_one_of_mem (hnd.map hinj) hid
    · simp [h.next]
    · simp [h.tempAnnotations]
    · simp [h.tempAnnotations]
    · simp [h.tempAnnotations, hempty]
    · intro r c n hr
      obtain ⟨url, hurl⟩ := mem_downloads.mp hr
      obtain ⟨id, -, he⟩ := List.mem_map.mp (Multiset.mem_coe.mp hurl)
      cases he
    · intro r c n r' c' n' hr
      obtain ⟨url, hurl⟩ := mem_downloads.mp hr
      obtain ⟨id, -, he⟩ := List.mem_map.mp (Multiset.mem_coe.mp hurl)
      cases he

/-- An answer that failed. -/
theorem Fetching.drop (h : Fetching d l (k ::ₘ A)) : Fetching d l A := by
  have hle : A ≤ k ::ₘ A := Multiset.le_cons_self A k
  have hdown : downloads A ≤ downloads (k ::ₘ A) := Multiset.filterMap_le_filterMap _ hle
  refine ⟨h.toBlank, h.loadedToEdit, h.entryIds,
    fun k' hk' => h.bag k' (Multiset.mem_of_le hle hk'),
    fun id hid => ?_, h.alloc, h.nodup, h.temp, h.short, fun r c n hr => ?_,
    fun r c n r' c' n' hr hr' => h.cell r c n r' c' n' (Multiset.mem_of_le hdown hr)
      (Multiset.mem_of_le hdown hr')⟩
  · obtain ⟨h₁, h₂, h₃⟩ := h.fetch id (Multiset.mem_of_le hle hid)
    refine ⟨h₁, ?_, h₃⟩
    have := Multiset.count_le_of_le (.entryFetched id) hle
    have := Multiset.count_pos.mpr hid
    omega
  · obtain ⟨h₁, h₂, h₃, h₄⟩ := h.image r c n (Multiset.mem_of_le hdown hr)
    have := Multiset.count_le_of_le (r, c, n) hdown
    exact ⟨h₁, h₂, h₃, by omega⟩

/-- The annotation that is made of a fetched entry. -/
theorem Setting.alloc (h : Setting tripID uid lower upper l) {a : CustomAnnotation}
    (himg : ∀ image ∈ a.images, image.jpegData.isSome) (hid : ∀ r < l.next, l.id r ≠ a.entryID)
    {l' : EditTrip} (htrip : l'.tripID = l.tripID) (huser : l'.user = l.user)
    (hcur : l'.currentUser = l.currentUser) (hheap : l'.heap = Function.update l.heap l.next a)
    (hnext : l'.next = l.next + 1)
    (hann : ∀ r ∈ l'.annotations, r ∈ l.annotations ∨ r = l.next) :
    Setting tripID uid lower upper l' where
  tripID := htrip.trans h.tripID
  user := huser.trans h.user
  uid := by rw [hcur, h.uid]
  feeds := by
    have : l'.feeds = l.feeds := by simp only [EditTrip.feeds, hcur]
    rw [this]
    exact h.feeds
  encodable r hr := by
    rw [hheap]
    by_cases hrn : r = l.next
    · subst hrn
      rw [Function.update_self]
      exact himg
    · rw [Function.update_of_ne hrn]
      exact h.encodable r (by omega)
  inj r hr r' hr' he := by
    simp only [EditTrip.id, hheap] at he
    by_cases hrn : r = l.next <;> by_cases hrn' : r' = l.next
    · rw [hrn, hrn']
    · subst hrn
      rw [Function.update_self, Function.update_of_ne hrn'] at he
      exact absurd he.symm (hid r' (by omega))
    · subst hrn'
      rw [Function.update_self, Function.update_of_ne hrn] at he
      exact absurd he (hid r (by omega))
    · rw [Function.update_of_ne hrn, Function.update_of_ne hrn'] at he
      exact h.inj r (by omega) r' (by omega) he
  annotations r hr := by
    rcases hann r hr with hr | rfl
    · have := h.annotations r hr
      omega
    · omega

theorem id_update {a : CustomAnnotation} {l' : EditTrip}
    (hheap : l'.heap = Function.update l.heap l.next a) {r : ℕ} (hr : r < l.next) :
    l'.id r = l.id r := by
  simp only [EditTrip.id, hheap]
  rw [Function.update_of_ne hr.ne]

/-- An entry has arrived. -/
theorem Fetching.entryFetched {id : EntryID} {doc : EntryDoc}
    (hset : Setting tripID uid lower upper l) (h : Fetching d l (.entryFetched id ::ₘ A))
    {res : EditTrip × List Cmd} (hres : EditTrip.entryFetched id doc l = some res) :
    Setting tripID uid lower upper res.1 ∧ Fetching d res.1 (A + active (callbacks res.2)) := by
  obtain ⟨t, cover, a, -, -, ha, rfl⟩ := entryFetched_eq_some hres
  obtain ⟨hid, hcount, hfresh⟩ := h.fetch id (Multiset.mem_cons_self _ A)
  have hnot : .entryFetched id ∉ A := by
    rw [Multiset.count_cons_self] at hcount
    exact Multiset.count_eq_zero.mp (by omega)
  have hd := h.drop
  have haid : a.entryID = id := by rw [ha]; rfl
  have haimg : a.images = [] := by rw [ha]; rfl
  generalize hl' : ({ (l.newCount.set l.next a) with next := l.next + 1 } : EditTrip) = l'
  have hheap : l'.heap = Function.update l.heap l.next a := by rw [← hl']; rfl
  have hnext : l'.next = l.next + 1 := by rw [← hl']
  have hcell : l'.nextCount = l.nextCount + 1 := by rw [← hl']; rfl
  have hcounts : l'.counts = Function.update l.counts l.nextCount 0 := by rw [← hl']; rfl
  have htemp : l'.tempAnnotations = l.tempAnnotations := by rw [← hl']; rfl
  have hblank : Blank l' := by
    rw [← hl']
    exact ⟨hd.entryList, hd.deleteList, hd.orderList⟩
  have hset' : Setting tripID uid lower upper l' :=
    hset.alloc (by simp [haimg]) (by rw [haid]; exact hfresh) (by rw [← hl']; rfl)
      (by rw [← hl']; rfl) (by rw [← hl']; rfl) hheap hnext fun r hr => by
        rw [← hl'] at hr
        exact Or.inl hr
  have hcs : active (callbacks (.request (.entryCoverDownloaded l.next cover) ::
      doc.mediaList.map fun url => (.request (.imageDownloaded l.next l.nextCount
        doc.mediaList.length url) : Cmd))) =
      ↑(doc.mediaList.map fun url =>
        Callback.imageDownloaded l.next l.nextCount doc.mediaList.length url) := by
    rw [callbacks_request, active_cons_inert rfl, active_eq_self]
    · simp [callbacks, Cmd.callback, Function.comp_def]
    · intro k hk
      obtain ⟨c, hc, hck⟩ := mem_callbacks.mp hk
      obtain ⟨url, -, rfl⟩ := List.mem_map.mp hc
      cases hck
      rfl
  refine ⟨hset', ?_⟩
  dsimp only
  rw [hcs]
  have hmem : ∀ k ∈ (↑(doc.mediaList.map fun url =>
      Callback.imageDownloaded l.next l.nextCount doc.mediaList.length url) : Multiset Callback),
      ∃ url, k = .imageDownloaded l.next l.nextCount doc.mediaList.length url := by
    intro k hk
    obtain ⟨url, -, rfl⟩ := List.mem_map.mp (Multiset.mem_coe.mp hk)
    exact ⟨url, rfl⟩
  have hdown : downloads (↑(doc.mediaList.map fun url =>
      Callback.imageDownloaded l.next l.nextCount doc.mediaList.length url)) =
      Multiset.replicate doc.mediaList.length (l.next, l.nextCount, doc.mediaList.length) := by
    rw [Multiset.eq_replicate]
    constructor
    · simp [downloads, Callback.download]
    · rintro ⟨r, c, n⟩ hr
      obtain ⟨url, hurl⟩ := mem_downloads.mp hr
      obtain ⟨url', he⟩ := hmem _ hurl
      cases he
      rfl
  have hold : ∀ r c n, (r, c, n) ∈ downloads A → r < l.next ∧ c < l.nextCount := fun r c n hr =>
    ⟨(hd.image r c n hr).1, (hd.image r c n hr).2.1⟩
  have hidnext : l'.id l.next = id := by
    simp only [EditTrip.id, hheap, Function.update_self, haid]
  refine ⟨hblank, by rw [← hl']; exact hd.loadedToEdit, by rw [← hl']; exact hd.entryIds,
    fun k hk => ?_, fun id' hid' => ?_, fun r hr => ?_, by rw [htemp]; exact hd.nodup,
    fun r hr => ?_, by rw [htemp]; exact hd.short, fun r c n hr => ?_,
    fun r c n r' c' n' hr hr' he => ?_⟩
  · rcases Multiset.mem_add.mp hk with hk | hk
    · exact hd.bag k hk
    · obtain ⟨url, rfl⟩ := hmem k hk
      exact Or.inr ⟨_, _, _, _, rfl⟩
  · rcases Multiset.mem_add.mp hid' with hid' | hid'
    · obtain ⟨h₁, h₂, h₃⟩ := hd.fetch id' hid'
      refine ⟨h₁, ?_, fun r hr => ?_⟩
      · rw [Multiset.count_add, h₂, Multiset.count_eq_zero.mpr]
        intro hmem'
        obtain ⟨url, he⟩ := hmem _ hmem'
        cases he
      · rw [hnext] at hr
        by_cases hrn : r = l.next
        · rintro rfl
          rw [hrn, hidnext] at hid'
          exact hnot hid'
        · rw [id_update hheap (by omega)]
          exact h₃ r (by omega)
    · obtain ⟨url, he⟩ := hmem _ hid'
      cases he
  · rw [hnext] at hr
    by_cases hrn : r = l.next
    · rw [hrn, hidnext]
      exact hid
    · rw [id_update hheap (by omega)]
      exact hd.alloc r (by omega)
  · rw [htemp] at hr
    have := hd.temp r hr
    omega
  · rw [downloads_add, hdown] at hr ⊢
    rw [hnext, hcell, htemp, hcounts, Multiset.count_add, Multiset.count_replicate]
    rcases Multiset.mem_add.mp hr with hr | hr
    · obtain ⟨h₁, h₂, h₃, h₄⟩ := hd.image r c n hr
      have hne : (l.next, l.nextCount, doc.mediaList.length) ≠ (r, c, n) := fun he => by
        cases he
        omega
      rw [Function.update_of_ne h₂.ne, if_neg hne]
      exact ⟨by omega, by omega, h₃, by omega⟩
    · cases Multiset.eq_of_mem_replicate hr
      have hzero : (downloads A).count (l.next, l.nextCount, doc.mediaList.length) = 0 :=
        Multiset.count_eq_zero.mpr fun hr => (hold _ _ _ hr).1.ne rfl
      rw [Function.update_self, hzero, if_pos rfl]
      exact ⟨by omega, by omega, fun hr => (hd.temp _ hr).ne rfl, by omega⟩
  · rw [downloads_add, hdown] at hr hr'
    rcases Multiset.mem_add.mp hr with hr | hr <;> rcases Multiset.mem_add.mp hr' with hr' | hr'
    · exact hd.cell r c n r' c' n' hr hr' he
    · cases Multiset.eq_of_mem_replicate hr'
      have := hold _ _ _ hr
      omega
    · cases Multiset.eq_of_mem_replicate hr
      have := hold _ _ _ hr'
      omega
    · rw [Multiset.eq_of_mem_replicate hr, Multiset.eq_of_mem_replicate hr']

/-- The last image of an annotation has arrived: it is done, and when it is the last one of the
trip, the list is filled in. -/
theorem Fetching.appendAnnotation {r : ℕ} (htrip : tripID = some t)
    (hd : db₀.trips.lookup t = some d) (hset : Setting tripID uid lower upper l)
    (h : Fetching d l A) (hr : r < l.next) (hrt : r ∉ l.tempAnnotations)
    (hrA : ∀ c n, (r, c, n) ∉ downloads A) :
    Fetching d (EditTrip.appendAnnotation r l) A ∨
      Editing db₀ tripID (EditTrip.appendAnnotation r l) A := by
  have hnodup : (l.tempAnnotations ++ [r]).Nodup := by
    rw [List.nodup_append]
    refine ⟨h.nodup, List.nodup_singleton r, fun a ha b hb => ?_⟩
    rw [List.mem_singleton.mp hb]
    rintro rfl
    exact hrt ha
  have hbound : ∀ r' ∈ l.tempAnnotations ++ [r], r' < l.next := by
    intro r' hr'
    rcases List.mem_append.mp hr' with hr' | hr'
    · exact h.temp r' hr'
    · rw [List.mem_singleton.mp hr']
      exact hr
  simp only [EditTrip.appendAnnotation]
  rw [h.entryIds, Option.map_some]
  split
  · rename_i hlen
    right
    rw [Option.some.injEq] at hlen
    generalize hsort : (l.tempAnnotations ++ [r]).insertionSort
      (fun r r' => (l.heap r).order ≤ (l.heap r').order) = sorted
    have hperm : sorted.Perm (l.tempAnnotations ++ [r]) := by
      rw [← hsort]
      exact List.perm_insertionSort _ _
    -- as many different annotations are done as the trip has entries, so that all are
    have hids : ∀ id ∈ d.entries, ∃ r' ∈ sorted, l.id r' = id := by
      have hmap : ((l.tempAnnotations ++ [r]).map l.id).Nodup := by
        refine hnodup.map_on fun a ha b hb he => ?_
        exact hset.inj a (hbound a ha) b (hbound b hb) he
      have hsub : (l.tempAnnotations ++ [r]).map l.id ⊆ d.entries := by
        intro id hid
        obtain ⟨r', hr', rfl⟩ := List.mem_map.mp hid
        exact h.alloc r' (hbound r' hr')
      have hperm' := (List.subperm_of_subset hmap hsub).perm_of_length_le (by simp [hlen])
      intro id hid
      obtain ⟨r', hr', he⟩ := List.mem_map.mp (hperm'.mem_iff.mpr hid)
      exact ⟨r', hperm.mem_iff.mpr hr', he⟩
    have hall : ∀ r' < l.next, r' ∈ sorted := by
      intro r' hr'
      obtain ⟨r'', hr'', he⟩ := hids _ (h.alloc r' hr')
      have := hset.inj r'' (hbound r'' (hperm.mem_iff.mp hr'')) r' hr' he
      rwa [← this]
    refine ⟨?_, fun t' ht' => ⟨h.loadedToEdit, d, ?_, rfl, ?_⟩,
      fun t' d' ht' hd' id hid => ?_, ?_, ?_, ?_, ?_, ?_⟩
    · rw [Multiset.eq_zero_iff_forall_notMem]
      intro k hk
      rcases h.bag k hk with ⟨id, rfl⟩ | ⟨r', c, n, url, rfl⟩
      · obtain ⟨hid, -, hfresh⟩ := h.fetch id hk
        obtain ⟨r', hr', he⟩ := hids id hid
        exact hfresh r' (hbound r' (hperm.mem_iff.mp hr')) he
      · have hmem := mem_downloads.mpr ⟨url, hk⟩
        obtain ⟨hr', -, hrt', -⟩ := h.image r' c n hmem
        rcases List.mem_append.mp (hperm.mem_iff.mp (hall r' hr')) with hr'' | hr''
        · exact hrt' hr''
        · rw [List.mem_singleton.mp hr''] at hmem
          exact hrA c n hmem
    · rw [htrip] at ht'
      rw [← Option.some.inj ht', hd]
    · dsimp only
      rw [hperm.length_eq, hlen]
    · rw [htrip] at ht'
      rw [← Option.some.inj ht', hd] at hd'
      rw [← Option.some.inj hd'] at hid
      obtain ⟨r', hr', he⟩ := hids id hid
      exact ⟨r', hbound r' (hperm.mem_iff.mp hr'), he⟩
    · exact hperm.nodup_iff.mpr hnodup
    · dsimp only
      rw [h.deleteList]
      rintro r' (hr' | hr')
      · exact hbound r' (hperm.mem_iff.mp hr')
      · simp at hr'
    · simp [h.deleteList]
    · simp [h.orderList]
    · exact fun r' hr' => Or.inl (hall r' hr')
  · rename_i hlen
    left
    have hshort := h.short
    refine ⟨⟨h.entryList, h.deleteList, h.orderList⟩, h.loadedToEdit, rfl, h.bag, h.fetch,
      h.alloc, hnodup, hbound, ?_, fun r' c n hr' => ?_, h.cell⟩
    · dsimp only
      rw [Option.some.injEq, List.length_append, List.length_singleton] at hlen
      rw [List.length_append, List.length_singleton]
      omega
    · obtain ⟨h₁, h₂, h₃, h₄⟩ := h.image r' c n hr'
      refine ⟨h₁, h₂, ?_, h₄⟩
      rw [List.mem_append, List.mem_singleton]
      rintro (hmem | rfl)
      · exact h₃ hmem
      · exact hrA c n hr'

/-- An image has arrived. -/
theorem Fetching.imageDownloaded {r c n : ℕ} {url : URL} (data : String)
    (htrip : tripID = some t) (hd : db₀.trips.lookup t = some d)
    (hset : Setting tripID uid lower upper l)
    (h : Fetching d l (.imageDownloaded r c n url ::ₘ A)) :
    Setting tripID uid lower upper (EditTrip.imageDownloaded r c n (.ofData data) l) ∧
      (Fetching d (EditTrip.imageDownloaded r c n (.ofData data) l) A ∨
        Editing db₀ tripID (EditTrip.imageDownloaded r c n (.ofData data) l) A) := by
  have hmem : (r, c, n) ∈ downloads (.imageDownloaded r c n url ::ₘ A) :=
    mem_downloads.mpr ⟨url, Multiset.mem_cons_self _ _⟩
  have hsub : ∀ {p}, p ∈ downloads A → p ∈ downloads (.imageDownloaded r c n url ::ₘ A) := by
    intro p hp
    rw [downloads_cons_image]
    exact Multiset.mem_cons_of_mem hp
  obtain ⟨hr, hc, hrt, hsum⟩ := h.image r c n hmem
  rw [downloads_cons_image, Multiset.count_cons_self] at hsum
  have hdrop := h.drop
  simp only [EditTrip.imageDownloaded]
  generalize ha : ({ l.heap r with
    images := (l.heap r).images ++ [UIImage.ofData data]
    numPhotos := (l.heap r).images.length + 1 } : CustomAnnotation) = a
  have haimg : a.images = (l.heap r).images ++ [UIImage.ofData data] := by rw [← ha]
  have henc : ∀ image ∈ a.images, image.jpegData.isSome := by
    intro image himage
    rw [haimg, List.mem_append, List.mem_singleton] at himage
    rcases himage with himage | rfl
    · exact hset.encodable r hr image himage
    · rfl
  have hsim : Similar l (l.set r a) := similar_set (by rw [← ha]) (Or.inr henc)
  have hset₁ : Setting tripID uid lower upper (l.set r a) := hset.similar hsim hset.uid hset.feeds
  have h₁ : Fetching d (l.set r a) A := hdrop.similar hsim
  have hset₂ : Setting tripID uid lower upper ((l.set r a).count c) :=
    ⟨hset₁.tripID, hset₁.user, hset₁.uid, hset₁.feeds, hset₁.encodable, hset₁.inj,
      hset₁.annotations⟩
  have hcounts : ((l.set r a).count c).counts c = l.counts c + 1 := by simp [count, set]
  have h₂ : Fetching d ((l.set r a).count c) A := by
    refine ⟨⟨h₁.entryList, h₁.deleteList, h₁.orderList⟩, h₁.loadedToEdit, h₁.entryIds, h₁.bag,
      h₁.fetch, h₁.alloc, h₁.nodup, h₁.temp, h₁.short, fun r' c' n' hr' => ?_, h₁.cell⟩
    obtain ⟨h₃, h₄, h₅, h₆⟩ := h₁.image r' c' n' hr'
    refine ⟨h₃, h₄, h₅, ?_⟩
    by_cases hcc : c' = c
    · subst hcc
      cases h.cell r c' n r' c' n' hmem (hsub hr') (Or.inr rfl)
      rw [hcounts]
      omega
    · have : ((l.set r a).count c).counts c' = (l.set r a).counts c' := by
        simp [count, hcc]
      rw [this]
      exact h₆
  rw [hcounts]
  split
  · rename_i hlast
    have hgone : ∀ c' n', (r, c', n') ∉ downloads A := by
      intro c' n' hr'
      cases h.cell r c n r c' n' hmem (hsub hr') (Or.inl rfl)
      have := Multiset.count_pos.mpr hr'
      omega
    have hset₃ : Setting tripID uid lower upper { (l.set r a).count c with
        annotations := ((l.set r a).count c).annotations ++ [r] } := by
      refine ⟨hset₂.tripID, hset₂.user, hset₂.uid, hset₂.feeds, hset₂.encodable, hset₂.inj,
        fun r' hr' => ?_⟩
      rcases List.mem_append.mp hr' with hr' | hr'
      · exact hset₂.annotations r' hr'
      · rw [List.mem_singleton.mp hr']
        exact hr
    have h₃ : Fetching d { (l.set r a).count c with
        annotations := ((l.set r a).count c).annotations ++ [r] } A :=
      ⟨⟨h₂.entryList, h₂.deleteList, h₂.orderList⟩, h₂.loadedToEdit, h₂.entryIds, h₂.bag, h₂.fetch,
        h₂.alloc, h₂.nodup, h₂.temp, h₂.short, h₂.image, h₂.cell⟩
    refine ⟨?_, h₃.appendAnnotation htrip hd hset₃ hr hrt hgone⟩
    simp only [EditTrip.appendAnnotation]
    split
    · exact ⟨hset₃.tripID, hset₃.user, hset₃.uid, hset₃.feeds, hset₃.encodable, hset₃.inj,
        hset₃.annotations⟩
    · exact ⟨hset₃.tripID, hset₃.user, hset₃.uid, hset₃.feeds, hset₃.encodable, hset₃.inj,
        hset₃.annotations⟩
  · exact ⟨hset₂, Or.inl h₂⟩

/-! ## Editing -/

theorem Editing.addAnnotation (hset : Setting tripID uid lower upper l)
    (h : Editing db₀ tripID l A) {form : EntryForm} {uuid : EntryID}
    (himg : ∀ image ∈ form.images, image.jpegData.isSome) (hnew : db₀.entries.lookup uuid = none)
    (hfresh : ∀ r < l.next, l.id r ≠ uuid) :
    Setting tripID uid lower upper (EditTrip.addAnnotation form uuid l).1 ∧
      Editing db₀ tripID (EditTrip.addAnnotation form uuid l).1 A := by
  generalize hl' : (EditTrip.addAnnotation form uuid l).1 = l'
  have hheap : l'.heap =
      Function.update l.heap l.next (.ofForm form l.entryList.length uuid) := by
    rw [← hl']
    rfl
  have hnext : l'.next = l.next + 1 := by rw [← hl']; rfl
  have hlist : l'.entryList = l.entryList ++ [l.next] := by rw [← hl']; rfl
  have hdel : l'.deleteList = l.deleteList := by rw [← hl']; rfl
  have hord : l'.orderList = l.orderList := by rw [← hl']; rfl
  have hid : l'.id l.next = uuid := by
    simp only [EditTrip.id, hheap, Function.update_self]
    rfl
  have hset' : Setting tripID uid lower upper l' := by
    refine hset.alloc himg hfresh (by rw [← hl']; rfl) (by rw [← hl']; rfl)
      (by rw [← hl']; rfl) hheap hnext fun r hr => ?_
    have hann : l'.annotations = l.annotations ++ [l.next] := by rw [← hl']; rfl
    rw [hann] at hr
    exact (List.mem_append.mp hr).imp_right List.mem_singleton.mp
  have hmem : ∀ {r}, r ∈ l'.entryList ↔ r ∈ l.entryList ∨ r = l.next := by simp [hlist]
  have hlt : ∀ {r}, r ∈ l.entryList ∨ r ∈ l.deleteList → r ≠ l.next := fun hr =>
    (h.bound _ hr).ne
  have hnew' : IsNew db₀ tripID uuid := by
    refine ⟨hnew, fun t d ht hd hmem => ?_⟩
    obtain ⟨r, hr, he⟩ := h.orig t d ht hd uuid hmem
    exact hfresh r hr he
  refine ⟨hset', h.bag, fun t ht => ?_, fun t d ht hd id hid => ?_, ?_, fun r hr => ?_,
    fun r hr hr' => ?_, fun rows hrows => ?_, fun r hr => ?_⟩
  · have := h.loaded t ht
    rw [← hl']
    exact this
  · obtain ⟨r, hr, he⟩ := h.orig t d ht hd id hid
    exact ⟨r, by omega, by rw [id_update hheap hr, he]⟩
  · rw [hlist, List.nodup_append]
    refine ⟨h.nodup, List.nodup_singleton _, fun a ha b hb => ?_⟩
    rw [List.mem_singleton.mp hb]
    exact hlt (Or.inl ha)
  · rw [hmem, hdel] at hr
    rw [hnext]
    rcases hr with (hr | rfl) | hr
    · exact (h.bound r (Or.inl hr)).trans (Nat.lt_succ_self _)
    · exact Nat.lt_succ_self _
    · exact (h.bound r (Or.inr hr)).trans (Nat.lt_succ_self _)
  · rw [hdel] at hr
    rcases hmem.mp hr' with hr' | hr'
    · exact h.deleted r hr hr'
    · exact hlt (Or.inr hr) hr'
  · rw [hord] at hrows
    obtain ⟨h₁, h₂, h₃⟩ := h.order rows hrows
    refine ⟨h₁, fun r hr => hmem.mpr (Or.inl (h₂ r hr)), fun r hr => ?_⟩
    rcases hmem.mp hr with hr | rfl
    · rw [id_update hheap (h.bound r (Or.inl hr))]
      exact h₃ r hr
    · rw [hid]
      exact Or.inr hnew'
  · rw [hmem, hdel]
    rw [hnext] at hr
    by_cases hrn : r = l.next
    · exact Or.inl (Or.inr hrn)
    · rw [id_update hheap (by omega)]
      rcases h.covered r (by omega) with hr | hr | hr
      · exact Or.inl (Or.inl hr)
      · exact Or.inr (Or.inl hr)
      · exact Or.inr (Or.inr hr)

theorem Editing.mem_ids (hset : Setting tripID uid lower upper l) (h : Editing db₀ tripID l A)
    {r : ℕ} (hr : r < l.next) : l.id r ∈ l.ids ↔ r ∈ l.entryList := by
  constructor
  · intro hid
    obtain ⟨r', hr', he⟩ := List.mem_map.mp hid
    rw [← hset.inj r' (h.bound r' (Or.inl hr')) r hr he]
    exact hr'
  · exact fun hr' => List.mem_map_of_mem hr'

/-- What is left of the list without an annotation. -/
theorem Editing.mem_eraseP (hset : Setting tripID uid lower upper l)
    (h : Editing db₀ tripID l A) {r : ℕ} (hr : r < l.next) {r' : ℕ} :
    r' ∈ l.entryList.eraseP (fun e => l.id e = l.id r) ↔ r' ∈ l.entryList ∧ r' ≠ r := by
  constructor
  · intro hr'
    have hmem := List.mem_of_mem_eraseP hr'
    refine ⟨hmem, ?_⟩
    rintro rfl
    obtain ⟨a, l₁, l₂, -, ha, hl, he⟩ := List.exists_of_eraseP
      (p := fun e => decide (l.id e = l.id r')) hmem (by simp)
    have hnd := h.nodup
    have har : a = r' := by
      refine hset.inj a (h.bound a (Or.inl ?_)) r' hr (of_decide_eq_true ha)
      rw [hl]
      simp
    rw [hl, har] at hnd
    rw [he] at hr'
    have := (List.nodup_middle.mp hnd)
    exact (List.nodup_cons.mp this).1 hr'
  · rintro ⟨hmem, hne⟩
    rw [List.mem_eraseP_of_neg]
    · exact hmem
    · simp only [decide_eq_true_eq]
      exact fun he => hne (hset.inj r' (h.bound r' (Or.inl hmem)) r hr he)

theorem Editing.deleteAnnotation (hset : Setting tripID uid lower upper l)
    (h : Editing db₀ tripID l A) {r : ℕ} (hr : r ∈ l.annotations) (hord : l.orderList = none) :
    Setting tripID uid lower upper (EditTrip.deleteAnnotation r l) ∧
      Editing db₀ tripID (EditTrip.deleteAnnotation r l) A ∧
      r ∉ (EditTrip.deleteAnnotation r l).entryList := by
  have hrn := hset.annotations r hr
  have hset' : Setting tripID uid lower upper { l with annotations := l.annotations.erase r } :=
    ⟨hset.tripID, hset.user, hset.uid, hset.feeds, hset.encodable, hset.inj, fun r' hr' =>
      hset.annotations r' (List.mem_of_mem_erase hr')⟩
  simp only [EditTrip.deleteAnnotation]
  split
  · rename_i hid
    have hrl : r ∈ l.entryList := (h.mem_ids hset hrn).mp hid
    have hmem : ∀ {r'}, r' ∈ l.entryList.eraseP (fun e => l.id e = l.id r) ↔
        r' ∈ l.entryList ∧ r' ≠ r := h.mem_eraseP hset hrn
    refine ⟨⟨hset'.tripID, hset'.user, hset'.uid, hset'.feeds, hset'.encodable, hset'.inj,
      hset'.annotations⟩, ⟨h.bag, h.loaded, h.orig, ?_, fun r' hr' => ?_, fun r' hr' hr'' => ?_,
      fun rows hrows => ?_, fun r' hr' => ?_⟩, fun hr' => (hmem.mp hr').2 rfl⟩
    · exact h.nodup.sublist List.eraseP_sublist
    · rcases hr' with hr' | hr'
      · exact h.bound r' (Or.inl (hmem.mp hr').1)
      · rcases List.mem_append.mp hr' with hr' | hr'
        · exact h.bound r' (Or.inr hr')
        · rw [List.mem_singleton.mp hr']
          exact hrn
    · obtain ⟨h₁, h₂⟩ := hmem.mp hr''
      rcases List.mem_append.mp hr' with hr' | hr'
      · exact h.deleted r' hr' h₁
      · exact h₂ (List.mem_singleton.mp hr')
    · have : l.orderList = some rows := hrows
      rw [hord] at this
      cases this
    · rcases h.covered r' hr' with h₁ | h₁ | h₁
      · by_cases hrr : r' = r
        · exact Or.inr (Or.inl (List.mem_append.mpr (Or.inr (List.mem_singleton.mpr hrr))))
        · exact Or.inl (hmem.mpr ⟨h₁, hrr⟩)
      · exact Or.inr (Or.inl (List.mem_append.mpr (Or.inl h₁)))
      · exact Or.inr (Or.inr h₁)
  · rename_i hid
    exact ⟨hset', ⟨h.bag, h.loaded, h.orig, h.nodup, h.bound, h.deleted, h.order, h.covered⟩,
      fun hr' => hid (List.mem_map_of_mem hr')⟩

theorem moveRow_perm {source destination : ℕ} {rows rows' : List ℕ}
    (h : moveRow source destination rows = some rows') : rows'.Perm rows := by
  simp only [moveRow] at h
  split at h
  · cases h
  · rename_i r hr
    obtain ⟨hlt, hget⟩ := List.getElem?_eq_some_iff.mp hr
    split at h
    · rename_i hle
      cases h
      refine (List.perm_insertIdx r _ hle).trans ?_
      rw [← hget]
      exact List.getElem_cons_eraseIdx_perm hlt
    · cases h

/-- The rows of the reorder screen are changed to a rearrangement of them. -/
theorem Editing.setOrder (h : Editing db₀ tripID l A) {rows : List ℕ} (hnd : rows.Nodup)
    (hsub : ∀ r ∈ rows, r ∈ l.entryList)
    (hcov : ∀ r ∈ l.entryList, r ∈ rows ∨ IsNew db₀ tripID (l.id r)) :
    Editing db₀ tripID { l with orderList := some rows } A :=
  ⟨h.bag, h.loaded, h.orig, h.nodup, h.bound, h.deleted,
    fun _ hrows => Option.some.inj hrows ▸ ⟨hnd, hsub, hcov⟩, h.covered⟩

/-- The rows of the reorder screen become the list. -/
theorem Editing.orderWillDisappear (h : Editing db₀ tripID l A) {rows : List ℕ}
    (hrows : l.orderList = some rows) :
    Editing db₀ tripID { l with orderList := none, entryList := rows } A := by
  obtain ⟨hnd, hsub, hcov⟩ := h.order rows hrows
  refine ⟨h.bag, h.loaded, h.orig, hnd, fun r hr => h.bound r (hr.imp_left (hsub r)),
    fun r hr hr' => h.deleted r hr (hsub r hr'), fun _ h => by simp at h, fun r hr => ?_⟩
  rcases h.covered r hr with h₁ | h₁ | h₁
  · exact (hcov r h₁).imp_right Or.inr
  · exact Or.inr (Or.inl h₁)
  · exact Or.inr (Or.inr h₁)

/-! ## One step -/

/-- Code that only changes the look, or that is run by such an answer. -/
theorem Phase.look (h : Phase db₀ tripID uid lower upper x) {cs : List Cmd}
    (hs : Similar x.loc l') (hcur : l'.currentUser = x.loc.currentUser)
    (hcs : effect Write.apply cs x.store = x.store) (hk : ∀ k ∈ callbacks cs, k.inert = true)
    (hrest : active rest = active x.bag) :
    Phase db₀ tripID uid lower upper (program.after (l', cs) { x with bag := rest }) := by
  have hfeeds : l'.feeds = x.loc.feeds := by simp only [EditTrip.feeds, hcur]
  have hA : active (rest + callbacks cs) = active x.bag := by
    rw [active_add, active_eq_zero hk, add_zero, hrest]
  have he : program.after (l', cs) { x with bag := rest } =
      ⟨x.store, l', rest + callbacks cs⟩ := by
    simp only [Program.after]
    congr 1
  rw [he]
  exact h.similar hs (by rw [hcur, h.setting.uid]) (by rw [hfeeds]; exact h.setting.feeds) hA

/-- The code that such an answer runs. -/
theorem react_inert (hk : k.inert = true) {ok : Bool} {newTrip : TripID} {db : Firestore}
    {res : EditTrip × List Cmd} (hres : react k ok newTrip l db = some res) :
    Similar l res.1 ∧ res.1.currentUser = l.currentUser ∧ effect Write.apply res.2 db = db ∧
      ∀ k ∈ callbacks res.2, k.inert = true := by
  cases k with
  | coverDocFetched t =>
    simp only [react] at hres
    split at hres
    · cases hres
      exact ⟨Similar.refl _, rfl, rfl, by simp⟩
    · obtain ⟨url, -, rfl⟩ := Option.map_eq_some_iff.mp hres
      refine ⟨Similar.refl _, rfl, rfl, fun k hk => ?_⟩
      rw [Multiset.mem_singleton.mp hk]
      rfl
  | coverDownloaded url =>
    simp only [react] at hres
    split at hres <;> cases hres
    · exact ⟨Similar.refl _, rfl, rfl, by simp⟩
    · refine ⟨?_, rfl, rfl, by simp⟩
      exact ⟨rfl, rfl, rfl, rfl, rfl, rfl, rfl, rfl, rfl, rfl, rfl, rfl, fun _ => rfl,
        fun _ => Or.inl rfl⟩
  | entryCoverDownloaded r url =>
    simp only [react] at hres
    split at hres <;> cases hres
    · exact ⟨Similar.refl _, rfl, rfl, by simp⟩
    · exact ⟨similar_set rfl (Or.inl rfl), rfl, rfl, by simp⟩
  | usernameFetched r uid =>
    cases hres
    exact ⟨similar_set rfl (Or.inl rfl), rfl, rfl, by simp⟩
  | _ => cases hk

/-- **One step on the edit screen.** -/
theorem Phase.step (h : Phase db₀ tripID uid lower upper x)
    (hnd : ∀ t d, tripID = some t → db₀.trips.lookup t = some d → d.entries.Nodup)
    (hfeeds : ∀ d, db₀.users.lookup uid = some d → Between lower upper (d.followers ++ [uid]))
    {m : Async.Move Callback TripID Event} (ha : editing x.loc x.store m)
    (hstep : DirectStep program x m x') : Phase db₀ tripID uid lower upper x' := by
  have hset := h.setting
  -- a step of an editable screen that ends in an editable screen
  have hedit : ∀ l', Setting tripID uid lower upper l' →
      Editing db₀ tripID l' (active x.bag) →
      Phase db₀ tripID uid lower upper (program.after (l', []) x) := by
    intro l' hs he
    refine ⟨h.store, hs, Or.inr (Or.inr ?_)⟩
    simpa [Program.after] using he
  cases hstep with
  | @event e r he =>
    change event e x.loc x.store = some r at he
    cases e with
    | viewDidLoad =>
      cases he
      refine h.look (Similar.refl _) rfl (effect_map_request _ _ _) (fun k hk => ?_) rfl
      obtain ⟨c, hc, hck⟩ := mem_callbacks.mp hk
      obtain ⟨t, -, rfl⟩ := List.mem_map.mp hc
      cases hck
      rfl
    | viewWillAppear =>
      simp only [event] at he
      split at he
      · cases he
        exact h.look (Similar.refl _) rfl rfl (by simp) rfl
      · rename_i hl
        split at he <;> cases he
        · exact h.look (Similar.refl _) rfl rfl (by simp) rfl
        · rename_i t ht
          refine ⟨h.store, ⟨hset.tripID, hset.user, hset.uid, hset.feeds, hset.encodable, hset.inj,
            hset.annotations⟩, ?_⟩
          rw [hset.tripID] at ht
          rcases h.phase with ⟨t', ht', hw⟩ | ⟨t', d, -, -, hf⟩ | he
          · refine Or.inl ⟨t', ht', ⟨hw.entryList, hw.deleteList, hw.orderList⟩, hw.entryIds,
              hw.next, hw.tempAnnotations, Or.inr ⟨?_, rfl⟩⟩
            rcases hw.bag with hz | ⟨-, hl'⟩
            · rw [ht'] at ht
              cases ht
              simp only [Program.after, active_add, hz, zero_add]
              rfl
            · exact absurd hl' hl
          · exact absurd hf.loadedToEdit hl
          · exact absurd (he.loaded t ht).1 hl
    | addAnnotation form uuid =>
      obtain ⟨hed, himg, hnew, hfresh⟩ := ha
      cases he
      rw [h.store] at hnew
      obtain ⟨hs, he⟩ := Editing.addAnnotation hset (h.of_editable hed) himg hnew hfresh
      refine ⟨h.store, hs, Or.inr (Or.inr ?_)⟩
      change Editing db₀ tripID _ (active (x.bag + {.usernameFetched _ _}))
      have hname : active {Callback.usernameFetched x.loc.next x.loc.currentUser.uid} = 0 :=
        active_eq_zero fun k hk => by
          rw [Multiset.mem_singleton.mp hk]
          rfl
      rw [active_add, hname, add_zero]
      exact he
    | editAnnotation r form =>
      simp only [event] at he
      split at he <;> cases he
      exact h.look (similar_set rfl (Or.inr ha)) rfl rfl (by simp) rfl
    | deleteAnnotation r =>
      simp only [event] at he
      split at he <;> cases he
      rename_i hg
      obtain ⟨hs, he, -⟩ := Editing.deleteAnnotation hset (h.of_editable ha) hg.1 hg.2.1
      exact hedit _ hs he
    | editOrderButtonPressed =>
      simp only [event] at he
      split at he <;> cases he
      refine hedit _ ⟨hset.tripID, hset.user, hset.uid, hset.feeds, hset.encodable, hset.inj,
        hset.annotations⟩ ?_
      exact (h.of_editable ha).setOrder (h.of_editable ha).nodup (fun _ hr => hr)
        fun _ hr => Or.inl hr
    | moveRowAt source destination =>
      obtain ⟨rows', hr, rfl⟩ := Option.map_eq_some_iff.mp he
      obtain ⟨rows, hrows, hmove⟩ := Option.bind_eq_some_iff.mp hr
      have hp := moveRow_perm hmove
      obtain ⟨h₁, h₂, h₃⟩ := (h.of_editable ha).order rows hrows
      refine hedit _ ⟨hset.tripID, hset.user, hset.uid, hset.feeds, hset.encodable, hset.inj,
        hset.annotations⟩ ((h.of_editable ha).setOrder (hp.nodup_iff.mpr h₁) (fun r hr => ?_)
        fun r hr => ?_)
      · exact h₂ r (hp.mem_iff.mp hr)
      · exact (h₃ r hr).imp_left hp.mem_iff.mpr
    | orderWillDisappear =>
      obtain ⟨rows, hrows, rfl⟩ := Option.map_eq_some_iff.mp he
      exact hedit _ ⟨hset.tripID, hset.user, hset.uid, hset.feeds, hset.encodable, hset.inj,
        hset.annotations⟩ ((h.of_editable ha).orderWillDisappear hrows)
    | editTripName name =>
      cases he
      refine h.look ?_ rfl rfl (by simp) rfl
      exact ⟨rfl, rfl, rfl, rfl, rfl, rfl, rfl, rfl, rfl, rfl, rfl, rfl, fun _ => rfl,
        fun _ => Or.inl rfl⟩
    | selectTripCover image =>
      cases he
      refine h.look ?_ rfl rfl (by simp) rfl
      exact ⟨rfl, rfl, rfl, rfl, rfl, rfl, rfl, rfl, rfl, rfl, rfl, rfl, fun _ => rfl,
        fun _ => Or.inl rfl⟩
    | saveButtonPressed => exact ha.elim
    | currentUserFetched =>
      simp only [event] at he
      split at he <;> cases he
      · exact h.look (Similar.refl _) rfl rfl (by simp) rfl
      · rename_i user hu
        obtain ⟨huid, hlookup⟩ := Firestore.fetchUser_eq_some hu
        rw [hset.user, h.store] at hlookup
        have huid' : user.uid = uid := huid.trans hset.user
        have hs : Similar x.loc { x.loc with currentUser := user } :=
          ⟨rfl, rfl, rfl, rfl, rfl, rfl, rfl, rfl, rfl, rfl, rfl, rfl, fun _ => rfl,
            fun _ => Or.inl rfl⟩
        have hfeeds' : Between lower upper { x.loc with currentUser := user }.feeds := by
          simp only [EditTrip.feeds]
          rw [huid']
          exact hfeeds _ hlookup
        have := h.similar hs huid' hfeeds' (rfl : active x.bag = active x.bag)
        simpa [Program.after] using this
  | @deliver k ok newTrip rest res hb hres =>
    change react k ok newTrip x.loc x.store = some res at hres
    by_cases hk : k.inert = true
    · obtain ⟨hs, hcur, hcs, hks⟩ := react_inert hk hres
      exact h.look hs hcur hcs hks (by rw [hb, active_cons_inert hk])
    · have hbag : active x.bag = k ::ₘ active rest := by
        rw [hb, active_cons (by simpa using hk)]
      have hmem : k ∈ active x.bag := hbag ▸ Multiset.mem_cons_self _ _
      rcases h.phase with ⟨t, ht, hw⟩ | ⟨t, d, ht, hd, hf⟩ | hed
      · rcases hw.bag with hz | ⟨hz, hl⟩
        · simp [hz] at hmem
        obtain rfl : k = .tripFetched t := by rwa [hz, Multiset.mem_singleton] at hmem
        have hrest : active rest = 0 := by
          rw [hz, ← Multiset.cons_zero, Multiset.cons_inj_right] at hbag
          exact hbag.symm
        simp only [react] at hres
        split at hres <;> cases hres
        · refine ⟨h.store, hset, Or.inl ⟨t, ht, hw.toBlank, hw.entryIds, hw.next,
            hw.tempAnnotations, Or.inl ?_⟩⟩
          simpa [Program.after] using hrest
        · rename_i d hd
          rw [h.store] at hd
          have hd' : db₀.trips.lookup t = some d := by
            cases ok
            · cases hd
            · exact hd
          have hA : active (rest + callbacks (d.entries.map fun id =>
              (.request (.entryFetched id) : Cmd))) =
              ↑(d.entries.map Callback.entryFetched) := by
            rw [active_add, hrest, zero_add, active_eq_self]
            · simp [callbacks, Cmd.callback, Function.comp_def]
            · intro k hk
              obtain ⟨c, hc, hck⟩ := mem_callbacks.mp hk
              obtain ⟨id, -, rfl⟩ := List.mem_map.mp hc
              cases hck
              rfl
          refine ⟨?_, ⟨hset.tripID, hset.user, hset.uid, hset.feeds, hset.encodable, hset.inj,
            hset.annotations⟩, ?_⟩
          · exact (effect_map_request Callback.entryFetched d.entries x.store).trans h.store
          · simp only [Program.after, loadEntryData]
            rw [hA]
            rcases hw.tripFetched ht hd' (hnd t d ht hd') hl d.tripName with hf | he
            · exact Or.inr (Or.inl ⟨t, d, ht, hd', hf⟩)
            · exact Or.inr (Or.inr he)
      · rw [hbag] at hf
        have hdrop : Phase db₀ tripID uid lower upper
            (program.after (x.loc, []) { x with bag := rest }) := by
          refine ⟨h.store, hset, Or.inr (Or.inl ⟨t, d, ht, hd, ?_⟩)⟩
          simpa [Program.after] using hf.drop
        rcases hf.bag k (Multiset.mem_cons_self _ _) with ⟨id, rfl⟩ | ⟨r, c, n, url, rfl⟩
        · simp only [react] at hres
          split at hres
          · cases hres
            exact hdrop
          · obtain ⟨hs, hf'⟩ := hf.entryFetched hset hres
            refine ⟨?_, hs, Or.inr (Or.inl ⟨t, d, ht, hd, ?_⟩)⟩
            · obtain ⟨t', cover, a, -, -, -, rfl⟩ := entryFetched_eq_some hres
              simp only [Program.after, program, effect_request]
              rw [effect_map_request]
              exact h.store
            · simp only [Program.after, active_add]
              exact hf'
        · simp only [react] at hres
          split at hres <;> cases hres
          · exact hdrop
          · rename_i data _
            obtain ⟨hs, hf'⟩ := hf.imageDownloaded data ht hd hset
            refine ⟨h.store, hs, ?_⟩
            simp only [Program.after, callbacks_nil, add_zero]
            rcases hf' with hf' | he
            · exact Or.inr (Or.inl ⟨t, d, ht, hd, hf'⟩)
            · exact Or.inr (Or.inr he)
      · rw [hed.bag] at hmem
        exact absurd hmem (Multiset.notMem_zero _)

/-- The screen before its view is loaded. -/
theorem Phase.opened {currentUser : User} (bucket : Bucket) (now : Timestamp)
    (hfeeds : Between lower upper (currentUser.followers ++ [currentUser.uid])) :
    Phase db₀ tripID currentUser.uid lower upper
      ⟨db₀, EditTrip.opened currentUser tripID bucket now, 0⟩ := by
  refine ⟨rfl, ⟨rfl, rfl, rfl, hfeeds, ?_, ?_, ?_⟩, ?_⟩
  · simp [EditTrip.opened]
  · simp [EditTrip.opened]
  · simp [EditTrip.opened]
  · rcases tripID with _ | t
    · refine Or.inr (Or.inr ⟨rfl, by simp, by simp, by simp [EditTrip.opened],
        by simp [EditTrip.opened], by simp [EditTrip.opened], by simp [EditTrip.opened],
        by simp [EditTrip.opened]⟩)
    · exact Or.inl ⟨t, rfl, ⟨rfl, rfl, rfl⟩, rfl, rfl, rfl, Or.inl rfl⟩

/-- A screen that can be edited is ready to be saved. -/
theorem Phase.ready (h : Phase db₀ tripID uid lower upper x) (he : x.loc.Editable)
    (huser : ∃ userData, db₀.users.lookup uid = some userData ∧
      Between lower upper (userData.followers ++ [uid]))
    (hne : x.loc.emptyField = false) : Ready x.loc db₀ lower upper := by
  have hset := h.setting
  have hed := h.of_editable he
  refine ⟨?_, ?_, fun r hr => ?_, fun r hr => ?_, hset.uid.trans hset.user.symm,
    by rw [hset.user]; exact huser, hset.feeds, fun t ht => ?_⟩
  · refine hed.nodup.map_on fun a ha b hb he => ?_
    exact hset.inj a (hed.bound a (Or.inl ha)) b (hed.bound b (Or.inl hb)) he
  · intro hnil
    simp [emptyField, hnil] at hne
  · rw [hed.mem_ids hset (hed.bound r (Or.inr hr))]
    exact hed.deleted r hr
  · exact hset.encodable r (hed.bound r (Or.inl hr))
  · rw [hset.tripID] at ht
    obtain ⟨-, d, hd, -⟩ := hed.loaded t ht
    exact ⟨d, hd⟩

/-- Of the loading, nothing that a save could meet is on its way. -/
theorem Phase.bag_fits (h : Phase db₀ tripID uid lower upper x) (he : x.loc.Editable) :
    ∀ k ∈ x.bag, k.Fits x.loc x.loc.tripID ∧ k.token = none := by
  intro k hk
  have hbag := (h.of_editable he).bag
  have hinert : k.inert = true := by
    by_contra hne
    have : k ∈ active x.bag := Multiset.mem_filter.mpr ⟨hk, by simpa using hne⟩
    rw [hbag] at this
    exact Multiset.notMem_zero _ this
  cases k with
  | coverDocFetched t => exact ⟨trivial, rfl⟩
  | coverDownloaded url => exact ⟨trivial, rfl⟩
  | entryCoverDownloaded r url => exact ⟨trivial, rfl⟩
  | usernameFetched r uid => exact ⟨trivial, rfl⟩
  | _ => cases hinert

/-! ## What the user did -/

/-- The actions that add and delete entries. -/
def Event.isEdit : Event → Bool
  | Event.addAnnotation _ _ => true
  | Event.deleteAnnotation _ => true
  | _ => false

/-- How the screen reflects the user's actions. -/
structure History (db₀ : Firestore) (tripID : Option TripID) (es : List Event) (l : EditTrip) :
    Prop where
  deleted : ∀ r, Event.deleteAnnotation r ∈ es → r < l.next ∧ r ∉ l.entryList
  listed : ∀ r ∈ l.deleteList, Event.deleteAnnotation r ∈ es
  origin : ∀ r < l.next,
    (∃ t d, tripID = some t ∧ db₀.trips.lookup t = some d ∧ l.id r ∈ d.entries) ∨
      ∃ form, Event.addAnnotation form (l.id r) ∈ es
  early : ¬ l.Editable → ∀ e ∈ es, e.isEdit = false

variable {es es' : List Event}

/-- Steps that neither add nor delete. -/
theorem History.keep (h : History db₀ tripID es l)
    (hlist : ∀ r ∈ l'.entryList, r ∈ l.entryList) (hdel : l'.deleteList = l.deleteList)
    (hnext : l'.next = l.next) (hid : ∀ r, l'.id r = l.id r)
    (hed : l.Editable → l'.Editable) (hes : ∀ e ∈ es', e ∈ es ∨ e.isEdit = false)
    (hes' : ∀ e ∈ es, e ∈ es') : History db₀ tripID es' l' where
  deleted r hr := by
    obtain ⟨h₁, h₂⟩ := h.deleted r ((hes _ hr).resolve_right (by simp [Event.isEdit]))
    exact ⟨by rw [hnext]; exact h₁, fun hmem => h₂ (hlist r hmem)⟩
  listed r hr := by
    rw [hdel] at hr
    exact hes' _ (h.listed r hr)
  origin r hr := by
    rw [hnext] at hr
    rw [hid]
    exact (h.origin r hr).imp_right fun ⟨form, hform⟩ => ⟨form, hes' _ hform⟩
  early hne e he := (hes e he).elim (h.early (mt hed hne) e) fun h => h

theorem Similar.editable (hs : Similar l l') (h : l.Editable) : l'.Editable := by
  simp only [Editable, Loaded, hs.tripID, hs.entryIds, hs.tempAnnotations]
  exact h

theorem History.similar (h : History db₀ tripID es l) (hs : Similar l l') (e? : Option Event)
    (he : ∀ e, e? = some e → e.isEdit = false) : History db₀ tripID (es ++ e?.toList) l' := by
  refine h.keep (fun r hr => by rwa [hs.entryList] at hr) hs.deleteList hs.next hs.id hs.editable
    (fun e hmem => ?_) fun e hmem => List.mem_append_left _ hmem
  rcases List.mem_append.mp hmem with hmem | hmem
  · exact Or.inl hmem
  · exact Or.inr (he e (Option.mem_toList.mp hmem))

theorem History.addAnnotation (h : History db₀ tripID es l) (form : EntryForm)
    (uuid : EntryID) (he : l.Editable) :
    History db₀ tripID (es ++ [Event.addAnnotation form uuid])
      (EditTrip.addAnnotation form uuid l).1 := by
  generalize hl' : (EditTrip.addAnnotation form uuid l).1 = l'
  have hheap : l'.heap =
      Function.update l.heap l.next (.ofForm form l.entryList.length uuid) := by
    rw [← hl']
    rfl
  have hnext : l'.next = l.next + 1 := by rw [← hl']; rfl
  have hlist : l'.entryList = l.entryList ++ [l.next] := by rw [← hl']; rfl
  have hid : l'.id l.next = uuid := by
    simp only [EditTrip.id, hheap, Function.update_self]
    rfl
  refine ⟨fun r hr => ?_, fun r hr => ?_, fun r hr => ?_, fun hne => ?_⟩
  · obtain ⟨h₁, h₂⟩ := h.deleted r (by simpa using hr)
    refine ⟨by omega, ?_⟩
    rw [hlist, List.mem_append, List.mem_singleton]
    rintro (hmem | rfl)
    · exact h₂ hmem
    · omega
  · have hdel : l'.deleteList = l.deleteList := by rw [← hl']; rfl
    rw [hdel] at hr
    exact List.mem_append_left _ (h.listed r hr)
  · by_cases hrn : r = l.next
    · rw [hrn, hid]
      exact Or.inr ⟨form, by simp⟩
    · rw [id_update hheap (by omega)]
      exact (h.origin r (by omega)).imp_right fun ⟨form, hform⟩ =>
        ⟨form, List.mem_append_left _ hform⟩
  · refine absurd ?_ hne
    rw [← hl']
    exact he

theorem History.deleteAnnotation (hset : Setting tripID uid lower upper l)
    (hed : Editing db₀ tripID l A) (h : History db₀ tripID es l) {r : ℕ}
    (hr : r ∈ l.annotations) (he : l.Editable) :
    History db₀ tripID (es ++ [Event.deleteAnnotation r]) (EditTrip.deleteAnnotation r l) := by
  have hrn := hset.annotations r hr
  have hmem : ∀ r' ∈ (EditTrip.deleteAnnotation r l).entryList, r' ∈ l.entryList ∧ r' ≠ r := by
    intro r' hr'
    simp only [EditTrip.deleteAnnotation] at hr'
    split at hr'
    · exact (hed.mem_eraseP hset hrn).mp hr'
    · rename_i hid
      refine ⟨hr', ?_⟩
      rintro rfl
      exact hid (List.mem_map_of_mem hr')
  have hdel : ∀ r' ∈ (EditTrip.deleteAnnotation r l).deleteList, r' ∈ l.deleteList ∨ r' = r := by
    intro r' hr'
    simp only [EditTrip.deleteAnnotation] at hr'
    split at hr'
    · exact (List.mem_append.mp hr').imp_right List.mem_singleton.mp
    · exact Or.inl hr'
  have hsame : (EditTrip.deleteAnnotation r l).next = l.next ∧
      (EditTrip.deleteAnnotation r l).heap = l.heap ∧
      (EditTrip.deleteAnnotation r l).Editable := by
    simp only [EditTrip.deleteAnnotation]
    split <;> exact ⟨rfl, rfl, he⟩
  obtain ⟨hnext, hheap, he'⟩ := hsame
  refine ⟨fun r' hr' => ?_, fun r' hr' => ?_, fun r' hr' => ?_, fun hne => absurd he' hne⟩
  · rw [hnext]
    rcases List.mem_append.mp hr' with hr' | hr'
    · obtain ⟨h₁, h₂⟩ := h.deleted r' hr'
      exact ⟨h₁, fun hmem' => h₂ (hmem r' hmem').1⟩
    · obtain rfl : r' = r := by simpa using hr'
      exact ⟨hrn, fun hmem' => (hmem r' hmem').2 rfl⟩
  · rcases hdel r' hr' with hr' | rfl
    · exact List.mem_append_left _ (h.listed r' hr')
    · simp
  · rw [hnext] at hr'
    simp only [EditTrip.id, hheap]
    exact (h.origin r' hr').imp_right fun ⟨form, hform⟩ => ⟨form, List.mem_append_left _ hform⟩

theorem imageDownloaded_same (r c n : ℕ) (image : UIImage) (l : EditTrip) :
    (EditTrip.imageDownloaded r c n image l).deleteList = l.deleteList ∧
      (EditTrip.imageDownloaded r c n image l).next = l.next ∧
      ∀ r', (EditTrip.imageDownloaded r c n image l).id r' = l.id r' := by
  obtain ⟨annotations, temp, list, he⟩ := imageDownloaded_eq r c n image l
  rw [he]
  exact ⟨rfl, rfl, id_set rfl⟩

/-- Answers to the loading. -/
theorem History.load (h : History db₀ tripID es l) (hne : ¬ l.Editable)
    (hdel : l'.deleteList = [])
    (hnext : ∀ r < l'.next, (r < l.next ∧ l'.id r = l.id r) ∨
      ∃ t d, tripID = some t ∧ db₀.trips.lookup t = some d ∧ l'.id r ∈ d.entries) :
    History db₀ tripID es l' where
  deleted r hr := absurd (h.early hne _ hr) (by simp [Event.isEdit])
  listed r hr := by simp [hdel] at hr
  origin r hr := by
    rcases hnext r hr with ⟨h₁, h₂⟩ | h₁
    · rw [h₂]
      exact h.origin r h₁
    · exact Or.inl h₁
  early _ := h.early hne

/-- **One step of the history.** -/
theorem History.step (hp : Phase db₀ tripID uid lower upper x) (h : History db₀ tripID es x.loc)
    {m : Async.Move Callback TripID Event} (ha : editing x.loc x.store m)
    (hstep : DirectStep program x m x') :
    History db₀ tripID (es ++ m.event?.toList) x'.loc := by
  have hset := hp.setting
  -- an action that leaves the entries and their ids alone
  have hkeep : ∀ (e : Event) (l' : EditTrip), e.isEdit = false →
      (∀ r ∈ l'.entryList, r ∈ x.loc.entryList) → l'.deleteList = x.loc.deleteList →
      l'.next = x.loc.next → (∀ r, l'.id r = x.loc.id r) →
      (x.loc.Editable → l'.Editable) → History db₀ tripID (es ++ [e]) l' := by
    intro e l' he h₁ h₂ h₃ h₄ h₅
    refine h.keep h₁ h₂ h₃ h₄ h₅ (fun e' hmem => ?_) fun e' hmem => List.mem_append_left _ hmem
    rcases List.mem_append.mp hmem with hmem | hmem
    · exact Or.inl hmem
    · rw [List.mem_singleton.mp hmem]
      exact Or.inr he
  cases hstep with
  | @event e r he =>
    change event e x.loc x.store = some r at he
    change History db₀ tripID (es ++ [e]) r.1
    cases e with
    | viewDidLoad =>
      cases he
      exact hkeep _ _ rfl (fun _ hr => hr) rfl rfl (fun _ => rfl) fun he => he
    | viewWillAppear =>
      simp only [event] at he
      split at he
      · cases he
        exact hkeep _ _ rfl (fun _ hr => hr) rfl rfl (fun _ => rfl) fun he => he
      · split at he <;> cases he <;>
          exact hkeep _ _ rfl (fun _ hr => hr) rfl rfl (fun _ => rfl) fun he => he
    | addAnnotation form uuid =>
      cases he
      exact h.addAnnotation form uuid ha.1
    | editAnnotation r form =>
      simp only [event] at he
      split at he <;> cases he
      have hs : Similar x.loc (x.loc.set r ((x.loc.heap r).edit form)) :=
        similar_set rfl (Or.inr ha)
      exact hkeep _ _ rfl (fun _ hr => hr) rfl rfl hs.id hs.editable
    | deleteAnnotation r =>
      simp only [event] at he
      split at he <;> cases he
      rename_i hg
      exact h.deleteAnnotation hset (hp.of_editable ha) hg.1 ha
    | editOrderButtonPressed =>
      simp only [event] at he
      split at he <;> cases he
      exact hkeep _ _ rfl (fun _ hr => hr) rfl rfl (fun _ => rfl) fun he => he
    | moveRowAt source destination =>
      obtain ⟨rows, -, rfl⟩ := Option.map_eq_some_iff.mp he
      exact hkeep _ _ rfl (fun _ hr => hr) rfl rfl (fun _ => rfl) fun he => he
    | orderWillDisappear =>
      obtain ⟨rows, hrows, rfl⟩ := Option.map_eq_some_iff.mp he
      refine hkeep _ _ rfl ?_ rfl rfl (fun _ => rfl) fun he => he
      exact ((hp.of_editable ha).order rows hrows).2.1
    | editTripName name =>
      cases he
      exact hkeep _ _ rfl (fun _ hr => hr) rfl rfl (fun _ => rfl) fun he => he
    | selectTripCover image =>
      cases he
      exact hkeep _ _ rfl (fun _ hr => hr) rfl rfl (fun _ => rfl) fun he => he
    | saveButtonPressed => exact ha.elim
    | currentUserFetched =>
      simp only [event] at he
      split at he <;> cases he <;>
        exact hkeep _ _ rfl (fun _ hr => hr) rfl rfl (fun _ => rfl) fun he => he
  | @deliver k ok newTrip rest res hb hres =>
    change react k ok newTrip x.loc x.store = some res at hres
    by_cases hk : k.inert = true
    · exact h.similar (react_inert hk hres).1 none (by simp)
    · have hmem : k ∈ active x.bag :=
        Multiset.mem_filter.mpr ⟨hb ▸ Multiset.mem_cons_self _ _, by simpa using hk⟩
      have hne : ¬ x.loc.Editable := fun he => by
        rw [(hp.of_editable he).bag] at hmem
        exact Multiset.notMem_zero _ hmem
      change History db₀ tripID (es ++ []) res.1
      rw [List.append_nil]
      rcases hp.phase with ⟨t, ht, hw⟩ | ⟨t, d, ht, hd, hf⟩ | hed
      · rcases hw.bag with hz | ⟨hz, hl⟩
        · simp [hz] at hmem
        obtain rfl : k = .tripFetched t := by rwa [hz, Multiset.mem_singleton] at hmem
        simp only [react] at hres
        split at hres <;> cases hres
        · exact h
        · exact h.load hne hw.deleteList fun r hr => Or.inl ⟨hr, rfl⟩
      · rcases hf.bag k hmem with ⟨id, rfl⟩ | ⟨r, c, n, url, rfl⟩
        · obtain ⟨hid, -, -⟩ := hf.fetch id hmem
          simp only [react] at hres
          split at hres
          · cases hres
            exact h
          · obtain ⟨t', cover, a, -, -, rfl, rfl⟩ := entryFetched_eq_some hres
            refine h.load hne hf.deleteList fun r hr => ?_
            by_cases hrn : r = x.loc.next
            · refine Or.inr ⟨t, d, ht, hd, ?_⟩
              subst hrn
              simpa [EditTrip.id, set, CustomAnnotation.ofEntry] using hid
            · exact Or.inl ⟨by have : r < x.loc.next + 1 := hr; omega, by
                simp [EditTrip.id, set, newCount, hrn]⟩
        · simp only [react] at hres
          split at hres <;> cases hres
          · exact h
          · rename_i data _
            obtain ⟨hdel, hnext, hid⟩ := imageDownloaded_same r c n (.ofData data) x.loc
            refine h.load hne (hdel.trans hf.deleteList) fun r' hr' => ?_
            exact Or.inl ⟨hnext ▸ hr', hid r'⟩
      · rw [hed.bag] at hmem
        exact absurd hmem (Multiset.notMem_zero _)

end

end EditTrip

end Wanderlust
