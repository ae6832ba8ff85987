import Wanderlust.Trips.SaveBarrier

/-!
# The photos of an entry

What the uploads of one annotation leave in the media list of its entry, when the save button is
pressed any number of times and the calls of `addEntryToFirestore` overlap. The URLs that the
annotation has and those on their way stay the same between two presses (`Photographed.step`), and
the entry is written for the last time when the last of them has arrived. The list therefore has
one URL for each photo exactly if no upload was on its way at the last press (`photos_once`).
-/

namespace Wanderlust

open Async Runs

namespace EditTrip

/-- The URL that an upload of an image of the annotation will have. -/
def Callback.photo (r : ℕ) : Callback → Option URL
  | .imageUploaded _ _ s path _ => if s = r then some ⟨path⟩ else none
  | .imageURL _ _ s path => if s = r then some ⟨path⟩ else none
  | _ => none

/-- The URLs of images of the annotation that are on their way. -/
def photos (r : ℕ) (bag : Multiset Callback) : Multiset URL := bag.filterMap (Callback.photo r)

/-- The URLs of `n` images of an entry. -/
def photoURLs (uid : Uid) (id : EntryID) (n : ℕ) : List URL :=
  (List.range n).map fun i => ⟨imagePath uid id i⟩

/-- The media list of an entry. -/
def mediaList (id : EntryID) (db : Firestore) : Option (List URL) :=
  (db.entries.lookup id).map EntryDoc.mediaList

section

variable {r s : ℕ} {id : EntryID} {k : Callback} {ok : Bool} {a : TripID} {l : EditTrip}
  {db : Firestore} {bag bag' : Multiset Callback} {cs : List Cmd} {res : EditTrip × List Cmd}

@[simp] theorem photos_zero (r : ℕ) : photos r 0 = 0 := rfl

@[simp] theorem photos_add (r : ℕ) (bag bag' : Multiset Callback) :
    photos r (bag + bag') = photos r bag + photos r bag' := Multiset.filterMap_add _ _ _

theorem photos_cons_some {url : URL} (hk : k.photo r = some url) (bag : Multiset Callback) :
    photos r (k ::ₘ bag) = url ::ₘ photos r bag := Multiset.filterMap_cons_some _ _ _ hk

theorem photos_cons_none (hk : k.photo r = none) (bag : Multiset Callback) :
    photos r (k ::ₘ bag) = photos r bag := Multiset.filterMap_cons_none _ _ hk

theorem photos_eq_zero : photos r bag = 0 ↔ ∀ k ∈ bag, k.photo r = none := by
  induction bag using Multiset.induction with
  | empty => simp
  | cons k bag ih =>
    cases hk : k.photo r with
    | none => simp [photos_cons_none hk, ih, hk]
    | some url => simp [photos_cons_some hk, hk]

theorem Callback.photo_of_not_saves (h : k.saves = false) (r : ℕ) : k.photo r = none := by
  cases k <;> first | rfl | cases h

/-! ## The media list -/

/-- Updates leave the media lists alone. -/
theorem mediaList_updating (h : ∀ c ∈ cs, c.Writes Updating) (id : EntryID) (db : Firestore) :
    mediaList id (effect Write.apply cs db) = mediaList id db := by
  refine effect_invariant (I := fun s => mediaList id s = mediaList id db) (fun w k hw s hs => ?_)
    rfl
  have hmodify : ∀ id' (f : EntryDoc → EntryDoc), (∀ e, (f e).mediaList = e.mediaList) →
      mediaList id (Write.apply (.updateEntry id' f) s) = mediaList id s := by
    intro id' f hf
    simp only [mediaList, Write.apply]
    by_cases hid : id = id'
    · subst hid
      rw [Collection.lookup_modify, Option.map_map]
      congr 1
      exact funext hf
    · rw [Collection.lookup_modify_ne hid]
  cases (h _ hw : Updating w) with
  | entries t name ids => exact hs
  | completing hw =>
    cases hw with
    | cover t url => exact hs
    | tripID id' t =>
      exact (hmodify id' (fun d => { d with tripID := some t }) fun _ => rfl).trans hs
    | order id' i =>
      exact (hmodify id' (fun d => { d with entryOrder := i }) fun _ => rfl).trans hs

theorem mediaList_addToFirebase (press s : ℕ) (l : EditTrip) (id : EntryID) (db : Firestore) :
    mediaList id (effect Write.apply (addToFirebase press s l).2 db) =
      if l.id s = id then some (l.heap s).imageUrls else mediaList id db := by
  rw [addToFirebase_effect]
  simp only [mediaList]
  split
  · rename_i hid
    subst hid
    rw [AList.lookup_insert]
    rfl
  · rename_i hid
    rw [AList.lookup_insert_ne (Ne.symm hid)]

/-- Only the code that publishes an entry changes a media list. -/
theorem mediaList_react (h : react k ok a l db = some res)
    (hk : ∀ c p s path, k ≠ .imageURL c p s path) (id : EntryID) :
    mediaList id (effect Write.apply res.2 db) = mediaList id db := by
  rcases updating_react h hk with hw | ⟨p, ids, userData, -, -, -, -, rfl⟩
  · exact mediaList_updating hw id db
  · obtain ⟨cs, hcs, hw⟩ := writes_createTrip ids userData a l
    rw [hcs, effect_write, effect_write,
      mediaList_updating fun c hc => (hw c hc).mono fun _ => .completing]
    rfl

/-! ## The annotation -/

/-- The annotation keeps its id and its URLs, and no annotation is dropped. -/
structure KeepsPhotos (s : ℕ) (l l' : EditTrip) : Prop where
  next : l.next ≤ l'.next
  entryID : l'.id s = l.id s
  imageUrls : (l'.heap s).imageUrls = (l.heap s).imageUrls

theorem KeepsPhotos.of_eq {l' : EditTrip} (hn : l'.next = l.next) (h : l'.heap = l.heap) :
    KeepsPhotos s l l' := ⟨hn.ge, by rw [EditTrip.id, h], by rw [h]⟩

theorem KeepsPhotos.congr {l₁ l' : EditTrip} (h : KeepsPhotos s l l₁) (hn : l'.next = l₁.next)
    (hh : l'.heap = l₁.heap) : KeepsPhotos s l l' :=
  ⟨h.next.trans hn.ge, by rw [EditTrip.id, hh]; exact h.entryID, by rw [hh]; exact h.imageUrls⟩

theorem keepsPhotos_set {s' : ℕ} {b : CustomAnnotation} (hid : b.entryID = (l.heap s').entryID)
    (hurls : b.imageUrls = (l.heap s').imageUrls) : KeepsPhotos s l (l.set s' b) := by
  by_cases hs : s = s'
  · subst hs
    exact ⟨le_rfl, by rw [EditTrip.id, heap_set_self, hid], by rw [heap_set_self, hurls]⟩
  · exact ⟨le_rfl, by rw [EditTrip.id, heap_set_ne hs], by rw [heap_set_ne hs]⟩

theorem keepsPhotos_updateTripID (ids : List EntryID) (t : TripID) (l : EditTrip) :
    KeepsPhotos s l (updateTripID ids t l).1 := by
  refine ⟨le_rfl, ?_, ?_⟩ <;>
  · simp only [updateTripID, EditTrip.id]
    split <;> rfl

theorem keepsPhotos_updateTripInfo (l : EditTrip) : KeepsPhotos s l (updateTripInfo l).1 := by
  rw [updateTripInfo_eq]
  simp only [updateTripInfoDidSet]
  split
  · split
    · split
      · exact .of_eq rfl rfl
      · exact (keepsPhotos_updateTripID l.ids _ l).congr rfl rfl
    · exact .of_eq rfl rfl
  · exact .of_eq rfl rfl

/-- Of the code that runs for an answer, only that for a URL changes the URLs of an annotation that
there is. -/
theorem keepsPhotos_react (h : react k ok a l db = some res) (hs : s < l.next)
    (hk : ∀ c p path, k ≠ .imageURL c p s path) : KeepsPhotos s l res.1 := by
  cases k with
  | imageURL c p s' path =>
    simp only [react] at h
    split at h <;> cases h
    have hne : s ≠ s' := by
      rintro rfl
      exact hk c p path rfl
    have hset : ∀ b, (l.set s' b).heap s = l.heap s := fun b => heap_set_ne hne _ _
    split <;> exact ⟨le_rfl, congrArg _ (hset _), congrArg _ (hset _)⟩
  | entryFetched id =>
    simp only [react, entryFetched] at h
    split at h
    · cases h
      exact .of_eq rfl rfl
    · split at h <;> cases h
      have hset : ∀ b, (l.newCount.set l.next b).heap s = l.heap s :=
        fun b => heap_set_ne hs.ne _ _
      exact ⟨Nat.le_succ _, congrArg _ (hset _), congrArg _ (hset _)⟩
  | entryCoverDownloaded r' url =>
    simp only [react] at h
    split at h <;> cases h
    · exact .of_eq rfl rfl
    · exact keepsPhotos_set rfl rfl
  | usernameFetched r' uid =>
    cases h
    exact keepsPhotos_set rfl rfl
  | imageDownloaded r' c n url =>
    simp only [react] at h
    split at h <;> cases h
    · exact .of_eq rfl rfl
    · rename_i data _
      have hset : KeepsPhotos s l (l.set r' { l.heap r' with
          images := (l.heap r').images ++ [.ofData data]
          numPhotos := (l.heap r').images.length + 1 }) := keepsPhotos_set rfl rfl
      obtain ⟨annotations, temp, list, he⟩ := imageDownloaded_eq r' c n (.ofData data) l
      rw [he]
      exact hset.congr rfl rfl
  | userFetched p ids =>
    simp only [react] at h
    split at h
    · cases h
      exact .of_eq rfl rfl
    · split at h <;> cases h
      · exact (keepsPhotos_updateTripID ids a l).congr rfl rfl
      · exact .of_eq rfl rfl
  | tripUpdated ids =>
    obtain ⟨t, -, rfl⟩ := Option.map_eq_some_iff.mp h
    exact (keepsPhotos_updateTripID ids t l).congr rfl rfl
  | coverDocFetched t =>
    simp only [react] at h
    split at h
    · cases h
      exact .of_eq rfl rfl
    · obtain ⟨url, -, rfl⟩ := Option.map_eq_some_iff.mp h
      exact .of_eq rfl rfl
  | coverDownloaded url =>
    simp only [react] at h
    split at h <;> cases h <;> exact .of_eq rfl rfl
  | tripFetched t =>
    simp only [react] at h
    split at h <;> cases h <;> exact .of_eq rfl rfl
  | tripCoverURL t path =>
    simp only [react] at h
    split at h <;> cases h <;> exact .of_eq rfl rfl
  | _ =>
    simp only [react, Option.some.injEq, entryWritten] at h
    split at h <;> subst h <;> exact .of_eq rfl rfl

/-- The user changes the URLs of no annotation that there is, except by a press. -/
theorem keepsPhotos_event {e : Event} (h : event e l db = some res) (he : e.presses = false)
    (hs : s < l.next) : KeepsPhotos s l res.1 := by
  rcases heap_event h he with ⟨hheap, hnext⟩ | ⟨form, uuid, -, hnext, hheap⟩ | ⟨r', form, -, heq⟩
  · exact .of_eq hnext hheap
  · have hsame : res.1.heap s = l.heap s := by
      rw [hheap, Function.update_of_ne hs.ne]
    exact ⟨hnext ▸ Nat.le_succ _, congrArg _ hsame, congrArg _ hsame⟩
  · rw [heq]
    exact keepsPhotos_set rfl rfl

/-- The code for the URL of an image. -/
theorem react_imageURL {c p : ℕ} {path : String}
    (h : react (.imageURL c p s path) ok a l db = some res) :
    res.1.next = l.next ∧ res.1.id s = l.id s ∧
      (res.1.heap s).imageUrls = (l.heap s).imageUrls ++ [⟨path⟩] ∧
      (∀ k ∈ callbacks res.2, k.photo r = none) ∧
      ∀ id, mediaList id (effect Write.apply res.2 db) =
        if l.counts c + 1 = (l.heap s).images.length ∧ l.id s = id then
          some ((l.heap s).imageUrls ++ [⟨path⟩])
        else mediaList id db := by
  simp only [react] at h
  split at h <;> cases h
  obtain ⟨b, hb⟩ : ∃ b : CustomAnnotation,
      { l.heap s with imageUrls := (l.heap s).imageUrls ++ [⟨path⟩] } = b := ⟨_, rfl⟩
  have hid : b.entryID = l.id s := by rw [← hb]
  have hurls : b.imageUrls = (l.heap s).imageUrls ++ [⟨path⟩] := by rw [← hb]
  have himg : b.images = (l.heap s).images := by rw [← hb]
  have hheap : ((l.set s b).count c).heap s = b := heap_set_self l s b
  have hcount : ((l.set s b).count c).counts c = l.counts c + 1 := counts_count_self _ _
  rw [hb, hcount, hheap, himg]
  split
  · rename_i hlast
    refine ⟨rfl, (congrArg _ hheap).trans hid, (congrArg _ hheap).trans hurls, fun k hk => ?_,
      fun id => ?_⟩
    · rw [callbacks_addToFirebase, Multiset.mem_singleton] at hk
      rw [hk]
      rfl
    · rw [mediaList_addToFirebase, EditTrip.id, hheap, hid, hurls]
      simp only [hlast, true_and]
  · rename_i hfew
    refine ⟨rfl, (congrArg _ hheap).trans hid, (congrArg _ hheap).trans hurls, by simp,
      fun id => ?_⟩
    rw [if_neg fun hc => hfew hc.1]
    rfl

/-- What is put on its way for an answer carries no URL, but for that of an image that has been
uploaded. -/
theorem photos_react (h : react k ok a l db = some res) :
    photos r (callbacks res.2) =
      match k with
      | .imageUploaded _ _ s path _ => if s = r then {⟨path⟩} else 0
      | _ => 0 := by
  cases hk : k.saves with
  | false =>
    rw [photos_eq_zero.mpr fun k' hk' =>
      Callback.photo_of_not_saves (not_saves_react h hk k' hk') r]
    cases k <;> first | rfl | cases hk
  | true =>
    cases k <;> simp only [Callback.saves, reduceCtorEq] at hk
    case userFetched p ids =>
      exact photos_eq_zero.mpr fun k' hk' =>
        Callback.photo_of_not_saves (not_saves_userFetched h k' hk') r
    case imageUploaded c p s path data =>
      cases h
      dsimp only
      split
      · rename_i hs
        have hphoto : Callback.photo r (.imageURL c p s path) = some ⟨path⟩ := if_pos hs
        rw [callbacks_request, photos_cons_some hphoto]
        rfl
      · rename_i hs
        have hphoto : Callback.photo r (.imageURL c p s path) = none := if_neg hs
        rw [callbacks_request, photos_cons_none hphoto]
        rfl
    case imageURL c p s path => exact photos_eq_zero.mpr (react_imageURL h).2.2.2.1
    case entryWritten p s =>
      simp only [react, Option.some.injEq, entryWritten] at h
      split at h <;> subst h
      · dsimp only
        split <;> rfl
      · rfl

/-- **What is kept**: the URLs of an annotation with those on their way. -/
theorem photos_deliver (h : react k ok a l db = some res) (hr : r < l.next) :
    ↑(res.1.heap r).imageUrls + photos r (bag + callbacks res.2) =
      ↑(l.heap r).imageUrls + photos r (k ::ₘ bag) := by
  rw [photos_add, photos_react h]
  by_cases hk : ∃ c p path, k = .imageURL c p r path
  · obtain ⟨c, p, path, rfl⟩ := hk
    have hphoto : Callback.photo r (.imageURL c p r path) = some ⟨path⟩ := if_pos rfl
    rw [(react_imageURL (r := r) h).2.2.1, photos_cons_some hphoto, ← Multiset.coe_add,
      Multiset.coe_singleton, ← Multiset.singleton_add]
    abel
  · have hkeep := keepsPhotos_react h hr fun c p path he => hk ⟨c, p, path, he⟩
    rw [hkeep.imageUrls]
    cases k with
    | imageURL c p s path =>
      have hphoto : Callback.photo r (.imageURL c p s path) = none :=
        if_neg fun hs => hk ⟨c, p, path, by rw [hs]⟩
      rw [photos_cons_none hphoto, add_zero]
    | imageUploaded c p s path data =>
      by_cases hs : s = r
      · have hphoto : Callback.photo r (.imageUploaded c p s path data) = some ⟨path⟩ := if_pos hs
        rw [photos_cons_some hphoto, ← Multiset.singleton_add, add_comm (photos r bag)]
        simp only [hs, if_true]
      · have hphoto : Callback.photo r (.imageUploaded c p s path data) = none := if_neg hs
        rw [photos_cons_none hphoto]
        simp only [hs, if_false, add_zero]
    | _ => rw [photos_cons_none rfl, add_zero]

end

/-! ## Between the presses -/

/-- The uploads of an annotation, whose URLs with those on their way are `urls`: when none is on
its way, its entry has the URLs that the annotation has. -/
structure Photographed (r : ℕ) (id : EntryID) (urls : Multiset URL)
    (x : Direct Firestore EditTrip Callback) : Prop where
  enc : ∀ image ∈ (x.loc.heap r).images, image.jpegData.isSome
  wired : ∃ role, Wired (fun _ => {r}) role x
  lt : r < x.loc.next
  entryID : x.loc.id r = id
  urls : ↑(x.loc.heap r).imageUrls + photos r x.bag = urls
  media : photos r x.bag = 0 → mediaList id x.store = some (x.loc.heap r).imageUrls

/-- A move that is no press, and does not publish another annotation as the same entry. -/
def settles (r : ℕ) (l : EditTrip) : Async.Move Callback TripID Event → Bool
  | .event e => !e.presses
  | .deliver (.imageURL _ _ s _) _ _ => s = r || l.id s ≠ l.id r
  | .deliver _ _ _ => true

section

variable {r : ℕ} {id : EntryID} {urls : Multiset URL} {x x' : Direct Firestore EditTrip Callback}
  {m : Async.Move Callback TripID Event}

/-- The URL that arrives last is the last of its counter. -/
theorem Photographed.last (h : Photographed r id urls x) {c p : ℕ} {path : String}
    {rest : Multiset Callback} (hb : x.bag = .imageURL c p r path ::ₘ rest)
    (hrest : photos r rest = 0) : x.loc.counts c + 1 = (x.loc.heap r).images.length := by
  obtain ⟨role, hw⟩ := h.wired
  have huses := hw.uses (.imageURL c p r path) (hb ▸ Multiset.mem_cons_self _ _)
  have hzero : waiting c rest = 0 := by
    refine waiting_eq_zero.mpr fun k hk hkc => ?_
    have hnone := photos_eq_zero.mp hrest k hk
    rcases (hw.uses k (hb ▸ Multiset.mem_cons_of_mem hk)).upload hkc huses.1.2 with
      ⟨path', data, rfl⟩ | ⟨path', rfl⟩ <;> simp [Callback.photo] at hnone
  have hwait : waiting c x.bag = 1 := by rw [hb, waiting_cons_self rfl, hzero]
  have hfill := (hw.filled c p r huses.1.2 rfl (by omega)).2 h.enc
  omega

/-- **One step**, in which the images stay as they are. -/
theorem Photographed.step (h : Photographed r id urls x) (hs : DirectStep program x m x')
    (hm : settles r x.loc m = true) (himg : (x'.loc.heap r).images = (x.loc.heap r).images) :
    Photographed r id urls x' := by
  have henc : ∀ image ∈ (x'.loc.heap r).images, image.jpegData.isSome := himg ▸ h.enc
  have hwired : ∃ role, Wired (fun _ => {r}) role x' := by
    obtain ⟨role, hw⟩ := h.wired
    obtain ⟨-, role', -, hw'⟩ := hw.step hs fun s _ hs => Set.mem_singleton_iff.mp hs ▸ himg
    exact ⟨role', hw'⟩
  -- what leaves the URLs and the media list alone
  have hsame : KeepsPhotos r x.loc x'.loc →
      ↑(x'.loc.heap r).imageUrls + photos r x'.bag = urls →
      mediaList id x'.store = mediaList id x.store → Photographed r id urls x' := by
    intro hkeep hurls hmedia
    refine ⟨henc, hwired, h.lt.trans_le hkeep.next, hkeep.entryID.trans h.entryID, hurls,
      fun hzero => ?_⟩
    have hbefore := h.urls
    rw [← hurls, hkeep.imageUrls, hzero] at hbefore
    rw [hmedia, hkeep.imageUrls, h.media (add_left_cancel hbefore)]
  cases hs with
  | @event e res he =>
    have hp : e.presses = false := by simpa [settles] using hm
    have hkeep := keepsPhotos_event he hp h.lt
    refine hsame hkeep ?_ (mediaList_updating (writes_requests (requests_event he hp)) id x.store)
    have hnone : photos r (callbacks res.2) = 0 := photos_eq_zero.mpr fun k hk =>
      Callback.photo_of_not_saves (not_saves_event he hp k hk) r
    simp only [Program.after, photos_add, hnone, add_zero, hkeep.imageUrls]
    exact h.urls
  | @deliver k ok a rest res hb hr =>
    change react k ok a x.loc x.store = some res at hr
    have hurls : ↑(res.1.heap r).imageUrls + photos r (rest + callbacks res.2) = urls := by
      rw [photos_deliver hr h.lt, ← hb]
      exact h.urls
    by_cases hk : ∃ c p s path, k = .imageURL c p s path
    · obtain ⟨c, p, s, path, rfl⟩ := hk
      by_cases hsr : s = r
      · subst hsr
        obtain ⟨hnext, hid, hadd, -, hmedia⟩ := react_imageURL (r := s) hr
        refine ⟨henc, hwired, h.lt.trans_le hnext.ge, hid.trans h.entryID, hurls, fun hzero => ?_⟩
        have hrest : photos s rest = 0 := by
          simp only [Program.after, photos_add] at hzero
          exact Multiset.le_zero.mp (hzero ▸ Multiset.le_add_right _ _)
        refine (hmedia id).trans ?_
        rw [if_pos ⟨h.last hb hrest, h.entryID⟩]
        exact congrArg some hadd.symm
      · have hne : x.loc.id s ≠ id := by
          simp only [settles, hsr, h.entryID] at hm
          simpa using hm
        refine hsame (keepsPhotos_react hr h.lt ?_) hurls ?_
        · rintro c' p' path' he
          cases he
          exact hsr rfl
        · exact ((react_imageURL (r := r) hr).2.2.2.2 id).trans (if_neg fun hc => hne hc.2)
    · have hk' : ∀ c p s path, k ≠ .imageURL c p s path :=
        fun c p s path he => hk ⟨c, p, s, path, he⟩
      exact hsame (keepsPhotos_react hr h.lt fun c p path => hk' c p r path) hurls
        (mediaList_react hr hk' id)

/-- Without images, no upload is on its way. -/
theorem Wired.photos_eq_zero {R : ℕ → Set ℕ} {role : ℕ → Role} (h : Wired R role x)
    (hr : ∀ p, r ∈ R p) (hzero : (x.loc.heap r).images.length = 0) : photos r x.bag = 0 := by
  refine EditTrip.photos_eq_zero.mpr fun k hk => ?_
  have hno : ∀ c p, role c = .uploads p r → k.counter = some c → False := by
    intro c p hc hkc
    have hpos : 0 < waiting c x.bag := waiting_pos.mpr ⟨k, hk, hkc⟩
    have hle := (h.filled c p r hc (hr p) hpos).1
    omega
  have huses := h.uses k hk
  cases k <;> try rfl
  case imageUploaded c p s path data =>
    refine if_neg fun hs => hno c p ?_ rfl
    exact hs ▸ huses.1.2
  case imageURL c p s path =>
    refine if_neg fun hs => hno c p ?_ rfl
    exact hs ▸ huses.1.2

/-- When no photo of the annotation is on its way, its uploads are right. -/
theorem Wired.none_pending {role : ℕ → Role} (h : Wired (fun _ => ∅) role x)
    (hnone : photos r x.bag = 0) : Wired (fun _ => {r}) role x where
  uses := h.uses
  filled c p s hc hs hpos := by
    obtain rfl := Set.mem_singleton_iff.mp hs
    obtain ⟨k, hk, hkc⟩ := waiting_pos.mp hpos
    have hphoto := EditTrip.photos_eq_zero.mp hnone k hk
    rcases (h.uses k hk).upload hkc hc with ⟨path, data, rfl⟩ | ⟨path, rfl⟩ <;>
      simp [Callback.photo] at hphoto

/-! ## The press -/

theorem photos_imageUploads {images : List UIImage}
    (henc : ∀ image ∈ images, image.jpegData.isSome) (uid : Uid) (id : EntryID) (c p r i : ℕ) :
    photos r (callbacks (imageUploads uid id c p r images i)) =
      ↑((List.range' i images.length).map fun i => (⟨imagePath uid id i⟩ : URL)) := by
  induction images generalizing i with
  | nil => rfl
  | cons image images ih =>
    obtain ⟨data, hdata⟩ := Option.isSome_iff_exists.mp (henc image List.mem_cons_self)
    have hphoto : Callback.photo r (.imageUploaded c p r (imagePath uid id i) data) =
        some ⟨imagePath uid id i⟩ := if_pos rfl
    simp only [imageUploads, hdata]
    rw [callbacks_request, photos_cons_some hphoto,
      ih (fun x hx => henc x (List.mem_cons_of_mem _ hx)), List.length_cons, List.range'_succ]
    rfl

/-- The annotation and its uploads are as they were. -/
def Untouched (r : ℕ) (x y : Direct Firestore EditTrip Callback) : Prop :=
  (y.loc.heap r).imageUrls = (x.loc.heap r).imageUrls ∧ photos r y.bag = photos r x.bag

/-- `addEntryToFirestore` has been called for the annotation: its entry is written, or its uploads
have been added to those on their way. -/
def Added (r : ℕ) (x y : Direct Firestore EditTrip Callback) : Prop :=
  if (x.loc.heap r).images.length = 0 then
    Untouched r x y ∧ mediaList (x.loc.id r) y.store = some (x.loc.heap r).imageUrls
  else
    (y.loc.heap r).imageUrls = [] ∧ photos r y.bag = photos r x.bag +
      ↑(photoURLs x.loc.currentUser.uid (x.loc.id r) (x.loc.heap r).images.length)

theorem Untouched.trans {y z : Direct Firestore EditTrip Callback} (h : Untouched r x y)
    (h' : Untouched r y z) : Untouched r x z := ⟨h'.1.trans h.1, h'.2.trans h.2⟩

theorem Added.trans {y z : Direct Firestore EditTrip Callback} (h : Added r x y)
    (h' : Untouched r y z) (hm : mediaList (x.loc.id r) z.store = mediaList (x.loc.id r) y.store) :
    Added r x z := by
  simp only [Added] at h ⊢
  split
  · rename_i hzero
    rw [if_pos hzero] at h
    exact ⟨h.1.trans h', hm.trans h.2⟩
  · rename_i hpos
    rw [if_neg hpos] at h
    exact ⟨h'.1.trans h.1, h'.2.trans h.2⟩

/-- A pass over another entry. -/
theorem untouched_addEntryToFirestore {s : ℕ} (hs : s ≠ r) (p : ℕ)
    (x : Direct Firestore EditTrip Callback) :
    Untouched r x (program.after (addEntryToFirestore p s x.loc) x) ∧
      ∀ id, x.loc.id s ≠ id →
        mediaList id (effect Write.apply (addEntryToFirestore p s x.loc).2 x.store) =
          mediaList id x.store := by
  have hphotos : photos r (callbacks (addEntryToFirestore p s x.loc).2) = 0 := by
    refine photos_eq_zero.mpr fun k hk => ?_
    rcases callbacks_addEntryToFirestore hk with ⟨c, path, data, rfl⟩ | rfl
    · exact if_neg hs
    · rfl
  refine ⟨⟨?_, ?_⟩, fun id hid => ?_⟩
  · simp only [Program.after, addEntryToFirestore]
    split
    · rfl
    · exact congrArg _ (heap_set_ne hs.symm _ _)
  · simp only [Program.after, photos_add, hphotos, add_zero]
  · simp only [addEntryToFirestore]
    split
    · rw [mediaList_addToFirebase, if_neg hid]
    · rw [imageUploads_effect]

/-- The pass over the entry itself. -/
theorem added_addEntryToFirestore (henc : ∀ image ∈ (x.loc.heap r).images, image.jpegData.isSome)
    (p : ℕ) : Added r x (program.after (addEntryToFirestore p r x.loc) x) := by
  simp only [Added]
  split
  · rename_i hzero
    simp only [addEntryToFirestore, if_pos hzero]
    refine ⟨⟨rfl, ?_⟩, (mediaList_addToFirebase p r x.loc _ _).trans (if_pos rfl)⟩
    simp only [Program.after, photos_add, callbacks_addToFirebase]
    exact add_zero _
  · rename_i hpos
    simp only [addEntryToFirestore, if_neg hpos, Program.after, photos_add]
    refine ⟨congrArg _ (heap_set_self ..), ?_⟩
    rw [photos_imageUploads henc, photoURLs, List.range_eq_range']

/-- Nothing of the photos of the annotation is on its way; and without images, it has no URLs. -/
def PhotosSettled (r : ℕ) (x : Direct Firestore EditTrip Callback) : Prop :=
  photos r x.bag = 0 ∧ ((x.loc.heap r).images = [] → (x.loc.heap r).imageUrls = [])

instance (r : ℕ) (x : Direct Firestore EditTrip Callback) : Decidable (PhotosSettled r x) :=
  inferInstanceAs (Decidable (_ ∧ _))

/-- In the loop over the entries: the entry of the annotation is still to come, or has been. -/
def Passing (r : ℕ) (x : Direct Firestore EditTrip Callback) (rs : List ℕ)
    (y : Direct Firestore EditTrip Callback) : Prop :=
  Stays x.loc y.loc ∧
    (r ∈ rs ∧ (rs.map x.loc.id).count (x.loc.id r) = 1 ∧ Untouched r x y ∨
      (∀ s ∈ rs, x.loc.id s ≠ x.loc.id r) ∧ Added r x y)

theorem Passing.pass {s : ℕ} {rs : List ℕ} {y : Direct Firestore EditTrip Callback}
    (henc : ∀ image ∈ (x.loc.heap r).images, image.jpegData.isSome) (p : ℕ)
    (h : Passing r x (s :: rs) y) :
    Passing r x rs (program.after (addEntryToFirestore p s y.loc) y) := by
  obtain ⟨hst, h⟩ := h
  have hid : ∀ s, y.loc.id s = x.loc.id s := hst.toKeeps.id
  refine ⟨hst.trans (stays_addEntryToFirestore p s _), ?_⟩
  rcases h with ⟨hmem, hcount, hun⟩ | ⟨hapart, hadd⟩
  · rw [List.map_cons, List.count_cons] at hcount
    by_cases hsr : s = r
    · subst hsr
      right
      simp only [beq_self_eq_true, if_true, Nat.add_eq_right] at hcount
      refine ⟨fun t ht he => ?_, ?_⟩
      · exact List.count_eq_zero.mp hcount (List.mem_map.mpr ⟨t, ht, he⟩)
      · have himg := CustomAnnotation.images_eq_of_content (hst.content s)
        have hadd := added_addEntryToFirestore (x := y) (r := s) (himg ▸ henc) p
        simp only [Added, Untouched, himg, hid, hst.currentUser, hun.1, hun.2] at hadd ⊢
        exact hadd
    · left
      have hmem' := (List.mem_cons.mp hmem).resolve_left (Ne.symm hsr)
      have hpos : 0 < (rs.map x.loc.id).count (x.loc.id r) :=
        List.count_pos_iff.mpr (List.mem_map.mpr ⟨r, hmem', rfl⟩)
      exact ⟨hmem', by omega, hun.trans (untouched_addEntryToFirestore hsr p y).1⟩
  · right
    have hs := hapart s List.mem_cons_self
    have hsr : s ≠ r := by
      rintro rfl
      exact hs rfl
    obtain ⟨hun, hmedia⟩ := untouched_addEntryToFirestore hsr p y
    refine ⟨fun t ht => hapart t (List.mem_cons_of_mem _ ht), hadd.trans hun ?_⟩
    exact hmedia _ (by rwa [hid])

/-- **The press**, for an annotation whose entry is listed once. -/
theorem added_saveButtonPressed (hfields : x.loc.emptyField = false)
    (henc : ∀ image ∈ (x.loc.heap r).images, image.jpegData.isSome) (hmem : r ∈ x.loc.entryList)
    (hcount : x.loc.ids.count (x.loc.id r) = 1) :
    Added r x (program.after (saveButtonPressed x.loc) x) := by
  have hnew : Stays x.loc x.loc.newCount := (Stays.refl x.loc).of_core rfl (Nat.le_succ _)
  have hkeep := keepsPhotos_updateTripInfo (s := r) x.loc.newCount
  have hstart : Passing r x x.loc.entryList (program.after (Handler.forEach deleteEntry
      x.loc.deleteList (updateTripInfo x.loc.newCount).1)
        (program.after (updateTripInfo x.loc.newCount) x)) := by
    refine ⟨?_, Or.inl ⟨hmem, hcount, ?_, ?_⟩⟩
    · simp only [Program.after, forEach_deleteEntry_fst]
      exact hnew.trans (stays_updateTripInfo _)
    · simp only [Program.after, forEach_deleteEntry_fst]
      exact hkeep.imageUrls
    · have hdelete := mem_callbacks_forEach not_saves_deleteEntry x.loc.deleteList
        (updateTripInfo x.loc.newCount).1
      simp only [Program.after, photos_add]
      rw [photos_eq_zero.mpr fun k hk => Callback.photo_of_not_saves (hdelete k hk) r,
        photos_eq_zero.mpr fun k hk =>
          Callback.photo_of_not_saves (not_saves_updateTripInfo _ k hk) r, add_zero, add_zero]
  have hend := after_forEach (P := program) (I := Passing r x)
    (fun s rs y hy => hy.pass henc x.loc.nextCount) hstart
  rw [saveButtonPressed_eq hfields, after_andThen, after_andThen]
  rcases hend.2 with ⟨hmem, -⟩ | ⟨-, hadd⟩
  · cases hmem
  · exact hadd

/-- **The press**, for the photos: the entry has one URL for each exactly if nothing of them was on
its way. -/
theorem Photographed.press {role : ℕ → Role} {y : Direct Firestore EditTrip Callback}
    (hw : Wired (fun _ => {r}) role x) (hy : program.after (saveButtonPressed x.loc) x = y)
    (hfields : x.loc.emptyField = false)
    (henc : ∀ image ∈ (x.loc.heap r).images, image.jpegData.isSome) (hr : r < x.loc.next)
    (hmem : r ∈ x.loc.entryList) (hcount : x.loc.ids.count (x.loc.id r) = 1) :
    ∃ urls, Photographed r (x.loc.id r) urls y ∧
      (urls = ↑(photoURLs x.loc.currentUser.uid (x.loc.id r) (x.loc.heap r).images.length) ↔
        PhotosSettled r x) := by
  have hadd := added_saveButtonPressed hfields henc hmem hcount
  have hst : Stays x.loc y.loc := hy ▸ stays_saveButtonPressed x.loc
  obtain ⟨-, role', -, hw'⟩ := hw.saveButtonPressed
  have himg := CustomAnnotation.images_eq_of_content (hst.content r)
  rw [hy] at hadd hw'
  have hkey : (photos r y.bag = 0 → mediaList (x.loc.id r) y.store =
      some (y.loc.heap r).imageUrls) →
      Photographed r (x.loc.id r) (↑(y.loc.heap r).imageUrls + photos r y.bag) y :=
    fun hmedia => ⟨himg ▸ henc, ⟨role', hw'⟩, hst.next ▸ hr, hst.toKeeps.id r, rfl, hmedia⟩
  simp only [Added] at hadd
  split at hadd
  · rename_i hzero
    obtain ⟨⟨hurls, hbag⟩, hmedia⟩ := hadd
    have hnone : photos r x.bag = 0 := hw.photos_eq_zero (fun _ => rfl) hzero
    have hnil : (x.loc.heap r).images = [] := List.length_eq_zero_iff.mp hzero
    refine ⟨_, hkey fun _ => hurls ▸ hmedia, ?_⟩
    rw [hbag, hurls, hnone, add_zero]
    simp [PhotosSettled, hnone, hnil, photoURLs]
  · rename_i hpos
    obtain ⟨hurls, hbag⟩ := hadd
    have hne : (x.loc.heap r).images ≠ [] := fun h => hpos (List.length_eq_zero_iff.mpr h)
    have hsome : photos r y.bag ≠ 0 := by
      rw [hbag, photoURLs]
      intro hzero
      have hnil := congrArg Multiset.card hzero
      simp [hpos] at hnil
    refine ⟨_, hkey fun hzero => absurd hzero hsome, ?_⟩
    rw [hbag, hurls]
    simp [PhotosSettled, hne]

end

/-! ## The run -/

/-- A step after the last press: no write is rejected. -/
def Settles (r : ℕ) (st : State Firestore EditTrip Write Callback) : Label TripID Event → Prop
  | .reject => False
  | lbl => (st.move lbl).all (settles r st.loc)

instance (r : ℕ) (st : State Firestore EditTrip Write Callback) : DecidablePred (Settles r st)
  | .reject => isFalse fun h => h
  | .apply => inferInstanceAs (Decidable (_ = true))
  | .event _ => inferInstanceAs (Decidable (_ = true))
  | .deliver _ _ _ => inferInstanceAs (Decidable (_ = true))

section

variable {r : ℕ} {id : EntryID} {urls : Multiset URL}
  {st : State Firestore EditTrip Write Callback}
  {tr : List (Label TripID Event × State Firestore EditTrip Write Callback)}

theorem Photographed.run (h : Photographed r id urls (program.direct st))
    (hrun : IsRun (fun st lbl st' => program.step lbl st = some st') st tr)
    (hlast : Meets (Settles r) st tr)
    (himg : ∀ x ∈ tr, (x.2.loc.heap r).images = (st.loc.heap r).images) :
    Photographed r id urls (program.direct (final st tr)) := by
  induction tr generalizing st with
  | nil => exact h
  | cons x tr ih =>
    obtain ⟨lbl, st'⟩ := x
    obtain ⟨hstep, hrun⟩ := hrun
    obtain ⟨hx, hlast⟩ := hlast
    have hsame := himg (lbl, st') List.mem_cons_self
    refine ih ?_ hrun hlast fun y hy => (himg y (List.mem_cons_of_mem _ hy)).trans hsame.symm
    rcases step_move hstep with ⟨-, rfl | hd, -⟩ | ⟨m, hm, hd⟩
    · exact hx.elim
    · exact hd ▸ h
    · have hall : settles r st.loc m = true := by
        cases lbl <;> first | exact hx.elim | simpa [Settles, hm] using hx
      exact h.step hd hall hsame

/-- **The photos of an entry**, for every annotation in every run of the screen: none of its photos
is on its way in a state of the run; it keeps its images from there on; and the save button is
pressed for the last time, however often it was pressed before. When no callback is pending, its
entry has one URL for each photo exactly if they were settled at the last press. -/
theorem photos_once {db : Firestore} {u : User} {t? : Option TripID} {b : Bucket} {now : Timestamp}
    {st₁ st₂ st' : State Firestore EditTrip Write Callback}
    {tr₀ tr₁ tr₂ : List (Label TripID Event × State Firestore EditTrip Write Callback)}
    (hrun₀ : IsRun (fun st lbl st' => program.step lbl st = some st')
      (start db (opened u t? b now)) tr₀)
    (hst₁ : final (start db (opened u t? b now)) tr₀ = st₁)
    (hnone : photos r (program.direct st₁).bag = 0)
    (hrun₁ : IsRun (fun st lbl st' => program.step lbl st = some st') st₁ tr₁)
    (hst₂ : final st₁ tr₁ = st₂)
    (hsame₁ : ∀ x ∈ tr₁, (x.2.loc.heap r).images = (st₁.loc.heap r).images)
    (hpress : program.step (.event .saveButtonPressed) st₂ = some st')
    (hfields : st₂.loc.emptyField = false)
    (henc : ∀ image ∈ (st₂.loc.heap r).images, image.jpegData.isSome) (hr : r < st₂.loc.next)
    (hmem : r ∈ st₂.loc.entryList) (hcount : st₂.loc.ids.count (st₂.loc.id r) = 1)
    (hrun₂ : IsRun (fun st lbl st' => program.step lbl st = some st') st' tr₂)
    (hlast : Meets (Settles r) st' tr₂)
    (hsame₂ : ∀ x ∈ tr₂, (x.2.loc.heap r).images = (st₂.loc.heap r).images)
    (hq : Quiescent (final st' tr₂)) :
    (∃ urls, mediaList (st₂.loc.id r) (final st' tr₂).store = some urls ∧
      urls.Perm (photoURLs st₂.loc.currentUser.uid (st₂.loc.id r) (st₂.loc.heap r).images.length)) ↔
      PhotosSettled r (program.direct st₂) := by
  obtain ⟨role₀, hw₀⟩ := wired_run hrun₀
  have hw₁ : Wired (fun _ => {r}) role₀ (program.direct st₁) := by
    rw [hst₁] at hw₀
    exact hw₀.none_pending hnone
  obtain ⟨role, hw⟩ := hw₁.run hrun₁ fun x hx s _ hs => by
    rw [Set.mem_singleton_iff.mp hs]
    exact hsame₁ x hx
  rw [hst₂] at hw
  have hdirect := direct_press hpress
  obtain ⟨urls, hph, hiff⟩ := Photographed.press hw hdirect.symm hfields henc hr hmem hcount
  have himg : (st'.loc.heap r).images = (st₂.loc.heap r).images := by
    have hloc : st'.loc = (saveButtonPressed st₂.loc).1 := congrArg Direct.loc hdirect
    rw [hloc]
    exact CustomAnnotation.images_eq_of_content ((stays_saveButtonPressed st₂.loc).content r)
  have hend := hph.run hrun₂ hlast fun x hx => (hsame₂ x hx).trans himg.symm
  rw [hq.direct] at hend
  have hurls : ↑((final st' tr₂).loc.heap r).imageUrls = urls := by simpa using hend.urls
  rw [← hiff, ← hurls, Multiset.coe_eq_coe]
  have hmedia := hend.media rfl
  constructor
  · rintro ⟨urls', hurls', hperm⟩
    obtain rfl := Option.some.inj (hmedia.symm.trans hurls')
    exact hperm
  · exact fun hperm => ⟨_, hmedia, hperm⟩

end

/-! ## Two runs -/

/-- Save is pressed, and the photo of the entry has been uploaded. -/
def samplePhotoSaved : List (Label TripID Event) :=
  [.event .saveButtonPressed, .deliver 0 true "", .deliver 0 true "", .deliver 0 true ""]

/-- The rest of two presses, of which both add a trip. -/
def sampleTwoSaves : List (Label TripID Event) :=
  [.deliver 0 true "", .deliver 0 true "", .apply, .apply, .apply, .apply, .apply, .apply,
    .deliver 0 true "", .deliver 0 true "", .deliver 0 true "t", .apply, .apply, .apply,
    .deliver 0 true "s", .apply, .apply, .apply, .deliver 0 true "", .apply, .deliver 0 true "",
    .apply, .deliver 0 true "", .deliver 0 true ""]

/-- A run of `photos_once`: Save is pressed again while the entry is written. -/
theorem photos_once_sample : ∃ st : State Firestore EditTrip Write Callback, Quiescent st ∧
    ∃ urls, mediaList "a" st.store = some urls ∧ urls.Perm (photoURLs "ann" "a" 1) := by
  obtain ⟨tr₀, h₀⟩ := Option.isSome_iff_exists.mp (by decide +kernel :
    (play (fun st lbl => program.step lbl st) sampleOneEntry sampleNewScreen).isSome)
  have hfirst : ∀ tr₀ ∈ play (fun st lbl => program.step lbl st) sampleOneEntry sampleNewScreen,
      photos 0 (program.direct (final sampleNewScreen tr₀)).bag = 0 ∧
      (play (fun st lbl => program.step lbl st) samplePhotoSaved
        (final sampleNewScreen tr₀)).isSome ∧
      ∀ tr₁ ∈ play (fun st lbl => program.step lbl st) samplePhotoSaved (final sampleNewScreen tr₀),
      (∀ x ∈ tr₁, (x.2.loc.heap 0).images = ((final sampleNewScreen tr₀).loc.heap 0).images) ∧
      ∀ st₂ ∈ some (final (final sampleNewScreen tr₀) tr₁),
      PhotosSettled 0 (program.direct st₂) ∧ st₂.loc.emptyField = false ∧
      (∀ image ∈ (st₂.loc.heap 0).images, image.jpegData.isSome) ∧ 0 < st₂.loc.next ∧
      0 ∈ st₂.loc.entryList ∧ st₂.loc.ids.count (st₂.loc.id 0) = 1 ∧
      st₂.loc.currentUser.uid = "ann" ∧ st₂.loc.id 0 = "a" ∧
      (st₂.loc.heap 0).images.length = 1 ∧
      (program.step (.event .saveButtonPressed) st₂).isSome := by
    decide +kernel
  have hsecond : ∀ tr₀ ∈ play (fun st lbl => program.step lbl st) sampleOneEntry sampleNewScreen,
      ∀ tr₁ ∈ play (fun st lbl => program.step lbl st) samplePhotoSaved (final sampleNewScreen tr₀),
      ∀ st₂ ∈ some (final (final sampleNewScreen tr₀) tr₁),
      ∀ st' ∈ program.step (.event .saveButtonPressed) st₂,
      (play (fun st lbl => program.step lbl st) sampleTwoSaves st').isSome ∧
      ∀ tr₂ ∈ play (fun st lbl => program.step lbl st) sampleTwoSaves st',
      Meets (Settles 0) st' tr₂ ∧
      (∀ x ∈ tr₂, (x.2.loc.heap 0).images = (st₂.loc.heap 0).images) ∧
      Quiescent (final st' tr₂) := by
    decide +kernel
  obtain ⟨hnone, h₁, hfirst⟩ := hfirst tr₀ h₀
  obtain ⟨tr₁, h₁⟩ := Option.isSome_iff_exists.mp h₁
  obtain ⟨hsame₁, hfirst⟩ := hfirst tr₁ h₁
  obtain ⟨st₂, hst₂⟩ : ∃ st₂, final (final sampleNewScreen tr₀) tr₁ = st₂ := ⟨_, rfl⟩
  obtain ⟨hsettled, hfields, henc, hr, hmem, hcount, huid, hid, hn, hst'⟩ :=
    hfirst st₂ (congrArg some hst₂)
  obtain ⟨st', hst'⟩ := Option.isSome_iff_exists.mp hst'
  obtain ⟨h₂, hsecond⟩ := hsecond tr₀ h₀ tr₁ h₁ st₂ (congrArg some hst₂) st' hst'
  obtain ⟨tr₂, h₂⟩ := Option.isSome_iff_exists.mp h₂
  obtain ⟨hlast, hsame₂, hq⟩ := hsecond tr₂ h₂
  have hiff := photos_once (isRun_of_play h₀) rfl hnone (isRun_of_play h₁) hst₂ hsame₁ hst' hfields
    henc hr hmem hcount (isRun_of_play h₂) hlast hsame₂ hq
  rw [huid, hid, hn] at hiff
  exact ⟨_, hq, hiff.mpr hsettled⟩

/-- Save is pressed twice, and then everything is answered. -/
def samplePressedTwice : List (Label TripID Event) :=
  [.event .saveButtonPressed, .event .saveButtonPressed, .deliver 0 true "", .deliver 0 true "",
    .deliver 0 true "", .deliver 0 true "", .deliver 0 true "", .apply, .apply, .apply, .apply,
    .apply, .apply, .deliver 0 true "", .deliver 0 true "", .deliver 0 true "t",
    .deliver 0 true "s", .apply, .apply, .apply, .apply, .apply, .apply, .deliver 0 true "",
    .deliver 0 true "", .apply, .apply, .deliver 0 true "", .deliver 0 true ""]

/-- A run in which everything succeeds, and the one photo of an entry is stored twice. -/
theorem photos_twice : ∃ tr, play (fun st lbl => program.step lbl st)
      (sampleOneEntry ++ samplePressedTwice) sampleNewScreen = some tr ∧
    Quiescent (final sampleNewScreen tr) ∧
    ((final sampleNewScreen tr).loc.heap 0).images.length = 1 ∧
    (final sampleNewScreen tr).loc.id 0 = "a" ∧
    mediaList "a" (final sampleNewScreen tr).store =
      some [⟨imagePath "ann" "a" 0⟩, ⟨imagePath "ann" "a" 0⟩] := by
  have hplay : (play (fun st lbl => program.step lbl st) (sampleOneEntry ++ samplePressedTwice)
      sampleNewScreen).isSome ∧
      ∀ tr ∈ play (fun st lbl => program.step lbl st) (sampleOneEntry ++ samplePressedTwice)
        sampleNewScreen, Quiescent (final sampleNewScreen tr) ∧
      ((final sampleNewScreen tr).loc.heap 0).images.length = 1 ∧
      (final sampleNewScreen tr).loc.id 0 = "a" ∧
      mediaList "a" (final sampleNewScreen tr).store =
        some [⟨imagePath "ann" "a" 0⟩, ⟨imagePath "ann" "a" 0⟩] := by
    decide +kernel
  obtain ⟨hsome, hall⟩ := hplay
  obtain ⟨tr, htr⟩ := Option.isSome_iff_exists.mp hsome
  exact ⟨tr, htr, hall tr htr⟩

end EditTrip

end Wanderlust
