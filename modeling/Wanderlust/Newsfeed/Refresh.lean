import Wanderlust.Newsfeed.FeedOrder

/-!
# The end of a refresh

When the posts have been gathered, their photos are loaded: those of the cache at once, the others
from Storage. `Loading` counts the photos that are there and those that are awaited. The counter
of the refresh goes up to the number of its photos, while `totalPics` also has what earlier
refreshes have left: so the table is reloaded exactly if they have left nothing (`ends_iff`).
-/

namespace Wanderlust

open Async

namespace NewsFeed

/-- The image is what the cache or Storage has for the URL. -/
def Photo (l : NewsFeed) (url : URL) (image : UIImage) : Prop :=
  l.cache url = some image ∨ ∃ data, l.bucket.lookup url.path = some data ∧ image = .ofData data

/-- The images of a post are those of these URLs. -/
def Has (l₀ : NewsFeed) (urls : Multiset URL) (p : Post) : Prop :=
  ∃ us : List URL, ↑us = urls ∧ List.Forall₂ (Photo l₀) us p.images

/-- The URLs that are awaited for a post. -/
def awaited (photos : Multiset (ℕ × URL)) (r : ℕ) : Multiset URL :=
  (photos.filter fun p => p.1 = r).map Prod.snd

section

variable (l₀ : NewsFeed) (posts : List ℕ) (c : ℕ)

/-- The photos of the posts while they are loaded: `waiting` are those that have not come. -/
structure Loading (waiting : Multiset (ℕ × URL)) (l : NewsFeed) : Prop where
  postList : l.postList = posts
  bucket : l.bucket = l₀.bucket
  cache : ∀ url image, l.cache url = some image → Photo l₀ url image
  counter : l.doneCounter c + waiting.card = pictures l.heap posts
  photos : ∀ r ∈ posts, ∃ urls, urls + awaited waiting r = ↑(l.heap r).imageUrls ∧
    Has l₀ urls (l.heap r)

/-- The table has not been reloaded. -/
structure Unfinished (l : NewsFeed) : Prop where
  totalPics : l.totalPics = l₀.totalPics + pictures l.heap posts
  reloads : l.reloads = l₀.reloads

/-- The table has been reloaded once, with the posts as they are, and nothing is refreshing. -/
structure Finished (l : NewsFeed) : Prop where
  totalPics : l.totalPics = 0
  reloads : l.reloads = l₀.reloads ++ [posts.map l.heap]
  refreshing : l.refreshing = false

end

section

variable {l₀ l l' : NewsFeed} {posts : List ℕ} {c : ℕ} {waiting : Multiset (ℕ × URL)} {r : ℕ}
  {url : URL} {image : UIImage}

theorem heap_appendImage (r : ℕ) (image : UIImage) (l : NewsFeed) (r' : ℕ) :
    ((appendImage r image l).heap r').imageUrls = (l.heap r').imageUrls ∧
      ((appendImage r image l).heap r').images =
        (l.heap r').images ++ if r' = r then [image] else [] := by
  simp only [appendImage]
  by_cases h : r' = r
  · subst h
    simp
  · simp [h]

theorem pictures_appendImage (r : ℕ) (image : UIImage) (l : NewsFeed) (posts : List ℕ) :
    pictures (appendImage r image l).heap posts = pictures l.heap posts := by
  rw [pictures, pictures]
  exact congrArg List.sum (List.map_congr_left fun r' _ =>
    congrArg List.length (heap_appendImage r image l r').1)

theorem awaited_cons (r' : ℕ) (url : URL) (waiting : Multiset (ℕ × URL)) (r : ℕ) :
    awaited ((r', url) ::ₘ waiting) r = (if r = r' then {url} else 0) + awaited waiting r := by
  unfold awaited
  by_cases h : r = r'
  · subst h
    simp
  · have h' : ¬ r' = r := fun he => h he.symm
    simp [h, h']

theorem Has.append {urls : Multiset URL} {p p' : Post} (h : Has l₀ urls p)
    (himage : Photo l₀ url image) (hp : p'.images = p.images ++ [image]) :
    Has l₀ (url ::ₘ urls) p' := by
  obtain ⟨us, rfl, hus⟩ := h
  refine ⟨us ++ [url], ?_, ?_⟩
  · rw [← Multiset.coe_add, Multiset.coe_singleton, add_comm, Multiset.singleton_add]
  · rw [hp]
    exact List.rel_append hus (.cons himage .nil)

/-- A photo has come. -/
theorem Loading.appendImage (h : Loading l₀ posts c ((r, url) ::ₘ waiting) l)
    (himage : Photo l₀ url image) (hcount : l'.doneCounter c = l.doneCounter c + 1)
    (hheap : l'.heap = (appendImage r image l).heap) (hpost : l'.postList = l.postList)
    (hbucket : l'.bucket = l.bucket) (hcache : l'.cache = l.cache) :
    Loading l₀ posts c waiting l' where
  postList := hpost.trans h.postList
  bucket := hbucket.trans h.bucket
  cache := hcache ▸ h.cache
  counter := by
    have hcounter := h.counter
    rw [Multiset.card_cons] at hcounter
    rw [hheap, pictures_appendImage, hcount]
    omega
  photos r' hr' := by
    obtain ⟨urls, hurls, hhas⟩ := h.photos r' hr'
    obtain ⟨himageUrls, himages⟩ := heap_appendImage r image l r'
    rw [awaited_cons] at hurls
    rw [hheap, himageUrls]
    by_cases hr : r' = r
    · rw [if_pos hr] at hurls himages
      refine ⟨url ::ₘ urls, ?_, hhas.append himage himages⟩
      rw [← hurls, ← Multiset.singleton_add, add_assoc, add_left_comm]
    · rw [if_neg hr] at hurls himages
      rw [zero_add] at hurls
      obtain ⟨us, hus, hphotos⟩ := hhas
      refine ⟨urls, hurls, us, hus, ?_⟩
      rw [himages, List.append_nil]
      exact hphotos

/-- The cache changes. -/
theorem Loading.setCache (h : Loading l₀ posts c waiting l) {cache : URL → Option UIImage}
    (hcache : ∀ url image, cache url = some image → Photo l₀ url image) :
    Loading l₀ posts c waiting { l with cache := cache } :=
  ⟨h.postList, h.bucket, hcache, h.counter, h.photos⟩

end

/-- The photos of a post are its own. -/
theorem awaited_photos {l : NewsFeed} (hnodup : l.postList.Nodup) {r : ℕ} (hr : r ∈ l.postList) :
    awaited ↑l.photos r = ↑(l.heap r).imageUrls := by
  have hpost : ∀ r', (((l.heap r').imageUrls.map fun url => (r', url)).filter fun p => p.1 = r) =
      if r' = r then (l.heap r).imageUrls.map fun url => (r, url) else [] := by
    intro r'
    by_cases h : r' = r
    · subst h
      rw [if_pos rfl, List.filter_eq_self]
      simp
    · rw [if_neg h, List.filter_eq_nil_iff]
      simpa using fun _ _ => h
  have hown : ∀ posts : List ℕ, posts.Nodup → r ∈ posts →
      (posts.flatMap fun r' => if r' = r then (l.heap r).imageUrls.map fun url => (r, url) else [])
        = (l.heap r).imageUrls.map fun url => (r, url) := by
    intro posts hnodup hr
    induction posts with
    | nil => cases hr
    | cons r' posts ih =>
      rw [List.flatMap_cons]
      obtain ⟨hnot, hnodup⟩ := List.nodup_cons.mp hnodup
      by_cases h : r' = r
      · subst h
        have hnil : (posts.flatMap fun r'' =>
            if r'' = r' then (l.heap r').imageUrls.map fun url => (r', url) else []) = [] := by
          rw [List.flatMap_eq_nil_iff]
          intro r'' hr''
          exact if_neg fun he : r'' = r' => hnot (he ▸ hr'')
        rw [if_pos rfl, hnil, List.append_nil]
      · rw [if_neg h, List.nil_append]
        exact ih hnodup ((List.mem_cons.mp hr).resolve_left fun he => h he.symm)
  rw [awaited, Multiset.filter_coe, Multiset.map_coe, photos, List.filter_flatMap]
  simp only [hpost]
  rw [hown _ hnodup hr, List.map_map]
  simp [Function.comp_def]

/-- The steps of a single refresh that all succeed: the images are in Storage. -/
def good (l : NewsFeed) (_ : Firestore) : Async.Move Callback Unit Event → Prop
  | .event (.evict _) => True
  | .event _ => False
  | .deliver (.imageDownloaded _ _ url) ok _ => ok = true ∧ (l.bucket.lookup url.path).isSome
  | .deliver _ ok _ => ok = true

/-- The refresh is loading its photos: it is over when none is awaited, provided that it has any
and earlier refreshes have left nothing. -/
structure Showing (l₀ : NewsFeed) (posts : List ℕ) (c : ℕ) (waiting : Multiset (ℕ × URL))
    (l : NewsFeed) : Prop where
  loading : Loading l₀ posts c waiting l
  progress : Unfinished l₀ posts l ∧ (waiting = 0 → pictures l.heap posts ≠ 0 → l₀.totalPics ≠ 0) ∨
    Finished l₀ posts l ∧ waiting = 0 ∧ l₀.totalPics = 0

section

variable {l₀ l l' : NewsFeed} {posts : List ℕ} {c : ℕ} {waiting : Multiset (ℕ × URL)}

/-- **A photo is put on its post**: the table is reloaded if it is the last. -/
theorem Showing.photo {p : ℕ × URL} {image : UIImage} (h : Showing l₀ posts c (p ::ₘ waiting) l)
    (himage : Photo l₀ p.2 image) (hdone : donePicture c (appendImage p.1 image l) = some l') :
    Showing l₀ posts c waiting l' := by
  obtain ⟨hunfinished, -⟩ := h.progress.resolve_right fun hover =>
    Multiset.cons_ne_zero hover.2.1
  have htotal := hunfinished.totalPics
  have hcounter := h.loading.counter
  rw [Multiset.card_cons] at hcounter
  have hpictures : pictures (appendImage p.1 image l).heap posts = pictures l.heap posts :=
    pictures_appendImage p.1 image l posts
  have hcount : (Function.update l.doneCounter c (l.doneCounter c + 1)) c = l.doneCounter c + 1 :=
    Function.update_self ..
  simp only [donePicture] at hdone
  split at hdone
  · -- the counter has reached the total
    rename_i hlast
    split at hdone
    · cases hdone
    cases hdone
    have hreached : l.doneCounter c + 1 = l.totalPics := hcount.symm.trans hlast
    have hnone : waiting.card = 0 := by omega
    refine ⟨h.loading.appendImage himage hcount rfl rfl rfl rfl, Or.inr ⟨⟨rfl, ?_, rfl⟩, ?_, ?_⟩⟩
    · change l.reloads ++ [l.postList.map _] = _
      rw [hunfinished.reloads, h.loading.postList]
      rfl
    · exact Multiset.card_eq_zero.mp hnone
    · omega
  · rename_i hmore
    cases hdone
    have hnot : l.doneCounter c + 1 ≠ l.totalPics := fun heq => hmore (hcount.trans heq)
    refine ⟨h.loading.appendImage himage hcount rfl rfl rfl rfl, Or.inl ⟨⟨?_, ?_⟩, ?_⟩⟩
    · exact htotal.trans (by rw [← hpictures])
    · exact hunfinished.reloads
    · rintro rfl -
      rw [Multiset.card_zero] at hcounter
      omega

/-- Loading the photos shows those of the cache, and asks for the others. -/
theorem Showing.loadPhotos {ps : List (ℕ × URL)} {res : NewsFeed × List Cmd}
    (h : Showing l₀ posts c (↑ps + waiting) l) (hres : loadPhotos c ps l = some res) :
    ∃ asked : Multiset (ℕ × URL), Showing l₀ posts c (asked + waiting) res.1 ∧
      callbacks res.2 = asked.map fun p => .imageDownloaded c p.1 p.2 := by
  induction ps generalizing l res waiting with
  | nil =>
    cases hres
    exact ⟨0, h, rfl⟩
  | cons p ps ih =>
    obtain ⟨r₁, hr₁, hres⟩ := Option.bind_eq_some_iff.mp hres
    obtain ⟨r₂, hr₂, rfl⟩ := Option.map_eq_some_iff.mp hres
    rw [← Multiset.cons_coe, Multiset.cons_add] at h
    simp only [loadPhoto] at hr₁
    split at hr₁
    · -- the photo is in the cache
      rename_i image himage
      obtain ⟨l₁, hl₁, rfl⟩ := Option.map_eq_some_iff.mp hr₁
      obtain ⟨asked, hshowing, hcs⟩ := ih (h.photo (h.loading.cache _ _ himage) hl₁) hr₂
      exact ⟨asked, hshowing, by simpa using hcs⟩
    · cases hr₁
      have hlater : Showing l₀ posts c (↑ps + p ::ₘ waiting) l := by
        rw [Multiset.add_cons]
        exact h
      obtain ⟨asked, hshowing, hcs⟩ := ih hlater hr₂
      refine ⟨p ::ₘ asked, ?_, ?_⟩
      · rw [Multiset.cons_add, ← Multiset.add_cons]
        exact hshowing
      · simp [hcs]

/-- The steps of a good refresh are those of a refresh whose fetches succeed. -/
theorem fetching_of_good {m : Async.Move Callback Unit Event} (h : good l db m) :
    fetching l db m := by
  rcases m with e | ⟨k, ok, a⟩
  · cases e
    · exact h
    · exact h
    · exact h
    · trivial
  · cases k
    · exact h
    · exact h
    · trivial

/-- What is awaited is photos, each of which comes. -/
theorem Showing.step {x x' : Direct Firestore NewsFeed Callback}
    {m : Async.Move Callback Unit Event} (h : Showing l₀ posts c waiting x.loc)
    (hbag : x.bag = waiting.map fun p => .imageDownloaded c p.1 p.2)
    (ha : good x.loc x.store m) (hs : DirectStep program x m x') :
    ∃ waiting', Showing l₀ posts c waiting' x'.loc ∧
      x'.bag = waiting'.map fun p => .imageDownloaded c p.1 p.2 := by
  rcases fetching_cases (fetching_of_good ha) hs with
    ⟨url, rfl⟩ | ⟨k, ok, a, rest, r, rfl, hb, hr, rfl⟩
  · refine ⟨waiting, ⟨h.loading.setCache fun url' image hcache => ?_, ?_⟩, hbag⟩
    · by_cases hurl : url' = url
      · subst hurl
        simp at hcache
      · exact h.loading.cache url' image (by simpa [hurl] using hcache)
    · exact h.progress.imp (fun hun => ⟨⟨hun.1.totalPics, hun.1.reloads⟩, hun.2⟩)
        fun hfin => ⟨⟨hfin.1.totalPics, hfin.1.reloads, hfin.1.refreshing⟩, hfin.2⟩
  · have hk : k ∈ waiting.map fun p => Callback.imageDownloaded c p.1 p.2 :=
      hbag ▸ hb ▸ Multiset.mem_cons_self _ _
    obtain ⟨p, hp, rfl⟩ := Multiset.mem_map.mp hk
    obtain ⟨waiting', rfl⟩ := Multiset.exists_cons_of_mem hp
    rw [Multiset.map_cons] at hbag
    obtain rfl : rest = waiting'.map fun p => .imageDownloaded c p.1 p.2 :=
      (Multiset.cons_inj_right _).mp (hb.symm.trans hbag)
    obtain ⟨rfl, hstored⟩ : ok = true ∧ (x.loc.bucket.lookup p.2.path).isSome := ha
    obtain ⟨data, hdata⟩ := Option.isSome_iff_exists.mp hstored
    simp only [react, if_true, hdata] at hr
    obtain ⟨l', hl', rfl⟩ := Option.map_eq_some_iff.mp hr
    have himage : Photo l₀ p.2 (.ofData data) := by
      refine Or.inr ⟨data, ?_, rfl⟩
      rw [← h.loading.bucket]
      exact hdata
    refine ⟨waiting', ?_, by simp [Program.after]⟩
    -- the photo is put into the cache first
    have hcached : Showing l₀ posts c (p ::ₘ waiting') { x.loc with
        cache := Function.update x.loc.cache p.2 (some (.ofData data)) } := by
      refine ⟨h.loading.setCache fun url image hcache => ?_, ?_⟩
      · by_cases hurl : url = p.2
        · subst hurl
          rw [Function.update_self] at hcache
          cases hcache
          exact himage
        · exact h.loading.cache url image (by simpa [hurl] using hcache)
      · exact h.progress.imp (fun hun => ⟨⟨hun.1.totalPics, hun.1.reloads⟩, hun.2⟩)
          fun hfin => ⟨⟨hfin.1.totalPics, hfin.1.reloads, hfin.1.refreshing⟩, hfin.2⟩
    exact hcached.photo himage hl'

end

/-! ## A whole refresh -/

section

variable {l₀ l : NewsFeed} {db : Firestore} {ids : List EntryID}

/-- All posts are there: their photos start to be loaded. -/
theorem Gathered.showing (h : Gathered l₀ db ids l) {res : NewsFeed × List Cmd}
    (hres : loadPhotosFromStorage l = some res) :
    ∃ waiting, Showing l₀ l.postList l.nextCounter waiting res.1 ∧
      callbacks res.2 = waiting.map fun p => .imageDownloaded l.nextCounter p.1 p.2 := by
  have hfresh : ∀ r ∈ l.postList, (l.heap r).images = [] := by
    intro r hr
    have hmem : some (l.heap r) ∈ (ids : Multiset EntryID).map db.post := by
      rw [← h.made.made]
      exact Multiset.mem_map_of_mem _ (Multiset.mem_coe.mpr hr)
    obtain ⟨id, -, hid⟩ := Multiset.mem_map.mp hmem
    rw [← entry_of_post hid]
    rfl
  have hstart : Showing l₀ l.postList l.nextCounter (↑l.photos + 0) { l with
      doneCounter := Function.update l.doneCounter l.nextCounter 0
      nextCounter := l.nextCounter + 1 } := by
    rw [add_zero]
    refine ⟨⟨rfl, h.untouched.bucket, fun url image hc => Or.inl (h.untouched.cache _ _ hc),
      ?_, ?_⟩, Or.inl ⟨⟨h.made.totalPics, h.untouched.reloads⟩, ?_⟩⟩
    · simp [photos, pictures, List.length_flatMap]
    · intro r hr
      refine ⟨0, ?_, [], rfl, ?_⟩
      · rw [zero_add]
        exact awaited_photos h.made.nodup hr
      · rw [show (l.heap r).images = [] from hfresh r hr]
        exact .nil
    · intro hnone hsome
      refine absurd ?_ hsome
      have hlen := congrArg Multiset.card hnone
      simpa [photos, pictures, List.length_flatMap] using hlen
  obtain ⟨asked, hshowing, hcs⟩ := hstart.loadPhotos hres
  rw [add_zero] at hshowing
  exact ⟨asked, hshowing, hcs⟩

end

/-- What the user does is a refresh. -/
def Event.refreshes : Event → Prop
  | .evict _ => False
  | _ => True

/-- A refresh is under way that has started from `l₀`. -/
inductive Refreshing (l₀ : NewsFeed) (db : Firestore) (x : Direct Firestore NewsFeed Callback) :
    Prop
  | asked (h : Asked l₀ db x)
  | nothing (hids : db.newsfeedOf l₀.currentUser limit = []) (hbag : x.bag = 0)
      (htotal : x.loc.totalPics = l₀.totalPics)
  | gathering (h : Gathering l₀ db (db.newsfeedOf l₀.currentUser limit) x)
  | showing {posts : List ℕ} {c : ℕ} {waiting : Multiset (ℕ × URL)}
      (h : Showing l₀ posts c waiting x.loc)
      (hbag : x.bag = waiting.map fun p => .imageDownloaded c p.1 p.2)
      (hord : Ordered db (db.newsfeedOf l₀.currentUser limit) x)

section

variable {l₀ l l' : NewsFeed} {db db' : Firestore} {e : Event}
  {x x' : Direct Firestore NewsFeed Callback} {m : Async.Move Callback Unit Event}

theorem Refreshing.step (h : Refreshing l₀ db x) (ha : good x.loc x.store m)
    (hs : DirectStep program x m x') : Refreshing l₀ db x' := by
  have hfetch := fetching_of_good ha
  cases h with
  | asked h =>
    rcases h.step hfetch hs with h | ⟨hids, hbag, -, htotal⟩ | h
    · exact .asked h
    · exact .nothing hids hbag htotal
    · exact .gathering h
  | nothing hids hbag htotal =>
    rcases fetching_cases hfetch hs with ⟨url, rfl⟩ | ⟨k, ok, a, rest, r, -, hb, -⟩
    · exact .nothing hids hbag htotal
    · exact absurd (hb.symm.trans hbag) Multiset.cons_ne_zero
  | gathering h =>
    rcases h.step hfetch hs with h | ⟨l, r, hl, hr, rfl⟩
    · exact .gathering h
    · obtain ⟨waiting, hshowing, hcs⟩ := hl.showing hr
      exact .showing hshowing (by simpa [Program.after] using hcs) (hl.ordered hr)
  | showing h hbag hord =>
    obtain ⟨waiting', hshowing, hbag'⟩ := h.step hbag ha hs
    exact .showing hshowing hbag' (hord.step hfetch hs)

/-- A refresh from its start to its last callback. -/
theorem refreshing_of_completes (he : e.refreshes) (h : Completes program good e db l db' l') :
    Refreshing l db ⟨db', l', 0⟩ := by
  refine h.invariant (I := Refreshing l db) (fun r hr => .asked ?_) fun x m x' hx ha hs =>
    hx.step ha hs
  cases e with
  | evict url => exact he.elim
  | viewDidLoad =>
    cases hr
    exact ⟨rfl, .refl l, rfl, rfl⟩
  | refreshNewsFeed =>
    cases hr
    exact ⟨rfl, ⟨rfl, rfl, rfl, fun _ _ h => h⟩, rfl, rfl⟩
  | toTop =>
    cases hr
    exact ⟨rfl, .refl l, rfl, rfl⟩

/-- The table has been reloaded with the posts of the refresh, each with all its photos, and the
refresh control has stopped. -/
def Ended (db : Firestore) (l l' : NewsFeed) : Prop :=
  ∃ posts : List Post, l'.reloads = l.reloads ++ [posts] ∧
    (posts.map fun p => some p.entry).Perm
      ((db.newsfeedOf l.currentUser limit).map db.post) ∧
    (∀ p ∈ posts, Has l ↑p.imageUrls p) ∧ l'.refreshing = false

/-- There is a photo on the feed. -/
theorem pictures_ne_zero {ids : List EntryID} (hord : Ordered db ids x)
    (hphotos : ∃ id ∈ ids, ∃ p ∈ db.post id, p.imageUrls ≠ []) :
    pictures x.loc.heap x.loc.postList ≠ 0 := by
  obtain ⟨id, hid, p, hp, hurls⟩ := hphotos
  have hmem : some p ∈ x.loc.shown.map some :=
    hord.shown.mem_iff.mpr (List.mem_map.mpr ⟨id, hid, hp⟩)
  obtain ⟨q, hq, hpq⟩ := List.mem_map.mp hmem
  cases hpq
  obtain ⟨r, hr, rfl⟩ := List.mem_map.mp hq
  intro hzero
  have hnone := List.sum_eq_zero_iff_forall_eq_nat.mp hzero _ (List.mem_map_of_mem hr)
  exact hurls (List.length_eq_zero_iff.mp hnone)

/-- **A good refresh ends** exactly if no earlier refresh has left photos in `totalPics`. -/
theorem ends_iff (he : e.refreshes) (h : Completes program good e db l db' l')
    (hphotos : ∃ id ∈ db.newsfeedOf l.currentUser limit, ∃ p ∈ db.post id, p.imageUrls ≠ []) :
    Ended db l l' ↔ l.totalPics = 0 := by
  cases refreshing_of_completes he h with
  | asked h => exact absurd h.bag.symm (Multiset.singleton_ne_zero _)
  | nothing hids =>
    obtain ⟨id, hid, -⟩ := hphotos
    rw [hids] at hid
    cases hid
  | gathering h =>
    obtain ⟨t, fetched, todo, htodo, -, hbag, -⟩ := h.awaited
    exact absurd (Multiset.map_eq_zero.mp hbag.symm) htodo
  | @showing posts c waiting h hbag hord =>
    obtain rfl : waiting = 0 := Multiset.map_eq_zero.mp hbag.symm
    have hne := pictures_ne_zero hord hphotos
    have hposts : l'.postList = posts := h.loading.postList
    change pictures l'.heap l'.postList ≠ 0 at hne
    rw [hposts] at hne
    rcases h.progress with ⟨hun, hleft⟩ | ⟨hfin, -, hzero⟩
    · -- the counter has not reached the total
      refine iff_of_false ?_ (hleft rfl hne)
      rintro ⟨posts', hreloads, -⟩
      have hlen := congrArg List.length (hun.reloads.symm.trans hreloads)
      simp at hlen
    · refine iff_of_true ⟨posts.map l'.heap, hfin.reloads, ?_, ?_, hfin.refreshing⟩ hzero
      · have hshown := hord.shown
        simp only [NewsFeed.shown, hposts, List.map_map] at hshown ⊢
        exact hshown
      · intro p hp
        obtain ⟨r, hr, rfl⟩ := List.mem_map.mp hp
        obtain ⟨urls, hurls, hhas⟩ := h.loading.photos r hr
        have hall : urls = ↑(l'.heap r).imageUrls := by simpa [awaited] using hurls
        exact hall ▸ hhas

/-- What is left is left for ever: a good refresh leaves nothing exactly if it has found
nothing. -/
theorem totalPics_iff (he : e.refreshes) (h : Completes program good e db l db' l') :
    l'.totalPics = 0 ↔ l.totalPics = 0 := by
  cases refreshing_of_completes he h with
  | asked h => exact absurd h.bag.symm (Multiset.singleton_ne_zero _)
  | nothing hids hbag htotal => exact Eq.congr_left htotal
  | gathering h =>
    obtain ⟨t, fetched, todo, htodo, -, hbag, -⟩ := h.awaited
    exact absurd (Multiset.map_eq_zero.mp hbag.symm) htodo
  | @showing posts c waiting h hbag hord =>
    obtain rfl : waiting = 0 := Multiset.map_eq_zero.mp hbag.symm
    rcases h.progress with ⟨hun, hleft⟩ | ⟨hfin, -, hzero⟩
    · have htotal : l'.totalPics = l.totalPics + pictures l'.heap posts := hun.totalPics
      by_cases hne : pictures l'.heap posts = 0
      · omega
      · have := hleft rfl hne
        omega
    · exact iff_of_true hfin.totalPics hzero

end

/-! ## Some refreshes -/

/-- The feed of Ann has one entry, with a photo. -/
def samplePhotos : Firestore where
  users := ∅
  trips := ∅
  entries := AList.insert "a" { feedEntry "a" 1000000 with mediaList := [⟨"photo"⟩] } ∅
  newsfeed := AList.insert ("ann", "a") ⟨1000000, "bob"⟩ ∅

/-- The screen of Ann, with the photo in Storage. -/
def feedScreen : NewsFeed := opened "ann" (AList.insert "photo" "data" ∅)

/-- The callbacks of a refresh, the last of which is that of the photo. -/
def sampleCallbacks (ok : Bool) : List (Label Unit Event) :=
  [.deliver 0 true (), .deliver 0 true (), .deliver 0 ok ()]

instance : ∀ (l : NewsFeed) (db : Firestore) (m : Async.Move Callback Unit Event),
    Decidable (good l db m)
  | _, _, .event (.evict _) => .isTrue trivial
  | _, _, .event .viewDidLoad => .isFalse id
  | _, _, .event .refreshNewsFeed => .isFalse id
  | _, _, .event .toTop => .isFalse id
  | l, _, .deliver (.imageDownloaded _ _ url) ok _ =>
    inferInstanceAs (Decidable (ok = true ∧ (l.bucket.lookup url.path).isSome))
  | _, _, .deliver .feedFetched ok _ => inferInstanceAs (Decidable (ok = true))
  | _, _, .deliver (.entryFetched _ _ _) ok _ => inferInstanceAs (Decidable (ok = true))

/-- There is a photo on the feed of Ann. -/
theorem samplePhotos_photo : ∃ id ∈ samplePhotos.newsfeedOf "ann" limit,
    ∃ p ∈ samplePhotos.post id, p.imageUrls ≠ [] := by
  have hids : samplePhotos.newsfeedOf "ann" limit = ["a"] := by decide +kernel
  rw [hids]
  exact ⟨"a", List.mem_cons_self, _, rfl, by decide⟩

/-- The first refresh ends. -/
theorem ends_iff_sample : ∃ db l,
    Completes program good .viewDidLoad samplePhotos feedScreen db l ∧
    (Ended samplePhotos feedScreen l ↔ feedScreen.totalPics = 0) := by
  obtain ⟨⟨db, l⟩, hrun⟩ := Option.isSome_iff_exists.mp (by decide +kernel :
    (complete program good .viewDidLoad (sampleCallbacks true) samplePhotos feedScreen).isSome)
  have h := completes_of_complete hrun
  exact ⟨db, l, h, ends_iff (e := .viewDidLoad) trivial h samplePhotos_photo⟩

/-- A photo cannot be downloaded: the next refresh, a good one, never ends. -/
theorem refresh_never_ends : ∃ db₁ l₁ db₂ l₂,
    Completes program (fun _ _ _ => True) .viewDidLoad samplePhotos feedScreen db₁ l₁ ∧
    Completes program good .refreshNewsFeed db₁ l₁ db₂ l₂ ∧
    (∃ id ∈ db₁.newsfeedOf l₁.currentUser limit, ∃ p ∈ db₁.post id, p.imageUrls ≠ []) ∧
    l₂.refreshing = true ∧ ¬ Ended db₁ l₁ l₂ := by
  obtain ⟨⟨⟨db₁, l₁⟩, db₂, l₂⟩, hrun⟩ := Option.isSome_iff_exists.mp (by decide +kernel :
    ((complete program (fun _ _ _ => True) .viewDidLoad (sampleCallbacks false) samplePhotos
      feedScreen).bind fun r =>
        (complete program good .refreshNewsFeed (sampleCallbacks true) r.1 r.2).map
          fun r' => (r, r')).isSome)
  have hend : ∀ r ∈ ((complete program (fun _ _ _ => True) .viewDidLoad (sampleCallbacks false)
      samplePhotos feedScreen).bind fun r =>
        (complete program good .refreshNewsFeed (sampleCallbacks true) r.1 r.2).map
          fun r' => (r, r')),
      r.1.1.newsfeedOf r.1.2.currentUser limit = ["a"] ∧
        ((r.1.1.post "a").any fun p => p.imageUrls ≠ []) ∧ r.2.2.refreshing = true ∧
        r.1.2.reloads.length = r.2.2.reloads.length := by
    decide +kernel
  obtain ⟨hids, hphoto, hrefreshing, hreloads⟩ := hend _ hrun
  obtain ⟨r, hr, hrun⟩ := Option.bind_eq_some_iff.mp hrun
  obtain ⟨r', hr', heq⟩ := Option.map_eq_some_iff.mp hrun
  cases heq
  refine ⟨db₁, l₁, db₂, l₂, completes_of_complete hr, completes_of_complete hr', ?_,
    hrefreshing, ?_⟩
  · obtain ⟨p, hp, hurls⟩ := (Option.any_eq_true _ _).mp hphoto
    exact ⟨"a", hids ▸ List.mem_cons_self, p, hp, by simpa using hurls⟩
  · rintro ⟨posts, heq, -⟩
    have hlen := congrArg List.length heq
    rw [List.length_append, List.length_singleton] at hlen
    have hsame : l₁.reloads.length = l₂.reloads.length := hreloads
    omega

end NewsFeed

end Wanderlust
