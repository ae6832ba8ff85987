import Mathlib.Data.Multiset.MapFold
import Wanderlust.Foundations.Shared
import Wanderlust.Newsfeed.NewsFeed

/-!
# The order of the news feed

A refresh gathers the posts in the order in which their entries arrive (`Gathering`), and sorts
them when all are there (`Gathered`). The sort only looks at seconds, and is stable: so the order
of arrival does not matter exactly if no two different posts are of the same second
(`order_iff`).
-/

namespace Wanderlust

open Async

/-- A post without its photos. -/
def Post.entry (p : Post) : Post := { p with images := [], numPhotos := 0 }

/-- The newer of two posts, or one of the same second. -/
abbrev Post.Before (p p' : Post) : Prop := seconds p'.timestamp ≤ seconds p.timestamp

/-- The post of an entry, if it is there. -/
def Firestore.post (db : Firestore) (id : EntryID) : Option Post :=
  (db.entries.lookup id).bind NewsFeed.postOf

namespace NewsFeed

/-- The entries on the feed. -/
def shown (l : NewsFeed) : List Post := l.postList.map fun r => (l.heap r).entry

/-- The posts and their entries are the same. -/
structure SameEntries (l l' : NewsFeed) : Prop where
  postList : l'.postList = l.postList
  entry : ∀ r, (l'.heap r).entry = (l.heap r).entry

section

variable {l l' l'' : NewsFeed} {c : ℕ} {ps : List (ℕ × URL)} {r : NewsFeed × List Cmd}

theorem SameEntries.refl (l : NewsFeed) : SameEntries l l := ⟨rfl, fun _ => rfl⟩

theorem SameEntries.trans (h : SameEntries l l') (h' : SameEntries l' l'') : SameEntries l l'' :=
  ⟨h'.postList.trans h.postList, fun r => (h'.entry r).trans (h.entry r)⟩

theorem SameEntries.shown (h : SameEntries l l') : l'.shown = l.shown := by
  simp only [NewsFeed.shown, h.postList, h.entry]

theorem sameEntries_appendImage (r : ℕ) (image : UIImage) (l : NewsFeed) :
    SameEntries l (appendImage r image l) := by
  refine ⟨rfl, fun r' => ?_⟩
  simp only [appendImage]
  by_cases h : r' = r
  · subst h
    rw [Function.update_self]
    rfl
  · rw [Function.update_of_ne h]

theorem sameEntries_donePicture (h : donePicture c l = some l') : SameEntries l l' := by
  simp only [donePicture] at h
  split at h
  · split at h <;> cases h
    exact ⟨rfl, fun _ => rfl⟩
  · cases h
    exact ⟨rfl, fun _ => rfl⟩

theorem donePicture_isSome (c : ℕ) (h : l.postList ≠ []) : ∃ l', donePicture c l = some l' := by
  simp only [donePicture, if_neg h]
  split <;> exact ⟨_, rfl⟩

/-- A photo is shown at once, or asked for. -/
theorem loadPhoto_spec {p : ℕ × URL} (h : loadPhoto c p l = some r) :
    SameEntries l r.1 ∧ ∀ cmd ∈ r.2, cmd = .request (.imageDownloaded c p.1 p.2) := by
  simp only [loadPhoto] at h
  split at h
  · obtain ⟨l', hl', rfl⟩ := Option.map_eq_some_iff.mp h
    exact ⟨(sameEntries_appendImage _ _ l).trans (sameEntries_donePicture hl'), by simp⟩
  · cases h
    exact ⟨.refl l, by simp⟩

/-- Loading photos leaves the entries alone and asks for photos only. -/
theorem loadPhotos_spec (h : loadPhotos c ps l = some r) :
    SameEntries l r.1 ∧ ∀ cmd ∈ r.2, ∃ p url, cmd = .request (.imageDownloaded c p url) := by
  induction ps generalizing l r with
  | nil =>
    cases h
    exact ⟨.refl l, by simp⟩
  | cons p ps ih =>
    obtain ⟨r₁, hr₁, h⟩ := Option.bind_eq_some_iff.mp h
    obtain ⟨r₂, hr₂, rfl⟩ := Option.map_eq_some_iff.mp h
    obtain ⟨hsame₁, hcs₁⟩ := loadPhoto_spec hr₁
    obtain ⟨hsame₂, hcs₂⟩ := ih hr₂
    refine ⟨hsame₁.trans hsame₂, fun cmd hcmd => ?_⟩
    rcases List.mem_append.mp hcmd with hcmd | hcmd
    · exact ⟨_, _, hcs₁ cmd hcmd⟩
    · exact hcs₂ cmd hcmd

/-- Loading photos traps only if there are no posts. -/
theorem loadPhotos_isSome (c : ℕ) (ps : List (ℕ × URL)) (h : l.postList ≠ []) :
    ∃ r, loadPhotos c ps l = some r := by
  induction ps generalizing l with
  | nil => exact ⟨_, rfl⟩
  | cons p ps ih =>
    have hfirst : ∃ r₁, loadPhoto c p l = some r₁ := by
      simp only [loadPhoto]
      split
      · obtain ⟨l', hl'⟩ := donePicture_isSome c (l := appendImage p.1 _ l) h
        exact ⟨_, by rw [hl']; rfl⟩
      · exact ⟨_, rfl⟩
    obtain ⟨r₁, hr₁⟩ := hfirst
    have hsame := (loadPhoto_spec hr₁).1
    obtain ⟨r₂, hr₂⟩ := ih (l := r₁.1) (hsame.postList ▸ h)
    exact ⟨_, by rw [loadPhotos, hr₁, Option.bind_some, hr₂]; rfl⟩

end

/-! ## Gathering the posts -/

/-- How many photos the posts of a list have. -/
def pictures (heap : ℕ → Post) (posts : List ℕ) : ℕ :=
  (posts.map fun r => (heap r).imageUrls.length).sum

section

variable (l₀ : NewsFeed) (db : Firestore) (ids : List EntryID)

/-- What a refresh that has started from `l₀` leaves alone while it gathers posts. -/
structure Untouched (l : NewsFeed) : Prop where
  currentUser : l.currentUser = l₀.currentUser
  bucket : l.bucket = l₀.bucket
  reloads : l.reloads = l₀.reloads
  cache : ∀ url image, l.cache url = some image → l₀.cache url = some image

/-- The posts `posts` are those of `fetched`, as they have just been made. -/
structure Made (fetched : Multiset EntryID) (posts : List ℕ) (l : NewsFeed) : Prop where
  nodup : posts.Nodup
  bound : ∀ r ∈ posts, r < l.next
  made : (posts : Multiset ℕ).map (fun r => some (l.heap r)) = fetched.map db.post
  totalPics : l.totalPics = l₀.totalPics + pictures l.heap posts

/-- The entries that have been fetched are on the list, and the others are awaited. -/
structure Gathering (x : Direct Firestore NewsFeed Callback) : Prop where
  store : x.store = db
  untouched : Untouched l₀ x.loc
  awaited : ∃ (t : ℕ) (fetched todo : Multiset EntryID), todo ≠ 0 ∧ fetched + todo = ↑ids ∧
    x.bag = todo.map (.entryFetched t ids.length) ∧
    Made l₀ db fetched (x.loc.tempPostList t) x.loc

/-- All posts are there, and sorted. -/
structure Gathered (l : NewsFeed) : Prop where
  untouched : Untouched l₀ l
  made : Made l₀ db ids l.postList l
  sorted : (l.postList.map l.heap).Pairwise Post.Before

end

section

variable {l₀ l : NewsFeed} {db : Firestore} {ids : List EntryID} {t : ℕ}
  {fetched todo : Multiset EntryID} {posts : List ℕ}
  {x x' : Direct Firestore NewsFeed Callback} {m : Async.Move Callback Unit Event}

theorem Untouched.refl (l₀ : NewsFeed) : Untouched l₀ l₀ := ⟨rfl, rfl, rfl, fun _ _ h => h⟩

/-- An image is dropped from the cache. -/
theorem Untouched.evict (h : Untouched l₀ l) (url : URL) :
    Untouched l₀ { l with cache := Function.update l.cache url none } := by
  refine ⟨h.currentUser, h.bucket, h.reloads, fun url' image hcache => ?_⟩
  by_cases hurl : url' = url
  · subst hurl
    simp at hcache
  · exact h.cache url' image (by simpa [hurl] using hcache)

theorem Made.length (h : Made l₀ db fetched posts l) : posts.length = fetched.card := by
  have hcard := congrArg Multiset.card h.made
  simpa using hcard

/-- A post is made of an entry that has been fetched. -/
theorem Made.cons (h : Made l₀ db fetched posts l) (l' : NewsFeed) {id : EntryID} {d : EntryDoc}
    {post : Post} (hd : db.entries.lookup id = some d) (hpost : postOf d = some post)
    (hheap : l'.heap = Function.update l.heap l.next post) (hnext : l'.next = l.next + 1)
    (htotal : l'.totalPics = d.mediaList.length + l.totalPics) :
    Made l₀ db (id ::ₘ fetched) (posts ++ [l.next]) l' := by
  have hne : ∀ r ∈ posts, r ≠ l.next := fun r hr he => absurd (h.bound r hr) (by omega)
  have hnew : db.post id = some post := by rw [Firestore.post, hd]; exact hpost
  have hold : ∀ r ∈ posts, l'.heap r = l.heap r := fun r hr => by
    rw [hheap, Function.update_of_ne (hne r hr)]
  have hself : l'.heap l.next = post := by rw [hheap, Function.update_self]
  have hurls : post.imageUrls = d.mediaList := by
    obtain ⟨url, -, rfl⟩ := Option.map_eq_some_iff.mp hpost
    rfl
  refine ⟨?_, fun r hr => ?_, ?_, ?_⟩
  · refine List.nodup_append.mpr ⟨h.nodup, List.nodup_singleton _, ?_⟩
    rintro r hr r' hr' rfl
    exact hne r hr (List.mem_singleton.mp hr')
  · rw [hnext]
    rcases List.mem_append.mp hr with hr | hr
    · exact Nat.lt_succ_of_lt (h.bound r hr)
    · rw [List.mem_singleton.mp hr]
      exact Nat.lt_succ_self _
  · have hmade : (posts : Multiset ℕ).map (fun r => some (l'.heap r)) = fetched.map db.post := by
      rw [← h.made]
      exact Multiset.map_congr rfl fun r hr => by rw [hold r hr]
    rw [← Multiset.coe_add, Multiset.map_add, hmade, Multiset.map_cons, hnew,
      Multiset.coe_singleton, Multiset.map_singleton, hself, add_comm, Multiset.singleton_add]
  · have hsame : posts.map (fun r => (l'.heap r).imageUrls.length) =
        posts.map fun r => (l.heap r).imageUrls.length :=
      List.map_congr_left fun r hr => by rw [hold r hr]
    have htotal₀ := h.totalPics
    simp only [pictures] at htotal₀ ⊢
    rw [List.map_append, List.sum_append, hsame, List.map_singleton, List.sum_singleton, hself,
      hurls, htotal]
    omega

/-- Sorting the posts changes nothing else. -/
theorem Made.sort (h : Made l₀ db fetched posts l) {posts' : List ℕ} (hperm : posts'.Perm posts)
    {l' : NewsFeed} (hheap : l'.heap = l.heap) (hnext : l'.next = l.next)
    (htotal : l'.totalPics = l.totalPics) : Made l₀ db fetched posts' l' where
  nodup := hperm.nodup_iff.mpr h.nodup
  bound r hr := hnext ▸ h.bound r (hperm.mem_iff.mp hr)
  made := by rw [hheap, Multiset.coe_eq_coe.mpr hperm, h.made]
  totalPics := by
    rw [htotal, h.totalPics, hheap, pictures, pictures, (hperm.map _).sum_nat]

/-- The steps of a single refresh: all fetches succeed, and the cache may drop images. -/
def fetching (_ : NewsFeed) (_ : Firestore) : Async.Move Callback Unit Event → Prop
  | .event (.evict _) => True
  | .event _ => False
  | .deliver (.imageDownloaded _ _ _) _ _ => True
  | .deliver _ ok _ => ok = true

/-- What happens in a refresh: an image is dropped from the cache, or an answer arrives. -/
theorem fetching_cases (ha : fetching x.loc x.store m) (hs : DirectStep program x m x') :
    (∃ url, x' = { x with
      loc := { x.loc with cache := Function.update x.loc.cache url none } }) ∨
    ∃ k ok a rest r, m = .deliver k ok a ∧ x.bag = k ::ₘ rest ∧
      react k ok a x.loc x.store = some r ∧ x' = program.after r { x with bag := rest } := by
  cases hs with
  | @event e r he =>
    cases e with
    | evict url =>
      cases he
      exact Or.inl ⟨url, by simp [Program.after]⟩
    | viewDidLoad => exact ha.elim
    | refreshNewsFeed => exact ha.elim
    | toTop => exact ha.elim
  | deliver hb hr => exact Or.inr ⟨_, _, _, _, _, rfl, hb, hr, rfl⟩

/-- The posts are sorted. -/
theorem pairwise_before (l : NewsFeed) (posts : List ℕ) :
    ((posts.insertionSort fun p p' =>
      seconds (l.heap p').timestamp ≤ seconds (l.heap p).timestamp).map l.heap).Pairwise
      Post.Before := by
  rw [List.pairwise_map]
  exact pairwise_newest (fun p => seconds (l.heap p).timestamp) posts

/-- **One more post**: it is put on the list; or it is the last, and the photos are loaded. -/
theorem Gathering.step (h : Gathering l₀ db ids x) (ha : fetching x.loc x.store m)
    (hs : DirectStep program x m x') :
    Gathering l₀ db ids x' ∨ ∃ l r, Gathered l₀ db ids l ∧ loadPhotosFromStorage l = some r ∧
      x' = program.after r ⟨db, l, 0⟩ := by
  obtain ⟨t, fetched, todo, htodo, hids, hbag, hmade⟩ := h.awaited
  rcases fetching_cases ha hs with ⟨url, rfl⟩ | ⟨k, ok, a, rest, r, rfl, hb, hr, rfl⟩
  · refine Or.inl ⟨h.store, h.untouched.evict url, t, fetched, todo, htodo, hids, hbag, ?_⟩
    exact ⟨hmade.nodup, hmade.bound, hmade.made, hmade.totalPics⟩
  · have hk : k ∈ todo.map (.entryFetched t ids.length) := hbag ▸ hb ▸ Multiset.mem_cons_self _ _
    obtain ⟨id, hid, rfl⟩ := Multiset.mem_map.mp hk
    obtain ⟨todo', rfl⟩ := Multiset.exists_cons_of_mem hid
    rw [Multiset.map_cons] at hbag
    obtain rfl : rest = todo'.map (.entryFetched t ids.length) :=
      (Multiset.cons_inj_right _).mp (hb.symm.trans hbag)
    obtain rfl : ok = true := ha
    simp only [react, if_true, entryFetched] at hr
    obtain ⟨d, hd, hr⟩ := Option.bind_eq_some_iff.mp hr
    obtain ⟨post, hpost, hr⟩ := Option.bind_eq_some_iff.mp hr
    rw [h.store] at hd
    have hids' : (id ::ₘ fetched) + todo' = ↑ids := by
      rw [← hids, Multiset.cons_add, Multiset.add_cons]
    have hcount : fetched.card + todo'.card + 1 = ids.length := by
      have hcard := congrArg Multiset.card hids'
      simp only [Multiset.card_add, Multiset.card_cons, Multiset.coe_card] at hcard
      omega
    have hlen := hmade.length
    simp only [appendPost] at hr
    split at hr
    · -- the last post
      rename_i hfull
      simp only [List.length_append, List.length_singleton] at hfull
      obtain rfl : todo' = 0 := Multiset.card_eq_zero.mp (by omega)
      have hall : id ::ₘ fetched = ↑ids := by simpa using hids'
      refine Or.inr ⟨_, r, ⟨?_, ?_, pairwise_before _ _⟩, hr, ?_⟩
      · exact ⟨h.untouched.currentUser, h.untouched.bucket, h.untouched.reloads, h.untouched.cache⟩
      · rw [← hall]
        exact (hmade.cons { x.loc with
            heap := Function.update x.loc.heap x.loc.next post
            next := x.loc.next + 1
            totalPics := d.mediaList.length + x.loc.totalPics } hd hpost rfl rfl rfl).sort
          (List.perm_insertionSort _ _) rfl rfl rfl
      · simp [Program.after, h.store]
    · -- others are still awaited
      rename_i hfull
      cases hr
      refine Or.inl ⟨h.store, ?_, t, id ::ₘ fetched, todo', ?_, hids', ?_, ?_⟩
      · exact ⟨h.untouched.currentUser, h.untouched.bucket, h.untouched.reloads, h.untouched.cache⟩
      · rintro rfl
        simp only [List.length_append, List.length_singleton, Multiset.card_zero] at hfull hcount
        omega
      · simp [Program.after]
      · have hlist : ∀ l : NewsFeed, Made l₀ db (id ::ₘ fetched)
            (x.loc.tempPostList t ++ [x.loc.next]) l →
            l.tempPostList t = x.loc.tempPostList t ++ [x.loc.next] →
            Made l₀ db (id ::ₘ fetched) (l.tempPostList t) l := fun l hm he => he ▸ hm
        exact hlist _ (hmade.cons _ hd hpost rfl rfl rfl) (Function.update_self ..)

/-! ## The order in the end -/

/-- The callback is given a photo. -/
def Callback.photo : Callback → Bool
  | .imageDownloaded _ _ _ => true
  | _ => false

/-- The query of a refresh has not been answered. -/
structure Asked (l₀ : NewsFeed) (db : Firestore) (x : Direct Firestore NewsFeed Callback) :
    Prop where
  store : x.store = db
  untouched : Untouched l₀ x.loc
  totalPics : x.loc.totalPics = l₀.totalPics
  bag : x.bag = {.feedFetched}

/-- The posts have been put on the feed, newest first, and at most photos are still awaited. -/
structure Ordered (db : Firestore) (ids : List EntryID) (x : Direct Firestore NewsFeed Callback) :
    Prop where
  bag : ∀ k ∈ x.bag, k.photo = true
  shown : (x.loc.shown.map some).Perm (ids.map db.post)
  sorted : x.loc.shown.Pairwise Post.Before

theorem entry_of_post {id : EntryID} {p : Post} (h : db.post id = some p) : p.entry = p := by
  obtain ⟨d, -, h⟩ := Option.bind_eq_some_iff.mp h
  obtain ⟨url, -, rfl⟩ := Option.map_eq_some_iff.mp h
  rfl

/-- The posts that have just been made are the entries on the feed. -/
theorem Gathered.shown (h : Gathered l₀ db ids l) : l.shown = l.postList.map l.heap := by
  refine List.map_congr_left fun r hr => ?_
  have hmem : some (l.heap r) ∈ (ids : Multiset EntryID).map db.post := by
    rw [← h.made.made]
    exact Multiset.mem_map_of_mem _ (Multiset.mem_coe.mpr hr)
  obtain ⟨id, -, hid⟩ := Multiset.mem_map.mp hmem
  exact entry_of_post hid

theorem Gathered.ordered (h : Gathered l₀ db ids l) {r : NewsFeed × List Cmd}
    (hr : loadPhotosFromStorage l = some r) : Ordered db ids (program.after r ⟨db, l, 0⟩) := by
  obtain ⟨hsame, hcs⟩ := loadPhotos_spec hr
  have hshown : r.1.shown = l.postList.map l.heap := hsame.shown.trans h.shown
  refine ⟨fun k hk => ?_, ?_, ?_⟩
  · obtain ⟨cmd, hcmd, hk⟩ := mem_callbacks.mp (by simpa [Program.after] using hk)
    obtain ⟨p, url, rfl⟩ := hcs cmd hcmd
    cases hk
    rfl
  · have hmade := h.made.made
    rw [Multiset.map_coe, Multiset.map_coe, Multiset.coe_eq_coe] at hmade
    change (r.1.shown.map some).Perm _
    rw [hshown, List.map_map]
    exact hmade
  · change r.1.shown.Pairwise _
    rw [hshown]
    exact h.sorted

theorem Ordered.step (h : Ordered db ids x) (ha : fetching x.loc x.store m)
    (hs : DirectStep program x m x') : Ordered db ids x' := by
  have hsame : ∀ l bag, SameEntries x.loc l → (∀ k ∈ bag, k.photo = true) → ∀ store,
      Ordered db ids ⟨store, l, bag⟩ := fun l bag hsame hbag store =>
    ⟨hbag, hsame.shown ▸ h.shown, hsame.shown ▸ h.sorted⟩
  rcases fetching_cases ha hs with ⟨url, rfl⟩ | ⟨k, ok, a, rest, r, rfl, hb, hr, rfl⟩
  · exact hsame { x.loc with cache := Function.update x.loc.cache url none } _
      ⟨rfl, fun _ => rfl⟩ h.bag _
  · have hk : k.photo = true := h.bag k (hb ▸ Multiset.mem_cons_self _ _)
    have hrest : ∀ k ∈ rest, k.photo = true := fun k hk =>
      h.bag k (hb ▸ Multiset.mem_cons_of_mem hk)
    cases k with
    | feedFetched => cases hk
    | entryFetched list count id => cases hk
    | imageDownloaded c p url =>
      simp only [react] at hr
      split at hr
      · cases hr
        exact hsame _ _ (.refl _) (by simpa [Program.after] using hrest) _
      · obtain ⟨l', hl', rfl⟩ := Option.map_eq_some_iff.mp hr
        refine hsame _ _ (SameEntries.trans ?_ (sameEntries_donePicture hl'))
          (by simpa [Program.after] using hrest) _
        exact ⟨rfl, (sameEntries_appendImage p _ x.loc).entry⟩

/-- The query is answered. -/
theorem Asked.step (h : Asked l₀ db x) (ha : fetching x.loc x.store m)
    (hs : DirectStep program x m x') :
    Asked l₀ db x' ∨
      (db.newsfeedOf l₀.currentUser limit = [] ∧ x'.bag = 0 ∧ x'.loc.postList = [] ∧
        x'.loc.totalPics = l₀.totalPics) ∨
      Gathering l₀ db (db.newsfeedOf l₀.currentUser limit) x' := by
  rcases fetching_cases ha hs with ⟨url, rfl⟩ | ⟨k, ok, a, rest, r, rfl, hb, hr, rfl⟩
  · exact Or.inl ⟨h.store, h.untouched.evict url, h.totalPics, h.bag⟩
  · rw [h.bag] at hb
    obtain ⟨rfl, rfl⟩ : k = .feedFetched ∧ rest = 0 := by
      obtain ⟨hk, hrest⟩ | ⟨-, c, hrest, -⟩ := Multiset.cons_eq_cons.mp hb
      · exact ⟨hk.symm, hrest.symm⟩
      · exact absurd hrest.symm (Multiset.cons_ne_zero)
    obtain rfl : ok = true := ha
    simp only [react, if_true, h.store, h.untouched.currentUser, Option.some.injEq] at hr
    generalize hids : db.newsfeedOf l₀.currentUser limit = ids at hr
    simp only [feedFetched] at hr
    right
    split at hr <;> subst hr
    · rename_i hnil
      exact Or.inl ⟨List.length_eq_zero_iff.mp hnil, rfl, rfl, h.totalPics⟩
    · rename_i hne
      refine Or.inr ⟨?_, ?_, x.loc.nextList, 0, ids, ?_, zero_add _, ?_, ?_⟩
      · simp [Program.after, h.store]
      · exact ⟨h.untouched.currentUser, h.untouched.bucket, h.untouched.reloads, h.untouched.cache⟩
      · rintro hzero
        exact hne (by simpa using hzero)
      · simpa [Program.after] using callbacks_map_request _ ids
      · refine ⟨?_, ?_, ?_, ?_⟩ <;> simp [Program.after, pictures, h.totalPics]

/-- A refresh of the screen `l`, until nothing but photos is awaited: the screen is then `l'`. -/
def Loads (db : Firestore) (l l' : NewsFeed) : Prop :=
  ∃ st₁ st, program.step (.event .refreshNewsFeed) (start db l) = some st₁ ∧
    Reaches program fetching st₁ st ∧ (∀ k ∈ (program.direct st).bag, k.photo = true) ∧
    l' = st.loc

theorem ordered_of_loads (h : Loads db l₀ l) :
    (l.shown.map some).Perm ((db.newsfeedOf l₀.currentUser limit).map db.post) ∧
      l.shown.Pairwise Post.Before := by
  obtain ⟨st₁, st, hstep, hrun, hbag, rfl⟩ := h
  have hstart : Asked l₀ db (program.direct st₁) := by
    cases hstep
    exact ⟨rfl, ⟨rfl, rfl, rfl, fun _ _ h => h⟩, rfl, rfl⟩
  have hend := hrun.invariant (I := fun x => Asked l₀ db x ∨
      Gathering l₀ db (db.newsfeedOf l₀.currentUser limit) x ∨
      Ordered db (db.newsfeedOf l₀.currentUser limit) x) (fun x m x' hx ha hs => ?_) (Or.inl hstart)
  · rcases hend with hasked | hgath | hord
    · exact absurd (hbag .feedFetched (by rw [hasked.bag]; exact Multiset.mem_singleton_self _))
        (by decide)
    · obtain ⟨t, fetched, todo, htodo, -, hb, -⟩ := hgath.awaited
      obtain ⟨id, hid⟩ := Multiset.exists_mem_of_ne_zero htodo
      exact absurd (hbag _ (hb ▸ Multiset.mem_map_of_mem _ hid)) (by simp [Callback.photo])
    · exact ⟨hord.shown, hord.sorted⟩
  · rcases hx with hasked | hgath | hord
    · rcases hasked.step ha hs with h | ⟨hids, hb, hpost, -⟩ | h
      · exact Or.inl h
      · refine Or.inr (Or.inr ⟨by simp [hb], ?_, ?_⟩) <;> simp [NewsFeed.shown, hpost, hids]
      · exact Or.inr (Or.inl h)
    · rcases hgath.step ha hs with h | ⟨l, r, hl, hr, rfl⟩
      · exact Or.inr (Or.inl h)
      · exact Or.inr (Or.inr (hl.ordered hr))
    · exact Or.inr (Or.inr (hord.step ha hs))

/-! ## All orders of arrival -/

/-- The fetches of the entries `ls`, on their way. -/
def fetches (t n : ℕ) (ls : List EntryID) : List (Callback × Option Bool) :=
  ls.map fun id => (.entryFetched t n id, none)

theorem map_set_heap {posts : List ℕ} {heap : ℕ → Post} {n : ℕ} {post : Post}
    (h : ∀ r ∈ posts, r < n) :
    (posts ++ [n]).map (Function.update heap n post) = posts.map heap ++ [post] := by
  have hold : posts.map (Function.update heap n post) = posts.map heap :=
    List.map_congr_left fun r hr => Function.update_of_ne (h r hr).ne _ _
  rw [List.map_append, hold, List.map_singleton, Function.update_self]

/-- The posts of the list `t` are these, as they have just been made. -/
structure Lists (t : ℕ) (ps : List Post) (l : NewsFeed) : Prop where
  posts : (l.tempPostList t).map l.heap = ps
  bound : ∀ r ∈ l.tempPostList t, r < l.next
  entry : ∀ p ∈ ps, p.entry = p

section

variable {n : ℕ} {d : EntryDoc} {p : Post} {ps : List Post}

theorem Lists.append (h : Lists t ps l) (hpost : postOf d = some p) :
    (l.tempPostList t ++ [l.next]).map (Function.update l.heap l.next p) = ps ++ [p] ∧
      (l.tempPostList t ++ [l.next]).length = ps.length + 1 ∧ ∀ q ∈ ps ++ [p], q.entry = q := by
  have hp : p.entry = p := by
    obtain ⟨url, -, rfl⟩ := Option.map_eq_some_iff.mp hpost
    rfl
  refine ⟨?_, by simp [← h.posts], fun q hq => ?_⟩
  · rw [map_set_heap h.bound, h.posts]
  · rcases List.mem_append.mp hq with hq | hq
    · exact h.entry q hq
    · rw [List.mem_singleton.mp hq, hp]

/-- The last entry: the posts are sorted, and their photos loaded. -/
theorem Lists.last (h : Lists t ps l) (hpost : postOf d = some p) (hn : ps.length + 1 = n) :
    ∃ r, entryFetched t n d l = some r ∧ r.1.shown = (ps ++ [p]).insertionSort Post.Before ∧
      ∀ k ∈ callbacks r.2, k.photo = true := by
  obtain ⟨hmap, hlen, hentry⟩ := h.append hpost
  have hlast : (l.tempPostList t ++ [l.next]).length = n := hlen.trans hn
  rw [entryFetched, hpost, Option.bind_some, appendPost, if_pos hlast]
  -- the screen when the photos start to be loaded
  dsimp only
  generalize hl : NewsFeed.mk _ _ _ _ _ _ _ _ _ _ _ _ _ = l₁
  have hheap : l₁.heap = Function.update l.heap l.next p := by rw [← hl]
  have hlist : l₁.postList.map l₁.heap = (ps ++ [p]).insertionSort Post.Before := by
    rw [← hmap, hheap, ← hl]
    exact List.map_insertionSort _ _ _ _ fun _ _ _ _ => Iff.rfl
  have hshown : l₁.shown = (ps ++ [p]).insertionSort Post.Before := by
    rw [← hlist]
    refine List.map_congr_left fun r hr => ?_
    have hmem : l₁.heap r ∈ (ps ++ [p]).insertionSort Post.Before := hlist ▸ List.mem_map_of_mem hr
    exact hentry _ ((List.mem_insertionSort _).mp hmem)
  have hne : l₁.postList ≠ [] := by
    intro hnil
    have hzero := congrArg List.length hlist
    simp [hnil] at hzero
  obtain ⟨r, hr⟩ := loadPhotos_isSome (l := { l₁ with
    doneCounter := Function.update l₁.doneCounter l₁.nextCounter 0
    nextCounter := l₁.nextCounter + 1 }) l₁.nextCounter l₁.photos hne
  obtain ⟨hsame, hcs⟩ := loadPhotos_spec hr
  refine ⟨r, hr, hsame.shown.trans hshown, fun k hk => ?_⟩
  obtain ⟨cmd, hcmd, hk⟩ := mem_callbacks.mp hk
  obtain ⟨q, url, rfl⟩ := hcs cmd hcmd
  cases hk
  rfl

/-- An entry that is not the last. -/
theorem Lists.more (h : Lists t ps l) (hpost : postOf d = some p) (hn : ps.length + 1 ≠ n) :
    ∃ l', entryFetched t n d l = some (l', []) ∧ Lists t (ps ++ [p]) l' := by
  obtain ⟨hmap, hlen, hentry⟩ := h.append hpost
  have hmore : (l.tempPostList t ++ [l.next]).length ≠ n := hlen ▸ hn
  refine ⟨_, by rw [entryFetched, hpost, Option.bind_some, appendPost, if_neg hmore],
    ?_, ?_, hentry⟩
  · simpa using hmap
  · intro r hr
    simp only [Function.update_self] at hr
    rcases List.mem_append.mp hr with hr | hr
    · exact Nat.lt_succ_of_lt (h.bound r hr)
    · rw [List.mem_singleton.mp hr]
      exact Nat.lt_succ_self _

end

/-- **The entries can arrive in any order**, and the posts are then sorted from that order. -/
theorem arrive {n : ℕ} {order ps : List Post} {ls : List EntryID}
    {st : State Firestore NewsFeed Write Callback} (hstore : st.store = db) (hqueue : st.queue = [])
    (hready : st.ready = fetches t n ls) (hperm : (ls.map db.post).Perm (order.map some))
    (hlists : Lists t ps st.loc) (hcount : ps.length + order.length = n) (hne : order ≠ []) :
    ∃ st', Reaches program fetching st st' ∧
      (∀ k ∈ (program.direct st').bag, k.photo = true) ∧
      st'.loc.shown = (ps ++ order).insertionSort Post.Before := by
  induction order generalizing st ps ls with
  | nil => exact absurd rfl hne
  | cons p order ih =>
    have hview : program.view st = db := by simp [Program.view, hqueue, hstore]
    have hmem : some p ∈ ls.map db.post := hperm.mem_iff.mpr (by simp)
    obtain ⟨id, hid, hpost⟩ := List.mem_map.mp hmem
    obtain ⟨i, hi, hget⟩ := List.getElem_of_mem hid
    obtain ⟨d, hd, hof⟩ := Option.bind_eq_some_iff.mp hpost
    have hget? : st.ready[i]? = some (.entryFetched t n id, none) := by
      rw [hready, fetches, List.getElem?_map, List.getElem?_eq_getElem hi, hget]
      rfl
    have hpermits : Permits program fetching st (.deliver i true ()) := by
      simp only [Permits, hget?]
      rfl
    -- the next entry is fetched
    have hdeliver : ∀ r, entryFetched t n d st.loc = some r →
        program.step (.deliver i true ()) st =
          some ({ st with loc := r.1, ready := st.ready.eraseIdx i }.issue r.2) := by
      intro r hr
      have hreact : program.react (.entryFetched t n id) true () st.loc db = some r := by
        change (db.entries.lookup id).bind _ = some r
        rw [hd]
        exact hr
      simp only [Program.step, hget?, hview, hreact]
      rfl
    have herase : st.ready.eraseIdx i = fetches t n (ls.eraseIdx i) := by
      rw [hready, fetches, fetches, List.eraseIdx_map]
    have hrest : ((ls.eraseIdx i).map db.post).Perm (order.map some) := by
      have hcons : (ls.map db.post).Perm (some p :: (ls.eraseIdx i).map db.post) := by
        rw [← hpost, ← List.map_cons, ← hget]
        exact ((List.getElem_cons_eraseIdx_perm hi).map db.post).symm
      simpa using hcons.symm.trans hperm
    cases order with
    | nil =>
      obtain ⟨r, hr, hshown, hcs⟩ := hlists.last hof hcount
      have hnone : ls.eraseIdx i = [] := by simpa using hrest.length_eq
      refine ⟨_, ⟨[.deliver i true ()], .cons hpermits (hdeliver r hr) (.nil _)⟩, ?_, ?_⟩
      · rw [direct_issue]
        intro k hk
        refine hcs k ?_
        simpa [Program.after, Program.direct, herase, hnone, fetches, hqueue] using hk
      · rw [← hshown]
        have hloc := congrArg (fun x => x.loc.shown) (direct_issue (P := program)
          { st with loc := r.1, ready := st.ready.eraseIdx i } r.2)
        exact hloc
    | cons q order =>
      obtain ⟨l', hl', hlists'⟩ := hlists.more hof (n := n) (by simp at hcount; omega)
      let st₁ : State Firestore NewsFeed Write Callback :=
        { st with loc := l', ready := st.ready.eraseIdx i }
      obtain ⟨st', ⟨lbls, hrun⟩, hbag, hshown⟩ := ih (show st₁.store = db from hstore) hqueue herase
        hrest hlists' (by simp at hcount ⊢; omega) (by simp)
      refine ⟨st', ⟨.deliver i true () :: lbls, .cons hpermits (hdeliver _ hl') hrun⟩, hbag, ?_⟩
      rw [hshown, List.append_assoc, List.singleton_append]

theorem loads_of_order {order : List Post}
    (hperm : ((db.newsfeedOf l.currentUser limit).map db.post).Perm (order.map some))
    (hne : order ≠ []) :
    ∃ l', Loads db l l' ∧ l'.shown = order.insertionSort Post.Before := by
  generalize hids : db.newsfeedOf l.currentUser limit = ids at hperm
  have hlen : ids.length = order.length := by simpa using hperm.length_eq
  have hpos : ids.length ≠ 0 := by
    rw [hlen]
    exact mt List.length_eq_zero_iff.mp hne
  -- the query is answered
  let l₁ : NewsFeed := { l with
    refreshing := true
    tempPostList := Function.update l.tempPostList l.nextList []
    nextList := l.nextList + 1 }
  let st₁ : State Firestore NewsFeed Write Callback :=
    ⟨db, l₁, [], fetches l.nextList ids.length ids⟩
  have hquery : program.step (.deliver 0 true ())
      (⟨db, { l with refreshing := true }, [], [(.feedFetched, none)]⟩ :
        State Firestore NewsFeed Write Callback) = some st₁ := by
    have hreact : feedFetched ids { l with refreshing := true } =
        (l₁, ids.map fun id => .request (.entryFetched l.nextList ids.length id)) := if_neg hpos
    simp only [Program.step, List.getElem?_cons_zero, true_or, if_true, program, react,
      Program.view, List.foldl_nil, hids, hreact, Option.map_some, issue_eq,
      List.eraseIdx_cons_zero, writes_map_request, requests_map_request, List.nil_append]
    rfl
  obtain ⟨st', ⟨lbls, hrun⟩, hbag, hshown⟩ := arrive (show st₁.store = db from rfl) rfl
    rfl hperm (show Lists l.nextList [] st₁.loc from
      ⟨by simp [st₁, l₁], by simp [st₁, l₁], by simp⟩) (by simpa using hlen.symm) hne
  exact ⟨_, ⟨_, st', rfl, ⟨.deliver 0 true () :: lbls, .cons rfl hquery hrun⟩, hbag, rfl⟩, hshown⟩

/-- **The order does not depend on the network** exactly if the entries of one second are the
same. -/
theorem order_iff (hdocs : ∀ id ∈ db.newsfeedOf l.currentUser limit, (db.post id).isSome) :
    (∀ l₁ l₂, Loads db l l₁ → Loads db l l₂ → l₁.shown = l₂.shown) ↔
      ∀ id ∈ db.newsfeedOf l.currentUser limit, ∀ id' ∈ db.newsfeedOf l.currentUser limit,
        ∀ p ∈ db.post id, ∀ p' ∈ db.post id',
          seconds p.timestamp = seconds p'.timestamp → p = p' := by
  obtain ⟨qs, hqs⟩ : ∃ qs : List Post,
      (db.newsfeedOf l.currentUser limit).map db.post = qs.map some := by
    generalize db.newsfeedOf l.currentUser limit = ids at hdocs
    induction ids with
    | nil => exact ⟨[], rfl⟩
    | cons id ids ih =>
      obtain ⟨p, hp⟩ := Option.isSome_iff_exists.mp (hdocs id List.mem_cons_self)
      obtain ⟨qs, hqs⟩ := ih fun id hid => hdocs id (List.mem_cons_of_mem _ hid)
      exact ⟨p :: qs, by rw [List.map_cons, hp, hqs, List.map_cons]⟩
  have hmem : ∀ p, p ∈ qs ↔ ∃ id ∈ db.newsfeedOf l.currentUser limit, p ∈ db.post id := by
    intro p
    have hp : some p ∈ qs.map some ↔ p ∈ qs := by simp
    rw [← hp, ← hqs, List.mem_map]
    rfl
  have hsort : (∀ l₁ l₂, Loads db l l₁ → Loads db l l₂ → l₁.shown = l₂.shown) ↔
      ∀ o₁ o₂ : List Post, o₁.Perm qs → o₂.Perm qs →
        o₁.insertionSort Post.Before = o₂.insertionSort Post.Before := by
    constructor
    · intro hall o₁ o₂ h₁ h₂
      by_cases hnil : o₁ = []
      · subst hnil
        rw [List.nil_perm.mp h₁] at h₂
        rw [List.perm_nil.mp h₂]
      · have hnil₂ : o₂ ≠ [] := fun h => hnil (by
          rw [h] at h₂
          rw [List.nil_perm.mp h₂] at h₁
          exact List.perm_nil.mp h₁)
        obtain ⟨l₁, hl₁, hs₁⟩ := loads_of_order (hqs ▸ (h₁.map some).symm) hnil
        obtain ⟨l₂, hl₂, hs₂⟩ := loads_of_order (hqs ▸ (h₂.map some).symm) hnil₂
        rw [← hs₁, ← hs₂]
        exact hall l₁ l₂ hl₁ hl₂
    · intro hall l₁ l₂ h₁ h₂
      obtain ⟨hperm₁, hsort₁⟩ := ordered_of_loads h₁
      obtain ⟨hperm₂, hsort₂⟩ := ordered_of_loads h₂
      rw [hqs] at hperm₁ hperm₂
      rw [← hsort₁.insertionSort_eq, ← hsort₂.insertionSort_eq]
      exact hall _ _ ((List.map_perm_map_iff (Option.some_injective _)).mp hperm₁)
        ((List.map_perm_map_iff (Option.some_injective _)).mp hperm₂)
  have hstable := sort_const_iff (l := qs) fun p : Post => seconds p.timestamp
  refine hsort.trans (hstable.trans ?_)
  simp only [hmem]
  constructor
  · intro h id hid id' hid' p hp p' hp'
    exact h p ⟨id, hid, hp⟩ p' ⟨id', hid', hp'⟩
  · rintro h p ⟨id, hid, hp⟩ p' ⟨id', hid', hp'⟩
    exact h id hid id' hid' p hp p' hp'

end

/-! ## Some feeds -/

/-- An entry of this time. -/
def feedEntry (id : EntryID) (time : Timestamp) : EntryDoc :=
  { sampleEntryDoc id with timestamp := time, userID := "bob", username := none, tripID := none }

/-- The feed of Ann has two entries, of these times. -/
def sampleFeed (time time' : Timestamp) : Firestore where
  users := ∅
  trips := ∅
  entries := (AList.insert "a" (feedEntry "a" time) ∅).insert "b" (feedEntry "b" time')
  newsfeed := (AList.insert ("ann", "a") ⟨time, "bob"⟩ ∅).insert ("ann", "b") ⟨time', "bob"⟩

/-- A feed whose entries are a second apart. -/
theorem order_iff_sample :
    (sampleFeed 1000000 2000000).newsfeedOf (opened "ann" ∅).currentUser limit = ["b", "a"] ∧
    ∀ l₁ l₂, Loads (sampleFeed 1000000 2000000) (opened "ann" ∅) l₁ →
      Loads (sampleFeed 1000000 2000000) (opened "ann" ∅) l₂ → l₁.shown = l₂.shown := by
  have hids : (sampleFeed 1000000 2000000).newsfeedOf (opened "ann" ∅).currentUser limit =
      ["b", "a"] := by decide +kernel
  have ha : (sampleFeed 1000000 2000000).post "a" = postOf (feedEntry "a" 1000000) := rfl
  have hb : (sampleFeed 1000000 2000000).post "b" = postOf (feedEntry "b" 2000000) := rfl
  refine ⟨hids, (order_iff ?_).mpr ?_⟩
  · rw [hids]
    simp [ha, hb, postOf, feedEntry, sampleEntryDoc]
  · rw [hids]
    simp [ha, hb, postOf, feedEntry, sampleEntryDoc, seconds]

/-- Two entries of one second are shown in either order. -/
theorem order_depends : ∃ l₁ l₂,
    Loads (sampleFeed 1000000 1000001) (opened "ann" ∅) l₁ ∧
    Loads (sampleFeed 1000000 1000001) (opened "ann" ∅) l₂ ∧
    l₁.shown.map (fun p => p.entryID) = ["a", "b"] ∧
    l₂.shown.map (fun p => p.entryID) = ["b", "a"] := by
  have hids : (sampleFeed 1000000 1000001).newsfeedOf (opened "ann" ∅).currentUser limit =
      ["b", "a"] := by decide +kernel
  obtain ⟨a, ha⟩ : ∃ p, postOf (feedEntry "a" 1000000) = some p := ⟨_, rfl⟩
  obtain ⟨b, hb⟩ : ∃ p, postOf (feedEntry "b" 1000001) = some p := ⟨_, rfl⟩
  have hposts : ["b", "a"].map (sampleFeed 1000000 1000001).post = [some b, some a] := by
    rw [← ha, ← hb]
    rfl
  have hload : ∀ order : List Post, [some b, some a].Perm (order.map some) → order ≠ [] →
      ∃ l', Loads (sampleFeed 1000000 1000001) (opened "ann" ∅) l' ∧
        l'.shown = order.insertionSort Post.Before :=
    fun _ hperm hne => loads_of_order (by rwa [hids, hposts]) hne
  obtain ⟨l₁, h₁, hs₁⟩ := hload [a, b] (List.Perm.swap _ _ _) (by simp)
  obtain ⟨l₂, h₂, hs₂⟩ := hload [b, a] (List.Perm.refl _) (by simp)
  cases ha
  cases hb
  exact ⟨l₁, l₂, h₁, h₂, by rw [hs₁]; decide, by rw [hs₂]; decide⟩

end NewsFeed

end Wanderlust
