import Wanderlust.Foundations.Runs
import Wanderlust.Trips.Commands

/-!
# What the counters count

The closures of the screen count their calls with variables that they share. A counter is made
for one purpose (`Role`): the images of an entry that is loaded, the uploads of one entry for one
press of the save button, the entries that a press has written, or the entries that have been
linked or numbered. `Wired` says that every callback on its way uses its counters as what they were
made for, and that the uploads counted so far and those on their way are not more than the images.
It holds all the time, whatever the answers are, while the images that are uploaded stay as they
are (`Wired.step`).
-/

namespace Wanderlust

open Async

namespace EditTrip

/-- What a counter counts. -/
inductive Role
  | images
  | uploads (press r : ℕ)
  | entries
  | links
  deriving DecidableEq

/-- The counter that a callback adds to. -/
def Callback.counter : Callback → Option ℕ
  | .imageDownloaded _ doneCounter _ _ => some doneCounter
  | .imageUploaded currentIndex _ _ _ _ => some currentIndex
  | .imageURL currentIndex _ _ _ => some currentIndex
  | .entryWritten press _ => some press
  | .tripIDUpdated tempEntryList _ _ => some tempEntryList
  | .entryOrderUpdated tempEntryList _ _ => some tempEntryList
  | _ => none

/-- The counters that a callback refers to are in use, for what it takes them for. -/
def Callback.Uses (role : ℕ → Role) (next : ℕ) : Callback → Prop
  | .imageDownloaded _ c _ _ => c < next ∧ role c = .images
  | .imageUploaded c press r _ _ =>
    (c < next ∧ role c = .uploads press r) ∧ press < next ∧ role press = .entries
  | .imageURL c press r _ =>
    (c < next ∧ role c = .uploads press r) ∧ press < next ∧ role press = .entries
  | .entryWritten press _ => press < next ∧ role press = .entries
  | .tripIDUpdated c _ _ => c < next ∧ role c = .links
  | .entryOrderUpdated c _ _ => c < next ∧ role c = .links
  | _ => True

/-- The number of callbacks on their way that add to a counter. -/
def waiting (c : ℕ) (bag : Multiset Callback) : ℕ := bag.countP fun k => k.counter = some c

/-- `n` images of an annotation are counted or on their way: not more than it has, and all of them
if all can be encoded. -/
def Filled (n : ℕ) (a : CustomAnnotation) : Prop :=
  n ≤ a.images.length ∧ ((∀ image ∈ a.images, image.jpegData.isSome) → n = a.images.length)

/-- The counters are used as what they are, and those of the uploads of the annotations `R p` for a
press `p` are right. -/
structure Wired (R : ℕ → Set ℕ) (role : ℕ → Role) (x : Direct Firestore EditTrip Callback) :
    Prop where
  uses : ∀ k ∈ x.bag, k.Uses role x.loc.nextCount
  filled : ∀ c press r, role c = .uploads press r → r ∈ R press → 0 < waiting c x.bag →
    Filled (x.loc.counts c + waiting c x.bag) (x.loc.heap r)

/-- The counters in use keep their purpose. -/
def Extends (next : ℕ) (role role' : ℕ → Role) : Prop := ∀ c < next, role' c = role c

/-- More counters may be in use, each for one purpose. -/
def Rewired (R : ℕ → Set ℕ) (role : ℕ → Role) (next : ℕ) (x : Direct Firestore EditTrip Callback) :
    Prop :=
  next ≤ x.loc.nextCount ∧ ∃ role', Extends next role role' ∧ Wired R role' x

section

variable {R : ℕ → Set ℕ} {role role' role'' : ℕ → Role} {n n' c : ℕ} {k : Callback}
  {bag bag' rest : Multiset Callback} {x x' : Direct Firestore EditTrip Callback} {l : EditTrip}

@[simp] theorem waiting_zero (c : ℕ) : waiting c 0 = 0 := rfl

@[simp] theorem waiting_add (c : ℕ) (bag bag' : Multiset Callback) :
    waiting c (bag + bag') = waiting c bag + waiting c bag' := Multiset.countP_add _ _ _

theorem waiting_cons_self (hk : k.counter = some c) (bag : Multiset Callback) :
    waiting c (k ::ₘ bag) = waiting c bag + 1 := Multiset.countP_cons_of_pos _ hk

theorem waiting_cons_ne (hk : k.counter ≠ some c) (bag : Multiset Callback) :
    waiting c (k ::ₘ bag) = waiting c bag := Multiset.countP_cons_of_neg _ hk

theorem waiting_cons_other {c' : ℕ} (hk : k.counter = some c) (hne : c ≠ c')
    (bag : Multiset Callback) : waiting c' (k ::ₘ bag) = waiting c' bag :=
  waiting_cons_ne (fun he => hne (Option.some.inj (hk.symm.trans he))) bag

theorem waiting_pos : 0 < waiting c bag ↔ ∃ k ∈ bag, k.counter = some c := Multiset.countP_pos

theorem waiting_eq_zero : waiting c bag = 0 ↔ ∀ k ∈ bag, k.counter ≠ some c :=
  Multiset.countP_eq_zero

theorem Filled.congr {m : ℕ} {a b : CustomAnnotation} (h : Filled n a) (hn : m = n)
    (hi : b.images = a.images) : Filled m b := by
  subst hn
  simpa only [Filled, hi] using h

theorem Extends.refl (n : ℕ) (role : ℕ → Role) : Extends n role role := fun _ _ => rfl

theorem Extends.trans (h : Extends n role role') (h' : Extends n' role' role'') (hn : n ≤ n') :
    Extends n role role'' := fun c hc => (h' c (hc.trans_le hn)).trans (h c hc)

theorem extends_update (n : ℕ) (role : ℕ → Role) (ρ : Role) :
    Extends n role (Function.update role n ρ) := fun _ hc => Function.update_of_ne hc.ne ..

theorem Callback.Uses.mono (h : k.Uses role n) (hr : Extends n role role') (hn : n ≤ n') :
    k.Uses role' n' := by
  cases k with
  | imageDownloaded r c urls url => exact ⟨h.1.trans_le hn, (hr _ h.1).trans h.2⟩
  | imageUploaded c press r path data =>
    obtain ⟨⟨hc, hc'⟩, hp, hp'⟩ := h
    exact ⟨⟨hc.trans_le hn, (hr _ hc).trans hc'⟩, hp.trans_le hn, (hr _ hp).trans hp'⟩
  | imageURL c press r path =>
    obtain ⟨⟨hc, hc'⟩, hp, hp'⟩ := h
    exact ⟨⟨hc.trans_le hn, (hr _ hc).trans hc'⟩, hp.trans_le hn, (hr _ hp).trans hp'⟩
  | entryWritten press r => exact ⟨h.1.trans_le hn, (hr _ h.1).trans h.2⟩
  | tripIDUpdated c ids t => exact ⟨h.1.trans_le hn, (hr _ h.1).trans h.2⟩
  | entryOrderUpdated c m t => exact ⟨h.1.trans_le hn, (hr _ h.1).trans h.2⟩
  | _ => trivial

theorem Callback.Uses.lt (h : k.Uses role n) (hc : k.counter = some c) : c < n := by
  cases k <;> simp only [Callback.counter, Option.some.injEq, reduceCtorEq] at hc <;> subst hc
  case imageUploaded => exact h.1.1
  case imageURL => exact h.1.1
  all_goals exact h.1

/-- A callback that adds to a counter of uploads is an upload. -/
theorem Callback.Uses.upload (h : k.Uses role n) (hc : k.counter = some c) {press r : ℕ}
    (hr : role c = .uploads press r) :
    (∃ path data, k = .imageUploaded c press r path data) ∨
      ∃ path, k = .imageURL c press r path := by
  cases k <;> simp only [Callback.counter, Option.some.injEq, reduceCtorEq] at hc <;> subst hc
  case imageUploaded c press' r' path data =>
    obtain ⟨rfl, rfl⟩ := Role.uploads.inj (hr.symm.trans h.1.2)
    exact Or.inl ⟨path, data, rfl⟩
  case imageURL c press' r' path =>
    obtain ⟨rfl, rfl⟩ := Role.uploads.inj (hr.symm.trans h.1.2)
    exact Or.inr ⟨path, rfl⟩
  all_goals simp [h.2] at hr

/-- A callback that adds to a counter of entries is that of an entry that has been written. -/
theorem Callback.Uses.written (h : k.Uses role n) (hc : k.counter = some c)
    (hr : role c = .entries) : ∃ r, k = .entryWritten c r := by
  cases k <;> simp only [Callback.counter, Option.some.injEq, reduceCtorEq] at hc <;> subst hc
  case entryWritten press r => exact ⟨r, rfl⟩
  case imageUploaded => simp [h.1.2] at hr
  case imageURL => simp [h.1.2] at hr
  all_goals simp [h.2] at hr

theorem Wired.rewired (h : Wired R role x) (hn : n ≤ x.loc.nextCount)
    (hr : Extends n role' role) : Rewired R role' n x := ⟨hn, role, hr, h⟩

/-- Code after code. -/
theorem Rewired.trans (h : Rewired R role n x)
    (hx : ∀ role', Extends n role role' → Wired R role' x → Rewired R role' x.loc.nextCount x') :
    Rewired R role n x' := by
  obtain ⟨hn, role', hr, hw⟩ := h
  obtain ⟨hn', role'', hr', hw'⟩ := hx role' hr hw
  exact ⟨hn.trans hn', role'', hr.trans hr' hn, hw'⟩

theorem Wired.waiting_new (h : Wired R role x) (hc : x.loc.nextCount ≤ c) :
    waiting c x.bag = 0 := by
  refine waiting_eq_zero.mpr fun k hk hkc => ?_
  exact absurd ((h.uses k hk).lt hkc) (Nat.not_lt.mpr hc)

/-- What is to be shown of code: the counters of uploads that are in use are as before, and so are
the images; new callbacks use their counters rightly, and new uploads have a new counter. -/
theorem Wired.after (h : Wired R role x) {r : EditTrip × List Cmd}
    (hnext : x.loc.nextCount ≤ r.1.nextCount) (hrole : Extends x.loc.nextCount role role')
    (hcounts : ∀ c < x.loc.nextCount, ∀ p s, role c = .uploads p s →
      r.1.counts c = x.loc.counts c)
    (himg : ∀ s p, s ∈ R p → (r.1.heap s).images = (x.loc.heap s).images)
    (huses : ∀ k ∈ callbacks r.2, k.Uses role' r.1.nextCount)
    (hup : ∀ c p s, role' c = .uploads p s → s ∈ R p → 0 < waiting c (callbacks r.2) →
      x.loc.nextCount ≤ c ∧ Filled (r.1.counts c + waiting c (callbacks r.2)) (r.1.heap s)) :
    Wired R role' (program.after r x) where
  uses k hk := by
    rcases Multiset.mem_add.mp hk with hk | hk
    · exact (h.uses k hk).mono hrole hnext
    · exact huses k hk
  filled c p s hc hs hpos := by
    simp only [Program.after, waiting_add] at hpos ⊢
    by_cases hnew : 0 < waiting c (callbacks r.2)
    · obtain ⟨hle, hfill⟩ := hup c p s hc hs hnew
      rwa [h.waiting_new hle, zero_add]
    · have hzero : waiting c (callbacks r.2) = 0 := by omega
      rw [hzero, add_zero] at hpos ⊢
      obtain ⟨k, hk, hkc⟩ := waiting_pos.mp hpos
      have hlt := (h.uses k hk).lt hkc
      have hold : role c = .uploads p s := (hrole c hlt).symm.trans hc
      have hf := h.filled c p s hold hs hpos
      exact hf.congr (by rw [hcounts c hlt p s hold]) (himg s p hs)

/-- Code that makes no counter and issues nothing that adds to one, or to a counter of entries
only. -/
theorem Wired.after_old (h : Wired R role x) {r : EditTrip × List Cmd}
    (hnext : r.1.nextCount = x.loc.nextCount)
    (hcounts : ∀ c < x.loc.nextCount, ∀ p s, role c = .uploads p s →
      r.1.counts c = x.loc.counts c)
    (himg : ∀ s p, s ∈ R p → (r.1.heap s).images = (x.loc.heap s).images)
    (huses : ∀ k ∈ callbacks r.2, k.Uses role x.loc.nextCount ∧
      ∀ c p s, k.counter = some c → role c ≠ .uploads p s) :
    Wired R role (program.after r x) := by
  refine h.after hnext.ge (.refl _ _) hcounts himg (fun k hk => hnext ▸ (huses k hk).1) ?_
  intro c p s hc _ hpos
  obtain ⟨k, hk, hkc⟩ := waiting_pos.mp hpos
  exact absurd hc ((huses k hk).2 c p s hkc)

/-- Code that makes a counter for something else than uploads. -/
theorem Wired.after_new (h : Wired R role x) {r : EditTrip × List Cmd} {ρ : Role}
    (hρ : ∀ p s, ρ ≠ .uploads p s) (hnext : r.1.nextCount = x.loc.nextCount + 1)
    (hcounts : ∀ c < x.loc.nextCount, r.1.counts c = x.loc.counts c)
    (himg : ∀ s p, s ∈ R p → (r.1.heap s).images = (x.loc.heap s).images)
    (huses : ∀ k ∈ callbacks r.2,
      k.Uses (Function.update role x.loc.nextCount ρ) (x.loc.nextCount + 1) ∧
        ∀ c, k.counter = some c → c = x.loc.nextCount) :
    Wired R (Function.update role x.loc.nextCount ρ) (program.after r x) := by
  refine h.after (by omega) (extends_update _ _ _) (fun c hc _ _ _ => hcounts c hc) himg
    (fun k hk => hnext ▸ (huses k hk).1) ?_
  intro c p s hc _ hpos
  obtain ⟨k, hk, hkc⟩ := waiting_pos.mp hpos
  rw [(huses k hk).2 c hkc, Function.update_self] at hc
  exact absurd hc (hρ p s)

/-- A callback that is not an upload is delivered. -/
theorem Wired.delivered (h : Wired R role x) (hb : x.bag = k ::ₘ rest)
    (hk : ∀ c p s, k.counter = some c → role c ≠ .uploads p s) :
    Wired R role { x with bag := rest } where
  uses k' hk' := h.uses k' (hb ▸ Multiset.mem_cons_of_mem hk')
  filled c p s hc hs hpos := by
    have hsame : waiting c x.bag = waiting c rest := by
      rw [hb, waiting_cons_ne fun hkc => hk c p s hkc hc]
    rw [← hsame] at hpos ⊢
    exact h.filled c p s hc hs hpos

/-! ## The code of a save -/

/-- Code that issues nothing that adds to a counter. -/
theorem Wired.after_plain (h : Wired R role x) {r : EditTrip × List Cmd}
    (hnext : r.1.nextCount = x.loc.nextCount) (hcounts : r.1.counts = x.loc.counts)
    (himg : ∀ s p, s ∈ R p → (r.1.heap s).images = (x.loc.heap s).images)
    (hk : ∀ k ∈ callbacks r.2, k.counter = none) : Wired R role (program.after r x) := by
  refine h.after_old hnext (fun c _ _ _ _ => congrFun hcounts c) himg fun k hk' => ⟨?_, ?_⟩
  · have hkc := hk k hk'
    cases k <;> trivial
  · intro c p s hc
    rw [hk k hk'] at hc
    cases hc

theorem images_updateTripID (ids : List EntryID) (t : TripID) (l : EditTrip) (r : ℕ) :
    ((updateTripID ids t l).1.heap r).images = (l.heap r).images := by
  simp only [updateTripID]
  split <;> rfl

theorem Wired.updateTripID (h : Wired R role x) (ids : List EntryID) (t : TripID) :
    Wired R (Function.update role x.loc.nextCount .links)
      (program.after (EditTrip.updateTripID ids t x.loc) x) := by
  refine h.after_new (by simp) rfl (fun c hc => ?_) (fun r _ _ => images_updateTripID ids t x.loc r)
    fun k hk => ?_
  · exact Function.update_of_ne hc.ne ..
  · rw [callbacks_updateTripID hk]
    refine ⟨⟨Nat.lt_succ_self _, Function.update_self ..⟩, fun c hc => ?_⟩
    exact (Option.some.inj hc).symm

theorem Wired.updateEntryOrder (h : Wired R role x) (ids : List EntryID) (t : TripID) :
    Wired R (Function.update role x.loc.nextCount .links)
      (program.after (EditTrip.updateEntryOrder ids t x.loc) x) := by
  refine h.after_new (by simp) rfl (fun c hc => ?_) (fun _ _ _ => rfl) fun k hk => ?_
  · exact Function.update_of_ne hc.ne ..
  · rw [callbacks_updateEntryOrder hk]
    refine ⟨⟨Nat.lt_succ_self _, Function.update_self ..⟩, fun c hc => ?_⟩
    exact (Option.some.inj hc).symm

theorem Wired.uploadTripCoverPhoto (h : Wired R role x) (t : TripID) :
    Wired R role (program.after (EditTrip.uploadTripCoverPhoto t x.loc) x) := by
  refine h.after_plain rfl rfl (fun _ _ _ => rfl) fun k hk => ?_
  obtain ⟨path, data, rfl⟩ := callbacks_uploadTripCoverPhoto hk
  rfl

/-- The client's state is changed, but nothing that counters depend on. -/
theorem Wired.loc (h : Wired R role x) {l : EditTrip} (hnext : l.nextCount = x.loc.nextCount)
    (hcounts : l.counts = x.loc.counts)
    (himg : ∀ s p, s ∈ R p → (l.heap s).images = (x.loc.heap s).images) :
    Wired R role { x with loc := l } := by
  have h' := h.after_plain (r := (l, [])) hnext hcounts himg (by simp)
  simpa [Program.after] using h'

theorem Wired.updateTripInfo (h : Wired R role x) :
    Rewired R role x.loc.nextCount (program.after (EditTrip.updateTripInfo x.loc) x) := by
  have hskip : Wired R role (program.after (x.loc, []) x) := by simpa [Program.after] using h
  rw [updateTripInfo_eq]
  split
  · simp only [updateTripInfoDidSet, if_true]
    split
    · exact hskip.rewired le_rfl (.refl _ _)
    · rename_i t _
      rw [after_andThen, after_andThen]
      have h₁ := (h.after_plain (r := Handler.issue (fun l => [.write (.updateTrip t fun d =>
        { d with tripName := l.tripName, entries := l.ids }) none]) x.loc) rfl rfl
        (fun _ _ _ => rfl) (by simp)).uploadTripCoverPhoto t
      exact (h₁.updateTripID x.loc.ids t).rewired (Nat.le_succ _) (extends_update _ _ _)
  · exact hskip.rewired le_rfl (.refl _ _)

theorem Wired.deleteEntry (h : Wired R role x) (r : ℕ) :
    Wired R role (program.after (EditTrip.deleteEntry r x.loc) x) := by
  refine h.after_plain rfl rfl (fun _ _ _ => rfl) fun k hk => ?_
  obtain ⟨c, hc, hck⟩ := mem_callbacks.mp hk
  simp only [EditTrip.deleteEntry, Handler.issue_apply, List.cons_append, List.mem_cons,
    List.mem_append, List.mem_map] at hc
  rcases hc with rfl | ⟨u, _, rfl⟩ | ⟨i, _, rfl⟩ <;> cases hck
  rfl

theorem Wired.addToFirebase (h : Wired R role x) {press : ℕ} (hp : press < x.loc.nextCount)
    (hrole : role press = .entries) (r : ℕ) :
    Wired R role (program.after (EditTrip.addToFirebase press r x.loc) x) := by
  refine h.after_old rfl (fun _ _ _ _ _ => rfl) (fun _ _ _ => rfl) fun k hk => ?_
  rw [callbacks_addToFirebase, Multiset.mem_singleton] at hk
  subst hk
  refine ⟨⟨hp, hrole⟩, fun c p s hc => ?_⟩
  obtain rfl := Option.some.inj hc
  simp [hrole]

theorem callbacks_imageUploads {uid : Uid} {id : EntryID} {c press r : ℕ} {images : List UIImage}
    {n : ℕ} (hk : k ∈ callbacks (imageUploads uid id c press r images n)) :
    ∃ i data, n ≤ i ∧ i < n + images.length ∧
      k = .imageUploaded c press r (imagePath uid id i) data := by
  obtain ⟨cmd, hc, hck⟩ := mem_callbacks.mp hk
  obtain ⟨i, data, hle, hlt, rfl⟩ := mem_imageUploads hc
  cases hck
  exact ⟨i, data, hle, hlt, rfl⟩

theorem waiting_imageUploads (uid : Uid) (id : EntryID) (c press r : ℕ) (images : List UIImage)
    (n : ℕ) :
    waiting c (callbacks (imageUploads uid id c press r images n)) ≤ images.length ∧
      ((∀ image ∈ images, image.jpegData.isSome) →
        waiting c (callbacks (imageUploads uid id c press r images n)) = images.length) := by
  induction images generalizing n with
  | nil => simp [imageUploads]
  | cons image images ih =>
    obtain ⟨hle, heq⟩ := ih (n + 1)
    simp only [imageUploads]
    split
    · rename_i hnone
      refine ⟨by simp, fun h => ?_⟩
      simpa [hnone] using h image List.mem_cons_self
    · rw [callbacks_request, waiting_cons_self rfl, List.length_cons]
      refine ⟨by omega, fun h => ?_⟩
      rw [heq fun x hx => h x (List.mem_cons_of_mem _ hx)]

/-- The uploads of an entry are started. -/
theorem Wired.addEntryToFirestore (h : Wired R role x) {press : ℕ} (hp : press < x.loc.nextCount)
    (hrole : role press = .entries) {r : ℕ} (hr : (x.loc.heap r).images.length ≠ 0) :
    Wired R (Function.update role x.loc.nextCount (.uploads press r))
      (program.after (EditTrip.addEntryToFirestore press r x.loc) x) := by
  have himg : ∀ s, (((x.loc.newCount.set r { x.loc.heap r with imageUrls := [] }).heap s).images) =
      (x.loc.heap s).images := by
    intro s
    by_cases hs : s = r
    · rw [hs, heap_set_self]
    · rw [heap_set_ne hs]
      rfl
  simp only [EditTrip.addEntryToFirestore, if_neg hr]
  refine h.after (Nat.le_succ _) (extends_update _ _ _) (fun c hc _ _ _ => ?_) (fun s _ _ => himg s)
    (fun k hk => ?_) (fun c p s hc _ hpos => ?_)
  · exact Function.update_of_ne hc.ne ..
  · obtain ⟨i, data, -, -, rfl⟩ := callbacks_imageUploads hk
    refine ⟨⟨Nat.lt_succ_self _, Function.update_self ..⟩, hp.trans (Nat.lt_succ_self _), ?_⟩
    rw [Function.update_of_ne hp.ne, hrole]
  · obtain ⟨k, hk, hkc⟩ := waiting_pos.mp hpos
    obtain ⟨i, data, -, -, rfl⟩ := callbacks_imageUploads hk
    obtain rfl := Option.some.inj hkc
    rw [Function.update_self] at hc
    obtain ⟨rfl, rfl⟩ := Role.uploads.inj hc
    refine ⟨le_rfl, ?_⟩
    have hzero : (x.loc.newCount.set r { x.loc.heap r with imageUrls := [] }).counts
        x.loc.nextCount = 0 := Function.update_self ..
    rw [hzero, zero_add]
    simp only [Filled, himg]
    exact waiting_imageUploads _ _ _ _ _ _ _

/-- An entry is added to a press. -/
theorem Wired.add (h : Wired R role x) {press : ℕ} (hp : press < x.loc.nextCount)
    (hrole : role press = .entries) (r : ℕ) :
    Rewired R role x.loc.nextCount
      (program.after (EditTrip.addEntryToFirestore press r x.loc) x) := by
  by_cases hr : (x.loc.heap r).images.length = 0
  · have hcode : EditTrip.addEntryToFirestore press r x.loc =
        EditTrip.addToFirebase press r x.loc := by
      simp only [EditTrip.addEntryToFirestore, if_pos hr]
    rw [hcode]
    exact (h.addToFirebase hp hrole r).rewired le_rfl (.refl _ _)
  · refine (h.addEntryToFirestore hp hrole hr).rewired ?_ (extends_update _ _ _)
    simp only [EditTrip.addEntryToFirestore, if_neg hr]
    exact Nat.le_succ _

/-- A counter for the entries of a press. -/
theorem Wired.newCount (h : Wired R role x) :
    Wired R (Function.update role x.loc.nextCount .entries) { x with loc := x.loc.newCount } := by
  have h' := h.after_new (r := (x.loc.newCount, [])) (ρ := .entries) (by simp) rfl
    (fun c hc => Function.update_of_ne hc.ne ..) (fun _ _ _ => rfl) (by simp)
  simpa [Program.after] using h'

/-- Entries are added to a press, one after the other. -/
theorem Rewired.adds {role₀ : ℕ → Role} (h : Rewired R role₀ n x) {press : ℕ} (hp : press < n)
    (hrole : role₀ press = .entries) (rs : List ℕ) :
    Rewired R role₀ n (program.after
      (Handler.forEach (EditTrip.addEntryToFirestore press) rs x.loc) x) := by
  refine after_forEach (I := fun _ y => Rewired R role₀ n y) (fun r rs y hy => ?_) h
  refine hy.trans fun role' hr hw => ?_
  exact hw.add (hp.trans_le hy.1) ((hr press hp).trans hrole) r

/-- What a press of the save button begins with: the early pass and the deletions. -/
theorem Wired.prepared (h : Wired R role x) :
    Rewired R (Function.update role x.loc.nextCount .entries) x.loc.newCount.nextCount
      (program.after (Handler.forEach EditTrip.deleteEntry x.loc.deleteList
          (EditTrip.updateTripInfo x.loc.newCount).1)
        (program.after (EditTrip.updateTripInfo x.loc.newCount) x)) :=
  after_forEach (P := program) (f := EditTrip.deleteEntry)
    (I := fun _ y => Rewired R _ x.loc.newCount.nextCount y)
    (fun r _ _ hy => hy.trans fun _ _ hw => (hw.deleteEntry r).rewired le_rfl (.refl _ _))
    h.newCount.updateTripInfo

/-- What a press of the save button begins. -/
theorem Wired.saveButtonPressed (h : Wired R role x) :
    Rewired R role x.loc.nextCount (program.after (EditTrip.saveButtonPressed x.loc) x) := by
  simp only [EditTrip.saveButtonPressed]
  split
  · exact Wired.rewired (by simpa [Program.after] using h) le_rfl (.refl _ _)
  · have hlt : x.loc.nextCount < x.loc.newCount.nextCount := Nat.lt_succ_self _
    have hpress : Function.update role x.loc.nextCount .entries x.loc.nextCount = .entries :=
      Function.update_self ..
    obtain ⟨hle, role', hr, hw⟩ := h.prepared.adds hlt hpress x.loc.entryList
    rw [after_andThen, after_andThen]
    exact ⟨hlt.le.trans hle, role', (extends_update _ _ _).trans hr hlt.le, hw⟩

/-! ## One step -/

/-- A counter that is not one of uploads goes on. -/
theorem Wired.count (h : Wired R role x) (hc : ∀ p s, role c ≠ .uploads p s) :
    Wired R role { x with loc := x.loc.count c } := by
  have h' := h.after_old (r := (x.loc.count c, [])) rfl (fun c' _ p s hc' => ?_) (fun _ _ _ => rfl)
    (by simp)
  · simpa [Program.after] using h'
  · refine counts_count_ne (fun he => ?_) _
    exact hc p s (he ▸ hc')

/-- An image has been uploaded, and its URL is asked for. -/
theorem Wired.imageUploaded (h : Wired R role x) {press r : ℕ} {path data : String}
    (hb : x.bag = .imageUploaded c press r path data ::ₘ rest) :
    Wired R role { x with bag := .imageURL c press r path ::ₘ rest } where
  uses k hk := by
    rcases Multiset.mem_cons.mp hk with rfl | hk
    · have huses := h.uses (.imageUploaded c press r path data) (hb ▸ Multiset.mem_cons_self _ _)
      exact huses
    · exact h.uses k (hb ▸ Multiset.mem_cons_of_mem hk)
  filled c' p s hc' hs hpos := by
    have hsame : waiting c' x.bag = waiting c' (.imageURL c press r path ::ₘ rest) := by
      by_cases hcc : c = c'
      · subst hcc
        rw [hb, waiting_cons_self rfl, waiting_cons_self rfl]
      · rw [hb, waiting_cons_other rfl hcc, waiting_cons_other rfl hcc]
    rw [← hsame] at hpos ⊢
    exact h.filled c' p s hc' hs hpos

/-- The URL of an image is counted. -/
theorem Wired.imageURL (h : Wired R role x) {press r : ℕ} {path : String}
    (hb : x.bag = .imageURL c press r path ::ₘ rest) {a : CustomAnnotation}
    (ha : a.images = (x.loc.heap r).images) :
    Wired R role { x with loc := (x.loc.set r a).count c, bag := rest } where
  uses k hk := h.uses k (hb ▸ Multiset.mem_cons_of_mem hk)
  filled c' p s hc' hs hpos := by
    have himg : ((x.loc.set r a).heap s).images = (x.loc.heap s).images := by
      by_cases hsr : s = r
      · rw [hsr, heap_set_self, ha]
      · rw [heap_set_ne hsr]
    by_cases hcc : c = c'
    · subst hcc
      have hwait : waiting c x.bag = waiting c rest + 1 := by rw [hb, waiting_cons_self rfl]
      refine (h.filled c p s hc' hs (by omega)).congr ?_ himg
      rw [counts_count_self, hwait]
      simp only [EditTrip.set]
      omega
    · have hwait : waiting c' x.bag = waiting c' rest := by rw [hb, waiting_cons_other rfl hcc]
      refine (h.filled c' p s hc' hs (hwait ▸ hpos)).congr ?_ himg
      rw [hwait, counts_count_ne (Ne.symm hcc)]
      rfl

/-- A callback that adds to no counter is delivered. -/
theorem Wired.delivered_plain (h : Wired R role x) (hb : x.bag = k ::ₘ rest)
    (hk : k.counter = none) : Wired R role { x with bag := rest } :=
  h.delivered hb fun c p s hc => by rw [hk] at hc; cases hc

theorem Callback.uses_of_none (hk : k.counter = none) (role : ℕ → Role) (n : ℕ) :
    k.Uses role n := by
  cases k <;> trivial

/-- Code that makes a counter of links, and nothing else that counts. -/
theorem Wired.after_links (h : Wired R role x) (ids : List EntryID) (t : TripID)
    {r : EditTrip × List Cmd} (hnext : r.1.nextCount = x.loc.nextCount + 1)
    (hcounts : ∀ c < x.loc.nextCount, r.1.counts c = x.loc.counts c)
    (himg : ∀ s p, s ∈ R p → (r.1.heap s).images = (x.loc.heap s).images)
    (hk : ∀ k ∈ callbacks r.2, k = .tripIDUpdated x.loc.nextCount ids t ∨ k.counter = none) :
    Rewired R role x.loc.nextCount (program.after r x) := by
  refine (h.after_new (ρ := .links) (by simp) hnext hcounts himg fun k hk' => ?_).rewired
    (by simp [Program.after, hnext]) (extends_update _ _ _)
  rcases hk k hk' with rfl | hk
  · exact ⟨⟨Nat.lt_succ_self _, Function.update_self ..⟩, fun c hc => (Option.some.inj hc).symm⟩
  · exact ⟨Callback.uses_of_none hk _ _, fun c hc => by rw [hk] at hc; cases hc⟩

/-- The code that is given the user document on the screen of a new trip. -/
theorem Wired.createTrip (h : Wired R role x) (ids : List EntryID) (userData : UserDoc)
    (t : TripID) :
    Rewired R role x.loc.nextCount
      (program.after (EditTrip.createTrip ids userData t x.loc) x) := by
  refine h.after_links ids t rfl (fun c hc => Function.update_of_ne hc.ne ..)
    (fun s _ _ => images_updateTripID ids t x.loc s) fun k hk => ?_
  simp only [EditTrip.createTrip, Handler.andThen_apply, Handler.issue_apply, Handler.modify_apply,
    callbacks_append, callbacks_write, callbacks_nil, zero_add, add_zero, Multiset.mem_add] at hk
  rcases hk with hk | hk
  · exact Or.inl (callbacks_updateTripID hk)
  · obtain ⟨path, data, rfl⟩ := callbacks_uploadTripCoverPhoto hk
    exact Or.inr rfl

/-- The code that runs when the trip has been updated. -/
theorem Wired.tripUpdated (h : Wired R role x) (ids : List EntryID) (t : TripID) :
    Rewired R role x.loc.nextCount (program.after (((EditTrip.uploadTripCoverPhoto t).andThen
      ((EditTrip.updateTripID ids t).andThen (.modify fun l => { l with dismissed := true })))
        x.loc) x) := by
  refine h.after_links ids t rfl (fun c hc => Function.update_of_ne hc.ne ..)
    (fun s _ _ => images_updateTripID ids t x.loc s) fun k hk => ?_
  simp only [Handler.andThen_apply, Handler.modify_apply, callbacks_append, callbacks_nil, add_zero,
    Multiset.mem_add] at hk
  rcases hk with hk | hk
  · obtain ⟨path, data, rfl⟩ := callbacks_uploadTripCoverPhoto hk
    exact Or.inr rfl
  · exact Or.inl (callbacks_updateTripID hk)

theorem Wired.deliver (h : Wired R role x) {ok : Bool} {a : TripID} {r : EditTrip × List Cmd}
    (hb : x.bag = k ::ₘ rest) (hr : react k ok a x.loc x.store = some r)
    (himg : ∀ s p, s ∈ R p → (r.1.heap s).images = (x.loc.heap s).images) :
    Rewired R role x.loc.nextCount (program.after r { x with bag := rest }) := by
  have hplain : k.counter = none → r.1.nextCount = x.loc.nextCount → r.1.counts = x.loc.counts →
      (∀ k ∈ callbacks r.2, k.counter = none) →
      Rewired R role x.loc.nextCount (program.after r { x with bag := rest }) :=
    fun hk hn hc hcs => ((h.delivered_plain hb hk).after_plain hn hc himg hcs).rewired hn.ge
      (.refl _ _)
  have huses := h.uses k (hb ▸ Multiset.mem_cons_self _ _)
  cases k with
  | imageUploaded c press r' path data =>
    have hbag : rest + {Callback.imageURL c press r' path} =
        Callback.imageURL c press r' path ::ₘ rest := by rw [add_comm, Multiset.singleton_add]
    have h' := h.imageUploaded hb
    rw [← hbag] at h'
    simp only [react, Option.some.injEq] at hr
    split at hr <;> subst hr
    · exact Wired.rewired (h'.loc rfl rfl fun _ _ _ => rfl) le_rfl (.refl _ _)
    · exact Wired.rewired h' le_rfl (.refl _ _)
  | imageURL c press r' path =>
    simp only [react] at hr
    split at hr <;> cases hr
    have h₁ := h.imageURL hb (a := { x.loc.heap r' with
      imageUrls := (x.loc.heap r').imageUrls ++ [⟨path⟩] }) rfl
    split
    · exact (h₁.addToFirebase huses.2.1 huses.2.2 r').rewired le_rfl (.refl _ _)
    · exact Wired.rewired (by simpa [Program.after] using h₁) le_rfl (.refl _ _)
  | entryWritten press r' =>
    have hrole : ∀ p s, role press ≠ .uploads p s := by simp [huses.2]
    have hd := h.delivered hb fun c p s hc => by obtain rfl := Option.some.inj hc; exact hrole p s
    simp only [react, Option.some.injEq, entryWritten] at hr
    split at hr <;> subst hr
    · refine ((hd.count hrole).after_plain rfl rfl (fun _ _ _ => rfl) fun k hk => ?_).rewired le_rfl
        (.refl _ _)
      split at hk
      · simp only [callbacks_request, callbacks_nil, Multiset.mem_cons, Multiset.notMem_zero,
          or_false] at hk
        rw [hk]
        rfl
      · simp at hk
    · exact Wired.rewired (by simpa [Program.after] using hd) le_rfl (.refl _ _)
  | userFetched p ids =>
    have hd := h.delivered_plain hb rfl
    simp only [react] at hr
    split at hr
    · cases hr
      exact hplain rfl rfl rfl (by simp)
    · split at hr <;> cases hr
      · exact hd.createTrip ids _ a
      · exact hplain rfl rfl rfl (by simp [updateTrip, Callback.counter])
  | tripUpdated ids =>
    obtain ⟨t, -, rfl⟩ := Option.map_eq_some_iff.mp hr
    exact (h.delivered_plain hb rfl).tripUpdated ids t
  | tripIDUpdated c ids t =>
    have hrole : ∀ p s, role c ≠ .uploads p s := by simp [huses.2]
    have hd := (h.delivered hb fun c' p s hc => by
      obtain rfl := Option.some.inj hc; exact hrole p s).count hrole
    simp only [react, Option.some.injEq] at hr
    split at hr <;> subst hr
    · exact (hd.updateEntryOrder ids t).rewired (Nat.le_succ _) (extends_update _ _ _)
    · exact Wired.rewired (by simpa [Program.after] using hd) le_rfl (.refl _ _)
  | entryOrderUpdated c m t =>
    have hrole : ∀ p s, role c ≠ .uploads p s := by simp [huses.2]
    have hd := (h.delivered hb fun c' p s hc => by
      obtain rfl := Option.some.inj hc; exact hrole p s).count hrole
    simp only [react, Option.some.injEq] at hr
    subst hr
    refine (hd.after_plain ?_ ?_ ?_ (by simp)).rewired (by simp only [Program.after]; split <;> rfl)
      (.refl _ _)
    · split <;> rfl
    · split <;> rfl
    · intro s _ _
      split <;> rfl
  | entryFetched id =>
    have hd := h.delivered_plain hb rfl
    simp only [react] at hr
    split at hr
    · cases hr
      exact hplain rfl rfl rfl (by simp)
    · obtain ⟨t, cover, a, -, -, -, rfl⟩ := entryFetched_eq_some hr
      refine (hd.after_new (ρ := .images) (by simp) rfl (fun c hc => ?_) himg
        fun k hk => ?_).rewired (Nat.le_succ _) (extends_update _ _ _)
      · exact Function.update_of_ne hc.ne ..
      · simp only [callbacks_request, callbacks_map_request, Multiset.mem_cons, Multiset.mem_coe,
          List.mem_map] at hk
        rcases hk with rfl | ⟨url, _, rfl⟩
        · exact ⟨trivial, by rintro c ⟨⟩⟩
        · exact ⟨⟨Nat.lt_succ_self _, Function.update_self ..⟩,
            fun c hc => (Option.some.inj hc).symm⟩
  | imageDownloaded r' c m url =>
    have hrole : ∀ p s, role c ≠ .uploads p s := by simp [huses.2]
    have hd := h.delivered hb fun c p s hc => by obtain rfl := Option.some.inj hc; exact hrole p s
    simp only [react] at hr
    split at hr <;> cases hr
    · exact Wired.rewired (by simpa [Program.after] using hd) le_rfl (.refl _ _)
    · have hcounts : ∀ image, (imageDownloaded r' c m image x.loc).counts =
          (x.loc.count c).counts ∧
          (imageDownloaded r' c m image x.loc).nextCount = x.loc.nextCount := by
        intro image
        obtain ⟨annotations, temp, list, he⟩ := imageDownloaded_eq r' c m image x.loc
        rw [he]
        exact ⟨rfl, rfl⟩
      refine (hd.after_old (hcounts _).2 (fun c' _ p s hc' => ?_) himg (by simp)).rewired
        (hcounts _).2.ge (.refl _ _)
      rw [(hcounts _).1]
      refine counts_count_ne (fun he => ?_) _
      exact hrole p s (he ▸ hc')
  | coverDocFetched t =>
    simp only [react] at hr
    split at hr
    · cases hr
      exact hplain rfl rfl rfl (by simp)
    · obtain ⟨url, -, rfl⟩ := Option.map_eq_some_iff.mp hr
      exact hplain rfl rfl rfl (by simp [Callback.counter])
  | coverDownloaded url =>
    simp only [react] at hr
    split at hr <;> cases hr <;> exact hplain rfl rfl rfl (by simp)
  | tripFetched t =>
    simp only [react] at hr
    split at hr <;> cases hr
    · exact hplain rfl rfl rfl (by simp)
    · refine hplain rfl rfl rfl fun k hk => ?_
      simp only [loadEntryData, callbacks_map_request, Multiset.mem_coe, List.mem_map] at hk
      obtain ⟨id, _, rfl⟩ := hk
      rfl
  | entryCoverDownloaded r' url =>
    simp only [react] at hr
    split at hr <;> cases hr <;> exact hplain rfl rfl rfl (by simp)
  | usernameFetched r' uid =>
    cases hr
    exact hplain rfl rfl rfl (by simp)
  | objectDeleted path =>
    simp only [react, Option.some.injEq] at hr
    split at hr <;> subst hr <;> exact hplain rfl rfl rfl (by simp)
  | tripCoverUploaded t path data =>
    simp only [react, Option.some.injEq] at hr
    split at hr <;> subst hr <;> exact hplain rfl rfl rfl (by simp [Callback.counter])
  | tripCoverURL t path =>
    simp only [react] at hr
    split at hr <;> cases hr <;> exact hplain rfl rfl rfl (by simp)

theorem Wired.event (h : Wired R role x) {e : Event} {r : EditTrip × List Cmd}
    (he : EditTrip.event e x.loc x.store = some r)
    (himg : ∀ s p, s ∈ R p → (r.1.heap s).images = (x.loc.heap s).images) :
    Rewired R role x.loc.nextCount (program.after r x) := by
  cases hp : e.presses with
  | false =>
    have hsame := undisturbed_event he hp
    refine (h.after_plain hsame.nextCount hsame.counts himg fun k hk => ?_).rewired
      hsame.nextCount.ge (.refl _ _)
    rcases callbacks_event he hp k hk with ⟨t, rfl⟩ | ⟨t, rfl⟩ | ⟨s, uid, rfl⟩ <;> rfl
  | true =>
    cases e <;> simp only [Event.presses, reduceCtorEq] at hp
    simp only [EditTrip.event] at he
    split at he <;> cases he
    exact h.saveButtonPressed

/-- An answer adds to its own counter only, and new counters are others. -/
theorem counts_react {ok : Bool} {a : TripID} {db : Firestore} {r : EditTrip × List Cmd}
    (h : react k ok a l db = some r) (hc : c < l.nextCount) (hk : k.counter ≠ some c) :
    r.1.counts c = l.counts c := by
  have hcount : ∀ c' l', k.counter = some c' → (EditTrip.count l' c').counts c = l'.counts c :=
    fun c' l' hc' => counts_count_ne (fun he => hk (by rw [hc', he])) l'
  have hnew : ∀ l', l'.nextCount = l.nextCount → (EditTrip.newCount l').counts c = l'.counts c :=
    fun l' hl' => Function.update_of_ne (hl' ▸ hc.ne) ..
  cases k with
  | coverDocFetched t =>
    simp only [react] at h
    split at h
    · cases h; rfl
    · obtain ⟨url, -, rfl⟩ := Option.map_eq_some_iff.mp h
      rfl
  | coverDownloaded url =>
    simp only [react] at h
    split at h <;> cases h <;> rfl
  | tripFetched t =>
    simp only [react] at h
    split at h <;> cases h <;> rfl
  | entryFetched id =>
    simp only [react, entryFetched] at h
    split at h
    · cases h; rfl
    · split at h <;> cases h
      exact hnew l rfl
  | entryCoverDownloaded r' url =>
    simp only [react] at h
    split at h <;> cases h <;> rfl
  | imageDownloaded r' c' n url =>
    simp only [react] at h
    split at h <;> cases h
    · rfl
    · rename_i data _
      obtain ⟨annotations, temp, list, he⟩ := imageDownloaded_eq r' c' n (.ofData data) l
      rw [he]
      exact hcount c' _ rfl
  | objectDeleted path =>
    simp only [react, Option.some.injEq] at h
    split at h <;> subst h <;> rfl
  | imageUploaded c' press r' path data =>
    simp only [react, Option.some.injEq] at h
    split at h <;> subst h <;> rfl
  | imageURL c' press r' path =>
    simp only [react] at h
    split at h <;> cases h
    split <;> exact hcount c' (l.set r' _) rfl
  | entryWritten press r' =>
    simp only [react, Option.some.injEq, entryWritten] at h
    split at h <;> subst h
    · exact hcount press l rfl
    · rfl
  | userFetched p ids =>
    simp only [react] at h
    split at h
    · cases h; rfl
    · split at h <;> cases h
      · exact hnew l rfl
      · rfl
  | tripUpdated ids =>
    obtain ⟨t, -, rfl⟩ := Option.map_eq_some_iff.mp h
    exact hnew l rfl
  | tripIDUpdated c' ids t =>
    simp only [react, Option.some.injEq] at h
    split at h <;> subst h
    · exact (hnew (l.count c') rfl).trans (hcount c' l rfl)
    · exact hcount c' l rfl
  | entryOrderUpdated c' n t =>
    simp only [react, Option.some.injEq] at h
    split at h <;> subst h <;> exact hcount c' l rfl
  | tripCoverUploaded t path data =>
    simp only [react, Option.some.injEq] at h
    split at h <;> subst h <;> rfl
  | tripCoverURL t path =>
    simp only [react] at h
    split at h <;> cases h <;> rfl
  | usernameFetched r' uid =>
    cases h
    rfl

/-- **One step**, in which the images that are uploaded stay as they are. -/
theorem Wired.step (h : Wired R role x) {m : Async.Move Callback TripID Event}
    (hs : DirectStep program x m x')
    (himg : ∀ s p, s ∈ R p → (x'.loc.heap s).images = (x.loc.heap s).images) :
    Rewired R role x.loc.nextCount x' := by
  cases hs with
  | event he => exact h.event he himg
  | deliver hb hr => exact h.deliver hb hr himg

/-- For a press that is still to come, all counters of uploads are right. -/
theorem Wired.fresh (h : Wired (fun _ => ∅) role x) (hR : ∀ p < x.loc.nextCount, R p = ∅) :
    Wired R role x where
  uses := h.uses
  filled c p s hc hs hpos := by
    obtain ⟨k, hk, hkc⟩ := waiting_pos.mp hpos
    have huses := h.uses k hk
    have hlt : p < x.loc.nextCount := by
      rcases huses.upload hkc hc with ⟨path, data, rfl⟩ | ⟨path, rfl⟩
      · exact huses.2.1
      · exact huses.2.1
    rw [hR p hlt] at hs
    exact absurd hs (Set.notMem_empty s)

/-- **A run**, in which the images that are uploaded stay as they are. -/
theorem Wired.run {st : State Firestore EditTrip Write Callback}
    {tr : List (Label TripID Event × State Firestore EditTrip Write Callback)}
    (h : Wired R role (program.direct st))
    (hrun : Runs.IsRun (fun st lbl st' => program.step lbl st = some st') st tr)
    (himg : ∀ x ∈ tr, ∀ s p, s ∈ R p → (x.2.loc.heap s).images = (st.loc.heap s).images) :
    ∃ role', Wired R role' (program.direct (Runs.final st tr)) := by
  induction tr generalizing st role with
  | nil => exact ⟨role, h⟩
  | cons x tr ih =>
    have hx := himg x List.mem_cons_self
    have hrest : ∀ y ∈ tr, ∀ s p, s ∈ R p → (y.2.loc.heap s).images = (x.2.loc.heap s).images :=
      fun y hy s p hs => (himg y (List.mem_cons_of_mem _ hy) s p hs).trans (hx s p hs).symm
    rcases step_move hrun.1 with ⟨-, -, s, hd⟩ | ⟨m, -, hd⟩
    · have hw : Wired R role (program.direct x.2) := by
        rw [hd]
        exact ⟨h.uses, h.filled⟩
      exact ih hw hrun.2 hrest
    · obtain ⟨-, role', -, hw'⟩ := h.step hd hx
      exact ih hw' hrun.2 hrest

/-- In every state of every run of the screen the counters are used as what they are. -/
theorem wired_run {db : Firestore} {u : User} {t? : Option TripID} {b : Bucket} {now : Timestamp}
    {tr : List (Label TripID Event × State Firestore EditTrip Write Callback)}
    (h : Runs.IsRun (fun st lbl st' => program.step lbl st = some st')
      (start db (opened u t? b now)) tr) :
    ∃ role, Wired (fun _ => ∅) role
      (program.direct (Runs.final (start db (opened u t? b now)) tr)) := by
  have hstart : Wired (fun _ => ∅) (fun _ => .entries)
      (program.direct (start db (opened u t? b now))) :=
    ⟨fun k hk => absurd hk (Multiset.notMem_zero k), fun _ _ _ hc => by cases hc⟩
  exact hstart.run h fun _ _ s _ hs => absurd hs (Set.notMem_empty s)

end

end EditTrip

end Wanderlust
