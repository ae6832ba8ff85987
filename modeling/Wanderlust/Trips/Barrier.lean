import Mathlib.Data.Finset.Basic
import Wanderlust.Trips.Counters

/-!
# The barrier of a save

How far a press of the save button has come. Its entries are those that have been counted
(`done`), those whose writing has been answered but not counted, those with uploads on their way,
and the rest, for which nothing will come any more (`Tally`). Each step moves at most one entry to
the next of these places (`Tally.deliver`), so that an entry is counted at most once.
-/

namespace Wanderlust

open Async

namespace EditTrip

/-- The annotation whose images a counter counts. -/
def Role.ref : Role → ℕ
  | .uploads _ r => r
  | _ => 0

/-- The counter of an upload of the press. -/
def Callback.uploadFor (press : ℕ) : Callback → Option ℕ
  | .imageUploaded c p _ _ _ => if p = press then some c else none
  | .imageURL c p _ _ => if p = press then some c else none
  | _ => none

/-- The annotation whose entry has been written for the press. -/
def Callback.writtenFor (press : ℕ) : Callback → Option ℕ
  | .entryWritten p r => if p = press then some r else none
  | _ => none

/-- The annotations whose entries have been written for the press, with the answers on their
way. -/
def written (press : ℕ) (bag : Multiset Callback) : Multiset ℕ :=
  bag.filterMap (Callback.writtenFor press)

/-- The entries `L` of a press: counted, written, uploading with the counters `opened`, and
the others. -/
structure Tally (role : ℕ → Role) (press : ℕ) (L : Multiset ℕ) (opened : Finset ℕ)
    (done rest : Multiset ℕ) (x : Direct Firestore EditTrip Callback) : Prop where
  lt : press < x.loc.nextCount
  entries : role press = .entries
  count : x.loc.counts press = Multiset.card done
  made : ∀ c ∈ opened, c < x.loc.nextCount ∧ ∃ r, role c = .uploads press r
  uploads : ∀ k ∈ x.bag, ∀ c, k.uploadFor press = some c → c ∈ opened
  split : done + written press x.bag + opened.val.map (fun c => (role c).ref) + rest = L

/-- Every counter of uploads is still waited for. -/
def Pending (opened : Finset ℕ) (bag : Multiset Callback) : Prop := ∀ c ∈ opened, 0 < waiting c bag

/-- An answer counts an entry of the press, or is a failure to write one, or neither. -/
def Counts (press : ℕ) (k : Callback) (ok : Bool) (done rest done' rest' : Multiset ℕ) : Prop :=
  (∀ s, k ≠ .entryWritten press s) ∧ done' = done ∧ rest' = rest ∨
    ∃ s, k = .entryWritten press s ∧
      (ok = true ∧ done' = s ::ₘ done ∧ rest' = rest ∨
        ok = false ∧ done' = done ∧ rest' = s ::ₘ rest)

/-- The tally goes on, with its uploads waited for if all images can be encoded. -/
def Advances (role' : ℕ → Role) (press : ℕ) (L : Multiset ℕ) (opened : Finset ℕ)
    (x x' : Direct Firestore EditTrip Callback) (done' rest' : Multiset ℕ) : Prop :=
  ∃ opened', Tally role' press L opened' done' rest' x' ∧
    ((∀ s ∈ L, ∀ image ∈ (x.loc.heap s).images, image.jpegData.isSome) → Pending opened x.bag →
      Pending opened' x'.bag)

section

variable {R : ℕ → Set ℕ} {role role' : ℕ → Role} {press c : ℕ} {L done rest : Multiset ℕ}
  {opened : Finset ℕ} {k : Callback} {bag bag' : Multiset Callback}
  {x x' : Direct Firestore EditTrip Callback} {ok : Bool} {a : TripID} {r : EditTrip × List Cmd}

@[simp] theorem written_zero (press : ℕ) : written press 0 = 0 := rfl

@[simp] theorem written_add (press : ℕ) (bag bag' : Multiset Callback) :
    written press (bag + bag') = written press bag + written press bag' :=
  Multiset.filterMap_add _ _ _

theorem written_cons_some {s : ℕ} (hk : k.writtenFor press = some s) (bag : Multiset Callback) :
    written press (k ::ₘ bag) = s ::ₘ written press bag := Multiset.filterMap_cons_some _ _ _ hk

theorem written_cons_none (hk : k.writtenFor press = none) (bag : Multiset Callback) :
    written press (k ::ₘ bag) = written press bag := Multiset.filterMap_cons_none _ _ hk

theorem written_eq_zero (h : ∀ k ∈ bag, k.writtenFor press = none) : written press bag = 0 := by
  induction bag using Multiset.induction with
  | empty => rfl
  | cons k bag ih =>
    rw [written_cons_none (h k (Multiset.mem_cons_self k bag)),
      ih fun k' hk' => h k' (Multiset.mem_cons_of_mem hk')]

theorem Callback.for_of_not_saves (h : k.saves = false) (press : ℕ) :
    k.uploadFor press = none ∧ k.writtenFor press = none := by
  cases k <;> first | exact ⟨rfl, rfl⟩ | cases h

/-- Nothing is on its way for a press that is still to come. -/
theorem Callback.for_of_uses {n : ℕ} (h : k.Uses role n) :
    k.uploadFor n = none ∧ k.writtenFor n = none := by
  cases k <;> first | exact ⟨rfl, rfl⟩ | skip
  case imageUploaded => exact ⟨if_neg h.2.1.ne, rfl⟩
  case imageURL => exact ⟨if_neg h.2.1.ne, rfl⟩
  case entryWritten => exact ⟨rfl, if_neg h.1.ne⟩

/-- The tally depends on the counter and the callbacks of the press only. -/
theorem Tally.congr (h : Tally role press L opened done rest x)
    (hrole : Extends x.loc.nextCount role role') (hnext : x.loc.nextCount ≤ x'.loc.nextCount)
    (hcount : x'.loc.counts press = x.loc.counts press)
    (huploads : ∀ k ∈ x'.bag, ∀ c, k.uploadFor press = some c → c ∈ opened)
    (hwritten : written press x'.bag = written press x.bag) :
    Tally role' press L opened done rest x' where
  lt := h.lt.trans_le hnext
  entries := (hrole _ h.lt).trans h.entries
  count := hcount.trans h.count
  made c hc := by
    obtain ⟨hlt, r, hr⟩ := h.made c hc
    exact ⟨hlt.trans_le hnext, r, (hrole c hlt).trans hr⟩
  uploads := huploads
  split := by
    have hmap : opened.val.map (fun c => (role' c).ref) = opened.val.map fun c => (role c).ref :=
      Multiset.map_congr rfl fun c hc => by rw [hrole c (h.made c hc).1]
    rw [hwritten, hmap, h.split]

/-- The annotations with uploads on their way are those of the press. -/
theorem Tally.ref_mem (h : Tally role press L opened done rest x) (hc : c ∈ opened) {s : ℕ}
    (hr : role c = .uploads press s) : s ∈ L := by
  have hmem : s ∈ opened.val.map fun c => (role c).ref :=
    Multiset.mem_map.mpr ⟨c, hc, by rw [hr]; rfl⟩
  rw [← h.split]
  exact Multiset.mem_add.mpr (Or.inl (Multiset.mem_add.mpr (Or.inr hmem)))

/-- Not more entries are counted than there are. -/
theorem Tally.count_le (h : Tally role press L opened done rest x) :
    x.loc.counts press ≤ Multiset.card L := by
  rw [h.count, ← h.split]
  simp only [Multiset.card_add]
  omega

/-- When all entries are counted, nothing of the press is on its way. -/
theorem Tally.full (h : Tally role press L opened done rest x)
    (hc : x.loc.counts press = Multiset.card L) :
    done = L ∧ ∀ k ∈ x.bag, k.uploadFor press = none ∧ k.writtenFor press = none := by
  have hcard := congrArg Multiset.card h.split
  simp only [Multiset.card_add, ← h.count, hc] at hcard
  have hw : written press x.bag = 0 := Multiset.card_eq_zero.mp (by omega)
  have ho : opened.val.map (fun c => (role c).ref) = 0 := Multiset.card_eq_zero.mp (by omega)
  have hrest : rest = 0 := Multiset.card_eq_zero.mp (by omega)
  have hsplit := h.split
  rw [hw, ho, hrest, add_zero, add_zero, add_zero] at hsplit
  refine ⟨hsplit, fun k hk => ⟨?_, ?_⟩⟩
  · rcases hu : k.uploadFor press with _ | c
    · rfl
    · have hmem := h.uploads k hk c hu
      rw [Multiset.map_eq_zero] at ho
      rw [← Finset.mem_val, ho] at hmem
      exact absurd hmem (Multiset.notMem_zero c)
  · rcases hu : k.writtenFor press with _ | s
    · rfl
    · have hmem : s ∈ written press x.bag := (Multiset.mem_filterMap _ _).mpr ⟨k, hk, hu⟩
      rw [hw] at hmem
      exact absurd hmem (Multiset.notMem_zero s)

/-! ## One answer -/

/-- A callback that is not one of the press adds to none of its counters. -/
theorem Tally.counter_ne (hw : Wired R role x) (h : Tally role press L opened done rest x)
    (hk : k ∈ x.bag) (hu : k.uploadFor press = none) (hwr : k.writtenFor press = none) :
    k.counter ≠ some press ∧ ∀ c ∈ opened, k.counter ≠ some c := by
  refine ⟨fun hc => ?_, fun c hc hkc => ?_⟩
  · obtain ⟨s, rfl⟩ := (hw.uses k hk).written hc h.entries
    simp [Callback.writtenFor] at hwr
  · obtain ⟨-, s, hs⟩ := h.made c hc
    rcases (hw.uses k hk).upload hkc hs with ⟨path, data, rfl⟩ | ⟨path, rfl⟩ <;>
      simp [Callback.uploadFor] at hu

/-- An answer that is not one of the press. -/
theorem Tally.deliver_other (hw : Wired R role x) (h : Tally role press L opened done rest x)
    (hb : x.bag = k ::ₘ bag) (hr : react k ok a x.loc x.store = some r)
    (hnext : x.loc.nextCount ≤ r.1.nextCount) (hrole : Extends x.loc.nextCount role role')
    (hu : k.uploadFor press = none) (hwr : k.writtenFor press = none)
    (hcs : ∀ k' ∈ callbacks r.2, k'.uploadFor press = none ∧ k'.writtenFor press = none) :
    Advances role' press L opened x (program.after r { x with bag := bag }) done rest := by
  have hmem : k ∈ x.bag := hb ▸ Multiset.mem_cons_self _ _
  obtain ⟨hp, ho⟩ := h.counter_ne hw hmem hu hwr
  refine ⟨opened, h.congr hrole hnext (counts_react hr h.lt hp) (fun k' hk' c hc => ?_) ?_,
    fun _ hpend c hc => ?_⟩
  · rcases Multiset.mem_add.mp hk' with hk' | hk'
    · exact h.uploads k' (hb ▸ Multiset.mem_cons_of_mem hk') c hc
    · rw [(hcs k' hk').1] at hc
      cases hc
  · simp only [Program.after, written_add]
    rw [written_eq_zero fun k' hk' => (hcs k' hk').2, add_zero, hb, written_cons_none hwr]
  · have hpos := hpend c hc
    rw [hb, waiting_cons_ne (ho c hc)] at hpos
    exact waiting_add c bag _ ▸ Nat.add_pos_left hpos _

/-- An image of the press has been uploaded. -/
theorem Tally.imageUploaded (h : Tally role press L opened done rest x) {s : ℕ} {path data : String}
    (hb : x.bag = .imageUploaded c press s path data ::ₘ bag)
    (hrole : Extends x.loc.nextCount role role') (hnext : x'.loc.nextCount = x.loc.nextCount)
    (hcounts : x'.loc.counts = x.loc.counts)
    (hb' : x'.bag = bag + {Callback.imageURL c press s path}) :
    Advances role' press L opened x x' done rest := by
  have hc : c ∈ opened := h.uploads (.imageUploaded c press s path data)
    (hb ▸ Multiset.mem_cons_self _ _) c (by simp [Callback.uploadFor])
  refine ⟨opened, h.congr hrole hnext.ge (congrFun hcounts press) (fun k hk c' hkc => ?_) ?_,
    fun _ hpend c' hc' => ?_⟩
  · rcases Multiset.mem_add.mp (hb' ▸ hk) with hk | hk
    · exact h.uploads k (hb ▸ Multiset.mem_cons_of_mem hk) c' hkc
    · rw [Multiset.mem_singleton.mp hk] at hkc
      simp only [Callback.uploadFor, if_true, Option.some.injEq] at hkc
      exact hkc ▸ hc
  · rw [hb, hb', written_cons_none rfl, written_add]
    exact add_zero _
  · have hpos := hpend c' hc'
    rw [hb', waiting_add]
    by_cases hcc : c = c'
    · subst hcc
      exact Nat.add_pos_right _ (waiting_pos.mpr ⟨_, Multiset.mem_singleton_self _, rfl⟩)
    · rw [hb, waiting_cons_other rfl hcc] at hpos
      exact Nat.add_pos_left hpos _

/-- What the URL of an image of the press says of its counter. -/
theorem Tally.imageURL_uses (hw : Wired R role x) (h : Tally role press L opened done rest x)
    {s : ℕ} {path : String} (hb : x.bag = .imageURL c press s path ::ₘ bag) :
    c ∈ opened ∧ s ∈ L ∧ role c = .uploads press s ∧ press ≠ c ∧
      waiting c x.bag = waiting c bag + 1 := by
  have huses := hw.uses (.imageURL c press s path) (hb ▸ Multiset.mem_cons_self _ _)
  have hc : c ∈ opened := h.uploads (.imageURL c press s path)
    (hb ▸ Multiset.mem_cons_self _ _) c (by simp [Callback.uploadFor])
  refine ⟨hc, h.ref_mem hc huses.1.2, huses.1.2, ?_, by rw [hb, waiting_cons_self rfl]⟩
  rintro rfl
  have hr := huses.1.2
  rw [h.entries] at hr
  cases hr

/-- The URL of an image of the press is counted, and others are still to come. -/
theorem Tally.imageURL (hw : Wired R role x) (h : Tally role press L opened done rest x)
    (hL : ∀ s ∈ L, s ∈ R press) {s : ℕ} {path : String}
    (hb : x.bag = .imageURL c press s path ::ₘ bag)
    (hrole : Extends x.loc.nextCount role role') (hnext : x'.loc.nextCount = x.loc.nextCount)
    (hcounts : ∀ c', c' ≠ c → x'.loc.counts c' = x.loc.counts c') (hb' : x'.bag = bag)
    (hfew : x.loc.counts c + 1 ≠ (x.loc.heap s).images.length) :
    Advances role' press L opened x x' done rest := by
  obtain ⟨hc, hs, hr, hne, hwait⟩ := h.imageURL_uses hw hb
  refine ⟨opened, h.congr hrole hnext.ge (hcounts press hne) (fun k hk c' hkc => ?_) ?_,
    fun hall hpend c' hc' => ?_⟩
  · exact h.uploads k (hb ▸ Multiset.mem_cons_of_mem (hb' ▸ hk)) c' hkc
  · rw [hb, hb', written_cons_none rfl]
  · have hpos := hpend c' hc'
    rw [hb']
    by_cases hcc : c = c'
    · subst hcc
      have hfill := (hw.filled c press s hr (hL s hs) hpos).2 (hall s hs)
      omega
    · rwa [hb, waiting_cons_other rfl hcc] at hpos

/-- A counter of uploads of the press that nothing waits for is closed. -/
theorem Tally.erase (h : Tally role press L opened done rest x) (hc : c ∈ opened)
    (hrole : Extends x.loc.nextCount role role') :
    opened.val.map (fun c => (role c).ref) =
      (role c).ref ::ₘ (opened.erase c).val.map fun c => (role' c).ref := by
  have hcongr : (opened.erase c).val.map (fun c => (role' c).ref) =
      (opened.erase c).val.map fun c => (role c).ref :=
    Multiset.map_congr rfl fun c' hc' => by
      rw [hrole c' (h.made c' (Finset.mem_of_mem_erase hc')).1]
  rw [hcongr, ← Multiset.map_cons (fun c => (role c).ref), Finset.erase_val, Multiset.cons_erase hc]

/-- The last URL of the images of an entry is counted, and the entry is written. -/
theorem Tally.imageURL_last (hw : Wired R role x) (h : Tally role press L opened done rest x)
    (hL : ∀ s ∈ L, s ∈ R press) {s : ℕ} {path : String}
    (hb : x.bag = .imageURL c press s path ::ₘ bag)
    (hrole : Extends x.loc.nextCount role role') (hnext : x'.loc.nextCount = x.loc.nextCount)
    (hcounts : ∀ c', c' ≠ c → x'.loc.counts c' = x.loc.counts c')
    (hb' : x'.bag = bag + {Callback.entryWritten press s})
    (hlast : x.loc.counts c + 1 = (x.loc.heap s).images.length) :
    Advances role' press L opened x x' done rest := by
  obtain ⟨hc, hs, hr, hne, hwait⟩ := h.imageURL_uses hw hb
  have hfill := (hw.filled c press s hr (hL s hs) (by omega)).1
  have hzero : waiting c bag = 0 := by omega
  refine ⟨opened.erase c, ⟨?_, ?_, ?_, fun c' hc' => ?_, fun k hk c' hkc => ?_, ?_⟩,
    fun _ hpend c' hc' => ?_⟩
  · rw [hnext]
    exact h.lt
  · exact (hrole _ h.lt).trans h.entries
  · rw [hcounts press hne]
    exact h.count
  · obtain ⟨hlt, t, ht⟩ := h.made c' (Finset.mem_of_mem_erase hc')
    rw [hnext]
    exact ⟨hlt, t, (hrole c' hlt).trans ht⟩
  · rcases Multiset.mem_add.mp (hb' ▸ hk) with hk | hk
    · refine Finset.mem_erase.mpr ⟨?_, h.uploads k (hb ▸ Multiset.mem_cons_of_mem hk) c' hkc⟩
      rintro rfl
      refine waiting_eq_zero.mp hzero k hk ?_
      cases k <;> simp only [Callback.uploadFor, reduceCtorEq] at hkc
      all_goals
        split at hkc <;> cases hkc
        rfl
    · rw [Multiset.mem_singleton.mp hk] at hkc
      cases hkc
  · have hsplit := h.split
    rw [hb, written_cons_none rfl, h.erase hc hrole, hr] at hsplit
    have hone : written press (Callback.entryWritten press s ::ₘ 0) = {s} :=
      written_cons_some (by simp [Callback.writtenFor]) 0
    rw [Multiset.cons_zero] at hone
    rw [hb', written_add, hone, ← hsplit, Role.ref, Multiset.add_cons, Multiset.cons_add,
      ← Multiset.singleton_add]
    abel
  · obtain ⟨hne', hc'⟩ := Finset.mem_erase.mp hc'
    have hpos := hpend c' hc'
    rw [hb, waiting_cons_other rfl (Ne.symm hne')] at hpos
    rw [hb', waiting_add]
    exact Nat.add_pos_left hpos _

/-- The answer to the writing of an entry is counted, or it is a failure. -/
theorem Tally.entryWritten {done' rest' : Multiset ℕ} {new : Multiset Callback} {s : ℕ}
    (h : Tally role press L opened done rest x)
    (hb : x.bag = .entryWritten press s ::ₘ bag) (hrole : Extends x.loc.nextCount role role')
    (hnext : x'.loc.nextCount = x.loc.nextCount) (hb' : x'.bag = bag + new)
    (hnew : ∀ k ∈ new, k.uploadFor press = none ∧ k.writtenFor press = none)
    (hcount : x'.loc.counts press = x.loc.counts press + 1 ∧ done' = s ::ₘ done ∧ rest' = rest ∨
      x'.loc.counts press = x.loc.counts press ∧ done' = done ∧ rest' = s ::ₘ rest) :
    Advances role' press L opened x x' done' rest' := by
  have hwr : written press x.bag = s ::ₘ written press x'.bag := by
    rw [hb', written_add, written_eq_zero fun k hk => (hnew k hk).2, add_zero, hb,
      written_cons_some (s := s) (by simp [Callback.writtenFor])]
  have huploads : ∀ k ∈ x'.bag, ∀ c, k.uploadFor press = some c → c ∈ opened := by
    intro k hk c hkc
    rcases Multiset.mem_add.mp (hb' ▸ hk) with hk | hk
    · exact h.uploads k (hb ▸ Multiset.mem_cons_of_mem hk) c hkc
    · rw [(hnew k hk).1] at hkc
      cases hkc
  have hmade : ∀ c ∈ opened, c < x'.loc.nextCount ∧ ∃ r, role' c = .uploads press r := by
    intro c hc
    obtain ⟨hlt, r, hr⟩ := h.made c hc
    exact ⟨hnext ▸ hlt, r, (hrole c hlt).trans hr⟩
  have hmap : opened.val.map (fun c => (role' c).ref) = opened.val.map fun c => (role c).ref :=
    Multiset.map_congr rfl fun c hc => by rw [hrole c (h.made c hc).1]
  have hsplit := h.split
  rw [hwr, Multiset.add_cons, Multiset.cons_add, Multiset.cons_add, ← hmap] at hsplit
  have hpend : Pending opened x.bag → Pending opened x'.bag := by
    intro hpend c hc
    have hne : press ≠ c := by
      rintro rfl
      obtain ⟨-, r, hr⟩ := h.made press hc
      rw [h.entries] at hr
      cases hr
    have hpos := hpend c hc
    rw [hb, waiting_cons_other rfl hne] at hpos
    rw [hb', waiting_add]
    exact Nat.add_pos_left hpos _
  have hlt : press < x'.loc.nextCount := hnext ▸ h.lt
  have hrole' : role' press = .entries := (hrole _ h.lt).trans h.entries
  refine ⟨opened, ⟨hlt, hrole', ?_, hmade, huploads, ?_⟩, fun _ => hpend⟩
  · rcases hcount with ⟨hcount, rfl, rfl⟩ | ⟨hcount, rfl, rfl⟩
    · rw [hcount, h.count, Multiset.card_cons]
    · exact hcount.trans h.count
  · rcases hcount with ⟨hcount, rfl, rfl⟩ | ⟨hcount, rfl, rfl⟩
    · rw [Multiset.cons_add, Multiset.cons_add, Multiset.cons_add]
      exact hsplit
    · rw [Multiset.add_cons]
      exact hsplit

/-- **One answer** moves at most one entry of the press to the next place. -/
theorem Tally.deliver (hw : Wired R role x) (h : Tally role press L opened done rest x)
    (hL : ∀ s ∈ L, s ∈ R press) (hb : x.bag = k ::ₘ bag) (hr : react k ok a x.loc x.store = some r)
    (hnext : x.loc.nextCount ≤ r.1.nextCount) (hrole : Extends x.loc.nextCount role role') :
    ∃ done' rest', Counts press k ok done rest done' rest' ∧
      Advances role' press L opened x (program.after r { x with bag := bag }) done' rest' := by
  have hsame : (∀ s, k ≠ .entryWritten press s) → Advances role' press L opened x
      (program.after r { x with bag := bag }) done rest → ∃ done' rest',
      Counts press k ok done rest done' rest' ∧
      Advances role' press L opened x (program.after r { x with bag := bag }) done' rest' :=
    fun hne hadv => ⟨done, rest, Or.inl ⟨hne, rfl, rfl⟩, hadv⟩
  have hother : k.uploadFor press = none → k.writtenFor press = none →
      (∀ k' ∈ callbacks r.2, k'.uploadFor press = none ∧ k'.writtenFor press = none) →
      ∃ done' rest', Counts press k ok done rest done' rest' ∧
        Advances role' press L opened x (program.after r { x with bag := bag }) done' rest' := by
    intro hu hwr hcs
    refine hsame ?_ (h.deliver_other hw hb hr hnext hrole hu hwr hcs)
    rintro s rfl
    simp [Callback.writtenFor] at hwr
  have hidle : (∀ k' ∈ callbacks r.2, k'.saves = false) →
      ∀ k' ∈ callbacks r.2, k'.uploadFor press = none ∧ k'.writtenFor press = none :=
    fun hs k' hk' => Callback.for_of_not_saves (hs k' hk') press
  cases hk : k.saves with
  | false =>
    obtain ⟨hu, hwr⟩ := Callback.for_of_not_saves hk press
    exact hother hu hwr (hidle (not_saves_react hr hk))
  | true =>
    cases k <;> simp only [Callback.saves, reduceCtorEq] at hk
    case userFetched p ids => exact hother rfl rfl (hidle (not_saves_userFetched hr))
    case imageUploaded c p s path data =>
      simp only [react, Option.some.injEq] at hr
      by_cases hp : p = press
      · subst hp
        refine hsame (by simp) ?_
        split at hr <;> subst hr
        · exact h.imageUploaded hb hrole rfl rfl rfl
        · exact h.imageUploaded hb hrole rfl rfl rfl
      · refine hother (if_neg hp) rfl ?_
        subst hr
        simp [Callback.uploadFor, Callback.writtenFor, hp]
    case imageURL c p s path =>
      simp only [react] at hr
      split at hr <;> cases hr
      by_cases hp : p = press
      · subst hp
        refine hsame (by simp) ?_
        have himg : (((x.loc.set s { x.loc.heap s with
            imageUrls := (x.loc.heap s).imageUrls ++ [⟨path⟩] }).count c).heap s).images =
            (x.loc.heap s).images := by
          rw [show ∀ l : EditTrip, (l.count c).heap = l.heap from fun _ => rfl, heap_set_self]
        rw [counts_count_self, himg]
        split
        · rename_i hlast
          refine h.imageURL_last hw hL hb hrole rfl (fun c' hc' => counts_count_ne hc' _) ?_ hlast
          simp only [Program.after, callbacks_addToFirebase]
        · rename_i hfew
          exact h.imageURL hw hL hb hrole rfl (fun c' hc' => counts_count_ne hc' _)
            (by simp [Program.after]) hfew
      · refine hother (if_neg hp) rfl ?_
        split
        · rw [callbacks_addToFirebase]
          simp [Callback.uploadFor, Callback.writtenFor, hp]
        · simp
    case entryWritten p s =>
      by_cases hp : p = press
      · subst hp
        simp only [react, Option.some.injEq, EditTrip.entryWritten] at hr
        split at hr <;> subst hr
        · rename_i hok
          refine ⟨s ::ₘ done, rest, Or.inr ⟨s, rfl, Or.inl ⟨hok, rfl, rfl⟩⟩, ?_⟩
          refine h.entryWritten hb hrole rfl rfl (fun k' hk' => ?_)
            (Or.inl ⟨counts_count_self _ _, rfl, rfl⟩)
          dsimp only at hk'
          split at hk'
          · rw [callbacks_request, callbacks_nil, Multiset.mem_cons] at hk'
            rcases hk' with rfl | hk'
            · exact ⟨rfl, rfl⟩
            · exact absurd hk' (Multiset.notMem_zero _)
          · exact absurd hk' (Multiset.notMem_zero _)
        · rename_i hok
          refine ⟨done, s ::ₘ rest, Or.inr ⟨s, rfl, Or.inr ⟨by simpa using hok, rfl, rfl⟩⟩, ?_⟩
          exact h.entryWritten hb hrole rfl rfl (by simp) (Or.inr ⟨rfl, rfl, rfl⟩)
      · refine hother rfl (if_neg hp) ?_
        simp only [react, Option.some.injEq, EditTrip.entryWritten] at hr
        split at hr <;> subst hr
        · dsimp only
          split <;> simp [Callback.uploadFor, Callback.writtenFor]
        · simp

/-! ## One action of the user -/

/-- What comes before the loop adds to no counter. -/
theorem counts_updateTripInfo (l : EditTrip) (hc : c < l.nextCount) :
    (updateTripInfo l).1.counts c = l.counts c := by
  rw [updateTripInfo_eq]
  simp only [updateTripInfoDidSet]
  split
  · split
    · split
      · rfl
      · exact Function.update_of_ne hc.ne ..
    · rfl
  · rfl

theorem mem_callbacks_forEach {f : ℕ → Handler} {p : Callback → Prop}
    (hf : ∀ s l, ∀ k ∈ callbacks (f s l).2, p k) (xs : List ℕ) (l : EditTrip) :
    ∀ k ∈ callbacks (Handler.forEach f xs l).2, p k := by
  induction xs generalizing l with
  | nil => simp
  | cons s xs ih =>
    intro k hk
    rw [Handler.forEach_cons, Handler.andThen_apply, callbacks_append, Multiset.mem_add] at hk
    exact hk.elim (hf s l k) (ih _ k)

theorem forEach_deleteEntry_fst (xs : List ℕ) (l : EditTrip) :
    (Handler.forEach deleteEntry xs l).1 = l := by
  induction xs with
  | nil => rfl
  | cons s xs ih => exact ih

/-- The uploads and the writing of an entry add to no counter that there was. -/
theorem counts_addEntryToFirestore (press s : ℕ) (l : EditTrip) (hc : c < l.nextCount) :
    (addEntryToFirestore press s l).1.counts c = l.counts c := by
  simp only [addEntryToFirestore]
  split
  · rfl
  · exact Function.update_of_ne hc.ne ..

/-- What puts an entry of a press on its way is for this press. -/
theorem callbacks_addEntryToFirestore {s : ℕ} {l : EditTrip}
    (hk : k ∈ callbacks (addEntryToFirestore press s l).2) :
    (∃ c path data, k = .imageUploaded c press s path data) ∨ k = .entryWritten press s := by
  simp only [addEntryToFirestore] at hk
  split at hk
  · rw [callbacks_addToFirebase, Multiset.mem_singleton] at hk
    exact Or.inr hk
  · obtain ⟨i, data, -, -, rfl⟩ := callbacks_imageUploads hk
    exact Or.inl ⟨_, _, _, rfl⟩

/-- What a press puts on its way is for this press. -/
theorem callbacks_saveButtonPressed {l : EditTrip} (hk : k ∈ callbacks (saveButtonPressed l).2) :
    k.saves = false ∧ k.loads = false ∨
      (∃ c s path data, k = .imageUploaded c l.nextCount s path data) ∨
      ∃ s, k = .entryWritten l.nextCount s := by
  simp only [saveButtonPressed] at hk
  split at hk
  · simp at hk
  · simp only [Handler.andThen_apply, callbacks_append, Multiset.mem_add] at hk
    rcases hk with hk | hk | hk
    · left
      rcases callbacks_updateTripInfo hk with ⟨t, path, data, rfl⟩ | ⟨c, ids, t, rfl⟩ <;>
        exact ⟨rfl, rfl⟩
    · left
      obtain ⟨path, rfl⟩ := mem_callbacks_forEach (fun _ _ _ => callbacks_deleteEntry) _ _ k hk
      exact ⟨rfl, rfl⟩
    · refine Or.inr (mem_callbacks_forEach (p := fun k => (∃ c s path data,
        k = .imageUploaded c l.nextCount s path data) ∨ ∃ s, k = .entryWritten l.nextCount s)
        (fun s l' k' hk' => ?_) _ _ k hk)
      rcases callbacks_addEntryToFirestore hk' with ⟨c, path, data, rfl⟩ | rfl
      · exact Or.inl ⟨c, s, path, data, rfl⟩
      · exact Or.inr ⟨s, rfl⟩

/-- A press adds to no counter that there was. -/
theorem counts_saveButtonPressed (l : EditTrip) (hc : c < l.nextCount) :
    (saveButtonPressed l).1.counts c = l.counts c := by
  have hloop : ∀ (press : ℕ) (xs : List ℕ) (l' : EditTrip), c < l'.nextCount →
      (Handler.forEach (addEntryToFirestore press) xs l').1.counts c = l'.counts c := by
    intro press xs
    induction xs with
    | nil => exact fun _ _ => rfl
    | cons s xs ih =>
      intro l' hl'
      have hst := (stays_addEntryToFirestore press s l').nextCount
      exact (ih _ (hl'.trans_le hst)).trans (counts_addEntryToFirestore press s l' hl')
  simp only [saveButtonPressed]
  split
  · rfl
  · have hlt : c < l.newCount.nextCount := hc.trans (Nat.lt_succ_self _)
    have hle := (stays_updateTripInfo l.newCount).nextCount
    simp only [Handler.andThen_apply, forEach_deleteEntry_fst]
    rw [hloop _ _ _ (hlt.trans_le hle), counts_updateTripInfo _ hlt]
    exact Function.update_of_ne hc.ne ..

/-- A press leaves the trip of the screen alone, and does not leave the screen. -/
theorem kept_saveButtonPressed (l : EditTrip) :
    (saveButtonPressed l).1.tripID = l.tripID ∧
      (saveButtonPressed l).1.dismissed = l.dismissed := by
  have hadd : ∀ press s (l' : EditTrip), l'.tripID = l.tripID ∧ l'.dismissed = l.dismissed →
      (addEntryToFirestore press s l').1.tripID = l.tripID ∧
        (addEntryToFirestore press s l').1.dismissed = l.dismissed := by
    intro press s l' hl'
    simp only [addEntryToFirestore]
    split <;> exact hl'
  have hupdate : (updateTripInfo l.newCount).1.tripID = l.tripID ∧
      (updateTripInfo l.newCount).1.dismissed = l.dismissed := by
    rw [updateTripInfo_eq]
    simp only [updateTripInfoDidSet]
    split
    · split
      · split <;> exact ⟨rfl, rfl⟩
      · exact ⟨rfl, rfl⟩
    · exact ⟨rfl, rfl⟩
  simp only [saveButtonPressed]
  split
  · exact ⟨rfl, rfl⟩
  · simp only [Handler.andThen_apply, forEach_deleteEntry_fst]
    exact Handler.forEach_fst
      (I := fun l' => l'.tripID = l.tripID ∧ l'.dismissed = l.dismissed)
      (fun s _ l' hl' => hadd _ s l' hl') hupdate

/-- What the user does neither gives the screen a trip nor leaves it. -/
theorem kept_event {e : Event} {l : EditTrip} {db : Firestore} {r : EditTrip × List Cmd}
    (h : event e l db = some r) :
    r.1.tripID = l.tripID ∧ r.1.dismissed = l.dismissed ∧ r.1.user = l.user := by
  cases hp : e.presses with
  | false =>
    have hsame := undisturbed_event h hp
    exact ⟨hsame.tripID, hsame.dismissed, hsame.user⟩
  | true =>
    cases e <;> simp only [Event.presses, reduceCtorEq] at hp
    simp only [event] at h
    split at h <;> cases h
    obtain ⟨ht, hd⟩ := kept_saveButtonPressed l
    exact ⟨ht, hd, (stays_saveButtonPressed l).user⟩

/-- What the user does leaves the press alone. -/
theorem Tally.event (h : Tally role press L opened done rest x) {e : Event}
    (he : EditTrip.event e x.loc x.store = some r) (hnext : x.loc.nextCount ≤ r.1.nextCount)
    (hrole : Extends x.loc.nextCount role role') :
    Advances role' press L opened x (program.after r x) done rest := by
  have hkey : r.1.counts press = x.loc.counts press ∧
      ∀ k ∈ callbacks r.2, k.uploadFor press = none ∧ k.writtenFor press = none := by
    cases hp : e.presses with
    | false =>
      refine ⟨congrFun (undisturbed_event he hp).counts press, fun k hk => ?_⟩
      exact Callback.for_of_not_saves (not_saves_event he hp k hk) press
    | true =>
      cases e <;> simp only [Event.presses, reduceCtorEq] at hp
      simp only [EditTrip.event] at he
      split at he <;> cases he
      refine ⟨counts_saveButtonPressed _ h.lt, fun k hk => ?_⟩
      rcases callbacks_saveButtonPressed hk with ⟨hk, -⟩ | ⟨c, s, path, data, rfl⟩ | ⟨s, rfl⟩
      · exact Callback.for_of_not_saves hk press
      · exact ⟨if_neg h.lt.ne', rfl⟩
      · exact ⟨rfl, if_neg h.lt.ne'⟩
  obtain ⟨hcounts, hcs⟩ := hkey
  refine ⟨opened, h.congr hrole hnext hcounts (fun k hk c hkc => ?_) ?_,
    fun _ hpend c hc => ?_⟩
  · rcases Multiset.mem_add.mp hk with hk | hk
    · exact h.uploads k hk c hkc
    · rw [(hcs k hk).1] at hkc
      cases hkc
  · simp only [Program.after, written_add]
    rw [written_eq_zero fun k hk => (hcs k hk).2, add_zero]
  · exact waiting_add c x.bag _ ▸ Nat.add_pos_left (hpend c hc) _

/-! ## The press -/

/-- What a pass of the loop over the entries does: the entry is written at once, or its uploads
are on their way. -/
theorem Tally.add {s : ℕ} (hw : Wired R role x)
    (h : Tally role press L opened done (s ::ₘ rest) x) :
    ∃ role', Extends x.loc.nextCount role role' ∧
      Wired R role' (program.after (addEntryToFirestore press s x.loc) x) ∧
      Advances role' press L opened x (program.after (addEntryToFirestore press s x.loc) x)
        done rest := by
  by_cases hs : (x.loc.heap s).images.length = 0
  · have hcode : addEntryToFirestore press s x.loc = addToFirebase press s x.loc := by
      simp only [addEntryToFirestore, if_pos hs]
    rw [hcode]
    refine ⟨role, .refl _ _, hw.addToFirebase h.lt h.entries s, opened,
      ⟨h.lt, h.entries, h.count, h.made, fun k hk c hkc => ?_, ?_⟩, fun _ hpend c hc => ?_⟩
    · rcases Multiset.mem_add.mp hk with hk | hk
      · exact h.uploads k hk c hkc
      · rw [callbacks_addToFirebase] at hk
        rw [Multiset.mem_singleton.mp hk] at hkc
        cases hkc
    · have hone : written press {Callback.entryWritten press s} = {s} :=
        written_cons_some (by simp [Callback.writtenFor]) 0
      rw [← h.split, Program.after, written_add, callbacks_addToFirebase, hone,
        ← Multiset.singleton_add]
      abel
    · exact waiting_add c x.bag _ ▸ Nat.add_pos_left (hpend c hc) _
  · have hnew := hw.addEntryToFirestore h.lt h.entries hs
    have hrole : Extends x.loc.nextCount role
        (Function.update role x.loc.nextCount (.uploads press s)) := extends_update _ _ _
    have hfresh : x.loc.nextCount ∉ opened := fun hc => (h.made _ hc).1.false
    have hcode : addEntryToFirestore press s x.loc =
        (x.loc.newCount.set s { x.loc.heap s with imageUrls := [] },
          imageUploads x.loc.currentUser.uid (x.loc.id s) x.loc.nextCount press s
            (x.loc.heap s).images 0) := by
      simp only [addEntryToFirestore, if_neg hs]
    have hplain : ∀ k ∈ callbacks (imageUploads x.loc.currentUser.uid (x.loc.id s) x.loc.nextCount
        press s (x.loc.heap s).images 0), k.uploadFor press = some x.loc.nextCount ∧
        k.writtenFor press = none := by
      intro k hk
      obtain ⟨i, data, -, -, rfl⟩ := callbacks_imageUploads hk
      exact ⟨by simp [Callback.uploadFor], rfl⟩
    refine ⟨_, hrole, hnew, insert x.loc.nextCount opened, ?_, ?_⟩
    · rw [hcode]
      refine ⟨h.lt.trans (Nat.lt_succ_self _), (hrole _ h.lt).trans h.entries, ?_, fun c hc => ?_,
        fun k hk c hkc => ?_, ?_⟩
      · exact (Function.update_of_ne h.lt.ne ..).trans h.count
      · rcases Finset.mem_insert.mp hc with rfl | hc
        · exact ⟨Nat.lt_succ_self _, s, Function.update_self ..⟩
        · obtain ⟨hlt, t, ht⟩ := h.made c hc
          exact ⟨hlt.trans (Nat.lt_succ_self _), t, (hrole c hlt).trans ht⟩
      · rcases Multiset.mem_add.mp hk with hk | hk
        · exact Finset.mem_insert_of_mem (h.uploads k hk c hkc)
        · rw [(hplain k hk).1] at hkc
          exact Option.some.inj hkc ▸ Finset.mem_insert_self _ _
      · have hmap : opened.val.map (fun c =>
            (Function.update role x.loc.nextCount (.uploads press s) c).ref) =
            opened.val.map fun c => (role c).ref :=
          Multiset.map_congr rfl fun c hc => by rw [hrole c (h.made c hc).1]
        rw [Program.after, written_add, written_eq_zero fun k hk => (hplain k hk).2, add_zero,
          Finset.insert_val_of_notMem hfresh, Multiset.map_cons, hmap, Function.update_self,
          Role.ref, ← h.split, ← Multiset.singleton_add, ← Multiset.singleton_add]
        abel
    · intro hall hpend c hc
      rw [hcode]
      simp only [Program.after, waiting_add]
      rcases Finset.mem_insert.mp hc with rfl | hc
      · have hmem : s ∈ L := by
          rw [← h.split]
          exact Multiset.mem_add.mpr (Or.inr (Multiset.mem_cons_self s rest))
        rw [(waiting_imageUploads _ _ _ _ _ _ _).2 (hall s hmem)]
        omega
      · exact Nat.add_pos_left (hpend c hc) _

/-- The loop over the entries. -/
theorem Tally.adds (rs : List ℕ) (hw : Wired R role x)
    (h : Tally role press L opened done ↑rs x) :
    ∃ role', Extends x.loc.nextCount role role' ∧
      Wired R role' (program.after (Handler.forEach (addEntryToFirestore press) rs x.loc) x) ∧
      Advances role' press L opened x
        (program.after (Handler.forEach (addEntryToFirestore press) rs x.loc) x) done 0 := by
  induction rs generalizing role opened x with
  | nil =>
    rw [show program.after (Handler.forEach (addEntryToFirestore press) [] x.loc) x = x by
      simp [Program.after]]
    exact ⟨role, .refl _ _, hw, opened, h, fun _ hpend => hpend⟩
  | cons s rs ih =>
    obtain ⟨role₁, hr₁, hw₁, opened₁, h₁, hp₁⟩ := Tally.add hw
      (show Tally role press L opened done (s ::ₘ ↑rs) x from h)
    obtain ⟨role₂, hr₂, hw₂, opened₂, h₂, hp₂⟩ := ih hw₁ h₁
    have hst : Stays x.loc (addEntryToFirestore press s x.loc).1 := stays_addEntryToFirestore _ _ _
    rw [Handler.forEach_cons, after_andThen]
    refine ⟨role₂, hr₁.trans hr₂ hst.nextCount, hw₂, opened₂, h₂, fun hall hpend => ?_⟩
    refine hp₂ (fun t ht image himage => hall t ht image ?_) (hp₁ hall hpend)
    rwa [← CustomAnnotation.images_eq_of_content (hst.content t)]

/-- **The press**: all its entries are written or have uploads on their way. -/
theorem tally_saveButtonPressed (h : Wired R role x) (he : x.loc.emptyField = false) :
    ∃ role', Extends x.loc.nextCount role role' ∧
      Wired R role' (program.after (saveButtonPressed x.loc) x) ∧
      ∃ opened, Tally role' x.loc.nextCount ↑x.loc.entryList opened 0 0
          (program.after (saveButtonPressed x.loc) x) ∧
        ((∀ s ∈ x.loc.entryList, ∀ image ∈ (x.loc.heap s).images, image.jpegData.isSome) →
          Pending opened (program.after (saveButtonPressed x.loc) x).bag) := by
  have hlt : x.loc.nextCount < x.loc.newCount.nextCount := Nat.lt_succ_self _
  obtain ⟨hle, role₁, hr₁, hw₁⟩ := h.prepared
  have hnew : Stays x.loc x.loc.newCount := (Stays.refl x.loc).of_core rfl (Nat.le_succ _)
  have hstays : Stays x.loc (updateTripInfo x.loc.newCount).1 :=
    hnew.trans (stays_updateTripInfo _)
  have hentries : role₁ x.loc.nextCount = .entries :=
    (hr₁ _ hlt).trans (Function.update_self ..)
  have hbag : ∀ k ∈ x.bag + callbacks (updateTripInfo x.loc.newCount).2 +
      callbacks (Handler.forEach deleteEntry x.loc.deleteList
        (updateTripInfo x.loc.newCount).1).2,
      k.uploadFor x.loc.nextCount = none ∧ k.writtenFor x.loc.nextCount = none := by
    intro k hk
    rcases Multiset.mem_add.mp hk with hk | hk
    · rcases Multiset.mem_add.mp hk with hk | hk
      · exact Callback.for_of_uses (h.uses k hk)
      · exact Callback.for_of_not_saves (not_saves_updateTripInfo _ k hk) _
    · exact Callback.for_of_not_saves (mem_callbacks_forEach not_saves_deleteEntry _ _ k hk) _
  -- before the loop, all entries of the press are still to come
  have htally : Tally role₁ x.loc.nextCount ↑x.loc.entryList ∅ 0 ↑x.loc.entryList
      (program.after
        (Handler.forEach deleteEntry x.loc.deleteList (updateTripInfo x.loc.newCount).1)
        (program.after (updateTripInfo x.loc.newCount) x)) := by
    refine ⟨hlt.trans_le hle, hentries, ?_, by simp, fun k hk c hkc => ?_, ?_⟩
    · simp only [Program.after, forEach_deleteEntry_fst, Multiset.card_zero]
      rw [counts_updateTripInfo _ hlt]
      exact Function.update_self ..
    · rw [(hbag k hk).1] at hkc
      cases hkc
    · simp only [Program.after]
      rw [written_eq_zero fun k hk => (hbag k hk).2]
      simp
  obtain ⟨role₂, hr₂, hw₂, opened, ht, hp⟩ := Tally.adds x.loc.entryList hw₁ htally
  rw [saveButtonPressed_eq he, after_andThen, after_andThen]
  refine ⟨role₂, (extends_update _ _ _).trans (hr₁.trans hr₂ hle) hlt.le, hw₂, opened, ht,
    fun hall => hp (fun s hs image himage => hall s hs image ?_) (by simp [Pending])⟩
  simp only [Program.after, forEach_deleteEntry_fst] at himage
  rwa [← CustomAnnotation.images_eq_of_content (hstays.content s)]

/-- The press, as a step. -/
theorem direct_press {st st' : State Firestore EditTrip Write Callback}
    (hpress : program.step (.event .saveButtonPressed) st = some st') :
    program.direct st' = program.after (saveButtonPressed st.loc) (program.direct st) := by
  obtain ⟨res, he, rfl⟩ := Option.map_eq_some_iff.mp hpress
  have hres : res = saveButtonPressed st.loc := by
    simp only [program, event] at he
    split at he <;> cases he
    rfl
  rw [direct_issue, hres]
  rfl

end

end EditTrip

end Wanderlust
