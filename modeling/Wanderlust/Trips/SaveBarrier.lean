import Wanderlust.Foundations.Runs
import Wanderlust.Trips.Barrier
import Wanderlust.Trips.NothingLost

/-!
# When the trip of a press is written

In a run of the edit screen in which everything that belongs to a press of the save button
succeeds, each entry of the press is counted once (`Uploading.step`), so that the observer of the
press compares the number of the entries on the screen once with each of 1, ..., n. For each of
these comparisons that holds, the document of the user is fetched, and when it arrives, the trip is
written (`fetches_step`). So the press writes the trip exactly once, and after the last of its
entries, if one comparison holds and the document then arrives late enough (`saves_once`). This is
the case when the list of entries stays as long as it is (`Uploading.inTime`).
-/

namespace Wanderlust

open Async Runs

namespace EditTrip

/-- The answer that an entry of the press has been written. -/
def completes (press : ℕ) : Async.Move Callback TripID Event → Option ℕ
  | .deliver (.entryWritten p r) true _ => if p = press then some r else none
  | _ => none

/-- The press whose observer fires: the number of its entries that have been written is now the
number of the entries on the screen. -/
def firing (l : EditTrip) : Async.Move Callback TripID Event → Option ℕ
  | .deliver (.entryWritten p _) true _ =>
    if l.counts p + 1 = l.entryList.length then some p else none
  | _ => none

/-- The uploads, the writes and the fetch of a save succeed. -/
def succeeds (db : Firestore) (l : EditTrip) : Async.Move Callback TripID Event → Bool
  | .deliver k ok _ =>
    !k.saves || ok && (!k.awaitsUser || (db.users.lookup l.user).isSome)
  | .event _ => true

/-- The press that a callback belongs to. -/
def Callback.ofPress : Callback → Option ℕ
  | .imageUploaded _ p _ _ _ => some p
  | .imageURL _ p _ _ => some p
  | .entryWritten p _ => some p
  | .userFetched p _ => some p
  | _ => none

/-- The callback waits for the document of the user, for a press of which `q` is true. -/
def Callback.awaits (q : ℕ → Bool) : Callback → Bool
  | .userFetched p _ => q p
  | _ => false

/-- The press for which the document of the user arrives. -/
def arriving : Async.Move Callback TripID Event → Option ℕ
  | .deliver (.userFetched p _) _ _ => some p
  | _ => none

/-- The write of a trip that is a command: `addDocument` or `updateData` in the trips. -/
def tripWrite : Cmd → Option Write
  | .write (.addTrip t doc) _ => some (.addTrip t doc)
  | .write (.updateTrip t f) _ => some (.updateTrip t f)
  | _ => none

/-- The writes of trips that the code of a press issues. -/
def tripWritesOf (press : ℕ) (db : Firestore) (l : EditTrip) :
    Async.Move Callback TripID Event → List Write
  | .deliver k ok a =>
    if k.ofPress = some press then
      ((react k ok a l db).map fun r => r.2.filterMap tripWrite).getD []
    else []
  | .event _ => []

section

variable (press : ℕ) (st : State Firestore EditTrip Write Callback) (lbl : Label TripID Event)

/-- The entry of the press whose writing is answered by a step. -/
def Completes : Option ℕ := (st.move lbl).bind (completes press)

/-- The observer of the press fires. -/
def Fires : Prop := (st.move lbl).bind (firing st.loc) = some press

instance : Decidable (Fires press st lbl) := inferInstanceAs (Decidable (_ = _))

/-- No failure of what belongs to a save. -/
def Succeeds : Prop := (st.move lbl).all (succeeds (program.view st) st.loc)

instance : Decidable (Succeeds st lbl) := inferInstanceAs (Decidable (_ = _))

/-- The document of the user arrives for the press. -/
def Arrives : Prop := (st.move lbl).bind arriving = some press

instance : Decidable (Arrives press st lbl) := inferInstanceAs (Decidable (_ = _))

/-- The writes of trips that the code of the press issues in a step. -/
def tripWrites : List Write :=
  ((st.move lbl).map (tripWritesOf press (program.view st) st.loc)).getD []

/-- The entries of the press that are written in a run, in order. -/
def entriesWritten : State Firestore EditTrip Write Callback →
    List (Label TripID Event × State Firestore EditTrip Write Callback) → List ℕ
  | _, [] => []
  | st, (lbl, st') :: tr => (Completes press st lbl).toList ++ entriesWritten st' tr

end

/-- The fetches of the user document for the press that are on their way. -/
def fetchesFor (press : ℕ) (st : State Firestore EditTrip Write Callback) : ℕ :=
  (program.direct st).bag.countP fun k => k.awaits (· = press)

/-- **Exactly once**, for a press with the entries `L` and the run after it: its code issues one
write of a trip, when all entries have been written. -/
structure SavesOnce (press : ℕ) (L : List ℕ) (st : State Firestore EditTrip Write Callback)
    (tr : List (Label TripID Event × State Firestore EditTrip Write Callback)) : Prop where
  once : (collect (tripWrites press) st tr).length = 1
  late : ∀ tr₁ x tr₂, tr = tr₁ ++ x :: tr₂ → tripWrites press (final st tr₁) x.1 ≠ [] →
    (entriesWritten press st tr₁).Perm L

/-- As the entries of the press are written one after the other, there is one moment at which the
screen lists as many entries as have been written; and the document of the user, which is fetched
then, arrives when all `n` have. -/
structure InTime (press n : ℕ) (st : State Firestore EditTrip Write Callback)
    (tr : List (Label TripID Event × State Firestore EditTrip Write Callback)) : Prop where
  fires : times (Fires press) st tr = 1
  arrives : Meets (fun st lbl => Arrives press st lbl → st.loc.counts press = n) st tr

/-- A press of the entries `L` is on its way without failures, and `done` have been counted. -/
def Uploading (press : ℕ) (L : List ℕ) (done : Multiset ℕ)
    (x : Direct Firestore EditTrip Callback) : Prop :=
  (∀ s ∈ L, ∀ image ∈ (x.loc.heap s).images, image.jpegData.isSome) ∧
    ∃ role opened, Wired (fun p => {s | p = press ∧ s ∈ L}) role x ∧
      Tally role press ↑L opened done 0 x ∧ Pending opened x.bag

section

variable {press : ℕ} {L : List ℕ} {done : Multiset ℕ} {x x' : Direct Firestore EditTrip Callback}
  {m : Async.Move Callback TripID Event} {k : Callback} {ok : Bool} {a : TripID} {l : EditTrip}
  {db : Firestore} {r : EditTrip × List Cmd}

/-! ## The fetches of the user document -/

theorem Callback.awaits_true : Callback.awaits (fun _ => true) = Callback.awaitsUser := by
  funext k
  cases k <;> rfl

theorem Callback.awaits_of_not_saves (h : k.saves = false) (q : ℕ → Bool) :
    k.awaits q = false := by
  cases k <;> first | rfl | cases h

theorem Callback.awaitsUser_of_not_saves (h : k.saves = false) : k.awaitsUser = false := by
  cases k <;> first | rfl | cases h

theorem Callback.ofPress_of_not_saves (h : k.saves = false) : k.ofPress = none := by
  cases k <;> first | rfl | cases h

theorem awaiting_eq_zero {q : ℕ → Bool} {bag : Multiset Callback}
    (h : ∀ k ∈ bag, k.awaits q = false) : bag.countP (fun k => k.awaits q) = 0 :=
  Multiset.countP_eq_zero.mpr fun k hk => by simp [h k hk]

/-- The user document is fetched for a press when its observer fires, and only then. -/
theorem awaiting_react (h : react k ok a l db = some r) (q : ℕ → Bool) :
    (callbacks r.2).countP (fun k => k.awaits q) =
      if (firing l (.deliver k ok a)).any q then 1 else 0 := by
  by_cases hk : ∃ p s, k = .entryWritten p s
  · obtain ⟨p, s, rfl⟩ := hk
    simp only [react, Option.some.injEq, entryWritten] at h
    split at h <;> subst h
    · rename_i hok
      subst hok
      simp only [counts_count_self, firing]
      have hlist : (l.count p).entryList = l.entryList := rfl
      rw [hlist]
      split
      · rw [callbacks_request, callbacks_nil, Multiset.countP_cons, Multiset.countP_zero,
          zero_add]
        rfl
      · rfl
    · rename_i hok
      obtain rfl : ok = false := by simpa using hok
      rfl
  · have hquiet : firing l (.deliver k ok a) = none := by
      cases k <;> first | rfl | exact absurd ⟨_, _, rfl⟩ hk
    rw [hquiet]
    refine awaiting_eq_zero fun k' hk' => ?_
    cases leads_react h k' hk' <;> first | rfl | exact absurd ⟨_, _, rfl⟩ hk

theorem fetches_react (h : react k ok a l db = some r) :
    (callbacks r.2).countP (fun k => k.awaitsUser) =
      if (firing l (.deliver k ok a)).isSome then 1 else 0 := by
  have hany : (firing l (.deliver k ok a)).any (fun _ => true) =
      (firing l (.deliver k ok a)).isSome := by
    cases firing l (.deliver k ok a) <;> rfl
  rw [← hany, ← awaiting_react h, Callback.awaits_true]

theorem awaiting_event {e : Event} (h : event e l db = some r) (q : ℕ → Bool) :
    (callbacks r.2).countP (fun k => k.awaits q) = 0 := by
  refine awaiting_eq_zero fun k hk => ?_
  cases hp : e.presses with
  | false => exact Callback.awaits_of_not_saves (not_saves_event h hp k hk) q
  | true =>
    cases e <;> simp only [Event.presses, reduceCtorEq] at hp
    simp only [event] at h
    split at h <;> cases h
    rcases callbacks_saveButtonPressed hk with ⟨hk, -⟩ | ⟨c, s, path, data, rfl⟩ | ⟨s, rfl⟩
    · exact Callback.awaits_of_not_saves hk q
    · rfl
    · rfl

theorem fetches_event {e : Event} (h : event e l db = some r) :
    (callbacks r.2).countP (fun k => k.awaitsUser) = 0 := by
  rw [← Callback.awaits_true]
  exact awaiting_event h _

/-! ## The writes of the trip -/

theorem tripWrite_requests {cs : List Cmd} (h : ∀ c ∈ cs, ∃ k, c = .request k) :
    cs.filterMap tripWrite = [] := by
  refine List.filterMap_eq_nil_iff.mpr fun c hc => ?_
  obtain ⟨k, rfl⟩ := h c hc
  rfl

theorem tripWrite_addToFirebase (p s : ℕ) (l : EditTrip) :
    (addToFirebase p s l).2.filterMap tripWrite = [] := by
  refine List.filterMap_eq_nil_iff.mpr fun c hc => ?_
  rcases List.mem_cons.mp hc with rfl | hc
  · rfl
  · obtain ⟨u, -, rfl⟩ := List.mem_map.mp hc
    rfl

theorem tripWrite_updateTripID (ids : List EntryID) (t : TripID) (l : EditTrip) :
    (updateTripID ids t l).2.filterMap tripWrite = [] := by
  refine List.filterMap_eq_nil_iff.mpr fun c hc => ?_
  obtain ⟨id, -, rfl⟩ := List.mem_map.mp hc
  rfl

theorem tripWrite_uploadTripCoverPhoto (t : TripID) (l : EditTrip) :
    (uploadTripCoverPhoto t l).2.filterMap tripWrite = [] := by
  simp only [uploadTripCoverPhoto, Handler.issue_apply]
  split <;> rfl

/-- Creating a trip writes it once. -/
theorem tripWrite_createTrip (ids : List EntryID) (userData : UserDoc) (t : TripID)
    (l : EditTrip) : ((createTrip ids userData t l).2.filterMap tripWrite).length = 1 := by
  simp only [createTrip, Handler.andThen_apply, Handler.issue_apply, Handler.modify_apply,
    List.filterMap_append, tripWrite_updateTripID, tripWrite_uploadTripCoverPhoto]
  rfl

/-- **The trip is written when the document of the user arrives**: once, and in no other step. -/
theorem length_tripWritesOf (h : react k ok a l db = some r)
    (hok : succeeds db l (.deliver k ok a) = true) (press : ℕ) :
    (tripWritesOf press db l (.deliver k ok a)).length =
      if arriving (.deliver k ok a) = some press then 1 else 0 := by
  simp only [tripWritesOf, h, Option.map_some, Option.getD_some]
  cases k with
  | userFetched p ids =>
    simp only [succeeds, Callback.saves, Callback.awaitsUser, Bool.not_true, Bool.false_or,
      Bool.and_eq_true] at hok
    obtain ⟨rfl, hdoc⟩ := hok
    obtain ⟨userData, hdoc⟩ := Option.isSome_iff_exists.mp hdoc
    simp only [react, if_true, hdoc] at h
    have hone : (r.2.filterMap tripWrite).length = 1 := by
      split at h <;> cases h
      · exact tripWrite_createTrip ..
      · rfl
    by_cases hp : p = press
    · simp [Callback.ofPress, arriving, hp, hone]
    · simp [Callback.ofPress, arriving, hp]
  | imageURL c p s path =>
    have hnone : r.2.filterMap tripWrite = [] := by
      simp only [react] at h
      split at h <;> cases h
      split
      · exact tripWrite_addToFirebase p s _
      · rfl
    rw [hnone, ite_self]
    rfl
  | imageUploaded c p s path data =>
    rw [tripWrite_requests (requests_react h rfl), ite_self]
    rfl
  | entryWritten p s =>
    rw [tripWrite_requests (requests_react h rfl), ite_self]
    rfl
  | _ => rfl

theorem length_tripWrites_step (press : ℕ) (h : DirectStep program x m x')
    (hok : succeeds x.store x.loc m = true) :
    (tripWritesOf press x.store x.loc m).length = if arriving m = some press then 1 else 0 := by
  cases h with
  | event he => rfl
  | deliver hb hr => exact length_tripWritesOf hr hok press

/-- One step, for the fetches of a press that are on their way. -/
theorem awaiting_step (press : ℕ) (h : DirectStep program x m x')
    (hok : succeeds x.store x.loc m = true) :
    x'.bag.countP (fun k => k.awaits (· = press)) + (tripWritesOf press x.store x.loc m).length =
      x.bag.countP (fun k => k.awaits (· = press)) +
        if firing x.loc m = some press then 1 else 0 := by
  cases h with
  | event he =>
    simp only [Program.after, Multiset.countP_add, awaiting_event he]
    rfl
  | @deliver k ok a rest r hb hr =>
    have hfires : (firing x.loc (.deliver k ok a)).any (· = press) =
        decide (firing x.loc (.deliver k ok a) = some press) := by
      cases firing x.loc (.deliver k ok a) <;> simp
    simp only [Program.after, Multiset.countP_add, awaiting_react hr, hb, Multiset.countP_cons,
      length_tripWritesOf hr hok press, hfires, decide_eq_true_eq]
    have harrives : k.awaits (· = press) = true ↔ arriving (.deliver k ok a) = some press := by
      cases k <;> simp [Callback.awaits, arriving]
    simp only [harrives]
    omega

section

variable {st st' : State Firestore EditTrip Write Callback} {lbl : Label TripID Event}

theorem length_tripWrites (press : ℕ) (h : program.step lbl st = some st')
    (hok : Succeeds st lbl) :
    (tripWrites press st lbl).length = if Arrives press st lbl then 1 else 0 := by
  rcases step_move h with ⟨hm, -⟩ | ⟨m, hm, hd⟩
  · simp [tripWrites, Arrives, hm]
  · have hok' : succeeds (program.view st) st.loc m = true := by simpa [Succeeds, hm] using hok
    simp only [tripWrites, Arrives, hm, Option.map_some, Option.getD_some, Option.bind_some]
    exact length_tripWrites_step press hd hok'

/-- **One step**: the fetches of the press on their way, and the writes of the trip. -/
theorem fetches_step (press : ℕ) (h : program.step lbl st = some st') (hok : Succeeds st lbl) :
    fetchesFor press st' + (tripWrites press st lbl).length =
      fetchesFor press st + if Fires press st lbl then 1 else 0 := by
  rcases step_move h with ⟨hm, -, s, hd⟩ | ⟨m, hm, hd⟩
  · simp [fetchesFor, tripWrites, Fires, hm, hd]
  · have hok' : succeeds (program.view st) st.loc m = true := by simpa [Succeeds, hm] using hok
    simp only [fetchesFor, tripWrites, Fires, hm, Option.map_some, Option.getD_some,
      Option.bind_some]
    exact awaiting_step press hd hok'

end

/-! ## The entries of the press -/

/-- **One step** counts at most one entry, if nothing fails and the images stay as they are. -/
theorem Uploading.step (h : Uploading press L done x) (hs : DirectStep program x m x')
    (hok : succeeds x.store x.loc m = true)
    (himg : ∀ s ∈ L, (x'.loc.heap s).images = (x.loc.heap s).images) :
    Uploading press L ((completes press m).elim done (· ::ₘ done)) x' ∧
      x'.loc.counts press = x.loc.counts press + if (completes press m).isSome then 1 else 0 := by
  obtain ⟨henc, role, opened, hw, ht, hp⟩ := h
  have hphotos : ∀ s p, s ∈ {s | p = press ∧ s ∈ L} →
      (x'.loc.heap s).images = (x.loc.heap s).images := fun s _ hs => himg s hs.2
  have henc' : ∀ s ∈ L, ∀ image ∈ (x'.loc.heap s).images, image.jpegData.isSome := by
    intro s hs image himage
    exact henc s hs image (himg s hs ▸ himage)
  obtain ⟨hnext, role', hr', hw'⟩ := hw.step hs hphotos
  have hkey : ∀ {done' : Multiset ℕ}, Advances role' press ↑L opened x x' done' 0 →
      Uploading press L done' x' ∧ Multiset.card done' = x'.loc.counts press := by
    rintro done' ⟨opened', ht', hp'⟩
    exact ⟨⟨henc', role', opened', hw', ht', hp' henc hp⟩, ht'.count.symm⟩
  cases hs with
  | event he =>
    obtain ⟨hu, hc⟩ := hkey (ht.event he hnext hr')
    exact ⟨hu, by rw [← hc, ← ht.count]; rfl⟩
  | @deliver k ok a rest r hb hr =>
    obtain ⟨done', rest', hcounts, hadv⟩ := ht.deliver hw (fun s hs => ⟨rfl, hs⟩) hb hr hnext hr'
    rcases hcounts with ⟨hne, rfl, rfl⟩ | ⟨s, rfl, ⟨rfl, rfl, rfl⟩ | ⟨rfl, rfl, rfl⟩⟩
    · obtain ⟨hu, hc⟩ := hkey hadv
      have hno : completes press (.deliver k ok a) = none := by
        cases k <;> try rfl
        rename_i p s
        have hps : p ≠ press := fun hps => hne s (by rw [hps])
        cases ok <;> simp [completes, hps]
      rw [hno]
      exact ⟨hu, by rw [← hc, ← ht.count]; rfl⟩
    · obtain ⟨hu, hc⟩ := hkey hadv
      have hyes : completes press (.deliver (.entryWritten press s) true a) = some s := by
        simp [completes]
      rw [hyes]
      exact ⟨hu, by rw [← hc, Multiset.card_cons, ← ht.count]; rfl⟩
    · simp [succeeds, Callback.saves] at hok

theorem Uploading.store (h : Uploading press L done x) (s : Firestore) :
    Uploading press L done { x with store := s } := by
  obtain ⟨henc, role, opened, hw, ht, hp⟩ := h
  exact ⟨henc, role, opened, ⟨hw.uses, hw.filled⟩,
    ⟨ht.lt, ht.entries, ht.count, ht.made, ht.uploads, ht.split⟩, hp⟩

theorem Uploading.count (h : Uploading press L done x) :
    x.loc.counts press = Multiset.card done ∧ Multiset.card done ≤ L.length := by
  obtain ⟨-, role, opened, -, ht, -⟩ := h
  refine ⟨ht.count, ?_⟩
  have hle := ht.count_le
  rwa [ht.count, Multiset.coe_card] at hle

/-- When nothing is on its way any more, all entries have been counted. -/
theorem Uploading.quiescent (h : Uploading press L done x) (hb : x.bag = 0) : done = ↑L := by
  obtain ⟨-, role, opened, -, ht, hp⟩ := h
  have hopened : opened = ∅ := by
    refine Finset.eq_empty_of_forall_notMem fun c hc => ?_
    have hpos := hp c hc
    rw [hb] at hpos
    simp at hpos
  have hsplit := ht.split
  rw [hb, hopened] at hsplit
  simpa using hsplit

/-- When as many are counted as there are, all are. -/
theorem Uploading.full (h : Uploading press L done x) (hc : Multiset.card done = L.length) :
    done = ↑L := by
  obtain ⟨-, role, opened, -, ht, -⟩ := h
  exact (ht.full (by rw [ht.count, hc, Multiset.coe_card])).1

end

/-! ## The run -/

/-- A step of a run in which nothing fails and the images of the entries stay as they are. -/
def Goes (L : List ℕ) (st : State Firestore EditTrip Write Callback) (lbl : Label TripID Event)
    (st' : State Firestore EditTrip Write Callback) : Prop :=
  program.step lbl st = some st' ∧ Succeeds st lbl ∧
    ∀ s ∈ L, (st'.loc.heap s).images = (st.loc.heap s).images

section

variable {press : ℕ} {L : List ℕ} {done : Multiset ℕ}
  {st st' : State Firestore EditTrip Write Callback} {lbl : Label TripID Event}
  {tr : List (Label TripID Event × State Firestore EditTrip Write Callback)}

theorem isRun_goes (h : IsRun (fun st lbl st' => program.step lbl st = some st') st tr)
    (hok : Meets Succeeds st tr)
    (himg : ∀ x ∈ tr, ∀ s ∈ L, (x.2.loc.heap s).images = (st.loc.heap s).images) :
    IsRun (Goes L) st tr := by
  induction tr generalizing st with
  | nil => trivial
  | cons x tr ih =>
    have hx := himg x List.mem_cons_self
    refine ⟨⟨h.1, hok.1, hx⟩, ih h.2 hok.2 fun y hy s hs => ?_⟩
    exact (himg y (List.mem_cons_of_mem _ hy) s hs).trans (hx s hs).symm

theorem Uploading.goes (h : Uploading press L done (program.direct st)) (hs : Goes L st lbl st') :
    Uploading press L ((Completes press st lbl).elim done (· ::ₘ done)) (program.direct st') ∧
      st'.loc.counts press =
        st.loc.counts press + if (Completes press st lbl).isSome then 1 else 0 := by
  obtain ⟨hstep, hok, himg⟩ := hs
  rcases step_move hstep with ⟨hm, -, s, hd⟩ | ⟨m, hm, hd⟩
  · have hno : Completes press st lbl = none := by simp [Completes, hm]
    rw [hno, hd]
    exact ⟨h.store s, congrArg (fun x => x.loc.counts press) hd⟩
  · have hm' : Completes press st lbl = completes press m := by simp [Completes, hm]
    rw [hm']
    have hok' : succeeds (program.view st) st.loc m = true := by simpa [Succeeds, hm] using hok
    exact h.step hd hok' himg

/-- After a run, the entries are counted that were written. -/
theorem Uploading.run (h : Uploading press L done (program.direct st))
    (hrun : IsRun (Goes L) st tr) :
    Uploading press L (↑(entriesWritten press st tr) + done) (program.direct (final st tr)) := by
  induction tr generalizing st done with
  | nil => simpa [entriesWritten, final] using h
  | cons x tr ih =>
    have hx := ih (h.goes hrun.1).1 hrun.2
    refine (show Multiset.ofList (entriesWritten press st (x :: tr)) + done = _ from ?_) ▸ hx
    simp only [entriesWritten]
    cases Completes press st x.1 with
    | none => rfl
    | some s => simp [← Multiset.cons_coe]

/-- The trip is written when all entries are, if the document of the user arrives then. -/
theorem Uploading.late_iff (h : Uploading press L 0 (program.direct st))
    (hrun : IsRun (Goes L) st tr) :
    Meets (fun st lbl => Arrives press st lbl → st.loc.counts press = L.length) st tr ↔
      ∀ tr₁ x tr₂, tr = tr₁ ++ x :: tr₂ → tripWrites press (final st tr₁) x.1 ≠ [] →
        (entriesWritten press st tr₁).Perm L := by
  rw [meets_iff]
  refine forall_congr' fun tr₁ => forall_congr' fun x => forall_congr' fun tr₂ =>
    forall_congr' fun htr => ?_
  rw [htr] at hrun
  obtain ⟨hrun₁, hx, -⟩ := isRun_append.mp hrun
  have hwrites : tripWrites press (final st tr₁) x.1 ≠ [] ↔ Arrives press (final st tr₁) x.1 := by
    rw [← List.length_pos_iff, length_tripWrites press hx.1 hx.2.1]
    split <;> simp [*]
  have h₁ := h.run hrun₁
  rw [add_zero] at h₁
  have hcount : (final st tr₁).loc.counts press =
      Multiset.card (Multiset.ofList (entriesWritten press st tr₁)) := h₁.count.1
  rw [hwrites, hcount, ← Multiset.coe_eq_coe]
  refine forall_congr' fun _ => ⟨h₁.full, fun hperm => ?_⟩
  rw [hperm, Multiset.coe_card]

/-- While an entry of the press is written, the screen lists `n` entries. -/
def Lists (press n : ℕ) (st : State Firestore EditTrip Write Callback)
    (lbl : Label TripID Event) : Prop :=
  (Completes press st lbl).isSome → st.loc.entryList.length = n

/-- When the observer fires, an entry of the press has been written. -/
theorem fires_iff {n : ℕ} (h : Lists press n st lbl) :
    Fires press st lbl ↔ (Completes press st lbl).isSome ∧ st.loc.counts press + 1 = n := by
  rw [Lists] at h
  cases hm : st.move lbl with
  | none => simp [Fires, Completes, hm]
  | some m =>
    simp only [Fires, Completes, hm, Option.bind_some] at h ⊢
    cases m with
    | event e => simp [firing, completes]
    | deliver k ok a =>
      cases k with
      | entryWritten p r =>
        cases ok with
        | false => simp [firing, completes]
        | true =>
          by_cases hp : p = press
          · subst hp
            simp only [completes, if_true, Option.isSome_some, forall_const] at h
            simp [firing, completes, h]
          · simp [firing, completes, hp]
      | _ => simp [firing, completes]

/-- The document of the user arrives if it has been fetched. -/
theorem fetchesFor_of_arrives (hs : program.step lbl st = some st') (hok : Succeeds st lbl)
    (h : Arrives press st lbl) : 0 < fetchesFor press st := by
  have hnot : ¬ Fires press st lbl := by
    obtain ⟨m, hm, harrives⟩ := Option.bind_eq_some_iff.mp h
    cases m with
    | event e => cases harrives
    | deliver k ok a => cases k <;> simp [arriving, Fires, hm, firing] at harrives ⊢
  have hstep := fetches_step press hs hok
  rw [length_tripWrites press hs hok, if_pos h, if_neg hnot] at hstep
  omega

/-- The press, if the document of the user is only fetched when all entries have been written. -/
structure Punctual (press : ℕ) (L : List ℕ) (st : State Firestore EditTrip Write Callback) :
    Prop where
  uploading : ∃ done, Uploading press L done (program.direct st)
  fetched : 0 < fetchesFor press st → st.loc.counts press = L.length

/-- **One step** in which the list is as long as it was: the observer fires when the last entry has
been written. -/
theorem Punctual.step (h : Punctual press L st) (hs : Goes L st lbl st')
    (hlists : Lists press L.length st lbl) :
    Punctual press L st' ∧ (if st'.loc.counts press = L.length then 1 else 0) =
      (if st.loc.counts press = L.length then 1 else 0) + if Fires press st lbl then 1 else 0 := by
  obtain ⟨done, hdone⟩ := h.uploading
  obtain ⟨hdone', hcounts⟩ := hdone.goes hs
  have hle : st'.loc.counts press ≤ L.length := (hdone'.count.1.trans_le hdone'.count.2 :)
  have hfires := fires_iff hlists
  have hfetches := fetches_step press hs.1 hs.2.1
  by_cases hf : Fires press st lbl
  · obtain ⟨hsome, hlast⟩ := hfires.mp hf
    rw [if_pos hsome] at hcounts
    refine ⟨⟨⟨_, hdone'⟩, fun _ => hcounts.trans hlast⟩, ?_⟩
    rw [if_pos hf, if_pos (hcounts.trans hlast), if_neg (by omega)]
  · have hsame : st'.loc.counts press = L.length ↔ st.loc.counts press = L.length := by
      by_cases hsome : (Completes press st lbl).isSome
      · have hlast : st.loc.counts press + 1 ≠ L.length :=
          fun hlast => hf (hfires.mpr ⟨hsome, hlast⟩)
        rw [if_pos hsome] at hcounts
        omega
      · rw [if_neg hsome] at hcounts
        omega
    rw [if_neg hf] at hfetches ⊢
    refine ⟨⟨⟨_, hdone'⟩, fun hpos => hsame.mpr (h.fetched (by omega))⟩, ?_⟩
    simp only [hsame, add_zero]

/-- **A press during which the list of entries stays as long as it is** is in time: the observer
fires once, and the document of the user arrives when all entries have been written. -/
theorem Uploading.inTime (h : Uploading press L 0 (program.direct st)) (hL : L ≠ [])
    (hnone : fetchesFor press st = 0) (hrun : IsRun (Goes L) st tr)
    (hlists : Meets (Lists press L.length) st tr) (hq : Quiescent (final st tr)) :
    InTime press L.length st tr := by
  have hgoes := hrun.and_meets hlists
  have hpunctual : Meets (fun st _ => Punctual press L st) st tr :=
    hgoes.meets_of_step (fun _ _ _ h hs => (h.step hs.1 hs.2).1) ⟨⟨_, h⟩, by omega⟩
  have hsteps := hgoes.and_meets hpunctual
  -- all entries have been written in the end
  have hstart : st.loc.counts press = 0 := h.count.1
  have hend : (final st tr).loc.counts press = L.length := by
    have hall := (h.run hrun).quiescent (congrArg Direct.bag hq.direct)
    have hcount := (h.run hrun).count.1
    rw [hall, Multiset.coe_card] at hcount
    exact hcount
  have htimes := hsteps.add_times (fun st => if st.loc.counts press = L.length then 1 else 0)
    (Fires press) fun _ _ _ hs => (hs.2.step hs.1.1 hs.1.2).2
  have hpos : st.loc.counts press ≠ L.length :=
    hstart.trans_ne (List.length_pos_of_ne_nil hL).ne
  refine ⟨?_, hsteps.meets fun _ _ _ hs harrives => hs.2.fetched ?_⟩
  · simpa [hend, hpos] using htimes.symm
  · exact fetchesFor_of_arrives hs.1.1.1 hs.1.1.2.1 harrives

/-! ## The press -/

/-- The fetches of the user document are for presses that have been made. -/
def FetchesPast (x : Direct Firestore EditTrip Callback) : Prop :=
  ∀ p ids, Callback.userFetched p ids ∈ x.bag → p < x.loc.nextCount

theorem FetchesPast.step {role : ℕ → Role} {x x' : Direct Firestore EditTrip Callback}
    {m : Async.Move Callback TripID Event} (h : FetchesPast x) (hw : Wired (fun _ => ∅) role x)
    (hs : DirectStep program x m x') : FetchesPast x' := by
  obtain ⟨hnext, -⟩ := hw.step hs fun s p hs => absurd hs (Set.notMem_empty s)
  intro p ids hk
  refine Nat.lt_of_lt_of_le ?_ hnext
  cases hs with
  | event he =>
    rcases Multiset.mem_add.mp hk with hk | hk
    · exact h p ids hk
    · have hzero := Multiset.countP_eq_zero.mp (awaiting_event he fun _ => true) _ hk
      exact absurd rfl hzero
  | @deliver k ok a rest r hb hr =>
    rcases Multiset.mem_add.mp hk with hk | hk
    · exact h p ids (hb ▸ Multiset.mem_cons_of_mem hk)
    · cases leads_react hr _ hk with
      | entryWritten p s =>
        exact (hw.uses (.entryWritten p s) (hb ▸ Multiset.mem_cons_self _ _)).1

/-- In every state of the screen, a press that is to come has fetched nothing. -/
theorem fetchesPast_run {db : Firestore} {u : User} {t? : Option TripID} {b : Bucket}
    {now : Timestamp}
    (h : IsRun (fun st lbl st' => program.step lbl st = some st')
      (start db (opened u t? b now)) tr) :
    FetchesPast (program.direct (final (start db (opened u t? b now)) tr)) := by
  have hstart : IsRun (fun st lbl st' => program.step lbl st = some st')
      (start db (opened u t? b now)) [] := trivial
  have hend := h.final (I := fun st => (∃ role, Wired (fun _ => ∅) role (program.direct st)) ∧
    FetchesPast (program.direct st)) (fun st lbl st' hst hs => ?_)
    ⟨wired_run hstart, fun _ _ hk => absurd hk (Multiset.notMem_zero _)⟩
  · exact hend.2
  · obtain ⟨⟨role, hw⟩, hp⟩ := hst
    rcases step_move hs with ⟨-, -, s, hd⟩ | ⟨m, -, hd⟩
    · rw [hd]
      exact ⟨⟨role, ⟨hw.uses, hw.filled⟩⟩, hp⟩
    · obtain ⟨-, role', -, hw'⟩ := hw.step hd fun s p hs => absurd hs (Set.notMem_empty s)
      exact ⟨⟨role', hw'⟩, hp.step hw hd⟩

/-- Nothing has been fetched for the press when it is made. -/
theorem fetchesFor_press (h : FetchesPast (program.direct st))
    (hpress : program.step (.event .saveButtonPressed) st = some st') :
    fetchesFor st.loc.nextCount st' = 0 := by
  rw [fetchesFor, direct_press hpress]
  refine awaiting_eq_zero fun k hk => ?_
  rcases Multiset.mem_add.mp hk with hk | hk
  · cases k with
    | userFetched p ids => exact decide_eq_false (h p ids hk).ne
    | _ => rfl
  · rcases callbacks_saveButtonPressed hk with ⟨hk, -⟩ | ⟨c, s, path, data, rfl⟩ | ⟨s, rfl⟩
    · exact Callback.awaits_of_not_saves hk _
    · rfl
    · rfl

/-- The press begins: nothing is counted, and all its entries are on their way. -/
theorem uploading_press {role : ℕ → Role} (h : Wired (fun _ => ∅) role (program.direct st))
    (hpress : program.step (.event .saveButtonPressed) st = some st')
    (hfields : st.loc.emptyField = false)
    (henc : ∀ s ∈ st.loc.entryList, ∀ image ∈ (st.loc.heap s).images, image.jpegData.isSome) :
    Uploading st.loc.nextCount st.loc.entryList 0 (program.direct st') ∧
      ∀ s, (st'.loc.heap s).images = (st.loc.heap s).images := by
  have hw : Wired (fun p => {s | p = st.loc.nextCount ∧ s ∈ st.loc.entryList}) role
      (program.direct st) := by
    refine h.fresh fun p hp => Set.eq_empty_of_forall_notMem fun s hs => ?_
    exact hp.ne hs.1
  obtain ⟨role', -, hw', opened, ht, hp⟩ := tally_saveButtonPressed hw hfields
  have hdirect := direct_press hpress
  have hloc : st'.loc = (saveButtonPressed st.loc).1 := congrArg Direct.loc hdirect
  have hsame : ∀ s, (st'.loc.heap s).images = (st.loc.heap s).images := by
    rw [hloc]
    exact fun s =>
      CustomAnnotation.images_eq_of_content ((stays_saveButtonPressed st.loc).content s)
  refine ⟨?_, hsame⟩
  refine ⟨fun s hs image himage => henc s hs image (hsame s ▸ himage), role', opened, ?_⟩
  rw [hdirect]
  exact ⟨hw', ht, hp henc⟩

/-- **The barrier of a save**, for every press of the save button in every run of the screen, and
every run after it in which nothing that belongs to saves fails and the entries of the press keep
their images. -/
theorem saves_once {db : Firestore} {u : User} {t? : Option TripID} {b : Bucket} {now : Timestamp}
    {st₀ st : State Firestore EditTrip Write Callback}
    {tr₀ tr : List (Label TripID Event × State Firestore EditTrip Write Callback)}
    (hrun₀ : IsRun (fun st lbl st' => program.step lbl st = some st')
      (start db (opened u t? b now)) tr₀)
    (hst₀ : final (start db (opened u t? b now)) tr₀ = st₀)
    (hpress : program.step (.event .saveButtonPressed) st₀ = some st)
    (hfields : st₀.loc.emptyField = false)
    (henc : ∀ s ∈ st₀.loc.entryList, ∀ image ∈ (st₀.loc.heap s).images, image.jpegData.isSome)
    (hrun : IsRun (fun st lbl st' => program.step lbl st = some st') st tr)
    (hok : Meets Succeeds st tr)
    (himg : ∀ x ∈ tr, ∀ s ∈ st₀.loc.entryList,
      (x.2.loc.heap s).images = (st₀.loc.heap s).images)
    (hq : Quiescent (final st tr)) :
    SavesOnce st₀.loc.nextCount st₀.loc.entryList st tr ↔
      InTime st₀.loc.nextCount st₀.loc.entryList.length st tr := by
  obtain ⟨role, hw⟩ := hst₀ ▸ wired_run hrun₀
  obtain ⟨hstart, hsame⟩ := uploading_press hw hpress hfields henc
  have hgoes := isRun_goes hrun hok fun x hx s hs => (himg x hx s hs).trans (hsame s).symm
  have hnone : fetchesFor st₀.loc.nextCount st = 0 :=
    fetchesFor_press (hst₀ ▸ fetchesPast_run hrun₀) hpress
  have hstep : ∀ st lbl st', Goes st₀.loc.entryList st lbl st' →
      fetchesFor st₀.loc.nextCount st' + (tripWrites st₀.loc.nextCount st lbl).length =
        fetchesFor st₀.loc.nextCount st + if Fires st₀.loc.nextCount st lbl then 1 else 0 :=
    fun st lbl st' hs => fetches_step _ hs.1 hs.2.1
  have hbalance := hgoes.balance hstep
  have hend : fetchesFor st₀.loc.nextCount (final st tr) = 0 := by
    simp [fetchesFor, hq.direct]
  rw [hnone, hend, zero_add, zero_add] at hbalance
  have hlate := hstart.late_iff hgoes
  constructor
  · exact fun h => ⟨hbalance ▸ h.once, hlate.mpr h.late⟩
  · exact fun h => ⟨hbalance.trans h.fires, hlate.mp h.arrives⟩

end

/-! ## Two runs -/

/-- The screen of a new trip, in its database. -/
def sampleNewScreen : State Firestore EditTrip Write Callback :=
  start sampleDatabase (EditTrip.opened sampleUser none ∅ 0)

/-- One entry is added. -/
def sampleOneEntry : List (Label TripID Event) :=
  [.event .viewDidLoad, .event .viewWillAppear, .event (Event.addAnnotation (sampleForm "a") "a"),
    .event (.editTripName "trip"), .event (.selectTripCover none)]

/-- While it is uploaded, another is added and deleted again. -/
def sampleAddDelete : List (Label TripID Event) :=
  [.event (Event.addAnnotation (sampleForm "b") "b"), .event (Event.deleteAnnotation 1),
    .deliver 0 true "", .deliver 0 true "", .deliver 0 true "", .deliver 0 true "", .apply, .apply,
    .apply, .deliver 0 true "", .deliver 0 true "t", .apply, .apply, .apply, .deliver 0 true "",
    .apply, .deliver 0 true ""]

/-- A run of `saves_once` with edits in the meantime: the trip is there at the end. -/
theorem saves_once_sample : ∃ st tr, SavesOnce 0 [0] st tr ∧
    ((final st tr).store.trips.lookup "t").map TripDoc.entries = some ["a"] := by
  obtain ⟨tr₀, h₀⟩ := Option.isSome_iff_exists.mp (by decide +kernel :
    (play (fun st lbl => program.step lbl st) sampleOneEntry sampleNewScreen).isSome)
  have hpress : ∀ tr₀ ∈ play (fun st lbl => program.step lbl st) sampleOneEntry sampleNewScreen,
      (program.step (.event .saveButtonPressed) (final sampleNewScreen tr₀)).isSome ∧
        (final sampleNewScreen tr₀).loc.emptyField = false ∧
        (final sampleNewScreen tr₀).loc.nextCount = 0 ∧
        (final sampleNewScreen tr₀).loc.entryList = [0] ∧
        ∀ s ∈ (final sampleNewScreen tr₀).loc.entryList,
          ∀ image ∈ ((final sampleNewScreen tr₀).loc.heap s).images, image.jpegData.isSome := by
    decide +kernel
  have hplay : ∀ tr₀ ∈ play (fun st lbl => program.step lbl st) sampleOneEntry sampleNewScreen,
      ∀ st ∈ program.step (.event .saveButtonPressed) (final sampleNewScreen tr₀),
      (play (fun st lbl => program.step lbl st) sampleAddDelete st).isSome ∧
      ∀ tr ∈ play (fun st lbl => program.step lbl st) sampleAddDelete st,
        Meets Succeeds st tr ∧ (∀ x ∈ tr, ∀ s ∈ (final sampleNewScreen tr₀).loc.entryList,
          (x.2.loc.heap s).images = ((final sampleNewScreen tr₀).loc.heap s).images) ∧
        Quiescent (final st tr) ∧ times (Fires 0) st tr = 1 ∧
        Meets (fun st lbl => Arrives 0 st lbl → st.loc.counts 0 = 1) st tr ∧
        ((final st tr).store.trips.lookup "t").map TripDoc.entries = some ["a"] := by
    decide +kernel
  obtain ⟨hst, hfields, hnext, hlist, henc⟩ := hpress tr₀ h₀
  obtain ⟨st, hst⟩ := Option.isSome_iff_exists.mp hst
  obtain ⟨hsome, hall⟩ := hplay tr₀ h₀ st hst
  obtain ⟨tr, htr⟩ := Option.isSome_iff_exists.mp hsome
  obtain ⟨hok, himg, hq, hfires, harrives, htrip⟩ := hall tr htr
  obtain ⟨st₀, hst₀⟩ : ∃ st₀, final sampleNewScreen tr₀ = st₀ := ⟨_, rfl⟩
  rw [hst₀] at hst hfields hnext hlist henc himg
  have hiff := saves_once (isRun_of_play h₀) hst₀ hst hfields henc (isRun_of_play htr) hok himg hq
  rw [hnext, hlist] at hiff
  exact ⟨st, tr, hiff.mpr ⟨hfires, harrives⟩, htrip⟩

/-- While the entry is uploaded, another is added. -/
def sampleAddOnly : List (Label TripID Event) :=
  [.event (Event.addAnnotation (sampleForm "b") "b"), .deliver 0 true "", .deliver 0 true "",
    .deliver 0 true "", .deliver 0 true "", .apply, .apply, .apply, .deliver 0 true ""]

/-- A press whose trip is never written: everything succeeds, and an entry is added while that of
the press is uploaded. -/
theorem saves_never : ∃ tr₀ st tr,
    play (fun st lbl => program.step lbl st) sampleOneEntry sampleNewScreen = some tr₀ ∧
    program.step (.event .saveButtonPressed) (final sampleNewScreen tr₀) = some st ∧
    (final sampleNewScreen tr₀).loc.emptyField = false ∧
    play (fun st lbl => program.step lbl st) sampleAddOnly st = some tr ∧ Meets Succeeds st tr ∧
    Quiescent (final st tr) ∧ collect (tripWrites 0) st tr = [] ∧ ¬SavesOnce 0 [0] st tr := by
  obtain ⟨tr₀, h₀⟩ := Option.isSome_iff_exists.mp (by decide +kernel :
    (play (fun st lbl => program.step lbl st) sampleOneEntry sampleNewScreen).isSome)
  have hpress : ∀ tr₀ ∈ play (fun st lbl => program.step lbl st) sampleOneEntry sampleNewScreen,
      (program.step (.event .saveButtonPressed) (final sampleNewScreen tr₀)).isSome ∧
        (final sampleNewScreen tr₀).loc.emptyField = false := by
    decide +kernel
  obtain ⟨hst, hfields⟩ := hpress tr₀ h₀
  obtain ⟨st, hst⟩ := Option.isSome_iff_exists.mp hst
  have hplay : ∀ tr₀ ∈ play (fun st lbl => program.step lbl st) sampleOneEntry sampleNewScreen,
      ∀ st ∈ program.step (.event .saveButtonPressed) (final sampleNewScreen tr₀),
      (play (fun st lbl => program.step lbl st) sampleAddOnly st).isSome ∧
      ∀ tr ∈ play (fun st lbl => program.step lbl st) sampleAddOnly st,
        Meets Succeeds st tr ∧ Quiescent (final st tr) ∧
        (collect (tripWrites 0) st tr).length = 0 := by
    decide +kernel
  obtain ⟨hsome, hall⟩ := hplay tr₀ h₀ st hst
  obtain ⟨tr, htr⟩ := Option.isSome_iff_exists.mp hsome
  obtain ⟨hok, hq, hnone⟩ := hall tr htr
  refine ⟨tr₀, st, tr, h₀, hst, hfields, htr, hok, hq, List.length_eq_zero_iff.mp hnone,
    fun h => ?_⟩
  have hone := h.once
  omega

end EditTrip

end Wanderlust
