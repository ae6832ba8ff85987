import Mathlib.Data.List.Induction
import Wanderlust.Profile.FollowersList

/-!
# Handling several requests

On one appearance of the list of followers, the user accepts and denies any number of requests,
while the documents and queries of earlier presses are still on their way. `presses` is what the
user did, each press with the user whose request it was; the screen's lists are what is left of the
lists that were shown (`Handling`), and the documents end as if each request had been handled on its
own (`handled_of_trace`).
-/

namespace Wanderlust

open Async

namespace FollowersList

/-! ## What the user did -/

/-- The requests of the list `R` that are left after some presses. -/
def left (R : List Uid) (ps : List (Bool × Uid)) : List Uid := R.filter fun u => u ∉ ps.map Prod.snd

/-- One more press: whether it accepts, and whose request is in the row. -/
def press (R : List Uid) (ps : List (Bool × Uid)) : Event → List (Bool × Uid)
  | .acceptRequest requestRow => ps ++ (left R ps)[requestRow]?.toList.map fun uid => (true, uid)
  | .denyRequest requestRow => ps ++ (left R ps)[requestRow]?.toList.map fun uid => (false, uid)
  | _ => ps

/-- The presses, from when the requests `R` were shown. -/
def presses (R : List Uid) (es : List Event) : List (Bool × Uid) := es.foldl (press R) []

/-- Whose requests were accepted, in the order of the presses. -/
def accepts (ps : List (Bool × Uid)) : List Uid := (ps.filter fun p => p.1).map Prod.snd

variable {R : List Uid} {ps : List (Bool × Uid)} {uid : Uid}

@[simp] theorem presses_append (R : List Uid) (es : List Event) (e : Event) :
    presses R (es ++ [e]) = press R (presses R es) e := by
  simp [presses]

@[simp] theorem accepts_append (ps ps' : List (Bool × Uid)) :
    accepts (ps ++ ps') = accepts ps ++ accepts ps' := by
  simp [accepts]

/-- Only requests that were shown are handled. -/
theorem mem_of_presses {es : List Event} {p : Bool × Uid} (h : p ∈ presses R es) : p.2 ∈ R := by
  induction es using List.reverseRecOn with
  | nil => cases h
  | append_singleton es e ih =>
    rw [presses_append] at h
    have hrow : ∀ {row : ℕ} {b : Bool},
        p ∈ (left R (presses R es))[row]?.toList.map (fun uid => (b, uid)) → p.2 ∈ R := by
      intro row b hp
      obtain ⟨uid, huid, rfl⟩ := List.mem_map.mp hp
      exact List.mem_of_mem_filter (List.mem_of_getElem? (Option.mem_toList.mp huid))
    cases e with
    | acceptRequest row => exact (List.mem_append.mp h).elim ih hrow
    | denyRequest row => exact (List.mem_append.mp h).elim ih hrow
    | _ => exact ih h

/-- A press filters one user out of the requests. -/
theorem left_append (R : List Uid) (ps : List (Bool × Uid)) (b : Bool) (uid : Uid) :
    left R (ps ++ [(b, uid)]) = (left R ps).filter fun u => u ≠ uid := by
  unfold left
  rw [List.filter_filter]
  refine List.filter_congr fun u _ => ?_
  by_cases h : u ∈ ps.map Prod.snd <;> simp_all

theorem mem_of_accepts (h : uid ∈ accepts ps) : uid ∈ ps.map Prod.snd := by
  obtain ⟨p, hp, rfl⟩ := List.mem_map.mp h
  exact List.mem_map_of_mem (List.mem_of_mem_filter hp)

/-- A request that is left has not been accepted. -/
theorem notMem_accepts_of_left (h : uid ∈ left R ps) : uid ∉ accepts ps := by
  have hleft := (List.mem_filter.mp h).2
  simp only [decide_eq_true_eq] at hleft
  exact fun hmem => hleft (mem_of_accepts hmem)

/-! ## What becomes of it -/

/-- What the presses of `b` make of the documents of users, when the documents of `linked` have been
written. -/
def handled (b : Uid) (ps : List (Bool × Uid)) (linked : List Uid) (u : Uid) (d : UserDoc) :
    UserDoc :=
  { d with
    followers := if u = b then d.followers ++ accepts ps else d.followers
    requests := if u = b then left d.requests ps else d.requests
    following := if u ∈ linked then d.following ++ [b] else d.following }

/-- The accepted users whose callback `k` has been delivered. -/
def done (k : Uid → Callback) (ps : List (Bool × Uid)) (bag : Multiset Callback) : List Uid :=
  (accepts ps).filter fun u => k u ∉ bag

/-- The steps that are considered: the user accepts, denies, or has the copy of the user refreshed,
and every fetch succeeds. -/
def handling (_ : FollowersList) (_ : Firestore) : Async.Move Callback Unit Event → Prop
  | .event .viewWillAppear => False
  | .event _ => True
  | .deliver _ ok _ => ok = true

instance (l : FollowersList) (db : Firestore) : DecidablePred (handling l db)
  | .event .viewWillAppear => inferInstanceAs (Decidable False)
  | .event (.acceptRequest _) => inferInstanceAs (Decidable True)
  | .event (.denyRequest _) => inferInstanceAs (Decidable True)
  | .event .currentUserFetched => inferInstanceAs (Decidable True)
  | .deliver _ ok _ => inferInstanceAs (Decidable (ok = true))

/-- The invariant of the presses `ps`. -/
structure Handling (me : User) (db : Firestore) (ps : List (Bool × Uid))
    (x : Direct Firestore FollowersList Callback) : Prop where
  currentUser : x.loc.currentUser.uid = me.uid
  followers : x.loc.followers = me.followers ++ accepts ps
  requests : x.loc.requests = left me.requests ps
  accepts_nodup : (accepts ps).Nodup
  bag : ∀ k ∈ x.bag, ∃ uid ∈ accepts ps, k = .userFetched uid ∨ k = .entriesFetched uid me.uid
  bag_nodup : x.bag.Nodup
  store : Firestore.Social (handled me.uid ps (done .userFetched ps x.bag)) x.store.newsfeed db
    x.store
  newsfeed : ∀ u id, x.store.newsfeed.lookup (u, id) =
    if u ∈ done (fun v => .entriesFetched v me.uid) ps x.bag then
      (db.filled u me.uid).lookup (u, id)
    else db.newsfeed.lookup (u, id)

section

variable {me : User} {db : Firestore} {x x' : Direct Firestore FollowersList Callback}
  {k : Uid → Callback} {bag : Multiset Callback} {u : Uid}

theorem mem_done : u ∈ done k ps bag ↔ u ∈ accepts ps ∧ k u ∉ bag := by
  simp [done]

/-- A request that has just been accepted is not done. -/
theorem mem_done_accept {bag' : Multiset Callback} (hnot : uid ∉ accepts ps)
    (hbag : ∀ v, k v ∈ bag' ↔ v = uid ∨ k v ∈ bag) :
    u ∈ done k (ps ++ [(true, uid)]) bag' ↔ u ∈ done k ps bag := by
  have hone : accepts [(true, uid)] = [uid] := rfl
  have hne : u ∈ accepts ps → u ≠ uid := fun hu heq => hnot (heq ▸ hu)
  rw [mem_done, mem_done, hbag, accepts_append, hone, List.mem_append, List.mem_singleton]
  tauto

/-- A callback is delivered. -/
theorem mem_done_deliver (hk : Function.Injective k) (huid : uid ∈ accepts ps)
    (hnot : k uid ∉ bag) : u ∈ done k ps bag ↔ u = uid ∨ u ∈ done k ps (k uid ::ₘ bag) := by
  rw [mem_done, mem_done, Multiset.mem_cons, hk.eq_iff]
  by_cases hu : u = uid
  · subst hu
    simp [huid, hnot]
  · simp [hu]

/-- The copy of the user is refreshed. -/
theorem Handling.refresh (h : Handling me db ps x) {user : User} (huser : user.uid = me.uid) :
    Handling me db ps { x with loc := { x.loc with currentUser := user } } where
  currentUser := huser
  followers := h.followers
  requests := h.requests
  accepts_nodup := h.accepts_nodup
  bag := h.bag
  bag_nodup := h.bag_nodup
  store := h.store
  newsfeed := h.newsfeed

/-- Callbacks on their way are those of accepted requests. -/
theorem Handling.mem_accepts (h : Handling me db ps x)
    (hk : .userFetched uid ∈ x.bag ∨ .entriesFetched uid me.uid ∈ x.bag) : uid ∈ accepts ps := by
  rcases hk with hk | hk
  · obtain ⟨v, hv, heq | heq⟩ := h.bag _ hk
    · cases heq
      exact hv
    · cases heq
  · obtain ⟨v, hv, heq | heq⟩ := h.bag _ hk
    · cases heq
    · cases heq
      exact hv

/-- The user denies a request. -/
theorem Handling.deny (hme : db.fetchUser me.uid = some me) (h : Handling me db ps x) (uid : Uid) :
    Handling me db (ps ++ [(false, uid)]) (program.after (denyRequest uid x.loc) x) := by
  have haccepts : accepts (ps ++ [(false, uid)]) = accepts ps := by
    simp [accepts]
  have hleft : x.loc.requests.filter (fun u => u ≠ uid) =
      left me.requests (ps ++ [(false, uid)]) := by
    rw [h.requests, left_append]
  have hbag : (program.after (denyRequest uid x.loc) x).bag = x.bag := by
    simp [Program.after, denyRequest]
  have hdone : ∀ k, done k (ps ++ [(false, uid)]) x.bag = done k ps x.bag := by
    intro k
    unfold done
    rw [haccepts]
  refine ⟨h.currentUser, ?_, hleft, ?_, ?_, ?_, ?_, ?_⟩
  · rw [haccepts]
    exact h.followers
  · rw [haccepts]
    exact h.accepts_nodup
  · rw [hbag, haccepts]
    exact h.bag
  · rw [hbag]
    exact h.bag_nodup
  · rw [hbag, hdone]
    have hme' := (Firestore.fetchUser_eq_some hme).2
    refine (h.store.trans (Firestore.social_updateUser x.loc.currentUser.uid
      (fun d => { d with requests := x.loc.requests.filter fun u => u ≠ uid }) x.store)).congr
      fun u d hd => ?_
    rw [hleft, h.currentUser]
    by_cases hu : u = me.uid
    · subst hu
      obtain rfl : me.toUserDoc = d := Option.some.inj (hme'.symm.trans hd)
      simp [handled, haccepts]
    · simp [handled, hu]
  · rw [hbag, hdone]
    exact h.newsfeed

/-- The user accepts a request. -/
theorem Handling.accept (hme : db.fetchUser me.uid = some me) (h : Handling me db ps x)
    (huid : uid ∈ x.loc.requests) :
    Handling me db (ps ++ [(true, uid)]) (program.after (acceptRequest uid x.loc) x) := by
  have hone : accepts [(true, uid)] = [uid] := rfl
  have hnot : uid ∉ accepts ps := notMem_accepts_of_left (h.requests ▸ huid)
  have hnew : .userFetched uid ∉ x.bag ∧ .entriesFetched uid me.uid ∉ x.bag :=
    ⟨fun hk => hnot (h.mem_accepts (Or.inl hk)), fun hk => hnot (h.mem_accepts (Or.inr hk))⟩
  have hleft : x.loc.requests.filter (fun u => u ≠ uid) =
      left me.requests (ps ++ [(true, uid)]) := by
    rw [h.requests, left_append]
  have hbag : (program.after (acceptRequest uid x.loc) x).bag =
      .userFetched uid ::ₘ .entriesFetched uid me.uid ::ₘ x.bag := by
    simp only [Program.after, acceptRequest, callbacks_write, callbacks_request, callbacks_nil,
      Multiset.add_cons, add_zero, h.currentUser]
  have hdone : ∀ v, v ∈ done .userFetched (ps ++ [(true, uid)])
      (.userFetched uid ::ₘ .entriesFetched uid me.uid ::ₘ x.bag) ↔
        v ∈ done .userFetched ps x.bag :=
    fun v => mem_done_accept hnot (by simp)
  have hdone' : ∀ v, v ∈ done (fun v => .entriesFetched v me.uid) (ps ++ [(true, uid)])
      (.userFetched uid ::ₘ .entriesFetched uid me.uid ::ₘ x.bag) ↔
        v ∈ done (fun v => .entriesFetched v me.uid) ps x.bag :=
    fun v => mem_done_accept hnot (by simp)
  refine ⟨h.currentUser, ?_, hleft, ?_, ?_, ?_, ?_, ?_⟩
  · rw [accepts_append, hone, ← List.append_assoc, ← h.followers]
    rfl
  · rw [accepts_append, hone]
    exact h.accepts_nodup.append (List.nodup_singleton uid)
      (List.disjoint_singleton.mpr hnot)
  · rw [hbag, accepts_append, hone]
    intro k hk
    simp only [Multiset.mem_cons] at hk
    rcases hk with rfl | rfl | hk
    · exact ⟨uid, by simp, Or.inl rfl⟩
    · exact ⟨uid, by simp, Or.inr rfl⟩
    · obtain ⟨v, hv, heq⟩ := h.bag k hk
      exact ⟨v, List.mem_append_left _ hv, heq⟩
  · rw [hbag]
    simp [hnew, h.bag_nodup]
  · rw [hbag]
    have hme' := (Firestore.fetchUser_eq_some hme).2
    refine ((h.store.trans (Firestore.social_updateUser x.loc.currentUser.uid
      (fun d => { d with followers := x.loc.followers ++ [uid] }) x.store)).trans
      (Firestore.social_updateUser x.loc.currentUser.uid
        (fun d => { d with requests := x.loc.requests.filter fun u => u ≠ uid }) _)).congr
      fun u d hd => ?_
    rw [hleft, h.currentUser, h.followers]
    by_cases hu : u = me.uid
    · subst hu
      obtain rfl : me.toUserDoc = d := Option.some.inj (hme'.symm.trans hd)
      simp [handled, hone, hdone]
    · simp [handled, hu, hdone]
  · intro u id
    rw [hbag]
    simp only [hdone']
    exact h.newsfeed u id

/-- The document of an accepted user arrives. -/
theorem Handling.link (h : Handling me db ps x) {rest : Multiset Callback}
    (hb : x.bag = .userFetched uid ::ₘ rest) {user : User}
    (huser : x.store.fetchUser uid = some user) :
    Handling me db ps (program.after
      (x.loc, [.write (modifyFollowing (user.following ++ [x.loc.currentUser.uid]) user) none])
      { x with bag := rest }) := by
  have huid := h.mem_accepts (Or.inl (hb ▸ Multiset.mem_cons_self _ _))
  have hnodup := h.bag_nodup
  rw [hb, Multiset.nodup_cons] at hnodup
  have hbag : (program.after
      (x.loc, [.write (modifyFollowing (user.following ++ [x.loc.currentUser.uid]) user) none])
      { x with bag := rest }).bag = rest := by
    simp [Program.after]
  have hdone : ∀ v, v ∈ done .userFetched ps rest ↔
      v = uid ∨ v ∈ done .userFetched ps x.bag := by
    intro v
    rw [hb]
    exact mem_done_deliver (fun a b hab => Callback.userFetched.inj hab) huid hnodup.1
  have hentries : done (fun v => .entriesFetched v me.uid) ps rest =
      done (fun v => .entriesFetched v me.uid) ps x.bag := by
    simp [done, hb]
  refine ⟨h.currentUser, h.followers, h.requests, h.accepts_nodup, fun k hk => ?_, ?_, ?_, ?_⟩
  · rw [hbag] at hk
    exact h.bag k (hb ▸ Multiset.mem_cons_of_mem hk)
  · rw [hbag]
    exact hnodup.2
  · rw [hbag]
    obtain ⟨huid', hdoc⟩ := Firestore.fetchUser_eq_some huser
    refine (h.store.trans (Firestore.social_updateUser user.uid
      (fun d => { d with following := user.following ++ [x.loc.currentUser.uid] }) x.store)).congr
      fun u d hd => ?_
    rw [h.currentUser, huid']
    by_cases hu : u = uid
    · subst hu
      have hnot : u ∉ done .userFetched ps x.bag := by
        rw [mem_done, hb]
        exact fun hmem => hmem.2 (Multiset.mem_cons_self _ _)
      have hfollowing : user.following = d.following := by
        rw [h.store.users, hd] at hdoc
        have heq := congrArg UserDoc.following (Option.some.inj hdoc)
        simpa [handled, hnot] using heq.symm
      simp [handled, hdone, hfollowing]
    · simp [handled, hdone, hu]
  · rw [hbag, hentries]
    exact h.newsfeed

/-- The answer to the query for an accepted user arrives. -/
theorem Handling.fill (h : Handling me db ps x) {rest : Multiset Callback}
    (hb : x.bag = .entriesFetched uid me.uid ::ₘ rest) :
    Handling me db ps (program.after
      (x.loc, backfill uid x.loc.currentUser.uid (x.store.latestEntries 20 me.uid))
      { x with bag := rest }) := by
  have huid := h.mem_accepts (Or.inr (hb ▸ Multiset.mem_cons_self _ _))
  have hnodup := h.bag_nodup
  rw [hb, Multiset.nodup_cons] at hnodup
  have hcs := callbacks_backfill (K := Callback) uid x.loc.currentUser.uid
    (x.store.latestEntries 20 me.uid)
  have hbag : (program.after
      (x.loc, backfill uid x.loc.currentUser.uid (x.store.latestEntries 20 me.uid))
      { x with bag := rest }).bag = rest := by
    simp [Program.after, hcs]
  have hlatest : x.store.latestEntries 20 me.uid = db.latestEntries 20 me.uid := by
    unfold Firestore.latestEntries
    rw [h.store.entries]
  have hstore : (program.after
      (x.loc, backfill uid x.loc.currentUser.uid (x.store.latestEntries 20 me.uid))
      { x with bag := rest }).store =
      { x.store with
        newsfeed := (db.latestEntries 20 me.uid).foldl
          (fun c e => c.insert (uid, e.2.entryID) ⟨e.2.timestamp, me.uid⟩) x.store.newsfeed } := by
    rw [hlatest, h.currentUser]
    exact effect_backfill _ _ _ _
  have husers : done .userFetched ps rest = done .userFetched ps x.bag := by
    simp [done, hb]
  have hdone : ∀ v, v ∈ done (fun v => .entriesFetched v me.uid) ps rest ↔
      v = uid ∨ v ∈ done (fun v => .entriesFetched v me.uid) ps x.bag := by
    intro v
    rw [hb]
    exact mem_done_deliver (k := fun v => .entriesFetched v me.uid)
      (fun a b hab => (Callback.entriesFetched.inj hab).1) huid hnodup.1
  refine ⟨h.currentUser, h.followers, h.requests, h.accepts_nodup, fun k hk => ?_, ?_, ?_, ?_⟩
  · rw [hbag] at hk
    exact h.bag k (hb ▸ Multiset.mem_cons_of_mem hk)
  · rw [hbag]
    exact hnodup.2
  · rw [hbag, husers, hstore]
    exact h.store.setNewsfeed _
  · intro u id
    rw [hbag, hstore]
    by_cases hu : u = uid
    · subst hu
      have hnot : u ∉ done (fun v => .entriesFetched v me.uid) ps x.bag := by
        rw [mem_done, hb]
        exact fun hmem => hmem.2 (Multiset.mem_cons_self _ _)
      have hold := h.newsfeed u id
      rw [if_neg hnot] at hold
      rw [if_pos ((hdone u).mpr (Or.inl rfl))]
      exact Collection.lookup_foldl_insert_congr (fun e : EntryID × EntryDoc => (u, e.2.entryID))
        (fun e => (⟨e.2.timestamp, me.uid⟩ : FeedDoc)) _ hold
    · have hother := Collection.lookup_foldl_insert_of_notMem
        (fun e : EntryID × EntryDoc => (uid, e.2.entryID))
        (fun e => (⟨e.2.timestamp, me.uid⟩ : FeedDoc)) (db.latestEntries 20 me.uid)
        x.store.newsfeed (k := (u, id)) fun e _ he => hu (Prod.mk.inj he).1.symm
      simp only [hdone, hu, false_or]
      exact hother.trans (h.newsfeed u id)

/-- **One step.** -/
theorem Handling.step (hme : db.fetchUser me.uid = some me) (h : Handling me db ps x)
    {m : Async.Move Callback Unit Event} (ha : handling x.loc x.store m)
    (hs : DirectStep program x m x') :
    Handling me db (m.event?.toList.foldl (press me.requests) ps) x' := by
  cases hs with
  | @event e r he =>
    have hlist : (Async.Move.event e : Async.Move Callback Unit Event).event?.toList.foldl
        (press me.requests) ps = press me.requests ps e := rfl
    rw [hlist]
    cases e with
    | viewWillAppear => exact ha.elim
    | acceptRequest requestRow =>
      simp only [program, event] at he
      split at he
      · obtain ⟨uid, hrow, rfl⟩ := Option.map_eq_some_iff.mp he
        have hpress : press me.requests ps (.acceptRequest requestRow) = ps ++ [(true, uid)] := by
          rw [press, ← h.requests, hrow]
          rfl
        rw [hpress]
        exact h.accept hme (List.mem_of_getElem? hrow)
      · cases he
    | denyRequest requestRow =>
      simp only [program, event] at he
      split at he
      · obtain ⟨uid, hrow, rfl⟩ := Option.map_eq_some_iff.mp he
        have hpress : press me.requests ps (.denyRequest requestRow) = ps ++ [(false, uid)] := by
          rw [press, ← h.requests, hrow]
          rfl
        rw [hpress]
        exact h.deny hme uid
      · cases he
    | currentUserFetched =>
      simp only [program, event] at he
      split at he <;> cases he
      · simpa [Program.after, press] using h
      · rename_i user huser
        have huid := (Firestore.fetchUser_eq_some huser).1.trans h.currentUser
        simpa [Program.after, press] using h.refresh huid
  | @deliver k ok a rest r hb hr =>
    have hok : ok = true := ha
    obtain ⟨uid, huid, rfl | rfl⟩ := h.bag k (hb ▸ Multiset.mem_cons_self k rest)
    · simp only [program, react, hok, if_true] at hr
      split at hr <;> cases hr
      rename_i user huser
      exact h.link hb huser
    · simp only [program, react, hok, if_true, Option.some.injEq] at hr
      subst hr
      exact h.fill hb

theorem Handling.start (me : User) (db : Firestore) :
    Handling me db [] (program.direct (start db (opened me none))) := by
  refine ⟨rfl, (List.append_nil _).symm, ?_, List.nodup_nil, ?_, Multiset.nodup_zero, ?_, ?_⟩
  · exact (List.filter_eq_self.mpr fun _ _ => rfl).symm
  · intro k hk
    exact absurd hk (Multiset.notMem_zero k)
  · refine (Firestore.Social.refl db).congr fun u d _ => ?_
    simp [handled, accepts, left, done]
  · intro u id
    simp [done, accepts]

/-- What holds after any steps. -/
theorem handling_of_trace (hme : db.fetchUser me.uid = some me) {lbls : List (Label Unit Event)}
    {st : State Firestore FollowersList Write Callback}
    (h : Trace program handling (start db (opened me none)) lbls st) :
    Handling me db (presses me.requests (events lbls)) (program.direct st) := by
  have hinv := h.invariant (I := fun es x => Handling me db (presses me.requests es) x)
    (fun es x m x' hx ha hs => ?_) [] (Handling.start me db)
  · simpa using hinv
  · have hstep := hx.step hme ha hs
    unfold presses at hstep ⊢
    rwa [List.foldl_append]

/-- Nothing traps on the way. -/
theorem answers_of_trace (hme : db.fetchUser me.uid = some me)
    (hrequests : ∀ uid ∈ me.requests, uid ∈ db.users) {lbls : List (Label Unit Event)}
    {st : State Firestore FollowersList Write Callback}
    (h : Trace program handling (start db (opened me none)) lbls st) :
    ∀ k ∈ (program.direct st).bag, (program.react k true () st.loc (program.view st)).isSome := by
  intro k hk
  have hinv := handling_of_trace hme h
  obtain ⟨uid, huid, rfl | rfl⟩ := hinv.bag k hk
  · obtain ⟨p, hp, rfl⟩ := List.mem_map.mp (mem_of_accepts huid)
    have huser := AList.lookup_isSome.mpr (hrequests _ (mem_of_presses hp))
    obtain ⟨d, hd⟩ := Option.isSome_iff_exists.mp huser
    have hfetch : (program.view st).users.lookup p.2 =
        some (handled me.uid (presses me.requests (events lbls)) (done .userFetched
          (presses me.requests (events lbls)) (program.direct st).bag) p.2 d) := by
      have husers := hinv.store.users p.2
      rwa [hd] at husers
    show (react (.userFetched p.2) true () st.loc (program.view st)).isSome
    simp only [react, if_true, Firestore.fetchUser, hfetch, Option.map_some, Option.isSome_some]
  · rfl

/-- **What handling requests comes to**: with the lists of the screen up to date when they were
shown, when all that the presses started is done, the accepted users have been appended to the
followers in the order of the presses, the handled ones are gone from the requests, each accepted
user follows `me` once more and has the latest entries of `me` in the newsfeed, and nothing else has
changed. -/
theorem handled_of_trace (hme : db.fetchUser me.uid = some me) {lbls : List (Label Unit Event)}
    {st : State Firestore FollowersList Write Callback}
    (h : Trace program handling (start db (opened me none)) lbls st) (hq : Quiescent st) :
    (accepts (presses me.requests (events lbls))).Nodup ∧
      Firestore.Social (handled me.uid (presses me.requests (events lbls))
        (accepts (presses me.requests (events lbls)))) st.store.newsfeed db st.store ∧
      ∀ u id, st.store.newsfeed.lookup (u, id) =
        if u ∈ accepts (presses me.requests (events lbls)) then
          (db.filled u me.uid).lookup (u, id)
        else db.newsfeed.lookup (u, id) := by
  have hinv := handling_of_trace hme h
  have hdone : ∀ k ps, done k ps 0 = accepts ps := by
    intro k ps
    simp [done]
  rw [hq.direct] at hinv
  have hstore := hinv.store
  have hfeed := hinv.newsfeed
  simp only [hdone] at hstore hfeed
  exact ⟨hinv.accepts_nodup, hstore, hfeed⟩

end

/-- Bob has an entry, and the requests of Ann, twice, of Dan and of Eve. -/
def requestedStore : Firestore where
  users := AList.insert "bob"
      { newUser "bob" with followers := ["carl"], requests := ["ann", "dan", "ann", "eve"] }
    (AList.insert "ann" (newUser "ann") (AList.insert "dan" (newUser "dan")
      (AList.insert "eve" { newUser "eve" with following := ["ann"] } ∅)))
  trips := ∅
  entries := AList.insert "e" { sampleEntryDoc "e" with userID := "bob" } ∅
  newsfeed := AList.insert ("ann", "f") ⟨2, "carl"⟩ ∅

/-- Bob, when his list appears. -/
def requestedMe : User :=
  { newUser "bob" with
    followers := ["carl"], requests := ["ann", "dan", "ann", "eve"], uid := "bob" }

/-- Bob accepts Ann and Eve, and denies Dan, before the first answer. -/
def requestedSteps : List (Label Unit Event) :=
  [.event (.acceptRequest 0), .event (.acceptRequest 1), .apply, .event (.denyRequest 0),
    .deliver 3 true (), .deliver 0 true (), .deliver 0 true (), .deliver 0 true ()] ++
    List.replicate 8 .apply

/-- Three requests are handled. -/
theorem handled_of_trace_sample : ∃ st,
    Trace program handling (start requestedStore (opened requestedMe none)) requestedSteps st ∧
    Quiescent st ∧
    presses requestedMe.requests (events requestedSteps) =
      [(true, "ann"), (true, "eve"), (false, "dan")] ∧
    Firestore.Social (handled "bob" [(true, "ann"), (true, "eve"), (false, "dan")] ["ann", "eve"])
      st.store.newsfeed requestedStore st.store := by
  obtain ⟨st, hst, hq⟩ : ∃ st ∈ exec program handling requestedSteps
      (start requestedStore (opened requestedMe none)), Quiescent st := by
    decide +kernel
  have htrace := trace_of_exec hst
  have hpresses : presses requestedMe.requests (events requestedSteps) =
      [(true, "ann"), (true, "eve"), (false, "dan")] := by
    decide
  have hme : requestedStore.fetchUser requestedMe.uid = some requestedMe := by decide +kernel
  have h := handled_of_trace hme htrace hq
  rw [hpresses] at h
  exact ⟨st, htrace, hq, hpresses, h.2.1⟩

end FollowersList

end Wanderlust
