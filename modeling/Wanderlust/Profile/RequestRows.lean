import Wanderlust.Foundations.Handlers
import Wanderlust.Foundations.Listener
import Wanderlust.Foundations.Slots
import Wanderlust.Profile.FollowersList

/-!
# The rows of the requests

The requests table of `FollowersListViewController`. The name that a cell shows is fetched when the
table asks for the cell, and put into the cell that is in the row when it arrives. Accepting and
denying shift the rows, and reload the table. So a row ends with the right name exactly if, since
the table was reloaded last, each other name arrives while the right one is still on its way
(`rows_named_iff`).
-/

namespace Wanderlust

open Async Runs

/-- The name that a user is shown with. -/
def Firestore.username (db : Firestore) (uid : Uid) : Option String :=
  (db.fetchUser uid).map fun user => user.username

/-- The screen with its requests table, all rows of which are visible. -/
structure RequestRows where
  list : FollowersList
  /-- The text label of the cell in each row. -/
  labels : ℕ → Option String

namespace RequestRows

inductive Callback
  | list (k : FollowersList.Callback)
  -- `cellForRowAt`
  | usernameFetched (row : ℕ) (uid : Uid)
  deriving DecidableEq

/-- What the user does on the screen, and what the cells that are handed out again still show, if
the table is reloaded then. -/
inductive Event
  | list (e : FollowersList.Event) (texts : ℕ → Option String)

abbrev Cmd := Async.Cmd Write Callback

/-- The screen before it appears. -/
def opened (currentUser : User) : RequestRows := ⟨⟨currentUser, none, [], []⟩, fun _ => none⟩

/-- The actions after which the table is reloaded. -/
def ReloadsData : FollowersList.Event → Prop
  | .viewWillAppear => True
  | .acceptRequest _ => True
  | .denyRequest _ => True
  | .currentUserFetched => False

instance : DecidablePred ReloadsData
  | .viewWillAppear => inferInstanceAs (Decidable True)
  | .acceptRequest _ => inferInstanceAs (Decidable True)
  | .denyRequest _ => inferInstanceAs (Decidable True)
  | .currentUserFetched => inferInstanceAs (Decidable False)

/-- The table asks for the cell of every row. -/
def cellsForRows (requests : List Uid) : List Cmd :=
  requests.zipIdx.map fun x => .request (.usernameFetched x.2 x.1)

/-- The code of the closures. There is no cell in a row that is no longer there. -/
def react : Callback → Bool → Unit → RequestRows → Firestore → Option (RequestRows × List Cmd)
  | .list k, ok, a, l, db => (FollowersList.react k ok a l.list db).map fun r =>
      ({ l with list := r.1 }, r.2.map (Cmd.map .list))
  | .usernameFetched row uid, ok, _, l, db =>
    let user := if ok then db.fetchUser uid else none
    if row < l.list.requests.length then
      some ({ l with
        labels := Function.update l.labels row (user.map fun user => user.username) }, [])
    else some (l, [])

/-- The code of the user's actions. -/
def event : Event → RequestRows → Firestore → Option (RequestRows × List Cmd)
  | .list e texts, l, db => (FollowersList.event e l.list db).map fun r =>
      if ReloadsData e then
        (⟨r.1, texts⟩, r.2.map (Cmd.map .list) ++ cellsForRows r.1.requests)
      else ({ l with list := r.1 }, r.2.map (Cmd.map .list))

/-- `FollowersListViewController`, with the cells of its requests table. -/
def program : Program Firestore RequestRows Write Callback Unit Event where
  apply := Write.apply
  react := react
  event := event

/-! ## Usernames do not change -/

/-- The write leaves the usernames alone. -/
def KeepsNames (w : Write) : Prop := ∀ db uid, (w.apply db).username uid = db.username uid

theorem keepsNames_updateUser {uid : Uid} {f : UserDoc → UserDoc}
    (h : ∀ d, (f d).username = d.username) : KeepsNames (.updateUser uid f) := by
  intro db u
  simp only [Firestore.username, Firestore.fetchUser, Write.apply, Collection.lookup_modify_eq]
  split
  · rename_i hu
    subst hu
    cases db.users.lookup u with
    | none => rfl
    | some d => exact congrArg some (h d)
  · rfl

section

variable {l : FollowersList} {db : Firestore} {r : FollowersList × List FollowersList.Cmd}

/-- What the user does leaves the usernames alone. -/
theorem keepsNames_event {e : FollowersList.Event} (h : FollowersList.event e l db = some r) :
    ∀ c ∈ r.2, c.Writes KeepsNames := by
  have hcode : ∀ uid, (∀ c ∈ (FollowersList.acceptRequest uid l).2, c.Writes KeepsNames) ∧
      ∀ c ∈ (FollowersList.denyRequest uid l).2, c.Writes KeepsNames := by
    intro uid
    simp only [FollowersList.acceptRequest, FollowersList.denyRequest, List.forall_mem_cons]
    exact ⟨⟨keepsNames_updateUser fun _ => rfl, trivial, trivial,
      keepsNames_updateUser fun _ => rfl, fun c hc => by cases hc⟩,
      keepsNames_updateUser fun _ => rfl, fun c hc => by cases hc⟩
  cases e with
  | viewWillAppear =>
    cases h
    exact fun c hc => by cases hc
  | acceptRequest row =>
    simp only [FollowersList.event] at h
    split at h
    · obtain ⟨uid, -, rfl⟩ := Option.map_eq_some_iff.mp h
      exact (hcode uid).1
    · cases h
  | denyRequest row =>
    simp only [FollowersList.event] at h
    split at h
    · obtain ⟨uid, -, rfl⟩ := Option.map_eq_some_iff.mp h
      exact (hcode uid).2
    · cases h
  | currentUserFetched =>
    simp only [FollowersList.event] at h
    split at h <;> cases h <;> exact fun c hc => by cases hc

/-- What is done with the answers leaves the usernames alone, and the requests that are shown. -/
theorem keepsNames_react {k : FollowersList.Callback} {ok : Bool} {a : Unit}
    (h : FollowersList.react k ok a l db = some r) :
    r.1 = l ∧ ∀ c ∈ r.2, c.Writes KeepsNames := by
  cases k with
  | userFetched uid =>
    simp only [FollowersList.react] at h
    split at h <;> cases h
    refine ⟨rfl, fun c hc => ?_⟩
    rw [List.mem_singleton.mp hc]
    exact keepsNames_updateUser fun _ => rfl
  | entriesFetched newsfeed uid =>
    cases h
    refine ⟨rfl, fun c hc => ?_⟩
    change c ∈ (if ok then backfill newsfeed l.currentUser.uid (db.latestEntries 20 uid) else [])
      at hc
    split at hc
    · obtain ⟨e, -, rfl⟩ := List.mem_map.mp hc
      exact fun _ _ => rfl
    · cases hc

end

/-! ## The rows -/

/-- A state of the screen with what is under way. -/
abbrev Screen := State Firestore RequestRows Write Callback

/-- The name that an answer puts into the row. -/
def Callback.nameFor (db : Firestore) (row : ℕ) : Callback → Option (Option String)
  | .list _ => none
  | .usernameFetched r uid => if r = row then some (db.username uid) else none

/-- The row of the table: the name of the request in it, the label, and the names that are on their
way to it. -/
def slot (db : Firestore) (row : ℕ) (x : Direct Firestore RequestRows Callback) :
    Slot (Option String) where
  wanted := x.loc.list.requests[row]?.map db.username
  shown := x.loc.labels row
  pending := x.bag.filterMap (Callback.nameFor db row)

/-- The name that is put into the row. -/
def nameOf (db : Firestore) (row : ℕ) : Async.Move Callback Unit Event → Option (Option String)
  | .event _ => none
  | .deliver k _ _ => k.nameFor db row

/-- The name that a step puts into the row. -/
def answer (db : Firestore) (row : ℕ) (st : Screen) (lbl : Label Unit Event) :
    Option (Option String) :=
  (st.move lbl).bind (nameOf db row)

/-- The step reloads the table. -/
def Reloads (_ : Screen) : Label Unit Event → Prop
  | .event (.list e _) => ReloadsData e
  | _ => False

instance (st : Screen) : DecidablePred (Reloads st)
  | .event (.list e _) => inferInstanceAs (Decidable (ReloadsData e))
  | .deliver _ _ _ => inferInstanceAs (Decidable False)
  | .apply => inferInstanceAs (Decidable False)
  | .reject => inferInstanceAs (Decidable False)

/-- The fetches of names succeed. -/
def Answered : Async.Move Callback Unit Event → Prop
  | .deliver (.usernameFetched _ _) ok _ => ok = true
  | _ => True

instance : DecidablePred Answered
  | .event _ => inferInstanceAs (Decidable True)
  | .deliver (.list _) _ _ => inferInstanceAs (Decidable True)
  | .deliver (.usernameFetched _ _) ok _ => inferInstanceAs (Decidable (ok = true))

/-- A step of the screen. -/
def Turn (st : Screen) (lbl : Label Unit Event) (st' : Screen) : Prop :=
  program.step lbl st = some st' ∧ ∀ m ∈ st.move lbl, Answered m

/-- The usernames are those of `db`, and stay so. -/
structure Named (db : Firestore) (st : Screen) : Prop where
  store : ∀ uid, st.store.username uid = db.username uid
  queue : ∀ x ∈ st.queue, KeepsNames x.1

section

variable {db : Firestore} {row : ℕ} {st st' : Screen} {lbl : Label Unit Event}
  {x x' : Direct Firestore RequestRows Callback} {m : Async.Move Callback Unit Event}

theorem writes_map {c : FollowersList.Cmd} (h : c.Writes KeepsNames) :
    (c.map Callback.list).Writes KeepsNames := by
  cases c with
  | write w k => exact h
  | request k => trivial

/-- The code leaves the usernames alone. -/
theorem keepsNames_runs {r : RequestRows × List Cmd} (h : program.Runs st lbl r) :
    ∀ c ∈ r.2, c.Writes KeepsNames := by
  have hmap : ∀ cs : List FollowersList.Cmd, (∀ c ∈ cs, c.Writes KeepsNames) →
      ∀ c ∈ cs.map (Cmd.map Callback.list), c.Writes KeepsNames := by
    intro cs hcs c hc
    obtain ⟨c', hc', rfl⟩ := List.mem_map.mp hc
    exact writes_map (hcs c' hc')
  cases h with
  | @event e _ he =>
    obtain ⟨e, texts⟩ := e
    obtain ⟨r, hr, rfl⟩ := Option.map_eq_some_iff.mp he
    have hcs := hmap r.2 (keepsNames_event hr)
    split
    · intro c hc
      rcases List.mem_append.mp hc with hc | hc
      · exact hcs c hc
      · obtain ⟨y, -, rfl⟩ := List.mem_map.mp hc
        trivial
    · exact hcs
  | @deliver i ok a k o _ hi ho hr =>
    cases k with
    | list k =>
      obtain ⟨r, hcode, rfl⟩ := Option.map_eq_some_iff.mp hr
      exact hmap r.2 (keepsNames_react hcode).2
    | usernameFetched r uid =>
      simp only [program, react] at hr
      split at hr <;> cases hr <;> exact fun c hc => by cases hc

/-- The names stay, whatever the screen does. -/
theorem Named.step (h : Named db st) (hs : program.step lbl st = some st') : Named db st' := by
  obtain ⟨hstore, hqueue⟩ := step_writes (G := fun s => ∀ uid, s.username uid = db.username uid)
    (Q := KeepsNames) (fun w hw s hs uid => (hw s uid).trans (hs uid)) h.store h.queue
    (fun r hr => keepsNames_runs hr) hs
  exact ⟨hstore, hqueue⟩

/-- The code sees the names. -/
theorem Named.view (h : Named db st) (uid : Uid) :
    (program.direct st).store.username uid = db.username uid :=
  view_of_writes (G := fun s => ∀ uid, s.username uid = db.username uid)
    (fun _ hw s hs uid => (hw s uid).trans (hs uid)) h.store h.queue uid

/-- The closures of the list bring no names. -/
theorem filterMap_list (cs : List FollowersList.Cmd) :
    (callbacks (cs.map (Cmd.map Callback.list))).filterMap (Callback.nameFor db row) = 0 := by
  rw [callbacks_map]
  refine Multiset.eq_zero_of_forall_notMem fun name hname => ?_
  obtain ⟨k, hk, hfor⟩ := (Multiset.mem_filterMap _ _).mp hname
  obtain ⟨k', -, rfl⟩ := Multiset.mem_map.mp hk
  cases hfor

/-- The table has asked for the name of the request in the row. -/
theorem mem_cellsForRows {requests : List Uid} {uid : Uid} (h : requests[row]? = some uid) :
    db.username uid ∈ (callbacks (cellsForRows requests)).filterMap (Callback.nameFor db row) := by
  refine (Multiset.mem_filterMap _ _).mpr ⟨.usernameFetched row uid, ?_, if_pos rfl⟩
  refine Multiset.mem_coe.mpr (List.mem_filterMap.mpr
    ⟨.request (.usernameFetched row uid), ?_, rfl⟩)
  exact List.mem_map.mpr ⟨(uid, row), List.mem_zipIdx_iff_getElem?.mpr h, rfl⟩

/-- The reload of the table. -/
theorem promised_reload {l : RequestRows} {bag : Multiset Callback} {cs : List FollowersList.Cmd}
    {r : RequestRows × List Cmd} {db' : Firestore} (hr : r.2 = cs.map (Cmd.map Callback.list) ++
      cellsForRows r.1.list.requests) :
    (slot db row (program.after r ⟨db', l, bag⟩)).Promised := by
  intro name hname
  obtain ⟨uid, huid, rfl⟩ := Option.map_eq_some_iff.mp hname
  refine Or.inr ?_
  show db.username uid ∈ (bag + callbacks r.2).filterMap _
  rw [hr, callbacks_append, Multiset.filterMap_add, Multiset.filterMap_add]
  exact Multiset.mem_add.mpr (Or.inr (Multiset.mem_add.mpr (Or.inr (mem_cellsForRows huid))))

/-- A step that has nothing to do with the table. -/
theorem slot_other {l : RequestRows} {rest : Multiset Callback} (cs : List FollowersList.Cmd)
    (hrest : rest.filterMap (Callback.nameFor db row) = (slot db row x).pending)
    (hrequests : l.list.requests = x.loc.list.requests) (hlabels : l.labels = x.loc.labels) :
    (slot db row x).Step (slot db row (program.after (l, cs.map (Cmd.map Callback.list))
      { x with bag := rest })) none := by
  refine .other ?_ (congrFun hlabels row) ?_
  · exact congrArg (fun requests : List Uid => requests[row]?.map db.username) hrequests
  · show (rest + callbacks _).filterMap _ = _
    rw [Multiset.filterMap_add, filterMap_list, add_zero, hrest]

/-- **One step** reloads the table, or is to the row what it should be. -/
theorem slot_step (row : ℕ) (hname : ∀ uid, x.store.username uid = db.username uid)
    (hm : Answered m) (hs : DirectStep program x m x') :
    (∀ e texts, m = .event (.list e texts) → ReloadsData e → (slot db row x').Promised) ∧
      ((∀ e texts, m = .event (.list e texts) → ¬ ReloadsData e) →
        (slot db row x).Step (slot db row x') (nameOf db row m)) := by
  cases hs with
  | @event e r he =>
    obtain ⟨e, texts⟩ := e
    obtain ⟨r, hcode, rfl⟩ := Option.map_eq_some_iff.mp he
    constructor
    · rintro e' texts' heq hreload
      cases heq
      rw [if_pos hreload]
      exact promised_reload rfl
    · intro hnone
      have hreload : ¬ ReloadsData e := hnone e texts rfl
      rw [if_neg hreload]
      cases e with
      | currentUserFetched =>
        simp only [FollowersList.event] at hcode
        split at hcode <;> cases hcode <;> exact slot_other [] rfl rfl rfl
      | _ => exact absurd trivial hreload
  | @deliver k ok a rest r hb hr =>
    refine ⟨fun e texts heq => (by cases heq), fun _ => ?_⟩
    cases k with
    | list k =>
      obtain ⟨r, hcode, rfl⟩ := Option.map_eq_some_iff.mp hr
      refine slot_other _ ?_ ?_ rfl
      · rw [slot, hb, Multiset.filterMap_cons_none _ _ rfl]
      · rw [(keepsNames_react hcode).1]
    | usernameFetched r' uid =>
      have hok : ok = true := hm
      have huser : ((x.store.fetchUser uid).map fun user => user.username) = db.username uid :=
        hname uid
      simp only [program, react, hok, if_true, huser] at hr
      by_cases hrow : r' = row
      · subst hrow
        have hanswer : nameOf db r' (.deliver (.usernameFetched r' uid) ok a : Async.Move Callback
            Unit Event) = some (db.username uid) := if_pos rfl
        have hpending : (slot db r' x).pending =
            db.username uid ::ₘ rest.filterMap (Callback.nameFor db r') := by
          rw [slot, hb]
          exact Multiset.filterMap_cons_some _ _ _ (if_pos rfl)
        rw [hanswer]
        split at hr
        · cases hr
          refine .answer rfl (fun _ => Function.update_self _ _ _) ?_
          simpa [slot, Program.after] using hpending
        · rename_i hlen
          cases hr
          -- there is no such row any more
          have hnone : (slot db r' x).wanted = none := by
            rw [slot, List.getElem?_eq_none (Nat.le_of_not_lt hlen)]
            rfl
          refine .answer rfl (fun hsome => absurd hnone hsome) ?_
          simpa [slot, Program.after] using hpending
      · have hanswer : nameOf db row (.deliver (.usernameFetched r' uid) ok a : Async.Move Callback
            Unit Event) = none := if_neg hrow
        have hpending : (slot db row x).pending =
            rest.filterMap (Callback.nameFor db row) := by
          rw [slot, hb]
          exact Multiset.filterMap_cons_none _ _ (if_neg hrow)
        rw [hanswer]
        split at hr <;> cases hr
        · refine .other rfl (Function.update_of_ne (Ne.symm hrow) _ _) ?_
          simpa [slot, Program.after] using hpending.symm
        · refine .other rfl rfl ?_
          simpa [slot, Program.after] using hpending.symm

/-- A step of a run. -/
theorem Named.turn (h : Named db st) (hs : Turn st lbl st') :
    Named db st' ∧ (Reloads st lbl → (slot db row (program.direct st')).Promised) ∧
      (¬ Reloads st lbl → (slot db row (program.direct st)).Step (slot db row (program.direct st'))
        (answer db row st lbl)) := by
  refine ⟨h.step hs.1, ?_⟩
  rcases step_move hs.1 with ⟨hnone, -, s, hsame⟩ | ⟨m, hm, hmove⟩
  · -- a write leaves the queue
    refine ⟨fun hreloads => ?_, fun _ => ?_⟩
    · cases lbl with
      | event e => cases hnone
      | _ => exact hreloads.elim
    · rw [answer, hnone, hsame]
      exact .other rfl rfl rfl
  · obtain ⟨hreset, hother⟩ := slot_step row h.view (hs.2 m hm) hmove
    refine ⟨fun hreloads => ?_, fun hreloads => ?_⟩
    · cases lbl with
      | event e =>
        cases hm
        exact hreset e.1 e.2 rfl hreloads
      | _ => exact hreloads.elim
    · rw [answer, hm]
      refine hother fun e texts heq hreload => hreloads ?_
      obtain rfl := move_eq_event.mp (hm.trans (congrArg some heq))
      exact hreload

end

/-- If a name other than that of the request is put into the row, that name is still on its way to
it. -/
def Timely (db : Firestore) (row : ℕ) (st : Screen) (lbl : Label Unit Event) : Prop :=
  (slot db row (program.direct st)).Timely (answer db row st lbl)

instance (db : Firestore) (row : ℕ) (st : Screen) : DecidablePred (Timely db row st) :=
  fun lbl =>
    inferInstanceAs (Decidable ((slot db row (program.direct st)).Timely (answer db row st lbl)))

/-- **Rows name the right person**: whatever is accepted and denied, when all names have arrived,
each row shows the name of its request exactly if, since the table was reloaded last, no name of
another user came to it after the right one. -/
theorem rows_named_iff {db : Firestore} {currentUser : User}
    {tr : List (Label Unit Event × Screen)}
    (hrun : IsRun Turn (start db (opened currentUser)) tr)
    (hquiet : Quiescent (final (start db (opened currentUser)) tr)) :
    (∀ row uid, (final (start db (opened currentUser)) tr).loc.list.requests[row]? = some uid →
        (final (start db (opened currentUser)) tr).loc.labels row = db.username uid) ↔
      ∀ row < (final (start db (opened currentUser)) tr).loc.list.requests.length,
        MeetsSince Reloads (Timely db row) (start db (opened currentUser)) tr := by
  have hstart : Named db (start db (opened currentUser) : Screen) :=
    ⟨fun _ => rfl, fun x hx => by cases hx⟩
  have hrow := fun row => hrun.shown_iff (fun st => slot db row (program.direct st))
    (answer db row) Reloads (fun st lbl st' h hs => h.turn hs) hstart
    (fun name hname => by cases hname) (by rw [hquiet.direct]; rfl)
  constructor
  · intro hall row _
    refine (hrow row).mp fun name hname => ?_
    obtain ⟨uid, huid, rfl⟩ := Option.map_eq_some_iff.mp hname
    exact hall row uid huid
  · intro hmeets row uid huid
    have hlt := (List.getElem?_eq_some_iff.mp huid).1
    exact (hrow row).mpr (hmeets row hlt) _ (congrArg (Option.map db.username) huid)

/-- Bob and Carl have asked to follow Ann. -/
def askedAnn : User := { sampleAnn with requests := ["bob", "carl"] }

/-- The three of them. -/
def askedStore : Firestore where
  users := AList.insert "carl" (newUser "Carl") (AList.insert "bob" (newUser "Bob")
    (AList.insert "ann" askedAnn.toUserDoc ∅))
  trips := ∅
  entries := ∅
  newsfeed := ∅

/-- Ann denies the first request before the names have arrived; they arrive in order. -/
def inOrder : List (Label Unit Event) :=
  [.event (.list .viewWillAppear fun _ => none), .event (.list (.denyRequest 0) fun _ => none),
    .apply, .deliver 0 true (), .deliver 0 true (), .deliver 0 true ()]

/-- The screen before it appears. -/
def askedScreen : Screen := start askedStore (opened askedAnn)

theorem rows_named_iff_sample : ∃ tr, IsRun Turn askedScreen tr ∧ tr.map Prod.fst = inOrder ∧
    ∀ row uid, (final askedScreen tr).loc.list.requests[row]? = some uid →
      (final askedScreen tr).loc.labels row = askedStore.username uid := by
  obtain ⟨tr, htr, hcond, hquiet, htimely⟩ :
      ∃ tr ∈ play (fun st lbl => program.step lbl st) inOrder askedScreen,
        Meets (fun st lbl => ∀ m ∈ st.move lbl, Answered m) askedScreen tr ∧
        Quiescent (final askedScreen tr) ∧
        ∀ row < (final askedScreen tr).loc.list.requests.length,
          MeetsSince Reloads (Timely askedStore row) askedScreen tr := by
    decide +kernel
  have hrun : IsRun Turn askedScreen tr := (isRun_of_play htr).and_meets hcond
  exact ⟨tr, hrun, labels_of_play htr, (rows_named_iff hrun hquiet).mpr htimely⟩

/-- The name of Carl arrives before that of Bob, which was asked for before the denial. -/
def overtaken : List (Label Unit Event) :=
  [.event (.list .viewWillAppear fun _ => none), .event (.list (.denyRequest 0) fun _ => none),
    .apply, .deliver 2 true (), .deliver 0 true (), .deliver 0 true ()]

/-- **The row of Carl shows the name of Bob.** -/
theorem wrong_name_shown : ∃ tr, IsRun Turn askedScreen tr ∧ Quiescent (final askedScreen tr) ∧
    (final askedScreen tr).loc.list.requests = ["carl"] ∧
    (final askedScreen tr).loc.labels 0 = some "Bob" ∧
    askedStore.username "carl" = some "Carl" := by
  obtain ⟨tr, htr, hcond, hquiet, hrequests, hlabel⟩ :
      ∃ tr ∈ play (fun st lbl => program.step lbl st) overtaken askedScreen,
        Meets (fun st lbl => ∀ m ∈ st.move lbl, Answered m) askedScreen tr ∧
        Quiescent (final askedScreen tr) ∧
        (final askedScreen tr).loc.list.requests = ["carl"] ∧
        (final askedScreen tr).loc.labels 0 = some "Bob" := by
    decide +kernel
  exact ⟨tr, (isRun_of_play htr).and_meets hcond, hquiet, hrequests, hlabel, by decide +kernel⟩

end RequestRows

end Wanderlust
