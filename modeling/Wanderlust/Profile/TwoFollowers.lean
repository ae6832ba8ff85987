import Wanderlust.Foundations.Runs
import Wanderlust.Foundations.Shared
import Wanderlust.Profile.ProfilePage

/-!
# Two users follow a third at the same time

Two clients, each with the profile page of the same public user, on one database. Each reads the
user when the page appears, and writes the whole list of followers when the button is pressed, with
itself at the end of the list that it has read. So the list that is written last decides, and it
lacks the other follower unless the page was loaded after the other's list had been written
(`followers_kept_iff`).

The proof follows each client through three stages: the button has not been pressed (`Idle`), the
list of followers is in the queue (`Pending`), and it has been written (`Done`).
-/

namespace Wanderlust

open Async Runs

namespace ProfilePage

/-- The two clients with their database, and the copy of the user that each of them had when the
button was pressed. -/
structure Race where
  shared : Shared Bool Firestore ProfilePage Write Callback
  copies : Bool → Option User

/-- The pages have been opened. -/
def Race.start (db : Firestore) (me : Bool → User) (b : Uid) : Race :=
  ⟨⟨db, fun i => ⟨opened (me i) (some b), [], []⟩⟩, fun _ => none⟩

/-- A step of one of the clients. Each presses the button once, and no write fails. -/
def Race.turn (w : Race) : Bool × Label Unit Event → Option Race
  | (_, .reject) => none
  | (i, .event .followButtonPressed) =>
    if w.copies i = none then
      (program.step (.event .followButtonPressed) (w.shared.state i)).map fun st =>
        ⟨w.shared.put i st, Function.update w.copies i (w.shared.client i).loc.otherUser⟩
    else none
  | (i, lbl) => (program.step lbl (w.shared.state i)).map fun st => ⟨w.shared.put i st, w.copies⟩

/-- Both have pressed the button, and all is written. -/
def Race.Finished (w : Race) : Prop :=
  ∀ i, w.copies i ≠ none ∧ (w.shared.client i).queue = []

instance (w : Race) : Decidable w.Finished :=
  inferInstanceAs (Decidable (∀ i, w.copies i ≠ none ∧ (w.shared.client i).queue = []))

/-- One client's part in a step: `c` is the copy that it had when the button was pressed. -/
inductive Turn (c : Option User) (st st' : State Firestore ProfilePage Write Callback) :
    Option User → Prop
  | press (hfirst : c = none) (h : program.step (.event .followButtonPressed) st = some st') :
    Turn c st st' st.loc.otherUser
  | other {lbl : Label Unit Event} (hpress : lbl ≠ .event .followButtonPressed)
    (hreject : lbl ≠ .reject) (h : program.step lbl st = some st') : Turn c st st' c

theorem turn_cases {w w' : Race} {x : Bool × Label Unit Event} (h : w.turn x = some w') :
    ∃ st' c', Turn (w.copies x.1) (w.shared.state x.1) st' c' ∧ w'.shared = w.shared.put x.1 st' ∧
      w'.copies x.1 = c' ∧ w'.copies (!x.1) = w.copies (!x.1) := by
  obtain ⟨i, lbl⟩ := x
  have hother : lbl ≠ .event .followButtonPressed → lbl ≠ .reject →
      (program.step lbl (w.shared.state i)).map (fun st => (⟨w.shared.put i st, w.copies⟩ : Race)) =
        some w' →
      ∃ st' c', Turn (w.copies i) (w.shared.state i) st' c' ∧ w'.shared = w.shared.put i st' ∧
        w'.copies i = c' ∧ w'.copies (!i) = w.copies (!i) := by
    intro hpress hreject h
    obtain ⟨st', hst', rfl⟩ := Option.map_eq_some_iff.mp h
    exact ⟨st', w.copies i, .other hpress hreject hst', rfl, rfl, rfl⟩
  cases lbl with
  | reject => cases h
  | apply => exact hother (by simp) (by simp) h
  | deliver k ok a => exact hother (by simp) (by simp) h
  | event e =>
    cases e with
    | viewWillAppear => exact hother (by simp) (by simp) h
    | currentUserFetched => exact hother (by simp) (by simp) h
    | followButtonPressed =>
      simp only [Race.turn] at h
      split at h
      · rename_i hfirst
        obtain ⟨st', hst', rfl⟩ := Option.map_eq_some_iff.mp h
        refine ⟨st', _, .press hfirst hst', rfl, Function.update_self .., ?_⟩
        exact Function.update_of_ne (by simp) ..
      · cases h

/-! ## The stages of a client -/

/-- The write changes no document of a user but that of `u`. -/
def OnlyUser (u : Uid) (w : Write) : Prop :=
  ∀ db v, v ≠ u → (w.apply db).users.lookup v = db.users.lookup v

/-- The list of followers, as `me` writes it who has read the list `F`. -/
def followersWrite (me : User) (b : Uid) (F : List Uid) : Write :=
  .updateUser b fun d => { d with followers := F ++ [me.uid] }

/-- The button has not been pressed. What has been read of the followers satisfies `P`. -/
structure Idle (me : User) (b : Uid) (P : List Uid → Prop) (c : Option User)
    (st : State Firestore ProfilePage Write Callback) : Prop where
  copy : c = none
  queue : st.queue = []
  ready : ∀ x ∈ st.ready, x.1 = .otherUserFetched b
  currentUser : st.loc.currentUser = me
  otherUserUid : st.loc.otherUserUid = some b
  otherUser : ∀ u, st.loc.otherUser = some u → u.uid = b ∧ u.publicUser = true ∧ P u.followers
  doc : st.store.users.lookup me.uid = some me.toUserDoc

/-- The list of followers is in the queue. -/
structure Pending (me : User) (b : Uid) (F : List Uid) (c : Option User)
    (st : State Firestore ProfilePage Write Callback) : Prop where
  copy : c.map (fun u => u.followers) = some F
  queue : ∃ before after, st.queue = before ++ (followersWrite me b F, none) :: after ∧
    (∀ x ∈ before, OnlyUser me.uid x.1) ∧ ∀ x ∈ after, OnlyUser me.uid x.1

/-- The list of followers has been written. -/
structure Done (me : User) (F : List Uid) (c : Option User)
    (st : State Firestore ProfilePage Write Callback) : Prop where
  copy : c.map (fun u => u.followers) = some F
  queue : ∀ x ∈ st.queue, OnlyUser me.uid x.1

/-- The list of followers has not been written. -/
def Running (me : User) (b : Uid) (P : List Uid → Prop) (c : Option User)
    (st : State Firestore ProfilePage Write Callback) : Prop :=
  Idle me b P c st ∨ ∃ F, P F ∧ Pending me b F c st

section

variable {me : User} {b u : Uid} {P Q : List Uid → Prop} {F : List Uid} {c c' : Option User}
  {st st' : State Firestore ProfilePage Write Callback} {lbl : Label Unit Event} {e : UserDoc}

theorem onlyUser_updateUser (u : Uid) (f : UserDoc → UserDoc) : OnlyUser u (.updateUser u f) :=
  fun _ _ hv => Collection.lookup_modify_ne hv _ _

theorem onlyUser_setFeed (u v : Uid) (id : EntryID) (d : FeedDoc) : OnlyUser u (.setFeed v id d) :=
  fun _ _ _ => rfl

theorem onlyUser_deleteFeed (u v : Uid) (id : EntryID) : OnlyUser u (.deleteFeed v id) :=
  fun _ _ _ => rfl

/-- But for the button, the page writes newsfeed documents only. -/
theorem onlyUser_of_react {k : Callback} {ok : Bool} {a : Unit} {l : ProfilePage} {db : Firestore}
    {r : ProfilePage × List Cmd} (h : react k ok a l db = some r) (u : Uid) :
    ∀ x ∈ writes r.2, OnlyUser u x.1 := by
  rintro ⟨w, k'⟩ hx
  have hw := mem_writes.mp hx
  cases k with
  | otherUserFetched uid =>
    simp only [react] at h
    split at h <;> cases h
    cases hw
  | entriesFetched newsfeed uid =>
    simp only [react] at h
    split at h
    · obtain ⟨other, -, rfl⟩ := Option.map_eq_some_iff.mp h
      obtain ⟨e, -, he⟩ := List.mem_map.mp hw
      cases he
      exact onlyUser_setFeed _ _ _ _
    · cases h
      cases hw
  | newsfeedFetched newsfeed uid =>
    simp only [react] at h
    split at h <;> cases h
    obtain ⟨id, -, he⟩ := List.mem_map.mp hw
    cases he
    exact onlyUser_deleteFeed _ _ _
  | currentUserRefetched uid =>
    simp only [react] at h
    split at h
    · cases h
    · obtain ⟨other, -, rfl⟩ := Option.map_eq_some_iff.mp h
      simp at hw
  | otherUserRefetched uid =>
    simp only [react] at h
    split at h <;> cases h
    cases hw

theorem writes_of_event {e : Event} {l : ProfilePage} {db : Firestore}
    {r : ProfilePage × List Cmd} (he : e ≠ .followButtonPressed) (h : event e l db = some r) :
    writes r.2 = [] := by
  cases e with
  | followButtonPressed => exact absurd rfl he
  | viewWillAppear =>
    cases h
    simp only [viewWillAppear]
    split
    · split <;> rfl
    · rfl
  | currentUserFetched =>
    simp only [event] at h
    split at h <;> cases h <;> rfl

/-- What code other than that of the button puts into the queue. -/
theorem queue_of_step (hpress : lbl ≠ .event .followButtonPressed) (hreject : lbl ≠ .reject)
    (h : program.step lbl st = some st') (u : Uid) :
    (∃ after, st' = { st' with store := st.store, queue := st.queue ++ after } ∧
      ∀ x ∈ after, OnlyUser u x.1) ∨
    ∃ w k q, st.queue = (w, k) :: q ∧ st'.store = w.apply st.store ∧ st'.queue = q := by
  rcases step_cases h with ⟨e, r, rfl, he, rfl⟩ | ⟨i, ok, a, k, o, r, rfl, -, hr, rfl⟩ |
    ⟨w, k, q, rfl, hq, rfl⟩ | ⟨_, _, _, rfl, _⟩
  · refine Or.inl ⟨writes r.2, rfl, fun x hx => ?_⟩
    rw [writes_of_event (fun he' => hpress (he' ▸ rfl)) he] at hx
    cases hx
  · exact Or.inl ⟨writes r.2, rfl, onlyUser_of_react hr u⟩
  · exact Or.inr ⟨w, k, q, hq, rfl, rfl⟩
  · exact absurd rfl hreject

/-- The page of a public user whom `me` does not follow: nothing is written before the press, and
the press puts the list of followers into the queue. -/
theorem Idle.step (h : Idle me b P c st) (hb : st.store.users.lookup b = some e)
    (hpub : e.publicUser = true) (hP : P e.followers) (hne : b ≠ me.uid) (hme : b ∉ me.following)
    (ht : Turn c st st' c') : st'.store = st.store ∧ Running me b P c' st' := by
  have hview : program.view st = st.store := by simp [Program.view, h.queue]
  cases ht with
  | press hfirst hst =>
    rcases step_cases hst with ⟨_, r, he, hr, rfl⟩ | ⟨_, _, _, _, _, _, he, _⟩ |
      ⟨_, _, _, he, _⟩ | ⟨_, _, _, he, _⟩
    · cases he
      refine ⟨rfl, ?_⟩
      obtain ⟨other, hother⟩ : ∃ other, st.loc.otherUser = some other := by
        cases ho : st.loc.otherUser with
        | none => simp [program, event, h.otherUserUid, ho] at hr
        | some other => exact ⟨other, rfl⟩
      obtain ⟨huid, hother', hread⟩ := h.otherUser other hother
      have hr' : followButtonPressed b other st.loc = r := by
        simpa [program, event, h.otherUserUid, hother] using hr
      have hw : writes r.2 =
          [(modifyFollowing (me.following ++ [other.uid]) me, none),
            (followersWrite me b other.followers, none)] := by
        rw [← hr']
        simp [followButtonPressed, h.currentUser, hme, hother', follow, fetchUsersInfo, writes,
          modifyFollowers, followersWrite, huid]
      refine Or.inr ⟨other.followers, hread, by simp [hother], ?_⟩
      refine ⟨[(modifyFollowing (me.following ++ [other.uid]) me, none)], [], ?_, ?_, ?_⟩
      · simp [h.queue, hw]
      · rintro x hx
        obtain rfl := List.mem_singleton.mp hx
        exact onlyUser_updateUser _ _
      · simp
    · cases he
    · cases he
    · cases he
  | @other lbl hpress hreject hst =>
    rcases step_cases hst with ⟨ev, r, rfl, hr, rfl⟩ | ⟨j, ok, a, k, o, r, rfl, hk, hr, rfl⟩ |
      ⟨w, k, q, rfl, hq, rfl⟩ | ⟨_, _, _, rfl, _⟩
    · refine ⟨rfl, Or.inl ?_⟩
      rw [hview] at hr
      cases ev with
      | followButtonPressed => exact absurd rfl hpress
      | viewWillAppear =>
        have hr' : r = (st.loc, [.request (.otherUserFetched b)]) := by
          simpa [program, event, viewWillAppear, h.otherUserUid, h.currentUser, hne] using hr.symm
        subst hr'
        refine { h with queue := by simp [h.queue, writes], ready := ?_ }
        simpa [requests, or_imp, forall_and] using h.ready
      | currentUserFetched =>
        have hfetch : st.store.fetchUser me.uid = some me := by simp [Firestore.fetchUser, h.doc]
        have hr' : r = ({ st.loc with currentUser := me }, []) := by
          simpa [program, event, h.currentUser, hfetch] using hr.symm
        subst hr'
        exact { h with
          queue := by simp [h.queue, writes]
          ready := by simpa [requests] using h.ready
          currentUser := rfl }
    · refine ⟨rfl, Or.inl ?_⟩
      have hkb : k = .otherUserFetched b := h.ready _ (List.mem_of_getElem? hk)
      subst hkb
      rw [hview] at hr
      have hfetch : st.store.fetchUser b = some { e with uid := b } := by
        simp [Firestore.fetchUser, hb]
      cases ok with
      | false => simp [program, react] at hr
      | true =>
        have hr' : r = (setFollowButton b { e with uid := b } (setUpProfilePage { e with uid := b }
            { st.loc with otherUser := some { e with uid := b } }), []) := by
          simpa [program, react, hfetch] using hr.symm
        subst hr'
        have hset : ∀ (u : User) (l : ProfilePage),
            (setFollowButton b u l).currentUser = l.currentUser ∧
            (setFollowButton b u l).otherUserUid = l.otherUserUid ∧
            (setFollowButton b u l).otherUser = l.otherUser := by
          intro u l
          simp only [setFollowButton]
          split_ifs <;> exact ⟨rfl, rfl, rfl⟩
        exact {
          copy := h.copy
          queue := by simp [h.queue, writes]
          ready := fun x hx => h.ready x (List.mem_of_mem_eraseIdx (by simpa [requests] using hx))
          currentUser := (hset _ _).1.trans h.currentUser
          otherUserUid := (hset _ _).2.1.trans h.otherUserUid
          otherUser := fun u hu => by
            rw [(hset _ _).2.2] at hu
            obtain rfl : _ = u := Option.some.inj hu
            exact ⟨rfl, hpub, hP⟩
          doc := h.doc }
    · rw [h.queue] at hq
      cases hq
    · exact absurd rfl hreject

/-- The list of followers stays in the queue, or is written. -/
theorem Pending.step (h : Pending me b F c st) (ht : Turn c st st' c') :
    (∀ v, v ≠ me.uid → st'.store.users.lookup v = st.store.users.lookup v) ∧
        Pending me b F c' st' ∨
      st'.store = (followersWrite me b F).apply st.store ∧ Done me F c' st' := by
  obtain ⟨before, after, hq, hbefore, hafter⟩ := h.queue
  cases ht with
  | press hfirst => exact absurd h.copy (by simp [hfirst])
  | @other lbl hpress hreject hst =>
    rcases queue_of_step hpress hreject hst me.uid with
      ⟨more, hst', hmore⟩ | ⟨w, k, q, hq', hs, hqs⟩
    · refine Or.inl ⟨fun v _ => by rw [hst'], h.copy, before, after ++ more, ?_, hbefore, ?_⟩
      · rw [hst', hq]
        simp
      · intro x hx
        exact (List.mem_append.mp hx).elim (hafter x) (hmore x)
    · rw [hq] at hq'
      cases before with
      | nil =>
        cases hq'
        exact Or.inr ⟨hs, h.copy, by rw [hqs]; exact hafter⟩
      | cons x before =>
        cases hq'
        refine Or.inl ⟨fun v hv => ?_, h.copy, before, after, hqs, ?_, hafter⟩
        · rw [hs]
          exact hbefore _ List.mem_cons_self _ _ hv
        · exact fun x hx => hbefore x (List.mem_cons_of_mem _ hx)

/-- Nothing but the document of `me` changes any more. -/
theorem Done.step (h : Done me F c st) (ht : Turn c st st' c') :
    (∀ v, v ≠ me.uid → st'.store.users.lookup v = st.store.users.lookup v) ∧ Done me F c' st' := by
  cases ht with
  | press hfirst => exact absurd h.copy (by simp [hfirst])
  | @other lbl hpress hreject hst =>
    rcases queue_of_step hpress hreject hst me.uid with ⟨more, hst', hmore⟩ | ⟨w, k, q, hq, hs, hqs⟩
    · refine ⟨fun v _ => by rw [hst'], h.copy, fun x hx => ?_⟩
      rw [hst'] at hx
      exact (List.mem_append.mp hx).elim (h.queue x) (hmore x)
    · refine ⟨fun v hv => ?_, h.copy, fun x hx => h.queue x ?_⟩
      · rw [hs]
        exact h.queue _ (hq ▸ List.mem_cons_self) _ _ hv
      · rw [hqs] at hx
        exact hq ▸ List.mem_cons_of_mem _ hx

theorem Running.step (h : Running me b P c st) (hb : st.store.users.lookup b = some e)
    (hpub : e.publicUser = true) (hP : P e.followers) (hne : b ≠ me.uid) (hme : b ∉ me.following)
    (ht : Turn c st st' c') :
    (∀ v, v ≠ me.uid → st'.store.users.lookup v = st.store.users.lookup v) ∧
        Running me b P c' st' ∨
      ∃ F, P F ∧ st'.store = (followersWrite me b F).apply st.store ∧ Done me F c' st' := by
  rcases h with h | ⟨F, hF, h⟩
  · obtain ⟨hs, h'⟩ := h.step hb hpub hP hne hme ht
    exact Or.inl ⟨fun v _ => by rw [hs], h'⟩
  · rcases h.step ht with ⟨hs, h'⟩ | ⟨hs, h'⟩
    · exact Or.inl ⟨hs, Or.inr ⟨F, hF, h'⟩⟩
    · exact Or.inr ⟨F, hF, hs, h'⟩

/-- The other client changes the store, and not the document of `me`. -/
theorem Running.frame (h : Running me b P c st) {db : Firestore}
    (hdb : db.users.lookup me.uid = st.store.users.lookup me.uid) :
    Running me b P c { st with store := db } := by
  rcases h with h | ⟨F, hF, h⟩
  · exact Or.inl { h with doc := hdb.trans h.doc }
  · exact Or.inr ⟨F, hF, h.copy, h.queue⟩

theorem Running.mono (h : Running me b P c st) (hPQ : ∀ F, P F → Q F) : Running me b Q c st := by
  rcases h with h | ⟨F, hF, h⟩
  · exact Or.inl { h with otherUser := fun u hu =>
      have h' := h.otherUser u hu
      ⟨h'.1, h'.2.1, hPQ _ h'.2.2⟩ }
  · exact Or.inr ⟨F, hPQ F hF, h⟩

/-- A client that is still at it has not pressed the button, or has a write in the queue. -/
theorem Running.not_finished (h : Running me b P c st) : ¬(c ≠ none ∧ st.queue = []) := by
  rintro ⟨hc, hq⟩
  rcases h with h | ⟨F, -, h⟩
  · exact hc h.copy
  · obtain ⟨before, after, hq', -⟩ := h.queue
    rw [hq] at hq'
    simp at hq'

end

/-! ## The two clients -/

/-- The stages of the two clients, when the list of followers was `F₀`: neither has written it, one
of them has, or both have. `i` is the client that was the last to do so. -/
inductive Raced (me : Bool → User) (b : Uid) (F₀ : List Uid) (w : Race) : List Uid → Prop
  | neither (h : ∀ i, Running (me i) b (· = F₀) (w.copies i) (w.shared.state i)) :
    Raced me b F₀ w F₀
  | one (i : Bool) (h : Done (me i) F₀ (w.copies i) (w.shared.state i))
    (h' : Running (me (!i)) b (fun F => F = F₀ ∨ F = F₀ ++ [(me i).uid]) (w.copies (!i))
      (w.shared.state (!i))) : Raced me b F₀ w (F₀ ++ [(me i).uid])
  | both (i : Bool) {F : List Uid} (hF : F = F₀ ∨ F = F₀ ++ [(me (!i)).uid])
    (h : Done (me i) F (w.copies i) (w.shared.state i))
    (h' : Done (me (!i)) F₀ (w.copies (!i)) (w.shared.state (!i))) :
      Raced me b F₀ w (F ++ [(me i).uid])

/-- The invariant: the document of `b` has the followers that the stages say. -/
def Racing (me : Bool → User) (b : Uid) (F₀ : List Uid) (w : Race) : Prop :=
  ∃ e, w.shared.store.users.lookup b = some e ∧ e.publicUser = true ∧ Raced me b F₀ w e.followers

section

variable {me : Bool → User} {b : Uid} {F₀ : List Uid} {w w' : Race} {db : Firestore} {e₀ : UserDoc}

theorem racing_start (hdb : ∀ i, db.users.lookup (me i).uid = some (me i).toUserDoc)
    (hb : db.users.lookup b = some e₀) (hpub : e₀.publicUser = true) :
    Racing me b e₀.followers (Race.start db me b) := by
  refine ⟨e₀, hb, hpub, .neither fun i => Or.inl ?_⟩
  exact ⟨rfl, rfl, by simp [Race.start, Shared.state], rfl, rfl,
    by simp [Race.start, Shared.state, opened], hdb i⟩

/-- What a step of one of the clients does: the followers of `b` stay as they are, or the client
writes its list. -/
theorem racing_step (hne : (me true).uid ≠ (me false).uid) (hbm : ∀ i, b ≠ (me i).uid)
    (hme : ∀ i, b ∉ (me i).following) (h : Racing me b F₀ w) {x : Bool × Label Unit Event}
    (hx : w.turn x = some w') : Racing me b F₀ w' := by
  obtain ⟨i, lbl⟩ := x
  obtain ⟨e, hb, hpub, hraced⟩ := h
  obtain ⟨st', c', ht, hsh, hci, hcj⟩ := turn_cases hx
  have hmine : w'.shared.state i = st' := by rw [hsh, state_put_self]
  have hother : w'.shared.state (!i) = { w.shared.state (!i) with store := st'.store } := by
    rw [hsh, state_put_ne (by simp)]
  have hstore : w'.shared.store = st'.store := by rw [hsh]; rfl
  have hij : (me (!i)).uid ≠ (me i).uid := by
    cases i
    · exact hne
    · exact hne.symm
  -- what happens to `b`, when the client does not write its list, and when it does
  have hkeep : (∀ v, v ≠ (me i).uid → st'.store.users.lookup v = w.shared.store.users.lookup v) →
      Raced me b F₀ w' e.followers → Racing me b F₀ w' := by
    intro hs h'
    exact ⟨e, by rw [hstore, hs b (hbm i), hb], hpub, h'⟩
  have hwrite : ∀ F, st'.store = (followersWrite (me i) b F).apply w.shared.store →
      Raced me b F₀ w' (F ++ [(me i).uid]) → Racing me b F₀ w' := by
    intro F hs h'
    refine ⟨{ e with followers := F ++ [(me i).uid] }, ?_, hpub, h'⟩
    rw [hstore, hs]
    exact (Collection.lookup_modify _ _ _).trans (by rw [hb]; rfl)
  -- what happens to the other client
  have hframe : ∀ P, st'.store.users.lookup (me (!i)).uid =
        w.shared.store.users.lookup (me (!i)).uid →
      Running (me (!i)) b P (w.copies (!i)) (w.shared.state (!i)) →
      Running (me (!i)) b P (w'.copies (!i)) (w'.shared.state (!i)) := by
    intro P hdb h'
    rw [hcj, hother]
    exact h'.frame hdb
  have hdone : ∀ F, Done (me (!i)) F (w.copies (!i)) (w.shared.state (!i)) →
      Done (me (!i)) F (w'.copies (!i)) (w'.shared.state (!i)) := by
    intro F h'
    rw [hcj, hother]
    exact ⟨h'.copy, h'.queue⟩
  have hwrote : ∀ F, st'.store = (followersWrite (me i) b F).apply w.shared.store →
      st'.store.users.lookup (me (!i)).uid = w.shared.store.users.lookup (me (!i)).uid := by
    intro F hs
    rw [hs]
    exact Collection.lookup_modify_ne (hbm _).symm _ _
  generalize he : e.followers = G at hraced
  cases hraced with
  | neither h =>
    rcases (h i).step hb hpub he (hbm i) (hme i) ht with ⟨hs, hrun⟩ | ⟨F, rfl, hs, hd⟩
    · refine hkeep hs ?_
      rw [he]
      refine .neither fun j => ?_
      obtain rfl | rfl : j = i ∨ j = !i := by cases i <;> cases j <;> simp
      · rw [hci, hmine]; exact hrun
      · exact hframe _ (hs _ hij) (h _)
    · refine hwrite F hs (.one i ?_ ?_)
      · rw [hci, hmine]; exact hd
      · exact (hframe _ (hwrote _ hs) (h _)).mono fun F hF => Or.inl hF
  | one k h h' =>
    obtain rfl | rfl : k = i ∨ k = !i := by cases i <;> cases k <;> simp
    · obtain ⟨hs, hd⟩ := h.step ht
      refine hkeep hs ?_
      rw [he]
      refine .one k ?_ (hframe _ (hs _ hij) h')
      rw [hci, hmine]; exact hd
    · rw [Bool.not_not] at h'
      rcases h'.step hb hpub (Or.inr he) (hbm i) (hme i) ht with ⟨hs, hrun⟩ | ⟨F, hF, hs, hd⟩
      · refine hkeep hs ?_
        rw [he]
        refine .one (!i) (hdone _ h) ?_
        rw [Bool.not_not, hci, hmine]; exact hrun
      · refine hwrite F hs (.both i hF ?_ (hdone _ h))
        rw [hci, hmine]; exact hd
  | both k hF h h' =>
    obtain rfl | rfl : k = i ∨ k = !i := by cases i <;> cases k <;> simp
    · obtain ⟨hs, hd⟩ := h.step ht
      refine hkeep hs ?_
      rw [he]
      refine .both k hF ?_ (hdone _ h')
      rw [hci, hmine]; exact hd
    · rw [Bool.not_not] at h'
      obtain ⟨hs, hd⟩ := h'.step ht
      refine hkeep hs ?_
      rw [he]
      refine .both (!i) hF (hdone _ h) ?_
      rw [Bool.not_not, hci, hmine]; exact hd

/-- The last of the two to press the button had read the list of the other, or not. -/
theorem Raced.kept_iff {G : List Uid} (hne : (me true).uid ≠ (me false).uid)
    (hf : ∀ i, (me i).uid ∉ F₀) (h : Raced me b F₀ w G) (hend : w.Finished) :
    (∀ v ∈ F₀, v ∈ G) ∧ ((∀ i, (me i).uid ∈ G) ↔
      ∃ i u, w.copies i = some u ∧ (me (!i)).uid ∈ u.followers) := by
  cases h with
  | neither h => exact absurd (hend true) (h true).not_finished
  | one i h h' => exact absurd (hend (!i)) h'.not_finished
  | @both i F hF h h' =>
    obtain ⟨u, hu, hcopy⟩ := Option.map_eq_some_iff.mp h.copy
    obtain ⟨u', hu', hcopy'⟩ := Option.map_eq_some_iff.mp h'.copy
    have hij : (me (!i)).uid ≠ (me i).uid := by
      cases i
      · exact hne
      · exact hne.symm
    have hsub : ∀ v ∈ F₀, v ∈ F := by
      rcases hF with rfl | rfl
      · exact fun v hv => hv
      · exact fun v hv => List.mem_append_left _ hv
    have hall : (∀ j, (me j).uid ∈ F ++ [(me i).uid]) ↔ (me (!i)).uid ∈ F := by
      constructor
      · intro h
        have hj := h (!i)
        simpa [hij] using hj
      · intro h j
        obtain rfl | rfl : j = i ∨ j = !i := by cases i <;> cases j <;> simp
        · simp
        · exact List.mem_append_left _ h
    refine ⟨fun v hv => List.mem_append_left _ (hsub v hv), hall.trans ⟨fun h => ?_, ?_⟩⟩
    · exact ⟨i, u, hu, hcopy ▸ h⟩
    · rintro ⟨j, u₁, hu₁, h⟩
      obtain rfl | rfl : j = i ∨ j = !i := by cases i <;> cases j <;> simp
      · obtain rfl : u = u₁ := Option.some.inj (hu.symm.trans hu₁)
        exact hcopy ▸ h
      · obtain rfl : u' = u₁ := Option.some.inj (hu'.symm.trans hu₁)
        rw [Bool.not_not, hcopy'] at h
        exact absurd h (hf i)

/-- **Whose follower is kept**: two users who do not follow the public user `b` press the button on
the page of `b`. When all is written, both are followers of `b`, with all who were followers
before, if and only if one of them had, when pressing the button, a copy of the user that lists
the other. -/
theorem followers_kept_iff (hdb : ∀ i, db.fetchUser (me i).uid = some (me i))
    (hb : db.users.lookup b = some e₀) (hpub : e₀.publicUser = true)
    (hne : (me true).uid ≠ (me false).uid) (hbm : ∀ i, b ≠ (me i).uid)
    (hme : ∀ i, b ∉ (me i).following) (hf : ∀ i, (me i).uid ∉ e₀.followers)
    {tr : List ((Bool × Label Unit Event) × Race)}
    (hrun : IsRun (fun w x w' => w.turn x = some w') (Race.start db me b) tr) :
    ∀ x ∈ tr, x.2.Finished →
      ((∃ e, x.2.shared.store.users.lookup b = some e ∧ (∀ i, (me i).uid ∈ e.followers) ∧
        ∀ v ∈ e₀.followers, v ∈ e.followers) ↔
      ∃ i u, x.2.copies i = some u ∧ (me (!i)).uid ∈ u.followers) := by
  intro x hx hend
  have hstart : Racing me b e₀.followers (Race.start db me b) :=
    racing_start (fun i => (Firestore.fetchUser_eq_some (hdb i)).2) hb hpub
  have hstep : ∀ w y w', Racing me b e₀.followers w → w.turn y = some w' →
      Racing me b e₀.followers w' := fun w y w' h hy => racing_step hne hbm hme h hy
  obtain ⟨e, he, -, hraced⟩ := hrun.invariant_of_step hstep hstart x hx
  obtain ⟨hkept, hiff⟩ := hraced.kept_iff hne hf hend
  rw [← hiff]
  constructor
  · rintro ⟨e', he', hall, -⟩
    obtain rfl : e = e' := Option.some.inj (he.symm.trans he')
    exact hall
  · exact fun hall => ⟨e, he, hall, hkept⟩

end

/-! ## Two runs -/

/-- The two users. -/
def sampleFollower (i : Bool) : User := { newUser "" with uid := if i then "ann" else "cleo" }

/-- The user whom they follow, and who has a follower. -/
def samplePublic : UserDoc := { newUser "bob" with publicUser := true, followers := ["dan"] }

def samplePages : Race :=
  Race.start
    { Firestore.empty with
      users := ((∅ : Collection Uid UserDoc).insert "bob" samplePublic).insert "ann" (newUser "")
        |>.insert "cleo" (newUser "") }
    sampleFollower "bob"

/-- The page is loaded. -/
def loadPage (i : Bool) : List (Bool × Label Unit Event) :=
  [(i, .event .viewWillAppear), (i, .deliver 0 true ())]

/-- The button is pressed, and all is written. -/
def samplePress (i : Bool) : List (Bool × Label Unit Event) :=
  [(i, .event .followButtonPressed), (i, .apply), (i, .apply)]

/-- One page is loaded when the other user has been written. -/
def sampleOneByOne : List (Bool × Label Unit Event) :=
  loadPage true ++ samplePress true ++ (loadPage false ++ samplePress false)

/-- Both pages are loaded before a button is pressed. -/
def sampleBoth : List (Bool × Label Unit Event) :=
  loadPage true ++ loadPage false ++ (samplePress true ++ samplePress false)

/-- The follower who pressed first is in the copy of the other. -/
theorem followers_kept_sample : ∃ tr ∈ play Race.turn sampleOneByOne samplePages, ∃ x ∈ tr,
    x.2.Finished ∧ ∃ e, x.2.shared.store.users.lookup "bob" = some e ∧
      (∀ i, (sampleFollower i).uid ∈ e.followers) ∧ "dan" ∈ e.followers := by
  obtain ⟨tr, htr⟩ := Option.isSome_iff_exists.mp
    (by decide +kernel : (play Race.turn sampleOneByOne samplePages).isSome)
  have hend : ∀ tr ∈ play Race.turn sampleOneByOne samplePages, ∃ x ∈ tr, x.2.Finished ∧
      ∃ u ∈ x.2.copies false, "ann" ∈ u.followers := by decide +kernel
  have hbob : ((∅ : Collection Uid UserDoc).insert "bob" samplePublic |>.insert "ann" (newUser "")
      |>.insert "cleo" (newUser "")).lookup "bob" = some samplePublic := by decide +kernel
  obtain ⟨x, hx, hfin, u, hu, hann⟩ := hend tr htr
  obtain ⟨e, he, hall, hkept⟩ := (followers_kept_iff (by decide +kernel) hbob rfl (by decide)
    (by decide) (by decide) (by decide) (isRun_of_play htr) x hx hfin).mpr ⟨false, u, hu, hann⟩
  exact ⟨tr, htr, x, hx, hfin, e, he, hall, hkept "dan" (by decide)⟩

/-- When both pages are loaded first, the follower who is written first is lost. -/
theorem follower_lost : ∃ tr, IsRun (fun w x w' => w.turn x = some w') samplePages tr ∧ ∃ x ∈ tr,
    x.2.Finished ∧ ∃ e, x.2.shared.store.users.lookup "bob" = some e ∧ "ann" ∉ e.followers := by
  obtain ⟨tr, htr⟩ := Option.isSome_iff_exists.mp
    (by decide +kernel : (play Race.turn sampleBoth samplePages).isSome)
  have hend : ∀ tr ∈ play Race.turn sampleBoth samplePages, ∃ x ∈ tr, x.2.Finished ∧
      ∃ e ∈ x.2.shared.store.users.lookup "bob", "ann" ∉ e.followers := by decide +kernel
  exact ⟨tr, isRun_of_play htr, hend tr htr⟩

end ProfilePage

end Wanderlust
