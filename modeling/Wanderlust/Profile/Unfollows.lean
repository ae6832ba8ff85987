import Wanderlust.Foundations.Handlers
import Wanderlust.Foundations.Listener
import Wanderlust.Profile.FollowingList

/-!
# Unfollowing several users

On the list of followed users, the user presses the buttons of several rows, while the documents
that earlier presses have fetched are still on their way. Each press writes the whole list, as it is
in the copy of the user when the document arrives. So the users that were unfollowed are gone from
the list in the end exactly if each document has found a copy with the list that the earlier ones
have left (`unfollowed_iff`): a list that is too long is never shortened enough (`Held.step`).
-/

namespace Wanderlust

open Async Runs

namespace FollowingList

/-- The screen with the listener of `TabBarViewController`, which traps if the user is not there. -/
def listening : Async.Program Firestore FollowingList Write (Heard (Option User) Callback) Unit
    (Hearing Event) :=
  program.listening (fun l db => db.fetchUser l.auth) fun user l =>
    user.map fun user => { l with currentUser := user }

/-- A run of the screen. -/
abbrev Screen := State Firestore FollowingList Write (Heard (Option User) Callback)

/-- The screen as the user sees it. -/
abbrev Shown := Direct Firestore FollowingList (Heard (Option User) Callback)

abbrev Step := Async.Move (Heard (Option User) Callback) Unit (Hearing Event)

/-- Whom `a` follows. -/
def followingOf (a : Uid) (db : Firestore) : Option (List Uid) :=
  (db.users.lookup a).map UserDoc.following

/-- Those of `F` whom `a` still follows, as far as their documents say. -/
def linked (F : List Uid) (a : Uid) (db : Firestore) : List Uid :=
  F.filter fun v => (db.users.lookup v).any fun d => a ∈ d.followers

/-- The row whose button is pressed. -/
def pressed (l : FollowingList) : Step → List Uid
  | .event (.event (.unfollow followingRow)) => l.following[followingRow]?.toList
  | _ => []

/-- When the document of a user arrives, the copy has the list that is in the document of the
user. -/
def UpToDate (l : FollowingList) (db : Firestore) : Step → Prop
  | .deliver (.callback (.userFetched _)) _ _ =>
    followingOf l.auth db = some l.currentUser.following
  | _ => True

/-- The document of `v` is on its way. -/
def pending (v : Uid) : Heard (Option User) Callback := .callback (.userFetched v)

/-- A list from which users of `L` have not been removed, and which is `D` or too long. -/
structure IsCopy (F L D c : List Uid) : Prop where
  of_shown : c.Sublist F
  of_linked : L.Sublist c
  current : c = D ∨ L.length < c.length

/-- A copy of the user `a` with such a list. -/
def IsUser (F L D : List Uid) (a : Uid) (user : User) : Prop :=
  user.uid = a ∧ IsCopy F L D user.following

/-- What is on its way. -/
def Expected (F L D : List Uid) (a : Uid) : Heard (Option User) Callback → Prop
  | .snapshot user => ∃ user' ∈ user, IsUser F L D a user'
  | .callback (.userFetched v) => v ∈ L
  | .callback (.currentUserRefetched u) => u = a

/-- The invariant: `F` was shown first, and `D` is in the document of `a`. No list is too short. -/
structure Held (F : List Uid) (a : Uid) (D : List Uid) (x : Shown) : Prop where
  auth : x.loc.auth = a
  otherUser : x.loc.otherUser = none
  rows : ∀ v ∈ x.loc.following, v ∈ F
  doc : followingOf a x.store = some D
  long : IsCopy F (linked F a x.store) D D
  copy : IsUser F (linked F a x.store) D a x.loc.currentUser
  bag : ∀ k ∈ x.bag, Expected F (linked F a x.store) D a k
  once : ∀ v, x.bag.count (pending v) ≤ 1

section

variable {F L D c : List Uid} {a v : Uid} {db : Firestore} {x x' : Shown} {m : Step}

theorem mem_linked : v ∈ linked F a db ↔ v ∈ F ∧ ∃ d, db.users.lookup v = some d ∧
    a ∈ d.followers := by
  simp [linked, Option.any_eq_true]

/-- When a user is unfollowed, every other list becomes too long. -/
theorem IsCopy.outdated (h : IsCopy F L D c) (hv : v ∈ L) (D' : List Uid) :
    IsCopy F (L.filter fun u => u ≠ v) D' c := by
  have hfilter : (L.filter fun u => u ≠ v).Sublist L := List.filter_sublist
  have hshorter : (L.filter fun u => u ≠ v).length < L.length := by
    refine List.length_filter_lt_length_iff_exists.mpr ⟨v, hv, by simp⟩
  have hle := h.of_linked.length_le
  exact ⟨h.of_shown, hfilter.trans h.of_linked, Or.inr (by omega)⟩

/-- The list that is written when a user is unfollowed. -/
theorem IsCopy.written (h : IsCopy F L D c) :
    IsCopy F (L.filter fun u => u ≠ v) (c.filter fun u => u ≠ v) (c.filter fun u => u ≠ v) :=
  ⟨List.filter_sublist.trans h.of_shown, h.of_linked.filter _, Or.inl rfl⟩

/-- The list that is written is right exactly if it is computed from the list in the document, and
this was right. -/
theorem IsCopy.written_iff (h : IsCopy F L D c) (hF : F.Nodup) (hv : v ∈ L) :
    (c.filter fun u => u ≠ v) = (L.filter fun u => u ≠ v) ↔ D = L ∧ D = c := by
  constructor
  · intro heq
    have hlen : ∀ {l : List Uid}, l.Nodup → v ∈ l →
        (l.filter fun u => u ≠ v).length + 1 = l.length := by
      intro l hl hmem
      have herase : (l.filter fun u => u ≠ v) = l.erase v := by
        rw [hl.erase_eq_filter]
        exact List.filter_congr fun u _ => by by_cases hu : u = v <;> simp [hu]
      rw [herase, List.length_erase_of_mem hmem]
      have := List.length_pos_of_mem hmem
      omega
    have hc := hF.sublist h.of_shown
    have hcount := congrArg List.length heq
    have h₁ := hlen hc (h.of_linked.subset hv)
    have h₂ := hlen (hc.sublist h.of_linked) hv
    have hsame : L = c := h.of_linked.eq_of_length (by omega)
    rcases h.current with rfl | hlong
    · exact ⟨hsame.symm, rfl⟩
    · rw [hsame] at hlong
      omega
  · rintro ⟨rfl, rfl⟩
    rfl

/-- What unfollowing does to the documents. -/
theorem effect_unfollow {me user : User} (hdoc : followingOf me.uid db = some D)
    (huser : db.fetchUser v = some user) (F : List Uid) (old : List Uid) :
    followingOf me.uid (effect Write.apply (unfollowUser me old user : List Cmd) db) =
        some (old.filter fun u => u ≠ v) ∧
      linked F me.uid (effect Write.apply (unfollowUser me old user : List Cmd) db) =
        (linked F me.uid db).filter fun u => u ≠ v := by
  obtain ⟨rfl, hv⟩ := Firestore.fetchUser_eq_some huser
  obtain ⟨d, hd, -⟩ := Option.map_eq_some_iff.mp hdoc
  have husers : ∀ u, (effect Write.apply (unfollowUser me old user : List Cmd) db).users.lookup u =
      (db.users.lookup u).map fun d =>
        { d with
          following := if u = me.uid then old.filter fun u => u ≠ user.uid else d.following
          followers := if u = user.uid then user.followers.filter fun u => u ≠ me.uid
            else d.followers } := by
    intro u
    refine (((Firestore.social_updateUser me.uid _ db).trans
      (Firestore.social_updateUser user.uid _ _)).users u).trans (congrArg (Option.map · _) ?_)
    funext d
    split_ifs <;> rfl
  constructor
  · unfold followingOf
    rw [husers, hd]
    simp
  · unfold linked
    rw [List.filter_filter]
    refine List.filter_congr fun u _ => ?_
    rw [husers]
    by_cases hu : u = user.uid
    · subst hu
      simp [hv]
    · cases db.users.lookup u <;> simp [hu]

/-- What is read is the list in the document. -/
theorem Held.read (h : Held F a D x) {user : User} (huser : x.store.fetchUser a = some user) :
    IsUser F (linked F a x.store) D a user := by
  obtain ⟨huid, hlookup⟩ := Firestore.fetchUser_eq_some huser
  have hdoc := h.doc
  rw [followingOf, hlookup] at hdoc
  obtain rfl : user.following = D := Option.some.inj hdoc
  exact ⟨huid, h.long⟩

theorem Held.exists_user (h : Held F a D x) : ∃ user, x.store.fetchUser a = some user := by
  obtain ⟨d, hd, -⟩ := Option.map_eq_some_iff.mp h.doc
  exact ⟨{ d with uid := a }, by rw [Firestore.fetchUser, hd]; rfl⟩

theorem Expected.outdated {k : Heard (Option User) Callback} (h : Expected F L D a k) (hv : v ∈ L)
    (hk : k ≠ pending v) (D' : List Uid) : Expected F (L.filter fun u => u ≠ v) D' a k := by
  rcases k with ⟨w⟩ | user
  · cases w with
    | userFetched w =>
      have hne : w ≠ v := by
        rintro rfl
        exact hk rfl
      exact List.mem_filter.mpr ⟨h, by simpa using hne⟩
    | currentUserRefetched u => exact h
  · obtain ⟨user', huser', huid, hcopy⟩ := h
    exact ⟨user', huser', huid, hcopy.outdated hv D'⟩

/-- The users who are neither unfollowed nor about to be. -/
def Untouched (F : List Uid) (a : Uid) (x : Shown) (v : Uid) : Prop :=
  v ∈ linked F a x.store ∧ pending v ∉ x.bag

/-- What is said of a step from `x` to `x'`, where `uptodate` says whether the list that it writes
is computed from a copy that is up to date, and `touched` whom the user unfollows. -/
def Leads (F : List Uid) (a : Uid) (D : List Uid) (x : Shown) (uptodate : Prop) (touched : List Uid)
    (x' : Shown) : Prop :=
  ∃ D', Held F a D' x' ∧
    (D' = linked F a x'.store ↔ D = linked F a x.store ∧ uptodate) ∧
    ∀ v, Untouched F a x' v ↔ Untouched F a x v ∧ v ∉ touched

/-- The documents stay as they are, and those on their way. -/
theorem Held.keep (h : Held F a D x) {l : FollowingList}
    {bag : Multiset (Heard (Option User) Callback)} (hauth : l.auth = x.loc.auth)
    (hother : l.otherUser = none) (hrows : ∀ v ∈ l.following, v ∈ F)
    (hcopy : IsUser F (linked F a x.store) D a l.currentUser)
    (hbag : ∀ k ∈ bag, k ∈ x.bag ∨ Expected F (linked F a x.store) D a k)
    (hcount : ∀ v, bag.count (pending v) = x.bag.count (pending v)) :
    Leads F a D x True [] ⟨x.store, l, bag⟩ := by
  refine ⟨D, ⟨hauth.trans h.auth, hother, hrows, h.doc, h.long, hcopy, fun k hk => ?_, fun v => ?_⟩,
    (and_iff_left trivial).symm, fun v => ?_⟩
  · exact (hbag k hk).elim (h.bag k) id
  · exact (hcount v).le.trans (h.once v)
  · have hmem : pending v ∈ bag ↔ pending v ∈ x.bag := by
      rw [← Multiset.count_pos, ← Multiset.count_pos, hcount]
    simp [Untouched, hmem]

/-- A press of a row. -/
theorem Held.pressing (h : Held F a D x) (hv : Untouched F a x v) :
    Leads F a D x True [v] { x with bag := x.bag + {pending v} } := by
  refine ⟨D, ⟨h.auth, h.otherUser, h.rows, h.doc, h.long, h.copy, fun k hk => ?_, fun u => ?_⟩,
    (and_iff_left trivial).symm, fun u => ?_⟩
  · rcases Multiset.mem_add.mp hk with hk | hk
    · exact h.bag k hk
    · obtain rfl := Multiset.mem_singleton.mp hk
      exact hv.1
  · rw [Multiset.count_add, Multiset.count_singleton]
    split
    · rename_i heq
      obtain rfl : u = v := by simpa [pending] using heq
      rw [Multiset.count_eq_zero.mpr hv.2]
    · exact h.once u
  · have hinj : pending u = pending v ↔ u = v := by simp [pending]
    simp only [Untouched, Multiset.mem_add, Multiset.mem_singleton, hinj, not_or,
      List.mem_singleton]
    exact and_assoc.symm

/-- The document of a user arrives, and both lists are written. -/
theorem Held.written (hF : F.Nodup) (h : Held F a D x)
    {rest : Multiset (Heard (Option User) Callback)} (hb : x.bag = pending v ::ₘ rest) {user : User}
    (huser : x.store.fetchUser v = some user) :
    Leads F a D x (followingOf x.loc.auth x.store = some x.loc.currentUser.following) []
      ⟨effect Write.apply (unfollowUser x.loc.currentUser x.loc.currentUser.following user :
        List Cmd) x.store, x.loc, rest + {.callback (.currentUserRefetched x.loc.auth)}⟩ := by
  have hv : v ∈ linked F a x.store := h.bag (pending v) (hb ▸ Multiset.mem_cons_self _ _)
  have hdoc : followingOf x.loc.currentUser.uid x.store = some D := by
    rw [h.copy.1]
    exact h.doc
  obtain ⟨hfollowing, hlinked⟩ :=
    effect_unfollow hdoc huser F x.loc.currentUser.following
  rw [h.copy.1] at hfollowing hlinked
  have hrest : pending v ∉ rest := by
    have honce := h.once v
    rw [hb, Multiset.count_cons_self] at honce
    exact Multiset.count_eq_zero.mp (by omega)
  refine ⟨_, ⟨h.auth, h.otherUser, h.rows, hfollowing, ?_, ?_, fun k hk => ?_, fun u => ?_⟩, ?_,
    fun u => ?_⟩
  · rw [hlinked]
    exact h.copy.2.written
  · rw [hlinked]
    exact ⟨h.copy.1, h.copy.2.outdated hv _⟩
  · rw [hlinked]
    rcases Multiset.mem_add.mp hk with hk | hk
    · have hne : k ≠ pending v := by
        rintro rfl
        exact hrest hk
      exact (h.bag k (hb ▸ Multiset.mem_cons_of_mem hk)).outdated hv hne _
    · obtain rfl := Multiset.mem_singleton.mp hk
      exact h.auth
  · have hle : rest.count (pending u) ≤ x.bag.count (pending u) := by
      rw [hb]
      exact Multiset.count_le_count_cons _ _ _
    rw [Multiset.count_add, Multiset.count_singleton, if_neg (by simp [pending])]
    exact hle.trans (h.once u)
  · rw [hlinked, h.auth, h.doc, Option.some.injEq]
    exact h.copy.2.written_iff hF hv
  · have hinj : pending u = pending v ↔ u = v := by simp [pending]
    have hnew : pending u ≠ .callback (.currentUserRefetched x.loc.auth) := by simp [pending]
    simp only [Untouched, hlinked, hb, Multiset.mem_cons, hinj, List.mem_filter,
      decide_eq_true_eq, Multiset.mem_add, Multiset.mem_singleton, hnew, or_false,
      List.not_mem_nil, not_false_eq_true, and_true, not_or, ne_eq]
    exact and_assoc

/-- **One step**: no list becomes too short, the list in the document stays right exactly if it was
right and the step finds a copy that is up to date, and only a press touches a user. -/
theorem Held.step (hF : F.Nodup) (h : Held F a D x)
    (hfresh : ∀ v ∈ pressed x.loc m, Untouched F a x v) (hs : DirectStep listening x m x') :
    Leads F a D x (UpToDate x.loc x.store m) (pressed x.loc m) x' := by
  have hless : ∀ {k : Heard (Option User) Callback} {rest}, x.bag = k ::ₘ rest →
      (∀ v, k ≠ pending v) → (∀ k' ∈ rest, k' ∈ x.bag) ∧
        ∀ v, rest.count (pending v) = x.bag.count (pending v) := by
    intro k rest hb hk
    rw [hb]
    exact ⟨fun k' => Multiset.mem_cons_of_mem,
      fun v => (Multiset.count_cons_of_ne (hk v).symm rest).symm⟩
  cases listening_step hs with
  | @event e r he =>
    cases e with
    | viewWillAppear =>
      cases he
      have hother : (viewWillAppear x.loc).otherUser = none := by
        simp [viewWillAppear, h.otherUser]
      have hrows : (viewWillAppear x.loc).following = x.loc.currentUser.following := by
        simp [viewWillAppear, h.otherUser]
      exact h.keep rfl hother (fun v hv => h.copy.2.of_shown.subset (hrows ▸ hv)) h.copy
        (fun k hk => Or.inl (by simpa using hk)) fun v => by simp
    | unfollow followingRow =>
      change (if x.loc.otherUser = none then
        x.loc.following[followingRow]?.map fun uid => (x.loc, [.request (.userFetched uid)])
        else none) = some r at he
      rw [if_pos h.otherUser] at he
      obtain ⟨v, hv, rfl⟩ := Option.map_eq_some_iff.mp he
      have hrow : pressed x.loc (.event (.event (.unfollow followingRow))) = [v] := by
        simp [pressed, hv]
      rw [hrow] at hfresh ⊢
      exact h.pressing (hfresh v List.mem_cons_self)
    | currentUserFetched =>
      obtain ⟨user, huser⟩ := h.exists_user
      simp only [program, event, h.copy.1, huser] at he
      cases he
      exact h.keep rfl h.otherUser h.rows (h.read huser)
        (fun k hk => Or.inl (by simpa using hk)) fun v => by simp
  | read =>
    obtain ⟨user, huser⟩ := h.exists_user
    refine h.keep rfl h.otherUser h.rows h.copy (fun k hk => ?_) fun v => ?_
    · rcases Multiset.mem_cons.mp hk with rfl | hk
      · rw [h.auth]
        exact Or.inr ⟨user, huser, h.read huser⟩
      · exact Or.inl hk
    · exact Multiset.count_cons_of_ne (by simp [pending]) _
  | @deliver k ok b rest r hb hr =>
    cases k with
    | userFetched v =>
      simp only [program, react] at hr
      split at hr <;> cases hr
      rename_i user huser
      have huser' : x.store.fetchUser v = some user := by
        split at huser
        · exact huser
        · cases huser
      exact h.written hF hb huser'
    | currentUserRefetched u =>
      obtain rfl : u = a := h.bag (.callback (.currentUserRefetched u))
        (hb ▸ Multiset.mem_cons_self _ _)
      simp only [program, react] at hr
      split at hr <;> cases hr
      rename_i user huser
      have huser' : x.store.fetchUser u = some user := by
        split at huser
        · exact huser
        · cases huser
      have hread := h.read huser'
      obtain ⟨hmem, hcount⟩ := hless hb (by simp [pending])
      exact h.keep rfl h.otherUser (fun v hv => hread.2.of_shown.subset hv) hread
        (fun k hk => Or.inl (hmem k (by simpa using hk))) fun v => by simpa using hcount v
  | @refresh user ok b rest l hb hl =>
    obtain ⟨hmem, hcount⟩ := hless hb (by simp [pending])
    split at hl
    · obtain ⟨user', huser', rfl⟩ := Option.map_eq_some_iff.mp hl
      obtain ⟨user'', huser'', hcopy⟩ := h.bag (.snapshot user) (hb ▸ Multiset.mem_cons_self _ _)
      obtain rfl := Option.some.inj (huser'.symm.trans huser'')
      exact h.keep rfl h.otherUser h.rows hcopy (fun k hk => Or.inl (hmem k hk)) hcount
    · obtain rfl := Option.some.inj hl
      exact h.keep rfl h.otherUser h.rows h.copy (fun k hk => Or.inl (hmem k hk)) hcount

end

/-! ## A whole run -/

/-- A step of the screen, whose writes are not rejected. -/
def Turn (st : Screen) (lbl : Label Unit (Hearing Event)) (st' : Screen) : Prop :=
  listening.turn st lbl = some st'

/-- Whom a step unfollows. -/
def unfollows (st : Screen) (lbl : Label Unit (Hearing Event)) : List Uid :=
  (st.move lbl).toList.flatMap (pressed st.loc)

/-- If the document of a user arrives in a step, the copy is up to date. -/
def Careful (st : Screen) (lbl : Label Unit (Hearing Event)) : Prop :=
  ∀ m ∈ st.move lbl, UpToDate st.loc (listening.view st) m

/-- The screen when it has appeared. -/
def appeared (db : Firestore) (me : User) : Screen := start db (opened me.uid me none)

section

variable {F D : List Uid} {a v : Uid} {db : Firestore} {me : User} {st st' : Screen}
  {lbl : Label Unit (Hearing Event)} {tr : List (Label Unit (Hearing Event) × Screen)}

theorem Held.turn (hF : F.Nodup) (h : Held F a D (listening.direct st))
    (hfresh : ∀ v ∈ unfollows st lbl, Untouched F a (listening.direct st) v)
    (hs : Turn st lbl st') :
    Leads F a D (listening.direct st) (Careful st lbl) (unfollows st lbl)
      (listening.direct st') := by
  unfold unfollows Careful at *
  rcases turn_move hs with ⟨hnone, hsame⟩ | ⟨m, hm, hd⟩
  · rw [hsame, hnone]
    refine ⟨D, h, (and_iff_left fun m hm => ?_).symm, fun v => ?_⟩
    · cases hm
    · simp
  · rw [hm] at hfresh ⊢
    simp only [Option.toList_some, List.flatMap_singleton, Option.mem_def, Option.some.injEq,
      forall_eq'] at hfresh ⊢
    exact h.step hF hfresh hd

theorem mem_of_pressed (h : Held F a D (listening.direct st)) (hv : v ∈ unfollows st lbl) :
    v ∈ F := by
  obtain ⟨m, -, hv⟩ := List.mem_flatMap.mp hv
  unfold pressed at hv
  split at hv
  · exact h.rows v (List.mem_of_getElem? (Option.mem_toList.mp hv))
  · cases hv

/-- All the users that were shown are untouched when the screen has appeared. -/
theorem Held.start (hme : db.fetchUser me.uid = some me)
    (hmutual : ∀ v ∈ me.following, ∃ d, db.users.lookup v = some d ∧ me.uid ∈ d.followers) :
    linked me.following me.uid db = me.following ∧
      Held me.following me.uid me.following (listening.direct (appeared db me)) := by
  have hall : linked me.following me.uid db = me.following := by
    refine List.filter_eq_self.mpr fun v hv => ?_
    obtain ⟨d, hd, hmem⟩ := hmutual v hv
    simp [hd, hmem]
  have hcopy : IsCopy me.following (linked me.following me.uid db) me.following me.following := by
    rw [hall]
    exact ⟨.refl _, .refl _, Or.inl rfl⟩
  refine ⟨hall, rfl, rfl, fun v hv => hv, ?_, hcopy, ⟨rfl, hcopy⟩, fun k hk => ?_, fun v => ?_⟩
  · show (db.users.lookup me.uid).map UserDoc.following = some me.following
    rw [(Firestore.fetchUser_eq_some hme).2]
    rfl
  · exact absurd hk (Multiset.notMem_zero k)
  · exact Nat.zero_le 1

/-- Whom a run unfollows is touched, and was not before. -/
theorem touched_of_run (hF : F.Nodup) (hrun : IsRun Turn st tr)
    (hstart : Held F a D (listening.direct st))
    (huntouched : ∀ v ∈ F, Untouched F a (listening.direct st) v)
    (hdifferent : (collect unfollows st tr).Nodup) :
    (∀ v, v ∈ collect unfollows st tr ↔
      v ∈ F ∧ ¬Untouched F a (listening.direct (final st tr)) v) ∧
    Meets (fun st lbl => ∀ v ∈ unfollows st lbl, Untouched F a (listening.direct st) v) st tr := by
  have hlog : (_ ∧ ∀ v, v ∈ [] ++ collect unfollows st tr ↔ v ∈ F ∧
      ¬Untouched F a (listening.direct (final st tr)) v) ∧ Meets (fun st lbl =>
        ∀ v ∈ unfollows st lbl, Untouched F a (listening.direct st) v) st tr := hrun.collect_nodup
    (I := fun vs st => (∃ D, Held F a D (listening.direct st)) ∧
      ∀ v, v ∈ vs ↔ v ∈ F ∧ ¬Untouched F a (listening.direct st) v)
    (fun vs st lbl st' hI hs hvs' => by
      obtain ⟨⟨D, hD⟩, hvs⟩ := hI
      have hnew : ∀ v ∈ unfollows st lbl, v ∈ F ∧ Untouched F a (listening.direct st) v := by
        intro v hv
        have hmem := mem_of_pressed hD hv
        have hnot : v ∉ vs := fun hold => (List.nodup_append.mp hvs').2.2 v hold v hv rfl
        exact ⟨hmem, by_contra fun h => hnot ((hvs v).mpr ⟨hmem, h⟩)⟩
      obtain ⟨D', hD', -, huntouched⟩ := hD.turn hF (fun v hv => (hnew v hv).2) hs
      refine ⟨⟨⟨D', hD'⟩, fun v => ?_⟩, fun v hv => (hnew v hv).2⟩
      rw [List.mem_append, hvs, huntouched, not_and_or, not_not, and_or_left]
      refine or_congr_right ?_
      exact ⟨fun hv => ⟨(hnew v hv).1, hv⟩, fun hv => hv.2⟩)
    ⟨⟨D, hstart⟩, fun v => by simpa using huntouched v⟩ hdifferent
  rw [List.nil_append] at hlog
  exact ⟨hlog.1.2, hlog.2⟩

/-- The list in the document ends right exactly if every document finds a copy that is up to
date. -/
theorem right_iff (hF : F.Nodup) (hrun : IsRun Turn st tr)
    (hstart : Held F a D (listening.direct st))
    (hfresh : Meets (fun st lbl => ∀ v ∈ unfollows st lbl, Untouched F a (listening.direct st) v)
      st tr) :
    followingOf a (listening.view (final st tr)) =
        some (linked F a (listening.view (final st tr))) ↔
      followingOf a (listening.view st) = some (linked F a (listening.view st)) ∧
        Meets Careful st tr :=
  hrun.final_iff_meets
    (I := fun st => ∃ D, Held F a D (listening.direct st))
    (G := fun st => followingOf a (listening.view st) = some (linked F a (listening.view st)))
    (fun st lbl st' hI hs hnew => by
      obtain ⟨D, hD⟩ := hI
      obtain ⟨D', hD', hiff, -⟩ := hD.turn hF hnew hs
      refine ⟨⟨D', hD'⟩, ?_⟩
      have hdoc : followingOf a (listening.view st) = some D := hD.doc
      have hdoc' : followingOf a (listening.view st') = some D' := hD'.doc
      rw [hdoc, hdoc', Option.some.injEq, Option.some.injEq]
      exact hiff)
    ⟨D, hstart⟩ hfresh

/-- **What unfollowing several users comes to**: when all that the presses on different rows started
is done, the list of the user is the one that was shown without the users that were unfollowed, and
none of these has the user among the followers, exactly if every document that arrived found a copy
that was up to date. -/
theorem unfollowed_iff (hme : db.fetchUser me.uid = some me) (hnodup : me.following.Nodup)
    (hmutual : ∀ v ∈ me.following, ∃ d, db.users.lookup v = some d ∧ me.uid ∈ d.followers)
    (hrun : IsRun Turn (appeared db me) tr)
    (hdifferent : (collect unfollows (appeared db me) tr).Nodup)
    (hq : Quiescent (final (appeared db me) tr)) :
    (followingOf me.uid (final (appeared db me) tr).store =
        some (me.following.filter fun v => v ∉ collect unfollows (appeared db me) tr) ∧
      ∀ v ∈ collect unfollows (appeared db me) tr,
        ∀ d ∈ (final (appeared db me) tr).store.users.lookup v, me.uid ∉ d.followers) ↔
    Meets Careful (appeared db me) tr := by
  obtain ⟨hall, hstart⟩ := Held.start hme hmutual
  have huntouched : ∀ v ∈ me.following, Untouched me.following me.uid
      (listening.direct (appeared db me)) v := by
    intro v hv
    have hmem : v ∈ linked me.following me.uid db := hall.symm ▸ hv
    exact ⟨hmem, Multiset.notMem_zero _⟩
  obtain ⟨htouched, hfresh⟩ := touched_of_run hnodup hrun hstart huntouched hdifferent
  have hiff := right_iff hnodup hrun hstart hfresh
  have hgood : followingOf me.uid (listening.view (appeared db me)) =
      some (linked me.following me.uid (listening.view (appeared db me))) :=
    hstart.doc.trans (congrArg some hall.symm)
  have hview : listening.view (final (appeared db me) tr) = (final (appeared db me) tr).store :=
    congrArg Direct.store (hq.direct (P := listening))
  rw [hview] at hiff
  have hrest : ∀ v, v ∈ collect unfollows (appeared db me) tr ↔
      v ∈ me.following ∧ v ∉ linked me.following me.uid (final (appeared db me) tr).store := by
    intro v
    rw [htouched, Untouched, hq.direct]
    simp
  have hleft : me.following.filter (fun v => v ∉ collect unfollows (appeared db me) tr) =
      linked me.following me.uid (final (appeared db me) tr).store := by
    refine List.filter_congr fun v hv => ?_
    have hmem : v ∈ linked me.following me.uid (final (appeared db me) tr).store ↔
        ((final (appeared db me) tr).store.users.lookup v).any (fun d => me.uid ∈ d.followers) :=
      List.mem_filter.trans (and_iff_right hv)
    rw [← Bool.coe_iff_coe, ← hmem, decide_eq_true_eq, hrest]
    tauto
  have hend := hiff.trans (and_iff_right hgood)
  rw [hleft, ← hend, and_iff_left_iff_imp]
  intro _ v hv d hd hmem
  exact ((hrest v).mp hv).2 (mem_linked.mpr ⟨((hrest v).mp hv).1, d, hd, hmem⟩)

end

/-- Ann follows Bob and Carl, and is followed by both of them. -/
def followedStore : Firestore where
  users := AList.insert "ann" { newUser "ann" with following := ["bob", "carl"] }
    (AList.insert "bob" { newUser "bob" with followers := ["ann"] }
      (AList.insert "carl" { newUser "carl" with followers := ["ann"] } ∅))
  trips := ∅
  entries := ∅
  newsfeed := ∅

/-- Ann, when her list appears. -/
def followedMe : User := { newUser "ann" with following := ["bob", "carl"], uid := "ann" }

/-- Bob's document arrives before Carl's button is pressed. -/
def oneByOne : List (Label Unit (Hearing Event)) :=
  [.event (.event (.unfollow 0)), .deliver 0 true (), .deliver 0 true (), .apply, .apply,
    .event (.event (.unfollow 0)), .deliver 0 true (), .apply, .apply, .deliver 0 true ()]

/-- Carl's button is pressed before Bob's document arrives. -/
def bothAtOnce : List (Label Unit (Hearing Event)) :=
  [.event (.event (.unfollow 0)), .event (.event (.unfollow 1)), .deliver 0 true (),
    .deliver 0 true (), .apply, .apply, .apply, .apply, .deliver 0 true (), .deliver 0 true ()]

/-- Both users are unfollowed, one after the other. -/
theorem unfollowed_iff_sample : ∃ tr, IsRun Turn (appeared followedStore followedMe) tr ∧
    collect unfollows (appeared followedStore followedMe) tr = ["bob", "carl"] ∧
    followingOf "ann" (final (appeared followedStore followedMe) tr).store = some [] ∧
    Meets Careful (appeared followedStore followedMe) tr := by
  obtain ⟨tr, htr, hunfollows, hq, hnone⟩ :
      ∃ tr ∈ play listening.turn oneByOne (appeared followedStore followedMe),
        collect unfollows (appeared followedStore followedMe) tr = ["bob", "carl"] ∧
        Quiescent (final (appeared followedStore followedMe) tr) ∧
        (followingOf "ann" (final (appeared followedStore followedMe) tr).store = some [] ∧
          ∀ v ∈ ["bob", "carl"],
            ∀ d ∈ (final (appeared followedStore followedMe) tr).store.users.lookup v,
              "ann" ∉ d.followers) := by
    decide +kernel
  have hmutual : ∀ v ∈ followedMe.following, ∃ d, followedStore.users.lookup v = some d ∧
      followedMe.uid ∈ d.followers := by
    decide +kernel
  have hrun := isRun_of_play htr
  have hme : followedStore.fetchUser followedMe.uid = some followedMe := rfl
  have hiff := unfollowed_iff hme (by decide) hmutual hrun
    (by rw [hunfollows]; decide) hq
  rw [hunfollows] at hiff
  exact ⟨tr, hrun, hunfollows, hnone.1, hiff.mp hnone⟩

/-- Bob is still followed. -/
theorem unfollow_undone : ∃ tr, IsRun Turn (appeared followedStore followedMe) tr ∧
    collect unfollows (appeared followedStore followedMe) tr = ["bob", "carl"] ∧
    Quiescent (final (appeared followedStore followedMe) tr) ∧
    followingOf "ann" (final (appeared followedStore followedMe) tr).store = some ["bob"] := by
  obtain ⟨tr, htr, hend⟩ :
      ∃ tr ∈ play listening.turn bothAtOnce (appeared followedStore followedMe),
        collect unfollows (appeared followedStore followedMe) tr = ["bob", "carl"] ∧
        Quiescent (final (appeared followedStore followedMe) tr) ∧
        followingOf "ann" (final (appeared followedStore followedMe) tr).store = some ["bob"] := by
    decide +kernel
  exact ⟨tr, isRun_of_play htr, hend⟩

end FollowingList

end Wanderlust
