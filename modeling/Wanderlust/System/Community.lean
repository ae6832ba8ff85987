import Wanderlust.Foundations.Simulation
import Wanderlust.System.Social

/-!
# The community

What the app is about, without documents: who is a member, whose account is private, who follows
whom and who has asked to, who owns which trip and which entries it holds. These are sets and
relations, and what members do changes them by an element (`Deed`).

Every run of the app, seen so, is a run of deeds (`community_of_run`). In such a run, the last deed
that was about something has decided it (`decided_of_run`).
-/

namespace Wanderlust

open Runs

/-! ## Deeds -/

/-- The members, and what there is between them. -/
@[ext]
structure Community where
  members : Set Uid
  /-- The private accounts. -/
  hidden : Set Uid
  /-- `(a, b)`: `a` follows `b`. -/
  follows : Set (Uid × Uid)
  /-- `(a, b)`: `a` has asked to follow `b`. -/
  asks : Set (Uid × Uid)
  owns : Set (Uid × TripID)
  holds : Set (TripID × EntryID)

/-- Nobody is a member. -/
def Community.empty : Community := ⟨∅, ∅, ∅, ∅, ∅, ∅⟩

inductive Deed
  | join (a : Uid)
  | follow (a b : Uid)
  | ask (a b : Uid)
  | unfollow (a b : Uid)
  /-- `a` accepts `b`. -/
  | accept (a b : Uid)
  | deny (a b : Uid)
  | hide (a : Uid)
  | unhide (a : Uid)
  | publish (a : Uid) (t : TripID) (ids : List EntryID)
  | remove (a : Uid) (t : TripID)
  /-- Something that does not matter here. -/
  | other

namespace Deed

/-- When a deed can be done. -/
def Allowed (c : Community) : Deed → Prop
  | join a => a ∉ c.members
  | follow a b => a ≠ b ∧ a ∈ c.members ∧ b ∈ c.members \ c.hidden ∧ (a, b) ∉ c.follows
  | ask a b => a ≠ b ∧ a ∈ c.members ∧ b ∈ c.hidden ∧ (a, b) ∉ c.follows
  | unfollow a b => (a, b) ∈ c.follows
  | accept a b | deny a b => (b, a) ∈ c.asks
  | hide a | unhide a => a ∈ c.members
  | publish a t ids => a ∈ c.members ∧ (∀ u, (u, t) ∈ c.owns → u = a) ∧ ids.Nodup ∧
      ∀ id ∈ ids, ∀ t', (t', id) ∈ c.holds → t' = t
  | remove a t => (a, t) ∈ c.owns
  | other => True

/-- What it changes. -/
def apply (c : Community) : Deed → Community
  | join a => { c with members := insert a c.members, hidden := insert a c.hidden }
  | follow a b => { c with follows := insert (a, b) c.follows }
  | ask a b => { c with asks := insert (a, b) c.asks }
  | unfollow a b => { c with follows := c.follows \ {(a, b)} }
  | accept a b =>
    { c with follows := insert (b, a) c.follows, asks := c.asks \ {(b, a)} }
  | deny a b => { c with asks := c.asks \ {(b, a)} }
  | hide a => { c with hidden := insert a c.hidden }
  | unhide a => { c with hidden := c.hidden \ {a} }
  | publish a t ids =>
    { c with
      owns := insert (a, t) c.owns
      holds := { p | if p.1 = t then p.2 ∈ ids else p ∈ c.holds } }
  | remove a t => { c with owns := c.owns \ {(a, t)}, holds := { p ∈ c.holds | p.1 ≠ t } }
  | other => c

end Deed

/-- A deed is done. -/
def Does (c : Community) (deed : Deed) (c' : Community) : Prop :=
  deed.Allowed c ∧ c' = deed.apply c

/-! ## What deeds decide -/

namespace Deed

/-- What a deed decides of whether `a` follows `b`. -/
def followed (a b : Uid) : Deed → Option Bool
  | follow a' b' | accept b' a' => if (a', b') = (a, b) then some true else none
  | unfollow a' b' => if (a', b') = (a, b) then some false else none
  | _ => none

/-- What a deed decides of whether `b` has a request by `a`. -/
def asked (a b : Uid) : Deed → Option Bool
  | ask a' b' => if (a', b') = (a, b) then some true else none
  | accept b' a' | deny b' a' => if (a', b') = (a, b) then some false else none
  | _ => none

/-- What a deed decides of whether the account of `a` is private. -/
def hidden (a : Uid) : Deed → Option Bool
  | join a' | hide a' => if a' = a then some true else none
  | unhide a' => if a' = a then some false else none
  | _ => none

/-- What a deed decides of whether `t` is a trip of `a`. -/
def owned (a : Uid) (t : TripID) : Deed → Option Bool
  | publish a' t' _ => if (a', t') = (a, t) then some true else none
  | remove a' t' => if (a', t') = (a, t) then some false else none
  | _ => none

/-- What a deed decides of whether the trip `t` holds the entry `id`. -/
def held (t : TripID) (id : EntryID) : Deed → Option Bool
  | publish _ t' ids => if t' = t then some (decide (id ∈ ids)) else none
  | remove _ t' => if t' = t then some false else none
  | _ => none

end Deed

section

variable {c c' : Community} {deed : Deed}

theorem Does.follows_iff (h : Does c deed c') (a b : Uid) :
    (a, b) ∈ c'.follows ↔ deed.followed a b = some true ∨
      deed.followed a b = none ∧ (a, b) ∈ c.follows := by
  obtain ⟨-, rfl⟩ := h
  cases deed with
  | follow a' b' => exact mem_insert_iff_verdict (a', b') (a, b) c.follows
  | accept b' a' => exact mem_insert_iff_verdict (a', b') (a, b) c.follows
  | unfollow a' b' => exact mem_sdiff_iff_verdict (a', b') (a, b) c.follows
  | _ => simp [Deed.apply, Deed.followed]

theorem Does.asks_iff (h : Does c deed c') (a b : Uid) :
    (a, b) ∈ c'.asks ↔ deed.asked a b = some true ∨
      deed.asked a b = none ∧ (a, b) ∈ c.asks := by
  obtain ⟨-, rfl⟩ := h
  cases deed with
  | ask a' b' => exact mem_insert_iff_verdict (a', b') (a, b) c.asks
  | accept b' a' => exact mem_sdiff_iff_verdict (a', b') (a, b) c.asks
  | deny b' a' => exact mem_sdiff_iff_verdict (a', b') (a, b) c.asks
  | _ => simp [Deed.apply, Deed.asked]

theorem Does.hidden_iff (h : Does c deed c') (a : Uid) :
    a ∈ c'.hidden ↔ deed.hidden a = some true ∨ deed.hidden a = none ∧ a ∈ c.hidden := by
  obtain ⟨-, rfl⟩ := h
  cases deed with
  | join a' => exact mem_insert_iff_verdict a' a c.hidden
  | hide a' => exact mem_insert_iff_verdict a' a c.hidden
  | unhide a' => exact mem_sdiff_iff_verdict a' a c.hidden
  | _ => simp [Deed.apply, Deed.hidden]

theorem Does.owns_iff (h : Does c deed c') (a : Uid) (t : TripID) :
    (a, t) ∈ c'.owns ↔ deed.owned a t = some true ∨
      deed.owned a t = none ∧ (a, t) ∈ c.owns := by
  obtain ⟨-, rfl⟩ := h
  cases deed with
  | publish a' t' ids => exact mem_insert_iff_verdict (a', t') (a, t) c.owns
  | remove a' t' => exact mem_sdiff_iff_verdict (a', t') (a, t) c.owns
  | _ => simp [Deed.apply, Deed.owned]

theorem Does.holds_iff (h : Does c deed c') (t : TripID) (id : EntryID) :
    (t, id) ∈ c'.holds ↔ deed.held t id = some true ∨
      deed.held t id = none ∧ (t, id) ∈ c.holds := by
  obtain ⟨-, rfl⟩ := h
  cases deed with
  | publish a' t' ids =>
    by_cases ht : t' = t
    · simp [Deed.apply, Deed.held, ht]
    · simp [Deed.apply, Deed.held, ht, Ne.symm ht]
  | remove a' t' =>
    by_cases ht : t' = t
    · simp [Deed.apply, Deed.held, ht]
    · simp [Deed.apply, Deed.held, ht, Ne.symm ht]
  | _ => simp [Deed.apply, Deed.held]

/-- What the last words of a list of deeds say is so. -/
structure Decided (deeds : List Deed) (c : Community) : Prop where
  follows : ∀ a b, (a, b) ∈ c.follows ↔ LastWord (Deed.followed a b) deeds
  asks : ∀ a b, (a, b) ∈ c.asks ↔ LastWord (Deed.asked a b) deeds
  hidden : ∀ a, a ∈ c.hidden ↔ LastWord (Deed.hidden a) deeds
  owns : ∀ a t, (a, t) ∈ c.owns ↔ LastWord (Deed.owned a t) deeds
  holds : ∀ t id, (t, id) ∈ c.holds ↔ LastWord (Deed.held t id) deeds

/-- **All is decided by the last word.** -/
theorem decided_of_isRun {tr : List (Deed × Community)} (h : IsRun Does .empty tr) :
    Decided (tr.map Prod.fst) (final .empty tr) where
  follows a b := h.lastWord (fun c => (a, b) ∈ c.follows) (Deed.followed a b)
    (fun _ _ _ hd => hd.follows_iff a b) (Set.notMem_empty _)
  asks a b := h.lastWord (fun c => (a, b) ∈ c.asks) (Deed.asked a b)
    (fun _ _ _ hd => hd.asks_iff a b) (Set.notMem_empty _)
  hidden a := h.lastWord (fun c => a ∈ c.hidden) (Deed.hidden a)
    (fun _ _ _ hd => hd.hidden_iff a) (Set.notMem_empty _)
  owns a t := h.lastWord (fun c => (a, t) ∈ c.owns) (Deed.owned a t)
    (fun _ _ _ hd => hd.owns_iff a t) (Set.notMem_empty _)
  holds t id := h.lastWord (fun c => (t, id) ∈ c.holds) (Deed.held t id)
    (fun _ _ _ hd => hd.holds_iff t id) (Set.notMem_empty _)

end

/-! ## The community of a database -/

/-- What the documents say. -/
def Firestore.community (db : Firestore) : Community where
  members := { u | ∃ d, db.users.lookup u = some d }
  hidden := { u | ∃ d, db.users.lookup u = some d ∧ d.publicUser = false }
  follows := { p | ∃ d, db.users.lookup p.2 = some d ∧ p.1 ∈ d.followers }
  asks := { p | ∃ d, db.users.lookup p.2 = some d ∧ p.1 ∈ d.requests }
  owns := { p | ∃ d, db.trips.lookup p.2 = some d ∧ d.userID = p.1 }
  holds := { p | ∃ d, db.trips.lookup p.1 = some d ∧ p.2 ∈ d.entries }

/-- The deeds that an action can come to. -/
inductive Names : Action → Deed → Prop
  | signUp (uid : Uid) (username : String) : Names (.signUp uid username) (.join uid)
  | follow (a b : Uid) : Names (.followButtonPressed a b) (.follow a b)
  | ask (a b : Uid) : Names (.followButtonPressed a b) (.ask a b)
  | unfollow (a b : Uid) : Names (.followButtonPressed a b) (.unfollow a b)
  | unlist (a b : Uid) (followingRow : ℕ) : Names (.unfollow a followingRow) (.unfollow a b)
  | accept (a b : Uid) (requestRow : ℕ) : Names (.acceptRequest a requestRow) (.accept a b)
  | deny (a b : Uid) (requestRow : ℕ) : Names (.denyRequest a requestRow) (.deny a b)
  | hide (a : Uid) : Names (.switchToggled a true) (.hide a)
  | unhide (a : Uid) : Names (.switchToggled a false) (.unhide a)
  | publish (a : Uid) (t : TripID) (screen : EditTrip) :
    Names (.saveTrip a screen) (.publish a t screen.ids)
  | edit (a : Uid) (id : EntryID) : Names (.editEntry a id) .other
  | remove (a : Uid) (t : TripID) : Names (.deleteTrip a t) (.remove a t)
  /-- A trip without a cover cannot be read, and is not deleted. -/
  | keep (a : Uid) (t : TripID) : Names (.deleteTrip a t) .other

section

variable {db db' : Firestore} {f : Uid → UserDoc → UserDoc}
  {feed : Collection (Uid × EntryID) FeedDoc} {a b : Uid} {d e : UserDoc}

/-- What users do to each other. -/
theorem community_social (h : Firestore.Social f feed db db') :
    db'.community =
      { db.community with
        hidden := { u | ∃ d, db.users.lookup u = some d ∧ (f u d).publicUser = false }
        follows := { p | ∃ d, db.users.lookup p.2 = some d ∧ p.1 ∈ (f p.2 d).followers }
        asks := { p | ∃ d, db.users.lookup p.2 = some d ∧ p.1 ∈ (f p.2 d).requests } } := by
  simp only [Firestore.community, h.users, h.trips, Option.map_eq_some_iff]
  simp

/-- Users are as they were, but for what the community does not know of. -/
theorem community_users {g : Uid → UserDoc → UserDoc}
    (h : ∀ u, db'.users.lookup u = (db.users.lookup u).map (g u))
    (hg : ∀ u d, (g u d).publicUser = d.publicUser ∧ (g u d).followers = d.followers ∧
      (g u d).requests = d.requests) :
    db'.community =
      { db.community with owns := db'.community.owns, holds := db'.community.holds } := by
  ext p
  · simp [Firestore.community, h]
  · simp [Firestore.community, h, hg]
  · simp [Firestore.community, h, hg]
  · simp [Firestore.community, h, hg]
  · rfl
  · rfl

theorem community_link (hb : db.users.lookup b = some e)
    (h : Firestore.Social (link a b) feed db db') :
    db'.community = (Deed.follow a b).apply db.community := by
  rw [community_social h]
  ext p
  · rfl
  · rfl
  · obtain ⟨a', b'⟩ := p
    by_cases hb' : b' = b
    · subst hb'
      simp [Deed.apply, Firestore.community, link, hb, or_comm]
    · simp [Deed.apply, Firestore.community, link, hb']
  · rfl
  · rfl
  · rfl

theorem community_ask (hb : db.users.lookup b = some e)
    (h : Firestore.Social (ask a b) feed db db') :
    db'.community = (Deed.ask a b).apply db.community := by
  rw [community_social h]
  ext p
  · rfl
  · rfl
  · rfl
  · obtain ⟨a', b'⟩ := p
    by_cases hb' : b' = b
    · subst hb'
      by_cases ha : a ∈ e.requests
      · simp [Deed.apply, Firestore.community, ask, hb, ha]
      · simp [Deed.apply, Firestore.community, ask, hb, ha, or_comm]
    · simp [Deed.apply, Firestore.community, ask, hb']
  · rfl
  · rfl

theorem community_unlink (h : Firestore.Social (unlink a b) feed db db') :
    db'.community = (Deed.unfollow a b).apply db.community := by
  rw [community_social h]
  ext p
  · rfl
  · rfl
  · obtain ⟨a', b'⟩ := p
    by_cases hb' : b' = b
    · subst hb'
      simp only [Deed.apply, Firestore.community, unlink, Set.mem_sdiff,
        Set.mem_ofPred_eq, Set.mem_singleton_iff, Prod.mk.injEq, and_true, if_true, List.mem_filter,
        decide_eq_true_eq, ← and_assoc, exists_and_right]
    · simp [Deed.apply, Firestore.community, unlink, hb']
  · rfl
  · rfl
  · rfl

theorem community_dismiss (h : Firestore.Social (dismiss b a) feed db db') :
    db'.community = (Deed.deny a b).apply db.community := by
  rw [community_social h]
  ext p
  · rfl
  · rfl
  · rfl
  · obtain ⟨b', a'⟩ := p
    by_cases ha' : a' = a
    · subst ha'
      simp only [Deed.apply, Firestore.community, dismiss, Set.mem_sdiff, Set.mem_ofPred_eq,
        Set.mem_singleton_iff, Prod.mk.injEq, and_true, if_true, List.mem_filter,
        decide_eq_true_eq, ← and_assoc, exists_and_right]
    · simp [Deed.apply, Firestore.community, dismiss, ha']
  · rfl
  · rfl

theorem community_accept (ha : db.users.lookup a = some d)
    (h : Firestore.Social (fun u e => dismiss b a u (link b a u e)) feed db db') :
    db'.community = (Deed.accept a b).apply db.community := by
  rw [community_social h]
  ext p
  · rfl
  · rfl
  · obtain ⟨b', a'⟩ := p
    by_cases ha' : a' = a
    · subst ha'
      simp [Deed.apply, Firestore.community, dismiss, link, ha, or_comm]
    · simp [Deed.apply, Firestore.community, dismiss, link, ha']
  · obtain ⟨b', a'⟩ := p
    by_cases ha' : a' = a
    · subst ha'
      simp only [Deed.apply, Firestore.community, dismiss, link, Set.mem_sdiff, Set.mem_ofPred_eq,
        Set.mem_singleton_iff, Prod.mk.injEq, and_true, if_true, List.mem_filter,
        decide_eq_true_eq, ← and_assoc, exists_and_right]
    · simp [Deed.apply, Firestore.community, dismiss, link, ha']
  · rfl
  · rfl

theorem community_toggle {isOn : Bool} (ha : db.users.lookup a = some d)
    (h : Firestore.Social (fun u d => if u = a then { d with publicUser := !isOn } else d) feed db
      db') :
    db'.community = (if isOn then Deed.hide a else .unhide a).apply db.community := by
  rw [community_social h]
  ext p
  · cases isOn <;> rfl
  · by_cases hp : p = a
    · subst hp
      cases isOn <;> simp [Deed.apply, Firestore.community, ha]
    · cases isOn <;> simp [Deed.apply, Firestore.community, hp]
  · obtain ⟨a', b'⟩ := p
    by_cases hb' : b' = a <;> cases isOn <;> simp [Deed.apply, Firestore.community, hb']
  · obtain ⟨a', b'⟩ := p
    by_cases hb' : b' = a <;> cases isOn <;> simp [Deed.apply, Firestore.community, hb']
  · cases isOn <;> rfl
  · cases isOn <;> rfl

theorem community_signUp {uid : Uid} {username : String} (hnew : db.users.lookup uid = none) :
    Firestore.community { db with users := db.users.insert uid (newUser username) } =
      (Deed.join uid).apply db.community := by
  have hlookup : ∀ u, (db.users.insert uid (newUser username)).lookup u =
      if u = uid then some (newUser username) else db.users.lookup u :=
    fun u => Collection.lookup_insert_eq uid u _ _
  ext p
  · by_cases hp : p = uid <;> simp [Deed.apply, Firestore.community, hlookup, hp]
  · by_cases hp : p = uid <;> simp [Deed.apply, Firestore.community, hp, newUser]
  · obtain ⟨a, b⟩ := p
    by_cases hb : b = uid <;> simp [Deed.apply, Firestore.community, hb, newUser, hnew]
  · obtain ⟨a, b⟩ := p
    by_cases hb : b = uid <;> simp [Deed.apply, Firestore.community, hb, newUser, hnew]
  · rfl
  · rfl

theorem community_save {l : EditTrip} {feeds : List Uid} {t : TripID}
    (h : l.Resaved feeds t db db') :
    db'.community = (Deed.publish l.user t l.ids).apply db.community := by
  obtain ⟨d, hd, huser, hids⟩ := h.trip
  rw [community_users h.users fun u d => by split <;> exact ⟨rfl, rfl, rfl⟩]
  ext p
  · rfl
  · rfl
  · rfl
  · rfl
  · obtain ⟨a, t'⟩ := p
    by_cases ht' : t' = t
    · subst ht'
      have howner : ∀ d₂, db.trips.lookup t' = some d₂ → d₂.userID = l.user := by
        intro d₂ hd₂
        rcases h.target with ⟨-, hnone⟩ | ⟨-, d₃, hd₃, hu₃, -⟩
        · rw [hnone] at hd₂
          cases hd₂
        · rw [hd₃] at hd₂
          cases hd₂
          exact hu₃
      have hiff : l.user = a ↔ a = l.user ∨ ∃ d₂, db.trips.lookup t' = some d₂ ∧ d₂.userID = a :=
        ⟨fun ha => .inl ha.symm, fun ha => ha.elim Eq.symm fun ⟨d₂, hd₂, ha⟩ =>
          (howner d₂ hd₂).symm.trans ha⟩
      simpa [Firestore.community, Deed.apply, hd, huser] using hiff
    · simp [Firestore.community, Deed.apply, h.trips t' ht', ht']
  · obtain ⟨t', id⟩ := p
    by_cases ht' : t' = t
    · subst ht'
      simp [Firestore.community, Deed.apply, hd, hids]
    · simp [Firestore.community, Deed.apply, h.trips t' ht', ht']

theorem community_delete {t : TripID} {trip : TripDoc} {me : User}
    (ht : db.trips.lookup t = some trip) (howner : trip.userID = me.uid)
    (h : TripInfo.Deleted t trip me db ∅ db') :
    db'.community = (Deed.remove me.uid t).apply db.community := by
  rw [community_users h.users fun u d => by split <;> exact ⟨rfl, rfl, rfl⟩]
  ext p
  · rfl
  · rfl
  · rfl
  · rfl
  · obtain ⟨a, t'⟩ := p
    by_cases ht' : t' = t
    · subst ht'
      have hiff : me.uid = a → a = me.uid := Eq.symm
      simpa [Firestore.community, Deed.apply, h.trips, ht, howner] using hiff
    · simp [Firestore.community, Deed.apply, h.trips, ht']
  · obtain ⟨t', id⟩ := p
    by_cases ht' : t' = t
    · subst ht'
      simp [Firestore.community, Deed.apply, h.trips]
    · simp [Firestore.community, Deed.apply, h.trips, ht']

theorem community_edit {id : EntryID} (h : EditEntry.Edited id db db') :
    db'.community = db.community := by
  simp only [Firestore.community, h.users, h.trips]

/-- An entry of a trip is in no other. -/
theorem holds_inj (h : Integrity db) {t t' : TripID} {id : EntryID}
    (ht : (t, id) ∈ db.community.holds) (ht' : (t', id) ∈ db.community.holds) : t = t' := by
  obtain ⟨d, hd, hid⟩ := ht
  obtain ⟨d', hd', hid'⟩ := ht'
  obtain ⟨e, he, het⟩ := h.tripID_of_mem hd hid
  obtain ⟨e', he', het'⟩ := h.tripID_of_mem hd' hid'
  rw [he] at he'
  cases he'
  exact Option.some.inj (het.symm.trans het')

/-- What is saved is allowed to be published. -/
theorem allowed_save (hi : Integrity db) {l : EditTrip} {feeds : List Uid} {t : TripID}
    (ha : db.users.lookup l.user = some d) (h : l.Resaved feeds t db db') :
    (Deed.publish l.user t l.ids).Allowed db.community := by
  refine ⟨⟨d, ha⟩, ?_, h.nodup, fun id hid t' ht' => ?_⟩
  · rintro u ⟨d₂, hd₂, rfl⟩
    rcases h.target with ⟨-, hnone⟩ | ⟨-, d₃, hd₃, hu₃, -⟩
    · rw [hnone] at hd₂
      cases hd₂
    · rw [hd₃] at hd₂
      cases hd₂
      exact hu₃
  · rcases h.source id (.inl hid) with hnone | hlisted
    · obtain ⟨d', hd', hid'⟩ := ht'
      obtain ⟨e, he, -⟩ := hi.tripID_of_mem hd' hid'
      rw [hnone] at he
      cases he
    · exact holds_inj hi ht' hlisted

end

/-- **One step.** -/
theorem does_of_step {s s' : Backend} {act : Action} (h : Coherent s) (hs : Step s act s') :
    ∃ deed, Names act deed ∧ Does s.store.community deed s'.store.community := by
  have hfollows : ∀ {a b d}, s.store.users.lookup a = some d → (b ∈ d.following ↔
      (a, b) ∈ s.store.community.follows) := by
    intro a b d ha
    rw [show (a, b) ∈ s.store.community.follows ↔ _ from (h.graph.agree a b).symm]
    refine ⟨fun hb => ⟨d, ha, hb⟩, fun ⟨d', ha', hb⟩ => ?_⟩
    cases Option.some.inj (ha.symm.trans ha')
    exact hb
  cases h.effect_of_step hs with
  | @signedUp uid username hnew hstore _ =>
    refine ⟨.join uid, .signUp uid username, ?_, by rw [hstore]; exact community_signUp hnew⟩
    rintro ⟨d, hd⟩
    rw [hnew] at hd
    cases hd
  | @linked a b d e hne ha hb hnot hpublic hsocial _ =>
    refine ⟨.follow a b, .follow a b, ⟨hne, ⟨d, ha⟩, ⟨⟨e, hb⟩, ?_⟩, ?_⟩,
      community_link hb hsocial⟩
    · rintro ⟨e', he', hprivate⟩
      rw [hb] at he'
      cases he'
      rw [hpublic] at hprivate
      cases hprivate
    · exact fun hmem => hnot ((hfollows ha).mpr hmem)
  | @asked a b d e hne ha hb hnot hprivate hsocial _ =>
    exact ⟨.ask a b, .ask a b, ⟨hne, ⟨d, ha⟩, ⟨e, hb, hprivate⟩,
      fun hmem => hnot ((hfollows ha).mpr hmem)⟩, community_ask hb hsocial⟩
  | @unlinked a b d hne ha hfollowing hsocial _ =>
    exact ⟨.unfollow a b, .unfollow a b, (hfollows ha).mp hfollowing, community_unlink hsocial⟩
  | @unlisted a b d row ha hrow hsocial _ =>
    exact ⟨.unfollow a b, .unlist a b row, (hfollows ha).mp (List.mem_of_getElem? hrow),
      community_unlink hsocial⟩
  | @accepted a b d row ha hrow hsocial _ =>
    exact ⟨.accept a b, .accept a b row, ⟨d, ha, List.mem_of_getElem? hrow⟩,
      community_accept ha hsocial⟩
  | @denied a b d row ha hrow hsocial _ =>
    exact ⟨.deny a b, .deny a b row, ⟨d, ha, List.mem_of_getElem? hrow⟩,
      community_dismiss hsocial⟩
  | @toggled a isOn hsocial _ =>
    cases hs with
    | switchToggled hme =>
      have ha := (Firestore.fetchUser_eq_some hme).2
      have hc := community_toggle ha hsocial
      cases isOn with
      | true => exact ⟨.hide _, .hide _, ⟨_, ha⟩, hc⟩
      | false => exact ⟨.unhide _, .unhide _, ⟨_, ha⟩, hc⟩
  | @saved a d t screen ha huser hresaved _ =>
    subst huser
    exact ⟨.publish screen.user t screen.ids, .publish _ t screen,
      allowed_save h.integrity ha hresaved, community_save hresaved⟩
  | @edited a id hedited _ => exact ⟨.other, .edit a id, trivial, community_edit hedited⟩
  | @kept a d t ht hcover hstore _ => exact ⟨.other, .keep a t, trivial, by rw [hstore]; rfl⟩
  | @deleted me d t ha ht howner hcover hdeleted _ =>
    exact ⟨.remove me.uid t, .remove me.uid t, ⟨d, ht, howner⟩,
      community_delete ht howner hdeleted⟩

theorem community_empty : Firestore.empty.community = .empty := by
  ext p <;> simp [Firestore.community, Firestore.empty, Community.empty]

/-- A run from any such state, seen through what the documents say. -/
theorem Coherent.does_of_isRun {s : Backend} {tr : List (Action × Backend)} (hs : Coherent s)
    (h : IsRun Step s tr) :
    ∃ deeds, List.Forall₂ (fun x y => Names x.1 y.1 ∧ y.2 = x.2.store.community) tr deeds ∧
      IsRun Does s.store.community deeds :=
  h.simulate (I := Coherent) (fun s => s.store.community) Names
    (fun _ _ _ hc hstep => ⟨hc.step hstep, does_of_step hc hstep⟩) hs

/-- **The app does deeds**: every run of the app is a run of deeds, of which each is one that the
action can come to, is allowed, and leads to what the documents say. -/
theorem community_of_run {tr : List (Action × Backend)} (h : IsRun Step .empty tr) :
    ∃ deeds, List.Forall₂ (fun x y => Names x.1 y.1 ∧ y.2 = x.2.store.community) tr deeds ∧
      IsRun Does .empty deeds := by
  obtain ⟨deeds, hnames, hdeeds⟩ := Coherent.does_of_isRun .empty h
  exact ⟨deeds, hnames, community_empty ▸ hdeeds⟩

theorem community_of_run_sample : ∃ tr, IsRun Step .empty tr ∧ tr.length = 7 ∧
    ∃ deeds, List.Forall₂ (fun x y => Names x.1 y.1 ∧ y.2 = x.2.store.community) tr deeds ∧
      IsRun Does .empty deeds := by
  obtain ⟨tr, htr⟩ := Option.isSome_iff_exists.mp
    (by decide +kernel : (performAll sampleDeleted .empty).isSome)
  have hlen : ∀ tr ∈ performAll sampleDeleted .empty, tr.length = 7 := by decide +kernel
  have hrun := isRun_of_performAll htr
  exact ⟨tr, hrun, hlen tr htr, community_of_run hrun⟩

/-- **The last word counts**: whatever the deeds of a run are, what the documents say of who follows
whom (in the lists of both), of requests, of privacy, of owners and of entries is what the last deed
that was about it has decided. -/
theorem decided_of_run {tr : List (Action × Backend)} {deeds : List (Deed × Community)}
    (h : IsRun Step .empty tr)
    (hnames : List.Forall₂ (fun x y => Names x.1 y.1 ∧ y.2 = x.2.store.community) tr deeds)
    (hdeeds : IsRun Does .empty deeds) :
    Decided (deeds.map Prod.fst) (final .empty tr).store.community ∧
      ∀ a b, Follows (final .empty tr).store.userDocs a b ↔
        LastWord (Deed.followed a b) (deeds.map Prod.fst) := by
  have hfinal : final Firestore.empty.community deeds = (final Backend.empty tr).store.community :=
    final_of_forall₂ (fun s : Backend => s.store.community) Names Backend.empty hnames
  have hcoherent : Coherent (final .empty tr) := h.final (fun _ _ _ => Coherent.step) .empty
  have hdecided := decided_of_isRun hdeeds
  rw [← community_empty, hfinal] at hdecided
  exact ⟨hdecided, fun a b => (hcoherent.graph.agree a b).trans (hdecided.follows a b)⟩

theorem decided_of_run_sample : ∃ tr deeds, IsRun Step .empty tr ∧ tr.length = 7 ∧
    IsRun Does .empty deeds ∧
    Decided (deeds.map Prod.fst) (final .empty tr).store.community := by
  obtain ⟨tr, htr⟩ := Option.isSome_iff_exists.mp
    (by decide +kernel : (performAll sampleDeleted .empty).isSome)
  have hlen : ∀ tr ∈ performAll sampleDeleted .empty, tr.length = 7 := by decide +kernel
  have hrun := isRun_of_performAll htr
  obtain ⟨deeds, hnames, hdeeds⟩ := Coherent.does_of_isRun .empty hrun
  have hdeeds : IsRun Does .empty deeds := community_empty ▸ hdeeds
  exact ⟨tr, deeds, hrun, hlen tr htr, hdeeds, (decided_of_run hrun hnames hdeeds).1⟩

end Wanderlust
