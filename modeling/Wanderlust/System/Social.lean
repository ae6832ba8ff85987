import Wanderlust.System.Trips

/-!
# Who follows whom

Following and being followed are kept in two documents. `Graph` says that they agree; every
action keeps it (`Graph.effect`). The lists may come to hold a user twice, and a follower may be
among those who ask to follow: that happens when somebody who has asked to follow a private user
follows the user after the account has been made public. As long as nobody does that (`notAsked`),
the lists are free of repetition, and not any longer (`unique_iff_notAsked`).

What is said here about the documents of users is said about the function `users` that looks them
up.
-/

namespace Wanderlust

open Runs

/-- The documents of users by their uids. -/
abbrev Firestore.userDocs (db : Firestore) (u : Uid) : Option UserDoc := db.users.lookup u

/-- `b` is in the list of those that `a` follows. -/
def Follows (users : Uid → Option UserDoc) (a b : Uid) : Prop :=
  ∃ d, users a = some d ∧ b ∈ d.following

/-- `a` is in the list of followers of `b`. -/
def FollowedBy (users : Uid → Option UserDoc) (b a : Uid) : Prop :=
  ∃ d, users b = some d ∧ a ∈ d.followers

/-- Following and being followed agree, those who ask are users, and nobody follows or asks
themselves. -/
structure Graph (users : Uid → Option UserDoc) : Prop where
  agree : ∀ a b, Follows users a b ↔ FollowedBy users b a
  known : ∀ b d, users b = some d → ∀ a ∈ d.requests, ∃ e, users a = some e
  irrefl : ∀ b d, users b = some d → b ∉ d.followers ∧ b ∉ d.requests

/-- The lists of a user hold nobody twice, and no follower among those who ask to follow. -/
structure UniqueLists (d : UserDoc) : Prop where
  followers : d.followers.Nodup
  following : d.following.Nodup
  requests : d.requests.Nodup
  disjoint : ∀ a ∈ d.followers, a ∉ d.requests

/-- The documents after a change. -/
def changed (f : Uid → UserDoc → UserDoc) (users : Uid → Option UserDoc) (u : Uid) :
    Option UserDoc := (users u).map (f u)

/-- The documents after somebody has signed up. -/
def joined (uid : Uid) (username : String) (users : Uid → Option UserDoc) (u : Uid) :
    Option UserDoc := if u = uid then some (newUser username) else users u

section

variable {users : Uid → Option UserDoc} {f : Uid → UserDoc → UserDoc} {a b uid : Uid}
  {username : String} {d d' e : UserDoc}

theorem of_changed (h : changed f users a = some d') : ∃ d, users a = some d ∧ d' = f a d := by
  obtain ⟨d, hd, rfl⟩ := Option.map_eq_some_iff.mp h
  exact ⟨d, hd, rfl⟩

theorem changed_eq (h : users a = some d) : changed f users a = some (f a d) := by
  rw [changed, h]
  rfl

theorem of_joined (h : joined uid username users a = some d) :
    d = newUser username ∨ users a = some d := by
  rw [joined] at h
  split at h
  · exact Or.inl (Option.some.inj h).symm
  · exact Or.inr h

theorem joined_eq (hnew : users uid = none) (h : users a = some d) :
    joined uid username users a = some d := by
  rw [joined, if_neg, h]
  rintro rfl
  rw [hnew] at h
  cases h

end

namespace Graph

variable {users : Uid → Option UserDoc} {f : Uid → UserDoc → UserDoc} {a b : Uid} {d e : UserDoc}

theorem empty : Graph Firestore.empty.userDocs where
  agree a b := by constructor <;> rintro ⟨d, hd, -⟩ <;> cases hd
  known b d hd := by cases hd
  irrefl b d hd := by cases hd

/-- The two lists, in two documents that are there. -/
theorem mem_following_iff (h : Graph users) (ha : users a = some d) (hb : users b = some e) :
    b ∈ d.following ↔ a ∈ e.followers := by
  have hab := h.agree a b
  simpa [Follows, FollowedBy, ha, hb] using hab

/-- Whoever is followed is a user. -/
theorem exists_of_following (h : Graph users) (ha : users a = some d) (hmem : b ∈ d.following) :
    ∃ e, users b = some e := by
  obtain ⟨e, he, -⟩ := (h.agree a b).mp ⟨d, ha, hmem⟩
  exact ⟨e, he⟩

/-- Whoever follows is a user. -/
theorem exists_of_followers (h : Graph users) (hb : users b = some e) (hmem : a ∈ e.followers) :
    ∃ d, users a = some d := by
  obtain ⟨d, hd, -⟩ := (h.agree a b).mpr ⟨e, hb, hmem⟩
  exact ⟨d, hd⟩

/-- Nobody follows themselves. -/
theorem notMem_following (h : Graph users) (ha : users a = some d) : a ∉ d.following :=
  fun hmem => (h.irrefl a d ha).1 ((h.mem_following_iff ha ha).mp hmem)

/-- A list of users gets one more. -/
theorem known_of_append {vs : List Uid} (hmem : b ∈ vs ++ [a]) (ha : users a = some d) :
    b ∈ vs ∨ ∃ e, users b = some e := by
  rcases List.mem_append.mp hmem with hmem | hmem
  · exact Or.inl hmem
  · rw [List.mem_singleton.mp hmem]
    exact Or.inr ⟨d, ha⟩

/-- The documents are changed one by one. -/
theorem change (h : Graph users)
    (hagree : ∀ u d v e, users u = some d → users v = some e →
      (v ∈ d.following ↔ u ∈ e.followers) → (v ∈ (f u d).following ↔ u ∈ (f v e).followers))
    (hknown : ∀ u d, users u = some d →
      (∀ v ∈ (f u d).following, v ∈ d.following ∨ ∃ e, users v = some e) ∧
      (∀ v ∈ (f u d).followers, v ∈ d.followers ∨ ∃ e, users v = some e) ∧
      ∀ v ∈ (f u d).requests, v ∈ d.requests ∨ ∃ e, users v = some e)
    (hirrefl : ∀ u d, u ∉ d.followers → u ∉ d.requests →
      u ∉ (f u d).followers ∧ u ∉ (f u d).requests) : Graph (changed f users) := by
  refine ⟨fun u v => ⟨?_, ?_⟩, fun v e' he' u hu => ?_, fun v e' he' => ?_⟩
  · rintro ⟨d', hd', hmem⟩
    obtain ⟨d, hd, rfl⟩ := of_changed hd'
    obtain ⟨e, he⟩ : ∃ e, users v = some e :=
      ((hknown u d hd).1 v hmem).elim (h.exists_of_following hd) id
    exact ⟨f v e, changed_eq he, (hagree u d v e hd he (h.mem_following_iff hd he)).mp hmem⟩
  · rintro ⟨e', he', hmem⟩
    obtain ⟨e, he, rfl⟩ := of_changed he'
    obtain ⟨d, hd⟩ : ∃ d, users u = some d :=
      ((hknown v e he).2.1 u hmem).elim (h.exists_of_followers he) id
    exact ⟨f u d, changed_eq hd, (hagree u d v e hd he (h.mem_following_iff hd he)).mpr hmem⟩
  · obtain ⟨e, he, rfl⟩ := of_changed he'
    obtain ⟨d, hd⟩ := ((hknown v e he).2.2 u hu).elim (h.known v e he u) id
    exact ⟨f u d, changed_eq hd⟩
  · obtain ⟨e, he, rfl⟩ := of_changed he'
    exact hirrefl v e (h.irrefl v e he).1 (h.irrefl v e he).2

/-- The lists are left alone. -/
theorem same (h : Graph users) (hlists : ∀ u d, (f u d).following = d.following ∧
    (f u d).followers = d.followers ∧ (f u d).requests = d.requests) : Graph (changed f users) := by
  refine h.change (fun u d v e _ _ => ?_) (fun u d _ => ?_) fun u d => ?_
  · rw [(hlists u d).1, (hlists v e).2.1]
    exact id
  · rw [(hlists u d).1, (hlists u d).2.1, (hlists u d).2.2]
    exact ⟨fun _ => Or.inl, fun _ => Or.inl, fun _ => Or.inl⟩
  · rw [(hlists u d).2.1, (hlists u d).2.2]
    exact And.intro

theorem joined (h : Graph users) {uid : Uid} (hnew : users uid = none) (username : String) :
    Graph (joined uid username users) := by
  refine ⟨fun u v => ⟨?_, ?_⟩, fun v e he u hu => ?_, fun v e he => ?_⟩
  · rintro ⟨d, hd, hmem⟩
    rcases of_joined hd with rfl | hd
    · cases hmem
    · obtain ⟨e, he, hmem⟩ := (h.agree u v).mp ⟨d, hd, hmem⟩
      exact ⟨e, joined_eq hnew he, hmem⟩
  · rintro ⟨e, he, hmem⟩
    rcases of_joined he with rfl | he
    · cases hmem
    · obtain ⟨d, hd, hmem⟩ := (h.agree u v).mpr ⟨e, he, hmem⟩
      exact ⟨d, joined_eq hnew hd, hmem⟩
  · rcases of_joined he with rfl | he
    · cases hu
    · obtain ⟨d, hd⟩ := h.known v e he u hu
      exact ⟨d, joined_eq hnew hd⟩
  · rcases of_joined he with rfl | he
    · exact ⟨List.not_mem_nil, List.not_mem_nil⟩
    · exact h.irrefl v e he

/-- `a` follows `b`. -/
theorem link (h : Graph users) (hne : a ≠ b) (ha : users a = some d) (hb : users b = some e) :
    Graph (changed (link a b) users) := by
  refine h.change (fun u d' v e' _ _ hiff => ?_) (fun u d' _ => ⟨?_, ?_, fun v => Or.inl⟩)
    fun u d' hfollowers hrequests => ⟨?_, hrequests⟩
  · simp only [Wanderlust.link]
    by_cases hu : u = a <;> by_cases hv : v = b <;> simp [hu, hv] <;> simpa [hu, hv] using hiff
  · intro v hmem
    simp only [Wanderlust.link] at hmem
    split at hmem
    · exact known_of_append hmem hb
    · exact Or.inl hmem
  · intro v hmem
    simp only [Wanderlust.link] at hmem
    split at hmem
    · exact known_of_append hmem ha
    · exact Or.inl hmem
  · simp only [Wanderlust.link]
    split
    · rename_i hu
      subst hu
      simp [hfollowers, hne.symm]
    · exact hfollowers

/-- `a` no longer follows `b`. -/
theorem unlink (h : Graph users) (a b : Uid) : Graph (changed (unlink a b) users) := by
  refine h.change (fun u d' v e' _ _ hiff => ?_) (fun u d' _ => ⟨?_, ?_, fun v => Or.inl⟩)
    fun u d' hfollowers hrequests => ⟨?_, hrequests⟩
  · simp only [Wanderlust.unlink]
    by_cases hu : u = a <;> by_cases hv : v = b <;> simp [hu, hv] <;> simpa [hu, hv] using hiff
  · intro v hmem
    simp only [Wanderlust.unlink] at hmem
    split at hmem
    · exact Or.inl (List.mem_filter.mp hmem).1
    · exact Or.inl hmem
  · intro v hmem
    simp only [Wanderlust.unlink] at hmem
    split at hmem
    · exact Or.inl (List.mem_filter.mp hmem).1
    · exact Or.inl hmem
  · simp only [Wanderlust.unlink]
    split
    · exact fun hmem => hfollowers (List.mem_filter.mp hmem).1
    · exact hfollowers

/-- `a` asks to follow `b`. -/
theorem ask (h : Graph users) (hne : a ≠ b) (ha : users a = some d) :
    Graph (changed (ask a b) users) := by
  refine h.change (fun u d' v e' _ _ hiff => hiff)
    (fun u d' _ => ⟨fun v => Or.inl, fun v => Or.inl, ?_⟩)
    fun u d' hfollowers hrequests => ⟨hfollowers, ?_⟩
  · intro v hmem
    simp only [Wanderlust.ask] at hmem
    split at hmem
    · exact known_of_append hmem ha
    · exact Or.inl hmem
  · simp only [Wanderlust.ask]
    split
    · rename_i hu
      obtain ⟨rfl, -⟩ := hu
      simp [hrequests, hne.symm]
    · exact hrequests

/-- `b` removes what `a` asked for. -/
theorem dismiss (h : Graph users) (a b : Uid) : Graph (changed (dismiss a b) users) := by
  refine h.change (fun u d' v e' _ _ hiff => hiff)
    (fun u d' _ => ⟨fun v => Or.inl, fun v => Or.inl, ?_⟩)
    fun u d' hfollowers hrequests => ⟨hfollowers, ?_⟩
  · intro v hmem
    simp only [Wanderlust.dismiss] at hmem
    split at hmem
    · exact Or.inl (List.mem_filter.mp hmem).1
    · exact Or.inl hmem
  · simp only [Wanderlust.dismiss]
    split
    · exact fun hmem => hrequests (List.mem_filter.mp hmem).1
    · exact hrequests

/-- **Every action keeps the graph.** -/
theorem effect {s s' : Backend} {act : Action} (h : Graph s.store.userDocs)
    (he : Effect s s' act) : Graph s'.store.userDocs := by
  have hdocs : ∀ {f}, (∀ u, s'.store.users.lookup u = (s.store.users.lookup u).map (f u)) →
      s'.store.userDocs = changed f s.store.userDocs := fun hf => funext hf
  cases he with
  | @signedUp uid username hnew hs =>
    have hjoined : s'.store.userDocs = Wanderlust.joined uid username s.store.userDocs := by
      funext u
      rw [hs]
      exact Collection.lookup_insert_eq _ _ _ _
    rw [hjoined]
    exact h.joined hnew username
  | linked hne ha hb _ _ hs => exact hdocs hs.users ▸ h.link hne ha hb
  | asked hne ha _ _ _ hs => exact hdocs hs.users ▸ h.ask hne ha
  | unlinked _ _ _ hs => exact hdocs hs.users ▸ h.unlink _ _
  | unlisted _ _ hs => exact hdocs hs.users ▸ h.unlink _ _
  | @accepted a b d _ ha hrow hs =>
    have hmem := List.mem_of_getElem? hrow
    obtain ⟨e, hb⟩ := h.known a d ha b hmem
    have hne : b ≠ a := by
      rintro rfl
      exact (h.irrefl b d ha).2 hmem
    have htwo : s'.store.userDocs =
        changed (Wanderlust.dismiss b a) (changed (Wanderlust.link b a) s.store.userDocs) := by
      funext u
      rw [hdocs hs.users, changed, changed, changed, Option.map_map]
      rfl
    rw [htwo]
    exact (h.link hne hb ha).dismiss b a
  | denied _ _ hs => exact hdocs hs.users ▸ h.dismiss _ _
  | toggled hs =>
    exact hdocs hs.users ▸ h.same fun u d => by split <;> exact ⟨rfl, rfl, rfl⟩
  | saved _ _ hs => exact hdocs hs.users ▸ h.same fun u d => by split <;> exact ⟨rfl, rfl, rfl⟩
  | edited hs =>
    have hsame : s'.store.userDocs = s.store.userDocs := by
      funext u
      rw [Firestore.userDocs, hs.users]
    exact hsame ▸ h
  | kept _ _ hs => exact hs ▸ h
  | deleted _ _ _ _ hs =>
    exact hdocs hs.users ▸ h.same fun u d => by split <;> exact ⟨rfl, rfl, rfl⟩

end Graph

/-- The links between all documents but the newsfeeds. -/
structure Coherent (s : Backend) : Prop where
  integrity : Integrity s.store
  graph : Graph s.store.userDocs

theorem Coherent.empty : Coherent .empty := ⟨.empty, .empty⟩

theorem Coherent.effect_of_step {s s' : Backend} {act : Action} (h : Coherent s)
    (hs : Step s act s') : Effect s s' act :=
  Wanderlust.effect_of_step hs h.integrity.nodup

theorem Coherent.step {s s' : Backend} {act : Action} (h : Coherent s) (hs : Step s act s') :
    Coherent s' :=
  ⟨h.integrity.effect (h.effect_of_step hs), h.graph.effect (h.effect_of_step hs)⟩

/-- **Following is mutual in every reachable database**: `b` is in the list of those that `a`
follows exactly when `a` is in the list of followers of `b`. -/
theorem following_iff_followers {tr : List (Action × Backend)} (h : IsRun Step .empty tr) :
    ∀ x ∈ tr, ∀ a b, (∃ d, x.2.store.users.lookup a = some d ∧ b ∈ d.following) ↔
      ∃ e, x.2.store.users.lookup b = some e ∧ a ∈ e.followers := fun x hx =>
  (h.invariant_of_step (I := Coherent) (fun _ _ _ => Coherent.step) .empty x hx).graph.agree

/-- A run in which somebody follows and unfollows. -/
theorem following_iff_followers_sample : ∃ tr, IsRun Step .empty tr ∧ tr.length = 7 ∧
    ∀ x ∈ tr, (∃ d, x.2.store.users.lookup "ann" = some d ∧ "bob" ∈ d.following) ↔
      ∃ e, x.2.store.users.lookup "bob" = some e ∧ "ann" ∈ e.followers := by
  obtain ⟨tr, htr⟩ := Option.isSome_iff_exists.mp
    (by decide +kernel : (performAll sampleDeleted .empty).isSome)
  have hlen : ∀ tr ∈ performAll sampleDeleted .empty, tr.length = 7 := by decide +kernel
  have hrun := isRun_of_performAll htr
  exact ⟨tr, hrun, hlen tr htr, fun x hx => following_iff_followers hrun x hx "ann" "bob"⟩

/-! ## Lists without repetition -/

/-- Nobody follows a public user while having asked the user. -/
def notAsked (s : Backend) : Action → Prop
  | .followButtonPressed a b => ∀ d ∈ s.store.users.lookup a, ∀ e ∈ s.store.users.lookup b,
    b ∉ d.following → e.publicUser = true → a ∉ e.requests
  | _ => True

instance (s : Backend) : DecidablePred (notAsked s)
  | .followButtonPressed a b => inferInstanceAs (Decidable (∀ d ∈ s.store.users.lookup a,
      ∀ e ∈ s.store.users.lookup b, b ∉ d.following → e.publicUser = true → a ∉ e.requests))
  | .signUp _ _ => inferInstanceAs (Decidable True)
  | .unfollow _ _ => inferInstanceAs (Decidable True)
  | .acceptRequest _ _ => inferInstanceAs (Decidable True)
  | .denyRequest _ _ => inferInstanceAs (Decidable True)
  | .switchToggled _ _ => inferInstanceAs (Decidable True)
  | .saveTrip _ _ => inferInstanceAs (Decidable True)
  | .editEntry _ _ => inferInstanceAs (Decidable True)
  | .deleteTrip _ _ => inferInstanceAs (Decidable True)

section

variable {s s' : Backend} {act : Action} {a b u : Uid} {d : UserDoc}

theorem UniqueLists.link (h : UniqueLists d) (hfollowing : u = a → b ∉ d.following)
    (hfollowers : u = b → a ∉ d.followers ∧ a ∉ d.requests) : UniqueLists (link a b u d) := by
  refine ⟨?_, ?_, h.requests, fun v hmem => ?_⟩
  · simp only [Wanderlust.link]
    split
    · rename_i hu
      exact nodup_append_singleton h.followers (hfollowers hu).1
    · exact h.followers
  · simp only [Wanderlust.link]
    split
    · rename_i hu
      exact nodup_append_singleton h.following (hfollowing hu)
    · exact h.following
  · simp only [Wanderlust.link] at hmem
    split at hmem
    · rename_i hu
      rcases List.mem_append.mp hmem with hmem | hmem
      · exact h.disjoint v hmem
      · rw [List.mem_singleton.mp hmem]
        exact (hfollowers hu).2
    · exact h.disjoint v hmem

theorem UniqueLists.unlink (h : UniqueLists d) (a b u : Uid) : UniqueLists (unlink a b u d) := by
  refine ⟨?_, ?_, h.requests, fun v hmem => h.disjoint v ?_⟩
  · simp only [Wanderlust.unlink]
    split
    · exact h.followers.filter _
    · exact h.followers
  · simp only [Wanderlust.unlink]
    split
    · exact h.following.filter _
    · exact h.following
  · simp only [Wanderlust.unlink] at hmem
    split at hmem
    · exact (List.mem_filter.mp hmem).1
    · exact hmem

theorem UniqueLists.ask (h : UniqueLists d) (hfollowers : u = b → a ∉ d.followers) :
    UniqueLists (ask a b u d) := by
  refine ⟨h.followers, h.following, ?_, fun v hmem => ?_⟩
  · simp only [Wanderlust.ask]
    split
    · rename_i hu
      exact nodup_append_singleton h.requests hu.2
    · exact h.requests
  · simp only [Wanderlust.ask]
    split
    · rename_i hu
      rw [List.mem_append, List.mem_singleton, not_or]
      refine ⟨h.disjoint v hmem, ?_⟩
      rintro rfl
      exact hfollowers hu.1 hmem
    · exact h.disjoint v hmem

theorem UniqueLists.dismiss (h : UniqueLists d) (a b u : Uid) : UniqueLists (dismiss a b u d) := by
  refine ⟨h.followers, h.following, ?_, fun v hmem => ?_⟩
  · simp only [Wanderlust.dismiss]
    split
    · exact h.requests.filter _
    · exact h.requests
  · simp only [Wanderlust.dismiss]
    split
    · exact fun hmem' => h.disjoint v hmem (List.mem_filter.mp hmem').1
    · exact h.disjoint v hmem

/-- The lists of every user are free of repetition. -/
def Unique (s : Backend) : Prop := ∀ b d, s.store.users.lookup b = some d → UniqueLists d

/-- The documents are changed one by one. -/
theorem Unique.change {f : Uid → UserDoc → UserDoc}
    (hf : ∀ u, s'.store.users.lookup u = (s.store.users.lookup u).map (f u))
    (h : ∀ u d, s.store.users.lookup u = some d → UniqueLists (f u d)) : Unique s' := by
  intro u d' hd'
  rw [hf] at hd'
  obtain ⟨d, hd, rfl⟩ := Option.map_eq_some_iff.mp hd'
  exact h u d hd

/-- An action that does not follow whom it has asked keeps the lists free of repetition. -/
theorem Unique.effect (hg : Graph s.store.userDocs) (h : Unique s) (hc : notAsked s act)
    (he : Effect s s' act) : Unique s' := by
  cases he with
  | signedUp hnew hs =>
    intro u d hd
    rw [hs, Collection.lookup_insert_eq] at hd
    split at hd
    · cases hd
      exact ⟨List.nodup_nil, List.nodup_nil, List.nodup_nil, fun _ hmem => by cases hmem⟩
    · exact h u d hd
  | @linked a b d e hne ha hb hnot hpublic hs =>
    refine .change hs.users fun u d' hd' => (h u d' hd').link ?_ ?_
    · rintro rfl
      cases ha.symm.trans hd'
      exact hnot
    · rintro rfl
      cases hb.symm.trans hd'
      exact ⟨mt (hg.mem_following_iff ha hb).mpr hnot, hc d ha e hb hnot hpublic⟩
  | @asked a b d e hne ha hb hnot _ hs =>
    refine .change hs.users fun u d' hd' => (h u d' hd').ask ?_
    rintro rfl
    cases hb.symm.trans hd'
    exact mt (hg.mem_following_iff ha hb).mpr hnot
  | unlinked _ _ _ hs => exact .change hs.users fun u d' hd' => (h u d' hd').unlink _ _ u
  | unlisted _ _ hs => exact .change hs.users fun u d' hd' => (h u d' hd').unlink _ _ u
  | @accepted a b d _ ha hrow hs =>
    have hmem := List.mem_of_getElem? hrow
    obtain ⟨e, hb⟩ := hg.known a d ha b hmem
    have hnot : b ∉ d.followers := fun hmem' => (h a d ha).disjoint b hmem' hmem
    -- the request is dismissed, and the requester becomes a follower
    refine .change hs.users fun u d' hd' => ((h u d' hd').dismiss b a u).link ?_ ?_
    · rintro rfl
      cases hb.symm.trans hd'
      exact mt (hg.mem_following_iff hb ha).mp hnot
    · rintro rfl
      cases ha.symm.trans hd'
      exact ⟨hnot, by simp [Wanderlust.dismiss]⟩
  | denied _ _ hs => exact .change hs.users fun u d' hd' => (h u d' hd').dismiss _ _ u
  | toggled hs =>
    refine .change hs.users fun u d' hd' => ?_
    obtain ⟨h₁, h₂, h₃, h₄⟩ := h u d' hd'
    split <;> exact ⟨h₁, h₂, h₃, h₄⟩
  | saved _ _ hs =>
    refine .change hs.users fun u d' hd' => ?_
    obtain ⟨h₁, h₂, h₃, h₄⟩ := h u d' hd'
    split <;> exact ⟨h₁, h₂, h₃, h₄⟩
  | edited hs => exact fun u d hd => h u d (hs.users ▸ hd)
  | kept _ _ hs => exact fun u d hd => h u d (hs ▸ hd)
  | deleted _ _ _ _ hs =>
    refine .change hs.users fun u d' hd' => ?_
    obtain ⟨h₁, h₂, h₃, h₄⟩ := h u d' hd'
    split <;> exact ⟨h₁, h₂, h₃, h₄⟩

/-- Whoever follows a public user after having asked is among the followers and among those who
ask. -/
theorem notAsked_of_unique (he : Effect s s' act) (h : Unique s') : notAsked s act := by
  cases act with
  | followButtonPressed a b =>
    intro d ha e hb hnot hpublic hmem
    cases he with
    | linked hne ha' hb' hnot' hpublic' hs =>
      have hb₂ : s'.store.users.lookup b = some (link a b b e) := by
        rw [hs.users, hb]
        rfl
      exact (h b _ hb₂).disjoint a (by simp [link]) hmem
    | asked hne ha' hb' _ hprivate =>
      cases hb.symm.trans hb'
      rw [hpublic] at hprivate
      cases hprivate
    | unlinked hne ha' hfollowing =>
      cases ha.symm.trans ha'
      exact hnot hfollowing
  | _ => trivial

end

/-- **The lists stay free of repetition exactly as long as nobody follows a public user after
having asked the user.** -/
theorem unique_iff_notAsked {tr : List (Action × Backend)} (h : IsRun Step .empty tr) :
    (∀ x ∈ tr, ∀ b d, x.2.store.users.lookup b = some d → UniqueLists d) ↔
      Meets notAsked .empty tr := by
  have hempty : Unique .empty := fun b d hd => by cases hd
  exact h.forall_iff_meets (I := fun s => Coherent s ∧ Unique s) (G := Unique)
    (fun _ hs => hs.2)
    (fun s act s' hs hstep hc => ⟨hs.1.step hstep,
      hs.2.effect hs.1.graph hc (hs.1.effect_of_step hstep)⟩)
    (fun s act s' hs hstep hgood => notAsked_of_unique (hs.1.effect_of_step hstep) hgood)
    ⟨.empty, hempty⟩

/-- A run in which nobody follows after having asked. -/
theorem unique_iff_notAsked_sample : ∃ tr, IsRun Step .empty tr ∧ tr.length = 7 ∧
    ∀ x ∈ tr, ∀ b d, x.2.store.users.lookup b = some d → UniqueLists d := by
  obtain ⟨tr, htr⟩ := Option.isSome_iff_exists.mp
    (by decide +kernel : (performAll sampleDeleted .empty).isSome)
  have hmeets : ∀ tr ∈ performAll sampleDeleted .empty,
      tr.length = 7 ∧ Meets notAsked .empty tr := by decide +kernel
  have hrun := isRun_of_performAll htr
  exact ⟨tr, hrun, (hmeets tr htr).1, (unique_iff_notAsked hrun).mpr (hmeets tr htr).2⟩

/-- A run in which somebody does: Ann asks to follow Bob while the account is private, and follows
when it is public. -/
theorem follower_among_requests : ∃ tr, IsRun Step .empty tr ∧
    ∃ x ∈ tr, ∃ d, x.2.store.users.lookup "bob" = some d ∧
      "ann" ∈ d.followers ∧ "ann" ∈ d.requests := by
  obtain ⟨tr, htr⟩ := Option.isSome_iff_exists.mp
    (by decide +kernel : (performAll sampleAsk .empty).isSome)
  have hlists : ∀ tr ∈ performAll sampleAsk .empty, ∃ x ∈ tr, ∃ d ∈ x.2.store.users.lookup "bob",
      "ann" ∈ d.followers ∧ "ann" ∈ d.requests := by decide +kernel
  exact ⟨tr, isRun_of_performAll htr, hlists tr htr⟩

end Wanderlust
