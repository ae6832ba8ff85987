import Wanderlust.System.Social

/-!
# Newsfeeds

The newsfeed of a user has documents of entries. They are written when an entry is published, for
the followers that the author has then, and when somebody is followed or accepted, for the latest
20 entries; they are deleted with the entry, for the followers that the author has then, and when
somebody is unfollowed on the profile page. Unfollowing somebody in the list of followed users
leaves the newsfeed as it is, and so two things that should hold of a newsfeed can fail:

* it shows only what the user follows (`sound_iff_nothingLeft`): exactly as long as nobody is
  unfollowed in the list while the newsfeed shows something of theirs;
* what it shows exists (`present_iff_seenByFollowers`): exactly as long as an entry is deleted only
  while nobody but followers of its author has it in the newsfeed.

As long as nothing is deleted, it has what it should have (`recent_entries_shown`): among the
latest 20 entries of everyone followed, none is missing (`Complete`).
-/

namespace Wanderlust

open Runs Firestore

section

variable {db db' : Firestore} {s s' : Backend} {act : Action} {u a b : Uid} {id : EntryID}
  {f : FeedDoc}

/-- What a backfill writes are documents of entries of the author. -/
theorem feed_filled (hi : Integrity db) (h : (db.filled a b).lookup (u, id) = some f) :
    db.newsfeed.lookup (u, id) = some f ∨
      u = a ∧ f.userID = b ∧ ∃ e, db.entries.lookup id = some e ∧ e.userID = b ∧
        f.timestamp = e.timestamp := by
  rcases lookup_filled db a b u id with hsame | ⟨hu, e, he, hid, hwritten⟩
  · exact Or.inl (hsame.symm.trans h)
  · obtain ⟨hlookup, hauthor⟩ := of_mem_latestEntries he
    have hname : e.1 = id := (hi.named e.1 e.2 hlookup).symm.trans hid
    rw [hwritten] at h
    cases h
    exact Or.inr ⟨hu, rfl, e.2, hname ▸ hlookup, hauthor, rfl⟩

/-- What is left when a newsfeed has been emptied. -/
theorem feed_emptied (h : (db.emptied a b).lookup (u, id) = some f) :
    db.newsfeed.lookup (u, id) = some f ∧ ¬ (u = a ∧ f.userID = b) := by
  rw [lookup_emptied] at h
  split at h
  · cases h
  · rename_i hnot
    refine ⟨h, ?_⟩
    rintro ⟨rfl, hf⟩
    exact hnot ⟨rfl, mem_feedItems.mpr ⟨f, h, hf⟩⟩

/-- What is in the newsfeeds after a save. -/
theorem feed_resaved {l : EditTrip} {feeds : List Uid} {t : TripID}
    (hs : l.Resaved feeds t db db') (h : db'.newsfeed.lookup (u, id) = some f) :
    (u ∈ feeds ∧ id ∈ l.ids ∧ f.userID = l.user) ∨
      (¬ (u ∈ feeds ∧ id ∈ l.deletedIds) ∧ db.newsfeed.lookup (u, id) = some f) := by
  by_cases hu : u ∈ feeds
  · by_cases hid : id ∈ l.ids
    · obtain ⟨i, hi⟩ := List.getElem?_of_mem hid
      obtain ⟨e, -, -, -, -, -, -, hfeed⟩ := hs.listed i id hi
      rw [hfeed u hu] at h
      cases h
      exact Or.inl ⟨hu, hid, rfl⟩
    · by_cases hid' : id ∈ l.deletedIds
      · rw [(hs.deleted id hid').2.2 u hu] at h
        cases h
      · exact Or.inr ⟨fun hmem => hid' hmem.2, (hs.newsfeed u id (Or.inr ⟨hid, hid'⟩)).symm.trans h⟩
  · exact Or.inr ⟨fun hmem => hu hmem.1, (hs.newsfeed u id (Or.inl hu)).symm.trans h⟩

/-- What is left in the newsfeeds when a trip has been deleted. -/
theorem feed_deleted {t : TripID} {d : TripDoc} {me : User}
    (hs : TripInfo.Deleted t d me db ∅ db') (h : db'.newsfeed.lookup (u, id) = some f) :
    ¬ (id ∈ d.entries ∧ u ∈ me.followers ++ [me.uid]) ∧ db.newsfeed.lookup (u, id) = some f := by
  rw [hs.newsfeed] at h
  split at h
  · cases h
  · rename_i hnot
    exact ⟨hnot, h⟩

/-! ## What a newsfeed shows is followed -/

/-- A newsfeed has the entries of the user and of those that the user follows. -/
def Sound (db : Firestore) : Prop :=
  ∀ u id f, db.newsfeed.lookup (u, id) = some f →
    f.userID = u ∨ ∃ d, db.users.lookup u = some d ∧ f.userID ∈ d.following

/-- Nobody is unfollowed in the list of followed users while the newsfeed shows something of
theirs. -/
def nothingLeft (s : Backend) : Action → Prop
  | .unfollow a followingRow => ∀ d ∈ s.store.users.lookup a, ∀ b ∈ d.following[followingRow]?,
    s.store.feedItems a b = []
  | _ => True

instance (s : Backend) : DecidablePred (nothingLeft s)
  | .unfollow a followingRow => inferInstanceAs (Decidable (∀ d ∈ s.store.users.lookup a,
      ∀ b ∈ d.following[followingRow]?, s.store.feedItems a b = []))
  | .signUp _ _ => inferInstanceAs (Decidable True)
  | .followButtonPressed _ _ => inferInstanceAs (Decidable True)
  | .acceptRequest _ _ => inferInstanceAs (Decidable True)
  | .denyRequest _ _ => inferInstanceAs (Decidable True)
  | .switchToggled _ _ => inferInstanceAs (Decidable True)
  | .saveTrip _ _ => inferInstanceAs (Decidable True)
  | .editEntry _ _ => inferInstanceAs (Decidable True)
  | .deleteTrip _ _ => inferInstanceAs (Decidable True)

/-- What is left of a newsfeed stays followed when following does not shrink. -/
theorem Sound.of_docs (h : Sound db) {g : Uid → UserDoc → UserDoc}
    (hg : ∀ u, db'.users.lookup u = (db.users.lookup u).map (g u))
    (hfeed : ∀ u id f, db'.newsfeed.lookup (u, id) = some f →
      db.newsfeed.lookup (u, id) = some f ∧
        (∀ d, f.userID ∈ d.following → f.userID ∈ (g u d).following) ∨
      f.userID = u ∨ ∃ d, db.users.lookup u = some d ∧ f.userID ∈ (g u d).following) :
    Sound db' := by
  have hdoc : ∀ u d, db.users.lookup u = some d → db'.users.lookup u = some (g u d) := by
    intro u d hd
    rw [hg, hd]
    rfl
  intro u id f hf
  rcases hfeed u id f hf with ⟨hold, hkeep⟩ | hown | ⟨d, hd, hmem⟩
  · refine (h u id f hold).imp_right ?_
    rintro ⟨d, hd, hmem⟩
    exact ⟨g u d, hdoc u d hd, hkeep d hmem⟩
  · exact Or.inl hown
  · exact Or.inr ⟨g u d, hdoc u d hd, hmem⟩

/-- Following can only grow when `a` comes to follow `b`. -/
theorem mem_following_link {v : Uid} {d : UserDoc} (a b u : Uid) (hmem : v ∈ d.following) :
    v ∈ (link a b u d).following := by
  simp only [link]
  split
  · exact List.mem_append_left _ hmem
  · exact hmem

theorem mem_following_unlink {v : Uid} {d : UserDoc} (hne : ¬ (u = a ∧ v = b))
    (hmem : v ∈ d.following) : v ∈ (unlink a b u d).following := by
  simp only [unlink]
  split
  · rename_i hu
    simpa [hmem] using fun hv => hne ⟨hu, hv⟩
  · exact hmem

/-- An action that leaves nothing behind keeps newsfeeds sound. -/
theorem Sound.effect (hc : Coherent s) (h : Sound s.store) (hleft : nothingLeft s act)
    (he : Effect s s' act) : Sound s'.store := by
  cases he with
  | @signedUp uid username hnew hs =>
    intro u id f hf
    rw [hs] at hf ⊢
    refine (h u id f hf).imp_right ?_
    rintro ⟨d, hd, hmem⟩
    have hjoined : joined uid username s.store.userDocs u = some d := joined_eq hnew hd
    exact ⟨d, (Collection.lookup_insert_eq _ _ _ _).trans hjoined, hmem⟩
  | @linked a b d e hne ha hb hnot hpublic hs =>
    refine h.of_docs hs.users fun u id f hf => ?_
    rw [hs.newsfeed] at hf
    rcases feed_filled hc.integrity hf with hold | ⟨rfl, rfl, -⟩
    · exact Or.inl ⟨hold, fun d hmem => mem_following_link a b u hmem⟩
    · exact Or.inr (Or.inr ⟨d, ha, by simp [link]⟩)
  | asked _ _ _ _ _ hs =>
    refine h.of_docs hs.users fun u id f hf => ?_
    rw [hs.newsfeed] at hf
    exact Or.inl ⟨hf, fun _ hmem => hmem⟩
  | @unlinked a b d hne ha hfollowing hs =>
    refine h.of_docs hs.users fun u id f hf => ?_
    rw [hs.newsfeed] at hf
    obtain ⟨hold, hnot⟩ := feed_emptied hf
    exact Or.inl ⟨hold, fun d hmem => mem_following_unlink hnot hmem⟩
  | @unlisted a b d row ha hrow hs =>
    refine h.of_docs hs.users fun u id f hf => ?_
    rw [hs.newsfeed] at hf
    refine Or.inl ⟨hf, fun d' hmem => mem_following_unlink ?_ hmem⟩
    rintro ⟨rfl, hb⟩
    have hitem := mem_feedItems.mpr ⟨f, hf, hb⟩
    rw [hleft d ha b hrow] at hitem
    cases hitem
  | @accepted a b d row ha hrow hs =>
    obtain ⟨e, hb⟩ := hc.graph.known a d ha b (List.mem_of_getElem? hrow)
    refine h.of_docs hs.users fun u id f hf => ?_
    rw [hs.newsfeed] at hf
    rcases feed_filled hc.integrity hf with hold | ⟨rfl, rfl, -⟩
    · exact Or.inl ⟨hold, fun d hmem => mem_following_link b a u hmem⟩
    · exact Or.inr (Or.inr ⟨e, hb, by simp [link, dismiss]⟩)
  | denied _ _ hs =>
    refine h.of_docs hs.users fun u id f hf => ?_
    rw [hs.newsfeed] at hf
    exact Or.inl ⟨hf, fun _ hmem => hmem⟩
  | toggled hs =>
    refine h.of_docs hs.users fun u id f hf => ?_
    rw [hs.newsfeed] at hf
    exact Or.inl ⟨hf, fun _ hmem => by split <;> exact hmem⟩
  | @saved a d t screen ha huser hs =>
    refine h.of_docs hs.users fun u id f hf => ?_
    rcases feed_resaved hs hf with ⟨hu, -, hauthor⟩ | ⟨-, hold⟩
    · rw [huser] at hauthor
      rcases List.mem_append.mp hu with hu | hu
      · obtain ⟨e, he, hmem⟩ := (hc.graph.agree u a).mpr ⟨d, ha, hu⟩
        refine Or.inr (Or.inr ⟨e, he, ?_⟩)
        rw [hauthor]
        split <;> exact hmem
      · exact Or.inr (Or.inl (hauthor.trans (List.mem_singleton.mp hu).symm))
    · exact Or.inl ⟨hold, fun _ hmem => by split <;> exact hmem⟩
  | edited hs =>
    intro u id f hf
    rw [hs.newsfeed] at hf
    rw [hs.users]
    exact h u id f hf
  | kept _ _ hs => exact hs ▸ h
  | deleted _ _ _ _ hs =>
    refine h.of_docs hs.users fun u id f hf => ?_
    exact Or.inl ⟨(feed_deleted hs hf).2, fun _ hmem => by split <;> exact hmem⟩

/-- What is unfollowed in the list stays in the newsfeed. -/
theorem nothingLeft_of_sound (hc : Coherent s) (he : Effect s s' act) (h : Sound s'.store) :
    nothingLeft s act := by
  cases act with
  | unfollow a row =>
    intro d ha b hrow
    refine List.eq_nil_iff_forall_not_mem.mpr fun id hitem => ?_
    obtain ⟨f, hf, hb⟩ := mem_feedItems.mp hitem
    cases he with
    | @unlisted _ b' d' _ ha' hrow' hs =>
      cases ha.symm.trans ha'
      cases hrow.symm.trans hrow'
      have hmem := List.mem_of_getElem? hrow
      rcases h a id f (hs.newsfeed ▸ hf) with hown | ⟨e, he, hmem'⟩
      · rw [← hb, hown] at hmem
        exact hc.graph.notMem_following ha hmem
      · rw [hs.users, ha] at he
        cases he
        simp [unlink, hb] at hmem'
  | _ => trivial

/-! ## What a newsfeed shows exists -/

/-- The entries of all newsfeed documents exist. -/
def Present (db : Firestore) : Prop :=
  ∀ u id f, db.newsfeed.lookup (u, id) = some f → ∃ e, db.entries.lookup id = some e

/-- The users who have an entry in the newsfeed. -/
def Firestore.readers (db : Firestore) (id : EntryID) : List Uid :=
  (db.newsfeed.docs.filter fun x => x.1.2 = id).map fun x => x.1.1

theorem mem_readers : u ∈ db.readers id ↔ ∃ f, db.newsfeed.lookup (u, id) = some f := by
  simp only [readers, List.mem_map, List.mem_filter, decide_eq_true_eq]
  constructor
  · rintro ⟨⟨⟨u, id⟩, f⟩, ⟨hmem, rfl⟩, rfl⟩
    exact ⟨f, Collection.mem_docs.mp hmem⟩
  · rintro ⟨f, hf⟩
    exact ⟨((u, id), f), ⟨Collection.mem_docs.mpr hf, rfl⟩, rfl⟩

/-- Entries are deleted only while nobody but followers of the author, and the author, has them in
the newsfeed. A trip without a cover is not deleted. -/
def seenByFollowers (s : Backend) : Action → Prop
  | .saveTrip a screen => ∀ d ∈ s.store.users.lookup a, ∀ id ∈ screen.deletedIds,
    ∀ u ∈ s.store.readers id, u ∈ d.followers ++ [a]
  | .deleteTrip a t => ∀ d ∈ s.store.users.lookup a, ∀ e ∈ s.store.trips.lookup t,
    e.coverPhoto ≠ none → ∀ id ∈ e.entries, ∀ u ∈ s.store.readers id, u ∈ d.followers ++ [a]
  | _ => True

instance (s : Backend) : DecidablePred (seenByFollowers s)
  | .saveTrip a screen => inferInstanceAs (Decidable (∀ d ∈ s.store.users.lookup a,
      ∀ id ∈ screen.deletedIds, ∀ u ∈ s.store.readers id, u ∈ d.followers ++ [a]))
  | .deleteTrip a t => inferInstanceAs (Decidable (∀ d ∈ s.store.users.lookup a,
      ∀ e ∈ s.store.trips.lookup t, e.coverPhoto ≠ none →
        ∀ id ∈ e.entries, ∀ u ∈ s.store.readers id, u ∈ d.followers ++ [a]))
  | .signUp _ _ => inferInstanceAs (Decidable True)
  | .followButtonPressed _ _ => inferInstanceAs (Decidable True)
  | .unfollow _ _ => inferInstanceAs (Decidable True)
  | .acceptRequest _ _ => inferInstanceAs (Decidable True)
  | .denyRequest _ _ => inferInstanceAs (Decidable True)
  | .switchToggled _ _ => inferInstanceAs (Decidable True)
  | .editEntry _ _ => inferInstanceAs (Decidable True)

/-- No entry goes, and no newsfeed document comes. -/
theorem Present.of_le (h : Present db)
    (hentries : ∀ id e, db.entries.lookup id = some e → ∃ e', db'.entries.lookup id = some e')
    (hfeed : ∀ u id f, db'.newsfeed.lookup (u, id) = some f →
      db.newsfeed.lookup (u, id) = some f ∨ ∃ e, db.entries.lookup id = some e) :
    Present db' := by
  intro u id f hf
  obtain ⟨e, he⟩ := (hfeed u id f hf).elim (h u id f) fun he => he
  exact hentries id e he

/-- An action that deletes only what nobody but followers sees keeps newsfeeds free of what does
not exist. -/
theorem Present.effect (hi : Integrity s.store) (h : Present s.store)
    (hseen : seenByFollowers s act) (he : Effect s s' act) : Present s'.store := by
  have hsocial : ∀ {g feed}, Social g feed s.store s'.store →
      (∀ u id f, feed.lookup (u, id) = some f →
        s.store.newsfeed.lookup (u, id) = some f ∨ ∃ e, s.store.entries.lookup id = some e) →
      Present s'.store := fun hs hfeed =>
    h.of_le (fun id e he => ⟨e, hs.entries ▸ he⟩) fun u id f hf => hfeed u id f (hs.newsfeed ▸ hf)
  cases he with
  | signedUp hnew hs =>
    intro u id f hf
    rw [hs] at hf ⊢
    exact h u id f hf
  | linked _ _ _ _ _ hs =>
    exact hsocial hs fun u id f hf => (feed_filled hi hf).imp_right fun ⟨_, _, e, he, _⟩ => ⟨e, he⟩
  | asked _ _ _ _ _ hs => exact hsocial hs fun _ _ _ => Or.inl
  | unlinked _ _ _ hs => exact hsocial hs fun _ _ _ hf => Or.inl (feed_emptied hf).1
  | unlisted _ _ hs => exact hsocial hs fun _ _ _ => Or.inl
  | accepted _ _ hs =>
    exact hsocial hs fun u id f hf => (feed_filled hi hf).imp_right fun ⟨_, _, e, he, _⟩ => ⟨e, he⟩
  | denied _ _ hs => exact hsocial hs fun _ _ _ => Or.inl
  | toggled hs => exact hsocial hs fun _ _ _ => Or.inl
  | @saved a d t screen ha huser hs =>
    intro u id f hf
    by_cases hid : id ∈ screen.ids
    · obtain ⟨i, hi⟩ := List.getElem?_of_mem hid
      obtain ⟨e, he, -⟩ := hs.listed i id hi
      exact ⟨e, he⟩
    · obtain ⟨hnot, hold⟩ := (feed_resaved hs hf).resolve_left fun hmem => hid hmem.2.1
      by_cases hid' : id ∈ screen.deletedIds
      · exact absurd ⟨hseen d ha id hid' u (mem_readers.mpr ⟨f, hold⟩), hid'⟩ hnot
      · rw [hs.entries id hid hid']
        exact h u id f hold
  | edited hs =>
    refine h.of_le (fun id e he => ?_) fun u id f hf => Or.inl (hs.newsfeed ▸ hf)
    obtain ⟨e', he', -⟩ := hs.of_some he
    exact ⟨e', he'⟩
  | kept _ _ hs => exact hs ▸ h
  | @deleted me d t ha ht howner hcover hs =>
    intro u id f hf
    obtain ⟨hnot, hold⟩ := feed_deleted hs hf
    rcases hs.entries id with hsame | ⟨hid, -⟩
    · rw [hsame]
      exact h u id f hold
    · exact absurd ⟨hid, hseen _ ha d ht hcover id hid u (mem_readers.mpr ⟨f, hold⟩)⟩ hnot

/-- What is deleted stays in the newsfeeds of others than the followers. -/
theorem seenByFollowers_of_present (he : Effect s s' act) (h : Present s'.store) :
    seenByFollowers s act := by
  cases act with
  | saveTrip a screen =>
    intro d ha id hid u hu
    obtain ⟨f, hf⟩ := mem_readers.mp hu
    cases he with
    | @saved _ d' t _ ha' huser hs =>
      cases ha.symm.trans ha'
      by_contra hnot
      obtain ⟨e, he⟩ := h u id f ((hs.newsfeed u id (Or.inl hnot)).trans hf)
      rw [(hs.deleted id hid).2.1] at he
      cases he
  | deleteTrip a t =>
    intro d ha e ht hcover id hid u hu
    obtain ⟨f, hf⟩ := mem_readers.mp hu
    cases he with
    | kept ht' hcover' =>
      cases ht.symm.trans ht'
      exact absurd hcover' hcover
    | @deleted me d' _ ha' ht' howner _ hs =>
      cases ha.symm.trans ha'
      cases ht.symm.trans ht'
      by_contra hnot
      obtain ⟨e', he'⟩ := h u id f (by rw [hs.newsfeed, if_neg fun hmem => hnot hmem.2, hf])
      rw [(hs.gone id hid).resolve_left (Set.notMem_empty id)] at he'
      cases he'
  | _ => trivial

/-! ## What a newsfeed should show is there -/

/-- The latest 20 entries of everyone that a user follows, and of the user, are in the newsfeed
with their times. -/
def Complete (db : Firestore) : Prop :=
  ∀ u d id e, db.users.lookup u = some d → db.entries.lookup id = some e →
    (e.userID = u ∨ e.userID ∈ d.following) → db.newer e.userID e.timestamp < 20 →
      db.newsfeed.lookup (u, id) = some ⟨e.timestamp, e.userID⟩

/-- No entry and no trip is deleted. -/
def nothingDeleted (s : Backend) : Action → Prop
  | .saveTrip _ screen => ∀ id ∈ screen.deletedIds, s.store.entries.lookup id = none
  | .deleteTrip _ _ => False
  | _ => True

instance (s : Backend) : DecidablePred (nothingDeleted s)
  | .saveTrip _ screen =>
    inferInstanceAs (Decidable (∀ id ∈ screen.deletedIds, s.store.entries.lookup id = none))
  | .deleteTrip _ _ => inferInstanceAs (Decidable False)
  | .signUp _ _ => inferInstanceAs (Decidable True)
  | .followButtonPressed _ _ => inferInstanceAs (Decidable True)
  | .unfollow _ _ => inferInstanceAs (Decidable True)
  | .acceptRequest _ _ => inferInstanceAs (Decidable True)
  | .denyRequest _ _ => inferInstanceAs (Decidable True)
  | .switchToggled _ _ => inferInstanceAs (Decidable True)
  | .editEntry _ _ => inferInstanceAs (Decidable True)

/-- The times of the entries stay different and before the present. -/
theorem stamped_effect (h : s.store.Stamped s.now) (he : Effect s s' act) :
    s'.store.Stamped s'.now := by
  have hsame : s'.store.entries = s.store.entries → s'.now = s.now → s'.store.Stamped s'.now :=
    fun hentries hnow => hnow ▸ h.of_entries fun id e he => ⟨e, hentries ▸ he, rfl⟩
  cases he with
  | signedUp _ hs hnow => exact hsame (by rw [hs]) hnow
  | linked _ _ _ _ _ hs hnow => exact hsame hs.entries hnow
  | asked _ _ _ _ _ hs hnow => exact hsame hs.entries hnow
  | unlinked _ _ _ hs hnow => exact hsame hs.entries hnow
  | unlisted _ _ hs hnow => exact hsame hs.entries hnow
  | accepted _ _ hs hnow => exact hsame hs.entries hnow
  | denied _ _ hs hnow => exact hsame hs.entries hnow
  | toggled hs hnow => exact hsame hs.entries hnow
  | saved _ _ _ hnow => exact (hnow h).2
  | edited hs hnow =>
    refine hnow ▸ h.of_entries fun id e' he' => ?_
    obtain ⟨e, he, hr⟩ := hs.some_of he'
    exact ⟨e, he, hr.timestamp⟩
  | kept _ _ hs hnow => exact hsame (by rw [hs]) hnow
  | deleted _ _ _ _ hs hnow =>
    refine hnow ▸ h.of_entries fun id e' he' => ?_
    rcases hs.entries id with heq | ⟨-, hnone⟩
    · exact ⟨e', heq.symm.trans he', rfl⟩
    · rw [hnone] at he'
      cases he'

/-- A backfill leaves what is right in the newsfeed. -/
theorem feed_filled_of_feed (hi : Integrity db) {e : EntryDoc} (he : db.entries.lookup id = some e)
    (h : db.newsfeed.lookup (u, id) = some ⟨e.timestamp, e.userID⟩) :
    (db.filled a b).lookup (u, id) = some ⟨e.timestamp, e.userID⟩ := by
  rcases lookup_filled db a b u id with hsame | ⟨-, e', he', hid, hwritten⟩
  · rw [hsame, h]
  · obtain ⟨hlookup, hauthor⟩ := of_mem_latestEntries he'
    have hname : e'.1 = id := (hi.named e'.1 e'.2 hlookup).symm.trans hid
    rw [hname, he] at hlookup
    cases hlookup
    rw [hwritten, hauthor]

/-- A backfill writes the latest 20 entries of the author. -/
theorem feed_filled_of_newer (hi : Integrity db) {now : Timestamp} (hs : db.Stamped now)
    {e : EntryDoc} (he : db.entries.lookup id = some e)
    (hnewer : db.newer e.userID e.timestamp < 20) :
    (db.filled u e.userID).lookup (u, id) = some ⟨e.timestamp, e.userID⟩ := by
  obtain ⟨e', he', hid, hwritten⟩ := lookup_filled_of_mem (mem_latestEntries hs he hnewer) u
  obtain ⟨hlookup, -⟩ := of_mem_latestEntries he'
  have hname : e'.1 = id :=
    (hi.named e'.1 e'.2 hlookup).symm.trans (hid.trans (hi.named id e he))
  rw [hname, he] at hlookup
  cases hlookup
  rwa [hi.named id _ he] at hwritten

/-- Users follow no more, trips and entries are the same, and what the newsfeeds should show is
left alone. -/
theorem Complete.social (h : Complete db) {g : Uid → UserDoc → UserDoc}
    {feed : Collection (Uid × EntryID) FeedDoc} (hs : Social g feed db db')
    (hfeed : ∀ u d id e, db.users.lookup u = some d → db.entries.lookup id = some e →
      (e.userID = u ∨ e.userID ∈ (g u d).following) → db.newer e.userID e.timestamp < 20 →
      ((e.userID = u ∨ e.userID ∈ d.following) →
        db.newsfeed.lookup (u, id) = some ⟨e.timestamp, e.userID⟩) →
      feed.lookup (u, id) = some ⟨e.timestamp, e.userID⟩) : Complete db' := by
  intro u d' id e hd' he hauthor hnewer
  rw [hs.users] at hd'
  obtain ⟨d, hd, rfl⟩ := Option.map_eq_some_iff.mp hd'
  rw [hs.entries] at he
  rw [newer, hs.entries] at hnewer
  rw [hs.newsfeed]
  exact hfeed u d id e hd he hauthor hnewer fun hold => h u d id e hd he hold hnewer

/-- Only `a` comes to follow somebody, and only `b`. -/
theorem mem_following_of_link {v : Uid} {d : UserDoc} (hne : ¬ (u = a ∧ v = b))
    (hmem : v ∈ (link a b u d).following) : v ∈ d.following := by
  simp only [link] at hmem
  split at hmem
  · rename_i hu
    refine (List.mem_append.mp hmem).resolve_right fun hv => hne ⟨hu, List.mem_singleton.mp hv⟩
  · exact hmem

theorem of_mem_following_unlink {v : Uid} {d : UserDoc}
    (hmem : v ∈ (unlink a b u d).following) : v ∈ d.following ∧ ¬ (u = a ∧ v = b) := by
  simp only [unlink] at hmem
  split at hmem
  · simp only [List.mem_filter, decide_eq_true_eq] at hmem
    exact ⟨hmem.1, fun hv => hmem.2 hv.2⟩
  · rename_i hu
    exact ⟨hmem, fun hv => hu hv.1⟩

/-- A backfill after somebody has been followed. -/
theorem Complete.filled (hi : Integrity db) {now : Timestamp} (hstamp : db.Stamped now)
    (h : Complete db) {g : Uid → UserDoc → UserDoc} (hs : Social g (db.filled a b) db db')
    (hg : ∀ u d v, ¬ (u = a ∧ v = b) → v ∈ (g u d).following → v ∈ d.following) :
    Complete db' := by
  refine h.social hs fun u d id e _ he hauthor hnewer hfeed => ?_
  by_cases hnew : u = a ∧ e.userID = b
  · obtain ⟨rfl, rfl⟩ := hnew
    exact feed_filled_of_newer hi hstamp he hnewer
  · exact feed_filled_of_feed hi he (hfeed (hauthor.imp_right (hg u d _ hnew)))

/-- What a save does not touch has as many newer entries after it, or more. -/
theorem newer_le_of_resaved (hi : Integrity db) {l : EditTrip} {feeds : List Uid} {t : TripID}
    (hs : l.Resaved feeds t db db') (hstamp : db.Stamped l.now)
    (hdel : ∀ id ∈ l.deletedIds, db.entries.lookup id = none) {e : EntryDoc}
    (he : db.entries.lookup id = some e) :
    db.newer e.userID e.timestamp ≤ db'.newer e.userID e.timestamp := by
  refine newer_le fun id' e' he' hauthor htime => ?_
  by_cases hid : id' ∈ l.ids
  · obtain ⟨i, hi'⟩ := List.getElem?_of_mem hid
    obtain ⟨e₂, he₂, -, -, -, hu₂, hnow, -⟩ := hs.listed i id' hi'
    -- an entry that is saved again is by the user
    have huser : e'.userID = l.user := by
      rcases hs.source id' (Or.inl hid) with hnone | ⟨d, hd, hmem⟩
      · rw [he'] at hnone
        cases hnone
      · obtain ⟨e₃, he₃, ht⟩ := hi.tripID_of_mem hd hmem
        rw [he'] at he₃
        cases he₃
        rw [hi.author id' e' t d he' ht hd]
        rcases hs.target with ⟨-, hnone⟩ | ⟨-, d', hd', hu', -⟩
        · rw [hd] at hnone
          cases hnone
        · rw [hd] at hd'
          cases hd'
          exact hu'
    exact ⟨e₂, he₂, hu₂.trans (huser.symm.trans hauthor), (hstamp.past id e he).trans_le hnow⟩
  · by_cases hid' : id' ∈ l.deletedIds
    · rw [hdel id' hid'] at he'
      cases he'
    · exact ⟨e', (hs.entries id' hid hid').trans he', hauthor, htime⟩

/-- An action that deletes nothing keeps newsfeeds complete. -/
theorem Complete.effect (hc : Coherent s) (hstamp : s.store.Stamped s.now) (h : Complete s.store)
    (hkeep : nothingDeleted s act) (he : Effect s s' act) : Complete s'.store := by
  cases he with
  | @signedUp uid username hnew hs =>
    intro u d id e hd he hauthor hnewer
    rw [hs] at hd he hnewer ⊢
    change (s.store.users.insert uid (newUser username)).lookup u = some d at hd
    rw [Collection.lookup_insert_eq] at hd
    split at hd
    · rename_i hu
      cases hd
      -- who has just signed up has no entries
      obtain ⟨d', hd'⟩ := hc.integrity.author_exists he
      rcases hauthor with hown | hmem
      · rw [hown, hu, hnew] at hd'
        cases hd'
      · cases hmem
    · exact h u d id e hd he hauthor hnewer
  | linked _ _ _ _ _ hs =>
    exact h.filled hc.integrity hstamp hs fun u d v hne hmem => mem_following_of_link hne hmem
  | asked _ _ _ _ _ hs =>
    exact h.social hs fun u d id e _ _ hauthor _ hfeed => hfeed hauthor
  | @unlinked a b d hne ha hfollowing hs =>
    refine h.social hs fun u d' id e _ _ hauthor _ hfeed => ?_
    have hnot : ¬ (u = a ∧ e.userID = b) := by
      rintro ⟨rfl, hb⟩
      rcases hauthor with hown | hmem
      · exact hne (hown.symm.trans hb)
      · exact (of_mem_following_unlink hmem).2 ⟨rfl, hb⟩
    have hold := hfeed (hauthor.imp_right fun hmem => (of_mem_following_unlink hmem).1)
    rw [lookup_emptied, if_neg, hold]
    rintro ⟨rfl, hitem⟩
    obtain ⟨f, hf, hb⟩ := mem_feedItems.mp hitem
    rw [hold] at hf
    cases hf
    exact hnot ⟨rfl, hb⟩
  | unlisted _ _ hs =>
    exact h.social hs fun u d id e _ _ hauthor _ hfeed =>
      hfeed (hauthor.imp_right fun hmem => (of_mem_following_unlink hmem).1)
  | accepted _ _ hs =>
    exact h.filled hc.integrity hstamp hs fun u d v hne hmem => mem_following_of_link hne hmem
  | denied _ _ hs =>
    exact h.social hs fun u d id e _ _ hauthor _ hfeed => hfeed hauthor
  | toggled hs =>
    refine h.social hs fun u d id e _ _ hauthor _ hfeed => hfeed (hauthor.imp_right fun hmem => ?_)
    split at hmem <;> exact hmem
  | @saved a d t screen ha huser hs hnow =>
    intro u d' id e hd' he hauthor hnewer
    obtain ⟨d₀, hd₀, hlists⟩ : ∃ d₀, s.store.users.lookup u = some d₀ ∧
        d'.following = d₀.following := by
      rw [hs.users] at hd'
      obtain ⟨d₀, hd₀, rfl⟩ := Option.map_eq_some_iff.mp hd'
      exact ⟨d₀, hd₀, by split <;> rfl⟩
    rw [hlists] at hauthor
    by_cases hid : id ∈ screen.ids
    · obtain ⟨i, hi⟩ := List.getElem?_of_mem hid
      obtain ⟨e', he', -, -, -, hu', -, hfeed⟩ := hs.listed i id hi
      rw [he] at he'
      cases he'
      rw [hu', huser] at hauthor ⊢
      rw [hfeed u, huser]
      rcases hauthor with rfl | hmem
      · simp
      · exact List.mem_append_left _ ((hc.graph.mem_following_iff hd₀ ha).mp hmem)
    · by_cases hid' : id ∈ screen.deletedIds
      · rw [(hs.deleted id hid').2.1] at he
        cases he
      · rw [hs.entries id hid hid'] at he
        rw [hs.newsfeed u id (Or.inr ⟨hid, hid'⟩)]
        exact h u d₀ id e hd₀ he hauthor
          ((newer_le_of_resaved hc.integrity hs (hnow hstamp).1 hkeep he).trans_lt hnewer)
  | edited hs =>
    intro u d id e' hd he' hauthor hnewer
    obtain ⟨e, he, hr⟩ := hs.some_of he'
    rw [hr.userID, hr.timestamp] at hnewer ⊢
    rw [hr.userID] at hauthor
    rw [hs.users] at hd
    rw [hs.newsfeed]
    refine h u d id e hd he hauthor ((newer_le fun id₂ e₂ he₂ hauthor₂ htime => ?_).trans_lt hnewer)
    obtain ⟨e₃, he₃, hr₃⟩ := hs.of_some he₂
    exact ⟨e₃, he₃, hr₃.userID.trans hauthor₂, hr₃.timestamp.symm ▸ htime⟩
  | kept => exact hkeep.elim
  | deleted => exact hkeep.elim

/-- The invariant of runs in which nothing is deleted. -/
structure Fed (s : Backend) : Prop where
  coherent : Coherent s
  stamped : s.store.Stamped s.now
  complete : Complete s.store

theorem Fed.empty : Fed .empty where
  coherent := .empty
  stamped := ⟨fun id e he => (by cases he), fun id e id' e' he => (by cases he)⟩
  complete := fun u d id e hd => by cases hd

theorem Fed.step (h : Fed s) (hs : Step s act s') (hkeep : nothingDeleted s act) : Fed s' where
  coherent := h.coherent.step hs
  stamped := stamped_effect h.stamped (h.coherent.effect_of_step hs)
  complete := h.complete.effect h.coherent h.stamped hkeep (h.coherent.effect_of_step hs)

/-- The 10 most recent entries of a number of authors are each among the latest 20 of their
author. -/
theorem newer_lt_of_mem_newest {p : EntryDoc → Bool} {n : ℕ} {x : EntryID × EntryDoc}
    (h : x ∈ newest (fun e => e.2.timestamp) n (db.entries.docs.filter fun e => p e.2))
    (hp : ∀ e, e.userID = x.2.userID → p e) : db.newer x.2.userID x.2.timestamp < n := by
  refine lt_of_le_of_lt ?_ (countP_lt_of_mem_newest h)
  rw [newer, List.countP_filter, List.countP_filter]
  refine List.countP_mono_left fun e _ he => ?_
  simp only [Bool.and_eq_true, decide_eq_true_eq] at he ⊢
  exact ⟨he.1, hp e.2 he.2⟩

end

/-- **Newsfeeds show only what is followed, exactly as long as nobody is unfollowed in the list of
followed users while the newsfeed shows something of theirs.** -/
theorem sound_iff_nothingLeft {tr : List (Action × Backend)} (h : IsRun Step .empty tr) :
    (∀ x ∈ tr, ∀ u id f, x.2.store.newsfeed.lookup (u, id) = some f →
      f.userID = u ∨ ∃ d, x.2.store.users.lookup u = some d ∧ f.userID ∈ d.following) ↔
      Meets nothingLeft .empty tr := by
  have hempty : Sound Firestore.empty := fun u id f hf => by cases hf
  exact h.forall_iff_meets (I := fun s => Coherent s ∧ Sound s.store) (G := fun s => Sound s.store)
    (fun _ hs => hs.2)
    (fun s act s' hs hstep hleft => ⟨hs.1.step hstep,
      hs.2.effect hs.1 hleft (hs.1.effect_of_step hstep)⟩)
    (fun s act s' hs hstep hgood => nothingLeft_of_sound hs.1 (hs.1.effect_of_step hstep) hgood)
    ⟨.empty, hempty⟩

/-- A run in which nothing is left behind. -/
theorem sound_iff_nothingLeft_sample : ∃ tr, IsRun Step .empty tr ∧ tr.length = 5 ∧
    ∀ x ∈ tr, ∀ u id f, x.2.store.newsfeed.lookup (u, id) = some f →
      f.userID = u ∨ ∃ d, x.2.store.users.lookup u = some d ∧ f.userID ∈ d.following := by
  obtain ⟨tr, htr⟩ := Option.isSome_iff_exists.mp
    (by decide +kernel : (performAll samplePublished .empty).isSome)
  have hmeets : ∀ tr ∈ performAll samplePublished .empty,
      tr.length = 5 ∧ Meets nothingLeft .empty tr := by decide +kernel
  have hrun := isRun_of_performAll htr
  exact ⟨tr, hrun, (hmeets tr htr).1, (sound_iff_nothingLeft hrun).mpr (hmeets tr htr).2⟩

/-- A run in which something is: Ann unfollows Bob in the list, and still has Bob's entry in the
newsfeed. -/
theorem unfollowed_shown : ∃ tr, IsRun Step .empty tr ∧
    ∃ x ∈ tr, ∃ f d, x.2.store.newsfeed.lookup ("ann", "a") = some f ∧ f.userID ≠ "ann" ∧
      x.2.store.users.lookup "ann" = some d ∧ f.userID ∉ d.following := by
  obtain ⟨tr, htr⟩ := Option.isSome_iff_exists.mp
    (by decide +kernel : (performAll sampleDeleted .empty).isSome)
  have hfeed : ∀ tr ∈ performAll sampleDeleted .empty, ∃ x ∈ tr,
      ∃ f ∈ x.2.store.newsfeed.lookup ("ann", "a"), ∃ d ∈ x.2.store.users.lookup "ann",
        f.userID ≠ "ann" ∧ f.userID ∉ d.following := by decide +kernel
  obtain ⟨x, hx, f, hf, d, hd, hne, hnot⟩ := hfeed tr htr
  exact ⟨tr, isRun_of_performAll htr, x, hx, f, d, hf, hne, hd, hnot⟩

/-- **What the newsfeeds show exists, exactly as long as entries are deleted only while nobody but
followers of the author, and the author, has them in the newsfeed.** -/
theorem present_iff_seenByFollowers {tr : List (Action × Backend)} (h : IsRun Step .empty tr) :
    (∀ x ∈ tr, ∀ u id f, x.2.store.newsfeed.lookup (u, id) = some f →
      ∃ e, x.2.store.entries.lookup id = some e) ↔ Meets seenByFollowers .empty tr := by
  have hempty : Present Firestore.empty := fun u id f hf => by cases hf
  exact h.forall_iff_meets (I := fun s => Coherent s ∧ Present s.store)
    (G := fun s => Present s.store) (fun _ hs => hs.2)
    (fun s act s' hs hstep hseen => ⟨hs.1.step hstep,
      hs.2.effect hs.1.integrity hseen (hs.1.effect_of_step hstep)⟩)
    (fun s act s' hs hstep hgood => seenByFollowers_of_present (hs.1.effect_of_step hstep) hgood)
    ⟨.empty, hempty⟩

/-- A run in which only followers have what is deleted. -/
theorem present_iff_seenByFollowers_sample : ∃ tr, IsRun Step .empty tr ∧ tr.length = 5 ∧
    ∀ x ∈ tr, ∀ u id f, x.2.store.newsfeed.lookup (u, id) = some f →
      ∃ e, x.2.store.entries.lookup id = some e := by
  obtain ⟨tr, htr⟩ := Option.isSome_iff_exists.mp
    (by decide +kernel : (performAll samplePublished .empty).isSome)
  have hmeets : ∀ tr ∈ performAll samplePublished .empty,
      tr.length = 5 ∧ Meets seenByFollowers .empty tr := by decide +kernel
  have hrun := isRun_of_performAll htr
  exact ⟨tr, hrun, (hmeets tr htr).1, (present_iff_seenByFollowers hrun).mpr (hmeets tr htr).2⟩

/-- A run in which others do: Ann unfollows Bob in the list, Bob deletes the trip, and Ann has an
entry in the newsfeed that is gone. -/
theorem deleted_shown : ∃ tr, IsRun Step .empty tr ∧
    ∃ x ∈ tr, ∃ f, x.2.store.newsfeed.lookup ("ann", "a") = some f ∧
      x.2.store.entries.lookup "a" = none := by
  obtain ⟨tr, htr⟩ := Option.isSome_iff_exists.mp
    (by decide +kernel : (performAll sampleDeleted .empty).isSome)
  have hfeed : ∀ tr ∈ performAll sampleDeleted .empty, ∃ x ∈ tr,
      ∃ f ∈ x.2.store.newsfeed.lookup ("ann", "a"), x.2.store.entries.lookup "a" = none := by
    decide +kernel
  obtain ⟨x, hx, f, hf, hnone⟩ := hfeed tr htr
  exact ⟨tr, isRun_of_performAll htr, x, hx, f, hf, hnone⟩

/-- **No recent entry is missing as long as nothing is deleted**: the newsfeed has the 10 most
recent entries of the user and of all whom the user follows. -/
theorem recent_entries_shown {tr : List (Action × Backend)} (h : IsRun Step .empty tr)
    (hkeep : Meets nothingDeleted .empty tr) :
    ∀ x ∈ tr, ∀ u d, x.2.store.users.lookup u = some d →
      ∀ e ∈ newest (fun e => e.2.timestamp) 10
          (x.2.store.entries.docs.filter fun e => e.2.userID = u ∨ e.2.userID ∈ d.following),
        x.2.store.newsfeed.lookup (u, e.1) = some ⟨e.2.timestamp, e.2.userID⟩ := by
  intro x hx u d hd e he
  have hstep : ∀ s act s', Fed s → Step s act s' → nothingDeleted s act → Fed s' :=
    fun _ _ _ => Fed.step
  have hfed := h.invariant hstep .empty hkeep x hx
  have hmem := List.mem_filter.mp (mem_of_mem_newest he)
  have hauthor : e.2.userID = u ∨ e.2.userID ∈ d.following := by simpa using hmem.2
  refine hfed.complete u d e.1 e.2 hd (Collection.mem_docs.mp hmem.1) hauthor ?_
  have hlt := newer_lt_of_mem_newest (p := fun e => e.userID = u ∨ e.userID ∈ d.following) he
    fun e' he' => by simpa [he'] using hauthor
  omega

/-- A run in which something is published: it is in the newsfeed of the follower. -/
theorem recent_entries_shown_sample : ∃ tr, IsRun Step .empty tr ∧
    ∃ x ∈ tr, ∃ f, x.2.store.newsfeed.lookup ("ann", "a") = some f ∧ f.userID = "bob" := by
  obtain ⟨tr, htr⟩ := Option.isSome_iff_exists.mp
    (by decide +kernel : (performAll samplePublished .empty).isSome)
  have hmeets : ∀ tr ∈ performAll samplePublished .empty,
      Meets nothingDeleted .empty tr ∧ ∃ x ∈ tr, ∃ d ∈ x.2.store.users.lookup "ann",
        ∃ e ∈ newest (fun e => e.2.timestamp) 10
          (x.2.store.entries.docs.filter fun e => e.2.userID = "ann" ∨ e.2.userID ∈ d.following),
          e.1 = "a" ∧ e.2.userID = "bob" := by decide +kernel
  obtain ⟨hkeep, x, hx, d, hd, e, he, hid, hauthor⟩ := hmeets tr htr
  have hrun := isRun_of_performAll htr
  have hfeed := recent_entries_shown hrun hkeep x hx "ann" d hd e he
  rw [hid] at hfeed
  exact ⟨tr, hrun, x, hx, _, hfeed, hauthor⟩

end Wanderlust
