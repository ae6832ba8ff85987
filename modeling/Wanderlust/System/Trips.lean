import Wanderlust.System.Scripts

/-!
# Users, trips and entries

The database links users, trips and entries in both directions, and the actions change both ends
of the links by separate writes. `Integrity` says that the ends agree; every action keeps it
(`Integrity.step`), so that it holds in every state of every run.
-/

namespace Wanderlust

open Runs

/-- The links of users, trips and entries are there in both directions. -/
structure Referential (db : Firestore) : Prop where
  owned : ∀ u t, (∃ d, db.users.lookup u = some d ∧ t ∈ d.trips) ↔
    ∃ d, db.trips.lookup t = some d ∧ d.userID = u
  once : ∀ u d, db.users.lookup u = some d → d.trips.Nodup
  nodup : ∀ t d, db.trips.lookup t = some d → d.entries.Nodup
  listed : ∀ t d, db.trips.lookup t = some d → ∀ i id, d.entries[i]? = some id →
    ∃ e, db.entries.lookup id = some e ∧ e.tripID = some t ∧ e.entryOrder = i
  linked : ∀ id e, db.entries.lookup id = some e →
    ∃ t d, e.tripID = some t ∧ db.trips.lookup t = some d ∧ id ∈ d.entries

/-- Besides, entries are by the owner of their trip, and know their names. -/
structure Integrity (db : Firestore) : Prop extends Referential db where
  author : ∀ id e t d, db.entries.lookup id = some e → e.tripID = some t →
    db.trips.lookup t = some d → e.userID = d.userID
  named : ∀ id e, db.entries.lookup id = some e → e.entryID = id

theorem nodup_append_singleton {α : Type*} {l : List α} {a : α} (h : l.Nodup) (ha : a ∉ l) :
    (l ++ [a]).Nodup := by
  rw [← List.concat_eq_append]
  exact h.concat ha

namespace Integrity

open Firestore

variable {db db' : Firestore}

theorem empty : Integrity Firestore.empty where
  owned u t := by
    constructor <;> rintro ⟨d, hd, -⟩ <;> cases hd
  once u d hd := by cases hd
  nodup t d hd := by cases hd
  listed t d hd := by cases hd
  linked id e he := by cases he
  author id e t d he := by cases he
  named id e he := by cases he

/-- An entry of a trip is linked to it. -/
theorem tripID_of_mem (h : Integrity db) {t : TripID} {d : TripDoc}
    (hd : db.trips.lookup t = some d) {id : EntryID} (hid : id ∈ d.entries) :
    ∃ e, db.entries.lookup id = some e ∧ e.tripID = some t := by
  obtain ⟨i, hi⟩ := List.getElem?_of_mem hid
  obtain ⟨e, he, ht, -⟩ := h.listed t d hd i id hi
  exact ⟨e, he, ht⟩

/-- An author of an entry has signed up. -/
theorem author_exists (h : Integrity db) {id : EntryID} {e : EntryDoc}
    (he : db.entries.lookup id = some e) : ∃ d, db.users.lookup e.userID = some d := by
  obtain ⟨t, d, ht, hd, -⟩ := h.linked id e he
  obtain ⟨d', hd', -⟩ := (h.owned e.userID t).mpr ⟨d, hd, (h.author id e t d he ht hd).symm⟩
  exact ⟨d', hd'⟩

/-- Trips and entries are the same, and the users have the trips that they had. -/
theorem of_users (h : Integrity db) (htrips : db'.trips = db.trips)
    (hentries : db'.entries = db.entries)
    (husers : ∀ u t, (∃ d, db'.users.lookup u = some d ∧ t ∈ d.trips) ↔
      ∃ d, db.users.lookup u = some d ∧ t ∈ d.trips)
    (honce : ∀ u d, db'.users.lookup u = some d → d.trips.Nodup) : Integrity db' where
  owned u t := by rw [husers, htrips, h.owned]
  once := honce
  nodup := by rw [htrips]; exact h.nodup
  listed := by rw [htrips, hentries]; exact h.listed
  linked := by rw [htrips, hentries]; exact h.linked
  author := by rw [htrips, hentries]; exact h.author
  named := by rw [hentries]; exact h.named

/-- What users do to each other. -/
theorem social (h : Integrity db) {f : Uid → UserDoc → UserDoc}
    {feed : Collection (Uid × EntryID) FeedDoc} (hs : Social f feed db db')
    (hf : ∀ u d, (f u d).trips = d.trips) : Integrity db' := by
  have hdoc : ∀ u d', db'.users.lookup u = some d' →
      ∃ d, db.users.lookup u = some d ∧ d'.trips = d.trips := by
    intro u d' hd'
    rw [hs.users] at hd'
    obtain ⟨d, hd, rfl⟩ := Option.map_eq_some_iff.mp hd'
    exact ⟨d, hd, hf u d⟩
  refine h.of_users hs.trips hs.entries (fun u t => ⟨?_, ?_⟩) fun u d' hd' => ?_
  · rintro ⟨d', hd', ht⟩
    obtain ⟨d, hd, htrips⟩ := hdoc u d' hd'
    exact ⟨d, hd, htrips ▸ ht⟩
  · rintro ⟨d, hd, ht⟩
    exact ⟨f u d, by rw [hs.users, hd]; rfl, (hf u d).symm ▸ ht⟩
  · obtain ⟨d, hd, htrips⟩ := hdoc u d' hd'
    rw [htrips]
    exact h.once u d hd

theorem signedUp (h : Integrity db) {uid : Uid} {username : String}
    (hnew : db.users.lookup uid = none) :
    Integrity { db with users := db.users.insert uid (newUser username) } := by
  refine h.of_users rfl rfl (fun u t => ?_) fun u d hd => ?_
  · simp only [Collection.lookup_insert_eq]
    split
    · rename_i hu
      subst hu
      simp [hnew, newUser]
    · exact Iff.rfl
  · simp only [Collection.lookup_insert_eq] at hd
    split at hd
    · cases hd
      exact List.nodup_nil
    · exact h.once u d hd

theorem edited (h : Integrity db) {id : EntryID} (hs : EditEntry.Edited id db db') :
    Integrity db' where
  owned := by rw [hs.users, hs.trips]; exact h.owned
  once := by rw [hs.users]; exact h.once
  nodup := by rw [hs.trips]; exact h.nodup
  listed t d hd i id' hi := by
    rw [hs.trips] at hd
    obtain ⟨e, he, ht, ho⟩ := h.listed t d hd i id' hi
    obtain ⟨e', he', hr⟩ := hs.of_some he
    exact ⟨e', he', hr.tripID.trans ht, hr.entryOrder.trans ho⟩
  linked id' e' he' := by
    obtain ⟨e, he, hr⟩ := hs.some_of he'
    rw [hs.trips, hr.tripID]
    exact h.linked id' e he
  author id' e' t d he' ht hd := by
    obtain ⟨e, he, hr⟩ := hs.some_of he'
    rw [hs.trips] at hd
    rw [hr.userID]
    exact h.author id' e t d he (hr.tripID.symm.trans ht) hd
  named id' e' he' := by
    obtain ⟨e, he, hr⟩ := hs.some_of he'
    rw [hr.entryID]
    exact h.named id' e he

/-- A trip and its entries are deleted. -/
theorem deleted (h : Integrity db) {t : TripID} {d : TripDoc} {me : User}
    (ha : db.users.lookup me.uid = some me.toUserDoc) (hd : db.trips.lookup t = some d)
    (howner : d.userID = me.uid) (hs : TripInfo.Deleted t d me db ∅ db') : Integrity db' := by
  have htrips : ∀ t' d', db'.trips.lookup t' = some d' ↔ t' ≠ t ∧ db.trips.lookup t' = some d' := by
    intro t' d'
    rw [hs.trips]
    split <;> simp [*]
  have hentry : ∀ id e, db'.entries.lookup id = some e ↔
      id ∉ d.entries ∧ db.entries.lookup id = some e := by
    intro id e
    by_cases hid : id ∈ d.entries
    · simp [hid, (hs.gone id hid).resolve_left (Set.notMem_empty id)]
    · rcases hs.entries id with he | ⟨hid', -⟩
      · simp [hid, he]
      · exact absurd hid' hid
  have husers : ∀ u t', (∃ e, db'.users.lookup u = some e ∧ t' ∈ e.trips) ↔
      t' ≠ t ∧ ∃ e, db.users.lookup u = some e ∧ t' ∈ e.trips := by
    intro u t'
    rw [hs.users]
    by_cases hu : u = me.uid
    · subst hu
      simp [ha, and_comm]
    · simp only [hu, if_false, Option.map_id']
      refine ⟨fun hmem => ⟨?_, hmem⟩, fun hmem => hmem.2⟩
      rintro rfl
      obtain ⟨d', hd', hu'⟩ := (h.owned u t').mp hmem
      rw [hd] at hd'
      cases hd'
      exact hu (hu'.symm.trans howner)
  have hother : ∀ t' d', t' ≠ t → db.trips.lookup t' = some d' →
      ∀ id ∈ d'.entries, id ∉ d.entries := by
    intro t' d' hne hd' id hid' hid
    obtain ⟨e, he, ht⟩ := h.tripID_of_mem hd hid
    obtain ⟨e', he', ht'⟩ := h.tripID_of_mem hd' hid'
    rw [he] at he'
    cases he'
    exact hne (Option.some.inj (ht'.symm.trans ht))
  refine ⟨⟨fun u t' => ?_, fun u e he => ?_, fun t' d' hd' => ?_, fun t' d' hd' i id hi => ?_,
    fun id e he => ?_⟩, fun id e t' d' he ht hd' => ?_, fun id e he => ?_⟩
  · simp only [husers, htrips, h.owned, and_assoc, exists_and_left]
  · rw [hs.users] at he
    obtain ⟨e, he', rfl⟩ := Option.map_eq_some_iff.mp he
    split
    · exact (h.once _ _ ha).filter _
    · exact h.once u e he'
  · exact h.nodup t' d' ((htrips t' d').mp hd').2
  · obtain ⟨hne, hd'⟩ := (htrips t' d').mp hd'
    obtain ⟨e, he, ht, ho⟩ := h.listed t' d' hd' i id hi
    exact ⟨e, (hentry id e).mpr ⟨hother t' d' hne hd' id (List.mem_of_getElem? hi), he⟩, ht, ho⟩
  · obtain ⟨hid, he⟩ := (hentry id e).mp he
    obtain ⟨t', d', ht, hd', hmem⟩ := h.linked id e he
    refine ⟨t', d', ht, (htrips t' d').mpr ⟨?_, hd'⟩, hmem⟩
    rintro rfl
    rw [hd] at hd'
    cases hd'
    exact hid hmem
  · exact h.author id e t' d' ((hentry id e).mp he).2 ht ((htrips t' d').mp hd').2
  · exact h.named id e ((hentry id e).mp he).2

/-- A trip is saved. -/
theorem saved (h : Integrity db) {l : EditTrip} {d : UserDoc} {feeds : List Uid} {t : TripID}
    (ha : db.users.lookup l.user = some d) (hs : l.Resaved feeds t db db') : Integrity db' := by
  obtain ⟨d', hd', hu', hids⟩ := hs.trip
  -- an entry of another trip is not touched
  have hother : ∀ t' d₁, t' ≠ t → db.trips.lookup t' = some d₁ → ∀ id ∈ d₁.entries,
      id ∉ l.ids ∧ id ∉ l.deletedIds := by
    intro t' d₁ hne hd₁ id hid
    obtain ⟨e, he, ht⟩ := h.tripID_of_mem hd₁ hid
    have hnot : ¬ (id ∈ l.ids ∨ id ∈ l.deletedIds) := by
      intro hmem
      rcases hs.source id hmem with hnone | ⟨d₂, hd₂, hid₂⟩
      · rw [he] at hnone
        cases hnone
      · obtain ⟨e₂, he₂, ht₂⟩ := h.tripID_of_mem hd₂ hid₂
        rw [he] at he₂
        cases he₂
        exact hne (Option.some.inj (ht.symm.trans ht₂))
    exact ⟨fun hid => hnot (Or.inl hid), fun hid => hnot (Or.inr hid)⟩
  -- an entry that is not touched is one of another trip
  have hrest : ∀ id e, db.entries.lookup id = some e → id ∉ l.ids → id ∉ l.deletedIds →
      ∃ t' d₁, t' ≠ t ∧ e.tripID = some t' ∧ db.trips.lookup t' = some d₁ ∧ id ∈ d₁.entries := by
    intro id e he hid hid'
    obtain ⟨t', d₁, ht, hd₁, hmem⟩ := h.linked id e he
    refine ⟨t', d₁, ?_, ht, hd₁, hmem⟩
    rintro rfl
    rcases hs.target with ⟨-, hnone⟩ | ⟨-, d₂, hd₂, -, hcover⟩
    · rw [hd₁] at hnone
      cases hnone
    · rw [hd₁] at hd₂
      cases hd₂
      rcases hcover id hmem with hmem | hmem
      · exact hid hmem
      · exact hid' hmem
  have hentry : ∀ id e, db'.entries.lookup id = some e →
      (id ∈ l.ids ∧ e.tripID = some t ∧ e.userID = l.user ∧ e.entryID = id) ∨
        (id ∉ l.ids ∧ id ∉ l.deletedIds ∧ db.entries.lookup id = some e) := by
    intro id e he
    by_cases hid : id ∈ l.ids
    · obtain ⟨i, hi⟩ := List.getElem?_of_mem hid
      obtain ⟨e', he', -, ht, hname, hu, -⟩ := hs.listed i id hi
      rw [he] at he'
      cases he'
      exact Or.inl ⟨hid, ht, hu, hname⟩
    · by_cases hid' : id ∈ l.deletedIds
      · rw [(hs.deleted id hid').2.1] at he
        cases he
      · exact Or.inr ⟨hid, hid', (hs.entries id hid hid').symm.trans he⟩
  refine ⟨⟨fun u t' => ?_, fun u e he => ?_, fun t' d₁ hd₁ => ?_, fun t' d₁ hd₁ i id hi => ?_,
    fun id e he => ?_⟩, fun id e t' d₁ he ht hd₁ => ?_, fun id e he => ?_⟩
  · rw [hs.users]
    by_cases ht' : t' = t
    · subst ht'
      rcases hs.target with ⟨hnew, hnone⟩ | ⟨hold, d₂, hd₂, hu₂, -⟩
      · by_cases hu : u = l.user
        · rw [hu, ha]
          simp [hnew, hd', hu']
        · have hno := (h.owned u t').mp
          simp only [hnone, reduceCtorEq, false_and, exists_false, imp_false] at hno
          simp only [hu, false_and, if_false, Option.map_id', hno, hd', Option.some.injEq,
            exists_eq_left', hu', false_iff]
          exact fun he => hu he.symm
      · simp [hold, h.owned, hd', hu', hd₂, hu₂]
    · rw [hs.trips t' ht', ← h.owned]
      by_cases hu : u = l.user ∧ l.tripID = none
      · obtain ⟨rfl, hnone⟩ := hu
        simp [hnone, ha, ht']
      · simp [hu]
  · rw [hs.users] at he
    obtain ⟨e, he', rfl⟩ := Option.map_eq_some_iff.mp he
    split
    · rename_i hu
      have hnone : db.trips.lookup t = none := by
        rcases hs.target with ⟨-, hnone⟩ | ⟨hold, -⟩
        · exact hnone
        · rw [hu.2] at hold
          cases hold
      refine nodup_append_singleton (h.once u e he') fun hmem => ?_
      obtain ⟨d₂, hd₂, -⟩ := (h.owned u t).mp ⟨e, he', hmem⟩
      rw [hnone] at hd₂
      cases hd₂
    · exact h.once u e he'
  · by_cases ht' : t' = t
    · subst ht'
      rw [hd'] at hd₁
      cases hd₁
      rw [hids]
      exact hs.nodup
    · rw [hs.trips t' ht'] at hd₁
      exact h.nodup t' d₁ hd₁
  · by_cases ht' : t' = t
    · subst ht'
      rw [hd'] at hd₁
      cases hd₁
      rw [hids] at hi
      obtain ⟨e, he, ho, ht, -⟩ := hs.listed i id hi
      exact ⟨e, he, ht, ho⟩
    · rw [hs.trips t' ht'] at hd₁
      obtain ⟨e, he, ht, ho⟩ := h.listed t' d₁ hd₁ i id hi
      obtain ⟨h₁, h₂⟩ := hother t' d₁ ht' hd₁ id (List.mem_of_getElem? hi)
      exact ⟨e, (hs.entries id h₁ h₂).trans he, ht, ho⟩
  · rcases hentry id e he with ⟨hid, ht, -⟩ | ⟨hid, hid', he⟩
    · exact ⟨t, d', ht, hd', hids ▸ hid⟩
    · obtain ⟨t', d₁, hne, ht, hd₁, hmem⟩ := hrest id e he hid hid'
      exact ⟨t', d₁, ht, (hs.trips t' hne).trans hd₁, hmem⟩
  · rcases hentry id e he with ⟨-, ht', hu, -⟩ | ⟨hid, hid', he⟩
    · cases ht.symm.trans ht'
      rw [hd'] at hd₁
      cases hd₁
      rw [hu, hu']
    · obtain ⟨t₂, d₂, hne, ht₂, hd₂, -⟩ := hrest id e he hid hid'
      cases ht.symm.trans ht₂
      rw [hs.trips t' hne] at hd₁
      exact h.author id e t' d₁ he ht hd₁
  · rcases hentry id e he with ⟨-, -, -, hname⟩ | ⟨-, -, he⟩
    · exact hname
    · exact h.named id e he

/-- **Every action keeps the links.** -/
theorem effect {s s' : Backend} {act : Action} (h : Integrity s.store) (he : Effect s s' act) :
    Integrity s'.store := by
  cases he with
  | signedUp hnew hs => exact hs ▸ h.signedUp hnew
  | linked _ _ _ _ _ hs => exact h.social hs fun _ _ => rfl
  | asked _ _ _ _ _ hs => exact h.social hs fun _ _ => rfl
  | unlinked _ _ _ hs => exact h.social hs fun _ _ => rfl
  | unlisted _ _ hs => exact h.social hs fun _ _ => rfl
  | accepted _ _ hs => exact h.social hs fun _ _ => rfl
  | denied _ _ hs => exact h.social hs fun _ _ => rfl
  | toggled hs => exact h.social hs fun _ _ => by split <;> rfl
  | saved ha huser hs => exact h.saved (huser ▸ ha) hs
  | edited hs => exact h.edited hs
  | kept _ _ hs => exact hs ▸ h
  | deleted ha ht howner _ hs => exact h.deleted ha ht howner hs

end Integrity

/-- What each action does to a database whose links agree. -/
theorem Integrity.effect_of_step {s s' : Backend} {act : Action} (h : Integrity s.store)
    (hs : Step s act s') : Effect s s' act :=
  Wanderlust.effect_of_step hs h.nodup

theorem Integrity.step {s s' : Backend} {act : Action} (h : Integrity s.store)
    (hs : Step s act s') : Integrity s'.store := h.effect (h.effect_of_step hs)

/-- **Trips and entries agree with each other in every reachable database.** -/
theorem referential_of_run {tr : List (Action × Backend)} (h : IsRun Step .empty tr) :
    ∀ x ∈ tr, Referential x.2.store := fun x hx =>
  (h.invariant_of_step (I := fun s => Integrity s.store) (fun _ _ _ => Integrity.step)
    Integrity.empty x hx).toReferential

/-- A run in which a trip is published and deleted again. -/
theorem referential_of_run_sample : ∃ tr, IsRun Step .empty tr ∧ tr.length = 7 ∧
    ∀ x ∈ tr, Referential x.2.store := by
  obtain ⟨tr, htr⟩ := Option.isSome_iff_exists.mp
    (by decide +kernel : (performAll sampleDeleted .empty).isSome)
  have hlen : ∀ tr ∈ performAll sampleDeleted .empty, tr.length = 7 := by decide +kernel
  have hrun := isRun_of_performAll htr
  exact ⟨tr, hrun, hlen tr htr, referential_of_run hrun⟩

end Wanderlust
