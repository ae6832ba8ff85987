import Wanderlust.Models.Firestore

/-!
# Timestamps

The server gives every entry that is written a time of its own, later than all before
(`Firestore.Stamped`), and the writes that do not set an entry leave the times alone
(`Write.Timeless`). So the entries of an author have ranks: `newer` counts those that are newer
than a time, and an entry with fewer than `n` newer ones is among the latest `n`
(`mem_latestEntries`).
-/

namespace Wanderlust

open Async

/-- The write gives no entry a new time. -/
def Write.Timeless : Write → Prop
  | .setEntry _ _ => False
  | .updateEntry _ f => ∀ d, (f d).timestamp = d.timestamp
  | _ => True

namespace Firestore

/-- The times of the entries are different, and before `now`. -/
structure Stamped (db : Firestore) (now : Timestamp) : Prop where
  past : ∀ id e, db.entries.lookup id = some e → e.timestamp < now
  inj : ∀ id e id' e', db.entries.lookup id = some e → db.entries.lookup id' = some e' →
    e.timestamp = e'.timestamp → id = id'

/-- The number of entries of an author that are newer than a time. -/
def newer (db : Firestore) (author : Uid) (time : Timestamp) : ℕ :=
  (db.entries.docs.filter fun e => e.2.userID = author).countP fun e => time < e.2.timestamp

variable {db db' : Firestore} {now : Timestamp}

theorem Stamped.mono {now' : Timestamp} (h : Stamped db now) (hle : now ≤ now') :
    Stamped db now' :=
  ⟨fun id e he => (h.past id e he).trans_le hle, h.inj⟩

/-- The times are those of before. -/
theorem Stamped.of_entries (h : Stamped db now)
    (hentries : ∀ id e', db'.entries.lookup id = some e' →
      ∃ e, db.entries.lookup id = some e ∧ e'.timestamp = e.timestamp) : Stamped db' now where
  past id e' he' := by
    obtain ⟨e, he, ht⟩ := hentries id e' he'
    rw [ht]
    exact h.past id e he
  inj id e₁' id' e₂' h₁ h₂ heq := by
    obtain ⟨e₁, he₁, ht₁⟩ := hentries id e₁' h₁
    obtain ⟨e₂, he₂, ht₂⟩ := hentries id' e₂' h₂
    exact h.inj id e₁ id' e₂ he₁ he₂ (by rw [← ht₁, ← ht₂, heq])

/-- An entry is written with the present time. -/
theorem Stamped.setEntry (h : Stamped db now) (id : EntryID) {doc : EntryDoc}
    (hdoc : doc.timestamp = now) : Stamped ((Write.setEntry id doc).apply db) (now + 1) := by
  have hlookup : ∀ id' e, ((Write.setEntry id doc).apply db).entries.lookup id' = some e →
      id' = id ∧ e.timestamp = now ∨ db.entries.lookup id' = some e ∧ e.timestamp < now := by
    intro id' e he
    simp only [Write.apply, Collection.lookup_insert_eq] at he
    split at he
    · rename_i hid
      cases he
      exact Or.inl ⟨hid, hdoc⟩
    · exact Or.inr ⟨he, h.past id' e he⟩
  refine ⟨fun id' e he => ?_, fun id₁ e₁ id₂ e₂ h₁ h₂ heq => ?_⟩
  · rcases hlookup id' e he with ⟨-, ht⟩ | ⟨-, ht⟩
    · exact ht ▸ Nat.lt_succ_self now
    · exact Nat.lt_succ_of_lt ht
  · rcases hlookup id₁ e₁ h₁ with ⟨rfl, ht₁⟩ | ⟨h₁, ht₁⟩ <;>
      rcases hlookup id₂ e₂ h₂ with ⟨rfl, ht₂⟩ | ⟨h₂, ht₂⟩
    · rfl
    · exact absurd (heq.symm.trans ht₁) ht₂.ne
    · exact absurd (heq.trans ht₂) ht₁.ne
    · exact h.inj id₁ e₁ id₂ e₂ h₁ h₂ heq

/-- The other writes leave the times alone. -/
theorem Stamped.apply (h : Stamped db now) {w : Write} (hw : w.Timeless) :
    Stamped (w.apply db) now := by
  cases w with
  | setEntry id doc => exact hw.elim
  | updateEntry id f =>
    refine h.of_entries fun id' e' he' => ?_
    simp only [Write.apply, Collection.lookup_modify_eq] at he'
    split at he'
    · rename_i hid
      obtain ⟨e, he, rfl⟩ := Option.map_eq_some_iff.mp he'
      exact ⟨e, hid ▸ he, hw e⟩
    · exact ⟨e', he', rfl⟩
  | deleteEntry id =>
    refine h.of_entries fun id' e' he' => ?_
    simp only [Write.apply, Collection.lookup_erase_eq] at he'
    split at he'
    · cases he'
    · exact ⟨e', he', rfl⟩
  | _ => exact h.of_entries fun _ e' he' => ⟨e', he', rfl⟩

theorem Stamped.effect {K : Type*} (h : Stamped db now) {cs : List (Cmd Write K)}
    (hcs : ∀ w k, Cmd.write w k ∈ cs → w.Timeless) : Stamped (effect Write.apply cs db) now :=
  effect_invariant (I := fun db => Stamped db now) (fun w k hw _ hs => hs.apply (hcs w k hw)) h

/-- An author has no fewer newer entries when each is still there and newer. -/
theorem newer_le {author : Uid} {time : Timestamp}
    (h : ∀ id e, db.entries.lookup id = some e → e.userID = author → time < e.timestamp →
      ∃ e', db'.entries.lookup id = some e' ∧ e'.userID = author ∧ time < e'.timestamp) :
    db.newer author time ≤ db'.newer author time := by
  have hnd : ∀ db : Firestore, (((db.entries.docs.filter fun e => e.2.userID = author).filter
      fun e => time < e.2.timestamp).map Prod.fst).Nodup := fun db =>
    db.entries.nodup_map_fst_docs.sublist
      ((List.filter_sublist.trans List.filter_sublist).map Prod.fst)
  have hmem : ∀ (db : Firestore) id,
      id ∈ ((db.entries.docs.filter fun e => e.2.userID = author).filter
        fun e => time < e.2.timestamp).map Prod.fst ↔
        ∃ e, db.entries.lookup id = some e ∧ e.userID = author ∧ time < e.timestamp := by
    intro db id
    simp only [List.mem_map, List.mem_filter, decide_eq_true_eq]
    constructor
    · rintro ⟨⟨id, e⟩, ⟨⟨he, ha⟩, ht⟩, rfl⟩
      exact ⟨e, Collection.mem_docs.mp he, ha, ht⟩
    · rintro ⟨e, he, ha, ht⟩
      exact ⟨(id, e), ⟨⟨Collection.mem_docs.mpr he, ha⟩, ht⟩, rfl⟩
  rw [newer, newer, List.countP_eq_length_filter, List.countP_eq_length_filter,
    ← List.length_map (f := Prod.fst), ← List.length_map (f := Prod.fst)]
  refine (List.subperm_of_subset (hnd db) fun id hid => ?_).length_le
  obtain ⟨e, he, ha, ht⟩ := (hmem db id).mp hid
  exact (hmem db' id).mpr (h id e he ha ht)

/-- An entry with fewer than `n` newer ones is among the latest `n` of its author. -/
theorem mem_latestEntries (hs : Stamped db now) {n : ℕ} {id : EntryID} {e : EntryDoc}
    (he : db.entries.lookup id = some e) (h : db.newer e.userID e.timestamp < n) :
    (id, e) ∈ db.latestEntries n e.userID := by
  refine mem_newest ?_ (fun b hb ht => ?_) (db.entries.nodup_docs.filter _) h
  · simpa using Collection.mem_docs.mpr he
  · obtain ⟨id', e'⟩ := b
    have hb' := Collection.mem_docs.mp (List.mem_filter.mp hb).1
    obtain rfl := hs.inj id' e' id e hb' he ht
    rw [he] at hb'
    cases hb'
    rfl

end Firestore

end Wanderlust
