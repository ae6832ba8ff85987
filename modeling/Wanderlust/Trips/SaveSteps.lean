import Wanderlust.Trips.EditTrip

/-!
# The steps of a save

What the pieces of code that a save consists of do, one by one: what each leaves of the client's
state, what it puts on its way (`tokens`), and what it does to the store. Most of the writes of a
save only link entries to their trip and number them; `Relinks` says what any number of these can
have done.
-/

namespace Wanderlust

open Async

namespace EditTrip

/-! ## What is on its way -/

/-- What a callback stands for in the progress of a save. -/
inductive Token
  | upload (currentIndex r : ℕ)
  | written
  | fetched
  | updated
  | tripID (tempEntryList : ℕ)
  | order (tempEntryList : ℕ)
  deriving DecidableEq

/-- The token of a callback; the callbacks on which no counter waits have none. -/
def Callback.token : Callback → Option Token
  | .imageUploaded currentIndex _ r _ _ => some (.upload currentIndex r)
  | .imageURL currentIndex _ r _ => some (.upload currentIndex r)
  | .entryWritten _ _ => some .written
  | .userFetched _ _ => some .fetched
  | .tripUpdated _ => some .updated
  | .tripIDUpdated tempEntryList _ _ => some (.tripID tempEntryList)
  | .entryOrderUpdated tempEntryList _ _ => some (.order tempEntryList)
  | _ => none

/-- The tokens of the callbacks on their way. -/
def tokens (bag : Multiset Callback) : Multiset Token := bag.filterMap Callback.token

@[simp] theorem tokens_zero : tokens 0 = 0 := rfl

@[simp] theorem tokens_add (b b' : Multiset Callback) : tokens (b + b') = tokens b + tokens b' :=
  Multiset.filterMap_add _ _ _

theorem tokens_cons (k : Callback) (b : Multiset Callback) :
    tokens (k ::ₘ b) = k.token.elim 0 (fun τ => {τ}) + tokens b := by
  rcases h : k.token with _ | τ
  · simp [tokens, h]
  · simp [tokens, h]

theorem tokens_cons_some {k : Callback} {τ : Token} (h : k.token = some τ)
    (b : Multiset Callback) : tokens (k ::ₘ b) = τ ::ₘ tokens b := by
  rw [tokens_cons, h]
  exact Multiset.singleton_add τ _

/-- The callbacks that a save can have on their way, for a press on the screen `l₀` that saves to
the trip `t?`: none that loads entries, and all the others for this press. -/
def Callback.Fits (l₀ : EditTrip) (t? : Option TripID) : Callback → Prop
  | .tripFetched _ => False
  | .entryFetched _ => False
  | .imageDownloaded _ _ _ _ => False
  | .imageUploaded _ press r _ _ => press = l₀.nextCount ∧ r ∈ l₀.entryList
  | .imageURL _ press r _ => press = l₀.nextCount ∧ r ∈ l₀.entryList
  | .entryWritten press r => press = l₀.nextCount ∧ r ∈ l₀.entryList
  | .userFetched _ entryIdList => entryIdList = l₀.ids
  | .tripUpdated entryIdList => entryIdList = l₀.ids
  | .tripIDUpdated _ entryIdList t => entryIdList = l₀.ids ∧ t? = some t
  | .entryOrderUpdated _ entryIdCount t => entryIdCount = l₀.ids.length ∧ t? = some t
  | .tripCoverUploaded t _ _ => t? = some t
  | .tripCoverURL t _ => t? = some t
  | _ => True

/-! ## Relinking -/

/-- `e'` is the entry `e`, but perhaps with the trip `t?`, and perhaps numbered by its position in
`ids`. -/
structure Relinked (t? : Option TripID) (ids : List EntryID) (id : EntryID) (e e' : EntryDoc) :
    Prop where
  rest : e' = { e with tripID := e'.tripID, entryOrder := e'.entryOrder }
  tripID : e'.tripID = e.tripID ∨ ∃ t, t? = some t ∧ e'.tripID = some t
  order : e'.entryOrder = e.entryOrder ∨ ids[e'.entryOrder]? = some id
  other : id ∉ ids → e' = e

/-- `d'` is the trip `d`, but perhaps with a new name, a new cover or the entries `ids`. -/
structure Retitled (t? : Option TripID) (ids : List EntryID) (t : TripID) (d d' : TripDoc) :
    Prop where
  userID : d'.userID = d.userID
  entries : d'.entries = d.entries ∨ d'.entries = ids
  other : t? ≠ some t → d' = d

/-- Nothing changed but links between the trip `t?` and the entries `ids`. -/
structure Relinks (t? : Option TripID) (ids : List EntryID) (db db' : Firestore) : Prop where
  users : db'.users = db.users
  newsfeed : db'.newsfeed = db.newsfeed
  entries : ∀ id, Option.Rel (Relinked t? ids id) (db.entries.lookup id) (db'.entries.lookup id)
  trips : ∀ t, Option.Rel (Retitled t? ids t) (db.trips.lookup t) (db'.trips.lookup t)

/-- The writes that relink. -/
inductive Links (t? : Option TripID) (ids : List EntryID) : Write → Prop
  | tripID {id : EntryID} {t : TripID} (hid : id ∈ ids) (ht : t? = some t) :
      Links t? ids (.updateEntry id fun d => { d with tripID := some t })
  | order {id : EntryID} {i : ℕ} (hid : ids[i]? = some id) :
      Links t? ids (.updateEntry id fun d => { d with entryOrder := i })
  | entries {t : TripID} {name : String} (ht : t? = some t) :
      Links t? ids (.updateTrip t fun d => { d with tripName := name, entries := ids })
  | cover {t : TripID} {url : URL} (ht : t? = some t) :
      Links t? ids (.updateTrip t fun d => { d with coverPhoto := some url })

section

variable {t? : Option TripID} {ids : List EntryID} {id : EntryID} {db db' db'' : Firestore}

theorem Relinked.refl (e : EntryDoc) : Relinked t? ids id e e :=
  ⟨rfl, Or.inl rfl, Or.inl rfl, fun _ => rfl⟩

theorem Relinked.trans {e e' e'' : EntryDoc} (h : Relinked t? ids id e e')
    (h' : Relinked t? ids id e' e'') : Relinked t? ids id e e'' where
  rest := by rw [h'.rest, h.rest]
  tripID := by
    rcases h'.tripID with h' | h'
    · rw [h']; exact h.tripID
    · exact Or.inr h'
  order := by
    rcases h'.order with h' | h'
    · rw [h']; exact h.order
    · exact Or.inr h'
  other hid := (h'.other hid).trans (h.other hid)

theorem Retitled.refl (t : TripID) (d : TripDoc) : Retitled t? ids t d d :=
  ⟨rfl, Or.inl rfl, fun _ => rfl⟩

theorem Retitled.trans {t : TripID} {d d' d'' : TripDoc} (h : Retitled t? ids t d d')
    (h' : Retitled t? ids t d' d'') : Retitled t? ids t d d'' where
  userID := h'.userID.trans h.userID
  entries := by
    rcases h'.entries with h' | h'
    · rw [h']; exact h.entries
    · exact Or.inr h'
  other ht := (h'.other ht).trans (h.other ht)

theorem rel_trans {α : Type*} {r : α → α → Prop} (hr : ∀ a b c, r a b → r b c → r a c)
    {a b c : Option α} (h : Option.Rel r a b) (h' : Option.Rel r b c) : Option.Rel r a c := by
  cases h with
  | none => exact h'
  | some h =>
    cases h' with
    | some h' => exact .some (hr _ _ _ h h')

theorem Relinks.refl (db : Firestore) : Relinks t? ids db db := by
  refine ⟨rfl, rfl, fun id => ?_, fun t => ?_⟩
  · cases db.entries.lookup id with
    | none => exact .none
    | some e => exact .some (.refl e)
  · cases db.trips.lookup t with
    | none => exact .none
    | some d => exact .some (.refl t d)

theorem Relinks.trans (h : Relinks t? ids db db') (h' : Relinks t? ids db' db'') :
    Relinks t? ids db db'' where
  users := h'.users.trans h.users
  newsfeed := h'.newsfeed.trans h.newsfeed
  entries id := rel_trans (r := Relinked t? ids id) (fun _ _ _ h h' => h.trans h') (h.entries id)
    (h'.entries id)
  trips t := rel_trans (r := Retitled t? ids t) (fun _ _ _ h h' => h.trans h') (h.trips t)
    (h'.trips t)

/-- An entry that there was is there after relinking. -/
theorem Relinks.entry (h : Relinks t? ids db db') {e : EntryDoc}
    (he : db.entries.lookup id = some e) :
    ∃ e', db'.entries.lookup id = some e' ∧ Relinked t? ids id e e' := by
  have := h.entries id
  rw [he] at this
  cases hd : db'.entries.lookup id with
  | none => rw [hd] at this; cases this
  | some e' =>
    rw [hd] at this
    cases this with
    | some hr => exact ⟨e', rfl, hr⟩

/-- A trip that there was is there after relinking. -/
theorem Relinks.trip (h : Relinks t? ids db db') {t : TripID} {d : TripDoc}
    (hd : db.trips.lookup t = some d) :
    ∃ d', db'.trips.lookup t = some d' ∧ Retitled t? ids t d d' := by
  have := h.trips t
  rw [hd] at this
  cases hd' : db'.trips.lookup t with
  | none => rw [hd'] at this; cases this
  | some d' =>
    rw [hd'] at this
    cases this with
    | some hr => exact ⟨d', rfl, hr⟩

/-- Relinking leaves the other entries alone. -/
theorem Relinks.entry_other (h : Relinks t? ids db db') (hid : id ∉ ids) :
    db'.entries.lookup id = db.entries.lookup id := by
  have := h.entries id
  rcases he : db.entries.lookup id with _ | e <;> rw [he] at this
  · generalize db'.entries.lookup id = o at this
    cases this
    rfl
  · generalize db'.entries.lookup id = o at this
    cases this with
    | some hr => rw [hr.other hid]

/-- Relinking leaves the other trips alone. -/
theorem Relinks.trip_other (h : Relinks t? ids db db') {t : TripID} (ht : t? ≠ some t) :
    db'.trips.lookup t = db.trips.lookup t := by
  have := h.trips t
  rcases he : db.trips.lookup t with _ | e <;> rw [he] at this
  · generalize db'.trips.lookup t = o at this
    cases this
    rfl
  · generalize db'.trips.lookup t = o at this
    cases this with
    | some hr => rw [hr.other ht]

theorem Links.relinks {w : Write} (h : Links t? ids w) (db : Firestore) :
    Relinks t? ids db (w.apply db) := by
  have hdb : Relinks t? ids db db := .refl db
  cases h with
  | @tripID id t hid ht =>
    refine { hdb with entries := Collection.rel_modify (fun _ => .refl) id (fun e => ?_) _ }
    exact ⟨rfl, Or.inr ⟨t, ht, rfl⟩, Or.inl rfl, fun h => absurd hid h⟩
  | @order id i hid =>
    refine { hdb with entries := Collection.rel_modify (fun _ => .refl) id (fun e => ?_) _ }
    exact ⟨rfl, Or.inl rfl, Or.inr hid, fun h => absurd (List.mem_of_getElem? hid) h⟩
  | @entries t name ht =>
    refine { hdb with trips := Collection.rel_modify .refl t (fun d => ?_) _ }
    exact ⟨rfl, Or.inr rfl, fun h => absurd ht h⟩
  | @cover t url ht =>
    refine { hdb with trips := Collection.rel_modify .refl t (fun d => ?_) _ }
    exact ⟨rfl, Or.inl rfl, fun h => absurd ht h⟩

/-- Commands whose writes all relink. -/
def Relinking (t? : Option TripID) (ids : List EntryID) (cs : List Cmd) : Prop :=
  ∀ w k, .write w k ∈ cs → Links t? ids w

theorem Relinking.append {cs cs' : List Cmd} (h : Relinking t? ids cs)
    (h' : Relinking t? ids cs') : Relinking t? ids (cs ++ cs') := by
  intro w k hw
  rcases List.mem_append.mp hw with hw | hw
  · exact h w k hw
  · exact h' w k hw

theorem Relinking.relinks {cs : List Cmd} (h : Relinking t? ids cs) (db : Firestore) :
    Relinks t? ids db (effect Write.apply cs db) :=
  effect_invariant (I := Relinks t? ids db)
    (fun w k hw s hs => hs.trans ((h w k hw).relinks s)) (.refl db)

/-- What one of the writes establishes of an entry, and relinking keeps, holds after all of
them. -/
theorem Relinking.establishes {P : EntryDoc → Prop} {f : EntryDoc → EntryDoc}
    {k : Option Callback} {cs : List Cmd} (h : Relinking t? ids cs)
    (hmem : .write (.updateEntry id f) k ∈ cs) (hf : ∀ e, P (f e))
    (hP : ∀ e e', Relinked t? ids id e e' → P e → P e') {e : EntryDoc}
    (he : db.entries.lookup id = some e) :
    ∃ e', (effect Write.apply cs db).entries.lookup id = some e' ∧ P e' := by
  obtain ⟨cs₁, cs₂, rfl⟩ := List.append_of_mem hmem
  have h₁ : Relinking t? ids cs₁ := fun w k hw => h w k (List.mem_append_left _ hw)
  have h₂ : Relinking t? ids cs₂ := fun w k hw =>
    h w k (List.mem_append_right _ (List.mem_cons_of_mem _ hw))
  obtain ⟨e₁, he₁, -⟩ := (h₁.relinks db).entry he
  have hmid : (Write.apply (.updateEntry id f) (effect Write.apply cs₁ db)).entries.lookup id =
      some (f e₁) := by simp [he₁]
  obtain ⟨e', he', hr⟩ := (h₂.relinks _).entry hmid
  refine ⟨e', ?_, hP _ _ hr (hf e₁)⟩
  rw [effect_append, effect_write]
  exact he'

end

/-! ## What the code does -/

/-- What the code of a save leaves of the client's state. -/
structure Keeps (l l' : EditTrip) : Prop where
  user : l'.user = l.user
  currentUser : l'.currentUser = l.currentUser
  entryList : l'.entryList = l.entryList
  deleteList : l'.deleteList = l.deleteList
  content : ∀ r, (l'.heap r).content = (l.heap r).content

/-- Commands whose callbacks fit the save and have the tokens `T`. -/
structure Issues (l₀ : EditTrip) (t? : Option TripID) (cs : List Cmd) (T : Multiset Token) :
    Prop where
  fits : ∀ k ∈ callbacks cs, k.Fits l₀ t?
  tokens : tokens (callbacks cs) = T

section

variable {l₀ l l' l'' : EditTrip} {t? : Option TripID} {cs cs' : List Cmd} {T T' : Multiset Token}

theorem tokens_eq_zero {b : Multiset Callback} (h : ∀ k ∈ b, k.token = none) : tokens b = 0 := by
  induction b using Multiset.induction with
  | empty => rfl
  | cons k b ih =>
    rw [tokens_cons, h k (Multiset.mem_cons_self k b),
      ih fun k' hk' => h k' (Multiset.mem_cons_of_mem hk')]
    rfl

theorem tokens_eq_replicate {b : Multiset Callback} {τ : Token}
    (h : ∀ k ∈ b, k.token = some τ) : tokens b = Multiset.replicate (Multiset.card b) τ := by
  induction b using Multiset.induction with
  | empty => rfl
  | cons k b ih =>
    rw [tokens_cons, h k (Multiset.mem_cons_self k b),
      ih fun k' hk' => h k' (Multiset.mem_cons_of_mem hk'), Multiset.card_cons,
      Multiset.replicate_succ]
    rfl

theorem Issues.append (h : Issues l₀ t? cs T) (h' : Issues l₀ t? cs' T') :
    Issues l₀ t? (cs ++ cs') (T + T') where
  fits k hk := by
    rw [callbacks_append, Multiset.mem_add] at hk
    exact hk.elim (h.fits k) (h'.fits k)
  tokens := by rw [callbacks_append, tokens_add, h.tokens, h'.tokens]

/-- Commands that all wait with the same callback. -/
theorem issues_replicate {k : Callback} {τ : Token} {n : ℕ}
    (h : callbacks cs = Multiset.replicate n k) (hk : k.Fits l₀ t?) (hτ : k.token = some τ) :
    Issues l₀ t? cs (Multiset.replicate n τ) := by
  have hsame : ∀ k' ∈ callbacks cs, k' = k := fun k' hk' =>
    Multiset.eq_of_mem_replicate (h ▸ hk')
  refine ⟨fun k' hk' => (hsame k' hk').symm ▸ hk, ?_⟩
  rw [tokens_eq_replicate fun k' hk' => by rw [hsame k' hk', hτ], h, Multiset.card_replicate]

theorem Keeps.refl (l : EditTrip) : Keeps l l := ⟨rfl, rfl, rfl, rfl, fun _ => rfl⟩

theorem Keeps.trans (h : Keeps l l') (h' : Keeps l' l'') : Keeps l l'' where
  user := h'.user.trans h.user
  currentUser := h'.currentUser.trans h.currentUser
  entryList := h'.entryList.trans h.entryList
  deleteList := h'.deleteList.trans h.deleteList
  content r := (h'.content r).trans (h.content r)

theorem keeps_newCount (l : EditTrip) : Keeps l l.newCount := ⟨rfl, rfl, rfl, rfl, fun _ => rfl⟩

theorem keeps_count (l : EditTrip) (c : ℕ) : Keeps l (l.count c) :=
  ⟨rfl, rfl, rfl, rfl, fun _ => rfl⟩

theorem keeps_set {r : ℕ} {a : CustomAnnotation} (ha : a.content = (l.heap r).content) :
    Keeps l (l.set r a) where
  user := rfl
  currentUser := rfl
  entryList := rfl
  deleteList := rfl
  content r' := by
    by_cases h : r' = r
    · subst h; simp [set, ha]
    · simp [set, h]

theorem Keeps.id (h : Keeps l l') (r : ℕ) : l'.id r = l.id r :=
  CustomAnnotation.entryID_eq_of_content (h.content r)

theorem Keeps.feeds (h : Keeps l l') : l'.feeds = l.feeds := by
  simp only [EditTrip.feeds, h.currentUser]

/-! ### Numbering and linking -/

theorem callbacks_updateEntryOrder_eq (ids : List EntryID) (t : TripID) (l : EditTrip) :
    callbacks (updateEntryOrder ids t l).2 =
      Multiset.replicate ids.length (.entryOrderUpdated l.nextCount ids.length t) := by
  refine Multiset.eq_replicate.mpr ⟨?_, fun k hk => ?_⟩
  · simp only [callbacks, Multiset.coe_card, updateEntryOrder]
    rw [List.length_filterMap_eq_countP, List.countP_eq_length.mpr, List.length_mapIdx]
    intro c hc
    obtain ⟨i, hi, rfl⟩ := List.mem_mapIdx.mp hc
    rfl
  · obtain ⟨c, hc, hck⟩ := mem_callbacks.mp hk
    obtain ⟨i, hi, rfl⟩ := List.mem_mapIdx.mp hc
    simpa [Async.Cmd.callback] using hck.symm

theorem issues_updateEntryOrder {t : TripID} (ht : t? = some t) (l : EditTrip) :
    Issues l₀ t? (updateEntryOrder l₀.ids t l).2
      (Multiset.replicate l₀.ids.length (.order l.nextCount)) :=
  issues_replicate (callbacks_updateEntryOrder_eq l₀.ids t l) ⟨rfl, ht⟩ rfl

theorem relinking_updateEntryOrder (ids : List EntryID) (t : TripID) (l : EditTrip) :
    Relinking t? ids (updateEntryOrder ids t l).2 := by
  intro w k hw
  obtain ⟨i, hi, h⟩ := List.mem_mapIdx.mp hw
  cases h
  exact .order (List.getElem?_eq_getElem hi)

theorem updateEntryOrder_order {ids : List EntryID} (hnd : ids.Nodup) {i : ℕ} {id : EntryID}
    (hi : ids[i]? = some id) (t : TripID) (l : EditTrip) {db : Firestore} {e : EntryDoc}
    (he : db.entries.lookup id = some e) :
    ∃ e', (effect Write.apply (updateEntryOrder ids t l).2 db).entries.lookup id = some e' ∧
      e'.entryOrder = i := by
  obtain ⟨hlt, hget⟩ := List.getElem?_eq_some_iff.mp hi
  refine (relinking_updateEntryOrder ids t l : Relinking (some t) ids _).establishes
    (f := fun d => { d with entryOrder := i }) (List.mem_mapIdx.mpr ⟨i, hlt, by rw [hget]⟩)
    (fun _ => rfl) (fun e e' hr hei => ?_) he
  rcases hr.order with h | h
  · exact h.trans hei
  · obtain ⟨hlt', hget'⟩ := List.getElem?_eq_some_iff.mp h
    exact (List.Nodup.getElem_inj_iff hnd).mp (hget'.trans hget.symm)

theorem keeps_updateTripID (ids : List EntryID) (t : TripID) (l : EditTrip) :
    Keeps l (updateTripID ids t l).1 where
  user := rfl
  currentUser := rfl
  entryList := rfl
  deleteList := rfl
  content r := by
    simp only [updateTripID]
    split <;> rfl

theorem callbacks_updateTripID_eq (ids : List EntryID) (t : TripID) (l : EditTrip) :
    callbacks (updateTripID ids t l).2 =
      Multiset.replicate ids.length (.tripIDUpdated l.nextCount ids t) := by
  refine Multiset.eq_replicate.mpr ⟨?_, fun k hk => ?_⟩
  · simp only [callbacks, Multiset.coe_card, updateTripID]
    rw [List.length_filterMap_eq_countP, List.countP_eq_length.mpr, List.length_map]
    intro c hc
    obtain ⟨id, hid, rfl⟩ := List.mem_map.mp hc
    rfl
  · obtain ⟨c, hc, hck⟩ := mem_callbacks.mp hk
    obtain ⟨id, hid, rfl⟩ := List.mem_map.mp hc
    simpa [Async.Cmd.callback] using hck.symm

theorem issues_updateTripID {t : TripID} (ht : t? = some t) (l : EditTrip) :
    Issues l₀ t? (updateTripID l₀.ids t l).2
      (Multiset.replicate l₀.ids.length (.tripID l.nextCount)) :=
  issues_replicate (callbacks_updateTripID_eq l₀.ids t l) ⟨rfl, ht⟩ rfl

theorem relinking_updateTripID {t : TripID} (ht : t? = some t) (ids : List EntryID)
    (l : EditTrip) : Relinking t? ids (updateTripID ids t l).2 := by
  intro w k hw
  obtain ⟨id, hid, h⟩ := List.mem_map.mp hw
  cases h
  exact .tripID hid ht

theorem updateTripID_tripID {ids : List EntryID} {id : EntryID} (hid : id ∈ ids) (t : TripID)
    (l : EditTrip) {db : Firestore} {e : EntryDoc} (he : db.entries.lookup id = some e) :
    ∃ e', (effect Write.apply (updateTripID ids t l).2 db).entries.lookup id = some e' ∧
      e'.tripID = some t := by
  refine (relinking_updateTripID rfl ids l : Relinking (some t) ids _).establishes
    (f := fun d => { d with tripID := some t }) (List.mem_map.mpr ⟨id, hid, rfl⟩)
    (fun _ => rfl) (fun e e' hr het => ?_) he
  rcases hr.tripID with h | ⟨t', ht', h⟩
  · exact h.trans het
  · cases ht'
    exact h

theorem issues_uploadTripCoverPhoto {t : TripID} (ht : t? = some t) (l : EditTrip) :
    Issues l₀ t? (uploadTripCoverPhoto t l).2 0 := by
  simp only [uploadTripCoverPhoto, Handler.issue_apply]
  split
  · exact ⟨fun k hk => by simp at hk, rfl⟩
  · refine ⟨fun k hk => ?_, rfl⟩
    simp only [callbacks_request, callbacks_nil, Multiset.mem_cons, Multiset.notMem_zero,
      or_false] at hk
    rw [hk]
    exact ht

theorem uploadTripCoverPhoto_effect (t : TripID) (l : EditTrip) (db : Firestore) :
    effect Write.apply (uploadTripCoverPhoto t l).2 db = db := by
  simp only [uploadTripCoverPhoto, Handler.issue_apply]
  split <;> rfl

theorem relinking_uploadTripCoverPhoto (ids : List EntryID) (t : TripID) (l : EditTrip) :
    Relinking t? ids (uploadTripCoverPhoto t l).2 := by
  intro w k hw
  simp only [uploadTripCoverPhoto, Handler.issue_apply] at hw
  split at hw <;> simp at hw

/-! ### Entries -/

theorem callbacks_deleteEntry {k : Callback} {r : ℕ} {l : EditTrip}
    (hk : k ∈ callbacks (deleteEntry r l).2) : ∃ path, k = .objectDeleted path := by
  obtain ⟨c, hc, hck⟩ := mem_callbacks.mp hk
  simp only [deleteEntry, Handler.issue_apply, List.cons_append, List.mem_cons, List.mem_append,
    List.mem_map] at hc
  rcases hc with rfl | ⟨u, _, rfl⟩ | ⟨i, _, rfl⟩ <;> cases hck
  exact ⟨_, rfl⟩

theorem issues_deleteEntry (r : ℕ) (l : EditTrip) : Issues l₀ t? (deleteEntry r l).2 0 := by
  refine ⟨fun k hk => ?_, tokens_eq_zero fun k hk => ?_⟩ <;>
    obtain ⟨path, rfl⟩ := callbacks_deleteEntry hk
  · trivial
  · rfl

theorem deleteEntry_effect (r : ℕ) (l : EditTrip) (db : Firestore) :
    effect Write.apply (deleteEntry r l).2 db =
      { db with
        entries := db.entries.erase (l.id r)
        newsfeed := (l.feeds.map fun u => (u, l.id r)).foldl (fun c k => c.erase k)
          db.newsfeed } := by
  simp [deleteEntry, effect_deleteFeed]

theorem issues_addToFirebase {r : ℕ} (hr : r ∈ l₀.entryList) (l : EditTrip) :
    Issues l₀ t? (addToFirebase l₀.nextCount r l).2 {.written} := by
  have hk : callbacks (addToFirebase l₀.nextCount r l).2 = {.entryWritten l₀.nextCount r} := by
    rw [addToFirebase, callbacks_write_some, callbacks_map_write]
    rfl
  refine ⟨fun k hk' => ?_, by rw [hk]; rfl⟩
  rw [hk, Multiset.mem_singleton] at hk'
  rw [hk']
  exact ⟨rfl, hr⟩

theorem addToFirebase_effect (press r : ℕ) (l : EditTrip) (db : Firestore) :
    effect Write.apply (addToFirebase press r l).2 db =
      { db with
        entries := db.entries.insert (l.id r) ((l.heap r).entryDoc l.currentUser.uid l.now)
        newsfeed := l.feeds.foldl
          (fun c u => c.insert (u, l.id r) ⟨l.now, l.currentUser.uid⟩) db.newsfeed } := by
  simp [addToFirebase, effect_setFeed]

theorem issues_imageUploads {r : ℕ} (hr : r ∈ l₀.entryList) (uid : Uid) (id : EntryID)
    (currentIndex : ℕ) {images : List UIImage} (himg : ∀ image ∈ images, image.jpegData.isSome)
    (i : ℕ) :
    Issues l₀ t? (imageUploads uid id currentIndex l₀.nextCount r images i)
      (Multiset.replicate images.length (.upload currentIndex r)) := by
  induction images generalizing i with
  | nil => exact ⟨fun k hk => by simp [imageUploads] at hk, rfl⟩
  | cons image images ih =>
    obtain ⟨data, hdata⟩ := Option.isSome_iff_exists.mp (himg image List.mem_cons_self)
    obtain ⟨hf, ht⟩ := ih (fun x hx => himg x (List.mem_cons_of_mem _ hx)) (i + 1)
    simp only [imageUploads, hdata]
    refine ⟨fun k hk => ?_, ?_⟩
    · rw [callbacks_request, Multiset.mem_cons] at hk
      rcases hk with rfl | hk
      · exact ⟨rfl, hr⟩
      · exact hf k hk
    · rw [callbacks_request, tokens_cons, ht, List.length_cons, Multiset.replicate_succ]
      rfl

theorem imageUploads_effect (uid : Uid) (id : EntryID) (currentIndex press r : ℕ)
    (images : List UIImage) (i : ℕ) (db : Firestore) :
    effect Write.apply (imageUploads uid id currentIndex press r images i) db = db := by
  induction images generalizing i with
  | nil => rfl
  | cons image images ih =>
    simp only [imageUploads]
    split
    · rfl
    · rw [effect_request, ih]

end

end EditTrip

end Wanderlust
