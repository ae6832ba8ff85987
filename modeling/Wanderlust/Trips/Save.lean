import Mathlib.Data.Finset.Card
import Wanderlust.Trips.SaveSteps

/-!
# Saving a trip

One press of the save button of the screen `l₀`, on the database `db₀`, until nothing of it is on
its way any more. The invariant has two halves. `Underway` says what any step leaves alone and
that the counters are told apart; `Stage` says how far the save has come:

* `Saving`: entries are still being uploaded and written;
* fetching and updating: all are written, and the user and then the trip is waited for;
* `Linking`: the trip lists the entries, which are linked to it and wait to be numbered;
* `Ordered`: the entries are numbered.

Other passes that link and number entries, which `updateTripInfo` starts before anything is
written, can run at any time; they are harmless (`Harmless`), because all that they write is what
the save ends with anyway. `settled` puts the two halves together.
-/

namespace Wanderlust

open Async

namespace EditTrip

/-! ## The invariant -/

/-- The tokens of the steps that a save takes one after the other. -/
def Token.isMain : Token → Bool
  | .tripID _ => false
  | .order _ => false
  | _ => true

/-- The tokens of these steps. -/
def main (T : Multiset Token) : Multiset Token := T.filter fun τ => τ.isMain

/-- The annotation whose upload a token is part of. -/
def Token.ref : Token → Option ℕ
  | .upload _ r => some r
  | _ => none

/-- The annotations with uploads on their way. -/
def refs (T : Multiset Token) : Finset ℕ := (T.filterMap Token.ref).toFinset

/-- The counters in use are told apart: those of the uploads, of the linking and of the numbering
are different, and each upload has its own. -/
structure Cells (press next : ℕ) (T : Multiset Token) : Prop where
  upload : ∀ c r, Token.upload c r ∈ T → press < c ∧ c < next
  link : ∀ c, Token.tripID c ∈ T ∨ Token.order c ∈ T → press < c ∧ c < next
  ref : ∀ c r c' r', Token.upload c r ∈ T → Token.upload c' r' ∈ T → (c = c' ↔ r = r')
  upload_link : ∀ c r, Token.upload c r ∈ T → Token.tripID c ∉ T ∧ Token.order c ∉ T
  link_order : ∀ c, Token.tripID c ∈ T → Token.order c ∉ T

section

variable (l₀ : EditTrip) (db₀ : Firestore) (lower upper : Set Uid)

/-- The store during the save: what is not the save's is as before, and the deleted entries are
gone except for those of `dels`, whose turn is still to come. The newsfeeds written to are those
of the users of `lower`, and perhaps of others in `upper`. -/
structure Stored (dels : List ℕ) (t? : Option TripID) (db : Firestore) : Prop where
  users : ∀ v, v ≠ l₀.user → db.users.lookup v = db₀.users.lookup v
  user : db.users.lookup l₀.user = (db₀.users.lookup l₀.user).map fun d =>
    if t? = l₀.tripID then d else { d with trips := d.trips ++ t?.toList }
  trips : ∀ t, t? ≠ some t → db.trips.lookup t = db₀.trips.lookup t
  owner : ∀ t, t? = some t → ∃ d, db.trips.lookup t = some d ∧
    if t? = l₀.tripID then ∃ d₀, db₀.trips.lookup t = some d₀ ∧ d.userID = d₀.userID
    else d.userID = l₀.user ∧ db₀.trips.lookup t = none
  entries : ∀ id, id ∉ l₀.ids → (∀ r ∈ l₀.deleteList, l₀.id r ≠ id) →
    db.entries.lookup id = db₀.entries.lookup id
  deleted : ∀ r ∈ l₀.deleteList, r ∉ dels → db.entries.lookup (l₀.id r) = none ∧
    ∀ u ∈ lower, db.newsfeed.lookup (u, l₀.id r) = none
  newsfeed : ∀ u id, u ∉ upper ∨ id ∉ l₀.ids ∧ (∀ r ∈ l₀.deleteList, l₀.id r ≠ id) →
    db.newsfeed.lookup (u, id) = db₀.newsfeed.lookup (u, id)

/-- The users whose newsfeeds are written to, whichever copy of the user is cached. -/
def Between (feeds : List Uid) : Prop := (∀ u ∈ lower, u ∈ feeds) ∧ ∀ u ∈ feeds, u ∈ upper

/-- The client's state during the save. -/
structure Screen (l : EditTrip) : Prop where
  user : l.user = l₀.user
  uid : l.currentUser.uid = l₀.user
  feeds : Between lower upper l.feeds
  entryList : l.entryList = l₀.entryList
  content : ∀ r, (l.heap r).content = (l₀.heap r).content
  next : l₀.nextCount < l.nextCount
  now : l₀.now ≤ l.now

/-- The first half of the invariant. -/
structure Underway (dels : List ℕ) (t? : Option TripID)
    (x : Direct Firestore EditTrip Callback) : Prop where
  screen : Screen l₀ lower upper x.loc
  tripID : x.loc.tripID = l₀.tripID ∨ x.loc.tripID = t?
  target : t? = l₀.tripID ∨ l₀.tripID = none
  fits : ∀ k ∈ x.bag, k.Fits l₀ t?
  cells : Cells l₀.nextCount x.loc.nextCount (tokens x.bag)
  stored : Stored l₀ db₀ lower upper dels t? x.store

/-- The entry of an annotation has been written, and put into the newsfeeds. -/
def Published (db : Firestore) (r : ℕ) : Prop :=
  ∃ e, db.entries.lookup (l₀.id r) = some e ∧ e.IsOf (l₀.heap r) l₀.user ∧
    l₀.now ≤ e.timestamp ∧
    ∀ u ∈ lower, db.newsfeed.lookup (u, l₀.id r) = some ⟨e.timestamp, l₀.user⟩

/-- The trip lists the entries. -/
def Listed (t? : Option TripID) (db : Firestore) : Prop :=
  ∃ t d, t? = some t ∧ db.trips.lookup t = some d ∧ d.entries = l₀.ids

/-- The entries are linked to the trip. -/
def Linked (t? : Option TripID) (db : Firestore) : Prop :=
  ∀ id ∈ l₀.ids, ∃ e, db.entries.lookup id = some e ∧ e.tripID = t?

/-- Entries are being uploaded and written; those of `todo` have not been started. -/
structure Saving (todo : List ℕ) (counts : ℕ → ℕ) (T : Multiset Token) (db : Firestore) : Prop where
  nodup : todo.Nodup
  subset : ∀ r ∈ todo, r ∈ l₀.entryList
  early : Token.fetched ∉ T ∧ Token.updated ∉ T
  count : counts l₀.nextCount + T.count .written + (refs T).card + todo.length =
    l₀.entryList.length
  unfinished : counts l₀.nextCount < l₀.entryList.length
  uploads : ∀ c r, Token.upload c r ∈ T → r ∈ l₀.entryList ∧ r ∉ todo ∧
    counts c + T.count (.upload c r) = (l₀.heap r).images.length
  published : ∀ r ∈ l₀.entryList, r ∉ todo → r ∉ refs T → Published l₀ lower db r

/-- The stages in which no particular counter is waited for. -/
inductive Steady (t? : Option TripID) (counts : ℕ → ℕ) (T : Multiset Token) (db : Firestore) : Prop
  | saving (ht : t? = l₀.tripID) (h : Saving l₀ lower [] counts T db)
  | fetching (ht : t? = l₀.tripID) (hm : main T = {.fetched})
      (hp : ∀ r ∈ l₀.entryList, Published l₀ lower db r)
  | updating (ht : t? = l₀.tripID) (hm : main T = {.updated})
      (hp : ∀ r ∈ l₀.entryList, Published l₀ lower db r) (hl : Listed l₀ t? db)
  | ordered (hm : main T = 0) (hp : ∀ r ∈ l₀.entryList, Published l₀ lower db r)
      (hl : Listed l₀ t? db) (hi : Linked l₀ t? db) (hn : db.Numbered l₀.ids)

/-- The entries are linked, and numbered when the counter `c` is full. -/
structure Linking (c : ℕ) (t? : Option TripID) (counts : ℕ → ℕ) (T : Multiset Token)
    (db : Firestore) : Prop where
  idle : main T = 0
  pending : Token.tripID c ∈ T
  count : counts c + T.count (.tripID c) = l₀.ids.length
  published : ∀ r ∈ l₀.entryList, Published l₀ lower db r
  listed : Listed l₀ t? db
  linked : Linked l₀ t? db

/-- The second half of the invariant. -/
def Stage (t? : Option TripID) (counts : ℕ → ℕ) (T : Multiset Token) (db : Firestore) : Prop :=
  Steady l₀ lower t? counts T db ∨ ∃ c, Linking l₀ lower c t? counts T db

end

/-- What passes that link and number entries do, and callbacks that no counter waits for: of the
counters in use, at most `c?` is touched. -/
structure Harmless (t? : Option TripID) (ids : List EntryID) (c? : Option ℕ)
    (next : ℕ) (counts counts' : ℕ → ℕ) (T T' : Multiset Token) (db db' : Firestore) : Prop where
  store : Relinks t? ids db db'
  tokens : main T' = main T
  link : ∀ c, c? ≠ some c → c < next → T'.count (.tripID c) = T.count (.tripID c)
  counts : ∀ c, c? ≠ some c → c < next → counts' c = counts c

/-! ## Tokens -/

section

variable {T T' : Multiset Token} {τ : Token} {p next next' n c r : ℕ}

theorem mem_main : τ ∈ main T ↔ τ ∈ T ∧ τ.isMain := by simp [main]

@[simp] theorem main_add (T T' : Multiset Token) : main (T + T') = main T + main T' :=
  Multiset.filter_add _ _ _

theorem main_cons_of_neg (h : τ.isMain = false) : main (τ ::ₘ T) = main T :=
  Multiset.filter_cons_of_neg _ (by simp [h])

theorem main_cons_of_pos (h : τ.isMain) : main (τ ::ₘ T) = τ ::ₘ main T :=
  Multiset.filter_cons_of_pos _ h

theorem main_replicate (h : τ.isMain = false) (n : ℕ) : main (Multiset.replicate n τ) = 0 := by
  rw [main, Multiset.filter_eq_nil]
  intro τ' hτ'
  rw [Multiset.eq_of_mem_replicate hτ', h]
  simp

theorem count_main (h : τ.isMain) : (main T).count τ = T.count τ :=
  Multiset.count_filter_of_pos h

theorem mem_refs : r ∈ refs T ↔ ∃ c, Token.upload c r ∈ T := by
  simp only [refs, Multiset.mem_toFinset, Multiset.mem_filterMap]
  constructor
  · rintro ⟨τ, hτ, h⟩
    cases τ with
    | upload c r' => cases h; exact ⟨c, hτ⟩
    | _ => cases h
  · rintro ⟨c, hc⟩
    exact ⟨_, hc, rfl⟩

theorem refs_main (T : Multiset Token) : refs (main T) = refs T := by
  ext r
  simp [mem_refs, mem_main, Token.isMain]

theorem Cells.mono (h : Cells p next T) (hT : ∀ τ ∈ T', τ ∈ T) (hn : next ≤ next') :
    Cells p next' T' where
  upload c r hc := (h.upload c r (hT _ hc)).imp_right fun h => h.trans_le hn
  link c hc := (h.link c (hc.imp (hT _) (hT _))).imp_right fun h => h.trans_le hn
  ref c r c' r' hc hc' := h.ref c r c' r' (hT _ hc) (hT _ hc')
  upload_link c r hc := (h.upload_link c r (hT _ hc)).imp (mt (hT _)) (mt (hT _))
  link_order c hc := mt (hT _) (h.link_order c (hT _ hc))

/-- A token without a counter. -/
theorem Cells.add_singleton (h : Cells p next T)
    (hτ : τ = .written ∨ τ = .fetched ∨ τ = .updated) : Cells p next (T + {τ}) := by
  have hmem : ∀ τ', τ' ∈ T + {τ} → τ' ∈ T ∨ τ' = τ := by simp
  refine ⟨fun c r hc => ?_, fun c hc => ?_, fun c r c' r' hc hc' => ?_, fun c r hc => ?_,
    fun c hc => ?_⟩
  · have := h.upload c r
    grind
  · have := h.link c
    grind
  · have := h.ref c r c' r'
    grind
  · have := h.upload_link c r
    grind
  · have := h.link_order c
    grind

/-- Tokens of a new counter. -/
theorem Cells.add_replicate (h : Cells p next T) (hp : p < next)
    (hτ : τ = .tripID next ∨ τ = .order next ∨ ∃ r, τ = .upload next r ∧ r ∉ refs T) :
    Cells p (next + 1) (T + Multiset.replicate n τ) := by
  have hmem : ∀ τ' ∈ T + Multiset.replicate n τ, τ' ∈ T ∨ τ' = τ := by
    intro τ' h
    exact (Multiset.mem_add.mp h).imp_right Multiset.eq_of_mem_replicate
  have hu : ∀ c r, Token.upload c r ∈ T → c ≠ next := fun c r hc => (h.upload c r hc).2.ne
  have ht : ∀ c, Token.tripID c ∈ T → c ≠ next := fun c hc => (h.link c (Or.inl hc)).2.ne
  have ho : ∀ c, Token.order c ∈ T → c ≠ next := fun c hc => (h.link c (Or.inr hc)).2.ne
  have hr : ∀ r, r ∉ refs T → ∀ c, Token.upload c r ∉ T :=
    fun r hr c hc => hr (mem_refs.mpr ⟨c, hc⟩)
  refine ⟨fun c r hc => ?_, fun c hc => ?_, fun c r c' r' hc hc' => ?_, fun c r hc => ?_,
    fun c hc => ?_⟩
  · have := hmem _ hc
    have := h.upload c r
    grind
  · have := h.link c
    grind
  · have := hmem _ hc
    have := hmem _ hc'
    have := h.ref c r c' r'
    grind
  · have := hmem _ hc
    have := h.upload_link c r
    grind
  · have := hmem _ hc
    have := h.link_order c
    grind

end

section

variable {l₀ l l' : EditTrip} {db₀ db db' : Firestore} {lower upper : Set Uid}
  {next : ℕ} {counts counts' : ℕ → ℕ}
  {t? : Option TripID} {c? : Option ℕ} {T T' : Multiset Token} {dels todo : List ℕ}

/-! ## Harmless steps -/

theorem Published.relinks {r : ℕ} (h : Published l₀ lower db r)
    (hr : Relinks t? l₀.ids db db') : Published l₀ lower db' r := by
  obtain ⟨e, he, hof, hnow, hfeed⟩ := h
  obtain ⟨e', he', hr'⟩ := hr.entry he
  have hrest := hr'.rest
  refine ⟨e', he', ?_, ?_, fun u hu => ?_⟩
  · rw [hrest]
    exact ⟨hof.userID, hof.entryID, hof.coordinates, hof.coverPhoto, hof.description,
      hof.entryName, hof.locationName⟩
  · rw [hrest]
    exact hnow
  · rw [hr.newsfeed, hfeed u hu, hrest]

theorem Listed.relinks (h : Listed l₀ t? db) (hr : Relinks t? l₀.ids db db') :
    Listed l₀ t? db' := by
  obtain ⟨t, d, ht, hd, hids⟩ := h
  obtain ⟨d', hd', hr'⟩ := hr.trip hd
  exact ⟨t, d', ht, hd', hr'.entries.elim (fun h => h.trans hids) fun h => h⟩

theorem Linked.relinks (h : Linked l₀ t? db) (hr : Relinks t? l₀.ids db db') :
    Linked l₀ t? db' := by
  intro id hid
  obtain ⟨e, he, het⟩ := h id hid
  obtain ⟨e', he', hr'⟩ := hr.entry he
  refine ⟨e', he', ?_⟩
  rcases hr'.tripID with h | ⟨t, ht, h⟩
  · exact h.trans het
  · exact h.trans ht.symm

theorem numbered_relinks (hnd : l₀.ids.Nodup) (h : db.Numbered l₀.ids)
    (hr : Relinks t? l₀.ids db db') : db'.Numbered l₀.ids := by
  intro i id hi
  obtain ⟨e, he, hei⟩ := h i id hi
  obtain ⟨e', he', hr'⟩ := hr.entry he
  refine ⟨e', he', ?_⟩
  rcases hr'.order with h | h
  · exact h.trans hei
  · obtain ⟨hlt, hget⟩ := List.getElem?_eq_some_iff.mp h
    obtain ⟨hlt', hget'⟩ := List.getElem?_eq_some_iff.mp hi
    exact (List.Nodup.getElem_inj_iff hnd).mp (hget.trans hget'.symm)

/-- A counter that waits for linking or numbering is not the counter of the press or of an
upload. -/
theorem Cells.not_link {c : ℕ} {next : ℕ} (hc : Cells l₀.nextCount next T)
    (h : Token.tripID c ∈ T ∨ Token.order c ∈ T) :
    c ≠ l₀.nextCount ∧ ∀ r, Token.upload c r ∉ T := by
  refine ⟨(hc.link c h).1.ne', fun r hr => ?_⟩
  have := hc.upload_link c r hr
  exact h.elim this.1 this.2

theorem Saving.harmless (h : Saving l₀ lower todo counts T db) (hc : Cells l₀.nextCount next T)
    (hnext : l₀.nextCount < next) (hh : Harmless t? l₀.ids c? next counts counts' T T' db db')
    (hc? : ∀ c, c? = some c → Token.tripID c ∈ T ∨ Token.order c ∈ T) :
    Saving l₀ lower todo counts' T' db' := by
  have hmem : ∀ τ, τ.isMain → (τ ∈ T' ↔ τ ∈ T) := by
    intro τ hτ
    have := congrArg (fun M => τ ∈ M) hh.tokens
    simpa [mem_main, hτ] using this
  have hcount : ∀ τ, τ.isMain → T'.count τ = T.count τ := fun τ hτ => by
    rw [← count_main hτ, hh.tokens, count_main hτ]
  have hrefs : refs T' = refs T := by rw [← refs_main, hh.tokens, refs_main]
  have hp : counts' l₀.nextCount = counts l₀.nextCount :=
    hh.counts _ (fun h => (hc.not_link (hc? _ h)).1 rfl) hnext
  refine ⟨h.nodup, h.subset, ?_, ?_, ?_, fun c r hcr => ?_, fun r hr hrt hrr => ?_⟩
  · exact h.early.imp (mt (hmem _ rfl).mp) (mt (hmem _ rfl).mp)
  · rw [hp, hcount _ rfl, hrefs]
    exact h.count
  · rw [hp]
    exact h.unfinished
  · have hcr' := (hmem _ rfl).mp hcr
    rw [hcount _ rfl, hh.counts c (fun h => (hc.not_link (hc? _ h)).2 r hcr')
      (hc.upload c r hcr').2]
    exact h.uploads c r hcr'
  · rw [hrefs] at hrr
    exact (h.published r hr hrt hrr).relinks hh.store

theorem Steady.harmless (hnd : l₀.ids.Nodup) (h : Steady l₀ lower t? counts T db)
    (hc : Cells l₀.nextCount next T) (hnext : l₀.nextCount < next)
    (hh : Harmless t? l₀.ids c? next counts counts' T T' db db')
    (hc? : ∀ c, c? = some c → Token.tripID c ∈ T ∨ Token.order c ∈ T) :
    Steady l₀ lower t? counts' T' db' := by
  cases h with
  | saving ht h => exact .saving ht (h.harmless hc hnext hh hc?)
  | fetching ht hm hp =>
    exact .fetching ht (hh.tokens.trans hm) fun r hr => (hp r hr).relinks hh.store
  | updating ht hm hp hl =>
    exact .updating ht (hh.tokens.trans hm) (fun r hr => (hp r hr).relinks hh.store)
      (hl.relinks hh.store)
  | ordered hm hp hl hi hn =>
    exact .ordered (hh.tokens.trans hm) (fun r hr => (hp r hr).relinks hh.store)
      (hl.relinks hh.store) (hi.relinks hh.store) (numbered_relinks hnd hn hh.store)

theorem Linking.harmless {c : ℕ} (h : Linking l₀ lower c t? counts T db)
    (hc : Cells l₀.nextCount next T) (hh : Harmless t? l₀.ids c? next counts counts' T T' db db')
    (hc? : c? ≠ some c) : Linking l₀ lower c t? counts' T' db' := by
  have hlt : c < next := (hc.link c (Or.inl h.pending)).2
  have hcount := hh.link c hc? hlt
  refine ⟨hh.tokens.trans h.idle, ?_, ?_, fun r hr => (h.published r hr).relinks hh.store,
    h.listed.relinks hh.store, h.linked.relinks hh.store⟩
  · have := Multiset.count_pos.mpr h.pending
    exact Multiset.count_pos.mp (by omega)
  · rw [hcount, hh.counts c hc? hlt]
    exact h.count

/-- A step that touches no counter, or one of those that wait for numbering. -/
theorem Stage.harmless (hnd : l₀.ids.Nodup) (h : Stage l₀ lower t? counts T db)
    (hc : Cells l₀.nextCount next T) (hnext : l₀.nextCount < next)
    (hh : Harmless t? l₀.ids c? next counts counts' T T' db db')
    (hc? : ∀ c, c? = some c → Token.order c ∈ T) : Stage l₀ lower t? counts' T' db' := by
  rcases h with h | ⟨c, h⟩
  · exact Or.inl (h.harmless hnd hc hnext hh fun c hc => Or.inr (hc? c hc))
  · exact Or.inr ⟨c, h.harmless hc hh fun hcc => hc.link_order c h.pending (hc? c hcc)⟩

/-! ## The steps that count -/

theorem Screen.keeps (h : Screen l₀ lower upper l) (hk : Keeps l l')
    (hnext : l.nextCount ≤ l'.nextCount) (hnow : l.now ≤ l'.now) :
    Screen l₀ lower upper l' where
  user := hk.user.trans h.user
  uid := by rw [hk.currentUser, h.uid]
  feeds := by rw [hk.feeds]; exact h.feeds
  entryList := hk.entryList.trans h.entryList
  content r := (hk.content r).trans (h.content r)
  next := h.next.trans_le hnext
  now := h.now.trans hnow

theorem Screen.id (h : Screen l₀ lower upper l) (r : ℕ) : l.id r = l₀.id r :=
  CustomAnnotation.entryID_eq_of_content (h.content r)

theorem Screen.ids (h : Screen l₀ lower upper l) : l.ids = l₀.ids := by
  simp only [EditTrip.ids, h.entryList]
  exact List.map_congr_left fun r _ => h.id r

theorem Screen.images (h : Screen l₀ lower upper l) (r : ℕ) :
    (l.heap r).images = (l₀.heap r).images :=
  CustomAnnotation.images_eq_of_content (h.content r)

/-- Writing an entry publishes it. -/
theorem published_addToFirebase (h : Screen l₀ lower upper l) (press r : ℕ) (db : Firestore) :
    Published l₀ lower (effect Write.apply (addToFirebase press r l).2 db) r := by
  rw [addToFirebase_effect, h.id, h.uid]
  refine ⟨(l.heap r).entryDoc l₀.user l.now, AList.lookup_insert _,
    CustomAnnotation.isOf_entryDoc (h.content r) _ _, h.now, fun u hu => ?_⟩
  dsimp only
  rw [Collection.lookup_foldl_insert_const (fun u => (u, l₀.id r)), if_pos]
  · rfl
  · exact List.mem_map.mpr ⟨u, h.feeds.1 u hu, rfl⟩

/-- Writing an entry leaves the others published. -/
theorem Published.addToFirebase {r r' : ℕ} (hp : Published l₀ lower db r')
    (h : Screen l₀ lower upper l) (hne : l₀.id r' ≠ l₀.id r) (press : ℕ) :
    Published l₀ lower (effect Write.apply (EditTrip.addToFirebase press r l).2 db) r' := by
  obtain ⟨e, he, hof, hnow, hfeed⟩ := hp
  rw [addToFirebase_effect, h.id, h.uid]
  refine ⟨e, ?_, hof, hnow, fun u hu => ?_⟩
  · dsimp only
    rw [AList.lookup_insert_ne hne]
    exact he
  · dsimp only
    rw [Collection.lookup_foldl_insert_const (fun u => (u, l₀.id r)), if_neg]
    · exact hfeed u hu
    · rintro hmem
      obtain ⟨v, _, hv⟩ := List.mem_map.mp hmem
      exact hne (congrArg Prod.snd hv).symm

theorem id_injOn (hnd : l₀.ids.Nodup) {r r' : ℕ} (hr : r ∈ l₀.entryList)
    (hr' : r' ∈ l₀.entryList) (h : l₀.id r = l₀.id r') : r = r' :=
  List.inj_on_of_nodup_map hnd hr hr' h

theorem refs_add (T T' : Multiset Token) : refs (T + T') = refs T ∪ refs T' := by
  ext r
  simp [mem_refs, exists_or]

theorem refs_replicate {n c r : ℕ} (hn : 0 < n) :
    refs (Multiset.replicate n (.upload c r)) = {r} := by
  ext r'
  simp only [mem_refs, Multiset.mem_replicate, Token.upload.injEq, Finset.mem_singleton]
  constructor
  · rintro ⟨_, _, _, rfl⟩
    rfl
  · rintro rfl
    exact ⟨c, by omega, rfl, rfl⟩

/-- One image of an annotation is uploaded, and others are still to come. -/
theorem Saving.uploaded {c r : ℕ} (h : Saving l₀ lower todo counts (.upload c r ::ₘ T) db)
    (hc : Cells l₀.nextCount next (.upload c r ::ₘ T))
    (hcount : ∀ c', counts' c' = if c' = c then counts c + 1 else counts c')
    (hlast : counts c + 1 ≠ (l₀.heap r).images.length) : Saving l₀ lower todo counts' T db := by
  have hcT := Multiset.mem_cons_self (Token.upload c r) T
  have hsub : ∀ {τ}, τ ∈ T → τ ∈ Token.upload c r ::ₘ T := Multiset.mem_cons_of_mem
  obtain ⟨hr, hrt, hsum⟩ := h.uploads c r hcT
  rw [Multiset.count_cons_self] at hsum
  have hcT' : Token.upload c r ∈ T := Multiset.count_pos.mp (by omega)
  have hrefs : refs (.upload c r ::ₘ T) = refs T := by
    ext r'
    simp only [mem_refs, Multiset.mem_cons, Token.upload.injEq]
    constructor
    · rintro ⟨c', ⟨rfl, rfl⟩ | hc'⟩
      · exact ⟨_, hcT'⟩
      · exact ⟨_, hc'⟩
    · rintro ⟨c', hc'⟩
      exact ⟨c', Or.inr hc'⟩
  have hp : counts' l₀.nextCount = counts l₀.nextCount := by
    rw [hcount, if_neg (hc.upload c r hcT).1.ne]
  have hcnt := h.count
  rw [hrefs, Multiset.count_cons_of_ne (by simp)] at hcnt
  refine ⟨h.nodup, h.subset, h.early.imp (mt hsub) (mt hsub), by rw [hp]; exact hcnt,
    by rw [hp]; exact h.unfinished, fun c' r' hcr => ?_, fun r' hr' hrt' hrr => ?_⟩
  · obtain ⟨hr', hrt', hsum'⟩ := h.uploads c' r' (hsub hcr)
    refine ⟨hr', hrt', ?_⟩
    have hiff := hc.ref c r c' r' hcT (hsub hcr)
    rw [hcount]
    by_cases hcc : c' = c
    · obtain rfl := hiff.mp hcc.symm
      subst hcc
      rw [if_pos rfl]
      omega
    · rw [if_neg hcc]
      rwa [Multiset.count_cons_of_ne (by simp [hcc])] at hsum'
  · rw [← hrefs] at hrr
    exact h.published r' hr' hrt' hrr

/-- The last image of an annotation is uploaded, and its entry written. -/
theorem Saving.uploaded_last {c r press : ℕ} (hnd : l₀.ids.Nodup)
    (h : Saving l₀ lower todo counts (.upload c r ::ₘ T) db)
    (hc : Cells l₀.nextCount next (.upload c r ::ₘ T))
    (hs : Screen l₀ lower upper l')
    (hcount : ∀ c', counts' c' = if c' = c then counts c + 1 else counts c')
    (hlast : counts c + 1 = (l₀.heap r).images.length) :
    Saving l₀ lower todo counts' (T + {.written})
      (effect Write.apply (addToFirebase press r l').2 db) := by
  have hcT := Multiset.mem_cons_self (Token.upload c r) T
  have hsub : ∀ {τ}, τ ∈ T → τ ∈ Token.upload c r ::ₘ T := Multiset.mem_cons_of_mem
  have hmem : ∀ {τ}, τ ≠ .written → (τ ∈ T + {.written} ↔ τ ∈ T) := fun hτ => by
    simp [Multiset.mem_add, hτ]
  obtain ⟨hr, hrt, hsum⟩ := h.uploads c r hcT
  rw [Multiset.count_cons_self] at hsum
  have hcT' : Token.upload c r ∉ T := Multiset.count_eq_zero.mp (by omega)
  have hrT : r ∉ refs T := by
    intro hrT
    obtain ⟨c', hc'⟩ := mem_refs.mp hrT
    obtain rfl := (hc.ref c r c' r hcT (hsub hc')).mpr rfl
    exact hcT' hc'
  have hrefs : refs (.upload c r ::ₘ T) = insert r (refs T) := by
    rw [← Multiset.singleton_add, refs_add, ← Multiset.replicate_one, refs_replicate Nat.one_pos,
      Finset.singleton_union]
  have hrefs' : refs (T + {.written}) = refs T := by
    ext r'
    simp [mem_refs]
  have hp : counts' l₀.nextCount = counts l₀.nextCount := by
    rw [hcount, if_neg (hc.upload c r hcT).1.ne]
  have hcnt := h.count
  rw [hrefs, Finset.card_insert_of_notMem hrT, Multiset.count_cons_of_ne (by simp)] at hcnt
  refine ⟨h.nodup, h.subset, ⟨?_, ?_⟩, ?_, by rw [hp]; exact h.unfinished, fun c' r' hcr => ?_,
    fun r' hr' hrt' hrr => ?_⟩
  · rw [hmem (by simp)]
    exact mt hsub h.early.1
  · rw [hmem (by simp)]
    exact mt hsub h.early.2
  · rw [hp, hrefs', Multiset.count_add, Multiset.count_singleton_self]
    omega
  · rw [hmem (by simp)] at hcr
    obtain ⟨hr', hrt', hsum'⟩ := h.uploads c' r' (hsub hcr)
    refine ⟨hr', hrt', ?_⟩
    have hcc : c' ≠ c := by
      rintro rfl
      obtain rfl := (hc.ref c' r c' r' hcT (hsub hcr)).mp rfl
      exact hcT' hcr
    rw [hcount, if_neg hcc, Multiset.count_add, Multiset.count_singleton, if_neg (by simp)]
    rwa [Multiset.count_cons_of_ne (by simp [hcc])] at hsum'
  · rw [hrefs'] at hrr
    by_cases hrr' : r' = r
    · subst hrr'
      exact published_addToFirebase hs press r' db
    · refine (h.published r' hr' hrt' ?_).addToFirebase hs
        (fun he => hrr' (id_injOn hnd hr' hr he)) press
      rw [hrefs, Finset.mem_insert]
      exact not_or.mpr ⟨hrr', hrr⟩

/-- An entry has been written, and others are still to come. -/
theorem Saving.written (h : Saving l₀ lower todo counts (.written ::ₘ T) db)
    (hc : Cells l₀.nextCount next (.written ::ₘ T))
    (hcount : ∀ c, counts' c = if c = l₀.nextCount then counts l₀.nextCount + 1 else counts c)
    (hlast : counts l₀.nextCount + 1 ≠ l₀.entryList.length) :
    Saving l₀ lower todo counts' T db := by
  have hsub : ∀ {τ}, τ ∈ T → τ ∈ Token.written ::ₘ T := Multiset.mem_cons_of_mem
  have hrefs : refs (.written ::ₘ T) = refs T := by
    ext r
    simp [mem_refs]
  have hcnt := h.count
  have hunf := h.unfinished
  rw [hrefs, Multiset.count_cons_self] at hcnt
  have hp' : counts' l₀.nextCount = counts l₀.nextCount + 1 := by rw [hcount, if_pos rfl]
  refine ⟨h.nodup, h.subset, h.early.imp (mt hsub) (mt hsub), by omega, by omega,
    fun c r hcr => ?_, fun r hr hrt hrr => ?_⟩
  · obtain ⟨hr, hrt, hsum⟩ := h.uploads c r (hsub hcr)
    rw [Multiset.count_cons_of_ne (by simp)] at hsum
    rw [hcount, if_neg (hc.upload c r (hsub hcr)).1.ne']
    exact ⟨hr, hrt, hsum⟩
  · rw [← hrefs] at hrr
    exact h.published r hr hrt hrr

/-- The last entry has been written, and the user is fetched. -/
theorem Saving.written_last (h : Saving l₀ lower [] counts (.written ::ₘ T) db)
    (hlast : counts l₀.nextCount + 1 = l₀.entryList.length) :
    main T = 0 ∧ ∀ r ∈ l₀.entryList, Published l₀ lower db r := by
  have hcnt := h.count
  rw [Multiset.count_cons_self, List.length_nil] at hcnt
  have hrefs : refs (.written ::ₘ T) = ∅ := Finset.card_eq_zero.mp (by omega)
  have hwritten : Token.written ∉ T := Multiset.count_eq_zero.mp (by omega)
  refine ⟨?_, fun r hr => h.published r hr List.not_mem_nil (by simp [hrefs])⟩
  rw [Multiset.eq_zero_iff_forall_notMem]
  intro τ hτ
  obtain ⟨hτT, hmain⟩ := mem_main.mp hτ
  have hτ' : τ ∈ Token.written ::ₘ T := Multiset.mem_cons_of_mem hτT
  cases τ with
  | upload c r =>
    have : r ∈ refs (.written ::ₘ T) := mem_refs.mpr ⟨c, hτ'⟩
    simp [hrefs] at this
  | written => exact hwritten hτT
  | fetched => exact h.early.1 hτ'
  | updated => exact h.early.2 hτ'
  | tripID c => cases hmain
  | order c => cases hmain

/-- The entries of the listed trip are linked. -/
theorem linking_updateTripID {t : TripID} (l : EditTrip) (ht : t? = some t)
    (hc : Cells l₀.nextCount l.nextCount T) (hpos : l₀.entryList ≠ []) (hm : main T = 0)
    (hp : ∀ r ∈ l₀.entryList, Published l₀ lower db r) (hl : Listed l₀ t? db) :
    Linking l₀ lower l.nextCount t? (updateTripID l₀.ids t l).1.counts
      (T + Multiset.replicate l₀.ids.length (.tripID l.nextCount))
      (effect Write.apply (updateTripID l₀.ids t l).2 db) := by
  have hlen : 0 < l₀.ids.length := by
    rw [EditTrip.ids, List.length_map]
    exact List.length_pos_of_ne_nil hpos
  have hfresh : T.count (.tripID l.nextCount) = 0 :=
    Multiset.count_eq_zero.mpr fun h => (hc.link _ (Or.inl h)).2.ne rfl
  have hr := (relinking_updateTripID ht l₀.ids l).relinks db
  refine ⟨?_, ?_, ?_, fun r hr' => (hp r hr').relinks hr, hl.relinks hr, fun id hid => ?_⟩
  · rw [main_add, hm, main_replicate rfl, zero_add]
  · exact Multiset.mem_add.mpr (Or.inr (Multiset.mem_replicate.mpr ⟨hlen.ne', rfl⟩))
  · have : (updateTripID l₀.ids t l).1.counts l.nextCount = 0 := by simp [updateTripID, newCount]
    rw [this, Multiset.count_add, hfresh, Multiset.count_replicate_self]
    omega
  · obtain ⟨r, hr', rfl⟩ := List.mem_map.mp hid
    obtain ⟨e, he, -⟩ := hp r hr'
    obtain ⟨e', he', het⟩ := updateTripID_tripID hid t l he
    exact ⟨e', he', het.trans ht.symm⟩

/-- The numbering of the linked entries. -/
theorem Linking.ordered {c : ℕ} {t : TripID} {n : ℕ} (hnd : l₀.ids.Nodup)
    (h : Linking l₀ lower c t? counts (.tripID c ::ₘ T) db) :
    Steady l₀ lower t? (updateEntryOrder l₀.ids t l).1.counts
      (T + Multiset.replicate n (.order l.nextCount))
      (effect Write.apply (updateEntryOrder l₀.ids t l).2 db) := by
  have hr : Relinks t? l₀.ids db _ := (relinking_updateEntryOrder l₀.ids t l).relinks db
  have hm : main T = 0 := by
    have := h.idle
    rwa [main_cons_of_neg rfl] at this
  refine .ordered ?_ (fun r hr' => (h.published r hr').relinks hr) (h.listed.relinks hr)
    (h.linked.relinks hr) fun i id hi => ?_
  · rw [main_add, hm, main_replicate rfl, zero_add]
  · obtain ⟨e, he, -⟩ := h.linked id (List.mem_of_getElem? hi)
    exact updateEntryOrder_order hnd hi t l he

/-- One entry is linked, and others are still to come. -/
theorem Linking.linked_one {c : ℕ} (h : Linking l₀ lower c t? counts (.tripID c ::ₘ T) db)
    (hcount : counts' c = counts c + 1) (hlast : counts c + 1 ≠ l₀.ids.length) :
    Linking l₀ lower c t? counts' T db := by
  have hcnt := h.count
  rw [Multiset.count_cons_self] at hcnt
  refine ⟨?_, Multiset.count_pos.mp (by omega), by omega, h.published, h.listed, h.linked⟩
  have := h.idle
  rwa [main_cons_of_neg rfl] at this

/-! ## The store -/

theorem Stored.relinks (h : Stored l₀ db₀ lower upper dels t? db)
    (hdel : ∀ r ∈ l₀.deleteList, l₀.id r ∉ l₀.ids) (hr : Relinks t? l₀.ids db db') :
    Stored l₀ db₀ lower upper dels t? db' where
  users v hv := by rw [hr.users, h.users v hv]
  user := by rw [hr.users, h.user]
  trips t ht := (hr.trip_other ht).trans (h.trips t ht)
  owner t ht := by
    obtain ⟨d, hd, ho⟩ := h.owner t ht
    obtain ⟨d', hd', hr'⟩ := hr.trip hd
    refine ⟨d', hd', ?_⟩
    rw [hr'.userID]
    exact ho
  entries id hid hid' := (hr.entry_other hid).trans (h.entries id hid hid')
  deleted r hr' hrd := by
    rw [hr.entry_other (hdel r hr'), hr.newsfeed]
    exact h.deleted r hr' hrd
  newsfeed u id hu := by rw [hr.newsfeed, h.newsfeed u id hu]

theorem Stored.addToFirebase {r : ℕ} (h : Stored l₀ db₀ lower upper dels t? db)
    (hs : Screen l₀ lower upper l) (hdel : ∀ r ∈ l₀.deleteList, l₀.id r ∉ l₀.ids)
    (hr : r ∈ l₀.entryList) (press : ℕ) :
    Stored l₀ db₀ lower upper dels t?
      (effect Write.apply (EditTrip.addToFirebase press r l).2 db) := by
  have hid : l₀.id r ∈ l₀.ids := List.mem_map_of_mem hr
  have hfeed : ∀ u id, u ∉ upper ∨ id ≠ l₀.id r →
      (u, id) ∉ l.feeds.map fun u => (u, l₀.id r) := by
    rintro u id hu hmem
    obtain ⟨v, hv, he⟩ := List.mem_map.mp hmem
    cases he
    exact hu.elim (fun hu => hu (hs.feeds.2 _ hv)) fun hne => hne rfl
  rw [addToFirebase_effect, hs.id]
  refine ⟨h.users, h.user, h.trips, h.owner, fun id hid' hd => ?_, fun r' hr' hrd => ?_,
    fun u id hu => ?_⟩
  · dsimp only
    rw [AList.lookup_insert_ne (by rintro rfl; exact hid' hid)]
    exact h.entries id hid' hd
  · have hne : l₀.id r' ≠ l₀.id r := fun he => hdel r' hr' (he ▸ hid)
    obtain ⟨h₁, h₂⟩ := h.deleted r' hr' hrd
    refine ⟨by dsimp only; rw [AList.lookup_insert_ne hne]; exact h₁, fun u hu => ?_⟩
    dsimp only
    rw [Collection.lookup_foldl_insert_const (fun u => (u, l₀.id r)),
      if_neg (hfeed u _ (Or.inr hne))]
    exact h₂ u hu
  · dsimp only
    rw [Collection.lookup_foldl_insert_const (fun u => (u, l₀.id r)), if_neg]
    · exact h.newsfeed u id hu
    · exact hfeed u id (hu.imp_right fun hu he => hu.1 (he ▸ hid))

theorem Stored.deleteEntry {r : ℕ} (h : Stored l₀ db₀ lower upper (r :: dels) t? db)
    (hs : Screen l₀ lower upper l) (hr : r ∈ l₀.deleteList) :
    Stored l₀ db₀ lower upper dels t? (effect Write.apply (EditTrip.deleteEntry r l).2 db) := by
  rw [deleteEntry_effect, hs.id]
  have hfeed : ∀ u id, (u ∉ upper ∨ id ≠ l₀.id r) →
      (u, id) ∉ l.feeds.map fun u => (u, l₀.id r) := by
    rintro u id hu hmem
    obtain ⟨v, hv, he⟩ := List.mem_map.mp hmem
    cases he
    exact hu.elim (fun hu => hu (hs.feeds.2 _ hv)) fun hne => hne rfl
  refine ⟨h.users, h.user, h.trips, h.owner, fun id hid hd => ?_, fun r' hr' hrd => ?_,
    fun u id hu => ?_⟩
  · dsimp only
    rw [AList.lookup_erase_ne (hd r hr).symm]
    exact h.entries id hid hd
  · dsimp only
    rw [Collection.lookup_erase_eq]
    by_cases he : l₀.id r' = l₀.id r
    · refine ⟨by rw [if_pos he], fun u hu => ?_⟩
      rw [he, Collection.lookup_foldl_erase, if_pos]
      exact List.mem_map.mpr ⟨u, hs.feeds.1 u hu, rfl⟩
    · obtain ⟨h₁, h₂⟩ := h.deleted r' hr' (by
        rw [List.mem_cons]
        rintro (rfl | hmem)
        · exact he rfl
        · exact hrd hmem)
      refine ⟨by rw [if_neg he]; exact h₁, fun u hu => ?_⟩
      rw [Collection.lookup_foldl_erase, if_neg (hfeed u _ (Or.inr he))]
      exact h₂ u hu
  · dsimp only
    rw [Collection.lookup_foldl_erase, if_neg]
    · exact h.newsfeed u id hu
    · exact hfeed u id (hu.imp_right fun hu he => hu.2 r hr he.symm)

/-- The writes of `createTrip` before it links. -/
theorem Stored.createTrip {newTrip : TripID} {userData : UserDoc} (doc : TripDoc)
    (h : Stored l₀ db₀ lower upper dels none db) (ht : l₀.tripID = none)
    (hnew : db.trips.lookup newTrip = none) (hu : db.users.lookup l₀.user = some userData)
    (hdoc : doc.userID = l₀.user) :
    Stored l₀ db₀ lower upper dels (some newTrip)
      { db with
        trips := db.trips.insert newTrip doc
        users := db.users.modify l₀.user fun d =>
          { d with trips := userData.trips ++ [newTrip] } } := by
  have hu₀ : db₀.users.lookup l₀.user = some userData := by
    have := h.user
    rw [hu, ht] at this
    simpa using this.symm
  have hnew₀ : db₀.trips.lookup newTrip = none := by
    rw [← h.trips newTrip (by simp), hnew]
  refine ⟨fun v hv => ?_, ?_, fun t htn => ?_, fun t htn => ?_, h.entries, h.deleted, h.newsfeed⟩
  · dsimp only
    rw [Collection.lookup_modify_ne hv]
    exact h.users v hv
  · simp [hu, hu₀, ht]
  · have : t ≠ newTrip := by rintro rfl; exact htn rfl
    dsimp only
    rw [AList.lookup_insert_ne this]
    exact h.trips t (by simp)
  · obtain rfl := Option.some.inj htn
    refine ⟨doc, AList.lookup_insert _, ?_⟩
    rw [if_neg (by simp [ht])]
    exact ⟨hdoc, hnew₀⟩

/-! ## One step -/

/-- What the screen and the database are like when the save button is pressed. -/
structure Ready (l₀ : EditTrip) (db₀ : Firestore) (lower upper : Set Uid) : Prop where
  nodup : l₀.ids.Nodup
  nonempty : l₀.entryList ≠ []
  deleted : ∀ r ∈ l₀.deleteList, l₀.id r ∉ l₀.ids
  images : ∀ r ∈ l₀.entryList, ∀ image ∈ (l₀.heap r).images, image.jpegData.isSome
  uid : l₀.currentUser.uid = l₀.user
  user : ∃ userData, db₀.users.lookup l₀.user = some userData ∧
    Between lower upper (userData.followers ++ [l₀.user])
  feeds : Between lower upper l₀.feeds
  trip : ∀ t, l₀.tripID = some t → ∃ d, db₀.trips.lookup t = some d

/-- The steps that are considered while a save settles: every answer that it waits for is a
success, a new trip gets a new name, and the user does nothing, but the copy of the user can be
refreshed. -/
def settling (_ : EditTrip) (db : Firestore) : Async.Move Callback TripID Event → Prop
  | .event .currentUserFetched => True
  | .event _ => False
  | .deliver k ok newTrip => (k.token ≠ none → ok = true) ∧ db.trips.lookup newTrip = none

instance (l : EditTrip) (db : Firestore) : DecidablePred (settling l db)
  | .event .viewDidLoad => inferInstanceAs (Decidable False)
  | .event .viewWillAppear => inferInstanceAs (Decidable False)
  | .event (Event.addAnnotation _ _) => inferInstanceAs (Decidable False)
  | .event (Event.editAnnotation _ _) => inferInstanceAs (Decidable False)
  | .event (Event.deleteAnnotation _) => inferInstanceAs (Decidable False)
  | .event .editOrderButtonPressed => inferInstanceAs (Decidable False)
  | .event (.moveRowAt _ _) => inferInstanceAs (Decidable False)
  | .event .orderWillDisappear => inferInstanceAs (Decidable False)
  | .event (.editTripName _) => inferInstanceAs (Decidable False)
  | .event (.selectTripCover _) => inferInstanceAs (Decidable False)
  | .event .saveButtonPressed => inferInstanceAs (Decidable False)
  | .event .currentUserFetched => inferInstanceAs (Decidable True)
  | .deliver k ok newTrip => inferInstanceAs
      (Decidable ((k.token ≠ none → ok = true) ∧ db.trips.lookup newTrip = none))

/-- Both halves of the invariant. -/
structure Progress (l₀ : EditTrip) (db₀ : Firestore) (lower upper : Set Uid)
    (t? : Option TripID) (x : Direct Firestore EditTrip Callback) : Prop where
  underway : Underway l₀ db₀ lower upper [] t? x
  stage : Stage l₀ lower t? x.loc.counts (tokens x.bag) x.store

variable {x x' : Direct Firestore EditTrip Callback} {k : Callback} {rest : Multiset Callback}
  {cs : List Cmd}

theorem Underway.deliver (h : Underway l₀ db₀ lower upper dels t? x) (hb : x.bag = k ::ₘ rest) :
    Underway l₀ db₀ lower upper dels t? { x with bag := rest } where
  screen := h.screen
  tripID := h.tripID
  target := h.target
  fits k' hk' := h.fits k' (hb ▸ Multiset.mem_cons_of_mem hk')
  cells := h.cells.mono (fun τ hτ => by
    rw [hb, tokens_cons]
    exact Multiset.mem_add.mpr (Or.inr hτ)) le_rfl
  stored := h.stored

/-- What is to be shown of code that runs during a save. -/
theorem Underway.after {dels' : List ℕ} (h : Underway l₀ db₀ lower upper dels t? x)
    (l' : EditTrip) (hs : Screen l₀ lower upper l') (ht : l'.tripID = l₀.tripID ∨ l'.tripID = t?)
    (hi : Issues l₀ t? cs T) (hc : Cells l₀.nextCount l'.nextCount (tokens x.bag + T))
    (hst : Stored l₀ db₀ lower upper dels' t? (effect Write.apply cs x.store)) :
    Underway l₀ db₀ lower upper dels' t? (program.after (l', cs) x) where
  screen := hs
  tripID := ht
  target := h.target
  fits k hk := (Multiset.mem_add.mp hk).elim (h.fits k) (hi.fits k)
  cells := by
    dsimp only [Program.after]
    rw [tokens_add, hi.tokens]
    exact hc
  stored := hst

/-- A callback that no counter waits for, or that only makes way for another. -/
theorem Progress.inert (hr : Ready l₀ db₀ lower upper) (h : Progress l₀ db₀ lower upper t? x)
    (hb : x.bag = k ::ₘ rest) (hs : Screen l₀ lower upper l') (ht : l'.tripID = x.loc.tripID)
    (hcounts : l'.counts = x.loc.counts) (hnext : l'.nextCount = x.loc.nextCount)
    (hi : Issues l₀ t? cs (k.token.elim 0 fun τ => {τ})) (hl : Relinking t? l₀.ids cs) :
    Progress l₀ db₀ lower upper t? (program.after (l', cs) { x with bag := rest }) := by
  have hT : tokens rest + k.token.elim 0 (fun τ => {τ}) = tokens x.bag := by
    rw [hb, tokens_cons, add_comm]
  have hrel := hl.relinks x.store
  refine ⟨(h.underway.deliver hb).after _ hs (ht ▸ h.underway.tripID) hi ?_
    (h.underway.stored.relinks hr.deleted hrel), ?_⟩
  · rw [hT, hnext]
    exact h.underway.cells
  · dsimp only [Program.after]
    rw [tokens_add, hi.tokens, hT, hcounts]
    exact h.stage.harmless hr.nodup h.underway.cells h.underway.screen.next
      (⟨hrel, rfl, fun _ _ _ => rfl, fun _ _ _ => rfl⟩ : Harmless _ _ none _ _ _ _ _ _ _) (by simp)

/-- An answer arrives: its token is in front. -/
theorem Progress.delivered (h : Progress l₀ db₀ lower upper t? x) (hb : x.bag = k ::ₘ rest)
    {τ : Token} (hτ : k.token = some τ) :
    Stage l₀ lower t? x.loc.counts (τ ::ₘ tokens rest) x.store ∧
      Cells l₀.nextCount x.loc.nextCount (τ ::ₘ tokens rest) ∧
      Underway l₀ db₀ lower upper [] t? { x with bag := rest } := by
  have htok : tokens x.bag = τ ::ₘ tokens rest := by
    rw [hb]
    exact tokens_cons_some hτ rest
  exact ⟨htok ▸ h.stage, htok ▸ h.underway.cells, h.underway.deliver hb⟩

/-- The trip of the screen is that of the save. -/
theorem Underway.trip_eq {t : TripID} (h : Underway l₀ db₀ lower upper dels t? x)
    (ht : x.loc.tripID = some t) (ht₀ : t? = l₀.tripID) : t? = some t := by
  rcases h.tripID with h' | h'
  · rw [ht₀, ← h', ht]
  · rw [← h', ht]

/-- While entries are being uploaded or written, the save is in its first stage. -/
theorem Stage.saving {τ : Token} (h : Stage l₀ lower t? counts (τ ::ₘ T) db)
    (hτ : τ.isMain) (hτ' : τ ≠ .fetched ∧ τ ≠ .updated) :
    t? = l₀.tripID ∧ Saving l₀ lower [] counts (τ ::ₘ T) db := by
  have hmem : τ ∈ main (τ ::ₘ T) := mem_main.mpr ⟨Multiset.mem_cons_self τ T, hτ⟩
  rcases h with h | ⟨c, h⟩
  · cases h with
    | saving ht h => exact ⟨ht, h⟩
    | fetching ht hm hp =>
      rw [hm, Multiset.mem_singleton] at hmem
      exact absurd hmem hτ'.1
    | updating ht hm hp hl =>
      rw [hm, Multiset.mem_singleton] at hmem
      exact absurd hmem hτ'.2
    | ordered hm hp hl hi hn => simp [hm] at hmem
  · simp [h.idle] at hmem

theorem Progress.imageURL (hr : Ready l₀ db₀ lower upper) (h : Progress l₀ db₀ lower upper t? x)
    {c press r : ℕ} {path : String} (hb : x.bag = .imageURL c press r path ::ₘ rest)
    {newTrip : TripID} {res : EditTrip × List Cmd}
    (hres : react (.imageURL c press r path) true newTrip x.loc x.store = some res) :
    Progress l₀ db₀ lower upper t? (program.after res { x with bag := rest }) := by
  obtain ⟨rfl, hrL⟩ := h.underway.fits _ (hb ▸ Multiset.mem_cons_self _ rest)
  obtain ⟨hst, hc, hd⟩ := h.delivered hb rfl
  obtain ⟨ht, hsv⟩ := hst.saving rfl ⟨by simp, by simp⟩
  simp only [react, if_true, Option.some.injEq] at hres
  generalize hl' : (x.loc.set r { x.loc.heap r with
    imageUrls := (x.loc.heap r).imageUrls ++ [⟨path⟩] }).count c = l' at hres
  have hcount : ∀ c', l'.counts c' = if c' = c then x.loc.counts c + 1 else x.loc.counts c' := by
    intro c'
    rw [← hl']
    simp [count, set, Function.update_apply]
  have hkeeps : Keeps x.loc l' := by
    rw [← hl']
    refine (keeps_set ?_).trans (keeps_count _ c)
    rfl
  have hnext : l'.nextCount = x.loc.nextCount := by rw [← hl']; rfl
  have hnow : l'.now = x.loc.now := by rw [← hl']; rfl
  have htrip : l'.tripID = x.loc.tripID := by rw [← hl']; rfl
  have hs : Screen l₀ lower upper l' := h.underway.screen.keeps hkeeps hnext.ge hnow.ge
  rw [hs.images r, hcount, if_pos rfl] at hres
  split at hres <;> subst hres
  · rename_i hlast
    refine ⟨hd.after (addToFirebase l₀.nextCount r l').1
      ⟨hs.user, hs.uid, hs.feeds, hs.entryList, hs.content, hs.next, hs.now.trans (Nat.le_succ _)⟩
      (htrip ▸ h.underway.tripID) (issues_addToFirebase hrL l') ?_
      (h.underway.stored.addToFirebase hs hr.deleted hrL _), Or.inl (.saving ht ?_)⟩
    · change Cells _ l'.nextCount _
      rw [hnext]
      exact hd.cells.add_singleton (Or.inl rfl)
    · dsimp only [Program.after]
      rw [tokens_add, (issues_addToFirebase hrL l' : Issues l₀ t? _ _).tokens]
      exact hsv.uploaded_last hr.nodup hc hs hcount hlast
  · rename_i hlast
    refine ⟨hd.after (T := 0) _ hs (htrip ▸ h.underway.tripID) ⟨by simp, rfl⟩ ?_ hd.stored,
      Or.inl (.saving ht ?_)⟩
    · rw [hnext, add_zero]
      exact hd.cells
    · simp only [Program.after, callbacks_nil, add_zero]
      exact hsv.uploaded hc hcount hlast

theorem Progress.entryWritten
    (h : Progress l₀ db₀ lower upper t? x) {press r : ℕ}
    (hb : x.bag = .entryWritten press r ::ₘ rest) :
    Progress l₀ db₀ lower upper t?
      (program.after (EditTrip.entryWritten press x.loc) { x with bag := rest }) := by
  obtain ⟨rfl, hrL⟩ := h.underway.fits _ (hb ▸ Multiset.mem_cons_self _ rest)
  obtain ⟨hst, hc, hd⟩ := h.delivered hb rfl
  obtain ⟨ht, hsv⟩ := hst.saving rfl ⟨by simp, by simp⟩
  have hs : Screen l₀ lower upper (x.loc.count l₀.nextCount) :=
    h.underway.screen.keeps (keeps_count _ _) le_rfl le_rfl
  have hcount : ∀ c, (x.loc.count l₀.nextCount).counts c =
      if c = l₀.nextCount then x.loc.counts l₀.nextCount + 1 else x.loc.counts c := by
    intro c
    simp [count, Function.update_apply]
  simp only [EditTrip.entryWritten]
  rw [hs.entryList, hs.ids, hcount, if_pos rfl]
  split
  · rename_i hlast
    obtain ⟨hm, hp⟩ := hsv.written_last hlast
    refine ⟨hd.after (T := {.fetched}) _ hs h.underway.tripID ⟨?_, rfl⟩
      (hd.cells.add_singleton (Or.inr (Or.inl rfl))) hd.stored, Or.inl (.fetching ht ?_ hp)⟩
    · intro k hk
      simp only [callbacks_request, callbacks_nil, Multiset.mem_cons, Multiset.notMem_zero,
        or_false] at hk
      rw [hk]
      exact rfl
    · simp only [Program.after, tokens_add, main_add, hm, zero_add]
      rfl
  · rename_i hlast
    refine ⟨hd.after (T := 0) _ hs h.underway.tripID ⟨by simp, rfl⟩ ?_ hd.stored,
      Or.inl (.saving ht ?_)⟩
    · rw [add_zero]
      exact hd.cells
    · simp only [Program.after, callbacks_nil, add_zero]
      exact hsv.written hc hcount hlast

theorem Callback.Fits.of_none (h : k.Fits l₀ none) : k.Fits l₀ t? := by
  cases k with
  | tripIDUpdated c ids t => exact absurd h.2 (by simp)
  | entryOrderUpdated c n t => exact absurd h.2 (by simp)
  | tripCoverUploaded t path data => exact absurd h (by simp [Callback.Fits])
  | tripCoverURL t path => exact absurd h (by simp [Callback.Fits])
  | _ => exact h

theorem Steady.fetched (h : Stage l₀ lower t? counts (.fetched ::ₘ T) db) :
    t? = l₀.tripID ∧ main T = 0 ∧ ∀ r ∈ l₀.entryList, Published l₀ lower db r := by
  have hmem : Token.fetched ∈ Token.fetched ::ₘ T := Multiset.mem_cons_self _ T
  have hmain : main (.fetched ::ₘ T) = .fetched ::ₘ main T := main_cons_of_pos rfl
  have hmem' : Token.fetched ∈ main (.fetched ::ₘ T) := mem_main.mpr ⟨hmem, rfl⟩
  rcases h with h | ⟨c, h⟩
  · cases h with
    | saving ht h => exact absurd hmem h.early.1
    | fetching ht hm hp =>
      rw [hmain, ← Multiset.cons_zero, Multiset.cons_inj_right] at hm
      exact ⟨ht, hm, hp⟩
    | updating ht hm hp hl => simp [hm] at hmem'
    | ordered hm hp hl hi hn => simp [hm] at hmem'
  · simp [h.idle] at hmem'

theorem Steady.updated (h : Stage l₀ lower t? counts (.updated ::ₘ T) db) :
    t? = l₀.tripID ∧ main T = 0 ∧ (∀ r ∈ l₀.entryList, Published l₀ lower db r) ∧
      Listed l₀ t? db := by
  have hmem : Token.updated ∈ Token.updated ::ₘ T := Multiset.mem_cons_self _ T
  have hmain : main (.updated ::ₘ T) = .updated ::ₘ main T := main_cons_of_pos rfl
  have hmem' : Token.updated ∈ main (.updated ::ₘ T) := mem_main.mpr ⟨hmem, rfl⟩
  rcases h with h | ⟨c, h⟩
  · cases h with
    | saving ht h => exact absurd hmem h.early.2
    | fetching ht hm hp => simp [hm] at hmem'
    | updating ht hm hp hl =>
      rw [hmain, ← Multiset.cons_zero, Multiset.cons_inj_right] at hm
      exact ⟨ht, hm, hp, hl⟩
    | ordered hm hp hl hi hn => simp [hm] at hmem'
  · simp [h.idle] at hmem'

/-- The user has been fetched on the screen of a trip. -/
theorem Progress.updateTrip (hr : Ready l₀ db₀ lower upper)
    (h : Progress l₀ db₀ lower upper t? x) {p : ℕ} {t : TripID}
    (hb : x.bag = .userFetched p l₀.ids ::ₘ rest) (ht : x.loc.tripID = some t) :
    Progress l₀ db₀ lower upper t?
      (program.after (EditTrip.updateTrip l₀.ids t x.loc) { x with bag := rest }) := by
  obtain ⟨hst, -, hd⟩ := h.delivered hb rfl
  obtain ⟨ht₀, hm, hp⟩ := Steady.fetched hst
  have ht? : t? = some t := h.underway.trip_eq ht ht₀
  have hrel : Relinking t? l₀.ids (EditTrip.updateTrip l₀.ids t x.loc).2 := by
    intro w k hw
    simp only [EditTrip.updateTrip, Handler.issue_apply, List.mem_singleton] at hw
    cases hw
    exact .entries ht?
  have hR := hrel.relinks x.store
  refine ⟨hd.after (T := {.updated}) _ h.underway.screen h.underway.tripID ⟨?_, rfl⟩
    (hd.cells.add_singleton (Or.inr (Or.inr rfl))) (hd.stored.relinks hr.deleted hR),
    Or.inl (.updating ht₀ ?_ (fun r hr' => (hp r hr').relinks hR) ?_)⟩
  · intro k hk
    have hk' : k = .tripUpdated l₀.ids := Multiset.mem_singleton.mp hk
    rw [hk']
    exact rfl
  · simp only [Program.after, tokens_add, main_add, hm, zero_add]
    rfl
  · obtain ⟨d, hd', -⟩ := hd.stored.owner t ht?
    exact ⟨t, _, ht?, by simp [Program.after, program, EditTrip.updateTrip, hd']; rfl, rfl⟩

/-- The trip has been updated. -/
theorem Progress.tripUpdated (hr : Ready l₀ db₀ lower upper)
    (h : Progress l₀ db₀ lower upper t? x) {t : TripID}
    (hb : x.bag = .tripUpdated l₀.ids ::ₘ rest) (ht : x.loc.tripID = some t) :
    Progress l₀ db₀ lower upper t? (program.after (((uploadTripCoverPhoto t).andThen
      ((EditTrip.updateTripID l₀.ids t).andThen (.modify fun l => { l with dismissed := true })))
        x.loc) { x with bag := rest }) := by
  obtain ⟨hst, -, hd⟩ := h.delivered hb rfl
  obtain ⟨ht₀, hm, hp, hl⟩ := Steady.updated hst
  have ht? : t? = some t := h.underway.trip_eq ht ht₀
  have hi := (issues_uploadTripCoverPhoto ht? x.loc).append
    ((issues_updateTripID ht? x.loc).append (⟨by simp, rfl⟩ : Issues l₀ t? [] 0))
  have hrel : Relinking t? l₀.ids ((uploadTripCoverPhoto t x.loc).2 ++
      ((EditTrip.updateTripID l₀.ids t x.loc).2 ++ [])) := by
    rw [List.append_nil]
    exact (relinking_uploadTripCoverPhoto l₀.ids t x.loc).append
      (relinking_updateTripID ht? l₀.ids x.loc)
  rw [zero_add, add_zero] at hi
  have hk := keeps_updateTripID l₀.ids t x.loc
  have hs : Screen l₀ lower upper (EditTrip.updateTripID l₀.ids t x.loc).1 :=
    h.underway.screen.keeps hk (Nat.le_succ _) le_rfl
  refine ⟨hd.after { (EditTrip.updateTripID l₀.ids t x.loc).1 with dismissed := true }
    ⟨hs.user, hs.uid, hs.feeds, hs.entryList, hs.content, hs.next, hs.now⟩ h.underway.tripID hi
    (hd.cells.add_replicate h.underway.screen.next (Or.inl rfl))
    (hd.stored.relinks hr.deleted (hrel.relinks x.store)), Or.inr ⟨x.loc.nextCount, ?_⟩⟩
  have hlink := linking_updateTripID x.loc ht? hd.cells hr.nonempty hm hp hl
  change Linking l₀ lower x.loc.nextCount t? (EditTrip.updateTripID l₀.ids t x.loc).1.counts
    (tokens (rest + callbacks ((uploadTripCoverPhoto t x.loc).2 ++
      ((EditTrip.updateTripID l₀.ids t x.loc).2 ++ []))))
    (effect Write.apply ((uploadTripCoverPhoto t x.loc).2 ++
      ((EditTrip.updateTripID l₀.ids t x.loc).2 ++ [])) x.store)
  rw [tokens_add, hi.tokens, List.append_nil, effect_append, uploadTripCoverPhoto_effect]
  exact hlink

/-- The user has been fetched on the screen of a new trip. -/
theorem Progress.createTrip (hr : Ready l₀ db₀ lower upper)
    (h : Progress l₀ db₀ lower upper t? x) {p : ℕ} {userData : UserDoc} {newTrip : TripID}
    (hb : x.bag = .userFetched p l₀.ids ::ₘ rest) (ht : x.loc.tripID = none)
    (hnew : x.store.trips.lookup newTrip = none)
    (hu : x.store.users.lookup l₀.user = some userData) :
    Progress l₀ db₀ lower upper (some newTrip)
      (program.after (EditTrip.createTrip l₀.ids userData newTrip x.loc)
        { x with bag := rest }) := by
  obtain ⟨hst, -, hd⟩ := h.delivered hb rfl
  obtain ⟨ht₀, hm, hp⟩ := Steady.fetched hst
  have htl₀ : l₀.tripID = none := by
    rcases h.underway.tripID with h' | h'
    · rw [← h', ht]
    · rw [← ht₀, ← h', ht]
  obtain rfl : t? = none := ht₀.trans htl₀
  have hs := h.underway.screen
  -- the client when the trip has been added, and the store
  generalize hl₁ : { x.loc with now := x.loc.now + 1 } = l₁
  have hs₁ : Screen l₀ lower upper l₁ := by
    rw [← hl₁]
    exact ⟨hs.user, hs.uid, hs.feeds, hs.entryList, hs.content, hs.next,
      hs.now.trans (Nat.le_succ _)⟩
  have hnext : l₁.nextCount = x.loc.nextCount := by rw [← hl₁]
  generalize hdoc :
    TripDoc.mk x.loc.tripName none x.loc.user x.loc.now l₀.ids = doc
  have hst₁ := hd.stored.createTrip doc htl₀ hnew hu (by rw [← hdoc]; exact hs.user)
  generalize hdb₁ : ({ x.store with
    trips := x.store.trips.insert newTrip doc
    users := x.store.users.modify l₀.user fun d =>
      { d with trips := userData.trips ++ [newTrip] } } : Firestore) = db₁ at hst₁
  have hp₁ : ∀ r ∈ l₀.entryList, Published l₀ lower db₁ r := by
    rw [← hdb₁]
    exact hp
  have hl₁' : Listed l₀ (some newTrip) db₁ := by
    rw [← hdb₁]
    exact ⟨newTrip, doc, rfl, AList.lookup_insert _, by rw [← hdoc]⟩
  -- its commands, and their effect
  have hi : Issues l₀ (some newTrip) _ _ := (issues_updateTripID rfl l₁).append
    (issues_uploadTripCoverPhoto rfl (EditTrip.updateTripID l₀.ids newTrip l₁).1)
  rw [add_zero, hnext] at hi
  have hrel : Relinking (some newTrip) l₀.ids ((EditTrip.updateTripID l₀.ids newTrip l₁).2 ++
      (uploadTripCoverPhoto newTrip (EditTrip.updateTripID l₀.ids newTrip l₁).1).2) :=
    (relinking_updateTripID rfl l₀.ids l₁).append (relinking_uploadTripCoverPhoto l₀.ids newTrip _)
  have hafter : program.after (EditTrip.createTrip l₀.ids userData newTrip x.loc)
      { x with bag := rest } =
      program.after ({ (EditTrip.updateTripID l₀.ids newTrip l₁).1 with dismissed := true },
        (EditTrip.updateTripID l₀.ids newTrip l₁).2 ++
          (uploadTripCoverPhoto newTrip (EditTrip.updateTripID l₀.ids newTrip l₁).1).2)
        ⟨db₁, x.loc, rest⟩ := by
    rw [← hdb₁, ← hl₁, ← hdoc]
    simp [EditTrip.createTrip, Program.after, program, uploadTripCoverPhoto, hs.user]
  have hd₁ : Underway l₀ db₀ lower upper [] (some newTrip) ⟨db₁, x.loc, rest⟩ :=
    ⟨hs, Or.inl (ht.trans htl₀.symm), Or.inr htl₀, fun k hk => (hd.fits k hk).of_none, hd.cells,
      hst₁⟩
  have hs₂ : Screen l₀ lower upper (EditTrip.updateTripID l₀.ids newTrip l₁).1 :=
    hs₁.keeps (keeps_updateTripID l₀.ids newTrip l₁) (Nat.le_succ _) le_rfl
  have htrip : (EditTrip.updateTripID l₀.ids newTrip l₁).1.tripID = x.loc.tripID := by
    rw [← hl₁]
    rfl
  have hnext' : (EditTrip.updateTripID l₀.ids newTrip l₁).1.nextCount = x.loc.nextCount + 1 := by
    rw [← hnext]
    rfl
  rw [hafter]
  refine ⟨hd₁.after { (EditTrip.updateTripID l₀.ids newTrip l₁).1 with dismissed := true }
    ⟨hs₂.user, hs₂.uid, hs₂.feeds, hs₂.entryList, hs₂.content, hs₂.next, hs₂.now⟩
    (Or.inl (htrip.trans (ht.trans htl₀.symm))) hi ?_
    (hst₁.relinks hr.deleted (hrel.relinks db₁)), Or.inr ⟨x.loc.nextCount, ?_⟩⟩
  · dsimp only
    rw [hnext']
    exact hd.cells.add_replicate hs.next (Or.inl rfl)
  · have hlink := linking_updateTripID l₁ rfl (hnext ▸ hd.cells) hr.nonempty hm hp₁ hl₁'
    dsimp only [Program.after]
    rw [tokens_add, hi.tokens]
    change Linking _ _ _ _ _ _ (effect Write.apply _ db₁)
    rw [effect_append, uploadTripCoverPhoto_effect, ← hnext]
    exact hlink

/-- An entry has been linked. -/
theorem Progress.tripIDUpdated (hr : Ready l₀ db₀ lower upper)
    (h : Progress l₀ db₀ lower upper t? x) {c : ℕ} {ids : List EntryID} {t newTrip : TripID}
    (hb : x.bag = .tripIDUpdated c ids t ::ₘ rest) {ok : Bool} {res : EditTrip × List Cmd}
    (hres : react (.tripIDUpdated c ids t) ok newTrip x.loc x.store = some res) :
    Progress l₀ db₀ lower upper t? (program.after res { x with bag := rest }) := by
  obtain ⟨rfl, ht⟩ := h.underway.fits _ (hb ▸ Multiset.mem_cons_self _ rest)
  obtain ⟨hst, hc, hd⟩ := h.delivered hb rfl
  have hnext := h.underway.screen.next
  have hcount : ∀ c', (x.loc.count c).counts c' =
      if c' = c then x.loc.counts c + 1 else x.loc.counts c' := by
    intro c'
    simp [count, Function.update_apply]
  have hcell : ∀ c', some c = some c' →
      Token.tripID c' ∈ Token.tripID c ::ₘ tokens rest ∨
        Token.order c' ∈ Token.tripID c ::ₘ tokens rest := by
    intro c' h
    cases h
    exact Or.inl (Multiset.mem_cons_self _ _)
  have hlink : ∀ c', some c ≠ some c' →
      (tokens rest).count (.tripID c') = (Token.tripID c ::ₘ tokens rest).count (.tripID c') := by
    intro c' hne
    rw [Multiset.count_cons_of_ne]
    intro he
    cases he
    exact hne rfl
  have hs : Screen l₀ lower upper (x.loc.count c) :=
    h.underway.screen.keeps (keeps_count _ _) le_rfl le_rfl
  simp only [react, Option.some.injEq] at hres
  rw [hcount, if_pos rfl] at hres
  split at hres <;> subst hres
  · rename_i hlast
    have hi : Issues l₀ t? _ _ := issues_updateEntryOrder ht (x.loc.count c)
    have hR : Relinks t? l₀.ids x.store _ :=
      (relinking_updateEntryOrder l₀.ids t (x.loc.count c)).relinks x.store
    refine ⟨hd.after (updateEntryOrder l₀.ids t (x.loc.count c)).1
      (hs.keeps (keeps_newCount _) (Nat.le_succ _) le_rfl) h.underway.tripID hi
      (hd.cells.add_replicate hnext (Or.inr (Or.inl rfl))) (hd.stored.relinks hr.deleted hR), ?_⟩
    have hh : Harmless t? l₀.ids (some c) x.loc.nextCount x.loc.counts
        (updateEntryOrder l₀.ids t (x.loc.count c)).1.counts (.tripID c ::ₘ tokens rest)
        (tokens rest + Multiset.replicate l₀.ids.length (.order x.loc.nextCount)) x.store
        (effect Write.apply (updateEntryOrder l₀.ids t (x.loc.count c)).2 x.store) := by
      refine ⟨hR, ?_, fun c' hne hlt => ?_, fun c' hne hlt => ?_⟩
      · rw [main_add, main_replicate rfl, main_cons_of_neg rfl, add_zero]
      · rw [← hlink c' hne, Multiset.count_add, Multiset.count_replicate, if_neg (by simp),
          add_zero]
      · have hne' : c' ≠ c := fun he => hne (he ▸ rfl)
        simp [updateEntryOrder, newCount, count, hlt.ne, hne']
    dsimp only [Program.after]
    rw [tokens_add, hi.tokens]
    rcases hst with hst | ⟨c', hst⟩
    · exact Or.inl (hst.harmless hr.nodup hc hnext hh hcell)
    · by_cases hcc : c' = c
      · subst hcc
        exact Or.inl (hst.ordered (l := x.loc.count c') hr.nodup)
      · exact Or.inr ⟨c', hst.harmless hc hh fun he => hcc (Option.some.inj he).symm⟩
  · rename_i hlast
    refine ⟨hd.after (T := 0) _ hs h.underway.tripID ⟨by simp, rfl⟩
      (by rw [add_zero]; exact hd.cells) hd.stored, ?_⟩
    have hh : Harmless t? l₀.ids (some c) x.loc.nextCount x.loc.counts (x.loc.count c).counts
        (.tripID c ::ₘ tokens rest) (tokens rest) x.store x.store := by
      refine ⟨.refl _, (main_cons_of_neg rfl).symm, fun c' hne _ => hlink c' hne,
        fun c' hne _ => ?_⟩
      have : c' ≠ c := fun he => hne (he ▸ rfl)
      rw [hcount, if_neg this]
    simp only [Program.after, callbacks_nil, add_zero]
    rcases hst with hst | ⟨c', hst⟩
    · exact Or.inl (hst.harmless hr.nodup hc hnext hh hcell)
    · by_cases hcc : c' = c
      · subst hcc
        exact Or.inr ⟨c', hst.linked_one (by rw [hcount, if_pos rfl]) hlast⟩
      · exact Or.inr ⟨c', hst.harmless hc hh fun he => hcc (Option.some.inj he).symm⟩

/-- An entry has been numbered. -/
theorem Progress.entryOrderUpdated (hr : Ready l₀ db₀ lower upper)
    (h : Progress l₀ db₀ lower upper t? x) {c n : ℕ} {t newTrip : TripID}
    (hb : x.bag = .entryOrderUpdated c n t ::ₘ rest) {ok : Bool} {res : EditTrip × List Cmd}
    (hres : react (.entryOrderUpdated c n t) ok newTrip x.loc x.store = some res) :
    Progress l₀ db₀ lower upper t? (program.after res { x with bag := rest }) := by
  obtain ⟨-, ht⟩ := h.underway.fits _ (hb ▸ Multiset.mem_cons_self _ rest)
  obtain ⟨hst, hc, hd⟩ := h.delivered hb rfl
  have hs : Screen l₀ lower upper (x.loc.count c) :=
    h.underway.screen.keeps (keeps_count _ _) le_rfl le_rfl
  have hh : Harmless t? l₀.ids (some c) x.loc.nextCount x.loc.counts (x.loc.count c).counts
      (.order c ::ₘ tokens rest) (tokens rest) x.store x.store := by
    refine ⟨.refl _, (main_cons_of_neg rfl).symm, fun c' _ _ => ?_, fun c' hne _ => ?_⟩
    · rw [Multiset.count_cons_of_ne (by simp)]
    · have : c' ≠ c := fun he => hne (he ▸ rfl)
      simp [count, this]
  have hstage : Stage l₀ lower t? (x.loc.count c).counts (tokens rest) x.store :=
    hst.harmless hr.nodup hc h.underway.screen.next hh fun c' he =>
      Option.some.inj he ▸ Multiset.mem_cons_self _ _
  simp only [react, Option.some.injEq] at hres
  split at hres <;> subst hres
  · refine ⟨hd.after (T := 0) { x.loc.count c with tripID := some t }
      ⟨hs.user, hs.uid, hs.feeds, hs.entryList, hs.content, hs.next, hs.now⟩ (Or.inr ht.symm)
      ⟨by simp, rfl⟩ (by rw [add_zero]; exact hd.cells) hd.stored, ?_⟩
    simp only [Program.after, callbacks_nil, add_zero]
    exact hstage
  · refine ⟨hd.after (T := 0) _ hs h.underway.tripID ⟨by simp, rfl⟩
      (by rw [add_zero]; exact hd.cells) hd.stored, ?_⟩
    simp only [Program.after, callbacks_nil, add_zero]
    exact hstage

/-- The copy of the user is refreshed. -/
theorem Progress.currentUserFetched (hr : Ready l₀ db₀ lower upper)
    (h : Progress l₀ db₀ lower upper t? x) {res : EditTrip × List Cmd}
    (hres : event .currentUserFetched x.loc x.store = some res) :
    Progress l₀ db₀ lower upper t? (program.after res x) := by
  have hs := h.underway.screen
  have key : ∀ l', Screen l₀ lower upper l' → l'.tripID = x.loc.tripID →
      l'.counts = x.loc.counts → l'.nextCount = x.loc.nextCount →
      Progress l₀ db₀ lower upper t? (program.after (l', []) x) := by
    intro l' hs' ht hc hn
    refine ⟨h.underway.after (T := 0) _ hs' (ht ▸ h.underway.tripID) ⟨by simp, rfl⟩ ?_
      h.underway.stored, ?_⟩
    · rw [hn, add_zero]
      exact h.underway.cells
    · simp only [Program.after, callbacks_nil, add_zero]
      rw [hc]
      exact h.stage
  simp only [event] at hres
  split at hres <;> cases hres
  · exact key x.loc hs rfl rfl rfl
  · rename_i user hu
    obtain ⟨huid, hlookup⟩ := Firestore.fetchUser_eq_some hu
    obtain ⟨userData, hud, hb⟩ := hr.user
    rw [hs.user, h.underway.stored.user, hud, Option.map_some] at hlookup
    have hfollow : user.followers = userData.followers := by
      have := congrArg (Option.map UserDoc.followers) hlookup
      simp only [Option.map_some, Option.some.injEq] at this
      rw [← this]
      split <;> rfl
    have huid' : user.uid = l₀.user := huid.trans hs.user
    refine key { x.loc with currentUser := user } ⟨hs.user, huid', ?_, hs.entryList, hs.content,
      hs.next, hs.now⟩ rfl rfl rfl
    simp only [EditTrip.feeds]
    rw [hfollow, huid']
    exact hb

/-- **One step of a save.** -/
theorem Progress.step (hr : Ready l₀ db₀ lower upper) (h : Progress l₀ db₀ lower upper t? x)
    {m : Async.Move Callback TripID Event} (ha : settling x.loc x.store m)
    (hstep : DirectStep program x m x') : ∃ t?, Progress l₀ db₀ lower upper t? x' := by
  have hs := h.underway.screen
  have hnil : ∀ {t?}, Issues l₀ t? [] 0 := ⟨by simp, rfl⟩
  have hnil' : ∀ {t?}, Relinking t? l₀.ids [] := fun w k hw => by simp at hw
  cases hstep with
  | @event e r he =>
    cases e with
    | currentUserFetched => exact ⟨t?, h.currentUserFetched hr he⟩
    | _ => exact ha.elim
  | @deliver k ok newTrip rest res hb hres =>
    obtain ⟨hok, hnew⟩ := ha
    have hfit := h.underway.fits k (hb ▸ Multiset.mem_cons_self _ rest)
    change react k ok newTrip x.loc x.store = some res at hres
    cases k with
    | tripFetched t => exact hfit.elim
    | entryFetched id => exact hfit.elim
    | imageDownloaded r c urls url => exact hfit.elim
    | coverDocFetched t =>
      simp only [react] at hres
      split at hres
      · cases hres
        exact ⟨t?, h.inert hr hb hs rfl rfl rfl hnil hnil'⟩
      · obtain ⟨url, -, rfl⟩ := Option.map_eq_some_iff.mp hres
        refine ⟨t?, h.inert hr hb hs rfl rfl rfl ⟨fun k hk => ?_, rfl⟩ fun w k hw => by simp at hw⟩
        rw [Multiset.mem_singleton.mp hk]
        trivial
    | coverDownloaded url =>
      simp only [react] at hres
      split at hres <;> cases hres
      · exact ⟨t?, h.inert hr hb hs rfl rfl rfl hnil hnil'⟩
      · refine ⟨t?, h.inert hr hb (hs.keeps ?_ le_rfl le_rfl) rfl rfl rfl hnil hnil'⟩
        exact ⟨rfl, rfl, rfl, rfl, fun _ => rfl⟩
    | entryCoverDownloaded r url =>
      simp only [react] at hres
      split at hres <;> cases hres
      · exact ⟨t?, h.inert hr hb hs rfl rfl rfl hnil hnil'⟩
      · refine ⟨t?, h.inert hr hb (hs.keeps (keeps_set ?_) le_rfl le_rfl) rfl rfl rfl hnil hnil'⟩
        rfl
    | usernameFetched r uid =>
      cases hres
      refine ⟨t?, h.inert hr hb (hs.keeps (keeps_set ?_) le_rfl le_rfl) rfl rfl rfl hnil hnil'⟩
      rfl
    | objectDeleted path =>
      cases hres
      cases ok
      · exact ⟨t?, h.inert hr hb hs rfl rfl rfl hnil hnil'⟩
      · refine ⟨t?, h.inert hr hb (hs.keeps ?_ le_rfl le_rfl) rfl rfl rfl hnil hnil'⟩
        exact ⟨rfl, rfl, rfl, rfl, fun _ => rfl⟩
    | imageUploaded c press r path data =>
      cases hok (by simp [Callback.token])
      cases hres
      refine ⟨t?, h.inert hr hb (hs.keeps ⟨rfl, rfl, rfl, rfl, fun _ => rfl⟩ le_rfl le_rfl) rfl rfl
        rfl ⟨fun k hk => ?_, rfl⟩ fun w k hw => by simp at hw⟩
      rw [Multiset.mem_singleton.mp hk]
      exact hfit
    | imageURL c press r path =>
      cases hok (by simp [Callback.token])
      exact ⟨t?, h.imageURL hr hb hres⟩
    | entryWritten press r =>
      cases hok (by simp [Callback.token])
      cases hres
      exact ⟨t?, h.entryWritten hb⟩
    | userFetched p entryIdList =>
      cases hok (by simp [Callback.token])
      obtain rfl : entryIdList = l₀.ids := hfit
      obtain ⟨userData, hud, -⟩ := hr.user
      have hu := h.underway.stored.user
      rw [hud, Option.map_some] at hu
      simp only [react, if_true] at hres
      split at hres
      · rename_i hn
        rw [hs.user, hu] at hn
        cases hn
      · rename_i userData' hu'
        split at hres <;> cases hres
        · rename_i ht
          exact ⟨some newTrip, h.createTrip hr hb ht hnew (hs.user ▸ hu')⟩
        · rename_i t ht
          exact ⟨t?, h.updateTrip hr hb ht⟩
    | tripUpdated entryIdList =>
      obtain rfl : entryIdList = l₀.ids := hfit
      obtain ⟨t, ht, rfl⟩ := Option.map_eq_some_iff.mp hres
      exact ⟨t?, h.tripUpdated hr hb ht⟩
    | tripIDUpdated c ids t => exact ⟨t?, h.tripIDUpdated hr hb hres⟩
    | entryOrderUpdated c n t => exact ⟨t?, h.entryOrderUpdated hr hb hres⟩
    | tripCoverUploaded t path data =>
      cases hres
      refine ⟨t?, h.inert hr hb (hs.keeps ?_ ?_ ?_) ?_ ?_ ?_ ⟨fun k hk => ?_, rfl⟩
        fun w k hw => by simp at hw⟩
      · cases ok <;> exact ⟨rfl, rfl, rfl, rfl, fun _ => rfl⟩
      · cases ok <;> exact le_rfl
      · cases ok <;> exact le_rfl
      · cases ok <;> rfl
      · cases ok <;> rfl
      · cases ok <;> rfl
      · rw [Multiset.mem_singleton.mp hk]
        exact hfit
    | tripCoverURL t path =>
      simp only [react] at hres
      split at hres <;> cases hres
      · refine ⟨t?, h.inert hr hb (hs.keeps ?_ le_rfl le_rfl) rfl rfl rfl ⟨by simp, rfl⟩
          fun w k hw => ?_⟩
        · exact ⟨rfl, rfl, rfl, rfl, fun _ => rfl⟩
        · cases List.mem_singleton.mp hw
          exact .cover hfit
      · exact ⟨t?, h.inert hr hb hs rfl rfl rfl hnil hnil'⟩

/-! ## The press -/

/-- An entry without images is written at once. -/
theorem Saving.start_written {r press : ℕ} (hnd : l₀.ids.Nodup)
    (h : Saving l₀ lower (r :: todo) counts T db) (hs : Screen l₀ lower upper l) :
    Saving l₀ lower todo counts (T + {.written})
      (effect Write.apply (addToFirebase press r l).2 db) := by
  obtain ⟨hrt, hnd'⟩ := List.nodup_cons.mp h.nodup
  have hrefs : refs (T + {.written}) = refs T := by
    ext r'
    simp [mem_refs]
  have hcnt := h.count
  rw [List.length_cons] at hcnt
  refine ⟨hnd', fun r' hr' => h.subset r' (List.mem_cons_of_mem _ hr'), by simp [h.early], ?_,
    h.unfinished, fun c r' hcr => ?_, fun r' hr' hrt' hrr => ?_⟩
  · rw [hrefs, Multiset.count_add, Multiset.count_singleton_self]
    omega
  · have hcr' : Token.upload c r' ∈ T := by simpa using hcr
    obtain ⟨hr', hrt', hsum⟩ := h.uploads c r' hcr'
    refine ⟨hr', fun hmem => hrt' (List.mem_cons_of_mem _ hmem), ?_⟩
    rw [Multiset.count_add, Multiset.count_singleton, if_neg (by simp)]
    exact hsum
  · rw [hrefs] at hrr
    by_cases hrr' : r' = r
    · subst hrr'
      exact published_addToFirebase hs press r' db
    · refine (h.published r' hr' ?_ hrr).addToFirebase hs (fun he => hrr' ?_) press
      · exact fun hmem => (List.mem_cons.mp hmem).elim hrr' hrt'
      · exact id_injOn hnd hr' (h.subset r List.mem_cons_self) he

/-- The uploads of an entry with images are started. -/
theorem Saving.start_uploads {r m : ℕ} (h : Saving l₀ lower (r :: todo) counts T db)
    (hc : Cells l₀.nextCount next T) (hnext : l₀.nextCount < next) (hm : 0 < m)
    (himg : (l₀.heap r).images.length = m) :
    Saving l₀ lower todo (Function.update counts next 0)
      (T + Multiset.replicate m (.upload next r)) db := by
  obtain ⟨hrt, hnd'⟩ := List.nodup_cons.mp h.nodup
  have hrT : r ∉ refs T := by
    intro hrT
    obtain ⟨c, hcT⟩ := mem_refs.mp hrT
    exact (h.uploads c r hcT).2.1 List.mem_cons_self
  have hrefs : refs (T + Multiset.replicate m (.upload next r)) = insert r (refs T) := by
    rw [refs_add, refs_replicate hm, Finset.union_comm, Finset.singleton_union]
  have hmem : ∀ {τ}, τ ∈ T + Multiset.replicate m (Token.upload next r) →
      τ ∈ T ∨ τ = .upload next r := fun h =>
    (Multiset.mem_add.mp h).imp_right Multiset.eq_of_mem_replicate
  have hcnt := h.count
  rw [List.length_cons] at hcnt
  refine ⟨hnd', fun r' hr' => h.subset r' (List.mem_cons_of_mem _ hr'), ⟨?_, ?_⟩, ?_, ?_,
    fun c r' hcr => ?_, fun r' hr' hrt' hrr => ?_⟩
  · exact fun hf => (hmem hf).elim h.early.1 (by simp)
  · exact fun hf => (hmem hf).elim h.early.2 (by simp)
  · rw [hrefs, Finset.card_insert_of_notMem hrT, Function.update_of_ne hnext.ne,
      Multiset.count_add, Multiset.count_replicate, if_neg (by simp)]
    omega
  · rw [Function.update_of_ne hnext.ne]
    exact h.unfinished
  · rw [Multiset.count_add]
    rcases hmem hcr with hcT | he
    · obtain ⟨hr', hrt', hsum⟩ := h.uploads c r' hcT
      have hlt := (hc.upload c r' hcT).2.ne
      refine ⟨hr', fun hmem => hrt' (List.mem_cons_of_mem _ hmem), ?_⟩
      rw [Function.update_of_ne hlt, Multiset.count_replicate, if_neg (by simp [hlt.symm])]
      exact hsum
    · cases he
      have hfresh : T.count (.upload next r) = 0 :=
        Multiset.count_eq_zero.mpr fun h => (hc.upload _ _ h).2.ne rfl
      refine ⟨h.subset r List.mem_cons_self, hrt, ?_⟩
      rw [Function.update_self, hfresh, Multiset.count_replicate_self, himg]
      omega
  · rw [hrefs, Finset.mem_insert, not_or] at hrr
    exact h.published r' hr' (fun hmem => (List.mem_cons.mp hmem).elim hrr.1 hrt') hrr.2

/-- The invariant while the code of the press runs: deletions `dels` and entries `todo` are still
to come. -/
structure Pressing (l₀ : EditTrip) (db₀ : Firestore) (lower upper : Set Uid) (dels todo : List ℕ)
    (x : Direct Firestore EditTrip Callback) : Prop where
  underway : Underway l₀ db₀ lower upper dels l₀.tripID x
  dels : ∀ r ∈ dels, r ∈ l₀.deleteList
  saving : Saving l₀ lower todo x.loc.counts (tokens x.bag) x.store

/-- An early pass that links the entries. -/
theorem Pressing.relink (hr : Ready l₀ db₀ lower upper)
    (h : Pressing l₀ db₀ lower upper dels todo x) (hs : Screen l₀ lower upper l')
    (ht : l'.tripID = x.loc.tripID) (hn : l'.nextCount = x.loc.nextCount + 1)
    (hcounts : ∀ c < x.loc.nextCount, l'.counts c = x.loc.counts c)
    (hi : Issues l₀ l₀.tripID cs (Multiset.replicate l₀.ids.length (.tripID x.loc.nextCount)))
    (hrel : Relinking l₀.tripID l₀.ids cs) :
    Pressing l₀ db₀ lower upper dels todo (program.after (l', cs) x) := by
  have hR := hrel.relinks x.store
  have hnext := h.underway.screen.next
  refine ⟨h.underway.after _ hs (ht ▸ h.underway.tripID) hi ?_
    (h.underway.stored.relinks hr.deleted hR), h.dels, ?_⟩
  · rw [hn]
    exact h.underway.cells.add_replicate hnext (Or.inl rfl)
  · dsimp only [Program.after]
    rw [tokens_add, hi.tokens]
    refine h.saving.harmless h.underway.cells hnext (⟨hR, ?_, fun c _ hlt => ?_,
      fun c _ hlt => hcounts c hlt⟩ : Harmless _ _ none _ _ _ _ _ _ _) (by simp)
    · rw [main_add, main_replicate rfl, add_zero]
    · have hne : c ≠ x.loc.nextCount := hlt.ne
      rw [Multiset.count_add, Multiset.count_replicate, if_neg (by simp [hne.symm]), add_zero]

theorem Pressing.updateTripInfoDidSet (hr : Ready l₀ db₀ lower upper)
    (h : Pressing l₀ db₀ lower upper dels todo x) (n : ℕ) :
    Pressing l₀ db₀ lower upper dels todo
      (program.after (EditTrip.updateTripInfoDidSet n x.loc) x) := by
  have hskip : Pressing l₀ db₀ lower upper dels todo (program.after (x.loc, []) x) := by
    simpa [Program.after] using h
  have hs := h.underway.screen
  simp only [EditTrip.updateTripInfoDidSet]
  split
  · split
    · exact hskip
    · rename_i t ht
      have ht? : l₀.tripID = some t := by
        rw [← ht]
        exact h.underway.tripID.elim Eq.symm Eq.symm
      have hi : Issues l₀ l₀.tripID _ _ :=
        (issues_uploadTripCoverPhoto ht? x.loc).append (issues_updateTripID ht? x.loc)
      rw [zero_add] at hi
      rw [hs.ids]
      refine h.relink hr (hs.keeps (keeps_updateTripID l₀.ids t x.loc) (Nat.le_succ _) le_rfl) rfl
        rfl (fun c hlt => ?_) ⟨hi.fits, hi.tokens⟩ fun w k hw => ?_
      · simp [uploadTripCoverPhoto, updateTripID, newCount, hlt.ne]
      · rcases List.mem_cons.mp hw with hw | hw
        · cases hw
          rw [hs.ids]
          exact .entries ht?
        · exact ((relinking_uploadTripCoverPhoto l₀.ids t x.loc).append
            (relinking_updateTripID ht? l₀.ids x.loc)) w k hw
  · exact hskip

theorem Pressing.deleteEntry {r : ℕ} (h : Pressing l₀ db₀ lower upper (r :: dels) l₀.entryList x) :
    Pressing l₀ db₀ lower upper dels l₀.entryList
      (program.after (EditTrip.deleteEntry r x.loc) x) := by
  have hi : Issues l₀ l₀.tripID _ _ := issues_deleteEntry r x.loc
  have hs := h.underway.screen
  have hsv := h.saving
  refine ⟨h.underway.after x.loc hs h.underway.tripID hi
    (by rw [add_zero]; exact h.underway.cells)
    (h.underway.stored.deleteEntry hs (h.dels r List.mem_cons_self)),
    fun r' hr' => h.dels r' (List.mem_cons_of_mem _ hr'), ?_⟩
  change Saving l₀ lower l₀.entryList x.loc.counts (tokens (x.bag + callbacks _)) _
  rw [tokens_add, hi.tokens, add_zero]
  exact ⟨hsv.nodup, hsv.subset, hsv.early, hsv.count, hsv.unfinished, hsv.uploads,
    fun r hr hrt => absurd hr hrt⟩

theorem Pressing.addEntryToFirestore (hr : Ready l₀ db₀ lower upper) {r : ℕ}
    (h : Pressing l₀ db₀ lower upper dels (r :: todo) x) :
    Pressing l₀ db₀ lower upper dels todo
      (program.after (EditTrip.addEntryToFirestore l₀.nextCount r x.loc) x) := by
  have hs := h.underway.screen
  have hrL := h.saving.subset r List.mem_cons_self
  simp only [EditTrip.addEntryToFirestore]
  split
  · have hi : Issues l₀ l₀.tripID _ _ := issues_addToFirebase hrL x.loc
    refine ⟨h.underway.after (addToFirebase l₀.nextCount r x.loc).1
      ⟨hs.user, hs.uid, hs.feeds, hs.entryList, hs.content, hs.next, hs.now.trans (Nat.le_succ _)⟩
      h.underway.tripID hi (h.underway.cells.add_singleton (Or.inl rfl))
      (h.underway.stored.addToFirebase hs hr.deleted hrL _), h.dels, ?_⟩
    dsimp only [Program.after]
    rw [tokens_add, hi.tokens]
    exact h.saving.start_written hr.nodup hs
  · rename_i hpos
    have himg := hs.images r
    have henc : ∀ image ∈ (x.loc.heap r).images, image.jpegData.isSome := by
      rw [himg]
      exact hr.images r hrL
    have hi : Issues l₀ l₀.tripID _ _ :=
      issues_imageUploads hrL x.loc.currentUser.uid (x.loc.id r) x.loc.nextCount henc 0
    have hrT : r ∉ refs (tokens x.bag) := by
      intro hrT
      obtain ⟨c, hcT⟩ := mem_refs.mp hrT
      exact (h.saving.uploads c r hcT).2.1 List.mem_cons_self
    refine ⟨h.underway.after _ (hs.keeps ((keeps_newCount _).trans (keeps_set ?_)) (Nat.le_succ _)
      le_rfl) h.underway.tripID hi
      (h.underway.cells.add_replicate hs.next (Or.inr (Or.inr ⟨r, rfl, hrT⟩))) ?_, h.dels, ?_⟩
    · rfl
    · rw [imageUploads_effect]
      exact h.underway.stored
    · change Saving l₀ lower todo (Function.update x.loc.counts x.loc.nextCount 0)
        (tokens (x.bag + callbacks _)) (effect Write.apply _ x.store)
      rw [tokens_add, hi.tokens, imageUploads_effect]
      exact h.saving.start_uploads h.underway.cells hs.next (Nat.pos_of_ne_zero hpos)
        (congrArg List.length himg.symm)

/-- **What a press of the save button begins.** -/
theorem Progress.press (hr : Ready l₀ db₀ lower upper) {bag : Multiset Callback}
    (hbag : ∀ k ∈ bag, k.Fits l₀ l₀.tripID ∧ k.token = none) (hne : l₀.emptyField = false) :
    Progress l₀ db₀ lower upper l₀.tripID
      (program.after (saveButtonPressed l₀) ⟨db₀, l₀, bag⟩) := by
  have htok : tokens bag = 0 := tokens_eq_zero fun k hk => (hbag k hk).2
  have hk := keeps_newCount l₀
  have h₀ : Pressing l₀ db₀ lower upper l₀.deleteList l₀.entryList ⟨db₀, l₀.newCount, bag⟩ := by
    have hs : Screen l₀ lower upper l₀.newCount :=
      ⟨rfl, hr.uid, hr.feeds, rfl, fun _ => rfl, Nat.lt_succ_self _, le_rfl⟩
    refine ⟨⟨hs, Or.inl rfl, Or.inl rfl, fun k hk => (hbag k hk).1, ?_, ?_⟩, fun r hr => hr, ?_⟩
    · rw [htok]
      exact ⟨by simp, by simp, by simp, by simp, by simp⟩
    · refine ⟨fun _ _ => rfl, by simp, fun _ _ => rfl, fun t ht => ?_, fun _ _ _ => rfl,
        fun r hr hrd => absurd hr hrd, fun _ _ _ => rfl⟩
      obtain ⟨d, hd⟩ := hr.trip t ht
      exact ⟨d, hd, by rw [if_pos rfl]; exact ⟨d, hd, rfl⟩⟩
    · have hp : l₀.newCount.counts l₀.nextCount = 0 := by simp [newCount]
      rw [htok]
      refine ⟨List.Nodup.of_map _ hr.nodup, fun r hr => hr, by simp, ?_, ?_, by simp,
        fun r hr hrt => absurd hr hrt⟩
      · rw [hp]
        simp [refs]
      · rw [hp]
        exact List.length_pos_of_ne_nil hr.nonempty
  have h₁ : Pressing l₀ db₀ lower upper l₀.deleteList l₀.entryList
      (program.after (updateTripInfo l₀.newCount) ⟨db₀, l₀.newCount, bag⟩) :=
    after_forEach (I := fun _ => Pressing l₀ db₀ lower upper l₀.deleteList l₀.entryList)
      (fun n _ _ h => h.updateTripInfoDidSet hr n) h₀
  have h₂ := after_forEach (I := fun dels => Pressing l₀ db₀ lower upper dels l₀.entryList)
    (fun _ _ _ h => h.deleteEntry) h₁
  have h₃ := after_forEach (I := fun todo => Pressing l₀ db₀ lower upper [] todo)
    (fun _ _ _ h => h.addEntryToFirestore hr) h₂
  have hpress : program.after (saveButtonPressed l₀) ⟨db₀, l₀, bag⟩ =
      program.after ((updateTripInfo.andThen
        ((Handler.forEach EditTrip.deleteEntry l₀.deleteList).andThen
          (Handler.forEach (EditTrip.addEntryToFirestore l₀.nextCount) l₀.entryList))) l₀.newCount)
        ⟨db₀, l₀.newCount, bag⟩ := by
    rw [saveButtonPressed, hne]
    rfl
  rw [hpress, after_andThen, after_andThen]
  exact ⟨h₃.underway, Or.inl (.saving rfl h₃.saving)⟩

/-! ## The whole save -/

/-- What a save to the trip `t` has done when nothing of it is on its way any more. -/
structure Saved (l₀ : EditTrip) (db₀ : Firestore) (lower upper : Set Uid) (t : TripID)
    (db : Firestore) : Prop where
  target : l₀.tripID = some t ∨ l₀.tripID = none ∧ db₀.trips.lookup t = none
  stored : Stored l₀ db₀ lower upper [] (some t) db
  published : ∀ r ∈ l₀.entryList, Published l₀ lower db r
  listed : ∃ d, db.trips.lookup t = some d ∧ d.entries = l₀.ids
  linked : ∀ id ∈ l₀.ids, ∃ e, db.entries.lookup id = some e ∧ e.tripID = some t
  numbered : db.Numbered l₀.ids

/-- With nothing on its way, a save has come to its last stage. -/
theorem Progress.saved {db : Firestore} (h : Progress l₀ db₀ lower upper t? ⟨db, l, 0⟩) :
    ∃ t, Saved l₀ db₀ lower upper t db := by
  obtain ⟨hu, hs⟩ := h
  simp only [tokens_zero] at hs
  rcases hs with hs | ⟨c, hs⟩
  · cases hs with
    | saving ht h =>
      have hcnt := h.count
      have hunf := h.unfinished
      simp only [refs, Multiset.count_zero, Multiset.filterMap_zero, Multiset.toFinset_zero,
        Finset.card_empty, List.length_nil, add_zero] at hcnt
      omega
    | fetching ht hm hp => exact absurd hm.symm (Multiset.singleton_ne_zero _)
    | updating ht hm hp hl => exact absurd hm.symm (Multiset.singleton_ne_zero _)
    | ordered hm hp hl hi hn =>
      obtain ⟨t, d, rfl, hd, hids⟩ := hl
      refine ⟨t, ?_, hu.stored, hp, ⟨d, hd, hids⟩, hi, hn⟩
      rcases hu.target with h | h
      · exact Or.inl h.symm
      · obtain ⟨d', hd', ho⟩ := hu.stored.owner t rfl
        rw [if_neg (by simp [h])] at ho
        exact Or.inr ⟨h, ho.2⟩
  · exact absurd hs.pending (Multiset.notMem_zero _)

/-- **Every save that settles has saved**: after a press on a screen that is ready, however the
answers to the save arrive. -/
theorem saved_of_press (hr : Ready l₀ db₀ lower upper) {bag : Multiset Callback}
    {st st₁ st' : State Firestore EditTrip Write Callback}
    (hst : program.direct st = ⟨db₀, l₀, bag⟩)
    (hbag : ∀ k ∈ bag, k.Fits l₀ l₀.tripID ∧ k.token = none) (hne : l₀.emptyField = false)
    (hpress : program.step (.event .saveButtonPressed) st = some st₁)
    (hrun : Reaches program settling st₁ st') (hq : Quiescent st') :
    ∃ t, Saved l₀ db₀ lower upper t st'.store := by
  have h₁ : program.direct st₁ = program.after (saveButtonPressed l₀) ⟨db₀, l₀, bag⟩ := by
    obtain ⟨r, he, rfl⟩ := Option.map_eq_some_iff.mp hpress
    have hloc : st.loc = l₀ := congrArg Direct.loc hst
    have hev : r = saveButtonPressed l₀ := by
      rw [hloc] at he
      simp only [program, event] at he
      split at he
      · exact (Option.some.inj he).symm
      · cases he
    rw [direct_issue, hev, ← hst]
    rfl
  have hdone : ∃ t?, Progress l₀ db₀ lower upper t? (program.direct st') := by
    refine hrun.invariant (I := fun x => ∃ t?, Progress l₀ db₀ lower upper t? x)
      (fun x m x' h ha hs => ?_) ⟨l₀.tripID, ?_⟩
    · obtain ⟨t?, h⟩ := h
      exact h.step hr ha hs
    · rw [h₁]
      exact .press hr hbag hne
  obtain ⟨t?, hdone⟩ := hdone
  rw [hq.direct] at hdone
  exact hdone.saved

end

end EditTrip

end Wanderlust
