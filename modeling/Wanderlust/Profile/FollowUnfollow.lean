import Wanderlust.Profile.ProfilePage

/-!
# Following and unfollowing

A press of the follow button on the page of a public user, and then another: the second undoes the
first (`same_of_follow_unfollow`). What is undone is, for the documents of the users, that `unlink`
is the inverse of `link` (`unlink_link`), and for the newsfeed, that what the first press fills in
is what the second finds and deletes (`lookup_refilled`).
-/

namespace Wanderlust

open Async

namespace Firestore

/-- Two databases have the same documents, with the same contents. -/
structure Same (db db' : Firestore) : Prop where
  users : ∀ u, db'.users.lookup u = db.users.lookup u
  trips : ∀ t, db'.trips.lookup t = db.trips.lookup t
  entries : ∀ id, db'.entries.lookup id = db.entries.lookup id
  newsfeed : ∀ k, db'.newsfeed.lookup k = db.newsfeed.lookup k

end Firestore

/-- Nobody's list is changed by `a` following `b` and then unfollowing: what is appended is all that
is filtered out. -/
theorem unlink_link {a b u : Uid} {d : UserDoc} (hfollowing : u = a → b ∉ d.following)
    (hfollowers : u = b → a ∉ d.followers) : unlink a b u (link a b u d) = d := by
  have hfilter : ∀ {v : Uid} {vs : List Uid}, v ∉ vs →
      (vs ++ [v]).filter (fun w => w ≠ v) = vs := by
    intro v vs hv
    rw [List.filter_append, List.filter_eq_self.mpr fun w hw => ?_]
    · simp
    · simp only [ne_eq, decide_not, Bool.not_eq_eq_eq_not, Bool.not_true, decide_eq_false_iff_not]
      rintro rfl
      exact hv hw
  unfold unlink link
  by_cases ha : u = a
  · by_cases hb : u = b
    · simp only [if_pos ha, if_pos hb, hfilter (hfollowing ha), hfilter (hfollowers hb)]
    · simp only [if_pos ha, if_neg hb, hfilter (hfollowing ha)]
  · by_cases hb : u = b
    · simp only [if_neg ha, if_pos hb, hfilter (hfollowers hb)]
    · simp only [if_neg ha, if_neg hb]

namespace ProfilePage

variable {me other me' other' : User} {db db₁ db₂ : Firestore} {l l₁ l' l₂ : ProfilePage}

/-- What has been filled into a newsfeed is emptied out again, if the newsfeed named the author
nowhere and had no document under the name of an entry of the author. -/
theorem lookup_refilled {reader author : Uid} (hfilled : db₁.newsfeed = db.filled reader author)
    (hfeed : ∀ id d, db.newsfeed.lookup (reader, id) = some d → d.userID ≠ author ∧
      ∀ e ∈ db.entries.docs, e.2.userID = author → e.2.entryID ≠ id) (k : Uid × EntryID) :
    (db₁.emptied reader author).lookup k = db.newsfeed.lookup k := by
  obtain ⟨u, id⟩ := k
  rw [Firestore.lookup_emptied, hfilled]
  have hlookup := Firestore.lookup_filled db reader author u id
  split
  · rename_i hdeleted
    obtain ⟨rfl, hitem⟩ := hdeleted
    obtain ⟨d, hd, hauthor⟩ := Firestore.mem_feedItems.mp hitem
    rw [hfilled] at hd
    cases hold : db.newsfeed.lookup (u, id) with
    | none => rfl
    | some d' =>
      exfalso
      obtain ⟨hne, hid⟩ := hfeed id d' hold
      rcases hlookup with hsame | ⟨-, e, he, heid, -⟩
      · -- the document was there before, and names the author
        rw [hd, hold] at hsame
        obtain rfl := Option.some.inj hsame
        exact hne hauthor
      · obtain ⟨hentry, heauthor⟩ := Firestore.of_mem_latestEntries he
        exact hid e (Collection.mem_docs.mpr hentry) heauthor heid
  · rename_i hkept
    rcases hlookup with hsame | ⟨rfl, e, he, heid, hwritten⟩
    · exact hsame
    · -- what is written names the author, and is found
      have hitem : id ∈ db₁.feedItems u author := by
        refine Firestore.mem_feedItems.mpr ⟨⟨e.2.timestamp, author⟩, ?_, rfl⟩
        rw [hfilled]
        exact hwritten
      exact absurd ⟨rfl, hitem⟩ hkept

/-- **Following and then unfollowing changes nothing**: on a page whose copies of the two users are
up to date before each press, two presses of the button leave every document as it was, if `me` does
not follow the other user, is not among the followers, and the newsfeed has nothing of the other
user. -/
theorem same_of_follow_unfollow (hme : db.fetchUser me.uid = some me)
    (hother : db.fetchUser other.uid = some other) (hpublic : other.publicUser = true)
    (hfollowing : other.uid ∉ me.following) (hfollowers : me.uid ∉ other.followers)
    (hfeed : ∀ id d, db.newsfeed.lookup (me.uid, id) = some d → d.userID ≠ other.uid ∧
      ∀ e ∈ db.entries.docs, e.2.userID = other.uid → e.2.entryID ≠ id)
    (hl : l.currentUser = me ∧ l.otherUserUid = some other.uid ∧ l.otherUser = some other)
    (hfirst : Completes program settling .followButtonPressed db l db₁ l₁)
    (hme' : db₁.fetchUser me.uid = some me') (hother' : db₁.fetchUser other.uid = some other')
    (hl' : l'.currentUser = me' ∧ l'.otherUserUid = some other.uid ∧ l'.otherUser = some other')
    (hsecond : Completes program settling .followButtonPressed db₁ l' db₂ l₂) :
    Firestore.Same db db₂ := by
  have h₁ := social_of_completes hme hother hl.1 hl.2.1 hl.2.2 hfirst
  have hchange : change me other = link me.uid other.uid := by
    rw [change, if_neg hfollowing, if_pos hpublic]
  have hfilled : feed me other db = db.filled me.uid other.uid := by
    rw [feed, if_neg hfollowing, if_pos hpublic]
  rw [hchange, hfilled] at h₁
  obtain ⟨huid, hdoc⟩ := Firestore.fetchUser_eq_some hme
  obtain ⟨huid', hdoc'⟩ := Firestore.fetchUser_eq_some hme'
  obtain ⟨houid', -⟩ := Firestore.fetchUser_eq_some hother'
  -- the second press finds that the other user is followed
  have hfollowed : other'.uid ∈ me'.following := by
    rw [h₁.users, hdoc] at hdoc'
    have hlist := congrArg UserDoc.following (Option.some.inj hdoc')
    rw [houid', ← hlist]
    simp [link]
  have hme₁ : db₁.fetchUser me'.uid = some me' := huid'.symm ▸ hme'
  have hother₁ : db₁.fetchUser other'.uid = some other' := houid'.symm ▸ hother'
  have h₂ := social_of_completes hme₁ hother₁ hl'.1 (houid'.symm ▸ hl'.2.1) hl'.2.2 hsecond
  rw [change, feed, if_pos hfollowed, if_pos hfollowed, huid', houid'] at h₂
  have h := h₁.trans h₂
  refine ⟨fun u => ?_, fun t => ?_, fun id => ?_, fun k => ?_⟩
  · rw [h.users]
    cases hu : db.users.lookup u with
    | none => rfl
    | some d =>
      refine congrArg some (unlink_link ?_ ?_)
      · rintro rfl
        obtain rfl : me.toUserDoc = d := Option.some.inj (hdoc.symm.trans hu)
        exact hfollowing
      · rintro rfl
        have hd := (Firestore.fetchUser_eq_some hother).2
        obtain rfl : other.toUserDoc = d := Option.some.inj (hd.symm.trans hu)
        exact hfollowers
  · rw [h.trips]
  · rw [h.entries]
  · rw [h.newsfeed]
    exact lookup_refilled h₁.newsfeed hfeed k

/-- Ann follows Carl, and Bob has an entry. -/
def followStore : Firestore where
  users := AList.insert "bob" { newUser "bob" with publicUser := true, followers := ["carl"] }
    (AList.insert "ann" { newUser "ann" with following := ["carl"] } ∅)
  trips := ∅
  entries := AList.insert "e" { sampleEntryDoc "e" with timestamp := 1, userID := "bob" } ∅
  newsfeed := AList.insert ("ann", "f") ⟨2, "carl"⟩ ∅

/-- Ann, before she follows Bob. -/
def followingMe : User := { newUser "ann" with following := ["carl"], uid := "ann" }

/-- Bob, before Ann follows him. -/
def sampleOther : User :=
  { newUser "bob" with publicUser := true, followers := ["carl"], uid := "bob" }

/-- The page of Bob. -/
def samplePage : ProfilePage :=
  { opened followingMe (some "bob") with otherUser := some sampleOther }

/-- What happens after a press: everything is written and answered in order. -/
def followSteps : List (Label Unit Event) :=
  [.apply, .apply, .deliver 0 true (), .deliver 0 true (), .apply, .deliver 0 true ()]

/-- Ann follows Bob and unfollows him. -/
theorem same_of_follow_unfollow_sample : ∃ db₁ l₁ db₂ l₂,
    Completes program settling .followButtonPressed followStore samplePage db₁ l₁ ∧
    db₁.newsfeed.lookup ("ann", "e") = some ⟨1, "bob"⟩ ∧
    Completes program settling .followButtonPressed db₁ l₁ db₂ l₂ ∧
    Firestore.Same followStore db₂ := by
  obtain ⟨⟨db₁, l₁⟩, hfirst, ⟨db₂, l₂⟩, hsecond, me', hme', other', hother', hpage, hfilled⟩ :
      ∃ r ∈ complete program settling .followButtonPressed followSteps followStore samplePage,
      ∃ r' ∈ complete program settling .followButtonPressed followSteps r.1 r.2,
      ∃ me' ∈ r.1.fetchUser "ann", ∃ other' ∈ r.1.fetchUser "bob",
        (r.2.currentUser = me' ∧ r.2.otherUserUid = some "bob" ∧ r.2.otherUser = some other') ∧
        r.1.newsfeed.lookup ("ann", "e") = some ⟨1, "bob"⟩ := by
    decide +kernel
  have hfeed : ∀ id d, followStore.newsfeed.lookup ("ann", id) = some d → d.userID ≠ "bob" ∧
      ∀ e ∈ followStore.entries.docs, e.2.userID = "bob" → e.2.entryID ≠ id := by
    intro id d hd
    simp only [followStore, Collection.lookup_insert_eq, Prod.mk.injEq, true_and] at hd
    split at hd
    · rename_i hid
      cases hd
      subst hid
      decide +kernel
    · cases hd
  have hme : followStore.fetchUser followingMe.uid = some followingMe := by decide +kernel
  have hother : followStore.fetchUser sampleOther.uid = some sampleOther := by decide +kernel
  have h₁ := completes_of_complete hfirst
  have h₂ := completes_of_complete hsecond
  exact ⟨db₁, l₁, db₂, l₂, h₁, hfilled, h₂, same_of_follow_unfollow hme hother rfl (by decide)
    (by decide) hfeed ⟨rfl, rfl, rfl⟩ h₁ hme' hother' hpage h₂⟩

end ProfilePage

end Wanderlust
