import Wanderlust.Foundations.Answers
import Wanderlust.Foundations.Notes
import Wanderlust.Foundations.Runs
import Wanderlust.Foundations.Shared
import Wanderlust.Models.User

/-!
# User names

`SignUpViewController` and `EditAccountSettingsViewController`, by any number of clients: both
look for a document with the new name, and write the name in a later callback, if there was none.
A setting is written to a document of which only the fields matter that there are, so that the
documents here are dictionaries (`Fields`).

Nobody looks again when the write takes effect. Every write of a name goes back to a look for a name
that has found nobody (`Net.checked`), so the names stay different exactly if, from the look to the
write, nobody else has been given the name, and it is the one that was looked for, or free anyway
(`usernames_unique_iff`). The answer of a query is read at one time and delivered at another.
-/

namespace Wanderlust

open Async Runs

/-- The value of a field. -/
inductive Value
  | string (s : String)
  | strings (l : List String)
  | bool (b : Bool)
  deriving DecidableEq

/-- A document as a dictionary. -/
abbrev Fields := Collection String Value

/-- The dictionary of a document: what is `nil` is not in it. -/
def UserDoc.encode (d : UserDoc) : Fields :=
  let fields : Fields := (((((((∅ : Fields).insert "followers" (.strings d.followers)).insert
    "following" (.strings d.following)).insert "requests" (.strings d.requests)).insert
    "bio" (.string d.bio)).insert "public" (.bool d.publicUser)).insert
    "trips" (.strings d.trips)).insert "username" (.string d.username)
  let fields := match d.photoUrl with
    | none => fields
    | some url => fields.insert "photoUrl" (.string url.path)
  match d.favorites with
  | none => fields
  | some favorites => fields.insert "favorites" (.strings favorites)

/-- The documents of users. -/
abbrev Users := Collection Uid Fields

/-- `setData(from:)` of a new user, and `setData` of one field with `merge`. -/
inductive UserWrite
  | setData (uid : Uid) (newUser : UserDoc)
  | merge (uid : Uid) (field value : String)

/-- A write taking effect. `setData` makes a document where there is none. -/
def UserWrite.apply : UserWrite → Users → Users
  | .setData uid newUser, db => db.insert uid newUser.encode
  | .merge uid field value, db =>
    db.insert uid (((db.lookup uid).getD ∅).insert field (.string value))

/-- The query for a user name. -/
def Users.named (db : Users) (username : String) : List (Uid × Fields) :=
  (db.docs.filter fun d => d.2.lookup "username" = some (.string username)).take 1

/-- A screen that edits a setting. -/
structure EditAccountSettings where
  settingName : String
  textField : String
  bioTextView : String
  popped : Bool

/-- The screen that `SettingsViewController` pushes, once it has been loaded. -/
def EditAccountSettings.opened (settingName data : String) : EditAccountSettings where
  settingName := settingName
  textField := data
  bioTextView := if settingName = "Bio" then data else ""
  popped := false

/-- The state of a client: the account that is signed in, the screens for the settings, and the
title and the message of the last alert. -/
structure Account where
  /-- `Auth.auth().currentUser`. -/
  auth : Option Uid
  screens : List EditAccountSettings
  alert : Option (String × String)

namespace Account

/-- What an answer of `Auth` can carry. -/
structure Answer where
  uid : Uid
  errorCode : String
  localizedDescription : String

inductive Callback
  -- `signUpButtonPressed`
  | usernameChecked (username : String)
  -- `createUser`
  | userCreated (username : String)
  -- `doneButtonPressed`
  | settingChecked (screen : ℕ) (username : String)
  -- `changeSettingInFirestore`
  | settingUpdated (screen : ℕ)
  -- `changeEmail`
  | emailUpdated (screen : ℕ)
  | reauthenticated (screen : ℕ)
  deriving DecidableEq

/-- What the user does. -/
inductive Event
  /-- Somebody who has an account logs in. -/
  | logIn (uid : Uid)
  | logOut
  | signUpButtonPressed (email password username : String)
  | editAccount (settingName data : String)
  | editText (screen : ℕ) (text : String)
  | editBio (screen : ℕ) (text : String)
  | doneButtonPressed (screen : ℕ)

abbrev Cmd := Async.Cmd UserWrite Callback
abbrev Handler := Async.Handler Account UserWrite Callback

/-- `Bio.CHAR_LIMIT`. -/
def bioCharLimit : ℕ := 80

/-- `showSigninError`. -/
def showSigninError (error : String) : Handler :=
  .modify fun l => { l with alert := some ("Sign Up Error", error) }

/-- `showEditAccountError`. -/
def showEditAccountError (s : EditAccountSettings) (error : String) : Handler :=
  .modify fun l => { l with alert := some ("Error updating " ++ s.settingName, error) }

/-- `popViewController`. -/
def pop (screen : ℕ) : Handler :=
  .modify fun l => { l with screens := l.screens.modify screen fun s => { s with popped := true } }

/-- `changeSettingInFirestore`. -/
def changeSettingInFirestore (screen : ℕ) (s : EditAccountSettings) (setting : String) : Handler :=
  .issue fun l =>
    match l.auth with
    | none => []
    | some uid =>
      let value := if setting = "Bio" then s.bioTextView else s.textField
      [.write (.merge uid setting.toLower value) (some (.settingUpdated screen))]

/-- `changeEmail`. -/
def changeEmail (screen : ℕ) (s : EditAccountSettings) : Handler := fun l =>
  if s.textField = "" then showEditAccountError s "Email field cannot be empty" l
  else (l, if l.auth.isSome then [.request (.emailUpdated screen)] else [])

/-- `doneButtonPressed`. -/
def doneButtonPressed (screen : ℕ) (s : EditAccountSettings) : Handler :=
  if s.textField = "" then showEditAccountError s "Name cannot be empty"
  else
    (if s.settingName = "Username" then
      .issue fun _ => [.request (.settingChecked screen s.textField)]
      else .skip : Handler).andThen <|
    (if s.settingName = "Bio" then changeSettingInFirestore screen s s.settingName
      else .skip : Handler).andThen <|
    if s.settingName = "Email" then changeEmail screen s else .skip

/-- The closure of `createUser`, for the new account `uid`. -/
def userCreated (uid : Uid) (username : String) : Handler :=
  (Handler.modify fun l => { l with auth := some uid }).andThen <|
    .issue fun _ => [.write (.setData uid (newUser username)) none]

/-- The code of the closures. -/
def react : Callback → Bool → Answer → Account → Users → Option (Account × List Cmd)
  | .usernameChecked username, ok, _, l, db => some <|
    if ok then
      if db.named username ≠ [] then
        showSigninError "Username is taken. Please choose another." l
      else (l, [.request (.userCreated username)])
    else (l, [])
  | .userCreated username, ok, a, l, db =>
    if ok then
      -- the account is new
      if (db.lookup a.uid).isSome then none else some (userCreated a.uid username l)
    else some (showSigninError a.localizedDescription l)
  | .settingChecked screen username, ok, _, l, db => l.screens[screen]?.map fun s =>
    if ok then
      if db.named username ≠ [] then
        showEditAccountError s "Username is taken. Please choose another." l
      else changeSettingInFirestore screen s s.settingName l
    else (l, [])
  | .settingUpdated screen, ok, a, l, _ => l.screens[screen]?.map fun s =>
    if ok then pop screen l else showEditAccountError s a.localizedDescription l
  | .emailUpdated screen, ok, a, l, _ => l.screens[screen]?.map fun s =>
    if ok then pop screen l
    else if a.errorCode = "FIRAuthErrorCodeRequiresRecentLogin" then
      (l, [.request (.reauthenticated screen)])
    else showEditAccountError s a.localizedDescription l
  | .reauthenticated screen, ok, a, l, _ => l.screens[screen]?.map fun s =>
    if ok then pop screen l else showEditAccountError s a.localizedDescription l

/-- The code of the user's actions. -/
def event : Event → Account → Users → Option (Account × List Cmd)
  | .logIn uid, l, _ => some ({ l with auth := some uid }, [])
  | .logOut, l, _ => some ({ l with auth := none }, [])
  | .signUpButtonPressed email password username, l, _ => some <|
    if email = "" ∨ password = "" ∨ username = "" then
      showSigninError "All fields must be filled out" l
    else (l, [.request (.usernameChecked username)])
  | .editAccount settingName data, l, _ =>
    some ({ l with screens := l.screens ++ [.opened settingName data] }, [])
  | .editText screen text, l, _ => some
    ({ l with screens := l.screens.modify screen fun s => { s with textField := text } }, [])
  | .editBio screen text, l, _ =>
    if text.length ≤ bioCharLimit then some
      ({ l with screens := l.screens.modify screen fun s => { s with bioTextView := text } }, [])
    else none
  | .doneButtonPressed screen, l, _ => l.screens[screen]?.map fun s => doneButtonPressed screen s l

/-- A client. -/
def program : Program Users Account UserWrite Callback Answer Event where
  apply := UserWrite.apply
  react := react
  event := event

/-! ### What a write goes back to -/

/-- A look for a name: the name, and the documents that were read for it. -/
structure Check where
  name : String
  seen : Users

/-- The last look for a name before the code of an answer runs. -/
def lastCheck : Answering Users Callback → Users → Option Check → Option Check
  | .answered (.usernameChecked username) _ seen, _, _ => some ⟨username, seen⟩
  | .answered (.settingChecked _ username) _ seen, _, _ => some ⟨username, seen⟩
  | _, _, check => check

/-- A callback of a client, with the last look for a name before it. -/
abbrev Closure := Answering Users Callback × Option Check

/-- A client, whose answers are read at one time and delivered at another, and whose writes carry
the look for a name that they go back to. -/
def checking : Program Users Account (UserWrite × Option Check) Closure Answer Event :=
  program.answering.marked none lastCheck

/-- The clients with their database. -/
abbrev Net (ι : Type*) := Shared ι Users Account (UserWrite × Option Check) Closure

section

variable {ι : Type*} [DecidableEq ι]

/-- A step of one of the clients. -/
def turn (n : Net ι) (x : ι × Label Answer Event) : Option (Net ι) :=
  (checking.step x.2 (n.state x.1)).map fun st => n.put x.1 st

omit [DecidableEq ι] in
/-- The clients begin. -/
def Net.start (db : Users) (l : ι → Account) : Net ι := ⟨db, fun i => ⟨l i, [], []⟩⟩

end

end Account

/-! ## Names -/

/-- The name in a document. -/
def Fields.username (fields : Fields) : Option String :=
  match fields.lookup "username" with
  | some (.string s) => some s
  | _ => none

/-- The name of a user. -/
def Users.username (db : Users) (uid : Uid) : Option String := (db.lookup uid).bind Fields.username

/-- No two documents have the same name. -/
def Users.Unique (db : Users) : Prop :=
  ∀ u v name, db.username u = some name → db.username v = some name → u = v

/-- The user whose name a write changes, and the new name. -/
def UserWrite.username : UserWrite → Option (Uid × String)
  | .setData uid newUser => some (uid, newUser.username)
  | .merge uid field value => if field = "username" then some (uid, value) else none

section

variable {db : Users} {u v : Uid} {name : String} {fields : Fields}

theorem username_eq_some : fields.username = some name ↔
    fields.lookup "username" = some (.string name) := by
  simp only [Fields.username]
  split
  · rename_i s hs
    rw [hs, Option.some.injEq, Option.some.injEq, Value.string.injEq]
  · rename_i hno
    exact iff_of_false (by simp) (hno name)

theorem username_insert (field : String) (value : Value) (h : field ≠ "username") :
    Fields.username (fields.insert field value) = fields.username := by
  simp only [Fields.username, AList.lookup_insert_ne (Ne.symm h)]

theorem username_insert_username (value : String) :
    Fields.username (fields.insert "username" (.string value)) = some value := by
  simp only [Fields.username, AList.lookup_insert]

/-- The dictionary of a document has its name. -/
theorem username_encode (d : UserDoc) : Fields.username d.encode = some d.username := by
  have hphoto : ∀ fields : Fields, Fields.username (match d.photoUrl with
      | none => fields
      | some url => fields.insert "photoUrl" (.string url.path)) = fields.username := by
    intro fields
    split
    · rfl
    · exact username_insert _ _ (by decide)
  simp only [UserDoc.encode]
  split
  · rw [hphoto, username_insert_username]
  · rw [username_insert _ _ (by decide), hphoto, username_insert_username]

/-- **What a write does to the names.** -/
theorem username_apply (w : UserWrite) (db : Users) (v : Uid) :
    Users.username (w.apply db) v = match w.username with
      | none => db.username v
      | some x => if v = x.1 then some x.2 else db.username v := by
  cases w with
  | setData uid newUser =>
    simp only [Users.username, UserWrite.apply, UserWrite.username, Collection.lookup_insert_eq]
    split
    · exact username_encode newUser
    · rfl
  | merge uid field value =>
    simp only [Users.username, UserWrite.apply, UserWrite.username, Collection.lookup_insert_eq]
    by_cases hfield : field = "username"
    · subst hfield
      simp only [if_true]
      split
      · rw [Option.bind_some, username_insert_username]
      · rfl
    · simp only [if_neg hfield]
      split
      · rename_i hv
        subst hv
        rw [Option.bind_some, username_insert _ _ hfield]
        cases db.lookup v <;> rfl
      · rfl

/-- The query finds somebody if there is somebody. -/
theorem named_ne_nil (h : db.username u = some name) : db.named name ≠ [] := by
  obtain ⟨fields, hfields, hname⟩ := Option.bind_eq_some_iff.mp h
  have hmem : (u, fields) ∈
      db.docs.filter fun d => d.2.lookup "username" = some (.string name) := by
    simp only [List.mem_filter, decide_eq_true_eq]
    exact ⟨Collection.mem_docs.mpr hfields, username_eq_some.mp hname⟩
  intro hnil
  rw [Users.named, List.take_eq_nil_iff] at hnil
  rcases hnil with hzero | hnil
  · cases hzero
  · rw [hnil] at hmem
    cases hmem

/-- **One write** keeps the names different exactly if nobody else has its name. -/
theorem unique_apply_iff (hdb : db.Unique) (w : UserWrite) :
    Users.Unique (w.apply db) ↔ ∀ x ∈ w.username, ∀ v, db.username v = some x.2 → v = x.1 := by
  cases hw : w.username with
  | none =>
    have hsame : ∀ v, Users.username (w.apply db) v = db.username v := by
      intro v
      rw [username_apply, hw]
    simp only [Users.Unique, hsame]
    exact iff_of_true hdb (by simp)
  | some x =>
    obtain ⟨u, name⟩ := x
    have hnames : ∀ v, Users.username (w.apply db) v =
        if v = u then some name else db.username v := by
      intro v
      rw [username_apply, hw]
    simp only [Users.Unique, hnames, Option.mem_def, Option.some.injEq, forall_eq']
    constructor
    · intro h v hv
      by_contra hne
      exact hne (h v u name (by rwa [if_neg hne]) (if_pos rfl))
    · intro h v v' n hv hv'
      split at hv <;> split at hv'
      · rename_i hvu hvu'
        exact hvu.trans hvu'.symm
      · rename_i hvu _
        cases hv
        exact hvu.trans (h v' hv').symm
      · rename_i _ hvu'
        cases hv'
        exact (h v hv).trans hvu'.symm
      · exact hdb v v' n hv hv'

end

namespace Account

/-! ## The look for a name and the write -/

/-- Whoever else has the name now is not somebody who has been given it since it was looked for: it
is the name that was looked for, and had been theirs then. -/
def Check.Undisturbed (c : Check) (db : Users) (x : Uid × String) : Prop :=
  ∀ d ∈ db.docs, d.1 ≠ x.1 → d.2.username = some x.2 →
    x.2 = c.name ∧ c.seen.username d.1 = some x.2

instance (c : Check) (db : Users) (x : Uid × String) : Decidable (c.Undisturbed db x) :=
  inferInstanceAs (Decidable (∀ d ∈ db.docs, _ → _ → _))

/-- The name was free when it was looked for. -/
def Clear (check : Option Check) : Prop := ∃ c ∈ check, c.seen.named c.name = []

/-- The callback, asked or answered. -/
def callback : Answering Users Callback → Callback
  | .asked k => k
  | .answered k _ _ => k

/-- A callback that creates a document goes back to a look for a name that was free. -/
def Awaited (k : Closure) : Prop := ∀ username, callback k.1 = .userCreated username → Clear k.2

/-- So does a write of a name. -/
def Proper : Async.Cmd (UserWrite × Option Check) Closure → Prop
  | .write w k => (w.1.username ≠ none → Clear w.2) ∧ ∀ k' ∈ k, Awaited k'
  | .request k => Awaited k

/-- What is under way at a client goes back to names that were free. -/
structure Checked (st : State Users Account (UserWrite × Option Check) Closure) : Prop where
  queue : ∀ x ∈ st.queue, (x.1.1.username ≠ none → Clear x.1.2) ∧ ∀ k ∈ x.2, Awaited k
  ready : ∀ k ∈ st.ready.map Prod.fst, Awaited k

section

variable {k : Callback} {ok : Bool} {a : Answer} {l : Account} {db : Users} {check : Option Check}
  {r : Account × List Cmd}

theorem mem_changeEmail {screen : ℕ} {s : EditAccountSettings} {c : Cmd}
    (h : c ∈ (changeEmail screen s l).2) : c = .request (.emailUpdated screen) := by
  simp only [changeEmail] at h
  split at h
  · cases h
  · split at h
    · exact List.mem_singleton.mp h
    · cases h

/-- What an action of the user issues. -/
theorem proper_event {e : Event} (h : event e l db = some r) :
    ∀ c ∈ r.2, Proper ((c.map .asked).mark none) := by
  have hdone : ∀ (screen : ℕ) (s : EditAccountSettings), ∀ c ∈ (doneButtonPressed screen s l).2,
      Proper ((c.map .asked).mark none) := by
    intro screen s c hc
    simp only [doneButtonPressed] at hc
    split at hc
    · cases hc
    · simp only [Handler.andThen_apply, List.mem_append] at hc
      rcases hc with hc | hc | hc
      · split at hc
        · rw [List.mem_singleton.mp hc]
          intro username hu
          cases hu
        · cases hc
      · split at hc
        · rename_i hbio
          simp only [changeSettingInFirestore, Handler.issue_apply] at hc
          split at hc
          · cases hc
          · rw [List.mem_singleton.mp hc, hbio]
            refine ⟨fun hname => absurd ?_ hname, fun k hk username hu => ?_⟩
            · exact if_neg (by decide +kernel)
            · obtain rfl := Option.some.inj hk
              cases hu
        · cases hc
      · split at hc
        · rw [mem_changeEmail hc]
          intro username hu
          cases hu
        · cases hc
  cases e with
  | signUpButtonPressed email password username =>
    simp only [event, Option.some.injEq] at h
    split at h <;> subst h
    · exact fun c hc => by cases hc
    · intro c hc
      rw [List.mem_singleton.mp hc]
      intro username hu
      cases hu
  | doneButtonPressed screen =>
    obtain ⟨s, -, rfl⟩ := Option.map_eq_some_iff.mp h
    exact hdone screen s
  | editBio screen text =>
    simp only [event] at h
    split at h <;> cases h
    exact fun c hc => by cases hc
  | _ =>
    cases h
    exact fun c hc => by cases hc

/-- **What the code of an answer issues**: a name is written, or an account created for it, only
if the look for it has found nobody. -/
theorem proper_react {view : Users} (h : react k ok a l db = some r)
    (hk : ∀ username, k = .userCreated username → Clear check) :
    ∀ c ∈ r.2, Proper ((c.map .asked).mark (lastCheck (.answered k ok db) view check)) := by
  cases k with
  | usernameChecked username =>
    simp only [react, Option.some.injEq] at h
    split at h
    · split at h <;> subst h
      · exact fun c hc => by cases hc
      · rename_i hnone
        intro c hc
        rw [List.mem_singleton.mp hc]
        exact fun _ _ => ⟨_, rfl, not_not.mp hnone⟩
    · subst h
      exact fun c hc => by cases hc
  | userCreated username =>
    simp only [react] at h
    split at h
    · split at h <;> cases h
      intro c hc
      rw [List.mem_singleton.mp hc]
      exact ⟨fun _ => hk username rfl, fun k hk => by cases hk⟩
    · cases h
      exact fun c hc => by cases hc
  | settingChecked screen username =>
    obtain ⟨s, -, rfl⟩ := Option.map_eq_some_iff.mp h
    intro c hc
    split at hc
    · split at hc
      · cases hc
      · rename_i hnone
        simp only [changeSettingInFirestore, Handler.issue_apply] at hc
        split at hc
        · cases hc
        · rw [List.mem_singleton.mp hc]
          refine ⟨fun _ => ⟨_, rfl, not_not.mp hnone⟩, fun k hk username hu => ?_⟩
          obtain rfl := Option.some.inj hk
          cases hu
    · cases hc
  | settingUpdated screen =>
    obtain ⟨s, -, rfl⟩ := Option.map_eq_some_iff.mp h
    intro c hc
    split at hc <;> cases hc
  | emailUpdated screen =>
    obtain ⟨s, -, rfl⟩ := Option.map_eq_some_iff.mp h
    intro c hc
    split at hc
    · cases hc
    · split at hc
      · rw [List.mem_singleton.mp hc]
        intro username hu
        cases hu
      · cases hc
  | reauthenticated screen =>
    obtain ⟨s, -, rfl⟩ := Option.map_eq_some_iff.mp h
    intro c hc
    split at hc <;> cases hc

/-- **A step of a client.** -/
theorem Checked.step {st st' : State Users Account (UserWrite × Option Check) Closure}
    {lbl : Label Answer Event} (h : Checked st) (hs : checking.step lbl st = some st') :
    Checked st' := by
  rcases step_runs hs with ⟨r, hr, rfl⟩ | ⟨w, k, q, hq, ⟨-, rfl⟩ | ⟨-, rfl⟩⟩
  · have hcode : ∀ c ∈ r.2, Proper c := by
      rcases runs_marked hr with ⟨e, r₀, hr₀, rfl⟩ | ⟨k, check, ok, a, r₀, hk, hr₀, rfl⟩
      · obtain ⟨r₁, hr₁, rfl⟩ := answering_event hr₀
        intro c hc
        obtain ⟨c₀, hc₀, rfl⟩ := List.mem_map.mp hc
        obtain ⟨c₁, hc₁, rfl⟩ := List.mem_map.mp hc₀
        exact proper_event hr₁ c₁ hc₁
      · have hawaited := h.ready _ hk
        rcases answering_react hr₀ with ⟨k, rfl, rfl⟩ | ⟨k, ok, db, r₁, rfl, hr₁, rfl⟩
        · intro c hc
          rw [List.mem_singleton.mp hc]
          exact hawaited
        · intro c hc
          obtain ⟨c₀, hc₀, rfl⟩ := List.mem_map.mp hc
          obtain ⟨c₁, hc₁, rfl⟩ := List.mem_map.mp hc₀
          exact proper_react hr₁ hawaited c₁ hc₁
    refine ⟨fun x hx => ?_, fun k hk => ?_⟩
    · rcases List.mem_append.mp hx with hx | hx
      · exact h.queue x hx
      · exact hcode _ (mem_writes.mp hx)
    · rw [List.map_append, List.mem_append] at hk
      rcases hk with hk | hk
      · obtain ⟨x, hx, rfl⟩ := List.mem_map.mp hk
        exact h.ready _ (List.mem_map_of_mem (mem_ready_of_awaited hx))
      · obtain ⟨x, hx, rfl⟩ := List.mem_map.mp hk
        exact hcode _ (mem_requests hx)
  all_goals
    refine ⟨fun x hx => h.queue x (hq ▸ List.mem_cons_of_mem _ hx), fun k' hk' => ?_⟩
    rw [List.map_append, List.mem_append] at hk'
    rcases hk' with hk' | hk'
    · exact h.ready k' hk'
    · have hmem : k' ∈ k := by simpa [Function.comp_def] using hk'
      exact (h.queue (w, k) (hq ▸ List.mem_cons_self)).2 k' hmem

/-- When the name was free, it has been given to nobody else since if nobody else has it. -/
theorem undisturbed_iff {c : Check} (hc : c.seen.named c.name = []) (x : Uid × String) :
    c.Undisturbed db x ↔ ∀ v, db.username v = some x.2 → v = x.1 := by
  constructor
  · intro h v hv
    obtain ⟨fields, hfields, hname⟩ := Option.bind_eq_some_iff.mp hv
    by_contra hne
    obtain ⟨heq, hseen⟩ := h (v, fields) (Collection.mem_docs.mpr hfields) hne hname
    exact named_ne_nil (heq ▸ hseen) hc
  · intro h d hd hne hname
    refine absurd (h d.1 ?_) hne
    rw [Users.username, Collection.mem_docs.mp hd]
    exact hname

end

section

variable {ι : Type*} [DecidableEq ι] {n n' : Net ι} {x : ι × Label Answer Event}
  {tr : List ((ι × Label Answer Event) × Net ι)}

/-- When the write of a name takes effect, nobody else has been given the name since it was looked
for. -/
def StillFree (n : Net ι) : ι × Label Answer Event → Prop
  | (i, .apply) => ∀ w ∈ (n.client i).queue.head?, ∀ x ∈ w.1.1.username, ∀ c ∈ w.1.2,
    c.Undisturbed n.store x
  | _ => True

instance (n : Net ι) : DecidablePred (StillFree n)
  | (i, .apply) => inferInstanceAs (Decidable (∀ w ∈ (n.client i).queue.head?, _))
  | (_, .event _) => isTrue trivial
  | (_, .reject) => isTrue trivial
  | (_, .deliver _ _ _) => isTrue trivial

/-- Every write of a name goes back to a look for a name that has found nobody. -/
theorem Net.checked (h : ∀ i, Checked (n.state i)) (hs : turn n x = some n') :
    ∀ i, Checked (n'.state i) := by
  obtain ⟨i, lbl⟩ := x
  obtain ⟨st, hst, rfl⟩ := Option.map_eq_some_iff.mp hs
  intro j
  by_cases hj : j = i
  · subst hj
    rw [state_put_self]
    exact (h j).step hst
  · rw [state_put_ne hj]
    exact ⟨(h j).queue, (h j).ready⟩

/-- **One step** of any client keeps the names different exactly if this is so. -/
theorem unique_turn_iff (hc : ∀ i, Checked (n.state i)) (hn : n.store.Unique)
    (h : turn n x = some n') : n'.store.Unique ↔ StillFree n x := by
  obtain ⟨i, lbl⟩ := x
  obtain ⟨st, hst, rfl⟩ := Option.map_eq_some_iff.mp h
  change st.store.Unique ↔ _
  rcases step_cases hst with ⟨e, r, rfl, -, rfl⟩ | ⟨k, ok, a, c, o, r, rfl, -, -, rfl⟩ |
    ⟨w, k, q, rfl, hq, rfl⟩ | ⟨w, k, q, rfl, hq, rfl⟩
  · exact iff_of_true hn trivial
  · exact iff_of_true hn trivial
  · have hhead : (n.client i).queue.head? = some (w, k) := by
      change ((n.state i).queue).head? = _
      rw [hq]
      rfl
    have hclear := ((hc i).queue (w, k) (hq ▸ List.mem_cons_self)).1
    refine (unique_apply_iff hn w.1).trans ?_
    simp only [StillFree, hhead, Option.mem_def, Option.some.injEq, forall_eq']
    refine forall_congr' fun x => forall_congr' fun hx => ?_
    obtain ⟨c, hcheck, hfound⟩ := hclear (by simp [hx])
    obtain ⟨write, check⟩ := w
    obtain rfl : check = some c := hcheck
    simp only [Option.some.injEq, forall_eq', undisturbed_iff hfound]
  · exact iff_of_true hn trivial

/-- **The names of users** are different in every state of every run of any number of clients
exactly if, whenever the write of a name takes effect, nobody else has been given the name since
it was looked for. -/
theorem usernames_unique_iff {db : Users} {l : ι → Account} (hdb : db.Unique)
    (hrun : IsRun (fun n x n' => turn n x = some n') (Net.start db l) tr) :
    (∀ y ∈ tr, y.2.store.Unique) ↔ Meets StillFree (Net.start db l) tr := by
  have hstart : ∀ i, Checked ((Net.start db l).state i) := fun i =>
    ⟨fun x hx => (by cases hx), fun k hk => (by cases hk)⟩
  exact hrun.forall_iff_meets
    (I := fun n : Net ι => (∀ i, Checked (n.state i)) ∧ n.store.Unique) (fun _ h => h.2)
    (fun _ _ _ hn h hc => ⟨Net.checked hn.1 h, (unique_turn_iff hn.1 hn.2 h).mpr hc⟩)
    (fun _ _ _ hn h hg => (unique_turn_iff hn.1 hn.2 h).mp hg) ⟨hstart, hdb⟩

end

/-! ## Two sign-ups -/

/-- Two clients at which nobody is signed in. -/
def usernamesNet : Net Bool := Net.start ∅ fun _ => ⟨none, [], none⟩

/-- The answers for a new account. -/
def sampleAnswer (uid : Uid) : Answer := ⟨uid, "", ""⟩

/-- A client signs up. -/
def sampleSignUp (i : Bool) (username : String) : Bool × Label Answer Event :=
  (i, .event (.signUpButtonPressed "email" "password" username))

/-- The name is looked for. -/
def sampleLook (i : Bool) : List (Bool × Label Answer Event) :=
  [(i, .deliver 0 true (sampleAnswer "")), (i, .deliver 0 true (sampleAnswer ""))]

/-- An account is created. -/
def sampleCreated (i : Bool) : List (Bool × Label Answer Event) :=
  [(i, .deliver 0 true (sampleAnswer "")),
    (i, .deliver 0 true (sampleAnswer (if i then "u" else "v")))]

/-- One after the other. The second has to look for another name. -/
def sampleInTurn : List (Bool × Label Answer Event) :=
  sampleSignUp true "ann" :: sampleLook true ++ sampleCreated true ++ (true, .apply) ::
    sampleSignUp false "ann" :: sampleLook false ++ sampleSignUp false "bob" ::
    sampleLook false ++ sampleCreated false ++ [(false, .apply)]

theorem unique_sampleNet : usernamesNet.store.Unique := by
  intro u v name hu
  simp [Users.username, usernamesNet, Net.start] at hu

/-- A run of `usernames_unique_iff`. -/
theorem usernames_unique_iff_sample : ∃ tr, play turn sampleInTurn usernamesNet = some tr ∧
    (∀ y ∈ tr, y.2.store.Unique) ∧
    (final usernamesNet tr).store.username "u" = some "ann" ∧
    (final usernamesNet tr).store.username "v" = some "bob" := by
  have hsample : (play turn sampleInTurn usernamesNet).isSome ∧
      ∀ tr ∈ play turn sampleInTurn usernamesNet, Meets StillFree usernamesNet tr ∧
        (final usernamesNet tr).store.username "u" = some "ann" ∧
        (final usernamesNet tr).store.username "v" = some "bob" := by
    decide +kernel
  obtain ⟨hsome, hall⟩ := hsample
  obtain ⟨tr, htr⟩ := Option.isSome_iff_exists.mp hsome
  obtain ⟨hmeets, hnames⟩ := hall tr htr
  exact ⟨tr, htr, (usernames_unique_iff unique_sampleNet (isRun_of_play htr)).mpr hmeets, hnames⟩

/-- Both look for the name before one of them has written it. -/
def sampleTogether : List (Bool × Label Answer Event) :=
  sampleSignUp true "ann" :: sampleSignUp false "ann" :: sampleLook true ++ sampleLook false ++
    sampleCreated true ++ sampleCreated false ++ [(true, .apply), (false, .apply)]

/-- A run from no users to two that have the same name. -/
theorem usernames_shared : ∃ tr, IsRun (fun n x n' => turn n x = some n') usernamesNet tr ∧
    usernamesNet.store.Unique ∧ ∃ y ∈ tr, y.2.store.username "u" = some "ann" ∧
      y.2.store.username "v" = some "ann" ∧ ¬y.2.store.Unique := by
  have hsample : (play turn sampleTogether usernamesNet).isSome ∧
      ∀ tr ∈ play turn sampleTogether usernamesNet, ∃ y ∈ tr,
        y.2.store.username "u" = some "ann" ∧ y.2.store.username "v" = some "ann" := by
    decide +kernel
  obtain ⟨hsome, hall⟩ := hsample
  obtain ⟨tr, htr⟩ := Option.isSome_iff_exists.mp hsome
  obtain ⟨y, hy, hu, hv⟩ := hall tr htr
  have hnot : ¬y.2.store.Unique := fun h => absurd (h "u" "v" "ann" hu hv) (by decide)
  exact ⟨tr, isRun_of_play htr, unique_sampleNet, y, hy, hu, hv, hnot⟩

end Account

end Wanderlust
