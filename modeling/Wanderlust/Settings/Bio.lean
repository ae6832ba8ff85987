import Wanderlust.Settings.Usernames

/-!
# The bio

`SettingsViewController` shows the settings that are stored, and opens
`EditAccountSettingsViewController` for one of them with what it shows. That screen puts the value
into its text field and, for the bio, also into a text view, of which one is hidden. The user
edits the visible one. For the bio it is the text view that is saved, but it is still the text
field that must not be empty, and in it there is what has been stored before.

So the bio can be changed exactly as long as it has not become empty (`bio_changed_iff`).
-/

namespace Wanderlust

open Async Runs

/-! ## The screens -/

/-- `as? String`. -/
def Value.asString : Value → Option String
  | .string s => some s
  | _ => none

namespace Settings

/-- `settings`, by section and row. -/
def settings : List (List String) :=
  [["Username", "Email", "Bio"], ["Private Account", "Password"]]

/-- `settings[section][row]`. -/
def setting (indexPath : ℕ × ℕ) : Option String :=
  settings[indexPath.1]?.bind fun row => row[indexPath.2]?

/-- `userData` after `loadUserData`, for the document of the user and the address that the account
has. -/
def userData (document : Option Fields) (email : Option String) : List (List (Option Value)) :=
  match document with
  | none =>
    [[some (.string ""), some (.string ""), some (.string "")],
      [some (.bool true), some (.string "******")]]
  | some data =>
    let privacy := data.lookup "public"
    let bio := (data.lookup "bio").getD (.string "Placeholder Bio")
    let username := (data.lookup "username").getD (.string "Username")
    [[some username, email.map .string, some bio], [privacy, some (.string "******")]]

/-- `settingDataLabel.text`, as `cellForRowAt` sets it. -/
def settingDataLabel (userData : List (List (Option Value))) (indexPath : ℕ × ℕ) :
    Option String :=
  (userData[indexPath.1]?.bind fun row => row[indexPath.2]?).bind fun data =>
    data.bind Value.asString

/-- `didSelectRowAt` and `prepare`: the screen that is opened. There is none for the switch and
for the password, and none for a label without a text. -/
def didSelectRowAt (userData : List (List (Option Value))) (indexPath : ℕ × ℕ) :
    Option EditAccountSettings :=
  if indexPath = (1, 0) then none
  else (setting indexPath).bind fun name =>
    if name = "Password" then none
    else (settingDataLabel userData indexPath).map fun data => .opened name data

end Settings

/-- A field of a document. -/
def Users.field (db : Users) (uid : Uid) (field : String) : Option Value :=
  (db.lookup uid).bind fun data => data.lookup field

/-- What the row for the bio shows. -/
def Users.shownBio (db : Users) (uid : Uid) : Option String :=
  Settings.settingDataLabel (Settings.userData (db.lookup uid) none) (0, 2)

/-- The user replaces the text in the control that is not hidden. -/
def EditAccountSettings.typed (s : EditAccountSettings) (text : String) : EditAccountSettings :=
  if s.settingName = "Bio" then { s with bioTextView := text } else { s with textField := text }

namespace Settings

/-- An edit of a setting: its name, and the text that is typed. -/
structure Edit where
  setting : String
  text : String
  deriving DecidableEq

/-- No more actions of the user, and no failures. -/
def Succeeds (_ : Account) (_ : Users) :
    Async.Move Account.Callback Account.Answer Account.Event → Prop
  | .event _ => False
  | .deliver _ ok _ => ok = true

/-- A successful edit by the user `uid`: a row shows the setting as it is stored now, the text is
typed into the screen that it opens (`shouldChangeTextIn` counts the characters of a bio), and Done
is pressed. -/
def Edits (count : String → ℕ) (uid : Uid) (db : Users) (e : Edit) (db' : Users) : Prop :=
  (e.setting = "Bio" → count e.text ≤ Account.bioCharLimit) ∧
    ∃ (email : Option String) (indexPath : ℕ × ℕ) (s : EditAccountSettings) (l l' : Account)
      (screen : ℕ),
      didSelectRowAt (userData (db.lookup uid) email) indexPath = some s ∧
      s.settingName = e.setting ∧ l.auth = some uid ∧
      l.screens[screen]? = some (s.typed e.text) ∧
      Completes Account.program Succeeds (.doneButtonPressed screen) db l db' l'

/-- An edit of the bio stores its text, and changes no other field. -/
def Stores (uid : Uid) (db : Users) (e : Edit) (db' : Users) : Prop :=
  e.setting = "Bio" → db'.field uid "bio" = some (.string e.text) ∧
    ∀ v field, v ≠ uid ∨ field ≠ "bio" → db'.field v field = db.field v field

/-- A new bio is typed while the bio that is shown is not empty; or nothing, while it is stored as
the empty text. -/
def Accepted (uid : Uid) (db : Users) (e : Edit) : Prop :=
  e.setting = "Bio" →
    db.shownBio uid ≠ some "" ∨ db.field uid "bio" = some (.string "") ∧ e.text = ""

/-- The texts of the edits of the bio. -/
def bioTexts (tr : List (Edit × Users)) : List String :=
  (tr.filter fun x => x.1.setting = "Bio").map fun x => x.1.text

section

variable {count : String → ℕ} {uid v : Uid} {db db' : Users} {field : String} {e : Edit}
  {text : String}

@[simp] theorem field_merge_self (value : String) :
    Users.field ((UserWrite.merge uid field value).apply db) uid field = some (.string value) := by
  simp [Users.field, UserWrite.apply]

theorem field_merge_of_ne {f : String} (value : String) (h : v ≠ uid ∨ f ≠ field) :
    Users.field ((UserWrite.merge uid field value).apply db) v f = db.field v f := by
  simp only [Users.field, UserWrite.apply, Collection.lookup_insert_eq]
  split
  · rename_i hv
    subst hv
    rw [Option.bind_some, AList.lookup_insert_ne (h.resolve_left fun hne => hne rfl)]
    cases db.lookup v <;> rfl
  · rfl

/-- The row of a user who has a document shows the bio in it, if there is one. -/
theorem shownBio_eq (hdoc : (db.lookup uid).isSome) :
    db.shownBio uid = ((db.field uid "bio").getD (.string "Placeholder Bio")).asString := by
  obtain ⟨data, hdata⟩ := Option.isSome_iff_exists.mp hdoc
  simp only [Users.shownBio, Users.field, hdata]
  rfl

/-- What is shown is the empty text only if it is stored, or if there is no document. -/
theorem shownBio_eq_empty_iff (hdoc : (db.lookup uid).isSome) :
    db.shownBio uid = some "" ↔ db.field uid "bio" = some (.string "") := by
  rw [shownBio_eq hdoc]
  rcases db.field uid "bio" with _ | (_ | _ | _) <;> simp [Value.asString]

theorem setting_eq_bio {indexPath : ℕ × ℕ} (h : setting indexPath = some "Bio") :
    indexPath = (0, 2) := by
  rcases indexPath with ⟨_ | _ | i, _ | _ | _ | j⟩ <;> simp [Settings.setting, settings] at h ⊢

/-- The screen that a row opens. -/
theorem didSelectRowAt_cases {data : List (List (Option Value))} {indexPath : ℕ × ℕ}
    {s : EditAccountSettings} (h : didSelectRowAt data indexPath = some s) :
    setting indexPath = some s.settingName ∧
      ∃ label, settingDataLabel data indexPath = some label ∧
        s = .opened s.settingName label := by
  simp only [didSelectRowAt] at h
  split at h
  · cases h
  · obtain ⟨name, hname, h⟩ := Option.bind_eq_some_iff.mp h
    split at h
    · cases h
    · obtain ⟨label, hlabel, rfl⟩ := Option.map_eq_some_iff.mp h
      exact ⟨hname, label, hlabel, rfl⟩

/-- The screen for the bio is opened with the bio that is shown, in both controls. -/
theorem didSelectRowAt_bio {email : Option String} {indexPath : ℕ × ℕ} {s : EditAccountSettings}
    (h : didSelectRowAt (userData (db.lookup uid) email) indexPath = some s)
    (hs : s.settingName = "Bio") :
    ∃ shown, db.shownBio uid = some shown ∧ s = .opened "Bio" shown := by
  obtain ⟨hsetting, shown, hshown, hopened⟩ := didSelectRowAt_cases h
  rw [hs] at hsetting hopened
  rw [setting_eq_bio hsetting] at hshown
  refine ⟨shown, ?_, hopened⟩
  rw [← hshown, Users.shownBio]
  cases db.lookup uid <;> rfl

/-! ## One edit -/

theorem toLower_bio : "Bio".toLower = "bio" := by decide +kernel

/-- Done, on the screen for the bio. -/
theorem doneButtonPressed_bio {screen : ℕ} {l : Account} {shown : String} (hl : l.auth = some uid) :
    Account.doneButtonPressed screen ((EditAccountSettings.opened "Bio" shown).typed text) l =
      if shown = "" then
        ({ l with alert := some ("Error updating Bio", "Name cannot be empty") }, [])
      else (l, [.write (.merge uid "bio" text) (some (.settingUpdated screen))]) := by
  by_cases hshown : shown = ""
  · simp [Account.doneButtonPressed, EditAccountSettings.typed, EditAccountSettings.opened, hshown,
      Account.showEditAccountError]
  · simp [Account.doneButtonPressed, EditAccountSettings.typed, EditAccountSettings.opened, hshown,
      Account.changeSettingInFirestore, hl, toLower_bio]

/-- What Done on the screen for the bio leaves in the database. -/
def bioDone (uid : Uid) (shown text : String) (db : Users) : Users :=
  if shown = "" then db else (UserWrite.merge uid "bio" text).apply db

theorem completes_bio {screen : ℕ} {l l' : Account} {shown : String} (hl : l.auth = some uid)
    (hscreen : l.screens[screen]? = some ((EditAccountSettings.opened "Bio" shown).typed text))
    (h : Completes Account.program Succeeds (.doneButtonPressed screen) db l db' l') :
    db' = bioDone uid shown text db := by
  -- the only callback that there can be closes the screen
  have hend : (⟨db', l', 0⟩ : Direct Users Account Account.Callback).store =
      bioDone uid shown text db ∧ ∀ k ∈ (0 : Multiset Account.Callback),
        k = .settingUpdated screen := by
    refine h.invariant (I := fun x => x.store = bioDone uid shown text db ∧
      ∀ k ∈ x.bag, k = .settingUpdated screen) ?_ ?_
    · intro r hr
      obtain ⟨s, hs, rfl⟩ := Option.map_eq_some_iff.mp hr
      obtain rfl := Option.some.inj (hscreen.symm.trans hs)
      rw [doneButtonPressed_bio hl, bioDone]
      by_cases hshown : shown = ""
      · simp [hshown, Program.after]
      · simp [hshown, Program.after, Account.program]
    · rintro x m x' ⟨hstore, hbag⟩ ha hx
      cases hx with
      | event => exact ha.elim
      | @deliver k ok a rest r hb hr =>
        rw [hb] at hbag
        obtain rfl := hbag k (Multiset.mem_cons_self _ _)
        obtain rfl : ok = true := ha
        obtain ⟨s, -, rfl⟩ := Option.map_eq_some_iff.mp hr
        refine ⟨hstore, fun k hk => hbag k ?_⟩
        simpa [Program.after, Account.pop] using Or.inr hk
  exact hend.1

/-- The screen for the bio with the text typed, and nothing else. -/
def bioAccount (uid : Uid) (shown text : String) : Account :=
  ⟨some uid, [(EditAccountSettings.opened "Bio" shown).typed text], none⟩

/-- Done comes to an end. -/
theorem exists_completes_bio (uid : Uid) (shown text : String) (db : Users) :
    ∃ l', Completes Account.program Succeeds (.doneButtonPressed 0) db (bioAccount uid shown text)
      (bioDone uid shown text db) l' := by
  have hauth : (bioAccount uid shown text).auth = some uid := rfl
  have hevent : Account.program.event (.doneButtonPressed 0) (bioAccount uid shown text) db =
      some (Account.doneButtonPressed 0 ((EditAccountSettings.opened "Bio" shown).typed text)
        (bioAccount uid shown text)) := rfl
  rw [doneButtonPressed_bio hauth] at hevent
  by_cases hshown : shown = ""
  · rw [if_pos hshown] at hevent
    rw [bioDone, if_pos hshown]
    exact ⟨_, completes_of_event hevent ⟨[], .nil _⟩⟩
  · rw [if_neg hshown] at hevent
    rw [bioDone, if_neg hshown]
    -- the write takes effect, and its completion closes the screen
    refine ⟨(Account.pop 0 (bioAccount uid shown text)).1, completes_of_event hevent
      ⟨[.apply, .deliver 0 true ⟨uid, "", ""⟩], ?_⟩⟩
    exact .cons trivial rfl (.cons rfl rfl (.nil _))

/-- **An edit of the bio**: it stores the text if what is shown is not empty, and otherwise does
nothing. -/
theorem edits_bio_iff (he : e.setting = "Bio") :
    Edits count uid db e db' ↔ count e.text ≤ Account.bioCharLimit ∧
      ∃ shown, db.shownBio uid = some shown ∧ db' = bioDone uid shown e.text db := by
  constructor
  · rintro ⟨hcount, email, indexPath, s, l, l', screen, hopen, hs, hl, hscreen, hdone⟩
    obtain ⟨shown, hshown, rfl⟩ := didSelectRowAt_bio hopen (hs.trans he)
    exact ⟨hcount he, shown, hshown, completes_bio hl hscreen hdone⟩
  · rintro ⟨hcount, shown, hshown, rfl⟩
    obtain ⟨l', hdone⟩ := exists_completes_bio uid shown e.text db
    refine ⟨fun _ => hcount, none, (0, 2), .opened "Bio" shown, bioAccount uid shown e.text, l', 0,
      ?_, he.symm, rfl, rfl, hdone⟩
    have hsetting : setting (0, 2) = some "Bio" := rfl
    simp only [didSelectRowAt, hsetting]
    rw [Users.shownBio] at hshown
    rw [hshown]
    rfl

end

/-! ## The other settings -/

/-- Who is signed in, and the setting that the screen is for. -/
structure EditsSetting (screen : ℕ) (uid : Uid) (name : String) (l : Account) : Prop where
  auth : l.auth = some uid
  screen : ∃ s, l.screens[screen]? = some s ∧ s.settingName = name

/-- The callbacks of the screen. -/
def OfScreen (screen : ℕ) : Account.Callback → Prop
  | .usernameChecked _ => False
  | .userCreated _ => False
  | .settingChecked i _ => i = screen
  | .settingUpdated i => i = screen
  | .emailUpdated i => i = screen
  | .reauthenticated i => i = screen

/-- A command of the screen for another setting than the bio. -/
def SparesBio (screen : ℕ) (uid : Uid) : Account.Cmd → Prop
  | .write (.setData _ _) _ => False
  | .write (.merge u field _) k => u = uid ∧ field ≠ "bio" ∧ ∀ k' ∈ k, OfScreen screen k'
  | .request k => OfScreen screen k

section

variable {screen : ℕ} {uid : Uid} {name : String} {l : Account} {db : Users}
  {s : EditAccountSettings} {r : Account × List Account.Cmd}

theorem EditsSetting.pop (h : EditsSetting screen uid name l) :
    EditsSetting screen uid name (Account.pop screen l).1 where
  auth := h.auth
  screen := by
    obtain ⟨s, hs, hname⟩ := h.screen
    exact ⟨{ s with popped := true }, by simp [Account.pop, hs], hname⟩

theorem sparesBio_changeSetting (hname : name.toLower ≠ "bio") (h : l.auth = some uid) :
    ∀ c ∈ (Account.changeSettingInFirestore screen s name l).2, SparesBio screen uid c := by
  simp only [Account.changeSettingInFirestore, Handler.issue_apply, h, List.mem_singleton]
  rintro c rfl
  exact ⟨rfl, hname, fun k hk => by cases hk; rfl⟩

/-- Done, on the screen for another setting: there is an alert or at most one request. -/
theorem doneButtonPressed_of_ne (screen : ℕ) (hbio : s.settingName ≠ "Bio")
    (hl : l.auth = some uid) :
    Account.doneButtonPressed screen s l = Account.showEditAccountError s "Name cannot be empty" l ∨
      ∃ cs, Account.doneButtonPressed screen s l = (l, cs) ∧
        (cs = [] ∨ cs = [.request (.settingChecked screen s.textField)] ∨
          cs = [.request (.emailUpdated screen)]) := by
  by_cases hempty : s.textField = ""
  · exact Or.inl (by rw [Account.doneButtonPressed, if_pos hempty])
  · refine Or.inr ?_
    by_cases hemail : s.settingName = "Email"
    · exact ⟨[.request (.emailUpdated screen)],
        by simp [Account.doneButtonPressed, Account.changeEmail, hempty, hemail, hl], by simp⟩
    · by_cases husername : s.settingName = "Username"
      · exact ⟨[.request (.settingChecked screen s.textField)],
          by simp [Account.doneButtonPressed, hempty, husername], by simp⟩
      · exact ⟨[], by simp [Account.doneButtonPressed, hempty, husername, hemail, hbio], by simp⟩

theorem sparesBio_done (hbio : name ≠ "Bio") (h : EditsSetting screen uid name l)
    (hs : s.settingName = name) :
    EditsSetting screen uid name (Account.doneButtonPressed screen s l).1 ∧
      ∀ c ∈ (Account.doneButtonPressed screen s l).2, SparesBio screen uid c := by
  subst hs
  rcases doneButtonPressed_of_ne screen hbio h.auth with hdone | ⟨cs, hdone, hcs⟩
  · rw [hdone]
    exact ⟨⟨h.auth, h.screen⟩, by simp [Account.showEditAccountError]⟩
  · rw [hdone]
    refine ⟨h, ?_⟩
    rcases hcs with rfl | rfl | rfl <;> simp [SparesBio, OfScreen]

/-- A callback of such a screen. -/
theorem sparesBio_react {k : Account.Callback} {a : Account.Answer} (hname : name.toLower ≠ "bio")
    (h : EditsSetting screen uid name l) (hk : OfScreen screen k)
    (hr : Account.react k true a l db = some r) :
    EditsSetting screen uid name r.1 ∧ ∀ c ∈ r.2, SparesBio screen uid c := by
  have hpop : EditsSetting screen uid name (Account.pop screen l).1 ∧
      ∀ c ∈ (Account.pop screen l).2, SparesBio screen uid c := ⟨h.pop, by simp [Account.pop]⟩
  cases k with
  | usernameChecked username => exact hk.elim
  | userCreated username => exact hk.elim
  | settingUpdated i =>
    obtain rfl : i = screen := hk
    obtain ⟨s, -, rfl⟩ := Option.map_eq_some_iff.mp hr
    exact hpop
  | emailUpdated i =>
    obtain rfl : i = screen := hk
    obtain ⟨s, -, rfl⟩ := Option.map_eq_some_iff.mp hr
    exact hpop
  | reauthenticated i =>
    obtain rfl : i = screen := hk
    obtain ⟨s, -, rfl⟩ := Option.map_eq_some_iff.mp hr
    exact hpop
  | settingChecked i username =>
    obtain rfl : i = screen := hk
    obtain ⟨s, hs, rfl⟩ := Option.map_eq_some_iff.mp hr
    obtain ⟨s', hs', rfl⟩ := h.screen
    obtain rfl := Option.some.inj (hs.symm.trans hs')
    by_cases hnamed : db.named username = []
    · simp only [if_true, hnamed, ne_eq, not_true_eq_false, if_false]
      exact ⟨⟨h.auth, h.screen⟩, sparesBio_changeSetting hname h.auth⟩
    · simp only [if_true, hnamed, ne_eq, not_false_eq_true]
      exact ⟨⟨h.auth, h.screen⟩, by simp [Account.showEditAccountError]⟩

/-- The user has a document, in which the bio is `bio`. -/
def HasBio (uid : Uid) (bio : Option Value) (db : Users) : Prop :=
  (db.lookup uid).isSome ∧ db.field uid "bio" = bio

/-- What the commands of such a screen do. -/
theorem sparesBio_after {bio : Option Value} {x : Direct Users Account Account.Callback}
    (hr : ∀ c ∈ r.2, SparesBio screen uid c) (hstore : HasBio uid bio x.store)
    (hbag : ∀ k ∈ x.bag, OfScreen screen k) :
    HasBio uid bio (Account.program.after r x).store ∧
      ∀ k ∈ (Account.program.after r x).bag, OfScreen screen k := by
  constructor
  · refine effect_invariant (I := HasBio uid bio) (fun w k hw db hdb => ?_) hstore
    cases w with
    | setData u newUser => exact (hr _ hw).elim
    | merge u field value =>
      obtain ⟨rfl, hfield, -⟩ := hr _ hw
      refine ⟨?_, ?_⟩
      · simp [Account.program, UserWrite.apply]
      · exact (field_merge_of_ne value (Or.inr (Ne.symm hfield))).trans hdb.2
  · intro k hk
    rcases Multiset.mem_add.mp hk with hk | hk
    · exact hbag k hk
    · obtain ⟨c, hc, hck⟩ := mem_callbacks.mp hk
      have hspares := hr c hc
      cases c with
      | request k' =>
        cases hck
        exact hspares
      | write w k' =>
        cases w with
        | setData u newUser => exact hspares.elim
        | merge u field value => exact hspares.2.2 k hck

theorem toLower_ne_bio {indexPath : ℕ × ℕ} (h : setting indexPath = some name)
    (hname : name ≠ "Bio") : name.toLower ≠ "bio" := by
  have hmem : name ∈ settings.flatten := by
    obtain ⟨row, hrow, hname⟩ := Option.bind_eq_some_iff.mp h
    exact List.mem_flatten.mpr ⟨row, List.mem_of_getElem? hrow, List.mem_of_getElem? hname⟩
  have hall : ∀ name ∈ settings.flatten, name ≠ "Bio" → name.toLower ≠ "bio" := by
    decide +kernel
  exact hall name hmem hname

/-- **An edit of another setting** keeps the document and its bio. -/
theorem hasBio_of_edits {count : String → ℕ} {db' : Users} {e : Edit} {bio : Option Value}
    (he : e.setting ≠ "Bio") (hdb : HasBio uid bio db) (h : Edits count uid db e db') :
    HasBio uid bio db' := by
  obtain ⟨-, email, indexPath, s, l, l', screen, hopen, hs, hl, hscreen, hdone⟩ := h
  have hlower : e.setting.toLower ≠ "bio" :=
    toLower_ne_bio ((didSelectRowAt_cases hopen).1.trans (congrArg some hs)) he
  have htyped : (s.typed e.text).settingName = e.setting := by
    rw [← hs, EditAccountSettings.typed]
    split <;> rfl
  have hstart : EditsSetting screen uid e.setting l := ⟨hl, _, hscreen, htyped⟩
  have hend := hdone.invariant (I := fun x => EditsSetting screen uid e.setting x.loc ∧
    HasBio uid bio x.store ∧ ∀ k ∈ x.bag, OfScreen screen k) ?_ ?_
  · exact hend.2.1
  · intro r hr
    obtain ⟨s', hs', rfl⟩ := Option.map_eq_some_iff.mp hr
    obtain rfl := Option.some.inj (hscreen.symm.trans hs')
    obtain ⟨hloc, hcs⟩ := sparesBio_done he hstart htyped
    exact ⟨hloc, sparesBio_after hcs hdb (by simp)⟩
  · rintro x m x' ⟨hloc, hstore, hbag⟩ ha hx
    cases hx with
    | event => exact ha.elim
    | @deliver k ok a rest r hb hr =>
      rw [hb] at hbag
      obtain rfl : ok = true := ha
      obtain ⟨hloc', hcs⟩ := sparesBio_react hlower hloc (hbag k (Multiset.mem_cons_self _ _)) hr
      have hrest : ∀ k' ∈ rest, OfScreen screen k' :=
        fun k' hk' => hbag k' (Multiset.mem_cons_of_mem hk')
      exact ⟨hloc', sparesBio_after (x := { x with bag := rest }) hcs hstore hrest⟩

end

/-! ## Runs of edits -/

section

variable {count : String → ℕ} {uid : Uid} {db db' : Users} {e : Edit} {bio : String}
  {tr : List (Edit × Users)}

/-- **One edit** is as it should be exactly if it is accepted. -/
theorem stores_iff (h : Edits count uid db e db') : Stores uid db e db' ↔ Accepted uid db e := by
  by_cases he : e.setting = "Bio"
  · obtain ⟨-, shown, hshown, rfl⟩ := (edits_bio_iff he).mp h
    by_cases hempty : shown = ""
    · subst hempty
      rw [bioDone, if_pos rfl]
      constructor
      · intro hstores _
        obtain ⟨htext, -⟩ := hstores he
        obtain ⟨data, hdata, -⟩ := Option.bind_eq_some_iff.mp htext
        have hstored : db.field uid "bio" = some (.string "") :=
          (shownBio_eq_empty_iff (by rw [hdata]; rfl)).mp hshown
        have hempty : "" = e.text := by simpa using hstored.symm.trans htext
        exact Or.inr ⟨hstored, hempty.symm⟩
      · intro haccepted _
        obtain ⟨hstored, htext⟩ := (haccepted he).resolve_left fun hne => hne hshown
        rw [htext]
        exact ⟨hstored, fun _ _ _ => rfl⟩
    · rw [bioDone, if_neg hempty]
      refine iff_of_true (fun _ => ⟨field_merge_self _, fun v f hvf => field_merge_of_ne _ hvf⟩)
        fun _ => Or.inl ?_
      rw [hshown]
      exact fun heq => hempty (Option.some.inj heq)
  · exact iff_of_true (fun heq => absurd heq he) fun heq => absurd heq he

/-- What is accepted while `bio` is shown. -/
theorem accepted_iff (he : e.setting = "Bio") (hdoc : (db.lookup uid).isSome)
    (hshown : db.shownBio uid = some bio) : Accepted uid db e ↔ (bio = "" → e.text = "") := by
  simp only [Accepted, he, forall_true_left, ← shownBio_eq_empty_iff hdoc, hshown, ne_eq,
    Option.some.injEq]
  tauto

/-- After an edit of the bio that is accepted, its text is shown. -/
theorem shownBio_of_accepted (he : e.setting = "Bio") (haccepted : Accepted uid db e)
    (h : Edits count uid db e db') :
    (db'.lookup uid).isSome ∧ db'.shownBio uid = some e.text := by
  have hstored : db'.field uid "bio" = some (.string e.text) :=
    ((stores_iff h).mpr haccepted he).1
  obtain ⟨data, hdata, -⟩ := Option.bind_eq_some_iff.mp hstored
  have hdoc' : (db'.lookup uid).isSome := by
    rw [hdata]
    rfl
  refine ⟨hdoc', ?_⟩
  rw [shownBio_eq hdoc', hstored]
  rfl

/-- What is accepted in a run, by the texts alone. -/
theorem meets_accepted_iff (hrun : IsRun (Edits count uid) db tr) (hdoc : (db.lookup uid).isSome)
    (hshown : db.shownBio uid = some bio) :
    Meets (Accepted uid) db tr ↔
      (bio :: bioTexts tr).IsChain fun old new => old = "" → new = "" := by
  induction tr generalizing db bio with
  | nil => simp [bioTexts]
  | cons x tr ih =>
    obtain ⟨e, db'⟩ := x
    obtain ⟨h, hrest⟩ := hrun
    by_cases he : e.setting = "Bio"
    · have htexts : bioTexts ((e, db') :: tr) = e.text :: bioTexts tr := by simp [bioTexts, he]
      rw [meets_cons, htexts, List.isChain_cons_cons, ← accepted_iff he hdoc hshown]
      refine and_congr_right fun haccepted => ?_
      obtain ⟨hdoc', hshown'⟩ := shownBio_of_accepted he haccepted h
      exact ih hrest hdoc' hshown'
    · have htexts : bioTexts ((e, db') :: tr) = bioTexts tr := by simp [bioTexts, he]
      obtain ⟨hdoc', hbio⟩ := hasBio_of_edits he ⟨hdoc, rfl⟩ h
      have haccepted : Accepted uid db e := fun heq => absurd heq he
      rw [meets_cons, htexts, and_iff_right haccepted]
      refine ih hrest hdoc' ?_
      rw [shownBio_eq hdoc', hbio, ← shownBio_eq hdoc, hshown]

/-- **The bio** is changed as it should be in every edit of a run exactly if each new bio is typed
while the one that is shown is not empty; that is, for a user who has a document, if no text but
the empty one follows on the empty one. -/
theorem bio_changed_iff (hrun : IsRun (Edits count uid) db tr) :
    (IsRun (Stores uid) db tr ↔ Meets (Accepted uid) db tr) ∧
      ∀ bio, (db.lookup uid).isSome → db.shownBio uid = some bio →
        (IsRun (Stores uid) db tr ↔
          (bio :: bioTexts tr).IsChain fun old new => old = "" → new = "") := by
  have hstores : IsRun (Stores uid) db tr ↔ Meets (Accepted uid) db tr :=
    hrun.isRun_iff_meets fun _ _ _ => stores_iff
  exact ⟨hstores, fun bio hdoc hshown => hstores.trans (meets_accepted_iff hrun hdoc hshown)⟩

end

/-! ## From a new account -/

/-- A user who has just signed up. -/
def bioUsers : Users := (∅ : Users).insert "u" (newUser "ann").encode

/-- The first edit of the bio. -/
def bioEdited (text : String) : Users := bioDone "u" "Set up Bio!" text bioUsers

theorem edits_sampleEdited {text : String} (h : text.length ≤ Account.bioCharLimit) :
    Edits String.length "u" bioUsers ⟨"Bio", text⟩ (bioEdited text) := by
  have hshown : bioUsers.shownBio "u" = some "Set up Bio!" := by decide +kernel
  exact (edits_bio_iff rfl).mpr ⟨h, _, hshown, rfl⟩

/-- Two edits, of which the second is the first to leave the bio empty. -/
theorem bio_changed_iff_sample : ∃ tr, IsRun (Edits String.length "u") bioUsers tr ∧
    tr.map Prod.fst = [⟨"Bio", "I travel"⟩, ⟨"Bio", ""⟩] ∧
    IsRun (Stores "u") bioUsers tr ∧
    (final bioUsers tr).field "u" "bio" = some (.string "") := by
  have hshown : (bioEdited "I travel").shownBio "u" = some "I travel" := by decide +kernel
  have hsecond : Edits String.length "u" (bioEdited "I travel") ⟨"Bio", ""⟩
      (bioDone "u" "I travel" "" (bioEdited "I travel")) :=
    (edits_bio_iff rfl).mpr ⟨by decide, _, hshown, rfl⟩
  have hrun : IsRun (Edits String.length "u") bioUsers
      [(⟨"Bio", "I travel"⟩, bioEdited "I travel"),
        (⟨"Bio", ""⟩, bioDone "u" "I travel" "" (bioEdited "I travel"))] :=
    ⟨edits_sampleEdited (by decide), hsecond, trivial⟩
  have hchain : ("Set up Bio!" :: ["I travel", ""]).IsChain fun old new => old = "" → new = "" := by
    decide +kernel
  refine ⟨_, hrun, rfl, ?_, by decide +kernel⟩
  exact ((bio_changed_iff hrun).2 "Set up Bio!" (by decide +kernel) (by decide +kernel)).mpr hchain

/-- An empty bio is there for good: Done refuses the next text, since the text field is empty. -/
theorem bio_stuck : ∃ tr, IsRun (Edits String.length "u") bioUsers tr ∧
    tr.map Prod.fst = [⟨"Bio", ""⟩, ⟨"Bio", "I travel"⟩] ∧
    (final bioUsers tr).field "u" "bio" = some (.string "") ∧
    ¬IsRun (Stores "u") bioUsers tr := by
  have hshown : (bioEdited "").shownBio "u" = some "" := by decide +kernel
  have hstored : (bioEdited "").field "u" "bio" = some (.string "") := by decide +kernel
  have hsecond : Edits String.length "u" (bioEdited "") ⟨"Bio", "I travel"⟩ (bioEdited "") :=
    (edits_bio_iff rfl).mpr ⟨by decide, _, hshown, rfl⟩
  refine ⟨[(⟨"Bio", ""⟩, bioEdited ""), (⟨"Bio", "I travel"⟩, bioEdited "")],
    ⟨edits_sampleEdited (by decide), hsecond, trivial⟩, rfl, hstored, ?_⟩
  rintro ⟨-, hstores, -⟩
  have htext := (hstores rfl).1
  rw [hstored] at htext
  exact absurd htext (by decide)

end Settings

end Wanderlust
