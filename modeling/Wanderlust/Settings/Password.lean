import Wanderlust.Foundations.Collection
import Wanderlust.Foundations.Credit
import Wanderlust.Models.Firestore

/-!
# Passwords

`EditPasswordViewController`, and `changeEmail` of `EditAccountSettingsViewController`, on any
number of devices that use one server for their accounts. A device sends requests, the server takes
them in any order, and each answer runs a closure at any later time. Of the server only that is used
which is relied on (`Server`).

The closure that changes a password asks again who is signed in. So it is the password of the
account for which the old one has been typed, if nobody signs in or out meanwhile
(`passwords_of_run`).
-/

namespace Wanderlust

open Runs

namespace Auth

/-- An account. -/
structure Account where
  email : String
  password : String
  deriving DecidableEq

/-- `Auth.auth().currentUser`. -/
structure User where
  uid : Uid
  email : String
  deriving DecidableEq

/-- What the closures of a press of Done on the screen for the password know. -/
structure Press where
  user : User
  currentPassword : String
  newPassword : String
  retypePassword : String
  deriving DecidableEq

/-- An error of the server. -/
structure Failure where
  errorCode : String
  localizedDescription : String
  deriving DecidableEq

inductive Request
  -- `doneButtonPressed` of `EditPasswordViewController`
  | reauthenticate (press : Press)
  | updatePassword (uid : Uid) (newPassword : String)
  -- `changeEmail`
  | updateEmail (uid : Uid) (email : String)
  | reauthenticateForEmail (user : User)
  deriving DecidableEq

/-- A device: who is signed in, the last alert, and how many screens have been popped. -/
structure Device where
  currentUser : Option User
  alert : Option (String × String)
  popped : ℕ

/-- The server, the devices, the requests that it has not taken and the answers that have not
arrived. -/
structure Net (ι : Type*) where
  accounts : Collection Uid Account
  device : ι → Device
  sent : List (ι × Request)
  answered : List (ι × Request × Option Failure)

inductive Step (ι : Type*)
  /-- Somebody makes an account. -/
  | register (uid : Uid) (account : Account)
  | signIn (d : ι) (uid : Uid)
  | signOut (d : ι)
  /-- Done on the screen for the password. -/
  | passwordDone (d : ι) (currentPassword newPassword retypePassword : String)
  /-- Done on the screen for the email. -/
  | emailDone (d : ι) (text : String)
  /-- The server takes a request. -/
  | serve (i : ℕ) (failure : Option Failure)
  /-- An answer arrives. -/
  | deliver (i : ℕ)

/-- The password of an account. -/
def password (accounts : Collection Uid Account) (uid : Uid) : Option String :=
  (accounts.lookup uid).map Account.password

/-- A server: the accounts after a request that it accepts, and what is known of it. It does not
accept a wrong password, it changes a password as it is asked to, and otherwise it leaves passwords
alone. -/
structure Server where
  accept : Collection Uid Account → Request → Option (Collection Uid Account)
  reauthenticate : ∀ accounts accounts' press,
    accept accounts (.reauthenticate press) = some accounts' →
      accounts' = accounts ∧ password accounts press.user.uid = some press.currentPassword
  updatePassword : ∀ accounts accounts' uid newPassword,
    accept accounts (.updatePassword uid newPassword) = some accounts' → ∀ u,
      password accounts' u =
        if u = uid then (password accounts u).map fun _ => newPassword else password accounts u
  updateEmail : ∀ accounts accounts' uid email,
    accept accounts (.updateEmail uid email) = some accounts' → ∀ u,
      password accounts' u = password accounts u
  /-- The password is in the code. -/
  reauthenticateForEmail : ∀ accounts accounts' user,
    accept accounts (.reauthenticateForEmail user) = some accounts' →
      accounts' = accounts ∧ password accounts user.uid = some "1234567"

namespace Device

/-- `showEditPasswordError`. -/
def showEditPasswordError (error : String) (d : Device) : Device :=
  { d with alert := some ("Error updating password", error) }

/-- `showEditAccountError` of the screen for the email. -/
def showEditAccountError (error : String) (d : Device) : Device :=
  { d with alert := some ("Error updating Email", error) }

/-- `popViewController`. -/
def pop (d : Device) : Device := { d with popped := d.popped + 1 }

/-- The closures: what becomes of the device, and what it sends. -/
def react (d : Device) : Request → Option Failure → Option (Device × Option Request)
  | .reauthenticate _, some error => some (d.showEditPasswordError error.localizedDescription, none)
  | .reauthenticate press, none =>
    if press.newPassword ≠ press.retypePassword then
      some (d.showEditPasswordError "Passwords don't match", none)
    else some (d, d.currentUser.map fun user => .updatePassword user.uid press.newPassword)
  | .updatePassword _ _, some error =>
    some (d.showEditPasswordError error.localizedDescription, none)
  | .updatePassword _ _, none => some (d.pop, none)
  | .updateEmail _ _, some error =>
    if error.errorCode = "FIRAuthErrorCodeRequiresRecentLogin" then
      -- `(user?.email)!` traps
      d.currentUser.map fun user => (d, some (.reauthenticateForEmail user))
    else some (d.showEditAccountError error.localizedDescription, none)
  | .updateEmail uid email, none =>
    some ({ d.pop with
      currentUser := d.currentUser.map fun user =>
        if user.uid = uid then { user with email := email } else user }, none)
  | .reauthenticateForEmail _, some error =>
    some (d.showEditAccountError error.localizedDescription, none)
  | .reauthenticateForEmail _, none => some (d.pop, none)

end Device

variable {ι : Type*}

/-- One step, if it can be taken. -/
def turn [DecidableEq ι] (server : Server) (n : Net ι) : Step ι → Option (Net ι)
  | .register uid account =>
    if uid ∈ n.accounts then none else some { n with accounts := n.accounts.insert uid account }
  | .signIn d uid => (n.accounts.lookup uid).map fun account =>
    { n with
      device := Function.update n.device d
        { n.device d with currentUser := some ⟨uid, account.email⟩ } }
  | .signOut d => some
    { n with device := Function.update n.device d { n.device d with currentUser := none } }
  | .passwordDone d currentPassword newPassword retypePassword =>
    -- `email!` traps
    (n.device d).currentUser.map fun user =>
      { n with sent :=
          n.sent ++ [(d, .reauthenticate ⟨user, currentPassword, newPassword, retypePassword⟩)] }
  | .emailDone d text =>
    if text = "" then some
      { n with device :=
          Function.update n.device d ((n.device d).showEditAccountError "Name cannot be empty") }
    else some
      { n with sent := n.sent ++
          (n.device d).currentUser.toList.map fun user => (d, .updateEmail user.uid text) }
  | .serve i failure => match n.sent[i]? with
    | none => none
    | some (d, r) => (if failure = none then server.accept n.accounts r else some n.accounts).map
      fun accounts =>
        { n with
          accounts := accounts
          sent := n.sent.eraseIdx i
          answered := n.answered ++ [(d, r, failure)] }
  | .deliver i => match n.answered[i]? with
    | none => none
    | some (d, r, failure) => ((n.device d).react r failure).map fun x =>
      { n with
        device := Function.update n.device d x.1
        sent := n.sent ++ x.2.toList.map fun r => (d, r)
        answered := n.answered.eraseIdx i }

/-! ## What happens to passwords -/

/-- The passwords that accounts are made with. -/
def registered (_ : Net ι) : Step ι → List (Uid × String)
  | .register uid account => [(uid, account.password)]
  | _ => []

/-- The passwords that are changed, to what. -/
def changed (n : Net ι) : Step ι → List (Uid × String)
  | .serve i none => match n.sent[i]? with
    | some (_, .updatePassword uid newPassword) => [(uid, newPassword)]
    | _ => []
  | _ => []

/-- The presses for which the server finds that the present password has been typed, where the new
one has been typed twice. -/
def confirmed (n : Net ι) : Step ι → List (Uid × String)
  | .serve i none => match n.sent[i]? with
    | some (_, .reauthenticate press) =>
      if password n.accounts press.user.uid = some press.currentPassword ∧
        press.newPassword = press.retypePassword then [(press.user.uid, press.newPassword)]
      else []
    | _ => []
  | _ => []

/-- The request, if it is that of a press. -/
def Request.press? : Request → Option Press
  | reauthenticate press => some press
  | _ => none

/-- A device waits for the answer to a press. -/
def Awaits (n : Net ι) (d : ι) : Prop :=
  (∃ x ∈ n.sent, x.1 = d ∧ x.2.press? ≠ none) ∨ ∃ x ∈ n.answered, x.1 = d ∧ x.2.1.press? ≠ none

/-- Nobody signs in or out on a device that waits for the answer to a press. -/
def KeepsUser (n : Net ι) : Step ι → Prop
  | .signIn d _ | .signOut d => ¬ Awaits n d
  | _ => True

instance [DecidableEq ι] (n : Net ι) (d : ι) : Decidable (Awaits n d) :=
  inferInstanceAs (Decidable (_ ∨ _))

instance [DecidableEq ι] (n : Net ι) : DecidablePred (KeepsUser n)
  | .signIn d _ | .signOut d => inferInstanceAs (Decidable (¬ Awaits n d))
  | .register _ _ | .passwordDone _ _ _ _ | .emailDone _ _ | .serve _ _ | .deliver _ =>
    inferInstanceAs (Decidable True)

/-- Nothing is on its way. -/
def Net.quiet (n : Net ι) : Prop := n.sent = [] ∧ n.answered = []

/-- The change that a request asks for. -/
def change? (x : ι × Request) : Option (Uid × String) :=
  match x.2 with
  | .updatePassword uid newPassword => some (uid, newPassword)
  | _ => none

/-- The change that will be asked for after an answer. -/
def verified? (x : ι × Request × Option Failure) : Option (Uid × String) :=
  match x.2 with
  | (.reauthenticate press, none) =>
    if press.newPassword = press.retypePassword then some (press.user.uid, press.newPassword)
    else none
  | _ => none

/-- The changes that have been confirmed, but not made. -/
def Net.due (n : Net ι) : Multiset (Uid × String) :=
  ↑(n.sent.filterMap change?) + ↑(n.answered.filterMap verified?)

/-- A press is waited for by the user who has pressed. -/
structure Pressed (n : Net ι) : Prop where
  sent : ∀ d press, (d, Request.reauthenticate press) ∈ n.sent →
    (n.device d).currentUser.map User.uid = some press.user.uid
  answered : ∀ d press failure, (d, Request.reauthenticate press, failure) ∈ n.answered →
    (n.device d).currentUser.map User.uid = some press.user.uid

/-- What has to be shown of a step: it keeps `Pressed`, and spends no more than it earns. -/
def Pays (n n' : Net ι) (lbl : Step ι) : Prop :=
  Pressed n' ∧ n'.due + ↑(changed n lbl) ≤ n.due + ↑(confirmed n lbl)

/-- A step that changes no password, and adds nothing to what is due. -/
theorem pays_of_le {n n' : Net ι} {lbl : Step ι} (h : Pressed n') (hdue : n'.due ≤ n.due)
    (hlbl : changed n lbl = []) : Pays n n' lbl := by
  refine ⟨h, ?_⟩
  rw [hlbl]
  calc n'.due + ↑([] : List (Uid × String)) = n'.due := add_zero _
    _ ≤ n.due := hdue
    _ ≤ n.due + ↑(confirmed n lbl) := Multiset.le_add_right _ _

theorem due_send {n : Net ι} {xs : List (ι × Request)} (hxs : xs.filterMap change? = []) :
    { n with sent := n.sent ++ xs }.due = n.due := by
  simp only [Net.due, List.filterMap_append, hxs, List.append_nil]

/-- What the devices are does not matter but for the user who is signed in. -/
theorem Pressed.congr {n n' : Net ι} (h : Pressed n) (hsent : ∀ x ∈ n'.sent, x.2.press? ≠ none →
    x ∈ n.sent) (hanswered : ∀ x ∈ n'.answered, x.2.1.press? ≠ none → x ∈ n.answered)
    (hdevice : ∀ d, Awaits n d → (n'.device d).currentUser.map User.uid =
      (n.device d).currentUser.map User.uid) : Pressed n' where
  sent d press hx := by
    have hx := hsent _ hx nofun
    rw [hdevice d (.inl ⟨_, hx, rfl, nofun⟩)]
    exact h.sent d press hx
  answered d press failure hx := by
    have hx := hanswered _ hx nofun
    rw [hdevice d (.inr ⟨_, hx, rfl, nofun⟩)]
    exact h.answered d press failure hx

variable [DecidableEq ι] {server : Server}

/-- A session begins or ends where nothing is waited for. -/
theorem pays_session {n : Net ι} (h : Pressed n) {d : ι} {device : Device}
    (hd : ¬ Awaits n d) {lbl : Step ι} (hlbl : changed n lbl = []) :
    Pays n { n with device := Function.update n.device d device } lbl := by
  refine pays_of_le (h.congr (fun _ hx _ => hx) (fun _ hx _ => hx) fun d' hd' => ?_) le_rfl hlbl
  have hne : d' ≠ d := by
    rintro rfl
    exact hd hd'
  simp [Function.update_of_ne hne]

omit [DecidableEq ι] in
/-- A request that is taken: a change is spent, and what has been verified is earned. -/
theorem served {n : Net ι} {i : ℕ} {d : ι} {r : Request} {failure : Option Failure}
    (hr : n.sent[i]? = some (d, r))
    (haccept : failure = none → (server.accept n.accounts r).isSome) :
    (↑(verified? (d, r, failure)).toList : Multiset (Uid × String)) +
        ↑(changed n (.serve i failure)) ≤
      ↑(change? (d, r)).toList + ↑(confirmed n (.serve i failure)) := by
  cases failure with
  | some failure => cases r <;> exact Multiset.zero_le _
  | none =>
    cases r with
    | reauthenticate press =>
      obtain ⟨accounts, haccounts⟩ := Option.isSome_iff_exists.mp (haccept rfl)
      obtain ⟨-, hpassword⟩ := server.reauthenticate _ _ _ haccounts
      by_cases hretype : press.newPassword = press.retypePassword <;>
        simp [verified?, changed, confirmed, change?, hr, hpassword, hretype]
    | updatePassword uid newPassword => simp [verified?, changed, change?, hr]
    | updateEmail uid email =>
      simp only [changed, hr]
      exact Multiset.zero_le _
    | reauthenticateForEmail user =>
      simp only [changed, hr]
      exact Multiset.zero_le _

theorem pays_serve {n n' : Net ι} (h : Pressed n) {i : ℕ} {failure : Option Failure}
    (hn : turn server n (.serve i failure) = some n') : Pays n n' (.serve i failure) := by
  simp only [turn] at hn
  split at hn
  · cases hn
  rename_i d r hr
  obtain ⟨accounts, haccounts, rfl⟩ := Option.map_eq_some_iff.mp hn
  refine ⟨⟨fun d' press hx => h.sent d' press (List.mem_of_mem_eraseIdx hx),
    fun d' press failure' hx => ?_⟩, ?_⟩
  · rcases List.mem_append.mp hx with hx | hx
    · exact h.answered d' press failure' hx
    · cases List.mem_singleton.mp hx
      exact h.sent d press (List.mem_of_getElem? hr)
  · have hserved := served hr fun hfailure => by
      rw [if_pos hfailure] at haccounts
      rw [haccounts]
      rfl
    have hsingle : [(d, r, failure)].filterMap verified? = (verified? (d, r, failure)).toList := by
      rw [List.filterMap_cons]
      cases verified? (d, r, failure) <;> rfl
    simp only [Net.due, List.filterMap_append, ← Multiset.coe_add, hsingle,
      coe_filterMap_eraseIdx (f := change?) hr]
    generalize (↑((n.sent.eraseIdx i).filterMap change?) : Multiset (Uid × String)) = sent
    generalize (↑(n.answered.filterMap verified?) : Multiset (Uid × String)) = answered
    calc sent + (answered + ↑(verified? (d, r, failure)).toList) + ↑(changed n (.serve i failure))
        = sent + answered +
          (↑(verified? (d, r, failure)).toList + ↑(changed n (.serve i failure))) := by abel
      _ ≤ sent + answered +
          (↑(change? (d, r)).toList + ↑(confirmed n (.serve i failure))) := by gcongr
      _ = sent + ↑(change? (d, r)).toList + answered + ↑(confirmed n (.serve i failure)) := by abel

/-- A closure sends no press, keeps who is signed in, and asks for a change that has been verified
for this user. -/
theorem react_cases {device device' : Device} {r : Request} {failure : Option Failure}
    {r' : Option Request} (h : device.react r failure = some (device', r')) :
    device'.currentUser.map User.uid = device.currentUser.map User.uid ∧
      ∀ q ∈ r', q.press? = none ∧ ∀ uid newPassword, q = .updatePassword uid newPassword →
        device.currentUser.map User.uid = some uid ∧ failure = none ∧
          ∃ press, r = .reauthenticate press ∧ press.newPassword = press.retypePassword ∧
            newPassword = press.newPassword := by
  rcases failure with _ | failure <;> cases r <;> simp only [Device.react] at h
  case none.reauthenticate press =>
    split at h <;> obtain ⟨rfl, rfl⟩ := Prod.mk.inj (Option.some.inj h)
    · exact ⟨rfl, nofun⟩
    · rename_i hretype
      refine ⟨rfl, fun q hq => ?_⟩
      obtain ⟨user, huser, rfl⟩ := Option.map_eq_some_iff.mp hq
      refine ⟨rfl, ?_⟩
      rintro _ _ ⟨⟩
      exact ⟨by rw [huser]; rfl, rfl, press, rfl, not_not.mp hretype, rfl⟩
  case none.updateEmail uid email =>
    obtain ⟨rfl, rfl⟩ := Prod.mk.inj (Option.some.inj h)
    refine ⟨?_, nofun⟩
    cases device.currentUser with
    | none => rfl
    | some user => by_cases hu : user.uid = uid <;> simp [hu]
  case some.updateEmail uid email =>
    split at h
    · obtain ⟨user, huser, hx⟩ := Option.map_eq_some_iff.mp h
      obtain ⟨rfl, rfl⟩ := Prod.mk.inj hx
      refine ⟨rfl, ?_⟩
      rintro q ⟨⟩
      exact ⟨rfl, nofun⟩
    · obtain ⟨rfl, rfl⟩ := Prod.mk.inj (Option.some.inj h)
      exact ⟨rfl, nofun⟩
  all_goals
    obtain ⟨rfl, rfl⟩ := Prod.mk.inj (Option.some.inj h)
    exact ⟨rfl, nofun⟩

theorem pays_deliver {n n' : Net ι} (h : Pressed n) {i : ℕ}
    (hn : turn server n (.deliver i) = some n') : Pays n n' (.deliver i) := by
  simp only [turn] at hn
  split at hn
  · cases hn
  rename_i d r failure hr
  obtain ⟨⟨device, r'⟩, hreact, rfl⟩ := Option.map_eq_some_iff.mp hn
  obtain ⟨huid, hr'⟩ := react_cases hreact
  refine pays_of_le (h.congr (fun x hx hpress => ?_)
    (fun x hx _ => List.mem_of_mem_eraseIdx hx) fun d' _ => ?_) ?_ rfl
  · rcases List.mem_append.mp hx with hx | hx
    · exact hx
    · obtain ⟨q, hq, rfl⟩ := List.mem_map.mp hx
      exact absurd (hr' q (Option.mem_toList.mp hq)).1 hpress
  · by_cases hd : d' = d
    · subst hd
      simpa using huid
    · simp [Function.update_of_ne hd]
  · have hasked : (↑((r'.toList.map fun q => (d, q)).filterMap change?) :
        Multiset (Uid × String)) ≤ ↑(verified? (d, r, failure)).toList := by
      cases r' with
      | none => exact Multiset.zero_le _
      | some q =>
        cases q with
        | updatePassword uid newPassword =>
          obtain ⟨huser, rfl, press, rfl, hretype, rfl⟩ := (hr' _ rfl).2 _ _ rfl
          have hpress := h.answered d press none (List.mem_of_getElem? hr)
          obtain rfl : uid = press.user.uid := Option.some.inj (huser.symm.trans hpress)
          simp [verified?, change?, hretype]
        | _ => exact Multiset.zero_le _
    simp only [Net.due, List.filterMap_append, ← Multiset.coe_add,
      coe_filterMap_eraseIdx (f := verified?) hr]
    generalize (↑((n.answered.eraseIdx i).filterMap verified?) : Multiset (Uid × String)) = rest
    calc ↑(n.sent.filterMap change?) +
          (↑((r'.toList.map fun q => (d, q)).filterMap change?) : Multiset (Uid × String)) + rest
        ≤ ↑(n.sent.filterMap change?) + ↑(verified? (d, r, failure)).toList + rest := by gcongr
      _ = ↑(n.sent.filterMap change?) + (rest + ↑(verified? (d, r, failure)).toList) := by abel

theorem pays_of_turn {n n' : Net ι} (h : Pressed n) {lbl : Step ι}
    (hn : turn server n lbl = some n') (hkeeps : KeepsUser n lbl) : Pays n n' lbl := by
  cases lbl with
  | register uid account =>
    simp only [turn] at hn
    split at hn <;> cases hn
    exact pays_of_le ⟨h.sent, h.answered⟩ le_rfl rfl
  | signIn d uid =>
    obtain ⟨account, -, rfl⟩ := Option.map_eq_some_iff.mp hn
    exact pays_session h hkeeps rfl
  | signOut d =>
    cases hn
    exact pays_session h hkeeps rfl
  | passwordDone d currentPassword newPassword retypePassword =>
    obtain ⟨user, huser, rfl⟩ := Option.map_eq_some_iff.mp hn
    refine pays_of_le ⟨fun d' press hx => ?_, h.answered⟩ (due_send rfl).le rfl
    rcases List.mem_append.mp hx with hx | hx
    · exact h.sent d' press hx
    · cases List.mem_singleton.mp hx
      exact congrArg (Option.map User.uid) huser
  | emailDone d text =>
    simp only [turn] at hn
    split at hn <;> cases hn
    · refine pays_of_le (h.congr (fun _ hx _ => hx) (fun _ hx _ => hx) fun d' _ => ?_) le_rfl rfl
      by_cases hd : d' = d
      · subst hd
        simp [Device.showEditAccountError]
      · simp [Function.update_of_ne hd]
    · have hnone : ((n.device d).currentUser.toList.map fun user =>
          (d, Request.updateEmail user.uid text)).filterMap change? = [] := by
        cases (n.device d).currentUser <;> rfl
      refine pays_of_le (h.congr (fun x hx hpress => ?_) (fun _ hx _ => hx) fun _ _ => rfl)
        (due_send hnone).le rfl
      rcases List.mem_append.mp hx with hx | hx
      · exact hx
      · obtain ⟨user, -, rfl⟩ := List.mem_map.mp hx
        exact absurd rfl hpress
  | serve i failure => exact pays_serve h hn
  | deliver i => exact pays_deliver h hn

/-- A password is one that was there before, or that the step has set. -/
theorem password_of_turn {n n' : Net ι} {lbl : Step ι} (hn : turn server n lbl = some n') {u : Uid}
    {p : String} (hp : password n'.accounts u = some p) :
    password n.accounts u = some p ∨ (u, p) ∈ registered n lbl ++ changed n lbl := by
  have hsame : n'.accounts = n.accounts → password n.accounts u = some p := by
    intro heq
    rw [← heq, hp]
  cases lbl with
  | register uid account =>
    simp only [turn] at hn
    split at hn <;> cases hn
    rw [password, Collection.lookup_insert_eq] at hp
    split at hp
    · rename_i hu
      cases hp
      exact .inr (by simp [registered, hu])
    · exact .inl hp
  | signIn d uid =>
    obtain ⟨account, -, rfl⟩ := Option.map_eq_some_iff.mp hn
    exact .inl (hsame rfl)
  | signOut d =>
    cases hn
    exact .inl (hsame rfl)
  | passwordDone d currentPassword newPassword retypePassword =>
    obtain ⟨user, -, rfl⟩ := Option.map_eq_some_iff.mp hn
    exact .inl (hsame rfl)
  | emailDone d text =>
    simp only [turn] at hn
    split at hn <;> cases hn <;> exact .inl (hsame rfl)
  | serve i failure =>
    simp only [turn] at hn
    split at hn
    · cases hn
    rename_i d r hr
    obtain ⟨accounts, haccounts, rfl⟩ := Option.map_eq_some_iff.mp hn
    split at haccounts
    · rename_i hfailure
      subst hfailure
      cases r with
      | updatePassword uid newPassword =>
        have hset := server.updatePassword _ _ _ _ haccounts u
        rw [show password accounts u = some p from hp] at hset
        split at hset
        · rename_i hu
          obtain ⟨old, -, rfl⟩ := Option.map_eq_some_iff.mp hset.symm
          exact .inr (by simp [registered, changed, hr, hu])
        · exact .inl hset.symm
      | updateEmail uid email =>
        exact .inl ((server.updateEmail _ _ _ _ haccounts u).symm.trans hp)
      | reauthenticate press => exact .inl (hsame (server.reauthenticate _ _ _ haccounts).1)
      | reauthenticateForEmail user =>
        exact .inl (hsame (server.reauthenticateForEmail _ _ _ haccounts).1)
    · cases haccounts
      exact .inl (hsame rfl)
  | deliver i =>
    simp only [turn] at hn
    split at hn
    · cases hn
    obtain ⟨x, -, rfl⟩ := Option.map_eq_some_iff.mp hn
    exact .inl (hsame rfl)

/-- A password of a run is one of the beginning, or has been set. -/
theorem password_of_isRun {n : Net ι} {tr : List (Step ι × Net ι)}
    (h : IsRun (fun n lbl n' => turn server n lbl = some n') n tr) {u : Uid} {p : String}
    (hp : password (final n tr).accounts u = some p) :
    password n.accounts u = some p ∨
      (u, p) ∈ Runs.collect (fun n lbl => registered n lbl ++ changed n lbl) n tr := by
  have hstart : ∀ p, password n.accounts u = some p →
      password n.accounts u = some p ∨ (u, p) ∈ ([] : List (Uid × String)) := fun _ => .inl
  have hcollect := h.collect (f := fun n lbl => registered n lbl ++ changed n lbl)
    (I := fun set n' => ∀ p, password n'.accounts u = some p →
      password n.accounts u = some p ∨ (u, p) ∈ set)
    (fun set n₁ lbl n₂ hI hn p hp => ?_) hstart
  · exact hcollect p hp
  · rcases password_of_turn hn hp with hold | hset
    · exact (hI p hold).imp_right (List.mem_append_left _)
    · exact .inr (List.mem_append_right _ hset)

/-- **Only who knows the password changes it**: if nobody signs in or out on a device that waits for
the answer to Done, then each change of a password has been confirmed, once, for a press by which
the present password of this account had been typed and the new one twice; and every account has
the password that it had, that it was made with, or that has been confirmed so. -/
theorem passwords_of_run {n : Net ι} {tr : List (Step ι × Net ι)}
    (h : IsRun (fun n lbl n' => turn server n lbl = some n') n tr) (hquiet : n.quiet)
    (hkeeps : Meets KeepsUser n tr) :
    (Runs.collect changed n tr).Subperm (Runs.collect confirmed n tr) ∧
      ∀ u a, (final n tr).accounts.lookup u = some a →
        password n.accounts u = some a.password ∨
          (u, a.password) ∈ Runs.collect registered n tr ∨
          (u, a.password) ∈ Runs.collect confirmed n tr := by
  have hpressed : Pressed n :=
    ⟨fun _ _ hx => by simp [hquiet.1] at hx, fun _ _ _ hx => by simp [hquiet.2] at hx⟩
  have hdue : n.due = 0 := by rw [Net.due, hquiet.1, hquiet.2]; rfl
  have hcredit := h.credit Net.due confirmed changed
    (fun _ _ _ hI hn hc => pays_of_turn hI hn hc) hpressed hkeeps
  have hsub : (Runs.collect changed n tr).Subperm (Runs.collect confirmed n tr) := by
    rw [hdue, zero_add] at hcredit
    exact Multiset.coe_le.mp ((Multiset.le_add_left _ _).trans hcredit)
  refine ⟨hsub, fun u a ha => ?_⟩
  have hp : password (final n tr).accounts u = some a.password := by rw [password, ha]; rfl
  rcases password_of_isRun h hp with hold | hset
  · exact .inl hold
  · exact .inr ((mem_collect_append.mp hset).imp_right fun hx => hsub.subset hx)

/-- A server that knows nothing else of an account. -/
def sampleServer : Server where
  accept accounts
    | .reauthenticate press =>
      if accounts.lookup press.user.uid = some ⟨press.user.email, press.currentPassword⟩ then
        some accounts
      else none
    | .updatePassword uid newPassword =>
      if uid ∈ accounts then some (accounts.modify uid fun a => { a with password := newPassword })
      else none
    | .updateEmail uid email =>
      if uid ∈ accounts then some (accounts.modify uid fun a => { a with email := email }) else none
    | .reauthenticateForEmail user =>
      if accounts.lookup user.uid = some ⟨user.email, "1234567"⟩ then some accounts else none
  reauthenticate accounts accounts' press h := by
    simp only at h
    split at h <;> cases h
    rename_i hlookup
    exact ⟨rfl, by rw [password, hlookup]; rfl⟩
  updatePassword accounts accounts' uid newPassword h u := by
    simp only at h
    split at h <;> cases h
    simp only [password, Collection.lookup_modify_eq]
    split
    · rename_i hu
      rw [hu, Option.map_map, Option.map_map]
      rfl
    · rfl
  updateEmail accounts accounts' uid email h u := by
    simp only at h
    split at h <;> cases h
    simp only [password, Collection.lookup_modify_eq]
    split
    · rename_i hu
      rw [hu, Option.map_map]
      rfl
    · rfl
  reauthenticateForEmail accounts accounts' user h := by
    simp only at h
    split at h <;> cases h
    rename_i hlookup
    exact ⟨rfl, by rw [password, hlookup]; rfl⟩

/-- Somebody who is signed in on two devices types a new password on one, and in between the old one
and two different ones on the other. -/
def sampleSteps : List (Step Bool) :=
  [.register "u" ⟨"ann@x.org", "old"⟩, .signIn true "u", .signIn false "u",
    .passwordDone true "old" "new" "new", .passwordDone false "old" "one" "other",
    .serve 1 none, .serve 0 none, .deliver 0, .deliver 0, .serve 0 none, .deliver 0]

/-- Two devices on which nobody is signed in. -/
def passwordsNet : Net Bool := ⟨∅, fun _ => ⟨none, none, 0⟩, [], []⟩

theorem passwords_of_run_sample : ∃ tr ∈ play (turn sampleServer) sampleSteps passwordsNet,
    (Meets KeepsUser passwordsNet tr ∧ Runs.collect changed passwordsNet tr = [("u", "new")]) ∧
      (Runs.collect changed passwordsNet tr).Subperm (Runs.collect confirmed passwordsNet tr) := by
  obtain ⟨tr, htr⟩ := Option.isSome_iff_exists.mp
    (by decide +kernel : (play (turn sampleServer) sampleSteps passwordsNet).isSome)
  have hend : ∀ tr ∈ play (turn sampleServer) sampleSteps passwordsNet,
      Meets KeepsUser passwordsNet tr ∧ Runs.collect changed passwordsNet tr = [("u", "new")] := by
    decide +kernel
  exact ⟨tr, htr, hend tr htr,
    (passwords_of_run (isRun_of_play htr) ⟨rfl, rfl⟩ (hend tr htr).1).1⟩

/-! ## What happens to emails -/

/-- The account that a request of the screen for the email is about. -/
def Request.emailOf : Request → Option Uid
  | updateEmail uid _ => some uid
  | reauthenticateForEmail user => some user.uid
  | _ => none

/-- The accounts whose screens for the email are closed: an answer to a request of the screen pops a
screen. -/
def closed (n : Net ι) : Step ι → List Uid
  | .deliver i => match n.answered[i]? with
    | some (d, r, failure) => match (n.device d).react r failure with
      | some (device, _) => if (n.device d).popped < device.popped then r.emailOf.toList else []
      | none => []
    | none => []
  | _ => []

end Auth

end Wanderlust
