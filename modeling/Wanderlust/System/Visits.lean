import Wanderlust.Entries.Content
import Wanderlust.Entries.EntryInfo

/-!
# Visits to entries

A user opens an entry, edits it and saves it. Seen from outside, entries have contents, and a visit
changes the content of one entry by what the user does on the form as it has been loaded, or not at
all if the form cannot be saved. This is so however the answers of each action are ordered, whoever
visits which entries how often, and wherever the objects of the entries are
(`contents_of_visits`).
-/

namespace Wanderlust

open Async Runs

namespace EntryInfo

/-- The documents and the objects. -/
abbrev Cloud := Firestore × Bucket

/-- A visit: who visits, which entry, in which order the form has got its photos, and what is done
there. -/
structure Visit where
  /-- The uid of `Auth.auth().currentUser`. -/
  user : Uid
  currentUser : User
  entryID : EntryID
  loaded : List String
  edits : List EditEntry.Event

/-- The user opens the form. -/
def Visit.opening : List Event :=
  [.viewWillAppear, .barButtonPressed, .editPressed, .edit 0 .viewDidLoad]

/-- What is done on the form, which then is saved. -/
def Visit.editing (v : Visit) : List Event := v.edits.map (.edit 0) ++ [.edit 0 .saveButton]

/-- The user does something, and everything is answered. -/
def Acts (x : Firestore × EntryInfo) (e : Event) (y : Firestore × EntryInfo) : Prop :=
  Completes program Undisturbed e x.1 x.2 y.1 y.2

/-- The photos on the form, in their order there. -/
def formPhotos (l : EntryInfo) : List (List String) :=
  l.edits.map fun edit => edit.entryImage.map UIImage.pixels

/-- A visit. -/
def Visits (x : Cloud) (v : Visit) (y : Cloud) : Prop :=
  ∃ z l, Leads Acts (x.1, .opened v.user v.currentUser v.entryID x.2) Visit.opening z ∧
    z.2.formPhotos = [v.loaded] ∧ Leads Acts z v.editing (y.1, l) ∧ l.bucket = y.2

/-! ## What people see -/

/-- The contents of entries, as far as they are considered. -/
abbrev Contents := EntryID → Option Content

/-- A visit as a change of the contents. -/
def Contents.Revises (contents : Contents) (v : Visit) (contents' : Contents) : Prop :=
  ∃ c c', contents v.entryID = some c ∧ c.Revises v.loaded v.edits c' ∧
    contents' = Function.update contents v.entryID (some c')

/-- The documents and the objects represent the contents. -/
structure Represents (x : Cloud) (contents : Contents) : Prop where
  shows : ∀ id c, contents id = some c →
    c.photos ≠ 0 ∧ ∃ d, x.1.entries.lookup id = some d ∧ d.Shows x.2 c
  /-- No entry shows an object that is where the edits of another entry put theirs. -/
  apart : ∀ id d, x.1.entries.lookup id = some d → ∀ url ∈ d.photoURLs, ∀ uid id' : String,
    '/' ∉ uid.toList → EditEntry.EditPath uid id' url.path → id' = id

/-! ## The screen of the entry -/

section

variable {db db' : Firestore} {l l' : EntryInfo} {u : User} {id : EntryID} {bucket : Bucket}
  {d : EntryDoc} {x x' : Direct Firestore EntryInfo Callback}

/-- The screen shows the document, and nothing is edited. -/
structure Showing (u : User) (id : EntryID) (bucket : Bucket) (d : EntryDoc) (l : EntryInfo) :
    Prop where
  currentUser : l.currentUser = u
  entryID : l.entryID = id
  bucket : l.bucket = bucket
  edits : l.edits = []
  entryName : l.entryName = d.entryName
  entryLocation : l.entryLocation = d.locationName
  entryDescription : l.entryDescription = d.description
  entryImages : l.entryImages = d.mediaList

/-- A closure for a detail. -/
def Callback.Detail : Callback → Prop
  | .tripFetched _ => True
  | .userFetched _ => True
  | _ => False

/-- The screen is loading the entry. -/
inductive Loading (me : Uid) (u : User) (id : EntryID) (bucket : Bucket) (db : Firestore)
    (d : EntryDoc) (x : Direct Firestore EntryInfo Callback) : Prop
  | asked (hstore : x.store = db) (hloc : x.loc = opened me u id bucket)
      (hbag : x.bag = {.entryFetched})
  | fetched (hstore : x.store = db) (hloc : Showing u id bucket d x.loc)
      (hbag : ∀ k ∈ x.bag, k.Detail)

/-- One answer. -/
theorem Loading.answer {me : Uid} (hd : db.entries.lookup id = some d)
    (h : Loading me u id bucket db d x) (hs : Answer program x x') :
    Loading me u id bucket db d x' := by
  cases hs with
  | @intro k a rest r hb hr =>
    change react k true a x.loc x.store = some r at hr
    cases h with
    | asked hstore hloc hbag =>
      obtain ⟨rfl, rfl⟩ := (Multiset.singleton_eq_cons_iff _).mp (hbag.symm.trans hb)
      have hcode : entryFetched (some d) (opened me u id bucket) = some r := by
        rw [hloc, hstore] at hr
        rw [← hd]
        exact hr
      obtain ⟨t, -, rfl⟩ := Option.map_eq_some_iff.mp hcode
      refine .fetched hstore ⟨rfl, rfl, rfl, rfl, rfl, rfl, rfl, rfl⟩ fun k hk => ?_
      simp only [Program.after, callbacks_request, callbacks_nil, zero_add, Multiset.mem_cons,
        Multiset.notMem_zero, or_false] at hk
      rcases hk with rfl | rfl <;> trivial
    | fetched hstore hloc hbag =>
      have hrest : ∀ k' ∈ rest, k'.Detail := fun k' hk' =>
        hbag k' (hb ▸ Multiset.mem_cons_of_mem hk')
      have hdetail := hbag k (hb ▸ Multiset.mem_cons_self k rest)
      obtain ⟨huser, hid, hbucket, hedits, hname, hlocation, hdescription, himages⟩ := hloc
      cases k with
      | tripFetched t =>
        simp only [react] at hr
        split at hr <;> cases hr <;>
          exact .fetched hstore ⟨huser, hid, hbucket, hedits, hname, hlocation, hdescription,
            himages⟩ (by simpa [Program.after] using hrest)
      | userFetched uid =>
        cases hr
        exact .fetched hstore ⟨huser, hid, hbucket, hedits, hname, hlocation, hdescription,
          himages⟩ (by simpa [Program.after] using hrest)
      | _ => exact hdetail.elim

/-- **The entry is shown.** -/
theorem showing_of_settles {me : Uid} (hd : db.entries.lookup id = some d)
    (h : Settles program .viewWillAppear db (opened me u id bucket) db' l') :
    db' = db ∧ Showing u id bucket d l' := by
  have hend : Loading me u id bucket db d ⟨db', l', 0⟩ := by
    refine h.invariant (fun r hr => ?_) fun x x' hx hs => hx.answer hd hs
    cases hr
    exact .asked rfl rfl (by simp [Program.after, loadEntryInfo])
  cases hend with
  | asked hstore hloc hbag => exact absurd hbag.symm (Multiset.singleton_ne_zero _)
  | fetched hstore hloc hbag => exact ⟨hstore, hloc⟩

/-- The screen with an edit that it has pushed. -/
def withEdit (l : EntryInfo) (edit : EditEntry) : EntryInfo :=
  { l with
    bucket := edit.bucket
    edits := [edit] }

/-- **Edit** opens the form with what the screen shows. -/
theorem editing_of_settles {db₁ : Firestore} {l₁ : EntryInfo} (h : Showing u id bucket d l)
    (hsheet : Settles program .barButtonPressed db l db₁ l₁)
    (hedit : Settles program .editPressed db₁ l₁ db' l') :
    db' = db ∧ ∃ l₀, l₀.currentUser = u ∧ l' = withEdit l₀
      (.opened u id d.entryName d.locationName d.description d.mediaList bucket) := by
  obtain ⟨r, hr⟩ := hsheet.event
  have hcode : event .barButtonPressed l db = some ({ l with sheet := true }, []) := by
    change event .barButtonPressed l db = some r at hr
    simp only [event] at hr ⊢
    split at hr
    · rename_i hbutton
      rw [if_pos hbutton]
    · cases hr
  obtain ⟨rfl, rfl⟩ := hsheet.silent hcode
  have hpush : event .editPressed { l with sheet := true } db₁ = some ({ l with
      sheet := false
      edits := l.edits ++ [({ l with sheet := true }).editScreen] }, []) := rfl
  obtain ⟨rfl, rfl⟩ := hedit.silent hpush
  refine ⟨rfl, { l with sheet := false }, h.currentUser, ?_⟩
  have hscreen : ({ l with sheet := true } : EntryInfo).editScreen =
      .opened u id d.entryName d.locationName d.description d.mediaList bucket := by
    simp only [editScreen, h.currentUser, h.entryID, h.bucket, h.entryName, h.entryLocation,
      h.entryDescription, h.entryImages]
  rw [hscreen, h.edits]
  simp [withEdit, EditEntry.opened, h.bucket]

/-- Code of the screen that has been pushed. -/
theorem runEdit_withEdit {edit : EditEntry} (huser : edit.currentUser = l.currentUser)
    (code : EditEntry → Option (EditEntry × List EditEntry.Cmd)) :
    (withEdit l edit).runEdit 0 code =
      (code edit).map fun r => (withEdit l r.1, r.2.map (Cmd.map (.edit 0))) := by
  have hsame : ({ edit with currentUser := l.currentUser, bucket := edit.bucket } : EditEntry) =
      edit := by rw [← huser]
  simp only [runEdit, withEdit, List.getElem?_cons_zero, Option.bind_some, hsame]
  rfl

/-- The screen that has been pushed is a part of the screen. -/
theorem isPart_edit (l : EntryInfo) : IsPart program EditEntry.program (withEdit l) (.edit 0)
    fun edit => edit.currentUser = l.currentUser where
  apply := rfl
  react k ok a _ s huser := runEdit_withEdit huser fun edit => EditEntry.react k ok a edit s
  keeps _ _ _ _ _ _ huser hr := (EditEntry.currentUser_react hr).trans huser

theorem settles_edit {edit : EditEntry} {e : EditEntry.Event}
    (h : Settles program (.edit 0 e) db (withEdit l edit) db' l')
    (huser : edit.currentUser = l.currentUser) :
    ∃ edit', Settles EditEntry.program e db edit db' edit' ∧ l' = withEdit l edit' :=
  h.of_part (isPart_edit l) (runEdit_withEdit huser fun edit => EditEntry.event e edit db)
    fun _ hr => (EditEntry.currentUser_event hr).trans huser

end

/-! ## One visit -/

section

variable {x y : Cloud} {v : Visit} {c : Content} {f : Draft} {d : EntryDoc}
  {contents contents' : Contents}
  {db : Firestore} {l : EntryInfo} {edit : EditEntry} {u : User} {id : EntryID} {bucket : Bucket}

/-- What is done on the form. -/
theorem leads_edits {es : List EditEntry.Event} {z : Firestore × EntryInfo}
    (h : Leads Acts (db, l.withEdit edit) (es.map (.edit 0)) z) (huser : l.currentUser = u)
    (hfilled : EditEntry.Filled u id bucket edit f) (hfills : ∀ e ∈ es, e.Fills) :
    ∃ edit' f', z = (db, l.withEdit edit') ∧ EditEntry.Filled u id bucket edit' f' ∧
      es.foldlM Draft.edit f = some f' := by
  induction es generalizing edit f with
  | nil => exact ⟨edit, f, h, hfilled, rfl⟩
  | cons e es ih =>
    obtain ⟨he, hes⟩ := List.forall_mem_cons.mp hfills
    obtain ⟨⟨db₁, l₁⟩, hact, hrest⟩ := h
    obtain ⟨edit₁, hsettles, rfl⟩ := settles_edit (settles_of_completes hact)
      (hfilled.currentUser.trans huser.symm)
    obtain ⟨⟨edit₂, cs⟩, hevent⟩ := hsettles.event
    obtain ⟨f₁, hedit, hfilled₁, rfl⟩ := hfilled.edit he hevent
    obtain ⟨rfl, rfl⟩ := hsettles.silent hevent
    obtain ⟨edit', f', hz, hfilled', hedits⟩ := ih hrest hfilled₁ hes
    refine ⟨edit', f', hz, hfilled', ?_⟩
    rw [List.foldlM_cons, hedit]
    exact hedits

/-- The form is opened. -/
theorem opened_of_leads {z : Firestore × EntryInfo}
    (h : Leads Acts (x.1, .opened v.user v.currentUser v.entryID x.2) Visit.opening z)
    (hd : x.1.entries.lookup v.entryID = some d) (hshows : d.Shows x.2 c) (hne : c.photos ≠ 0) :
    ∃ l edit, ∃ photos : List String, z = (x.1, withEdit l edit) ∧
      l.currentUser = v.currentUser ∧ ↑photos = c.photos ∧
      EditEntry.Filled v.currentUser v.entryID x.2 edit (c.draft photos) := by
  obtain ⟨⟨db₀, l₀⟩, happear, ⟨db₁, l₁⟩, hsheet, ⟨db₂, l₂⟩, hedit, ⟨db₃, l₃⟩, hload, rfl⟩ := h
  obtain ⟨rfl, hshowing⟩ := showing_of_settles hd (settles_of_completes happear)
  obtain ⟨rfl, l, huser, rfl⟩ := editing_of_settles hshowing
    (settles_of_completes hsheet) (settles_of_completes hedit)
  obtain ⟨edit, hload, rfl⟩ := settles_edit (settles_of_completes hload) huser.symm
  obtain ⟨rfl, photos, hphotos, hfilled⟩ := EditEntry.loaded_of_settles hd hshows hne hload
  exact ⟨l, edit, photos, rfl, huser, hphotos, hfilled⟩

/-- **A visit** saves what is done on the form, or changes nothing. -/
theorem Visits.saved (h : Visits x v y) (hd : x.1.entries.lookup v.entryID = some d)
    (hshows : d.Shows x.2 c) (hne : c.photos ≠ 0) (hfills : ∀ e ∈ v.edits, e.Fills) :
    ↑v.loaded = c.photos ∧ ∃ f, v.edits.foldlM Draft.edit (c.draft v.loaded) = some f ∧
      if f.content.Complete then
        EditEntry.Saved v.currentUser.uid v.entryID f.content x.1 x.2 y.1 y.2
      else y = x := by
  obtain ⟨z, l', hopens, hloaded, hediting, hbucket⟩ := h
  obtain ⟨l, edit, photos, rfl, huser, hphotos, hfilled⟩ := opened_of_leads hopens hd hshows hne
  obtain rfl : photos = v.loaded := by
    have himages : (edit.entryImage.map UIImage.pixels) = photos := by
      rw [hfilled.form.photos, List.map_map]
      exact List.map_id _
    have hform : [edit.entryImage.map UIImage.pixels] = [v.loaded] := hloaded
    rwa [himages, List.singleton_inj] at hform
  obtain ⟨z, hedits, ⟨db₄, l₄⟩, hsave, hlast⟩ := leads_append.mp hediting
  obtain ⟨edit₁, f, rfl, hfilled₁, hf⟩ := leads_edits hedits huser hfilled hfills
  obtain ⟨edit₂, hsave, hl₄⟩ := settles_edit (settles_of_completes hsave)
    (hfilled₁.currentUser.trans huser.symm)
  obtain ⟨hy, rfl⟩ := Prod.mk.inj hlast
  obtain rfl : l' = l.withEdit edit₂ := hl₄
  have hbucket₂ : edit₂.bucket = y.2 := hbucket
  refine ⟨hphotos, f, hf, ?_⟩
  split
  · rename_i hcomplete
    have hsaved := hfilled₁.save hcomplete hd hshows.tripID hsave
    rw [hbucket₂] at hsaved
    rw [hy]
    exact hsaved
  · rename_i hnot
    have hempty : edit₁.emptyField = true := by
      rw [← Bool.not_eq_false]
      exact mt hfilled₁.form.emptyField_iff.mp hnot
    have hcode : EditEntry.event .saveButton edit₁ x.1 =
        some ({ edit₁ with pictureCheck := true }, []) := by
      simp only [EditEntry.event, EditEntry.saveButton, hempty, if_true]
    obtain ⟨hstore, rfl⟩ := hsave.silent hcode
    exact Prod.ext (hy.trans hstore) (hbucket₂.symm.trans hfilled₁.bucket)

/-! ## All visits -/

/-- The paths are made as they should be, and the images are what their data are. -/
structure Visit.Proper (v : Visit) : Prop where
  uid : '/' ∉ v.currentUser.uid.toList
  fills : ∀ e ∈ v.edits, e.Fills

/-- A save changes one content. -/
theorem Represents.save (h : Represents x contents) {uid : Uid} (huid : '/' ∉ uid.toList)
    (hcomplete : c.Complete) (hs : EditEntry.Saved uid id c x.1 x.2 y.1 y.2) :
    Represents y (Function.update contents id (some c)) := by
  obtain ⟨d', hd', hshows', hpaths⟩ := hs.shows
  refine ⟨fun id' c' hc' => ?_, fun id' d hd url hurl uid' id'' huid' hpath => ?_⟩
  · by_cases hid : id' = id
    · subst hid
      rw [Function.update_self] at hc'
      cases hc'
      exact ⟨hcomplete.photos, d', hd', hshows'⟩
    · rw [Function.update_of_ne hid] at hc'
      obtain ⟨hne, d, hd, hshows⟩ := h.shows id' c' hc'
      refine ⟨hne, d, (hs.edited.entries id' hid).trans hd, hshows.congr fun url hurl => ?_⟩
      exact hs.objects _ fun hpath => hid (h.apart id' d hd url hurl uid id huid hpath).symm
  · by_cases hid : id' = id
    · subst hid
      obtain rfl := Option.some.inj (hd'.symm.trans hd)
      exact hpath.id_eq (hpaths url hurl) huid' huid
    · rw [hs.edited.entries id' hid] at hd
      exact h.apart id' d hd url hurl uid' id'' huid' hpath

/-- One visit. -/
theorem Represents.visit (h : Represents x contents) (hc : contents v.entryID = some c)
    (hproper : v.Proper) (hv : Visits x v y) :
    ∃ contents', contents.Revises v contents' ∧ Represents y contents' := by
  obtain ⟨hne, d, hd, hshows⟩ := h.shows _ c hc
  obtain ⟨hloaded, f, hedits, hsaved⟩ := hv.saved hd hshows hne hproper.fills
  refine ⟨_, ⟨c, if f.content.Complete then f.content else c, hc, ⟨hloaded, f, hedits, rfl⟩, rfl⟩,
    ?_⟩
  split at hsaved
  · rename_i hcomplete
    rw [if_pos hcomplete]
    exact h.save hproper.uid hcomplete hsaved
  · rename_i hnot
    rw [if_neg hnot, hsaved]
    have hsame : Function.update contents v.entryID (some c) = contents := by
      rw [← hc, Function.update_eq_self]
    rw [hsame]
    exact h

/-- **Visits change contents**: however many users visit whichever entries, each visit loads the
photos of its entry into the form, in some order, and changes the content of the entry by what is
done on this form, or not at all if the form cannot be saved, and no other content. -/
theorem contents_of_visits {vs : List Visit} (hrep : Represents x contents)
    (hproper : ∀ v ∈ vs, v.Proper ∧ (contents v.entryID).isSome) (h : Leads Visits x vs y) :
    ∃ contents', Leads Contents.Revises contents vs contents' ∧ Represents y contents' := by
  have hstep : ∀ (s : Cloud) (t : Contents) (v : Visit) (s' : Cloud),
      (Represents s t ∧ ∀ id, (contents id).isSome → (t id).isSome) →
      (v.Proper ∧ (contents v.entryID).isSome) → Visits s v s' →
      ∃ t', t.Revises v t' ∧ Represents s' t' ∧ ∀ id, (contents id).isSome → (t' id).isSome := by
    rintro s t v s' ⟨hs, hdom⟩ ⟨hv, hknown⟩ hvisit
    obtain ⟨c, hc⟩ := Option.isSome_iff_exists.mp (hdom _ hknown)
    obtain ⟨t', ht', hs'⟩ := hs.visit hc hv hvisit
    refine ⟨t', ht', hs', fun id hid => ?_⟩
    obtain ⟨-, c', -, -, rfl⟩ := ht'
    by_cases hsame : id = v.entryID
    · rw [hsame, Function.update_self]
      rfl
    · rw [Function.update_of_ne hsame]
      exact hdom id hid
  obtain ⟨contents', hleads, hy, -⟩ := h.simulate (f := id) hstep hproper ⟨hrep, fun _ => id⟩
  rw [List.map_id] at hleads
  exact ⟨contents', hleads, hy⟩

/-! ## Entries that have been saved with a trip -/

/-- Their photos are not where edits put theirs. -/
theorem not_editPath_imagePath {uid uid' : Uid} (huid : '/' ∉ uid.toList)
    (huid' : '/' ∉ uid'.toList) (id id' : EntryID) (i : ℕ) :
    ¬ EditEntry.EditPath uid' id' (imagePath uid id i) := by
  rw [imagePath_eq]
  rintro (hpath | ⟨j, hpath⟩)
  · obtain rfl := filePath_uid huid huid' hpath
    exact filePath_numbered_ne_coverName hpath
  · obtain rfl := filePath_uid huid huid' hpath
    have hname := ((filePath_inj (slash_notMem_numbered (by decide) i)
      (slash_notMem_numbered (by decide) j)).mp hpath).2
    exact numbered_image_ne i j hname

/-- Their covers are not where edits put theirs. -/
theorem not_editPath_nil {uid uid' : Uid} (huid : '/' ∉ uid.toList) (huid' : '/' ∉ uid'.toList)
    (id' : EntryID) : ¬ EditEntry.EditPath uid' id' (filePath uid "entryCovers" "nil") := by
  rintro (hpath | ⟨j, hpath⟩)
  · obtain rfl := filePath_uid huid huid' hpath
    exact filePath_coverName_ne_nil hpath.symm
  · obtain rfl := filePath_uid huid huid' hpath
    exact filePath_numbered_ne_nil hpath.symm

end

/-! ## Two visits -/

/-- Execute the actions of a list, each with the steps that answer it. -/
def perform (script : List (Event × List (Label Unit Event)))
    (z : Firestore × EntryInfo) : Option (Firestore × EntryInfo) :=
  script.foldlM (fun z i => complete program Undisturbed i.1 i.2 z.1 z.2) z

theorem leads_of_perform {script : List (Event × List (Label Unit Event))}
    {z z' : Firestore × EntryInfo} (h : perform script z = some z') :
    Leads Acts z (script.map Prod.fst) z' := by
  induction script generalizing z with
  | nil =>
    cases h
    rfl
  | cons i script ih =>
    rw [perform, List.foldlM_cons] at h
    obtain ⟨z₁, hact, hrest⟩ := Option.bind_eq_some_iff.mp h
    exact ⟨z₁, completes_of_complete hact, ih hrest⟩

/-- Execute a visit, with these answers to the actions before and after the form is loaded. -/
def Visit.perform (v : Visit) (before after : List (List (Label Unit Event))) (x : Cloud) :
    Option Cloud :=
  (EntryInfo.perform (Visit.opening.zip before)
    (x.1, .opened v.user v.currentUser v.entryID x.2)).bind fun z =>
      if z.2.formPhotos = [v.loaded] then
        (EntryInfo.perform (v.editing.zip after) z).map fun z => (z.1, z.2.bucket)
      else none

theorem visits_of_perform {v : Visit} {before after : List (List (Label Unit Event))} {x y : Cloud}
    (hbefore : Visit.opening.length ≤ before.length) (hafter : v.editing.length ≤ after.length)
    (h : v.perform before after x = some y) : Visits x v y := by
  obtain ⟨z, hopens, h⟩ := Option.bind_eq_some_iff.mp h
  have hopens := leads_of_perform hopens
  rw [List.map_fst_zip hbefore] at hopens
  split at h
  · rename_i hloaded
    obtain ⟨⟨db, l⟩, hedits, rfl⟩ := Option.map_eq_some_iff.mp h
    have hedits := leads_of_perform hedits
    rw [List.map_fst_zip hafter] at hedits
    exact ⟨z, l, hopens, hloaded, hedits, rfl⟩
  · cases h

/-- Ann's entry, as it has been saved with its trip. -/
def visitedDoc : EntryDoc :=
  { sampleEntryDoc "e" with
    coverPhoto := some ⟨filePath "ann" "entryCovers" "nil"⟩
    description := "text"
    entryName := "Rome"
    locationName := "Italy"
    mediaList := [⟨imagePath "ann" "e" 0⟩] }

def visitedContent : Content where
  entryName := "Rome"
  locationName := "Italy"
  description := "text"
  cover := "cover"
  photos := {"photo"}

def visitedCloud : Cloud where
  fst := {
    users := AList.insert "ann" (newUser "ann") ∅
    trips := AList.insert "t" ⟨"Trip", some ⟨"cover"⟩, "ann", 0, ["e"]⟩ ∅
    entries := AList.insert "e" visitedDoc ∅
    newsfeed := ∅ }
  snd := AList.insert (imagePath "ann" "e" 0) "photo"
    (AList.insert (filePath "ann" "entryCovers" "nil") "cover" ∅)

/-- Ann gives the entry another name and another photo. -/
def sampleVisit : Visit where
  user := "ann"
  currentUser := sampleAnn
  entryID := "e"
  loaded := ["photo"]
  edits := [.editEntryName "Roma", .addPhoto (.ofData "more")]

def sampleBefore : List (List (Label Unit Event)) :=
  [[.deliver 0 true (), .deliver 0 true (), .deliver 0 true ()], [], [],
    [.deliver 1 true (), .deliver 0 true (), .deliver 0 true ()]]

def sampleAfter : List (List (Label Unit Event)) :=
  [[], [], [.deliver 0 true (), .deliver 0 true (), .deliver 1 true (), .deliver 1 true (),
    .deliver 0 true (), .deliver 0 true (), .apply, .deliver 0 true ()]]

/-- Then she deletes the photo that has been loaded first, and then the description. -/
def sampleVisit' : Visit where
  user := "ann"
  currentUser := sampleAnn
  entryID := "e"
  loaded := ["more", "photo"]
  edits := [.deleteImage 0, .editDescription ""]

def sampleBefore' : List (List (Label Unit Event)) :=
  [[.deliver 0 true (), .deliver 0 true (), .deliver 0 true ()], [], [],
    [.deliver 1 true (), .deliver 1 true (), .deliver 0 true (), .deliver 0 true ()]]

def visitedContents : Contents := fun id => if id = "e" then some visitedContent else none

theorem represents_visited : Represents visitedCloud visitedContents := by
  refine ⟨fun id c hc => ?_, fun id d hd url hurl uid id' huid hpath => ?_⟩
  · simp only [visitedContents] at hc
    split at hc <;> cases hc
    rename_i hid
    refine ⟨by decide, visitedDoc, by rw [hid]; decide +kernel, rfl, rfl, rfl, rfl, ?_, ?_⟩
    · exact ⟨_, rfl, by decide +kernel⟩
    · decide +kernel
  · rw [visitedCloud, Collection.lookup_insert_eq] at hd
    split at hd <;> cases hd
    have hann : '/' ∉ "ann".toList := by decide
    have hurls : url = ⟨filePath "ann" "entryCovers" "nil"⟩ ∨ url = ⟨imagePath "ann" "e" 0⟩ := by
      simpa [EntryDoc.photoURLs, visitedDoc] using hurl
    rcases hurls with rfl | rfl
    · exact absurd hpath (not_editPath_nil hann huid id')
    · exact absurd hpath (not_editPath_imagePath hann huid "e" id' 0)

theorem contents_of_visits_sample : ∃ y contents',
    Leads Visits visitedCloud [sampleVisit, sampleVisit'] y ∧
    Leads Contents.Revises visitedContents [sampleVisit, sampleVisit'] contents' ∧
      Represents y contents' := by
  obtain ⟨y, hy⟩ : ∃ y, y ∈ (sampleVisit.perform sampleBefore sampleAfter visitedCloud).bind
      (sampleVisit'.perform sampleBefore' [[], [], []]) :=
    Option.isSome_iff_exists.mp (by decide +kernel)
  obtain ⟨x₁, hfirst, hsecond⟩ := Option.bind_eq_some_iff.mp hy
  have hrun : Leads Visits visitedCloud [sampleVisit, sampleVisit'] y :=
    ⟨x₁, visits_of_perform (by decide) (by decide) hfirst,
      y, visits_of_perform (by decide) (by decide) hsecond, rfl⟩
  have hproper : ∀ v ∈ [sampleVisit, sampleVisit'],
      v.Proper ∧ (visitedContents v.entryID).isSome := by
    have hfills : ∀ e ∈ sampleVisit.edits, e.Fills := by
      intro e he
      rcases List.mem_pair.mp he with rfl | rfl
      · trivial
      · rfl
    have hfills' : ∀ e ∈ sampleVisit'.edits, e.Fills := by
      intro e he
      rcases List.mem_pair.mp he with rfl | rfl <;> trivial
    intro v hv
    rcases List.mem_pair.mp hv with rfl | rfl
    · exact ⟨⟨by decide, hfills⟩, rfl⟩
    · exact ⟨⟨by decide, hfills'⟩, rfl⟩
  obtain ⟨contents', hleads, hrep⟩ := contents_of_visits represents_visited hproper hrun
  exact ⟨y, contents', hrun, hleads, hrep⟩

end EntryInfo

end Wanderlust
