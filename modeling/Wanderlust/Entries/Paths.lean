import Wanderlust.Entries.EntryOnMap

/-!
# Where the files of entries are

The app builds the paths of its Storage objects from names: of a user, of a folder, which is that
of an entry or one for all covers, and of a file. Two files are the same only if these are
(`filePath_inj`), which tells apart the images that the two edit screens store, and the covers.
-/

namespace Wanderlust

/-- A file in a folder of a user. -/
def filePath (uid dir name : String) : String := "/users/" ++ uid ++ "/" ++ dir ++ "/" ++ name

/-- The file is in the folder of an entry. -/
def InFolder (uid : Uid) (id : EntryID) (path : String) : Prop :=
  ∃ name : String, '/' ∉ name.toList ∧ path = filePath uid id name

/-- The name of a file that is numbered. -/
def numbered (stem : String) (i : ℕ) : String := stem ++ toString i

variable {uid uid' dir dir' name name' : String} {id id' : EntryID} {i j : ℕ} {stem : String}

/-! ## Numbers -/

theorem isDigit_of_mem_toString {c : Char} (h : c ∈ (toString i).toList) : c.isDigit = true := by
  rw [Nat.toString_eq_repr, Nat.toList_repr] at h
  exact Nat.isDigit_of_mem_toDigits (by omega) (by omega) h

theorem toString_inj : toString i = toString j ↔ i = j := by
  constructor
  · intro h
    have hdigits : Nat.toDigits 10 i = Nat.toDigits 10 j := by
      simpa only [Nat.toString_eq_repr, Nat.toList_repr] using congrArg String.toList h
    simpa using congrArg (fun ds => Nat.ofDigitChars 10 ds 0) hdigits
  · exact fun h => h ▸ rfl

theorem numbered_inj : numbered stem i = numbered stem j ↔ i = j :=
  (String.append_right_inj stem).trans toString_inj

theorem slash_notMem_numbered (h : '/' ∉ stem.toList) (i : ℕ) :
    '/' ∉ (numbered stem i).toList := by
  intro hmem
  rw [numbered, String.toList_append] at hmem
  rcases List.mem_append.mp hmem with hmem | hmem
  · exact h hmem
  · exact absurd (isDigit_of_mem_toString hmem) (by decide)

/-- The images that are stored for a trip and those that are stored for a single entry have
different names. -/
theorem numbered_image_ne (i j : ℕ) : numbered "image" i ≠ numbered "images" j := by
  intro h
  have hstem : ("images" : String) = "image" ++ "s" := by decide
  rw [numbered, numbered, hstem, String.append_assoc, String.append_right_inj] at h
  have hmem : 's' ∈ (toString i).toList := by simp [h]
  exact absurd (isDigit_of_mem_toString hmem) (by decide)

/-! ## Folders -/

/-- A path is split at its last slash. -/
theorem split_last {a b c d : List Char} (hb : '/' ∉ b) (hd : '/' ∉ d)
    (h : a ++ '/' :: b = c ++ '/' :: d) : a = c ∧ b = d := by
  rcases List.append_eq_append_iff.mp h with ⟨as, hc, hbs⟩ | ⟨bs, ha, hds⟩
  · cases as with
    | nil =>
      rw [List.nil_append, List.cons.injEq] at hbs
      exact ⟨by simpa using hc.symm, hbs.2⟩
    | cons x as =>
      rw [List.cons_append, List.cons.injEq] at hbs
      exact absurd (hbs.2 ▸ List.mem_append_right as List.mem_cons_self) hb
  · cases bs with
    | nil =>
      rw [List.nil_append, List.cons.injEq] at hds
      exact ⟨by simpa using ha, hds.2.symm⟩
    | cons x bs =>
      rw [List.cons_append, List.cons.injEq] at hds
      exact absurd (hds.2 ▸ List.mem_append_right bs List.mem_cons_self) hd

/-- A path is split at its first slash. -/
theorem split_first {a b c d : List Char} (ha : '/' ∉ a) (hc : '/' ∉ c)
    (h : a ++ '/' :: b = c ++ '/' :: d) : a = c ∧ b = d := by
  have hrev : b.reverse ++ '/' :: a.reverse = d.reverse ++ '/' :: c.reverse := by
    simpa using congrArg List.reverse h
  obtain ⟨hb, ha⟩ := split_last (by simpa using ha) (by simpa using hc) hrev
  exact ⟨List.reverse_injective ha, List.reverse_injective hb⟩

/-- Files are the same only in the same folder and by the same name. -/
theorem filePath_inj (h : '/' ∉ name.toList) (h' : '/' ∉ name'.toList) :
    filePath uid dir name = filePath uid dir' name' ↔ dir = dir' ∧ name = name' := by
  refine ⟨fun he => ?_, fun ⟨hdir, hname⟩ => hdir ▸ hname ▸ rfl⟩
  have hlist : ("/users/" ++ uid ++ "/" ++ dir).toList ++ '/' :: name.toList =
      ("/users/" ++ uid ++ "/" ++ dir').toList ++ '/' :: name'.toList := by
    simpa [filePath] using congrArg String.toList he
  obtain ⟨hdir, hname⟩ := split_last h h' hlist
  exact ⟨(String.append_right_inj _).mp (String.toList_injective hdir),
    String.toList_injective hname⟩

/-- The same, if what contains no slash are the names of the folders. -/
theorem filePath_inj_of_dir (h : '/' ∉ dir.toList) (h' : '/' ∉ dir'.toList) :
    filePath uid dir name = filePath uid dir' name' ↔ dir = dir' ∧ name = name' := by
  refine ⟨fun he => ?_, fun ⟨hdir, hname⟩ => hdir ▸ hname ▸ rfl⟩
  have hlist : dir.toList ++ '/' :: name.toList = dir'.toList ++ '/' :: name'.toList := by
    simpa [filePath] using congrArg String.toList he
  obtain ⟨hdir, hname⟩ := split_first h h' hlist
  exact ⟨String.toList_injective hdir, String.toList_injective hname⟩

/-- Files of different users are different. -/
theorem filePath_uid (h : '/' ∉ uid.toList) (h' : '/' ∉ uid'.toList)
    (he : filePath uid dir name = filePath uid' dir' name') : uid = uid' := by
  have hlist : uid.toList ++ '/' :: (dir.toList ++ '/' :: name.toList) =
      uid'.toList ++ '/' :: (dir'.toList ++ '/' :: name'.toList) := by
    simpa [filePath] using congrArg String.toList he
  exact String.toList_injective (split_first h h' hlist).1

/-- Files are the same only of the same user, if the folders contain no slash either. -/
theorem dir_eq_of_filePath (h : '/' ∉ name.toList) (h' : '/' ∉ name'.toList)
    (hdir : '/' ∉ dir.toList) (hdir' : '/' ∉ dir'.toList)
    (he : filePath uid dir name = filePath uid' dir' name') : uid = uid' ∧ dir = dir' := by
  have hlist : (uid.toList ++ '/' :: dir.toList) ++ '/' :: name.toList =
      (uid'.toList ++ '/' :: dir'.toList) ++ '/' :: name'.toList := by
    simpa [filePath] using congrArg String.toList he
  obtain ⟨hu, hd⟩ := split_last hdir hdir' (split_last h h' hlist).1
  exact ⟨String.toList_injective hu, String.toList_injective hd⟩

/-- Files by names with different ends are different, whatever their folders are. -/
theorem filePath_ne_of_getLast {c c' : Char} (h : name.toList.getLast? = some c)
    (h' : name'.toList.getLast? = some c') (hne : c ≠ c') :
    filePath uid dir name ≠ filePath uid dir' name' := by
  intro he
  have hlast := congrArg (fun s : String => s.toList.getLast?) he
  simp only [filePath, String.toList_append, List.getLast?_append, h, h', Option.some_or,
    Option.some.injEq] at hlast
  exact hne hlast

/-- A file in the folder of an entry is in no other. -/
theorem inFolder_filePath (h : '/' ∉ name.toList) : InFolder uid id (filePath uid dir name) ↔
    dir = id := by
  constructor
  · rintro ⟨name', h', he⟩
    exact ((filePath_inj h h').mp he).1
  · rintro rfl
    exact ⟨name, h, rfl⟩

/-- What is in a folder that is not that of the entry. -/
theorem not_inFolder_of_dir (hid : '/' ∉ id.toList) (hdir : '/' ∉ dir.toList) (hne : dir ≠ id) :
    ¬InFolder uid id (filePath uid dir name) := by
  rintro ⟨name', -, he⟩
  exact hne ((filePath_inj_of_dir hdir hid).mp he).1

theorem not_inFolder_of_uid (huid : '/' ∉ uid.toList) (huid' : '/' ∉ uid'.toList)
    (hne : uid' ≠ uid) : ¬InFolder uid id (filePath uid' dir name) := by
  rintro ⟨name', -, he⟩
  exact hne (filePath_uid huid' huid he)

/-! ## The files of entries -/

theorem imagePath_eq (uid : Uid) (id : EntryID) (i : ℕ) :
    imagePath uid id i = filePath uid id (numbered "image" i) := by
  have hstem : ("/image" : String) = "/" ++ "image" := by decide
  simp only [imagePath, filePath, numbered, hstem, String.append_assoc]

theorem tripCoverPath_eq (uid : Uid) (t : TripID) :
    tripCoverPath uid t = filePath uid "tripCovers" t := by
  have hdir : ("/tripCovers/" : String) = "/" ++ ("tripCovers" ++ "/") := by decide
  simp only [tripCoverPath, filePath, hdir, String.append_assoc]

theorem EditEntry.imagesPath_eq (l : EditEntry) (i : ℕ) :
    l.imagesPath i = filePath l.currentUser.uid l.entryID (numbered "images" i) := by
  have hstem : ("/images" : String) = "/" ++ "images" := by decide
  simp only [EditEntry.imagesPath, filePath, numbered, hstem, String.append_assoc]

/-- The name of the cover of an entry, when its id is known. -/
def coverName (id : EntryID) : String := "Optional(\"" ++ id ++ "\")"

theorem EditEntry.coverPath_eq (l : EditEntry) :
    l.coverPath = filePath l.currentUser.uid "entryCovers" (coverName l.entryID) := by
  have hdir : ("/entryCovers/Optional(\"" : String) =
      "/" ++ ("entryCovers" ++ ("/" ++ "Optional(\"")) := by decide
  simp only [EditEntry.coverPath, filePath, coverName, hdir, String.append_assoc]

theorem EntryOnMap.Opened.coverPath_eq {u : User} {b : Bucket} {l : EntryOnMap}
    (h : EntryOnMap.Opened u b l) : l.coverPath = filePath u.uid "entryCovers" "nil" := by
  have hdir : ("/entryCovers/" : String) = "/" ++ ("entryCovers" ++ "/") := by decide
  cases h <;> simp only [EntryOnMap.coverPath, EntryOnMap.goEdit, EntryOnMap.fromEditBtn, filePath,
    hdir, String.append_assoc]

theorem getLast_coverName (id : EntryID) : (coverName id).toList.getLast? = some ')' := by
  simp only [coverName, String.toList_append, List.getLast?_append]
  rfl

theorem getLast_numbered (stem : String) (i : ℕ) :
    ∃ c : Char, (numbered stem i).toList.getLast? = some c ∧ c.isDigit = true := by
  have hne : (toString i).toList ≠ [] := by
    rw [Nat.toString_eq_repr, Nat.toList_repr]
    exact Nat.toDigits_ne_nil
  obtain ⟨c, hc⟩ := Option.ne_none_iff_exists'.mp (mt List.getLast?_eq_none_iff.mp hne)
  refine ⟨c, ?_, isDigit_of_mem_toString (List.mem_of_getLast? hc)⟩
  rw [numbered, String.toList_append, List.getLast?_append, hc, Option.some_or]

/-- Different entries have different covers, when their ids are known. -/
theorem filePath_coverName_inj :
    filePath uid "entryCovers" (coverName id) = filePath uid "entryCovers" (coverName id') ↔
      id = id' := by
  simp only [filePath, coverName, String.append_right_inj, String.append_left_inj]

/-- None of these is the cover that all entries have, when their ids are not known. -/
theorem filePath_coverName_ne_nil :
    filePath uid "entryCovers" (coverName id) ≠ filePath uid "entryCovers" "nil" :=
  filePath_ne_of_getLast (getLast_coverName id) (by decide : _ = some 'l') (by decide)

/-- An image is no cover. -/
theorem filePath_numbered_ne_coverName :
    filePath uid dir (numbered stem i) ≠ filePath uid dir' (coverName id) := by
  obtain ⟨c, hc, hdigit⟩ := getLast_numbered stem i
  refine filePath_ne_of_getLast hc (getLast_coverName id) ?_
  rintro rfl
  exact absurd hdigit (by decide)

theorem filePath_numbered_ne_nil :
    filePath uid dir (numbered stem i) ≠ filePath uid dir' "nil" := by
  obtain ⟨c, hc, hdigit⟩ := getLast_numbered stem i
  refine filePath_ne_of_getLast hc (by decide : _ = some 'l') ?_
  rintro rfl
  exact absurd hdigit (by decide)

end Wanderlust
