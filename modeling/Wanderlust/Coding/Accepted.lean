import Wanderlust.Coding.Decoder

/-!
# What is decoded, and what is not

Which documents a type can be decoded from: those that store one of its values (`Ty.Stores`), which
is then what is decoded (`decode_eq_ok_iff`). Fields that the type does not know do not matter
(`decode_congr`).

If decoding throws, then the error leads to what is wrong: from the document along its path
(`located_of_decode`).
-/

namespace Wanderlust.Coding

open Throwing

/-! ## What is to be decoded -/

/-- What is made of an object: a value of a type, or a `Double`. -/
inductive Target
  | value (t : Ty)
  | double

/-- What is made of the members. -/
def Members.targets : Members → List (String × Target)
  | .nil => []
  | .required key t rest | .optional key t rest => (key, .value t) :: rest.targets
  | .documentID _ rest => rest.targets

/-- The keys that must be there. -/
def Members.requiredKeys : Members → List String
  | .nil => []
  | .required key _ rest => key :: rest.requiredKeys
  | .optional _ _ rest | .documentID _ rest => rest.requiredKeys

/-- The keys that must not be there. -/
def Members.documentIDKeys : Members → List String
  | .nil => []
  | .required _ _ rest | .optional _ _ rest => rest.documentIDKeys
  | .documentID key rest => key :: rest.documentIDKeys

/-- A value is made of a basic one, of a dictionary or of an array. -/
inductive Shape
  | basic
  | keyed
  | unkeyed

namespace Target

def name : Target → String
  | .value t => t.name
  | .double => "Double"

def shape : Target → Shape
  | .value (.scalar _) | .double => .basic
  | .value .timestamp | .value .geoPoint | .value (.struct _ _) => .keyed
  | .value (.array _) => .unkeyed

/-- What is made of the fields of a dictionary. -/
def targets : Target → List (String × Target)
  | .value .timestamp =>
    [("seconds", .value (.scalar (.int .int64))), ("nanoseconds", .value (.scalar (.int .int32)))]
  | .value .geoPoint => [("latitude", .double), ("longitude", .double)]
  | .value (.struct _ members) => members.targets
  | _ => []

def requiredKeys : Target → List String
  | .value .timestamp => ["seconds", "nanoseconds"]
  | .value .geoPoint => ["latitude", "longitude"]
  | .value (.struct _ members) => members.requiredKeys
  | _ => []

def documentIDKeys : Target → List String
  | .value (.struct _ members) => members.documentIDKeys
  | _ => []

/-- The type of the keys. -/
def keyType : Target → String
  | .value .timestamp => "TimestampKeys"
  | .value .geoPoint => "GeoPointKeys"
  | _ => "CodingKeys"

/-- The object is of a class that it can be made of. -/
def OfClass : Target → NSObject → Prop
  | .value (.scalar .bool), .bool _ => True
  | .value (.scalar (.int _)), .number _ | .double, .number _ => True
  | .value (.scalar .string), .string _ => True
  | .value .timestamp, .timestamp _ => True
  | .value .geoPoint, .geoPoint _ => True
  | .value .timestamp, y | .value .geoPoint, y | .value (.struct _ _), y => y.fields.isSome
  | .value (.array _), .array _ => True
  | _, _ => False

end Target

/-! ## Errors -/

/-- The path leads from what is made of an object to what is made of a part of it. An optional
member of which a value is made is not `null`. -/
inductive Leads : Target → NSObject → List CodingKey → Target → NSObject → Prop
  | here (T : Target) (x : NSObject) : Leads T x [] T x
  | key {T U T' : Target} {x y z : NSObject} {k : String} {path : List CodingKey}
    {fields : Dictionary String NSObject} (hT : (k, U) ∈ T.targets) (hx : x.fields = some fields)
    (hz : List.lookup k fields = some z) (hnull : k ∈ T.requiredKeys ∨ z ≠ .null)
    (h : Leads U z path T' y) : Leads T x (.key k :: path) T' y
  | index {t : Ty} {T' : Target} {xs : List NSObject} {y z : NSObject} {i : ℕ}
    {path : List CodingKey} (hz : xs[i]? = some z) (h : Leads (.value t) z path T' y) :
    Leads (.value (.array t)) (.array xs) (.index i :: path) T' y

/-- What an error says of the object `y` at this path, of which `T` is to be made, is so. -/
inductive Wrong (document : Option DocumentReference) (T : Target) (y : NSObject)
    (path : List CodingKey) : DecodingError → Prop
  | typeMismatch (hT : T.shape = .basic) (hnull : y ≠ .null) (hy : ¬ T.OfClass y) :
    Wrong document T y path (.typeMismatch path
      ("Expected to decode " ++ T.name ++ " but found " ++ y.typeDescription ++ " instead."))
  | notDictionary (hT : T.shape = .keyed) (hnull : y ≠ .null) (hy : ¬ T.OfClass y) :
    Wrong document T y path (.typeMismatch path "Not a dictionary")
  | notArray (hT : T.shape = .unkeyed) (hnull : y ≠ .null) (hy : ¬ T.OfClass y) :
    Wrong document T y path (.typeMismatch path "Not an array")
  | nullElement (hT : T.shape = .basic) (hy : y = .null) :
    Wrong document T y path (.valueNotFound path
      ("Expected " ++ T.name ++ " but found null value instead."))
  | nullMember (hT : T.shape = .basic) (hy : y = .null) :
    Wrong document T y path (.valueNotFound path
      ("Expected " ++ T.name ++ " value but found null instead."))
  | nullDictionary (hT : T.shape = .keyed) (hy : y = .null) :
    Wrong document T y path (.valueNotFound path
      "Cannot get keyed decoding container -- found null value instead.")
  | nullArray (hT : T.shape = .unkeyed) (hy : y = .null) :
    Wrong document T y path (.valueNotFound path
      "Cannot get unkeyed decoding container -- found null value instead.")
  | keyNotFound {key : String} {fields : Dictionary String NSObject} (hT : key ∈ T.requiredKeys)
    (hy : y.fields = some fields) (hkey : List.lookup key fields = none) :
    Wrong document T y path (.keyNotFound key path
      ("No value associated with key " ++ keyDescription T.keyType key ++ " (\"" ++ key ++ "\")."))
  | dataCorrupted {w : IntegerType} {n : ℤ} (hT : T = .value (.scalar (.int w)))
    (hy : y = .number n) (hn : ¬ (w.min ≤ n ∧ n ≤ w.max)) :
    Wrong document T y path (.dataCorrupted path
      ("Decoded number <" ++ toString n ++ "> does not fit in " ++ T.name ++ "."))
  | fieldNameConflict {key : String} {fields : Dictionary String NSObject}
    (hT : key ∈ T.documentIDKeys) (hy : y.fields = some fields)
    (hkey : (List.lookup key fields).isSome) : Wrong document T y path
      (fieldNameConflict document (path.map CodingKey.stringValue ++ [key]))

/-- The error is right about a part of `x`, of which `T` is made and which is at `path`. -/
def Located (document : Option DocumentReference) (T : Target) (x : NSObject)
    (path : List CodingKey) (error : DecodingError) : Prop :=
  ∃ (rest : List CodingKey) (T' : Target) (y : NSObject), Leads T x rest T' y ∧
    Wrong document T' y (path ++ rest) error

section

variable {document : Option DocumentReference} {T U : Target} {x z : NSObject}
  {path : List CodingKey} {error : DecodingError}

theorem Wrong.located (h : Wrong document T x path error) : Located document T x path error :=
  ⟨[], T, x, .here T x, by simpa using h⟩

/-- An error that is right about what is one step further. -/
theorem Located.further {key : CodingKey} (h : Located document U z (path ++ [key]) error)
    (hstep : ∀ {rest T' y}, Leads U z rest T' y → Leads T x (key :: rest) T' y) :
    Located document T x path error := by
  obtain ⟨rest, T', y, hleads, hwrong⟩ := h
  refine ⟨key :: rest, T', y, hstep hleads, ?_⟩
  simpa using hwrong

/-- All errors of `f` are right about `x`, of which `T` is made. -/
def Locates {α : Type} (document : Option DocumentReference) (T : Target) (x : NSObject)
    (f : AtPath α) : Prop :=
  ∀ path error, f path = .error (.throws error) → Located document T x path error

variable {α β : Type} {f : AtPath α}

theorem locates_ok (a : α) : Locates document T x fun _ => .ok a := by
  rintro _ _ ⟨⟩

theorem locates_trap :
    Locates document T x fun _ => (.error .trap : Plain DecodingError α) := by
  rintro _ _ ⟨⟩

theorem Locates.bind {g : α → AtPath β} (h : Locates document T x f)
    (hg : ∀ path a, f path = .ok a → Locates document T x (g a)) :
    Locates document T x fun path => f path >>= fun a => g a path := by
  intro path error herror
  rcases Plain.of_bind_eq_error herror with hf | ⟨a, hf, hga⟩
  · exact h path error hf
  · exact hg path a hf path error hga

end

/-! ## Basic types -/

/-- What is stored for a value of a basic type. -/
def Scalar.object : (s : Scalar) → s.El → NSObject
  | .bool, b => .bool b
  | .int _, n => .number n.1
  | .string, x => .string x

/-- What `unbox` does: nothing is there, or a value of the type, or an integer that it does not
have, or something of another class. -/
inductive Scalar.Unboxes (s : Scalar) (x : NSObject) : AtPath (Option s.El) → Prop
  | null (h : x = .null) : Unboxes s x fun _ => .ok none
  | value (v : s.El) (h : x = s.object v) : Unboxes s x fun _ => .ok (some v)
  | unfit (n : ℤ) (w : IntegerType) (hs : s = .int w) (h : x = .number n) (hn : w.value n ≠ n)
    (hx : ∀ v, x ≠ s.object v) : Unboxes s x fun path => .error (.throws (.dataCorrupted path
      ("Decoded number <" ++ toString n ++ "> does not fit in " ++ w.name ++ ".")))
  | mismatch (h : x ≠ .null) (hclass : ¬ (Target.value (.scalar s)).OfClass x)
    (hx : ∀ v, x ≠ s.object v) : Unboxes s x (typeMismatch s.name x)

theorem Scalar.unboxes (s : Scalar) (x : NSObject) : s.Unboxes x (s.unbox x) := by
  cases s with
  | bool =>
    cases x with
    | null => exact .null rfl
    | bool b => exact .value (s := .bool) b rfl
    | _ => exact .mismatch nofun id nofun
  | int w =>
    cases x with
    | null => exact .null rfl
    | number n =>
      by_cases h : w.value n = n
      · have hunbox : (Scalar.int w).unbox (.number n) = fun _ => .ok (some ⟨n, h⟩) := by
          funext path
          simp [Scalar.unbox, h]
        rw [hunbox]
        exact .value (s := .int w) ⟨n, h⟩ rfl
      · have hunbox : (Scalar.int w).unbox (.number n) = fun path =>
            .error (.throws (.dataCorrupted path
              ("Decoded number <" ++ toString n ++ "> does not fit in " ++ w.name ++ "."))) := by
          funext path
          simp [Scalar.unbox, h]
        rw [hunbox]
        refine .unfit n w rfl rfl h fun v hv => ?_
        cases hv
        exact h v.2
    | _ => exact .mismatch nofun id nofun
  | string =>
    cases x with
    | null => exact .null rfl
    | string y => exact .value (s := .string) y rfl
    | _ => exact .mismatch nofun id nofun

/-! ## Errors are located -/

section

variable {document : Option DocumentReference} {T U : Target} {x : NSObject} {α : Type}

theorem locates_unbox (s : Scalar) (x : NSObject) :
    Locates document (.value (.scalar s)) x (s.unbox x) := by
  have h := s.unboxes x
  generalize s.unbox x = f at h
  cases h with
  | null => exact locates_ok _
  | value => exact locates_ok _
  | unfit n w hs h hn =>
    subst hs
    rintro path _ ⟨⟩
    exact Wrong.located (.dataCorrupted rfl h fun hfits => hn ((w.value_eq_iff n).mpr hfits))
  | mismatch h hclass =>
    rintro path _ ⟨⟩
    exact Wrong.located (.typeMismatch (T := .value (.scalar s)) rfl h hclass)

theorem fields_of_keyedFields {path : List CodingKey} {container : Dictionary String NSObject}
    (h : keyedFields x path = .ok container) : x.fields = some container := by
  cases x <;> cases h <;> rfl

theorem eq_of_unkeyedElements {path : List CodingKey} {xs : List NSObject}
    (h : unkeyedElements x path = .ok xs) : x = .array xs := by
  cases x <;> cases h
  rfl

theorem locates_expectNonNull (s : Scalar) :
    Locates document (.value (.scalar s)) x (expectNonNull s.name x) := by
  intro path error h
  cases x <;> cases h
  exact Wrong.located (.nullElement (T := .value (.scalar s)) rfl rfl)

/-- What has no fields and is not passed through is of another class. -/
theorem not_ofClass_of_fields {t : Ty} (ht : (Target.value t).shape = .keyed)
    (hx : x.fields = none) (hnative : t.native x = none) : ¬ (Target.value t).OfClass x := by
  cases t <;> cases ht <;> cases x <;> cases hx <;> cases hnative <;> nofun

theorem locates_keyedFields {t : Ty} (ht : (Target.value t).shape = .keyed)
    (hnative : t.native x = none) : Locates document (.value t) x (keyedFields x) := by
  intro path error h
  cases x <;> cases h
  case null => exact Wrong.located (.nullDictionary ht rfl)
  all_goals exact Wrong.located (.notDictionary ht nofun (not_ofClass_of_fields ht rfl hnative))

theorem locates_unkeyedElements {t : Ty} :
    Locates document (.value (.array t)) x (unkeyedElements x) := by
  intro path error h
  cases x <;> cases h
  case null => exact Wrong.located (.nullArray rfl rfl)
  all_goals exact Wrong.located (.notArray rfl nofun id)

/-- The errors of `unbox`, and what it means if there is no value. -/
def Unboxed (document : Option DocumentReference) (U : Target)
    (unbox : NSObject → AtPath (Option α)) : Prop :=
  ∀ y, Locates document U y (unbox y) ∧ ∀ path, unbox y path = .ok none →
    y = .null ∧ U.shape = .basic

/-- A value for a key of `x`, which has the fields of `container`. -/
theorem locates_readKey {key : String} {unbox : NSObject → AtPath (Option α)}
    {container : Dictionary String NSObject} (hx : x.fields = some container)
    (hT : (key, U) ∈ T.targets) (hunbox : Unboxed document U unbox)
    (hkey : key ∈ T.requiredKeys ∨ ∃ y, List.lookup key container = some y ∧ y ≠ .null) :
    Locates document T x (readKey T.keyType U.name unbox key container) := by
  intro path error h
  rcases Plain.of_bind_eq_error h with hrequire | ⟨y, hy, h⟩
  · unfold requireKey at hrequire
    split at hrequire <;> cases hrequire
    rename_i hlookup
    have hkey : key ∈ T.requiredKeys := hkey.resolve_right fun ⟨y, hy, _⟩ => by
      rw [hlookup] at hy
      cases hy
    exact Wrong.located (.keyNotFound hkey hx hlookup)
  · have hy : List.lookup key container = some y := by
      unfold requireKey at hy
      split at hy <;> cases hy
      assumption
    have hnull : key ∈ T.requiredKeys ∨ y ≠ .null := hkey.imp_right fun ⟨z, hz, hne⟩ => by
      rw [hy] at hz
      cases hz
      exact hne
    rcases Plain.of_bind_eq_error h with hread | ⟨o, ho, h⟩
    · exact ((hunbox y).1 _ _ hread).further fun h => .key hT hx hy hnull h
    · cases o with
      | some v => cases h
      | none =>
        cases h
        obtain ⟨hnone, hbasic⟩ := (hunbox y).2 _ ho
        exact Located.further (Wrong.located (.nullMember hbasic hnone)) fun h =>
          .key hT hx hy hnull h

theorem locates_readKeyIfPresent {key : String} {unbox : NSObject → AtPath (Option α)}
    {container : Dictionary String NSObject} (hx : x.fields = some container)
    (hT : (key, U) ∈ T.targets) (hunbox : Unboxed document U unbox) :
    Locates document T x (readKeyIfPresent T.keyType U.name unbox key container) := by
  intro path error h
  unfold readKeyIfPresent at h
  split at h
  · cases h
  · cases h
  · rename_i y hne hlookup
    rcases Plain.of_bind_eq_error h with h | ⟨v, -, h⟩
    · exact locates_readKey hx hT hunbox (.inr ⟨y, hlookup, hne⟩) path error h
    · cases h

theorem unboxed_unbox (s : Scalar) : Unboxed document (.value (.scalar s)) s.unbox := by
  refine fun x => ⟨locates_unbox s x, ?_⟩
  have h := s.unboxes x
  generalize s.unbox x = f at h
  cases h with
  | null h => exact fun _ _ => ⟨h, rfl⟩
  | value | unfit | mismatch => rintro _ ⟨⟩

theorem locates_readInteger {w : IntegerType} {key : String}
    {container : Dictionary String NSObject} (hx : x.fields = some container)
    (hT : (key, .value (.scalar (.int w))) ∈ T.targets) (hkey : key ∈ T.requiredKeys) :
    Locates document T x (readInteger T.keyType w key container) :=
  (locates_readKey hx hT (unboxed_unbox (.int w)) (.inl hkey)).bind fun _ _ _ => locates_ok _

theorem locates_readDouble {key : String} {container : Dictionary String NSObject}
    (hx : x.fields = some container) (hT : (key, .double) ∈ T.targets)
    (hkey : key ∈ T.requiredKeys) :
    Locates document T x (readDouble T.keyType key container) := by
  refine locates_readKey hx hT (fun y => ⟨?_, ?_⟩) (.inl hkey)
  · intro path error h
    cases y with
    | null | number => cases h
    | _ =>
      cases h
      exact Wrong.located (.typeMismatch (T := .double) rfl nofun id)
  · intro path h
    cases y with
    | null => exact ⟨rfl, rfl⟩
    | _ => cases h

theorem locates_wrapDocumentID {key : String} {container : Dictionary String NSObject}
    (hx : x.fields = some container) (hT : key ∈ T.documentIDKeys) :
    Locates document T x (wrapDocumentID document key container) := by
  intro path error h
  unfold wrapDocumentID at h
  split at h <;> cases h
  rename_i hkey
  exact Wrong.located (.fieldNameConflict hT hx hkey)

theorem locates_orRead {native : Option α} {f : AtPath α}
    (h : native = none → Locates document T x f) : Locates document T x (orRead native f) := by
  cases native with
  | some v => exact locates_ok v
  | none => exact h rfl

/-- The elements of an array, of which `ys` are the first `i`. -/
theorem locates_readElements {t : Ty} {read : NSObject → AtPath α}
    (h : ∀ y, Locates document (.value t) y (read y)) : ∀ (zs ys : List NSObject),
      Locates document (.value (.array t)) (.array (ys ++ zs)) (readElements read zs ys.length)
  | [], _ => locates_ok []
  | z :: zs, ys => by
    have hz : (ys ++ z :: zs)[ys.length]? = some z := by simp
    have hfirst : Locates document (.value (.array t)) (.array (ys ++ z :: zs))
        fun path => read z (path ++ [.index ys.length]) := fun _ _ herror =>
      (h z _ _ herror).further fun h => .index hz h
    have hrest := locates_readElements h zs (ys ++ [z])
    rw [List.append_assoc, List.length_append] at hrest
    exact hfirst.bind fun _ _ _ => hrest.bind fun _ _ _ => locates_ok _

theorem unboxed_readMember {t : Ty} {read : NSObject → AtPath t.El}
    (h : ∀ y, t.native y = none → Locates document (.value t) y (read y)) :
    Unboxed document (.value t) (t.readMember read) := by
  intro y
  have hread : Locates document (.value t) y (fun path =>
      orRead (t.native y) (read y) path >>= fun v => .ok (some v)) ∧ ∀ path,
        (orRead (t.native y) (read y) path >>= fun v => .ok (some v)) = .ok none →
          y = .null ∧ (Target.value t).shape = .basic := by
    refine ⟨(locates_orRead (h y)).bind fun _ _ _ => locates_ok _, fun path hnone => ?_⟩
    obtain ⟨v, -, hv⟩ := Plain.bind_eq_ok.mp hnone
    cases hv
  cases t with
  | scalar s => exact unboxed_unbox s y
  | timestamp | geoPoint | array | struct => exact hread

end

/-- These are members of what is made. -/
structure Members.PartOf (members : Members) (T : Target) : Prop where
  keyType : T.keyType = "CodingKeys"
  targets : members.targets ⊆ T.targets
  requiredKeys : members.requiredKeys ⊆ T.requiredKeys
  documentIDKeys : members.documentIDKeys ⊆ T.documentIDKeys

mutual

theorem locates_read (document : Option DocumentReference) : ∀ (t : Ty) (x : NSObject),
    t.native x = none → Locates document (.value t) x (t.read document x)
  | .scalar s, x, _ => (locates_expectNonNull s).bind fun _ _ _ =>
    (locates_unbox s x).bind fun _ o _ => by
      cases o with
      | some v => exact locates_ok v
      | none => exact locates_trap
  | .timestamp, _, hnative => (locates_keyedFields rfl hnative).bind fun _ container h => by
    have hx := fields_of_keyedFields h
    refine (locates_readInteger hx (by simp [Target.targets]) (by simp [Target.requiredKeys])).bind
      fun _ seconds _ => (locates_readInteger hx (by simp [Target.targets])
        (by simp [Target.requiredKeys])).bind fun _ nanoseconds _ => ?_
    rintro path error h
    unfold Timestamp.make at h
    split at h <;> cases h
  | .geoPoint, _, hnative => (locates_keyedFields rfl hnative).bind fun _ container h => by
    have hx := fields_of_keyedFields h
    refine (locates_readDouble hx (by simp [Target.targets]) (by simp [Target.requiredKeys])).bind
      fun _ latitude _ => (locates_readDouble hx (by simp [Target.targets])
        (by simp [Target.requiredKeys])).bind fun _ longitude _ => ?_
    rintro path error h
    unfold makeGeoPoint at h
    split at h <;> cases h
  | .array t, x, _ => locates_unkeyedElements.bind fun _ container h => by
    obtain rfl := eq_of_unkeyedElements h
    exact locates_readElements (fun y => locates_orRead (locates_read document t y)) container []
  | .struct _ members, x, hnative => (locates_keyedFields rfl hnative).bind fun _ container h =>
    locates_readMembers document members _ x container (fields_of_keyedFields h)
      ⟨rfl, List.Subset.refl _, List.Subset.refl _, List.Subset.refl _⟩

theorem locates_readMembers (document : Option DocumentReference) :
    ∀ (members : Members) (T : Target) (x : NSObject) (container : Dictionary String NSObject),
      x.fields = some container → members.PartOf T →
        Locates document T x (members.read document container)
  | .nil, _, _, _, _, _ => locates_ok ()
  | .required key t rest, T, x, container, hx, h => by
    obtain ⟨hkey, hrequired⟩ := List.cons_subset.mp h.requiredKeys
    obtain ⟨hT, htargets⟩ := List.cons_subset.mp h.targets
    have hfirst := locates_readKey hx hT
      (unboxed_readMember (locates_read document t)) (.inl hkey)
    rw [h.keyType] at hfirst
    exact hfirst.bind fun _ _ _ => (locates_readMembers document rest T x container hx
      ⟨h.keyType, htargets, hrequired, h.documentIDKeys⟩).bind fun _ _ _ => locates_ok _
  | .optional key t rest, T, x, container, hx, h => by
    obtain ⟨hT, htargets⟩ := List.cons_subset.mp h.targets
    have hfirst := locates_readKeyIfPresent hx hT
      (unboxed_readMember (locates_read document t))
    rw [h.keyType] at hfirst
    exact hfirst.bind fun _ _ _ => (locates_readMembers document rest T x container hx
      ⟨h.keyType, htargets, h.requiredKeys, h.documentIDKeys⟩).bind fun _ _ _ => locates_ok _
  | .documentID _ rest, T, x, container, hx, h => by
    obtain ⟨hT, hdocumentID⟩ := List.cons_subset.mp h.documentIDKeys
    exact (locates_wrapDocumentID hx hT).bind fun _ _ _ =>
      (locates_readMembers document rest T x container hx
        ⟨h.keyType, h.targets, h.requiredKeys, hdocumentID⟩).bind fun _ _ _ => locates_ok _

end

/-! ## The documents that are decoded -/

mutual

/-- The value is stored in `x`, which is in this document. -/
def Ty.Stores (document : Option DocumentReference) : (t : Ty) → t.El → NSObject → Prop
  | .scalar s, v, x => x = s.object v
  | .timestamp, t, x => x = .timestamp t ∨ ∃ container, x.fields = some container ∧
      List.lookup "seconds" container = some (.number t.seconds) ∧
      List.lookup "nanoseconds" container = some (.number t.nanoseconds)
  | .geoPoint, g, x => x = .geoPoint g ∨ ∃ container, ∃ latitude longitude : ℤ,
      x.fields = some container ∧
      List.lookup "latitude" container = some (.number latitude) ∧
      List.lookup "longitude" container = some (.number longitude) ∧
      makeGeoPoint latitude longitude = .ok g
  | .array t, vs, x => ∃ xs, x = .array xs ∧ List.Forall₂ (fun v y => t.Stores document v y) vs xs
  | .struct _ members, v, x => ∃ container, x.fields = some container ∧
      members.Stores document v container

def Members.Stores (document : Option DocumentReference) :
    (members : Members) → members.El → Dictionary String NSObject → Prop
  | .nil, _, _ => True
  | .required key t rest, v, container =>
    (∃ y, List.lookup key container = some y ∧ t.Stores document v.1 y) ∧
      rest.Stores document v.2 container
  | .optional key t rest, v, container =>
    (match v.1 with
      | none => List.lookup key container = none ∨ List.lookup key container = some .null
      | some w => ∃ y, List.lookup key container = some y ∧ y ≠ .null ∧ t.Stores document w y) ∧
      rest.Stores document v.2 container
  | .documentID key rest, v, container =>
    (List.lookup key container = none ∧ v.1 = document.map DocumentReference.documentID) ∧
      rest.Stores document v.2 container

end

section

variable {x : NSObject} {α : Type} {path : List CodingKey}
  {container : Dictionary String NSObject}

theorem Scalar.object_ne_null (s : Scalar) (v : s.El) : s.object v ≠ .null := by
  cases s <;> exact nofun

theorem Scalar.object_injective (s : Scalar) : Function.Injective s.object := by
  intro v w h
  match s, v, w, h with
  | .bool, _, _, rfl => rfl
  | .int _, v, w, h => exact Subtype.ext (NSObject.number.inj h)
  | .string, _, _, rfl => rfl

theorem unbox_eq_ok_iff (s : Scalar) (x : NSObject) (path : List CodingKey) (v : s.El) :
    s.unbox x path = .ok (some v) ↔ x = s.object v := by
  have h := s.unboxes x
  generalize s.unbox x = f at h
  cases h with
  | null h =>
    subst h
    exact ⟨nofun, fun h => absurd h.symm (s.object_ne_null v)⟩
  | value w h =>
    subst h
    constructor
    · rintro ⟨⟩
      rfl
    · intro h
      rw [s.object_injective h]
  | unfit n w hs h hn hx => exact ⟨nofun, fun h => absurd h (hx v)⟩
  | mismatch h hclass hx => exact ⟨nofun, fun h => absurd h (hx v)⟩

theorem requireKey_eq_ok_iff {K key : String} {y : NSObject} :
    requireKey K key container path = .ok y ↔ List.lookup key container = some y := by
  unfold requireKey
  split
  · rename_i entry h
    rw [h]
    constructor
    · rintro ⟨⟩
      rfl
    · rintro ⟨⟩
      rfl
  · rename_i h
    rw [h]
    exact ⟨nofun, nofun⟩

theorem readKey_eq_ok_iff {K T key : String} {unbox : NSObject → AtPath (Option α)} {v : α} :
    readKey K T unbox key container path = .ok v ↔ ∃ y, List.lookup key container = some y ∧
      unbox y (path ++ [.key key]) = .ok (some v) := by
  unfold readKey
  rw [Plain.bind_eq_ok]
  refine exists_congr fun y => and_congr requireKey_eq_ok_iff ?_
  rw [Plain.bind_eq_ok]
  constructor
  · rintro ⟨o, ho, h⟩
    cases o with
    | none => cases h
    | some w => cases h; exact ho
  · exact fun h => ⟨some v, h, rfl⟩

/-- An optional value is not there, or is `null`, or is that of a member. -/
theorem readKeyIfPresent_eq_ok_iff {K T key : String} {unbox : NSObject → AtPath (Option α)}
    {v : Option α} : readKeyIfPresent K T unbox key container path = .ok v ↔
      match v with
      | none => List.lookup key container = none ∨ List.lookup key container = some .null
      | some w => ∃ y, List.lookup key container = some y ∧ y ≠ .null ∧
        unbox y (path ++ [.key key]) = .ok (some w) := by
  have hread : (do return some (← readKey K T unbox key container path) :
      Plain DecodingError (Option α)) = .ok v ↔ ∃ w, v = some w ∧
        ∃ y, List.lookup key container = some y ∧ unbox y (path ++ [.key key]) = .ok (some w) := by
    rw [Plain.bind_eq_ok]
    constructor
    · rintro ⟨w, hw, hv⟩
      cases hv
      exact ⟨w, rfl, readKey_eq_ok_iff.mp hw⟩
    · rintro ⟨w, rfl, hw⟩
      exact ⟨w, readKey_eq_ok_iff.mpr hw, rfl⟩
  unfold readKeyIfPresent
  split
  · rename_i h
    rw [h]
    cases v with
    | none => simp
    | some w => simp
  · rename_i h
    rw [h]
    cases v with
    | none => simp
    | some w => simp
  · rename_i y hy h
    rw [h] at hread ⊢
    rw [hread]
    cases v with
    | none => simpa using hy
    | some w => simpa using fun _ => hy

theorem wrapDocumentID_eq_ok_iff {document : Option DocumentReference} {key : String}
    {v : Option String} : wrapDocumentID document key container path = .ok v ↔
      List.lookup key container = none ∧ v = document.map DocumentReference.documentID := by
  unfold wrapDocumentID
  split
  · rename_i h
    refine ⟨nofun, fun h' => ?_⟩
    rw [h'.1] at h
    cases h
  · rename_i h
    have h : List.lookup key container = none := Option.not_isSome_iff_eq_none.mp h
    constructor
    · rintro ⟨⟩
      exact ⟨h, rfl⟩
    · rintro ⟨-, rfl⟩
      rfl

theorem keyedFields_eq_ok_iff : keyedFields x path = .ok container ↔ x.fields = some container := by
  refine ⟨fields_of_keyedFields, fun h => ?_⟩
  cases x <;> cases h <;> rfl

theorem unkeyedElements_eq_ok_iff {xs : List NSObject} :
    unkeyedElements x path = .ok xs ↔ x = .array xs := by
  refine ⟨eq_of_unkeyedElements, ?_⟩
  rintro rfl
  rfl

theorem readElements_eq_ok_iff {read : NSObject → AtPath α} {R : α → NSObject → Prop}
    (h : ∀ y path v, read y path = .ok v ↔ R v y) :
    ∀ (xs : List NSObject) (i : ℕ) (vs : List α),
      readElements read xs i path = .ok vs ↔ List.Forall₂ R vs xs
  | [], _, vs => by
    rw [List.forall₂_nil_right_iff]
    constructor
    · rintro ⟨⟩
      rfl
    · rintro rfl
      rfl
  | x :: xs, i, vs => by
    rw [readElements, Plain.bind_eq_ok, List.forall₂_cons_right_iff]
    refine exists_congr fun v => ?_
    rw [Plain.bind_eq_ok, h x]
    constructor
    · rintro ⟨hv, ws, hws, hvs⟩
      cases hvs
      exact ⟨ws, hv, (readElements_eq_ok_iff h xs (i + 1) ws).mp hws, rfl⟩
    · rintro ⟨ws, hv, hws, rfl⟩
      exact ⟨hv, ws, (readElements_eq_ok_iff h xs (i + 1) ws).mpr hws, rfl⟩

theorem readInteger_eq_ok_iff {K : String} {w : IntegerType} {key : String} {n : ℤ} :
    readInteger K w key container path = .ok n ↔
      List.lookup key container = some (.number n) ∧ w.value n = n := by
  unfold readInteger
  rw [Plain.bind_eq_ok]
  constructor
  · rintro ⟨v, hv, h⟩
    cases h
    obtain ⟨y, hy, hread⟩ := readKey_eq_ok_iff.mp hv
    obtain rfl := (unbox_eq_ok_iff _ _ _ _).mp hread
    exact ⟨hy, v.2⟩
  · rintro ⟨hn, hw⟩
    exact ⟨⟨n, hw⟩, readKey_eq_ok_iff.mpr ⟨_, hn, (unbox_eq_ok_iff _ _ _ _).mpr rfl⟩, rfl⟩

theorem readDouble_eq_ok_iff {K key : String} {q : ℚ} : readDouble K key container path = .ok q ↔
    ∃ n : ℤ, List.lookup key container = some (.number n) ∧ q = n := by
  unfold readDouble
  rw [readKey_eq_ok_iff]
  constructor
  · rintro ⟨y, hy, h⟩
    cases y with
    | number n =>
      cases h
      exact ⟨n, hy, rfl⟩
    | _ => cases h
  · rintro ⟨n, hn, rfl⟩
    exact ⟨_, hn, rfl⟩

theorem make_eq_ok_iff {seconds nanoseconds : ℤ} {t : Timestamp} :
    Timestamp.make seconds nanoseconds = .ok t ↔
      t.seconds = seconds ∧ t.nanoseconds = nanoseconds := by
  unfold Timestamp.make
  split
  · constructor
    · rintro ⟨⟩
      exact ⟨rfl, rfl⟩
    · rintro ⟨rfl, rfl⟩
      rfl
  · rename_i h
    refine ⟨nofun, ?_⟩
    rintro ⟨rfl, rfl⟩
    exact absurd t.valid h

/-- What can be made into a timestamp fits. -/
theorem Timestamp.fits (t : Timestamp) : IntegerType.value .int64 t.seconds = t.seconds ∧
    IntegerType.value .int32 t.nanoseconds = t.nanoseconds := by
  have h := t.valid
  simp only [IntegerType.value_eq_iff, IntegerType.min, IntegerType.max, IntegerType.signed,
    IntegerType.bits, if_true]
  omega

theorem orRead_eq_ok_iff {native : Option α} {f : AtPath α} {v : α} :
    orRead native f path = .ok v ↔ native = some v ∨ native = none ∧ f path = .ok v := by
  cases native with
  | none => simp [orRead]
  | some w => simp [orRead]

/-- The value of a member is made as any value of its type. -/
theorem readMember_eq_ok_iff {document : Option DocumentReference} {t : Ty} {v : t.El}
    (h : ∀ x path v, orRead (t.native x) (t.read document x) path = .ok v ↔ t.Stores document v x)
    (x : NSObject) (path : List CodingKey) :
    t.readMember (t.read document) x path = .ok (some v) ↔ t.Stores document v x := by
  have hread : (orRead (t.native x) (t.read document x) path >>= fun v => .ok (some v)) =
      .ok (some v) ↔ t.Stores document v x := by
    rw [Plain.bind_eq_ok, ← h x path v]
    constructor
    · rintro ⟨w, hw, ⟨⟩⟩
      exact hw
    · exact fun hv => ⟨v, hv, rfl⟩
  cases t with
  | scalar s => exact unbox_eq_ok_iff s x path v
  | timestamp | geoPoint | array | struct => exact hread

theorem read_scalar_eq_ok_iff (s : Scalar) (x : NSObject) (path : List CodingKey) (v : s.El) :
    s.read x path = .ok v ↔ x = s.object v := by
  unfold Scalar.read
  rw [Plain.bind_eq_ok, ← unbox_eq_ok_iff s x path v]
  constructor
  · rintro ⟨-, -, h⟩
    obtain ⟨o, ho, h⟩ := Plain.bind_eq_ok.mp h
    cases o with
    | none => cases h
    | some w => cases h; exact ho
  · intro h
    have hx : x ≠ .null := (unbox_eq_ok_iff s x path v).mp h ▸ s.object_ne_null v
    refine ⟨(), ?_, Plain.bind_eq_ok.mpr ⟨some v, h, rfl⟩⟩
    cases x with
    | null => exact absurd rfl hx
    | _ => rfl

/-- No dictionary is passed through. -/
theorem native_eq_none_of_fields {t : Ty} (h : x.fields = some container) : t.native x = none := by
  cases x <;> cases h <;> cases t <;> rfl

theorem native_timestamp_iff (x : NSObject) (t : Timestamp) :
    Ty.timestamp.native x = some t ↔ x = .timestamp t := by
  cases x with
  | timestamp t' =>
    constructor <;>
    · rintro ⟨⟩
      rfl
  | _ => exact ⟨nofun, nofun⟩

theorem native_geoPoint_iff (x : NSObject) (g : GeoPoint) :
    Ty.geoPoint.native x = some g ↔ x = .geoPoint g := by
  cases x with
  | geoPoint g' =>
    constructor <;>
    · rintro ⟨⟩
      rfl
  | _ => exact ⟨nofun, nofun⟩

theorem read_timestamp_eq_ok_iff (document : Option DocumentReference) (x : NSObject)
    (path : List CodingKey) (t : Timestamp) : Ty.timestamp.read document x path = .ok t ↔
      ∃ container, x.fields = some container ∧
        List.lookup "seconds" container = some (.number t.seconds) ∧
        List.lookup "nanoseconds" container = some (.number t.nanoseconds) := by
  refine Plain.bind_eq_ok.trans (exists_congr fun container =>
    and_congr keyedFields_eq_ok_iff ?_)
  constructor
  · intro h
    obtain ⟨seconds, hs, h⟩ := Plain.bind_eq_ok.mp h
    obtain ⟨nanoseconds, hn, h⟩ := Plain.bind_eq_ok.mp h
    obtain ⟨rfl, rfl⟩ := make_eq_ok_iff.mp h
    exact ⟨(readInteger_eq_ok_iff.mp hs).1, (readInteger_eq_ok_iff.mp hn).1⟩
  · rintro ⟨hs, hn⟩
    refine Plain.bind_eq_ok.mpr ⟨_, readInteger_eq_ok_iff.mpr ⟨hs, t.fits.1⟩, ?_⟩
    refine Plain.bind_eq_ok.mpr ⟨_, readInteger_eq_ok_iff.mpr ⟨hn, t.fits.2⟩, ?_⟩
    exact make_eq_ok_iff.mpr ⟨rfl, rfl⟩

theorem read_geoPoint_eq_ok_iff (document : Option DocumentReference) (x : NSObject)
    (path : List CodingKey) (g : GeoPoint) : Ty.geoPoint.read document x path = .ok g ↔
      ∃ container, ∃ latitude longitude : ℤ, x.fields = some container ∧
        List.lookup "latitude" container = some (.number latitude) ∧
        List.lookup "longitude" container = some (.number longitude) ∧
        makeGeoPoint latitude longitude = .ok g := by
  refine Plain.bind_eq_ok.trans (exists_congr fun container => ?_)
  rw [keyedFields_eq_ok_iff]
  constructor
  · rintro ⟨hx, h⟩
    obtain ⟨_, hlat, h⟩ := Plain.bind_eq_ok.mp h
    obtain ⟨_, hlong, h⟩ := Plain.bind_eq_ok.mp h
    obtain ⟨latitude, hlat', rfl⟩ := readDouble_eq_ok_iff.mp hlat
    obtain ⟨longitude, hlong', rfl⟩ := readDouble_eq_ok_iff.mp hlong
    exact ⟨latitude, longitude, hx, hlat', hlong', h⟩
  · rintro ⟨latitude, longitude, hx, hlat, hlong, h⟩
    refine ⟨hx, Plain.bind_eq_ok.mpr ⟨_, readDouble_eq_ok_iff.mpr ⟨_, hlat, rfl⟩, ?_⟩⟩
    exact Plain.bind_eq_ok.mpr ⟨_, readDouble_eq_ok_iff.mpr ⟨_, hlong, rfl⟩, h⟩

/-- A member, and the others. -/
theorem pair_eq_ok_iff {β : Type} {f : Plain DecodingError α} {g : Plain DecodingError β}
    {v : α} {w : β} {P Q : Prop} (hf : f = .ok v ↔ P) (hg : g = .ok w ↔ Q) :
    (do let v ← f; return (v, ← g) : Plain DecodingError (α × β)) = .ok (v, w) ↔ P ∧ Q := by
  rw [← hf, ← hg]
  constructor
  · intro h
    obtain ⟨v', hv, h⟩ := Plain.bind_eq_ok.mp h
    obtain ⟨w', hw, h⟩ := Plain.bind_eq_ok.mp h
    cases h
    exact ⟨hv, hw⟩
  · rintro ⟨hv, hw⟩
    exact Plain.bind_eq_ok.mpr ⟨v, hv, Plain.bind_eq_ok.mpr ⟨w, hw, rfl⟩⟩

end

mutual

theorem read_eq_ok_iff (document : Option DocumentReference) :
    ∀ (t : Ty) (x : NSObject) (path : List CodingKey) (v : t.El),
      orRead (t.native x) (t.read document x) path = .ok v ↔ t.Stores document v x
  | .scalar s, x, path, v => read_scalar_eq_ok_iff s x path v
  | .timestamp, x, path, t => by
    have hread := read_timestamp_eq_ok_iff document x path t
    refine orRead_eq_ok_iff.trans (or_congr (native_timestamp_iff x t)
      ⟨fun h => hread.mp h.2, fun h => ⟨?_, hread.mpr h⟩⟩)
    obtain ⟨_, hx, -⟩ := h
    exact native_eq_none_of_fields hx
  | .geoPoint, x, path, g => by
    have hread := read_geoPoint_eq_ok_iff document x path g
    refine orRead_eq_ok_iff.trans (or_congr (native_geoPoint_iff x g)
      ⟨fun h => hread.mp h.2, fun h => ⟨?_, hread.mpr h⟩⟩)
    obtain ⟨_, _, _, hx, -⟩ := h
    exact native_eq_none_of_fields hx
  | .array t, x, path, vs => by
    have harray : orRead (Ty.native (.array t) x) (Ty.read document (.array t) x) path =
        Ty.read document (.array t) x path := by cases x <;> rfl
    rw [harray]
    exact Plain.bind_eq_ok.trans (exists_congr fun xs => and_congr unkeyedElements_eq_ok_iff <|
      readElements_eq_ok_iff (fun y path v => read_eq_ok_iff document t y path v) xs 0 vs)
  | .struct T members, x, path, v => by
    have hstruct : orRead (Ty.native (.struct T members) x) (Ty.read document (.struct T members) x)
        path = Ty.read document (.struct T members) x path := by cases x <;> rfl
    rw [hstruct]
    exact Plain.bind_eq_ok.trans (exists_congr fun container =>
      and_congr keyedFields_eq_ok_iff (readMembers_eq_ok_iff document members container path v))

theorem readMembers_eq_ok_iff (document : Option DocumentReference) :
    ∀ (members : Members) (container : Dictionary String NSObject) (path : List CodingKey)
      (v : members.El), members.read document container path = .ok v ↔
        members.Stores document v container
  | .nil, _, _, _ => ⟨fun _ => trivial, fun _ => rfl⟩
  | .required key t rest, container, path, (v, vs) =>
    pair_eq_ok_iff
      (readKey_eq_ok_iff.trans (exists_congr fun y => and_congr_right fun _ =>
        readMember_eq_ok_iff (fun x path v => read_eq_ok_iff document t x path v) y _))
      (readMembers_eq_ok_iff document rest container path vs)
  | .optional key t rest, container, path, (v, vs) => by
    refine pair_eq_ok_iff ?_ (readMembers_eq_ok_iff document rest container path vs)
    rw [readKeyIfPresent_eq_ok_iff]
    cases v with
    | none => rfl
    | some w =>
      exact exists_congr fun y => and_congr_right fun _ => and_congr_right fun _ =>
        readMember_eq_ok_iff (fun x path v => read_eq_ok_iff document t x path v) y _
  | .documentID key rest, container, path, (v, vs) =>
    pair_eq_ok_iff wrapDocumentID_eq_ok_iff (readMembers_eq_ok_iff document rest container path vs)

end

/-- A document is decoded to the value that it stores. -/
theorem decode_eq_ok_iff (T : String) (members : Members) (container : Dictionary String NSObject)
    (document : Option DocumentReference) (v : members.El) :
    decode (.struct T members) container document = .ok v ↔
      members.Stores document v container := by
  rw [decode_eq]
  refine Iff.trans (read_eq_ok_iff document (.struct T members) (.dictionary container) [] v) ?_
  constructor
  · rintro ⟨_, ⟨⟩, h⟩
    exact h
  · exact fun h => ⟨container, rfl, h⟩

/-- If a document cannot be decoded, then the path of the error leads from the document, and from
the type, to what is wrong, and what the error says is so. -/
theorem located_of_decode (t : Ty) (container : Dictionary String NSObject)
    (document : Option DocumentReference) (error : DecodingError)
    (h : decode t container document = .error (.throws error)) :
    ∃ (path : List CodingKey) (T : Target) (y : NSObject),
      Leads (.value t) (.dictionary container) path T y ∧ Wrong document T y path error := by
  rw [decode_eq] at h
  have hnative : t.native (.dictionary container) = none := by cases t <;> rfl
  exact locates_read document t _ hnative [] error h

/-- A type with a list of users. -/
def sampleType : Ty := .struct "User" (.required "requests" (.array (.scalar .string)) .nil)

/-- Such a list with a `null` in it. -/
def sampleContainer : Dictionary String NSObject := [("requests", .array [.string "v", .null])]

theorem located_of_decode_sample : ∃ (path : List CodingKey) (T : Target) (y : NSObject),
    Leads (.value sampleType) (.dictionary sampleContainer) path T y ∧
      Wrong none T y path (.valueNotFound [.key "requests", .index 1]
        "Expected String but found null value instead.") :=
  located_of_decode sampleType sampleContainer none _ (by rw [decode_eq]; rfl)

end Wanderlust.Coding
