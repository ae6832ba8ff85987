import Mathlib.Data.List.Lex
import Mathlib.Data.String.Basic
import Wanderlust.Foundations.Dictionary
import Wanderlust.Foundations.SortedSet
import Wanderlust.Models.Firestore

/-!
# Field values

The values of documents in the client of the database: `FieldValue`, and `ObjectValue` for those
that are documents, which are read and changed at a path of fields. Maps are sorted by their keys.
Doubles are known by their bits.
-/

namespace Wanderlust.Client

abbrev FieldPath := List String

/-- A path of collections and documents. -/
abbrev ResourcePath := List String

/-- The path of a document. -/
abbrev DocumentKey := ResourcePath

inductive FieldValue
  | null
  | boolean (value : Bool)
  | integer (value : Int64)
  | double (bits : UInt64)
  | timestamp (value : Timestamp)
  | serverTimestamp (localWriteTime : Timestamp) (previousValue : Option FieldValue)
  | string (value : String)
  | blob (value : List UInt8)
  | reference (databaseId : String) (key : DocumentKey)
  | geoPoint (value : GeoPoint)
  | array (elements : List FieldValue)
  | object (fields : List (String × FieldValue))

namespace FieldValue

mutual

/-- `operator==`. The value before a server timestamp does not count. -/
def equals : FieldValue → FieldValue → Bool
  | null, null => true
  | boolean b, boolean b' => b == b'
  | integer n, integer n' => n == n'
  | double bits, double bits' => bits == bits'
  | timestamp t, timestamp t' => t == t'
  | serverTimestamp t _, serverTimestamp t' _ => t == t'
  | string s, string s' => s == s'
  | blob bytes, blob bytes' => bytes == bytes'
  | reference id key, reference id' key' => id == id' && key == key'
  | geoPoint g, geoPoint g' => g == g'
  | array xs, array ys => equalsElements xs ys
  | object m, object m' => equalsFields m m'
  | _, _ => false

def equalsElements : List FieldValue → List FieldValue → Bool
  | [], [] => true
  | x :: xs, y :: ys => x.equals y && equalsElements xs ys
  | _, _ => false

def equalsFields : List (String × FieldValue) → List (String × FieldValue) → Bool
  | [], [] => true
  | (k, x) :: m, (k', y) :: m' => k == k' && x.equals y && equalsFields m m'
  | _, _ => false

end

end FieldValue

/-- `FieldValue::Map`. -/
abbrev FieldMap := List (String × FieldValue)

namespace FieldMap

/-- `insert`: the value for the key is replaced, or put at its place. -/
def insert (key : String) (value : FieldValue) : FieldMap → FieldMap
  | [] => [(key, value)]
  | (k, x) :: m =>
    if key < k then (key, value) :: (k, x) :: m
    else if key = k then (key, value) :: m
    else (k, x) :: insert key value m

def erase (key : String) (m : FieldMap) : FieldMap := m.filter fun e => e.1 ≠ key

end FieldMap

/-- A value of type `Object`. -/
structure ObjectValue where
  fields : FieldMap

namespace ObjectValue

/-- `Empty`. -/
def empty : ObjectValue := ⟨[]⟩

/-- The child of this name, if it is an object, and otherwise an empty one. -/
def child (o : ObjectValue) (name : String) : ObjectValue :=
  match o.fields.lookup name with
  | some (.object m) => ⟨m⟩
  | _ => empty

def setChild (o : ObjectValue) (name : String) (value : FieldValue) : ObjectValue :=
  ⟨FieldMap.insert name value o.fields⟩

/-- `Set`, which asserts that the path is not empty. -/
def set : FieldPath → FieldValue → ObjectValue → ObjectValue
  | [], _, o => o
  | [name], value, o => o.setChild name value
  | name :: path, value, o => o.setChild name (.object (set path value (o.child name)).fields)

/-- `Delete`. -/
def delete : FieldPath → ObjectValue → ObjectValue
  | [], o => o
  | [name], o => ⟨FieldMap.erase name o.fields⟩
  | name :: path, o =>
    match o.fields.lookup name with
    | some (.object m) => o.setChild name (.object (delete path ⟨m⟩).fields)
    | _ => o

end ObjectValue

/-- The loop of `ObjectValue::Get`. -/
def FieldValue.get : FieldPath → FieldValue → Option FieldValue
  | [], value => some value
  | name :: path, .object m => (m.lookup name).bind (get path)
  | _ :: _, _ => none

/-- `Get`. -/
def ObjectValue.get (o : ObjectValue) (path : FieldPath) : Option FieldValue :=
  (FieldValue.object o.fields).get path

/-! ## Reading after a change -/

/-- Neither path leads to the other. -/
def Unrelated (p q : FieldPath) : Prop := ¬ p <+: q ∧ ¬ q <+: p

/-- What is unrelated to a field is in another. -/
theorem Unrelated.ne_name {name name' : String} {q : FieldPath}
    (h : Unrelated [name] (name' :: q)) : name' ≠ name := by
  rintro rfl
  exact h.1 ((List.prefix_cons_inj name').mpr List.nil_prefix)

/-- What is unrelated below the same field. -/
theorem Unrelated.tail {name : String} {p q : FieldPath} (h : Unrelated (name :: p) (name :: q)) :
    Unrelated p q :=
  ⟨fun hp => h.1 ((List.prefix_cons_inj name).mpr hp),
    fun hq => h.2 ((List.prefix_cons_inj name).mpr hq)⟩

namespace FieldMap

theorem lookup_cons (k k' : String) (x : FieldValue) (m : FieldMap) :
    List.lookup k ((k', x) :: m) = if k = k' then some x else List.lookup k m :=
  Dictionary.lookup_cons k k' x m

theorem lookup_insert (k key : String) (value : FieldValue) (m : FieldMap) :
    List.lookup k (insert key value m) = if k = key then some value else List.lookup k m := by
  induction m with
  | nil => rw [insert, lookup_cons]
  | cons e m ih =>
    obtain ⟨k', x⟩ := e
    rw [insert]
    split
    · rw [lookup_cons]
    · split
      · rename_i heq
        subst heq
        rw [lookup_cons, lookup_cons]
        split <;> rfl
      · rename_i hne
        rw [lookup_cons, ih, lookup_cons]
        by_cases hk : k = k'
        · rw [if_pos hk, if_pos hk, if_neg (hk ▸ Ne.symm hne)]
        · rw [if_neg hk, if_neg hk]

theorem lookup_erase_ne {k key : String} (hne : k ≠ key) (m : FieldMap) :
    List.lookup k (erase key m) = List.lookup k m := by
  induction m with
  | nil => rfl
  | cons e m ih =>
    obtain ⟨k', x⟩ := e
    rw [lookup_cons, ← ih]
    by_cases hk : k' = key
    · have hout : erase key ((k', x) :: m) = erase key m := by simp [erase, hk]
      rw [hout, if_neg (hk ▸ hne)]
    · have hin : erase key ((k', x) :: m) = (k', x) :: erase key m := by simp [erase, hk]
      rw [hin, lookup_cons]

end FieldMap

namespace ObjectValue

variable {o : ObjectValue} {p q : FieldPath} {name : String}

theorem get_cons (o : ObjectValue) (name : String) (path : FieldPath) :
    o.get (name :: path) = (o.fields.lookup name).bind (FieldValue.get path) := rfl

theorem get_setChild_ne {name' : String} (hne : name ≠ name') (value : FieldValue)
    (o : ObjectValue) (path : FieldPath) :
    (o.setChild name' value).get (name :: path) = o.get (name :: path) := by
  rw [get_cons, setChild, FieldMap.lookup_insert, if_neg hne, get_cons]

theorem get_setChild (o : ObjectValue) (name : String) (value : FieldValue) (path : FieldPath) :
    (o.setChild name value).get (name :: path) = value.get path := by
  rw [get_cons, setChild, FieldMap.lookup_insert, if_pos rfl, Option.bind_some]

/-- What is not an object has no fields. -/
theorem get_child (o : ObjectValue) (name : String) (hq : q ≠ []) :
    (o.child name).get q = o.get (name :: q) := by
  obtain ⟨name', q, rfl⟩ := List.exists_cons_of_ne_nil hq
  rw [get_cons o, child]
  split
  · rename_i m hm
    rw [hm]
    rfl
  · rename_i hno
    cases hx : o.fields.lookup name with
    | none => rfl
    | some x =>
      cases x with
      | object m => exact absurd hx (hno m)
      | _ => rfl

theorem get_set_of_unrelated (h : Unrelated p q) (value : FieldValue) (o : ObjectValue) :
    (set p value o).get q = o.get q := by
  induction p generalizing q o with
  | nil => exact absurd List.nil_prefix h.1
  | cons name p ih =>
    cases q with
    | nil => exact absurd List.nil_prefix h.2
    | cons name' q =>
      cases p with
      | nil =>
        exact get_setChild_ne h.ne_name _ _ _
      | cons name₂ p =>
        rw [set]
        by_cases hne : name' = name
        · subst hne
          have hq : q ≠ [] := fun hnil => h.tail.2 (hnil ▸ List.nil_prefix)
          rw [get_setChild]
          exact (ih h.tail _).trans (get_child o name' hq)
        · exact get_setChild_ne hne _ _ _
        · simp

theorem get_delete_of_unrelated (h : Unrelated p q) (o : ObjectValue) :
    (delete p o).get q = o.get q := by
  induction p generalizing q o with
  | nil => rfl
  | cons name p ih =>
    cases q with
    | nil => exact absurd List.nil_prefix h.2
    | cons name' q =>
      cases p with
      | nil =>
        rw [delete, get_cons, FieldMap.lookup_erase_ne h.ne_name, get_cons]
      | cons name₂ p =>
        rw [delete]
        split
        · rename_i m hm
          by_cases hne : name' = name
          · subst hne
            rw [get_setChild, get_cons, hm]
            exact ih h.tail _
          · exact get_setChild_ne hne _ _ _
        · rfl
        · simp

end ObjectValue

/-! ## Values up to `operator==` -/

namespace FieldValue

mutual

/-- Without the values before server timestamps, which do not count for `operator==`. -/
def forget : FieldValue → FieldValue
  | serverTimestamp t _ => serverTimestamp t none
  | array xs => array (forgetElements xs)
  | object m => object (forgetFields m)
  | x => x

def forgetElements : List FieldValue → List FieldValue
  | [] => []
  | x :: xs => x.forget :: forgetElements xs

def forgetFields : List (String × FieldValue) → List (String × FieldValue)
  | [] => []
  | (k, x) :: m => (k, x.forget) :: forgetFields m

end

theorem forgetElements_eq_map (xs : List FieldValue) : forgetElements xs = xs.map forget := by
  induction xs with
  | nil => rfl
  | cons x xs ih => rw [forgetElements, ih, List.map_cons]

mutual

theorem forget_forget : ∀ x : FieldValue, x.forget.forget = x.forget
  | array xs => by rw [forget, forget, forgetElements_forgetElements xs]
  | object m => by rw [forget, forget, forgetFields_forgetFields m]
  | serverTimestamp _ _ | null | boolean _ | integer _ | double _ | timestamp _ | string _
  | blob _ | reference _ _ | geoPoint _ => rfl

theorem forgetElements_forgetElements :
    ∀ xs : List FieldValue, forgetElements (forgetElements xs) = forgetElements xs
  | [] => rfl
  | x :: xs => by
    rw [forgetElements, forgetElements, forget_forget x, forgetElements_forgetElements xs]

theorem forgetFields_forgetFields :
    ∀ m : List (String × FieldValue), forgetFields (forgetFields m) = forgetFields m
  | [] => rfl
  | (k, x) :: m => by
    rw [forgetFields, forgetFields, forget_forget x, forgetFields_forgetFields m]

end

mutual

theorem equals_forget : ∀ x y : FieldValue, x.forget.equals y.forget = x.equals y
  | array xs, y => by
    cases y <;> simp only [forget, equals]
    exact equalsElements_forget xs _
  | object m, y => by
    cases y <;> simp only [forget, equals]
    exact equalsFields_forget m _
  | serverTimestamp _ _, y | null, y | boolean _, y | integer _, y | double _, y
  | timestamp _, y | string _, y | blob _, y | reference _ _, y | geoPoint _, y => by
    cases y <;> simp only [forget, equals]

theorem equalsElements_forget : ∀ xs ys : List FieldValue,
    equalsElements (forgetElements xs) (forgetElements ys) = equalsElements xs ys
  | [], [] => rfl
  | [], _ :: _ => rfl
  | _ :: _, [] => rfl
  | x :: xs, y :: ys => by
    simp only [forgetElements, equalsElements]
    rw [equals_forget x y, equalsElements_forget xs ys]

theorem equalsFields_forget : ∀ m m' : List (String × FieldValue),
    equalsFields (forgetFields m) (forgetFields m') = equalsFields m m'
  | [], [] => rfl
  | [], _ :: _ => rfl
  | _ :: _, [] => rfl
  | (k, x) :: m, (k', y) :: m' => by
    simp only [forgetFields, equalsFields]
    rw [equals_forget x y, equalsFields_forget m m']

end

mutual

theorem equals_refl : ∀ x : FieldValue, x.equals x = true
  | array xs => equalsElements_refl xs
  | object m => equalsFields_refl m
  | null => rfl
  | boolean _ | integer _ | double _ | timestamp _ | serverTimestamp _ _ | string _ | blob _
  | geoPoint _ => beq_self_eq_true _
  | reference _ _ => by simp [equals]

theorem equalsElements_refl : ∀ xs : List FieldValue, equalsElements xs xs = true
  | [] => rfl
  | x :: xs => by rw [equalsElements, equals_refl x, equalsElements_refl xs, Bool.and_self]

theorem equalsFields_refl : ∀ m : List (String × FieldValue), equalsFields m m = true
  | [] => rfl
  | (k, x) :: m => by
    rw [equalsFields, equals_refl x, equalsFields_refl m, beq_self_eq_true]
    rfl

end

mutual

theorem forget_eq_of_equals : ∀ x y : FieldValue, x.equals y = true → x.forget = y.forget
  | array xs, y, h => by
    cases y <;> simp only [equals, Bool.false_eq_true] at h
    exact congrArg array (forgetElements_eq_of_equals xs _ h)
  | object m, y, h => by
    cases y <;> simp only [equals, Bool.false_eq_true] at h
    exact congrArg object (forgetFields_eq_of_equals m _ h)
  | serverTimestamp _ _, y, h | null, y, h | boolean _, y, h | integer _, y, h
  | double _, y, h | timestamp _, y, h | string _, y, h | blob _, y, h | reference _ _, y, h
  | geoPoint _, y, h => by
    cases y <;> simp_all [equals, forget]

theorem forgetElements_eq_of_equals : ∀ xs ys : List FieldValue,
    equalsElements xs ys = true → forgetElements xs = forgetElements ys
  | [], [], _ => rfl
  | x :: xs, y :: ys, h => by
    obtain ⟨hx, hxs⟩ := Bool.and_eq_true_iff.mp h
    rw [forgetElements, forgetElements, forget_eq_of_equals x y hx,
      forgetElements_eq_of_equals xs ys hxs]

theorem forgetFields_eq_of_equals : ∀ m m' : List (String × FieldValue),
    equalsFields m m' = true → forgetFields m = forgetFields m'
  | [], [], _ => rfl
  | (k, x) :: m, (k', y) :: m', h => by
    simp only [equalsFields, Bool.and_eq_true, beq_iff_eq] at h
    obtain ⟨⟨rfl, hx⟩, hm⟩ := h
    rw [forgetFields, forgetFields, forget_eq_of_equals x y hx, forgetFields_eq_of_equals m m' hm]

end

/-- What is equal for `operator==`. -/
theorem equals_iff (x y : FieldValue) : x.equals y = true ↔ x.forget = y.forget := by
  refine ⟨forget_eq_of_equals x y, fun h => ?_⟩
  rw [← equals_forget, h]
  exact equals_refl y.forget

theorem lookup_forgetFields (k : String) (m : FieldMap) :
    List.lookup k (forgetFields m) = (List.lookup k m).map forget := by
  induction m with
  | nil => rfl
  | cons e m ih =>
    obtain ⟨k', x⟩ := e
    rw [forgetFields, FieldMap.lookup_cons, FieldMap.lookup_cons, ih]
    split <;> rfl

theorem forgetFields_insert (key : String) (value : FieldValue) (m : FieldMap) :
    forgetFields (FieldMap.insert key value m) =
      FieldMap.insert key value.forget (forgetFields m) := by
  induction m with
  | nil => rfl
  | cons e m ih =>
    obtain ⟨k, x⟩ := e
    rw [FieldMap.insert, forgetFields, FieldMap.insert]
    split
    · rfl
    · split
      · rfl
      · rw [forgetFields, ih]

theorem forgetFields_erase (key : String) (m : FieldMap) :
    forgetFields (FieldMap.erase key m) = FieldMap.erase key (forgetFields m) := by
  induction m with
  | nil => rfl
  | cons e m ih =>
    obtain ⟨k, x⟩ := e
    rw [FieldMap.erase] at ih ⊢
    by_cases hk : k = key
    · rw [List.filter_cons_of_neg (by simpa using hk), ih, forgetFields, FieldMap.erase,
        FieldMap.erase, List.filter_cons_of_neg (by simpa using hk)]
    · rw [List.filter_cons_of_pos (by simpa using hk), forgetFields, ih, forgetFields,
        FieldMap.erase, FieldMap.erase, List.filter_cons_of_pos (by simpa using hk)]

theorem get_forget (path : FieldPath) (x : FieldValue) :
    x.forget.get path = (x.get path).map forget := by
  induction path generalizing x with
  | nil => rfl
  | cons name path ih =>
    cases x with
    | object m =>
      rw [forget, get, lookup_forgetFields, get]
      cases hx : List.lookup name m with
      | none => rfl
      | some x => exact ih x
    | _ => rfl

end FieldValue

namespace ObjectValue

/-- Without the values before server timestamps. -/
def forget (o : ObjectValue) : ObjectValue := ⟨FieldValue.forgetFields o.fields⟩

/-- Documents that are equal for `operator==`. -/
theorem equals_iff (o o' : ObjectValue) :
    (FieldValue.object o.fields).equals (.object o'.fields) = true ↔ o.forget = o'.forget := by
  rw [FieldValue.equals_iff]
  simp only [FieldValue.forget, FieldValue.object.injEq, forget, mk.injEq]

@[simp] theorem forget_forget (o : ObjectValue) : o.forget.forget = o.forget := by
  rw [forget, forget, FieldValue.forgetFields_forgetFields]

theorem forget_setChild (o : ObjectValue) (name : String) (value : FieldValue) :
    (o.setChild name value).forget = o.forget.setChild name value.forget := by
  rw [setChild, forget, FieldValue.forgetFields_insert]
  rfl

theorem forget_child (o : ObjectValue) (name : String) :
    (o.child name).forget = o.forget.child name := by
  rw [child, child, forget, forget, FieldValue.lookup_forgetFields]
  cases hx : List.lookup name o.fields with
  | none => rfl
  | some x => cases x <;> rfl

theorem forget_set (path : FieldPath) (value : FieldValue) (o : ObjectValue) :
    (set path value o).forget = set path value.forget o.forget := by
  induction path generalizing o with
  | nil => rfl
  | cons name path ih =>
    cases path with
    | nil => exact forget_setChild o name value
    | cons name₂ path =>
      have hchild := ih (o.child name)
      rw [forget_child] at hchild
      refine (forget_setChild o name _).trans ?_
      rw [FieldValue.forget]
      exact congrArg (fun o' : ObjectValue => o.forget.setChild name (.object o'.fields)) hchild

theorem forget_delete (path : FieldPath) (o : ObjectValue) :
    (delete path o).forget = delete path o.forget := by
  induction path generalizing o with
  | nil => rfl
  | cons name path ih =>
    cases path with
    | nil => exact congrArg ObjectValue.mk (FieldValue.forgetFields_erase name o.fields)
    | cons name₂ path =>
      rw [delete, delete]
      · have hlookup : List.lookup name o.forget.fields =
            (List.lookup name o.fields).map FieldValue.forget :=
          FieldValue.lookup_forgetFields name o.fields
        rw [hlookup]
        cases hx : List.lookup name o.fields with
        | none => rfl
        | some x =>
          cases x with
          | object m =>
            refine (forget_setChild o name _).trans ?_
            rw [FieldValue.forget]
            exact congrArg (fun o' : ObjectValue => o.forget.setChild name (.object o'.fields))
              (ih ⟨m⟩)
          | _ => rfl
      · simp
      · simp

theorem get_forget (o : ObjectValue) (path : FieldPath) :
    o.forget.get path = (o.get path).map FieldValue.forget :=
  FieldValue.get_forget path (.object o.fields)

end ObjectValue

/-! ## Field masks -/

/-- `FieldMask`. -/
abbrev FieldMask := SortedSet FieldPath

mutual

/-- The paths to the leaves of an object. -/
def FieldValue.leafPaths : FieldValue → List FieldPath
  | .object m => fieldLeafPaths m
  | _ => []

/-- The loop of `ToFieldMask`: an empty map is a leaf. -/
def fieldLeafPaths : List (String × FieldValue) → List FieldPath
  | [] => []
  | (name, value) :: m =>
    (match value.leafPaths with
      | [] => [[name]]
      | paths => paths.map (name :: ·)) ++ fieldLeafPaths m

end

/-- `ToFieldMask`. -/
def ObjectValue.toFieldMask (o : ObjectValue) : FieldMask :=
  (fieldLeafPaths o.fields).foldl (fun mask path => mask.insert path) ∅

end Wanderlust.Client
