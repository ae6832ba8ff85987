import Mathlib.Data.Int.Basic
import Wanderlust.Coding.Encoder

/-!
# The decoder of documents

`Firestore.Decoder`, which `data(as:)` uses, for the types whose conformance to `Decodable` the
compiler makes: structures of basic types, of the types of Firestore, of arrays and of structures
(`Ty`). An optional member is decoded with `decodeIfPresent`, and a member with `@DocumentID` is
the name of the document, which then must not have a field for it.

The decoder has a stack too, of the containers around the value that it is about to make. If an
initializer throws then nothing is taken off the stack, but the path is as before; what is decoded
and which error is thrown does not depend on the stack (`decode_eq`).
-/

namespace Wanderlust.Coding

open Throwing Method

/-! ## The types -/

/-- The types of integers. -/
inductive IntegerType
  | int | int8 | int16 | int32 | int64
  | uint | uint8 | uint16 | uint32 | uint64
  deriving DecidableEq

namespace IntegerType

def name : IntegerType → String
  | int => "Int" | int8 => "Int8" | int16 => "Int16" | int32 => "Int32" | int64 => "Int64"
  | uint => "UInt" | uint8 => "UInt8" | uint16 => "UInt16" | uint32 => "UInt32"
  | uint64 => "UInt64"

def bits : IntegerType → ℕ
  | int8 | uint8 => 8
  | int16 | uint16 => 16
  | int32 | uint32 => 32
  | int | int64 | uint | uint64 => 64

def signed : IntegerType → Bool
  | int | int8 | int16 | int32 | int64 => true
  | uint | uint8 | uint16 | uint32 | uint64 => false

/-- `intValue`, `int8Value` and so on of an `NSNumber`: what does not fit wraps around. -/
def value (w : IntegerType) (n : ℤ) : ℤ :=
  if w.signed then n.bmod (2 ^ w.bits) else n % 2 ^ w.bits

/-- The smallest value of the type. -/
def min (w : IntegerType) : ℤ := if w.signed then -2 ^ (w.bits - 1) else 0

/-- The largest one. -/
def max (w : IntegerType) : ℤ := if w.signed then 2 ^ (w.bits - 1) - 1 else 2 ^ w.bits - 1

theorem value_eq_iff (w : IntegerType) (n : ℤ) : w.value n = n ↔ w.min ≤ n ∧ n ≤ w.max := by
  cases w <;> simp only [value, min, max, signed, bits, if_true, if_false, Bool.false_eq_true]
  case uint | uint8 | uint16 | uint32 | uint64 => omega
  all_goals
    rw [Int.bmod_eq_iff (by decide)]
    norm_num
    omega

end IntegerType

/-- The types for which the containers have methods of their own. -/
inductive Scalar
  | bool
  | int (w : IntegerType)
  | string

def Scalar.name : Scalar → String
  | .bool => "Bool"
  | .int w => w.name
  | .string => "String"

/-- The values. An integer is one that its type has. -/
def Scalar.El : Scalar → Type
  | .bool => Bool
  | .int w => { n : ℤ // w.value n = n }
  | .string => String

mutual

/-- The types that can be decoded. -/
inductive Ty
  | scalar (s : Scalar)
  | timestamp
  | geoPoint
  | array (t : Ty)
  | struct (name : String) (members : Members)

/-- The members of a structure, with their keys. -/
inductive Members
  | nil
  | required (key : String) (t : Ty) (rest : Members)
  | optional (key : String) (t : Ty) (rest : Members)
  /-- `@DocumentID var …: String?`. -/
  | documentID (key : String) (rest : Members)

end

def Ty.name : Ty → String
  | .scalar s => s.name
  | .timestamp => "FIRTimestamp"
  | .geoPoint => "FIRGeoPoint"
  | .array t => "Array<" ++ t.name ++ ">"
  | .struct name _ => name

mutual

/-- The values of a type. -/
def Ty.El : Ty → Type
  | .scalar s => s.El
  | .timestamp => Timestamp
  | .geoPoint => GeoPoint
  | .array t => List t.El
  | .struct _ members => members.El

def Members.El : Members → Type
  | .nil => Unit
  | .required _ t rest => t.El × rest.El
  | .optional _ t rest => Option t.El × rest.El
  | .documentID _ rest => Option String × rest.El

end

/-! ## Errors -/

/-- `DecodingError` and `FirestoreDecodingError`, with the path and the description. -/
inductive DecodingError
  | typeMismatch (codingPath : List CodingKey) (debugDescription : String)
  | valueNotFound (codingPath : List CodingKey) (debugDescription : String)
  | keyNotFound (key : String) (codingPath : List CodingKey) (debugDescription : String)
  | dataCorrupted (codingPath : List CodingKey) (debugDescription : String)
  | fieldNameConflict (description : String)
  deriving DecidableEq

/-- The document that is decoded. -/
structure DocumentReference where
  collection : String
  documentID : String
  deriving DecidableEq

def DocumentReference.path (d : DocumentReference) : String := d.collection ++ "/" ++ d.documentID

def CodingKey.stringValue : CodingKey → String
  | .key s => s
  | .index i => "Index " ++ toString i

/-- `_typeDescription(of:)`. -/
def NSObject.typeDescription : NSObject → String
  | .null => "a null value"
  | .bool _ | .number _ => "a number"
  | .string _ => "a string/data"
  | .array _ => "an array"
  | .noDictionary | .dictionary _ => "a dictionary"
  | .geoPoint _ => "FIRGeoPoint"
  | .timestamp _ => "FIRTimestamp"
  | .documentReference _ => "FIRDocumentReference"
  | .fieldValue _ => "FIRFieldValue"

/-- Something that can fail with an error that names the path. -/
abbrev AtPath (α : Type) := List CodingKey → Plain DecodingError α

/-- `_typeMismatch`. -/
def typeMismatch {α : Type} (expectation : String) (reality : NSObject) : AtPath α := fun path =>
  .error (.throws (.typeMismatch path ("Expected to decode " ++ expectation ++ " but found " ++
    reality.typeDescription ++ " instead.")))

/-- `unbox` for a basic type. -/
def Scalar.unbox (s : Scalar) (value : NSObject) : AtPath (Option s.El) := fun path =>
  match s, value with
  | _, .null => .ok none
  | .bool, .bool b => .ok (some b)
  | .int w, .number n =>
    if h : w.value n = n then .ok (some ⟨n, h⟩)
    else .error (.throws (.dataCorrupted path
      ("Decoded number <" ++ toString n ++ "> does not fit in " ++ w.name ++ ".")))
  | .string, .string x => .ok (some x)
  | s, value => typeMismatch s.name value path

/-- `expectNonNull`, of the value on top of the stack. -/
def expectNonNull (T : String) (value : NSObject) : AtPath Unit := fun path =>
  match value with
  | .null => .error (.throws (.valueNotFound path
      ("Expected " ++ T ++ " but found null value instead.")))
  | _ => .ok ()

/-- What `container(keyedBy:)` gives for the value on top of the stack. -/
def keyedFields (value : NSObject) : AtPath (Dictionary String NSObject) := fun path =>
  match value with
  | .null => .error (.throws (.valueNotFound path
      "Cannot get keyed decoding container -- found null value instead."))
  | value => match value.fields with
    | none => .error (.throws (.typeMismatch path "Not a dictionary"))
    | some fields => .ok fields

/-- What `unkeyedContainer()` gives. -/
def unkeyedElements (value : NSObject) : AtPath (List NSObject) := fun path =>
  match value with
  | .null => .error (.throws (.valueNotFound path
      "Cannot get unkeyed decoding container -- found null value instead."))
  | .array xs => .ok xs
  | _ => .error (.throws (.typeMismatch path "Not an array"))

/-- The key as a text: `description` of a `CodingKey` of this type. -/
def keyDescription (K key : String) : String :=
  K ++ "(stringValue: \"" ++ key ++ "\", intValue: nil)"

/-- `require(key:)`, for a key of the type `K`. -/
def requireKey (K key : String) (container : Dictionary String NSObject) : AtPath NSObject :=
  fun path =>
    match List.lookup key container with
    | some entry => .ok entry
    | none => .error (.throws (.keyNotFound key path
        ("No value associated with key " ++ keyDescription K key ++ " (\"" ++ key ++ "\").")))

/-- `require(value:)`. -/
def requireValue {α : Type} (T : String) (value : Option α) : AtPath α := fun path =>
  match value with
  | some v => .ok v
  | none => .error (.throws (.valueNotFound path
      ("Expected " ++ T ++ " value but found null instead.")))

/-- There is a field where the name of the document belongs. -/
def fieldNameConflict (document : Option DocumentReference) (codingPathCopy : List String) :
    DecodingError :=
  let docPath := (document.map DocumentReference.path).getD "nil"
  .fieldNameConflict ("Field name [" ++
    ", ".intercalate (codingPathCopy.map fun k => "\"" ++ k ++ "\"") ++
    "] was found from document \"" ++ docPath ++
    "\", cannot assign the document reference to this field.")

/-- `decode(_:forKey:)` of a member with `@DocumentID`. -/
def wrapDocumentID (document : Option DocumentReference) (key : String)
    (container : Dictionary String NSObject) : AtPath (Option String) := fun path =>
  if (List.lookup key container).isSome then
    .error (.throws (fieldNameConflict document (path.map CodingKey.stringValue ++ [key])))
  else .ok (document.map DocumentReference.documentID)

/-- `Timestamp(seconds:nanoseconds:)`. -/
def Timestamp.make (seconds nanoseconds : ℤ) : Plain DecodingError Timestamp :=
  if h : -62135596800 ≤ seconds ∧ seconds < 253402300800 ∧ 0 ≤ nanoseconds ∧
    nanoseconds < 1000000000 then .ok ⟨seconds, nanoseconds, h⟩ else .error .trap

/-- The types that are passed through. -/
def Ty.native : (t : Ty) → NSObject → Option t.El
  | .timestamp, .timestamp t => some t
  | .geoPoint, .geoPoint g => some g
  | _, _ => none

/-! ## The decoder -/

/-- `_FirestoreDecoder`, with the document of its `userInfo`. -/
structure Decoder where
  storage : List NSObject
  codingPath : List CodingKey
  document : Option DocumentReference

abbrev Decoding := Method Decoder DecodingError

namespace Decoder

def push (x : NSObject) (d : Decoder) : Decoder := { d with storage := d.storage ++ [x] }

def popContainer (d : Decoder) : Decoder := { d with storage := d.storage.dropLast }

def append (key : CodingKey) (d : Decoder) : Decoder :=
  { d with codingPath := d.codingPath ++ [key] }

def removeLast (d : Decoder) : Decoder := { d with codingPath := d.codingPath.dropLast }

end Decoder

section

variable {α : Type}

/-- At the present path. -/
def atPath (f : AtPath α) : Decoding α := fun d =>
  match f d.codingPath with
  | .ok a => .returns a d
  | .error .trap => .trap
  | .error (.throws error) => .throws error d

def topContainer : Decoding NSObject := do
  match (← get).storage.getLast? with
  | none => trap
  | some x => return x

/-- `decode(_:forKey:)`, for a type with this `unbox`. -/
def decodeKey (K T : String) (unbox : NSObject → Decoding (Option α)) (key : String)
    (container : Dictionary String NSObject) : Decoding α := do
  let entry ← atPath (requireKey K key container)
  modify (Decoder.append (.key key))
  (unbox entry >>= fun value => atPath (requireValue T value)).deferring Decoder.removeLast

/-- `decodeIfPresent(_:forKey:)`. -/
def decodeKeyIfPresent (K T : String) (unbox : NSObject → Decoding (Option α)) (key : String)
    (container : Dictionary String NSObject) : Decoding (Option α) :=
  match List.lookup key container with
  | none | some .null => return none
  | some _ => do return some (← decodeKey K T unbox key container)

/-- An array is made from the elements of an unkeyed container, from the index `i` on. -/
def decodeElements (T : String) (unbox : NSObject → Decoding (Option α)) :
    List NSObject → ℕ → Decoding (List α)
  | [], _ => return []
  | x :: xs, i => do
    modify (Decoder.append (.index i))
    let v ← (unbox x >>= fun value => atPath fun path =>
      requireValue T value (path ++ [.index i])).deferring Decoder.removeLast
    return v :: (← decodeElements T unbox xs (i + 1))

/-- `unbox` for any type: `native` is the value if it is passed through, and `initFrom` the
initializer `T(from: self)`. -/
def unbox (native : Option α) (initFrom : Decoding α) (x : NSObject) : Decoding (Option α) :=
  match native with
  | some v => return some v
  | none => do
    modify (Decoder.push x)
    let v ← initFrom
    modify Decoder.popContainer
    return some v

end

/-- The `unbox` that a keyed container uses. -/
def Ty.unboxMember (t : Ty) (initFrom : Decoding t.El) (x : NSObject) : Decoding (Option t.El) :=
  match t, initFrom with
  | .scalar s, _ => atPath (s.unbox x)
  | t, initFrom => unbox (t.native x) initFrom x

/-- `init(from:)` of a basic type, for the value on top of the stack. -/
def Scalar.read (s : Scalar) (x : NSObject) : AtPath s.El := fun path => do
  expectNonNull s.name x path
  match ← s.unbox x path with
  | some v => .ok v
  | none => .error .trap

/-- An integer of a dictionary. -/
def integer (K : String) (w : IntegerType) (key : String)
    (container : Dictionary String NSObject) : Decoding ℤ := do
  return (← decodeKey K w.name (fun x => atPath ((Scalar.int w).unbox x)) key container).1

/-- A `Double` of a dictionary. -/
def double (K key : String) (container : Dictionary String NSObject) : Decoding ℚ :=
  decodeKey K "Double" (fun x => atPath fun path => match x with
    | .null => .ok none
    | .number n => .ok (some n)
    | x => typeMismatch "Double" x path) key container

/-- `GeoPoint(latitude:longitude:)`. -/
def makeGeoPoint (latitude longitude : ℚ) : Plain DecodingError GeoPoint :=
  if -90 ≤ latitude ∧ latitude ≤ 90 ∧ -180 ≤ longitude ∧ longitude ≤ 180 then
    .ok ⟨latitude, longitude⟩
  else .error .trap

mutual

/-- `T(from: self)`, for the value on top of the stack. -/
def Ty.initFrom : (t : Ty) → Decoding t.El
  | .scalar s => do atPath (s.read (← topContainer))
  | .timestamp => do
    let container ← atPath (keyedFields (← topContainer))
    let seconds ← integer "TimestampKeys" .int64 "seconds" container
    let nanoseconds ← integer "TimestampKeys" .int32 "nanoseconds" container
    atPath fun _ => Timestamp.make seconds nanoseconds
  | .geoPoint => do
    let container ← atPath (keyedFields (← topContainer))
    let latitude ← double "GeoPointKeys" "latitude" container
    let longitude ← double "GeoPointKeys" "longitude" container
    atPath fun _ => makeGeoPoint latitude longitude
  | .array t => do
    let container ← atPath (unkeyedElements (← topContainer))
    decodeElements t.name (fun x => unbox (t.native x) t.initFrom x) container 0
  | .struct _ members => do
    let container ← atPath (keyedFields (← topContainer))
    members.initFrom container

/-- The members of a structure, one after the other. -/
def Members.initFrom : (members : Members) → Dictionary String NSObject → Decoding members.El
  | .nil, _ => return ()
  | .required key t rest, container => do
    let v ← decodeKey "CodingKeys" t.name (t.unboxMember t.initFrom) key container
    return (v, ← rest.initFrom container)
  | .optional key t rest, container => do
    let v ← decodeKeyIfPresent "CodingKeys" t.name (t.unboxMember t.initFrom) key container
    return (v, ← rest.initFrom container)
  | .documentID key rest, container => do
    let v ← atPath (wrapDocumentID (← get).document key container)
    return (v, ← rest.initFrom container)

end

/-- `decode` of `Firestore.Decoder`. -/
def decode (t : Ty) (container : Dictionary String NSObject) (document : Option DocumentReference) :
    Plain DecodingError t.El :=
  match unbox (t.native (.dictionary container)) t.initFrom (.dictionary container)
    ⟨[.dictionary container], [], document⟩ with
  | .trap => .error .trap
  | .throws error _ => .error (.throws error)
  | .returns (some value) _ => .ok value
  | .returns none _ => .error (.throws (.valueNotFound [] "The given dictionary was invalid"))

/-! ## What is decoded -/

section

variable {α : Type}

/-- A value for a key, of a type with this `unbox`. -/
def readKey (K T : String) (unbox : NSObject → AtPath (Option α)) (key : String)
    (container : Dictionary String NSObject) : AtPath α := fun path => do
  let entry ← requireKey K key container path
  let value ← unbox entry (path ++ [.key key])
  requireValue T value (path ++ [.key key])

def readKeyIfPresent (K T : String) (unbox : NSObject → AtPath (Option α)) (key : String)
    (container : Dictionary String NSObject) : AtPath (Option α) := fun path =>
  match List.lookup key container with
  | none | some .null => .ok none
  | some _ => do return some (← readKey K T unbox key container path)

/-- The elements of an array, from the index `i` on. -/
def readElements (read : NSObject → AtPath α) : List NSObject → ℕ → AtPath (List α)
  | [], _, _ => .ok []
  | x :: xs, i, path => do
    let v ← read x (path ++ [.index i])
    return v :: (← readElements read xs (i + 1) path)

/-- A value that is passed through, or has to be read. -/
def orRead (native : Option α) (read : AtPath α) : AtPath α := fun path =>
  match native with
  | some v => .ok v
  | none => read path

end

def Ty.readMember (t : Ty) (read : NSObject → AtPath t.El) (x : NSObject) :
    AtPath (Option t.El) := fun path =>
  match t, read with
  | .scalar s, _ => s.unbox x path
  | t, read => do return some (← orRead (t.native x) (read x) path)

/-- A `Double`, as far as there are any. -/
def readDouble (K key : String) (container : Dictionary String NSObject) : AtPath ℚ :=
  readKey K "Double" (fun x path => match x with
    | .null => .ok none
    | .number n => .ok (some n)
    | x => typeMismatch "Double" x path) key container

def readInteger (K : String) (w : IntegerType) (key : String)
    (container : Dictionary String NSObject) : AtPath ℤ := fun path => do
  return (← readKey K w.name (Scalar.int w).unbox key container path).1

mutual

/-- The value of a type that is made from `x`. -/
def Ty.read (document : Option DocumentReference) : (t : Ty) → NSObject → AtPath t.El
  | .scalar s, x, path => s.read x path
  | .timestamp, x, path => do
    let container ← keyedFields x path
    let seconds ← readInteger "TimestampKeys" .int64 "seconds" container path
    let nanoseconds ← readInteger "TimestampKeys" .int32 "nanoseconds" container path
    Timestamp.make seconds nanoseconds
  | .geoPoint, x, path => do
    let container ← keyedFields x path
    let latitude ← readDouble "GeoPointKeys" "latitude" container path
    let longitude ← readDouble "GeoPointKeys" "longitude" container path
    makeGeoPoint latitude longitude
  | .array t, x, path => do
    let container ← unkeyedElements x path
    readElements (fun x => orRead (t.native x) (t.read document x)) container 0 path
  | .struct _ members, x, path => do
    let container ← keyedFields x path
    members.read document container path

def Members.read (document : Option DocumentReference) :
    (members : Members) → Dictionary String NSObject → AtPath members.El
  | .nil, _, _ => .ok ()
  | .required key t rest, container, path => do
    let v ← readKey "CodingKeys" t.name (t.readMember (t.read document)) key container path
    return (v, ← rest.read document container path)
  | .optional key t rest, container, path => do
    let v ← readKeyIfPresent "CodingKeys" t.name (t.readMember (t.read document)) key container path
    return (v, ← rest.read document container path)
  | .documentID key rest, container, path => do
    let v ← wrapDocumentID document key container path
    return (v, ← rest.read document container path)

end

/-! ## The decoder decodes it -/

/-- What an error leaves of the decoder: the path, and the stack with what has not been taken off
it. -/
structure Leaves (d d' : Decoder) : Prop where
  codingPath : d'.codingPath = d.codingPath
  storage : d.storage <+: d'.storage

/-- Where `P` holds, `m` gives what `f` gives for the path, and leaves the decoder alone. -/
def Reads {α : Type} (P : Decoder → Prop) (m : Decoding α) (f : AtPath α) : Prop :=
  ∀ d, P d → Computes m d (f d.codingPath) (fun a => (a, d)) (Leaves d)

/-- It decodes this document. -/
def In (document : Option DocumentReference) (d : Decoder) : Prop := d.document = document

/-- It decodes this document, with `x` on top of the stack. -/
def At (document : Option DocumentReference) (x : NSObject) (d : Decoder) : Prop :=
  d.document = document ∧ d.storage.getLast? = some x

section

variable {α β : Type} {P P' : Decoder → Prop} {m : Decoding α} {f : AtPath α}
  {document : Option DocumentReference} {x : NSObject}

theorem Leaves.refl (d : Decoder) : Leaves d d := ⟨rfl, List.prefix_rfl⟩

theorem Reads.mono (h : Reads P m f) (hP : ∀ d, P' d → P d) : Reads P' m f := fun d hd =>
  h d (hP d hd)

theorem reads_pure (a : α) : Reads P (pure a) fun _ => .ok a := fun _ _ => computes_pure rfl

theorem reads_atPath (f : AtPath α) : Reads P (atPath f) f := by
  intro d _
  have h : atPath f d = match f d.codingPath with
    | .ok a => .returns a d
    | .error .trap => .trap
    | .error (.throws error) => .throws error d := rfl
  match hf : f d.codingPath with
  | .ok a => rw [hf] at h; exact h
  | .error .trap => rw [hf] at h; exact h
  | .error (.throws error) => rw [hf] at h; exact ⟨d, h, .refl d⟩

theorem Reads.bind {k : α → Decoding β} {g : α → AtPath β} (h : Reads P m f)
    (hk : ∀ a, Reads P (k a) (g a)) : Reads P (m >>= k) fun path => f path >>= fun a => g a path :=
  fun d hd => (h d hd).bind fun a _ => hk a d hd

/-- Reading what is on top of the stack. -/
theorem reads_top {k : NSObject → Decoding α} (h : Reads (At document x) (k x) f) :
    Reads (At document x) (topContainer >>= k) f := by
  intro d hd
  have htop : topContainer d = .returns x d := by
    have hget : topContainer d = (match d.storage.getLast? with
      | none => trap
      | some x => return x : Decoding NSObject) d := rfl
    rw [hget, hd.2]
    rfl
  exact computes_bind_of_returns htop (h d hd)

/-- A step further in the path, and back. -/
theorem Reads.append (key : CodingKey) (h : Reads P' m f) (hP : ∀ d, P d → P' (d.append key)) :
    Reads P (modify (Decoder.append key) >>= fun _ => m.deferring Decoder.removeLast)
      fun path => f (path ++ [key]) := by
  intro d hd
  have hback : ∀ d', Leaves (d.append key) d' → Leaves d d'.removeLast := fun d' hd' =>
    ⟨by simp [Decoder.removeLast, hd'.codingPath, Decoder.append], hd'.storage⟩
  have hd' : (d.append key).removeLast = d := by simp [Decoder.append, Decoder.removeLast]
  have := (h _ (hP d hd)).deferring (f := Decoder.removeLast) _ hback
  simp only [hd'] at this
  exact computes_modify_bind this

theorem reads_decodeKey (document : Option DocumentReference) {K T : String}
    {unbox : NSObject → Decoding (Option α)} {unbox' : NSObject → AtPath (Option α)}
    (h : ∀ x, Reads (In document) (unbox x) (unbox' x))
    (key : String) (container : Dictionary String NSObject) :
    Reads (In document) (decodeKey K T unbox key container) (readKey K T unbox' key container) :=
  (reads_atPath _).bind fun entry =>
    ((h entry).bind fun _ => reads_atPath _).append (.key key) fun _ hd => hd

theorem reads_decodeKeyIfPresent (document : Option DocumentReference) {K T : String}
    {unbox : NSObject → Decoding (Option α)} {unbox' : NSObject → AtPath (Option α)}
    (h : ∀ x, Reads (In document) (unbox x) (unbox' x))
    (key : String) (container : Dictionary String NSObject) :
    Reads (In document) (decodeKeyIfPresent K T unbox key container)
      (readKeyIfPresent K T unbox' key container) := by
  have hread :=
    (reads_decodeKey document (K := K) (T := T) h key container).bind fun v => reads_pure (some v)
  unfold decodeKeyIfPresent readKeyIfPresent
  match List.lookup key container with
  | none => exact reads_pure none
  | some .null => exact reads_pure none
  | some (.bool _) | some (.number _) | some (.string _) | some (.geoPoint _)
  | some (.timestamp _) | some (.documentReference _) | some (.fieldValue _)
  | some .noDictionary | some (.array _) | some (.dictionary _) => exact hread

theorem reads_unbox (native : Option α) (h : Reads (At document x) m f) :
    Reads (In document) (unbox native m x)
      fun path => orRead native f path >>= fun v => .ok (some v) := by
  intro d hd
  cases native with
  | some v => exact computes_pure rfl
  | none =>
    have hread := (h (d.push x) ⟨hd, by simp [Decoder.push]⟩).mono (Leaves d) fun d' hd' =>
      ⟨hd'.codingPath, (List.prefix_append _ _).trans hd'.storage⟩
    refine computes_modify_bind (hread.bind fun v _ => computes_modify_bind (computes_pure ?_))
    simp [Decoder.push, Decoder.popContainer]

theorem reads_unboxMember {t : Ty} {m : Decoding t.El} {f : NSObject → AtPath t.El}
    (h : ∀ x, Reads (At document x) m (f x)) (x : NSObject) :
    Reads (In document) (t.unboxMember m x) (t.readMember f x) := by
  cases t with
  | scalar s => exact reads_atPath _
  | timestamp => exact reads_unbox _ (h x)
  | geoPoint => exact reads_unbox _ (h x)
  | array t => exact reads_unbox _ (h x)
  | struct T members => exact reads_unbox _ (h x)

/-- What is read is there. -/
theorem require_orRead {T : String} {native : Option α} (path path' : List CodingKey) :
    ((orRead native f path >>= fun v => .ok (some v)) >>= fun o => requireValue T o path') =
      orRead native f path := by
  cases orRead native f path <;> rfl

theorem reads_integer (K : String) (w : IntegerType) (key : String)
    (container : Dictionary String NSObject) :
    Reads (At document x) (integer K w key container) (readInteger K w key container) :=
  ((reads_decodeKey document (fun _ => reads_atPath _) key container).mono
    fun _ h => h.1).bind fun v => reads_pure v.1

theorem reads_double (K key : String) (container : Dictionary String NSObject) :
    Reads (At document x) (double K key container) (readDouble K key container) :=
  (reads_decodeKey document (fun _ => reads_atPath _) key container).mono
    fun _ h => h.1

/-- The document is the one of the decoder. -/
theorem reads_wrapDocumentID (key : String) (container : Dictionary String NSObject) :
    Reads (In document)
      (get >>= fun d => atPath (wrapDocumentID d.document key container))
      (wrapDocumentID document key container) := by
  intro d hd
  cases hd
  exact computes_get_bind (reads_atPath (P := In d.document) _ d rfl)

theorem reads_decodeElements {T : String} {native : NSObject → Option α} {m : Decoding α}
    {f : NSObject → AtPath α} (h : ∀ x, Reads (At document x) m (f x)) :
    ∀ (xs : List NSObject) (i : ℕ),
      Reads (In document) (decodeElements T (fun x => unbox (native x) m x) xs i)
        (readElements (fun x => orRead (native x) (f x)) xs i)
  | [], _ => reads_pure []
  | x :: xs, i => by
    have hx : Reads (In document) (modify (Decoder.append (.index i)) >>= fun _ =>
        (unbox (native x) m x >>= fun value => atPath fun path =>
          requireValue T value (path ++ [.index i])).deferring Decoder.removeLast)
        fun path => orRead (native x) (f x) (path ++ [.index i]) := by
      have := ((reads_unbox (native x) (h x)).bind fun o => reads_atPath fun path =>
        requireValue T o (path ++ [.index i])).append (P := In document) (.index i) fun _ hd => hd
      simpa only [require_orRead] using this
    exact hx.bind fun v => (reads_decodeElements h xs (i + 1)).bind fun vs => reads_pure (v :: vs)

end

mutual

theorem reads_initFrom (document : Option DocumentReference) : ∀ (t : Ty) (x : NSObject),
    Reads (At document x) t.initFrom (t.read document x)
  | .scalar _, _ => reads_top (reads_atPath _)
  | .timestamp, _ => reads_top <| (reads_atPath _).bind fun container =>
    (reads_integer _ .int64 "seconds" container).bind fun _ =>
      (reads_integer _ .int32 "nanoseconds" container).bind fun _ => reads_atPath _
  | .geoPoint, _ => reads_top <| (reads_atPath _).bind fun container =>
    (reads_double _ "latitude" container).bind fun _ =>
      (reads_double _ "longitude" container).bind fun _ => reads_atPath _
  | .array t, _ => reads_top <| (reads_atPath _).bind fun container =>
    (reads_decodeElements (reads_initFrom document t) container 0).mono fun _ h => h.1
  | .struct _ members, _ => reads_top <| (reads_atPath _).bind fun container =>
    (reads_initFromMembers document members container).mono fun _ h => h.1

theorem reads_initFromMembers (document : Option DocumentReference) :
    ∀ (members : Members) (container : Dictionary String NSObject),
      Reads (In document) (members.initFrom container) (members.read document container)
  | .nil, _ => reads_pure ()
  | .required key t rest, container =>
    (reads_decodeKey document (reads_unboxMember (reads_initFrom document t)) key
      container).bind fun v =>
        (reads_initFromMembers document rest container).bind fun vs => reads_pure (v, vs)
  | .optional key t rest, container =>
    (reads_decodeKeyIfPresent document (reads_unboxMember (reads_initFrom document t)) key
      container).bind fun v =>
        (reads_initFromMembers document rest container).bind fun vs => reads_pure (v, vs)
  | .documentID key rest, container =>
    (reads_wrapDocumentID key container).bind fun v =>
      (reads_initFromMembers document rest container).bind fun vs => reads_pure (v, vs)

end

/-- What a type makes of the value on top of the stack does not depend on what is below it, and it
leaves the stack as it was; after an error the path is as it was, and below what has not been
taken off the stack it is, too. -/
theorem initFrom_eq_read (t : Ty) (x : NSObject) (d : Decoder) :
    match t.initFrom (d.push x), t.read d.document x d.codingPath with
    | .returns v d', .ok v' => v = v' ∧ d' = d.push x
    | .throws error d', .error (.throws error') =>
      error = error' ∧ d'.codingPath = d.codingPath ∧ (d.push x).storage <+: d'.storage
    | .trap, .error .trap => True
    | _, _ => False := by
  have h : Computes t.initFrom (d.push x) (t.read d.document x d.codingPath) _ _ :=
    reads_initFrom d.document t x (d.push x) ⟨rfl, by simp [Decoder.push]⟩
  match hread : t.read d.document x d.codingPath with
  | .ok v =>
    rw [hread] at h
    rw [show t.initFrom (d.push x) = _ from h]
    exact ⟨rfl, rfl⟩
  | .error .trap =>
    rw [hread] at h
    rw [show t.initFrom (d.push x) = _ from h]
    trivial
  | .error (.throws error) =>
    rw [hread] at h
    obtain ⟨d', hd', hleft⟩ := h
    rw [hd']
    exact ⟨rfl, hleft.codingPath, hleft.storage⟩

theorem decode_eq (t : Ty) (container : Dictionary String NSObject)
    (document : Option DocumentReference) :
    decode t container document = t.read document (.dictionary container) [] := by
  have hnative : t.native (.dictionary container) = none := by cases t <;> rfl
  have h := reads_unbox none (reads_initFrom document t (.dictionary container))
    ⟨[.dictionary container], [], document⟩ rfl
  rw [decode, hnative]
  change Computes _ _ (t.read document (.dictionary container) [] >>= fun v => .ok (some v))
    _ _ at h
  match hread : t.read document (.dictionary container) [] with
  | .ok v =>
    rw [hread] at h
    rw [show unbox none _ _ _ = _ from h]
  | .error .trap =>
    rw [hread] at h
    rw [show unbox none _ _ _ = _ from h]
  | .error (.throws error) =>
    rw [hread] at h
    obtain ⟨d', hd', -⟩ := h
    rw [hd']

end Wanderlust.Coding
