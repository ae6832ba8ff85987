import Wanderlust.Foundations.Dictionary
import Wanderlust.Foundations.Throwing
import Wanderlust.Models.Firestore

/-!
# The encoder of documents

`Firestore.Encoder`, which `setData(from:)` uses. A value says how it is encoded by what its
`encode(to:)` asks of the encoder, which is all that there is of the value here (`Encodable`): it
gets containers, and writes into them, in any order and also where that makes no sense.

The encoder keeps the containers that are not finished on a stack, and the keys that lead to them
in a path; a new container is made if the two have the same length. What comes out is said without
them by recursion (`Encodable.object`). That the encoder gives the same, and leaves stack and path
as they were, also if it throws, is `encode_eq`.
-/

namespace Wanderlust.Coding

open Throwing Method

/-- `Timestamp`, with what its initializer demands. -/
structure Timestamp where
  seconds : ℤ
  nanoseconds : ℤ
  valid : -62135596800 ≤ seconds ∧ seconds < 253402300800 ∧ 0 ≤ nanoseconds ∧
    nanoseconds < 1000000000
  deriving DecidableEq

/-- What is in a document. There is no number in the documents of the app that is not an
integer. -/
inductive NSObject
  | null
  | bool (b : Bool)
  | number (n : ℤ)
  | string (s : String)
  | geoPoint (g : GeoPoint)
  | timestamp (t : Timestamp)
  | documentReference (path : String)
  | fieldValue (method : String)
  /-- `NSDictionary()`. -/
  | noDictionary
  /-- An `NSMutableArray`. -/
  | array (xs : List NSObject)
  /-- An `NSMutableDictionary`. -/
  | dictionary (fields : List (String × NSObject))

/-- `as? [String: Any]`. -/
def NSObject.fields : NSObject → Option (Dictionary String NSObject)
  | .noDictionary => some []
  | .dictionary fields => some fields
  | _ => none

/-- A key of a document, or an index of an array. -/
inductive CodingKey
  | key (stringValue : String)
  | index (intValue : ℕ)
  deriving DecidableEq

mutual

/-- A value to be encoded. -/
inductive Encodable
  /-- Dates, data, URLs, decimals and the types of Firestore: what `box_` makes of them. -/
  | native (object : NSObject)
  /-- Any other value. -/
  | value (encode : Encode)

/-- What an `encode(to:)` does, one call after the other. -/
inductive Encode
  | done
  | throw (error : String)
  -- `container(keyedBy:)`, `encodeNil(forKey:)`, `encode(_:forKey:)` of a basic type and of a
  -- generic one
  | keyedContainer (next : Encode)
  | keyed (key : String) (object : NSObject) (next : Encode)
  | keyedValue (key : String) (isDocumentID : Bool) (value : Encodable) (next : Encode)
  -- the same for `unkeyedContainer()`
  | unkeyedContainer (next : Encode)
  | unkeyed (object : NSObject) (next : Encode)
  | unkeyedValue (value : Encodable) (next : Encode)
  -- and for `singleValueContainer()`
  | single (object : NSObject) (next : Encode)
  | singleValue (value : Encodable) (next : Encode)

end

/-- `EncodingError.invalidValue`, with its description, and what an `encode(to:)` throws. -/
inductive EncodingError
  | invalidValue (debugDescription : String)
  | thrown (error : String)
  deriving DecidableEq

/-! ## The encoder -/

/-- `_FirestoreEncoder`. The containers and the keys are in the order in which they were pushed. -/
structure Encoder where
  storage : List NSObject
  codingPath : List CodingKey

abbrev Encoding := Method Encoder EncodingError

namespace Encoder

/-- A new encoder. -/
def init : Encoder := ⟨[], []⟩

def shouldAllocateNewContainer (e : Encoder) : Prop := e.storage.length = e.codingPath.length

instance (e : Encoder) : Decidable e.shouldAllocateNewContainer :=
  inferInstanceAs (Decidable (_ = _))

def push (container : NSObject) (e : Encoder) : Encoder :=
  { e with storage := e.storage ++ [container] }

def append (key : CodingKey) (e : Encoder) : Encoder :=
  { e with codingPath := e.codingPath ++ [key] }

def removeLast (e : Encoder) : Encoder := { e with codingPath := e.codingPath.dropLast }

/-- What `box_` does if the value has thrown. -/
def restore (depth : ℕ) (e : Encoder) : Encoder :=
  if depth < e.storage.length then { e with storage := e.storage.dropLast } else e

end Encoder

def popContainer : Encoding NSObject := do
  match (← get).storage.getLast? with
  | none => trap
  | some container =>
    modify fun e => { e with storage := e.storage.dropLast }
    return container

/-- `container(keyedBy:)`: the place of the container on the stack. -/
def containerKeyedBy : Encoding ℕ := do
  let e ← get
  if e.shouldAllocateNewContainer then
    modify (Encoder.push (.dictionary []))
    return e.storage.length
  else match e.storage.getLast? with
    | some (.dictionary _) => return e.storage.length - 1
    | _ => trap

/-- `unkeyedContainer()`. -/
def unkeyedContainer : Encoding ℕ := do
  let e ← get
  if e.shouldAllocateNewContainer then
    modify (Encoder.push (.array []))
    return e.storage.length
  else match e.storage.getLast? with
    | some (.array _) => return e.storage.length - 1
    | _ => trap

/-- `container[key] = object`. -/
def NSObject.set (key : String) (object : NSObject) : NSObject → NSObject
  | .dictionary fields => .dictionary (Dictionary.set key object fields)
  | x => x

/-- `container.add(object)`. -/
def NSObject.add (object : NSObject) : NSObject → NSObject
  | .array xs => .array (xs ++ [object])
  | x => x

/-- The number of elements of a container. -/
def NSObject.count : NSObject → ℕ
  | .array xs => xs.length
  | _ => 0

/-- An assignment to the container at a place of the stack. -/
def assign (container : ℕ) (f : NSObject → NSObject) : Encoding Unit :=
  modify fun e => { e with storage := e.storage.modify container f }

/-- `count` of an unkeyed container. -/
def count (container : ℕ) : Encoding ℕ := do
  return ((← get).storage[container]?.map NSObject.count).getD 0

def assertCanEncodeNewValue : Encoding Unit := do
  if (← get).shouldAllocateNewContainer then return () else trap

mutual

def box_ : Encodable → Encoding (Option NSObject)
  | .native object => pure (some object)
  | .value encode => do
    let depth := (← get).storage.length
    (encodeTo encode).rescuing (Encoder.restore depth)
    if depth < (← get).storage.length then return some (← popContainer) else return none

/-- `value.encode(to: self)`. -/
def encodeTo : Encode → Encoding Unit
  | .done => pure ()
  | .throw error => throw (.thrown error)
  | .keyedContainer next => do
    let _ ← containerKeyedBy
    encodeTo next
  | .keyed key object next => do
    let container ← containerKeyedBy
    assign container (.set key object)
    encodeTo next
  | .keyedValue key isDocumentID value next => do
    let container ← containerKeyedBy
    if isDocumentID then encodeTo next
    else
      modify (Encoder.append (.key key))
      (box_ value >>= fun object =>
        assign container (.set key (object.getD .noDictionary))).deferring Encoder.removeLast
      encodeTo next
  | .unkeyedContainer next => do
    let _ ← unkeyedContainer
    encodeTo next
  | .unkeyed object next => do
    let container ← unkeyedContainer
    assign container (.add object)
    encodeTo next
  | .unkeyedValue value next => do
    let container ← unkeyedContainer
    modify (Encoder.append (.index (← count container)))
    (box_ value >>= fun object =>
      assign container (.add (object.getD .noDictionary))).deferring Encoder.removeLast
    encodeTo next
  | .single object next => do
    assertCanEncodeNewValue
    modify (Encoder.push object)
    encodeTo next
  | .singleValue value next => do
    assertCanEncodeNewValue
    let object ← box_ value
    modify (Encoder.push (object.getD .noDictionary))
    encodeTo next

end

/-- `encode` of `Firestore.Encoder`, for a value of the type `T`. -/
def encode (T : String) (value : Encodable) : Plain EncodingError (Dictionary String NSObject) :=
  match value with
  | .native (.documentReference _) | .native (.fieldValue _) =>
    .error (.throws (.invalidValue ("Top-level " ++ T ++ " is not allowed.")))
  | _ => match box_ value .init with
    | .trap => .error .trap
    | .throws error _ => .error (.throws error)
    | .returns none _ =>
      .error (.throws (.invalidValue ("Top-level " ++ T ++ " did not encode any values.")))
    | .returns (some topLevel) _ => match topLevel.fields with
      | none =>
        .error (.throws (.invalidValue ("Top-level " ++ T ++ " encoded not as dictionary.")))
      | some dict => .ok dict

/-! ## What comes out -/

/-- The keyed container of a value that has encoded `p` so far. -/
def keyedPart : Option NSObject → Plain EncodingError (Dictionary String NSObject)
  | none => .ok []
  | some (.dictionary fields) => .ok fields
  | some _ => .error .trap

/-- Its unkeyed container. -/
def unkeyedPart : Option NSObject → Plain EncodingError (List NSObject)
  | none => .ok []
  | some (.array xs) => .ok xs
  | some _ => .error .trap

/-- What a value can encode as a single value. -/
def singlePart (object : NSObject) : Option NSObject → Plain EncodingError (Option NSObject)
  | none => .ok (some object)
  | some _ => .error .trap

mutual

/-- What is encoded for a value. -/
def Encodable.object : Encodable → Plain EncodingError (Option NSObject)
  | .native object => .ok (some object)
  | .value encode => encode.object none

/-- What has been encoded when all is done, if it was `p` before. -/
def Encode.object : Encode → Option NSObject → Plain EncodingError (Option NSObject)
  | .done, p => .ok p
  | .throw error, _ => .error (.throws (.thrown error))
  | .keyedContainer next, p => do
    let fields ← keyedPart p
    next.object (some (.dictionary fields))
  | .keyed key object next, p => do
    let fields ← keyedPart p
    next.object (some (.dictionary (Dictionary.set key object fields)))
  | .keyedValue key isDocumentID value next, p => do
    let fields ← keyedPart p
    if isDocumentID then next.object (some (.dictionary fields))
    else
      let object ← value.object
      next.object
        (some (.dictionary (Dictionary.set key (object.getD .noDictionary) fields)))
  | .unkeyedContainer next, p => do
    let xs ← unkeyedPart p
    next.object (some (.array xs))
  | .unkeyed object next, p => do
    let xs ← unkeyedPart p
    next.object (some (.array (xs ++ [object])))
  | .unkeyedValue value next, p => do
    let xs ← unkeyedPart p
    let object ← value.object
    next.object (some (.array (xs ++ [object.getD .noDictionary])))
  | .single object next, p => do next.object (← singlePart object p)
  | .singleValue value next, p => do
    let _ ← singlePart .null p
    let object ← value.object
    next.object (some (object.getD .noDictionary))

end

/-! ## The encoder gives what comes out -/

namespace Encoder

/-- The encoder while it encodes a value, with the container of the value. -/
def holding (e : Encoder) (p : Option NSObject) : Encoder :=
  { e with storage := e.storage ++ p.toList }

variable {e : Encoder} {p : Option NSObject}

@[simp] theorem holding_none : e.holding none = e := by simp [holding]

theorem shouldAllocateNewContainer_holding (h : e.shouldAllocateNewContainer) :
    (e.holding p).shouldAllocateNewContainer ↔ p = none := by
  have h : e.storage.length = e.codingPath.length := h
  cases p <;> simp [shouldAllocateNewContainer, holding, h]

theorem not_shouldAllocateNewContainer_holding (x : NSObject) (h : e.shouldAllocateNewContainer) :
    ¬(e.holding (some x)).shouldAllocateNewContainer := fun hx =>
  nomatch (shouldAllocateNewContainer_holding h).mp hx

theorem getLast?_holding (x : NSObject) : (e.holding (some x)).storage.getLast? = some x := by
  simp [holding]

theorem modify_holding (x : NSObject) (f : NSObject → NSObject) :
    (e.holding (some x)).storage.modify e.storage.length f = (e.holding (some (f x))).storage := by
  simp only [holding, Option.toList_some]
  induction e.storage with
  | nil => rfl
  | cons y ys ih => simpa using ih

/-- What the next key or index adds to the path, once the value has its container. -/
def inside (e : Encoder) (x : NSObject) (key : CodingKey) : Encoder :=
  (e.holding (some x)).append key

theorem shouldAllocateNewContainer_inside (x : NSObject) (key : CodingKey)
    (h : e.shouldAllocateNewContainer) : (e.inside x key).shouldAllocateNewContainer := by
  have h : e.storage.length = e.codingPath.length := h
  simp [shouldAllocateNewContainer, inside, append, holding, h]

theorem removeLast_inside (x : NSObject) (key : CodingKey) :
    (e.inside x key).removeLast = e.holding (some x) := by
  simp [inside, append, removeLast]

/-- The `catch` of `box_` leaves the encoder as it was. -/
theorem restore_holding (p : Option NSObject) :
    (e.holding p).restore e.storage.length = e := by
  cases p <;> simp [restore, holding]

end Encoder

open Encoder

section

variable {e : Encoder} {p : Option NSObject} {left : Encoder → Prop}

theorem containerKeyedBy_computes (h : e.shouldAllocateNewContainer) :
    Computes containerKeyedBy (e.holding p) (keyedPart p)
      (fun fields => (e.storage.length, e.holding (some (.dictionary fields)))) left := by
  refine computes_get_bind ?_
  match p with
  | none =>
    rw [if_pos ((shouldAllocateNewContainer_holding h).mpr rfl), holding_none]
    exact computes_modify_bind (computes_pure rfl)
  | some x =>
    rw [if_neg (not_shouldAllocateNewContainer_holding x h), getLast?_holding]
    cases x with
    | dictionary fields => exact computes_pure (by simp [holding])
    | _ => exact computes_trap

theorem unkeyedContainer_computes (h : e.shouldAllocateNewContainer) :
    Computes unkeyedContainer (e.holding p) (unkeyedPart p)
      (fun xs => (e.storage.length, e.holding (some (.array xs)))) left := by
  refine computes_get_bind ?_
  match p with
  | none =>
    rw [if_pos ((shouldAllocateNewContainer_holding h).mpr rfl), holding_none]
    exact computes_modify_bind (computes_pure rfl)
  | some x =>
    rw [if_neg (not_shouldAllocateNewContainer_holding x h), getLast?_holding]
    cases x with
    | array xs => exact computes_pure (by simp [holding])
    | _ => exact computes_trap

theorem assert_computes (object : NSObject) (h : e.shouldAllocateNewContainer) :
    Computes assertCanEncodeNewValue (e.holding p) (singlePart object p) (fun _ => ((), e))
      left := by
  refine computes_get_bind ?_
  match p with
  | none =>
    rw [if_pos ((shouldAllocateNewContainer_holding h).mpr rfl), holding_none]
    exact computes_pure rfl
  | some x =>
    rw [if_neg (not_shouldAllocateNewContainer_holding x h)]
    exact computes_trap

/-- An assignment to the container of the value. -/
theorem assign_holding (x : NSObject) (f : NSObject → NSObject) :
    assign e.storage.length f (e.holding (some x)) = .returns () (e.holding (some (f x))) := by
  simp only [assign, Method.modify, modify_holding]
  rfl

/-- The same while the path leads on to one of its values. -/
theorem assign_inside (x : NSObject) (key : CodingKey) (f : NSObject → NSObject) :
    assign e.storage.length f (e.inside x key) = .returns () (e.inside (f x) key) := by
  simp only [assign, Method.modify, inside, append, modify_holding]
  rfl

theorem count_holding (xs : List NSObject) :
    count e.storage.length (e.holding (some (.array xs))) =
      .returns xs.length (e.holding (some (.array xs))) := by
  have hget : (e.holding (some (.array xs))).storage[e.storage.length]? = some (.array xs) := by
    simp [holding]
  change Outcome.returns
    (((e.holding (some (.array xs))).storage[e.storage.length]?.map NSObject.count).getD 0) _ = _
  rw [hget]
  rfl

theorem of_singlePart {object : NSObject} {q : Option NSObject}
    (h : singlePart object p = .ok q) : q = some object := by
  cases p <;> cases h
  rfl

theorem popContainer_holding (x : NSObject) :
    popContainer (e.holding (some x)) = .returns x e := by
  have hlast : (match (e.holding (some x)).storage.getLast? with
      | none => trap
      | some container => do
        modify fun e => { e with storage := e.storage.dropLast }
        return container : Encoding NSObject) (e.holding (some x)) = .returns x e := by
    rw [getLast?_holding]
    change Outcome.returns x _ = _
    simp [holding]
  exact hlast

/-- A value is encoded, and `f` writes it into the container of the one around it. -/
theorem write_computes {v : Encodable} {x : NSObject} {key : CodingKey}
    (f : NSObject → NSObject → NSObject)
    (h : Computes (box_ v) (e.inside x key) v.object (fun o => (o, e.inside x key))
      (· = e.inside x key)) :
    Computes ((box_ v >>= fun object =>
        assign e.storage.length (f (object.getD .noDictionary))).deferring removeLast)
      (e.inside x key) v.object (fun o => ((), e.holding (some (f (o.getD .noDictionary) x))))
      (fun s => ∃ p, s = e.holding p) := by
  have hassign := h.bind_returns (fun o => ((), e.inside (f (o.getD .noDictionary) x) key))
    (f := fun object => assign e.storage.length (f (object.getD .noDictionary)))
    fun o _ => assign_inside x key _
  have hwrite := hassign.deferring (f := removeLast) (fun s => ∃ p, s = e.holding p) (by
    rintro _ rfl
    exact ⟨some x, removeLast_inside x key⟩)
  simpa only [removeLast_inside] using hwrite

end

mutual

theorem box_computes : ∀ (v : Encodable) (e : Encoder), e.shouldAllocateNewContainer →
    Computes (box_ v) e v.object (fun o => (o, e)) (· = e)
  | .native _, _, _ => computes_pure rfl
  | .value encode, e, h => by
    have hencode := (encodeTo_computes encode e none h).rescuing (f := restore e.storage.length)
      (· = e) (by rintro _ ⟨q, rfl⟩; exact restore_holding q)
    rw [holding_none] at hencode
    refine computes_get_bind (hencode.bind_returns _ fun q _ => ?_)
    cases q with
    | none =>
      change (if e.storage.length < (e.holding none).storage.length then _ else _ : Encoding _) _
        = _
      rw [holding_none, if_neg (lt_irrefl _)]
      rfl
    | some x =>
      change (if e.storage.length < (e.holding (some x)).storage.length then _ else _ :
        Encoding _) _ = _
      rw [if_pos (by simp [holding])]
      exact bind_of_returns (popContainer_holding x)

theorem encodeTo_computes : ∀ (c : Encode) (e : Encoder) (p : Option NSObject),
    e.shouldAllocateNewContainer → Computes (encodeTo c) (e.holding p) (c.object p)
      (fun q => ((), e.holding q)) (fun s => ∃ q, s = e.holding q)
  | .done, _, _, _ => computes_pure rfl
  | .throw _, _, p, _ => computes_throw ⟨p, rfl⟩
  | .keyedContainer next, e, p, h =>
    (containerKeyedBy_computes h).bind fun _ _ => encodeTo_computes next e _ h
  | .keyed key object next, e, p, h =>
    (containerKeyedBy_computes h).bind fun fields _ =>
      computes_bind_of_returns (assign_holding (.dictionary fields) (.set key object))
        (encodeTo_computes next e _ h)
  | .keyedValue key isDocumentID value next, e, p, h =>
    (containerKeyedBy_computes h).bind fun fields _ => by
      cases isDocumentID with
      | true => exact encodeTo_computes next e _ h
      | false =>
        have hinside := shouldAllocateNewContainer_inside (.dictionary fields) (.key key) h
        exact computes_modify_bind ((write_computes (.set key) (box_computes value _ hinside)).bind
          fun o _ => encodeTo_computes next e _ h)
  | .unkeyedContainer next, e, p, h =>
    (unkeyedContainer_computes h).bind fun _ _ => encodeTo_computes next e _ h
  | .unkeyed object next, e, p, h =>
    (unkeyedContainer_computes h).bind fun xs _ =>
      computes_bind_of_returns (assign_holding (.array xs) (.add object))
        (encodeTo_computes next e _ h)
  | .unkeyedValue value next, e, p, h =>
    (unkeyedContainer_computes h).bind fun xs _ => by
      have hinside := shouldAllocateNewContainer_inside (.array xs) (.index xs.length) h
      refine computes_bind_of_returns (count_holding xs) (computes_modify_bind ?_)
      exact (write_computes .add (box_computes value _ hinside)).bind fun o _ =>
        encodeTo_computes next e _ h
  | .single object next, e, p, h =>
    (assert_computes object h).bind fun q hq => by
      obtain rfl := of_singlePart hq
      exact computes_modify_bind (encodeTo_computes next e _ h)
  | .singleValue value next, e, p, h =>
    (assert_computes .null h).bind fun _ _ =>
      ((box_computes value e h).mono _ fun s hs => ⟨none, hs.trans holding_none.symm⟩).bind
        fun o _ => computes_modify_bind (encodeTo_computes next e _ h)

end

/-- The dictionary that a value of the type `T` is encoded as. -/
def Encodable.document (T : String) (value : Encodable) :
    Plain EncodingError (Dictionary String NSObject) :=
  match value with
  | .native (.documentReference _) | .native (.fieldValue _) =>
    .error (.throws (.invalidValue ("Top-level " ++ T ++ " is not allowed.")))
  | _ => do
    match ← value.object with
    | none =>
      .error (.throws (.invalidValue ("Top-level " ++ T ++ " did not encode any values.")))
    | some topLevel => match topLevel.fields with
      | none =>
        .error (.throws (.invalidValue ("Top-level " ++ T ++ " encoded not as dictionary.")))
      | some dict => .ok dict

theorem encode_eq (T : String) (value : Encodable) : encode T value = value.document T := by
  have h := box_computes value .init rfl
  unfold encode Encodable.document
  split
  · rfl
  · rfl
  · match hv : value.object with
    | .ok o =>
      rw [hv] at h
      rw [show box_ value .init = _ from h]
      cases o <;> rfl
    | .error .trap =>
      rw [hv] at h
      rw [show box_ value .init = _ from h]
      rfl
    | .error (.throws _) =>
      rw [hv] at h
      obtain ⟨e, he, -⟩ := h
      rw [he]
      rfl

/-- Wherever a value is encoded, if the relation of the stack to the path holds there, then the
encoder gives what comes out by recursion, and both are as before, also after an error. -/
theorem box_eq_object (value : Encodable) (e : Encoder) (h : e.shouldAllocateNewContainer) :
    box_ value e = match value.object with
      | .ok object => .returns object e
      | .error .trap => .trap
      | .error (.throws error) => .throws error e := by
  have hbox := box_computes value e h
  match hv : value.object with
  | .ok o => rw [hv] at hbox; exact hbox
  | .error .trap => rw [hv] at hbox; exact hbox
  | .error (.throws _) =>
    rw [hv] at hbox
    obtain ⟨e', he, rfl⟩ := hbox
    exact he

/-- A list in a dictionary, within another one. -/
def sampleNested : Encodable :=
  .value (.keyed "tripName" (.string "Rome")
    (.keyedValue "entries" false
      (.value (.unkeyedValue (.value (.single (.string "e") .done)) .done)) .done))

/-- The encoder while it is in the field of a document. -/
def sampleEncoder : Encoder := ⟨[.dictionary []], [.key "trip"]⟩

theorem box_eq_object_sample :
    sampleEncoder.shouldAllocateNewContainer ∧ box_ sampleNested sampleEncoder =
      .returns (some (.dictionary
        [("tripName", .string "Rome"), ("entries", .array [.string "e"])])) sampleEncoder :=
  ⟨rfl, box_eq_object sampleNested sampleEncoder rfl⟩

end Wanderlust.Coding
