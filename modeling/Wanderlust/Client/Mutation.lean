import Wanderlust.Client.FieldValue

/-!
# Mutations

The writes of the client of the database, and what they do to a document: locally, before the
backend has answered (`applyToLocalView`), and to what is known of the document at the backend, when
it has (`applyToRemoteDocument`). The content of a document (`MaybeDocument.content`) is what a
reader gets of it, up to `operator==`. `Mutation.act` is what a `Plain` mutation does to the
content; that is what it does locally (`content_applyToLocalView`) and, when it has no server
timestamps, at the backend (`content_applyToRemoteDocument`).
-/

namespace Wanderlust.Client

/-- The versions of documents; `None` is 0. -/
abbrev SnapshotVersion := ℕ

inductive DocumentState
  | localMutations
  | committedMutations
  | synced
  deriving DecidableEq

/-- What is known of a document: `Document`, `NoDocument` or `UnknownDocument`. -/
inductive MaybeDocument
  | document (data : ObjectValue) (key : DocumentKey) (version : SnapshotVersion)
      (state : DocumentState)
  | noDocument (key : DocumentKey) (version : SnapshotVersion) (hasCommittedMutations : Bool)
  | unknownDocument (key : DocumentKey) (version : SnapshotVersion)

namespace MaybeDocument

def key : MaybeDocument → DocumentKey
  | document _ key _ _ => key
  | noDocument key _ _ => key
  | unknownDocument key _ => key

def version : MaybeDocument → SnapshotVersion
  | document _ _ version _ => version
  | noDocument _ version _ => version
  | unknownDocument _ version => version

def hasPendingWrites : MaybeDocument → Bool
  | document _ _ _ state => state = .localMutations ∨ state = .committedMutations
  | noDocument _ _ hasCommittedMutations => hasCommittedMutations
  | unknownDocument _ _ => true

/-- The data of a `Document`. -/
def data : MaybeDocument → Option ObjectValue
  | document data _ _ _ => some data
  | _ => none

/-- The data, if there is a `Document`. -/
def dataOf (doc : Option MaybeDocument) : Option ObjectValue := doc.bind data

/-- What a reader gets, up to `operator==` (`ObjectValue.equals_iff`). -/
def content (doc : Option MaybeDocument) : Option ObjectValue := (dataOf doc).map ObjectValue.forget

@[simp] theorem dataOf_none : dataOf none = none := rfl

@[simp] theorem dataOf_document (data : ObjectValue) (key : DocumentKey) (v : SnapshotVersion)
    (state : DocumentState) : dataOf (some (document data key v state)) = some data := rfl

@[simp] theorem dataOf_noDocument (key : DocumentKey) (v : SnapshotVersion) (b : Bool) :
    dataOf (some (noDocument key v b)) = none := rfl

@[simp] theorem dataOf_unknownDocument (key : DocumentKey) (v : SnapshotVersion) :
    dataOf (some (unknownDocument key v)) = none := rfl

@[simp] theorem content_none : content none = none := rfl

theorem content_some (doc : MaybeDocument) :
    content (some doc) = doc.data.map ObjectValue.forget := rfl

end MaybeDocument

open MaybeDocument

/-! ## Transforms -/

/-- The operand of an increment, which is asserted to be a number. -/
inductive Number
  | integer (value : Int64)
  | double (bits : UInt64)

inductive TransformOperation
  | serverTimestamp
  | arrayUnion (elements : List FieldValue)
  | arrayRemove (elements : List FieldValue)
  | increment (operand : Number)

/-- `SafeIncrement`. -/
def safeIncrement (x y : Int64) : Int64 :=
  if 0 < x ∧ Int64.maxValue - x < y then Int64.maxValue
  else if x < 0 ∧ y < Int64.minValue - x then Int64.minValue
  else x + y

/-- `FromDouble`: all NaNs are one. -/
def FieldValue.fromDouble (value : Float) : FieldValue :=
  .double (if value.isNaN then 0x7ff8000000000000 else value.toBits)

namespace Number

/-- `AsDouble`. -/
def asDouble : Number → Float
  | integer value => value.toFloat
  | double bits => .ofBits bits

/-- The number that a value is. -/
def ofFieldValue : FieldValue → Option Number
  | .integer value => some (integer value)
  | .double bits => some (double bits)
  | _ => none

def toFieldValue : Number → FieldValue
  | integer value => .integer value
  | double bits => .double bits

/-- The sum: an integer only if both are. -/
def add : Number → Number → FieldValue
  | integer x, integer y => .integer (safeIncrement x y)
  | x, y => .fromDouble (x.asDouble + y.asDouble)

end Number

/-- `CoercedFieldValuesArray`. -/
def coercedFieldValuesArray : Option FieldValue → List FieldValue
  | some (.array elements) => elements
  | _ => []

/-- One pass of the loop of `ArrayTransform::Apply` for `ArrayUnion`. -/
def unionElement (result : List FieldValue) (element : FieldValue) : List FieldValue :=
  if result.any (·.equals element) then result else result ++ [element]

/-- One pass for `ArrayRemove`: one element is removed. -/
def removeElement (result : List FieldValue) (element : FieldValue) : List FieldValue :=
  result.eraseP (·.equals element)

namespace TransformOperation

/-- `ComputeBaseValue` of an increment. -/
def incrementBase (previousValue : Option FieldValue) : Number :=
  (previousValue.bind Number.ofFieldValue).getD (.integer 0)

/-- `ComputeBaseValue`: only increments need one. -/
def computeBaseValue (previousValue : Option FieldValue) :
    TransformOperation → Option FieldValue
  | increment _ => some (incrementBase previousValue).toFieldValue
  | _ => none

def applyToLocalView (previousValue : Option FieldValue) (localWriteTime : Timestamp) :
    TransformOperation → FieldValue
  | serverTimestamp => .serverTimestamp localWriteTime previousValue
  | arrayUnion elements =>
    .array (elements.foldl unionElement (coercedFieldValuesArray previousValue))
  | arrayRemove elements =>
    .array (elements.foldl removeElement (coercedFieldValuesArray previousValue))
  | increment operand => (incrementBase previousValue).add operand

/-- What the backend has computed counts, but for arrays it sends nothing. -/
def applyToRemoteDocument (previousValue : Option FieldValue) (transformResult : FieldValue) :
    TransformOperation → FieldValue
  | serverTimestamp => transformResult
  | arrayUnion elements =>
    .array (elements.foldl unionElement (coercedFieldValuesArray previousValue))
  | arrayRemove elements =>
    .array (elements.foldl removeElement (coercedFieldValuesArray previousValue))
  | increment _ => transformResult

/-- Whether the operation is on an array. -/
def isArrayTransform : TransformOperation → Bool
  | arrayUnion _ => true
  | arrayRemove _ => true
  | _ => false

/-- Whether the operation is idempotent: it is no increment. -/
def isIdempotent : TransformOperation → Bool
  | increment _ => false
  | _ => true

variable {op : TransformOperation}

theorem applyToRemoteDocument_eq (h : op.isArrayTransform) (v : Option FieldValue) (t : Timestamp)
    (result : FieldValue) : op.applyToRemoteDocument v result = op.applyToLocalView v t := by
  cases op <;> first | rfl | cases h

theorem computeBaseValue_eq_none (h : op.isIdempotent) (v : Option FieldValue) :
    op.computeBaseValue v = none := by
  cases op <;> first | rfl | cases h

/-- The array that a value is has, up to `operator==`, elements that depend on the value up to
`operator==`. -/
theorem map_forget_coercedFieldValuesArray (v : Option FieldValue) :
    (coercedFieldValuesArray v).map FieldValue.forget =
      coercedFieldValuesArray (v.map FieldValue.forget) := by
  cases v with
  | none => rfl
  | some x =>
    cases x with
    | array xs => exact (FieldValue.forgetElements_eq_map xs).symm
    | _ => rfl

theorem any_equals_map_forget (r : List FieldValue) (x : FieldValue) :
    (r.map FieldValue.forget).any (·.equals x.forget) = r.any (·.equals x) := by
  rw [List.any_map]
  exact congrArg r.any (funext fun y => FieldValue.equals_forget y x)

theorem map_forget_unionElement (r : List FieldValue) (x : FieldValue) :
    (unionElement r x).map FieldValue.forget =
      unionElement (r.map FieldValue.forget) x.forget := by
  rw [unionElement, unionElement, any_equals_map_forget]
  split
  · rfl
  · rw [List.map_append, List.map_singleton]

theorem map_forget_removeElement (r : List FieldValue) (x : FieldValue) :
    (removeElement r x).map FieldValue.forget =
      removeElement (r.map FieldValue.forget) x.forget := by
  have hcomp : (fun y : FieldValue => y.equals x.forget) ∘ FieldValue.forget = (·.equals x) :=
    funext fun y => FieldValue.equals_forget y x
  rw [removeElement, removeElement, List.eraseP_map, hcomp]

theorem map_forget_foldl {f : List FieldValue → FieldValue → List FieldValue}
    (hf : ∀ r x, (f r x).map FieldValue.forget = f (r.map FieldValue.forget) x.forget)
    (elements r : List FieldValue) :
    (elements.foldl f r).map FieldValue.forget =
      (elements.map FieldValue.forget).foldl f (r.map FieldValue.forget) := by
  induction elements generalizing r with
  | nil => rfl
  | cons x elements ih => rw [List.foldl_cons, ih, List.map_cons, List.foldl_cons, hf]

/-- What the operation makes of a value depends on the value up to `operator==`. -/
theorem forget_applyToLocalView (h : op.isIdempotent) {v v' : Option FieldValue}
    (hv : v.map FieldValue.forget = v'.map FieldValue.forget) (t : Timestamp) :
    (op.applyToLocalView v t).forget = (op.applyToLocalView v' t).forget := by
  cases op with
  | serverTimestamp => rfl
  | arrayUnion elements =>
    simp only [applyToLocalView, FieldValue.forget, FieldValue.forgetElements_eq_map,
      map_forget_foldl map_forget_unionElement, map_forget_coercedFieldValuesArray, hv]
  | arrayRemove elements =>
    simp only [applyToLocalView, FieldValue.forget, FieldValue.forgetElements_eq_map,
      map_forget_foldl map_forget_removeElement, map_forget_coercedFieldValuesArray, hv]
  | increment operand => cases h

end TransformOperation

structure FieldTransform where
  path : FieldPath
  transformation : TransformOperation

/-! ## Mutations -/

inductive Precondition
  | none
  | exists (exists_ : Bool)
  | updateTime (version : SnapshotVersion)

/-- `IsValidFor`. -/
def Precondition.isValidFor (doc : Option MaybeDocument) : Precondition → Bool
  | none => true
  | .exists exists_ => exists_ == (dataOf doc).isSome
  | updateTime v => (dataOf doc).isSome && doc.any (·.version == v)

/-- `SetMutation`, `PatchMutation`, `TransformMutation` and `DeleteMutation`. -/
inductive Mutation
  | set (key : DocumentKey) (value : ObjectValue) (precondition : Precondition)
  | patch (key : DocumentKey) (value : ObjectValue) (mask : FieldMask)
      (precondition : Precondition)
  | transform (key : DocumentKey) (fieldTransforms : List FieldTransform)
  | delete (key : DocumentKey) (precondition : Precondition)

/-- `MutationResult`. -/
structure MutationResult where
  version : SnapshotVersion
  transformResults : Option (List FieldValue)

namespace Mutation

def key : Mutation → DocumentKey
  | set key _ _ => key
  | patch key _ _ _ => key
  | transform key _ => key
  | delete key _ => key

def precondition : Mutation → Precondition
  | set _ _ p => p
  | patch _ _ _ p => p
  | transform _ _ => .exists true
  | delete _ p => p

/-- `GetPostMutationVersion`. -/
def postMutationVersion : Option MaybeDocument → SnapshotVersion
  | some (.document _ _ version _) => version
  | _ => 0

/-- `PatchObject`. -/
def patchObject (value : ObjectValue) (mask : FieldMask) (o : ObjectValue) : ObjectValue :=
  mask.values.foldl (fun o path =>
    if path = [] then o
    else match value.get path with
      | none => o.delete path
      | some new => o.set path new) o

/-- `PatchDocument`. -/
def patchDocument (value : ObjectValue) (mask : FieldMask) (doc : Option MaybeDocument) :
    ObjectValue :=
  patchObject value mask ((dataOf doc).getD .empty)

/-- `Document::field` of a document. -/
def field (doc : Option MaybeDocument) (path : FieldPath) : Option FieldValue :=
  (dataOf doc).bind (·.get path)

/-- `LocalTransformResults`: a field that is not there has the value from before the batch. -/
def localTransformResults (fieldTransforms : List FieldTransform) (doc base : Option MaybeDocument)
    (localWriteTime : Timestamp) : List FieldValue :=
  fieldTransforms.map fun t =>
    t.transformation.applyToLocalView ((field doc t.path).or (field base t.path)) localWriteTime

/-- `ServerTransformResults`, which asserts that there is one for each transform. -/
def serverTransformResults (fieldTransforms : List FieldTransform) (doc : Option MaybeDocument)
    (results : List FieldValue) : List FieldValue :=
  List.zipWith (fun t result => t.transformation.applyToRemoteDocument (field doc t.path) result)
    fieldTransforms results

/-- `TransformObject`. -/
def transformObject (fieldTransforms : List FieldTransform) (results : List FieldValue)
    (o : ObjectValue) : ObjectValue :=
  (fieldTransforms.zip results).foldl (fun o e => o.set e.1.path e.2) o

/-- `ApplyToLocalView`. -/
def applyToLocalView (doc base : Option MaybeDocument) (localWriteTime : Timestamp)
    (m : Mutation) : Option MaybeDocument :=
  if m.precondition.isValidFor doc then
    match m with
    | set key value _ =>
      some (.document value key (postMutationVersion doc) .localMutations)
    | patch key value mask _ =>
      some (.document (patchDocument value mask doc) key (postMutationVersion doc) .localMutations)
    | transform key fieldTransforms =>
      some (.document (transformObject fieldTransforms
        (localTransformResults fieldTransforms doc base localWriteTime)
        ((dataOf doc).getD .empty)) key (postMutationVersion doc) .localMutations)
    | delete key _ => some (.noDocument key 0 false)
  else doc

/-- `ApplyToRemoteDocument`, with its assertion about the results. -/
def applyToRemoteDocument (doc : Option MaybeDocument) (result : MutationResult) :
    Mutation → Option MaybeDocument
  | set key value _ =>
    if result.transformResults.isSome then none
    else some (.document value key result.version .committedMutations)
  | patch key value mask precondition =>
    if result.transformResults.isSome then none
    else if precondition.isValidFor doc then
      some (.document (patchDocument value mask doc) key result.version .committedMutations)
    else some (.unknownDocument key result.version)
  | transform key fieldTransforms =>
    match result.transformResults, dataOf doc with
    | none, _ => none
    | some _, none => some (.unknownDocument key result.version)
    | some results, some data =>
      if results.length ≠ fieldTransforms.length then none
      else some (.document (transformObject fieldTransforms
        (serverTransformResults fieldTransforms doc results) data) key result.version
        .committedMutations)
  | delete key _ =>
    if result.transformResults.isSome then none else some (.noDocument key result.version true)

/-- `ExtractBaseValue`. -/
def extractBaseValue (doc : Option MaybeDocument) : Mutation → Option ObjectValue
  | transform _ fieldTransforms =>
    fieldTransforms.foldl (fun base t =>
      match t.transformation.computeBaseValue (field doc t.path) with
      | none => base
      | some value => some ((base.getD .empty).set t.path value)) none
  | _ => none

/-! ## What mutations do -/

/-- What the transforms make of the data of a document. -/
def transformData (fieldTransforms : List FieldTransform) (time : Timestamp) (data : ObjectValue) :
    ObjectValue :=
  transformObject fieldTransforms
    (fieldTransforms.map fun t => t.transformation.applyToLocalView (data.get t.path) time) data

/-- What a mutation does to the content of its document. -/
def act (time : Timestamp) : Mutation → Option ObjectValue → Option ObjectValue
  | set _ value _, _ => some value.forget
  | patch _ value mask (.exists true), o => o.map fun data => (patchObject value mask data).forget
  | patch _ value mask _, o => some (patchObject value mask (o.getD .empty)).forget
  | transform _ fieldTransforms, o => o.map fun data =>
    (transformData fieldTransforms time data).forget
  | delete _ _, _ => none

/-- The transforms of a `TransformMutation`. -/
def fieldTransforms : Mutation → List FieldTransform
  | transform _ fieldTransforms => fieldTransforms
  | _ => []

/-- A mutation as `setData`, `updateData` and `delete` make them, without increments. -/
structure Plain (m : Mutation) : Prop where
  precondition : m.precondition = .none ∨ m.precondition = .exists true
  set : ∀ k value p, m = .set k value p → p = .none
  delete : ∀ k p, m = .delete k p → p = .none
  transforms : ∀ t ∈ m.fieldTransforms, t.transformation.isIdempotent

variable {m : Mutation} {doc base : Option MaybeDocument} {time : Timestamp}
  {result : MutationResult} {doc' : MaybeDocument}

/-- A plain mutation does not depend on what was there when it was made. -/
theorem extractBaseValue_eq_none (h : m.Plain) : m.extractBaseValue doc = none := by
  cases m with
  | transform key ts =>
    have hts : ∀ t ∈ ts, t.transformation.isIdempotent := h.transforms
    clear h
    rw [extractBaseValue]
    induction ts with
    | nil => rfl
    | cons t ts ih =>
      obtain ⟨ht, hts⟩ := List.forall_mem_cons.mp hts
      rw [List.foldl_cons, TransformOperation.computeBaseValue_eq_none ht]
      exact ih hts
  | _ => rfl

/-- A patch respects `operator==`. -/
theorem forget_patchObject (value : ObjectValue) (mask : FieldMask) {o o' : ObjectValue}
    (h : o.forget = o'.forget) :
    (patchObject value mask o).forget = (patchObject value mask o').forget := by
  rw [patchObject, patchObject]
  generalize mask.values = paths
  induction paths generalizing o o' with
  | nil => exact h
  | cons path paths ih =>
    rw [List.foldl_cons, List.foldl_cons]
    refine ih ?_
    split
    · exact h
    · split
      · rw [ObjectValue.forget_delete, h, ← ObjectValue.forget_delete]
      · rw [ObjectValue.forget_set, h, ← ObjectValue.forget_set]

theorem forget_transformObject (fieldTransforms : List FieldTransform)
    {results results' : List FieldValue} {o o' : ObjectValue}
    (hresults : results.map FieldValue.forget = results'.map FieldValue.forget)
    (h : o.forget = o'.forget) :
    (transformObject fieldTransforms results o).forget =
      (transformObject fieldTransforms results' o').forget := by
  rw [transformObject, transformObject]
  induction fieldTransforms generalizing results results' o o' with
  | nil => exact h
  | cons t fieldTransforms ih =>
    cases results with
    | nil =>
      obtain rfl := List.map_eq_nil_iff.mp hresults.symm
      exact h
    | cons r results =>
      cases results' with
      | nil => exact absurd hresults (List.cons_ne_nil _ _)
      | cons r' results' =>
        obtain ⟨hr, hrest⟩ := List.cons.inj hresults
        refine ih hrest ?_
        rw [ObjectValue.forget_set, ObjectValue.forget_set, hr, h]

/-- Transforms respect `operator==`, too. -/
theorem forget_transformData {fieldTransforms : List FieldTransform}
    (hts : ∀ t ∈ fieldTransforms, t.transformation.isIdempotent) {o o' : ObjectValue}
    (h : o.forget = o'.forget) :
    (transformData fieldTransforms time o).forget =
      (transformData fieldTransforms time o').forget := by
  refine forget_transformObject fieldTransforms ?_ h
  rw [List.map_map, List.map_map]
  refine List.map_congr_left fun t ht => TransformOperation.forget_applyToLocalView (hts t ht) ?_ _
  rw [← ObjectValue.get_forget, h, ObjectValue.get_forget]

theorem serverTransformResults_eq (time : Timestamp) {fieldTransforms : List FieldTransform}
    {results : List FieldValue} (h : ∀ t ∈ fieldTransforms, t.transformation.isArrayTransform)
    (hlength : results.length = fieldTransforms.length) :
    serverTransformResults fieldTransforms doc results =
      fieldTransforms.map fun t => t.transformation.applyToLocalView (field doc t.path) time := by
  induction fieldTransforms generalizing results with
  | nil => rfl
  | cons t fieldTransforms ih =>
    obtain ⟨ht, hrest⟩ := List.forall_mem_cons.mp h
    obtain ⟨result, results, rfl⟩ := List.exists_cons_of_length_eq_add_one hlength
    have hfirst := TransformOperation.applyToRemoteDocument_eq ht (field doc t.path) time result
    rw [List.map_cons, ← ih hrest (Nat.succ.inj hlength), ← hfirst]
    rfl

theorem forget_patchObject_forget (value : ObjectValue) (mask : FieldMask) (data : ObjectValue) :
    (patchObject value mask data.forget).forget = (patchObject value mask data).forget :=
  forget_patchObject value mask data.forget_forget

theorem act_transform {key : DocumentKey} {fieldTransforms : List FieldTransform}
    {data : ObjectValue} (hts : ∀ t ∈ fieldTransforms, t.transformation.isIdempotent)
    (hdoc : dataOf doc = some data) :
    (transform key fieldTransforms).act time (content doc) =
      some (transformData fieldTransforms time data).forget := by
  have hcontent : content doc = some data.forget := by rw [content, hdoc]; rfl
  rw [hcontent, act, Option.map_some, forget_transformData hts data.forget_forget]

/-- What transforms fall back on matters for arrays only. -/
theorem map_forget_localTransformResults {fieldTransforms : List FieldTransform}
    {data : ObjectValue} (hts : ∀ t ∈ fieldTransforms, t.transformation.isIdempotent)
    (hdoc : dataOf doc = some data)
    (hbase : ∀ t ∈ fieldTransforms, t.transformation.isArrayTransform →
      field doc t.path = none → field base t.path = none) :
    (localTransformResults fieldTransforms doc base time).map FieldValue.forget =
      (fieldTransforms.map fun t =>
        t.transformation.applyToLocalView (data.get t.path) time).map FieldValue.forget := by
  have hget : ∀ path, field doc path = data.get path := fun path => by rw [field, hdoc]; rfl
  rw [localTransformResults, List.map_map, List.map_map]
  refine List.map_congr_left fun t ht => ?_
  cases hv : data.get t.path with
  | some v =>
    rw [Function.comp_apply, Function.comp_apply, hget, hv]
    rfl
  | none =>
    rw [Function.comp_apply, Function.comp_apply, hget, hv, Option.none_or]
    cases hop : t.transformation with
    | serverTimestamp => rfl
    | increment operand =>
      exact absurd (hts t ht) (by simp [hop, TransformOperation.isIdempotent])
    | arrayUnion _ | arrayRemove _ =>
      rw [hbase t ht (by rw [hop]; rfl) (by rw [hget, hv])]

/-- Locally, provided that no transform of an array falls back on the value from before the
batch. -/
theorem content_applyToLocalView (h : m.Plain)
    (hbase : ∀ t ∈ m.fieldTransforms, t.transformation.isArrayTransform →
      field doc t.path = none → field base t.path = none) :
    content (m.applyToLocalView doc base time) = m.act time (content doc) := by
  cases m with
  | set key value p =>
    obtain rfl : p = .none := h.set _ _ _ rfl
    rfl
  | patch key value mask p =>
    obtain rfl | rfl : p = .none ∨ p = .exists true := h.precondition
    · cases hdoc : dataOf doc with
      | none => simp [applyToLocalView, precondition, Precondition.isValidFor, act, patchDocument,
          content, hdoc]
      | some data => simp [applyToLocalView, precondition, Precondition.isValidFor, act,
          patchDocument, content, hdoc, forget_patchObject_forget]
    · cases hdoc : dataOf doc with
      | none => simp [applyToLocalView, precondition, Precondition.isValidFor, act, content, hdoc]
      | some data => simp [applyToLocalView, precondition, Precondition.isValidFor, act,
          patchDocument, content, hdoc, forget_patchObject_forget]
  | transform key fieldTransforms =>
    cases hdoc : dataOf doc with
    | none => simp [applyToLocalView, precondition, Precondition.isValidFor, act, content, hdoc]
    | some data =>
      have hts : ∀ t ∈ fieldTransforms, t.transformation.isIdempotent := h.transforms
      rw [act_transform hts hdoc]
      simp only [applyToLocalView, precondition, Precondition.isValidFor, hdoc, Option.isSome_some,
        beq_self_eq_true, if_true, content, dataOf_document, Option.map_some, Option.getD_some,
        Option.some.injEq]
      exact forget_transformObject fieldTransforms
        (map_forget_localTransformResults hts hdoc hbase) rfl
  | delete key p =>
    obtain rfl : p = .none := h.delete _ _ rfl
    rfl

/-- What the backend has acknowledged is pending until the backend sends it. -/
theorem acknowledged (hr : m.applyToRemoteDocument doc result = some doc') :
    doc'.key = m.key ∧ doc'.version = result.version ∧ doc'.hasPendingWrites = true := by
  cases m with
  | set key value p =>
    simp only [applyToRemoteDocument] at hr
    split at hr <;> cases hr
    exact ⟨rfl, rfl, rfl⟩
  | patch key value mask p =>
    simp only [applyToRemoteDocument] at hr
    split at hr
    · cases hr
    · split at hr <;> cases hr <;> exact ⟨rfl, rfl, rfl⟩
  | transform key fieldTransforms =>
    simp only [applyToRemoteDocument] at hr
    split at hr
    · cases hr
    · cases hr
      exact ⟨rfl, rfl, rfl⟩
    · split at hr <;> cases hr
      exact ⟨rfl, rfl, rfl⟩
  | delete key p =>
    simp only [applyToRemoteDocument] at hr
    split at hr <;> cases hr
    exact ⟨rfl, rfl, rfl⟩

/-- At the backend. -/
theorem content_applyToRemoteDocument (h : m.Plain)
    (harray : ∀ t ∈ m.fieldTransforms, t.transformation.isArrayTransform)
    (hr : m.applyToRemoteDocument doc result = some doc') :
    content (some doc') = m.act time (content doc) := by
  cases m with
  | set key value p =>
    simp only [applyToRemoteDocument] at hr
    split at hr <;> cases hr
    rfl
  | patch key value mask p =>
    simp only [applyToRemoteDocument] at hr
    split at hr
    · cases hr
    · obtain rfl | rfl : p = .none ∨ p = .exists true := h.precondition
      · cases hr
        cases hdoc : dataOf doc <;>
          simp [act, patchDocument, content, hdoc, forget_patchObject_forget]
      · simp only [Precondition.isValidFor] at hr
        cases hdoc : dataOf doc <;> simp [hdoc] at hr <;> subst hr <;>
          simp [act, patchDocument, content, hdoc, forget_patchObject_forget]
  | transform key fieldTransforms =>
    simp only [applyToRemoteDocument] at hr
    split at hr
    · cases hr
    · rename_i hdoc
      cases hr
      simp [act, content, hdoc]
    · rename_i results data hresults hdoc
      split at hr
      · cases hr
      · rename_i hlength
        cases hr
        have hts : ∀ t ∈ fieldTransforms, t.transformation.isIdempotent := h.transforms
        rw [act_transform hts hdoc]
        have hlocal : serverTransformResults fieldTransforms doc results = _ :=
          serverTransformResults_eq time harray (not_not.mp hlength)
        simp only [content, dataOf_document, Option.map_some, transformData, hlocal, field, hdoc,
          Option.bind_some]
  | delete key p =>
    simp only [applyToRemoteDocument] at hr
    split at hr <;> cases hr
    rfl

/-- A patch of other fields. -/
def Keeps (path : FieldPath) : Mutation → Prop
  | patch _ _ mask _ => ∀ p ∈ mask.values, Unrelated p path
  | _ => False

theorem get_patchObject {value : ObjectValue} {mask : FieldMask} {path : FieldPath}
    (h : ∀ p ∈ mask.values, Unrelated p path) (o : ObjectValue) :
    (patchObject value mask o).get path = o.get path := by
  rw [patchObject]
  generalize mask.values = paths at h
  induction paths generalizing o with
  | nil => rfl
  | cons p paths ih =>
    obtain ⟨hp, hrest⟩ := List.forall_mem_cons.mp h
    rw [List.foldl_cons, ih _ hrest]
    split
    · rfl
    · split
      · exact ObjectValue.get_delete_of_unrelated hp o
      · exact ObjectValue.get_set_of_unrelated hp _ o

/-- A patch of other fields takes a field from no document. -/
theorem Keeps.field {path : FieldPath} (hk : m.Keeps path)
    (hnone : Mutation.field (m.applyToLocalView doc base time) path = none) :
    Mutation.field doc path = none := by
  cases m with
  | patch key value mask p =>
    rw [applyToLocalView] at hnone
    split at hnone
    · cases hdoc : dataOf doc with
      | none => rw [Mutation.field, hdoc]; rfl
      | some data =>
        simp only [Mutation.field, dataOf_document, Option.bind_some, patchDocument, hdoc,
          Option.getD_some, get_patchObject hk] at hnone
        rw [Mutation.field, hdoc]
        exact hnone
    · exact hnone
  | _ => exact hk.elim

end Mutation

end Wanderlust.Client
