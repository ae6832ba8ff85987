import Wanderlust.Coding.Accepted

/-!
# Encoding and decoding

How the compiler makes a structure encodable: each member is encoded for its key, an optional one
with `encodeIfPresent`. A member with `@DocumentID` is handed to the encoder too, which does not
look at it: its own `encode(to:)` would throw.

So what has been written from one document can be read from another. What comes back is what was
written, but for the names of documents (`decode_encode`).
-/

namespace Wanderlust.Coding

open Throwing

/-! ## Encoding -/

/-- `encode(_:forKey:)` of a member. -/
def Ty.encodeKey (t : Ty) (encodable : t.El → Encodable) (key : String) (v : t.El) (next : Encode) :
    Encode :=
  match t, encodable, v with
  | .scalar s, _, v => .keyed key (s.object v) next
  | _, encodable, v => .keyedValue key false (encodable v) next

/-- The elements of an array, one after the other. -/
def encodeElements {α : Type} (encodable : α → Encodable) : List α → Encode
  | [] => .done
  | v :: vs => .unkeyedValue (encodable v) (encodeElements encodable vs)

mutual

/-- The `encode(to:)` of a value. -/
def Ty.encodable : (t : Ty) → t.El → Encodable
  | .scalar s, v => .value (.single (s.object v) .done)
  | .timestamp, t => .native (.timestamp t)
  | .geoPoint, g => .native (.geoPoint g)
  | .array t, vs => .value (.unkeyedContainer (encodeElements (fun v => t.encodable v) vs))
  | .struct _ members, v => .value (.keyedContainer (members.encode v))

def Members.encode : (members : Members) → members.El → Encode
  | .nil, _ => .done
  | .required key t rest, v =>
    t.encodeKey (fun v => t.encodable v) key v.1 (rest.encode v.2)
  | .optional key t rest, v => match v.1 with
    | none => rest.encode v.2
    | some w => t.encodeKey (fun v => t.encodable v) key w (rest.encode v.2)
  | .documentID key rest, v =>
    .keyedValue key true
      (.value (.throw "DocumentID values can only be encoded with Firestore.Encoder"))
      (rest.encode v.2)

end

/-! ## What is written -/

mutual

/-- What is written for a value. -/
def Ty.object : (t : Ty) → t.El → NSObject
  | .scalar s, v => s.object v
  | .timestamp, t => .timestamp t
  | .geoPoint, g => .geoPoint g
  | .array t, vs => .array (List.map (fun v => t.object v) vs)
  | .struct _ members, v => .dictionary (members.fields v [])

/-- The dictionary with the members of a structure. -/
def Members.fields : (members : Members) → members.El → Dictionary String NSObject →
    Dictionary String NSObject
  | .nil, _, container => container
  | .required key t rest, v, container =>
    rest.fields v.2 (Dictionary.set key (t.object v.1) container)
  | .optional key t rest, v, container => match v.1 with
    | none => rest.fields v.2 container
    | some w => rest.fields v.2 (Dictionary.set key (t.object w) container)
  | .documentID _ rest, v, container => rest.fields v.2 container

end

theorem object_encodeElements {α : Type} {encodable : α → Encodable} {object : α → NSObject}
    (h : ∀ v, (encodable v).object = .ok (some (object v))) :
    ∀ (vs : List α) (xs : List NSObject), (encodeElements encodable vs).object (some (.array xs)) =
      .ok (some (.array (xs ++ vs.map object)))
  | [], xs => by simp [encodeElements, Encode.object]
  | v :: vs, xs => by
    have hrest := object_encodeElements h vs (xs ++ [object v])
    rw [List.append_assoc] at hrest
    have hv : (encodeElements encodable (v :: vs)).object (some (.array xs)) =
        ((encodable v).object >>= fun o => (encodeElements encodable vs).object
          (some (.array (xs ++ [o.getD .noDictionary])))) := rfl
    rw [hv, h v]
    exact hrest

/-- A member is set. -/
theorem object_encodeKey {t : Ty} {encodable : t.El → Encodable} {key : String} {v : t.El}
    {next : Encode} {container : Dictionary String NSObject}
    (h : (encodable v).object = .ok (some (t.object v))) :
    (t.encodeKey encodable key v next).object (some (.dictionary container)) =
      next.object (some (.dictionary (Dictionary.set key (t.object v) container))) := by
  have hvalue : (Encode.keyedValue key false (encodable v) next).object
      (some (.dictionary container)) = ((encodable v).object >>= fun o =>
        next.object
          (some (.dictionary (Dictionary.set key (o.getD .noDictionary) container)))) := rfl
  rw [h] at hvalue
  cases t with
  | scalar s => rfl
  | timestamp | geoPoint | array | struct => exact hvalue

mutual

theorem object_encodable : ∀ (t : Ty) (v : t.El),
    (t.encodable v).object = .ok (some (t.object v))
  | .scalar _, _ => rfl
  | .timestamp, _ => rfl
  | .geoPoint, _ => rfl
  | .array t, vs => object_encodeElements (object_encodable t) vs []
  | .struct _ members, v => object_encodeMembers members v []

theorem object_encodeMembers : ∀ (members : Members) (v : members.El)
    (container : Dictionary String NSObject),
    (members.encode v).object (some (.dictionary container)) =
      .ok (some (.dictionary (members.fields v container)))
  | .nil, _, _ => rfl
  | .required _ t rest, v, _ =>
    (object_encodeKey (object_encodable t v.1)).trans (object_encodeMembers rest v.2 _)
  | .optional _ _ rest, (none, vs), container => object_encodeMembers rest vs container
  | .optional _ t rest, (some w, vs), _ =>
    (object_encodeKey (object_encodable t w)).trans (object_encodeMembers rest vs _)
  | .documentID _ rest, v, container => object_encodeMembers rest v.2 container

end

theorem encode_eq_fields (T : String) (members : Members) (v : members.El) :
    encode T ((Ty.struct T members).encodable v) = .ok (members.fields v []) := by
  rw [encode_eq]
  have h := object_encodable (.struct T members) v
  change (((Ty.struct T members).encodable v).object >>= _) = _
  rw [h]
  rfl

/-! ## What is read again -/

def Members.keys : Members → List String
  | .nil => []
  | .required key _ rest | .optional key _ rest | .documentID key rest => key :: rest.keys

mutual

/-- No structure has two members with one key. -/
def Ty.Distinct : Ty → Prop
  | .scalar _ | .timestamp | .geoPoint => True
  | .array t => t.Distinct
  | .struct _ members => members.Distinct

def Members.Distinct : Members → Prop
  | .nil => True
  | .required key t rest | .optional key t rest => key ∉ rest.keys ∧ t.Distinct ∧ rest.Distinct
  | .documentID key rest => key ∉ rest.keys ∧ rest.Distinct

end

mutual

/-- The value in another document. -/
def Ty.movedTo (document : Option DocumentReference) : (t : Ty) → t.El → t.El
  | .scalar _, v => v
  | .timestamp, t => t
  | .geoPoint, g => g
  | .array t, vs => List.map (fun v => t.movedTo document v) vs
  | .struct _ members, v => members.movedTo document v

def Members.movedTo (document : Option DocumentReference) : (members : Members) → members.El →
    members.El
  | .nil, v => v
  | .required _ t rest, v => (t.movedTo document v.1, rest.movedTo document v.2)
  | .optional _ t rest, v => (v.1.map fun w => t.movedTo document w, rest.movedTo document v.2)
  | .documentID _ rest, v =>
    (document.map DocumentReference.documentID, rest.movedTo document v.2)

end

/-- Only the keys of members are set. -/
theorem lookup_fields : ∀ (members : Members) (v : members.El)
    (container : Dictionary String NSObject) (key : String), key ∉ members.keys →
    List.lookup key (members.fields v container) = List.lookup key container
  | .nil, _, _, _, _ => rfl
  | .required _ _ rest, v, _, key, h => by
    obtain ⟨hne, h⟩ := not_or.mp (mt List.mem_cons.mpr h)
    exact (lookup_fields rest v.2 _ key h).trans (by rw [Dictionary.lookup_set, if_neg hne])
  | .optional _ _ rest, (none, vs), container, key, h =>
    lookup_fields rest vs container key (List.not_mem_of_not_mem_cons h)
  | .optional _ _ rest, (some w, vs), _, key, h => by
    obtain ⟨hne, h⟩ := not_or.mp (mt List.mem_cons.mpr h)
    exact (lookup_fields rest vs _ key h).trans (by rw [Dictionary.lookup_set, if_neg hne])
  | .documentID _ rest, v, container, key, h =>
    lookup_fields rest v.2 container key (List.not_mem_of_not_mem_cons h)

theorem Ty.object_ne_null (t : Ty) (v : t.El) : t.object v ≠ .null := by
  cases t with
  | scalar s => exact s.object_ne_null v
  | timestamp | geoPoint | array | struct => exact nofun

/-- A container without the keys of some members, after one has been set that is not among them. -/
theorem lookup_set_eq_none {members : Members} {container : Dictionary String NSObject}
    {key : String} (x : NSObject) (hkey : key ∉ members.keys)
    (hc : ∀ k ∈ members.keys, List.lookup k container = none) :
    ∀ k ∈ members.keys, List.lookup k (Dictionary.set key x container) = none := by
  intro k hk
  have hne : k ≠ key := by
    rintro rfl
    exact hkey hk
  rw [Dictionary.lookup_set, if_neg hne]
  exact hc k hk

/-- The elements of two arrays that have been made from the same. -/
theorem forall₂_map {α β γ : Type} {R : α → β → Prop} {f : γ → α} {g : γ → β}
    (h : ∀ v, R (f v) (g v)) (vs : List γ) : List.Forall₂ R (vs.map f) (vs.map g) := by
  rw [List.forall₂_map_left_iff, List.forall₂_map_right_iff, List.forall₂_same]
  exact fun v _ => h v

mutual

theorem stores_object (document : Option DocumentReference) : ∀ (t : Ty) (v : t.El), t.Distinct →
    t.Stores document (t.movedTo document v) (t.object v)
  | .scalar _, _, _ => rfl
  | .timestamp, _, _ => .inl rfl
  | .geoPoint, _, _ => .inl rfl
  | .array t, vs, h => ⟨_, rfl, forall₂_map (fun v => stores_object document t v h) vs⟩
  | .struct _ members, v, h =>
    ⟨_, rfl, stores_fields document members v [] h fun _ _ => rfl⟩

theorem stores_fields (document : Option DocumentReference) : ∀ (members : Members)
    (v : members.El) (container : Dictionary String NSObject), members.Distinct →
    (∀ k ∈ members.keys, List.lookup k container = none) →
    members.Stores document (members.movedTo document v) (members.fields v container)
  | .nil, _, _, _, _ => trivial
  | .required key t rest, v, container, ⟨hkey, ht, hrest⟩, hc => by
    have hc := fun k hk => hc k (List.mem_cons_of_mem _ hk)
    refine ⟨⟨t.object v.1, ?_, stores_object document t v.1 ht⟩,
      stores_fields document rest v.2 _ hrest (lookup_set_eq_none _ hkey hc)⟩
    exact (lookup_fields rest v.2 _ key hkey).trans (by rw [Dictionary.lookup_set, if_pos rfl])
  | .optional key t rest, (none, vs), container, ⟨hkey, _, hrest⟩, hc => by
    refine ⟨.inl ?_, stores_fields document rest vs container hrest
      fun k hk => hc k (List.mem_cons_of_mem _ hk)⟩
    exact (lookup_fields rest vs container key hkey).trans (hc key List.mem_cons_self)
  | .optional key t rest, (some w, vs), container, ⟨hkey, ht, hrest⟩, hc => by
    have hc := fun k hk => hc k (List.mem_cons_of_mem _ hk)
    refine ⟨⟨t.object w, ?_, t.object_ne_null w, stores_object document t w ht⟩,
      stores_fields document rest vs _ hrest (lookup_set_eq_none _ hkey hc)⟩
    exact (lookup_fields rest vs _ key hkey).trans (by rw [Dictionary.lookup_set, if_pos rfl])
  | .documentID key rest, v, container, ⟨hkey, hrest⟩, hc => by
    refine ⟨⟨?_, rfl⟩, stores_fields document rest v.2 container hrest
      fun k hk => hc k (List.mem_cons_of_mem _ hk)⟩
    exact (lookup_fields rest v.2 container key hkey).trans (hc key List.mem_cons_self)

end

/-- A value that has been written to one document and is read from another. -/
theorem decode_fields (T : String) {members : Members} (h : members.Distinct) (v : members.El)
    (document : Option DocumentReference) :
    decode (.struct T members) (members.fields v []) document =
      .ok (members.movedTo document v) :=
  (decode_eq_ok_iff T members _ document _).mpr
    (stores_fields document members v [] h fun _ _ => rfl)

/-- What the encoder makes of a value can be decoded, and gives the value again, with the name of
the document that it is read from in place of that which it was written with. -/
theorem decode_encode (T : String) (members : Members) (h : members.Distinct) (v : members.El)
    (document : Option DocumentReference) :
    ∃ container, encode T ((Ty.struct T members).encodable v) = .ok container ∧
      decode (.struct T members) container document = .ok (members.movedTo document v) :=
  ⟨_, encode_eq_fields T members v, decode_fields T h v document⟩

/-- Some of the members of a user. -/
def sampleMembers : Members :=
  .documentID "uid" (.required "trips" (.array (.scalar .string))
    (.optional "photoUrl" (.scalar .string) .nil))

theorem decode_encode_sample : sampleMembers.Distinct ∧
    ∃ container, encode "User" ((Ty.struct "User" sampleMembers).encodable
        (none, ["rome", "oslo"], none, ())) = .ok container ∧
      decode (.struct "User" sampleMembers) container (some ⟨"users", "u"⟩) =
        .ok (some "u", ["rome", "oslo"], none, ()) :=
  have h : sampleMembers.Distinct :=
    ⟨by decide, by decide, trivial, nofun, trivial, trivial⟩
  ⟨h, decode_encode "User" sampleMembers h (none, ["rome", "oslo"], none, ())
    (some ⟨"users", "u"⟩)⟩

end Wanderlust.Coding
