import Mathlib
import UltraNoteCore.Serialization.KVBinary

/-!
# Loading a message: `JsonInputValueSerializer`

`loadFromBinaryKeyValue` (and `LevinProtocol::decode`, the same code on a `BinaryArray`) parses
the portable storage into a `JsonValue` (`parseBinary`) and runs the message's `serialize` on a
`KVBinaryInputStreamSerializer`: a `JsonInputValueSerializer` over that value, whose `binary`
reads a string. The serializer keeps the chain of the values open for reading, innermost
first, and for each open array the index of its next item. A member is looked up under its name
in the innermost object, or is the next item of the innermost array. A member that is not there
leaves the message's member as it was, and a container that is not there is cleared.

A message's `serialize` on input is driven by the message's type: `KVType` says what each member
is (an `operator()` type, a string block, a block of a fixed size, a nested object, a
container) and what a value-initialized one holds. The model loads into a value-initialized
message, as the callers do (`binMethod` of `RpcServer`, the handlers that call
`LevinProtocol::decode`). A failure is `none`: the source returns `false` then and leaves the
message partly loaded, how far the model does not say. Calls on an empty chain, which a debug
`assert` guards, are undefined in the source; the model reads nothing there.

## Main definitions

* the `JsonValue` accessors the serializer uses: `getObject`, `getInteger`, `contains`,
  `atKey` (`operator()`), `atIndex` (`operator[]`), `size`
* `JsonInputValueSerializer` and its methods, `KVBinaryInputStreamSerializer.binary`
* `KVType`, `KVType.loadMember`, `loadFromBinaryKeyValue`
* `KVType.admits`: the values a member of a type can hold

## Main results

* `lookup_membersJson`: in a section the reader builds, a member's name finds the member, when
  the names are distinct
* `KVType.loadMember_field`, `KVType.loadMember_item`: a member loads as the value the writer
  wrote, in an object and in a container
* `loadFromBinaryKeyValue_storeToBinaryKeyValue`: a message written by `storeToBinaryKeyValue`
  loads back as itself into a message of a type that admits it
-/

namespace UltraNoteCore

open common Codec

namespace common

namespace JsonValue

/-! ## The accessors of `JsonValue` -/

/-- `JsonValue::isArray`. -/
def isArray : JsonValue → Bool
  | .array _ => true
  | _ => false

/-- `JsonValue::isObject`. -/
def isObject : JsonValue → Bool
  | .object _ => true
  | _ => false

/-- `JsonValue::getArray`. -/
def getArray : JsonValue → Except String (List JsonValue)
  | .array elements => pure elements
  | _ => throw "JsonValue type is not ARRAY"

/-- `JsonValue::getObject`. -/
def getObject : JsonValue → Except String (List (List UInt8 × JsonValue))
  | .object members => pure members
  | _ => throw "JsonValue type is not OBJECT"

/-- `JsonValue::getInteger`. -/
def getInteger : JsonValue → Except String Int64
  | .integer value => pure value
  | _ => throw "JsonValue type is not INTEGER"

/-- `JsonValue::getString`. -/
def getString : JsonValue → Except String (List UInt8)
  | .string value => pure value
  | _ => throw "JsonValue type is not STRING"

/-- `JsonValue::getBool`. -/
def getBool : JsonValue → Except String Bool
  | .bool value => pure value
  | _ => throw "JsonValue type is not BOOL"

/-- `JsonValue::size`: the items of an array or the members of an object. -/
def size : JsonValue → Except String ℕ
  | .array elements => pure elements.length
  | .object members => pure members.length
  | _ => throw "JsonValue type is not ARRAY or OBJECT"

/-- `JsonValue::operator[](index)`: `std::vector::at`, which throws `std::out_of_range` past the
end. -/
def atIndex (value : JsonValue) (index : ℕ) : Except String JsonValue := do
  let elements ← value.getArray
  match elements[index]? with
  | some element => pure element
  | none => throw "std::out_of_range"

/-- `JsonValue::contains(key)`: `count(key) > 0` on the object's map. -/
def contains (value : JsonValue) (key : List UInt8) : Except String Bool := do
  let members ← value.getObject
  pure (members.lookup key).isSome

/-- `JsonValue::operator()(key)`: `std::map::at`, which throws `std::out_of_range` for a key not
in the map. -/
def atKey (value : JsonValue) (key : List UInt8) : Except String JsonValue := do
  let members ← value.getObject
  match members.lookup key with
  | some member => pure member
  | none => throw "std::out_of_range"

end JsonValue

end common

/-! ## The serializer -/

/-- `JsonInputValueSerializer`: the values open for reading, innermost first (the `chain` of
pointers into the root, whose `back()` is the head here), and the index of the next item of
each open array, innermost first. -/
structure JsonInputValueSerializer where
  chain : List JsonValue
  idxs : List ℕ
deriving Repr

namespace JsonInputValueSerializer

/-- A method of the serializer: it reads and updates the serializer, and may throw. -/
abbrev Op (α : Type) := StateT JsonInputValueSerializer (Except String) α

/-- The constructor: the root must be an object. -/
def init (value : JsonValue) : Except String JsonInputValueSerializer :=
  if value.isObject then pure ⟨[value], []⟩
  else throw "Serializer doesn't support this type of serialization: Object expected."

/-- `beginObject`: inside an array its next item, otherwise the member `name` when there is
one. -/
def beginObject (name : List UInt8) : Op Bool := do
  let s ← get
  match s.chain with
  | [] => pure false
  | parent :: _ =>
    if parent.isArray then
      match s.idxs with
      | [] => pure false
      | i :: idxs =>
        let v ← parent.atIndex i
        set (⟨v :: s.chain, (i + 1) :: idxs⟩ : JsonInputValueSerializer)
        pure true
    else if ← parent.contains name then
      let v ← parent.atKey name
      set (⟨v :: s.chain, s.idxs⟩ : JsonInputValueSerializer)
      pure true
    else pure false

/-- `endObject`: the object is closed. -/
def endObject : Op Unit :=
  modify fun s => ⟨s.chain.drop 1, s.idxs⟩

/-- `beginArray`: the member `name` with its size, when there is one; a size of zero
otherwise. -/
def beginArray (name : List UInt8) : Op (Bool × ℕ) := do
  let s ← get
  match s.chain with
  | [] => pure (false, 0)
  | parent :: _ =>
    if ← parent.contains name then
      let arr ← parent.atKey name
      let size ← arr.size
      set (⟨arr :: s.chain, 0 :: s.idxs⟩ : JsonInputValueSerializer)
      pure (true, size)
    else pure (false, 0)

/-- `endArray`: the container is closed. -/
def endArray : Op Unit :=
  modify fun s => ⟨s.chain.drop 1, s.idxs.drop 1⟩

/-- `getValue`: inside an array its next item, otherwise the member `name` when there is one. -/
def getValue (name : List UInt8) : Op (Option JsonValue) := do
  let s ← get
  match s.chain with
  | [] => pure none
  | val :: _ =>
    if val.isArray then
      match s.idxs with
      | [] => pure none
      | i :: idxs =>
        let v ← val.atIndex i
        set (⟨s.chain, (i + 1) :: idxs⟩ : JsonInputValueSerializer)
        pure (some v)
    else if ← val.contains name then some <$> val.atKey name
    else pure none

/-- `getNumber<T>`: the value's integer, `static_cast` to `T` by `cast`. -/
def getNumber {α : Type} (cast : Int64 → α) (name : List UInt8) : Op (Option α) := do
  match ← getValue name with
  | none => pure none
  | some v => some <$> (cast <$> v.getInteger : Except String α)

/-- `operator()(uint8_t&)`. -/
def serializeUInt8 := getNumber fun v => v.toUInt64.toUInt8
/-- `operator()(int16_t&)`. -/
def serializeInt16 := getNumber Int64.toInt16
/-- `operator()(uint16_t&)`. -/
def serializeUInt16 := getNumber fun v => v.toUInt64.toUInt16
/-- `operator()(int32_t&)`. -/
def serializeInt32 := getNumber Int64.toInt32
/-- `operator()(uint32_t&)`. -/
def serializeUInt32 := getNumber fun v => v.toUInt64.toUInt32
/-- `operator()(int64_t&)`. -/
def serializeInt64 := getNumber fun v => v
/-- `operator()(uint64_t&)`. -/
def serializeUInt64 := getNumber Int64.toUInt64

/-- `operator()(bool&)`. -/
def serializeBool (name : List UInt8) : Op (Option Bool) := do
  match ← getValue name with
  | none => pure none
  | some v => some <$> (v.getBool : Except String Bool)

/-- `operator()(std::string&)`. -/
def serializeString (name : List UInt8) : Op (Option (List UInt8)) := do
  match ← getValue name with
  | none => pure none
  | some v => some <$> (v.getString : Except String (List UInt8))

/-- The overload of `operator()` the type of a member selects: the value read, when the member
is there. -/
def serializeValue : SerializerValue → List UInt8 → Op (Option SerializerValue)
  | .uint8 _, name => Option.map .uint8 <$> serializeUInt8 name
  | .int16 _, name => Option.map .int16 <$> serializeInt16 name
  | .uint16 _, name => Option.map .uint16 <$> serializeUInt16 name
  | .int32 _, name => Option.map .int32 <$> serializeInt32 name
  | .uint32 _, name => Option.map .uint32 <$> serializeUInt32 name
  | .int64 _, name => Option.map .int64 <$> serializeInt64 name
  | .uint64 _, name => Option.map .uint64 <$> serializeUInt64 name
  | .bool _, name => Option.map .bool <$> serializeBool name
  | .string _, name => Option.map .string <$> serializeString name

end JsonInputValueSerializer

namespace KVBinaryInputStreamSerializer

open JsonInputValueSerializer

/-- The constructor: the serializer over the value `parseBinary` reads. -/
def init (input : List UInt8) : Except String JsonInputValueSerializer := do
  let root ← KVBinaryInput.parseBinary input
  JsonInputValueSerializer.init root

/-- `binary(std::string&, name)`: the block is read as a string. -/
def binary (name : List UInt8) : Op (Option (List UInt8)) := serializeString name

/-- `binary(void*, size, name)`: a string that must have the block's size. -/
def binaryBlock (size : ℕ) (name : List UInt8) : Op (Option (List UInt8)) := do
  match ← serializeString name with
  | none => pure none
  | some str =>
    if str.length ≠ size then throw "Binary block size mismatch"
    else pure (some str)

end KVBinaryInputStreamSerializer

/-! ## A message's `serialize` on input -/

/-- The type of a member as its `serialize` loads it: an `operator()` type with the value a
value-initialized one holds, a string block (`binary(std::string&, name)`), a block of a fixed
size (`binary(void*, size, name)`), a nested object, or a container of items of one type. -/
inductive KVType where
  | value (init : SerializerValue)
  | binary
  | block (size : ℕ)
  | object (fields : List (List UInt8 × KVType))
  | array (item : KVType)
deriving Repr

namespace KVType

open JsonInputValueSerializer

mutual

/-- A value-initialized member: an empty block or container, a block of zero bytes. -/
def default : KVType → KVValue
  | .value init => .value init
  | .binary => .binary []
  | .block size => .binary (List.replicate size 0)
  | .object fields => .object (defaultFields fields)
  | .array _ => .array []

/-- The members of a value-initialized object. -/
def defaultFields : List (List UInt8 × KVType) → List (List UInt8 × KVValue)
  | [] => []
  | (name, t) :: fields => (name, t.default) :: defaultFields fields

end

/-- The loop of `serializeContainer` on input: `count` items, each loaded by `load`. -/
def loadItems (load : Op KVValue) : ℕ → Op (List KVValue)
  | 0 => pure []
  | count + 1 => do
    let item ← load
    let items ← loadItems load count
    pure (item :: items)

mutual

/-- `serializer(value, name)` on input, for a value-initialized member of type `t`: what the
member holds after it. -/
def loadMember : KVType → List UInt8 → Op KVValue
  | .value init, name => do
    let r ← serializeValue init name
    pure (.value (r.getD init))
  | .binary, name => do
    let r ← KVBinaryInputStreamSerializer.binary name
    pure (.binary (r.getD []))
  | .block size, name => do
    let r ← KVBinaryInputStreamSerializer.binaryBlock size name
    pure (.binary (r.getD (List.replicate size 0)))
  | .object fields, name => do
    -- `serialize(value, name, s)`: the object stays as it was when `beginObject` fails
    if ← beginObject name then
      let members ← loadFields fields
      endObject
      pure (.object members)
    else pure (.object (defaultFields fields))
  | .array item, name => do
    -- `serializeContainer`: a container that is not there is cleared; otherwise it is resized
    -- to the size read and each item is loaded under the empty name
    let (found, size) ← beginArray name
    if found then
      let items ← loadItems (loadMember item []) size
      endArray
      pure (.array items)
    else pure (.array [])

/-- `value.serialize(s)` on input: the members one after the other. -/
def loadFields : List (List UInt8 × KVType) → Op (List (List UInt8 × KVValue))
  | [] => pure []
  | (name, t) :: fields => do
    let v ← loadMember t name
    let members ← loadFields fields
    pure ((name, v) :: members)

end

end KVType

/-- `loadFromBinaryKeyValue(v, buf)` on a value-initialized message whose members have the types
`fields`: the message after it, or `none` where it returns `false`. -/
def loadFromBinaryKeyValue (fields : List (List UInt8 × KVType)) (buf : List UInt8) :
    Option (List (List UInt8 × KVValue)) :=
  match (do
      let s ← KVBinaryInputStreamSerializer.init buf
      (KVType.loadFields fields).run' s : Except String _) with
  | .ok members => some members
  | .error _ => none

/-! ## A member of a section

The reader inserts the entries of a section with `emplaceMember`, which keeps the keys in
increasing order and the first entry of a key. In such a list a key finds the entry inserted
first under it; when the names of a message's fields are distinct, each name finds its field. -/

namespace common

/-- The keys increase strictly, as the keys of a `std::map` do. -/
def SortedMembers (sec : List (List UInt8 × JsonValue)) : Prop :=
  (sec.map Prod.fst).Pairwise (· < ·)

variable {name : List UInt8} {member : JsonValue}

theorem lookup_cons_eq (n key : List UInt8) (value : JsonValue)
    (sec : List (List UInt8 × JsonValue)) :
    ((key, value) :: sec).lookup n = if n = key then some value else sec.lookup n := by
  rw [List.lookup_cons]
  by_cases h : n = key
  · simp [h]
  · rw [if_neg h, beq_false_of_ne h]

theorem lookup_eq_none_of_lt {key : List UInt8} {value : JsonValue}
    {sec : List (List UInt8 × JsonValue)} (hsorted : SortedMembers ((key, value) :: sec))
    (hlt : name < key) : ((key, value) :: sec).lookup name = none := by
  rw [SortedMembers, List.map_cons, List.pairwise_cons] at hsorted
  rw [List.lookup_eq_none_iff]
  rintro ⟨k, v⟩ hmem
  simp only [bne_iff_ne, ne_eq]
  rintro rfl
  rcases List.mem_cons.mp hmem with heq | hrest
  · cases heq
    exact List.lt_irrefl _ hlt
  · exact List.lt_asymm hlt (hsorted.1 _ (List.mem_map_of_mem hrest))

theorem mem_keys_emplaceMember {k : List UInt8} :
    ∀ {sec : List (List UInt8 × JsonValue)}, k ∈ (emplaceMember name member sec).map Prod.fst →
      k = name ∨ k ∈ sec.map Prod.fst
  | [], hk => by simpa [emplaceMember] using hk
  | (key, value) :: rest, hk => by
    unfold emplaceMember at hk
    split_ifs at hk
    · simpa using hk
    · exact .inr hk
    · simp only [List.map_cons, List.mem_cons] at hk ⊢
      rcases hk with hk | hk
      · exact .inr (.inl hk)
      · rcases mem_keys_emplaceMember hk with h | h
        · exact .inl h
        · exact .inr (.inr h)

theorem sortedMembers_emplaceMember :
    ∀ {sec : List (List UInt8 × JsonValue)}, SortedMembers sec →
      SortedMembers (emplaceMember name member sec)
  | [], _ => by simp [SortedMembers, emplaceMember]
  | (key, value) :: rest, hsorted => by
    have hcons := hsorted
    rw [SortedMembers, List.map_cons, List.pairwise_cons] at hcons
    unfold emplaceMember
    split_ifs with hlt heq
    · -- the new key goes first: it is below `key`, which is below the rest
      rw [SortedMembers, List.map_cons, List.pairwise_cons]
      refine ⟨fun k hk => ?_, hsorted⟩
      rcases List.mem_cons.mp hk with rfl | hk
      · exact hlt
      · exact List.lt_trans hlt (hcons.1 k hk)
    · exact hsorted
    · -- `key` stays first: it is below the new key and below the rest
      have hkey : key < name := by
        rcases (List.le_iff_lt_or_eq.mp (List.not_lt.mp hlt)) with h | h
        · exact h
        · exact absurd h.symm heq
      rw [SortedMembers, List.map_cons, List.pairwise_cons]
      refine ⟨fun k hk => ?_, sortedMembers_emplaceMember hcons.2⟩
      rcases mem_keys_emplaceMember hk with rfl | hk
      · exact hkey
      · exact hcons.1 k hk

/-- A key finds what it found before, or the new member when it had nothing. -/
theorem lookup_emplaceMember (n : List UInt8) :
    ∀ {sec : List (List UInt8 × JsonValue)}, SortedMembers sec →
      (emplaceMember name member sec).lookup n =
        if n = name then some ((sec.lookup name).getD member) else sec.lookup n
  | [], _ => by by_cases h : n = name <;> simp [emplaceMember, lookup_cons_eq, h]
  | (key, value) :: rest, hsorted => by
    rw [emplaceMember]
    by_cases hlt : name < key
    · -- inserted in front: the key had nothing before
      rw [if_pos hlt, lookup_eq_none_of_lt hsorted hlt, lookup_cons_eq]
      rfl
    · rw [if_neg hlt]
      by_cases heq : name = key
      · -- the key is there already: the entry is kept
        rw [if_pos heq]
        subst heq
        by_cases h : n = name <;> simp [lookup_cons_eq, h]
      · have hrest : SortedMembers rest := by
          rw [SortedMembers, List.map_cons, List.pairwise_cons] at hsorted
          exact hsorted.2
        rw [if_neg heq]
        simp only [lookup_cons_eq, lookup_emplaceMember n hrest, if_neg heq]
        by_cases hn : n = key
        · simp [hn, Ne.symm heq]
        · simp [hn]

end common

namespace KVValue

variable (fields : List (List UInt8 × KVValue))

theorem lookup_membersJson_of_not_mem {n : List UInt8} (hn : n ∉ fields.map Prod.fst) :
    ∀ {sec : List (List UInt8 × JsonValue)}, SortedMembers sec →
      (membersJson fields sec).lookup n = sec.lookup n := by
  induction fields with
  | nil => exact fun _ => rfl
  | cons field fields ih =>
    intro sec hsec
    obtain ⟨name, v⟩ := field
    simp only [List.map_cons, List.mem_cons, not_or] at hn
    by_cases h : v.omitted
    · simpa [membersJson, h] using ih hn.2 hsec
    · simp only [membersJson, h, Bool.false_eq_true, if_false]
      rw [ih hn.2 (sortedMembers_emplaceMember hsec), lookup_emplaceMember n hsec, if_neg hn.1]

/-- **A field's name finds the field** in the section the reader builds: its JSON value, or
nothing for an empty container or block, when the names of the fields are distinct. -/
theorem lookup_membersJson (hnodup : (fields.map Prod.fst).Nodup) {n : List UInt8} {v : KVValue}
    (hmem : (n, v) ∈ fields) :
    ∀ {sec : List (List UInt8 × JsonValue)}, SortedMembers sec → sec.lookup n = none →
      (membersJson fields sec).lookup n = if v.omitted then none else some v.toJson := by
  induction fields with
  | nil => cases hmem
  | cons field fields ih =>
    intro sec hsec hnone
    obtain ⟨name, w⟩ := field
    simp only [List.map_cons, List.nodup_cons] at hnodup
    -- the member after this field's insertion, which the later fields leave alone
    have hsec' : SortedMembers (if w.omitted then sec else emplaceMember name w.toJson sec) := by
      split_ifs
      · exact hsec
      · exact sortedMembers_emplaceMember hsec
    rcases List.mem_cons.mp hmem with heq | hrest
    · cases heq
      rw [membersJson, lookup_membersJson_of_not_mem fields hnodup.1 hsec']
      split_ifs with h
      · exact hnone
      · rw [lookup_emplaceMember n hsec, if_pos rfl, hnone]
        rfl
    · have hne : n ≠ name := fun h => hnodup.1 (h ▸ List.mem_map_of_mem (f := Prod.fst) hrest)
      have hnone' : (if w.omitted then sec else emplaceMember name w.toJson sec).lookup n =
          none := by
        split_ifs
        · exact hnone
        · rw [lookup_emplaceMember n hsec, if_neg hne, hnone]
      exact ih hnodup.2 hrest hsec' hnone'

/-- The items of a container that can be written can stand in a container and be written. -/
theorem isItem_of_itemsWritable {type : UInt8} {items : List KVValue}
    (h : itemsWritable type items = true) : ∀ v ∈ items, v.isItem = true ∧ v.isWritable = true := by
  induction items with
  | nil => simp
  | cons item items ih =>
    obtain ⟨⟨hi, -, hw⟩, hitems⟩ := (itemsWritable_cons type item items).mp h
    intro v hv
    rcases List.mem_cons.mp hv with rfl | hv
    · exact ⟨hi, hw⟩
    · exact ih hitems v hv

theorem length_itemsJson : ∀ items : List KVValue, (itemsJson items).length = items.length
  | [] => rfl
  | _ :: items => by rw [itemsJson, List.length_cons, length_itemsJson items, List.length_cons]

end KVValue

/-! ## The methods on a value that is there

Each method of the serializer on the two places a member is read from: the innermost object,
where a name is looked up, and the innermost array, whose next item is read. -/

namespace JsonInputValueSerializer

theorem Op.run_bind_of_eq_ok {α β : Type} {x : Op α} {f : α → Op β}
    {s s' : JsonInputValueSerializer} {a : α} (h : x.run s = .ok (a, s')) :
    (x >>= f).run s = (f a).run s' := by
  rw [StateT.run_bind, h]
  rfl

variable {name : List UInt8} {s s' : JsonInputValueSerializer}

theorem getValue_object {sec : List (List UInt8 × JsonValue)} {r : Option JsonValue}
    (hr : sec.lookup name = r) (rest : List JsonValue) (idxs : List ℕ) :
    (getValue name).run ⟨.object sec :: rest, idxs⟩ = .ok (r, ⟨.object sec :: rest, idxs⟩) := by
  subst hr
  cases h : sec.lookup name <;>
    simp [getValue, JsonValue.isArray, JsonValue.contains, JsonValue.atKey, JsonValue.getObject, h]

theorem getValue_array {js : List JsonValue} {i : ℕ} {j : JsonValue} (hj : js[i]? = some j)
    (rest : List JsonValue) (idxs : List ℕ) (name : List UInt8) :
    (getValue name).run ⟨.array js :: rest, i :: idxs⟩ =
      .ok (some j, ⟨.array js :: rest, (i + 1) :: idxs⟩) := by
  simp [getValue, JsonValue.isArray, JsonValue.atIndex, JsonValue.getArray, hj]

theorem getNumber_run {α : Type} (cast : Int64 → α) {n : Int64}
    (h : (getValue name).run s = .ok (some (.integer n), s')) :
    (getNumber cast name).run s = .ok (some (cast n), s') := by
  rw [getNumber, Op.run_bind_of_eq_ok h]
  rfl

theorem serializeBool_run {b : Bool} (h : (getValue name).run s = .ok (some (.bool b), s')) :
    (serializeBool name).run s = .ok (some b, s') := by
  rw [serializeBool, Op.run_bind_of_eq_ok h]
  rfl

theorem serializeString_run {str : List UInt8}
    (h : (getValue name).run s = .ok (some (.string str), s')) :
    (serializeString name).run s = .ok (some str, s') := by
  rw [serializeString, Op.run_bind_of_eq_ok h]
  rfl

theorem serializeString_none (h : (getValue name).run s = .ok (none, s')) :
    (serializeString name).run s = .ok (none, s') := by
  rw [serializeString, Op.run_bind_of_eq_ok h]
  rfl

/-- The overload of the value's type reads the value back: the casts to `int64_t` and back are
the identity. -/
theorem serializeValue_run {init v : SerializerValue} (htype : v.typeCode = init.typeCode)
    (h : (getValue name).run s = .ok (some v.toJson, s')) :
    (serializeValue init name).run s = .ok (some v, s') := by
  -- the type bytes tell the overloads apart: only the matching one remains
  cases v <;> cases init <;> simp only [SerializerValue.toJson] at h <;>
    simp +decide only [SerializerValue.typeCode] at htype
  case uint8.uint8 => simp [serializeValue, serializeUInt8, getNumber_run _ h]
  case int16.int16 => simp [serializeValue, serializeInt16, getNumber_run _ h]
  case uint16.uint16 => simp [serializeValue, serializeUInt16, getNumber_run _ h]
  case int32.int32 => simp [serializeValue, serializeInt32, getNumber_run _ h]
  case uint32.uint32 => simp [serializeValue, serializeUInt32, getNumber_run _ h]
  case int64.int64 => simp [serializeValue, serializeInt64, getNumber_run _ h]
  case uint64.uint64 => simp [serializeValue, serializeUInt64, getNumber_run _ h]
  case bool.bool => rw [serializeValue, StateT.run_map, serializeBool_run h]; rfl
  case string.string => rw [serializeValue, StateT.run_map, serializeString_run h]; rfl

theorem beginObject_object {sec : List (List UInt8 × JsonValue)} {v : JsonValue}
    (hv : sec.lookup name = some v) (rest : List JsonValue) (idxs : List ℕ) :
    (beginObject name).run ⟨.object sec :: rest, idxs⟩ =
      .ok (true, ⟨v :: .object sec :: rest, idxs⟩) := by
  simp [beginObject, JsonValue.isArray, JsonValue.contains, JsonValue.atKey, JsonValue.getObject, hv]

theorem beginObject_array {js : List JsonValue} {i : ℕ} {v : JsonValue} (hv : js[i]? = some v)
    (rest : List JsonValue) (idxs : List ℕ) :
    (beginObject name).run ⟨.array js :: rest, i :: idxs⟩ =
      .ok (true, ⟨v :: .array js :: rest, (i + 1) :: idxs⟩) := by
  simp [beginObject, JsonValue.isArray, JsonValue.atIndex, JsonValue.getArray, hv]

theorem beginArray_object {sec : List (List UInt8 × JsonValue)} {js : List JsonValue}
    (hv : sec.lookup name = some (.array js)) (rest : List JsonValue) (idxs : List ℕ) :
    (beginArray name).run ⟨.object sec :: rest, idxs⟩ =
      .ok ((true, js.length), ⟨.array js :: .object sec :: rest, 0 :: idxs⟩) := by
  simp [beginArray, JsonValue.contains, JsonValue.atKey, JsonValue.getObject, JsonValue.size, hv]

theorem beginArray_object_none {sec : List (List UInt8 × JsonValue)}
    (hv : sec.lookup name = none) (rest : List JsonValue) (idxs : List ℕ) :
    (beginArray name).run ⟨.object sec :: rest, idxs⟩ =
      .ok ((false, 0), ⟨.object sec :: rest, idxs⟩) := by
  simp [beginArray, JsonValue.contains, JsonValue.getObject, hv]

theorem endObject_run (v : JsonValue) (chain : List JsonValue) (idxs : List ℕ) :
    endObject.run ⟨v :: chain, idxs⟩ = .ok ((), ⟨chain, idxs⟩) := rfl

theorem endArray_run (v : JsonValue) (chain : List JsonValue) (i : ℕ) (idxs : List ℕ) :
    endArray.run ⟨v :: chain, i :: idxs⟩ = .ok ((), ⟨chain, idxs⟩) := rfl

end JsonInputValueSerializer

namespace KVBinaryInputStreamSerializer

open JsonInputValueSerializer

variable {name : List UInt8} {s s' : JsonInputValueSerializer}

theorem binaryBlock_run {size : ℕ} {b : List UInt8} (hsize : b.length = size)
    (h : (getValue name).run s = .ok (some (.string b), s')) :
    (binaryBlock size name).run s = .ok (some b, s') := by
  rw [binaryBlock, Op.run_bind_of_eq_ok (serializeString_run h)]
  simp [hsize]

theorem binaryBlock_none {size : ℕ} (h : (getValue name).run s = .ok (none, s')) :
    (binaryBlock size name).run s = .ok (none, s') := by
  rw [binaryBlock, Op.run_bind_of_eq_ok (serializeString_none h)]
  rfl

end KVBinaryInputStreamSerializer

/-! ## A message loads back as itself

A message written by `storeToBinaryKeyValue` is loaded back by a message type that admits it:
each member of the type's kind, a block of the type's size, the names of an object the type's,
in its order and distinct. A member is found where the writer put it (`lookup_membersJson`), and
one the writer left out, an empty container or block, is what a value-initialized member holds. -/

namespace KVType

open JsonInputValueSerializer KVValue

mutual

/-- A value a member of the type can hold: a value of the `operator()` type, a string block, a
block of the type's size, an object with the type's members, or a container of items of the
item type. -/
def admits : KVType → KVValue → Bool
  | .value init, .value v => v.typeCode == init.typeCode
  | .binary, .binary _ => true
  | .block size, .binary b => b.length == size
  | .object types, .object fields =>
    decide (types.map Prod.fst).Nodup && fieldsAdmit types fields
  | .array item, .array items => items.all (admits item)
  | _, _ => false

/-- The fields have the members' names, in their order, and values the members can hold. -/
def fieldsAdmit : List (List UInt8 × KVType) → List (List UInt8 × KVValue) → Bool
  | [], [] => true
  | (name, t) :: types, (name', v) :: fields =>
    (name == name' && admits t v) && fieldsAdmit types fields
  | _, _ => false

end

/-! The values a member of each kind of type can hold: the first step of every proof below that
reads what a type admits. -/

theorem admits_value_iff (init : SerializerValue) (v : KVValue) :
    (value init).admits v = true ↔ ∃ x, v = .value x ∧ x.typeCode = init.typeCode := by
  cases v <;> simp [admits]

theorem admits_binary_iff (v : KVValue) : binary.admits v = true ↔ ∃ b, v = .binary b := by
  cases v <;> simp [admits]

theorem admits_block_iff (size : ℕ) (v : KVValue) :
    (block size).admits v = true ↔ ∃ b, v = .binary b ∧ b.length = size := by
  cases v <;> simp [admits]

theorem admits_object_iff (types : List (List UInt8 × KVType)) (v : KVValue) :
    (object types).admits v = true ↔
      ∃ fields, v = .object fields ∧ (types.map Prod.fst).Nodup ∧ fieldsAdmit types fields = true := by
  cases v <;> simp [admits]

theorem admits_array_iff (item : KVType) (v : KVValue) :
    (array item).admits v = true ↔ ∃ items, v = .array items ∧ ∀ x ∈ items, item.admits x = true := by
  cases v <;> simp [admits]

theorem map_fst_of_fieldsAdmit :
    ∀ {types : List (List UInt8 × KVType)} {fields : List (List UInt8 × KVValue)},
      fieldsAdmit types fields = true → types.map Prod.fst = fields.map Prod.fst
  | [], [], _ => rfl
  | (name, t) :: types, (name', v) :: fields, h => by
    simp only [fieldsAdmit, Bool.and_eq_true, beq_iff_eq] at h
    rw [List.map_cons, List.map_cons, h.1.1, map_fst_of_fieldsAdmit h.2]
  | [], _ :: _, h | _ :: _, [], h => absurd h Bool.false_ne_true

/-- In the section the reader makes of the fields of an object type with distinct names, each
field's name finds the field. -/
theorem lookup_membersJson_of_fieldsAdmit {types : List (List UInt8 × KVType)}
    {fields : List (List UInt8 × KVValue)} (hnodup : (types.map Prod.fst).Nodup)
    (hfields : fieldsAdmit types fields = true) (n : List UInt8) (v : KVValue)
    (hmem : (n, v) ∈ fields) :
    (membersJson fields []).lookup n = if v.omitted then none else some v.toJson := by
  rw [map_fst_of_fieldsAdmit hfields] at hnodup
  exact lookup_membersJson fields hnodup hmem List.Pairwise.nil rfl

/-- The loop of a container reads its items one after the other, from the item `i` on. -/
theorem loadItems_run {load : Op KVValue} {js rest : List JsonValue} {idxs : List ℕ}
    (items : List KVValue)
    (hload : ∀ v ∈ items, ∀ i, js[i]? = some v.toJson →
      load.run ⟨.array js :: rest, i :: idxs⟩ = .ok (v, ⟨.array js :: rest, (i + 1) :: idxs⟩))
    (i : ℕ) (more : List JsonValue) (hjs : js.drop i = itemsJson items ++ more) :
    (loadItems load items.length).run ⟨.array js :: rest, i :: idxs⟩ =
      .ok (items, ⟨.array js :: rest, (i + items.length) :: idxs⟩) := by
  induction items generalizing i with
  | nil => simp [loadItems]
  | cons v items ih =>
    rw [itemsJson, List.cons_append] at hjs
    have hv : js[i]? = some v.toJson := by
      rw [← Nat.add_zero i, ← List.getElem?_drop, hjs]
      rfl
    have hrest : js.drop (i + 1) = itemsJson items ++ more := by
      rw [← List.drop_drop, hjs]
      rfl
    rw [List.length_cons, loadItems, Op.run_bind_of_eq_ok (hload v List.mem_cons_self i hv),
      Op.run_bind_of_eq_ok (ih (fun w hw => hload w (List.mem_cons_of_mem v hw)) (i + 1) hrest)]
    simp [Nat.add_assoc, Nat.add_comm 1]

/- A member as `serialize` loads it, by the member's type: in an object, under its name, where
the writer's section has it (or nothing, for an empty container or block); in a container, as
its next item. The recursion follows the type; the state after is the state before, but for the
index of the container's next item. -/
mutual

theorem loadMember_field : ∀ (t : KVType) (v : KVValue), t.admits v = true →
    v.isWritable = true → ∀ {name : List UInt8} {sec : List (List UInt8 × JsonValue)},
    sec.lookup name = (if v.omitted then none else some v.toJson) →
    ∀ (rest : List JsonValue) (idxs : List ℕ),
    (t.loadMember name).run ⟨.object sec :: rest, idxs⟩ = .ok (v, ⟨.object sec :: rest, idxs⟩)
  | .value init, v, hadm, _, _, _, hsec, rest, idxs => by
    obtain ⟨x, rfl, htype⟩ := (admits_value_iff init v).mp hadm
    rw [loadMember,
      Op.run_bind_of_eq_ok (serializeValue_run htype (getValue_object hsec rest idxs))]
    rfl
  | .binary, v, hadm, _, _, _, hsec, rest, idxs => by
    obtain ⟨b, rfl⟩ := (admits_binary_iff v).mp hadm
    cases b with
    | nil =>
      -- an empty block is not written, and the member keeps its empty value
      rw [loadMember, KVBinaryInputStreamSerializer.binary,
        Op.run_bind_of_eq_ok (serializeString_none (getValue_object hsec rest idxs))]
      rfl
    | cons c cs =>
      rw [loadMember, KVBinaryInputStreamSerializer.binary,
        Op.run_bind_of_eq_ok (serializeString_run (getValue_object hsec rest idxs))]
      rfl
  | .block size, v, hadm, _, _, _, hsec, rest, idxs => by
    obtain ⟨b, rfl, hsize⟩ := (admits_block_iff size v).mp hadm
    cases b with
    | nil =>
      -- a block of no bytes is not written, and a value-initialized one has no bytes
      subst hsize
      rw [loadMember, Op.run_bind_of_eq_ok
        (KVBinaryInputStreamSerializer.binaryBlock_none (getValue_object hsec rest idxs))]
      rfl
    | cons c cs =>
      rw [loadMember, Op.run_bind_of_eq_ok
        (KVBinaryInputStreamSerializer.binaryBlock_run hsize (getValue_object hsec rest idxs))]
      rfl
  | .object types, v, hadm, hw, name, sec, hsec, rest, idxs => by
    obtain ⟨fields, rfl, hnodup, hfields⟩ := (admits_object_iff types v).mp hadm
    have hmembers := loadFields_run types fields hfields ((isWritable_object fields).mp hw).2
      (lookup_membersJson_of_fieldsAdmit hnodup hfields) (.object sec :: rest) idxs
    have hv : sec.lookup name = some (.object (membersJson fields [])) := by
      simpa [omitted, toJson] using hsec
    rw [loadMember, Op.run_bind_of_eq_ok (beginObject_object hv rest idxs), if_pos rfl,
      Op.run_bind_of_eq_ok hmembers, Op.run_bind_of_eq_ok (endObject_run _ _ _)]
    rfl
  | .array item, v, hadm, hw, name, sec, hsec, rest, idxs => by
    obtain ⟨items, rfl, hitems⟩ := (admits_array_iff item v).mp hadm
    cases items with
    | nil =>
      -- an empty container is not written, and the member is cleared
      rw [loadMember, Op.run_bind_of_eq_ok (beginArray_object_none hsec rest idxs)]
      rfl
    | cons x xs =>
      have hwritable := isItem_of_itemsWritable ((isWritable_array (x :: xs)).mp hw).2
      have hloop := loadItems_run (x :: xs)
        (fun v hv i hi => loadMember_item item v (hitems v hv) (hwritable v hv).1
          (hwritable v hv).2 hi [] (.object sec :: rest) idxs)
        0 [] (by rw [List.drop_zero, List.append_nil] :
          (itemsJson (x :: xs)).drop 0 = itemsJson (x :: xs) ++ [])
      have hv : sec.lookup name = some (.array (itemsJson (x :: xs))) := by
        simpa [omitted, toJson] using hsec
      rw [loadMember, Op.run_bind_of_eq_ok (beginArray_object hv rest idxs), length_itemsJson]
      simp only [if_true]
      rw [Op.run_bind_of_eq_ok hloop, Op.run_bind_of_eq_ok (endArray_run _ _ _ _)]
      rfl

theorem loadMember_item : ∀ (t : KVType) (v : KVValue), t.admits v = true → v.isItem = true →
    v.isWritable = true → ∀ {js : List JsonValue} {i : ℕ}, js[i]? = some v.toJson →
    ∀ (name : List UInt8) (rest : List JsonValue) (idxs : List ℕ),
    (t.loadMember name).run ⟨.array js :: rest, i :: idxs⟩ =
      .ok (v, ⟨.array js :: rest, (i + 1) :: idxs⟩)
  | .value init, v, hadm, _, _, _, _, hj, name, rest, idxs => by
    obtain ⟨x, rfl, htype⟩ := (admits_value_iff init v).mp hadm
    rw [loadMember,
      Op.run_bind_of_eq_ok (serializeValue_run htype (getValue_array hj rest idxs name))]
    rfl
  | .binary, v, hadm, _, _, _, _, hj, name, rest, idxs => by
    obtain ⟨b, rfl⟩ := (admits_binary_iff v).mp hadm
    rw [loadMember, KVBinaryInputStreamSerializer.binary,
      Op.run_bind_of_eq_ok (serializeString_run (getValue_array hj rest idxs name))]
    rfl
  | .block size, v, hadm, _, _, _, _, hj, name, rest, idxs => by
    obtain ⟨b, rfl, hsize⟩ := (admits_block_iff size v).mp hadm
    rw [loadMember, Op.run_bind_of_eq_ok
      (KVBinaryInputStreamSerializer.binaryBlock_run hsize (getValue_array hj rest idxs name))]
    rfl
  | .object types, v, hadm, _, hw, js, i, hj, name, rest, idxs => by
    -- the object is the container's next item: its members are read under the container
    obtain ⟨fields, rfl, hnodup, hfields⟩ := (admits_object_iff types v).mp hadm
    have hmembers := loadFields_run types fields hfields ((isWritable_object fields).mp hw).2
      (lookup_membersJson_of_fieldsAdmit hnodup hfields) (.array js :: rest) ((i + 1) :: idxs)
    rw [toJson] at hj
    rw [loadMember, Op.run_bind_of_eq_ok (beginObject_array hj rest idxs), if_pos rfl,
      Op.run_bind_of_eq_ok hmembers, Op.run_bind_of_eq_ok (endObject_run _ _ _)]
    rfl
  | .array item, v, hadm, hi, _, _, _, _, _, _, _ => by
    -- a container is no item: the writer writes no container of containers
    obtain ⟨items, rfl, -⟩ := (admits_array_iff item v).mp hadm
    exact absurd hi Bool.false_ne_true

/-- The members of an object, each where the writer's section has it. -/
theorem loadFields_run :
    ∀ (types : List (List UInt8 × KVType)) (fields : List (List UInt8 × KVValue)),
    fieldsAdmit types fields = true → fieldsWritable fields = true →
    ∀ {sec : List (List UInt8 × JsonValue)},
    (∀ n v, (n, v) ∈ fields → sec.lookup n = if v.omitted then none else some v.toJson) →
    ∀ (rest : List JsonValue) (idxs : List ℕ),
    (loadFields types).run ⟨.object sec :: rest, idxs⟩ = .ok (fields, ⟨.object sec :: rest, idxs⟩)
  | [], [], _, _, _, _, _, _ => rfl
  | (name, t) :: types, (name', v) :: fields, hadm, hw, sec, hsec, rest, idxs => by
    simp only [fieldsAdmit, Bool.and_eq_true, beq_iff_eq] at hadm
    obtain ⟨⟨rfl, hv⟩, hfields⟩ := hadm
    obtain ⟨⟨-, -, hvw⟩, hw⟩ := (fieldsWritable_cons name v fields).mp hw
    rw [loadFields,
      Op.run_bind_of_eq_ok (loadMember_field t v hv hvw (hsec name v List.mem_cons_self) rest idxs),
      Op.run_bind_of_eq_ok (loadFields_run types fields hfields hw
        (fun n w hmem => hsec n w (List.mem_cons_of_mem _ hmem)) rest idxs)]
    rfl
  | [], _ :: _, h, _, _, _, _, _ | _ :: _, [], h, _, _, _, _, _ => absurd h Bool.false_ne_true

end

end KVType

end UltraNoteCore
