import Mathlib
import UltraNoteCore.Basic.Bytes
import UltraNoteCore.Common.JsonValue

/-!
# The portable storage format

Every message between nodes (`LevinProtocol::encode`, `decode`) and every binary RPC call
(`storeToBinaryKeyValue`, `loadFromBinaryKeyValue`) goes through the key-value binary format of
`KVBinaryOutputStreamSerializer` and `KVBinaryInputStreamSerializer`. A storage is a header and a
section; a section is a count and that many entries; an entry is a name (a length byte and the
bytes), a type byte and a value. A container is an entry whose type has the array flag: one item
type, a count, and the items without names or types. Counts and lengths are the format's own
varint: the low two bits of the first byte say whether one, two, four or eight little-endian
bytes hold the number shifted left by two.

The reader (`parseBinary`) builds a `common::JsonValue`: integers become `int64_t`, a section an
object whose `insert` keeps the first entry of a name, an array of items an array. The writer is
a stack machine driven by the `ISerializer` calls of a message's `serialize`: one level per open
object or container, and one byte stream per open object, into which a nested object is copied
when it ends. The first item of a container writes the container's name, its item type and its
size; an object or a container records in its parent's count only when something was written,
so an empty container and an empty binary block leave no entry.

Both stacks are lists with their top (the vector's `back()`) first. A `double` is outside the
model, as the `REAL` case of `JsonValue` is: the reader stops with an error at one. The cases a
debug `assert` guards (a call on empty stacks) are undefined in the source; the model leaves the
state as it is there. The reader's mutual recursion goes by `fuel`, one a call, and `parseBinary`
gives two per byte of its input.

## Main definitions

* `KVBinaryInput.readVarint`, `readString`, `readName`, `loadSection`, `loadEntry`,
  `loadValue`, `loadArray`, `parseBinary`
* `KVBinaryOutputStreamSerializer` and its methods, `KVBinaryOutputStreamSerializer.runCalls`,
  `storeToBinaryKeyValue`
-/

namespace UltraNoteCore

open common Codec

/-! ## `KVBinaryCommon.h` -/

/-- `PORTABLE_STORAGE_SIGNATUREA`. -/
def PORTABLE_STORAGE_SIGNATUREA : UInt32 := 0x01011101
/-- `PORTABLE_STORAGE_SIGNATUREB`. -/
def PORTABLE_STORAGE_SIGNATUREB : UInt32 := 0x01020101
/-- `PORTABLE_STORAGE_FORMAT_VER`. -/
def PORTABLE_STORAGE_FORMAT_VER : UInt8 := 1

/-- `PORTABLE_RAW_SIZE_MARK_MASK`. -/
def PORTABLE_RAW_SIZE_MARK_MASK : UInt8 := 0x03
/-- `PORTABLE_RAW_SIZE_MARK_BYTE`. -/
def PORTABLE_RAW_SIZE_MARK_BYTE : UInt8 := 0
/-- `PORTABLE_RAW_SIZE_MARK_WORD`. -/
def PORTABLE_RAW_SIZE_MARK_WORD : UInt8 := 1
/-- `PORTABLE_RAW_SIZE_MARK_DWORD`. -/
def PORTABLE_RAW_SIZE_MARK_DWORD : UInt8 := 2
/-- `PORTABLE_RAW_SIZE_MARK_INT64`. -/
def PORTABLE_RAW_SIZE_MARK_INT64 : UInt8 := 3

/-- `BIN_KV_SERIALIZE_TYPE_INT64`. -/
def BIN_KV_SERIALIZE_TYPE_INT64 : UInt8 := 1
/-- `BIN_KV_SERIALIZE_TYPE_INT32`. -/
def BIN_KV_SERIALIZE_TYPE_INT32 : UInt8 := 2
/-- `BIN_KV_SERIALIZE_TYPE_INT16`. -/
def BIN_KV_SERIALIZE_TYPE_INT16 : UInt8 := 3
/-- `BIN_KV_SERIALIZE_TYPE_INT8`. -/
def BIN_KV_SERIALIZE_TYPE_INT8 : UInt8 := 4
/-- `BIN_KV_SERIALIZE_TYPE_UINT64`. -/
def BIN_KV_SERIALIZE_TYPE_UINT64 : UInt8 := 5
/-- `BIN_KV_SERIALIZE_TYPE_UINT32`. -/
def BIN_KV_SERIALIZE_TYPE_UINT32 : UInt8 := 6
/-- `BIN_KV_SERIALIZE_TYPE_UINT16`. -/
def BIN_KV_SERIALIZE_TYPE_UINT16 : UInt8 := 7
/-- `BIN_KV_SERIALIZE_TYPE_UINT8`. -/
def BIN_KV_SERIALIZE_TYPE_UINT8 : UInt8 := 8
/-- `BIN_KV_SERIALIZE_TYPE_DOUBLE`. -/
def BIN_KV_SERIALIZE_TYPE_DOUBLE : UInt8 := 9
/-- `BIN_KV_SERIALIZE_TYPE_STRING`. -/
def BIN_KV_SERIALIZE_TYPE_STRING : UInt8 := 10
/-- `BIN_KV_SERIALIZE_TYPE_BOOL`. -/
def BIN_KV_SERIALIZE_TYPE_BOOL : UInt8 := 11
/-- `BIN_KV_SERIALIZE_TYPE_OBJECT`. -/
def BIN_KV_SERIALIZE_TYPE_OBJECT : UInt8 := 12
/-- `BIN_KV_SERIALIZE_TYPE_ARRAY`. -/
def BIN_KV_SERIALIZE_TYPE_ARRAY : UInt8 := 13
/-- `BIN_KV_SERIALIZE_FLAG_ARRAY`. -/
def BIN_KV_SERIALIZE_FLAG_ARRAY : UInt8 := 0x80

/-- `KVBinaryStorageBlockHeader`, packed: two signatures and the format version. -/
structure KVBinaryStorageBlockHeader where
  m_signature_a : UInt32
  m_signature_b : UInt32
  m_ver : UInt8

namespace KVBinaryStorageBlockHeader

/-- The nine bytes of a header in memory, little-endian. -/
def toBytes (hdr : KVBinaryStorageBlockHeader) : List UInt8 :=
  bytesOfNat 4 hdr.m_signature_a.toNat ++ bytesOfNat 4 hdr.m_signature_b.toNat ++ [hdr.m_ver]

/-- `readPod<KVBinaryStorageBlockHeader>`: the header nine bytes hold. -/
def ofBytes (bytes : List UInt8) : KVBinaryStorageBlockHeader where
  m_signature_a := UInt32.ofNat (natOfBytes (bytes.take 4))
  m_signature_b := UInt32.ofNat (natOfBytes ((bytes.drop 4).take 4))
  m_ver := bytes.getD 8 0

/-- The header `dump` writes. -/
def portable : KVBinaryStorageBlockHeader :=
  ⟨PORTABLE_STORAGE_SIGNATUREA, PORTABLE_STORAGE_SIGNATUREB, PORTABLE_STORAGE_FORMAT_VER⟩

end KVBinaryStorageBlockHeader

/-! ## The reader -/

namespace common

/-- `JsonValue::insert(key, value)` on an object: `std::map::emplace`, which keeps the entry a
key already has; the entries stay in key order. -/
def emplaceMember (name : List UInt8) (member : JsonValue) :
    List (List UInt8 × JsonValue) → List (List UInt8 × JsonValue)
  | [] => [(name, member)]
  | (key, value) :: rest =>
    if name < key then (name, member) :: (key, value) :: rest
    else if name = key then (key, value) :: rest
    else (key, value) :: emplaceMember name member rest

end common

namespace KVBinaryInput

/-- The loop of `readVarint`: each of the `left` bytes still to read is ORed in at bit `8 * i`. -/
def readVarintLoop (value : UInt64) (i : ℕ) : ℕ → Reader UInt64
  | 0 => pure value
  | left + 1 => do
    let n ← readUInt8
    readVarintLoop (value ||| n.toUInt64 <<< UInt64.ofNat (i * 8)) (i + 1) left

/-- The `switch` of `readVarint`: how many bytes follow the first, by its size mark. -/
def bytesLeft (size_mask : UInt8) : ℕ :=
  if size_mask = PORTABLE_RAW_SIZE_MARK_BYTE then 0
  else if size_mask = PORTABLE_RAW_SIZE_MARK_WORD then 1
  else if size_mask = PORTABLE_RAW_SIZE_MARK_DWORD then 3
  else if size_mask = PORTABLE_RAW_SIZE_MARK_INT64 then 7
  else 0

/-- `readVarint` of the portable storage: the low two bits of the first byte say how many bytes
follow, and the number is the value of all of them shifted right by two. -/
def readVarint : Reader ℕ := do
  let b ← readUInt8
  let value ← readVarintLoop b.toUInt64 1 (bytesLeft (b &&& PORTABLE_RAW_SIZE_MARK_MASK))
  pure (value >>> 2).toNat

/-- `readString`: a size, at most 100 MiB, then that many bytes. -/
def readString : Reader (List UInt8) := do
  let size ← readVarint
  if size > 100 * 1024 * 1024 then throw "string size is too big"
  if size ≠ 0 then read size else pure []

/-- `readName`: a length byte, then the name; a zero length leaves `name` as it was, which in
`loadSection` is the name of the entry before. -/
def readName (name : List UInt8) : Reader (List UInt8) := do
  let len ← readUInt8
  if len ≠ 0 then read len.toNat else pure name

/-- `readIntegerJson<T>`: the `size` bytes of a `T` in memory, cast to `int64_t` by `cast`. -/
def readIntegerJson (size : ℕ) (cast : ℕ → Int64) : Reader JsonValue :=
  (fun bytes => .integer (cast (natOfBytes bytes))) <$> read size

mutual

/-- `loadSection`: a count, then that many named entries, inserted into an object. -/
def loadSection : ℕ → Reader JsonValue
  | 0 => throw "out of fuel"
  | fuel + 1 => do
    let count ← readVarint
    let sec ← loadSectionLoop fuel count [] []
    pure (.object sec)

/-- The loop of `loadSection`, with the name read last and the entries so far. -/
def loadSectionLoop : ℕ → ℕ → List UInt8 → List (List UInt8 × JsonValue) →
    Reader (List (List UInt8 × JsonValue))
  | _, 0, _, sec => pure sec
  | 0, _ + 1, _, _ => throw "out of fuel"
  | fuel + 1, count + 1, name, sec => do
    let name ← readName name
    let entry ← loadEntry fuel
    loadSectionLoop fuel count name (emplaceMember name entry sec)

/-- `loadValue`: a value of the given type. -/
def loadValue : ℕ → UInt8 → Reader JsonValue
  | 0, _ => throw "out of fuel"
  | fuel + 1, type =>
    if type = BIN_KV_SERIALIZE_TYPE_INT64 then
      readIntegerJson 8 fun v => (UInt64.ofNat v).toInt64
    else if type = BIN_KV_SERIALIZE_TYPE_INT32 then
      readIntegerJson 4 fun v => (UInt32.ofNat v).toInt32.toInt64
    else if type = BIN_KV_SERIALIZE_TYPE_INT16 then
      readIntegerJson 2 fun v => (UInt16.ofNat v).toInt16.toInt64
    else if type = BIN_KV_SERIALIZE_TYPE_INT8 then
      readIntegerJson 1 fun v => (UInt8.ofNat v).toInt8.toInt64
    else if type = BIN_KV_SERIALIZE_TYPE_UINT64 then
      readIntegerJson 8 fun v => (UInt64.ofNat v).toInt64
    else if type = BIN_KV_SERIALIZE_TYPE_UINT32 then
      readIntegerJson 4 fun v => (UInt32.ofNat v).toUInt64.toInt64
    else if type = BIN_KV_SERIALIZE_TYPE_UINT16 then
      readIntegerJson 2 fun v => (UInt16.ofNat v).toUInt64.toInt64
    else if type = BIN_KV_SERIALIZE_TYPE_UINT8 then
      readIntegerJson 1 fun v => (UInt8.ofNat v).toUInt64.toInt64
    else if type = BIN_KV_SERIALIZE_TYPE_DOUBLE then throw "a REAL value is outside this model"
    else if type = BIN_KV_SERIALIZE_TYPE_BOOL then (fun b => .bool (b != 0)) <$> readUInt8
    else if type = BIN_KV_SERIALIZE_TYPE_STRING then .string <$> readString
    else if type = BIN_KV_SERIALIZE_TYPE_OBJECT then loadSection fuel
    else if type = BIN_KV_SERIALIZE_TYPE_ARRAY then loadArray fuel type
    else throw "Unknown data type"

/-- `loadEntry`: a type byte; with the array flag, a container of items of the type without
the flag. -/
def loadEntry : ℕ → Reader JsonValue
  | 0 => throw "out of fuel"
  | fuel + 1 => do
    let type ← readUInt8
    if type &&& BIN_KV_SERIALIZE_FLAG_ARRAY ≠ 0 then
      loadArray fuel (type &&& ~~~BIN_KV_SERIALIZE_FLAG_ARRAY)
    else loadValue fuel type

/-- `loadArray`: a count, then that many values of the item type. -/
def loadArray : ℕ → UInt8 → Reader JsonValue
  | 0, _ => throw "out of fuel"
  | fuel + 1, itemType => do
    let count ← readVarint
    let arr ← loadArrayLoop fuel itemType count []
    pure (.array arr)

/-- The loop of `loadArray`, with the items so far. -/
def loadArrayLoop : ℕ → UInt8 → ℕ → List JsonValue → Reader (List JsonValue)
  | _, _, 0, arr => pure arr
  | 0, _, _ + 1, _ => throw "out of fuel"
  | fuel + 1, itemType, count + 1, arr => do
    let value ← loadValue fuel itemType
    loadArrayLoop fuel itemType count (arr ++ [value])

end

/-- `parseBinary`: the header, checked, then the root section; what follows it is not read. -/
def parseBinary (input : List UInt8) : Except String JsonValue :=
  (do
    let hdr ← KVBinaryStorageBlockHeader.ofBytes <$> read 9
    if hdr.m_signature_a ≠ PORTABLE_STORAGE_SIGNATUREA ∨
        hdr.m_signature_b ≠ PORTABLE_STORAGE_SIGNATUREB then
      throw "Invalid binary storage signature"
    if hdr.m_ver ≠ PORTABLE_STORAGE_FORMAT_VER then
      throw "Unknown binary storage format version"
    loadSection (2 * input.length)).run' input

end KVBinaryInput

/-! ## The calls of a `serialize` -/

/-- The value an `ISerializer::operator()` overload takes, `double` aside. -/
inductive SerializerValue where
  | uint8 (value : UInt8)
  | int16 (value : Int16)
  | uint16 (value : UInt16)
  | int32 (value : Int32)
  | uint32 (value : UInt32)
  | int64 (value : Int64)
  | uint64 (value : UInt64)
  | bool (value : Bool)
  | string (value : List UInt8)
deriving DecidableEq, Repr

/-- A call of a `serialize` method on its `ISerializer`. -/
inductive SerializerCall where
  | beginObject (name : List UInt8)
  | endObject
  | beginArray (size : ℕ) (name : List UInt8)
  | endArray
  | value (value : SerializerValue) (name : List UInt8)
  | binary (value : List UInt8) (name : List UInt8)
deriving DecidableEq, Repr

/-! ## The writer -/

/-- `KVBinaryOutputStreamSerializer::State`. -/
inductive KVBinaryOutputStreamSerializer.State where
  | Root
  | Object
  | ArrayPrefix
  | Array
deriving DecidableEq, Repr

/-- `KVBinaryOutputStreamSerializer::Level`: an open object (`Level(name)`) or container
(`Level(name, size)`), with the entries counted so far or the size announced. -/
structure KVBinaryOutputStreamSerializer.Level where
  state : KVBinaryOutputStreamSerializer.State
  name : List UInt8
  count : ℕ
deriving DecidableEq, Repr

/-- `KVBinaryOutputStreamSerializer`: the streams of the open objects and the open levels. -/
structure KVBinaryOutputStreamSerializer where
  m_objectsStack : List (List UInt8)
  m_stack : List KVBinaryOutputStreamSerializer.Level
deriving DecidableEq, Repr

namespace KVBinaryOutputStreamSerializer

/-- `packVarint<T>`: the size shifted left by two, cast to the `size` bytes of `T`, with the
mark in the low bits. -/
def packVarint (size : ℕ) (type_or : UInt8) (pv : ℕ) : List UInt8 :=
  bytesOfNat size ((pv <<< 2) % 2 ^ (8 * size) ||| type_or.toNat)

/-- `writeElementName`: a length byte and the name, which must fit in 255 bytes. -/
def writeElementName (name : List UInt8) : Except String (List UInt8) :=
  if name.length > 255 then throw "Element name is too long"
  else pure (UInt8.ofNat name.length :: name)

/-- `writeArraySize`: the smallest of the four widths that holds the size. -/
def writeArraySize (val : ℕ) : Except String (List UInt8) :=
  if val ≤ 63 then pure (packVarint 1 PORTABLE_RAW_SIZE_MARK_BYTE val)
  else if val ≤ 16383 then pure (packVarint 2 PORTABLE_RAW_SIZE_MARK_WORD val)
  else if val ≤ 1073741823 then pure (packVarint 4 PORTABLE_RAW_SIZE_MARK_DWORD val)
  else if val > 4611686018427387903 then throw "failed to pack varint - too big amount"
  else pure (packVarint 8 PORTABLE_RAW_SIZE_MARK_INT64 val)

variable (w : KVBinaryOutputStreamSerializer)

/-- `write(stream(), ...)`: the bytes go at the end of the stream of the innermost object. -/
def write (bytes : List UInt8) : KVBinaryOutputStreamSerializer :=
  { w with m_objectsStack := w.m_objectsStack.modifyHead (· ++ bytes) }

/-- `checkArrayPreamble`: the first item of a container writes the container's name, its item
type with the array flag, and its size. -/
def checkArrayPreamble (type : UInt8) : Except String KVBinaryOutputStreamSerializer :=
  match w.m_stack with
  | [] => pure w
  | level :: stack =>
    if level.state = .ArrayPrefix then do
      let name ← writeElementName level.name
      let size ← writeArraySize level.count
      pure { w.write (name ++ [BIN_KV_SERIALIZE_FLAG_ARRAY ||| type] ++ size) with
        m_stack := { level with state := .Array } :: stack }
    else pure w

/-- `writeElementPrefix`: outside a container, the name and the type, when the name is not
empty, and one more entry in the count. -/
def writeElementPrefix (type : UInt8) (name : List UInt8) :
    Except String KVBinaryOutputStreamSerializer := do
  let w ← checkArrayPreamble w type
  match w.m_stack with
  | [] => pure w
  | level :: stack =>
    if level.state ≠ .Array then do
      let w ← if name ≠ [] then do
          let nameBytes ← writeElementName name
          pure (w.write (nameBytes ++ [type]))
        else pure w
      pure { w with m_stack := { level with count := level.count + 1 } :: stack }
    else pure w

/-- `beginObject`: a new level and a new stream. -/
def beginObject (name : List UInt8) : Except String KVBinaryOutputStreamSerializer := do
  let w ← checkArrayPreamble w BIN_KV_SERIALIZE_TYPE_OBJECT
  pure { m_objectsStack := [] :: w.m_objectsStack, m_stack := ⟨.Object, name, 0⟩ :: w.m_stack }

/-- `endObject`: the object's prefix, count and stream go into its parent's stream. -/
def endObject : Except String KVBinaryOutputStreamSerializer :=
  match w.m_stack, w.m_objectsStack with
  | level :: stack, objStream :: objects => do
    let w ← writeElementPrefix ⟨objects, stack⟩ BIN_KV_SERIALIZE_TYPE_OBJECT level.name
    let size ← writeArraySize level.count
    pure (w.write (size ++ objStream))
  | _, _ => pure w

/-- `beginArray`: a new level announcing `size` items, and no stream. -/
def beginArray (size : ℕ) (name : List UInt8) : KVBinaryOutputStreamSerializer :=
  { w with m_stack := ⟨.ArrayPrefix, name, size⟩ :: w.m_stack }

/-- `endArray`: a container whose preamble was written is one more entry of its parent
object. -/
def endArray : KVBinaryOutputStreamSerializer :=
  match w.m_stack with
  | level :: parent :: stack =>
    if parent.state = .Object ∧ level.state = .Array then
      { w with m_stack := { parent with count := parent.count + 1 } :: stack }
    else { w with m_stack := parent :: stack }
  | stack => { w with m_stack := stack.drop 1 }

/-- The `operator()` overloads for the integer types and `bool`: the element's prefix, then the
value as it is held in memory. -/
def writeValue (type : UInt8) (bytes : List UInt8) (name : List UInt8) :
    Except String KVBinaryOutputStreamSerializer := do
  let w ← writeElementPrefix w type name
  pure (w.write bytes)

/-- `operator()(uint8_t&)`. -/
def serializeUInt8 (value : UInt8) := writeValue w BIN_KV_SERIALIZE_TYPE_UINT8 [value]
/-- `operator()(uint16_t&)`. -/
def serializeUInt16 (value : UInt16) :=
  writeValue w BIN_KV_SERIALIZE_TYPE_UINT16 (bytesOfNat 2 value.toNat)
/-- `operator()(int16_t&)`. -/
def serializeInt16 (value : Int16) :=
  writeValue w BIN_KV_SERIALIZE_TYPE_INT16 (bytesOfNat 2 value.toUInt16.toNat)
/-- `operator()(uint32_t&)`. -/
def serializeUInt32 (value : UInt32) :=
  writeValue w BIN_KV_SERIALIZE_TYPE_UINT32 (bytesOfNat 4 value.toNat)
/-- `operator()(int32_t&)`. -/
def serializeInt32 (value : Int32) :=
  writeValue w BIN_KV_SERIALIZE_TYPE_INT32 (bytesOfNat 4 value.toUInt32.toNat)
/-- `operator()(int64_t&)`. -/
def serializeInt64 (value : Int64) :=
  writeValue w BIN_KV_SERIALIZE_TYPE_INT64 (bytesOfNat 8 value.toUInt64.toNat)
/-- `operator()(uint64_t&)`. -/
def serializeUInt64 (value : UInt64) :=
  writeValue w BIN_KV_SERIALIZE_TYPE_UINT64 (bytesOfNat 8 value.toNat)
/-- `operator()(bool&)`: a `bool` is the byte `0` or `1`. -/
def serializeBool (value : Bool) :=
  writeValue w BIN_KV_SERIALIZE_TYPE_BOOL [if value then 1 else 0]

/-- `operator()(std::string&)`: the prefix, the size and the bytes. -/
def serializeString (value : List UInt8) (name : List UInt8) :
    Except String KVBinaryOutputStreamSerializer := do
  let w ← writeElementPrefix w BIN_KV_SERIALIZE_TYPE_STRING name
  let size ← writeArraySize value.length
  pure (w.write (size ++ value))

/-- `binary(value, size, name)` and `binary(std::string&, name)`: a block that is not empty is
written as a string; an empty one writes nothing. -/
def binary (value : List UInt8) (name : List UInt8) :
    Except String KVBinaryOutputStreamSerializer :=
  if value.length > 0 then serializeString w value name else pure w

/-- The overload of `operator()` a value selects. -/
def serializeValue : SerializerValue → List UInt8 → Except String KVBinaryOutputStreamSerializer
  | .uint8 value => serializeUInt8 w value
  | .int16 value => serializeInt16 w value
  | .uint16 value => serializeUInt16 w value
  | .int32 value => serializeInt32 w value
  | .uint32 value => serializeUInt32 w value
  | .int64 value => serializeInt64 w value
  | .uint64 value => serializeUInt64 w value
  | .bool value => serializeBool w value
  | .string value => serializeString w value

/-- The method a call runs. -/
def call : SerializerCall → Except String KVBinaryOutputStreamSerializer
  | .beginObject name => beginObject w name
  | .endObject => endObject w
  | .beginArray size name => pure (beginArray w size name)
  | .endArray => pure (endArray w)
  | .value value name => serializeValue w value name
  | .binary value name => binary w value name

/-- The calls one after the other; an exception ends the run. -/
def runCalls : List SerializerCall → KVBinaryOutputStreamSerializer →
    Except String KVBinaryOutputStreamSerializer
  | [], w => pure w
  | c :: cs, w => do
    let w ← call w c
    runCalls cs w

/-- The serializer after its constructor's `beginObject(std::string())`: the root level and its
stream. -/
def init : KVBinaryOutputStreamSerializer := ⟨[[]], [⟨.Object, [], 0⟩]⟩

theorem beginObject_empty : beginObject ⟨[], []⟩ [] = .ok init := rfl

/-- `dump`: the header, the count of the root and its stream. -/
def dump : Except String (List UInt8) := do
  let size ← writeArraySize ((w.m_stack.getLast?.map Level.count).getD 0)
  pure (KVBinaryStorageBlockHeader.portable.toBytes ++ size ++ w.m_objectsStack.headD [])

end KVBinaryOutputStreamSerializer

/-- `storeToBinaryKeyValue`: the calls of `serialize(v, s)` on a new serializer, then `dump`. -/
def storeToBinaryKeyValue (calls : List SerializerCall) : Except String (List UInt8) := do
  let w ← KVBinaryOutputStreamSerializer.runCalls calls KVBinaryOutputStreamSerializer.init
  w.dump

/-! ## What a message writes

A message's `serialize` calls `operator()` for its fields, `binary` for its blocks,
`serialize(value, name, s)` for a nested object (`beginObject`, the fields, `endObject`) and
`serializeContainer` for a container (`beginArray` with the size, each item under the empty
name, `endArray`). `KVValue` is what it writes under one name; the root's fields go into the
serializer's root level directly (`serialize(v, s)`). -/

/-- What a `serialize` writes under one name. -/
inductive KVValue where
  | value (value : SerializerValue)
  | binary (value : List UInt8)
  | object (fields : List (List UInt8 × KVValue))
  | array (items : List KVValue)
deriving Repr

namespace KVValue

mutual

/-- The calls that write a value under `name`. -/
def calls (name : List UInt8) : KVValue → List SerializerCall
  | .value v => [.value v name]
  | .binary b => [.binary b name]
  | .object fields => .beginObject name :: fieldsCalls fields ++ [.endObject]
  | .array items => .beginArray items.length name :: itemsCalls items ++ [.endArray]

/-- The calls that write the fields of an object. -/
def fieldsCalls : List (List UInt8 × KVValue) → List SerializerCall
  | [] => []
  | (name, v) :: fields => v.calls name ++ fieldsCalls fields

/-- The calls that write the items of a container, each under the empty name. -/
def itemsCalls : List KVValue → List SerializerCall
  | [] => []
  | item :: items => item.calls [] ++ itemsCalls items

end

end KVValue

/-! ## The format

The bytes the writer produces, given by what they hold: a size as `writeArraySize` writes it,
a value after its type byte (`body`), and the entries of a section (`fieldsBytes`). -/

namespace KVBinaryOutputStreamSerializer

/-- The bytes of a size below `2 ^ 62`, in the width `writeArraySize` picks. -/
def sizeBytes (val : ℕ) : List UInt8 :=
  if val ≤ 63 then packVarint 1 PORTABLE_RAW_SIZE_MARK_BYTE val
  else if val ≤ 16383 then packVarint 2 PORTABLE_RAW_SIZE_MARK_WORD val
  else if val ≤ 1073741823 then packVarint 4 PORTABLE_RAW_SIZE_MARK_DWORD val
  else packVarint 8 PORTABLE_RAW_SIZE_MARK_INT64 val

/-- The length byte and the bytes of a name. -/
def nameBytes (name : List UInt8) : List UInt8 := UInt8.ofNat name.length :: name

end KVBinaryOutputStreamSerializer

open KVBinaryOutputStreamSerializer

namespace SerializerValue

/-- The type byte of an `operator()` overload. -/
def typeCode : SerializerValue → UInt8
  | .uint8 _ => BIN_KV_SERIALIZE_TYPE_UINT8
  | .int16 _ => BIN_KV_SERIALIZE_TYPE_INT16
  | .uint16 _ => BIN_KV_SERIALIZE_TYPE_UINT16
  | .int32 _ => BIN_KV_SERIALIZE_TYPE_INT32
  | .uint32 _ => BIN_KV_SERIALIZE_TYPE_UINT32
  | .int64 _ => BIN_KV_SERIALIZE_TYPE_INT64
  | .uint64 _ => BIN_KV_SERIALIZE_TYPE_UINT64
  | .bool _ => BIN_KV_SERIALIZE_TYPE_BOOL
  | .string _ => BIN_KV_SERIALIZE_TYPE_STRING

/-- The bytes after the type: the value as it is held in memory, or a string's size and bytes. -/
def body : SerializerValue → List UInt8
  | .uint8 value => [value]
  | .int16 value => bytesOfNat 2 value.toUInt16.toNat
  | .uint16 value => bytesOfNat 2 value.toNat
  | .int32 value => bytesOfNat 4 value.toUInt32.toNat
  | .uint32 value => bytesOfNat 4 value.toNat
  | .int64 value => bytesOfNat 8 value.toUInt64.toNat
  | .uint64 value => bytesOfNat 8 value.toNat
  | .bool value => [if value then 1 else 0]
  | .string value => sizeBytes value.length ++ value

/-- What the reader makes of the value: an integer cast to `int64_t`, a `bool`, a string. -/
def toJson : SerializerValue → JsonValue
  | .uint8 value => .integer value.toUInt64.toInt64
  | .int16 value => .integer value.toInt64
  | .uint16 value => .integer value.toUInt64.toInt64
  | .int32 value => .integer value.toInt64
  | .uint32 value => .integer value.toUInt64.toInt64
  | .int64 value => .integer value
  | .uint64 value => .integer value.toInt64
  | .bool value => .bool value
  | .string value => .string value

/-- A string the reader takes: at most 100 MiB. -/
def isWritable : SerializerValue → Bool
  | .string value => decide (value.length ≤ 100 * 1024 * 1024)
  | _ => true

end SerializerValue

namespace KVValue

/-- A value that writes no entry: an empty container or an empty binary block. -/
def omitted : KVValue → Bool
  | .binary [] => true
  | .array [] => true
  | _ => false

/-- A value a container can hold: not a container, and not an empty binary block. -/
def isItem : KVValue → Bool
  | .array _ => false
  | .binary [] => false
  | _ => true

/-- The type byte of a value. -/
def typeCode : KVValue → UInt8
  | .value v => v.typeCode
  | .binary _ => BIN_KV_SERIALIZE_TYPE_STRING
  | .object _ => BIN_KV_SERIALIZE_TYPE_OBJECT
  | .array _ => BIN_KV_SERIALIZE_TYPE_ARRAY

/-- The type byte of an entry: a container's is its first item's, with the array flag. -/
def entryType : KVValue → UInt8
  | .array (item :: _) => BIN_KV_SERIALIZE_FLAG_ARRAY ||| item.typeCode
  | v => v.typeCode

/-- The number of fields that write an entry. -/
def writtenCount (fields : List (List UInt8 × KVValue)) : ℕ :=
  (fields.filter fun field => !field.2.omitted).length

mutual

/-- The bytes of a value after its type byte. -/
def body : KVValue → List UInt8
  | .value v => v.body
  | .binary b => sizeBytes b.length ++ b
  | .object fields => sizeBytes (writtenCount fields) ++ fieldsBytes fields
  | .array items => sizeBytes items.length ++ itemsBytes items

/-- The entries of the fields that write one: the name, the type and the body. -/
def fieldsBytes : List (List UInt8 × KVValue) → List UInt8
  | [] => []
  | (name, v) :: fields =>
    (if v.omitted then [] else nameBytes name ++ v.entryType :: v.body) ++
      fieldsBytes fields

/-- The items of a container, one body after the other. -/
def itemsBytes : List KVValue → List UInt8
  | [] => []
  | item :: items => item.body ++ itemsBytes items

end

mutual

/-- The JSON value the reader makes of a value. -/
def toJson : KVValue → JsonValue
  | .value v => v.toJson
  | .binary b => .string b
  | .object fields => .object (membersJson fields [])
  | .array items => .array (itemsJson items)

/-- The members of a section read after `sec`: each written field inserted as `insert` does. -/
def membersJson : List (List UInt8 × KVValue) → List (List UInt8 × JsonValue) →
    List (List UInt8 × JsonValue)
  | [], sec => sec
  | (name, v) :: fields, sec =>
    membersJson fields (if v.omitted then sec else emplaceMember name v.toJson sec)

/-- The items of a container as the reader makes them. -/
def itemsJson : List KVValue → List JsonValue
  | [] => []
  | item :: items => item.toJson :: itemsJson items

end

mutual

/-- What the writer needs to write a value the reader reads back: sizes the format holds,
strings the reader takes, names of one to 255 bytes, and containers of items of one type. -/
def isWritable : KVValue → Bool
  | .value v => v.isWritable
  | .binary b => decide (b.length ≤ 100 * 1024 * 1024)
  | .object fields => decide (writtenCount fields < 2 ^ 62) && fieldsWritable fields
  | .array items =>
    decide (items.length < 2 ^ 62) && itemsWritable ((items.head?.map typeCode).getD 0) items

/-- Every field has a name of one to 255 bytes and a value that can be written. -/
def fieldsWritable : List (List UInt8 × KVValue) → Bool
  | [] => true
  | (name, v) :: fields =>
    (name != [] && decide (name.length ≤ 255) && v.isWritable) && fieldsWritable fields

/-- Every item can stand in a container, has the type `type`, and can be written. -/
def itemsWritable (type : UInt8) : List KVValue → Bool
  | [] => true
  | item :: items =>
    (item.isItem && item.typeCode == type && item.isWritable) && itemsWritable type items

end

end KVValue

/-! ## Sizes

A size below `2 ^ 62` is written by `writeArraySize` without a throw, and `readVarint` reads it
back: the mark in the first byte announces the bytes of the width the writer picked, and the
loop puts them together again. -/

namespace KVBinaryOutputStreamSerializer

theorem writeArraySize_eq {val : ℕ} (h : val < 2 ^ 62) : writeArraySize val = .ok (sizeBytes val) := by
  unfold writeArraySize sizeBytes
  split_ifs <;> first | rfl | omega

theorem length_sizeBytes_pos (val : ℕ) : 0 < (sizeBytes val).length := by
  unfold sizeBytes
  split_ifs <;> simp [packVarint]

theorem writeElementName_eq {name : List UInt8} (h : name.length ≤ 255) :
    writeElementName name = .ok (nameBytes name) := by
  rw [writeElementName, if_neg (by omega)]
  rfl

/-- The first byte of a packed size and the ones after it. -/
theorem packVarint_succ (w : ℕ) (m : UInt8) (val : ℕ) :
    packVarint (w + 1) m val =
      UInt8.ofNat (((val <<< 2) % 2 ^ (8 * (w + 1)) ||| m.toNat) % 256) ::
        bytesOfNat w (((val <<< 2) % 2 ^ (8 * (w + 1)) ||| m.toNat) / 256) := by
  rw [packVarint, bytesOfNat, Nat.lowDigits_succ]
  rfl

end KVBinaryOutputStreamSerializer

namespace KVBinaryInput

theorem natOfBytes_cons (b : UInt8) (bytes : List UInt8) :
    natOfBytes (b :: bytes) = b.toNat + 256 * natOfBytes bytes := by
  simp [natOfBytes, Nat.ofDigits_cons]

theorem readUInt8_run (b : UInt8) (rest : List UInt8) :
    readUInt8.run (b :: rest) = .ok (b, rest) :=
  readUInt8_exact.run_eq_ok trivial rest

theorem read_run (bytes rest : List UInt8) : (read bytes.length).run (bytes ++ rest) = .ok (bytes, rest) :=
  (read_exact bytes.length).run_eq_ok rfl rest

/-- One more byte ORed in at bit `8 * i` above a value below `2 ^ (8 * i)` is added there. -/
theorem toNat_or_shiftLeft {value : UInt64} {i : ℕ} (h : value.toNat < 2 ^ (8 * i))
    (hi : 8 * (i + 1) ≤ 64) (n : UInt8) :
    (value ||| n.toUInt64 <<< UInt64.ofNat (i * 8)).toNat = value.toNat + 2 ^ (8 * i) * n.toNat := by
  have hshift : (UInt64.ofNat (i * 8)).toNat % 64 = 8 * i := by
    rw [UInt64.toNat_ofNat_of_lt' (Nat.lt_of_lt_of_le (show i * 8 < 64 by omega) (by decide))]
    omega
  have hfits : n.toNat * 2 ^ (8 * i) < 2 ^ 64 := by
    calc n.toNat * 2 ^ (8 * i) < 2 ^ 8 * 2 ^ (8 * i) :=
          Nat.mul_lt_mul_of_pos_right n.toNat_lt (Nat.two_pow_pos _)
      _ = 2 ^ (8 * (i + 1)) := by rw [← Nat.pow_add]; ring_nf
      _ ≤ 2 ^ 64 := Nat.pow_le_pow_right (by norm_num) hi
  rw [UInt64.toNat_or, UInt64.toNat_shiftLeft, hshift, UInt8.toNat_toUInt64, Nat.shiftLeft_eq,
    Nat.mod_eq_of_lt hfits, ← Nat.shiftLeft_eq, LEB128.or_shiftLeft_eq_add h]

/-- The loop of `readVarint` reads `bytes` above the value it has: their number at bit
`8 * i`. -/
theorem readVarintLoop_run (rest : List UInt8) :
    ∀ (bytes : List UInt8) (value : UInt64) (i : ℕ), value.toNat < 2 ^ (8 * i) →
      8 * (i + bytes.length) ≤ 64 →
      (readVarintLoop value i bytes.length).run (bytes ++ rest) =
        .ok (UInt64.ofNat (value.toNat + 2 ^ (8 * i) * natOfBytes bytes), rest)
  | [], value, i, _, _ => by simp [readVarintLoop, natOfBytes]
  | n :: bytes, value, i, h, hi => by
    have hor := toNat_or_shiftLeft h (by simp at hi; omega) n
    have hnext : (value ||| n.toUInt64 <<< UInt64.ofNat (i * 8)).toNat < 2 ^ (8 * (i + 1)) := by
      rw [hor, Nat.mul_add, Nat.pow_add]
      have := n.toNat_lt
      calc value.toNat + 2 ^ (8 * i) * n.toNat < 2 ^ (8 * i) + 2 ^ (8 * i) * n.toNat := by omega
        _ = 2 ^ (8 * i) * (n.toNat + 1) := by ring
        _ ≤ 2 ^ (8 * i) * 2 ^ (8 * 1) := Nat.mul_le_mul_left _ (by simpa using this)
    rw [List.length_cons, readVarintLoop, List.cons_append, run_bind_of_eq_ok (readUInt8_run n _),
      readVarintLoop_run rest bytes _ (i + 1) hnext (by simp at hi; omega), hor, natOfBytes_cons]
    congr 3
    rw [Nat.mul_add 8 i 1, Nat.pow_add]
    ring

/-- A size packed in `w + 1` bytes, under the mark that announces `w` more, reads back. -/
theorem readVarint_packVarint {w : ℕ} {m : UInt8} {val : ℕ} (hm : m.toNat < 4)
    (hleft : bytesLeft m = w) (hw : 8 * (1 + w) ≤ 64) (hval : val * 4 < 2 ^ (8 * (w + 1)))
    (rest : List UInt8) :
    readVarint.run (packVarint (w + 1) m val ++ rest) = .ok (val, rest) := by
  -- the packed number: the size shifted by two, with the mark in the two bits it frees
  set x := (val <<< 2) % 2 ^ (8 * (w + 1)) ||| m.toNat with hx
  have hxval : x = m.toNat + 4 * val := by
    have hshift : (val <<< 2) % 2 ^ (8 * (w + 1)) = val <<< 2 := by
      rw [Nat.shiftLeft_eq]
      exact Nat.mod_eq_of_lt (by simpa using hval)
    rw [hx, hshift, Nat.lor_comm, LEB128.or_shiftLeft_eq_add (show m.toNat < 2 ^ 2 by simpa using hm)]
    ring
  have hxlt : x < 2 ^ (8 * (w + 1)) := by
    have hpow : 2 ^ (8 * (w + 1)) = 4 * 2 ^ (8 * w + 6) := by
      rw [show 4 = 2 ^ 2 by rfl, ← Nat.pow_add]
      congr 1
      omega
    omega
  -- the first byte carries the mark in its low two bits
  have hmask : UInt8.ofNat (x % 256) &&& PORTABLE_RAW_SIZE_MARK_MASK = m := by
    apply UInt8.toNat_inj.mp
    rw [UInt8.toNat_and, UInt8.toNat_ofNat', show PORTABLE_RAW_SIZE_MARK_MASK.toNat = 2 ^ 2 - 1 by rfl,
      Nat.and_two_pow_sub_one_eq_mod]
    omega
  have hfirst : (UInt8.ofNat (x % 256)).toUInt64.toNat < 2 ^ (8 * 1) := by
    simp only [UInt8.toNat_toUInt64, UInt8.toNat_ofNat']
    omega
  have hloop := readVarintLoop_run rest (bytesOfNat w (x / 256)) _ 1 hfirst
    (by rw [length_bytesOfNat]; exact hw)
  -- the loop puts the bytes together again into the packed number
  have hvalue : (UInt8.ofNat (x % 256)).toUInt64.toNat + 2 ^ (8 * 1) *
      natOfBytes (bytesOfNat w (x / 256)) = x := by
    have hpow : 256 * 256 ^ w = 2 ^ (8 * (w + 1)) := by
      rw [Nat.mul_add, Nat.pow_add, Nat.pow_mul]
      ring
    simp only [UInt8.toNat_toUInt64, UInt8.toNat_ofNat', natOfBytes_bytesOfNat]
    rw [show x % 256 % 2 ^ 8 = x % 256 by omega, show 2 ^ (8 * 1) = 256 by rfl, ← Nat.mod_mul,
      hpow, Nat.mod_eq_of_lt hxlt]
  rw [length_bytesOfNat, hvalue] at hloop
  rw [packVarint_succ, ← hx, readVarint, List.cons_append, run_bind_of_eq_ok (readUInt8_run _ _),
    hmask, hleft, run_bind_of_eq_ok hloop]
  have hx64 : x < UInt64.size :=
    Nat.lt_of_lt_of_le hxlt (Nat.pow_le_pow_right (by norm_num) (by omega) : _ ≤ 2 ^ 64)
  show Except.ok ((UInt64.ofNat x >>> 2).toNat, rest) = _
  rw [UInt64.toNat_shiftRight, UInt64.toNat_ofNat_of_lt' hx64,
    show (2 : UInt64).toNat % 64 = 2 from rfl, Nat.shiftRight_eq_div_pow, hxval]
  congr 2
  omega

/-- **`readVarint` reads back `writeArraySize`.** -/
theorem readVarint_sizeBytes {val : ℕ} (h : val < 2 ^ 62) (rest : List UInt8) :
    readVarint.run (sizeBytes val ++ rest) = .ok (val, rest) := by
  unfold sizeBytes
  split_ifs
  · exact readVarint_packVarint (w := 0) (by decide) rfl (by norm_num) (by omega) rest
  · exact readVarint_packVarint (w := 1) (by decide) rfl (by norm_num) (by omega) rest
  · exact readVarint_packVarint (w := 3) (by decide) rfl (by norm_num) (by omega) rest
  · exact readVarint_packVarint (w := 7) (by decide) rfl (by norm_num) (by omega) rest

/-! ## Names, strings and values -/

theorem readName_nameBytes {name : List UInt8} (h0 : name ≠ []) (h : name.length ≤ 255)
    (prev rest : List UInt8) :
    (readName prev).run (nameBytes name ++ rest) = .ok (name, rest) := by
  have hlen : (UInt8.ofNat name.length).toNat = name.length := by
    rw [UInt8.toNat_ofNat']
    omega
  have hne : UInt8.ofNat name.length ≠ 0 := by
    intro hzero
    rw [hzero] at hlen
    exact h0 (List.length_eq_zero_iff.mp hlen.symm)
  rw [readName, nameBytes, List.cons_append, run_bind_of_eq_ok (readUInt8_run _ _)]
  simp only [if_pos hne, hlen]
  exact read_run name rest

theorem readString_sizeBytes {str : List UInt8} (h : str.length ≤ 100 * 1024 * 1024)
    (rest : List UInt8) :
    readString.run (sizeBytes str.length ++ str ++ rest) = .ok (str, rest) := by
  rw [readString, List.append_assoc, run_bind_of_eq_ok (readVarint_sizeBytes (by omega) _)]
  by_cases hnil : str = []
  · subst hnil
    rfl
  · have hne : str.length ≠ 0 := fun hzero => hnil (List.length_eq_zero_iff.mp hzero)
    simp only [show ¬(str.length > 100 * 1024 * 1024) by omega, if_false, if_pos hne]
    exact read_run str rest

theorem readIntegerJson_run (size : ℕ) (cast : ℕ → Int64) (x : ℕ) (rest : List UInt8) :
    (readIntegerJson size cast).run (bytesOfNat size x ++ rest) =
      .ok (.integer (cast (x % 256 ^ size)), rest) := by
  have hread := read_run (bytesOfNat size x) rest
  rw [length_bytesOfNat] at hread
  rw [readIntegerJson, run_map_eq_ok.mpr ⟨_, _, hread, rfl⟩, natOfBytes_bytesOfNat]

/-- The value of an `operator()` overload reads back as the reader casts it to `int64_t`. -/
theorem loadValue_serializerValue (fuel : ℕ) {v : SerializerValue} (hv : v.isWritable = true)
    (rest : List UInt8) :
    (loadValue (fuel + 1) v.typeCode).run (v.body ++ rest) = .ok (v.toJson, rest) := by
  -- the type byte picks the branch; `+decide` settles the comparisons of the type constants
  cases v with
  | uint8 value =>
    have hread : (common.read 1).run ([value] ++ rest) = .ok ([value], rest) := read_run [value] rest
    simp +decide only [loadValue, SerializerValue.typeCode, SerializerValue.body,
      SerializerValue.toJson, readIntegerJson, if_true, if_false]
    rw [run_map_eq_ok.mpr ⟨_, _, hread, rfl⟩]
    simp [natOfBytes]
  | int16 value =>
    simp +decide only [loadValue, SerializerValue.typeCode, SerializerValue.body,
      SerializerValue.toJson, if_true, if_false]
    rw [readIntegerJson_run, show (256 : ℕ) ^ 2 = 2 ^ 16 by norm_num,
      Nat.mod_eq_of_lt value.toUInt16.toNat_lt, UInt16.ofNat_toNat,
      Int16.toInt16_toUInt16]
  | uint16 value =>
    simp +decide only [loadValue, SerializerValue.typeCode, SerializerValue.body,
      SerializerValue.toJson, if_true, if_false]
    rw [readIntegerJson_run, show (256 : ℕ) ^ 2 = 2 ^ 16 by norm_num,
      Nat.mod_eq_of_lt value.toNat_lt, UInt16.ofNat_toNat]
  | int32 value =>
    simp +decide only [loadValue, SerializerValue.typeCode, SerializerValue.body,
      SerializerValue.toJson, if_true, if_false]
    rw [readIntegerJson_run, show (256 : ℕ) ^ 4 = 2 ^ 32 by norm_num,
      Nat.mod_eq_of_lt value.toUInt32.toNat_lt, UInt32.ofNat_toNat,
      Int32.toInt32_toUInt32]
  | uint32 value =>
    simp +decide only [loadValue, SerializerValue.typeCode, SerializerValue.body,
      SerializerValue.toJson, if_true, if_false]
    rw [readIntegerJson_run, show (256 : ℕ) ^ 4 = 2 ^ 32 by norm_num,
      Nat.mod_eq_of_lt value.toNat_lt, UInt32.ofNat_toNat]
  | int64 value =>
    simp +decide only [loadValue, SerializerValue.typeCode, SerializerValue.body,
      SerializerValue.toJson, if_true, if_false]
    rw [readIntegerJson_run, show (256 : ℕ) ^ 8 = 2 ^ 64 by norm_num,
      Nat.mod_eq_of_lt value.toUInt64.toNat_lt, UInt64.ofNat_toNat,
      Int64.toInt64_toUInt64]
  | uint64 value =>
    simp +decide only [loadValue, SerializerValue.typeCode, SerializerValue.body,
      SerializerValue.toJson, if_true, if_false]
    rw [readIntegerJson_run, show (256 : ℕ) ^ 8 = 2 ^ 64 by norm_num,
      Nat.mod_eq_of_lt value.toNat_lt, UInt64.ofNat_toNat]
  | bool value =>
    cases value <;> rfl
  | string value =>
    simp only [SerializerValue.isWritable, decide_eq_true_eq] at hv
    simp +decide only [loadValue, SerializerValue.typeCode, SerializerValue.body,
      SerializerValue.toJson, if_true, if_false]
    rw [run_map_eq_ok.mpr ⟨_, _, readString_sizeBytes hv rest, rfl⟩]

end KVBinaryInput

/-! ## What the calls of a message write

The methods on a serializer whose innermost stream is `s`: an entry in an object level, and an
item in a container level, the first of which writes the container's preamble. A message's
fields then write `fieldsBytes`, and the items of a container `itemsBytes`. -/

namespace KVBinaryOutputStreamSerializer

/-- What `checkArrayPreamble` writes on a level: the preamble of a container before its first
item. -/
def preamble (level : Level) (type : UInt8) : List UInt8 :=
  if level.state = .ArrayPrefix then
    nameBytes level.name ++ [BIN_KV_SERIALIZE_FLAG_ARRAY ||| type] ++ sizeBytes level.count
  else []

/-- A container level items can go into: its preamble is written, or can be. -/
def ItemLevel (level : Level) : Prop :=
  level.state = .Array ∨
    level.state = .ArrayPrefix ∧ level.name.length ≤ 255 ∧ level.count < 2 ^ 62

@[simp] theorem write_cons (s : List UInt8) (os : List (List UInt8)) (ls : List Level)
    (bytes : List UInt8) :
    (⟨s :: os, ls⟩ : KVBinaryOutputStreamSerializer).write bytes = ⟨(s ++ bytes) :: os, ls⟩ :=
  rfl

theorem preamble_array {level : Level} (h : level.state = .Array) (type : UInt8) :
    preamble level type = [] := by
  simp [preamble, h]

theorem with_state_array {level : Level} (h : level.state = .Array) :
    { level with state := .Array } = level := by
  cases level
  simp_all

theorem itemLevel_with_state_array (level : Level) : ItemLevel { level with state := .Array } :=
  Or.inl rfl

theorem checkArrayPreamble_object (os : List (List UInt8)) (nm : List UInt8) (c : ℕ)
    (ls : List Level) (type : UInt8) :
    checkArrayPreamble ⟨os, ⟨.Object, nm, c⟩ :: ls⟩ type = .ok ⟨os, ⟨.Object, nm, c⟩ :: ls⟩ := by
  simp [checkArrayPreamble]

theorem checkArrayPreamble_item {level : Level} (h : ItemLevel level) (s : List UInt8)
    (os : List (List UInt8)) (ls : List Level) (type : UInt8) :
    checkArrayPreamble ⟨s :: os, level :: ls⟩ type =
      .ok ⟨(s ++ preamble level type) :: os, { level with state := .Array } :: ls⟩ := by
  rcases h with h | ⟨h, hn, hc⟩
  · simp [checkArrayPreamble, preamble, h, with_state_array h]
  · simp [checkArrayPreamble, preamble, h, writeElementName_eq hn, writeArraySize_eq hc, nameBytes]

/-- In an object, an entry writes its name and type and counts. -/
theorem writeElementPrefix_object {name : List UInt8} (hn : name ≠ []) (hl : name.length ≤ 255)
    (s : List UInt8) (os : List (List UInt8)) (nm : List UInt8) (c : ℕ) (ls : List Level)
    (type : UInt8) :
    writeElementPrefix ⟨s :: os, ⟨.Object, nm, c⟩ :: ls⟩ type name =
      .ok ⟨(s ++ nameBytes name ++ [type]) :: os, ⟨.Object, nm, c + 1⟩ :: ls⟩ := by
  simp [writeElementPrefix, checkArrayPreamble_object, hn, writeElementName_eq hl]

/-- In a container, an item writes the preamble when it is the first, and nothing of its own. -/
theorem writeElementPrefix_item {level : Level} (h : ItemLevel level) (s : List UInt8)
    (os : List (List UInt8)) (ls : List Level) (type : UInt8) (name : List UInt8) :
    writeElementPrefix ⟨s :: os, level :: ls⟩ type name =
      .ok ⟨(s ++ preamble level type) :: os, { level with state := .Array } :: ls⟩ := by
  simp [writeElementPrefix, checkArrayPreamble_item h]

theorem runCalls_cons (c : SerializerCall) (cs : List SerializerCall)
    (w : KVBinaryOutputStreamSerializer) : runCalls (c :: cs) w = call w c >>= runCalls cs :=
  rfl

theorem runCalls_singleton (c : SerializerCall) (w : KVBinaryOutputStreamSerializer) :
    runCalls [c] w = call w c := by
  rw [runCalls_cons]
  cases call w c <;> rfl

theorem call_beginArray (w : KVBinaryOutputStreamSerializer) (size : ℕ) (name : List UInt8) :
    call w (.beginArray size name) = .ok ⟨w.m_objectsStack, ⟨.ArrayPrefix, name, size⟩ :: w.m_stack⟩ :=
  rfl

theorem runCalls_append (cs ds : List SerializerCall) (w : KVBinaryOutputStreamSerializer) :
    runCalls (cs ++ ds) w = runCalls cs w >>= runCalls ds := by
  induction cs generalizing w with
  | nil => rfl
  | cons c cs ih =>
    rw [List.cons_append, runCalls_cons, runCalls_cons]
    cases call w c with
    | error e => rfl
    | ok w' => exact ih w'

theorem serializeString_eq (w : KVBinaryOutputStreamSerializer) {value : List UInt8}
    (h : value.length < 2 ^ 62) (name : List UInt8) :
    serializeString w value name =
      writeElementPrefix w BIN_KV_SERIALIZE_TYPE_STRING name >>= fun w =>
        pure (w.write (sizeBytes value.length ++ value)) := by
  simp only [serializeString, writeArraySize_eq h, ok_bind]

/-- Every overload of `operator()` writes the prefix of its type and then the value's bytes. -/
theorem serializeValue_eq (w : KVBinaryOutputStreamSerializer) {v : SerializerValue}
    (hv : v.isWritable = true) (name : List UInt8) :
    serializeValue w v name =
      writeElementPrefix w v.typeCode name >>= fun w => pure (w.write v.body) := by
  cases v with
  | string value =>
    simp only [SerializerValue.isWritable, decide_eq_true_eq] at hv
    exact serializeString_eq w (by omega) name
  | _ => rfl

/-- An object: `beginObject` after the preamble check opens a level and a stream for its
fields, and `endObject` writes its prefix in the parent, then its count and its stream. -/
theorem runCalls_calls_object {fields : List (List UInt8 × KVValue)} {name : List UInt8}
    {w : KVBinaryOutputStreamSerializer} {os : List (List UInt8)} {ls : List Level}
    (hpre : checkArrayPreamble w BIN_KV_SERIALIZE_TYPE_OBJECT = .ok ⟨os, ls⟩)
    (hfields : runCalls (KVValue.fieldsCalls fields) ⟨[] :: os, ⟨.Object, name, 0⟩ :: ls⟩ =
      .ok ⟨KVValue.fieldsBytes fields :: os, ⟨.Object, name, KVValue.writtenCount fields⟩ :: ls⟩)
    (hc : KVValue.writtenCount fields < 2 ^ 62) :
    runCalls ((KVValue.object fields).calls name) w =
      writeElementPrefix ⟨os, ls⟩ BIN_KV_SERIALIZE_TYPE_OBJECT name >>= fun w =>
        pure (w.write (KVValue.object fields).body) := by
  have hbegin : call w (.beginObject name) = .ok ⟨[] :: os, ⟨.Object, name, 0⟩ :: ls⟩ := by
    simp only [call, beginObject, hpre, ok_bind]
    rfl
  rw [KVValue.calls, runCalls_append, runCalls_cons, hbegin, ok_bind, hfields, ok_bind]
  simp only [runCalls, call, endObject, writeArraySize_eq hc, ok_bind, KVValue.body]
  cases writeElementPrefix ⟨os, ls⟩ BIN_KV_SERIALIZE_TYPE_OBJECT name <;> rfl

end KVBinaryOutputStreamSerializer

namespace KVValue

theorem writtenCount_cons (name : List UInt8) (v : KVValue) (fields : List (List UInt8 × KVValue)) :
    writtenCount ((name, v) :: fields) = (if v.omitted then 0 else 1) + writtenCount fields := by
  by_cases h : v.omitted <;> simp [writtenCount, h, Nat.add_comm]

@[simp] theorem isWritable_object (fields : List (List UInt8 × KVValue)) :
    (object fields).isWritable = true ↔ writtenCount fields < 2 ^ 62 ∧ fieldsWritable fields = true := by
  simp [isWritable]

@[simp] theorem isWritable_array (items : List KVValue) :
    (array items).isWritable = true ↔
      items.length < 2 ^ 62 ∧ itemsWritable ((items.head?.map typeCode).getD 0) items = true := by
  simp [isWritable]

@[simp] theorem fieldsWritable_cons (name : List UInt8) (v : KVValue)
    (fields : List (List UInt8 × KVValue)) :
    fieldsWritable ((name, v) :: fields) = true ↔
      (name ≠ [] ∧ name.length ≤ 255 ∧ v.isWritable = true) ∧ fieldsWritable fields = true := by
  simp [fieldsWritable, and_assoc]

@[simp] theorem itemsWritable_cons (type : UInt8) (item : KVValue) (items : List KVValue) :
    itemsWritable type (item :: items) = true ↔
      (item.isItem = true ∧ item.typeCode = type ∧ item.isWritable = true) ∧
        itemsWritable type items = true := by
  simp [itemsWritable, and_assoc]

end KVValue

namespace KVBinaryOutputStreamSerializer

open KVValue

mutual

/-- A field of an object level: nothing for an empty container or block; otherwise its name,
its entry type and its body, and one more entry in the level's count. -/
theorem runCalls_calls_field (v : KVValue) {name : List UInt8} (hn : name ≠ [])
    (hl : name.length ≤ 255) (hv : v.isWritable = true) (s : List UInt8)
    (os : List (List UInt8)) (nm : List UInt8) (c : ℕ) (ls : List Level) :
    runCalls (v.calls name) ⟨s :: os, ⟨.Object, nm, c⟩ :: ls⟩ =
      .ok ⟨(s ++ if v.omitted then [] else nameBytes name ++ v.entryType :: v.body) :: os,
        ⟨.Object, nm, c + if v.omitted then 0 else 1⟩ :: ls⟩ := by
  match v with
  | .value v =>
    rw [KVValue.calls, runCalls_cons, call, serializeValue_eq _ hv,
      writeElementPrefix_object hn hl, ok_bind]
    simp [runCalls, omitted, entryType, typeCode, body]
  | .binary [] =>
    simp [KVValue.calls, runCalls, call, binary, omitted]
  | .binary (b :: bs) =>
    simp only [isWritable, decide_eq_true_eq] at hv
    rw [KVValue.calls, runCalls_cons, call, binary, if_pos (List.length_pos_of_ne_nil
      (List.cons_ne_nil b bs)), serializeString_eq _ (show (b :: bs).length < 2 ^ 62 by omega),
      writeElementPrefix_object hn hl, ok_bind]
    simp [runCalls, omitted, entryType, typeCode, body]
  | .object fields =>
    obtain ⟨hc, hfields⟩ := (isWritable_object fields).mp hv
    have hrun := runCalls_fieldsCalls fields hfields [] (s :: os) name 0 (⟨.Object, nm, c⟩ :: ls)
    rw [Nat.zero_add, List.nil_append] at hrun
    rw [runCalls_calls_object (checkArrayPreamble_object _ _ _ _ _) hrun hc,
      writeElementPrefix_object hn hl, ok_bind]
    simp [omitted, entryType, typeCode]
  | .array [] =>
    simp [KVValue.calls, itemsCalls, runCalls, call, beginArray, endArray, omitted]
  | .array (item :: items) =>
    obtain ⟨hlen, hall⟩ := (isWritable_array (item :: items)).mp hv
    obtain ⟨⟨hi, -, hw⟩, hitems⟩ := (itemsWritable_cons _ item items).mp hall
    have hitem := runCalls_calls_item item hi hw
      (Or.inr ⟨rfl, hl, hlen⟩ : ItemLevel ⟨.ArrayPrefix, name, items.length + 1⟩) s os
      (⟨.Object, nm, c⟩ :: ls)
    have hrest := runCalls_itemsCalls item.typeCode items (by simpa using hitems)
      (rfl : (⟨.Array, name, items.length + 1⟩ : Level).state = .Array)
      (s ++ preamble ⟨.ArrayPrefix, name, items.length + 1⟩ item.typeCode ++ item.body) os
      (⟨.Object, nm, c⟩ :: ls)
    dsimp only at hitem
    rw [KVValue.calls, runCalls_append, runCalls_cons, call_beginArray, ok_bind, itemsCalls,
      runCalls_append, List.length_cons, hitem, ok_bind, hrest, ok_bind, runCalls_singleton]
    simp [call, endArray, preamble, omitted, entryType, body, itemsBytes]

/-- An item of a container level: the container's preamble when it is the first, then the
item's body; the level is then past its preamble. -/
theorem runCalls_calls_item (item : KVValue) (hi : item.isItem = true)
    (hw : item.isWritable = true) {level : Level} (hlevel : ItemLevel level) (s : List UInt8)
    (os : List (List UInt8)) (ls : List Level) :
    runCalls (item.calls []) ⟨s :: os, level :: ls⟩ =
      .ok ⟨(s ++ preamble level item.typeCode ++ item.body) :: os,
        { level with state := .Array } :: ls⟩ := by
  match item with
  | .value v =>
    rw [KVValue.calls, runCalls_cons, call, serializeValue_eq _ hw,
      writeElementPrefix_item hlevel, ok_bind]
    simp [runCalls, typeCode, body]
  | .binary [] => simp [isItem] at hi
  | .binary (b :: bs) =>
    simp only [isWritable, decide_eq_true_eq] at hw
    rw [KVValue.calls, runCalls_cons, call, binary, if_pos (List.length_pos_of_ne_nil
      (List.cons_ne_nil b bs)), serializeString_eq _ (show (b :: bs).length < 2 ^ 62 by omega),
      writeElementPrefix_item hlevel, ok_bind]
    simp [runCalls, typeCode, body]
  | .object fields =>
    obtain ⟨hc, hfields⟩ := (isWritable_object fields).mp hw
    have hrun := runCalls_fieldsCalls fields hfields [] ((s ++ preamble level
      BIN_KV_SERIALIZE_TYPE_OBJECT) :: os) [] 0 ({ level with state := .Array } :: ls)
    rw [Nat.zero_add, List.nil_append] at hrun
    rw [runCalls_calls_object (checkArrayPreamble_item hlevel _ _ _ _) hrun hc,
      writeElementPrefix_item (itemLevel_with_state_array level), ok_bind]
    simp [preamble, typeCode]
  | .array _ => simp [isItem] at hi

/-- The fields of an object level: their entries, and their number in the count. -/
theorem runCalls_fieldsCalls (fields : List (List UInt8 × KVValue))
    (h : fieldsWritable fields = true) (s : List UInt8) (os : List (List UInt8))
    (nm : List UInt8) (c : ℕ) (ls : List Level) :
    runCalls (fieldsCalls fields) ⟨s :: os, ⟨.Object, nm, c⟩ :: ls⟩ =
      .ok ⟨(s ++ fieldsBytes fields) :: os, ⟨.Object, nm, c + writtenCount fields⟩ :: ls⟩ := by
  match fields with
  | [] => simp [fieldsCalls, runCalls, fieldsBytes, writtenCount]
  | (name, v) :: fields =>
    obtain ⟨⟨hn, hl, hv⟩, hfields⟩ := (fieldsWritable_cons name v fields).mp h
    rw [fieldsCalls, runCalls_append, runCalls_calls_field v hn hl hv, ok_bind,
      runCalls_fieldsCalls fields hfields, fieldsBytes, writtenCount_cons, List.append_assoc,
      Nat.add_assoc]

/-- The items of a container level past its preamble: their bodies. -/
theorem runCalls_itemsCalls (type : UInt8) (items : List KVValue)
    (h : itemsWritable type items = true) {level : Level} (hlevel : level.state = .Array)
    (s : List UInt8) (os : List (List UInt8)) (ls : List Level) :
    runCalls (itemsCalls items) ⟨s :: os, level :: ls⟩ =
      .ok ⟨(s ++ itemsBytes items) :: os, level :: ls⟩ := by
  match items with
  | [] => simp [itemsCalls, runCalls, itemsBytes]
  | item :: items =>
    obtain ⟨⟨hi, -, hw⟩, hitems⟩ := (itemsWritable_cons type item items).mp h
    rw [itemsCalls, runCalls_append, runCalls_calls_item item hi hw (Or.inl hlevel),
      preamble_array hlevel, with_state_array hlevel, ok_bind,
      runCalls_itemsCalls type items hitems hlevel, itemsBytes, List.append_nil, List.append_assoc]

end

end KVBinaryOutputStreamSerializer

/-! ## What the reader makes of it

The entries of the fields that write none are left out of `fieldsBytes`, of the count and of
the members alike, so the reader only meets the others. Every body has a byte at least, which
is what keeps the reader's fuel ahead of the bytes it reads. -/

namespace KVValue

section Kept

variable (fields : List (List UInt8 × KVValue))

theorem fieldsBytes_filter :
    fieldsBytes (fields.filter fun field => !field.2.omitted) = fieldsBytes fields := by
  induction fields with
  | nil => rfl
  | cons field fields ih =>
    obtain ⟨name, v⟩ := field
    by_cases h : v.omitted <;> simp [h, fieldsBytes, ih]

theorem membersJson_filter (sec : List (List UInt8 × JsonValue)) :
    membersJson (fields.filter fun field => !field.2.omitted) sec = membersJson fields sec := by
  induction fields generalizing sec with
  | nil => rfl
  | cons field fields ih =>
    obtain ⟨name, v⟩ := field
    by_cases h : v.omitted <;> simp [h, membersJson, ih]

theorem fieldsWritable_filter (h : fieldsWritable fields = true) :
    fieldsWritable (fields.filter fun field => !field.2.omitted) = true := by
  induction fields with
  | nil => rfl
  | cons field fields ih =>
    obtain ⟨name, v⟩ := field
    obtain ⟨hv, hfields⟩ := (fieldsWritable_cons name v fields).mp h
    by_cases hom : v.omitted
    · simp [hom, ih hfields]
    · simp [hom, hv, ih hfields]

end Kept

/-- Every type byte is below the array flag. -/
theorem typeCode_and_flag (v : KVValue) : v.typeCode &&& BIN_KV_SERIALIZE_FLAG_ARRAY = 0 := by
  cases v with
  | value v => cases v <;> simp only [typeCode, SerializerValue.typeCode] <;> decide
  | _ => simp only [typeCode]; decide

theorem flag_or_typeCode_and_flag (v : KVValue) :
    (BIN_KV_SERIALIZE_FLAG_ARRAY ||| v.typeCode) &&& BIN_KV_SERIALIZE_FLAG_ARRAY ≠ 0 := by
  cases v with
  | value v => cases v <;> simp only [typeCode, SerializerValue.typeCode] <;> decide
  | _ => simp only [typeCode]; decide

theorem flag_or_typeCode_and_not_flag (v : KVValue) :
    (BIN_KV_SERIALIZE_FLAG_ARRAY ||| v.typeCode) &&& ~~~BIN_KV_SERIALIZE_FLAG_ARRAY = v.typeCode := by
  cases v with
  | value v => cases v <;> simp only [typeCode, SerializerValue.typeCode] <;> decide
  | _ => simp only [typeCode]; decide

theorem length_body_pos (v : KVValue) : 0 < v.body.length := by
  cases v with
  | value v =>
    cases v <;> simp [body, SerializerValue.body, length_sizeBytes_pos]
  | _ => simp [body, length_sizeBytes_pos]

end KVValue

namespace KVBinaryInput

/-- A type byte without the array flag: a value of that type. -/
theorem loadEntry_value {type : UInt8} (h : type &&& BIN_KV_SERIALIZE_FLAG_ARRAY = 0)
    (fuel : ℕ) (bytes : List UInt8) :
    (loadEntry (fuel + 1)).run (type :: bytes) = (loadValue fuel type).run bytes := by
  rw [loadEntry, run_bind_of_eq_ok (readUInt8_run type bytes), if_neg (not_not.mpr h)]

/-- A type byte with the array flag: a container of the type without it. -/
theorem loadEntry_array {type : UInt8} (h : type &&& BIN_KV_SERIALIZE_FLAG_ARRAY ≠ 0)
    (fuel : ℕ) (bytes : List UInt8) :
    (loadEntry (fuel + 1)).run (type :: bytes) =
      (loadArray fuel (type &&& ~~~BIN_KV_SERIALIZE_FLAG_ARRAY)).run bytes := by
  rw [loadEntry, run_bind_of_eq_ok (readUInt8_run type bytes), if_pos h]

open KVBinaryOutputStreamSerializer KVValue

/- The reader's functions, each on what the writer puts where it reads. The recursion goes by
the fuel, which each call takes one of; the bounds say the fuel is at least twice the bytes
read, with the margin each call needs before its first byte. -/
mutual

/-- A section: the count of the fields that write an entry, then their entries. -/
theorem loadSection_run (fuel : ℕ) (fields : List (List UInt8 × KVValue))
    (h : (object fields).isWritable = true) (hfuel : 2 * (fieldsBytes fields).length + 1 ≤ fuel)
    (rest : List UInt8) :
    (loadSection fuel).run ((object fields).body ++ rest) = .ok ((object fields).toJson, rest) := by
  match fuel with
  | 0 => omega
  | fuel + 1 =>
    obtain ⟨hc, hw⟩ := (isWritable_object fields).mp h
    -- the loop reads the fields that write an entry, as many as the count says
    have hloop := loadSectionLoop_run fuel (fields.filter fun field => !field.2.omitted)
      (fun field hf => by simpa using (List.mem_filter.mp hf).2) (fieldsWritable_filter fields hw)
      (by rw [fieldsBytes_filter]; omega) [] [] rest
    rw [fieldsBytes_filter, membersJson_filter] at hloop
    rw [body, List.append_assoc, loadSection, run_bind_of_eq_ok (readVarint_sizeBytes hc _),
      writtenCount, run_bind_of_eq_ok hloop]
    rfl

/-- The loop of a section over fields that all write an entry: their members, inserted one
after the other. -/
theorem loadSectionLoop_run (fuel : ℕ) (fields : List (List UInt8 × KVValue))
    (hkept : ∀ field ∈ fields, field.2.omitted = false) (h : fieldsWritable fields = true)
    (hfuel : 2 * (fieldsBytes fields).length ≤ fuel) (name : List UInt8)
    (sec : List (List UInt8 × JsonValue)) (rest : List UInt8) :
    (loadSectionLoop fuel fields.length name sec).run (fieldsBytes fields ++ rest) =
      .ok (membersJson fields sec, rest) := by
  match fields, fuel with
  | [], _ => simp [loadSectionLoop, fieldsBytes, membersJson]
  | (nm, v) :: fields, fuel =>
    obtain ⟨⟨hn, hl, hv⟩, hw⟩ := (fieldsWritable_cons nm v fields).mp h
    have hv0 : v.omitted = false := hkept (nm, v) List.mem_cons_self
    have hnm : 2 ≤ (nameBytes nm).length := by
      have := List.length_pos_of_ne_nil hn
      simp only [nameBytes, List.length_cons]
      omega
    simp only [fieldsBytes, hv0, Bool.false_eq_true, if_false, List.length_append,
      List.length_cons] at hfuel
    match fuel with
    | 0 => omega
    | fuel + 1 =>
      have hentry := loadEntry_run fuel v hv0 hv (by omega) (fieldsBytes fields ++ rest)
      have hloop := loadSectionLoop_run fuel fields
        (fun field hf => hkept field (List.mem_cons_of_mem _ hf)) hw (by omega) nm
        (emplaceMember nm v.toJson sec) rest
      simp only [fieldsBytes, hv0, Bool.false_eq_true, if_false, List.length_cons, membersJson]
      rw [loadSectionLoop, List.append_assoc, List.append_assoc,
        run_bind_of_eq_ok (readName_nameBytes hn hl _ _), List.cons_append,
        run_bind_of_eq_ok hentry, hloop]

/-- An entry: its type byte, then a value of that type, or a container of its items. -/
theorem loadEntry_run (fuel : ℕ) (v : KVValue) (hv0 : v.omitted = false)
    (hv : v.isWritable = true) (hfuel : 2 * v.body.length + 3 ≤ fuel) (rest : List UInt8) :
    (loadEntry fuel).run (v.entryType :: (v.body ++ rest)) = .ok (v.toJson, rest) := by
  match fuel, v with
  | 0, _ => omega
  | fuel + 1, .value x =>
    simp only [entryType]
    rw [loadEntry_value (typeCode_and_flag (.value x))]
    exact loadValue_run fuel (.value x) rfl hv (by omega) rest
  | fuel + 1, .binary b =>
    have hb : b ≠ [] := by rintro rfl; simp [omitted] at hv0
    simp only [entryType]
    rw [loadEntry_value (typeCode_and_flag (.binary b))]
    exact loadValue_run fuel (.binary b) (by cases b <;> simp_all [isItem]) hv (by omega) rest
  | fuel + 1, .object fields =>
    simp only [entryType]
    rw [loadEntry_value (typeCode_and_flag (.object fields))]
    exact loadValue_run fuel (.object fields) rfl hv (by omega) rest
  | fuel + 1, .array [] => simp [omitted] at hv0
  | fuel + 1, .array (item :: items) =>
    obtain ⟨hlen, hall⟩ := (isWritable_array (item :: items)).mp hv
    have hsize := length_sizeBytes_pos (item :: items).length
    simp only [body, List.length_append] at hfuel
    rw [entryType, loadEntry_array (flag_or_typeCode_and_flag item),
      flag_or_typeCode_and_not_flag item, body]
    exact loadArray_run fuel item.typeCode (item :: items) (by simpa using hall) hlen (by omega)
      rest

/-- A value of an item's type: its body. -/
theorem loadValue_run (fuel : ℕ) (v : KVValue) (hi : v.isItem = true)
    (hv : v.isWritable = true) (hfuel : 2 * v.body.length + 2 ≤ fuel) (rest : List UInt8) :
    (loadValue fuel v.typeCode).run (v.body ++ rest) = .ok (v.toJson, rest) := by
  match fuel, v with
  | 0, _ => omega
  | fuel + 1, .value x => exact loadValue_serializerValue fuel hv rest
  | fuel + 1, .binary b =>
    simp only [isWritable, decide_eq_true_eq] at hv
    simp +decide only [loadValue, typeCode, body, toJson, if_true, if_false]
    rw [run_map_eq_ok.mpr ⟨_, _, readString_sizeBytes hv rest, rfl⟩]
  | fuel + 1, .object fields =>
    simp only [body, List.length_append] at hfuel
    simp +decide only [loadValue, typeCode, if_true, if_false]
    exact loadSection_run fuel fields hv (by omega) rest
  | fuel + 1, .array _ => simp [isItem] at hi

/-- A container: its count, then its items. -/
theorem loadArray_run (fuel : ℕ) (type : UInt8) (items : List KVValue)
    (h : itemsWritable type items = true) (hlen : items.length < 2 ^ 62)
    (hfuel : 2 * (itemsBytes items).length + 4 ≤ fuel) (rest : List UInt8) :
    (loadArray fuel type).run (sizeBytes items.length ++ itemsBytes items ++ rest) =
      .ok (.array (itemsJson items), rest) := by
  match fuel with
  | 0 => omega
  | fuel + 1 =>
    have hloop := loadArrayLoop_run fuel type items h (by omega) [] rest
    rw [loadArray, List.append_assoc, run_bind_of_eq_ok (readVarint_sizeBytes hlen _),
      run_bind_of_eq_ok hloop, List.nil_append]
    rfl

/-- The loop of a container: the items, appended one after the other. -/
theorem loadArrayLoop_run (fuel : ℕ) (type : UInt8) (items : List KVValue)
    (h : itemsWritable type items = true) (hfuel : 2 * (itemsBytes items).length + 3 ≤ fuel)
    (arr : List JsonValue) (rest : List UInt8) :
    (loadArrayLoop fuel type items.length arr).run (itemsBytes items ++ rest) =
      .ok (arr ++ itemsJson items, rest) := by
  match items, fuel with
  | [], _ => simp [loadArrayLoop, itemsBytes, itemsJson]
  | _ :: _, 0 => omega
  | item :: items, fuel + 1 =>
    obtain ⟨⟨hi, htype, hw⟩, hitems⟩ := (itemsWritable_cons type item items).mp h
    have hpos := length_body_pos item
    simp only [itemsBytes, List.length_append] at hfuel
    have hvalue := loadValue_run fuel item hi hw (by omega) (itemsBytes items ++ rest)
    rw [htype] at hvalue
    rw [List.length_cons, loadArrayLoop, itemsBytes, List.append_assoc,
      run_bind_of_eq_ok hvalue, loadArrayLoop_run fuel type items hitems (by omega), itemsJson,
      List.append_assoc, List.singleton_append]

end

end KVBinaryInput

/-! ## The round trip -/

namespace KVBinaryStorageBlockHeader

/-- The nine bytes of a header read back as that header. -/
theorem ofBytes_toBytes (hdr : KVBinaryStorageBlockHeader) : ofBytes hdr.toBytes = hdr := by
  have hsig (x : UInt32) : UInt32.ofNat (natOfBytes (bytesOfNat 4 x.toNat)) = x := by
    rw [natOfBytes_bytesOfNat, show (256 : ℕ) ^ 4 = 2 ^ 32 by norm_num,
      Nat.mod_eq_of_lt x.toNat_lt, UInt32.ofNat_toNat]
  obtain ⟨a, b, ver⟩ := hdr
  simp [ofBytes, toBytes, hsig]

theorem length_toBytes (hdr : KVBinaryStorageBlockHeader) : hdr.toBytes.length = 9 := by
  simp [toBytes]

end KVBinaryStorageBlockHeader

open KVBinaryOutputStreamSerializer KVValue

/-- The calls of a message's fields, on a new serializer, and `dump`: the header, the count of
the fields that write an entry, and their entries. -/
theorem storeToBinaryKeyValue_fieldsCalls {fields : List (List UInt8 × KVValue)}
    (h : (object fields).isWritable = true) :
    storeToBinaryKeyValue (fieldsCalls fields) =
      .ok (KVBinaryStorageBlockHeader.portable.toBytes ++ (object fields).body) := by
  obtain ⟨hc, hw⟩ := (isWritable_object fields).mp h
  rw [storeToBinaryKeyValue, init, runCalls_fieldsCalls fields hw [] [] [] 0 [], ok_bind, dump]
  simp [writeArraySize_eq hc, body]

/-- The portable header and a section: the JSON object of the section's fields. -/
theorem parseBinary_portable_body (fields : List (List UInt8 × KVValue))
    (h : (object fields).isWritable = true) :
    KVBinaryInput.parseBinary (KVBinaryStorageBlockHeader.portable.toBytes ++ (object fields).body) =
      .ok (object fields).toJson := by
  have hhdr := KVBinaryInput.read_run KVBinaryStorageBlockHeader.portable.toBytes (object fields).body
  rw [KVBinaryStorageBlockHeader.length_toBytes] at hhdr
  have hsection := KVBinaryInput.loadSection_run
    (2 * (KVBinaryStorageBlockHeader.portable.toBytes ++ (object fields).body).length) fields h
    (by simp [KVBinaryStorageBlockHeader.length_toBytes, body]; omega) []
  rw [List.append_nil] at hsection
  rw [KVBinaryInput.parseBinary, StateT.run'_eq,
    run_bind_of_eq_ok (run_map_eq_ok.mpr ⟨_, _, hhdr, rfl⟩),
    KVBinaryStorageBlockHeader.ofBytes_toBytes]
  simp +decide only [if_false]
  rw [hsection]
  rfl

/-- `parseBinary` reads back what `storeToBinaryKeyValue` writes of a message: the JSON object
of its fields, each under its name, the first of a name kept, an empty container or binary block
left out, integers cast to `int64_t`. -/
theorem parseBinary_storeToBinaryKeyValue (fields : List (List UInt8 × KVValue))
    (h : (object fields).isWritable = true) :
    (storeToBinaryKeyValue (fieldsCalls fields) >>= KVBinaryInput.parseBinary) =
      .ok (object fields).toJson := by
  rw [storeToBinaryKeyValue_fieldsCalls h, ok_bind]
  exact parseBinary_portable_body fields h

/-- A message with a number, a container of two `uint16_t`, an empty block and a nested object
reads back. -/
theorem parseBinary_storeToBinaryKeyValue_message :
    (object [([97], .value (.uint8 5)),
      ([98], .array [.value (.uint16 7), .value (.uint16 9)]),
      ([99], .binary []),
      ([100], .object [([101], .value (.string [1, 2]))])]).isWritable = true ∧
    (storeToBinaryKeyValue (fieldsCalls [([97], .value (.uint8 5)),
      ([98], .array [.value (.uint16 7), .value (.uint16 9)]),
      ([99], .binary []),
      ([100], .object [([101], .value (.string [1, 2]))])]) >>= KVBinaryInput.parseBinary) =
      .ok (object [([97], .value (.uint8 5)),
        ([98], .array [.value (.uint16 7), .value (.uint16 9)]),
        ([99], .binary []),
        ([100], .object [([101], .value (.string [1, 2]))])]).toJson :=
  ⟨by decide, parseBinary_storeToBinaryKeyValue _ (by decide)⟩

end UltraNoteCore
