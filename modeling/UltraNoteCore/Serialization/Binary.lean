import UltraNoteCore.Common.StreamTools

/-!
# The binary serializers

`BinaryInputStreamSerializer` and `BinaryOutputStreamSerializer`, with the container and blob
helpers of `SerializationOverloads.h` and `toBinaryArray`, `fromBinaryArray` of
`CryptoNoteTools.h`. Every unsigned integer is a varint; a string, and so a blob, is its size as
a varint followed by its bytes; `binary` copies raw bytes; an array is its size as a varint
followed by its elements. The input serializer refuses an array or a string of more than
`100 * 1024 * 1024` elements; the output serializer writes any.

A `serialize` overload runs one way or the other as `serializer.type()` says, so each is modelled
as a pair: `Input.serialize…` is a `common.Reader`, `Output.serialize…` a writer. Each reader
here accepts exactly what its writer writes of the values within the limits (`Codec.Exact`), and
`fromBinaryArray` then accepts exactly the byte arrays that `toBinaryArray` writes.

## Main definitions

* `Input.beginArray`, `Input.serializeString`, `Input.binary` and their `Output` sides
* `Input.serializeContainer`, `Input.serializeAsBinary`, `Input.serializePod` and theirs
* `toBinaryArray`, `fromBinaryArray`

## Main results

* `Input.serializeString_exact`, `Input.serializeContainer_exact`: the limit is the only
  difference between the two sides
* `fromBinaryArray_eq_some`: an exact reader accepts a byte array iff the writer writes exactly
  it
-/

namespace UltraNoteCore

open Codec common

variable {α : Type}

namespace Input

/-- `BinaryInputStreamSerializer::beginArray`: the size as a 64-bit varint, refused above
`100 * 1024 * 1024`. -/
def beginArray : Reader ℕ := do
  let size ← readVarint 64
  if size > 100 * 1024 * 1024 then throw "array size is too big"
  else pure size

/-- `BinaryInputStreamSerializer::operator()(std::string&)`, which `binary(std::string&)`
calls: the size as a 64-bit varint, refused above `100 * 1024 * 1024`, then that many bytes. -/
def serializeString : Reader (List UInt8) := do
  let size ← readVarint 64
  if size > 100 * 1024 * 1024 then throw "string size is too big"
  else if size > 0 then read size
  else pure []

/-- `BinaryInputStreamSerializer::binary(void*, size)`: `checkedRead` of `size` bytes. -/
def binary (size : ℕ) : Reader (List UInt8) := read size

/-- `serializeContainer`, for a `std::vector` with its element's `serialize`: the size from
`beginArray`, then as many elements. -/
def serializeContainer (serialize : Reader α) : Reader (List α) := do
  let size ← beginArray
  decodeN serialize size

/-- `serializeAsBinary` of a vector of bytes: the blob as a string, whose size is a multiple of
`sizeof(T)`, one. -/
def serializeAsBinary : Reader (List UInt8) := do
  let blob ← serializeString
  if blob.length % 1 ≠ 0 then throw "Invalid blob size given!"
  else pure blob

/-- `serializePod`: the `size` bytes of a value held in memory, read back by `ofBytes`. -/
def serializePod (size : ℕ) (ofBytes : List UInt8 → α) : Reader α := ofBytes <$> binary size

end Input

namespace Output

/-- `BinaryOutputStreamSerializer::beginArray`: the size as a varint. -/
def beginArray (size : ℕ) : List UInt8 := writeVarint (UInt64.ofNat size)

/-- `BinaryOutputStreamSerializer::operator()(std::string&)`: the size as a varint, then the
bytes. -/
def serializeString (value : List UInt8) : List UInt8 :=
  writeVarint (UInt64.ofNat value.length) ++ value

/-- `serializeContainer`: the size from `beginArray`, then each element. -/
def serializeContainer (serialize : α → List UInt8) (value : List α) : List UInt8 :=
  beginArray value.length ++ value.flatMap serialize

/-- `serializeAsBinary` of a vector of bytes: the bytes as a string. -/
def serializeAsBinary (value : List UInt8) : List UInt8 := serializeString value

/-- `serializeContainer` with an element's `serialize` that may throw: the size, then each
element; the first exception leaves the container. -/
def serializeContainerE (serialize : α → Except String (List UInt8)) (value : List α) :
    Except String (List UInt8) := do
  let items ← value.mapM serialize
  pure (beginArray value.length ++ items.flatten)

end Output

/-- `toBinaryArray(const T&, BinaryArray&)`: the bytes `serialize` writes, `none` when it
throws. -/
def toBinaryArray (serialize : α → Except String (List UInt8)) (object : α) :
    Option (List UInt8) :=
  match serialize object with
  | .ok binaryArray => some binaryArray
  | .error _ => none

/-- `fromBinaryArray(T&, const BinaryArray&)`: the object `serialize` reads, `none` when it
throws or leaves bytes unread (`stream.endOfStream()`). -/
def fromBinaryArray (serialize : common.Reader α) (binaryArray : List UInt8) : Option α :=
  match serialize.run binaryArray with
  | .ok (object, rest) => if rest.isEmpty then some object else none
  | .error _ => none

/-! ## The limits -/

/-- A size within the limit is written as its own LEB128 bytes. -/
theorem writeVarint_ofNat_of_le {size : ℕ} (h : size ≤ 100 * 1024 * 1024) :
    writeVarint (UInt64.ofNat size) = LEB128.encode size := by
  rw [writeVarint_eq_encode, UInt64.toNat_ofNat', Nat.mod_eq_of_lt (by omega)]

/-- A size from a 64-bit varint passes the guard of the input serializer exactly within the
limit; the size then reads back from what the output serializer writes. -/
theorem readVarint_guard_eq_ok {msg : String} {f : ℕ → Reader α} {input : List UInt8}
    {r : α × List UInt8} :
    (readVarint 64 >>= fun size =>
        if size > 100 * 1024 * 1024 then throw msg else f size).run input = .ok r ↔
      ∃ size s, size ≤ 100 * 1024 * 1024 ∧ input = writeVarint (UInt64.ofNat size) ++ s ∧
        (f size).run s = .ok r := by
  rw [(readVarint_exact 64).run_bind_eq_ok]
  constructor
  · rintro ⟨size, s, -, rfl, hrun⟩
    obtain ⟨hle, hrun⟩ := run_ite_throw_eq_ok.mp hrun
    exact ⟨size, s, by omega, by rw [writeVarint_ofNat_of_le (by omega)], hrun⟩
  · rintro ⟨size, s, hle, rfl, hrun⟩
    exact ⟨size, s, by omega, by rw [writeVarint_ofNat_of_le hle],
      run_ite_throw_eq_ok.mpr ⟨by omega, hrun⟩⟩

namespace Input

theorem beginArray_exact :
    Exact (fun size => size ≤ 100 * 1024 * 1024) Output.beginArray beginArray := by
  intro input size rest
  rw [beginArray, readVarint_guard_eq_ok]
  constructor
  · rintro ⟨size', s, hle, rfl, hrun⟩
    obtain ⟨rfl, rfl⟩ := Prod.mk.inj (Except.ok.inj hrun)
    exact ⟨hle, rfl⟩
  · rintro ⟨hle, rfl⟩
    exact ⟨size, rest, hle, rfl, rfl⟩

/-- The string read after its size: its bytes, or nothing for size zero. -/
theorem read_or_empty_exact (size : ℕ) :
    Exact (fun value => value.length = size) id
      (if size > 0 then read size else pure [] : Reader (List UInt8)) := by
  split
  · exact read_exact size
  · rename_i hsize
    intro input value rest
    rw [run_pure]
    constructor
    · intro h
      obtain ⟨rfl, rfl⟩ := Prod.mk.inj (Except.ok.inj h)
      exact ⟨by simp; omega, rfl⟩
    · rintro ⟨hlen, rfl⟩
      rw [List.length_eq_zero_iff.mp (by omega : value.length = 0)]
      rfl

theorem serializeString_exact :
    Exact (fun value => value.length ≤ 100 * 1024 * 1024) Output.serializeString
      serializeString := by
  intro input value rest
  rw [serializeString, readVarint_guard_eq_ok]
  constructor
  · rintro ⟨size, s, hle, rfl, hrun⟩
    obtain ⟨hlen, rfl⟩ := (read_or_empty_exact size s value rest).mp hrun
    exact ⟨by omega, by rw [Output.serializeString, hlen, List.append_assoc]; rfl⟩
  · rintro ⟨hle, rfl⟩
    refine ⟨value.length, value ++ rest, hle, by rw [Output.serializeString, List.append_assoc],
      ?_⟩
    exact (read_or_empty_exact value.length (value ++ rest) value rest).mpr ⟨rfl, rfl⟩

theorem serializeContainer_exact {P : α → Prop} {enc : α → List UInt8} {d : Reader α}
    (h : Exact P enc d) :
    Exact (fun value => value.length ≤ 100 * 1024 * 1024 ∧ ∀ x ∈ value, P x)
      (Output.serializeContainer enc) (serializeContainer d) := by
  intro input value rest
  rw [serializeContainer, beginArray_exact.run_bind_eq_ok]
  constructor
  · rintro ⟨size, s, hle, rfl, hrun⟩
    obtain ⟨⟨hlen, hP⟩, rfl⟩ := ((h.decodeN size) s value rest).mp hrun
    refine ⟨⟨by omega, hP⟩, ?_⟩
    rw [Output.serializeContainer, hlen, List.append_assoc]
  · rintro ⟨⟨hle, hP⟩, rfl⟩
    refine ⟨value.length, value.flatMap enc ++ rest, hle,
      by rw [Output.serializeContainer, List.append_assoc], ?_⟩
    exact ((h.decodeN value.length) _ value rest).mpr ⟨⟨rfl, hP⟩, rfl⟩

/-- The same for elements whose writer may throw: the container is written when every element
is. -/
theorem serializeContainerE_exact {P : α → Prop} {enc : α → Except String (List UInt8)}
    {d : Reader α} (h : ExactE P enc d) :
    ExactE (fun value => value.length ≤ 100 * 1024 * 1024 ∧ ∀ x ∈ value, P x)
      (Output.serializeContainerE enc) (serializeContainer d) := by
  intro input value rest
  rw [serializeContainer, beginArray_exact.run_bind_eq_ok]
  simp only [Output.serializeContainerE, bind_eq_ok, pure_eq_ok]
  constructor
  · rintro ⟨size, s, hle, rfl, hrun⟩
    obtain ⟨⟨hlen, hP⟩, bs, hbs, rfl⟩ := ((h.decodeN size) s value rest).mp hrun
    obtain ⟨items, hitems, hpure⟩ := bind_eq_ok.mp hbs
    obtain rfl := pure_eq_ok.mp hpure
    refine ⟨⟨by omega, hP⟩, _, ⟨items, hitems, rfl⟩, ?_⟩
    rw [hlen, List.append_assoc]
  · rintro ⟨⟨hle, hP⟩, bs, ⟨items, hitems, rfl⟩, rfl⟩
    refine ⟨value.length, items.flatten ++ rest, hle, by rw [List.append_assoc], ?_⟩
    exact ((h.decodeN value.length) _ value rest).mpr
      ⟨⟨rfl, hP⟩, items.flatten, bind_eq_ok.mpr ⟨items, hitems, rfl⟩, rfl⟩

theorem serializeAsBinary_exact :
    Exact (fun value => value.length ≤ 100 * 1024 * 1024) Output.serializeAsBinary
      serializeAsBinary := by
  intro input value rest
  rw [serializeAsBinary, serializeString_exact.run_bind_eq_ok]
  constructor
  · rintro ⟨blob, s, hle, rfl, hrun⟩
    obtain ⟨-, hrun⟩ := run_ite_throw_eq_ok.mp hrun
    obtain ⟨rfl, rfl⟩ := Prod.mk.inj (Except.ok.inj hrun)
    exact ⟨hle, rfl⟩
  · rintro ⟨hle, rfl⟩
    exact ⟨value, rest, hle, rfl, run_ite_throw_eq_ok.mpr ⟨by omega, rfl⟩⟩

/-- A value held as `size` bytes that `ofBytes` reads back: its bytes, and any bytes of that
length, are read exactly. -/
theorem serializePod_exact {size : ℕ} {toBytes : α → List UInt8} {ofBytes : List UInt8 → α}
    (hlength : ∀ x, (toBytes x).length = size) (hof : ∀ x, ofBytes (toBytes x) = x)
    (hto : ∀ bytes, bytes.length = size → toBytes (ofBytes bytes) = bytes) :
    Exact (fun _ => True) toBytes (serializePod size ofBytes) :=
  (read_exact size).map (fun bytes hlen => ⟨trivial, hto bytes hlen⟩)
    (fun x _ => ⟨toBytes x, hlength x, hof x⟩)

/-- A string above the limit is written, and its size refused. -/
theorem serializeString_oversized {value : List UInt8}
    (hlong : 100 * 1024 * 1024 < value.length) (hfit : value.length < 2 ^ 64)
    (rest : List UInt8) :
    serializeString.run (Output.serializeString value ++ rest) =
      .error "string size is too big" := by
  have hsize : writeVarint (UInt64.ofNat value.length) = LEB128.encode value.length := by
    rw [writeVarint_eq_encode, UInt64.toNat_ofNat', Nat.mod_eq_of_lt hfit]
  rw [serializeString, Output.serializeString, hsize, List.append_assoc,
    run_bind_of_eq_ok ((readVarint_exact 64).run_eq_ok hfit _), if_pos hlong]
  rfl

theorem serializeAsBinary_oversized {value : List UInt8}
    (hlong : 100 * 1024 * 1024 < value.length) (hfit : value.length < 2 ^ 64)
    (rest : List UInt8) :
    serializeAsBinary.run (Output.serializeAsBinary value ++ rest) =
      .error "string size is too big" :=
  run_bind_of_eq_error (serializeString_oversized hlong hfit rest)

end Input

/-! ## Whole byte arrays -/

theorem toBinaryArray_eq_some {enc : α → Except String (List UInt8)} {object : α}
    {binaryArray : List UInt8} :
    toBinaryArray enc object = some binaryArray ↔ enc object = .ok binaryArray := by
  unfold toBinaryArray
  split <;> simp_all

/-- A reader that throws leaves nothing to return. -/
theorem fromBinaryArray_of_error {d : common.Reader α} {binaryArray : List UInt8} {e : String}
    (h : d.run binaryArray = .error e) : fromBinaryArray d binaryArray = none := by
  rw [fromBinaryArray, h]

/-- An exact reader accepts a byte array iff the value it reads is admitted and the writer
writes exactly that array: the round trip and canonicity of a format at once. -/
theorem fromBinaryArray_eq_some {P : α → Prop} {enc : α → Except String (List UInt8)}
    {d : common.Reader α} (h : ExactE P enc d) (binaryArray : List UInt8) (object : α) :
    fromBinaryArray d binaryArray = some object ↔
      P object ∧ toBinaryArray enc object = some binaryArray := by
  rw [toBinaryArray_eq_some]
  unfold fromBinaryArray
  constructor
  · intro hfrom
    split at hfrom
    · rename_i object' rest hrun
      split at hfrom
      · rename_i hrest
        cases hfrom
        rw [List.isEmpty_iff.mp hrest] at hrun
        obtain ⟨hP, bs, henc, rfl⟩ := (h _ _ _).mp hrun
        exact ⟨hP, by rw [henc, List.append_nil]⟩
      · cases hfrom
    · cases hfrom
  · rintro ⟨hP, henc⟩
    rw [(h binaryArray object []).mpr ⟨hP, binaryArray, henc, (List.append_nil _).symm⟩]
    rfl

end UltraNoteCore
