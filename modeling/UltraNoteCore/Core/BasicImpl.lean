import UltraNoteCore.Common.Base58
import UltraNoteCore.Core.Serialization

/-!
# Address strings

`getAccountAddressAsStr` and `parseAccountAddressString` of `CryptoNoteBasicImpl.cpp`. An
address string is the Base58 address codec of `tools::base_58` around the binary form of the
two public keys, with the network's prefix as its tag. Parsing decodes the address, reads the
keys back requiring that nothing follows them, and accepts them only if both are points of the
curve. The checksum hash `cn_fast_hash` and the curve test `check_key` are parameters.

The two compose to the identity on addresses with valid keys: the address codec gives back the
prefix and the 64 bytes of the keys, which the binary reader accepts exactly.

## Main definitions

* `getAccountAddressAsStr`, `parseAccountAddressString`

## Main results

* `parseAccountAddressString_getAccountAddressAsStr`: an address with valid keys is parsed back
  with its prefix
* `address_string_roundtrip`: the address codec and the address strings both round trip
-/

namespace UltraNoteCore

open Codec

variable (cn_fast_hash : List UInt8 → Hash) (check_key : PublicKey → Bool)

/-- `getAccountAddressAsStr`: the keys in binary, encoded as an address under `addressPrefix`.
The serializer of an address cannot throw, so the source's `assert(r)` holds. -/
def getAccountAddressAsStr (addressPrefix : UInt64) (adr : AccountPublicAddress) : List UInt8 :=
  let ba := (toBinaryArray (fun a => .ok (Output.serializeAccountPublicAddress a)) adr).getD []
  base_58.encode_addr cn_fast_hash addressPrefix ba

/-- `parseAccountAddressString`: the prefix and the keys of an address string, when it decodes,
its data is exactly the binary form of two keys, and both keys pass `check_key`. -/
def parseAccountAddressString (str : List UInt8) : Option (UInt64 × AccountPublicAddress) :=
  match base_58.decode_addr cn_fast_hash str with
  | none => none
  | some (addressPrefix, data) =>
    match fromBinaryArray Input.serializeAccountPublicAddress data with
    | none => none
    | some adr =>
      if check_key adr.spendPublicKey && check_key adr.viewPublicKey then some (addressPrefix, adr)
      else none

/-- An address with valid keys is parsed back from its string, with its prefix. -/
theorem parseAccountAddressString_getAccountAddressAsStr (addressPrefix : UInt64)
    (adr : AccountPublicAddress) (hspend : check_key adr.spendPublicKey = true)
    (hview : check_key adr.viewPublicKey = true) :
    parseAccountAddressString cn_fast_hash check_key
        (getAccountAddressAsStr cn_fast_hash addressPrefix adr) = some (addressPrefix, adr) := by
  -- the data of the address is the binary form of the keys, which reads back exactly
  have hbinary : fromBinaryArray Input.serializeAccountPublicAddress
      (Output.serializeAccountPublicAddress adr) = some adr :=
    (fromBinaryArray_eq_some Input.serializeAccountPublicAddress_exact.exactE _ _).mpr
      ⟨trivial, rfl⟩
  unfold parseAccountAddressString getAccountAddressAsStr
  rw [show (toBinaryArray (fun a => .ok (Output.serializeAccountPublicAddress a)) adr).getD [] =
      Output.serializeAccountPublicAddress adr from rfl,
    base_58.decode_addr_encode_addr]
  dsimp only
  rw [hbinary]
  dsimp only
  rw [hspend, hview]
  rfl

theorem address_string_roundtrip :
    (∀ (tag : UInt64) (data : List UInt8),
      base_58.decode_addr cn_fast_hash (base_58.encode_addr cn_fast_hash tag data) =
        some (tag, data)) ∧
    ∀ (addressPrefix : UInt64) (adr : AccountPublicAddress),
      check_key adr.spendPublicKey = true → check_key adr.viewPublicKey = true →
      parseAccountAddressString cn_fast_hash check_key
          (getAccountAddressAsStr cn_fast_hash addressPrefix adr) = some (addressPrefix, adr) :=
  ⟨base_58.decode_addr_encode_addr cn_fast_hash,
    parseAccountAddressString_getAccountAddressAsStr cn_fast_hash check_key⟩

end UltraNoteCore
