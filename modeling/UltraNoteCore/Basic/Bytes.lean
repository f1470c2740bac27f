import UltraNoteCore.Basic.CryptoNote
import UltraNoteCore.Prelude.Digits

/-!
# The bytes of digests, keys and signatures

The binary formats copy a `crypto::Hash`, a key, a key image or a signature as the bytes it
occupies in memory (`serializePod`, the checksum of `encode_addr`). The model holds each as the
little-endian number of its bytes, so its bytes are the lowest base-256 digits of that number,
and reading as many bytes back gives the value again.

## Main definitions

* `bytesOfNat`, `natOfBytes`: the little-endian bytes of a number and back
* `Hash.toBytes`, `PublicKey.toBytes`, `KeyImage.toBytes`, `Signature.toBytes` and their
  `ofBytes`

## Main results

* `natOfBytes_bytesOfNat`, `bytesOfNat_natOfBytes`: the two directions of the round trip
-/

namespace UltraNoteCore

/-- The `n` little-endian bytes of `v`. -/
def bytesOfNat (n v : ℕ) : List UInt8 := (Nat.lowDigits 256 n v).map UInt8.ofNat

/-- The number little-endian bytes hold. -/
def natOfBytes (bytes : List UInt8) : ℕ := Nat.ofDigits 256 (bytes.map UInt8.toNat)

@[simp] theorem length_bytesOfNat (n v : ℕ) : (bytesOfNat n v).length = n := by
  simp [bytesOfNat]

theorem natOfBytes_bytesOfNat (n v : ℕ) : natOfBytes (bytesOfNat n v) = v % 256 ^ n := by
  -- every digit is a byte, so the bytes hold the digits themselves
  have hdigits : ∀ d ∈ Nat.lowDigits 256 n v, (UInt8.toNat ∘ UInt8.ofNat) d = id d := by
    intro d hd
    have := Nat.lt_of_mem_lowDigits (by decide) hd
    simp only [Function.comp_apply, UInt8.toNat_ofNat', id]
    omega
  rw [natOfBytes, bytesOfNat, List.map_map, List.map_congr_left hdigits, List.map_id,
    Nat.ofDigits_lowDigits]

theorem bytesOfNat_natOfBytes (bytes : List UInt8) :
    bytesOfNat bytes.length (natOfBytes bytes) = bytes := by
  have hlt : ∀ d ∈ bytes.map UInt8.toNat, d < 256 := by
    intro d hd
    obtain ⟨b, -, rfl⟩ := List.mem_map.mp hd
    exact b.toNat_lt
  have hdigits := Nat.lowDigits_ofDigits hlt
  rw [List.length_map] at hdigits
  rw [bytesOfNat, natOfBytes, hdigits, List.map_map]
  simp only [Function.comp_def, UInt8.ofNat_toNat, List.map_id']

theorem natOfBytes_lt (bytes : List UInt8) : natOfBytes bytes < 256 ^ bytes.length := by
  have hlt : ∀ d ∈ bytes.map UInt8.toNat, d < 256 := by
    intro d hd
    obtain ⟨b, -, rfl⟩ := List.mem_map.mp hd
    exact b.toNat_lt
  simpa [natOfBytes] using Nat.ofDigits_lt_base_pow_length (by decide) hlt

/-! ## The 32- and 64-byte values -/

/-- The 32 bytes of a digest. -/
def Hash.toBytes (h : Hash) : List UInt8 := bytesOfNat 32 h.data.toNat

/-- The digest with the given bytes. -/
def Hash.ofBytes (bytes : List UInt8) : Hash := ⟨BitVec.ofNat 256 (natOfBytes bytes)⟩

/-- The 32 bytes of a public key. -/
def PublicKey.toBytes (k : PublicKey) : List UInt8 := bytesOfNat 32 k.data.toNat

/-- The public key with the given bytes. -/
def PublicKey.ofBytes (bytes : List UInt8) : PublicKey := ⟨BitVec.ofNat 256 (natOfBytes bytes)⟩

/-- The 32 bytes of a key image. -/
def KeyImage.toBytes (k : KeyImage) : List UInt8 := bytesOfNat 32 k.data.toNat

/-- The key image with the given bytes. -/
def KeyImage.ofBytes (bytes : List UInt8) : KeyImage := ⟨BitVec.ofNat 256 (natOfBytes bytes)⟩

/-- The 64 bytes of a signature. -/
def Signature.toBytes (s : Signature) : List UInt8 := bytesOfNat 64 s.data.toNat

/-- The signature with the given bytes. -/
def Signature.ofBytes (bytes : List UInt8) : Signature := ⟨BitVec.ofNat 512 (natOfBytes bytes)⟩

/-- A bit vector's bytes read back as a bit vector of the same width give it again. -/
theorem ofNat_natOfBytes_bytesOfNat {w : ℕ} (n : ℕ) (hw : w = 8 * n) (x : BitVec w) :
    BitVec.ofNat w (natOfBytes (bytesOfNat n x.toNat)) = x := by
  have hx : x.toNat < 256 ^ n := by
    have : x.toNat < 2 ^ (8 * n) := hw ▸ x.isLt
    rwa [Nat.pow_mul] at this
  rw [natOfBytes_bytesOfNat, Nat.mod_eq_of_lt hx, BitVec.ofNat_toNat, BitVec.setWidth_eq]

/-- Bytes read as a value of their own width give them again. -/
theorem bytesOfNat_toNat_ofNat {w : ℕ} (bytes : List UInt8) (hw : w = 8 * bytes.length) :
    bytesOfNat bytes.length (BitVec.ofNat w (natOfBytes bytes)).toNat = bytes := by
  have hlt : natOfBytes bytes < 2 ^ w := by
    rw [hw, Nat.pow_mul]
    exact natOfBytes_lt bytes
  rw [BitVec.toNat_ofNat, Nat.mod_eq_of_lt hlt, bytesOfNat_natOfBytes]

@[simp] theorem Hash.ofBytes_toBytes (h : Hash) : Hash.ofBytes h.toBytes = h := by
  rw [Hash.ofBytes, Hash.toBytes, ofNat_natOfBytes_bytesOfNat 32 rfl]

theorem Hash.toBytes_ofBytes {bytes : List UInt8} (h : bytes.length = 32) :
    (Hash.ofBytes bytes).toBytes = bytes := by
  have := bytesOfNat_toNat_ofNat (w := 256) bytes (by omega)
  rwa [h] at this

@[simp] theorem PublicKey.ofBytes_toBytes (k : PublicKey) : PublicKey.ofBytes k.toBytes = k := by
  rw [PublicKey.ofBytes, PublicKey.toBytes, ofNat_natOfBytes_bytesOfNat 32 rfl]

theorem PublicKey.toBytes_ofBytes {bytes : List UInt8} (h : bytes.length = 32) :
    (PublicKey.ofBytes bytes).toBytes = bytes := by
  have := bytesOfNat_toNat_ofNat (w := 256) bytes (by omega)
  rwa [h] at this

@[simp] theorem KeyImage.ofBytes_toBytes (k : KeyImage) : KeyImage.ofBytes k.toBytes = k := by
  rw [KeyImage.ofBytes, KeyImage.toBytes, ofNat_natOfBytes_bytesOfNat 32 rfl]

theorem KeyImage.toBytes_ofBytes {bytes : List UInt8} (h : bytes.length = 32) :
    (KeyImage.ofBytes bytes).toBytes = bytes := by
  have := bytesOfNat_toNat_ofNat (w := 256) bytes (by omega)
  rwa [h] at this

@[simp] theorem Signature.ofBytes_toBytes (s : Signature) : Signature.ofBytes s.toBytes = s := by
  rw [Signature.ofBytes, Signature.toBytes, ofNat_natOfBytes_bytesOfNat 64 rfl]

theorem Signature.toBytes_ofBytes {bytes : List UInt8} (h : bytes.length = 64) :
    (Signature.ofBytes bytes).toBytes = bytes := by
  have := bytesOfNat_toNat_ofNat (w := 512) bytes (by omega)
  rwa [h] at this

@[simp] theorem Hash.length_toBytes (h : Hash) : h.toBytes.length = 32 := length_bytesOfNat _ _
@[simp] theorem PublicKey.length_toBytes (k : PublicKey) : k.toBytes.length = 32 :=
  length_bytesOfNat _ _
@[simp] theorem KeyImage.length_toBytes (k : KeyImage) : k.toBytes.length = 32 :=
  length_bytesOfNat _ _
@[simp] theorem Signature.length_toBytes (s : Signature) : s.toBytes.length = 64 :=
  length_bytesOfNat _ _

end UltraNoteCore
