import UltraNoteCore.Common.Varint
import UltraNoteCore.Prelude.Codec

/-!
# Stream tools

`common::read`, `readVarint` and `writeVarint` of `Common/StreamTools.cpp`, over the
`MemoryInputStream` the binary serializer reads from. `read` copies exactly the bytes asked for
and throws when the stream ends first. `readVarint` reads a LEB128 number into an unsigned
integer of a fixed width: before a piece is ORed in, a piece in the last seven bits of the width
that does not fit throws, and a last piece that is a redundant zero throws. `writeVarint` writes
the LEB128 bytes of a `uint64_t`. A reader is a `Codec.Decoder` over the rest of the buffer
whose errors are the texts of the exceptions.

Read into a width, the varint reader accepts exactly the LEB128 encodings of the numbers that
fit it: each reads back as its number whatever follows, and each accepted input starts with the
encoding of the number read, so no number has two encodings.

## Main definitions

* `common.read`, `common.readVarint` and its overloads, `common.writeVarint`

## Main results

* `common.read_exact`: `read` accepts exactly the byte strings of its length
* `common.readVarint_exact`: `readVarint` accepts exactly the encodings of the numbers that fit
* `common.readVarintUInt8_exact`, `readVarintUInt32_exact`, `readVarintUInt64_exact`: the
  overloads against `writeVarint` of the value
-/

namespace UltraNoteCore

namespace common

open Codec

/-- A reader from a `MemoryInputStream`: the unread rest of the buffer is the state, and an
exception is an error carrying its text. -/
abbrev Reader (α : Type) := Decoder String UInt8 α

/-- `read(IInputStream&, void*, size)`: the next `size` bytes; `readSome` returns nothing at the
end of the buffer, and the loop then throws. -/
def read (size : ℕ) : Reader (List UInt8) := fun input =>
  if size ≤ input.length then .ok (input.take size, input.drop size)
  else .error "Failed to read from IInputStream"

/-- The loop of `readVarint` into a `bits`-wide integer, from the piece at `shift` on with the
bits `temp` read so far. -/
def readVarintLoop (bits shift temp : ℕ) : List UInt8 → Except String (ℕ × List UInt8)
  | [] => .error "Failed to read from IInputStream"
  | piece :: rest =>
    if bits - 7 ≤ shift ∧ 2 ^ (bits - shift) ≤ piece.toNat then .error "readVarint, value overflow"
    else
      let temp := temp ||| (piece &&& 0x7f).toNat <<< shift
      if piece &&& 0x80 = 0 then
        if piece = 0 ∧ shift ≠ 0 then .error "readVarint, invalid value representation"
        else .ok (temp, rest)
      else readVarintLoop bits (shift + 7) temp rest

/-- `readVarint` into a `bits`-wide unsigned integer. The overflow test keeps the number below
`2 ^ bits` (`readVarint_exact`), so the truncation of `temp` to its width never takes effect and
the model holds it as a natural number. -/
def readVarint (bits : ℕ) : Reader ℕ := fun input => readVarintLoop bits 0 0 input

/-- `read<uint8_t>(IInputStream&)`: one byte, read raw. -/
def readUInt8 : Reader UInt8 := (fun bytes => bytes.headD 0) <$> read 1

/-- `readVarint(IInputStream&, uint8_t&)`. -/
def readVarintUInt8 : Reader UInt8 := UInt8.ofNat <$> readVarint 8

/-- `readVarint(IInputStream&, uint32_t&)`. -/
def readVarintUInt32 : Reader UInt32 := UInt32.ofNat <$> readVarint 32

/-- `readVarint(IInputStream&, uint64_t&)`. -/
def readVarintUInt64 : Reader UInt64 := UInt64.ofNat <$> readVarint 64

/-- `writeVarint(IOutputStream&, uint64_t)`, the only overload the header declares, so every
unsigned field is written through it. Its loop is the one of `tools::write_varint`: the byte
`value | 0x80` cut to eight bits is the low seven bits with the high bit set. -/
def writeVarint (value : UInt64) : List UInt8 := write_varint value

theorem writeVarint_eq_encode (value : UInt64) : writeVarint value = LEB128.encode value.toNat :=
  write_varint_eq_encode value

/-! ## Reading bytes -/

theorem read_exact (size : ℕ) : Exact (fun bytes => bytes.length = size) id (read size) := by
  intro input bytes rest
  show (if size ≤ input.length then _ else _) = _ ↔ _
  split
  · rename_i hsize
    constructor
    · intro h
      obtain ⟨rfl, rfl⟩ := Prod.mk.inj (Except.ok.inj h)
      exact ⟨by simpa using hsize, (List.take_append_drop size input).symm⟩
    · rintro ⟨rfl, rfl⟩
      rw [List.take_left', List.drop_left']
      all_goals rfl
  · rename_i hsize
    constructor
    · intro h; cases h
    · rintro ⟨rfl, rfl⟩
      simp at hsize

/-! ## Reading varints -/

/-- The loop reads an encoding back: from `shift` on, with the bits below it read, the pieces
of `u` add `2 ^ shift * u`, as long as the number fits the width and a piece after the first is
not zero. -/
theorem readVarintLoop_encode (bits : ℕ) (rest : List UInt8) :
    ∀ u shift temp, temp < 2 ^ shift → 2 ^ shift * u < 2 ^ bits → (shift ≠ 0 → u ≠ 0) →
      readVarintLoop bits shift temp (LEB128.encode u ++ rest) =
        .ok (temp + 2 ^ shift * u, rest) := by
  intro u
  induction u using Nat.strong_induction_on with
  | _ u ih =>
  intro shift temp htemp hfit hzero
  by_cases hlast : u < 128
  · -- the last piece: it passes the overflow test since the number fits the width
    rw [LEB128.encode_of_lt hlast, List.singleton_append, readVarintLoop]
    have hbyte : (UInt8.ofNat u).toNat = u := LEB128.toNat_last hlast
    have hover : ¬(bits - 7 ≤ shift ∧ 2 ^ (bits - shift) ≤ (UInt8.ofNat u).toNat) := by
      have := LEB128.not_overflow hfit
      rw [Nat.mod_eq_of_lt (by omega : u < 256)] at this
      rw [hbyte, Nat.sub_le_iff_le_add]
      exact this
    have hnz : ¬(UInt8.ofNat u = 0 ∧ shift ≠ 0) := by
      rintro ⟨h0, hs⟩
      have := congrArg UInt8.toNat h0
      rw [hbyte] at this
      exact hzero hs (by simpa using this)
    have hend : UInt8.ofNat u &&& 0x80 = 0 := (and_high_eq_zero_iff _).mpr (by omega)
    dsimp only
    rw [if_neg hover, if_pos hend, if_neg hnz, toNat_and_low, hbyte, Nat.mod_eq_of_lt hlast,
      LEB128.or_shiftLeft_eq_add htemp]
  · -- a continuation piece, then the rest of the number from `shift + 7`
    have hle : 128 ≤ u := by omega
    rw [LEB128.encode_of_le hle, List.cons_append, readVarintLoop]
    have hbyte := LEB128.toNat_continuation u
    have hover : ¬(bits - 7 ≤ shift ∧
        2 ^ (bits - shift) ≤ (UInt8.ofNat (u % 128 + 128)).toNat) := by
      have := LEB128.lt_of_continues hle hfit
      omega
    have hmore : ¬(UInt8.ofNat (u % 128 + 128) &&& 0x80 = 0) := by
      rw [and_high_eq_zero_iff, hbyte]; omega
    have hlow : temp ||| (u % 128) <<< shift = temp + 2 ^ shift * (u % 128) :=
      LEB128.or_shiftLeft_eq_add htemp _
    dsimp only
    rw [if_neg hover, if_neg hmore, toNat_and_low, hbyte,
      show (u % 128 + 128) % 128 = u % 128 by omega, hlow,
      ih (u / 128) (by omega) (shift + 7) _ (LEB128.add_piece_lt htemp u)
        (LEB128.quotient_fits hfit) (fun _ => by omega),
      LEB128.add_piece_add_quotient]

/-- What the loop accepts is an encoding: the bytes it consumed are the LEB128 bytes of a
number that fits the width, non-zero after the first piece, and the loop added it at
`shift`. -/
theorem encode_of_readVarintLoop (bits : ℕ) :
    ∀ input shift temp v rest, temp < 2 ^ shift →
      readVarintLoop bits shift temp input = .ok (v, rest) →
      ∃ u, input = LEB128.encode u ++ rest ∧ v = temp + 2 ^ shift * u ∧
        2 ^ shift * u < 2 ^ bits ∧ (shift ≠ 0 → u ≠ 0) := by
  intro input
  induction input with
  | nil => intro _ _ _ _ _ h; cases h
  | cons piece input ih =>
    intro shift temp v rest htemp h
    rw [readVarintLoop] at h
    split at h
    · cases h
    rename_i hover
    dsimp only at h
    have hlow : temp ||| (piece &&& 0x7f).toNat <<< shift =
        temp + 2 ^ shift * (piece.toNat % 128) := by
      rw [toNat_and_low, LEB128.or_shiftLeft_eq_add htemp]
    split at h
    · -- the last piece, which is the encoding of its own value
      rename_i hend
      split at h
      · cases h
      rename_i hnz
      obtain ⟨rfl, rfl⟩ := Prod.mk.inj (Except.ok.inj h)
      have hp : piece.toNat < 128 := (and_high_eq_zero_iff piece).mp hend
      refine ⟨piece.toNat, by rw [LEB128.encode_of_toNat_lt hp, List.singleton_append], ?_,
        LEB128.fits_of_not_overflow hp (by rwa [← Nat.sub_le_iff_le_add]), ?_⟩
      · rw [hlow, Nat.mod_eq_of_lt hp]
      · intro hs h0
        exact hnz ⟨UInt8.toNat_inj.mp (by rw [h0]; rfl), hs⟩
    · -- a continuation piece before the encoding of a non-zero number at `shift + 7`
      rename_i hmore
      have hp : 128 ≤ piece.toNat := by
        by_contra hp
        exact hmore ((and_high_eq_zero_iff piece).mpr (by omega))
      rw [hlow] at h
      obtain ⟨u, rfl, rfl, hfit, hnz⟩ :=
        ih (shift + 7) _ v rest (LEB128.add_piece_lt htemp piece.toNat) h
      have hu : u ≠ 0 := hnz (by omega)
      refine ⟨piece.toNat % 128 + 128 * u, ?_, ?_, LEB128.fits_of_continues hu hfit,
        fun _ => by omega⟩
      · rw [LEB128.encode_cons_of_continues hp hu, List.cons_append]
      · have := LEB128.add_piece_add_quotient temp shift (piece.toNat % 128 + 128 * u)
        rw [show (piece.toNat % 128 + 128 * u) % 128 = piece.toNat % 128 by omega,
          show (piece.toNat % 128 + 128 * u) / 128 = u by omega] at this
        exact this

theorem readVarint_exact (bits : ℕ) :
    Exact (fun v => v < 2 ^ bits) LEB128.encode (readVarint bits) := by
  intro input v rest
  constructor
  · intro h
    obtain ⟨u, hinput, rfl, hfit, -⟩ :=
      encode_of_readVarintLoop bits input 0 0 v rest (Nat.two_pow_pos 0) h
    simp only [Nat.pow_zero, Nat.one_mul, Nat.zero_add] at hfit ⊢
    exact ⟨hfit, hinput⟩
  · rintro ⟨hv, rfl⟩
    have := readVarintLoop_encode bits rest v 0 0 (Nat.two_pow_pos 0) (by simpa using hv)
      (fun h => absurd rfl h)
    simp only [Nat.pow_zero, Nat.one_mul, Nat.zero_add] at this
    exact this

/-! ## The fixed-width overloads -/

theorem readUInt8_exact : Exact (fun _ => True) (fun value : UInt8 => [value]) readUInt8 :=
  (read_exact 1).map (fun bytes hlen => ⟨trivial, by
      match bytes, hlen with
      | [_], _ => rfl⟩)
    (fun value _ => ⟨[value], rfl, rfl⟩)

theorem readVarintUInt8_exact :
    Exact (fun _ => True) (fun value : UInt8 => writeVarint value.toUInt64) readVarintUInt8 := by
  refine (readVarint_exact 8).map (fun v hv => ⟨trivial, ?_⟩)
    (fun value _ => ⟨value.toNat, value.toNat_lt, UInt8.ofNat_toNat⟩)
  rw [writeVarint_eq_encode, UInt8.toNat_toUInt64, UInt8.toNat_ofNat', Nat.mod_eq_of_lt hv]

theorem readVarintUInt32_exact :
    Exact (fun _ => True) (fun value : UInt32 => writeVarint value.toUInt64) readVarintUInt32 := by
  refine (readVarint_exact 32).map (fun v hv => ⟨trivial, ?_⟩)
    (fun value _ => ⟨value.toNat, value.toNat_lt, UInt32.ofNat_toNat⟩)
  rw [writeVarint_eq_encode, UInt32.toNat_toUInt64, UInt32.toNat_ofNat', Nat.mod_eq_of_lt hv]

theorem readVarintUInt64_exact :
    Exact (fun _ => True) writeVarint readVarintUInt64 := by
  refine (readVarint_exact 64).map (fun v hv => ⟨trivial, ?_⟩)
    (fun value _ => ⟨value.toNat, value.toNat_lt, UInt64.ofNat_toNat⟩)
  rw [writeVarint_eq_encode, UInt64.toNat_ofNat', Nat.mod_eq_of_lt hv]

end common

end UltraNoteCore
