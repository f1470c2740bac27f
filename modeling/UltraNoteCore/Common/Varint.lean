import Mathlib.Data.FinEnum
import UltraNoteCore.Prelude.LEB128

/-!
# The varints of `Common/Varint.h`

`tools::write_varint` writes an unsigned integer in LEB128 and `tools::read_varint` reads one
back from the front of a byte range, returning how many bytes it read, `-1` when the value
overflows the width and `-2` for a redundant zero byte; at the end of the input it returns what
it has read so far. The address codec writes and reads its tag with them.

## Main definitions

* `write_varint`, `get_varint_data`, `read_varint`

## Main results

* `write_varint_eq_encode`: the writer is the LEB128 encoding
* `read_varint_write_varint`: the reader reads back what the writer wrote, with its length
* `read_varint_canonical`: into every width up to 64 bits the reader reads back every value that
  fits, and a positive count is a canonical encoding or the end-of-input exit after continuation
  bytes only
* `read_varint_truncated`: that exit counts a lone continuation byte as a one-byte varint
-/

namespace UltraNoteCore

/-- `tools::write_varint` for a `uint64_t`: seven bits a byte, the high bit on all bytes but the
last. -/
def write_varint (i : UInt64) : List UInt8 :=
  if 0x80 ≤ i then (i.toUInt8 &&& 0x7f ||| 0x80) :: write_varint (i >>> 7) else [i.toUInt8]
termination_by i.toNat
decreasing_by
  have h : 128 ≤ i.toNat := by simpa [UInt64.le_iff_toNat_le] using ‹0x80 ≤ i›
  simp only [UInt64.toNat_shiftRight, Nat.shiftRight_eq_div_pow]
  simp only [UInt64.reduceToNat, Nat.reduceMod]
  omega

/-- `tools::get_varint_data`: the bytes `write_varint` writes. -/
def get_varint_data (v : UInt64) : List UInt8 := write_varint v

/-- The loop of `tools::read_varint` for a `bits`-wide value: at each byte, the overflow test of
the last piece, the test against a redundant zero, then the piece ORed in at `shift`. -/
def readVarintLoop (bits : ℕ) (shift read i : ℕ) : List UInt8 → Int × ℕ
  | [] => (read, i)
  | byte :: rest =>
    let read := read + 1
    if bits ≤ shift + 7 ∧ 2 ^ (bits - shift) ≤ byte.toNat then (-1, i)
    else if byte = 0 ∧ shift ≠ 0 then (-2, i)
    else
      let i := i ||| (byte &&& 0x7f).toNat <<< shift
      if byte &&& 0x80 = 0 then (read, i) else readVarintLoop bits (shift + 7) read i rest

/-- `tools::read_varint` into a `bits`-wide unsigned integer: what it returns, and the value it
stores. -/
def read_varint (bits : ℕ) (input : List UInt8) : Int × ℕ := readVarintLoop bits 0 0 0 input

/-! ## Bytes and pieces -/

theorem toNat_and_low (x : UInt8) : (x &&& 0x7f).toNat = x.toNat % 128 := by
  rw [UInt8.toNat_and]
  exact Nat.and_two_pow_sub_one_eq_mod x.toNat 7

theorem and_high_eq_zero_iff (x : UInt8) : x &&& 0x80 = 0 ↔ x.toNat < 128 := by
  have hx := x.toNat_lt
  rw [← UInt8.toNat_inj, UInt8.toNat_and, show (0x80 : UInt8).toNat = 2 ^ 7 from rfl,
    show (0 : UInt8).toNat = 0 from rfl, Nat.and_two_pow, Nat.testBit_eq_decide_div_mod_eq]
  -- the high bit of a byte is set iff the byte is at least 128
  by_cases hb : x.toNat / 2 ^ 7 % 2 = 1
  · simp only [hb, decide_true, Bool.toNat_true]; omega
  · simp only [hb, decide_false, Bool.toNat_false]; omega

theorem toNat_continuation_byte (x : UInt8) :
    (x &&& 0x7f ||| 0x80).toNat = x.toNat % 128 + 128 := by
  rw [UInt8.toNat_or, toNat_and_low, show (0x80 : UInt8).toNat = 2 ^ 7 * 1 from rfl, Nat.lor_comm,
    ← Nat.two_pow_add_eq_or_of_lt (Nat.mod_lt _ (by decide))]
  omega

theorem UInt64.toNat_shiftRight_seven (v : UInt64) : (v >>> 7).toNat = v.toNat / 128 := by
  simp [UInt64.toNat_shiftRight, Nat.shiftRight_eq_div_pow]

/-- The writer is the LEB128 encoding of the number. -/
theorem write_varint_eq_encode (i : UInt64) : write_varint i = LEB128.encode i.toNat := by
  induction i using write_varint.induct with
  | case1 i hi ih =>
    have h : 128 ≤ i.toNat := by simpa [UInt64.le_iff_toNat_le] using hi
    have hbyte : i.toUInt8 &&& 0x7f ||| 0x80 = UInt8.ofNat (i.toNat % 128 + 128) := by
      apply UInt8.toNat_inj.mp
      rw [toNat_continuation_byte, LEB128.toNat_continuation, UInt64.toNat_toUInt8]
      omega
    rw [write_varint, if_pos hi, ih, LEB128.encode_of_le h, hbyte,
      UInt64.toNat_shiftRight_seven]
  | case2 i hi =>
    have h : i.toNat < 128 := by simpa [UInt64.le_iff_toNat_le] using hi
    have hbyte : i.toUInt8 = UInt8.ofNat i.toNat := by
      apply UInt8.toNat_inj.mp
      rw [LEB128.toNat_last h, UInt64.toNat_toUInt8]
      omega
    rw [write_varint, if_neg hi, LEB128.encode_of_lt h, hbyte]

/-- The loop reads an encoded number back: from `shift` on, with the bits below it read, the
pieces of `u` add `2 ^ shift * u`, as long as the number fits the width and a piece after the
first is not zero. -/
theorem readVarintLoop_encode (bits : ℕ) (rest : List UInt8) :
    ∀ u shift read i, i < 2 ^ shift → 2 ^ shift * u < 2 ^ bits → (shift ≠ 0 → u ≠ 0) →
      readVarintLoop bits shift read i (LEB128.encode u ++ rest) =
        (((read + (LEB128.encode u).length : ℕ) : ℤ), i + 2 ^ shift * u) := by
  intro u
  induction u using Nat.strong_induction_on with
  | _ u ih =>
  intro shift read i hi hfit hzero
  by_cases hlast : u < 128
  · -- the last piece: it passes the overflow test since the number fits the width
    rw [LEB128.encode_of_lt hlast, List.singleton_append, readVarintLoop]
    have hbyte : (UInt8.ofNat u).toNat = u := LEB128.toNat_last hlast
    have hover : ¬(bits ≤ shift + 7 ∧ 2 ^ (bits - shift) ≤ (UInt8.ofNat u).toNat) := by
      rw [hbyte, ← Nat.mod_eq_of_lt (by omega : u < 256)]
      exact LEB128.not_overflow hfit
    have hnz : ¬(UInt8.ofNat u = 0 ∧ shift ≠ 0) := by
      rintro ⟨h0, hs⟩
      have := congrArg UInt8.toNat h0
      rw [hbyte] at this
      exact hzero hs (by simpa using this)
    have hend : UInt8.ofNat u &&& 0x80 = 0 := (and_high_eq_zero_iff _).mpr (by omega)
    dsimp only
    rw [if_neg hover, if_neg hnz, if_pos hend, toNat_and_low, hbyte, Nat.mod_eq_of_lt hlast,
      LEB128.or_shiftLeft_eq_add hi, List.length_singleton]
  · -- a continuation piece, then the rest of the number from `shift + 7`
    have hle : 128 ≤ u := by omega
    rw [LEB128.encode_of_le hle, List.cons_append, readVarintLoop]
    have hbyte := LEB128.toNat_continuation u
    have hover : ¬(bits ≤ shift + 7 ∧
        2 ^ (bits - shift) ≤ (UInt8.ofNat (u % 128 + 128)).toNat) := by
      have := LEB128.lt_of_continues hle hfit
      omega
    have hnz : ¬(UInt8.ofNat (u % 128 + 128) = 0 ∧ shift ≠ 0) := by
      rintro ⟨h0, -⟩
      have := congrArg UInt8.toNat h0
      rw [hbyte] at this
      simp at this
    have hmore : ¬(UInt8.ofNat (u % 128 + 128) &&& 0x80 = 0) := by
      rw [and_high_eq_zero_iff, hbyte]; omega
    -- the first piece adds the low seven bits; the rest adds the number above them
    have hlow : i ||| (u % 128) <<< shift = i + 2 ^ shift * (u % 128) :=
      LEB128.or_shiftLeft_eq_add hi _
    have hi' := LEB128.add_piece_lt hi u
    have hfit' := LEB128.quotient_fits hfit
    have hsum := LEB128.add_piece_add_quotient i shift u
    dsimp only
    rw [if_neg hover, if_neg hnz, if_neg hmore, toNat_and_low, hbyte,
      show (u % 128 + 128) % 128 = u % 128 by omega, hlow,
      ih (u / 128) (by omega) (shift + 7) (read + 1) _ hi' hfit' (fun _ => by omega), hsum,
      List.length_cons, Nat.add_assoc, Nat.add_comm 1]

/-- `read_varint` reads what `write_varint` wrote, whatever follows it: the number of bytes
written and the value. -/
theorem read_varint_write_varint (v : UInt64) (rest : List UInt8) :
    read_varint 64 (write_varint v ++ rest) = ((((write_varint v).length : ℕ) : ℤ), v.toNat) := by
  have hfit : 2 ^ 0 * v.toNat < 2 ^ 64 := by simpa using v.toNat_lt
  rw [read_varint, write_varint_eq_encode,
    readVarintLoop_encode 64 rest v.toNat 0 0 0 (by decide) hfit (fun h => absurd rfl h)]
  simp

/-- `read_varint` into any width up to 64 bits reads back what `write_varint` wrote of a value
that fits it. -/
theorem read_varint_write_varint_of_lt (bits : ℕ) {v : UInt64} (hv : v.toNat < 2 ^ bits)
    (rest : List UInt8) :
    read_varint bits (write_varint v ++ rest) = ((((write_varint v).length : ℕ) : ℤ), v.toNat) := by
  have hfit : 2 ^ 0 * v.toNat < 2 ^ bits := by simpa using hv
  rw [read_varint, write_varint_eq_encode,
    readVarintLoop_encode bits rest v.toNat 0 0 0 (by decide) hfit (fun h => absurd rfl h)]
  simp

/-- What the loop returns as a count: either it stopped at a last byte, and the bytes it read
from `shift` on are the LEB128 bytes of a number that fits the width, non-zero after the first
piece; or it ran out of input, and every byte it read had the continuation bit. -/
theorem readVarintLoop_cases (bits : ℕ) :
    ∀ input shift read i (n v : ℕ), i < 2 ^ shift →
      readVarintLoop bits shift read i input = ((n : ℤ), v) →
      (∃ u rest, input = LEB128.encode u ++ rest ∧ n = read + (LEB128.encode u).length ∧
        v = i + 2 ^ shift * u ∧ 2 ^ shift * u < 2 ^ bits ∧ (shift ≠ 0 → u ≠ 0)) ∨
      (n = read + input.length ∧ ∀ byte ∈ input, 128 ≤ byte.toNat) := by
  intro input
  induction input with
  | nil =>
    -- the end-of-input exit returns the count so far
    intro shift read i n v _ h
    obtain ⟨hn, -⟩ := Prod.mk.inj h
    exact Or.inr ⟨by rw [List.length_nil, Nat.add_zero]; exact_mod_cast hn.symm,
      fun _ hb => absurd hb List.not_mem_nil⟩
  | cons byte input ih =>
    intro shift read i n v hi h
    rw [readVarintLoop] at h
    dsimp only at h
    split at h
    · -- the overflow and zero exits return negative counts
      exact absurd (Prod.mk.inj h).1 (by omega)
    rename_i hover
    split at h
    · exact absurd (Prod.mk.inj h).1 (by omega)
    rename_i hnz
    have hlow : i ||| (byte &&& 0x7f).toNat <<< shift = i + 2 ^ shift * (byte.toNat % 128) := by
      rw [toNat_and_low, LEB128.or_shiftLeft_eq_add hi]
    split at h
    · -- a last byte: the encoding of its own value
      rename_i hend
      obtain ⟨hn, rfl⟩ := Prod.mk.inj h
      have hp : byte.toNat < 128 := (and_high_eq_zero_iff byte).mp hend
      refine Or.inl ⟨byte.toNat, input, ?_, ?_, ?_,
        LEB128.fits_of_not_overflow hp hover, fun hs h0 => ?_⟩
      · rw [LEB128.encode_of_toNat_lt hp, List.singleton_append]
      · rw [LEB128.encode_of_toNat_lt hp, List.length_singleton]
        omega
      · rw [hlow, Nat.mod_eq_of_lt hp]
      · exact hnz ⟨UInt8.toNat_inj.mp (by rw [h0]; rfl), hs⟩
    · -- a continuation byte, then the rest read from `shift + 7`
      rename_i hmore
      have hp : 128 ≤ byte.toNat := by
        by_contra hp
        exact hmore ((and_high_eq_zero_iff byte).mpr (by omega))
      rw [hlow] at h
      rcases ih (shift + 7) (read + 1) _ n v (LEB128.add_piece_lt hi byte.toNat) h with
        ⟨u, rest, rfl, rfl, rfl, hfit, hnz'⟩ | ⟨hn, hcont⟩
      · have hu : u ≠ 0 := hnz' (by omega)
        refine Or.inl ⟨byte.toNat % 128 + 128 * u, rest, ?_, ?_, ?_,
          LEB128.fits_of_continues hu hfit, fun _ => by omega⟩
        · rw [LEB128.encode_cons_of_continues hp hu, List.cons_append]
        · rw [LEB128.encode_cons_of_continues hp hu, List.length_cons]
          omega
        · have := LEB128.add_piece_add_quotient i shift (byte.toNat % 128 + 128 * u)
          rw [show (byte.toNat % 128 + 128 * u) % 128 = byte.toNat % 128 by omega,
            show (byte.toNat % 128 + 128 * u) / 128 = u by omega] at this
          exact this
      · refine Or.inr ⟨by rw [hn, List.length_cons]; omega, fun b hb => ?_⟩
        rcases List.mem_cons.mp hb with rfl | hb
        · exact hp
        · exact hcont b hb

/-- `read_varint` into a width up to 64 bits reads back every value that fits it; and a
positive count is either a canonical encoding, the bytes `write_varint` writes of the value
read, or the end-of-input exit after bytes that all had the continuation bit. -/
theorem read_varint_canonical (bits : ℕ) (hbits : bits ≤ 64) :
    (∀ (v : UInt64) (rest : List UInt8), v.toNat < 2 ^ bits →
      read_varint bits (write_varint v ++ rest) = ((((write_varint v).length : ℕ) : ℤ), v.toNat)) ∧
    ∀ (input : List UInt8) (n v : ℕ), read_varint bits input = ((n : ℤ), v) → 0 < n →
      (v < 2 ^ bits ∧ input.take n = write_varint (UInt64.ofNat v)) ∨
      (input.length = n ∧ ∀ byte ∈ input, 128 ≤ byte.toNat) := by
  refine ⟨fun v rest hv => read_varint_write_varint_of_lt bits hv rest, ?_⟩
  intro input n v h _
  rcases readVarintLoop_cases bits input 0 0 0 n v (by decide) h with
    ⟨u, rest, rfl, rfl, rfl, hfit, -⟩ | ⟨hn, hcont⟩
  · -- the value fits 64 bits, so it is what `write_varint` writes of it
    simp only [Nat.pow_zero, Nat.one_mul, Nat.zero_add] at hfit ⊢
    have hu : (UInt64.ofNat u).toNat = u :=
      Nat.mod_eq_of_lt (Nat.lt_of_lt_of_le hfit (Nat.pow_le_pow_right (by decide) hbits))
    refine Or.inl ⟨hfit, ?_⟩
    rw [write_varint_eq_encode, hu, List.take_left']
    rfl
  · exact Or.inr ⟨by omega, hcont⟩

/-- Read into a `uint32_t`, the two bytes of 300 read back as 300. -/
theorem read_varint_canonical_uint32 : read_varint 32 (write_varint 300 ++ [7]) = (2, 300) := by
  rw [(read_varint_canonical 32 (by decide)).1 300 [7] (by decide)]
  decide +kernel

/-- The end-of-input exit counts a lone continuation byte as a varint of one byte, which is not
what `write_varint` writes of the value read. -/
theorem read_varint_truncated :
    read_varint 64 [0x80] = (1, 0) ∧ [0x80].take 1 ≠ write_varint 0 := by
  refine ⟨by decide, ?_⟩
  rw [write_varint, if_neg (by decide)]
  decide

end UltraNoteCore
