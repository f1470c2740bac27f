import Mathlib.Data.FinEnum
import UltraNoteCore.Basic.Bytes
import UltraNoteCore.Common.Varint
import UltraNoteCore.Core.Difficulty

/-!
# Base58

`tools::base_58` of `Common/Base58.cpp`. The data is cut into blocks of eight bytes, the last
possibly shorter; a block is read as a big-endian number and written as its base-58 digits,
eleven symbols for a full block and `encoded_block_sizes[n]` for one of `n` bytes, padded with
the zero symbol `1`. Decoding reads each block of symbols back with a 128-bit multiplication
that catches overflow past 64 bits, refuses a block whose value does not fit its byte width,
and refuses a string whose last block has a length no byte count encodes to.

The format is a bijection between byte strings and the strings decoding accepts: decoding an
encoding gives the data back, and an accepted string is the encoding of what it decodes to.
Block by block, both directions are the fixed-width digit strings of `Nat.lowDigits`, in base
256 for the bytes and in base 58 for the symbols.

The address codec `encode_addr` puts the LEB128 tag and a four-byte checksum around the data;
`cn_fast_hash` is a parameter.

## Main definitions

* `base_58.encode_block`, `decode_block`, `encode`, `decode`
* `base_58.encode_addr`, `decode_addr`

## Main results

* `base_58.decode_block_encode_block`, `encode_block_of_decode_block`: the block round trips
* `base_58.decode_encode`, `encode_of_decode`: the two directions for whole strings
* `base_58.decode_bijective`: Base58 is a bijection onto the strings decoding accepts
* `base_58.decode_addr_encode_addr`: an address decodes to its tag and data
-/

namespace UltraNoteCore

namespace base_58

/-- `alphabet`: the 58 symbols, without `0`, `O`, `I` and `l`. -/
def alphabet : List UInt8 :=
  "123456789ABCDEFGHJKLMNPQRSTUVWXYZabcdefghijkmnopqrstuvwxyz".toList.map Char.toUInt8

/-- `alphabet_size`. -/
def alphabet_size : ℕ := alphabet.length

/-- `encoded_block_sizes`: the symbols a block of `n` bytes takes. -/
def encoded_block_sizes : List ℕ := [0, 2, 3, 5, 6, 7, 9, 10, 11]

/-- `full_block_size`. -/
def full_block_size : ℕ := encoded_block_sizes.length - 1

/-- `full_encoded_block_size`. -/
def full_encoded_block_size : ℕ := encoded_block_sizes.getD full_block_size 0

/-- `addr_checksum_size`. -/
def addr_checksum_size : ℕ := 4

/-- `reverse_alphabet::operator()`: the position of a letter in the alphabet, `-1` for a letter
outside it (the table is indexed by the letter's distance from `1` and holds `-1` elsewhere). -/
def reverse_alphabet (letter : UInt8) : ℤ :=
  match alphabet.idxOf? letter with
  | some i => i
  | none => -1

/-- `decoded_block_sizes::operator()`: the bytes a block of `n` symbols decodes to, `-1` for a
symbol count no byte count encodes to. -/
def decoded_block_sizes (encoded_block_size : ℕ) : ℤ :=
  match encoded_block_sizes.idxOf? encoded_block_size with
  | some i => i
  | none => -1

/-- `uint_8be_to_64`: one to eight bytes as a big-endian number. -/
def uint_8be_to_64 (data : List UInt8) : UInt64 :=
  data.foldl (fun res b => res <<< 8 ||| b.toUInt64) 0

/-- `uint_64_to_8be`: the last `size` bytes of the big-endian form of `num` (`SWAP64BE`, then a
copy of its tail). -/
def uint_64_to_8be (num : UInt64) (size : ℕ) : List UInt8 :=
  let num_be := (bytesOfNat 8 num.toNat).reverse
  num_be.drop (8 - size)

/-- The loop of `encode_block` over the `i` first symbols of a block, which `encode` fills with
`alphabet[0]`: while the number is positive, its last base-58 digit goes to the last of them. -/
def encodeBlockLoop (num : UInt64) : ℕ → List UInt8
  | 0 => []
  | i + 1 =>
    if 0 < num then
      encodeBlockLoop (num / UInt64.ofNat alphabet_size) i ++
        [alphabet.getD (num % UInt64.ofNat alphabet_size).toNat 0]
    else List.replicate (i + 1) (alphabet.getD 0 0)

/-- `encode_block`: the symbols of a block of one to eight bytes. -/
def encode_block (block : List UInt8) : List UInt8 :=
  let num := uint_8be_to_64 block
  encodeBlockLoop num (encoded_block_sizes.getD block.length 0)

/-- One turn of the loop of `decode_block`, from the last symbol of the block to the first: the
symbol's digit times the weight `order` is added, unless the product or the sum passes 64
bits. -/
def decodeBlockStep (acc : UInt64 × UInt64) (letter : UInt8) : Option (UInt64 × UInt64) :=
  let (res_num, order) := acc
  let digit := reverse_alphabet letter
  if digit < 0 then none
  else
    let (lo, product_hi) := mul128 order (UInt64.ofNat digit.toNat)
    let tmp := res_num + lo
    if tmp < res_num ∨ product_hi ≠ 0 then none
    else some (tmp, order * UInt64.ofNat alphabet_size)

/-- `decode_block`: the bytes of a block of symbols, `none` for a symbol count no byte count
encodes to, an invalid symbol, or a value that passes 64 bits or the block's byte width. -/
def decode_block (block : List UInt8) : Option (List UInt8) :=
  let res_size := decoded_block_sizes block.length
  if res_size ≤ 0 then none
  else
    match block.reverse.foldlM decodeBlockStep (0, 1) with
    | none => none
    | some (res_num, _) =>
      if res_size.toNat < full_block_size ∧
          (1 : UInt64) <<< UInt64.ofNat (8 * res_size.toNat) ≤ res_num then none
      else some (uint_64_to_8be res_num res_size.toNat)

/-- The loop of `encode` over the `n` full blocks. -/
def encodeFullBlocks : ℕ → List UInt8 → List UInt8
  | 0, _ => []
  | n + 1, data =>
    encode_block (data.take full_block_size) ++ encodeFullBlocks n (data.drop full_block_size)

/-- `encode`: the full blocks, then the last one if it is not empty. -/
def encode (data : List UInt8) : List UInt8 :=
  if data.isEmpty then []
  else
    let full_block_count := data.length / full_block_size
    let last_block_size := data.length % full_block_size
    encodeFullBlocks full_block_count data ++
      if 0 < last_block_size then encode_block (data.drop (full_block_count * full_block_size))
      else []

/-- The loop of `decode` over the `n` full blocks. -/
def decodeFullBlocks : ℕ → List UInt8 → Option (List UInt8)
  | 0, _ => some []
  | n + 1, enc =>
    match decode_block (enc.take full_encoded_block_size) with
    | none => none
    | some block =>
      (decodeFullBlocks n (enc.drop full_encoded_block_size)).map (block ++ ·)

/-- `decode`: `none` for a length whose last block no byte count encodes to, or a block that
does not decode. -/
def decode (enc : List UInt8) : Option (List UInt8) :=
  if enc.isEmpty then some []
  else
    let full_block_count := enc.length / full_encoded_block_size
    let last_block_size := enc.length % full_encoded_block_size
    let last_block_decoded_size := decoded_block_sizes last_block_size
    if last_block_decoded_size < 0 then none
    else
      match decodeFullBlocks full_block_count enc with
      | none => none
      | some full =>
        if 0 < last_block_size then
          (decode_block (enc.drop (full_block_count * full_encoded_block_size))).map (full ++ ·)
        else some full

/-! ## Symbols and digits -/

/-- The digit of a symbol the alphabet holds. -/
def digit (c : UInt8) : ℕ := (reverse_alphabet c).toNat

/-- The symbol of a digit. -/
def symbol (d : ℕ) : UInt8 := alphabet.getD d 0

theorem alphabet_length : alphabet.length = 58 := by decide +kernel

theorem alphabet_size_eq : alphabet_size = 58 := alphabet_length

theorem alphabet_nodup : alphabet.Nodup := by decide +kernel

theorem reverse_alphabet_lt (c : UInt8) : reverse_alphabet c < 58 := by
  unfold reverse_alphabet
  cases h : alphabet.idxOf? c with
  | none => decide
  | some i =>
    obtain ⟨hi, -⟩ := List.idxOf?_eq_some_iff.mp h
    rw [alphabet_length] at hi
    dsimp only; omega

theorem symbol_digit (c : UInt8) (hc : 0 ≤ reverse_alphabet c) : symbol (digit c) = c := by
  unfold digit reverse_alphabet at *
  cases h : alphabet.idxOf? c with
  | none => simp only [h] at hc; omega
  | some i =>
    obtain ⟨hi, hget, -⟩ := List.idxOf?_eq_some_iff.mp h
    simp only [Int.toNat_natCast, symbol, List.getD_eq_getElem _ _ hi, hget]

/-- The table of `reverse_alphabet` inverts the alphabet, whose letters are distinct. -/
theorem reverse_alphabet_symbol {d : ℕ} (hd : d < 58) : reverse_alphabet (symbol d) = d := by
  have hlen : d < alphabet.length := by rw [alphabet_length]; exact hd
  have hidx : alphabet.idxOf? (symbol d) = some d := by
    rw [List.idxOf?_eq_some_iff]
    refine ⟨hlen, (List.getD_eq_getElem _ _ hlen).symm, fun j hj heq => ?_⟩
    rw [symbol, List.getD_eq_getElem _ _ hlen] at heq
    have := alphabet_nodup.getElem_inj_iff.mp heq
    omega
  rw [reverse_alphabet, hidx]

theorem digit_lt (c : UInt8) : digit c < 58 := by
  have := reverse_alphabet_lt c
  rw [digit]; omega

theorem digit_symbol {d : ℕ} (hd : d < 58) : digit (symbol d) = d := by
  rw [digit, reverse_alphabet_symbol hd, Int.toNat_natCast]

theorem valid_symbol {d : ℕ} (hd : d < 58) : 0 ≤ reverse_alphabet (symbol d) := by
  rw [reverse_alphabet_symbol hd]; omega


/-! ## Block sizes -/

theorem full_block_size_eq : full_block_size = 8 := rfl
theorem full_encoded_block_size_eq : full_encoded_block_size = 11 := rfl

/-- A symbol count that decodes to a byte count is the encoded size of that count. -/
theorem decoded_block_sizes_nonneg {k : ℕ} (h : 0 ≤ decoded_block_sizes k) :
    ∃ n : ℕ, n < 9 ∧ decoded_block_sizes k = n ∧ encoded_block_sizes.getD n 0 = k := by
  have hk : k < 12 := by
    by_contra hk
    have hnone : encoded_block_sizes.idxOf? k = none := by
      rw [List.idxOf?_eq_none_iff]
      simp only [encoded_block_sizes, List.mem_cons, List.not_mem_nil, or_false]
      omega
    rw [decoded_block_sizes, hnone] at h
    simp at h
  have key : ∀ k : Fin 12, 0 ≤ decoded_block_sizes k →
      ∃ n : ℕ, n < 9 ∧ decoded_block_sizes k = n ∧ encoded_block_sizes.getD n 0 = k := by
    decide
  exact key ⟨k, hk⟩ h

theorem decoded_block_sizes_encoded : ∀ n : Fin 9,
    decoded_block_sizes (encoded_block_sizes.getD n 0) = n := by
  decide

/-- A block of `n` bytes fits the symbols it is given. -/
theorem pow_le_encoded : ∀ n : Fin 9, 256 ^ (n : ℕ) ≤ 58 ^ encoded_block_sizes.getD n 0 := by
  decide

theorem encoded_le_eleven : ∀ n : Fin 9, encoded_block_sizes.getD n 0 ≤ 11 := by
  decide


/-! ## Bytes and words -/

theorem natOfBytes_reverse_cons (b : UInt8) (l : List UInt8) :
    natOfBytes (b :: l).reverse = natOfBytes l.reverse + 256 ^ l.length * b.toNat := by
  rw [List.reverse_cons, natOfBytes, List.map_append, Nat.ofDigits_append, List.length_map,
    List.length_reverse, List.map_singleton, Nat.ofDigits_singleton, natOfBytes]

/-- Shifting a word by a byte and ORing the next byte in is exact while nothing passes 64
bits. -/
theorem toNat_shift_or (acc : UInt64) (b : UInt8) (h : acc.toNat * 256 < 2 ^ 64) :
    (acc <<< 8 ||| b.toUInt64).toNat = acc.toNat * 256 + b.toNat := by
  have hshift : (acc <<< 8).toNat = acc.toNat * 256 := by
    rw [UInt64.toNat_shiftLeft]
    simp only [UInt64.reduceToNat, Nat.reduceMod, Nat.shiftLeft_eq]
    omega
  rw [UInt64.toNat_or, hshift, UInt8.toNat_toUInt64, Nat.mul_comm,
    show (256 : ℕ) = 2 ^ 8 by rfl, ← Nat.two_pow_add_eq_or_of_lt b.toNat_lt]

theorem toNat_foldl_8be : ∀ (l : List UInt8) (acc : UInt64),
    acc.toNat * 256 ^ l.length + natOfBytes l.reverse < 2 ^ 64 →
    (l.foldl (fun (res : UInt64) (b : UInt8) => res <<< 8 ||| b.toUInt64) acc).toNat =
      acc.toNat * 256 ^ l.length + natOfBytes l.reverse
  | [], acc, _ => by simp [natOfBytes]
  | b :: l, acc, h => by
    rw [natOfBytes_reverse_cons, List.length_cons] at h ⊢
    have hacc : acc.toNat * 256 < 2 ^ 64 := by
      have : acc.toNat * 256 ≤ acc.toNat * 256 ^ (l.length + 1) :=
        Nat.mul_le_mul_left _ (Nat.le_self_pow (by omega) _)
      omega
    have hsum : (acc.toNat * 256 + b.toNat) * 256 ^ l.length + natOfBytes l.reverse =
        acc.toNat * 256 ^ (l.length + 1) + (natOfBytes l.reverse + 256 ^ l.length * b.toNat) := by
      rw [Nat.pow_succ]; ring
    rw [List.foldl_cons, toNat_foldl_8be l _ (by rw [toNat_shift_or acc b hacc, hsum]; exact h),
      toNat_shift_or acc b hacc, hsum]

/-- `uint_8be_to_64` reads up to eight bytes as a big-endian number. -/
theorem toNat_uint_8be_to_64 {data : List UInt8} (h : data.length ≤ 8) :
    (uint_8be_to_64 data).toNat = natOfBytes data.reverse := by
  have hlt : natOfBytes data.reverse < 2 ^ 64 := by
    have := natOfBytes_lt data.reverse
    rw [List.length_reverse] at this
    calc natOfBytes data.reverse < 256 ^ data.length := this
      _ ≤ 256 ^ 8 := Nat.pow_le_pow_right (by omega) h
      _ = 2 ^ 64 := by norm_num
  rw [uint_8be_to_64, toNat_foldl_8be data 0 (by simpa using hlt)]
  simp

/-- `uint_64_to_8be` writes the `size` lowest bytes, most significant first. -/
theorem uint_64_to_8be_eq (num : UInt64) {size : ℕ} (h : size ≤ 8) :
    uint_64_to_8be num size = (bytesOfNat size num.toNat).reverse := by
  have hsplit : bytesOfNat 8 num.toNat =
      bytesOfNat size num.toNat ++ bytesOfNat (8 - size) (num.toNat / 256 ^ size) := by
    rw [bytesOfNat, bytesOfNat, bytesOfNat, ← List.map_append, ← Nat.lowDigits_add,
      Nat.add_sub_cancel' h]
  rw [uint_64_to_8be, hsplit, List.reverse_append, List.drop_left' (by simp)]

/-! ## The encoding loop -/

theorem encodeBlockLoop_eq : ∀ (i : ℕ) (num : UInt64),
    encodeBlockLoop num i = ((Nat.lowDigits 58 i num.toNat).map symbol).reverse
  | 0, _ => rfl
  | i + 1, num => by
    rw [encodeBlockLoop, alphabet_size_eq]
    split_ifs with hpos
    · -- the last digit, then the digits of the quotient
      have hdiv : (num / UInt64.ofNat 58).toNat = num.toNat / 58 := by
        rw [UInt64.toNat_div]; rfl
      have hmod : (num % UInt64.ofNat 58).toNat = num.toNat % 58 := by
        rw [UInt64.toNat_mod]; rfl
      rw [encodeBlockLoop_eq i, hdiv, hmod, Nat.lowDigits_succ, List.map_cons, List.reverse_cons]
      rfl
    · -- a zero number leaves the symbols as they were filled
      have hzero : num.toNat = 0 := by
        have : ¬0 < num.toNat := by simpa [UInt64.lt_iff_toNat_lt] using hpos
        omega
      rw [hzero, Nat.lowDigits_of_zero, List.map_replicate, List.reverse_replicate]
      rfl


/-! ## The decoding loop -/

/-- One turn of the decoding loop adds the digit times the weight, exactly, or fails: the
128-bit product and the carry of the sum catch every result past 64 bits. -/
theorem decodeBlockStep_eq (r o : UInt64) (c : UInt8) :
    decodeBlockStep (r, o) c =
      if 0 ≤ reverse_alphabet c ∧ r.toNat + o.toNat * digit c < 2 ^ 64 then
        some (UInt64.ofNat (r.toNat + o.toNat * digit c), o * 58)
      else none := by
  unfold decodeBlockStep mul128
  dsimp only
  by_cases hv : reverse_alphabet c < 0
  · rw [if_pos hv, if_neg (by omega)]
  rw [if_neg hv]
  have hd : (UInt64.ofNat (reverse_alphabet c).toNat).toNat = digit c := by
    have := digit_lt c
    rw [UInt64.toNat_ofNat', digit]
    rw [digit] at this
    omega
  rw [hd]
  have ho := o.toNat_lt
  have hr := r.toNat_lt
  by_cases hp : o.toNat * digit c < 2 ^ 64
  · -- the product fits: the high word is zero and the sum carries exactly on overflow
    have hhi : UInt64.ofNat (o.toNat * digit c / 2 ^ 64) = 0 := by
      rw [Nat.div_eq_of_lt hp]; rfl
    have hlo : (UInt64.ofNat (o.toNat * digit c)).toNat = o.toNat * digit c := by
      rw [UInt64.toNat_ofNat']; omega
    have hsum : (r + UInt64.ofNat (o.toNat * digit c)).toNat =
        (r.toNat + o.toNat * digit c) % 2 ^ 64 := by
      rw [UInt64.toNat_add, hlo]
    by_cases hs : r.toNat + o.toNat * digit c < 2 ^ 64
    · have hnc : ¬(r + UInt64.ofNat (o.toNat * digit c) < r ∨
          UInt64.ofNat (o.toNat * digit c / 2 ^ 64) ≠ 0) := by
        rw [UInt64.lt_iff_toNat_lt, hsum, Nat.mod_eq_of_lt hs, hhi]
        simp only [ne_eq, not_true_eq_false, or_false]
        omega
      have htmp : r + UInt64.ofNat (o.toNat * digit c) =
          UInt64.ofNat (r.toNat + o.toNat * digit c) := by
        apply UInt64.toNat_inj.mp
        rw [hsum, UInt64.toNat_ofNat']
      rw [if_neg hnc, if_pos ⟨by omega, hs⟩, htmp, alphabet_size_eq]
      rfl
    · have hc : r + UInt64.ofNat (o.toNat * digit c) < r ∨
          UInt64.ofNat (o.toNat * digit c / 2 ^ 64) ≠ 0 := by
        left
        rw [UInt64.lt_iff_toNat_lt, hsum]
        omega
      rw [if_pos hc, if_neg (fun h => hs h.2)]
  · -- the product passes 64 bits: its high word is not zero
    have hhi : UInt64.ofNat (o.toNat * digit c / 2 ^ 64) ≠ 0 := by
      have hq : o.toNat * digit c / 2 ^ 64 < 58 := by
        have := digit_lt c
        rw [Nat.div_lt_iff_lt_mul (by positivity)]
        calc o.toNat * digit c < 2 ^ 64 * 58 := by
              apply Nat.lt_of_lt_of_le (Nat.mul_lt_mul_of_lt_of_le ho (Nat.le_of_lt this) (by omega))
              exact Nat.le_refl _
          _ = 58 * 2 ^ 64 := Nat.mul_comm _ _
      have hq1 : 1 ≤ o.toNat * digit c / 2 ^ 64 := by
        rw [Nat.le_div_iff_mul_le (by positivity)]; omega
      intro h0
      have h0' := congrArg UInt64.toNat h0
      rw [UInt64.toNat_ofNat', Nat.mod_eq_of_lt (Nat.lt_trans hq (by norm_num))] at h0'
      simp only [UInt64.toNat_zero] at h0'
      omega
    rw [if_pos (Or.inr hhi), if_neg (by omega)]


/-- The weight after a symbol is exact wherever it still multiplies a digit. -/
theorem toNat_mul_weight (o : UInt64) (l : List UInt8)
    (h : o.toNat * 58 ^ l.length < 2 ^ 64) :
    (o * 58).toNat * Nat.ofDigits 58 (l.map digit) = o.toNat * 58 * Nat.ofDigits 58 (l.map digit) ∧
      (o * 58).toNat * 58 ^ (l.length - 1) < 2 ^ 64 := by
  cases l with
  | nil => exact ⟨by simp, by simpa using (o * 58).toNat_lt⟩
  | cons c l =>
    rw [List.length_cons] at h ⊢
    have h58 : o.toNat * 58 < 2 ^ 64 := by
      have : o.toNat * 58 ≤ o.toNat * 58 ^ (l.length + 1) :=
        Nat.mul_le_mul_left _ (Nat.le_self_pow (by omega) _)
      omega
    have hexact : (o * 58).toNat = o.toNat * 58 := by
      rw [UInt64.toNat_mul]; exact Nat.mod_eq_of_lt h58
    refine ⟨by rw [hexact], ?_⟩
    rw [hexact, Nat.add_sub_cancel, Nat.mul_assoc, ← Nat.pow_succ']
    exact h

/-- The decoding loop over symbols from the least significant: it succeeds exactly when every
symbol is in the alphabet and the weighted sum stays below `2 ^ 64`, and then gives that sum.
The weights it uses must be exact, which holds for blocks of at most eleven symbols. -/
theorem foldlM_decodeBlockStep : ∀ (l : List UInt8) (r o : UInt64),
    o.toNat * 58 ^ (l.length - 1) < 2 ^ 64 →
    (l.foldlM decodeBlockStep (r, o)).map Prod.fst =
      if (∀ c ∈ l, 0 ≤ reverse_alphabet c) ∧
          r.toNat + o.toNat * Nat.ofDigits 58 (l.map digit) < 2 ^ 64 then
        some (UInt64.ofNat (r.toNat + o.toNat * Nat.ofDigits 58 (l.map digit)))
      else none
  | [], r, o, _ => by simp [UInt64.ofNat_toNat, r.toNat_lt]
  | c :: l, r, o, h => by
    rw [List.foldlM_cons, decodeBlockStep_eq, List.map_cons, Nat.ofDigits_cons]
    by_cases hc : 0 ≤ reverse_alphabet c ∧ r.toNat + o.toNat * digit c < 2 ^ 64
    · rw [if_pos hc]
      have hsym : o.toNat * 58 ^ l.length < 2 ^ 64 := by simpa using h
      obtain ⟨hw, h'⟩ := toNat_mul_weight o l hsym
      have hr' : (UInt64.ofNat (r.toNat + o.toNat * digit c)).toNat =
          r.toNat + o.toNat * digit c := by
        rw [UInt64.toNat_ofNat']; exact Nat.mod_eq_of_lt hc.2
      -- the sum after the symbol, plus the rest at the next weight, is the whole sum
      have hval : (UInt64.ofNat (r.toNat + o.toNat * digit c)).toNat +
          (o * 58).toNat * Nat.ofDigits 58 (l.map digit) =
          r.toNat + o.toNat * (digit c + 58 * Nat.ofDigits 58 (l.map digit)) := by
        rw [hr', hw]; ring
      rw [Option.bind_eq_bind, Option.bind_some, foldlM_decodeBlockStep l _ _ h', hval]
      simp only [List.forall_mem_cons, hc.1, true_and]
    · rw [if_neg hc, Option.bind_eq_bind, Option.bind_none, Option.map_none]
      -- a symbol outside the alphabet, or a sum past 64 bits already at this symbol
      have hfalse : ¬((∀ c' ∈ c :: l, 0 ≤ reverse_alphabet c') ∧
          r.toNat + o.toNat * (digit c + 58 * Nat.ofDigits 58 (l.map digit)) < 2 ^ 64) := by
        rintro ⟨hall, hlt⟩
        apply hc
        refine ⟨hall c List.mem_cons_self, ?_⟩
        have : o.toNat * digit c ≤ o.toNat * (digit c + 58 * Nat.ofDigits 58 (l.map digit)) :=
          Nat.mul_le_mul_left _ (Nat.le_add_right _ _)
        omega
      rw [if_neg hfalse]


/-! ## Blocks -/

theorem encode_block_eq (block : List UInt8) (h8 : block.length ≤ 8) :
    encode_block block = ((Nat.lowDigits 58 (encoded_block_sizes.getD block.length 0)
      (natOfBytes block.reverse)).map symbol).reverse := by
  rw [encode_block, encodeBlockLoop_eq, toNat_uint_8be_to_64 h8]

theorem length_encode_block (block : List UInt8) (h8 : block.length ≤ 8) :
    (encode_block block).length = encoded_block_sizes.getD block.length 0 := by
  simp [encode_block_eq block h8]

/-- The width test of `decode_block`, on a block of fewer than eight bytes. -/
theorem toNat_one_shiftLeft {k : ℕ} (hk : k < 8) :
    ((1 : UInt64) <<< UInt64.ofNat (8 * k)).toNat = 256 ^ k := by
  have hshift : (UInt64.ofNat (8 * k)).toNat % 64 = 8 * k := by
    rw [UInt64.toNat_ofNat']; omega
  have hpow : 2 ^ (8 * k) < 2 ^ 64 := Nat.pow_lt_pow_right (by omega) (by omega)
  rw [UInt64.toNat_shiftLeft, hshift, UInt64.toNat_one, Nat.shiftLeft_eq, Nat.one_mul,
    Nat.mod_eq_of_lt hpow, Nat.pow_mul]

/-- Digits below 58 are their symbols' digits, and the symbols are in the alphabet. -/
theorem map_digit_map_symbol {ds : List ℕ} (h : ∀ d ∈ ds, d < 58) :
    (ds.map symbol).map digit = ds ∧ ∀ c ∈ ds.map symbol, 0 ≤ reverse_alphabet c := by
  refine ⟨?_, ?_⟩
  · rw [List.map_map]
    conv_rhs => rw [← List.map_id ds]
    exact List.map_congr_left fun d hd => digit_symbol (h d hd)
  · intro c hc
    obtain ⟨d, hd, rfl⟩ := List.mem_map.mp hc
    exact valid_symbol (h d hd)

/-- Symbols in the alphabet are the symbols of their digits. -/
theorem map_symbol_map_digit {cs : List UInt8} (h : ∀ c ∈ cs, 0 ≤ reverse_alphabet c) :
    (cs.map digit).map symbol = cs := by
  rw [List.map_map]
  conv_rhs => rw [← List.map_id cs]
  exact List.map_congr_left fun c hc => symbol_digit c (h c hc)

theorem digit_lt_of_mem (cs : List UInt8) : ∀ d ∈ cs.map digit, d < 58 := by
  intro d hd
  obtain ⟨c, -, rfl⟩ := List.mem_map.mp hd
  exact digit_lt c

/-- The decoding loop on the symbols of a block of `m ≤ 11` symbols, from the last. -/
theorem foldlM_block {cs : List UInt8} (h : cs.length ≤ 11) :
    (cs.reverse.foldlM decodeBlockStep (0, 1)).map Prod.fst =
      if (∀ c ∈ cs, 0 ≤ reverse_alphabet c) ∧ Nat.ofDigits 58 (cs.reverse.map digit) < 2 ^ 64
      then some (UInt64.ofNat (Nat.ofDigits 58 (cs.reverse.map digit))) else none := by
  have hweight : (1 : UInt64).toNat * 58 ^ (cs.reverse.length - 1) < 2 ^ 64 := by
    have : 58 ^ (cs.length - 1) ≤ 58 ^ 10 := Nat.pow_le_pow_right (by omega) (by omega)
    simp only [UInt64.toNat_one, Nat.one_mul, List.length_reverse]
    omega
  rw [foldlM_decodeBlockStep _ 0 1 hweight]
  simp only [UInt64.toNat_zero, UInt64.toNat_one, Nat.zero_add, Nat.one_mul, List.mem_reverse]

/-- Decoding the symbols of a block of one to eight bytes gives the block. -/
theorem decode_block_encode_block {block : List UInt8} (h1 : 1 ≤ block.length)
    (h8 : block.length ≤ 8) : decode_block (encode_block block) = some block := by
  have hn : block.length < 9 := by omega
  have hv : natOfBytes block.reverse < 256 ^ block.length := by
    simpa using natOfBytes_lt block.reverse
  have hvm : natOfBytes block.reverse < 58 ^ encoded_block_sizes.getD block.length 0 :=
    Nat.lt_of_lt_of_le hv (pow_le_encoded ⟨block.length, hn⟩)
  have hv64 : natOfBytes block.reverse < 2 ^ 64 :=
    Nat.lt_of_lt_of_le hv (by
      calc 256 ^ block.length ≤ 256 ^ 8 := Nat.pow_le_pow_right (by omega) h8
        _ = 2 ^ 64 := by norm_num)
  -- the symbols read back to the digits of the block's number
  have hdig : ∀ d ∈ Nat.lowDigits 58 (encoded_block_sizes.getD block.length 0)
      (natOfBytes block.reverse), d < 58 := fun d hd => Nat.lt_of_mem_lowDigits (by omega) hd
  obtain ⟨hmap, hvalid⟩ := map_digit_map_symbol hdig
  have hvalue : Nat.ofDigits 58 ((encode_block block).reverse.map digit) =
      natOfBytes block.reverse := by
    rw [encode_block_eq block h8, List.reverse_reverse, hmap, Nat.ofDigits_lowDigits,
      Nat.mod_eq_of_lt hvm]
  have hvalid' : ∀ c ∈ encode_block block, 0 ≤ reverse_alphabet c := by
    intro c hc
    rw [encode_block_eq block h8, List.mem_reverse] at hc
    exact hvalid c hc
  have hlen := length_encode_block block h8
  have hsize : decoded_block_sizes (encode_block block).length = block.length := by
    rw [hlen]; exact decoded_block_sizes_encoded ⟨block.length, hn⟩
  have hfold := foldlM_block
    (by rw [hlen]; exact encoded_le_eleven ⟨block.length, hn⟩ : (encode_block block).length ≤ 11)
  rw [if_pos ⟨hvalid', by rw [hvalue]; exact hv64⟩, hvalue] at hfold
  obtain ⟨⟨res_num, order⟩, hres, hfst⟩ := Option.map_eq_some_iff.mp hfold
  simp only at hfst
  subst hfst
  -- the width test passes, and the bytes of the number are the block
  have hwidth : ¬(block.length < full_block_size ∧
      (1 : UInt64) <<< UInt64.ofNat (8 * block.length) ≤ UInt64.ofNat (natOfBytes block.reverse)) := by
    rintro ⟨hlt, hle⟩
    rw [UInt64.le_iff_toNat_le, toNat_one_shiftLeft hlt, UInt64.toNat_ofNat',
      Nat.mod_eq_of_lt hv64] at hle
    omega
  have hbytes : uint_64_to_8be (UInt64.ofNat (natOfBytes block.reverse)) block.length = block := by
    rw [uint_64_to_8be_eq _ h8, UInt64.toNat_ofNat', Nat.mod_eq_of_lt hv64]
    have := bytesOfNat_natOfBytes block.reverse
    rw [List.length_reverse] at this
    rw [this, List.reverse_reverse]
  unfold decode_block
  rw [hsize, hres]
  simp only [Int.toNat_natCast]
  rw [if_neg (by omega), if_neg hwidth, hbytes]


/-- A block of symbols that decodes is the encoding of what it decodes to, a block of one to
eight bytes whose encoded size is the block's length. -/
theorem encode_block_of_decode_block {block d : List UInt8} (h : decode_block block = some d) :
    encode_block d = block ∧ 1 ≤ d.length ∧ d.length ≤ 8 ∧
      block.length = encoded_block_sizes.getD d.length 0 := by
  unfold decode_block at h
  dsimp only at h
  split_ifs at h with hpos
  obtain ⟨n, hn9, hsize, henc⟩ := decoded_block_sizes_nonneg (k := block.length) (by omega)
  rw [hsize] at hpos h
  simp only [Int.toNat_natCast] at h
  have hn1 : 1 ≤ n := by omega
  have hlen11 : block.length ≤ 11 := by rw [← henc]; exact encoded_le_eleven ⟨n, hn9⟩
  have hfold := foldlM_block hlen11
  split at h
  · exact absurd h (by simp)
  rename_i res_num order hres
  rw [hres, Option.map_some] at hfold
  split_ifs at hfold with hcond
  -- the loop succeeded: every symbol is valid and the value is below 2 ^ 64
  obtain ⟨hvalid, hv64⟩ := hcond
  simp only [Option.some.injEq] at hfold
  subst hfold
  split_ifs at h with hwidth
  simp only [Option.some.injEq] at h
  subst h
  set v := Nat.ofDigits 58 (block.reverse.map digit)
  -- the value fits the block's bytes: by the width test, or for a full block by the loop
  have hvn : v < 256 ^ n := by
    by_cases hn8 : n < 8
    · rw [full_block_size_eq, UInt64.le_iff_toNat_le, toNat_one_shiftLeft hn8,
        UInt64.toNat_ofNat', Nat.mod_eq_of_lt hv64] at hwidth
      exact Nat.lt_of_not_le fun hle => hwidth ⟨hn8, hle⟩
    · have : n = 8 := by omega
      subst this
      simpa using hv64
  have hbytes : uint_64_to_8be (UInt64.ofNat v) n = (bytesOfNat n v).reverse := by
    rw [uint_64_to_8be_eq _ (by omega), UInt64.toNat_ofNat', Nat.mod_eq_of_lt hv64]
  have hdlen : (uint_64_to_8be (UInt64.ofNat v) n).length = n := by simp [hbytes]
  refine ⟨?_, by omega, by omega, by rw [hdlen, henc]⟩
  -- the digits of the value are the block's digits, whose symbols are the block
  have hread : natOfBytes (uint_64_to_8be (UInt64.ofNat v) n).reverse = v := by
    rw [hbytes, List.reverse_reverse, natOfBytes_bytesOfNat, Nat.mod_eq_of_lt hvn]
  have hdigits : Nat.lowDigits 58 block.length v = block.reverse.map digit := by
    have := Nat.lowDigits_ofDigits (digit_lt_of_mem block.reverse)
    rwa [List.length_map, List.length_reverse] at this
  rw [encode_block_eq _ (by omega), hread, hdlen, henc, hdigits,
    map_symbol_map_digit (fun c hc => hvalid c (List.mem_reverse.mp hc)), List.reverse_reverse]


theorem encoded_block_sizes_inj : ∀ a b : Fin 9,
    encoded_block_sizes.getD a 0 = encoded_block_sizes.getD b 0 → a = b := by
  decide

theorem encoded_lt_eleven : ∀ n : Fin 8, encoded_block_sizes.getD n 0 < 11 := by
  decide

theorem encoded_pos : ∀ n : Fin 9, 0 < (n : ℕ) → 0 < encoded_block_sizes.getD n 0 := by
  decide

/-! ## Full blocks -/

/-- The full blocks of data with at least `n` of them: eleven symbols each, which decode to the
data's first `8 * n` bytes whatever follows them. -/
theorem encodeFullBlocks_spec : ∀ (n : ℕ) (data : List UInt8), 8 * n ≤ data.length →
    (encodeFullBlocks n data).length = 11 * n ∧
      ∀ tail, decodeFullBlocks n (encodeFullBlocks n data ++ tail) = some (data.take (8 * n))
  | 0, data, _ => ⟨rfl, fun _ => rfl⟩
  | n + 1, data, h => by
    have htake : (data.take full_block_size).length = 8 := by
      rw [List.length_take, full_block_size_eq]; omega
    obtain ⟨hlen, hdec⟩ := encodeFullBlocks_spec n (data.drop full_block_size)
      (by rw [List.length_drop, full_block_size_eq]; omega)
    have hblock : (encode_block (data.take full_block_size)).length = 11 := by
      rw [length_encode_block _ (by omega), htake]; rfl
    refine ⟨by rw [encodeFullBlocks, List.length_append, hblock, hlen]; ring, fun tail => ?_⟩
    rw [encodeFullBlocks, List.append_assoc, decodeFullBlocks, full_encoded_block_size_eq,
      List.take_left' hblock, List.drop_left' hblock,
      decode_block_encode_block (by omega) (by omega), hdec]
    simp only [Option.map_some]
    rw [full_block_size_eq, show 8 * (n + 1) = 8 + 8 * n by ring, List.take_add]

/-- Full blocks that decode: eight bytes each, whose encoding is the symbols read, whatever
bytes follow them. -/
theorem decodeFullBlocks_spec : ∀ (n : ℕ) (enc d : List UInt8), 11 * n ≤ enc.length →
    decodeFullBlocks n enc = some d →
    d.length = 8 * n ∧ ∀ rest, encodeFullBlocks n (d ++ rest) = enc.take (11 * n)
  | 0, enc, d, _, h => by
    simp only [decodeFullBlocks, Option.some.injEq] at h
    subst h
    exact ⟨rfl, fun _ => by simp [encodeFullBlocks]⟩
  | n + 1, enc, d, hlen, h => by
    rw [decodeFullBlocks, full_encoded_block_size_eq] at h
    split at h
    · exact absurd h (by simp)
    rename_i block hblock
    obtain ⟨blocks, hblocks, rfl⟩ := Option.map_eq_some_iff.mp h
    obtain ⟨henc, h1, h8, hsize⟩ := encode_block_of_decode_block hblock
    -- a block of eleven symbols is a full block
    have h11 : (enc.take 11).length = 11 := by rw [List.length_take]; omega
    have hfull : block.length = 8 := by
      have := encoded_block_sizes_inj ⟨block.length, by omega⟩ ⟨8, by omega⟩
        (by rw [← hsize, h11]; rfl)
      exact congrArg Fin.val this
    obtain ⟨hlen', henc'⟩ := decodeFullBlocks_spec n (enc.drop 11) blocks
      (by rw [List.length_drop]; omega) hblocks
    refine ⟨by rw [List.length_append, hfull, hlen']; ring, fun rest => ?_⟩
    rw [encodeFullBlocks, full_block_size_eq, List.append_assoc,
      List.take_left' hfull, List.drop_left' hfull, henc, henc',
      show 11 * (n + 1) = 11 + 11 * n by ring, List.take_add]


/-! ## Whole strings -/

/-- The encoding of non-empty data: its full blocks, then its last block. -/
theorem encode_eq {data : List UInt8} (h : data ≠ []) :
    encode data = encodeFullBlocks (data.length / 8) data ++
      if 0 < data.length % 8 then encode_block (data.drop (data.length / 8 * 8)) else [] := by
  rw [encode, if_neg (by simpa using h)]
  rfl

/-- Decoding gives encoded data back. -/
theorem decode_encode (data : List UInt8) : decode (encode data) = some data := by
  rcases eq_or_ne data [] with rfl | hne
  · rfl
  set q := data.length / 8
  set r := data.length % 8
  have hr : r < 8 := Nat.mod_lt _ (by omega)
  have hqr : data.length = 8 * q + r := (Nat.div_add_mod _ _).symm
  obtain ⟨hflen, hfdec⟩ := encodeFullBlocks_spec q data (by omega)
  set last := if 0 < r then encode_block (data.drop (q * 8)) else []
  have hlast : last.length = encoded_block_sizes.getD r 0 := by
    by_cases hr0 : 0 < r
    · simp only [last, if_pos hr0]
      rw [length_encode_block _ (by simp; omega), List.length_drop]
      congr 1; omega
    · simp only [last, if_neg hr0]
      rw [show r = 0 by omega]; rfl
  have hlt : last.length < 11 := by rw [hlast]; exact encoded_lt_eleven ⟨r, hr⟩
  have henc : encode data = encodeFullBlocks q data ++ last := encode_eq hne
  have hlen : (encode data).length = 11 * q + last.length := by
    rw [henc, List.length_append, hflen]
  have hdiv : (encode data).length / 11 = q := by rw [hlen]; omega
  have hmod : (encode data).length % 11 = last.length := by rw [hlen]; omega
  have hne' : (encode data).isEmpty = false := by
    have hdata : 0 < data.length := List.length_pos_iff.mpr hne
    have : 0 < r → 0 < last.length := fun h => by
      rw [hlast]; exact encoded_pos ⟨r, by omega⟩ h
    have hpos : 0 < (encode data).length := by omega
    simpa using List.length_pos_iff.mp hpos
  have hsizes : decoded_block_sizes ((encode data).length % 11) = r := by
    rw [hmod, hlast]; exact decoded_block_sizes_encoded ⟨r, by omega⟩
  rw [decode, hne', full_encoded_block_size_eq]
  simp only [Bool.false_eq_true, if_false]
  rw [if_neg (by rw [hsizes]; omega), hdiv, henc, hfdec]
  dsimp only
  by_cases hr0 : 0 < r
  · -- the last block decodes to the last bytes
    have hpos : 0 < (encodeFullBlocks q data ++ last).length % 11 := by
      rw [← henc, hmod, hlast]; exact encoded_pos ⟨r, by omega⟩ hr0
    rw [if_pos hpos, show q * 11 = (encodeFullBlocks q data).length by rw [hflen]; ring,
      List.drop_left]
    simp only [last, if_pos hr0]
    rw [decode_block_encode_block (by simp; omega) (by simp; omega), Option.map_some,
      show q * 8 = 8 * q by ring, List.take_append_drop]
  · have hzero : ¬0 < (encodeFullBlocks q data ++ last).length % 11 := by
      rw [← henc, hmod, hlast, show r = 0 by omega]; decide
    rw [if_neg hzero, List.take_of_length_le (by omega)]


/-- A string that decodes is the encoding of what it decodes to. -/
theorem encode_of_decode {enc data : List UInt8} (h : decode enc = some data) :
    encode data = enc := by
  rcases eq_or_ne enc [] with rfl | hne
  · simp only [decode, List.isEmpty_nil, if_true, Option.some.injEq] at h
    subst h
    rfl
  have hempty : enc.isEmpty = false := by simpa using hne
  rw [decode, hempty, full_encoded_block_size_eq] at h
  simp only [Bool.false_eq_true, if_false] at h
  set q := enc.length / 11
  set r := enc.length % 11
  have hqr : enc.length = 11 * q + r := (Nat.div_add_mod _ _).symm
  have hr : r < 11 := Nat.mod_lt _ (by omega)
  by_cases hsize : decoded_block_sizes r < 0
  · rw [if_pos hsize] at h
    exact absurd h (by simp)
  rw [if_neg hsize] at h
  -- the last block's length is the encoded size of `m` bytes, `m < 8`
  obtain ⟨m, hm9, hm, hmenc⟩ := decoded_block_sizes_nonneg (k := r) (by omega)
  have hm8 : m < 8 := by
    by_contra hm8
    have : m = 8 := by omega
    subst this
    have : r = 11 := hmenc.symm
    omega
  split at h
  · exact absurd h (by simp)
  rename_i full hfull
  obtain ⟨hflen, hfenc⟩ := decodeFullBlocks_spec q enc full (by omega) hfull
  by_cases hr0 : 0 < r
  · -- a last block: it decodes to `m` bytes whose encoding it is
    rw [if_pos hr0] at h
    obtain ⟨last, hlast, rfl⟩ := Option.map_eq_some_iff.mp h
    obtain ⟨henc, h1, h8, hsize'⟩ := encode_block_of_decode_block hlast
    have hlastlen : last.length = m := by
      have hdrop : (enc.drop (q * 11)).length = r := by rw [List.length_drop]; omega
      have := encoded_block_sizes_inj ⟨last.length, by omega⟩ ⟨m, hm9⟩
        (by rw [← hsize', hdrop, hmenc])
      exact congrArg Fin.val this
    have hne' : full ++ last ≠ [] := by
      intro h0
      have := congrArg List.length h0
      simp only [List.length_append, List.length_nil] at this
      omega
    have hdiv : (full ++ last).length / 8 = q := by
      rw [List.length_append]; omega
    have hmod : (full ++ last).length % 8 = m := by
      rw [List.length_append]; omega
    rw [encode_eq hne', hdiv, hmod, if_pos (by omega), hfenc,
      show q * 8 = full.length by omega, List.drop_left, henc, Nat.mul_comm q 11,
      List.take_append_drop]
  · -- no last block: the full blocks are the whole string
    have hr00 : r = 0 := by omega
    have hne' : full ≠ [] := by
      intro h0
      subst h0
      simp only [List.length_nil] at hflen
      have : enc.length = 0 := by omega
      exact hne (List.eq_nil_of_length_eq_zero this)
    rw [if_neg hr0, Option.some.injEq] at h
    subst h
    have hdiv : full.length / 8 = q := by omega
    have hmod : full.length % 8 = 0 := by omega
    rw [encode_eq hne', hdiv, hmod, if_neg (by omega), List.append_nil,
      ← List.append_nil full, hfenc, List.take_of_length_le (by omega)]

/-- Base58 is a bijection between byte strings and the strings decoding accepts. -/
theorem decode_bijective :
    (∀ data, decode (encode data) = some data) ∧
      ∀ enc data, decode enc = some data → encode data = enc :=
  ⟨decode_encode, fun _ _ h => encode_of_decode h⟩

/-! ## The address codec -/

section Address

variable (cn_fast_hash : List UInt8 → Hash)

/-- `encode_addr`: the varint of the tag, the data and the first four bytes of the hash of
both, in Base58. -/
def encode_addr (tag : UInt64) (data : List UInt8) : List UInt8 :=
  let buf := get_varint_data tag ++ data
  let hash := cn_fast_hash buf
  encode (buf ++ hash.toBytes.take addr_checksum_size)

/-- `decode_addr`: the tag and the data of an address whose checksum matches, `none` when the
string does not decode, is too short for a checksum, has a checksum that does not match or no
tag at its front. -/
def decode_addr (addr : List UInt8) : Option (UInt64 × List UInt8) :=
  match decode addr with
  | none => none
  | some addr_data =>
    if addr_data.length ≤ addr_checksum_size then none
    else
      let checksum := addr_data.drop (addr_data.length - addr_checksum_size)
      let addr_data := addr_data.take (addr_data.length - addr_checksum_size)
      let hash := cn_fast_hash addr_data
      let expected_checksum := hash.toBytes.take addr_checksum_size
      if expected_checksum ≠ checksum then none
      else
        let (read, tag) := read_varint 64 addr_data
        if read ≤ 0 then none
        else some (UInt64.ofNat tag, addr_data.drop read.toNat)

/-- An address decodes to the tag and the data it was encoded from, whatever the hash. -/
theorem decode_addr_encode_addr (tag : UInt64) (data : List UInt8) :
    decode_addr cn_fast_hash (encode_addr cn_fast_hash tag data) = some (tag, data) := by
  set buf := get_varint_data tag ++ data
  set checksum := (cn_fast_hash buf).toBytes.take addr_checksum_size
  have hchecksum : checksum.length = addr_checksum_size := by
    simp [checksum, addr_checksum_size]
  have hvarint : 1 ≤ (get_varint_data tag).length := by
    rw [get_varint_data, write_varint_eq_encode]
    exact List.length_pos_iff.mpr (LEB128.encode_ne_nil _)
  have hlen : (buf ++ checksum).length - addr_checksum_size = buf.length := by
    rw [List.length_append, hchecksum, Nat.add_sub_cancel]
  have hlong : ¬(buf ++ checksum).length ≤ addr_checksum_size := by
    simp only [List.length_append, hchecksum, buf]
    omega
  -- the checksum is the last four bytes, and what is before it the tag and the data
  have hsplit : (buf ++ checksum).drop ((buf ++ checksum).length - addr_checksum_size) =
      checksum ∧ (buf ++ checksum).take ((buf ++ checksum).length - addr_checksum_size) = buf := by
    rw [hlen]
    exact ⟨List.drop_left' rfl, List.take_left' rfl⟩
  have hread := read_varint_write_varint tag data
  rw [← get_varint_data] at hread
  unfold decode_addr encode_addr
  rw [decode_encode]
  dsimp only
  rw [if_neg hlong, hsplit.1, hsplit.2, if_neg (by simp [checksum]), hread]
  dsimp only
  rw [if_neg (by omega), Int.toNat_natCast, List.drop_left' rfl, UInt64.ofNat_toNat]

end Address

end base_58

end UltraNoteCore
