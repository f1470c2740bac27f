import Mathlib.Data.Nat.Bitwise

/-!
# LEB128

A number in LEB128 is cut into pieces of seven bits, least significant first, each piece a byte
whose high bit says that another follows. `LEB128.encode` is that byte string; it is the
shortest one, so its last byte is zero only for zero. A reader that ORs the pieces in at shifts
`0, 7, 14, …` builds the number by addition (`or_shiftLeft_eq_add`), and a byte string a
reader accepts is an encoding exactly when it ends at the first byte without the high bit and
that byte is not a redundant zero (`encode_cons_of_continues`, `encode_of_toNat_lt`).

## Main definitions

* `LEB128.encode`

## Main results

* `LEB128.encode_of_lt`, `encode_of_le`: the two cases of the encoding
* `LEB128.encode_cons_of_continues`: a continuation byte before an encoding of a non-zero
  number is the encoding of the number they make together
-/

namespace LEB128

/-- The LEB128 bytes of `v`. -/
def encode (v : ℕ) : List UInt8 :=
  if v < 128 then [UInt8.ofNat v] else UInt8.ofNat (v % 128 + 128) :: encode (v / 128)
termination_by v
decreasing_by omega

variable {v : ℕ}

theorem encode_of_lt (h : v < 128) : encode v = [UInt8.ofNat v] := by
  rw [encode, if_pos h]

theorem encode_of_le (h : 128 ≤ v) :
    encode v = UInt8.ofNat (v % 128 + 128) :: encode (v / 128) := by
  rw [encode, if_neg (by omega)]

theorem encode_ne_nil (v : ℕ) : encode v ≠ [] := by
  rw [encode]
  split <;> simp

/-- A number below `128^(k+1)` takes at most `k + 1` bytes. -/
theorem length_encode_le {k : ℕ} (h : v < 128 ^ (k + 1)) : (encode v).length ≤ k + 1 := by
  induction k generalizing v with
  | zero =>
    rw [encode_of_lt (by simpa using h)]
    exact Nat.le_refl _
  | succ k ih =>
    by_cases hv : v < 128
    · rw [encode_of_lt hv]
      simp
    · rw [encode_of_le (by omega), List.length_cons]
      have : v / 128 < 128 ^ (k + 1) := by
        rw [Nat.div_lt_iff_lt_mul (by decide), ← Nat.pow_succ]
        exact h
      exact Nat.succ_le_succ (ih this)

/-- The piece bytes are what they say: a last piece below `128`, a continuation piece with the
high bit set. -/
theorem toNat_last (h : v < 128) : (UInt8.ofNat v).toNat = v := by
  simp only [UInt8.toNat_ofNat']
  omega

theorem toNat_continuation (v : ℕ) : (UInt8.ofNat (v % 128 + 128)).toNat = v % 128 + 128 := by
  simp only [UInt8.toNat_ofNat']
  omega

/-- A single byte without the high bit is the encoding of its value. -/
theorem encode_of_toNat_lt {p : UInt8} (h : p.toNat < 128) : encode p.toNat = [p] := by
  rw [encode_of_lt h, UInt8.ofNat_toNat]

/-- A continuation byte before the encoding of a non-zero `u` encodes the number they make
together: the reader's view of a longer encoding. -/
theorem encode_cons_of_continues {p : UInt8} (hp : 128 ≤ p.toNat) {u : ℕ} (hu : u ≠ 0) :
    encode (p.toNat % 128 + 128 * u) = p :: encode u := by
  have hv : 128 ≤ p.toNat % 128 + 128 * u := by omega
  have hlow : (p.toNat % 128 + 128 * u) % 128 = p.toNat % 128 := by omega
  have hhigh : (p.toNat % 128 + 128 * u) / 128 = u := by omega
  have hbyte : UInt8.ofNat (p.toNat % 128 + 128) = p := by
    apply UInt8.toNat_inj.mp
    rw [toNat_continuation]
    have := p.toNat_lt
    omega
  rw [encode_of_le hv, hlow, hhigh, hbyte]

/-- ORing a piece in above the bits read so far adds it. -/
theorem or_shiftLeft_eq_add {temp shift : ℕ} (h : temp < 2 ^ shift) (x : ℕ) :
    temp ||| x <<< shift = temp + 2 ^ shift * x := by
  rw [Nat.shiftLeft_eq, Nat.mul_comm, Nat.lor_comm, ← Nat.two_pow_add_eq_or_of_lt h, Nat.add_comm]

/-! ## Pieces read at a shift

A reader holds the bits read so far below `2 ^ shift` and ORs the next piece in at `shift`,
testing first that a piece in the last seven bits of a `bits`-wide value does not overflow it.
These are the facts about one piece that every such reader uses, in both directions: reading an
encoding, and recognising what it read as one. -/

section Shift

variable {temp shift bits u : ℕ}

/-- The bits read, with the low piece of `u` added, stay below the next shift. -/
theorem add_piece_lt (h : temp < 2 ^ shift) (u : ℕ) :
    temp + 2 ^ shift * (u % 128) < 2 ^ (shift + 7) := by
  have : 2 ^ shift * (u % 128) + 2 ^ shift ≤ 2 ^ shift * 128 := by
    rw [← Nat.mul_succ]; exact Nat.mul_le_mul_left _ (by omega)
  rw [Nat.pow_add]; omega

theorem add_piece_add_quotient (temp shift u : ℕ) :
    temp + 2 ^ shift * (u % 128) + 2 ^ (shift + 7) * (u / 128) = temp + 2 ^ shift * u := by
  rw [Nat.pow_add, Nat.mul_assoc, Nat.add_assoc, ← Nat.mul_add]
  congr 2
  omega

/-- A number that fits the width at `shift` fits it at `shift + 7` once its low piece is
read. -/
theorem quotient_fits (h : 2 ^ shift * u < 2 ^ bits) : 2 ^ (shift + 7) * (u / 128) < 2 ^ bits := by
  have : 2 ^ (shift + 7) * (u / 128) ≤ 2 ^ shift * u := by
    rw [Nat.pow_add, Nat.mul_assoc]
    exact Nat.mul_le_mul_left _ (by omega)
  omega

/-- The last piece of a number that fits the width passes the overflow test. -/
theorem not_overflow (hfit : 2 ^ shift * u < 2 ^ bits) :
    ¬(bits ≤ shift + 7 ∧ 2 ^ (bits - shift) ≤ u % 256) := by
  rintro ⟨-, hle⟩
  have hu : 2 ^ (bits - shift) ≤ u := Nat.le_trans hle (Nat.mod_le _ _)
  have : 2 ^ bits ≤ 2 ^ shift * u := by
    rcases Nat.le_total shift bits with hs | hs
    · calc 2 ^ bits = 2 ^ shift * 2 ^ (bits - shift) := by
            rw [← Nat.pow_add, Nat.add_sub_cancel' hs]
        _ ≤ 2 ^ shift * u := Nat.mul_le_mul_left _ hu
    · have h1 : 1 ≤ u := by rwa [Nat.sub_eq_zero_of_le hs, Nat.pow_zero] at hu
      calc 2 ^ bits ≤ 2 ^ shift := Nat.pow_le_pow_right (by omega) hs
        _ ≤ 2 ^ shift * u := Nat.le_mul_of_pos_right _ h1
  omega

/-- A continuation piece of a number that fits the width is not in its last seven bits. -/
theorem lt_of_continues (hu : 128 ≤ u) (hfit : 2 ^ shift * u < 2 ^ bits) :
    shift + 7 < bits := by
  by_contra hb
  have : 2 ^ bits ≤ 2 ^ shift * u := by
    calc 2 ^ bits ≤ 2 ^ (shift + 7) := Nat.pow_le_pow_right (by omega) (by omega)
      _ = 2 ^ shift * 128 := by rw [Nat.pow_add]
      _ ≤ 2 ^ shift * u := Nat.mul_le_mul_left _ hu
  omega

/-- A last piece that passed the overflow test fits the width. -/
theorem fits_of_not_overflow {p : ℕ} (hp : p < 128)
    (hover : ¬(bits ≤ shift + 7 ∧ 2 ^ (bits - shift) ≤ p)) : 2 ^ shift * p < 2 ^ bits := by
  by_cases hb : bits ≤ shift + 7
  · have hlt : p < 2 ^ (bits - shift) := by omega
    rcases Nat.le_total shift bits with hs | hs
    · calc 2 ^ shift * p < 2 ^ shift * 2 ^ (bits - shift) :=
            Nat.mul_lt_mul_of_pos_left hlt (Nat.two_pow_pos _)
        _ = 2 ^ bits := by rw [← Nat.pow_add, Nat.add_sub_cancel' hs]
    · -- past the width only a zero piece passes
      rw [Nat.sub_eq_zero_of_le hs, Nat.pow_zero] at hlt
      rw [show p = 0 by omega, Nat.mul_zero]
      exact Nat.two_pow_pos _
  · calc 2 ^ shift * p < 2 ^ shift * 128 := Nat.mul_lt_mul_of_pos_left hp (Nat.two_pow_pos _)
      _ = 2 ^ (shift + 7) := by rw [Nat.pow_add]
      _ ≤ 2 ^ bits := Nat.pow_le_pow_right (by omega) (by omega)

/-- A continuation piece before a non-zero number that fits the width at `shift + 7`: the
number they make together fits it at `shift`. -/
theorem fits_of_continues {p : ℕ} (hu : u ≠ 0) (hfit : 2 ^ (shift + 7) * u < 2 ^ bits) :
    2 ^ shift * (p % 128 + 128 * u) < 2 ^ bits := by
  -- the width is past `shift + 7`, so it is a multiple of `2 ^ (shift + 7)` above `hfit`
  have hb : shift + 7 ≤ bits := by
    by_contra hb
    have : 2 ^ bits ≤ 2 ^ (shift + 7) * u := by
      calc 2 ^ bits ≤ 2 ^ (shift + 7) := Nat.pow_le_pow_right (by omega) (by omega)
        _ ≤ 2 ^ (shift + 7) * u := Nat.le_mul_of_pos_right _ (Nat.pos_of_ne_zero hu)
    omega
  have hdvd : 2 ^ (shift + 7) * (u + 1) ≤ 2 ^ bits := by
    obtain ⟨k, hk⟩ : ∃ k, 2 ^ bits = 2 ^ (shift + 7) * k :=
      ⟨2 ^ (bits - (shift + 7)), by rw [← Nat.pow_add, Nat.add_sub_cancel' hb]⟩
    rw [hk] at hfit ⊢
    exact Nat.mul_le_mul_left _
      (Nat.lt_of_mul_lt_mul_left hfit)
  have hlow : 2 ^ shift * (p % 128) < 2 ^ (shift + 7) := by
    have := @add_piece_lt 0 shift (Nat.two_pow_pos shift) p
    omega
  calc 2 ^ shift * (p % 128 + 128 * u) = 2 ^ shift * (p % 128) + 2 ^ (shift + 7) * u := by
        rw [Nat.mul_add, Nat.pow_add, Nat.mul_assoc]
    _ < 2 ^ (shift + 7) + 2 ^ (shift + 7) * u := by omega
    _ = 2 ^ (shift + 7) * (u + 1) := by rw [Nat.mul_add, Nat.mul_one, Nat.add_comm]
    _ ≤ 2 ^ bits := hdvd

end Shift

end LEB128
