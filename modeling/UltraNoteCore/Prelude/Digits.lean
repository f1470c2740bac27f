import Mathlib.Data.Nat.Digits.Defs

/-!
# Fixed-width digit strings

A fixed-width field of a binary format holds the `n` lowest digits of a number in some base,
zero-padded: the bytes of a 64-bit word are its eight lowest base-256 digits, and a block of a
Base58 string holds the lowest base-58 digits of the word it encodes. `Nat.lowDigits b n v`
lists them least significant first, and `Nat.ofDigits b` reads such a list back. The two are
inverse: on numbers below `b ^ n` one way, on lists of digits below the base the other.

## Main definitions

* `Nat.lowDigits`: the `n` lowest digits of a number

## Main results

* `Nat.ofDigits_lowDigits`: reading the digits back gives the number modulo `b ^ n`
* `Nat.lowDigits_ofDigits`: a list of digits is the digit string of its value
* `Nat.lowDigits_add`: the digits of a wider field are those of a narrower one, then the rest
* `Nat.eq_of_digit_mul_pow_mem_decade`: a nonzero digit times `b ^ j` lies in the decade of `j`
* `Nat.filter_digits_base_pow_mul`: multiplying by a power of the base adds no nonzero digit
-/

namespace Nat

/-- The `n` lowest base-`b` digits of `v`, least significant first. -/
def lowDigits (b : ℕ) : ℕ → ℕ → List ℕ
  | 0, _ => []
  | n + 1, v => v % b :: lowDigits b n (v / b)

variable {b : ℕ}

@[simp] theorem lowDigits_zero (v : ℕ) : lowDigits b 0 v = [] := rfl

theorem lowDigits_succ (n v : ℕ) : lowDigits b (n + 1) v = v % b :: lowDigits b n (v / b) :=
  rfl

@[simp] theorem length_lowDigits : ∀ n v, (lowDigits b n v).length = n
  | 0, _ => rfl
  | n + 1, v => by rw [lowDigits_succ, List.length_cons, length_lowDigits n]

theorem lt_of_mem_lowDigits (hb : 0 < b) : ∀ {n v d : ℕ}, d ∈ lowDigits b n v → d < b
  | n + 1, v, d, h => by
    rw [lowDigits_succ, List.mem_cons] at h
    rcases h with rfl | h
    · exact Nat.mod_lt _ hb
    · exact lt_of_mem_lowDigits hb h

/-- The digits of zero are zeros. -/
theorem lowDigits_of_zero : ∀ n, lowDigits b n 0 = List.replicate n 0
  | 0 => rfl
  | n + 1 => by rw [lowDigits_succ, Nat.zero_mod, Nat.zero_div, lowDigits_of_zero n]; rfl

/-- The `m + n` lowest digits are the `m` lowest, then the `n` lowest of what is above them. -/
theorem lowDigits_add (n : ℕ) : ∀ m v, lowDigits b (m + n) v = lowDigits b m v ++ lowDigits b n (v / b ^ m)
  | 0, v => by rw [Nat.zero_add, lowDigits_zero, List.nil_append, Nat.pow_zero, Nat.div_one]
  | m + 1, v => by
    rw [Nat.add_right_comm, lowDigits_succ, lowDigits_succ, lowDigits_add n m, List.cons_append,
      Nat.div_div_eq_div_mul, Nat.pow_succ']

theorem ofDigits_lowDigits : ∀ n v, ofDigits b (lowDigits b n v) = v % b ^ n
  | 0, v => by rw [lowDigits_zero, ofDigits_nil, Nat.pow_zero, Nat.mod_one]
  | n + 1, v => by
    rw [lowDigits_succ, ofDigits_cons, ofDigits_lowDigits n, Nat.pow_succ', Nat.mod_mul]

theorem lowDigits_ofDigits : ∀ {l : List ℕ}, (∀ d ∈ l, d < b) →
    lowDigits b l.length (ofDigits b l) = l
  | [], _ => rfl
  | d :: l, h => by
    have hd : d < b := h d List.mem_cons_self
    have hl : ∀ x ∈ l, x < b := fun x hx => h x (List.mem_cons_of_mem d hx)
    have hb : 0 < b := Nat.lt_of_le_of_lt (Nat.zero_le d) hd
    -- the lowest digit is `d`; what is above it is the value of the rest
    have hlow : (d + b * ofDigits b l) % b = d := by
      rw [Nat.add_mul_mod_self_left, Nat.mod_eq_of_lt hd]
    have hhigh : (d + b * ofDigits b l) / b = ofDigits b l := by
      rw [Nat.add_mul_div_left _ _ hb, Nat.div_eq_of_lt hd, Nat.zero_add]
    rw [List.length_cons, lowDigits_succ, ofDigits_cons, hlow, hhigh, lowDigits_ofDigits hl]

/-! ## Decades

A number `d · b ^ j` with `0 < d < b` has the single nonzero digit `d`, at place `j`; so it lies
in `[b ^ j, b ^ (j + 1))`, and the decade a number of that form falls in gives its place. -/

/-- A nonzero digit times `b ^ j` in `[b ^ k, b ^ (k + 1))` has `j = k`. -/
theorem eq_of_digit_mul_pow_mem_decade {d j k : ℕ} (hd : 0 < d) (hdb : d < b)
    (hlow : b ^ k ≤ d * b ^ j) (hhigh : d * b ^ j < b ^ (k + 1)) : j = k := by
  have hb : 0 < b := Nat.lt_of_le_of_lt (Nat.zero_le d) hdb
  rcases Nat.lt_trichotomy j k with hjk | hjk | hkj
  · -- below the decade: `d · b ^ j < b ^ (j + 1) ≤ b ^ k`
    have hbelow : d * b ^ j < b ^ k :=
      calc d * b ^ j < b * b ^ j := Nat.mul_lt_mul_of_pos_right hdb (Nat.pow_pos hb)
        _ = b ^ (j + 1) := by rw [Nat.pow_succ, Nat.mul_comm]
        _ ≤ b ^ k := Nat.pow_le_pow_right hb hjk
    exact absurd hlow (Nat.not_le.mpr hbelow)
  · exact hjk
  · -- above it: `b ^ (k + 1) ≤ b ^ j ≤ d · b ^ j`
    have habove : b ^ (k + 1) ≤ d * b ^ j :=
      calc b ^ (k + 1) ≤ b ^ j := Nat.pow_le_pow_right hb hkj
        _ ≤ d * b ^ j := Nat.le_mul_of_pos_left _ hd
    exact absurd hhigh (Nat.not_lt.mpr habove)

/-- The nonzero digits of `b ^ k · m` are those of `m`: the power only adds `k` low zeros. -/
theorem filter_digits_base_pow_mul {k m : ℕ} (hb : 1 < b) (hm : 0 < m) :
    (digits b (b ^ k * m)).filter (· ≠ 0) = (digits b m).filter (· ≠ 0) := by
  rw [digits_base_pow_mul hb hm, List.filter_append, List.filter_replicate]
  simp

end Nat
