import UltraNoteCore.Core.Currency
import Mathlib.Tactic.Ring

/-!
# Bounds of the currency's arithmetic

What the `uint64_t`, `size_t` and 128-bit arithmetic of `getBlockReward`, `getPenalizedAmount`,
`calculateInterest` and `check_inputs_overflow` computes, against the values it stands for.

The penalty of a block above the median `m` is `x · s (2m - s) / m²`, computed as a product in
128 bits and two divisions by the 32-bit median; for a median of 32 bits the two divisions are
one floor division, and since `s (2m - s) + (s - m)² = m²` the penalty is strict. The refusal of
`getBlockReward` doubles the median in `size_t`, so a median of `2^63` or more wraps, and the
emission change is a `uint64_t` difference read as `int64_t`, exact only while the fee is below
`2^63`.

`check_inputs_overflow` charges a deposit withdrawal its principal plus
`DEPOSIT_MAX_TOTAL_RATE = 3` percent. After `END_MULTIPLIER_BLOCK` and for terms up to the
longest, `calculateInterest` stays within that percent and the input total is exact; at the
heights of the multiplier era the interest is ten times larger and the total can wrap.

## Main results

* `Currency.getBlockReward_penalty`: the refusal, the penalty of each amount and the exactness
  of the reward and the emission change
* `getTransactionAllInputsAmount_exact`: the input total of a checked transaction does not wrap
  after the multiplier era
-/

namespace UltraNoteCore

/-! ## The block reward -/

/-- Above the median the penalty factor `s (2m - s)` falls short of `m²` by `(s - m)²`. -/
theorem penalty_factor_add_sq {m s : ℕ} (hlt : m < s) (hle : s ≤ 2 * m) :
    s * (2 * m - s) + (s - m) * (s - m) = m * m := by
  obtain ⟨d, rfl⟩ : ∃ d, s = m + d := ⟨s - m, by omega⟩
  obtain ⟨e, rfl⟩ : ∃ e, m = d + e := ⟨m - d, by omega⟩
  rw [show 2 * (d + e) - (d + e + d) = e by omega, show d + e + d - (d + e) = d by omega]
  ring

/-- A block no larger than the median pays no penalty. -/
theorem getPenalizedAmount_of_le (amount : UInt64) {medianSize currentBlockSize : ℕ}
    (hle : currentBlockSize ≤ medianSize) :
    getPenalizedAmount amount medianSize currentBlockSize = amount := by
  by_cases hzero : amount = 0
  · simp [getPenalizedAmount, hzero]
  · simp [getPenalizedAmount, hzero, hle]

/-- Above the median, for a median of 32 bits and a block at most twice it, the two
`div128_32` divisions compute one floor division by `m²`. -/
theorem getPenalizedAmount_toNat_of_lt (amount : UInt64) {medianSize currentBlockSize : ℕ}
    (hm : medianSize ≤ 2 ^ 32 - 1) (hlt : medianSize < currentBlockSize)
    (hle : currentBlockSize ≤ 2 * medianSize) :
    (getPenalizedAmount amount medianSize currentBlockSize).toNat =
      amount.toNat * (currentBlockSize * (2 * medianSize - currentBlockSize)) /
        (medianSize * medianSize) := by
  have hsq := penalty_factor_add_sq hlt hle
  have hfactor : currentBlockSize * (2 * medianSize - currentBlockSize) ≤
      medianSize * medianSize := by omega
  have hsq_lt : medianSize * medianSize < 2 ^ 64 := by
    have := Nat.mul_le_mul hm hm
    omega
  -- the factor is computed in `size_t` without wrapping
  have hword : (UInt64.ofNat currentBlockSize *
      (2 * UInt64.ofNat medianSize - UInt64.ofNat currentBlockSize)).toNat =
      currentBlockSize * (2 * medianSize - currentBlockSize) := by
    have hs : (UInt64.ofNat currentBlockSize).toNat = currentBlockSize :=
      Nat.mod_eq_of_lt (by omega)
    have hm' : (UInt64.ofNat medianSize).toNat = medianSize := Nat.mod_eq_of_lt (by omega)
    have htwo : (2 * UInt64.ofNat medianSize).toNat = 2 * medianSize := by
      rw [UInt64.toNat_mul, hm', show (2 : UInt64).toNat = 2 from rfl]
      exact Nat.mod_eq_of_lt (by omega)
    rw [UInt64.toNat_mul, UInt64.toNat_sub_of_le _ _ (UInt64.le_iff_toNat_le.mpr (by omega)),
      htwo, hs]
    exact Nat.mod_eq_of_lt (by omega)
  -- the quotient is at most the amount, so it fits the 64 bits returned
  have hquot : amount.toNat * (currentBlockSize * (2 * medianSize - currentBlockSize)) /
      (medianSize * medianSize) ≤ amount.toNat :=
    Nat.div_le_of_le_mul (by rw [Nat.mul_comm]; exact Nat.mul_le_mul_right _ hfactor)
  have hamount := amount.toNat_lt
  unfold getPenalizedAmount
  split
  · rename_i h
    subst h
    simp
  · rw [if_neg (by omega)]
    dsimp only
    rw [hword, Nat.mod_eq_of_lt (by omega : medianSize < 2 ^ 32), Nat.div_div_eq_div_mul,
      UInt64.toNat_ofNat', Nat.mod_eq_of_lt (by omega)]

/-- A penalized amount is at most the amount, and below it for a block above the median. -/
theorem getPenalizedAmount_le (amount : UInt64) {medianSize currentBlockSize : ℕ}
    (hm : medianSize ≤ 2 ^ 32 - 1) (hle : currentBlockSize ≤ 2 * medianSize) :
    (getPenalizedAmount amount medianSize currentBlockSize).toNat ≤ amount.toNat ∧
      (medianSize < currentBlockSize → 0 < amount.toNat →
        (getPenalizedAmount amount medianSize currentBlockSize).toNat < amount.toNat) := by
  by_cases hlt : medianSize < currentBlockSize
  · rw [getPenalizedAmount_toNat_of_lt amount hm hlt hle]
    have hsq := penalty_factor_add_sq hlt hle
    have hfactor : currentBlockSize * (2 * medianSize - currentBlockSize) <
        medianSize * medianSize := by
      have : 0 < (currentBlockSize - medianSize) * (currentBlockSize - medianSize) :=
        Nat.mul_pos (by omega) (by omega)
      omega
    refine ⟨Nat.div_le_of_le_mul ?_, fun _ hpos => ?_⟩
    · rw [Nat.mul_comm]
      exact Nat.mul_le_mul_right _ hfactor.le
    · rw [Nat.div_lt_iff_lt_mul (by omega)]
      exact Nat.mul_lt_mul_of_pos_left hfactor hpos
  · rw [getPenalizedAmount_of_le amount (by omega)]
    exact ⟨le_rfl, fun h => absurd h hlt⟩

/-- `int64_t` of a `uint64_t`: the same bits read in two's complement. -/
theorem toInt_toInt64 (x : UInt64) :
    x.toInt64.toInt = if x.toNat < 2 ^ 63 then (x.toNat : ℤ) else (x.toNat : ℤ) - 2 ^ 64 := by
  simp only [UInt64.toInt64, Int64.toInt, BitVec.toInt_eq_toNat_cond]
  change (if 2 * x.toNat < 2 ^ 64 then (x.toNat : ℤ) else (x.toNat : ℤ) - 2 ^ 64) = _
  split_ifs <;> omega

/-- A difference of two words below `2^63`, read as `int64_t`, is the difference of integers. -/
theorem toInt_toInt64_sub {a b : UInt64} (ha : a.toNat < 2 ^ 63) (hb : b.toNat ≤ 2 ^ 63) :
    (a - b).toInt64.toInt = (a.toNat : ℤ) - b.toNat := by
  rw [toInt_toInt64, UInt64.toNat_sub]
  -- the difference wraps exactly when it is negative, and then reads back below zero
  by_cases hab : b.toNat ≤ a.toNat
  · rw [show (2 ^ 64 - b.toNat + a.toNat) % 2 ^ 64 = a.toNat - b.toNat by omega,
      if_pos (by omega)]
    omega
  · rw [show (2 ^ 64 - b.toNat + a.toNat) % 2 ^ 64 = 2 ^ 64 - b.toNat + a.toNat by omega,
      if_neg (by omega)]
    omega

namespace Currency

variable (c : Currency)

/-- The base reward never exceeds the foundation reward of height one. -/
theorem baseRewardFunction_le (alreadyGeneratedCoins : UInt64) (height : ℕ) :
    (c.baseRewardFunction alreadyGeneratedCoins height).toNat ≤ FOUNDATION_TRUST.toNat := by
  unfold baseRewardFunction
  split
  · exact le_rfl
  · rw [UInt64.toNat_min, UInt64.toNat_min]
    have hmax : MAX_BLOCK_REWARD.toNat ≤ FOUNDATION_TRUST.toNat := by decide
    omega

/-- `getBlockReward` refuses exactly the blocks above twice the median, doubled in `size_t`. -/
theorem getBlockReward_eq_none_iff (medianSize currentBlockSize : ℕ)
    (alreadyGeneratedCoins fee : UInt64) (height : ℕ) :
    c.getBlockReward medianSize currentBlockSize alreadyGeneratedCoins fee height = none ↔
      (2 * max medianSize c.blockGrantedFullRewardZone) % 2 ^ 64 < currentBlockSize := by
  unfold getBlockReward
  dsimp only
  split <;> simp_all

/-- An accepted block is paid the two penalized amounts. -/
theorem getBlockReward_of_le (medianSize currentBlockSize : ℕ)
    (alreadyGeneratedCoins fee : UInt64) (height : ℕ)
    (hle : ¬(2 * max medianSize c.blockGrantedFullRewardZone) % 2 ^ 64 < currentBlockSize) :
    c.getBlockReward medianSize currentBlockSize alreadyGeneratedCoins fee height =
      some (getPenalizedAmount (c.baseRewardFunction alreadyGeneratedCoins height)
          (max medianSize c.blockGrantedFullRewardZone) currentBlockSize +
        getPenalizedAmount fee (max medianSize c.blockGrantedFullRewardZone) currentBlockSize,
        (getPenalizedAmount (c.baseRewardFunction alreadyGeneratedCoins height)
            (max medianSize c.blockGrantedFullRewardZone) currentBlockSize -
          (fee - getPenalizedAmount fee (max medianSize c.blockGrantedFullRewardZone)
            currentBlockSize)).toInt64) := by
  unfold getBlockReward
  dsimp only
  rw [if_neg hle]

theorem getBlockReward_penalty (medianSize currentBlockSize : ℕ)
    (alreadyGeneratedCoins fee : UInt64) (height : ℕ) :
    (let m := max medianSize c.blockGrantedFullRewardZone
    let baseReward := c.baseRewardFunction alreadyGeneratedCoins height
    (c.getBlockReward medianSize currentBlockSize alreadyGeneratedCoins fee height = none ↔
        (2 * m) % 2 ^ 64 < currentBlockSize) ∧
    (m ≤ 2 ^ 32 - 1 → ∀ reward emissionChange,
      c.getBlockReward medianSize currentBlockSize alreadyGeneratedCoins fee height =
        some (reward, emissionChange) →
      currentBlockSize ≤ 2 * m ∧
      (∀ x : UInt64,
        (getPenalizedAmount x m currentBlockSize).toNat =
          (if m < currentBlockSize then
            x.toNat * (currentBlockSize * (2 * m - currentBlockSize)) / (m * m)
          else x.toNat) ∧
        (getPenalizedAmount x m currentBlockSize).toNat ≤ x.toNat ∧
        (m < currentBlockSize → 0 < x.toNat →
          (getPenalizedAmount x m currentBlockSize).toNat < x.toNat)) ∧
      reward = getPenalizedAmount baseReward m currentBlockSize +
        getPenalizedAmount fee m currentBlockSize ∧
      reward.toNat ≤ baseReward.toNat + fee.toNat ∧
      (fee.toNat < 2 ^ 63 →
        reward.toNat = (getPenalizedAmount baseReward m currentBlockSize).toNat +
          (getPenalizedAmount fee m currentBlockSize).toNat ∧
        emissionChange.toInt = ((getPenalizedAmount baseReward m currentBlockSize).toNat : ℤ) -
          ((fee.toNat : ℤ) - (getPenalizedAmount fee m currentBlockSize).toNat)))) := by
  dsimp only
  refine ⟨c.getBlockReward_eq_none_iff _ _ _ _ _, ?_⟩
  intro hm reward emissionChange hsome
  -- an accepted block is at most twice the median, which does not wrap in 32 bits
  have hfits : ¬(2 * max medianSize c.blockGrantedFullRewardZone) % 2 ^ 64 < currentBlockSize :=
    fun h => by rw [(c.getBlockReward_eq_none_iff _ _ _ _ _).mpr h] at hsome; cases hsome
  rw [c.getBlockReward_of_le _ _ _ _ _ hfits] at hsome
  obtain ⟨rfl, rfl⟩ := Prod.mk.inj (Option.some.inj hsome)
  have hfoundation := c.baseRewardFunction_le alreadyGeneratedCoins height
  have htrust : FOUNDATION_TRUST.toNat = 2100000000000 := rfl
  -- from here on only the median and the base reward's bound matter
  generalize max medianSize c.blockGrantedFullRewardZone = m at hm hfits ⊢
  generalize c.baseRewardFunction alreadyGeneratedCoins height = baseReward at hfoundation ⊢
  have hle : currentBlockSize ≤ 2 * m := by
    rw [Nat.mod_eq_of_lt (by omega)] at hfits
    omega
  -- the two penalized amounts
  have hpenalty : ∀ x : UInt64,
      (getPenalizedAmount x m currentBlockSize).toNat =
        (if m < currentBlockSize then
          x.toNat * (currentBlockSize * (2 * m - currentBlockSize)) / (m * m)
        else x.toNat) := by
    intro x
    split
    · exact getPenalizedAmount_toNat_of_lt x hm ‹_› hle
    · rw [getPenalizedAmount_of_le x (by omega)]
  obtain ⟨hbase, -⟩ := getPenalizedAmount_le baseReward hm hle
  obtain ⟨hfee, -⟩ := getPenalizedAmount_le fee hm hle
  refine ⟨hle, fun x => ⟨hpenalty x, getPenalizedAmount_le x hm hle⟩, rfl, ?_, fun hfee_lt => ?_⟩
  · rw [UInt64.toNat_add]
    exact le_trans (Nat.mod_le _ _) (Nat.add_le_add hbase hfee)
  · -- with a fee below `2^63` neither the sum nor the signed difference wraps
    have hsum : (getPenalizedAmount baseReward m currentBlockSize +
        getPenalizedAmount fee m currentBlockSize).toNat =
        (getPenalizedAmount baseReward m currentBlockSize).toNat +
          (getPenalizedAmount fee m currentBlockSize).toNat := by
      rw [UInt64.toNat_add]
      exact Nat.mod_eq_of_lt (by omega)
    have hdiff : (fee - getPenalizedAmount fee m currentBlockSize).toNat =
        fee.toNat - (getPenalizedAmount fee m currentBlockSize).toNat :=
      UInt64.toNat_sub_of_le _ _ (UInt64.le_iff_toNat_le.mpr hfee)
    refine ⟨hsum, ?_⟩
    rw [toInt_toInt64_sub (by omega) (by omega), hdiff]
    omega

end Currency

/-- Two inputs the unbounded reading of the reward rule gets wrong: a median of `2^63` doubles to
zero in `size_t`, so a one-byte block is refused; and a block of twice the median pays nothing,
so a fee of `2^64 - 1` makes the `int64_t` emission change `1` instead of `-(2^64 - 1)`. -/
theorem getBlockReward_wraps :
    Currency.mainnet.getBlockReward (2 ^ 63) 1 0 0 2 = none ∧
      1 ≤ 2 * max (2 ^ 63) Currency.mainnet.blockGrantedFullRewardZone ∧
    Currency.mainnet.getBlockReward 100000 200000 0 18446744073709551615 2 = some (0, 1) ∧
      (1 : ℤ) ≠ 0 - ((18446744073709551615 : ℤ) - 0) := by
  decide

/-! ## Deposit interest and the input check -/

/-- The loop of `check_inputs_overflow` and `check_outs_overflow` passes iff the amounts and
the starting value sum below `2^64`. -/
theorem noPartialSumWraps_eq_true (money : UInt64) (amounts : List UInt64) :
    noPartialSumWraps money amounts = true ↔
      money.toNat + (amounts.map UInt64.toNat).sum < 2 ^ 64 := by
  induction amounts generalizing money with
  | nil => simpa [noPartialSumWraps] using money.toNat_lt
  | cons a as ih =>
    have ha := a.toNat_lt
    have hm := money.toNat_lt
    simp only [noPartialSumWraps, Bool.and_eq_true, Bool.not_eq_true', decide_eq_false_iff_not,
      UInt64.lt_iff_toNat_lt, UInt64.toNat_add, List.map_cons, List.sum_cons, not_lt]
    by_cases hfit : a.toNat + money.toNat < 2 ^ 64
    · -- no wrap: the running sum is the natural one
      rw [Nat.mod_eq_of_lt hfit, ih, UInt64.toNat_add, Nat.add_comm money.toNat a.toNat,
        Nat.mod_eq_of_lt hfit]
      omega
    · -- the sum wraps below the running value, and the natural sum is past `2^64`
      rw [Nat.add_comm a.toNat money.toNat] at hfit
      constructor
      · rintro ⟨h, -⟩
        omega
      · intro h
        omega

/-- A `uint64_t` accumulation is the natural sum modulo `2^64`. -/
theorem toNat_foldl_add_mod {α : Type} (f : α → UInt64) (acc : UInt64) (xs : List α) :
    (xs.foldl (fun acc x => acc + f x) acc).toNat =
      (acc.toNat + (xs.map fun x => (f x).toNat).sum) % 2 ^ 64 := by
  induction xs generalizing acc with
  | nil => simp [Nat.mod_eq_of_lt acc.toNat_lt]
  | cons x xs ih =>
    rw [List.foldl_cons, ih, UInt64.toNat_add, List.map_cons, List.sum_cons, Nat.mod_add_mod,
      Nat.add_assoc]

/-- A `uint64_t` accumulation that stays below `2^64` is the natural sum. -/
theorem toNat_foldl_add {α : Type} (f : α → UInt64) (acc : UInt64) (xs : List α)
    (hfit : acc.toNat + (xs.map fun x => (f x).toNat).sum < 2 ^ 64) :
    (xs.foldl (fun acc x => acc + f x) acc).toNat =
      acc.toNat + (xs.map fun x => (f x).toNat).sum := by
  induction xs generalizing acc with
  | nil => simp
  | cons x xs ih =>
    simp only [List.map_cons, List.sum_cons] at hfit
    have hstep : (acc + f x).toNat = acc.toNat + (f x).toNat := by
      rw [UInt64.toNat_add]
      exact Nat.mod_eq_of_lt (by omega)
    rw [List.foldl_cons, ih (acc + f x) (by omega), hstep, List.map_cons, List.sum_cons]
    omega

namespace Currency

/-- After the multiplier era a deposit of a term up to `depositMaxTerm` earns at most the
`DEPOSIT_MAX_TOTAL_RATE` percent that `check_inputs_overflow` allows for. -/
theorem mainnet_calculateInterest_le (amount : UInt64) {term : UInt32} {height : ℕ}
    (hheight : END_MULTIPLIER_BLOCK < height) (hterm : term ≤ mainnet.depositMaxTerm) :
    (mainnet.calculateInterest amount term height).toNat ≤ amount.toNat * 3 / 100 := by
  have hterm' : term.toNat ≤ 264000 := UInt32.le_iff_toNat_le.mp hterm
  -- the rate factor `term * 3 - 0` of the main network does not wrap
  have hrate : (term.toUInt64 * mainnet.depositMaxTotalRate -
      mainnet.depositMinTotalRateFactor).toNat = term.toNat * 3 := by
    change (term.toUInt64 * 3 - 0).toNat = _
    rw [UInt64.sub_zero, UInt64.toNat_mul, UInt32.toNat_toUInt64, show (3 : UInt64).toNat = 3 from rfl]
    exact Nat.mod_eq_of_lt (by omega)
  have hquotient : amount.toNat * (term.toNat * 3) / 26400000 ≤ amount.toNat * 3 / 100 :=
    calc amount.toNat * (term.toNat * 3) / 26400000
        ≤ amount.toNat * 3 * 264000 / (100 * 264000) := by
          apply Nat.div_le_div_right
          rw [Nat.mul_assoc, Nat.mul_comm 3 264000]
          exact Nat.mul_le_mul_left _ (Nat.mul_le_mul_right _ hterm')
      _ = amount.toNat * 3 / 100 := Nat.mul_div_mul_right _ _ (by decide)
  unfold calculateInterest
  rw [if_neg (Nat.not_le.mpr hheight), hrate, UInt64.toNat_ofNat']
  exact le_trans (Nat.mod_le _ _) hquotient

/-- Above `END_MULTIPLIER_BLOCK` the interest no longer depends on the height. -/
theorem calculateInterest_of_lt (c : Currency) (amount : UInt64) (term : UInt32) {height height' : ℕ}
    (hheight : END_MULTIPLIER_BLOCK < height) (hheight' : END_MULTIPLIER_BLOCK < height') :
    c.calculateInterest amount term height = c.calculateInterest amount term height' := by
  unfold calculateInterest
  rw [if_neg (Nat.not_le.mpr hheight), if_neg (Nat.not_le.mpr hheight')]

/-- Up to `END_MULTIPLIER_BLOCK` the interest is `MULTIPLIER_FACTOR` times the later one. -/
theorem calculateInterest_of_le (c : Currency) (amount : UInt64) (term : UInt32) {height height' : ℕ}
    (hheight : height ≤ END_MULTIPLIER_BLOCK) (hheight' : END_MULTIPLIER_BLOCK < height') :
    c.calculateInterest amount term height =
      c.calculateInterest amount term height' * MULTIPLIER_FACTOR := by
  unfold calculateInterest
  rw [if_pos hheight, if_neg (Nat.not_le.mpr hheight'), UInt64.ofNat_mod_size]

/-- Up to `END_MULTIPLIER_BLOCK` the interest does not depend on the height either. -/
theorem calculateInterest_of_le_of_le (c : Currency) (amount : UInt64) (term : UInt32)
    {height height' : ℕ} (hheight : height ≤ END_MULTIPLIER_BLOCK)
    (hheight' : height' ≤ END_MULTIPLIER_BLOCK) :
    c.calculateInterest amount term height = c.calculateInterest amount term height' := by
  unfold calculateInterest
  rw [if_pos hheight, if_pos hheight']

/-- The interest of a deposit the main network accepts, after the multiplier era: `amount ·
3 · term / (100 · depositMaxTerm)` without wrapping. -/
theorem mainnet_calculateInterest_toNat (amount : UInt64) {term : UInt32} {height : ℕ}
    (hheight : END_MULTIPLIER_BLOCK < height) (hterm : term ≤ mainnet.depositMaxTerm) :
    (mainnet.calculateInterest amount term height).toNat =
      amount.toNat * (term.toNat * 3) / 26400000 := by
  have hterm' : term.toNat ≤ 264000 := UInt32.le_iff_toNat_le.mp hterm
  have hrate : (term.toUInt64 * mainnet.depositMaxTotalRate -
      mainnet.depositMinTotalRateFactor).toNat = term.toNat * 3 := by
    change (term.toUInt64 * 3 - 0).toNat = _
    rw [UInt64.sub_zero, UInt64.toNat_mul, UInt32.toNat_toUInt64, show (3 : UInt64).toNat = 3 from rfl]
    exact Nat.mod_eq_of_lt (by omega)
  have hbound : amount.toNat * (term.toNat * 3) / 26400000 < 2 ^ 64 :=
    Nat.lt_of_le_of_lt (Nat.div_le_div_right (Nat.mul_le_mul_left _ (Nat.mul_le_mul_right 3 hterm')))
      (Nat.div_lt_of_lt_mul (by have := amount.toNat_lt; omega))
  unfold calculateInterest
  rw [if_neg (Nat.not_le.mpr hheight), hrate, UInt64.toNat_ofNat', Nat.mod_eq_of_lt]
  · rfl
  · exact hbound

/-- A deposit of at least `depositMinAmount` for at least `depositMinTerm` earns at least 2500
after the multiplier era. -/
theorem mainnet_calculateInterest_ge {amount : UInt64} {term : UInt32} {height : ℕ}
    (hheight : END_MULTIPLIER_BLOCK < height) (hamount : mainnet.depositMinAmount ≤ amount)
    (hmin : mainnet.depositMinTerm ≤ term) (hterm : term ≤ mainnet.depositMaxTerm) :
    2500 ≤ (mainnet.calculateInterest amount term height).toNat := by
  have hamount' : 1000000 ≤ amount.toNat := UInt64.le_iff_toNat_le.mp hamount
  have hmin' : 22000 ≤ term.toNat := UInt32.le_iff_toNat_le.mp hmin
  rw [mainnet_calculateInterest_toNat amount hheight hterm]
  calc 2500 = 1000000 * (22000 * 3) / 26400000 := by decide
    _ ≤ amount.toNat * (term.toNat * 3) / 26400000 :=
      Nat.div_le_div_right (Nat.mul_le_mul hamount' (Nat.mul_le_mul_right 3 hmin'))

/-- A deposit of the main network recorded up to `END_MULTIPLIER_BLOCK` carries ten times the
interest it is worth after it: its principal and that interest, less a fee of 10, exceed what
the deposit is worth later. -/
theorem mainnet_add_calculateInterest_lt_of_le {amount : UInt64} {term : UInt32}
    {height height' : ℕ} (hheight : height ≤ END_MULTIPLIER_BLOCK)
    (hheight' : END_MULTIPLIER_BLOCK < height') (hamount : mainnet.depositMinAmount ≤ amount)
    (hsupply : amount ≤ mainnet.moneySupply) (hmin : mainnet.depositMinTerm ≤ term)
    (hterm : term ≤ mainnet.depositMaxTerm) :
    amount + mainnet.calculateInterest amount term height' <
      amount + mainnet.calculateInterest amount term height - 10 := by
  -- `q`, the later interest, is at least 2500 and at most 3% of a principal below the supply
  have hle := mainnet_calculateInterest_le amount hheight' hterm
  have hge := mainnet_calculateInterest_ge hheight' hamount hmin hterm
  have hsupply' : amount.toNat ≤ 21000000000000 := UInt64.le_iff_toNat_le.mp hsupply
  rw [calculateInterest_of_le mainnet amount term hheight hheight']
  generalize mainnet.calculateInterest amount term height' = q at hle hge ⊢
  have hten : (q * MULTIPLIER_FACTOR).toNat = q.toNat * 10 := by
    rw [UInt64.toNat_mul, show MULTIPLIER_FACTOR.toNat = 10 from rfl]
    exact Nat.mod_eq_of_lt (by omega)
  have hearly : (amount + q * MULTIPLIER_FACTOR).toNat = amount.toNat + q.toNat * 10 := by
    rw [UInt64.toNat_add, hten]
    exact Nat.mod_eq_of_lt (by omega)
  have hlate : (amount + q).toNat = amount.toNat + q.toNat := by
    rw [UInt64.toNat_add]
    exact Nat.mod_eq_of_lt (by omega)
  have hfee : (10 : UInt64) ≤ amount + q * MULTIPLIER_FACTOR := by
    rw [UInt64.le_iff_toNat_le, hearly, show (10 : UInt64).toNat = 10 from rfl]
    omega
  -- so the comparison is `a + q < a + 10 q - 10`, which `q ≥ 2500` settles
  rw [UInt64.lt_iff_toNat_lt, UInt64.toNat_sub_of_le _ _ hfee, hearly, hlate,
    show (10 : UInt64).toNat = 10 from rfl]
  omega

end Currency

/-- An input is worth at most what `check_inputs_overflow` charges it, and a deposit withdrawal
is worth its principal plus its interest without wrapping, after the multiplier era and for
terms up to `depositMaxTerm`. -/
theorem getTransactionInputAmount_le_bound {height : ℕ} (hheight : END_MULTIPLIER_BLOCK < height)
    {input : TransactionInput} {bound : UInt64} (hbound : inputOverflowBound input = some bound)
    (hterm : ∀ m, input = .multisignature m → m.term ≤ Currency.mainnet.depositMaxTerm) :
    (Currency.mainnet.getTransactionInputAmount height input).toNat ≤ bound.toNat ∧
      ∀ m, input = .multisignature m → m.term ≠ 0 →
        (Currency.mainnet.getTransactionInputAmount height input).toNat =
          m.amount.toNat + (Currency.mainnet.calculateInterest m.amount m.term height).toNat := by
  cases input with
  | base b =>
    cases hbound
    exact ⟨le_rfl, fun m h => by cases h⟩
  | key k =>
    cases hbound
    exact ⟨le_rfl, fun m h => by cases h⟩
  | multisignature m =>
    have hle := Currency.mainnet_calculateInterest_le m.amount hheight (hterm m rfl)
    dsimp only [inputOverflowBound] at hbound
    by_cases hzero : m.term = 0
    · rw [if_pos hzero] at hbound
      cases hbound
      refine ⟨by simp [Currency.getTransactionInputAmount, hzero], fun m' h hne => ?_⟩
      cases h
      exact absurd hzero hne
    · -- the check passed: the principal and the largest interest fit in 64 bits
      rw [if_neg hzero] at hbound
      have hmax : (UInt64.ofNat (2 ^ 64 - 1)).toNat = 2 ^ 64 - 1 := rfl
      have hinterest : (UInt64.ofNat (m.amount.toNat * 3 / 100)).toNat =
          m.amount.toNat * 3 / 100 := Nat.mod_eq_of_lt (by have := m.amount.toNat_lt; omega)
      rw [if_neg (by have := m.amount.toNat_lt; omega)] at hbound
      split at hbound
      · cases hbound
      · rename_i hfits
        cases hbound
        rw [UInt64.not_lt, UInt64.le_iff_toNat_le, UInt64.toNat_sub_of_le _ _
          (UInt64.le_iff_toNat_le.mpr (by rw [hmax, hinterest]; have := m.amount.toNat_lt; omega)),
          hmax, hinterest] at hfits
        have hexact : (m.amount + Currency.mainnet.calculateInterest m.amount m.term height).toNat =
            m.amount.toNat + (Currency.mainnet.calculateInterest m.amount m.term height).toNat := by
          rw [UInt64.toNat_add]
          exact Nat.mod_eq_of_lt (by omega)
        simp only [Currency.getTransactionInputAmount, if_neg hzero]
        refine ⟨?_, fun m' h _ => ?_⟩
        · rw [hexact, UInt64.toNat_add, hinterest, Nat.mod_eq_of_lt (by omega)]
          omega
        · cases h
          exact hexact

/-- A list mapped through an option-valued function is defined at each of its elements. -/
theorem isSome_of_mapM_eq_some {α β : Type} {f : α → Option β} {l : List α} {bs : List β}
    (h : l.mapM f = some bs) {x : α} (hx : x ∈ l) : (f x).isSome := by
  induction l generalizing bs with
  | nil => cases hx
  | cons y ys ih =>
    simp only [List.mapM_cons, Option.bind_eq_bind, Option.bind_eq_some_iff] at h
    obtain ⟨b, hb, bs', hbs', -⟩ := h
    rcases List.mem_cons.mp hx with rfl | hx
    · rw [hb]; rfl
    · exact ih hbs' hx

/-- The input amounts sum to at most the amounts `check_inputs_overflow` charges. -/
theorem sum_getTransactionInputAmount_le {height : ℕ} (hheight : END_MULTIPLIER_BLOCK < height)
    (inputs : List TransactionInput) (bounds : List UInt64)
    (hbounds : inputs.mapM inputOverflowBound = some bounds)
    (hterm : ∀ m, .multisignature m ∈ inputs → m.term ≤ Currency.mainnet.depositMaxTerm) :
    (inputs.map fun i => (Currency.mainnet.getTransactionInputAmount height i).toNat).sum ≤
      (bounds.map UInt64.toNat).sum := by
  induction inputs generalizing bounds with
  | nil =>
    cases hbounds
    simp
  | cons i is ih =>
    simp only [List.mapM_cons, Option.bind_eq_bind, Option.bind_eq_some_iff] at hbounds
    obtain ⟨b, hb, bs, hbs, hcons⟩ := hbounds
    cases hcons
    have hi := (getTransactionInputAmount_le_bound hheight hb
      (fun m h => hterm m (h ▸ List.mem_cons_self))).1
    have his := ih bs hbs (fun m hm => hterm m (List.mem_cons_of_mem i hm))
    simp only [List.map_cons, List.sum_cons]
    omega

theorem getTransactionAllInputsAmount_exact (tx : TransactionPrefix) (height : ℕ) :
    check_inputs_overflow tx = true → END_MULTIPLIER_BLOCK < height →
    (∀ m, .multisignature m ∈ tx.inputs → m.term ≤ Currency.mainnet.depositMaxTerm) →
    (Currency.mainnet.getTransactionAllInputsAmount tx height).toNat =
        (tx.inputs.map fun i => (Currency.mainnet.getTransactionInputAmount height i).toNat).sum ∧
      ∀ m, .multisignature m ∈ tx.inputs → m.term ≠ 0 →
        (Currency.mainnet.getTransactionInputAmount height (.multisignature m)).toNat =
          m.amount.toNat + (Currency.mainnet.calculateInterest m.amount m.term height).toNat := by
  intro hcheck hheight hterm
  -- the check computed a bound for every input, and the bounds sum below `2^64`
  unfold check_inputs_overflow at hcheck
  split at hcheck
  · rename_i bounds hbounds
    have hfit := (noPartialSumWraps_eq_true 0 bounds).mp hcheck
    have hle := sum_getTransactionInputAmount_le hheight tx.inputs bounds hbounds hterm
    refine ⟨?_, fun m hm hne => ?_⟩
    · unfold Currency.getTransactionAllInputsAmount
      rw [toNat_foldl_add _ 0 _ (by simp only [UInt64.toNat_zero] at hfit ⊢; omega),
        UInt64.toNat_zero, Nat.zero_add]
    · -- the deposit's own bound was computed on the way
      obtain ⟨b, hb⟩ : ∃ b, inputOverflowBound (.multisignature m) = some b := by
        rw [← Option.isSome_iff_exists]
        exact isSome_of_mapM_eq_some hbounds hm
      exact (getTransactionInputAmount_le_bound hheight hb
        (fun m' h => by cases h; exact hterm m hm)).2 m rfl hne
  · cases hcheck

/-- A withdrawal of one coin deposited for the shortest term. -/
def lateDepositWithdrawal : TransactionPrefix where
  version := TRANSACTION_VERSION_2
  unlockTime := 0
  inputs := [.multisignature
    { amount := 1000000, signatureCount := 1, outputIndex := 0, term := 22000 }]
  outputs := []
  extra := []

theorem getTransactionAllInputsAmount_exact_sample :
    (Currency.mainnet.getTransactionAllInputsAmount lateDepositWithdrawal 3601).toNat =
        (lateDepositWithdrawal.inputs.map fun i =>
          (Currency.mainnet.getTransactionInputAmount 3601 i).toNat).sum ∧
      ∀ m, .multisignature m ∈ lateDepositWithdrawal.inputs → m.term ≠ 0 →
        (Currency.mainnet.getTransactionInputAmount 3601 (.multisignature m)).toNat =
          m.amount.toNat + (Currency.mainnet.calculateInterest m.amount m.term 3601).toNat :=
  getTransactionAllInputsAmount_exact lateDepositWithdrawal 3601 (by decide) (by decide)
    (fun m hm => by
      rw [lateDepositWithdrawal, List.mem_singleton, TransactionInput.multisignature.injEq] at hm
      subst hm
      decide)

/-- A withdrawal of `1.6 · 10^19` atomic units deposited for the longest term: the check allows
for 3% of interest, and at a height of the multiplier era the interest is 30%, so the input total
wraps past `2^64`. -/
def earlyDepositWithdrawal : TransactionPrefix where
  version := TRANSACTION_VERSION_2
  unlockTime := 0
  inputs := [.multisignature
    { amount := 16000000000000000000, signatureCount := 1, outputIndex := 0, term := 264000 }]
  outputs := []
  extra := []

theorem getTransactionAllInputsAmount_wraps_early :
    check_inputs_overflow earlyDepositWithdrawal = true ∧
      (Currency.mainnet.calculateInterest 16000000000000000000 264000 0).toNat =
        4800000000000000000 ∧
      (Currency.mainnet.getTransactionAllInputsAmount earlyDepositWithdrawal 0).toNat =
        16000000000000000000 + 4800000000000000000 - 2 ^ 64 := by
  decide

end UltraNoteCore
