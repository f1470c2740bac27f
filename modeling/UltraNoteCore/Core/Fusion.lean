import UltraNoteCore.Basic.DecomposeAmount
import UltraNoteCore.Core.Blockchain.Chain
import UltraNoteCore.Core.CurrencyBounds
import UltraNoteCore.Prelude.Digits
import Mathlib.Data.List.Sort
import Mathlib.Data.Nat.Digits.Lemmas

/-!
# Fusion transactions: the node's rule

A fusion transaction merges many small outputs into a few large ones and pays no fee. The pool
relays a transaction without fee only if `Currency::isFusionTransaction` (`Currency.cpp`)
accepts it: its data fits `fusionTxMaxSize`, it has at least `fusionTxMinInputCount` inputs and
`fusionTxMinInOutCountRatio` times as many inputs as outputs, no input is below the dust
threshold, and its outputs are the decomposition of the inputs' sum, sorted. The wallet picks
the inputs of such a transaction with `Currency::isAmountApplicableInFusionTransactionInput`:
pretty amounts (a digit times a power of ten) below its threshold, and, only before
`UPGRADE_HEIGHT_V3`, not below the dust threshold.

The sum of the inputs is a `uint64_t` and wraps; everything else is a size. The results below
that need the sum take it without wrap, the one hypothesis they add.

## The ratio

The wallet takes its inputs from one decade `[10 ^ k, 10 ^ (k + 1))`, so `n` of them add up to
`10 ^ k · s` with `s ≤ 9 n`, and the sum has at most as many nonzero digits as `s` has digits.
For `n ≥ 12` that is at most `n / 4`: the ratio test holds whatever the amounts are.

## Main definitions

* `PRETTY_AMOUNTS`, `getInputsAmounts`
* `Currency.isFusionTransaction`, with its loop `sumFusionInputs`
* `Currency.isAmountApplicableInFusionTransactionInput`,
  `Currency.getApproximateMaximumInputCount`

## Main results

* `Currency.isFusionTransaction_eq_true`: what the node's test checks, one conjunct a test
* `Currency.isAmountApplicableInFusionTransactionInput_eq_some`: what makes an amount applicable
* `eq_digit_mul_pow_of_mem_PRETTY_AMOUNTS`: a pretty amount in a decade is a digit times its
  power of ten
* `length_decomposeAmount_mul_four_le`: `n ≥ 12` amounts of one decade decompose into at most
  `n / 4` outputs
* `Currency.isFusionTransaction_mainnet_iff_of_decade`: on the main network, such inputs with
  their sorted decomposition are a fusion transaction exactly when none is below the dust
-/

namespace UltraNoteCore

/-- `Currency::PRETTY_AMOUNTS`: the digits `1, …, 9` times `10 ^ k` for `k = 0, …, 18`, then
`10 ^ 19`, in increasing order. -/
def PRETTY_AMOUNTS : List UInt64 :=
  ((List.range 19).flatMap fun k => (List.range 9).map fun d => UInt64.ofNat ((d + 1) * 10 ^ k)) ++
    [10000000000000000000]

example : PRETTY_AMOUNTS.take 12 = [1, 2, 3, 4, 5, 6, 7, 8, 9, 10, 20, 30] := by decide +kernel

/-- `getInputsAmounts` (`CryptoNoteTools.cpp`): the amounts of the key and multisignature
inputs, in order. -/
def getInputsAmounts (transaction : Transaction) : List UInt64 :=
  transaction.inputs.filterMap fun
    | .key input => some input.amount
    | .multisignature input => some input.amount
    | .base _ => none

namespace Currency

variable (c : Currency)

/-- The loop of `isFusionTransaction` over the inputs: it returns at the first amount below the
dust threshold and adds up the others. -/
def sumFusionInputs (dustThreshold : UInt64) : List UInt64 → UInt64 → Option UInt64
  | [], inputAmount => some inputAmount
  | amount :: amounts, inputAmount =>
    if amount < dustThreshold then none
    else sumFusionInputs dustThreshold amounts (inputAmount + amount)

/-- `Currency::isFusionTransaction(inputsAmounts, outputsAmounts, size)`. -/
def isFusionTransaction (inputsAmounts outputsAmounts : List UInt64) (size : ℕ) : Bool :=
  if size > c.fusionTxMaxSize then false
  else if inputsAmounts.length < c.fusionTxMinInputCount then false
  else if inputsAmounts.length < outputsAmounts.length * c.fusionTxMinInOutCountRatio then false
  else
    match sumFusionInputs c.defaultDustThreshold inputsAmounts 0 with
    | none => false
    | some inputAmount =>
      (decomposeAmount inputAmount c.defaultDustThreshold).insertionSort (· ≤ ·) == outputsAmounts

/-- `Currency::isAmountApplicableInFusionTransactionInput(amount, threshold, amountPowerOfTen,
height)`: the power of ten written to `amountPowerOfTen` when it returns true. -/
def isAmountApplicableInFusionTransactionInput (amount threshold : UInt64) (height : UInt32) :
    Option UInt8 :=
  if amount ≥ threshold then none
  else if height.toUInt64 < Blockchain.UPGRADE_HEIGHT_V3 ∧ amount < c.defaultDustThreshold then none
  else
    -- `std::lower_bound`: the first pretty amount that is not below `amount`
    let it := PRETTY_AMOUNTS.findIdx fun pretty => amount ≤ pretty
    match PRETTY_AMOUNTS[it]? with
    | some pretty => if amount ≠ pretty then none else some (it / 9).toUInt8
    | none => none

/-- `Currency::getApproximateMaximumInputCount(transactionSize, outputCount, mixinCount)`, in
`size_t`: the room left by the header and the outputs, divided by the size of one input with
its ring. -/
def getApproximateMaximumInputCount (transactionSize outputCount mixinCount : UInt64) : UInt64 :=
  let KEY_IMAGE_SIZE : UInt64 := 32
  let OUTPUT_KEY_SIZE : UInt64 := 32
  let AMOUNT_SIZE : UInt64 := 8 + 2
  let GLOBAL_INDEXES_VECTOR_SIZE_SIZE : UInt64 := 1
  let GLOBAL_INDEXES_INITIAL_VALUE_SIZE : UInt64 := 4
  let GLOBAL_INDEXES_DIFFERENCE_SIZE : UInt64 := 4
  let SIGNATURE_SIZE : UInt64 := 64
  let EXTRA_TAG_SIZE : UInt64 := 1
  let INPUT_TAG_SIZE : UInt64 := 1
  let OUTPUT_TAG_SIZE : UInt64 := 1
  let PUBLIC_KEY_SIZE : UInt64 := 32
  let TRANSACTION_VERSION_SIZE : UInt64 := 1
  let TRANSACTION_UNLOCK_TIME_SIZE : UInt64 := 8
  let outputsSize := outputCount * (OUTPUT_TAG_SIZE + OUTPUT_KEY_SIZE + AMOUNT_SIZE)
  let headerSize :=
    TRANSACTION_VERSION_SIZE + TRANSACTION_UNLOCK_TIME_SIZE + EXTRA_TAG_SIZE + PUBLIC_KEY_SIZE
  let inputSize := INPUT_TAG_SIZE + AMOUNT_SIZE + KEY_IMAGE_SIZE + SIGNATURE_SIZE +
    GLOBAL_INDEXES_VECTOR_SIZE_SIZE + GLOBAL_INDEXES_INITIAL_VALUE_SIZE +
    mixinCount * (GLOBAL_INDEXES_DIFFERENCE_SIZE + SIGNATURE_SIZE)
  (transactionSize - headerSize - outputsSize) / inputSize

-- a fusion transaction of eight outputs without decoys has room for 432 inputs
example : getApproximateMaximumInputCount (UInt64.ofNat mainnet.fusionTxMaxSize) 8 0 = 432 := by
  decide +kernel

/-! ## The node's test -/

/-- The loop stops at an amount below the dust threshold; otherwise it adds up all of them. -/
theorem sumFusionInputs_eq (dustThreshold : UInt64) :
    ∀ (amounts : List UInt64) (inputAmount : UInt64),
      sumFusionInputs dustThreshold amounts inputAmount =
        if ∀ amount ∈ amounts, dustThreshold ≤ amount then
          some (amounts.foldl (· + ·) inputAmount)
        else none
  | [], inputAmount => by simp [sumFusionInputs]
  | amount :: amounts, inputAmount => by
    rw [sumFusionInputs, sumFusionInputs_eq dustThreshold amounts]
    by_cases hlow : amount < dustThreshold
    · have : ¬∀ a ∈ amount :: amounts, dustThreshold ≤ a :=
        fun hall => UInt64.not_le.mpr hlow (hall amount List.mem_cons_self)
      rw [if_pos hlow, if_neg this]
    · have hle : dustThreshold ≤ amount := UInt64.not_lt.mp hlow
      simp only [if_neg hlow, List.forall_mem_cons, hle, true_and, List.foldl_cons]

variable {c}

/-- **What the node's test checks**: the size, the input count, the ratio of inputs to
outputs, no input below the dust threshold, and the outputs the sorted decomposition of the
sum. -/
theorem isFusionTransaction_eq_true {inputsAmounts outputsAmounts : List UInt64} {size : ℕ} :
    c.isFusionTransaction inputsAmounts outputsAmounts size = true ↔
      size ≤ c.fusionTxMaxSize ∧ c.fusionTxMinInputCount ≤ inputsAmounts.length ∧
        outputsAmounts.length * c.fusionTxMinInOutCountRatio ≤ inputsAmounts.length ∧
        (∀ amount ∈ inputsAmounts, c.defaultDustThreshold ≤ amount) ∧
        (decomposeAmount (inputsAmounts.foldl (· + ·) 0) c.defaultDustThreshold).insertionSort
          (· ≤ ·) = outputsAmounts := by
  unfold isFusionTransaction
  rw [sumFusionInputs_eq]
  by_cases hsize : size > c.fusionTxMaxSize
  · simp only [if_pos hsize, Bool.false_eq_true, false_iff]
    rintro ⟨hle, -⟩
    omega
  by_cases hcount : inputsAmounts.length < c.fusionTxMinInputCount
  · simp only [if_neg hsize, if_pos hcount, Bool.false_eq_true, false_iff]
    rintro ⟨-, hle, -⟩
    omega
  by_cases hratio : inputsAmounts.length < outputsAmounts.length * c.fusionTxMinInOutCountRatio
  · simp only [if_neg hsize, if_neg hcount, if_pos hratio, Bool.false_eq_true, false_iff]
    rintro ⟨-, -, hle, -⟩
    omega
  simp only [if_neg hsize, if_neg hcount, if_neg hratio]
  by_cases hdust : ∀ amount ∈ inputsAmounts, c.defaultDustThreshold ≤ amount
  · simp only [if_pos hdust, beq_iff_eq]
    constructor
    · intro heq
      exact ⟨by omega, by omega, by omega, hdust, heq⟩
    · rintro ⟨-, -, -, -, heq⟩
      exact heq
  · simp only [if_neg hdust, Bool.false_eq_true, false_iff]
    rintro ⟨-, -, -, hall, -⟩
    exact hdust hall

/-! ## The wallet's test -/

/-- **What makes an amount applicable**: it is below the threshold, not below the dust threshold
before `UPGRADE_HEIGHT_V3`, and a pretty amount. -/
theorem isAmountApplicableInFusionTransactionInput_eq_some {amount threshold : UInt64}
    {height : UInt32} {powerOfTen : UInt8}
    (h : c.isAmountApplicableInFusionTransactionInput amount threshold height = some powerOfTen) :
    amount < threshold ∧ (height.toUInt64 < Blockchain.UPGRADE_HEIGHT_V3 → c.defaultDustThreshold ≤ amount) ∧
      amount ∈ PRETTY_AMOUNTS := by
  unfold isAmountApplicableInFusionTransactionInput at h
  by_cases hthreshold : amount ≥ threshold
  · rw [if_pos hthreshold] at h
    cases h
  rw [if_neg hthreshold] at h
  by_cases hdust : height.toUInt64 < Blockchain.UPGRADE_HEIGHT_V3 ∧ amount < c.defaultDustThreshold
  · rw [if_pos hdust] at h
    cases h
  rw [if_neg hdust] at h
  refine ⟨UInt64.not_le.mp hthreshold, fun hheight => UInt64.not_lt.mp fun hlt => hdust ⟨hheight, hlt⟩,
    ?_⟩
  -- the lower bound found the amount itself
  cases hpretty : PRETTY_AMOUNTS[PRETTY_AMOUNTS.findIdx fun pretty => amount ≤ pretty]? with
  | none => simp [hpretty] at h
  | some pretty =>
    simp only [hpretty] at h
    by_cases hne : amount ≠ pretty
    · rw [if_pos hne] at h
      cases h
    · rw [not_not.mp hne]
      exact List.mem_of_getElem? hpretty

end Currency

/-! ## Pretty amounts -/

/-- A pretty amount is a digit from 1 to 9 times `10 ^ k` for some `k ≤ 18`, or `10 ^ 19`. -/
theorem toNat_of_mem_PRETTY_AMOUNTS {amount : UInt64} (h : amount ∈ PRETTY_AMOUNTS) :
    (∃ k d, k ≤ 18 ∧ 1 ≤ d ∧ d ≤ 9 ∧ amount.toNat = d * 10 ^ k) ∨ amount.toNat = 10 ^ 19 := by
  simp only [PRETTY_AMOUNTS, List.mem_append, List.mem_flatMap, List.mem_range, List.mem_map,
    List.mem_singleton] at h
  rcases h with ⟨k, hk, d, hd, rfl⟩ | rfl
  · -- `(d + 1) · 10 ^ k ≤ 9 · 10 ^ 18` does not wrap
    have hfit : (d + 1) * 10 ^ k < 2 ^ 64 :=
      calc (d + 1) * 10 ^ k ≤ 9 * 10 ^ 18 :=
            Nat.mul_le_mul (by omega) (Nat.pow_le_pow_right (by decide) (by omega))
        _ < 2 ^ 64 := by decide
    exact .inl ⟨k, d + 1, by omega, by omega, by omega, UInt64.toNat_ofNat_of_lt' hfit⟩
  · exact .inr rfl

/-- **A pretty amount in the decade `[10 ^ k, 10 ^ (k + 1))`**, or in `[10 ^ 19, 2 ^ 64)` for
`k = 19`, is a digit from 1 to 9 times `10 ^ k`. -/
theorem eq_digit_mul_pow_of_mem_PRETTY_AMOUNTS {amount : UInt64} {k : ℕ}
    (h : amount ∈ PRETTY_AMOUNTS) (hlow : 10 ^ k ≤ amount.toNat)
    (hhigh : k = 19 ∨ amount.toNat < 10 ^ (k + 1)) :
    ∃ d, 1 ≤ d ∧ d ≤ 9 ∧ amount.toNat = d * 10 ^ k := by
  rcases toNat_of_mem_PRETTY_AMOUNTS h with ⟨j, d, hj, hd, hd', hamount⟩ | hamount
  · -- the decade of `d · 10 ^ j` is that of `j`, and `10 ^ 19` is above all of them
    have hjk : j = k := by
      rcases hhigh with rfl | hhigh
      · have : d * 10 ^ j < 10 ^ 19 :=
          calc d * 10 ^ j < 10 * 10 ^ j := Nat.mul_lt_mul_of_pos_right (by omega) (Nat.pow_pos (by decide))
            _ = 10 ^ (j + 1) := by rw [Nat.pow_succ, Nat.mul_comm]
            _ ≤ 10 ^ 19 := Nat.pow_le_pow_right (by decide) (by omega)
        omega
      · exact Nat.eq_of_digit_mul_pow_mem_decade (by omega) (by omega) (hamount ▸ hlow)
          (hamount ▸ hhigh)
    exact ⟨d, hd, hd', hjk ▸ hamount⟩
  · -- `10 ^ 19` lies in the decade of `19` only
    have hk : k = 19 := by
      rcases hhigh with hk | hhigh
      · exact hk
      · exact (Nat.eq_of_digit_mul_pow_mem_decade (b := 10) (d := 1) (by decide) (by decide)
          (by omega) (by omega)).symm
    exact ⟨1, le_rfl, by decide, by rw [hamount, hk, Nat.one_mul]⟩

/-! ## The ratio of inputs to outputs -/

/-- Amounts that are each a digit from 1 to 9 times `10 ^ k` add up to `10 ^ k · s` with
`n ≤ s ≤ 9 n`. -/
theorem sum_of_decade {amounts : List ℕ} {k : ℕ}
    (h : ∀ a ∈ amounts, ∃ d, 1 ≤ d ∧ d ≤ 9 ∧ a = d * 10 ^ k) :
    ∃ s, amounts.sum = 10 ^ k * s ∧ amounts.length ≤ s ∧ s ≤ 9 * amounts.length := by
  induction amounts with
  | nil => exact ⟨0, by simp, le_rfl, by simp⟩
  | cons a amounts ih =>
    obtain ⟨d, hd, hd', rfl⟩ := h a List.mem_cons_self
    obtain ⟨s, hs, hlow, hhigh⟩ := ih fun a ha => h a (List.mem_cons_of_mem _ ha)
    refine ⟨d + s, ?_, ?_, ?_⟩
    · rw [List.sum_cons, hs, Nat.mul_add, Nat.mul_comm d]
    · rw [List.length_cons]
      omega
    · rw [List.length_cons]
      omega

/-- There are at most as many digit chunks as nonzero digits. -/
theorem length_digitChunks_le (amount order : UInt64)
    (hfit : amount.toNat * order.toNat < 2 ^ 64) :
    (digitChunks amount order).length ≤ ((Nat.digits 10 amount.toNat).filter (· ≠ 0)).length := by
  by_cases hamount : amount = 0
  · subst hamount
    simp
  have hpos : 0 < amount.toNat := Nat.pos_of_ne_zero (toNat_ne_zero_of_ne hamount)
  -- the lowest digit gives a chunk only when it is not zero
  have hlow : (if amount % 10 * order = 0 then [] else [amount % 10 * order]).length ≤
      ([amount.toNat % 10].filter (· ≠ 0)).length := by
    split
    · exact Nat.zero_le _
    · rename_i hne
      have hdigit : amount.toNat % 10 ≠ 0 := fun h0 =>
        hne (UInt64.toNat_inj.mp (by rw [toNat_chunk hfit, h0, Nat.zero_mul]; rfl))
      simp [hdigit]
  have hrest := length_digitChunks_le (amount / 10) (order * 10) (next_mul_lt hfit)
  rw [UInt64.toNat_div, show (10 : UInt64).toNat = 10 from rfl] at hrest
  have hdigits : ((Nat.digits 10 amount.toNat).filter (· ≠ 0)).length =
      ([amount.toNat % 10].filter (· ≠ 0)).length +
        ((Nat.digits 10 (amount.toNat / 10)).filter (· ≠ 0)).length := by
    rw [Nat.digits_def' (by decide) hpos, ← List.length_append, ← List.filter_append,
      List.singleton_append]
  rw [digitChunks_of_ne_zero hamount, List.length_append, hdigits]
  omega
termination_by amount.toNat
decreasing_by
  rw [UInt64.toNat_div, show (10 : UInt64).toNat = 10 from rfl]
  have := toNat_ne_zero_of_ne hamount
  omega

/-- From twelve on, `9 n` has at most `n / 4` digits. -/
theorem nine_mul_lt_ten_pow_div_four {n : ℕ} (hn : 12 ≤ n) : 9 * n < 10 ^ (n / 4) := by
  -- with `q = n / 4 ≥ 3`: `9 n < 36 (q + 1) ≤ 10 ^ q`
  have hgrow : ∀ q, 3 ≤ q → 36 * (q + 1) ≤ 10 ^ q := by
    intro q hq
    induction q, hq using Nat.le_induction with
    | base => decide
    | succ q _ ih =>
      calc 36 * (q + 1 + 1) ≤ 10 * (36 * (q + 1)) := by omega
        _ ≤ 10 * 10 ^ q := Nat.mul_le_mul_left 10 ih
        _ = 10 ^ (q + 1) := by rw [Nat.pow_succ, Nat.mul_comm]
  calc 9 * n < 36 * (n / 4 + 1) := by omega
    _ ≤ 10 ^ (n / 4) := hgrow (n / 4) (by omega)

/-- **The ratio holds for one decade**: at least twelve amounts of one decade whose sum does not
wrap decompose into at most a quarter as many amounts. -/
theorem length_decomposeAmount_mul_four_le {amounts : List UInt64} {k : ℕ}
    (hdecade : ∀ amount ∈ amounts, ∃ d, 1 ≤ d ∧ d ≤ 9 ∧ amount.toNat = d * 10 ^ k)
    (hfit : (amounts.map UInt64.toNat).sum < 2 ^ 64) (hcount : 12 ≤ amounts.length) :
    (decomposeAmount (amounts.foldl (· + ·) 0) 0).length * 4 ≤ amounts.length := by
  have hdecade' : ∀ a ∈ amounts.map UInt64.toNat, ∃ d, 1 ≤ d ∧ d ≤ 9 ∧ a = d * 10 ^ k := by
    simpa using hdecade
  obtain ⟨s, hs, hlow, hhigh⟩ := sum_of_decade hdecade'
  rw [List.length_map] at hlow hhigh
  have hsum : (amounts.foldl (· + ·) 0).toNat = 10 ^ k * s := by
    have := toNat_foldl_add (fun amount => amount) 0 amounts (by simpa using hfit)
    simpa [hs] using this
  -- the sum's nonzero digits are those of `s`, which has at most `n / 4` digits
  have hdigits : (Nat.digits 10 s).length ≤ amounts.length / 4 :=
    (Nat.digits_length_le_iff (by decide) s).mpr
      (Nat.lt_of_le_of_lt hhigh (nine_mul_lt_ten_pow_div_four hcount))
  have hchunks := length_digitChunks_le (amounts.foldl (· + ·) 0) 1
    (by simpa using (amounts.foldl (· + ·) 0).toNat_lt)
  rw [hsum, Nat.filter_digits_base_pow_mul (by decide) (by omega)] at hchunks
  have hle : (decomposeAmount (amounts.foldl (· + ·) 0) 0).length ≤ amounts.length / 4 :=
    calc (decomposeAmount (amounts.foldl (· + ·) 0) 0).length
        = (digitChunks (amounts.foldl (· + ·) 0) 1).length := by rw [decomposeAmount_zero]
      _ ≤ ((Nat.digits 10 s).filter (· ≠ 0)).length := hchunks
      _ ≤ (Nat.digits 10 s).length := List.length_filter_le _ _
      _ ≤ amounts.length / 4 := hdigits
  omega

namespace Currency

/-- **The node's verdict on one-decade inputs**: on the main network, at least twelve inputs of
one decade whose sum does not wrap, with the sorted decomposition of that sum as outputs and
data within `fusionTxMaxSize`, are a fusion transaction exactly when no input is below the dust
threshold. -/
theorem isFusionTransaction_mainnet_iff_of_decade {inputsAmounts : List UInt64} {k size : ℕ}
    (hdecade : ∀ amount ∈ inputsAmounts, ∃ d, 1 ≤ d ∧ d ≤ 9 ∧ amount.toNat = d * 10 ^ k)
    (hfit : (inputsAmounts.map UInt64.toNat).sum < 2 ^ 64)
    (hcount : mainnet.fusionTxMinInputCount ≤ inputsAmounts.length)
    (hsize : size ≤ mainnet.fusionTxMaxSize) :
    mainnet.isFusionTransaction inputsAmounts
        ((decomposeAmount (inputsAmounts.foldl (· + ·) 0) 0).insertionSort (· ≤ ·)) size = true ↔
      ∀ amount ∈ inputsAmounts, mainnet.defaultDustThreshold ≤ amount := by
  rw [isFusionTransaction_eq_true]
  constructor
  · rintro ⟨-, -, -, hdust, -⟩
    exact hdust
  · intro hdust
    refine ⟨hsize, hcount, ?_, hdust, ?_⟩
    · rw [List.length_insertionSort]
      exact length_decomposeAmount_mul_four_le hdecade hfit hcount
    · -- the node decomposes with its dust threshold ten, the wallet with zero: the same chunks
      show (decomposeAmount _ 10).insertionSort _ = _
      rw [decomposeAmount_ten, decomposeAmount_zero]

end Currency

end UltraNoteCore
