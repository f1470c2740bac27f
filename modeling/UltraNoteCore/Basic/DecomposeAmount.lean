import Mathlib.Data.List.Basic
import Mathlib.Tactic.Ring

/-!
# Decomposing an amount into digits

`decompose_amount_into_digits` (`CryptoNoteFormatUtils.h`) cuts an amount into its decimal
digits, each times its power of ten, from the lowest up. The low chunks that together stay
within the dust threshold go to the dust callback as one sum, once, before the first chunk that
does not fit; every later nonzero chunk goes to the chunk callback. `decomposeAmount`
(`CryptoNoteTools.cpp`) collects both in one vector.

The callbacks are functions whose results are collected in call order. Amounts are `uint64_t`,
so the chunk, the running dust and the power of ten are `UInt64`; none of them wraps on the
paths the results below follow, and the lemmas that say so carry the bound they need.

## Main definitions

* `decompose_amount_into_digits`, its loop `decomposeLoop`, and `decomposeAmount`
* `digitChunks`: the nonzero digits of an amount, each times its power of ten

## Main results

* `decomposeLoop_of_lt`: once the dust and the next power of ten exceed the threshold, the loop
  hands over the pending dust and then every nonzero digit chunk
* `decomposeAmount_zero`, `decomposeAmount_ten`: with threshold 0 and with threshold 10 the
  amounts are the nonzero digit chunks, lowest first
* `sum_digitChunks`: the chunks add up to the amount
* `decompose_amount_into_digits_shape`: for every threshold, the dust once and below every
  chunk, the chunks digits times powers of ten, all adding up to the amount
-/

namespace UltraNoteCore

section Decompose

variable {α : Type} (dust_threshold : UInt64) (chunk_handler dust_handler : UInt64 → α)

/-- The call of the dust callback that ends the loop or comes before the first chunk that does
not fit: made once, and only for a dust that is not zero. -/
def pendingDust (is_dust_handled : Bool) (dust : UInt64) : List α :=
  if !is_dust_handled && dust ≠ 0 then [dust_handler dust] else []

/-- The `while (0 != amount)` loop of `decompose_amount_into_digits` and the test after it;
`handled` holds what the callbacks were given so far. -/
def decomposeLoop (amount dust order : UInt64) (is_dust_handled : Bool) (handled : List α) :
    List α :=
  if amount = 0 then handled ++ pendingDust dust_handler is_dust_handled dust
  else
    let chunk := amount % 10 * order
    if dust + chunk ≤ dust_threshold then
      decomposeLoop (amount / 10) (dust + chunk) (order * 10) is_dust_handled handled
    else
      decomposeLoop (amount / 10) dust (order * 10) (is_dust_handled || dust ≠ 0)
        (handled ++ pendingDust dust_handler is_dust_handled dust ++
          if chunk ≠ 0 then [chunk_handler chunk] else [])
termination_by amount.toNat
decreasing_by
  all_goals
    rw [UInt64.toNat_div, show (10 : UInt64).toNat = 10 from rfl]
    have : amount.toNat ≠ 0 := fun h => by simp_all [← UInt64.toNat_inj]
    omega

/-- `decompose_amount_into_digits(amount, dust_threshold, chunk_handler, dust_handler)`. -/
def decompose_amount_into_digits (amount : UInt64) : List α :=
  if amount = 0 then []
  else decomposeLoop dust_threshold chunk_handler dust_handler amount 0 1 false []

end Decompose

/-- `decomposeAmount`: both callbacks push onto one vector. -/
def decomposeAmount (amount dustThreshold : UInt64) : List UInt64 :=
  decompose_amount_into_digits dustThreshold id id amount

/-- The nonzero decimal digits of `amount`, lowest first, each times its power of ten counted
from `order`. -/
def digitChunks (amount order : UInt64) : List UInt64 :=
  if amount = 0 then []
  else (if amount % 10 * order = 0 then [] else [amount % 10 * order]) ++
    digitChunks (amount / 10) (order * 10)
termination_by amount.toNat
decreasing_by
  rw [UInt64.toNat_div, show (10 : UInt64).toNat = 10 from rfl]
  have : amount.toNat ≠ 0 := fun h => by simp_all [← UInt64.toNat_inj]
  omega

section Steps

variable {α : Type} {dust_threshold : UInt64} {chunk_handler dust_handler : UInt64 → α}
  {amount dust order : UInt64} {is_dust_handled : Bool} {handled : List α}

@[simp] theorem decomposeLoop_zero :
    decomposeLoop dust_threshold chunk_handler dust_handler 0 dust order is_dust_handled handled =
      handled ++ pendingDust dust_handler is_dust_handled dust := by
  rw [decomposeLoop, if_pos rfl]

/-- A chunk that fits is added to the dust. -/
theorem decomposeLoop_of_fits (hamount : amount ≠ 0)
    (hfits : dust + amount % 10 * order ≤ dust_threshold) :
    decomposeLoop dust_threshold chunk_handler dust_handler amount dust order is_dust_handled
        handled =
      decomposeLoop dust_threshold chunk_handler dust_handler (amount / 10)
        (dust + amount % 10 * order) (order * 10) is_dust_handled handled := by
  rw [decomposeLoop, if_neg hamount, if_pos hfits]

/-- A chunk that does not fit hands over the pending dust, then itself when it is not zero. -/
theorem decomposeLoop_of_not_fits (hamount : amount ≠ 0)
    (hfits : ¬dust + amount % 10 * order ≤ dust_threshold) :
    decomposeLoop dust_threshold chunk_handler dust_handler amount dust order is_dust_handled
        handled =
      decomposeLoop dust_threshold chunk_handler dust_handler (amount / 10) dust (order * 10)
        (is_dust_handled || dust ≠ 0)
        (handled ++ pendingDust dust_handler is_dust_handled dust ++
          if amount % 10 * order ≠ 0 then [chunk_handler (amount % 10 * order)] else []) := by
  rw [decomposeLoop, if_neg hamount, if_neg hfits]

@[simp] theorem digitChunks_zero : digitChunks 0 order = [] := by
  rw [digitChunks, if_pos rfl]

theorem digitChunks_of_ne_zero (hamount : amount ≠ 0) :
    digitChunks amount order =
      (if amount % 10 * order = 0 then [] else [amount % 10 * order]) ++
        digitChunks (amount / 10) (order * 10) := by
  rw [digitChunks, if_neg hamount]

@[simp] theorem pendingDust_true : pendingDust dust_handler true dust = [] := rfl

@[simp] theorem pendingDust_zero : pendingDust dust_handler is_dust_handled 0 = [] := by
  simp [pendingDust]

theorem pendingDust_of_handled (hdust : dust ≠ 0) :
    pendingDust dust_handler (is_dust_handled || dust ≠ 0) dust = [] := by
  simp [pendingDust, hdust]

end Steps

/-! ## Arithmetic of one digit

While `amount · order` fits in a word, so does the chunk of the lowest digit and the next power
of ten; a dust of at most `10 ^ 18` and a chunk at a power of ten add without wrapping. -/

section Arithmetic

variable {amount order : UInt64}

theorem toNat_ne_zero_of_ne {a : UInt64} (h : a ≠ 0) : a.toNat ≠ 0 :=
  fun h0 => h (UInt64.toNat_inj.mp (by rw [h0]; rfl))

theorem toNat_chunk (hfit : amount.toNat * order.toNat < 2 ^ 64) :
    (amount % 10 * order).toNat = amount.toNat % 10 * order.toNat := by
  have hle : amount.toNat % 10 * order.toNat ≤ amount.toNat * order.toNat :=
    Nat.mul_le_mul_right _ (Nat.mod_le _ _)
  rw [UInt64.toNat_mul, UInt64.toNat_mod, show (10 : UInt64).toNat = 10 from rfl,
    Nat.mod_eq_of_lt (by omega)]

theorem toNat_order_mul_ten (hfit : amount.toNat * order.toNat < 2 ^ 64)
    (hnext : amount / 10 ≠ 0) : (order * 10).toNat = order.toNat * 10 := by
  have hpos : 1 ≤ amount.toNat / 10 := by
    have := toNat_ne_zero_of_ne hnext
    rw [UInt64.toNat_div, show (10 : UInt64).toNat = 10 from rfl] at this
    omega
  have hle : order.toNat * 10 ≤ amount.toNat * order.toNat :=
    calc order.toNat * 10 ≤ order.toNat * (amount.toNat / 10 * 10) :=
          Nat.mul_le_mul_left _ (by omega)
      _ ≤ order.toNat * amount.toNat := Nat.mul_le_mul_left _ (Nat.div_mul_le_self _ _)
      _ = amount.toNat * order.toNat := Nat.mul_comm _ _
  rw [UInt64.toNat_mul, show (10 : UInt64).toNat = 10 from rfl, Nat.mod_eq_of_lt (by omega)]

theorem next_mul_lt (hfit : amount.toNat * order.toNat < 2 ^ 64) :
    (amount / 10).toNat * (order * 10).toNat < 2 ^ 64 := by
  by_cases hnext : amount / 10 = 0
  · rw [hnext]
    exact Nat.zero_mul _ ▸ Nat.two_pow_pos 64
  · rw [toNat_order_mul_ten hfit hnext, UInt64.toNat_div, show (10 : UInt64).toNat = 10 from rfl]
    calc amount.toNat / 10 * (order.toNat * 10) = amount.toNat / 10 * 10 * order.toNat := by
          rw [Nat.mul_comm order.toNat, Nat.mul_assoc]
      _ ≤ amount.toNat * order.toNat := Nat.mul_le_mul_right _ (Nat.div_mul_le_self _ _)
      _ < 2 ^ 64 := hfit

/-- The chunk of the lowest digit and the rest at the next power of ten make up
`amount · order`. -/
theorem chunk_add_next_mul (hfit : amount.toNat * order.toNat < 2 ^ 64) :
    amount.toNat % 10 * order.toNat + (amount / 10).toNat * (order * 10).toNat =
      amount.toNat * order.toNat := by
  by_cases hnext : amount / 10 = 0
  · have h := congrArg UInt64.toNat hnext
    rw [UInt64.toNat_div, show (10 : UInt64).toNat = 10 from rfl] at h
    rw [hnext, UInt64.toNat_zero, Nat.zero_mul, Nat.add_zero, Nat.mod_eq_of_lt (by
      change amount.toNat / 10 = 0 at h
      omega)]
  · rw [toNat_order_mul_ten hfit hnext, UInt64.toNat_div, show (10 : UInt64).toNat = 10 from rfl]
    calc amount.toNat % 10 * order.toNat + amount.toNat / 10 * (order.toNat * 10)
        = (amount.toNat % 10 + 10 * (amount.toNat / 10)) * order.toNat := by ring
      _ = amount.toNat * order.toNat := by rw [Nat.mod_add_div]

/-- A word holds at most one chunk from `10 ^ 19` up, and that one is `10 ^ 19`. -/
theorem dust_add_chunk_lt {a k d : ℕ} (hfit : a * 10 ^ k < 2 ^ 64) (hd : d ≤ 10 ^ 18) :
    d + a % 10 * 10 ^ k < 2 ^ 64 := by
  rcases Nat.lt_or_ge k 19 with hk | hk
  · have hpow : 10 ^ k ≤ 10 ^ 18 := Nat.pow_le_pow_right (by omega) (by omega)
    have : a % 10 * 10 ^ k ≤ 9 * 10 ^ 18 := Nat.mul_le_mul (by omega) hpow
    omega
  · have h19 : 10 ^ 19 ≤ 10 ^ k := Nat.pow_le_pow_right (by omega) hk
    -- two chunks from `10 ^ 19` up do not fit
    have ha : a ≤ 1 := by
      by_contra hcon
      have : 2 * 10 ^ 19 ≤ a * 10 ^ k := Nat.mul_le_mul (by omega) h19
      omega
    have hchunk : a % 10 * 10 ^ k ≤ a * 10 ^ k := Nat.mul_le_mul_right _ (Nat.mod_le _ _)
    rcases Nat.lt_or_ge k 20 with hk20 | hk20
    · have hk19 : k = 19 := by omega
      subst hk19
      have : a * 10 ^ 19 ≤ 1 * 10 ^ 19 := Nat.mul_le_mul_right _ ha
      omega
    · have h20 : 10 ^ 20 ≤ 10 ^ k := Nat.pow_le_pow_right (by omega) hk20
      have : a = 0 := by
        by_contra hcon
        have : 10 ^ 20 ≤ a * 10 ^ k := Nat.le_trans h20 (Nat.le_mul_of_pos_left _ (by omega))
        omega
      subst this
      omega

end Arithmetic

/-! ## The loop once no nonzero digit fits -/

section Tail

variable {α : Type} {chunk_handler dust_handler : UInt64 → α}

/-- Once the dust and the current power of ten exceed the threshold, no nonzero chunk fits any
more: the loop hands over the pending dust and then every nonzero digit chunk in order. -/
theorem decomposeLoop_of_lt (dust_threshold : UInt64) (hthreshold : dust_threshold.toNat ≤ 10 ^ 18)
    (amount dust order : UInt64) (is_dust_handled : Bool) (handled : List α) (k : ℕ)
    (hfit : amount.toNat * order.toNat < 2 ^ 64) (horder : amount ≠ 0 → order.toNat = 10 ^ k)
    (hdust : dust ≤ dust_threshold)
    (hlt : amount ≠ 0 → dust_threshold.toNat < dust.toNat + order.toNat) :
    decomposeLoop dust_threshold chunk_handler dust_handler amount dust order is_dust_handled
        handled =
      handled ++ pendingDust dust_handler is_dust_handled dust ++
        (digitChunks amount order).map chunk_handler := by
  by_cases hamount : amount = 0
  · subst hamount
    simp
  have hk := horder hamount
  have hdust' : dust.toNat ≤ dust_threshold.toNat := UInt64.le_iff_toNat_le.mp hdust
  have hchunk := toNat_chunk hfit
  -- the dust plus the chunk does not wrap
  have hsum : (dust + amount % 10 * order).toNat =
      dust.toNat + amount.toNat % 10 * order.toNat := by
    rw [UInt64.toNat_add, hchunk, Nat.mod_eq_of_lt]
    rw [hk] at hfit ⊢
    exact dust_add_chunk_lt hfit (Nat.le_trans hdust' hthreshold)
  -- what the recursive call needs, at the next power of ten
  have hnextorder : amount / 10 ≠ 0 → (order * 10).toNat = 10 ^ (k + 1) := fun hnext => by
    rw [toNat_order_mul_ten hfit hnext, hk, Nat.pow_succ]
  have hnextlt : amount / 10 ≠ 0 → dust_threshold.toNat < dust.toNat + (order * 10).toNat :=
    fun hnext => by
      have := hlt hamount
      rw [toNat_order_mul_ten hfit hnext]
      omega
  rw [digitChunks_of_ne_zero hamount]
  by_cases hfits : dust + amount % 10 * order ≤ dust_threshold
  · -- only a zero chunk fits: a nonzero one is at least `order`
    have hzero : amount % 10 * order = 0 := by
      by_contra hne
      have hdigit : 1 ≤ amount.toNat % 10 := by
        by_contra h0
        have hdigit0 : amount.toNat % 10 = 0 := by omega
        exact hne (UInt64.toNat_inj.mp (by simp [hchunk, hdigit0]))
      have hle := UInt64.le_iff_toNat_le.mp hfits
      have hge : order.toNat ≤ amount.toNat % 10 * order.toNat := Nat.le_mul_of_pos_left _ hdigit
      have := hlt hamount
      omega
    rw [decomposeLoop_of_fits hamount hfits, hzero, UInt64.add_zero, if_pos rfl, List.nil_append,
      decomposeLoop_of_lt dust_threshold hthreshold (amount / 10) dust (order * 10) is_dust_handled
        handled (k + 1)
        (next_mul_lt hfit) hnextorder hdust hnextlt]
  · have hne : amount % 10 * order ≠ 0 := fun h0 => hfits (by rw [h0, UInt64.add_zero]; exact hdust)
    rw [decomposeLoop_of_not_fits hamount hfits, if_pos hne, if_neg hne,
      decomposeLoop_of_lt dust_threshold hthreshold (amount / 10) dust (order * 10) _ _ (k + 1)
        (next_mul_lt hfit) hnextorder hdust hnextlt]
    -- the dust was handed over here, if there was any
    by_cases hd : dust = 0
    · subst hd
      simp
    · rw [pendingDust_of_handled hd]
      simp
termination_by amount.toNat
decreasing_by
  all_goals
    rw [UInt64.toNat_div, show (10 : UInt64).toNat = 10 from rfl]
    have := toNat_ne_zero_of_ne hamount
    omega

end Tail

/-! ## Every threshold

The dust is the sum of the chunks below the first chunk that does not fit, so it stays below
the power of ten of that chunk, and a later nonzero chunk is at least that power: once one chunk
does not fit, none does again. The dust and what is left of the amount, at its power of ten,
always add up to the amount, so no sum wraps. -/

section Spec

variable {α : Type} {chunk_handler dust_handler : UInt64 → α}

/-- The loop once a chunk has not fitted, for every threshold: the pending dust, then every
nonzero digit chunk. -/
theorem decomposeLoop_tail (dust_threshold : UInt64) (amount dust order : UInt64)
    (is_dust_handled : Bool) (handled : List α)
    (hfit : dust.toNat + amount.toNat * order.toNat < 2 ^ 64) (hdust : dust ≤ dust_threshold)
    (hlt : amount ≠ 0 → dust_threshold.toNat < dust.toNat + order.toNat) :
    decomposeLoop dust_threshold chunk_handler dust_handler amount dust order is_dust_handled
        handled =
      handled ++ pendingDust dust_handler is_dust_handled dust ++
        (digitChunks amount order).map chunk_handler := by
  by_cases hamount : amount = 0
  · subst hamount
    simp
  have hfit' : amount.toNat * order.toNat < 2 ^ 64 := by omega
  have hchunk := toNat_chunk hfit'
  have hnext := chunk_add_next_mul hfit'
  have hnextfit : dust.toNat + (amount / 10).toNat * (order * 10).toNat < 2 ^ 64 := by omega
  have hnextlt : amount / 10 ≠ 0 → dust_threshold.toNat < dust.toNat + (order * 10).toNat :=
    fun hnext' => by
      have := hlt hamount
      rw [toNat_order_mul_ten hfit' hnext']
      omega
  rw [digitChunks_of_ne_zero hamount]
  by_cases hfits : dust + amount % 10 * order ≤ dust_threshold
  · -- only a zero chunk fits: a nonzero one is at least `order`
    have hsum : (dust + amount % 10 * order).toNat =
        dust.toNat + amount.toNat % 10 * order.toNat := by
      rw [UInt64.toNat_add, hchunk, Nat.mod_eq_of_lt (by omega)]
    have hzero : amount % 10 * order = 0 := by
      by_contra hne
      have hdigit : 1 ≤ amount.toNat % 10 := by
        by_contra h0
        have hdigit0 : amount.toNat % 10 = 0 := by omega
        exact hne (UInt64.toNat_inj.mp (by simp [hchunk, hdigit0]))
      have hle := UInt64.le_iff_toNat_le.mp hfits
      have hge : order.toNat ≤ amount.toNat % 10 * order.toNat := Nat.le_mul_of_pos_left _ hdigit
      have := hlt hamount
      omega
    rw [decomposeLoop_of_fits hamount hfits, hzero, UInt64.add_zero, if_pos rfl, List.nil_append,
      decomposeLoop_tail dust_threshold (amount / 10) dust (order * 10) is_dust_handled handled
        hnextfit hdust hnextlt]
  · have hne : amount % 10 * order ≠ 0 := fun h0 => hfits (by rw [h0, UInt64.add_zero]; exact hdust)
    rw [decomposeLoop_of_not_fits hamount hfits, if_pos hne, if_neg hne,
      decomposeLoop_tail dust_threshold (amount / 10) dust (order * 10) _ _ hnextfit hdust hnextlt]
    -- the dust was handed over here, if there was any
    by_cases hd : dust = 0
    · subst hd
      simp
    · rw [pendingDust_of_handled hd]
      simp
termination_by amount.toNat
decreasing_by
  all_goals
    rw [UInt64.toNat_div, show (10 : UInt64).toNat = 10 from rfl]
    have := toNat_ne_zero_of_ne hamount
    omega

/-- The loop from its start, for every threshold: while the chunks fit they gather into the
dust; what it hands over is the dust, once and only if it is not zero, then the nonzero digit
chunks of what is left, each above the dust. -/
theorem decomposeLoop_spec (dust_threshold : UInt64) (amount dust order : UInt64) (k : ℕ)
    (hfit : dust.toNat + amount.toNat * order.toNat < 2 ^ 64) (hdust : dust ≤ dust_threshold)
    (hlow : amount ≠ 0 → dust.toNat < order.toNat ∧ order.toNat = 10 ^ k) :
    ∃ dust' amount' order' k',
      decomposeLoop dust_threshold chunk_handler dust_handler amount dust order false [] =
        pendingDust dust_handler false dust' ++ (digitChunks amount' order').map chunk_handler ∧
      dust' ≤ dust_threshold ∧
      dust'.toNat + amount'.toNat * order'.toNat = dust.toNat + amount.toNat * order.toNat ∧
      (amount' ≠ 0 → dust'.toNat < order'.toNat ∧ order'.toNat = 10 ^ k') := by
  by_cases hamount : amount = 0
  · subst hamount
    exact ⟨dust, 0, order, k, by simp, hdust, by simp, fun h => absurd rfl h⟩
  obtain ⟨hlow', hk⟩ := hlow hamount
  have hfit' : amount.toNat * order.toNat < 2 ^ 64 := by omega
  have hchunk := toNat_chunk hfit'
  have hnext := chunk_add_next_mul hfit'
  have hdigit : amount.toNat % 10 * order.toNat ≤ 9 * order.toNat :=
    Nat.mul_le_mul_right _ (by omega)
  have hsum : (dust + amount % 10 * order).toNat =
      dust.toNat + amount.toNat % 10 * order.toNat := by
    rw [UInt64.toNat_add, hchunk, Nat.mod_eq_of_lt (by omega)]
  by_cases hfits : dust + amount % 10 * order ≤ dust_threshold
  · -- the chunk joins the dust, which stays below the next power of ten
    have hlow₁ : amount / 10 ≠ 0 → (dust + amount % 10 * order).toNat < (order * 10).toNat ∧
        (order * 10).toNat = 10 ^ (k + 1) := fun hnext' => by
      rw [hsum, toNat_order_mul_ten hfit' hnext', hk, Nat.pow_succ]
      rw [hk] at hlow' hdigit
      exact ⟨by omega, rfl⟩
    obtain ⟨dust', amount', order', k', hloop, hdust', hsum', hlow'⟩ :=
      decomposeLoop_spec dust_threshold (amount / 10) (dust + amount % 10 * order) (order * 10)
        (k + 1) (by omega) hfits hlow₁
    refine ⟨dust', amount', order', k', ?_, hdust', ?_, hlow'⟩
    · rw [decomposeLoop_of_fits hamount hfits, hloop]
    · rw [hsum', hsum]
      omega
  · -- the first chunk that does not fit: from here on none does
    have hne : amount % 10 * order ≠ 0 := fun h0 => hfits (by rw [h0, UInt64.add_zero]; exact hdust)
    have hlt : amount / 10 ≠ 0 → dust_threshold.toNat < dust.toNat + (order * 10).toNat :=
      fun hnext' => by
        have hgt : dust_threshold.toNat < (dust + amount % 10 * order).toNat :=
          Nat.lt_of_not_le (fun h => hfits (UInt64.le_iff_toNat_le.mpr h))
        rw [toNat_order_mul_ten hfit' hnext']
        omega
    refine ⟨dust, amount, order, k, ?_, hdust, rfl, fun _ => ⟨hlow', hk⟩⟩
    rw [decomposeLoop_of_not_fits hamount hfits, if_pos hne,
      decomposeLoop_tail dust_threshold (amount / 10) dust (order * 10) _ _ (by omega) hdust hlt,
      digitChunks_of_ne_zero hamount, if_neg hne]
    by_cases hd : dust = 0
    · subst hd
      simp
    · rw [pendingDust_of_handled hd]
      simp
termination_by amount.toNat
decreasing_by
  rw [UInt64.toNat_div, show (10 : UInt64).toNat = 10 from rfl]
  have := toNat_ne_zero_of_ne hamount
  omega

/-- `decompose_amount_into_digits` for every amount and threshold: the dust callback gets the
dust once if it is not zero, the chunk callback the nonzero digit chunks of the rest, each above
the dust; dust and rest add up to the amount. -/
theorem decompose_amount_into_digits_spec (dust_threshold amount : UInt64) :
    ∃ dust rest order k,
      decompose_amount_into_digits dust_threshold chunk_handler dust_handler amount =
        pendingDust dust_handler false dust ++ (digitChunks rest order).map chunk_handler ∧
      dust ≤ dust_threshold ∧ dust.toNat + rest.toNat * order.toNat = amount.toNat ∧
      (rest ≠ 0 → dust.toNat < order.toNat ∧ order.toNat = 10 ^ k) := by
  unfold decompose_amount_into_digits
  split
  · rename_i hamount
    subst hamount
    exact ⟨0, 0, 1, 0, by simp, UInt64.zero_le, rfl, fun h => absurd rfl h⟩
  · obtain ⟨dust, rest, order, k, hloop, hdust, hsum, hlow⟩ :=
      decomposeLoop_spec dust_threshold amount 0 1 0 (by simpa using amount.toNat_lt)
        UInt64.zero_le (fun _ => ⟨by decide, rfl⟩)
    refine ⟨dust, rest, order, k, hloop, hdust, ?_, hlow⟩
    rw [hsum]
    simp

/-- Each digit chunk is a digit from 1 to 9 times a power of ten, at least `order`. -/
theorem mem_digitChunks {amount order c : UInt64} {k : ℕ}
    (hfit : amount.toNat * order.toNat < 2 ^ 64) (horder : amount ≠ 0 → order.toNat = 10 ^ k)
    (hc : c ∈ digitChunks amount order) :
    ∃ d i, 1 ≤ d ∧ d ≤ 9 ∧ c.toNat = d * 10 ^ (k + i) := by
  by_cases hamount : amount = 0
  · subst hamount
    simp at hc
  have hk := horder hamount
  rw [digitChunks_of_ne_zero hamount] at hc
  rcases List.mem_append.mp hc with hlow | hrest
  · -- the chunk of the lowest digit, which is not zero
    split at hlow
    · exact absurd hlow List.not_mem_nil
    · rename_i hne
      rw [List.mem_singleton.mp hlow, toNat_chunk hfit, hk]
      refine ⟨amount.toNat % 10, 0, ?_, by omega, rfl⟩
      by_contra h0
      exact hne (UInt64.toNat_inj.mp (by
        rw [toNat_chunk hfit, show amount.toNat % 10 = 0 by omega]
        simp))
  · -- a chunk of the rest, at the next power of ten
    have hnext : amount / 10 ≠ 0 := by
      rintro h0
      rw [h0, digitChunks_zero] at hrest
      exact absurd hrest List.not_mem_nil
    obtain ⟨d, i, hd, hd', hc'⟩ := mem_digitChunks (next_mul_lt hfit)
      (fun _ => by rw [toNat_order_mul_ten hfit hnext, hk, Nat.pow_succ]) hrest
    exact ⟨d, i + 1, hd, hd', by rw [hc', show k.succ + i = k + (i + 1) by omega]⟩
termination_by amount.toNat
decreasing_by
  rw [UInt64.toNat_div, show (10 : UInt64).toNat = 10 from rfl]
  have := toNat_ne_zero_of_ne hamount
  omega

end Spec

/-! ## The two thresholds the callers pass -/

section Thresholds

variable {α : Type} {chunk_handler dust_handler : UInt64 → α}

/-- With threshold zero no nonzero chunk is ever dust: every nonzero digit chunk goes to the
chunk callback, lowest first. -/
theorem decompose_amount_into_digits_zero (amount : UInt64) :
    decompose_amount_into_digits 0 chunk_handler dust_handler amount =
      (digitChunks amount 1).map chunk_handler := by
  unfold decompose_amount_into_digits
  split
  · subst amount
    simp
  · rw [decomposeLoop_of_lt 0 (Nat.zero_le _) amount 0 1 false [] 0
      (by simpa using amount.toNat_lt) (fun _ => rfl) (by decide) (fun _ => by decide)]
    simp

theorem decomposeAmount_zero (amount : UInt64) :
    decomposeAmount amount 0 = digitChunks amount 1 := by
  rw [decomposeAmount, decompose_amount_into_digits_zero, List.map_id]

/-- With threshold ten the dust is the lowest digit, or ten when the two lowest digits are
`0` and `1`: the same amounts as the digit chunks. -/
theorem decomposeAmount_ten (amount : UInt64) :
    decomposeAmount amount 10 = digitChunks amount 1 := by
  unfold decomposeAmount decompose_amount_into_digits
  split
  · subst amount
    simp
  rename_i hamount
  have hfit : amount.toNat * (1 : UInt64).toNat < 2 ^ 64 := by simpa using amount.toNat_lt
  have hlow : (amount % 10 * 1).toNat = amount.toNat % 10 := by
    rw [toNat_chunk hfit]
    exact Nat.mul_one _
  -- the lowest digit always fits
  have hfits : 0 + amount % 10 * 1 ≤ (10 : UInt64) := by
    rw [UInt64.le_iff_toNat_le, UInt64.zero_add, hlow]
    exact Nat.le_of_lt (Nat.mod_lt _ (by omega))
  have hdust : amount % 10 * 1 ≤ (10 : UInt64) := by rwa [UInt64.zero_add] at hfits
  have hfit₁ : (amount / 10).toNat * (10 : UInt64).toNat < 2 ^ 64 := next_mul_lt hfit
  rw [decomposeLoop_of_fits hamount hfits, digitChunks_of_ne_zero hamount, UInt64.zero_add,
    show (1 : UInt64) * 10 = 10 from rfl]
  by_cases hzero : amount % 10 * 1 = 0
  · -- a zero lowest digit: the second digit decides
    rw [hzero, if_pos rfl, List.nil_append]
    have hrest : amount / 10 ≠ 0 := by
      intro hnext
      have h := congrArg UInt64.toNat hnext
      rw [UInt64.toNat_div] at h
      have h0 := congrArg UInt64.toNat hzero
      rw [hlow] at h0
      have := toNat_ne_zero_of_ne hamount
      change amount.toNat / 10 = 0 at h
      change amount.toNat % 10 = 0 at h0
      omega
    have hfit₂ := next_mul_lt hfit₁
    rw [digitChunks_of_ne_zero hrest]
    by_cases hfits₁ : 0 + amount / 10 % 10 * 10 ≤ (10 : UInt64)
    · have hdust₁ : amount / 10 % 10 * 10 ≤ (10 : UInt64) := by rwa [UInt64.zero_add] at hfits₁
      rw [decomposeLoop_of_fits hrest hfits₁, UInt64.zero_add,
        decomposeLoop_of_lt 10 (by decide) _ _ (10 * 10) false [] 2 hfit₂ (fun _ => rfl) hdust₁
          (fun _ => by
            change 10 < (amount / 10 % 10 * 10).toNat + 100
            omega)]
      by_cases hsecond : amount / 10 % 10 * 10 = 0
      · simp [hsecond]
      · simp [pendingDust, hsecond]
    · have hsecond : amount / 10 % 10 * 10 ≠ 0 := fun h0 => hfits₁ (by rw [h0]; decide)
      rw [decomposeLoop_of_not_fits hrest hfits₁,
        decomposeLoop_of_lt 10 (by decide) _ 0 (10 * 10) _ _ 2 hfit₂ (fun _ => rfl) (by decide)
          (fun _ => by decide)]
      simp [hsecond]
  · -- a nonzero lowest digit is the dust, handed over before the next chunk
    have hdigit : 1 ≤ amount.toNat % 10 := by
      by_contra h0
      exact hzero (UInt64.toNat_inj.mp (by rw [hlow]; change _ = 0; omega))
    rw [decomposeLoop_of_lt 10 (by decide) _ _ 10 false [] 1 hfit₁ (fun _ => rfl) hdust
      (fun _ => by
        change 10 < (amount % 10 * 1).toNat + 10
        omega)]
    simp [pendingDust]

end Thresholds

/-- The digit chunks add up to the amount they were cut from. -/
theorem sum_digitChunks (amount order : UInt64) (hfit : amount.toNat * order.toNat < 2 ^ 64) :
    ((digitChunks amount order).map UInt64.toNat).sum = amount.toNat * order.toNat := by
  by_cases hamount : amount = 0
  · subst hamount
    simp
  -- the chunk counts whether or not it is zero
  have hchunk : ((if amount % 10 * order = 0 then [] else [amount % 10 * order]).map
      UInt64.toNat).sum = amount.toNat % 10 * order.toNat := by
    rw [← toNat_chunk hfit]
    split
    · rename_i h0
      rw [h0]
      rfl
    · simp
  rw [digitChunks_of_ne_zero hamount, List.map_append, List.sum_append, hchunk,
    sum_digitChunks (amount / 10) (order * 10) (next_mul_lt hfit), chunk_add_next_mul hfit]
termination_by amount.toNat
decreasing_by
  rw [UInt64.toNat_div, show (10 : UInt64).toNat = 10 from rfl]
  have := toNat_ne_zero_of_ne hamount
  omega

section Shape

variable {α : Type} {chunk_handler dust_handler : UInt64 → α}

/-- What `decompose_amount_into_digits` hands over, for every amount and threshold: the dust,
once and only if it is not zero, at most the threshold, then chunks of the form `d · 10 ^ k`
with `1 ≤ d ≤ 9`, each above the dust; all of it adds up to the amount. -/
theorem decompose_amount_into_digits_shape (dust_threshold amount : UInt64) :
    ∃ (dust : UInt64) (chunks : List UInt64),
      decompose_amount_into_digits dust_threshold chunk_handler dust_handler amount =
        pendingDust dust_handler false dust ++ chunks.map chunk_handler ∧
      dust ≤ dust_threshold ∧
      (∀ c ∈ chunks, (∃ d k, 1 ≤ d ∧ d ≤ 9 ∧ c.toNat = d * 10 ^ k) ∧ dust < c) ∧
      dust.toNat + (chunks.map UInt64.toNat).sum = amount.toNat := by
  obtain ⟨dust, rest, order, k, heq, hdust, hsum, hlow⟩ :=
    @decompose_amount_into_digits_spec α chunk_handler dust_handler dust_threshold amount
  have hfit : rest.toNat * order.toNat < 2 ^ 64 := by
    have := amount.toNat_lt
    omega
  refine ⟨dust, digitChunks rest order, heq, hdust, fun c hc => ?_, ?_⟩
  · -- a chunk is at least the power of ten of the rest, which is above the dust
    have hrest : rest ≠ 0 := by
      rintro rfl
      exact absurd hc (by simp)
    obtain ⟨hlt, hk⟩ := hlow hrest
    obtain ⟨d, i, hd, hd', hc'⟩ := mem_digitChunks hfit (fun _ => hk) hc
    refine ⟨⟨d, k + i, hd, hd', hc'⟩, UInt64.lt_iff_toNat_lt.mpr ?_⟩
    have hpow : 10 ^ k ≤ d * 10 ^ (k + i) :=
      calc 10 ^ k ≤ 10 ^ (k + i) := Nat.pow_le_pow_right (by decide) (Nat.le_add_right _ _)
        _ ≤ d * 10 ^ (k + i) := Nat.le_mul_of_pos_left _ hd
    omega
  · rw [sum_digitChunks rest order hfit, hsum]

-- the example in the comment on `decompose_amount_into_digits`
example : decomposeAmount 62387455827 455827 =
    [455827, 7000000, 80000000, 300000000, 2000000000, 60000000000] := by decide +kernel

end Shape

end UltraNoteCore
