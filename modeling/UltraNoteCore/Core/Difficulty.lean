import UltraNoteCore.Core.Currency
import Mathlib.Data.List.Sort

/-!
# Difficulty and proof of work

The two difficulty algorithms of `Currency.cpp` and the proof-of-work test of `Difficulty.cpp`.
`nextDifficulty` is the CryptoNote window algorithm (sort the timestamps, cut the outliers,
divide the work of the window by its time span); `nextDifficultyLWMA3` is the linearly weighted
moving average the chain switched to with block major version 3. Both compute in `uint64_t`,
which wraps; the 128-bit product of `mul128` is exact. `check_hash` multiplies the hash, read as
four little-endian 64-bit limbs (`Hash.data` is the digest as a little-endian number), by the
difficulty and accepts iff nothing carries past 256 bits.

## Main definitions

* `Currency.difficultyBlocksCountByBlockVersion`: how many blocks the difficulty looks back
* `Currency.nextDifficulty`, `Currency.nextDifficultyLWMA3`
* `check_hash`, `Currency.checkProofOfWork`

## Main results

* `nextDifficultyLWMA3_within_clamp`: over `11..61` blocks the divisor of the weighted average
  is positive, and the result stays within 67% and 150% of the last difficulty
* `check_hash_eq_true`: `check_hash` accepts iff the product of hash and difficulty fits in
  256 bits
-/

namespace UltraNoteCore

/-- `parameters::DIFFICULTY_BLOCKS_COUNT`, the LWMA-3 window plus one. -/
def DIFFICULTY_BLOCKS_COUNT : Nat := 60 + 1

/-- The 128-bit product of two 64-bit words, as `(low, high)` (`mul128`, and `mul` of
`Difficulty.cpp`). -/
def mul128 (a b : UInt64) : UInt64 × UInt64 :=
  (UInt64.ofNat (a.toNat * b.toNat), UInt64.ofNat (a.toNat * b.toNat / 2 ^ 64))

namespace Currency

variable (c : Currency)

/-- `Currency::difficultyBlocksCountByBlockVersion`. -/
def difficultyBlocksCountByBlockVersion (blockMajorVersion : UInt8) : Nat :=
  if BLOCK_MAJOR_VERSION_3 ≤ blockMajorVersion then DIFFICULTY_BLOCKS_COUNT
  else c.difficultyWindow + c.difficultyLag

/-- `Currency::nextDifficulty`: over the last `difficultyWindow` blocks, the work between the
cut timestamps divided (rounding up) by their span; `1` for at most one block and `0` when the
product overflows 64 bits. Only the timestamps are sorted. -/
def nextDifficulty (timestamps cumulativeDifficulties : List UInt64) : UInt64 :=
  -- both vectors are cut to the window when the timestamps exceed it
  let (timestamps, cumulativeDifficulties) := if c.difficultyWindow < timestamps.length then
    (timestamps.take c.difficultyWindow, cumulativeDifficulties.take c.difficultyWindow)
  else (timestamps, cumulativeDifficulties)
  let length := timestamps.length
  if length ≤ 1 then 1
  else
    let timestamps := timestamps.insertionSort (· ≤ ·)
    let kept := c.difficultyWindow - 2 * c.difficultyCut
    let cutBegin := if length ≤ kept then 0 else (length - kept + 1) / 2
    let cutEnd := if length ≤ kept then length else cutBegin + kept
    let timeSpan := timestamps.getD (cutEnd - 1) 0 - timestamps.getD cutBegin 0
    let timeSpan := if timeSpan = 0 then 1 else timeSpan
    let totalWork := cumulativeDifficulties.getD (cutEnd - 1) 0 -
      cumulativeDifficulties.getD cutBegin 0
    let (low, high) := mul128 totalWork c.difficultyTarget
    if high ≠ 0 ∨ low + timeSpan - 1 < low then 0
    else (low + timeSpan - 1) / timeSpan

end Currency

/-- One turn of the loop of `nextDifficultyLWMA3` at block `i`: the solve time (monotone and
capped at six targets), with the weighted sum `L` and the sum of the last three solve times. -/
def lwma3Step (T N : UInt64) (timestamps : List UInt64) (acc : UInt64 × UInt64 × UInt64)
    (i : UInt64) : UInt64 × UInt64 × UInt64 :=
  let (L, sum_3_ST, previous_timestamp) := acc
  let t := timestamps.getD i.toNat 0
  let this_timestamp := if previous_timestamp < t then t else previous_timestamp + 1
  let ST := min (6 * T) (this_timestamp - previous_timestamp)
  (L + ST * i, if N - 3 < i then sum_3_ST + ST else sum_3_ST, this_timestamp)

namespace Currency

/-- `Currency::nextDifficultyLWMA3`: `100` for at most ten blocks; otherwise the average
difficulty times the target over the linearly weighted solve time, clamped to `[0.67, 1.5]`
times the last difficulty and raised by 8% after three fast blocks. -/
def nextDifficultyLWMA3 (timestamps cumulative_difficulties : List UInt64) : UInt64 :=
  let T : UInt64 := 120
  let difficulty_guess : UInt64 := 100
  if timestamps.length ≤ 10 then difficulty_guess
  else
    let N : UInt64 := if timestamps.length < 60 + 1 then UInt64.ofNat timestamps.length - 1
      else 60
    let (L, sum_3_ST, _) := ((List.range N.toNat).map fun i => UInt64.ofNat (i + 1)).foldl
      (lwma3Step T N timestamps) (0, 0, timestamps.getD 0 0)
    let cd := fun (i : UInt64) => cumulative_difficulties.getD i.toNat 0
    let next_D := ((cd N - cd 0) * T * (N + 1) * 99) / (100 * 2 * L)
    let prev_D := cd N - cd (N - 1)
    let next_D := max ((prev_D * 67) / 100) (min next_D ((prev_D * 150) / 100))
    if sum_3_ST < (8 * T) / 10 then max next_D ((prev_D * 108) / 100) else next_D

end Currency

/-- The `i`-th little-endian 64-bit limb of a hash (`swap64le(((const uint64_t *) &hash)[i])`). -/
def Hash.limb (h : Hash) (i : Nat) : UInt64 :=
  UInt64.ofNat (h.data.toNat / 2 ^ (64 * i))

/-- `cadd`: the carry of a 64-bit addition. -/
def cadd (a b : UInt64) : Bool := decide (a + b < a)

/-- `cadc`: the carry of a 64-bit addition with an incoming carry. -/
def cadc (a b : UInt64) (c : Bool) : Bool :=
  decide (a + b < a) || (c && decide (a + b = UInt64.ofNat (2 ^ 64 - 1)))

/-- `check_hash`: the product of the hash and the difficulty, limb by limb from the top, does
not carry past 256 bits. -/
def check_hash (hash : Hash) (difficulty : UInt64) : Bool :=
  let (top, high) := mul128 (hash.limb 3) difficulty
  if high ≠ 0 then false
  else
    let (_, cur) := mul128 (hash.limb 0) difficulty
    let (low, high) := mul128 (hash.limb 1) difficulty
    let carry := cadd cur low
    let cur := high
    let (low, high) := mul128 (hash.limb 2) difficulty
    let carry := cadc cur low carry
    let carry := cadc high top carry
    !carry

/-- `Currency::checkProofOfWork`: the slow hash of the block, if it can be computed, passes
`check_hash`. The slow hash (`get_block_longhash`) is a parameter. -/
def Currency.checkProofOfWork (get_block_longhash : Block → Option Hash) (block : Block)
    (currentDifficulty : UInt64) : Bool :=
  match get_block_longhash block with
  | none => false
  | some proofOfWork => check_hash proofOfWork currentDifficulty

/-! ## The LWMA-3 bounds -/

/-- A solve time of the LWMA-3 loop is at least one second and at most its cap: an
out-of-sequence timestamp is replaced by the previous one plus one. -/
theorem lwma3Step_fst (T N : UInt64) (timestamps : List UInt64) (acc : UInt64 × UInt64 × UInt64)
    (i : UInt64) (hT : 1 ≤ (6 * T).toNat) :
    ∃ ST : UInt64, 1 ≤ ST.toNat ∧ ST.toNat ≤ (6 * T).toNat ∧
      (lwma3Step T N timestamps acc i).1 = acc.1 + ST * i := by
  obtain ⟨L, sum_3_ST, previous_timestamp⟩ := acc
  set t := timestamps.getD i.toNat 0
  -- the monotonised timestamp is strictly later, so the raw solve time is positive
  have hgap : 1 ≤ ((if previous_timestamp < t then t else previous_timestamp + 1) -
      previous_timestamp).toNat := by
    split
    · rename_i hlt
      rw [UInt64.toNat_sub_of_le _ _ (UInt64.le_of_lt hlt)]
      have := UInt64.lt_iff_toNat_lt.mp hlt
      omega
    · have hone : previous_timestamp + 1 - previous_timestamp = 1 := by grind
      rw [hone]
      decide
  refine ⟨min (6 * T) ((if previous_timestamp < t then t else previous_timestamp + 1) -
      previous_timestamp), ?_, ?_, rfl⟩
  · rw [UInt64.toNat_min]
    omega
  · rw [UInt64.toNat_min]
    omega

/-- The weighted sum of the LWMA-3 loop over indices in `1..60`: each turn adds a solve time of
`1..720` seconds times its index, so without wrapping it grows by `1..43200` a turn. -/
theorem lwma3_weight_bounds (N : UInt64) (timestamps : List UInt64) (is : List UInt64)
    (acc : UInt64 × UInt64 × UInt64) (his : ∀ i ∈ is, 1 ≤ i.toNat ∧ i.toNat ≤ 60)
    (hfit : acc.1.toNat + 43200 * is.length < 2 ^ 64) :
    acc.1.toNat + is.length ≤ (is.foldl (lwma3Step 120 N timestamps) acc).1.toNat ∧
      (is.foldl (lwma3Step 120 N timestamps) acc).1.toNat ≤ acc.1.toNat + 43200 * is.length := by
  induction is generalizing acc with
  | nil => simp
  | cons i is ih =>
    obtain ⟨ST, hlo, hhi, hstep⟩ := lwma3Step_fst 120 N timestamps acc i (by decide)
    have hi := his i List.mem_cons_self
    have hcap : (6 * 120 : UInt64).toNat = 720 := rfl
    have hprod : ST.toNat * i.toNat ≤ 43200 := Nat.mul_le_mul (hcap ▸ hhi) hi.2
    have hpos : 1 ≤ ST.toNat * i.toNat := Nat.mul_le_mul hlo hi.1
    -- the turn adds `ST * i` to `L` exactly
    have hadd : (lwma3Step 120 N timestamps acc i).1.toNat = acc.1.toNat + ST.toNat * i.toNat := by
      rw [hstep, UInt64.toNat_add, UInt64.toNat_mul, Nat.mod_eq_of_lt (by omega : ST.toNat * i.toNat < 2 ^ 64)]
      simp only [List.length_cons] at hfit
      exact Nat.mod_eq_of_lt (by omega)
    simp only [List.length_cons] at hfit ⊢
    have := ih (lwma3Step 120 N timestamps acc i) (fun j hj => his j (List.mem_cons_of_mem i hj))
      (by omega)
    rw [List.foldl_cons]
    omega

/-- The clamp of `nextDifficultyLWMA3` and its jump rule keep the difficulty between 67% and
150% of the last one, when `150 * prev_D` does not wrap. -/
theorem lwma3_clamp_bounds (prev_D next_D : UInt64) (jump : Prop) [Decidable jump]
    (hfit : prev_D.toNat * 150 < 2 ^ 64) :
    prev_D.toNat * 67 / 100 ≤
        (if jump then max (max ((prev_D * 67) / 100) (min next_D ((prev_D * 150) / 100)))
          ((prev_D * 108) / 100)
        else max ((prev_D * 67) / 100) (min next_D ((prev_D * 150) / 100))).toNat ∧
      (if jump then max (max ((prev_D * 67) / 100) (min next_D ((prev_D * 150) / 100)))
          ((prev_D * 108) / 100)
        else max ((prev_D * 67) / 100) (min next_D ((prev_D * 150) / 100))).toNat ≤
        prev_D.toNat * 150 / 100 := by
  -- the three percentages of `prev_D` are computed without wrapping
  have hpercent : ∀ k : UInt64, k.toNat ≤ 150 →
      ((prev_D * k) / 100).toNat = prev_D.toNat * k.toNat / 100 := by
    intro k hk
    have hlt : prev_D.toNat * k.toNat < 2 ^ 64 :=
      lt_of_le_of_lt (Nat.mul_le_mul_left _ hk) hfit
    rw [UInt64.toNat_div, UInt64.toNat_mul, Nat.mod_eq_of_lt hlt]
    rfl
  have h67 : ((prev_D * 67) / 100).toNat = prev_D.toNat * 67 / 100 := hpercent 67 (by decide)
  have h108 : ((prev_D * 108) / 100).toNat = prev_D.toNat * 108 / 100 := hpercent 108 (by decide)
  have h150 : ((prev_D * 150) / 100).toNat = prev_D.toNat * 150 / 100 := hpercent 150 (by decide)
  split <;> simp only [UInt64.toNat_max, UInt64.toNat_min, h67, h108, h150] <;> omega

/-- The index of the last of `n` blocks, computed as `UInt64.ofNat n - 1`. -/
theorem toNat_ofNat_sub_one {n : ℕ} (hpos : 1 ≤ n) (hlt : n < 2 ^ 64) :
    (UInt64.ofNat n - 1).toNat = n - 1 := by
  have hn : (UInt64.ofNat n).toNat = n := by
    rw [UInt64.toNat_ofNat']
    exact Nat.mod_eq_of_lt hlt
  have hle : (1 : UInt64) ≤ UInt64.ofNat n := UInt64.le_iff_toNat_le.mpr (by rw [hn]; exact hpos)
  rw [UInt64.toNat_sub_of_le _ _ hle, hn]
  rfl

/-- The window length `N` of `nextDifficultyLWMA3` for `11..61` blocks: the index of the last. -/
theorem lwma3_window_toNat {n : ℕ} (hmin : 11 ≤ n) (hmax : n ≤ 61) :
    (if n < 60 + 1 then UInt64.ofNat n - 1 else 60 : UInt64).toNat = n - 1 := by
  split
  · exact toNat_ofNat_sub_one (by omega) (by omega)
  · have : n = 61 := by omega
    subst this
    rfl

/-- The divisor of the weighted average of `nextDifficultyLWMA3` over `11..61` blocks is
positive and does not wrap: the weighted sum of solve times is between `N` and `43200 N`. -/
theorem lwma3_divisor_pos (timestamps : List UInt64) (hmin : 11 ≤ timestamps.length)
    (hmax : timestamps.length ≤ 61) :
    let N : UInt64 := UInt64.ofNat timestamps.length - 1
    let L := (((List.range N.toNat).map fun i => UInt64.ofNat (i + 1)).foldl
      (lwma3Step 120 N timestamps) (0, 0, timestamps.getD 0 0)).1
    0 < (100 * 2 * L).toNat := by
  dsimp only
  rw [toNat_ofNat_sub_one (by omega) (by omega)]
  -- the indices `1..N` of the loop
  have hidx : ∀ i ∈ (List.range (timestamps.length - 1)).map fun i => UInt64.ofNat (i + 1),
      1 ≤ i.toNat ∧ i.toNat ≤ 60 := by
    intro i hi
    obtain ⟨j, hj, rfl⟩ := List.mem_map.mp hi
    rw [List.mem_range] at hj
    rw [UInt64.toNat_ofNat', Nat.mod_eq_of_lt (by omega)]
    omega
  have hbounds := lwma3_weight_bounds (UInt64.ofNat timestamps.length - 1) timestamps _
    (0, 0, timestamps.getD 0 0) hidx
    (by simp only [List.length_map, List.length_range, UInt64.toNat_zero]; omega)
  simp only [List.length_map, List.length_range, UInt64.toNat_zero] at hbounds
  rw [UInt64.toNat_mul, show (100 * 2 : UInt64).toNat = 200 from rfl,
    Nat.mod_eq_of_lt (by omega)]
  omega

/-- `nextDifficultyLWMA3` over `11..61` blocks of increasing cumulative difficulty stays within
67% and 150% of the last block's difficulty when `150` times it does not wrap. -/
theorem lwma3_result_bounds (timestamps cumulative_difficulties : List UInt64)
    (hmin : 11 ≤ timestamps.length) (hmax : timestamps.length ≤ 61)
    (hlen : cumulative_difficulties.length = timestamps.length)
    (hinc : cumulative_difficulties.Pairwise (· < ·))
    (hfit : ((cumulative_difficulties.getD (timestamps.length - 1) 0).toNat -
      (cumulative_difficulties.getD (timestamps.length - 2) 0).toNat) * 150 < 2 ^ 64) :
    ((cumulative_difficulties.getD (timestamps.length - 1) 0).toNat -
        (cumulative_difficulties.getD (timestamps.length - 2) 0).toNat) * 67 / 100 ≤
        (Currency.nextDifficultyLWMA3 timestamps cumulative_difficulties).toNat ∧
      (Currency.nextDifficultyLWMA3 timestamps cumulative_difficulties).toNat ≤
        ((cumulative_difficulties.getD (timestamps.length - 1) 0).toNat -
          (cumulative_difficulties.getD (timestamps.length - 2) 0).toNat) * 150 / 100 := by
  unfold Currency.nextDifficultyLWMA3
  rw [if_neg (by omega)]
  dsimp only
  generalize hN : (if timestamps.length < 60 + 1 then UInt64.ofNat timestamps.length - 1
    else 60 : UInt64) = N
  have hNnat : N.toNat = timestamps.length - 1 := hN ▸ lwma3_window_toNat hmin hmax
  have hN1 : (N - 1).toNat = timestamps.length - 2 := by
    rw [UInt64.toNat_sub_of_le _ _ (UInt64.le_iff_toNat_le.mpr (by rw [hNnat]; show 1 ≤ _; omega)), hNnat]
    rfl
  -- the result depends on the loop only through `L` and the last three solve times
  generalize List.foldl _ _ _ = acc
  obtain ⟨L, sum_3_ST, _⟩ := acc
  dsimp only
  -- cumulative difficulties increase, so the last difficulty is a difference without wrapping
  have hlt : cumulative_difficulties.getD (timestamps.length - 2) 0 <
      cumulative_difficulties.getD (timestamps.length - 1) 0 := by
    have h2 : timestamps.length - 2 < cumulative_difficulties.length := by omega
    have h1 : timestamps.length - 1 < cumulative_difficulties.length := by omega
    rw [← List.getElem_eq_getD (h := h2) 0, ← List.getElem_eq_getD (h := h1) 0]
    exact List.pairwise_iff_getElem.mp hinc _ _ (by omega) (by omega) (by omega)
  have hprev : (cumulative_difficulties.getD N.toNat 0 -
      cumulative_difficulties.getD (N - 1).toNat 0).toNat =
      (cumulative_difficulties.getD (timestamps.length - 1) 0).toNat -
        (cumulative_difficulties.getD (timestamps.length - 2) 0).toNat := by
    rw [hNnat, hN1, UInt64.toNat_sub_of_le _ _ (UInt64.le_of_lt hlt)]
  rw [← hprev] at hfit ⊢
  exact lwma3_clamp_bounds _ _ _ hfit

theorem nextDifficultyLWMA3_within_clamp (timestamps cumulative_difficulties : List UInt64) :
    11 ≤ timestamps.length → timestamps.length ≤ 61 →
    cumulative_difficulties.length = timestamps.length →
    cumulative_difficulties.Pairwise (· < ·) →
    (let N : UInt64 := UInt64.ofNat timestamps.length - 1
     let L := (((List.range N.toNat).map fun i => UInt64.ofNat (i + 1)).foldl
       (lwma3Step 120 N timestamps) (0, 0, timestamps.getD 0 0)).1
     0 < (100 * 2 * L).toNat) ∧
    (let prev_D := (cumulative_difficulties.getD (timestamps.length - 1) 0).toNat -
       (cumulative_difficulties.getD (timestamps.length - 2) 0).toNat
     let D := (Currency.nextDifficultyLWMA3 timestamps cumulative_difficulties).toNat
     prev_D * 150 < 2 ^ 64 →
       prev_D * 67 / 100 ≤ D ∧ D ≤ prev_D * 150 / 100 ∧ (2 ≤ prev_D → 1 ≤ D)) := by
  intro hmin hmax hlen hinc
  refine ⟨lwma3_divisor_pos timestamps hmin hmax, ?_⟩
  intro prev_D D hfit
  obtain ⟨hlo, hhi⟩ := lwma3_result_bounds timestamps cumulative_difficulties hmin hmax hlen hinc hfit
  -- from two units on, 67% of the last difficulty is already positive
  exact ⟨hlo, hhi, fun htwo => le_trans (by omega) hlo⟩

theorem nextDifficultyLWMA3_within_clamp_sample :
    (let D := (Currency.nextDifficultyLWMA3 [0, 120, 240, 360, 480, 600, 720, 840, 960, 1080, 1200]
      [10, 20, 30, 40, 50, 60, 70, 80, 90, 100, 110]).toNat
    10 * 67 / 100 ≤ D ∧ D ≤ 10 * 150 / 100 ∧ (2 ≤ 10 → 1 ≤ D)) :=
  (nextDifficultyLWMA3_within_clamp [0, 120, 240, 360, 480, 600, 720, 840, 960, 1080, 1200]
    [10, 20, 30, 40, 50, 60, 70, 80, 90, 100, 110] (by decide) (by decide) rfl (by decide)).2
    (by decide)

/-- At the smallest difficulty the clamp does not keep the result positive: eleven blocks of
difficulty one, each found after the six-target cap, give difficulty zero, which
`Blockchain::pushBlock` refuses for every block. -/
theorem nextDifficultyLWMA3_zero_at_unit_difficulty :
    ([1, 2, 3, 4, 5, 6, 7, 8, 9, 10, 11] : List UInt64).Pairwise (· < ·) ∧
      Currency.nextDifficultyLWMA3 [0, 720, 1440, 2160, 2880, 3600, 4320, 5040, 5760, 6480, 7200]
        [1, 2, 3, 4, 5, 6, 7, 8, 9, 10, 11] = 0 := by
  decide

/-! ## The proof-of-work test -/

/-- The two words of `mul128` are the exact product. -/
theorem mul128_value (a b : UInt64) :
    (mul128 a b).1.toNat + 2 ^ 64 * (mul128 a b).2.toNat = a.toNat * b.toNat := by
  have hlt : a.toNat * b.toNat / 2 ^ 64 < 2 ^ 64 := by
    have := Nat.mul_lt_mul'' a.toNat_lt b.toNat_lt
    omega
  simp only [mul128, UInt64.toNat_ofNat', Nat.mod_eq_of_lt hlt]
  omega

theorem cadd_eq_true (a b : UInt64) : cadd a b = true ↔ 2 ^ 64 ≤ a.toNat + b.toNat := by
  have ha := a.toNat_lt
  have hb := b.toNat_lt
  simp only [cadd, decide_eq_true_eq, UInt64.lt_iff_toNat_lt, UInt64.toNat_add]
  omega

theorem cadc_eq_true (a b : UInt64) (c : Bool) :
    cadc a b c = true ↔ 2 ^ 64 ≤ a.toNat + b.toNat + c.toNat := by
  have ha := a.toNat_lt
  have hb := b.toNat_lt
  have hmax : (UInt64.ofNat (2 ^ 64 - 1)).toNat = 2 ^ 64 - 1 := rfl
  -- with an incoming carry, the sum of the two words must also be checked against the maximum
  cases c <;>
    simp only [cadc, Bool.or_eq_true, decide_eq_true_eq, Bool.and_eq_true, UInt64.lt_iff_toNat_lt,
      UInt64.toNat_add, ← UInt64.toNat_inj, hmax, Bool.toNat_false, Bool.toNat_true,
      Bool.false_eq_true, false_and, or_false, true_and] <;>
    omega

/-- A hash is the sum of its four limbs. -/
theorem Hash.data_eq_limbs (h : Hash) :
    h.data.toNat = (h.limb 0).toNat + 2 ^ 64 * (h.limb 1).toNat + 2 ^ 128 * (h.limb 2).toNat +
      2 ^ 192 * (h.limb 3).toNat := by
  have hlt := h.data.isLt
  simp only [Hash.limb, UInt64.toNat_ofNat']
  omega


/-- The carry of `cadd` as a number: the quotient of the sum by `2^64`. -/
theorem cadd_toNat (a b : UInt64) : (cadd a b).toNat = (a.toNat + b.toNat) / 2 ^ 64 := by
  have ha := a.toNat_lt
  have hb := b.toNat_lt
  cases h : cadd a b
  · have := mt (cadd_eq_true a b).mpr (by simp [h])
    simp only [Bool.toNat_false]
    omega
  · have := (cadd_eq_true a b).mp h
    simp only [Bool.toNat_true]
    omega

/-- The carry of `cadc` as a number: the quotient of the sum with the incoming carry. -/
theorem cadc_toNat (a b : UInt64) (c : Bool) :
    (cadc a b c).toNat = (a.toNat + b.toNat + c.toNat) / 2 ^ 64 := by
  have ha := a.toNat_lt
  have hb := b.toNat_lt
  have hc := Bool.toNat_le c
  cases h : cadc a b c
  · have := mt (cadc_eq_true a b c).mpr (by simp [h])
    simp only [Bool.toNat_false]
    omega
  · have := (cadc_eq_true a b c).mp h
    simp only [Bool.toNat_true]
    omega

/-- `check_hash` accepts exactly when the product of the hash and the difficulty fits in 256
bits. -/
theorem check_hash_eq_true (hash : Hash) (difficulty : UInt64) :
    check_hash hash difficulty = true ↔ hash.data.toNat * difficulty.toNat < 2 ^ 256 := by
  -- the product of the hash is the sum of its limb products, each split in two words
  have hprod : hash.data.toNat * difficulty.toNat =
      (hash.limb 0).toNat * difficulty.toNat + 2 ^ 64 * ((hash.limb 1).toNat * difficulty.toNat) +
        2 ^ 128 * ((hash.limb 2).toNat * difficulty.toNat) +
        2 ^ 192 * ((hash.limb 3).toNat * difficulty.toNat) := by
    rw [Hash.data_eq_limbs]
    simp only [Nat.add_mul, Nat.mul_assoc]
  have h0 := mul128_value (hash.limb 0) difficulty
  have h1 := mul128_value (hash.limb 1) difficulty
  have h2 := mul128_value (hash.limb 2) difficulty
  have h3 := mul128_value (hash.limb 3) difficulty
  unfold check_hash
  generalize mul128 (hash.limb 0) difficulty = p0 at h0 ⊢
  generalize mul128 (hash.limb 1) difficulty = p1 at h1 ⊢
  generalize mul128 (hash.limb 2) difficulty = p2 at h2 ⊢
  generalize mul128 (hash.limb 3) difficulty = p3 at h3 ⊢
  obtain ⟨lo0, hi0⟩ := p0
  obtain ⟨lo1, hi1⟩ := p1
  obtain ⟨lo2, hi2⟩ := p2
  obtain ⟨top, hi3⟩ := p3
  dsimp only at h0 h1 h2 h3 ⊢
  rw [hprod, ← h0, ← h1, ← h2, ← h3]
  have := lo0.toNat_lt; have := hi0.toNat_lt; have := lo1.toNat_lt; have := hi1.toNat_lt
  have := lo2.toNat_lt; have := hi2.toNat_lt; have := top.toNat_lt
  by_cases hhigh : hi3 = 0
  · -- the top limb's product fits: the sum carries past 256 bits iff the carry chain does
    rw [if_neg (not_not.mpr hhigh), Bool.not_eq_true', ← Bool.toNat_eq_zero, cadc_toNat,
      cadc_toNat, cadd_toNat, hhigh]
    simp only [UInt64.toNat_zero]
    omega
  · -- the top limb's product alone reaches `2^256`
    have : hi3.toNat ≠ 0 := fun h => hhigh (UInt64.toNat_inj.mp h)
    rw [if_pos hhigh]
    simp only [Bool.false_eq_true, false_iff, not_lt]
    omega

/-- For a positive difficulty, `check_hash` is the target test: the hash is at most the
largest 256-bit number divided by the difficulty. -/
theorem check_hash_eq_true_iff_le (hash : Hash) {difficulty : UInt64}
    (hpos : 1 ≤ difficulty.toNat) :
    check_hash hash difficulty = true ↔ hash.data.toNat ≤ (2 ^ 256 - 1) / difficulty.toNat := by
  rw [check_hash_eq_true, Nat.le_div_iff_mul_le hpos]
  omega

theorem check_hash_iff_product_fits :
    (∀ (hash : Hash) (difficulty : UInt64),
      check_hash hash difficulty = true ↔ hash.data.toNat * difficulty.toNat < 2 ^ 256) ∧
    ∀ (get_block_longhash : Block → Option Hash) (block : Block) (currentDifficulty : UInt64),
      1 ≤ currentDifficulty.toNat →
      (Currency.checkProofOfWork get_block_longhash block currentDifficulty = true ↔
        ∃ proofOfWork, get_block_longhash block = some proofOfWork ∧
          proofOfWork.data.toNat ≤ (2 ^ 256 - 1) / currentDifficulty.toNat) := by
  refine ⟨check_hash_eq_true, ?_⟩
  intro get_block_longhash block currentDifficulty hpos
  unfold Currency.checkProofOfWork
  cases get_block_longhash block with
  | none => simp
  | some proofOfWork =>
    rw [check_hash_eq_true_iff_le proofOfWork hpos]
    simp

end UltraNoteCore
