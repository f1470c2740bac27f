import UltraNoteCore.Basic.DecomposeAmount
import UltraNoteCore.Core.CurrencyBounds
import UltraNoteCore.Core.Transaction

/-!
# The coinbase transaction

`Currency::constructMinerTx` (`Currency.cpp`) pays a block's reward to its miner: the reward is
cut into digits by `decompose_amount_into_digits` with the currency's dust threshold, the last
two amounts are added together until at most `maxOuts` are left, each amount becomes a key
output to the miner's address, and the amounts are checked to add up to the reward before the
transaction gets its base input and unlock time.

The transaction key pair, which `generateKeyPair` draws, is an argument, and so are the two
curve operations, each of which can refuse its input (`none`).

## Main definitions

* `mergeOutAmounts`: the `while (maxOuts < outAmounts.size())` loop
* `Currency.constructMinerTx`

## Main results

* `mergeOutAmounts_spec`: the loop leaves at most `maxOuts` amounts with the same sum
* `Currency.constructMinerTx_ne_summary`: the check that the amounts add up to the reward never
  fails
* `decompose_and_merge_preserve_reward`: the digits of every amount, for every threshold, and
  what the loop makes of them
-/

namespace UltraNoteCore

/-- The loop of `constructMinerTx` that adds the last amount to the one before it and drops it,
until at most `maxOuts` amounts are left. -/
def mergeOutAmounts (maxOuts : ℕ) (outAmounts : List UInt64) : List UInt64 :=
  if maxOuts < outAmounts.length then
    mergeOutAmounts maxOuts
      ((outAmounts.modify (outAmounts.length - 2) (· + outAmounts.getLastD 0)).dropLast)
  else outAmounts
termination_by outAmounts.length
decreasing_by
  simp only [List.length_dropLast, List.length_modify]
  omega

/-- The text `constructMinerTx` logs when the amounts do not add up to the reward. -/
def summaryAmountsError : String := "Failed to construct miner tx"

section Construct

variable {KeyDerivation : Type}
  (generate_key_derivation : PublicKey → SecretKey → Option KeyDerivation)
  (derive_public_key : KeyDerivation → ℕ → PublicKey → Option PublicKey)

/-- The key output of amount `amount` at position `no` to `minerAddress`. -/
def minerOutput (minerAddress : AccountPublicAddress) (txkey : KeyPair) (amount : UInt64)
    (no : ℕ) : Except String TransactionOutput :=
  match generate_key_derivation minerAddress.viewPublicKey txkey.secretKey with
  | none => throw "while creating outs: failed to generate_key_derivation"
  | some derivation =>
    match derive_public_key derivation no minerAddress.spendPublicKey with
    | none => throw "while creating outs: failed to derive_public_key"
    | some outEphemeralPubKey => pure { amount := amount, target := .key ⟨outEphemeralPubKey⟩ }

/-- The extra of the coinbase: the transaction's public key, then the extra nonce if there is
one; a nonce that does not fit fails without a log. -/
def minerTxExtra (txkey : KeyPair) (extraNonce : List UInt8) : Except String (List UInt8) :=
  let extra := (addTransactionPublicKeyToExtra [] txkey.publicKey).2
  if extraNonce.isEmpty then pure extra
  else match addExtraNonceToTransactionExtra extra extraNonce with
    | (true, extra) => pure extra
    | (false, _) => throw ""

/-- The outputs of the coinbase paying `blockReward`: its digits merged down to `maxOuts`
amounts, one key output each, then the check that they add up to the reward. -/
def Currency.minerOutputs (c : Currency) (minerAddress : AccountPublicAddress) (txkey : KeyPair)
    (blockReward : UInt64) (maxOuts : ℕ) : Except String (List TransactionOutput) :=
  let outAmounts := decomposeAmount blockReward c.defaultDustThreshold
  if ¬1 ≤ maxOuts then throw "max_out must be non-zero"
  else do
    let outputs ← (mergeOutAmounts maxOuts outAmounts).zipIdx.mapM fun (amount, no) =>
      minerOutput generate_key_derivation derive_public_key minerAddress txkey amount no
    let summaryAmounts := outputs.foldl (fun summary out => summary + out.amount) 0
    if summaryAmounts ≠ blockReward then throw summaryAmountsError else pure outputs

/-- `Currency::constructMinerTx`: a failure is the text the source logs, empty where it logs
none. -/
def Currency.constructMinerTx (c : Currency) (height : UInt32) (medianSize : ℕ)
    (alreadyGeneratedCoins : UInt64) (currentBlockSize : ℕ) (fee : UInt64)
    (minerAddress : AccountPublicAddress) (txkey : KeyPair) (extraNonce : List UInt8)
    (maxOuts : ℕ) : Except String Transaction := do
  let extra ← minerTxExtra txkey extraNonce
  match c.getBlockReward medianSize currentBlockSize alreadyGeneratedCoins fee height.toNat with
  | none => throw "Block is too big"
  | some (blockReward, _) => do
    let outputs ← c.minerOutputs generate_key_derivation derive_public_key minerAddress txkey
      blockReward maxOuts
    pure { version := TRANSACTION_VERSION_1
           unlockTime := UInt64.ofNat (height.toNat + c.minedMoneyUnlockWindow)
           inputs := [.base ⟨height⟩]
           outputs := outputs
           extra := extra
           signatures := [] }

end Construct

/-! ## The merge loop -/

/-- One merge: the last two amounts become their sum. -/
theorem mergeOut_eq (init : List UInt64) (a b : UInt64) :
    ((init ++ [a, b]).modify ((init ++ [a, b]).length - 2)
      (· + (init ++ [a, b]).getLastD 0)).dropLast = init ++ [a + b] := by
  have hlast : (init ++ [a, b]).getLastD 0 = b := by
    rw [show init ++ [a, b] = (init ++ [a]) ++ [b] by simp, List.getLastD_concat]
  have hmodify : (init ++ [a, b]).modify init.length (· + b) = init ++ [a + b, b] := by
    rw [List.modify_eq_take_cons_drop (by simp)]
    simp
  rw [hlast, show (init ++ [a, b]).length - 2 = init.length by simp, hmodify,
    show init ++ [a + b, b] = (init ++ [a + b]) ++ [b] by simp, List.dropLast_concat]

/-- A list of at least two amounts ends in two of them. -/
theorem exists_eq_append_pair {l : List UInt64} (hl : 2 ≤ l.length) :
    ∃ init a b, l = init ++ [a, b] := by
  match h : l.reverse with
  | b :: a :: rest => exact ⟨rest.reverse, a, b, by rw [← List.reverse_reverse l, h]; simp⟩
  | [] => exact absurd (List.reverse_eq_nil_iff.mp h) (by rintro rfl; simp at hl)
  | [b] =>
    have := congrArg List.length h
    simp only [List.length_reverse, List.length_singleton] at this
    omega

/-- The merge loop leaves `min size maxOuts` amounts, and, when their sum fits in a word, the
same sum. -/
theorem mergeOutAmounts_spec {maxOuts : ℕ} (hmax : 1 ≤ maxOuts) (outAmounts : List UInt64)
    (hfit : (outAmounts.map UInt64.toNat).sum < 2 ^ 64) :
    (mergeOutAmounts maxOuts outAmounts).length = min outAmounts.length maxOuts ∧
      ((mergeOutAmounts maxOuts outAmounts).map UInt64.toNat).sum =
        (outAmounts.map UInt64.toNat).sum := by
  -- induction on the number of amounts, which each merge lowers by one
  induction hn : outAmounts.length using Nat.strong_induction_on generalizing outAmounts with
  | _ n ih =>
  rw [mergeOutAmounts]
  split
  · rename_i hmore
    obtain ⟨init, a, b, rfl⟩ := exists_eq_append_pair (by omega : 2 ≤ outAmounts.length)
    have hlen : (init ++ [a, b]).length = init.length + 2 := by simp
    have hsum : (init.map UInt64.toNat).sum + a.toNat + b.toNat < 2 ^ 64 := by
      simpa [Nat.add_assoc] using hfit
    have hab : (a + b).toNat = a.toNat + b.toNat := by
      rw [UInt64.toNat_add]
      exact Nat.mod_eq_of_lt (by omega)
    have hsum₁ : ((init ++ [a + b]).map UInt64.toNat).sum =
        ((init ++ [a, b]).map UInt64.toNat).sum := by
      simp [hab]
    rw [mergeOut_eq]
    obtain ⟨hlen', hsum'⟩ := ih (init.length + 1) (by omega) (init ++ [a + b])
      (by rw [hsum₁]; exact hfit) (by simp)
    refine ⟨?_, hsum'.trans hsum₁⟩
    rw [hlen', ← hn, hlen]
    omega
  · rename_i hle
    exact ⟨by rw [← hn]; exact (Nat.min_eq_left (Nat.le_of_not_lt hle)).symm, rfl⟩

/-! ## The coinbase -/

section Construct

variable {KeyDerivation : Type}
  {generate_key_derivation : PublicKey → SecretKey → Option KeyDerivation}
  {derive_public_key : KeyDerivation → ℕ → PublicKey → Option PublicKey}

theorem minerOutput_amount {minerAddress : AccountPublicAddress} {txkey : KeyPair}
    {amount : UInt64} {no : ℕ} {out : TransactionOutput}
    (h : minerOutput generate_key_derivation derive_public_key minerAddress txkey amount no =
      .ok out) : out.amount = amount := by
  unfold minerOutput at h
  split at h
  · cases h
  · split at h
    · cases h
    · cases h
      rfl

theorem minerOutput_ne_summary {minerAddress : AccountPublicAddress} {txkey : KeyPair}
    {amount : UInt64} {no : ℕ} {e : String}
    (h : minerOutput generate_key_derivation derive_public_key minerAddress txkey amount no =
      .error e) : e ≠ summaryAmountsError := by
  unfold minerOutput at h
  split at h
  · cases h
    decide
  · split at h
    · cases h
      decide
    · cases h

/-- Outputs made one per amount carry the amounts, in order. -/
theorem mapM_minerOutput_amounts {minerAddress : AccountPublicAddress} {txkey : KeyPair} :
    ∀ {amounts : List (UInt64 × ℕ)} {outputs : List TransactionOutput},
      amounts.mapM (fun x =>
        minerOutput generate_key_derivation derive_public_key minerAddress txkey x.1 x.2) =
          .ok outputs →
      outputs.map (·.amount) = amounts.map Prod.fst
  | [], outputs, h => by
    rw [List.mapM_nil] at h
    cases h
    rfl
  | (amount, no) :: amounts, outputs, h => by
    rw [List.mapM_cons, Codec.bind_eq_ok] at h
    obtain ⟨out, hout, h⟩ := h
    rw [Codec.bind_eq_ok] at h
    obtain ⟨outs, houts, h⟩ := h
    obtain rfl := Codec.pure_eq_ok.mp h
    rw [List.map_cons, List.map_cons, minerOutput_amount hout, mapM_minerOutput_amounts houts]

/-- `decomposeAmount` hands over amounts that add up to what it cut. -/
theorem sum_decomposeAmount (amount dustThreshold : UInt64) :
    ((decomposeAmount amount dustThreshold).map UInt64.toNat).sum = amount.toNat := by
  obtain ⟨dust, chunks, heq, -, -, hsum⟩ :=
    @decompose_amount_into_digits_shape UInt64 id id dustThreshold amount
  rw [decomposeAmount, heq, List.map_id, List.map_append, List.sum_append, ← hsum]
  by_cases hdust : dust = 0
  · subst hdust
    simp
  · simp [pendingDust, hdust]

/-- The outputs add up to the reward: the check after them never fails, and the only failures
are a zero `maxOuts` and a refused curve operation. -/
theorem Currency.minerOutputs_ne_summary (c : Currency) (minerAddress : AccountPublicAddress)
    (txkey : KeyPair) (blockReward : UInt64) (maxOuts : ℕ) :
    c.minerOutputs generate_key_derivation derive_public_key minerAddress txkey blockReward
      maxOuts ≠ .error summaryAmountsError := by
  unfold Currency.minerOutputs
  dsimp only
  by_cases hmax : 1 ≤ maxOuts
  swap
  · rw [if_pos hmax]
    exact fun h => absurd (Except.error.inj h) (by decide)
  rw [if_neg (not_not.mpr hmax)]
  intro h
  rcases Codec.bind_eq_error.mp h with hmap | ⟨outputs, hmap, h⟩
  · -- a refused curve operation, whose text is another
    obtain ⟨x, -, hout⟩ := Codec.mapM_eq_error hmap
    exact minerOutput_ne_summary hout rfl
  · -- the amounts of the outputs add up to the reward
    have hamounts := mapM_minerOutput_amounts hmap
    rw [List.zipIdx_map_fst] at hamounts
    have hreward := sum_decomposeAmount blockReward c.defaultDustThreshold
    obtain ⟨-, hmerged⟩ := mergeOutAmounts_spec hmax _
      (by rw [hreward]; exact blockReward.toNat_lt)
    have hsum : (outputs.map fun out => out.amount.toNat).sum = blockReward.toNat := by
      have hmap' : (outputs.map fun out => out.amount.toNat) =
          (outputs.map (·.amount)).map UInt64.toNat := by
        rw [List.map_map]
        rfl
      rw [hmap', hamounts, hmerged, hreward]
    have hfit : (0 : UInt64).toNat + (outputs.map fun out => out.amount.toNat).sum < 2 ^ 64 := by
      rw [hsum, UInt64.toNat_zero, Nat.zero_add]
      exact blockReward.toNat_lt
    have hsummary : outputs.foldl (fun summary out => summary + out.amount) 0 = blockReward := by
      apply UInt64.toNat_inj.mp
      rw [toNat_foldl_add (·.amount) 0 outputs hfit, hsum, UInt64.toNat_zero, Nat.zero_add]
    rw [if_neg (not_not.mpr hsummary)] at h
    cases h

/-- The check that the amounts add up to the reward never fails: whatever the miner's address
and keys and whatever the curve operations answer, `constructMinerTx` does not throw
`summaryAmountsError`. -/
theorem Currency.constructMinerTx_ne_summary (c : Currency) (height : UInt32) (medianSize : ℕ)
    (alreadyGeneratedCoins : UInt64) (currentBlockSize : ℕ) (fee : UInt64)
    (minerAddress : AccountPublicAddress) (txkey : KeyPair) (extraNonce : List UInt8)
    (maxOuts : ℕ) :
    c.constructMinerTx generate_key_derivation derive_public_key height medianSize
      alreadyGeneratedCoins currentBlockSize fee minerAddress txkey extraNonce maxOuts ≠
        .error summaryAmountsError := by
  unfold Currency.constructMinerTx
  intro h
  rcases Codec.bind_eq_error.mp h with hextra | ⟨extra, -, h⟩
  · -- only an extra nonce that does not fit fails, without a log
    unfold minerTxExtra at hextra
    dsimp only at hextra
    split_ifs at hextra
    · cases hextra
    · split at hextra
      · cases hextra
      · exact absurd (Except.error.inj hextra) (by decide)
  · split at h
    · exact absurd (Except.error.inj h) (by decide)
    · rcases Codec.bind_eq_error.mp h with houtputs | ⟨outputs, -, h⟩
      · exact c.minerOutputs_ne_summary minerAddress txkey _ maxOuts houtputs
      · cases h

end Construct

/-- For every amount and threshold, what `decompose_amount_into_digits` hands over: the dust
once, if it is not zero, at most the threshold and below every other amount, then chunks
`d · 10 ^ k` with `1 ≤ d ≤ 9`, all adding up to the amount; for every `maxOuts ≥ 1` the merge
loop of `constructMinerTx` leaves at most `maxOuts` amounts with the same sum; and
`constructMinerTx` never fails its check that the amounts add up to the reward. -/
theorem decompose_and_merge_preserve_reward (dust_threshold amount : UInt64) :
    (∀ {α : Type} (chunk_handler dust_handler : UInt64 → α),
      ∃ (dust : UInt64) (chunks : List UInt64),
        decompose_amount_into_digits dust_threshold chunk_handler dust_handler amount =
          pendingDust dust_handler false dust ++ chunks.map chunk_handler ∧
        dust ≤ dust_threshold ∧
        (∀ c ∈ chunks, (∃ d k, 1 ≤ d ∧ d ≤ 9 ∧ c.toNat = d * 10 ^ k) ∧ dust < c) ∧
        dust.toNat + (chunks.map UInt64.toNat).sum = amount.toNat) ∧
    (∀ maxOuts, 1 ≤ maxOuts →
      (mergeOutAmounts maxOuts (decomposeAmount amount dust_threshold)).length ≤ maxOuts ∧
      ((mergeOutAmounts maxOuts (decomposeAmount amount dust_threshold)).map UInt64.toNat).sum =
        amount.toNat) ∧
    ∀ {KeyDerivation : Type} (generate_key_derivation : PublicKey → SecretKey → Option KeyDerivation)
      (derive_public_key : KeyDerivation → ℕ → PublicKey → Option PublicKey) (c : Currency)
      (height : UInt32) (medianSize : ℕ) (alreadyGeneratedCoins : UInt64) (currentBlockSize : ℕ)
      (fee : UInt64) (minerAddress : AccountPublicAddress) (txkey : KeyPair)
      (extraNonce : List UInt8) (maxOuts : ℕ),
      c.constructMinerTx generate_key_derivation derive_public_key height medianSize
        alreadyGeneratedCoins currentBlockSize fee minerAddress txkey extraNonce maxOuts ≠
          .error summaryAmountsError := by
  refine ⟨fun _ _ => decompose_amount_into_digits_shape dust_threshold amount,
    fun maxOuts hmax => ?_, fun _ _ c => c.constructMinerTx_ne_summary⟩
  have hsum := sum_decomposeAmount amount dust_threshold
  obtain ⟨hlen, hmerged⟩ := mergeOutAmounts_spec hmax (decomposeAmount amount dust_threshold)
    (by rw [hsum]; exact amount.toNat_lt)
  exact ⟨by rw [hlen]; exact Nat.min_le_right _ _, hmerged.trans hsum⟩

/-- The amount of the comment on `decompose_amount_into_digits`, merged into two outputs: the
dust, and the other chunks added together. -/
theorem decompose_and_merge_preserve_reward_sample :
    mergeOutAmounts 2 (decomposeAmount 62387455827 455827) = [455827, 62387000000] ∧
      ((mergeOutAmounts 2 (decomposeAmount 62387455827 455827)).map UInt64.toNat).sum =
        62387455827 :=
  ⟨by decide +kernel, ((decompose_and_merge_preserve_reward 455827 62387455827).2.1 2 (by decide)).2⟩

end UltraNoteCore
