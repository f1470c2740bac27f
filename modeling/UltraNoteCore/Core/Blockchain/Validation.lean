import UltraNoteCore.Core.Blockchain.State
import UltraNoteCore.Basic.Math
import UltraNoteCore.Prelude.GreedyMatch
import UltraNoteCore.Prelude.Codec

/-!
# What the blockchain checks before it accepts a block

The read-only checks of `Blockchain.cpp`: the inputs of a transaction against the indexes (key
images not spent, ring members unlocked and of the right type, multisignature outputs unspent,
mature and correctly signed), the outputs of a transaction, the version, timestamp and
coinbase of a block, the size limit and the reward, and the difficulty the next block must
meet. They read the state and never change it; those that read the block store through
`SwappedVector::operator[]` can throw.

## Main definitions

* `Blockchain.is_tx_spendtime_unlocked`, `scanOutputKeysForIndexes`, `check_tx_input`,
  `validateInput`, `checkTransactionInputs`, `check_tx_outputs`, `checkTransactionSize`
* `Blockchain.get_block_major_version_for_height`, `checkBlockVersion`,
  `check_block_timestamp_main`, `getDifficultyForNextBlock`
* `Blockchain.prevalidate_miner_transaction`, `validate_miner_transaction`,
  `checkCumulativeBlockSize`, `update_next_comulative_size_limit`
* `Blockchain.SpendsMultisignatureOutput`: what a valid multisignature input spends

## Main results

* `validateInput_eq_ok_true`: the checks `validateInput` makes, in the order it makes them
* `validateInput_iff_spends`: a multisignature input with one signature per required signer
  passes iff it spends an unused, unlocked, mature output of its amount, signature count and
  term whose keys sign it in key order
-/

namespace UltraNoteCore

namespace Blockchain

variable (ctx : Context) (s : Blockchain)

/-! ## Versions and heights -/

/-- `Blockchain::get_block_major_version_for_height`: the version of the last upgrade whose
height lies below `height`. -/
def get_block_major_version_for_height (height : UInt64) : UInt8 :=
  if (s.m_upgradeDetectorV3.upgradeHeight ctx.m_currency).toUInt64 < height then
    s.m_upgradeDetectorV3.m_targetVersion
  else if (s.m_upgradeDetectorV2.upgradeHeight ctx.m_currency).toUInt64 < height then
    s.m_upgradeDetectorV2.m_targetVersion
  else BLOCK_MAJOR_VERSION_1

/-- `Blockchain::getBlockMajorVersionForHeight`, the same test on a `uint32_t` height. -/
def getBlockMajorVersionForHeight (height : UInt32) : UInt8 :=
  s.get_block_major_version_for_height ctx height.toUInt64

/-- `Blockchain::checkBlockVersion`: the block's major version is the one of the height its
coinbase claims. -/
def checkBlockVersion (b : Block) : Bool :=
  b.majorVersion == s.get_block_major_version_for_height ctx (get_block_height b).toUInt64

/-- `Blockchain::isInCheckpointZone`. -/
def isInCheckpointZone (height : UInt32) : Bool :=
  ctx.m_checkpoints.is_in_checkpoint_zone height

/-! ## Inputs of a transaction -/

/-- `Blockchain::is_tx_spendtime_unlocked`: an unlock time below `maxBlockHeight` is a height,
compared with the current one (`getCurrentBlockchainHeight() - 1` in `uint32_t`), otherwise a
time, compared with the wall clock. -/
def is_tx_spendtime_unlocked (unlock_time : UInt64) : Bool :=
  if unlock_time < ctx.m_currency.maxBlockHeight then
    decide (unlock_time ≤ (s.getCurrentBlockchainHeight - 1).toUInt64 +
      UInt64.ofNat ctx.m_currency.lockedTxAllowedDeltaBlocks)
  else decide (unlock_time ≤ ctx.now + ctx.m_currency.lockedTxAllowedDeltaSeconds)

/-- The output visitor of `check_tx_input` on one ring member: the transaction holding it is
unlocked and the output is a key output, whose key is collected. -/
def ringMemberKey (tx : Transaction) (out : TransactionOutput) : Option PublicKey :=
  if !s.is_tx_spendtime_unlocked ctx tx.unlockTime then none
  else
    match out.target with
    | .key k => some k.key
    | .multisignature _ => none

/-- The loop of `scanOutputKeysForIndexes` over the absolute ring indexes: each must name an
output of the amount, in a stored transaction, that the visitor accepts. -/
def scanRing (amount_outs_vec : List (TransactionIndex × UInt16)) :
    List UInt32 → Except BlockchainException (Option (List PublicKey))
  | [] => .ok (some [])
  | i :: rest => do
    let some (ti, oi) := amount_outs_vec[i.toNat]? | return none
    let some entry ← s.transactionByIndex ti | return none
    let some out := entry.tx.outputs[oi.toNat]? | return none
    let some key := s.ringMemberKey ctx entry.tx out | return none
    let some keys ← scanRing amount_outs_vec rest | return none
    return some (key :: keys)

/-- `Blockchain::scanOutputKeysForIndexes` with the visitor of `check_tx_input`: the keys of the
ring of a key input, or `none` when a member is missing, locked or not a key output. -/
def scanOutputKeysForIndexes (txin : KeyInput) :
    Except BlockchainException (Option (List PublicKey)) :=
  let amount_outs_vec := s.m_outputs txin.amount
  if amount_outs_vec = [] ∨ txin.outputIndexes = [] then .ok none
  else s.scanRing ctx amount_outs_vec (relative_output_offsets_to_absolute txin.outputIndexes)

/-- `Blockchain::check_tx_input`: the ring resolves, has one signature per member, and (outside
the checkpoint zone) the key image is in the subgroup and the ring signature verifies. -/
def check_tx_input (txin : KeyInput) (tx_prefix_hash : Hash) (sig : List Signature) :
    Except BlockchainException Bool := do
  let some output_keys ← s.scanOutputKeysForIndexes ctx txin | return false
  if txin.outputIndexes.length ≠ output_keys.length then return false
  if sig.length ≠ output_keys.length then return false
  if isInCheckpointZone ctx s.getCurrentBlockchainHeight then return true
  if !ctx.prims.keyImageInSubgroup txin.keyImage then return false
  return ctx.prims.check_ring_signature tx_prefix_hash txin.keyImage output_keys sig

/-- The signature loop of `validateInput`: each signature, in order, must verify under a key
that comes after the key of the previous one. -/
def matchSignatures (transactionPrefixHash : Hash) : List Signature → List PublicKey → Bool
  | [], _ => true
  | _ :: _, [] => false
  | sig :: sigs, key :: keys =>
    if ctx.prims.check_signature transactionPrefixHash key sig then
      matchSignatures transactionPrefixHash sigs keys
    else matchSignatures transactionPrefixHash (sig :: sigs) keys

/-- `Blockchain::validateInput`: the multisignature output exists, is unspent, unlocked and (for
a deposit) mature, has the input's signature count and term, and the signatures verify.
`boost::get<MultisignatureOutput>` throws if the indexed output is a key output; an indexed
output past the end of its transaction (an unchecked access) fails the check. -/
def validateInput (input : MultisignatureInput) (transactionPrefixHash : Hash)
    (transactionSignatures : List Signature) : Except BlockchainException Bool := do
  let amountOutputs := s.m_multisignatureOutputs input.amount
  let some outputIndex := amountOutputs[input.outputIndex.toNat]? | return false
  if outputIndex.isUsed then return false
  let some entry ← s.transactionByIndex outputIndex.transactionIndex | return false
  let outputTransaction := entry.tx
  if !s.is_tx_spendtime_unlocked ctx outputTransaction.unlockTime then return false
  let some out := outputTransaction.outputs[outputIndex.outputIndex.toNat]? | return false
  let .multisignature output := out.target | throw .bad_get
  if input.signatureCount ≠ output.requiredSignatureCount then return false
  if input.term ≠ output.term then return false
  if output.term ≠ 0 ∧
      s.getCurrentBlockchainHeight < outputIndex.transactionIndex.block + output.term then
    return false
  return matchSignatures ctx transactionPrefixHash
    (transactionSignatures.take input.signatureCount.toNat) output.keys

/-- The input loop of `Blockchain::checkTransactionInputs`; `inputIndex` counts the inputs, each
checked against its list of signatures. -/
def checkInputs (tx : Transaction) (tx_prefix_hash : Hash) (inputIndex : Nat) :
    List TransactionInput → Except BlockchainException Bool
  | [] => .ok true
  | .key in_to_key :: rest => do
    if in_to_key.outputIndexes = [] then return false
    if s.have_tx_keyimg_as_spent in_to_key.keyImage then return false
    if !isInCheckpointZone ctx s.getCurrentBlockchainHeight then
      if !(← s.check_tx_input ctx in_to_key tx_prefix_hash (tx.signatures.getD inputIndex [])) then
        return false
    checkInputs tx tx_prefix_hash (inputIndex + 1) rest
  | .multisignature m :: rest => do
    if !isInCheckpointZone ctx s.getCurrentBlockchainHeight then
      if !(← s.validateInput ctx m tx_prefix_hash (tx.signatures.getD inputIndex [])) then
        return false
    checkInputs tx tx_prefix_hash (inputIndex + 1) rest
  | .base _ :: _ => .ok false

/-- `Blockchain::checkTransactionInputs(tx)`: every input is a key input whose key image is not
spent or a multisignature input, and outside the checkpoint zone each passes its check. -/
def checkTransactionInputs (tx : Transaction) : Except BlockchainException Bool :=
  s.checkInputs ctx tx (ctx.prims.getPrefixHash tx.toTransactionPrefix) 0 tx.inputs

/-! ## Outputs, sizes and the coinbase -/

/-- `Blockchain::check_tx_outputs`: multisignature outputs need version 2, and a deposit needs a
term within the currency's bounds and the minimal amount. -/
def check_tx_outputs (tx : Transaction) : Bool :=
  tx.outputs.all fun out =>
    match out.target with
    | .multisignature m =>
      if tx.version < TRANSACTION_VERSION_2 then false
      else if m.term ≠ 0 then
        if m.term < ctx.m_currency.depositMinTerm ∨ ctx.m_currency.depositMaxTerm < m.term then
          false
        else decide (ctx.m_currency.depositMinAmount ≤ out.amount)
      else true
    | .key _ => true

/-- `Blockchain::checkTransactionSize`: below the current limit less the space reserved for the
coinbase, in `uint64_t`. -/
def checkTransactionSize (blobSize : Nat) : Bool :=
  decide (UInt64.ofNat blobSize < UInt64.ofNat s.m_current_block_cumul_sz_limit -
    UInt64.ofNat ctx.m_currency.minerTxBlobReservedSize)

/-- `Blockchain::get_last_n_blocks_sizes`: the cumulative sizes of the last `count` blocks. -/
def get_last_n_blocks_sizes (count : Nat) : List Nat :=
  (s.m_blocks.drop (s.m_blocks.length - count)).map (·.block_cumulative_size)

/-- `Blockchain::checkCumulativeBlockSize`. -/
def checkCumulativeBlockSize (cumulativeBlockSize : Nat) (height : Nat) : Bool :=
  decide (cumulativeBlockSize ≤ ctx.m_currency.maxBlockCumulativeSize height)

/-- `Blockchain::update_next_comulative_size_limit`: twice the median size of the last
`rewardBlocksWindow` blocks, at least twice the full-reward zone. -/
def update_next_comulative_size_limit : Blockchain :=
  let median := medianValue (s.get_last_n_blocks_sizes ctx.m_currency.rewardBlocksWindow)
  let median := if median ≤ ctx.m_currency.blockGrantedFullRewardZone then
    ctx.m_currency.blockGrantedFullRewardZone else median
  { s with m_current_block_cumul_sz_limit := median * 2 }

/-- `Blockchain::prevalidate_miner_transaction`: a coinbase has one `BaseInput` naming the
height, at most one signature, unlocks after `minedMoneyUnlockWindow` blocks, and has valid
outputs that do not overflow. -/
def prevalidate_miner_transaction (b : Block) (height : UInt32) : Bool :=
  match b.baseTransaction.inputs with
  | [input] =>
    if 1 < b.baseTransaction.signatures.length then false
    else
      match input with
      | .base base =>
        base.blockIndex == height &&
          b.baseTransaction.unlockTime ==
            height.toUInt64 + UInt64.ofNat ctx.m_currency.minedMoneyUnlockWindow &&
          check_outs_valid ctx.prims.check_key b.baseTransaction.toTransactionPrefix &&
          check_outs_overflow b.baseTransaction.toTransactionPrefix
      | _ => false
  | _ => false

/-- The first height from which the coinbase must claim exactly the block reward. -/
def EXACT_MINER_REWARD_HEIGHT : Nat := 290700

/-- `Blockchain::validate_miner_transaction`: the reward and emission change for a block of
this size; `none` when the block is too big for a reward. Below height 290700 a coinbase
claiming more or less than the reward is accepted. -/
def validate_miner_transaction (b : Block) (height : Nat) (cumulativeBlockSize : Nat)
    (alreadyGeneratedCoins fee : UInt64) : Option (UInt64 × Int64) :=
  let minerReward := b.baseTransaction.outputs.foldl (fun acc o => acc + o.amount) 0
  let blocksSizeMedian :=
    medianValue (s.get_last_n_blocks_sizes ctx.m_currency.rewardBlocksWindow)
  match ctx.m_currency.getBlockReward blocksSizeMedian cumulativeBlockSize alreadyGeneratedCoins
      fee height with
  | none => none
  | some (reward, emissionChange) =>
    if minerReward ≠ reward ∧ EXACT_MINER_REWARD_HEIGHT ≤ height then none
    else some (reward, emissionChange)

/-! ## Timestamps and difficulty -/

/-- `Blockchain::check_block_timestamp`: with a full window, not below the median. -/
def check_block_timestamp (timestamps : List UInt64) (b : Block) : Bool :=
  if timestamps.length < ctx.m_currency.timestampCheckWindow then true
  else decide (medianValue timestamps ≤ b.timestamp)

/-- `Blockchain::check_block_timestamp_main`: not more than `blockFutureTimeLimit` ahead of the
clock, and not below the median of the last `timestampCheckWindow` blocks. -/
def check_block_timestamp_main (b : Block) : Bool :=
  if ctx.now + ctx.m_currency.blockFutureTimeLimit < b.timestamp then false
  else
    let timestamps := (s.m_blocks.drop (s.m_blocks.length -
      ctx.m_currency.timestampCheckWindow)).map (·.bl.timestamp)
    check_block_timestamp ctx timestamps b

/-- `Blockchain::getDifficultyForNextBlock`: the difficulty algorithm of the next height's
version over the last blocks but the genesis block. -/
def getDifficultyForNextBlock : UInt64 :=
  let count := ctx.m_currency.difficultyBlocksCountByBlockVersion
    (s.getBlockMajorVersionForHeight ctx s.getCurrentBlockchainHeight)
  let offset := s.m_blocks.length - min s.m_blocks.length count
  let offset := if offset = 0 then 1 else offset
  let window := s.m_blocks.drop offset
  let timestamps := window.map (·.bl.timestamp)
  let commulative_difficulties := window.map (·.cumulative_difficulty)
  if BLOCK_MAJOR_VERSION_3 ≤
      s.get_block_major_version_for_height ctx (s.getCurrentBlockchainHeight + 1).toUInt64 then
    Currency.nextDifficultyLWMA3 timestamps commulative_difficulties
  else ctx.m_currency.nextDifficulty timestamps commulative_difficulties

/-! ## Multisignature inputs -/

section MultisignatureInput

variable (input : MultisignatureInput) (transactionPrefixHash : Hash)
  (transactionSignatures : List Signature)

/-- The signature loop is the greedy walk that matches each signature to the first key after
the previous match that it verifies under. -/
theorem matchSignatures_eq_greedyMatch (sigs : List Signature) (keys : List PublicKey) :
    matchSignatures ctx transactionPrefixHash sigs keys =
      GreedyMatch.greedyMatch (fun sig key => ctx.prims.check_signature transactionPrefixHash key sig)
        sigs keys := by
  fun_induction matchSignatures ctx transactionPrefixHash sigs keys with
  | case1 keys => rw [GreedyMatch.greedyMatch_nil]
  | case2 sig sigs => rfl
  | case3 sig sigs key keys hsig ih => rw [GreedyMatch.greedyMatch_cons_cons, if_pos hsig, ih]
  | case4 sig sigs key keys hsig ih => rw [GreedyMatch.greedyMatch_cons_cons, if_neg hsig, ih]

/-- `validateInput` returns `true` exactly when every check passes: the output of the input's
amount and index exists and is unused, its transaction is stored and unlocked, the output is a
multisignature output of the input's signature count and term, a deposit is mature (in the
`uint32_t` sum of the source), and the signature loop succeeds. -/
theorem validateInput_eq_ok_true :
    s.validateInput ctx input transactionPrefixHash transactionSignatures = .ok true ↔
      ∃ usage entry out output,
        (s.m_multisignatureOutputs input.amount)[input.outputIndex.toNat]? = some usage ∧
        usage.isUsed = false ∧
        s.transactionByIndex usage.transactionIndex = .ok (some entry) ∧
        s.is_tx_spendtime_unlocked ctx entry.tx.unlockTime = true ∧
        entry.tx.outputs[usage.outputIndex.toNat]? = some out ∧
        out.target = .multisignature output ∧
        output.requiredSignatureCount = input.signatureCount ∧
        output.term = input.term ∧
        (output.term ≠ 0 →
          usage.transactionIndex.block + output.term ≤ s.getCurrentBlockchainHeight) ∧
        matchSignatures ctx transactionPrefixHash
          (transactionSignatures.take input.signatureCount.toNat) output.keys = true := by
  constructor
  · intro hv
    unfold validateInput at hv
    dsimp only at hv
    -- one split per check; every failing branch returns `false` or throws
    split at hv
    · rename_i usage husage
      split_ifs at hv with hused
      · cases hv
      obtain ⟨lookup, hentry, hv⟩ := Codec.bind_eq_ok.mp hv
      split at hv
      · rename_i entry
        split_ifs at hv with hunl
        · cases hv
        split at hv
        · rename_i out hout
          split at hv
          · rename_i output htarget
            split_ifs at hv with hcount hterm hmature
            · cases hv
            · cases hv
            · cases hv
            refine ⟨usage, entry, out, output, husage, by simpa using hused, hentry,
              by simpa using hunl, hout, htarget, (not_not.mp hcount).symm,
              (not_not.mp hterm).symm, fun hz => ?_, Codec.pure_eq_ok.mp hv⟩
            exact UInt32.not_lt.mp fun hlt => hmature ⟨hz, hlt⟩
          · cases hv
        · cases hv
      · cases hv
    · cases hv
  · rintro ⟨usage, entry, out, output, husage, hused, hentry, hunl, hout, htarget, hcount, hterm,
      hmature, hsig⟩
    have hmature' : ¬(input.term ≠ 0 ∧
        s.getCurrentBlockchainHeight < usage.transactionIndex.block + input.term) := by
      rintro ⟨hz, hlt⟩
      rw [← hterm] at hz hlt
      exact absurd (hmature hz) (UInt32.not_le.mpr hlt)
    unfold validateInput
    simp [husage, hused, hentry, hunl, hout, htarget, hcount, hterm, hsig, hmature']

/-- What a multisignature input with signatures `transactionSignatures` spends: an unused
output of its amount at its index, in a stored and unlocked transaction, that is a
multisignature output of the input's signature count and term, mature if it is a deposit, and
whose keys at some strictly increasing indices `k j` verify the signatures `j` in order. -/
def SpendsMultisignatureOutput : Prop :=
  ∃ usage entry out output,
    (s.m_multisignatureOutputs input.amount)[input.outputIndex.toNat]? = some usage ∧
    usage.isUsed = false ∧
    s.transactionByIndex usage.transactionIndex = .ok (some entry) ∧
    s.is_tx_spendtime_unlocked ctx entry.tx.unlockTime = true ∧
    entry.tx.outputs[usage.outputIndex.toNat]? = some out ∧
    out.target = .multisignature output ∧
    output.requiredSignatureCount = input.signatureCount ∧
    output.term = input.term ∧
    (output.term ≠ 0 →
      usage.transactionIndex.block + output.term ≤ s.getCurrentBlockchainHeight) ∧
    ∃ k : Fin transactionSignatures.length ↪o Fin output.keys.length,
      ∀ j, ctx.prims.check_signature transactionPrefixHash (output.keys.get (k j))
        (transactionSignatures.get j) = true

theorem validateInput_iff_spends
    (hsignatures : transactionSignatures.length = input.signatureCount.toNat) :
    s.validateInput ctx input transactionPrefixHash transactionSignatures = .ok true ↔
      s.SpendsMultisignatureOutput ctx input transactionPrefixHash transactionSignatures := by
  rw [validateInput_eq_ok_true, List.take_of_length_le hsignatures.le, SpendsMultisignatureOutput]
  simp only [matchSignatures_eq_greedyMatch, GreedyMatch.greedyMatch_iff_exists_orderEmbedding]

end MultisignatureInput

/-! ### A two-of-three output -/

/-- Primitives under which a signature verifies exactly under the key of the same number. -/
def sampleSignatureContext : Context where
  m_currency := Currency.mainnet
  m_checkpoints := Checkpoints.empty
  prims :=
    { get_block_hash := fun _ => NULL_HASH
      getObjectHash := fun _ => NULL_HASH
      getPrefixHash := fun _ => NULL_HASH
      getObjectBinarySize := fun _ => 0
      check_key := fun _ => true
      check_signature := fun _ key sig => key.data.toNat == sig.data.toNat
      keyImageInSubgroup := fun _ => true
      check_ring_signature := fun _ _ _ _ => true
      get_block_longhash := fun _ => none
      hasMergeMiningTag := fun _ => false
      getPaymentId := fun _ => none
      ttl := fun _ => 0
      isFusionTransaction := fun _ _ => false }
  now := 0

/-- A coinbase whose only output is a two-of-three multisignature output to the keys `1`, `2`
and `3`. -/
def sampleMultisignatureTx : Transaction :=
  { version := 2, unlockTime := 0, inputs := [.base ⟨0⟩],
    outputs := [⟨5000000, .multisignature ⟨[⟨1⟩, ⟨2⟩, ⟨3⟩], 2, 0⟩⟩], extra := [],
    signatures := [] }

/-- The block at height `0` holding `sampleMultisignatureTx`. -/
def sampleMultisignatureBlock : BlockEntry where
  bl := ⟨⟨1, 0, 0, 0, NULL_HASH⟩, sampleMultisignatureTx, []⟩
  height := 0
  block_cumulative_size := 0
  cumulative_difficulty := 1
  already_generated_coins := 0
  transactions := [⟨sampleMultisignatureTx, [0]⟩]

/-- A chain of one block holding `sampleMultisignatureTx`, whose output is indexed unused. -/
def sampleMultisignatureChain : Blockchain :=
  { Blockchain.empty tx_memory_pool.empty with
    m_blocks := [sampleMultisignatureBlock]
    m_multisignatureOutputs := fun _ => [⟨⟨0, 0⟩, 0, false⟩] }

/-- The signatures of the keys `1` and `3` spend the output: the loop skips key `2`. -/
theorem validateInput_iff_spends_sample :
    [(⟨1⟩ : Signature), ⟨3⟩].length = (⟨5000000, 2, 0, 0⟩ : MultisignatureInput).signatureCount.toNat ∧
      sampleMultisignatureChain.SpendsMultisignatureOutput sampleSignatureContext ⟨5000000, 2, 0, 0⟩
        NULL_HASH [⟨1⟩, ⟨3⟩] :=
  ⟨rfl, (validateInput_iff_spends sampleSignatureContext sampleMultisignatureChain _ _ _ rfl).mp
    (by decide +kernel)⟩

/-! ### A deposit whose term wraps the maturity height -/

/-- A coinbase whose only output is a one-key multisignature output of term `2 ^ 32 - 1`: a
deposit that should never mature. -/
def sampleWrappingDepositTx : Transaction :=
  { version := 2, unlockTime := 0, inputs := [.base ⟨1⟩],
    outputs := [⟨5000000, .multisignature ⟨[⟨1⟩], 1, 4294967295⟩⟩], extra := [],
    signatures := [] }

/-- A chain of twelve blocks whose block `1` holds `sampleWrappingDepositTx`, its output indexed
unused. -/
def sampleWrappingDepositChain : Blockchain :=
  { Blockchain.empty tx_memory_pool.empty with
    m_blocks := sampleMultisignatureBlock ::
      { sampleMultisignatureBlock with
        bl := ⟨⟨1, 0, 0, 0, NULL_HASH⟩, sampleWrappingDepositTx, []⟩, height := 1
        transactions := [⟨sampleWrappingDepositTx, [0]⟩] } ::
      List.replicate 10 sampleMultisignatureBlock
    m_multisignatureOutputs := fun _ => [⟨⟨1, 0⟩, 0, false⟩] }

/-- **The maturity test wraps.** At height `12` the deposit of block `1` with term `2 ^ 32 - 1`
is spent: `1 + term` is `0` in `uint32_t`, below the height, although it lies far above it. -/
theorem validateInput_accepts_wrapped_term :
    sampleWrappingDepositChain.getCurrentBlockchainHeight = 12 ∧
      sampleWrappingDepositChain.validateInput sampleSignatureContext ⟨5000000, 1, 0, 4294967295⟩
        NULL_HASH [⟨1⟩] = .ok true ∧
      sampleWrappingDepositChain.getCurrentBlockchainHeight.toNat <
        1 + (4294967295 : UInt32).toNat := by
  decide +kernel

end Blockchain

end UltraNoteCore
