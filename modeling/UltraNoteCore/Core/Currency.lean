import UltraNoteCore.Basic.FormatUtils

/-!
# The currency: emission, deposit interest and size limits

`Currency` holds the parameters a `CurrencyBuilder` sets (`Currency.h`); `Currency.mainnet` is
the builder's defaults, the constants of `CryptoNoteConfig.h`. The functions are those of
`Currency.cpp` and `CryptoNoteBasicImpl.cpp` the blockchain and the pool call, in the source's
integer widths: amounts are `uint64_t` and wrap, the 128-bit intermediate products of
`mul128`/`div128_32` are exact natural numbers, sizes and heights are natural numbers.

## Main definitions

* `Currency.baseRewardFunction`, `Currency.getBlockReward`, `getPenalizedAmount`: the coinbase
  a block may claim
* `Currency.calculateInterest`, `Currency.getTransactionAllInputsAmount`,
  `Currency.calculateTotalTransactionInterest`: what a transaction's inputs are worth at a height
* `Currency.maxBlockCumulativeSize`: the size limit of a block at a height
-/

namespace UltraNoteCore

/-- The parameters of `Currency` that the modelled functions read (`m_…` in `Currency.h`). -/
structure Currency where
  moneySupply : UInt64
  minedMoneyUnlockWindow : Nat
  timestampCheckWindow : Nat
  blockFutureTimeLimit : UInt64
  rewardBlocksWindow : Nat
  blockGrantedFullRewardZone : Nat
  minerTxBlobReservedSize : Nat
  difficultyTarget : UInt64
  difficultyWindow : Nat
  difficultyLag : Nat
  difficultyCut : Nat
  depositMinAmount : UInt64
  depositMinTerm : UInt32
  depositMaxTerm : UInt32
  depositMinTotalRateFactor : UInt64
  depositMaxTotalRate : UInt64
  maxBlockSizeInitial : Nat
  maxBlockSizeGrowthSpeedNumerator : UInt64
  maxBlockSizeGrowthSpeedDenominator : UInt64
  lockedTxAllowedDeltaSeconds : UInt64
  lockedTxAllowedDeltaBlocks : Nat
  maxBlockHeight : UInt64
  mempoolTxLiveTime : UInt64
  mempoolTxFromAltBlockLiveTime : UInt64
  numberOfPeriodsToForgetTxDeletedFromPool : UInt64
  upgradeHeightV2 : UInt32
  upgradeHeightV3 : UInt32
  upgradeVotingThreshold : Nat
  upgradeVotingWindow : Nat
  upgradeWindow : Nat
  defaultDustThreshold : UInt64
  transactionMaxSize : Nat
  fusionTxMaxSize : Nat
  fusionTxMinInputCount : Nat
  fusionTxMinInOutCountRatio : Nat

/-- `COIN`, the number of atomic units in one coin. -/
def COIN : UInt64 := 1000000
/-- `MINIMUM_FEE`. -/
def MINIMUM_FEE : UInt64 := 1000
/-- `START_BLOCK_REWARD`. -/
def START_BLOCK_REWARD : UInt64 := 5 * COIN
/-- `FOUNDATION_TRUST`, the reward of the block at height one. -/
def FOUNDATION_TRUST : UInt64 := 2100000 * COIN
/-- `MAX_BLOCK_REWARD`. -/
def MAX_BLOCK_REWARD : UInt64 := 10 * COIN
/-- `REWARD_INCREASE_INTERVAL`. -/
def REWARD_INCREASE_INTERVAL : Nat := 22000
/-- `Currency::REWARD_INCREASING_FACTOR`: the 81 entries `0, 250000, …, 20000000`. -/
def REWARD_INCREASING_FACTOR : List UInt64 :=
  (List.range 81).map fun i => UInt64.ofNat (250000 * i)
/-- `MULTIPLIER_FACTOR`, the interest multiplier of early deposits. -/
def MULTIPLIER_FACTOR : UInt64 := 10
/-- `END_MULTIPLIER_BLOCK`: up to this height deposit interest is multiplied. -/
def END_MULTIPLIER_BLOCK : Nat := 3600
/-- `DEFAULT_DUST_THRESHOLD`. -/
def DEFAULT_DUST_THRESHOLD : UInt64 := 10
/-- `CRYPTONOTE_MAX_TX_SIZE_LIMIT`: a quarter of the full-reward zone, less the coinbase
reserve. -/
def CRYPTONOTE_MAX_TX_SIZE_LIMIT : Nat := 100000 / 4 - 600
/-- `UpgradeDetectorBase::UNDEF_HEIGHT`. -/
def UNDEF_HEIGHT : UInt32 := 0xFFFFFFFF

/-- The defaults of `CurrencyBuilder`, i.e. the constants of `CryptoNoteConfig.h`. -/
def Currency.mainnet : Currency where
  moneySupply := 21000000000000
  minedMoneyUnlockWindow := 10
  timestampCheckWindow := 30
  blockFutureTimeLimit := 60 * 60 * 2
  rewardBlocksWindow := 100
  blockGrantedFullRewardZone := 100000
  minerTxBlobReservedSize := 600
  difficultyTarget := 120
  difficultyWindow := 720
  difficultyLag := 15
  difficultyCut := 60
  depositMinAmount := 1 * COIN
  depositMinTerm := 22000
  depositMaxTerm := 1 * 12 * 22000
  depositMinTotalRateFactor := 0
  depositMaxTotalRate := 3
  maxBlockSizeInitial := 100000 * 10
  maxBlockSizeGrowthSpeedNumerator := 100 * 1024
  maxBlockSizeGrowthSpeedDenominator := 365 * 24 * 60 * 60 / 120
  lockedTxAllowedDeltaSeconds := 120 * 1
  lockedTxAllowedDeltaBlocks := 1
  maxBlockHeight := 500000000
  mempoolTxLiveTime := 60 * 60 * 12
  mempoolTxFromAltBlockLiveTime := 60 * 60 * 24
  numberOfPeriodsToForgetTxDeletedFromPool := 7
  upgradeHeightV2 := 1
  upgradeHeightV3 := 2
  upgradeVotingThreshold := 90
  upgradeVotingWindow := 720
  upgradeWindow := 720
  defaultDustThreshold := DEFAULT_DUST_THRESHOLD
  transactionMaxSize := CRYPTONOTE_MAX_TX_SIZE_LIMIT
  fusionTxMaxSize := CRYPTONOTE_MAX_TX_SIZE_LIMIT * 2
  fusionTxMinInputCount := 12
  fusionTxMinInOutCountRatio := 4

namespace Currency

variable (c : Currency)

/-! ## Emission -/

/-- `Currency::baseRewardFunction`: the foundation reward at height one, otherwise the reward
schedule capped by `MAX_BLOCK_REWARD` and by what is left of the supply (`m_moneySupply -
alreadyGeneratedCoins`, in `uint64_t`). -/
def baseRewardFunction (alreadyGeneratedCoins : UInt64) (height : Nat) : UInt64 :=
  if height = 1 then FOUNDATION_TRUST
  else
    let baseReward :=
      match REWARD_INCREASING_FACTOR[height / REWARD_INCREASE_INTERVAL]? with
      | some factor => START_BLOCK_REWARD + factor
      | none => MAX_BLOCK_REWARD
    min (min baseReward MAX_BLOCK_REWARD) (c.moneySupply - alreadyGeneratedCoins)

end Currency

/-- `getPenalizedAmount` (`CryptoNoteBasicImpl.cpp`): `amount` scaled by
`s (2m - s) / m²` for a block of size `s` above the median `m`. The factor is computed in
`size_t`, the product and the two divisions by `static_cast<uint32_t>(m)` in 128 bits. -/
def getPenalizedAmount (amount : UInt64) (medianSize currentBlockSize : Nat) : UInt64 :=
  if amount = 0 then 0
  else if currentBlockSize ≤ medianSize then amount
  else
    let m := UInt64.ofNat medianSize
    let s := UInt64.ofNat currentBlockSize
    let divisor := medianSize % 2 ^ 32
    UInt64.ofNat (amount.toNat * (s * (2 * m - s)).toNat / divisor / divisor)

namespace Currency

variable (c : Currency)

/-- `Currency::getBlockReward`: `none` when the block is more than twice the (floored) median
size, otherwise the reward and the emission change
`penalizedBaseReward - (fee - penalizedFee)` as `int64_t`. -/
def getBlockReward (medianSize currentBlockSize : Nat) (alreadyGeneratedCoins fee : UInt64)
    (height : Nat) : Option (UInt64 × Int64) :=
  let baseReward := c.baseRewardFunction alreadyGeneratedCoins height
  let median := max medianSize c.blockGrantedFullRewardZone
  if (2 * median) % 2 ^ 64 < currentBlockSize then none
  else
    let penalizedBaseReward := getPenalizedAmount baseReward median currentBlockSize
    let penalizedFee := getPenalizedAmount fee median currentBlockSize
    some (penalizedBaseReward + penalizedFee,
      (penalizedBaseReward - (fee - penalizedFee)).toInt64)

/-! ## Deposit interest -/

/-- `Currency::calculateInterest(amount, term, height)`: `amount · (term · rate - factor) /
(100 · maxTerm)` in 128 bits, times `MULTIPLIER_FACTOR` up to `END_MULTIPLIER_BLOCK`; the low
64 bits are returned. -/
def calculateInterest (amount : UInt64) (term : UInt32) (height : Nat) : UInt64 :=
  let a := term.toUInt64 * c.depositMaxTotalRate - c.depositMinTotalRateFactor
  let quotient := amount.toNat * a.toNat / ((100 * c.depositMaxTerm.toNat) % 2 ^ 32)
  if height ≤ END_MULTIPLIER_BLOCK then UInt64.ofNat (quotient % 2 ^ 64) * MULTIPLIER_FACTOR
  else UInt64.ofNat quotient

/-- `Currency::getTransactionInputAmount`: a deposit withdrawal is worth its principal plus
its interest at `height`. -/
def getTransactionInputAmount (height : Nat) : TransactionInput → UInt64
  | .key k => k.amount
  | .multisignature m =>
    if m.term = 0 then m.amount else m.amount + c.calculateInterest m.amount m.term height
  | .base _ => 0

/-- `Currency::getTransactionAllInputsAmount`: the `uint64_t` sum of the input amounts. -/
def getTransactionAllInputsAmount (tx : TransactionPrefix) (height : Nat) : UInt64 :=
  tx.inputs.foldl (fun acc i => acc + c.getTransactionInputAmount height i) 0

/-- The interest `calculateTotalTransactionInterest` credits one input. -/
def inputInterest (height : Nat) : TransactionInput → UInt64
  | .multisignature m => if m.term = 0 then 0 else c.calculateInterest m.amount m.term height
  | _ => 0

/-- `Currency::calculateTotalTransactionInterest`: the interest of the deposit withdrawals. -/
def calculateTotalTransactionInterest (tx : TransactionPrefix) (height : Nat) : UInt64 :=
  tx.inputs.foldl (fun acc i => acc + c.inputInterest height i) 0

/-! ## Block size -/

/-- `Currency::maxBlockCumulativeSize`: the initial limit plus the growth up to `height`, in
`uint64_t`. -/
def maxBlockCumulativeSize (height : Nat) : Nat :=
  (UInt64.ofNat c.maxBlockSizeInitial +
    UInt64.ofNat height * c.maxBlockSizeGrowthSpeedNumerator /
      c.maxBlockSizeGrowthSpeedDenominator).toNat

/-- `Currency::upgradeHeight`: the configured upgrade height of a major version. -/
def upgradeHeight (majorVersion : UInt8) : UInt32 :=
  if majorVersion = BLOCK_MAJOR_VERSION_2 then c.upgradeHeightV2
  else if majorVersion = BLOCK_MAJOR_VERSION_3 then c.upgradeHeightV3
  else UNDEF_HEIGHT

/-- `Currency::calculateUpgradeHeight`. -/
def calculateUpgradeHeight (voteCompleteHeight : UInt32) : UInt32 :=
  voteCompleteHeight + UInt32.ofNat c.upgradeWindow

end Currency

end UltraNoteCore
