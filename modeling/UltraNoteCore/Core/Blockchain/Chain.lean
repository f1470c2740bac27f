import UltraNoteCore.Core.Blockchain.Validation

/-!
# Pushing and popping main-chain blocks

`Blockchain::pushBlock` validates a block against the tip of the main chain and stores it;
`popBlock` removes the tip; `loadTransactions` and `saveTransactions` move the transactions of a
block between the pool and the chain. The pool validates what it is given against the
blockchain (`ITransactionValidator`), so the pool's environment at each call is read from the
blockchain's state at that call.

`pushBlock` registers the coinbase and each transaction it accepts in the indexes as it goes.
A rejected transaction makes it take back everything registered so far (`popTransactions`), a
rejected coinbase reward too, but the cumulative-size rejection returns without taking anything
back, and the results of the `pushTransaction` calls are ignored.

The validator's checks read the block store and can throw; the pool sees a thrown check as a
failed one. For the transactions the blockchain gives back to the pool (kept by a block) the
check only sets flags of the verification context, so this changes neither the pool nor the
result of the call.

## Main definitions

* `Blockchain.poolEnv`: the pool's environment, read from the blockchain
* `Blockchain.saveTransactions`, `loadTransactions`
* `Blockchain.checkBlockHeader`: the checks of `pushBlock` before the indexes change
* `Blockchain.pushBlock`: the validating push of a block with its transactions
* `Blockchain.pushBlockAtHeight`: the push of a block whose transactions are in the pool
* `Blockchain.init`, `Blockchain.popBlock`
-/

namespace UltraNoteCore

namespace Blockchain

variable (ctx : Context)

/-! ## The blockchain as the pool's validator -/

/-- The block of the last member of a key input's ring, which `scanOutputKeysForIndexes` records
in `pmax_related_block_height`; `0` past the outputs of the amount. -/
def lastRingMemberBlock (s : Blockchain) (txin : KeyInput) : UInt32 :=
  match (relative_output_offsets_to_absolute txin.outputIndexes).getLast? with
  | none => 0
  | some i => (((s.m_outputs txin.amount)[i.toNat]?).map fun o => o.1.block).getD 0

/-- `pmax_used_block_height` after `checkTransactionInputs`: the newest block a ring of a key
input reaches, over the inputs checked outside the checkpoint zone. -/
def maxUsedBlockHeight (s : Blockchain) (tx : Transaction) : UInt32 :=
  if isInCheckpointZone ctx s.getCurrentBlockchainHeight then 0
  else tx.inputs.foldl (fun m i =>
    match i with
    | .key k => max m (s.lastRingMemberBlock k)
    | _ => m) 0

/-- `Blockchain::checkTransactionInputs(tx, maxUsedBlock)`, the check the pool calls: the inputs
check, the newest block it used in the chain, and the outputs check. A thrown inputs check
counts as failed. -/
def validatorCheckTransactionInputs (s : Blockchain) (tx : Transaction) : Bool :=
  match s.checkTransactionInputs ctx tx with
  | .ok true =>
    decide ((s.maxUsedBlockHeight ctx tx).toNat < s.m_blocks.length) && check_tx_outputs ctx tx
  | _ => false

/-- What the pool reads from the blockchain, the clock and the primitives at a call. -/
def poolEnv (s : Blockchain) : PoolEnv where
  checkTransactionInputs := s.validatorCheckTransactionInputs ctx
  checkTransactionSize := s.checkTransactionSize ctx
  now := ctx.now
  ttl := ctx.prims.ttl
  isFusionTransaction := ctx.prims.isFusionTransaction

/-! ## Moving transactions between the pool and the chain -/

/-- `tx_memory_pool::add_tx(tx, tvc, keptByBlock, height)` called by the blockchain: the pool
hashes and sizes the transaction and validates it against the current state. -/
def addToPool (tx : Transaction) (tvc : tx_verification_context) (keptByBlock : Bool)
    (height : UInt32) : BlockchainM (Bool × tx_verification_context) := do
  let s ← get
  let (added, tvc, pool) := s.m_tx_pool.add_tx ctx.m_currency (s.poolEnv ctx) tx
    (ctx.prims.getObjectHash tx) (ctx.prims.getObjectBinarySize tx) tvc keptByBlock height.toNat
  set { s with m_tx_pool := pool }
  return (added, tvc)

/-- The loop of `saveTransactions`, also the rollback of `loadTransactions`: the transactions go
back to the pool, kept by a block, in order and with one verification context; the first one the
pool refuses throws `what`. -/
def returnTransactions (what : String) (height : UInt32) (tvc : tx_verification_context) :
    List Transaction → BlockchainM Unit
  | [] => pure ()
  | tx :: rest => do
    let (added, tvc) ← addToPool ctx tx tvc true height
    if !added then throw (.runtime_error what)
    returnTransactions what height tvc rest

/-- `Blockchain::saveTransactions`: the transactions of a block go back to the pool, the last
first. -/
def saveTransactions (transactions : List Transaction) (height : UInt32) : BlockchainM Unit :=
  returnTransactions ctx "Blockchain::saveTransactions, failed to add transaction to pool" height
    {} transactions.reverse

/-- The loop of `loadTransactions`: each hash is taken from the pool; at the first one missing,
the transactions taken so far go back, the last first, and the load fails. -/
def takeTransactions (height : UInt32) (taken : List Transaction) :
    List Hash → BlockchainM (Option (List Transaction))
  | [] => pure (some taken)
  | h :: rest => do
    let s ← get
    match s.m_tx_pool.take_tx h with
    | (some (tx, _, _), pool) =>
      set { s with m_tx_pool := pool }
      takeTransactions height (taken ++ [tx]) rest
    | (none, _) =>
      returnTransactions ctx "Blockchain::loadTransactions, failed to add transaction to pool"
        height {} taken.reverse
      return none

/-- `Blockchain::loadTransactions`: the block's transactions, taken from the pool. -/
def loadTransactions (block : Block) (height : UInt32) :
    BlockchainM (Option (List Transaction)) :=
  takeTransactions ctx height [] block.transactionHashes

/-! ## The upgrade detectors -/

/-- The headers of the main-chain blocks, which the upgrade detectors read. -/
def blockHeaders (s : Blockchain) : List BlockHeader :=
  s.m_blocks.map fun b => b.bl.toBlockHeader

/-- `blockPushed` of both detectors, after a block entered the store. -/
def notifyBlockPushed (s : Blockchain) : Blockchain :=
  { s with
    m_upgradeDetectorV2 := s.m_upgradeDetectorV2.blockPushed ctx.m_currency s.blockHeaders
    m_upgradeDetectorV3 := s.m_upgradeDetectorV3.blockPushed ctx.m_currency s.blockHeaders }

/-- `blockPopped` of both detectors, after a block left the store. -/
def notifyBlockPopped (s : Blockchain) : Blockchain :=
  { s with
    m_upgradeDetectorV2 := s.m_upgradeDetectorV2.blockPopped s.blockHeaders
    m_upgradeDetectorV3 := s.m_upgradeDetectorV3.blockPopped s.blockHeaders }

/-! ## `pushBlock` -/

/-- `parameters::UPGRADE_HEIGHT_V3`, from which a coinbase may not carry a merge-mining tag. -/
def UPGRADE_HEIGHT_V3 : UInt64 := 2

/-- The checks of `pushBlock` before any index changes, in the source's order: the difficulty
the block met, or a rejection telling whether it sets `m_verification_failed`. In the
checkpoint zone the checkpoint replaces the proof of work. -/
def checkBlockHeader (s : Blockchain) (blockData : Block) (blockHash : Hash) : Except Bool UInt64 :=
  if s.m_blockIndex.hasBlock blockHash then .error true
  else if !s.checkBlockVersion ctx blockData then .error true
  -- the merge-mining test reads the height of `blockHash` in the index
  else if (match s.m_blockIndex.getBlockHeight blockHash with
      | some height => ctx.prims.hasMergeMiningTag blockData.baseTransaction.extra &&
          decide (UPGRADE_HEIGHT_V3 ≤ height.toUInt64)
      | none => false) then .error false
  else if blockData.previousBlockHash ≠ s.getTailId then .error true
  else if !s.check_block_timestamp_main ctx blockData then .error true
  else
    let currentDifficulty := s.getDifficultyForNextBlock ctx
    if currentDifficulty = 0 then .error false
    else
      let powOk :=
        if ctx.m_checkpoints.is_in_checkpoint_zone s.getCurrentBlockchainHeight then
          (ctx.m_checkpoints.check_block s.getCurrentBlockchainHeight blockHash).1
        else Currency.checkProofOfWork ctx.prims.get_block_longhash blockData currentDifficulty
      if !powOk then .error true
      else if !prevalidate_miner_transaction ctx blockData s.getCurrentBlockchainHeight then
        .error true
      else .ok currentDifficulty

/-- What the transaction loop of `pushBlock` carries: the entry being built, the position of
the last transaction pushed, and the running size, fees and interest. -/
structure BlockBuild where
  block : BlockEntry
  transactionIndex : TransactionIndex
  cumulative_block_size : Nat
  fee_summary : UInt64
  interestSummary : UInt64

/-- The fee `pushBlock` counts for a transaction: inputs less outputs, or `MINIMUM_FEE` when the
outputs exceed the inputs. -/
def transactionFee (tx : Transaction) (height : UInt32) : UInt64 :=
  let in_amount := ctx.m_currency.getTransactionAllInputsAmount tx.toTransactionPrefix height.toNat
  let out_amount := getOutputAmount tx.toTransactionPrefix
  if in_amount < out_amount then MINIMUM_FEE else in_amount - out_amount

/-- The validity test of the transaction loop: a version-1 block holds version-1 transactions,
the inputs check passes (it can throw) and the outputs are valid. The three tests all run. -/
def checkBlockTransaction (s : Blockchain) (majorVersion : UInt8) (tx : Transaction) :
    Except BlockchainException Bool := do
  let versionOk := !(majorVersion == BLOCK_MAJOR_VERSION_1 && TRANSACTION_VERSION_1 < tx.version)
  let inputsOk ← s.checkTransactionInputs ctx tx
  return versionOk && inputsOk && check_tx_outputs ctx tx

/-- The transaction loop of `pushBlock` over the transactions and their hashes. Each entry is
appended to the block; an invalid transaction is dropped again and everything registered so far,
the coinbase included, is taken back; a valid one is registered, whether or not
`pushTransaction` succeeds. The source reads `transactionHashes[i]` for the `i`-th transaction;
callers give one transaction per hash. -/
def pushBlockTransactions (minerTransactionHash : Hash) (build : BlockBuild) :
    List (Transaction × Hash) → BlockchainM (Option BlockBuild)
  | [] => pure (some build)
  | (tx, tx_id) :: rest => do
    let block := { build.block with
      transactions := build.block.transactions ++ [⟨tx, []⟩] }
    let s ← get
    let isTransactionValid ← MonadExcept.ofExcept (s.checkBlockTransaction ctx block.bl.majorVersion tx)
    if !isTransactionValid then
      popTransactions ctx { block with transactions := block.transactions.dropLast }
        minerTransactionHash
      return none
    let transactionIndex := { build.transactionIndex with
      transaction := build.transactionIndex.transaction + 1 }
    let (_, block) ← pushTransaction ctx block tx_id transactionIndex
    pushBlockTransactions minerTransactionHash
      { block, transactionIndex
        cumulative_block_size := build.cumulative_block_size + ctx.prims.getObjectBinarySize tx
        fee_summary := build.fee_summary + transactionFee ctx tx block.height
        interestSummary := build.interestSummary +
          ctx.m_currency.calculateTotalTransactionInterest tx.toTransactionPrefix
            block.height.toNat } rest

/-- The entry of a block that passed every check: its size, its cumulative difficulty and the
coins generated up to it (`already_generated_coins + emissionChange + interestSummary`, in
`uint64_t`). -/
def completeBlockEntry (s : Blockchain) (build : BlockBuild) (currentDifficulty : UInt64)
    (already_generated_coins : UInt64) (emissionChange : Int64) : BlockEntry :=
  { build.block with
    block_cumulative_size := build.cumulative_block_size
    cumulative_difficulty := currentDifficulty +
      match s.m_blocks.getLast? with
      | none => 0
      | some b => b.cumulative_difficulty
    already_generated_coins :=
      already_generated_coins + emissionChange.toUInt64 + build.interestSummary }

/-- `Blockchain::pushBlock(blockData, transactions, id, bvc)`: the header checks, then the
coinbase and each transaction enter the indexes, then the size limit and the coinbase reward are
checked, and the block is stored. Only the invalid-transaction and reward rejections take the
registered transactions back. -/
def pushBlock (blockData : Block) (transactions : List Transaction) (id : Hash)
    (bvc : block_verification_context) : BlockchainM (Bool × block_verification_context) := do
  let failed := { bvc with m_verification_failed := true }
  let s ← get
  match s.checkBlockHeader ctx blockData id with
  | .error setsFailed => return (false, if setsFailed then failed else bvc)
  | .ok currentDifficulty =>
    let minerTransactionHash := ctx.prims.getObjectHash blockData.baseTransaction
    let height := s.getCurrentBlockchainHeight
    let block : BlockEntry := ⟨blockData, height, 0, 0, 0, [⟨blockData.baseTransaction, []⟩]⟩
    let (_, block) ← pushTransaction ctx block minerTransactionHash ⟨height, 0⟩
    let some build ← pushBlockTransactions ctx minerTransactionHash
        ⟨block, ⟨height, 0⟩, ctx.prims.getObjectBinarySize blockData.baseTransaction, 0, 0⟩
        (transactions.zip blockData.transactionHashes)
      | return (false, failed)
    if !checkCumulativeBlockSize ctx build.cumulative_block_size height.toNat then
      return (false, failed)
    let already_generated_coins :=
      match s.m_blocks.getLast? with
      | none => 0
      | some b => b.already_generated_coins
    match s.validate_miner_transaction ctx blockData height.toNat build.cumulative_block_size
        already_generated_coins build.fee_summary with
    | none =>
      popTransactions ctx build.block minerTransactionHash
      return (false, failed)
    | some (_, emissionChange) =>
      let block := s.completeBlockEntry build currentDifficulty already_generated_coins
        emissionChange
      modify fun s => (s.pushBlockEntry ctx block).pushToDepositIndex block build.interestSummary
      modify fun s => (notifyBlockPushed ctx s).update_next_comulative_size_limit ctx
      return (true, { bvc with m_added_to_main_chain := true })

/-- `Blockchain::pushBlock(blockData, id, bvc, height)`: the block's transactions are taken from
the pool, and given back if the push fails. -/
def pushBlockAtHeight (blockData : Block) (id : Hash) (bvc : block_verification_context)
    (height : UInt32) : BlockchainM (Bool × block_verification_context) := do
  let some transactions ← loadTransactions ctx blockData height
    | return (false, { bvc with m_verification_failed := true })
  let (pushed, bvc) ← pushBlock ctx blockData transactions id bvc
  if !pushed then
    saveTransactions ctx transactions height
    return (false, bvc)
  return (true, bvc)

/-- `Blockchain::init` on an empty store: the genesis block is pushed at height `0` and the size
limit computed. On a one-block chain the checkpoint check cannot roll anything back; the upgrade
detectors' `init`, which with configured upgrade heights only checks the stored versions, is not
modelled. -/
def init (genesisBlock : Block) : BlockchainM Bool := do
  let (_, bvc) ← pushBlockAtHeight ctx genesisBlock (ctx.prims.get_block_hash genesisBlock) {} 0
  if bvc.m_verification_failed then return false
  modify (·.update_next_comulative_size_limit ctx)
  return true

/-- `Blockchain::popBlock`: the block's transactions go back to the pool (at the number of
blocks as height) and leave the indexes; the block leaves the store, the block index and the
deposit index; the upgrade detectors are told. The source's hash argument only feeds the
timestamp index. -/
def popBlock : BlockchainM Unit := do
  let s ← get
  match s.m_blocks.getLast? with
  | none => pure ()
  | some last =>
    saveTransactions ctx ((last.transactions.drop 1).map (·.tx)) (UInt32.ofNat s.m_blocks.length)
    popTransactions ctx last (ctx.prims.getObjectHash last.bl.baseTransaction)
    modify fun s => notifyBlockPopped { s with
      m_depositIndex := s.m_depositIndex.popBlock
      m_blocks := s.m_blocks.dropLast
      m_blockIndex := s.m_blockIndex.pop }

end Blockchain

end UltraNoteCore
