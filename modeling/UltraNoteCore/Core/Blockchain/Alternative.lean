import UltraNoteCore.Core.Blockchain.Chain

/-!
# Alternative blocks and reorganisation

A block that does not extend the tip of the main chain goes to `handle_alternative_block`. If
its parent is a main-chain block or an alternative block, it is checked (height allowed by the
checkpoints, version, size, timestamp against its branch, checkpoint, proof of work, coinbase),
given the cumulative difficulty of its branch, and stored among the alternative blocks. If the
branch reaches a checkpoint, or has more cumulative difficulty than the main chain,
`switch_to_alternative_blockchain` pops the main chain down to the branch, pushes the branch
through the full validation of `pushBlockAtHeight`, and stores the popped blocks as alternative
blocks in turn; a failure on the way rolls the main chain back
(`rollback_blockchain_switching`).

Storing the popped blocks runs `handle_alternative_block` again, which may reorganise again. The
model counts this nesting: `handle_alternative_block` takes the depth it may still reorganise
at, and at depth `0` a block that would trigger a reorganisation stays an alternative block.

## Main definitions

* `Blockchain.complete_timestamps_vector`, `get_next_difficulty_for_alternative_chain`,
  `getBlockCumulativeSize`
* `Blockchain.rollback_blockchain_switching`, `switch_to_alternative_blockchain`
* `Blockchain.alternativeEntry`, `reorganisationWanted`: the checks on an alternative block
  and the decision to reorganise
* `Blockchain.handleAlternativeBlock`, `handle_alternative_block`, `addNewBlock`
-/

namespace UltraNoteCore

namespace Blockchain

variable (ctx : Context)

/-! ## What an alternative block is checked against -/

/-- `Blockchain::complete_timestamps_vector`: the timestamps of a branch, completed with those of
the main-chain blocks from `start_top_height` down until `timestampCheckWindow` are gathered.
The loop stops above the stop offset, and at the genesis block only when it starts there. -/
def complete_timestamps_vector (s : Blockchain) (start_top_height : Nat)
    (timestamps : List UInt64) : Bool × List UInt64 :=
  if ctx.m_currency.timestampCheckWindow ≤ timestamps.length then (true, timestamps)
  else if s.m_blocks.length ≤ start_top_height then (false, timestamps)
  else
    let need_elements := ctx.m_currency.timestampCheckWindow - timestamps.length
    let stop_offset := if need_elements < start_top_height then start_top_height - need_elements
      else 0
    let heights := if start_top_height = 0 then [0]
      else (List.range (start_top_height - stop_offset)).map (start_top_height - ·)
    (true, timestamps ++ heights.filterMap fun h => s.m_blocks[h]?.map (·.bl.timestamp))

/-- The window of `get_next_difficulty_for_alternative_chain`: with a branch shorter than the
difficulty window, the main-chain blocks below the branch (but the genesis block) and the
branch; otherwise the last blocks of the branch. `none` when the main-chain part and the branch
exceed the window, which the source reports as an internal error. -/
def alternativeDifficultyWindow (s : Blockchain) (alt_chain : List BlockEntry) (bei : BlockEntry)
    (count : Nat) : Option (List BlockEntry) :=
  if alt_chain.length < count then
    let main_chain_stop_offset := match alt_chain.head? with
      | some front => front.height.toNat
      | none => bei.height.toNat
    let main_chain_count := min (count - min count alt_chain.length) main_chain_stop_offset
    let main_chain_start_offset := main_chain_stop_offset - main_chain_count
    let main_chain_start_offset := if main_chain_start_offset = 0 then 1 else main_chain_start_offset
    let main := (s.m_blocks.drop main_chain_start_offset).take
      (main_chain_stop_offset - main_chain_start_offset)
    if count < alt_chain.length + main.length then none else some (main ++ alt_chain)
  else some (alt_chain.drop (alt_chain.length - count))

/-- `Blockchain::get_next_difficulty_for_alternative_chain`: the difficulty algorithm over the
window of the branch. The window's length and the algorithm follow the version at the main
chain's height, not the branch's. -/
def get_next_difficulty_for_alternative_chain (s : Blockchain) (alt_chain : List BlockEntry)
    (bei : BlockEntry) : UInt64 :=
  let count := ctx.m_currency.difficultyBlocksCountByBlockVersion
    (s.getBlockMajorVersionForHeight ctx s.getCurrentBlockchainHeight)
  match s.alternativeDifficultyWindow alt_chain bei count with
  | none => 0
  | some window =>
    let timestamps := window.map (·.bl.timestamp)
    let commulative_difficulties := window.map (·.cumulative_difficulty)
    if BLOCK_MAJOR_VERSION_3 ≤
        s.get_block_major_version_for_height ctx (s.getCurrentBlockchainHeight + 1).toUInt64 then
      Currency.nextDifficultyLWMA3 timestamps commulative_difficulties
    else ctx.m_currency.nextDifficulty timestamps commulative_difficulties

/-- The size `getBlockCumulativeSize` counts for one transaction hash: the transaction's size if
it is in the chain (`transactionByIndex` can throw) or in the pool, else nothing. The source
looks in the chain for all hashes first; the sum does not depend on the order. -/
def knownTransactionSize (s : Blockchain) (h : Hash) : Except BlockchainException Nat := do
  match s.m_transactionMap h with
  | some index =>
    let entry ← s.transactionByIndex index
    return (entry.map fun e => ctx.prims.getObjectBinarySize e.tx).getD 0
  | none =>
    return ((s.m_tx_pool.m_transactions.find? h).map fun d =>
      ctx.prims.getObjectBinarySize d.tx).getD 0

/-- `Blockchain::getBlockCumulativeSize`: the coinbase and the block's transactions that are
known. -/
def getBlockCumulativeSize (s : Blockchain) (block : Block) : Except BlockchainException Nat :=
  block.transactionHashes.foldlM (fun size h => do
    return size + (← s.knownTransactionSize ctx h))
    (ctx.prims.getObjectBinarySize block.baseTransaction)

/-- The walk of `handle_alternative_block` from a hash back through the alternative blocks: the
branch ending at that hash, lowest first. A walk longer than the number of alternative blocks
would repeat one, and the source would not end; the model stops. -/
def altChainTo (s : Blockchain) : Nat → Hash → List BlockEntry
  | 0, _ => []
  | fuel + 1, h =>
    match s.m_alternative_chains.find? h with
    | none => []
    | some (_, e) => altChainTo s fuel e.bl.previousBlockHash ++ [e]

/-! ## Reorganisation -/

/-- The loop that pops `n` blocks off the main chain. -/
def disconnectBlocks : Nat → BlockchainM Unit
  | 0 => pure ()
  | n + 1 => do
    popBlock ctx
    disconnectBlocks n

/-- The loop that pushes blocks back, each through `pushBlockAtHeight` at the next height; it
stops at the first that is not added. -/
def reconnectBlocks : UInt32 → List Block → BlockchainM Bool
  | _, [] => pure true
  | height, bl :: rest => do
    let (r, bvc) ← pushBlockAtHeight ctx bl (ctx.prims.get_block_hash bl) {} (height + 1)
    if !(r && bvc.m_added_to_main_chain) then return false
    reconnectBlocks (height + 1) rest

/-- `Blockchain::rollback_blockchain_switching`: the main chain is popped down to
`rollback_height` blocks and the original blocks are pushed again. The loop index runs down to
`rollback_height` in `size_t`, so for `rollback_height = 0`, or an empty chain, it reaches
`m_blocks.back()` of an empty store, which throws. -/
def rollback_blockchain_switching (original_chain : List Block) (rollback_height : Nat) :
    BlockchainM Bool := do
  let s ← get
  disconnectBlocks ctx (s.m_blocks.length - rollback_height)
  if rollback_height = 0 ∨ s.m_blocks = [] then throw (.runtime_error "SwappedVector::operator[]")
  reconnectBlocks ctx (UInt32.ofNat (rollback_height - 1)) original_chain

/-- The loop of `switch_to_alternative_blockchain` that connects the branch. At the first block
not added, the main chain is rolled back, and that block and the rest of the branch leave the
alternative blocks. -/
def connectBranch (disconnected_chain : List Block) (split_height : Nat) :
    UInt32 → List BlockEntry → BlockchainM Bool
  | _, [] => pure true
  | height, e :: rest => do
    let (r, bvc) ← pushBlockAtHeight ctx e.bl (ctx.prims.get_block_hash e.bl) {} (height + 1)
    if !r || !bvc.m_added_to_main_chain then
      let _ ← rollback_blockchain_switching ctx disconnected_chain split_height
      modify fun s => { s with
        m_alternative_chains := (e :: rest).foldl
          (fun c e => c.erase (ctx.prims.get_block_hash e.bl)) s.m_alternative_chains }
      return false
    connectBranch disconnected_chain split_height (height + 1) rest

/-- The loop of `switch_to_alternative_blockchain` that stores the popped blocks as alternative
blocks, lowest first, through `handleAlternative`; at the first refused, the main chain is
rolled back. -/
def storeDisconnected (handleAlternative : Block → Hash → BlockchainM Bool)
    (disconnected_chain : List Block) (split_height : Nat) : List Block → BlockchainM Bool
  | [] => pure true
  | bl :: rest => do
    if !(← handleAlternative bl (ctx.prims.get_block_hash bl)) then
      let _ ← rollback_blockchain_switching ctx disconnected_chain split_height
      return false
    storeDisconnected handleAlternative disconnected_chain split_height rest

/-- `Blockchain::switch_to_alternative_blockchain`: the branch replaces the main chain from its
first block's height, if it holds every transaction of the blocks it replaces and its blocks have
the versions of their heights. The popped blocks are stored as alternative blocks (through
`handleAlternative`) unless `discard_disconnected_chain`, and the branch leaves the alternative
blocks. -/
def switch_to_alternative_blockchain (handleAlternative : Block → Hash → BlockchainM Bool)
    (alt_chain : List BlockEntry) (discard_disconnected_chain : Bool) : BlockchainM Bool := do
  let some front := alt_chain.head? | return false
  let split_height := front.height.toNat
  let s ← get
  if !(split_height < s.m_blocks.length) then return false
  -- the scans run from the last index down to `split_height` in `size_t`
  if split_height = 0 then throw (.runtime_error "SwappedVector::operator[]")
  let replaced := (s.m_blocks.drop split_height).map (·.bl)
  let altChainTxHashes := alt_chain.flatMap (·.bl.transactionHashes)
  if !(replaced.flatMap (·.transactionHashes)).all (· ∈ altChainTxHashes) then return false
  if !alt_chain.all (fun e => s.checkBlockVersion ctx e.bl) then return false
  disconnectBlocks ctx replaced.length
  if !(← connectBranch ctx replaced split_height (UInt32.ofNat (split_height - 1)) alt_chain) then
    return false
  if !discard_disconnected_chain then
    if !(← storeDisconnected ctx handleAlternative replaced split_height replaced) then
      return false
  modify fun s => { s with
    m_alternative_chains := alt_chain.foldl
      (fun c e => c.erase (ctx.prims.get_block_hash e.bl)) s.m_alternative_chains }
  return true

/-! ## Alternative blocks -/

/-- The checks of `handle_alternative_block` on the block itself, before its branch is looked
at: a rejection, or the block's height. -/
def checkAlternativeBlock (s : Blockchain) (b : Block) : Except BlockchainException (Option UInt32) := do
  let block_height := get_block_height b
  if block_height = 0 then return none
  if !ctx.m_checkpoints.is_alternative_block_allowed s.getCurrentBlockchainHeight block_height then
    return none
  if !s.checkBlockVersion ctx b then return none
  let cumulativeSize ← s.getBlockCumulativeSize ctx b
  if !checkCumulativeBlockSize ctx cumulativeSize block_height.toNat then return none
  return some block_height

/-- The timestamps an alternative block is checked against: those of its branch, nearest first,
completed from the main chain below the branch. `none` when the branch does not hang from the
main chain, which the source reports as an error. -/
def branchTimestamps (s : Blockchain) (alt_chain : List BlockEntry) (mainPrevHeight : Option UInt32) :
    Except BlockchainException (Option (List UInt64)) := do
  let timestamps := (alt_chain.map (·.bl.timestamp)).reverse
  match alt_chain.head? with
  | some front =>
    if !(front.height.toNat < s.m_blocks.length) then return none
    let below ← s.blockAt (front.height - 1).toNat
    if ctx.prims.get_block_hash below.bl ≠ front.bl.previousBlockHash then return none
    return some (s.complete_timestamps_vector ctx (front.height - 1).toNat timestamps).2
  | none =>
    match mainPrevHeight with
    | none => return none
    | some h => return some (s.complete_timestamps_vector ctx h.toNat timestamps).2

/-- The checks of `handle_alternative_block` on a block whose branch hangs from the main chain,
in the source's order (timestamp, checkpoint, merge-mining tag, difficulty, proof of work,
coinbase), and the entry the block is stored with: its height, and the cumulative difficulty of
its branch plus its own. A rejection tells whether it sets `m_verification_failed`; the second
component of a success tells whether the block is a checkpoint. Reading the cumulative
difficulty of the main-chain parent can throw. -/
def alternativeEntry (s : Blockchain) (b : Block) (id : Hash) (alt_chain : List BlockEntry)
    (mainPrevHeight : Option UInt32) (timestamps : List UInt64) :
    Except BlockchainException (Except Bool (BlockEntry × Bool)) := do
  if !check_block_timestamp ctx timestamps b then return .error true
  let height : UInt32 := match alt_chain.getLast? with
    | some prev => prev.height + 1
    | none => mainPrevHeight.getD 0 + 1
  let bei : BlockEntry := ⟨b, height, 0, 0, 0, []⟩
  let (checkpointOk, is_a_checkpoint) := ctx.m_checkpoints.check_block height id
  if !checkpointOk then return .error true
  if ctx.prims.hasMergeMiningTag b.baseTransaction.extra ∧ UPGRADE_HEIGHT_V3 ≤ height.toUInt64 then
    return .error false
  let current_diff := s.get_next_difficulty_for_alternative_chain ctx alt_chain bei
  if current_diff = 0 then return .error false
  if !Currency.checkProofOfWork ctx.prims.get_block_longhash b current_diff then
    return .error true
  if !prevalidate_miner_transaction ctx b height then return .error true
  let prevDifficulty ← match alt_chain.getLast? with
    | some prev => pure prev.cumulative_difficulty
    | none => do
      let e ← s.blockAt (mainPrevHeight.getD 0).toNat
      pure e.cumulative_difficulty
  return .ok ({ bei with cumulative_difficulty := prevDifficulty + current_diff }, is_a_checkpoint)

/-- Whether a stored alternative block triggers a reorganisation: a checkpoint does; otherwise
the branch must have more cumulative difficulty than the tip, which is read only then (the
store's `back()` throws on an empty store). -/
def reorganisationWanted (s : Blockchain) (bei : BlockEntry) (is_a_checkpoint : Bool) :
    Except BlockchainException Bool :=
  if is_a_checkpoint then pure true else do
    let tip ← s.blockAt (s.m_blocks.length - 1)
    pure (decide (tip.cumulative_difficulty < bei.cumulative_difficulty))

/-- The body of `Blockchain::handle_alternative_block`: a block whose parent is known is
checked, stored among the alternative blocks with the cumulative difficulty of its branch, and
triggers a reorganisation if its branch reaches a checkpoint (the popped blocks are dropped) or
has more cumulative difficulty than the main chain (they are stored as alternative blocks, by
`handleAlternative`). A block whose parent is unknown is marked orphaned. Without a handler the
block stays an alternative block. -/
def handleAlternativeBlock (handleAlternative : Option (Block → Hash → BlockchainM Bool))
    (b : Block) (id : Hash) (bvc : block_verification_context) :
    BlockchainM (Bool × block_verification_context) := do
  let failed := { bvc with m_verification_failed := true }
  let s ← get
  let some _ ← MonadExcept.ofExcept (s.checkAlternativeBlock ctx b) | return (false, failed)
  let mainPrevHeight := s.m_blockIndex.getBlockHeight b.previousBlockHash
  if (s.m_alternative_chains.find? b.previousBlockHash).isNone ∧ mainPrevHeight.isNone then
    return (true, { bvc with m_marked_as_orphaned := true })
  let alt_chain := s.altChainTo s.m_alternative_chains.items.length b.previousBlockHash
  let some timestamps ← MonadExcept.ofExcept (s.branchTimestamps ctx alt_chain mainPrevHeight)
    | return (false, bvc)
  match ← MonadExcept.ofExcept
      (s.alternativeEntry ctx b id alt_chain mainPrevHeight timestamps) with
  | .error setsFailed => return (false, if setsFailed then failed else bvc)
  | .ok (bei, is_a_checkpoint) =>
    let some chains := s.m_alternative_chains.insert (id, bei) | return (false, bvc)
    set { s with m_alternative_chains := chains }
    let reorganise ← MonadExcept.ofExcept (s.reorganisationWanted bei is_a_checkpoint)
    match handleAlternative with
    | none => return (true, bvc)
    | some handleAlternative =>
      if !reorganise then return (true, bvc)
      let r ← switch_to_alternative_blockchain ctx handleAlternative (alt_chain ++ [bei])
        is_a_checkpoint
      if r then
        return (true, { bvc with m_added_to_main_chain := true, m_switched_to_alt_chain := true })
      else return (false, failed)

/-- `Blockchain::handle_alternative_block`, which may still reorganise `depth` times: storing the
popped blocks of a reorganisation runs it again one level deeper, and at depth `0` a block that
would trigger a reorganisation stays an alternative block. -/
def handle_alternative_block : Nat → Block → Hash → block_verification_context →
    BlockchainM (Bool × block_verification_context)
  | 0 => handleAlternativeBlock ctx none
  | depth + 1 => handleAlternativeBlock ctx
      (some fun bl h => do return (← handle_alternative_block depth bl h {}).1)

/-- `Blockchain::addNewBlock`: a known block is refused; a block on the tip is pushed with its
transactions from the pool; any other is an alternative block. -/
def addNewBlock (depth : Nat) (bl : Block) (bvc : block_verification_context) :
    BlockchainM (Bool × block_verification_context) := do
  let id := ctx.prims.get_block_hash bl
  let s ← get
  if s.haveBlock id then return (false, { bvc with m_already_exists := true })
  if bl.previousBlockHash ≠ s.getTailId then
    handle_alternative_block ctx depth bl id { bvc with m_added_to_main_chain := false }
  else pushBlockAtHeight ctx bl id bvc (s.getCurrentBlockchainHeight + 1)

end Blockchain

end UltraNoteCore
