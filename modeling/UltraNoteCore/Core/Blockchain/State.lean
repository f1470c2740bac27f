import UltraNoteCore.Core.TransactionPool
import UltraNoteCore.Core.DepositIndex
import UltraNoteCore.Core.Checkpoints
import UltraNoteCore.Core.UpgradeDetector
import UltraNoteCore.Core.Difficulty
import UltraNoteCore.Prelude.StateExcept

/-!
# The blockchain's state and its index updates

`Blockchain` (`Blockchain.h`) stores the main chain as a vector of `BlockEntry` and keeps
indexes derived from it: the block hashes in order (`BlockIndex`), the position of every stored
transaction (`m_transactionMap`), the spent key images (`m_spent_keys`), the key outputs and the
multisignature outputs of each amount in chain order with their global indexes
(`m_outputs`, `m_multisignatureOutputs`), the transactions by payment id, and the deposits and
interest per block (`m_depositIndex`). This module holds the state and the functions that
update the indexes when a transaction or a block enters or leaves the main chain.

The blockchain's operations throw: `std::unordered_map::at` on a missing hash, `boost::get` on
an input of another type, `SwappedVector::operator[]` past the end of the block store, and
`saveTransactions` when the pool refuses a transaction. They are `EStateM` programs, so a throw
keeps the half-updated state, as in C++. Unchecked `std::vector` accesses past the end are
undefined behaviour in C++; the model makes them no-ops or failed checks, and says so where it
does.

What the code reads besides its own state is a `Context`: the currency, the checkpoints, the
wall-clock time of the call, and the primitives of `crypto/` and of the serializers
(`Primitives`), which the model takes as parameters.

## Main definitions

* `Primitives`, `Context`, `BlockchainException`
* `TransactionIndex`, `MultisignatureOutputUsage`, `TransactionEntry`, `BlockEntry`,
  `BlockIndex`, `block_verification_context`
* `Blockchain`: the state
* `Blockchain.pushTransaction`, `popTransaction`, `popTransactions`: a transaction enters or
  leaves the indexes
* `Blockchain.pushBlockEntry`, `pushToDepositIndex`: a block is stored
* `Blockchain.removeLastBlock`, `rollbackBlockchainTo`: the operator's rollback
-/

namespace UltraNoteCore

/-- The functions of `crypto/`, of the binary serializer and of the extra-field parser that the
blockchain calls. -/
structure Primitives where
  /-- `get_block_hash`. -/
  get_block_hash : Block → Hash
  /-- `getObjectHash(const Transaction&)`. -/
  getObjectHash : Transaction → Hash
  /-- `getObjectHash(const TransactionPrefix&)`, the hash the signatures sign. -/
  getPrefixHash : TransactionPrefix → Hash
  /-- `getObjectBinarySize` and `toBinaryArray(tx).size()`. -/
  getObjectBinarySize : Transaction → Nat
  /-- `check_key`: the key is a point of the curve. -/
  check_key : PublicKey → Bool
  /-- `crypto::check_signature`. -/
  check_signature : Hash → PublicKey → Signature → Bool
  /-- `scalarmultKey(keyImage, L) == I`: the key image is in the prime-order subgroup. -/
  keyImageInSubgroup : KeyImage → Bool
  /-- `crypto::check_ring_signature`. -/
  check_ring_signature : Hash → KeyImage → List PublicKey → List Signature → Bool
  /-- `get_block_longhash`, the slow proof-of-work hash; `none` when the block does not
  serialize. -/
  get_block_longhash : Block → Option Hash
  /-- `getMergeMiningTagFromExtra` succeeds. -/
  hasMergeMiningTag : List UInt8 → Bool
  /-- `BlockchainExplorerDataBuilder::getPaymentId`. -/
  getPaymentId : Transaction → Option Hash
  /-- The `TransactionExtraTTL` field of an extra, `0` if there is none. -/
  ttl : List UInt8 → UInt64
  /-- `Currency::isFusionTransaction(tx, blobSize)`. -/
  isFusionTransaction : Transaction → Nat → Bool

/-- What an operation of the blockchain reads besides its state: the currency and checkpoints
it was built with, the primitives, and the wall-clock time of the call (`time(NULL)`, also
`get_adjusted_time`). -/
structure Context where
  m_currency : Currency
  m_checkpoints : Checkpoints
  prims : Primitives
  now : UInt64

/-- The exceptions the modelled code throws. -/
inductive BlockchainException where
  /-- `std::out_of_range`, from `std::unordered_map::at`. -/
  | out_of_range
  /-- `boost::bad_get`, from `boost::get` on a variant holding another type. -/
  | bad_get
  /-- `std::runtime_error` with its message. -/
  | runtime_error (what : String)
  /-- Not an exception of the source: a loop whose `uint16_t` or `uint32_t` counter wraps while
  still below its bound never ends, and the model ends the run there. -/
  | nontermination
deriving DecidableEq, Repr

/-- `Blockchain::TransactionIndex`: the height of a transaction's block and its position in it
(the coinbase is position `0`). -/
structure TransactionIndex where
  block : UInt32
  transaction : UInt16
deriving DecidableEq, Repr

/-- `Blockchain::MultisignatureOutputUsage`: where a multisignature output is, and whether it
is spent. -/
structure MultisignatureOutputUsage where
  transactionIndex : TransactionIndex
  outputIndex : UInt16
  isUsed : Bool
deriving DecidableEq, Repr

/-- `Blockchain::TransactionEntry`: a stored transaction and the global index of each of its
outputs among the outputs of its amount and type. -/
structure TransactionEntry where
  tx : Transaction
  m_global_output_indexes : List UInt32
deriving DecidableEq, Repr

/-- `Blockchain::BlockEntry`: a stored block; `transactions` starts with the coinbase. -/
structure BlockEntry where
  bl : Block
  height : UInt32
  block_cumulative_size : Nat
  cumulative_difficulty : UInt64
  already_generated_coins : UInt64
  transactions : List TransactionEntry
deriving DecidableEq, Repr

/-- `block_verification_context`, value-initialised to all `false`. -/
structure block_verification_context where
  m_added_to_main_chain : Bool := false
  m_verification_failed : Bool := false
  m_marked_as_orphaned : Bool := false
  m_already_exists : Bool := false
  m_switched_to_alt_chain : Bool := false
deriving DecidableEq, Repr

/-- `BlockIndex`: the main-chain block hashes in height order, with a unique index on the
hash. -/
structure BlockIndex where
  m_container : KeyedList Hash id

namespace BlockIndex

variable (bi : BlockIndex)

/-- An empty index. -/
def empty : BlockIndex := ⟨KeyedList.empty⟩

/-- `BlockIndex::push`: appends the hash unless it is already there. -/
def push (h : Hash) : Bool × BlockIndex :=
  match bi.m_container.insert h with
  | some c => (true, ⟨c⟩)
  | none => (false, bi)

/-- `BlockIndex::pop`. -/
def pop : BlockIndex := ⟨bi.m_container.pop⟩

/-- `BlockIndex::hasBlock`. -/
def hasBlock (h : Hash) : Bool := decide (h ∈ bi.m_container.items)

/-- `BlockIndex::getBlockHeight`: the position of the hash, if it is there. -/
def getBlockHeight (h : Hash) : Option UInt32 :=
  (bi.m_container.items.idxOf? h).map UInt32.ofNat

/-- `BlockIndex::size`: `static_cast<uint32_t>(m_container.size())`. -/
def size : UInt32 := UInt32.ofNat bi.m_container.items.length

/-- `BlockIndex::getTailId`; the source asserts the index is not empty. -/
def getTailId : Hash := bi.m_container.items.getLast?.getD NULL_HASH

/-- A hash the index does not have is appended. -/
theorem push_items {h : Hash} (hh : bi.hasBlock h = false) :
    (bi.push h).2.m_container.items = bi.m_container.items ++ [h] := by
  have hfree : ∀ b ∈ bi.m_container.items, id b ≠ id h := by
    rintro b hb rfl
    simp [hasBlock, hb] at hh
  obtain ⟨c, hc, hitems⟩ := KeyedList.insert_of_fresh hfree
  simp only [push, hc]
  exact hitems

@[simp] theorem pop_items : bi.pop.m_container.items = bi.m_container.items.dropLast := rfl

/-- An index is its hashes. -/
theorem ext_items {bi' : BlockIndex} (h : bi.m_container.items = bi'.m_container.items) :
    bi = bi' := by
  obtain ⟨c⟩ := bi
  obtain ⟨c'⟩ := bi'
  exact congrArg BlockIndex.mk (KeyedList.ext_items h)

end BlockIndex

/-- The state of `Blockchain`: the block store, the indexes derived from it, the alternative
blocks by hash, the upgrade detectors, the current block size limit, and the transaction pool the
blockchain holds a reference to. The indexes of timestamps, of generated transactions and of
orphan blocks, which only the explorer reads, are not modelled. -/
structure Blockchain where
  m_blocks : List BlockEntry
  m_blockIndex : BlockIndex
  m_transactionMap : Hash → Option TransactionIndex
  m_spent_keys : Finset KeyImage
  m_outputs : UInt64 → List (TransactionIndex × UInt16)
  m_multisignatureOutputs : UInt64 → List MultisignatureOutputUsage
  m_paymentIdIndex : List (Hash × Hash)
  m_depositIndex : DepositIndex
  m_alternative_chains : KeyedList (Hash × BlockEntry) Prod.fst
  m_upgradeDetectorV2 : BasicUpgradeDetector
  m_upgradeDetectorV3 : BasicUpgradeDetector
  m_current_block_cumul_sz_limit : Nat
  m_tx_pool : tx_memory_pool

/-- The blockchain operations: programs over the state that may throw. -/
abbrev BlockchainM := EStateM BlockchainException Blockchain

namespace Blockchain

/-- A blockchain before `init` pushes the genesis block: no blocks, empty indexes, detectors as
constructed, and the given pool. -/
def empty (pool : tx_memory_pool) : Blockchain where
  m_blocks := []
  m_blockIndex := BlockIndex.empty
  m_transactionMap := fun _ => none
  m_spent_keys := ∅
  m_outputs := fun _ => []
  m_multisignatureOutputs := fun _ => []
  m_paymentIdIndex := []
  m_depositIndex := DepositIndex.empty
  m_alternative_chains := KeyedList.empty
  m_upgradeDetectorV2 := BasicUpgradeDetector.create BLOCK_MAJOR_VERSION_2
  m_upgradeDetectorV3 := BasicUpgradeDetector.create BLOCK_MAJOR_VERSION_3
  m_current_block_cumul_sz_limit := 0
  m_tx_pool := pool

/-! ## Reading the state -/

variable (s : Blockchain)

/-- `Blockchain::getCurrentBlockchainHeight`: the number of blocks. -/
def getCurrentBlockchainHeight : UInt32 := UInt32.ofNat s.m_blocks.length

/-- `Blockchain::getTailId`: the hash of the last block, `NULL_HASH` for an empty chain. -/
def getTailId : Hash := if s.m_blocks = [] then NULL_HASH else s.m_blockIndex.getTailId

/-- `Blockchain::haveBlock`: in the main chain or among the alternative blocks. -/
def haveBlock (id : Hash) : Bool :=
  s.m_blockIndex.hasBlock id || (s.m_alternative_chains.find? id).isSome

/-- `Blockchain::haveTransaction`. -/
def haveTransaction (id : Hash) : Bool := (s.m_transactionMap id).isSome

/-- `Blockchain::have_tx_keyimg_as_spent`. -/
def have_tx_keyimg_as_spent (keyImage : KeyImage) : Bool := decide (keyImage ∈ s.m_spent_keys)

/-- `m_blocks[i]`: `SwappedVector::operator[]` throws past the end of the store. -/
def blockAt (i : Nat) : Except BlockchainException BlockEntry :=
  match s.m_blocks[i]? with
  | some b => .ok b
  | none => .error (.runtime_error "SwappedVector::operator[]")

/-- `Blockchain::transactionByIndex`: `m_blocks[index.block].transactions[index.transaction]`.
The second access is an unchecked `std::vector` access; past its end the model gives `none`. -/
def transactionByIndex (index : TransactionIndex) :
    Except BlockchainException (Option TransactionEntry) := do
  let b ← s.blockAt index.block.toNat
  return b.transactions[index.transaction.toNat]?

end Blockchain

/-! ## A transaction enters the indexes -/

namespace Blockchain

variable (ctx : Context)

/-- The rollback of `pushTransaction` after a repeated key image: the key images of the inputs
before it are erased, last first; `boost::get<KeyInput>` throws at an input of another type. -/
def eraseKeyImages : List TransactionInput → BlockchainM Unit
  | [] => pure ()
  | .key k :: rest => do
    modify fun s => { s with m_spent_keys := s.m_spent_keys.erase k.keyImage }
    eraseKeyImages rest
  | _ :: _ => throw .bad_get

/-- The key-image loop of `pushTransaction`: each key image is inserted into `m_spent_keys`; at
the first one already there, the earlier inputs' key images are erased and the loop fails.
`before` holds the inputs already visited, in order. -/
def insertKeyImages (before : List TransactionInput) : List TransactionInput → BlockchainM Bool
  | [] => pure true
  | i :: rest =>
    match i with
    | .key k => do
      let s ← get
      if k.keyImage ∈ s.m_spent_keys then
        eraseKeyImages before.reverse
        return false
      set { s with m_spent_keys := insert k.keyImage s.m_spent_keys }
      insertKeyImages (before ++ [i]) rest
    | _ => insertKeyImages (before ++ [i]) rest

/-- Sets the `isUsed` flag of the multisignature output `index` of `amount`. The source indexes
the vector unchecked; past its end the model changes nothing. -/
def setMultisignatureUsed (s : Blockchain) (amount : UInt64) (index : UInt32) (used : Bool) :
    Blockchain :=
  { s with
    m_multisignatureOutputs := Function.update s.m_multisignatureOutputs amount
      ((s.m_multisignatureOutputs amount).modify index.toNat fun u => { u with isUsed := used }) }

/-- The multisignature-input loop of `pushTransaction`: every spent output is marked used. -/
def markMultisignatureInputs (s : Blockchain) : List TransactionInput → Blockchain
  | [] => s
  | .multisignature m :: rest =>
    markMultisignatureInputs (setMultisignatureUsed s m.amount m.outputIndex true) rest
  | _ :: rest => markMultisignatureInputs s rest

/-- The output loop of `pushTransaction`: each output is appended to the outputs of its amount
and type, and gets its position there as global index. The source counts the outputs in a
`uint16_t` `output`: after the output at position `65535` the counter wraps to `0`, still below
the number of outputs, and the loop never ends (`none`). -/
def pushOutputs (transactionIndex : TransactionIndex) (output : UInt16) (s : Blockchain) :
    List TransactionOutput → Option (Blockchain × List UInt32)
  | [] => some (s, [])
  | o :: rest =>
    if output + 1 = 0 then none
    else
      match o.target with
      | .key _ =>
        let amountOutputs := s.m_outputs o.amount
        let s' := { s with
          m_outputs := Function.update s.m_outputs o.amount
            (amountOutputs ++ [(transactionIndex, output)]) }
        (pushOutputs transactionIndex (output + 1) s' rest).map fun (s'', gis) =>
          (s'', UInt32.ofNat amountOutputs.length :: gis)
      | .multisignature _ =>
        let amountOutputs := s.m_multisignatureOutputs o.amount
        let s' := { s with
          m_multisignatureOutputs := Function.update s.m_multisignatureOutputs o.amount
            (amountOutputs ++ [⟨transactionIndex, output, false⟩]) }
        (pushOutputs transactionIndex (output + 1) s' rest).map fun (s'', gis) =>
          (s'', UInt32.ofNat amountOutputs.length :: gis)

/-- `PaymentIdIndex::add`: a transaction with a payment id is indexed under it. -/
def paymentIdIndexAdd (s : Blockchain) (tx : Transaction) : Blockchain :=
  match ctx.prims.getPaymentId tx with
  | some paymentId =>
    { s with
      m_paymentIdIndex := s.m_paymentIdIndex ++ [(paymentId, ctx.prims.getObjectHash tx)] }
  | none => s

/-- `Blockchain::pushTransaction`: registers the transaction of the block being built at
position `transactionIndex.transaction` under `transactionIndex`. It fails, leaving the indexes
as they were, on a hash already in `m_transactionMap`, on a multisignature output spent twice,
or on a key image already spent; otherwise it indexes the key images, marks the spent
multisignature outputs, appends the outputs and records their global indexes in the entry. On a
transaction of more than `65535` outputs the output loop never ends.
The source indexes `block.transactions` unchecked; `pushBlock` only names entries it has, and
the model changes nothing for one it does not. -/
def pushTransaction (block : BlockEntry) (transactionHash : Hash)
    (transactionIndex : TransactionIndex) : BlockchainM (Bool × BlockEntry) := do
  let some transaction := block.transactions[transactionIndex.transaction.toNat]?
    | return (false, block)
  let s ← get
  if (s.m_transactionMap transactionHash).isSome then return (false, block)
  set { s with
    m_transactionMap := Function.update s.m_transactionMap transactionHash (some transactionIndex) }
  if !checkMultisignatureInputsDiff transaction.tx.toTransactionPrefix then
    modify fun s => { s with m_transactionMap := StdMap.erase s.m_transactionMap transactionHash }
    return (false, block)
  if !(← insertKeyImages [] transaction.tx.inputs) then
    modify fun s => { s with m_transactionMap := StdMap.erase s.m_transactionMap transactionHash }
    return (false, block)
  let s ← get
  let s := markMultisignatureInputs s transaction.tx.inputs
  let some (s, gis) := pushOutputs transactionIndex 0 s transaction.tx.outputs
    | throw .nontermination
  set (paymentIdIndexAdd ctx s transaction.tx)
  return (true, { block with
    transactions := block.transactions.set transactionIndex.transaction.toNat
      { transaction with m_global_output_indexes := gis } })

/-! ## A transaction leaves the indexes -/

/-- One turn of the output loop of `popTransaction`, at the output at position `k`: the last
output of its amount and type is dropped if it is this one (and, for a multisignature output,
unspent); any other case is logged as broken consistency and skipped. -/
def popOutput (transactionIndex : TransactionIndex) (s : Blockchain) (k : Nat)
    (output : TransactionOutput) : Blockchain :=
  match output.target with
  | .key _ =>
    match (s.m_outputs output.amount).getLast? with
    | none => s
    | some (ti, oi) =>
      if ti = transactionIndex ∧ oi.toNat = k then
        { s with
          m_outputs := Function.update s.m_outputs output.amount
            (s.m_outputs output.amount).dropLast }
      else s
  | .multisignature _ =>
    match (s.m_multisignatureOutputs output.amount).getLast? with
    | none => s
    | some u =>
      if !u.isUsed ∧ u.transactionIndex = transactionIndex ∧ u.outputIndex.toNat = k then
        { s with
          m_multisignatureOutputs := Function.update s.m_multisignatureOutputs output.amount
            (s.m_multisignatureOutputs output.amount).dropLast }
      else s

/-- The output loop of `popTransaction`: the outputs from the last to the first, each with its
position. -/
def popOutputs (transactionIndex : TransactionIndex) (s : Blockchain)
    (outputs : List TransactionOutput) : Blockchain :=
  (outputs.zipIdx.reverse).foldl (fun s (o, k) => popOutput transactionIndex s k o) s

/-- The input loop of `popTransaction`: key images are erased, multisignature outputs are marked
unspent. -/
def popInputs (s : Blockchain) : List TransactionInput → Blockchain
  | [] => s
  | .key k :: rest => popInputs { s with m_spent_keys := s.m_spent_keys.erase k.keyImage } rest
  | .multisignature m :: rest =>
    popInputs (setMultisignatureUsed s m.amount m.outputIndex false) rest
  | .base _ :: rest => popInputs s rest

/-- `PaymentIdIndex::remove`: one entry of the transaction under its payment id is removed. -/
def paymentIdIndexRemove (s : Blockchain) (tx : Transaction) : Blockchain :=
  match ctx.prims.getPaymentId tx with
  | some paymentId =>
    { s with
      m_paymentIdIndex := s.m_paymentIdIndex.erase (paymentId, ctx.prims.getObjectHash tx) }
  | none => s

/-- `Blockchain::popTransaction`: the transaction's position is looked up with
`m_transactionMap.at`, which throws for an unknown hash; then its outputs, inputs, payment id
and position leave the indexes. -/
def popTransaction (transaction : Transaction) (transactionHash : Hash) : BlockchainM Unit := do
  let s ← get
  let some transactionIndex := s.m_transactionMap transactionHash | throw .out_of_range
  let s := popOutputs transactionIndex s transaction.outputs
  let s := popInputs s transaction.inputs
  let s := paymentIdIndexRemove ctx s transaction
  set { s with m_transactionMap := StdMap.erase s.m_transactionMap transactionHash }

/-- The loop of `popTransactions` over the non-coinbase entries, paired with their hashes, last
first. -/
def popTransactionList : List (TransactionEntry × Hash) → BlockchainM Unit
  | [] => pure ()
  | (e, h) :: rest => do
    popTransaction ctx e.tx h
    popTransactionList rest

/-- `Blockchain::popTransactions`: the transactions of a block entry leave the indexes, last
first, the coinbase last. Entry `i + 1` is paired with `transactionHashes[i]`. -/
def popTransactions (block : BlockEntry) (minerTransactionHash : Hash) : BlockchainM Unit := do
  popTransactionList ctx ((block.transactions.drop 1).zip block.bl.transactionHashes).reverse
  popTransaction ctx block.bl.baseTransaction minerTransactionHash

/-! ## A block is stored or removed -/

/-- `Blockchain::pushBlock(BlockEntry&)`: the entry is appended to the store and its hash to
the block index; the result of `BlockIndex::push` is ignored. -/
def pushBlockEntry (block : BlockEntry) (s : Blockchain) : Blockchain :=
  { s with
    m_blocks := s.m_blocks ++ [block]
    m_blockIndex := (s.m_blockIndex.push (ctx.prims.get_block_hash block.bl)).2 }

/-- The deposit change of one transaction for `pushToDepositIndex`: deposit outputs add their
amount, deposit withdrawals subtract theirs, in wrapping `int64_t`. -/
def depositChange (deposit : Int64) (tx : Transaction) : Int64 :=
  let deposit := tx.inputs.foldl (fun d i =>
    match i with
    | .multisignature m => if 0 < m.term then d - m.amount.toInt64 else d
    | _ => d) deposit
  tx.outputs.foldl (fun d o =>
    match o.target with
    | .multisignature m => if 0 < m.term then d + o.amount.toInt64 else d
    | _ => d) deposit

/-- `Blockchain::pushToDepositIndex`: the block's net deposit and its interest are pushed to
the deposit index. -/
def pushToDepositIndex (block : BlockEntry) (interest : UInt64) (s : Blockchain) : Blockchain :=
  let deposit := block.transactions.foldl (fun d e => depositChange d e.tx) 0
  { s with m_depositIndex := s.m_depositIndex.pushBlock deposit interest }

/-- `Blockchain::removeLastBlock`: the last block's transactions leave the indexes and the block
leaves the store and the block index. Unlike `popBlock`, the deposit index, the upgrade
detectors and the pool are not told. -/
def removeLastBlock : BlockchainM Bool := do
  let s ← get
  match s.m_blocks.getLast? with
  | none => return false
  | some last =>
    popTransactions ctx last (ctx.prims.getObjectHash last.bl.baseTransaction)
    modify fun s => { s with m_blocks := s.m_blocks.dropLast, m_blockIndex := s.m_blockIndex.pop }
    return true

/-- The loop of `rollbackBlockchainTo`, run at most `fuel` times: while `height + 1` (in
`uint32_t`) is below the number of blocks, the last block is removed. -/
def rollbackLoop (height : UInt32) : Nat → BlockchainM Unit
  | 0 => pure ()
  | fuel + 1 => do
    let s ← get
    if (height + 1).toNat < s.m_blocks.length then
      let _ ← removeLastBlock ctx
      rollbackLoop height fuel

/-- `Blockchain::rollbackBlockchainTo`: blocks are removed until `height + 1` remain. Each turn
removes one block, so the number of blocks bounds the turns. -/
def rollbackBlockchainTo (height : UInt32) : BlockchainM Bool := do
  let s ← get
  rollbackLoop ctx height s.m_blocks.length
  return true

end Blockchain

end UltraNoteCore
