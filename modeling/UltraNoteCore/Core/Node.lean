import UltraNoteCore.Core.Blockchain.Alternative

/-!
# The node: transactions and blocks arriving

`core` (`Core.cpp`) is what the network talks to. A transaction arriving from a peer or from a
block notification goes through `handle_incoming_tx`: it passes the stateless
`check_tx_semantic`, is ignored if the chain or the pool already has it, and is otherwise
offered to the pool, which validates it against the blockchain. A block goes through
`handle_incoming_block` to `Blockchain::addNewBlock`.

A run of the node is a list of such events, handled one after the other from the state the last
one left; an exception ends it. The blob-level checks (blob sizes, parsing) and the miner are not
modelled.

## Main definitions

* `Blockchain.add_new_tx`, `handleIncomingTransaction`, `handle_incoming_tx`
* `NodeEvent`, `Blockchain.runNode`: a run of the node
-/

namespace UltraNoteCore

namespace Blockchain

variable (ctx : Context)

/-- `core::add_new_tx`: a transaction already in the chain or in the pool is accepted without
change; any other is offered to the pool. -/
def add_new_tx (tx : Transaction) (tx_hash : Hash) (blob_size : Nat)
    (tvc : tx_verification_context) (keeped_by_block : Bool) (height : UInt32) :
    BlockchainM (Bool × tx_verification_context) := do
  let s ← get
  if s.haveTransaction tx_hash then return (true, tvc)
  if (s.m_tx_pool.m_transactions.find? tx_hash).isSome then return (true, tvc)
  let (added, tvc, pool) := s.m_tx_pool.add_tx ctx.m_currency (s.poolEnv ctx) tx tx_hash blob_size
    tvc keeped_by_block height.toNat
  set { s with m_tx_pool := pool }
  return (added, tvc)

/-- `core::handleIncomingTransaction`: `check_tx_syntax` accepts everything; a transaction that
fails `check_tx_semantic` at `height` is refused, any other goes to `add_new_tx`. -/
def handleIncomingTransaction (tx : Transaction) (txHash : Hash) (blobSize : Nat)
    (keptByBlock : Bool) (height : UInt32) : BlockchainM (Bool × tx_verification_context) := do
  if !check_tx_semantic ctx.m_currency ctx.prims.check_key tx height.toNat then
    return (false, { m_verification_failed := true })
  add_new_tx ctx tx txHash blobSize {} keptByBlock height

/-- `core::getBlockContainingTx`: the height of the main-chain block holding a transaction. -/
def getBlockContainingTx (s : Blockchain) (txHash : Hash) : Option UInt32 :=
  (s.m_transactionMap txHash).map (·.block)

/-- `core::handle_incoming_tx` on a parsed transaction: its height is that of the block holding
it, or else the current height. -/
def handle_incoming_tx (tx : Transaction) (keeped_by_block : Bool) :
    BlockchainM (Bool × tx_verification_context) := do
  let s ← get
  let tx_hash := ctx.prims.getObjectHash tx
  let blockHeight := (s.getBlockContainingTx tx_hash).getD s.getCurrentBlockchainHeight
  handleIncomingTransaction ctx tx tx_hash (ctx.prims.getObjectBinarySize tx) keeped_by_block
    blockHeight

end Blockchain

/-- What reaches the node: a transaction (relayed, or sent with a block and so kept by it), or
a block. -/
inductive NodeEvent where
  | transaction (tx : Transaction) (keptByBlock : Bool)
  | block (b : Block)

/-- The block an event brings, if it brings one. -/
def NodeEvent.block? : NodeEvent → Option Block
  | .transaction _ _ => none
  | .block b => some b

namespace Blockchain

variable (ctx : Context)

/-- The node handles one event; a block may reorganise `depth` times in a nest. -/
def handleEvent (depth : Nat) : NodeEvent → BlockchainM Unit
  | .transaction tx keptByBlock => do
    let _ ← handle_incoming_tx ctx tx keptByBlock
  | .block b => do
    let _ ← addNewBlock ctx depth b {}

/-- A run of the node over a list of events. An exception ends the run where it was thrown. -/
def runNode (depth : Nat) : List NodeEvent → BlockchainM Unit
  | [] => pure ()
  | e :: es => do
    handleEvent ctx depth e
    runNode depth es

end Blockchain

end UltraNoteCore
