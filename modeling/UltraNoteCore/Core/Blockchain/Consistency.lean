import UltraNoteCore.Core.Node

/-!
# The store and its indexes

The indexes of `Blockchain` are derived from the block store, so every operation must keep them
in agreement with it. This module proves what each operation does to that agreement.

The transaction index updates (`pushTransaction`, `popTransaction`, `popTransactions`) touch the
transaction indexes only: they keep the *store part* of the state (the blocks, the block index,
the deposit index, the alternative blocks, the detectors, the size limit and the pool), also
when they throw. From this, `pushBlock` either keeps the blocks the node holds or stores one
entry it describes (`StoresEntry`), and `popBlock` removes the last block from the store and both
indexes at once. So the three stay in agreement, and in every run of the node: as long as the
deposit index can count the blocks in its `uint32_t`, which holds when the main chain is drawn
from fewer than `2 ^ 32` distinct blocks (`StoreAgrees.length_succ_lt`).

`rollbackBlockchainTo`, the operator's rollback, removes blocks through `removeLastBlock`, which
never pops the deposit index; after it the deposit index is longer than the store. And the
cumulative-size rejection of `pushBlock` returns without taking the transactions it registered
out of the indexes: the key images of a rejected block stay spent.

## Main definitions

* `Blockchain.Store`, `Blockchain.store`: the part the transaction index updates keep
* `Blockchain.StoreAgrees`: the block index and the deposit index agree with the store
* `Blockchain.StoresEntry`: what `pushBlock` knows of the entry it stores
* `Blockchain.ChainInvariant`, `Blockchain.Drawn`: an invariant of the main chain that
  `pushBlockAtHeight` of a block of `S` and `popBlock` keep, and the held blocks drawn from `S`

## Main results

* `pushTransaction_store`, `popTransactions_store`: the transaction index updates keep the store
* `pushBlock_preserves`, `popBlock_preserves`: what `pushBlock` and `popBlock` do to the held
  blocks
* `storeAgrees_chainInvariant`: the agreement is an invariant of a main chain drawn from fewer
  than `2 ^ 32` blocks
* `rollbackBlockchainTo_spec`, `rollbackBlockchainTo_unbalances_depositIndex`: the rollback
  truncates the store and keeps the deposit index
-/

namespace UltraNoteCore

open EStateM

namespace Blockchain

/-! ## The store part of the state -/

/-- The part of the state that the transaction index updates never touch. -/
structure Store where
  m_blocks : List BlockEntry
  m_blockIndex : BlockIndex
  m_depositIndex : DepositIndex
  m_alternative_chains : KeyedList (Hash × BlockEntry) Prod.fst
  m_upgradeDetectorV2 : BasicUpgradeDetector
  m_upgradeDetectorV3 : BasicUpgradeDetector
  m_current_block_cumul_sz_limit : Nat
  m_tx_pool : tx_memory_pool

/-- The store part of a state. -/
def store (s : Blockchain) : Store :=
  ⟨s.m_blocks, s.m_blockIndex, s.m_depositIndex, s.m_alternative_chains, s.m_upgradeDetectorV2,
    s.m_upgradeDetectorV3, s.m_current_block_cumul_sz_limit, s.m_tx_pool⟩

variable (ctx : Context) (s : Blockchain)

@[simp] theorem store_setMultisignatureUsed (amount : UInt64) (index : UInt32) (used : Bool) :
    (setMultisignatureUsed s amount index used).store = s.store := rfl

@[simp] theorem store_markMultisignatureInputs (ins : List TransactionInput) :
    (markMultisignatureInputs s ins).store = s.store := by
  induction ins generalizing s with
  | nil => rfl
  | cons i rest ih =>
    cases i with
    | multisignature m => exact (ih _).trans (store_setMultisignatureUsed ..)
    | key _ => exact ih s
    | base _ => exact ih s

/-- The output loop, where it ends, keeps the store. -/
theorem store_pushOutputs {transactionIndex : TransactionIndex} {output : UInt16}
    {outs : List TransactionOutput} {r : Blockchain × List UInt32}
    (h : pushOutputs transactionIndex output s outs = some r) : r.1.store = s.store := by
  induction outs generalizing s output r with
  | nil =>
    cases h
    rfl
  | cons o rest ih =>
    unfold pushOutputs at h
    split at h
    · cases h
    · -- both branches append to an output index and recurse
      split at h <;>
      · obtain ⟨⟨s', gis⟩, hr, rfl⟩ := Option.map_eq_some_iff.mp h
        have hstore := ih _ hr
        exact hstore

@[simp] theorem store_paymentIdIndexAdd (tx : Transaction) :
    (paymentIdIndexAdd ctx s tx).store = s.store := by
  unfold paymentIdIndexAdd
  split <;> rfl

@[simp] theorem store_paymentIdIndexRemove (tx : Transaction) :
    (paymentIdIndexRemove ctx s tx).store = s.store := by
  unfold paymentIdIndexRemove
  split <;> rfl

@[simp] theorem store_popOutput (transactionIndex : TransactionIndex) (k : Nat)
    (output : TransactionOutput) : (popOutput transactionIndex s k output).store = s.store := by
  unfold popOutput
  split
  · split
    · rfl
    · split <;> rfl
  · split
    · rfl
    · split <;> rfl

@[simp] theorem store_popOutputs (transactionIndex : TransactionIndex)
    (outputs : List TransactionOutput) :
    (popOutputs transactionIndex s outputs).store = s.store := by
  unfold popOutputs
  generalize outputs.zipIdx.reverse = l
  induction l generalizing s with
  | nil => rfl
  | cons p rest ih => exact (ih _).trans (store_popOutput ..)

@[simp] theorem store_popInputs (ins : List TransactionInput) :
    (popInputs s ins).store = s.store := by
  induction ins generalizing s with
  | nil => rfl
  | cons i rest ih =>
    cases i with
    | key _ => exact ih _
    | multisignature _ => exact (ih _).trans (store_setMultisignatureUsed ..)
    | base _ => exact ih s

/-! ## The transaction index updates keep the store -/

theorem eraseKeyImages_store : ∀ ins, Keeps store (eraseKeyImages ins)
  | [] => Keeps.pure _
  | .key _ :: rest => by
    rw [eraseKeyImages]
    refine (Keeps.modify ?_).bind fun _ => eraseKeyImages_store rest
    exact fun _ => rfl
  | .base _ :: _ => Keeps.throw _
  | .multisignature _ :: _ => Keeps.throw _

theorem insertKeyImages_store : ∀ before ins, Keeps store (insertKeyImages before ins)
  | _, [] => Keeps.pure _
  | before, .key k :: rest => by
    rw [insertKeyImages]
    refine Keeps.get_bind fun s => ?_
    split
    · exact ((eraseKeyImages_store _).bind fun _ => Keeps.pure _) s
    · exact Keeps.set_run (insertKeyImages_store _ rest) rfl
  | _, .base _ :: rest => insertKeyImages_store _ rest
  | _, .multisignature _ :: rest => insertKeyImages_store _ rest

theorem pushTransaction_store (block : BlockEntry) (transactionHash : Hash)
    (transactionIndex : TransactionIndex) :
    Keeps store (pushTransaction ctx block transactionHash transactionIndex) := by
  unfold pushTransaction
  split
  · refine Keeps.get_bind fun s => ?_
    split
    · rfl
    · refine Keeps.set_run ?_ rfl
      -- the two failures erase the hash again; the success updates the output indexes
      refine Keeps.ite ((Keeps.modify ?_).bind fun _ => Keeps.pure _) ?_
      · exact fun _ => rfl
      refine (insertKeyImages_store _ _).bind fun _ =>
        Keeps.ite ((Keeps.modify ?_).bind fun _ => Keeps.pure _) ?_
      · exact fun _ => rfl
      refine Keeps.get_bind fun s => ?_
      dsimp only
      split
      · next r hr =>
        refine Keeps.set_run (fun _ => rfl) ?_
        rw [store_paymentIdIndexAdd]
        simpa using store_pushOutputs _ hr
      · -- the output loop that never ends
        rfl
  · exact Keeps.pure _

theorem popTransaction_store (transaction : Transaction) (transactionHash : Hash) :
    Keeps store (popTransaction ctx transaction transactionHash) := by
  unfold popTransaction
  refine Keeps.get_bind fun s => ?_
  split
  · -- erasing the hash from the transaction map leaves the store
    change store (paymentIdIndexRemove ctx _ transaction) = store s
    simp
  · rfl

theorem popTransactionList_store : ∀ l, Keeps store (popTransactionList ctx l)
  | [] => Keeps.pure _
  | (e, h) :: rest =>
    (popTransaction_store ctx e.tx h).bind fun _ => popTransactionList_store rest

theorem popTransactions_store (block : BlockEntry) (minerTransactionHash : Hash) :
    Keeps store (popTransactions ctx block minerTransactionHash) :=
  (popTransactionList_store ctx _).bind fun _ => popTransaction_store ctx _ _

/-! ## The main chain part and the blocks the node holds -/

/-- The block store and the two indexes kept in step with it. -/
def mainChain (s : Blockchain) : List BlockEntry × BlockIndex × DepositIndex :=
  (s.m_blocks, s.m_blockIndex, s.m_depositIndex)

/-- The main chain part and the alternative blocks: every block the node holds. -/
def chains (s : Blockchain) :
    (List BlockEntry × BlockIndex × DepositIndex) × KeyedList (Hash × BlockEntry) Prod.fst :=
  (s.mainChain, s.m_alternative_chains)

theorem chains_of_store {α : Type} {x : BlockchainM α} (h : Keeps store x) : Keeps chains x :=
  h.map fun st => ((st.m_blocks, st.m_blockIndex, st.m_depositIndex), st.m_alternative_chains)

theorem mainChain_of_chains {α : Type} {x : BlockchainM α} (h : Keeps chains x) :
    Keeps mainChain x :=
  h.map Prod.fst

theorem blocks_eq_of_mainChain {s t : Blockchain} (ht : t.mainChain = s.mainChain) :
    t.m_blocks = s.m_blocks :=
  congrArg Prod.fst ht

theorem blocks_eq_of_chains {s t : Blockchain} (ht : t.chains = s.chains) :
    t.m_blocks = s.m_blocks :=
  blocks_eq_of_mainChain (congrArg Prod.fst ht)

theorem addToPool_chains (tx : Transaction) (tvc : tx_verification_context)
    (keptByBlock : Bool) (height : UInt32) :
    Keeps chains (addToPool ctx tx tvc keptByBlock height) := by
  unfold addToPool
  refine Keeps.get_bind fun s => ?_
  exact Keeps.set_run (fun _ => rfl) rfl

theorem returnTransactions_chains (what : String) (height : UInt32) :
    ∀ tvc txs, Keeps chains (returnTransactions ctx what height tvc txs)
  | _, [] => Keeps.pure _
  | tvc, tx :: rest => by
    unfold returnTransactions
    refine (addToPool_chains ctx tx tvc true height).bind fun ⟨added, tvc'⟩ => ?_
    -- a refused transaction throws, with the chain as it was
    exact Keeps.ite ((Keeps.throw _).bind fun _ => returnTransactions_chains what height _ rest)
      (returnTransactions_chains what height _ rest)

theorem saveTransactions_chains (transactions : List Transaction) (height : UInt32) :
    Keeps chains (saveTransactions ctx transactions height) :=
  returnTransactions_chains ctx _ height _ _

theorem takeTransactions_chains (height : UInt32) :
    ∀ taken hashes, Keeps chains (takeTransactions ctx height taken hashes)
  | _, [] => Keeps.pure _
  | taken, h :: rest => by
    unfold takeTransactions
    refine Keeps.get_bind fun s => ?_
    split
    · exact Keeps.set_run (takeTransactions_chains height _ rest) rfl
    · exact ((returnTransactions_chains ctx _ height _ _).bind fun _ => Keeps.pure _) s

theorem loadTransactions_chains (block : Block) (height : UInt32) :
    Keeps chains (loadTransactions ctx block height) :=
  takeTransactions_chains ctx height _ _

/-! ## The indexes agree with the store -/

end Blockchain

/-- The transactions of a stored block, the coinbase first. -/
def BlockEntry.txs (b : BlockEntry) : List Transaction := b.transactions.map (·.tx)

namespace Blockchain

variable (ctx : Context)

/-- The deposit change and the interest of a stored block as `pushBlock` counts them: the
deposit change of all its transactions, and the interest of those after the coinbase at the
block's height. -/
def blockDeposit (b : BlockEntry) : DepositAmount × DepositInterest :=
  (b.txs.foldl depositChange 0,
    (b.txs.drop 1).foldl (fun i tx =>
      i + ctx.m_currency.calculateTotalTransactionInterest tx.toTransactionPrefix b.height.toNat) 0)

/-- The indexes agree with the block store: the block index lists the hashes of the stored
blocks in order, and the deposit index stores their deposit changes and interests. -/
structure StoreAgrees (s : Blockchain) : Prop where
  blockIndex : s.m_blockIndex.m_container.items = s.m_blocks.map fun b => ctx.prims.get_block_hash b.bl
  depositIndex : s.m_depositIndex.Refines (s.m_blocks.map (blockDeposit ctx))

instance (s : Blockchain) : Decidable (StoreAgrees ctx s) :=
  decidable_of_iff (_ ∧ _) ⟨fun ⟨h1, h2⟩ => ⟨h1, h2⟩, fun h => ⟨h.1, h.2⟩⟩

variable {ctx} {s : Blockchain}

/-- The store holds fewer than `2 ^ 32` blocks: the deposit index counts them in `uint32_t`. -/
theorem StoreAgrees.length_lt (h : StoreAgrees ctx s) : s.m_blocks.length < 2 ^ 32 := by
  simpa using h.depositIndex.length_lt

/-- The block index and the deposit index have one block for each stored block. -/
theorem StoreAgrees.sizes (h : StoreAgrees ctx s) :
    s.m_blockIndex.size.toNat = s.m_blocks.length ∧
      s.m_depositIndex.size.toNat = s.m_blocks.length := by
  constructor
  · rw [BlockIndex.size, h.blockIndex, List.length_map]
    exact UInt32.toNat_ofNat_of_lt' h.length_lt
  · simpa [DepositIndex.size] using h.depositIndex.1

/-- The stored blocks are distinct: their hashes are the block index's. -/
theorem StoreAgrees.nodup_bl (h : StoreAgrees ctx s) : (s.m_blocks.map (·.bl)).Nodup := by
  have hnodup := s.m_blockIndex.m_container.nodup
  rw [List.map_id, h.blockIndex] at hnodup
  exact List.Nodup.of_map ctx.prims.get_block_hash (by rwa [List.map_map])

/-- **Room for one more block.** A store of distinct blocks drawn from `S`, and a block of `S`
whose hash the index does not have: with it the store still holds fewer than `2 ^ 32` blocks
when `S` does. -/
theorem StoreAgrees.length_succ_lt {S : List Block} (h : StoreAgrees ctx s)
    (hdrawn : ∀ e ∈ s.m_blocks, e.bl ∈ S) (hS : S.length < 2 ^ 32) {blockData : Block}
    (hb : blockData ∈ S)
    (hfree : s.m_blockIndex.hasBlock (ctx.prims.get_block_hash blockData) = false) :
    s.m_blocks.length + 1 < 2 ^ 32 := by
  have hnot : blockData ∉ s.m_blocks.map (·.bl) := by
    intro hmem
    obtain ⟨e, he, rfl⟩ := List.mem_map.mp hmem
    have hindex : ctx.prims.get_block_hash e.bl ∈ s.m_blockIndex.m_container.items := by
      rw [h.blockIndex]
      exact List.mem_map_of_mem he
    simp [BlockIndex.hasBlock, hindex] at hfree
  have hsub : blockData :: s.m_blocks.map (·.bl) ⊆ S := by
    intro b hmem
    rcases List.mem_cons.mp hmem with rfl | hmem
    · exact hb
    · obtain ⟨e, he, rfl⟩ := List.mem_map.mp hmem
      exact hdrawn e he
  have hle := ((List.nodup_cons.mpr ⟨hnot, h.nodup_bl⟩).subperm hsub).length_le
  simp only [List.length_cons, List.length_map] at hle
  omega

theorem StoreAgrees.congr {t : Blockchain} (h : StoreAgrees ctx s) (ht : t.mainChain = s.mainChain) :
    StoreAgrees ctx t := by
  simp only [mainChain, Prod.mk.injEq] at ht
  obtain ⟨hb, hi, hd⟩ := ht
  exact ⟨by rw [hb, hi, h.blockIndex], by rw [hb, hd]; exact h.depositIndex⟩

variable (ctx) in
theorem StoreAgrees.empty (pool : tx_memory_pool) : StoreAgrees ctx (Blockchain.empty pool) :=
  ⟨rfl, DepositIndex.refines_empty⟩

/-- Storing a block whose hash the index does not have, with the interest of its transactions,
while the store stays below `2 ^ 32` blocks. -/
theorem StoreAgrees.push (h : StoreAgrees ctx s) {block : BlockEntry} {interest : DepositInterest}
    (hfree : s.m_blockIndex.hasBlock (ctx.prims.get_block_hash block.bl) = false)
    (hinterest : interest = (blockDeposit ctx block).2) (hlen : s.m_blocks.length + 1 < 2 ^ 32) :
    StoreAgrees ctx ((s.pushBlockEntry ctx block).pushToDepositIndex block interest) := by
  have hdeposit : block.transactions.foldl (fun d e => depositChange d e.tx) 0 =
      (blockDeposit ctx block).1 := by
    simp [blockDeposit, BlockEntry.txs, List.foldl_map]
  refine ⟨?_, ?_⟩
  · simp [pushToDepositIndex, pushBlockEntry, BlockIndex.push_items _ hfree, h.blockIndex]
  · simp only [pushToDepositIndex, pushBlockEntry, List.map_append, List.map_singleton]
    rw [hdeposit, hinterest]
    exact h.depositIndex.pushBlock (by simpa using hlen) _ _

/-- Removing the last block from the store and from both indexes, as `popBlock` does when the
store has one. -/
theorem StoreAgrees.pop (h : StoreAgrees ctx s) (hne : s.m_blocks ≠ []) :
    StoreAgrees ctx { s with
      m_depositIndex := s.m_depositIndex.popBlock
      m_blocks := s.m_blocks.dropLast
      m_blockIndex := s.m_blockIndex.pop } := by
  refine ⟨by simp [h.blockIndex, List.map_dropLast], ?_⟩
  show s.m_depositIndex.popBlock.Refines (s.m_blocks.dropLast.map (blockDeposit ctx))
  rw [List.map_dropLast]
  exact h.depositIndex.popBlock (by simpa using hne)

/-! ## What `pushBlock` and `popBlock` do -/

/-- Setting a list element to one with the image of the element there keeps the image. -/
private theorem map_set_of_getElem? {α β : Type} (f : α → β) {l : List α} {i : Nat} {x y : α}
    (h : l[i]? = some x) (hxy : f y = f x) : (l.set i y).map f = l.map f := by
  obtain ⟨hi, rfl⟩ := List.getElem?_eq_some_iff.mp h
  have hi' : i < (l.map f).length := by simpa using hi
  rw [List.map_set, hxy, ← List.getElem_map f, List.set_getElem_self hi']
  exact hi'

variable (ctx) in
/-- `pushTransaction` returns the entry it was given, up to the global output indexes of one
transaction. -/
theorem pushTransaction_returns (block : BlockEntry) (transactionHash : Hash)
    (transactionIndex : TransactionIndex) :
    Returns (fun r => r.2.bl = block.bl ∧ r.2.height = block.height ∧ r.2.txs = block.txs)
      (pushTransaction ctx block transactionHash transactionIndex) := by
  have hsame : block.bl = block.bl ∧ block.height = block.height ∧ block.txs = block.txs :=
    ⟨rfl, rfl, rfl⟩
  unfold pushTransaction
  split
  · next transaction htx =>
    refine Returns.bind fun s => Returns.ite (Returns.pure hsame) ?_
    refine Returns.bind fun _ => Returns.ite (Returns.bind fun _ => Returns.pure hsame) ?_
    refine Returns.bind fun _ => Returns.ite (Returns.bind fun _ => Returns.pure hsame) ?_
    refine Returns.bind fun s => ?_
    dsimp only
    split
    · exact Returns.bind fun _ => Returns.pure ⟨rfl, rfl, map_set_of_getElem? _ htx rfl⟩
    · exact Returns.throw _
  · exact Returns.pure hsame

variable (ctx) in
theorem pushBlockTransactions_store (minerTransactionHash : Hash) :
    ∀ build txs, Keeps store (pushBlockTransactions ctx minerTransactionHash build txs)
  | _, [] => Keeps.pure _
  | build, (tx, tx_id) :: rest => by
    unfold pushBlockTransactions
    refine Keeps.get_bind fun s => ((Keeps.ofExcept _).bind fun valid => ?_) s
    -- an invalid transaction takes back what was registered
    refine Keeps.ite ((popTransactions_store ctx _ _).bind fun _ => Keeps.pure _) ?_
    exact (pushTransaction_store ctx _ _ _).bind fun _ =>
      pushBlockTransactions_store minerTransactionHash _ rest

/-- What the transaction loop of `pushBlock` keeps of the entry it builds: the block at its
height, a transaction list that starts with the coinbase, and the interest of the transactions
after it. -/
structure BlockBuild.Agrees (ctx : Context) (blockData : Block) (height : UInt32)
    (build : BlockBuild) : Prop where
  bl : build.block.bl = blockData
  height : build.block.height = height
  coinbase : build.block.txs.head? = some blockData.baseTransaction
  interest : build.interestSummary = (blockDeposit ctx build.block).2

theorem BlockBuild.Agrees.nonempty {bl : Block} {height : UInt32} {build : BlockBuild}
    (h : build.Agrees ctx bl height) : build.block.transactions ≠ [] := by
  intro hnil
  have hhead := h.coinbase
  simp [BlockEntry.txs, hnil] at hhead

/-- Appending a transaction adds its interest at the block's height. -/
theorem blockDeposit_snd_append {b b' : BlockEntry} (tx : Transaction) (hne : b.transactions ≠ [])
    (htxs : b'.txs = b.txs ++ [tx]) (hheight : b'.height = b.height) :
    (blockDeposit ctx b').2 = (blockDeposit ctx b).2 +
      ctx.m_currency.calculateTotalTransactionInterest tx.toTransactionPrefix b.height.toNat := by
  have hlen : 1 ≤ b.txs.length := by
    have := List.length_pos_of_ne_nil hne
    simp only [BlockEntry.txs, List.length_map]
    omega
  simp only [blockDeposit, htxs, hheight, List.drop_append_of_le_length hlen, List.foldl_append,
    List.foldl_cons, List.foldl_nil]

variable (ctx) in
theorem pushBlockTransactions_returns (minerTransactionHash : Hash) (bl : Block) (height : UInt32) :
    ∀ build txs, build.Agrees ctx bl height →
      Returns (fun r => ∀ b, r = some b → b.Agrees ctx bl height)
        (pushBlockTransactions ctx minerTransactionHash build txs)
  | build, [], h => Returns.pure fun b hb => Option.some.inj hb ▸ h
  | build, (tx, tx_id) :: rest, h => by
    unfold pushBlockTransactions
    refine Returns.bind fun s => Returns.bind fun valid =>
      Returns.ite (Returns.bind fun _ => Returns.pure fun b hb =>
        (Option.some_ne_none b hb.symm).elim) ?_
    refine (pushTransaction_returns ctx _ _ _).bind_of fun r hr =>
      pushBlockTransactions_returns minerTransactionHash bl height _ rest ?_
    -- the entry after `pushTransaction` holds one transaction more, at its back, with its
    -- interest
    obtain ⟨hbl, hheight, htxs⟩ := hr
    have htxs' : r.2.txs = build.block.txs ++ [tx] := by
      rw [htxs]
      simp [BlockEntry.txs]
    refine ⟨hbl.trans h.bl, hheight.trans h.height, ?_, ?_⟩
    · rw [htxs', List.head?_append, h.coinbase]
      rfl
    · rw [blockDeposit_snd_append tx h.nonempty htxs' hheight, h.interest, hheight]

/-- The header checks refuse a block whose hash the index has. -/
theorem checkBlockHeader_hasBlock {blockData : Block} {blockHash : Hash} {d : UInt64}
    (h : s.checkBlockHeader ctx blockData blockHash = .ok d) :
    s.m_blockIndex.hasBlock blockHash = false := by
  cases hb : s.m_blockIndex.hasBlock blockHash with
  | false => rfl
  | true => simp [checkBlockHeader, hb] at h

/-- The checks of `pushBlock` pass only a coinbase that `prevalidate_miner_transaction` accepts
at the height the block gets. -/
theorem prevalidate_of_checkBlockHeader {blockData : Block} {blockHash : Hash} {d : UInt64}
    (h : s.checkBlockHeader ctx blockData blockHash = .ok d) :
    prevalidate_miner_transaction ctx blockData s.getCurrentBlockchainHeight = true := by
  cases hpre : prevalidate_miner_transaction ctx blockData s.getCurrentBlockchainHeight
  · -- with the coinbase refused, every branch of the checks is a rejection
    unfold checkBlockHeader at h
    simp only [hpre, Bool.not_false] at h
    split_ifs at h
  · rfl

/-- A coinbase `prevalidate_miner_transaction` accepts spends one `BaseInput`. -/
theorem inputs_of_prevalidate {b : Block} {height : UInt32}
    (h : prevalidate_miner_transaction ctx b height = true) :
    ∃ input, b.baseTransaction.inputs = [.base input] := by
  unfold prevalidate_miner_transaction at h
  split at h
  · next input hinputs =>
    split at h
    · cases h
    · split at h
      · next base => exact ⟨base, hinputs⟩
      · cases h
  · cases h

variable (ctx) in
/-- What `pushBlock` knows of the entry it stores on `s` for `blockData`, with the interest its
transaction loop summed: the block at the height of the store, its coinbase first, spending one
`BaseInput`, and a hash the index does not have. -/
structure StoresEntry (s : Blockchain) (blockData : Block) (block : BlockEntry)
    (interest : DepositInterest) : Prop where
  bl : block.bl = blockData
  height : block.height = s.getCurrentBlockchainHeight
  coinbase : block.txs.head? = some blockData.baseTransaction
  interest : interest = (blockDeposit ctx block).2
  fresh : s.m_blockIndex.hasBlock (ctx.prims.get_block_hash blockData) = false
  base : ∃ input, blockData.baseTransaction.inputs = [.base input]

section Step

/- A property of the blocks the node holds: it depends on the main chain part and on the
alternative blocks only. -/
variable {I : Blockchain → Prop} (hcongr : ∀ {s t : Blockchain}, I s → t.chains = s.chains → I t)
include hcongr

theorem preserves_of_chains {α : Type} {x : BlockchainM α} (h : Keeps chains x) :
    Preserves I x :=
  fun s hs => hcongr hs (h s)

variable (ctx) in
/-- **What `pushBlock` does.** Until the block is stored only the transaction indexes change;
then the entry it built is stored, one that `StoresEntry` describes. So `pushBlock` keeps every
property of the held blocks that storing such an entry keeps. -/
theorem pushBlock_preserves (blockData : Block) (transactions : List Transaction)
    (bvc : block_verification_context)
    (hpush : ∀ s block interest, I s → StoresEntry ctx s blockData block interest →
      I ((s.pushBlockEntry ctx block).pushToDepositIndex block interest)) :
    Preserves I (pushBlock ctx blockData transactions (ctx.prims.get_block_hash blockData) bvc) := by
  unfold pushBlock
  refine Preserves.get_bind fun s hs => ?_
  split
  · exact hs
  · next currentDifficulty hhdr =>
    have hfree := checkBlockHeader_hasBlock hhdr
    have hbase := inputs_of_prevalidate (prevalidate_of_checkBlockHeader hhdr)
    have hkeep : ∀ t : Blockchain, t.store = s.store → I t := fun t ht =>
      hcongr hs (congrArg (fun st =>
        ((st.m_blocks, st.m_blockIndex, st.m_depositIndex), st.m_alternative_chains)) ht)
    refine Leads.bind_returns ((pushTransaction_store ctx _ _ _).leads s.store)
      (pushTransaction_returns ctx _ _ _) (fun r hr => ?_) hkeep s rfl
    refine Leads.bind_returns ((pushBlockTransactions_store ctx _ _ _).leads s.store)
      (pushBlockTransactions_returns ctx _ blockData s.getCurrentBlockchainHeight _ _
        ⟨hr.1, hr.2.1, by rw [hr.2.2]; rfl, by rw [blockDeposit, hr.2.2]; rfl⟩)
      (fun ob hob => ?_) hkeep
    split
    · next build =>
      have hbuild := hob build rfl
      refine Leads.ite (Leads.pure _ hkeep) ?_
      dsimp only
      split
      · exact ((popTransactions_store ctx _ _).leads _).bind (fun _ => Leads.pure _ hkeep) hkeep
      · -- the block is stored: the one step that changes the held blocks
        refine (Leads.modify fun t ht => ?_).bind (fun _ =>
          (preserves_of_chains hcongr (Keeps.modify ?_)).leads.bind
            (fun _ => Leads.pure _ fun _ h => h) fun _ h => h) fun _ h => h
        rotate_left
        · exact fun _ => rfl
        have hblocks : t.m_blocks = s.m_blocks := congrArg Store.m_blocks ht
        have hindex : t.m_blockIndex = s.m_blockIndex := congrArg Store.m_blockIndex ht
        refine hpush t _ _ (hkeep t ht) ⟨hbuild.bl, ?_, hbuild.coinbase, hbuild.interest, ?_, hbase⟩
        · rw [getCurrentBlockchainHeight, hblocks]
          exact hbuild.height
        · rw [hindex]
          exact hfree
    · exact Leads.pure _ hkeep

variable (ctx) in
theorem pushBlockAtHeight_preserves (blockData : Block) (bvc : block_verification_context)
    (height : UInt32)
    (hpush : ∀ s block interest, I s → StoresEntry ctx s blockData block interest →
      I ((s.pushBlockEntry ctx block).pushToDepositIndex block interest)) :
    Preserves I
      (pushBlockAtHeight ctx blockData (ctx.prims.get_block_hash blockData) bvc height) := by
  unfold pushBlockAtHeight
  refine (preserves_of_chains hcongr (loadTransactions_chains ctx _ _)).bind fun txs => ?_
  split
  · refine (pushBlock_preserves ctx hcongr _ _ _ hpush).bind fun ⟨pushed, bvc'⟩ => ?_
    -- a refused block gives its transactions back to the pool
    exact Preserves.ite ((preserves_of_chains hcongr (saveTransactions_chains ctx _ _)).bind
      fun _ => Preserves.pure _) (Preserves.pure _)
  · exact Preserves.pure _

variable (ctx) in
/-- **What `popBlock` does.** The transactions of the last block go back to the pool and leave
the transaction indexes; then the block leaves the store and both indexes at once. -/
theorem popBlock_preserves
    (hpop : ∀ s, I s → s.m_blocks ≠ [] → I (notifyBlockPopped { s with
      m_depositIndex := s.m_depositIndex.popBlock
      m_blocks := s.m_blocks.dropLast
      m_blockIndex := s.m_blockIndex.pop })) :
    Preserves I (popBlock ctx) := by
  unfold popBlock
  refine Preserves.get_bind fun s hs => ?_
  split
  · exact hs
  · next last hlast =>
    have hne : s.m_blocks ≠ [] := fun h => by simp [h] at hlast
    have hkeep : ∀ t : Blockchain, t.chains = s.chains → I t := fun t ht => hcongr hs ht
    refine (((saveTransactions_chains ctx _ _).leads s.chains).bind (fun _ =>
      ((chains_of_store (popTransactions_store ctx _ _)).leads s.chains).bind (fun _ =>
        Leads.modify fun t ht => ?_) hkeep) hkeep) s rfl
    exact hpop t (hkeep t ht) (blocks_eq_of_chains ht ▸ hne)

end Step

/-! ## Invariants of the main chain -/

variable (ctx) in
/-- An invariant of the main chain for the blocks `S`: it depends on the store and the two
indexes only, `pushBlockAtHeight` of a block of `S`, given the block's own hash, keeps it, and so
does `popBlock`. The operations of the node change the main chain only through these two, so
every run of the node on blocks of `S` keeps such an invariant
(`ChainInvariant.preserves_runNode`). -/
structure ChainInvariant (S : List Block) (I : Blockchain → Prop) : Prop where
  congr : ∀ {s t : Blockchain}, I s → t.mainChain = s.mainChain → I t
  push : ∀ blockData ∈ S, ∀ bvc height,
    Preserves I (pushBlockAtHeight ctx blockData (ctx.prims.get_block_hash blockData) bvc height)
  pop : Preserves I (popBlock ctx)

/-- The blocks the node holds, on the main chain and among the alternative blocks, are among
`S`: where they came from. -/
structure Drawn (S : List Block) (s : Blockchain) : Prop where
  main : ∀ e ∈ s.m_blocks, e.bl ∈ S
  alternative : ∀ p ∈ s.m_alternative_chains.items, p.2.bl ∈ S

section ChainInvariant

variable {S : List Block}

theorem Drawn.congr {t : Blockchain} (h : Drawn S s) (ht : t.chains = s.chains) : Drawn S t := by
  simp only [chains, mainChain, Prod.mk.injEq] at ht
  obtain ⟨⟨hb, -, -⟩, ha⟩ := ht
  exact ⟨hb ▸ h.main, ha ▸ h.alternative⟩

variable (ctx) in
/-- Pushing a block of `S` keeps the held blocks among `S`. -/
theorem drawn_pushBlockAtHeight {blockData : Block} (hb : blockData ∈ S)
    (bvc : block_verification_context) (height : UInt32) :
    Preserves (Drawn S)
      (pushBlockAtHeight ctx blockData (ctx.prims.get_block_hash blockData) bvc height) := by
  refine pushBlockAtHeight_preserves ctx (I := Drawn S) (fun hs ht => hs.congr ht) _ _ _ ?_
  intro s block interest hs he
  refine ⟨fun e he' => ?_, hs.alternative⟩
  simp only [pushToDepositIndex, pushBlockEntry, List.mem_append, List.mem_singleton] at he'
  rcases he' with he' | rfl
  · exact hs.main e he'
  · exact he.bl ▸ hb

variable (ctx) in
theorem drawn_popBlock : Preserves (Drawn S) (popBlock ctx) :=
  popBlock_preserves ctx (I := Drawn S) (fun hs ht => hs.congr ht) fun _ hs _ =>
    ⟨fun e he => hs.main e (List.mem_of_mem_dropLast he), hs.alternative⟩

variable {I : Blockchain → Prop} (hI : ChainInvariant ctx S I)
include hI

theorem ChainInvariant.congr_chains {t : Blockchain} (hs : I s) (ht : t.chains = s.chains) : I t :=
  hI.congr hs (congrArg Prod.fst ht)

/-- A program that keeps the main chain keeps every invariant of it. -/
theorem ChainInvariant.preserves {α : Type} {x : BlockchainM α} (h : Keeps mainChain x) :
    Preserves I x :=
  fun s hs => hI.congr hs (h s)

/-- A program that keeps the held blocks keeps the invariant and where the blocks came from. -/
theorem ChainInvariant.preserves_drawn {α : Type} {x : BlockchainM α} (h : Keeps chains x) :
    Preserves (fun s => I s ∧ Drawn S s) x :=
  (hI.preserves (mainChain_of_chains h)).and fun s hs => hs.congr (h s)

theorem ChainInvariant.push_drawn {blockData : Block} (hb : blockData ∈ S)
    (bvc : block_verification_context) (height : UInt32) :
    Preserves (fun s => I s ∧ Drawn S s)
      (pushBlockAtHeight ctx blockData (ctx.prims.get_block_hash blockData) bvc height) :=
  (hI.push blockData hb bvc height).and (drawn_pushBlockAtHeight ctx hb bvc height)

theorem ChainInvariant.pop_drawn : Preserves (fun s => I s ∧ Drawn S s) (popBlock ctx) :=
  hI.pop.and (drawn_popBlock ctx)

theorem ChainInvariant.preserves_init {genesisBlock : Block} (hg : genesisBlock ∈ S) :
    Preserves (fun s => I s ∧ Drawn S s) (init ctx genesisBlock) := by
  unfold init
  refine (hI.push_drawn hg _ _).bind fun ⟨_, bvc⟩ => ?_
  refine Preserves.ite (Preserves.pure _) ((hI.preserves_drawn (Keeps.modify ?_)).bind fun _ =>
    Preserves.pure _)
  exact fun _ => rfl

end ChainInvariant

/-- The agreement and a main chain drawn from `S` depend on the main chain only. -/
private theorem storeAgrees_drawn_congr {S : List Block} {s t : Blockchain}
    (hs : StoreAgrees ctx s ∧ ∀ e ∈ s.m_blocks, e.bl ∈ S) (ht : t.mainChain = s.mainChain) :
    StoreAgrees ctx t ∧ ∀ e ∈ t.m_blocks, e.bl ∈ S :=
  ⟨hs.1.congr ht, blocks_eq_of_mainChain ht ▸ hs.2⟩

variable (ctx) in
/-- **The agreement is an invariant of the main chain**, for a main chain drawn from fewer than
`2 ^ 32` blocks: then a block `pushBlock` stores always finds room in the `uint32_t` count of the
deposit index. -/
theorem storeAgrees_chainInvariant {S : List Block} (hS : S.length < 2 ^ 32) :
    ChainInvariant ctx S (fun s => StoreAgrees ctx s ∧ ∀ e ∈ s.m_blocks, e.bl ∈ S) where
  congr hs ht := storeAgrees_drawn_congr hs ht
  push blockData hb _ _ := by
    refine pushBlockAtHeight_preserves ctx
      (fun hs ht => storeAgrees_drawn_congr hs (congrArg Prod.fst ht)) _ _ _ ?_
    intro s block interest hs he
    refine ⟨hs.1.push (he.bl ▸ he.fresh) he.interest
      (hs.1.length_succ_lt hs.2 hS hb he.fresh), fun e he' => ?_⟩
    simp only [pushToDepositIndex, pushBlockEntry, List.mem_append, List.mem_singleton] at he'
    rcases he' with he' | rfl
    · exact hs.2 e he'
    · exact he.bl ▸ hb
  pop := popBlock_preserves ctx
      (fun hs ht => storeAgrees_drawn_congr hs (congrArg Prod.fst ht)) fun _ hs hne =>
    -- the detectors are told after the store and both indexes lost the block
    ⟨(hs.1.pop hne).congr rfl, fun e he => hs.2 e (List.mem_of_mem_dropLast he)⟩

/-! ## The operator's rollback leaves the deposit index behind -/

variable (ctx) in
/-- `removeLastBlock` never touches the deposit index. -/
theorem removeLastBlock_depositIndex : Keeps (·.m_depositIndex) (removeLastBlock ctx) := by
  unfold removeLastBlock
  refine Keeps.get_bind fun s => ?_
  split
  · rfl
  · refine (((popTransactions_store ctx _ _).map Store.m_depositIndex).bind fun _ =>
      (Keeps.modify ?_).bind fun _ => Keeps.pure _) s
    exact fun _ => rfl

/-- A `removeLastBlock` that returns has removed the last block from the store. -/
theorem removeLastBlock_blocks {r : Bool} {t : Blockchain}
    (h : (removeLastBlock ctx).run s = .ok r t) : t.m_blocks = s.m_blocks.dropLast := by
  rw [removeLastBlock, run_bind, run_get] at h
  dsimp only at h
  split at h
  · next hl =>
    cases h
    simp [List.getLast?_eq_none_iff.mp hl]
  · next last _ =>
    obtain ⟨_, u, hu, hrest⟩ := run_bind_eq_ok.mp h
    have hstore := popTransactions_store ctx last (ctx.prims.getObjectHash last.bl.baseTransaction) s
    rw [hu] at hstore
    simp only [run_bind, run_modify, run_pure, Result.ok.injEq] at hrest
    obtain ⟨-, rfl⟩ := hrest
    exact congrArg (fun st : Store => st.m_blocks.dropLast) hstore

variable (ctx) in
theorem rollbackLoop_depositIndex (height : UInt32) :
    ∀ fuel, Keeps (·.m_depositIndex) (rollbackLoop ctx height fuel)
  | 0 => Keeps.pure _
  | fuel + 1 => by
    rw [rollbackLoop]
    exact Keeps.get_bind fun s => Keeps.ite
      ((removeLastBlock_depositIndex ctx).bind fun _ => rollbackLoop_depositIndex height fuel)
      (Keeps.pure _) s

/-- A rollback loop with fuel for every block above `height + 1` leaves the first
`height + 1` blocks, `height + 1` taken in `uint32_t`. -/
theorem rollbackLoop_blocks (height : UInt32) :
    ∀ fuel (s t : Blockchain), (rollbackLoop ctx height fuel).run s = .ok () t →
      s.m_blocks.length ≤ (height + 1).toNat + fuel →
        t.m_blocks = s.m_blocks.take (height + 1).toNat
  | 0, s, t, h, hle => by
    cases h
    rw [List.take_of_length_le (by omega)]
  | fuel + 1, s, t, h, hle => by
    rw [rollbackLoop, run_bind, run_get] at h
    dsimp only at h
    split at h
    · next hlt =>
      obtain ⟨_, u, hu, hrest⟩ := run_bind_eq_ok.mp h
      have hu' := removeLastBlock_blocks hu
      have hlen : u.m_blocks.length ≤ (height + 1).toNat + fuel := by
        rw [hu', List.length_dropLast]
        omega
      -- removing the last of more than `height + 1` blocks keeps the first `height + 1`
      rw [rollbackLoop_blocks height fuel u t hrest hlen, hu', List.dropLast_eq_take,
        List.take_take, Nat.min_eq_left (by omega)]
    · next hge =>
      cases h
      rw [List.take_of_length_le (by omega)]

variable (ctx) in
/-- `rollbackBlockchainTo` keeps the deposit index and, when it returns, truncates the store to
`height + 1` blocks. -/
theorem rollbackBlockchainTo_spec (height : UInt32) (s : Blockchain) :
    ((rollbackBlockchainTo ctx height).run s).state.m_depositIndex = s.m_depositIndex ∧
      ∀ t, (rollbackBlockchainTo ctx height).run s = .ok true t →
        t.m_blocks = s.m_blocks.take (height + 1).toNat := by
  constructor
  · exact ((Keeps.get_bind fun s =>
      ((rollbackLoop_depositIndex ctx height _).bind fun _ => Keeps.pure _) s) :
        Keeps (·.m_depositIndex) (rollbackBlockchainTo ctx height)) s
  · intro t h
    rw [rollbackBlockchainTo, run_bind, run_get] at h
    dsimp only at h
    obtain ⟨_, u, hu, hrest⟩ := run_bind_eq_ok.mp h
    cases hrest
    exact rollbackLoop_blocks height _ s t hu (by omega)

variable (ctx) in
/-- **The rollback breaks the agreement.** From a state where the indexes agree with the store,
a rollback that removes a block leaves the deposit index with more blocks than the store. -/
theorem rollbackBlockchainTo_unbalances_depositIndex (height : UInt32) (s : Blockchain)
    (hs : StoreAgrees ctx s) (hmore : (height + 1).toNat < s.m_blocks.length)
    (hok : ((rollbackBlockchainTo ctx height).run s).value? = some true) :
    ((rollbackBlockchainTo ctx height).run s).state.m_blocks.length = (height + 1).toNat ∧
      ((rollbackBlockchainTo ctx height).run s).state.m_blocks.length <
        ((rollbackBlockchainTo ctx height).run s).state.m_depositIndex.size.toNat := by
  obtain ⟨hdep, hblocks⟩ := rollbackBlockchainTo_spec ctx height s
  have hb := hblocks _ (Result.eq_ok_of_value? hok)
  have hsize : ((rollbackBlockchainTo ctx height).run s).state.m_depositIndex.size.toNat =
      s.m_blocks.length := by
    rw [hdep]
    exact hs.sizes.2
  rw [hsize, hb, List.length_take, Nat.min_eq_left hmore.le]
  exact ⟨rfl, hmore⟩

/-! ## A sample network

The mainnet currency with a 200-byte initial block size limit, no checkpoints, a clock at
`100000`, and primitives under which a block's hash is its nonce, a transaction's hash its unlock
time and first extra byte, a transaction's size 64 bytes plus its extra, and every key, signature
and proof of work is valid. -/

/-- The hash with the number `n`. -/
def sampleHash (n : Nat) : Hash := ⟨BitVec.ofNat 256 n⟩

def samplePrims : Primitives where
  get_block_hash b := sampleHash b.nonce.toNat
  getObjectHash tx := sampleHash (1000 + tx.unlockTime.toNat * 256 + (tx.extra.headD 0).toNat)
  getPrefixHash _ := NULL_HASH
  getObjectBinarySize tx := 64 + tx.extra.length
  check_key _ := true
  check_signature _ _ _ := true
  keyImageInSubgroup _ := true
  check_ring_signature _ _ _ _ := true
  get_block_longhash _ := some NULL_HASH
  hasMergeMiningTag _ := false
  getPaymentId _ := none
  ttl _ := 0
  isFusionTransaction _ _ := false

def sampleContext : Context :=
  ⟨{ Currency.mainnet with maxBlockSizeInitial := 200 }, Checkpoints.empty, samplePrims, 100000⟩

/-- The coinbase at a height: one output of `5000000` to the key numbered `height + 1`. -/
def sampleCoinbase (height : Nat) (tag : UInt8) : Transaction :=
  { version := 1, unlockTime := UInt64.ofNat height + 10, inputs := [.base ⟨UInt32.ofNat height⟩],
    outputs := [⟨5000000, .key ⟨⟨BitVec.ofNat 256 (height + 1)⟩⟩⟩], extra := [tag],
    signatures := [] }

/-- The major version mainnet requires at a height: version 2 from height 1 on, version 3 from
height 2 on, with the voting windows of a fresh chain. -/
def sampleVersion (height : Nat) : UInt8 :=
  if height ≤ 1 then 1 else if height = 2 then 2 else 3

/-- The main-chain block at a height, two minutes after its parent, with the given transactions. -/
def sampleBlock (height : Nat) (transactionHashes : List Hash) : Block :=
  { majorVersion := sampleVersion height, minorVersion := 0, nonce := UInt32.ofNat (100 + height),
    timestamp := UInt64.ofNat (120 * height),
    previousBlockHash := if height = 0 then NULL_HASH else sampleHash (100 + height - 1),
    baseTransaction := sampleCoinbase height (UInt8.ofNat height), transactionHashes }

/-- The state after `init` pushes the genesis block and the blocks `1` to `n` arrive. -/
def sampleChain (n : Nat) : Blockchain :=
  ((init sampleContext (sampleBlock 0 []) >>= fun _ =>
      runNode sampleContext 2 ((List.range' 1 n).map fun h => .block (sampleBlock h []))).run
    (Blockchain.empty tx_memory_pool.empty)).state

/-- From the genesis block and one more, the rollback to the genesis block leaves a deposit
index of two blocks over a store of one. -/
theorem rollbackBlockchainTo_unbalances_depositIndex_sample :
    ((rollbackBlockchainTo sampleContext 0).run (sampleChain 1)).state.m_blocks.length = 1 ∧
      ((rollbackBlockchainTo sampleContext 0).run (sampleChain 1)).state.m_blocks.length <
        ((rollbackBlockchainTo sampleContext 0).run (sampleChain 1)).state.m_depositIndex.size.toNat :=
  rollbackBlockchainTo_unbalances_depositIndex sampleContext 0 (sampleChain 1)
    (by decide +kernel) (by decide +kernel) (by decide +kernel)

/-! ## The cumulative-size rejection of `pushBlock` -/

/-- A transaction spending the coinbase output of the block at `height` (the output of global
index `height` among those of `5000000`), with `extraLength` zero bytes after its tag. -/
def sampleOutputSpend (height extraLength : Nat) (tag : UInt8) : Transaction :=
  { version := 1, unlockTime := 0,
    inputs := [.key ⟨5000000, [UInt32.ofNat height], ⟨BitVec.ofNat 256 (7000 + height)⟩⟩],
    outputs := [⟨4000000, .key ⟨⟨BitVec.ofNat 256 (9000 + height)⟩⟩⟩],
    extra := tag :: List.replicate extraLength 0, signatures := [[⟨0⟩]] }

/-- Block 11 with two valid transactions, 295 bytes with its coinbase, over the 204 bytes
allowed at height 11. -/
def sampleOversizedBlock : Block :=
  sampleBlock 11 [samplePrims.getObjectHash (sampleOutputSpend 0 0 1),
    samplePrims.getObjectHash (sampleOutputSpend 1 100 2)]

/-- `pushBlock` refuses the oversized block on the chain of blocks `0` to `10`, and afterwards
the key image of its first transaction, unspent before, is spent, and the transaction's hash is
in the transaction map, although the block is not in the store. -/
theorem pushBlock_oversized_keeps_key_image :
    (let r := (pushBlock sampleContext sampleOversizedBlock
      [sampleOutputSpend 0 0 1, sampleOutputSpend 1 100 2]
      (samplePrims.get_block_hash sampleOversizedBlock) {}).run (sampleChain 10)
    r.value?.map Prod.fst = some false ∧ r.state.m_blocks = (sampleChain 10).m_blocks ∧
      ⟨BitVec.ofNat 256 7000⟩ ∉ (sampleChain 10).m_spent_keys ∧
      ⟨BitVec.ofNat 256 7000⟩ ∈ r.state.m_spent_keys ∧
      (r.state.m_transactionMap (samplePrims.getObjectHash (sampleOutputSpend 0 0 1))).isSome) := by
  decide +kernel

end Blockchain

end UltraNoteCore
