import UltraNoteCore.Core.Blockchain.Consistency

/-!
# Reorganisation

A reorganisation pops main-chain blocks and pushes the blocks of a branch; a failure on the way
pops what was pushed and pushes the popped blocks again. All of it goes through `popBlock` and
`pushBlockAtHeight`, so it keeps every invariant of the main chain that these two keep
(`ChainInvariant`), and so does every run of the node. The blocks it pushes are blocks the node
was given: those of a branch were stored as alternative blocks when they arrived, the popped ones
were on the main chain (`Drawn`). So a run of `n` events holds at most `n + 1` distinct blocks on
its main chain, and while `n + 1 < 2 ^ 32` the `uint32_t` count of the deposit index never wraps:
the block index and the deposit index agree with the store (`node_indexes_agree`).

What a reorganisation does not keep is the main chain itself. A branch block that the push
refuses at the cumulative-size check leaves its key images spent (the rejection of `pushBlock`
takes nothing back), so the rollback that pushes the popped blocks again can refuse one of them:
`switch_to_alternative_blockchain` returns `false` with a shorter main chain. And the depth of a
reorganisation is bounded only block by block, against the height at which each branch block
arrived: a branch that grows while the main chain grows replaces blocks more than
`minedMoneyUnlockWindow` below the tip.

The difficulty a branch block must meet is read from the window the main chain would have if the
branch were the main chain (`alternativeDifficultyWindow_eq_drop`), but the window's length and
the algorithm follow the version at the height of the real main chain; the two agree only where
the versions at the two heights do.

## Main results

* `ChainInvariant.preserves_runNode`, `ChainInvariant.holds_node`: every run of the node keeps
  every invariant of the main chain, and the held blocks among those it was given
* `node_indexes_agree`: every run of the node of fewer than `2 ^ 32 - 1` events keeps the
  indexes in agreement with the store
* `switch_to_alternative_blockchain_loses_block`: a failed reorganisation that loses a block
* `addNewBlock_reorganises_below_window`: a reorganisation by difficulty twelve blocks deep
* `get_next_difficulty_for_alternative_chain_eq_branch`: the difficulty of a branch is that of
  the chain it stands for where the versions agree, and
  `get_next_difficulty_for_alternative_chain_genesis_branch`: a branch from the genesis block on
  mainnet, where they do not
-/

namespace UltraNoteCore

open EStateM

namespace Blockchain

variable (ctx : Context)

/-! ## Where the blocks of a reorganisation come from

A reorganisation pushes the blocks of a branch, which come from the alternative blocks, and the
popped blocks again, which come from the main chain; the alternative blocks come from the blocks
the node was given. So the held blocks stay among those (`Drawn`). -/

section Provenance

variable {ctx} {s : Blockchain}

/-- The entry `alternativeEntry` stores holds the block it checked. -/
theorem alternativeEntry_bl {b : Block} {id : Hash} {alt_chain : List BlockEntry}
    {mainPrevHeight : Option UInt32} {timestamps : List UInt64} {bei : BlockEntry}
    {is_a_checkpoint : Bool}
    (h : s.alternativeEntry ctx b id alt_chain mainPrevHeight timestamps =
      .ok (.ok (bei, is_a_checkpoint))) : bei.bl = b := by
  unfold alternativeEntry at h
  simp only [bind, Except.bind, pure, Except.pure] at h
  -- every check that fails returns a rejection
  split_ifs at h
  all_goals try cases h
  -- the cumulative difficulty below is read from the branch, or from the main chain
  split at h
  · cases h
    rfl
  · split at h
    · cases h
    · cases h
      rfl

/-- The walk back through the alternative blocks finds alternative blocks. -/
theorem mem_altChainTo {fuel : Nat} {h : Hash} {e : BlockEntry} (he : e ∈ s.altChainTo fuel h) :
    ∃ k, (k, e) ∈ s.m_alternative_chains.items := by
  induction fuel generalizing h with
  | zero => simp [altChainTo] at he
  | succ fuel ih =>
    unfold altChainTo at he
    split at he
    · simp at he
    · next k e' hfind =>
      rcases List.mem_append.mp he with he | he
      · exact ih he
      · rw [List.mem_singleton] at he
        subst he
        exact ⟨k, (KeyedList.find?_eq_some hfind).1⟩

variable {S : List Block}

theorem Drawn.altChainTo (h : Drawn S s) (fuel : Nat) (hash : Hash) :
    ∀ e ∈ s.altChainTo fuel hash, e.bl ∈ S := fun _ he =>
  let ⟨_, hmem⟩ := mem_altChainTo he
  h.alternative _ hmem

/-- Erasing alternative blocks keeps the held blocks among `S`. -/
theorem Drawn.eraseAlternatives (h : Drawn S s) (l : List BlockEntry) :
    Drawn S { s with
      m_alternative_chains := l.foldl (fun c e => c.erase (ctx.prims.get_block_hash e.bl))
        s.m_alternative_chains } :=
  ⟨h.main, fun p hp => h.alternative p (KeyedList.mem_of_mem_foldl_erase _ l hp)⟩

/-- The blocks a switch pops are blocks of the main chain. -/
theorem Drawn.replaced (h : Drawn S s) (split_height : Nat) :
    ∀ b ∈ (s.m_blocks.drop split_height).map (·.bl), b ∈ S := by
  intro b hb
  obtain ⟨e, he, rfl⟩ := List.mem_map.mp hb
  exact h.main e (List.mem_of_mem_drop he)

/-! ## Every run of the node keeps every invariant of the main chain -/

section ChainInvariant

variable {I : Blockchain → Prop} (hI : ChainInvariant ctx S I)
include hI

theorem ChainInvariant.preserves_disconnectBlocks :
    ∀ n, Preserves (fun s => I s ∧ Drawn S s) (disconnectBlocks ctx n)
  | 0 => Preserves.pure _
  | n + 1 => hI.pop_drawn.bind fun _ => preserves_disconnectBlocks n

theorem ChainInvariant.preserves_reconnectBlocks :
    ∀ height blocks, (∀ b ∈ blocks, b ∈ S) →
      Preserves (fun s => I s ∧ Drawn S s) (reconnectBlocks ctx height blocks)
  | _, [], _ => Preserves.pure _
  | _, b :: rest, hb =>
    (hI.push_drawn (hb b List.mem_cons_self) _ _).bind fun _ => Preserves.ite (Preserves.pure _)
      (preserves_reconnectBlocks _ rest fun b' h => hb b' (List.mem_cons_of_mem _ h))

theorem ChainInvariant.preserves_rollback_blockchain_switching {original_chain : List Block}
    (horiginal : ∀ b ∈ original_chain, b ∈ S) (rollback_height : Nat) :
    Preserves (fun s => I s ∧ Drawn S s)
      (rollback_blockchain_switching ctx original_chain rollback_height) :=
  Preserves.get_bind fun s hs => ((hI.preserves_disconnectBlocks _).bind fun _ =>
    Preserves.ite ((Preserves.throw _).bind fun _ => hI.preserves_reconnectBlocks _ _ horiginal)
      (hI.preserves_reconnectBlocks _ _ horiginal)) s hs

/-- The blocks of a branch leave the alternative blocks. -/
theorem ChainInvariant.preserves_eraseAlternatives (l : List BlockEntry) :
    Preserves (fun s => I s ∧ Drawn S s) (modify fun s : Blockchain => { s with
      m_alternative_chains := l.foldl (fun c e => c.erase (ctx.prims.get_block_hash e.bl))
        s.m_alternative_chains } : BlockchainM PUnit) :=
  Preserves.modify fun _ hs => ⟨hI.congr hs.1 rfl, hs.2.eraseAlternatives l⟩

theorem ChainInvariant.preserves_connectBranch {disconnected_chain : List Block}
    (hdisconnected : ∀ b ∈ disconnected_chain, b ∈ S) (split_height : Nat) :
    ∀ height alt_chain, (∀ e ∈ alt_chain, e.bl ∈ S) →
      Preserves (fun s => I s ∧ Drawn S s)
        (connectBranch ctx disconnected_chain split_height height alt_chain)
  | _, [], _ => Preserves.pure _
  | height, e :: rest, hbranch => by
    unfold connectBranch
    refine (hI.push_drawn (hbranch e List.mem_cons_self) _ _).bind fun _ => Preserves.ite ?_
      (preserves_connectBranch hdisconnected split_height _ rest fun e' h =>
        hbranch e' (List.mem_cons_of_mem _ h))
    -- the branch from the refused block on leaves the alternative blocks
    exact (hI.preserves_rollback_blockchain_switching hdisconnected _).bind fun _ =>
      (hI.preserves_eraseAlternatives _).bind fun _ => Preserves.pure _

section Handler

variable {handleAlternative : Block → Hash → BlockchainM Bool}
  (hh : ∀ bl ∈ S, ∀ h, Preserves (fun s => I s ∧ Drawn S s) (handleAlternative bl h))
include hh

theorem ChainInvariant.preserves_storeDisconnected {disconnected_chain : List Block}
    (hdisconnected : ∀ b ∈ disconnected_chain, b ∈ S) (split_height : Nat) :
    ∀ blocks, (∀ b ∈ blocks, b ∈ S) → Preserves (fun s => I s ∧ Drawn S s)
      (storeDisconnected ctx handleAlternative disconnected_chain split_height blocks)
  | [], _ => Preserves.pure _
  | bl :: rest, hb =>
    (hh bl (hb bl List.mem_cons_self) _).bind fun _ => Preserves.ite
      ((hI.preserves_rollback_blockchain_switching hdisconnected _).bind fun _ => Preserves.pure _)
      (preserves_storeDisconnected hdisconnected split_height rest fun b h =>
        hb b (List.mem_cons_of_mem _ h))

theorem ChainInvariant.preserves_switch_to_alternative_blockchain {alt_chain : List BlockEntry}
    (hbranch : ∀ e ∈ alt_chain, e.bl ∈ S) (discard_disconnected_chain : Bool) :
    Preserves (fun s => I s ∧ Drawn S s)
      (switch_to_alternative_blockchain ctx handleAlternative alt_chain discard_disconnected_chain) := by
  unfold switch_to_alternative_blockchain
  split
  · next front _ =>
    refine Preserves.get_bind fun s hs => ?_
    dsimp only
    -- the popped blocks are blocks of the main chain the switch read
    have hreplaced := hs.2.replaced front.height.toNat
    -- the `size_t` scan at split height `0` throws before the checks that follow it
    refine (Preserves.ite (P := fun s => I s ∧ Drawn S s) (Preserves.pure _)
      (Preserves.ite ((Preserves.throw _).bind fun _ => ?_) ?_)) s hs
    all_goals
      refine Preserves.ite (Preserves.pure _) (Preserves.ite (Preserves.pure _) ?_)
      refine (hI.preserves_disconnectBlocks _).bind fun _ =>
        (hI.preserves_connectBranch hreplaced _ _ _ hbranch).bind fun _ =>
          Preserves.ite (Preserves.pure _) ?_
      refine Preserves.ite ((hI.preserves_storeDisconnected hh hreplaced _ _ hreplaced).bind
        fun _ => Preserves.ite (Preserves.pure _) ?_) ?_
      -- the branch leaves the alternative blocks
      all_goals exact (hI.preserves_eraseAlternatives _).bind fun _ => Preserves.pure _
  · exact Preserves.pure _

end Handler

/-- Every step of `handleAlternativeBlock` but the reorganisation only reads the main chain; the
block is stored among the alternative blocks, and the reorganisation runs the handler on the
popped blocks. -/
theorem ChainInvariant.preserves_handleAlternativeBlock
    {handleAlternative : Option (Block → Hash → BlockchainM Bool)}
    (hh : ∀ f ∈ handleAlternative, ∀ bl ∈ S, ∀ h,
      Preserves (fun s => I s ∧ Drawn S s) (f bl h))
    {b : Block} (hb : b ∈ S) (id : Hash) (bvc : block_verification_context) :
    Preserves (fun s => I s ∧ Drawn S s) (handleAlternativeBlock ctx handleAlternative b id bvc) := by
  unfold handleAlternativeBlock
  refine Preserves.get_bind fun s hs => ?_
  refine ((Preserves.ofExcept (P := fun s => I s ∧ Drawn S s) _).bind fun r => ?_) s hs
  split
  · refine Preserves.ite (Preserves.pure _) ((Preserves.ofExcept _).bind fun r => ?_)
    split
    · refine Leads.bind_returns (Preserves.ofExcept _).leads (Returns.ofExcept _)
        (fun r hentry => ?_) fun _ h => h
      split
      · exact Preserves.pure _
      · next bei is_a_checkpoint =>
        split
        · next chains hinsert =>
          -- the block is stored: only the alternative blocks change, by the block's entry
          have hbei : bei.bl = b := alternativeEntry_bl hentry
          have hstored : ∀ p ∈ chains.items, p.2.bl ∈ S := by
            intro p hp
            rw [(KeyedList.insert_eq_some hinsert).2, List.mem_append, List.mem_singleton] at hp
            rcases hp with hp | rfl
            · exact hs.2.alternative p hp
            · exact hbei ▸ hb
          refine (Preserves.set ⟨hI.congr hs.1 rfl, hs.2.main, hstored⟩).bind fun _ =>
            (Preserves.ofExcept _).bind fun reorganise => ?_
          split
          · exact Preserves.pure _
          · next f =>
            refine Preserves.ite (Preserves.pure _) ?_
            -- the branch: alternative blocks the walk found, and the new block
            have hbranch : ∀ e ∈ s.altChainTo s.m_alternative_chains.items.length
                b.previousBlockHash ++ [bei], e.bl ∈ S := by
              intro e he
              rcases List.mem_append.mp he with he | he
              · exact hs.2.altChainTo _ _ e he
              · rw [List.mem_singleton.mp he, hbei]
                exact hb
            exact (hI.preserves_switch_to_alternative_blockchain (hh f rfl) hbranch _).bind
              fun _ => Preserves.ite (Preserves.pure _) (Preserves.pure _)
        · exact Preserves.pure _
    · exact Preserves.pure _
  · exact Preserves.pure _

/-- `handle_alternative_block` keeps the invariant at every depth: the handler one level deeper
keeps it by induction. -/
theorem ChainInvariant.preserves_handle_alternative_block :
    ∀ depth {b : Block}, b ∈ S → ∀ id bvc,
      Preserves (fun s => I s ∧ Drawn S s) (handle_alternative_block ctx depth b id bvc)
  | 0, _, hb, id, bvc =>
    hI.preserves_handleAlternativeBlock (fun _ h => (Option.not_mem_none _ h).elim) hb id bvc
  | depth + 1, _, hb, id, bvc => hI.preserves_handleAlternativeBlock (fun f hf bl hbl h => by
      cases hf
      exact (preserves_handle_alternative_block depth hbl h _).bind fun _ => Preserves.pure _)
    hb id bvc

theorem ChainInvariant.preserves_addNewBlock (depth : Nat) {bl : Block} (hb : bl ∈ S)
    (bvc : block_verification_context) :
    Preserves (fun s => I s ∧ Drawn S s) (addNewBlock ctx depth bl bvc) := by
  unfold addNewBlock
  refine Preserves.get_bind fun s hs => ?_
  refine (Preserves.ite (Preserves.pure _) (Preserves.ite
    (hI.preserves_handle_alternative_block _ hb _ _) (hI.push_drawn hb _ _))) s hs

end ChainInvariant

variable (ctx) in
theorem add_new_tx_chains (tx : Transaction) (tx_hash : Hash) (blob_size : Nat)
    (tvc : tx_verification_context) (keeped_by_block : Bool) (height : UInt32) :
    Keeps chains (add_new_tx ctx tx tx_hash blob_size tvc keeped_by_block height) := by
  unfold add_new_tx
  refine Keeps.get_bind fun s => ?_
  split
  · rfl
  · split
    · rfl
    · -- only the pool changes
      exact Keeps.set_run (fun _ => rfl) rfl

variable (ctx) in
theorem handle_incoming_tx_chains (tx : Transaction) (keeped_by_block : Bool) :
    Keeps chains (handle_incoming_tx ctx tx keeped_by_block) := by
  unfold handle_incoming_tx handleIncomingTransaction
  exact Keeps.get_bind fun s =>
    Keeps.ite (Keeps.pure _) (add_new_tx_chains ctx _ _ _ _ _ _) s

section ChainInvariant

variable {I : Blockchain → Prop} (hI : ChainInvariant ctx S I)
include hI

theorem ChainInvariant.preserves_handleEvent (depth : Nat) :
    ∀ e, (∀ b ∈ e.block?, b ∈ S) → Preserves (fun s => I s ∧ Drawn S s) (handleEvent ctx depth e)
  | .transaction tx keptByBlock, _ =>
    (hI.preserves_drawn (handle_incoming_tx_chains ctx tx keptByBlock)).bind fun _ =>
      Preserves.pure _
  | .block _, hb => (hI.preserves_addNewBlock depth (hb _ rfl) {}).bind fun _ => Preserves.pure _

/-- **A run of the node keeps every invariant of the main chain**, whatever arrives, through
every reorganisation and rollback of one, and where an exception ends the run, as long as the
blocks that arrive are among `S`. -/
theorem ChainInvariant.preserves_runNode (depth : Nat) :
    ∀ events, (∀ b ∈ events.filterMap NodeEvent.block?, b ∈ S) →
      Preserves (fun s => I s ∧ Drawn S s) (runNode ctx depth events)
  | [], _ => Preserves.pure _
  | e :: es, hev =>
    (hI.preserves_handleEvent depth e fun b hb =>
      hev b (List.mem_filterMap.mpr ⟨e, List.mem_cons_self, hb⟩)).bind fun _ =>
        preserves_runNode depth es fun b hb =>
          let ⟨e', he', hb'⟩ := List.mem_filterMap.mp hb
          hev b (List.mem_filterMap.mpr ⟨e', List.mem_cons_of_mem _ he', hb'⟩)

/-- **A run of the node from the empty blockchain keeps the invariant**: all the blocks it holds
are the genesis block or blocks that arrived. -/
theorem ChainInvariant.holds_node {genesisBlock : Block} {depth : Nat} {events : List NodeEvent}
    (hS : S = genesisBlock :: events.filterMap NodeEvent.block?) {pool : tx_memory_pool}
    (hempty : I (Blockchain.empty pool)) :
    I ((init ctx genesisBlock >>= fun _ => runNode ctx depth events).run
      (Blockchain.empty pool)).state := by
  subst hS
  refine (((hI.preserves_init List.mem_cons_self).bind fun _ =>
    hI.preserves_runNode depth events fun b hb => List.mem_cons_of_mem _ hb) _
      ⟨hempty, ⟨fun e he => absurd he List.not_mem_nil, fun p hp => absurd hp List.not_mem_nil⟩⟩).1

end ChainInvariant

end Provenance

/-- The blocks a run can hold: the genesis block and those that arrive, at most one per event. -/
theorem length_node_blocks_le (genesisBlock : Block) (events : List NodeEvent) :
    (genesisBlock :: events.filterMap NodeEvent.block?).length ≤ events.length + 1 := by
  rw [List.length_cons]
  exact Nat.succ_le_succ (List.length_filterMap_le _ _)

/-- **The indexes agree with the store in every run of the node.** After `init` with any
genesis block and any sequence of fewer than `2 ^ 32 - 1` incoming transactions and blocks, with
any reorganisations and failed reorganisations, and where an exception ended the run: the block
index lists the hashes of the stored blocks in order, both indexes have one block per stored
block, and the deposit index answers at every height the sums of the deposit changes and
interests of the stored blocks up to it. -/
theorem node_indexes_agree (genesisBlock : Block) (depth : Nat) (events : List NodeEvent)
    (pool : tx_memory_pool) (hevents : events.length + 1 < 2 ^ 32) :
    let s := ((init ctx genesisBlock >>= fun _ => runNode ctx depth events).run
      (Blockchain.empty pool)).state
    s.m_blockIndex.m_container.items = s.m_blocks.map (fun b => ctx.prims.get_block_hash b.bl) ∧
      s.m_blockIndex.size.toNat = s.m_blocks.length ∧
      s.m_depositIndex.size.toNat = s.m_blocks.length ∧
      ∀ n : DepositHeight, s.m_depositIndex.depositAmountAtHeight n =
          (((s.m_blocks.map (blockDeposit ctx)).take (n.toNat + 1)).map Prod.fst).sum ∧
        s.m_depositIndex.depositInterestAtHeight n =
          (((s.m_blocks.map (blockDeposit ctx)).take (n.toNat + 1)).map Prod.snd).sum := by
  intro s
  have h : StoreAgrees ctx s :=
    ((storeAgrees_chainInvariant ctx (Nat.lt_of_le_of_lt
      (length_node_blocks_le genesisBlock events) hevents)).holds_node rfl
      ⟨StoreAgrees.empty ctx pool, fun e he => absurd he List.not_mem_nil⟩).1
  exact ⟨h.blockIndex, h.sizes.1, h.sizes.2, fun n =>
    ⟨h.depositIndex.depositAmountAtHeight n, h.depositIndex.depositInterestAtHeight n⟩⟩

/-- The genesis block and two more blocks on the sample network. -/
theorem node_indexes_agree_sample :
    (sampleChain 2).m_depositIndex.size.toNat = (sampleChain 2).m_blocks.length :=
  (node_indexes_agree sampleContext (sampleBlock 0 []) 2
    ((List.range' 1 2).map fun h => .block (sampleBlock h [])) tx_memory_pool.empty
    (by decide)).2.2.1

/-! ## Two reorganisations of the sample network -/

/-- The block at height `h` of a branch that leaves the main chain at height `split`: its
timestamps follow one second apart from the block below the split, so its difficulty grows. -/
def sampleAltBlock (split h : Nat) (transactionHashes : List Hash) : Block :=
  { majorVersion := sampleVersion h, minorVersion := 0, nonce := UInt32.ofNat (200 + h),
    timestamp := UInt64.ofNat (120 * (split - 1) + (h - split + 1)),
    previousBlockHash := if h = split then sampleHash (100 + h - 1) else sampleHash (200 + h - 1),
    baseTransaction := sampleCoinbase h (UInt8.ofNat (100 + h)), transactionHashes }

/-- The state after `init` pushes the genesis block and the events arrive. -/
def sampleRun (events : List NodeEvent) : Blockchain :=
  ((init sampleContext (sampleBlock 0 []) >>= fun _ => runNode sampleContext 2 events).run
    (Blockchain.empty tx_memory_pool.empty)).state

/-- The main chain `0` to `11`, whose block 11 holds a transaction spending the genesis coinbase;
a branch block at height 11 that holds that transaction and a large one whose blob its sender
left out, which then arrives relayed. -/
def failedReorgEvents : List NodeEvent :=
  ((List.range' 1 10).map fun h => .block (sampleBlock h [])) ++
  [.transaction (sampleOutputSpend 0 0 1) false,
   .block (sampleBlock 11 [samplePrims.getObjectHash (sampleOutputSpend 0 0 1)]),
   .block (sampleAltBlock 11 11 [samplePrims.getObjectHash (sampleOutputSpend 0 0 1),
     samplePrims.getObjectHash (sampleOutputSpend 1 100 2)]),
   .transaction (sampleOutputSpend 1 100 2) false]

/-- The state `handle_alternative_block` hands to the reorganisation when the second branch
block arrives: the branch stored, the main chain unchanged (at depth `0` it stops there). -/
def failedReorgStored : Blockchain :=
  ((addNewBlock sampleContext 0 (sampleAltBlock 11 12 []) {}).run (sampleRun failedReorgEvents)).state

/-- **A failed reorganisation loses a block.** The branch of two blocks has more cumulative
difficulty; its first block is refused at the cumulative-size check, which leaves the key image
of the shared transaction spent, so the rollback refuses the popped block 11 that spends it:
`switch_to_alternative_blockchain` returns `false` with a main chain of 11 blocks for 12. -/
theorem switch_to_alternative_blockchain_loses_block :
    (let r := (switch_to_alternative_blockchain sampleContext
      (fun bl h => do return (← handle_alternative_block sampleContext 1 bl h {}).1)
      (failedReorgStored.m_alternative_chains.items.map Prod.snd) false).run failedReorgStored
    r.value? = some false ∧ failedReorgStored.m_blocks.length = 12 ∧
      r.state.m_blocks = failedReorgStored.m_blocks.take 11) := by
  decide +kernel

/-- The main chain `0` to `31` and a branch from height 20 whose blocks `20` to `27` arrived
while the main chain grew from 30 blocks to 32: each was at most ten blocks below the tip when
it arrived. -/
def deepReorgEvents : List NodeEvent :=
  ((List.range' 1 29).map fun h => .block (sampleBlock h [])) ++
  [.block (sampleAltBlock 20 20 []), .block (sampleBlock 30 []), .block (sampleAltBlock 20 21 []),
   .block (sampleBlock 31 [])] ++
  ((List.range 6).map fun i => .block (sampleAltBlock 20 (22 + i) []))

/-- **A reorganisation by difficulty replaces a block twelve below the tip.** With no
checkpoints, block 28 of the branch gives it more cumulative difficulty than the 32 blocks of the
main chain, and the reorganisation replaces the main chain from height 20, below
`32 - minedMoneyUnlockWindow`. -/
theorem addNewBlock_reorganises_below_window :
    (let before := sampleRun deepReorgEvents
    let r := (addNewBlock sampleContext 2 (sampleAltBlock 20 28 []) {}).run before
    sampleContext.m_checkpoints.m_points = [] ∧ before.m_blocks.length = 32 ∧
      r.value?.map (·.2.m_switched_to_alt_chain) = some true ∧
      r.state.m_blocks.take 20 = before.m_blocks.take 20 ∧
      r.state.m_blocks[20]? ≠ before.m_blocks[20]? ∧
      20 + sampleContext.m_currency.minedMoneyUnlockWindow < before.m_blocks.length) := by
  decide +kernel

/-! ## The difficulty a branch is checked against -/

/-- The height at which a branch leaves the main chain, as
`get_next_difficulty_for_alternative_chain` reads it: that of the branch's first block, or the
candidate's when the branch is empty. -/
def branchSplitHeight (alt_chain : List BlockEntry) (bei : BlockEntry) : Nat :=
  match alt_chain.head? with
  | some front => front.height.toNat
  | none => bei.height.toNat

/-- The state with the branch as its main chain: the blocks below the split, then the branch. -/
def branchChain (s : Blockchain) (alt_chain : List BlockEntry) (bei : BlockEntry) : Blockchain :=
  { s with m_blocks := s.m_blocks.take (branchSplitHeight alt_chain bei) ++ alt_chain }

/-- The window of a branch is the window `getDifficultyForNextBlock` reads on the chain the
branch stands for, for every window length: its last `count` blocks, never the genesis block.
The split must lie inside the main chain, above the genesis block. -/
theorem alternativeDifficultyWindow_eq_drop (s : Blockchain) (alt_chain : List BlockEntry)
    (bei : BlockEntry) (count : Nat) (h1 : 1 ≤ branchSplitHeight alt_chain bei)
    (h2 : branchSplitHeight alt_chain bei ≤ s.m_blocks.length) :
    let blocks := (s.branchChain alt_chain bei).m_blocks
    let offset := blocks.length - min blocks.length count
    s.alternativeDifficultyWindow alt_chain bei count =
      some (blocks.drop (if offset = 0 then 1 else offset)) := by
  intro blocks offset
  have hblocks : blocks = s.m_blocks.take (branchSplitHeight alt_chain bei) ++ alt_chain := rfl
  generalize hsplit : branchSplitHeight alt_chain bei = split at h1 h2 hblocks
  have hlen : blocks.length = split + alt_chain.length := by
    simp only [hblocks, List.length_append, List.length_take]; omega
  unfold alternativeDifficultyWindow
  -- the source's stop offset is the split height, whether or not the branch is empty
  cases hh : alt_chain.head? <;> simp only [branchSplitHeight, hh] at hsplit <;>
    simp only [hsplit]
  all_goals
    by_cases hshort : alt_chain.length < count
    · -- the branch is shorter than the window: the main chain from the start offset, then it
      generalize hst : (if split - min (count - min count alt_chain.length) split = 0 then 1
        else split - min (count - min count alt_chain.length) split) = start
      have hstart : start ≤ split ∧ split - (count - alt_chain.length) ≤ start := by
        subst hst; split_ifs <;> omega
      have hoffset : (if offset = 0 then 1 else offset) = start := by
        subst hst; simp only [offset, hlen]; split_ifs <;> omega
      have hmain : ((s.m_blocks.drop start).take (split - start)).length = split - start := by
        simp only [List.length_take, List.length_drop]; omega
      rw [if_pos hshort, hmain, if_neg (by omega), hoffset, hblocks,
        List.drop_append_of_le_length (by simp only [List.length_take]; omega), List.drop_take]
    · -- the branch fills the window: its last blocks
      have hoffset : (if offset = 0 then 1 else offset) = split + (alt_chain.length - count) := by
        simp only [offset, hlen]; split_ifs <;> omega
      have htakeLength : (s.m_blocks.take split).length = split := by
        simp only [List.length_take]; omega
      have hnil : (s.m_blocks.take split).drop (split + (alt_chain.length - count)) = [] :=
        List.drop_eq_nil_of_le (by omega)
      rw [if_neg hshort, hoffset, hblocks, List.drop_append, hnil, List.nil_append, htakeLength,
        Nat.add_sub_cancel_left]

/-- Where the versions at the heights of the main chain and of the chain the branch stands for
agree (at the height, for the window's length, and one above, for the algorithm), the
difficulty of a branch is the one `getDifficultyForNextBlock` gives on that chain. -/
theorem get_next_difficulty_for_alternative_chain_eq_branch (s : Blockchain)
    (alt_chain : List BlockEntry) (bei : BlockEntry) (h1 : 1 ≤ branchSplitHeight alt_chain bei)
    (h2 : branchSplitHeight alt_chain bei ≤ s.m_blocks.length)
    (hcount : (s.branchChain alt_chain bei).getBlockMajorVersionForHeight ctx
        (s.branchChain alt_chain bei).getCurrentBlockchainHeight =
      s.getBlockMajorVersionForHeight ctx s.getCurrentBlockchainHeight)
    (halgorithm : (s.branchChain alt_chain bei).get_block_major_version_for_height ctx
        ((s.branchChain alt_chain bei).getCurrentBlockchainHeight + 1).toUInt64 =
      s.get_block_major_version_for_height ctx (s.getCurrentBlockchainHeight + 1).toUInt64) :
    s.get_next_difficulty_for_alternative_chain ctx alt_chain bei =
      (s.branchChain alt_chain bei).getDifficultyForNextBlock ctx := by
  unfold get_next_difficulty_for_alternative_chain getDifficultyForNextBlock
  dsimp only
  rw [hcount, halgorithm, alternativeDifficultyWindow_eq_drop s alt_chain bei _ h1 h2]

/-- The entry of the block at height `h` of a sample branch from `split`. -/
def sampleBranchEntry (split h : Nat) : BlockEntry :=
  { bl := sampleAltBlock split h [], height := UInt32.ofNat h, block_cumulative_size := 0,
    cumulative_difficulty := 0, already_generated_coins := 0, transactions := [] }

/-- A branch from height 4 of the chain of six blocks: all heights run version 3. -/
theorem get_next_difficulty_for_alternative_chain_eq_branch_sample :
    (sampleChain 5).get_next_difficulty_for_alternative_chain sampleContext
        [sampleBranchEntry 4 4] (sampleBranchEntry 4 5) =
      ((sampleChain 5).branchChain [sampleBranchEntry 4 4]
        (sampleBranchEntry 4 5)).getDifficultyForNextBlock sampleContext :=
  get_next_difficulty_for_alternative_chain_eq_branch sampleContext _ _ _ (by decide +kernel)
    (by decide +kernel) (by decide +kernel) (by decide +kernel)

/-- **The algorithm of the main chain's height.** On the chain of four blocks, a candidate at
height 1 on the genesis block is checked by LWMA-3 (version 3 at height 5), whose guess for an
empty window is `100`; as the second block of a main chain it would be checked by the window
algorithm of version 2, which gives `1`. -/
theorem get_next_difficulty_for_alternative_chain_genesis_branch :
    (sampleChain 3).get_next_difficulty_for_alternative_chain sampleContext []
        (sampleBranchEntry 1 1) = 100 ∧
      ((sampleChain 3).branchChain [] (sampleBranchEntry 1 1)).getDifficultyForNextBlock
        sampleContext = 1 := by
  decide +kernel

end Blockchain

end UltraNoteCore
