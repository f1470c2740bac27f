import Mathlib
import UltraNoteCore.Core.Blockchain.Reorganisation

/-!
# Restarting on the stored blocks

`Blockchain::init` opens the block store and, when the cache file `BlockCacheSerializer` wrote at
the last `deinit` is missing or stale, calls `rebuildCache`: the block index, the transaction
map, the spent key images and the output indexes are cleared and built again from the stored
blocks, and the deposit change and interest of each block are pushed to the deposit index.

The loops of `rebuildCache` count in narrow types: the blocks in a `uint32_t`, the transactions
of a block and the outputs of a transaction in a `uint16_t`. A loop whose counter wraps while
still below the number it counts never ends. So `rebuildCache` returns only on a store whose
blocks have at most `65535` transactions of at most `65535` outputs each (`BlockEntry.CountsFit`),
which nothing in `pushBlock` checks: a stored block of more transactions makes every later
restart hang (`rebuildCache_eq_none`).

The rebuilt deposit index is the one the node had only because of two facts about the stored
entries that no check of the restart makes. `rebuildCache` sums the interest of all the
transactions of a block at the block's position in the store, the coinbase included;
`pushBlock` summed that of the transactions after the coinbase, at the height recorded in the
entry. The two sums agree on every block `pushBlock` stores: the entry records its position as
its height, and its coinbase spends one `BaseInput` only, which earns no interest
(`BlockEntry.StoredAt`). Every run of the node keeps this of all its entries, an invariant of the
main chain (`stored_chainInvariant`). So after a run of the node, a restart that rebuilds the
cache from the stored blocks gets back the block index and the deposit index the node had.

`rebuildCache` clears every index but the deposit index: it rebuilds that one only on a
`Blockchain` whose deposit index is as constructed, as a restart whose cache file was missing or
stale has it.

## Main definitions

* `Blockchain.rebuildCache`, with its loops `rebuildBlocks`, `rebuildTransactions` and
  `rebuildInputs`
* `BlockEntry.CountsFit`: what the `uint16_t` counters of the rebuild can count
* `BlockEntry.StoredAt`, `Blockchain.Stored`: what `pushBlock` records of a stored block

## Main results

* `Blockchain.rebuildCache_eq_none`: a stored block of more than `65535` transactions makes the
  rebuild run forever
* `Blockchain.rebuildCache_eq`: what the rebuilt indexes hold
* `Blockchain.stored_chainInvariant`: every run of the node keeps `Stored`
* `Blockchain.restart_rebuildCache_restores`: a restart after a run of the node rebuilds the
  block index and the deposit index the node had
-/

namespace UltraNoteCore

open EStateM

namespace Blockchain

variable (ctx : Context)

/-! ## `rebuildCache` -/

/-- The input loop of `rebuildCache`: key images are inserted into the spent key images, and
the multisignature outputs the inputs spend are marked used. -/
def rebuildInputs (s : Blockchain) : List TransactionInput → Blockchain
  | [] => s
  | .key k :: rest => rebuildInputs { s with m_spent_keys := insert k.keyImage s.m_spent_keys } rest
  | .multisignature m :: rest => rebuildInputs (setMultisignatureUsed s m.amount m.outputIndex true) rest
  | .base _ :: rest => rebuildInputs s rest

/-- One turn of the transaction loop of `rebuildCache`, for the transaction at position `t` of
block `b`: the transaction map gets its position unless it has the hash already
(`sparse_hash_map::insert`), its inputs and outputs enter the indexes as `pushTransaction`
enters them, and its interest at height `b` is added to the block's. `none` where the output
loop never ends. -/
def rebuildTransaction (b : UInt32) (t : UInt16) (transaction : TransactionEntry) (s : Blockchain)
    (interest : UInt64) : Option (Blockchain × UInt64) := do
  let transactionHash := ctx.prims.getObjectHash transaction.tx
  let transactionIndex : TransactionIndex := ⟨b, t⟩
  let s := if (s.m_transactionMap transactionHash).isSome then s
    else { s with
      m_transactionMap := Function.update s.m_transactionMap transactionHash (some transactionIndex) }
  let s := rebuildInputs s transaction.tx.inputs
  let (s, _) ← pushOutputs transactionIndex 0 s transaction.tx.outputs
  return (s, interest +
    ctx.m_currency.calculateTotalTransactionInterest transaction.tx.toTransactionPrefix b.toNat)

/-- The transaction loop of `rebuildCache` over the transactions of block `b` from position `t`
on. The source counts positions in a `uint16_t` `t`: after the transaction at position `65535`
it wraps to `0`, still below the number of transactions, and the loop never ends (`none`). -/
def rebuildTransactions (b : UInt32) : UInt16 → List TransactionEntry → Blockchain → UInt64 →
    Option (Blockchain × UInt64)
  | _, [], s, interest => some (s, interest)
  | t, transaction :: rest, s, interest => do
    let (s, interest) ← rebuildTransaction ctx b t transaction s interest
    if t + 1 = 0 then none
    else rebuildTransactions b (t + 1) rest s interest

/-- One turn of the block loop of `rebuildCache`: the block's hash enters the block index, its
transactions the other indexes, and its deposit change and the interest of all its transactions
the deposit index. -/
def rebuildBlock (b : UInt32) (block : BlockEntry) (s : Blockchain) : Option Blockchain := do
  let s := { s with m_blockIndex := (s.m_blockIndex.push (ctx.prims.get_block_hash block.bl)).2 }
  let (s, interest) ← rebuildTransactions ctx b 0 block.transactions s 0
  return s.pushToDepositIndex block interest

/-- The block loop of `rebuildCache` over the stored blocks from position `b` on. The source
reads each through `m_blocks[b]`, within the store, and counts positions in a `uint32_t` `b`:
after the block at position `2 ^ 32 - 1` it wraps to `0`, still below the number of blocks, and
the loop never ends (`none`). -/
def rebuildBlocks : UInt32 → List BlockEntry → Blockchain → Option Blockchain
  | _, [], s => some s
  | b, block :: rest, s => do
    let s ← rebuildBlock ctx b block s
    if b + 1 = 0 then none
    else rebuildBlocks (b + 1) rest s

/-- `Blockchain::rebuildCache`: every index but the deposit index is cleared, then the stored
blocks enter them in order; `none` where a loop never ends. -/
def rebuildCache (s : Blockchain) : Option Blockchain :=
  rebuildBlocks ctx 0 s.m_blocks
    { s with
      m_blockIndex := BlockIndex.empty
      m_transactionMap := fun _ => none
      m_spent_keys := ∅
      m_outputs := fun _ => []
      m_multisignatureOutputs := fun _ => [] }

/-- What `rebuildCache` pushes to the deposit index for the block at position `b`: its deposit
change, and the interest of all its transactions at height `b`. -/
def rebuildDeposit (b : UInt32) (block : BlockEntry) : DepositAmount × DepositInterest :=
  (block.txs.foldl depositChange 0, block.txs.foldl (fun acc tx => acc +
    ctx.m_currency.calculateTotalTransactionInterest tx.toTransactionPrefix b.toNat) 0)

end Blockchain

/-- What the `uint16_t` counters of `rebuildCache` can count: at most `65535` transactions in the
block, and at most `65535` outputs in each. -/
def BlockEntry.CountsFit (block : BlockEntry) : Prop :=
  block.transactions.length ≤ 65535 ∧ ∀ e ∈ block.transactions, e.tx.outputs.length ≤ 65535

instance (block : BlockEntry) : Decidable block.CountsFit :=
  inferInstanceAs (Decidable (_ ∧ _))

namespace Blockchain

/-! ## The loops end exactly where their counters fit -/

/-- A `uint16_t` counter below `65535` steps up without wrapping. -/
theorem toNat_add_one_of_lt {t : UInt16} (ht : t.toNat < 65535) :
    t + 1 ≠ 0 ∧ (t + 1).toNat = t.toNat + 1 := by
  have hsum : (t + 1).toNat = t.toNat + 1 := by
    rw [UInt16.toNat_add, UInt16.toNat_one, Nat.mod_eq_of_lt (by omega)]
  refine ⟨fun h0 => ?_, hsum⟩
  have := congrArg UInt16.toNat h0
  rw [hsum, UInt16.toNat_zero] at this
  omega

/-- A `uint32_t` counter below `2 ^ 32 - 1` steps up without wrapping. -/
theorem toNat_add_one_of_lt' {b : UInt32} (hb : b.toNat < 2 ^ 32 - 1) :
    b + 1 ≠ 0 ∧ (b + 1).toNat = b.toNat + 1 := by
  have hsum : (b + 1).toNat = b.toNat + 1 := by
    rw [UInt32.toNat_add, UInt32.toNat_one, Nat.mod_eq_of_lt (by omega)]
  refine ⟨fun h0 => ?_, hsum⟩
  have := congrArg UInt32.toNat h0
  rw [hsum, UInt32.toNat_zero] at this
  omega

variable {ctx : Context}

/-- The output loop ends when its counter fits, keeping the store. -/
theorem pushOutputs_isSome (transactionIndex : TransactionIndex) (s : Blockchain) :
    ∀ (output : UInt16) (outs : List TransactionOutput), output.toNat + outs.length ≤ 65535 →
      ∃ r, pushOutputs transactionIndex output s outs = some r
  | _, [], _ => ⟨_, rfl⟩
  | output, o :: rest, hfit => by
    simp only [List.length_cons] at hfit
    obtain ⟨hne, hsucc⟩ := toNat_add_one_of_lt (t := output) (by omega)
    unfold pushOutputs
    rw [if_neg hne]
    split
    all_goals
      obtain ⟨r, hr⟩ := pushOutputs_isSome transactionIndex _ (output + 1) rest (by omega)
      dsimp only
      rw [hr]
      exact ⟨_, rfl⟩

@[simp] theorem store_rebuildInputs (s : Blockchain) (ins : List TransactionInput) :
    (rebuildInputs s ins).store = s.store := by
  induction ins generalizing s with
  | nil => rfl
  | cons i rest ih =>
    cases i with
    | key k => exact ih _
    | multisignature m => exact (ih _).trans (store_setMultisignatureUsed ..)
    | base _ => exact ih s

variable (ctx) in
/-- One transaction whose outputs fit: the store is kept, and its interest at the block's height
is added. -/
theorem rebuildTransaction_eq (b : UInt32) (t : UInt16) (transaction : TransactionEntry)
    (s : Blockchain) (interest : UInt64) (hfit : transaction.tx.outputs.length ≤ 65535) :
    ∃ r, rebuildTransaction ctx b t transaction s interest = some r ∧ r.1.store = s.store ∧
      r.2 = interest + ctx.m_currency.calculateTotalTransactionInterest
        transaction.tx.toTransactionPrefix b.toNat := by
  obtain ⟨⟨s', gis⟩, hr⟩ := pushOutputs_isSome ⟨b, t⟩
    (rebuildInputs (if (s.m_transactionMap (ctx.prims.getObjectHash transaction.tx)).isSome then s
      else { s with
        m_transactionMap := Function.update s.m_transactionMap
          (ctx.prims.getObjectHash transaction.tx) (some ⟨b, t⟩) }) transaction.tx.inputs)
    0 transaction.tx.outputs (by simpa using hfit)
  refine ⟨(s', interest + ctx.m_currency.calculateTotalTransactionInterest
    transaction.tx.toTransactionPrefix b.toNat), ?_, ?_, rfl⟩
  · simp only [rebuildTransaction, Option.bind_eq_bind, hr, Option.bind_some]
    rfl
  -- the transaction map, the spent keys and the outputs are outside the store
  rw [store_pushOutputs _ hr, store_rebuildInputs]
  split <;> rfl

variable (ctx) in
/-- **The transaction loop.** Where the positions and the outputs fit their counters, it ends,
keeps the store, and sums the interest of the transactions at the block's height onto the
interest it starts from. -/
theorem rebuildTransactions_eq (b : UInt32) (txs : List TransactionEntry) (t : UInt16)
    (s : Blockchain) (interest : UInt64) (hcount : t.toNat + txs.length ≤ 65535)
    (hfit : ∀ e ∈ txs, e.tx.outputs.length ≤ 65535) :
    ∃ r, rebuildTransactions ctx b t txs s interest = some r ∧ r.1.store = s.store ∧
      r.2 = txs.foldl (fun acc e =>
        acc + ctx.m_currency.calculateTotalTransactionInterest e.tx.toTransactionPrefix b.toNat)
        interest := by
  induction txs generalizing t s interest with
  | nil => exact ⟨_, rfl, rfl, rfl⟩
  | cons transaction rest ih =>
    simp only [List.length_cons] at hcount
    obtain ⟨⟨s', interest'⟩, hr, hstore, hinterest⟩ :=
      rebuildTransaction_eq ctx b t transaction s interest (hfit _ List.mem_cons_self)
    obtain ⟨hne, hsucc⟩ := toNat_add_one_of_lt (t := t) (by omega)
    obtain ⟨r, hrest, hrestStore, hrestInterest⟩ := ih (t + 1) s' interest' (by omega)
      fun e he => hfit e (List.mem_cons_of_mem _ he)
    refine ⟨r, ?_, hrestStore.trans hstore, ?_⟩
    · simp only [rebuildTransactions, hr, Option.bind_eq_bind, Option.bind_some, if_neg hne]
      exact hrest
    · rw [hrestInterest, List.foldl_cons, ← hinterest]

/-- A transaction loop that reaches position `65535` before its end never ends. -/
theorem rebuildTransactions_eq_none (b : UInt32) :
    ∀ (t : UInt16) (txs : List TransactionEntry) (s : Blockchain) (interest : UInt64),
      65535 < t.toNat + txs.length → rebuildTransactions ctx b t txs s interest = none
  | t, [], _, _, hcount => absurd hcount (by simpa using Nat.le_of_lt_succ t.toNat_lt)
  | t, transaction :: rest, s, interest, hcount => by
    simp only [rebuildTransactions, Option.bind_eq_bind]
    cases rebuildTransaction ctx b t transaction s interest with
    | none => rfl
    | some r =>
      simp only [Option.bind_some]
      -- the counter wraps here, or the rest is as long past the next position
      by_cases hwrap : t + 1 = 0
      · rw [if_pos hwrap]
      · rw [if_neg hwrap]
        have hlt : t.toNat < 65535 := by
          by_contra hge
          have : t.toNat = 65535 := by have := t.toNat_lt; simp at this; omega
          exact hwrap (by rw [← UInt16.toNat_inj, UInt16.toNat_add, this]; rfl)
        obtain ⟨-, hsucc⟩ := toNat_add_one_of_lt hlt
        exact rebuildTransactions_eq_none b (t + 1) rest r.1 r.2
          (by simp only [List.length_cons] at hcount; omega)

variable (ctx) in
/-- One block whose counts fit: its hash is pushed to the block index and its deposit change and
interest to the deposit index; the store of blocks is kept. -/
theorem rebuildBlock_eq (b : UInt32) (block : BlockEntry) (s : Blockchain)
    (hfit : block.CountsFit) :
    ∃ t, rebuildBlock ctx b block s = some t ∧ t.m_blocks = s.m_blocks ∧
      t.m_blockIndex = (s.m_blockIndex.push (ctx.prims.get_block_hash block.bl)).2 ∧
      t.m_depositIndex =
        s.m_depositIndex.pushBlock (rebuildDeposit ctx b block).1 (rebuildDeposit ctx b block).2 := by
  obtain ⟨⟨s', interest⟩, hr, hstore, hinterest⟩ := rebuildTransactions_eq ctx b
    block.transactions 0
    { s with m_blockIndex := (s.m_blockIndex.push (ctx.prims.get_block_hash block.bl)).2 } 0
    (by simpa using hfit.1) hfit.2
  have hblocks := congrArg Store.m_blocks hstore
  have hindex := congrArg Store.m_blockIndex hstore
  have hdeposit := congrArg Store.m_depositIndex hstore
  simp only [store] at hblocks hindex hdeposit
  refine ⟨s'.pushToDepositIndex block interest, ?_, hblocks, hindex, ?_⟩
  · simp only [rebuildBlock, Option.bind_eq_bind, hr, Option.bind_some]
    rfl
  simp only [pushToDepositIndex]
  rw [hdeposit, show interest = _ from hinterest]
  simp [rebuildDeposit, BlockEntry.txs, List.foldl_map]

/-- A hash that a duplicate-free list of hashes has after the index's is not in the index. -/
private theorem hasBlock_eq_false {bi : BlockIndex} {h : Hash} {hashes : List Hash}
    (hnodup : (bi.m_container.items ++ h :: hashes).Nodup) : bi.hasBlock h = false := by
  have hnot : h ∉ bi.m_container.items := fun hmem =>
    (List.nodup_append.mp hnodup).2.2 h hmem h List.mem_cons_self rfl
  simp [BlockIndex.hasBlock, hnot]

variable (ctx) in
/-- **The block loop.** Where the positions fit the `uint32_t` counter and the counts of every
block fit, it ends: it keeps the store of blocks, appends the hashes of the blocks to the block
index, when they are new to it, and pushes to the deposit index what it finds of each block at
its position. -/
theorem rebuildBlocks_eq (blocks : List BlockEntry) (b : UInt32) (s : Blockchain)
    (hcount : b.toNat + blocks.length < 2 ^ 32) (hfit : ∀ block ∈ blocks, block.CountsFit)
    (hnodup : (s.m_blockIndex.m_container.items ++
      blocks.map fun block => ctx.prims.get_block_hash block.bl).Nodup)
    {L : List (DepositAmount × DepositInterest)} (h : s.m_depositIndex.Refines L)
    (hL : L.length + blocks.length < 2 ^ 32) :
    ∃ t, rebuildBlocks ctx b blocks s = some t ∧ t.m_blocks = s.m_blocks ∧
      t.m_blockIndex.m_container.items =
        s.m_blockIndex.m_container.items ++ blocks.map (fun block => ctx.prims.get_block_hash block.bl) ∧
      t.m_depositIndex.Refines
        (L ++ (blocks.zipIdx b.toNat).map fun p => rebuildDeposit ctx (UInt32.ofNat p.2) p.1) := by
  induction blocks generalizing b s L with
  | nil => exact ⟨s, rfl, rfl, by simp, by simpa using h⟩
  | cons block rest ih =>
    simp only [List.length_cons] at hcount hL
    obtain ⟨u, hu, hblocks, hindex, hdeposit⟩ :=
      rebuildBlock_eq ctx b block s (hfit block List.mem_cons_self)
    have hitems : u.m_blockIndex.m_container.items =
        s.m_blockIndex.m_container.items ++ [ctx.prims.get_block_hash block.bl] := by
      rw [hindex]
      exact BlockIndex.push_items _ (hasBlock_eq_false (by simpa using hnodup))
    have hrefines : u.m_depositIndex.Refines (L ++ [rebuildDeposit ctx b block]) := by
      rw [hdeposit]
      exact h.pushBlock (by omega) _ _
    obtain ⟨hne, hsucc⟩ := toNat_add_one_of_lt' (b := b) (by omega)
    obtain ⟨t, ht, htBlocks, htItems, htDeposit⟩ := ih (b + 1) u (by omega)
      (fun block' h' => hfit block' (List.mem_cons_of_mem _ h'))
      (by simpa [hitems] using hnodup) hrefines
      (by simp only [List.length_append, List.length_singleton]; omega)
    refine ⟨t, ?_, htBlocks.trans hblocks, ?_, ?_⟩
    · simp only [rebuildBlocks, hu, Option.bind_eq_bind, Option.bind_some, if_neg hne]
      exact ht
    · rw [htItems, hitems]
      simp
    · rw [List.zipIdx_cons, List.map_cons, ← List.singleton_append, ← List.append_assoc]
      simpa [hsucc, UInt32.ofNat_toNat] using htDeposit

/-- A block loop that reaches a block of more than `65535` transactions never ends. -/
theorem rebuildBlocks_eq_none :
    ∀ (b : UInt32) (blocks : List BlockEntry) (s : Blockchain),
      (∃ block ∈ blocks, 65535 < block.transactions.length) → rebuildBlocks ctx b blocks s = none
  | _, [], _, ⟨_, hmem, _⟩ => absurd hmem List.not_mem_nil
  | b, block :: rest, s, ⟨block', hmem, hlong⟩ => by
    simp only [rebuildBlocks, Option.bind_eq_bind]
    rcases List.mem_cons.mp hmem with rfl | hmem
    · -- the transaction loop of this block wraps
      have hnone : rebuildBlock ctx b block' s = none := by
        simp only [rebuildBlock, Option.bind_eq_bind,
          rebuildTransactions_eq_none b 0 _ _ 0 (by simpa using hlong), Option.bind_none]
      rw [hnone, Option.bind_none]
    · cases rebuildBlock ctx b block s with
      | none => rfl
      | some u =>
        simp only [Option.bind_some]
        split
        · rfl
        · exact rebuildBlocks_eq_none (b + 1) rest u ⟨block', hmem, hlong⟩

/-- **A block of more than `65535` transactions hangs the restart.** `rebuildCache` never returns
on a store that holds one. -/
theorem rebuildCache_eq_none (s : Blockchain)
    (h : ∃ block ∈ s.m_blocks, 65535 < block.transactions.length) :
    rebuildCache ctx s = none :=
  rebuildBlocks_eq_none 0 s.m_blocks _ h

variable (ctx) in
/-- **What the rebuilt indexes hold.** On a store of fewer than `2 ^ 32` distinct blocks whose
counts fit, `rebuildCache` returns: it keeps the blocks, the block index it rebuilds lists their
hashes in order, and the deposit index, which it does not clear, gets after the blocks it stored
what the rebuild finds of each stored block at its position. -/
theorem rebuildCache_eq (s : Blockchain) (hcount : s.m_blocks.length < 2 ^ 32)
    (hfit : ∀ block ∈ s.m_blocks, block.CountsFit)
    (hnodup : (s.m_blocks.map fun block => ctx.prims.get_block_hash block.bl).Nodup)
    {L : List (DepositAmount × DepositInterest)} (h : s.m_depositIndex.Refines L)
    (hL : L.length + s.m_blocks.length < 2 ^ 32) :
    ∃ t, rebuildCache ctx s = some t ∧ t.m_blocks = s.m_blocks ∧
      t.m_blockIndex.m_container.items = s.m_blocks.map (fun block => ctx.prims.get_block_hash block.bl) ∧
      t.m_depositIndex.Refines
        (L ++ s.m_blocks.zipIdx.map fun p => rebuildDeposit ctx (UInt32.ofNat p.2) p.1) :=
  rebuildBlocks_eq ctx s.m_blocks 0 _ (by simpa using hcount) hfit
    (by simpa [BlockIndex.empty, KeyedList.empty] using hnodup) h hL

end Blockchain

/-! ## What `pushBlock` records of a stored block -/

/-- What `pushBlock` records of the block it stores at position `i`: the position as the height,
and the coinbase first, spending one `BaseInput`. -/
structure BlockEntry.StoredAt (block : BlockEntry) (i : ℕ) : Prop where
  height : block.height = UInt32.ofNat i
  coinbase : block.txs.head? = some block.bl.baseTransaction
  base : ∃ input, block.bl.baseTransaction.inputs = [.base input]

/-- On a block stored at its position the rebuild counts what `pushBlock` counted: the interest
of the coinbase, which spends no deposit, is zero, and the position is the height. -/
theorem BlockEntry.StoredAt.rebuildDeposit_eq (ctx : Context) {block : BlockEntry} {i : ℕ}
    (h : block.StoredAt i) :
    Blockchain.rebuildDeposit ctx (UInt32.ofNat i) block = Blockchain.blockDeposit ctx block := by
  obtain ⟨input, hinputs⟩ := h.base
  obtain ⟨rest, htxs⟩ := List.head?_eq_some_iff.mp h.coinbase
  have hzero : ctx.m_currency.calculateTotalTransactionInterest
      block.bl.baseTransaction.toTransactionPrefix (UInt32.ofNat i).toNat = 0 := by
    simp [Currency.calculateTotalTransactionInterest, hinputs, Currency.inputInterest]
  simp only [Blockchain.rebuildDeposit, Blockchain.blockDeposit, htxs, h.height, List.foldl_cons,
    hzero, zero_add, List.drop_one, List.tail_cons]

namespace Blockchain

/-- Every stored block is as `pushBlock` stored it at its position. -/
def Stored (s : Blockchain) : Prop :=
  ∀ i (hi : i < s.m_blocks.length), s.m_blocks[i].StoredAt i

variable {ctx : Context}

theorem Stored.of_blocks_eq {s t : Blockchain} (hs : Stored s) (ht : t.m_blocks = s.m_blocks) :
    Stored t := by
  unfold Stored
  rw [ht]
  exact hs

/-- An entry stored after the others at its position. -/
theorem Stored.push {s t : Blockchain} (hs : Stored s) {block : BlockEntry}
    (hblock : block.StoredAt s.m_blocks.length) (ht : t.m_blocks = s.m_blocks ++ [block]) :
    Stored t := by
  intro i hi
  simp only [ht, List.length_append, List.length_singleton] at hi ⊢
  rcases Nat.lt_succ_iff_lt_or_eq.mp hi with hlt | rfl
  · rw [List.getElem_append_left hlt]
    exact hs i hlt
  · simpa using hblock

/-- The last entry removed. -/
theorem Stored.dropLast {s t : Blockchain} (hs : Stored s) (ht : t.m_blocks = s.m_blocks.dropLast) :
    Stored t := by
  intro i hi
  simp only [ht, List.length_dropLast] at hi ⊢
  rw [List.getElem_dropLast]
  exact hs i (by omega)

variable (ctx) in
/-- Every stored block is as `pushBlock` stored it: an invariant of the main chain, for any
blocks. `pushBlock` stores its entry at the height of the store, coinbase first. -/
theorem stored_chainInvariant (S : List Block) : ChainInvariant ctx S Stored where
  congr hs ht := hs.of_blocks_eq (blocks_eq_of_mainChain ht)
  push blockData _ _ _ := by
    refine pushBlockAtHeight_preserves ctx (fun hs ht => hs.of_blocks_eq (blocks_eq_of_chains ht))
      _ _ _ fun s block interest hs he => hs.push ?_ rfl
    obtain ⟨input, hinputs⟩ := he.base
    exact ⟨he.height, he.bl ▸ he.coinbase, input, he.bl ▸ hinputs⟩
  pop := popBlock_preserves ctx (fun hs ht => hs.of_blocks_eq (blocks_eq_of_chains ht))
    fun _ hs _ => hs.dropLast rfl

/-- On blocks stored at their positions, the rebuild finds what `pushBlock` counted. -/
theorem map_rebuildDeposit_zipIdx {blocks : List BlockEntry}
    (h : ∀ i (hi : i < blocks.length), blocks[i].StoredAt i) :
    (blocks.zipIdx.map fun p => rebuildDeposit ctx (UInt32.ofNat p.2) p.1) =
      blocks.map (blockDeposit ctx) := by
  refine List.ext_getElem (by simp) fun i h₁ h₂ => ?_
  simp only [List.getElem_map, List.getElem_zipIdx, zero_add]
  exact (h i (by simpa using h₁)).rebuildDeposit_eq ctx

variable (ctx) in
/-- **A restart gets back the indexes of the main chain.** After `init` with any genesis block
and any run of the node of fewer than `2 ^ 32 - 1` events, if the stored blocks have counts the
rebuild's `uint16_t` counters can count, a new `Blockchain` on the blocks the store holds, with
its indexes as constructed and any pool, rebuilds with `rebuildCache` the block index and the
deposit index the node had, and keeps the blocks. -/
theorem restart_rebuildCache_restores (genesisBlock : Block) (depth : Nat)
    (events : List NodeEvent) (pool pool' : tx_memory_pool) (hevents : events.length + 1 < 2 ^ 32) :
    let s := ((init ctx genesisBlock >>= fun _ => runNode ctx depth events).run
      (Blockchain.empty pool)).state
    (∀ block ∈ s.m_blocks, block.CountsFit) →
    ∃ t, rebuildCache ctx { Blockchain.empty pool' with m_blocks := s.m_blocks } = some t ∧
      t.m_blocks = s.m_blocks ∧ t.m_blockIndex = s.m_blockIndex ∧
      t.m_depositIndex = s.m_depositIndex := by
  intro s hfit
  -- what every run of the node keeps: the agreement, and the entries as `pushBlock` made them
  have hS := Nat.lt_of_le_of_lt (length_node_blocks_le genesisBlock events) hevents
  have hagrees : StoreAgrees ctx s :=
    ((storeAgrees_chainInvariant ctx hS).holds_node rfl
      ⟨StoreAgrees.empty ctx pool, fun e he => absurd he List.not_mem_nil⟩).1
  have hstored : Stored s :=
    (stored_chainInvariant ctx _).holds_node rfl fun i hi => absurd hi (Nat.not_lt_zero i)
  -- the stored hashes are those of the block index, so no two are equal
  have hnodup : (s.m_blocks.map fun block => ctx.prims.get_block_hash block.bl).Nodup := by
    rw [← hagrees.blockIndex]
    simpa using s.m_blockIndex.m_container.nodup
  obtain ⟨t, ht, hblocks, hitems, hdeposit⟩ :=
    rebuildCache_eq ctx { Blockchain.empty pool' with m_blocks := s.m_blocks } hagrees.length_lt
      hfit hnodup DepositIndex.refines_empty (by simpa using hagrees.length_lt)
  rw [List.nil_append, map_rebuildDeposit_zipIdx hstored] at hdeposit
  exact ⟨t, ht, hblocks, BlockIndex.ext_items _ (hitems.trans hagrees.blockIndex.symm),
    hdeposit.unique hagrees.depositIndex⟩

/-- The genesis block and two more blocks on the sample network. -/
theorem restart_rebuildCache_restores_sample :
    ∃ t, rebuildCache sampleContext
        { Blockchain.empty tx_memory_pool.empty with m_blocks := (sampleChain 2).m_blocks } =
          some t ∧ t.m_blocks = (sampleChain 2).m_blocks ∧
      t.m_blockIndex = (sampleChain 2).m_blockIndex ∧
      t.m_depositIndex = (sampleChain 2).m_depositIndex :=
  restart_rebuildCache_restores sampleContext (sampleBlock 0 []) 2
    ((List.range' 1 2).map fun h => .block (sampleBlock h [])) tx_memory_pool.empty
    tx_memory_pool.empty (by decide) (by decide +kernel)

end Blockchain

end UltraNoteCore
