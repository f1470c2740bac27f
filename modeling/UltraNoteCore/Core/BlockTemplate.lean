import UltraNoteCore.Core.TransactionPool
import UltraNoteCore.Core.Difficulty

/-!
# Block templates

`tx_memory_pool::fill_block_template` (`TransactionPool.cpp`) chooses the pooled transactions
the next block of a miner carries. It walks the fee index from its end, skips a transaction
with an entry in the TTL index and one that would take the block past its size limit (the
median size for a transaction without a fee, a larger limit for the others), asks the
blockchain whether each remaining one is ready, and offers it to a `BlockTemplate`, which
refuses a transaction spending a key image or a multisignature output that the template
already holds. Sizes are `size_t`: the larger limit `125 * median_size / 100 -
minerTxBlobReservedSize` wraps for a small median, and the sums are taken in `size_t` and
`uint64_t` as the source takes them.

Only the TTL test reads the pool's indexes; that `m_ttlIndex` has an entry for every pooled
transaction with a TTL is an invariant of every run of the pool (`TtlIndexed.runPool`).

## Main definitions

* `BlockTemplate`, `BlockTemplate.canAdd`, `BlockTemplate.addTransaction`
* `tx_memory_pool.feeIndex`: the pool in `TransactionPriorityComparator` order
* `tx_memory_pool.fill_block_template` and one turn of its loop, `tx_memory_pool.fillStep`
* `FillState.Selects`: the loop's state describes the transactions selected so far
* `tx_memory_pool.TtlIndexed`: every pooled transaction with a TTL has a TTL entry

## Main results

* `FillState.Selects.addTransaction`: an accepted transaction extends the selection
* `foldl_fillStep`: the loop over any order of transactions selects a sublist of it whose
  members have no TTL entry and are ready, within the size limit
* `TtlIndexed.runPool`: the TTL index is kept along every run of the pool
* `fill_block_template_valid`: what `fill_block_template` returns, for every pool with its TTL
  index and every pair of limits
-/

namespace UltraNoteCore

/-! ## The template -/

/-- `BlockTemplate`: what the transactions added so far spend, and their hashes in order. -/
structure BlockTemplate where
  m_keyImages : Finset KeyImage
  m_usedOutputs : Finset GlobalOutput
  m_txHashes : List Hash

namespace BlockTemplate

/-- The template `fill_block_template` starts from. -/
def empty : BlockTemplate := ⟨∅, ∅, []⟩

/-- `BlockTemplate::canAdd`: no key image of `tx` and no multisignature output it spends is in
the template. -/
def canAdd (t : BlockTemplate) (tx : Transaction) : Bool :=
  tx.inputs.all fun
    | .key k => decide (k.keyImage ∉ t.m_keyImages)
    | .multisignature m => decide ((m.amount, m.outputIndex.toUInt64) ∉ t.m_usedOutputs)
    | .base _ => true

/-- `BlockTemplate::addTransaction(txid, tx)`: `none` (the source's `false`, with the template
unchanged) unless `canAdd`; otherwise the loop over the inputs inserts each key image and each
multisignature output, and `txid` is appended. The source's `assert`s on the insertions are not
modelled. -/
def addTransaction (t : BlockTemplate) (txid : Hash) (tx : Transaction) : Option BlockTemplate :=
  if t.canAdd tx then
    some ⟨t.m_keyImages ∪ (keyImages tx.toTransactionPrefix).toFinset,
      t.m_usedOutputs ∪ (globalOutputs tx.toTransactionPrefix).toFinset, t.m_txHashes ++ [txid]⟩
  else none

variable {t t' : BlockTemplate} {txid : Hash} {tx : Transaction}

theorem canAdd_eq_true :
    t.canAdd tx = true ↔
      (∀ k ∈ keyImages tx.toTransactionPrefix, k ∉ t.m_keyImages) ∧
      (∀ o ∈ globalOutputs tx.toTransactionPrefix, o ∉ t.m_usedOutputs) := by
  simp only [canAdd, List.all_eq_true, keyImages, globalOutputs, List.mem_filterMap]
  constructor
  · intro hall
    refine ⟨?_, ?_⟩
    · rintro k ⟨i, hi, hk⟩
      cases i <;> simp at hk
      subst hk
      simpa using hall _ hi
    · rintro o ⟨i, hi, ho⟩
      cases i <;> simp at ho
      subst ho
      simpa using hall _ hi
  · rintro ⟨hk, ho⟩ i hi
    cases i with
    | base => rfl
    | key k => simpa using hk _ ⟨_, hi, rfl⟩
    | multisignature m => simpa using ho _ ⟨_, hi, rfl⟩

theorem addTransaction_eq_some :
    t.addTransaction txid tx = some t' ↔
      t.canAdd tx = true ∧ t' = ⟨t.m_keyImages ∪ (keyImages tx.toTransactionPrefix).toFinset,
        t.m_usedOutputs ∪ (globalOutputs tx.toTransactionPrefix).toFinset,
        t.m_txHashes ++ [txid]⟩ := by
  unfold addTransaction
  split
  · next hcan =>
    exact ⟨fun h => ⟨hcan, (Option.some.inj h).symm⟩, fun ⟨_, h⟩ => h ▸ rfl⟩
  · next hcan => simp [hcan]

end BlockTemplate

/-- What `is_transaction_ready_to_go` asks the blockchain: `checkTransactionInputs(tx,
maxUsedBlock, lastFailedBlock)`, whose cached blocks go to a copy of the transaction's check
info that the loop drops, and `haveSpentKeyImages(tx)`. -/
structure ReadyValidator where
  checkTransactionInputs : Transaction → Bool
  haveSpentKeyImages : Transaction → Bool

/-- `tx_memory_pool::is_transaction_ready_to_go`: the inputs check out and no key image is
spent in the blockchain. -/
def is_transaction_ready_to_go (v : ReadyValidator) (tx : Transaction) : Bool :=
  if !v.checkTransactionInputs tx then false
  else if v.haveSpentKeyImages tx then false
  else true

/-- `tx_memory_pool::TransactionPriorityComparator`, `lhs > rhs`: `lhs` pays more per byte
(`lhs.fee * rhs.blobSize > rhs.fee * lhs.blobSize`, as 128-bit products), or as much and is
smaller, or as much and as large and older. -/
def TransactionPriorityComparator (lhs rhs : TransactionDetails) : Bool :=
  let (lhs_lo, lhs_hi) := mul128 lhs.fee (UInt64.ofNat rhs.blobSize)
  let (rhs_lo, rhs_hi) := mul128 rhs.fee (UInt64.ofNat lhs.blobSize)
  lhs_hi > rhs_hi || (lhs_hi == rhs_hi && lhs_lo > rhs_lo) ||
    (lhs_hi == rhs_hi && lhs_lo == rhs_lo && lhs.blobSize < rhs.blobSize) ||
    (lhs_hi == rhs_hi && lhs_lo == rhs_lo && lhs.blobSize == rhs.blobSize &&
      lhs.receiveTime < rhs.receiveTime)

/-- The accumulators of the loop of `fill_block_template`. -/
structure FillState where
  total_size : UInt64
  fee : UInt64
  blockTemplate : BlockTemplate

namespace tx_memory_pool

/-- `m_fee_index`, the `ordered_non_unique` index by `TransactionPriorityComparator`: the pooled
transactions, none after one that the comparator puts behind it, equivalent ones in the order
they were inserted. -/
def feeIndex (p : tx_memory_pool) : List TransactionDetails :=
  p.m_transactions.items.mergeSort fun a b => !TransactionPriorityComparator b a

/-- One turn of the loop of `fill_block_template`, at `txd`; `max_total_size` is the limit of
a transaction with a fee. -/
def fillStep (p : tx_memory_pool) (v : ReadyValidator) (median_size max_total_size : UInt64)
    (s : FillState) (txd : TransactionDetails) : FillState :=
  if (p.m_ttlIndex txd.id).isSome then s
  else
    let blockSizeLimit := if txd.fee = 0 then median_size else max_total_size
    if blockSizeLimit < s.total_size + UInt64.ofNat txd.blobSize then s
    -- `ready && blockTemplate.addTransaction(...)`: a transaction that is not ready is not offered
    else if is_transaction_ready_to_go v txd.tx then
      match s.blockTemplate.addTransaction txd.id txd.tx with
      | some t => ⟨s.total_size + UInt64.ofNat txd.blobSize, s.fee + txd.fee, t⟩
      | none => s
    else s

/-- `tx_memory_pool::fill_block_template(bl, median_size, maxCumulativeSize, ...)`: the hashes it
sets as `bl.transactionHashes`, then `total_size` and `fee`. The fee index is walked from
`rbegin`. `already_generated_coins` is not read and `height` is not written. -/
def fill_block_template (c : Currency) (p : tx_memory_pool) (v : ReadyValidator)
    (median_size maxCumulativeSize : UInt64) : List Hash × UInt64 × UInt64 :=
  let max_total_size := (125 * median_size) / 100 - UInt64.ofNat c.minerTxBlobReservedSize
  let max_total_size := min max_total_size maxCumulativeSize
  let s := p.feeIndex.reverse.foldl (p.fillStep v median_size max_total_size) ⟨0, 0, .empty⟩
  (s.blockTemplate.m_txHashes, s.total_size, s.fee)

end tx_memory_pool

/-! ## The loop -/

/-- Two transactions spend no common key image and no common multisignature output. -/
def SpendsDisjoint (d₁ d₂ : TransactionDetails) : Prop :=
  (keyImages d₁.tx.toTransactionPrefix).Disjoint (keyImages d₂.tx.toTransactionPrefix) ∧
    (globalOutputs d₁.tx.toTransactionPrefix).Disjoint (globalOutputs d₂.tx.toTransactionPrefix)

/-- The loop's state describes the selected transactions `sel`: the template holds what they
spend and their hashes, the size and fee are their sums, and no two of them spend a common key
image or output. -/
structure FillState.Selects (s : FillState) (sel : List TransactionDetails) : Prop where
  keyImages : s.blockTemplate.m_keyImages =
    (sel.flatMap fun d => keyImages d.tx.toTransactionPrefix).toFinset
  usedOutputs : s.blockTemplate.m_usedOutputs =
    (sel.flatMap fun d => globalOutputs d.tx.toTransactionPrefix).toFinset
  txHashes : s.blockTemplate.m_txHashes = sel.map (·.id)
  total_size : s.total_size = (sel.map fun d => UInt64.ofNat d.blobSize).sum
  fee : s.fee = (sel.map (·.fee)).sum
  disjoint : sel.Pairwise SpendsDisjoint

namespace FillState

theorem selects_empty : (⟨0, 0, .empty⟩ : FillState).Selects [] :=
  ⟨rfl, rfl, rfl, rfl, rfl, List.Pairwise.nil⟩

/-- **An accepted transaction extends the selection.** `canAdd` keeps it apart from every
selected transaction, since the template holds all they spend. -/
theorem Selects.addTransaction {s : FillState} {sel : List TransactionDetails}
    {d : TransactionDetails} {t : BlockTemplate} (hs : s.Selects sel)
    (ht : s.blockTemplate.addTransaction d.id d.tx = some t) :
    (⟨s.total_size + UInt64.ofNat d.blobSize, s.fee + d.fee, t⟩ : FillState).Selects
      (sel ++ [d]) := by
  obtain ⟨hcan, rfl⟩ := BlockTemplate.addTransaction_eq_some.mp ht
  obtain ⟨hk, ho⟩ := BlockTemplate.canAdd_eq_true.mp hcan
  refine ⟨?_, ?_, ?_, ?_, ?_, List.pairwise_append.mpr ⟨hs.disjoint, List.pairwise_singleton _ _,
    fun e he d' hd' => ?_⟩⟩
  · simp [hs.keyImages, List.toFinset_append]
  · simp [hs.usedOutputs, List.toFinset_append]
  · simp [hs.txHashes]
  · simp [hs.total_size]
  · simp [hs.fee]
  -- what `e` spends is in the template, which holds nothing `d` spends
  rw [List.mem_singleton.mp hd']
  refine ⟨fun k hke hkd => hk k hkd ?_, fun o hoe hod => ho o hod ?_⟩
  · rw [hs.keyImages, List.mem_toFinset, List.mem_flatMap]
    exact ⟨e, he, hke⟩
  · rw [hs.usedOutputs, List.mem_toFinset, List.mem_flatMap]
    exact ⟨e, he, hoe⟩

end FillState

namespace tx_memory_pool

variable {p : tx_memory_pool} {v : ReadyValidator} {median_size max_total_size : UInt64}
  {s : FillState} {txd : TransactionDetails}

/-- **What one turn of the loop can do**: nothing, or add `txd`, which then has no TTL entry,
fits its size limit, is ready, and is accepted by the template. -/
theorem fillStep_cases :
    p.fillStep v median_size max_total_size s txd = s ∨
    p.m_ttlIndex txd.id = none ∧
      s.total_size + UInt64.ofNat txd.blobSize ≤
        (if txd.fee = 0 then median_size else max_total_size) ∧
      is_transaction_ready_to_go v txd.tx = true ∧
      ∃ t, s.blockTemplate.addTransaction txd.id txd.tx = some t ∧
        p.fillStep v median_size max_total_size s txd =
          ⟨s.total_size + UInt64.ofNat txd.blobSize, s.fee + txd.fee, t⟩ := by
  unfold fillStep
  by_cases httl : (p.m_ttlIndex txd.id).isSome
  · exact .inl (if_pos httl)
  rw [if_neg httl]
  dsimp only
  by_cases hfit : (if txd.fee = 0 then median_size else max_total_size) <
      s.total_size + UInt64.ofNat txd.blobSize
  · exact .inl (if_pos hfit)
  rw [if_neg hfit]
  by_cases hready : is_transaction_ready_to_go v txd.tx = true
  · rw [if_pos hready]
    cases ht : s.blockTemplate.addTransaction txd.id txd.tx with
    | none => exact .inl rfl
    | some t =>
      exact .inr ⟨Option.not_isSome_iff_eq_none.mp httl, UInt64.not_lt.mp hfit, hready, t, rfl, rfl⟩
  · exact .inl (if_neg hready)

/-- Either size limit is at most the larger of the two. -/
theorem blockSizeLimit_le_max (fee : UInt64) :
    (if fee = 0 then median_size else max_total_size) ≤ max median_size max_total_size := by
  split <;> simp [UInt64.le_iff_toNat_le, UInt64.toNat_max]

/-- **The loop over any order of transactions.** From a state describing `sel` within the
limit, the loop selects a sublist of `order` whose members have no TTL entry and are ready;
the state at the end describes `sel` followed by them and stays within the limit. The
induction is on `order`, one turn of the loop at a time. -/
theorem foldl_fillStep (order : List TransactionDetails) {sel : List TransactionDetails}
    (hs : s.Selects sel) (hle : s.total_size ≤ max median_size max_total_size) :
    ∃ sel', (order.foldl (p.fillStep v median_size max_total_size) s).Selects (sel ++ sel') ∧
      sel'.Sublist order ∧
      (∀ d ∈ sel', p.m_ttlIndex d.id = none ∧ is_transaction_ready_to_go v d.tx = true) ∧
      (order.foldl (p.fillStep v median_size max_total_size) s).total_size ≤
        max median_size max_total_size := by
  induction order generalizing s sel with
  | nil => exact ⟨[], by simpa using hs, List.Sublist.slnil, by simp, hle⟩
  | cons txd order ih =>
    rw [List.foldl_cons]
    rcases (fillStep_cases : p.fillStep v median_size max_total_size s txd = s ∨ _) with
      heq | ⟨httl, hfit, hready, t, ht, heq⟩
    · -- `txd` is skipped
      obtain ⟨sel', hsel, hsub, hsel', hle'⟩ := ih hs hle
      rw [heq]
      exact ⟨sel', hsel, hsub.cons txd, hsel', hle'⟩
    · -- `txd` is added: the new total is the one that passed the limit test
      obtain ⟨sel', hsel, hsub, hsel', hle'⟩ := ih (hs.addTransaction ht)
        (UInt64.le_trans hfit (blockSizeLimit_le_max txd.fee))
      rw [heq]
      refine ⟨txd :: sel', by simpa using hsel, hsub.cons_cons txd, fun d hd => ?_, hle'⟩
      rcases List.mem_cons.mp hd with rfl | hd
      · exact ⟨httl, hready⟩
      · exact hsel' d hd

end tx_memory_pool

/-! ## The TTL index along runs of the pool -/

namespace tx_memory_pool

/-- Every pooled transaction whose `extra` has a TTL, read by `ttl`, has an entry in
`m_ttlIndex`. -/
def TtlIndexed (ttl : List UInt8 → UInt64) (p : tx_memory_pool) : Prop :=
  ∀ d ∈ p.m_transactions.items, ttl d.tx.extra ≠ 0 → (p.m_ttlIndex d.id).isSome

variable {ttl : List UInt8 → UInt64} {p q : tx_memory_pool}

theorem TtlIndexed.empty : tx_memory_pool.empty.TtlIndexed ttl := by
  simp [TtlIndexed, tx_memory_pool.empty, KeyedList.empty]

theorem TtlIndexed.congr (h : p.TtlIndexed ttl) (hitems : q.m_transactions = p.m_transactions)
    (hindex : q.m_ttlIndex = p.m_ttlIndex) : q.TtlIndexed ttl := by
  intro d hd
  rw [hitems] at hd
  rw [hindex]
  exact h d hd

@[simp] theorem addTransactionInputs_ttlIndex (p : tx_memory_pool) (id : Hash)
    (keptByBlock : Bool) (ins : List TransactionInput) :
    (p.addTransactionInputs id keptByBlock ins).2.m_ttlIndex = p.m_ttlIndex := by
  induction ins generalizing p with
  | nil => rfl
  | cons i ins ih =>
    cases i with
    | base => exact ih p
    | key k =>
      simp only [addTransactionInputs]
      split_ifs <;> first | rfl | exact ih _
    | multisignature m =>
      simp only [addTransactionInputs]
      split_ifs
      · exact ih _
      · exact ih _

@[simp] theorem removeTransactionInputs_ttlIndex (p : tx_memory_pool) (id : Hash)
    (keptByBlock : Bool) (ins : List TransactionInput) :
    (p.removeTransactionInputs id keptByBlock ins).2.m_ttlIndex = p.m_ttlIndex := by
  induction ins generalizing p with
  | nil => rfl
  | cons i ins ih =>
    cases i with
    | base => exact ih p
    | key k =>
      simp only [removeTransactionInputs]
      split
      · rfl
      · split_ifs <;> first | rfl | exact ih _
    | multisignature m =>
      simp only [removeTransactionInputs]
      split_ifs
      · exact ih _
      · exact ih _

/-- Removing a transaction erases its own TTL entry and no other. -/
theorem TtlIndexed.removeTransaction (h : p.TtlIndexed ttl) (d : TransactionDetails) :
    (p.removeTransaction d).TtlIndexed ttl := by
  intro e he httl
  obtain ⟨he, hid⟩ := mem_removeTransaction_items.mp he
  simp only [tx_memory_pool.removeTransaction, StdMap.erase_of_ne hid,
    removeTransactionInputs_ttlIndex]
  exact h e he httl

/-- `add_tx` records the TTL of the transaction it inserts; `addTransactionInputs` does not touch
the TTL index. -/
theorem TtlIndexed.add_tx {c : Currency} {env : PoolEnv} {tx : Transaction} {id : Hash}
    {blobSize : Nat} {tvc : tx_verification_context} {keptByBlock : Bool} {height : Nat}
    (h : p.TtlIndexed ttl) (henv : env.ttl = ttl) :
    (p.add_tx c env tx id blobSize tvc keptByBlock height).2.2.TtlIndexed ttl := by
  rcases (add_tx_cases :
      (p.add_tx c env tx id blobSize tvc keptByBlock height).2.2 = p ∨ _) with
    heq | ⟨-, fee, tvc', relayed, heq⟩
  · rw [heq]
    exact h
  rw [heq]
  rcases (insertTransaction_cases : (p.insertTransaction ⟨id, tx, blobSize, fee, keptByBlock,
      env.now⟩ (env.ttl tx.extra) tvc' relayed).2.2 = p ∨ _) with
    heq | ⟨items, hins, heq⟩
  · rw [heq]
    exact h
  rw [heq]
  obtain ⟨-, hitems⟩ := KeyedList.insert_eq_some hins
  intro e he hettl
  simp only [addTransactionInputs_transactions, hitems, List.mem_append,
    List.mem_singleton] at he
  simp only [addTransactionInputs_ttlIndex]
  rcases he with he | rfl
  · -- an entry that was there stays: `emplace` overwrites nothing
    have hold := h e he hettl
    split
    · simp [StdMap.isSome_emplace, hold]
    · exact hold
  · -- the inserted transaction has a TTL, which is recorded
    rw [if_pos (henv ▸ hettl)]
    simp [StdMap.isSome_emplace]

theorem TtlIndexed.take_tx (h : p.TtlIndexed ttl) (id : Hash) : (p.take_tx id).2.TtlIndexed ttl := by
  unfold tx_memory_pool.take_tx
  split
  · exact h
  · exact h.removeTransaction _

theorem TtlIndexed.removeExpiredTransactions {c : Currency} (h : p.TtlIndexed ttl) (now : UInt64) :
    (p.removeExpiredTransactions c now).TtlIndexed ttl := by
  unfold tx_memory_pool.removeExpiredTransactions
  -- the loop removes transactions or keeps them, and the deletion record is not read
  suffices hloop : ∀ (l : List TransactionDetails) (q : tx_memory_pool), q.TtlIndexed ttl →
      (l.foldl (expireTransaction c now) q).TtlIndexed ttl from
    hloop _ _ (h.congr rfl rfl)
  intro l
  induction l with
  | nil => exact fun q hq => hq
  | cons d l ih =>
    intro q hq
    apply ih
    rcases (expireTransaction_cases : expireTransaction c now q d = q ∨ _) with heq | heq <;>
      rw [heq]
    · exact hq
    · refine TtlIndexed.removeTransaction ?_ d
      exact hq.congr rfl rfl

end tx_memory_pool

/-- The operation reads TTLs with `ttl`. -/
def PoolOperation.readsTtl (ttl : List UInt8 → UInt64) : PoolOperation → Prop
  | .add_tx env _ _ _ _ _ => env.ttl = ttl
  | _ => True

section Run

variable {c : Currency} {ttl : List UInt8 → UInt64} {p : tx_memory_pool}

theorem tx_memory_pool.TtlIndexed.apply (h : p.TtlIndexed ttl) {op : PoolOperation}
    (hop : op.readsTtl ttl) : (op.apply c p).TtlIndexed ttl := by
  cases op with
  | add_tx env tx id blobSize keptByBlock height => exact h.add_tx hop
  | take_tx id => exact h.take_tx id
  | removeExpiredTransactions now => exact h.removeExpiredTransactions now

/-- **The TTL index along a run**: every operation keeps it, when the operations read TTLs
alike. -/
theorem tx_memory_pool.TtlIndexed.runPool (h : p.TtlIndexed ttl) {ops : List PoolOperation}
    (hops : ∀ op ∈ ops, op.readsTtl ttl) : (runPool c p ops).TtlIndexed ttl := by
  induction ops generalizing p with
  | nil => exact h
  | cons op ops ih =>
    exact ih (h.apply (hops op List.mem_cons_self)) fun op' hop' =>
      hops op' (List.mem_cons_of_mem op hop')

end Run

/-! ## The block template of a pool -/

namespace tx_memory_pool

/-- **The block template.** For every pool whose TTL index has an entry for each transaction
with a TTL, every validator and every pair of limits, `fill_block_template` returns the hashes
of pooled transactions, without repetition, that spend pairwise disjoint key images and
multisignature outputs, carry no TTL and are ready; the fee and size it returns are their sums
(in `uint64_t` and `size_t`), and the size is within the larger of the two limits the loop
tests. -/
theorem fill_block_template_valid (c : Currency) (p : tx_memory_pool) (v : ReadyValidator)
    {ttl : List UInt8 → UInt64} (httl : p.TtlIndexed ttl) (median_size maxCumulativeSize : UInt64) :
    ∃ selected : List TransactionDetails,
      (∀ d ∈ selected, d ∈ p.m_transactions.items) ∧
      (p.fill_block_template c v median_size maxCumulativeSize).1 = selected.map (·.id) ∧
      (p.fill_block_template c v median_size maxCumulativeSize).1.Nodup ∧
      selected.Pairwise SpendsDisjoint ∧
      (∀ d ∈ selected, ttl d.tx.extra = 0 ∧ is_transaction_ready_to_go v d.tx = true) ∧
      (p.fill_block_template c v median_size maxCumulativeSize).2.2 =
        (selected.map (·.fee)).sum ∧
      (p.fill_block_template c v median_size maxCumulativeSize).2.1 =
        (selected.map fun d => UInt64.ofNat d.blobSize).sum ∧
      (p.fill_block_template c v median_size maxCumulativeSize).2.1 ≤
        max median_size
          (min (125 * median_size / 100 - UInt64.ofNat c.minerTxBlobReservedSize) maxCumulativeSize) := by
  -- the loop starts from the empty template and a total of zero
  have hzero : (0 : UInt64) ≤ max median_size
      (min (125 * median_size / 100 - UInt64.ofNat c.minerTxBlobReservedSize) maxCumulativeSize) := by
    simp [UInt64.le_iff_toNat_le]
  obtain ⟨selected, hsel, hsub, hready, hle⟩ := foldl_fillStep (p := p) (v := v)
    p.feeIndex.reverse FillState.selects_empty hzero
  rw [List.nil_append] at hsel
  -- the fee index holds the pooled transactions once each
  have hperm : p.feeIndex.reverse.Perm p.m_transactions.items :=
    (List.reverse_perm _).trans (List.mergeSort_perm _ _)
  have hmem : ∀ d ∈ selected, d ∈ p.m_transactions.items := fun d hd =>
    hperm.subset (hsub.subset hd)
  have hnodup : (selected.map (·.id)).Nodup :=
    ((hsub.map _).nodup ((hperm.map _).nodup_iff.mpr p.m_transactions.nodup))
  have hhashes : (p.fill_block_template c v median_size maxCumulativeSize).1 =
      selected.map (·.id) := hsel.txHashes
  refine ⟨selected, hmem, hhashes, hhashes ▸ hnodup, hsel.disjoint,
    fun d hd => ⟨?_, (hready d hd).2⟩, hsel.fee, hsel.total_size, hle⟩
  -- a transaction with a TTL would have an entry, and the loop skipped those
  by_contra hne
  have := httl d (hmem d hd) hne
  rw [(hready d hd).1] at this
  exact Bool.false_ne_true this

/-- Two transactions revealing the key image `1`, the second added on behalf of a block. -/
def sampleTemplatePool : tx_memory_pool :=
  runPool Currency.mainnet tx_memory_pool.empty
    [.add_tx samplePoolEnv (sampleSpend ⟨1⟩) ⟨1⟩ 100 false 10,
     .add_tx samplePoolEnv { sampleSpend ⟨1⟩ with extra := [1] } ⟨2⟩ 100 true 10]

/-- A blockchain that finds every transaction ready. -/
def sampleReadyValidator : ReadyValidator := ⟨fun _ => true, fun _ => false⟩

-- the two pay alike, so the walk from the end offers the later one first; the earlier one
-- reveals the same key image and the template refuses it
example : sampleTemplatePool.fill_block_template Currency.mainnet sampleReadyValidator 1000 1000 =
    ([⟨2⟩], 100, 1) := by
  have hfee : sampleTemplatePool.feeIndex = sampleTemplatePool.m_transactions.items :=
    List.mergeSort_of_pairwise (by decide +kernel)
  rw [fill_block_template, hfee]
  decide +kernel

theorem fill_block_template_valid_sample :
    sampleTemplatePool.TtlIndexed samplePoolEnv.ttl ∧
    ∃ selected : List TransactionDetails,
      (∀ d ∈ selected, d ∈ sampleTemplatePool.m_transactions.items) ∧
      (sampleTemplatePool.fill_block_template Currency.mainnet sampleReadyValidator 1000 1000).1 =
        selected.map (·.id) ∧
      (sampleTemplatePool.fill_block_template Currency.mainnet sampleReadyValidator 1000 1000).1.Nodup ∧
      selected.Pairwise SpendsDisjoint ∧
      (∀ d ∈ selected, samplePoolEnv.ttl d.tx.extra = 0 ∧
        is_transaction_ready_to_go sampleReadyValidator d.tx = true) ∧
      (sampleTemplatePool.fill_block_template Currency.mainnet sampleReadyValidator 1000 1000).2.2 =
        (selected.map (·.fee)).sum ∧
      (sampleTemplatePool.fill_block_template Currency.mainnet sampleReadyValidator 1000 1000).2.1 =
        (selected.map fun d => UInt64.ofNat d.blobSize).sum ∧
      (sampleTemplatePool.fill_block_template Currency.mainnet sampleReadyValidator 1000 1000).2.1 ≤
        max 1000 (min (125 * 1000 / 100 - UInt64.ofNat Currency.mainnet.minerTxBlobReservedSize)
          1000) := by
  have httl : sampleTemplatePool.TtlIndexed samplePoolEnv.ttl :=
    TtlIndexed.empty.runPool (by simp [PoolOperation.readsTtl])
  exact ⟨httl, fill_block_template_valid Currency.mainnet sampleTemplatePool sampleReadyValidator
    httl 1000 1000⟩

end tx_memory_pool

end UltraNoteCore
