import Mathlib
import UltraNoteCore.Core.SwappedVector
import UltraNoteCore.Core.Serialization
import UltraNoteCore.Core.Blockchain.State

/-!
# The block store

`Blockchain` keeps its blocks in `m_blocks`, a `SwappedVector<BlockEntry>` that `init` opens on
the blocks file and the block indexes file of its folder, with a pool of 1024 entries. An entry
is written and read by `BlockEntry::serialize`: the block, then its height, cumulative size,
cumulative difficulty and generated coins as varints, then its transactions, each written by
`TransactionEntry::serialize` as the transaction and its global output indexes.

The model of `Blockchain` reads its blocks from a list (`Blockchain.blockAt`). This module
connects the two levels. The entry format is exact for the entries the reader reads back: those
within its limits, whose signatures are as it leaves them (`Input.serializeBlockEntry_exact`).
With it the results on `SwappedVector` apply to the block store, and a read `m_blocks[i]` of a
store holding the blocks of a state is `blockAt i` of that state, the exception past the end
included.

## Main definitions

* `Input.serializeTransactionEntry`, `Input.serializeBlockEntry` and their `Output` sides
* `TransactionEntry.Readable`, `BlockEntry.Readable`: the entries the reader reads back

## Main results

* `Input.serializeBlockEntry_exact`: the entry reader accepts exactly what the writer writes of
  the readable entries
* `Blockchain.get_eq_blockAt`: a read of the store is `blockAt`
* `Blockchain.blocks_runCalls_blockAt`: every admissible run of the store opened by `init`
  serves `blockAt` of the blocks it holds
-/

namespace UltraNoteCore

open Codec common

namespace Input

/-- `TransactionEntry::serialize`: the transaction, then its global output indexes. -/
def serializeTransactionEntry : Reader TransactionEntry := do
  let tx ← serializeTransaction
  let m_global_output_indexes ← serializeVarintVector
  pure { tx, m_global_output_indexes }

/-- `BlockEntry::serialize`: the block, the height, the cumulative size, the cumulative
difficulty and the generated coins, then the transactions. -/
def serializeBlockEntry : Reader BlockEntry := do
  let bl ← serializeBlock
  let height ← readVarintUInt32
  let block_cumulative_size ← readVarintUInt64
  let cumulative_difficulty ← readVarintUInt64
  let already_generated_coins ← readVarintUInt64
  let transactions ← serializeContainer serializeTransactionEntry
  pure
    { bl, height, cumulative_difficulty, already_generated_coins, transactions
      block_cumulative_size := block_cumulative_size.toNat }

end Input

namespace Output

/-- `TransactionEntry::serialize`. -/
def serializeTransactionEntry (entry : TransactionEntry) : Except String (List UInt8) := do
  let tx ← serializeTransaction entry.tx
  pure (tx ++ serializeVarintVector entry.m_global_output_indexes)

/-- `BlockEntry::serialize`: the `uint64_t` cumulative size is written modulo `2^64`. -/
def serializeBlockEntry (entry : BlockEntry) : Except String (List UInt8) := do
  let bl ← serializeBlock entry.bl
  let transactions ← serializeContainerE serializeTransactionEntry entry.transactions
  pure (bl ++ writeVarint entry.height.toUInt64 ++
    writeVarint (UInt64.ofNat entry.block_cumulative_size) ++
    writeVarint entry.cumulative_difficulty ++ writeVarint entry.already_generated_coins ++
    transactions)

end Output

/-- A stored transaction the reader reads back: its transaction within the limits, with one
signature list per input, and at most `100 * 1024 * 1024` global output indexes. -/
def TransactionEntry.Readable (entry : TransactionEntry) : Prop :=
  (entry.tx.WithinLimits ∧ entry.tx.SignaturesNormal) ∧
    entry.m_global_output_indexes.length ≤ 100 * 1024 * 1024

instance : DecidablePred TransactionEntry.Readable := fun _ =>
  inferInstanceAs (Decidable (_ ∧ _))

/-- A stored block the reader reads back: its block within the limits with a normal coinbase, a
cumulative size that fits its `uint64_t`, and readable transactions within the limit. -/
def BlockEntry.Readable (entry : BlockEntry) : Prop :=
  (entry.bl.WithinLimits ∧ entry.bl.baseTransaction.SignaturesNormal) ∧
    entry.block_cumulative_size < 2 ^ 64 ∧
    entry.transactions.length ≤ 100 * 1024 * 1024 ∧ ∀ t ∈ entry.transactions, t.Readable

instance : DecidablePred BlockEntry.Readable := fun _ =>
  inferInstanceAs (Decidable (_ ∧ _))

namespace Input

theorem serializeTransactionEntry_exact :
    ExactE TransactionEntry.Readable Output.serializeTransactionEntry serializeTransactionEntry := by
  intro input entry rest
  rw [serializeTransactionEntry, serializeTransaction_exact.run_bind_eq_ok]
  simp only [serializeVarintVector_exact.run_bind_eq_ok, run_pure_eq_ok]
  constructor
  · rintro ⟨tx, s1, htx, ⟨bs, hbs, rfl⟩, indexes, s2, hindexes, rfl, rfl, rfl⟩
    refine ⟨⟨htx, hindexes⟩, bs ++ Output.serializeVarintVector indexes, ?_, by simp⟩
    simp only [Output.serializeTransactionEntry, bind_eq_ok, pure_eq_ok]
    exact ⟨bs, hbs, rfl⟩
  · rintro ⟨⟨htx, hindexes⟩, bs, hbs, rfl⟩
    simp only [Output.serializeTransactionEntry, bind_eq_ok, pure_eq_ok] at hbs
    obtain ⟨bs₁, hbs₁, rfl⟩ := hbs
    exact ⟨entry.tx, _, htx, ⟨bs₁, hbs₁, by simp⟩, entry.m_global_output_indexes, rest, hindexes,
      rfl, rfl, rfl⟩

/-- **The entry format is exact.** The reader accepts exactly what the writer writes of the
readable entries, followed by anything, and reads back the entry. -/
theorem serializeBlockEntry_exact :
    ExactE BlockEntry.Readable Output.serializeBlockEntry serializeBlockEntry := by
  intro input entry rest
  rw [serializeBlockEntry, serializeBlock_exact.run_bind_eq_ok]
  simp only [readVarintUInt32_exact.run_bind_eq_ok, readVarintUInt64_exact.run_bind_eq_ok,
    (serializeContainerE_exact serializeTransactionEntry_exact).run_bind_eq_ok, run_pure_eq_ok]
  constructor
  · rintro ⟨bl, s1, hbl, ⟨bs₁, hbs₁, rfl⟩, height, s2, -, rfl, size, s3, -, rfl, difficulty, s4, -,
      rfl, coins, s5, -, rfl, transactions, s6, htransactions, ⟨bs₂, hbs₂, rfl⟩, rfl, rfl⟩
    refine ⟨⟨hbl, UInt64.toNat_lt size, htransactions⟩, ?_⟩
    simp only [Output.serializeBlockEntry, bind_eq_ok, pure_eq_ok, UInt64.ofNat_toNat]
    exact ⟨_, ⟨bs₁, hbs₁, bs₂, hbs₂, rfl⟩, by simp⟩
  · rintro ⟨⟨hbl, hsize, htransactions⟩, bs, hbs, rfl⟩
    simp only [Output.serializeBlockEntry, bind_eq_ok, pure_eq_ok] at hbs
    obtain ⟨bs₁, hbs₁, bs₂, hbs₂, rfl⟩ := hbs
    simp only [List.append_assoc]
    refine ⟨entry.bl, _, hbl, ⟨bs₁, hbs₁, rfl⟩, entry.height, _, trivial, rfl,
      UInt64.ofNat entry.block_cumulative_size, _, trivial, rfl, entry.cumulative_difficulty,
      _, trivial, rfl, entry.already_generated_coins, _, trivial, rfl,
      entry.transactions, rest, htransactions, ⟨bs₂, hbs₂, rfl⟩, ?_, rfl⟩
    rw [UInt64.toNat_ofNat_of_lt' hsize]

end Input

/-! ## The store serves the blocks of the chain -/

namespace Blockchain

/-- **A read of the block store is `blockAt`.** On a store holding the blocks of a state,
`m_blocks[i]` returns the entry at `i`, from the cache or read back from the blocks file, and
past the end throws the exception `blockAt` throws. -/
theorem get_eq_blockAt (s : Blockchain) {v : SwappedVector BlockEntry}
    (hv : SwappedVector.Stores Output.serializeBlockEntry BlockEntry.Readable v s.m_blocks)
    {i : ℕ} (hi : i < 2 ^ 64) :
    ((v.get Input.serializeBlockEntry (UInt64.ofNat i)).map Prod.fst).mapError
      BlockchainException.runtime_error = s.blockAt i := by
  have hindex : (UInt64.ofNat i).toNat = i := UInt64.toNat_ofNat_of_lt' hi
  by_cases hlt : i < s.m_blocks.length
  · obtain ⟨w, hget, -⟩ := hv.get_of_lt Input.serializeBlockEntry_exact
      (show (UInt64.ofNat i).toNat < s.m_blocks.length by omega)
    rw [hget, blockAt, List.getElem?_eq_getElem hlt]
    simp only [hindex, Except.mapError]
    rfl
  · rw [hv.get_of_le (by omega), blockAt, List.getElem?_eq_none (by omega)]
    rfl

/-- **The block store serves `blockAt`.** The store `init` opens, with a pool of 1024 entries, on
a folder without its files, run through any calls that push only readable entries within the
sizes of its files, pop only a non-empty store and restart with a pool, returns from each read
what the list of its entries returns; at the end every `m_blocks[i]` is `blockAt i` of a state
whose blocks are that list, the exception past the end included. -/
theorem blocks_runCalls_blockAt (calls : List (SwappedVector.Call BlockEntry))
    (hadm : SwappedVector.Admissible Output.serializeBlockEntry BlockEntry.Readable calls []) :
    ∃ v w, SwappedVector.open none none 1024 = some v ∧
      SwappedVector.runCalls Output.serializeBlockEntry Input.serializeBlockEntry calls v =
        some ((SwappedVector.Call.runList calls []).1, w) ∧
      ∀ s : Blockchain, s.m_blocks = (SwappedVector.Call.runList calls []).2 → ∀ i < 2 ^ 64,
        ((w.get Input.serializeBlockEntry (UInt64.ofNat i)).map Prod.fst).mapError
          BlockchainException.runtime_error = s.blockAt i := by
  obtain ⟨v, hopen, hv⟩ : ∃ v, SwappedVector.open none none 1024 = some v ∧
      SwappedVector.Stores Output.serializeBlockEntry BlockEntry.Readable v [] :=
    SwappedVector.open_none_none (by norm_num)
  obtain ⟨w, hrun, hw⟩ :=
    SwappedVector.runCalls_stores Input.serializeBlockEntry_exact calls hv hadm
  exact ⟨v, w, hopen, hrun, fun s hs i hi => get_eq_blockAt s (hs ▸ hw) hi⟩

/-- A stored genesis-like block: a coinbase with one `BaseInput` and no outputs, with its one
empty signature list. -/
def sampleStoredEntry : BlockEntry :=
  let coinbase : Transaction :=
    { version := 1, unlockTime := 0, inputs := [.base ⟨0⟩], outputs := [], extra := [],
      signatures := [[]] }
  { bl := ⟨⟨1, 0, 0, 0, NULL_HASH⟩, coinbase, []⟩, height := 0, block_cumulative_size := 0,
    cumulative_difficulty := 1, already_generated_coins := 0, transactions := [⟨coinbase, []⟩] }

/-- The entry is pushed, the node restarts, and the entry and the one past it are read. -/
def sampleStoreCalls : List (SwappedVector.Call BlockEntry) :=
  [.push_back sampleStoredEntry, .reopen 1024, .get 0, .get 1]

/-- After the restart the entry is read back from the blocks file, and past it the exception. -/
theorem blocks_runCalls_blockAt_sample :
    ∃ v w, SwappedVector.open none none 1024 = some v ∧
      SwappedVector.runCalls Output.serializeBlockEntry Input.serializeBlockEntry sampleStoreCalls
        v = some ([.ok sampleStoredEntry, .error "SwappedVector::operator[]"], w) ∧
      ((w.get Input.serializeBlockEntry 0).map Prod.fst).mapError
        BlockchainException.runtime_error = .ok sampleStoredEntry := by
  -- the entry's encoding, with its varints of one byte each
  have hlength : (SwappedVector.encoded Output.serializeBlockEntry sampleStoredEntry).length <
      2 ^ 32 := by
    simp [SwappedVector.encoded, sampleStoredEntry, Output.serializeBlockEntry,
      Output.serializeBlock, Output.serializeBlockHeader, Output.serializeTransaction,
      Output.serializeTransactionPrefix, Output.serializeSignatures, Output.serializeContainerE,
      Output.serializeTransactionEntry, Output.serializeContainer, Output.serializeHash,
      Output.beginArray, Output.serializeAsBinary, Output.serializeString,
      Output.serializeVarintVector, Output.serializeTransactionInput, Output.serializeBaseInput,
      BLOCK_MAJOR_VERSION_3, TRANSACTION_VERSION_2, getSignaturesCount, writeVarint_eq_encode,
      LEB128.encode_of_lt, pure, Except.pure, bind, Except.bind]
  have hfits : SwappedVector.Fits Output.serializeBlockEntry BlockEntry.Readable
      [sampleStoredEntry] :=
    ⟨by simp only [List.mem_singleton, forall_eq]; exact ⟨by decide, rfl⟩,
      by simp only [List.mem_singleton, forall_eq]; exact hlength,
      by simp only [SwappedVector.sizes, List.map_singleton, List.sum_singleton]; omega,
      by norm_num⟩
  obtain ⟨v, w, hopen, hrun, hread⟩ := blocks_runCalls_blockAt sampleStoreCalls
    ⟨hfits, show 0 < 1024 by norm_num, trivial, trivial, trivial⟩
  exact ⟨v, w, hopen, hrun.trans rfl,
    hread { Blockchain.empty tx_memory_pool.empty with m_blocks := [sampleStoredEntry] } rfl 0
      (by norm_num)⟩

end Blockchain

end UltraNoteCore
