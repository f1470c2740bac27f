import Mathlib
import UltraNoteCore.Prelude.RunningSum

/-!
# The deposit index

`DepositIndex` (`DepositIndex.cpp`) keeps, for the main chain, the running totals of locked
deposits and of paid interest: `pushBlock` records a block's change, `popBlock` and
`popBlocks` forget the last block or every block from a height on, and
`depositAmountAtHeight` answers the total after a given block. The index is sparse: a block
that changes neither total gets no entry, and a query searches with `std::upper_bound` for the
last entry at or before the height.

The model keeps the source's types: `int64_t` amounts and `uint64_t` interest, whose sums wrap
(as `assert`s that a release build compiles out would otherwise forbid), and `uint32_t`
heights (`DepositHeight`) for the entries and the block count, which `++blockCount` wraps at
`2 ^ 32`. While fewer than `2 ^ 32` blocks are held, it refines the naive model, the list of the
`(amount, interest)` changes of the blocks held: the index is the `RunningSum.encode` of that
list. The `2 ^ 32`-th block wraps the count to `0`, and the index no longer says how many blocks
it holds.

## Main definitions

* `DepositIndex.pushBlock`, `popBlock`, `popBlocks`, `depositAmountAtHeight`, …: the index
* `DepositIndex.Refines L d`: `d` stores the block list `L`
* `DepositOp`, `DepositIndex.run`, `blockList`: sequences of operations and their naive meaning

## Main results

* `Refines.pushBlock`, `Refines.popBlock`, `Refines.popBlocks`: each operation keeps the
  refinement, a push while the list stays below `2 ^ 32` blocks
* `Refines.depositAmountAtHeight`, …: the queries answer prefix sums of the list
* `depositIndex_refines_blockList`: along any sequence of operations from the empty index that
  never holds `2 ^ 32` blocks
* `depositIndex_size_wraps`: `2 ^ 32` pushes of a block without deposits leave size `0`
-/

/-- `int64_t` addition is that of a commutative monoid (two's complement wrapping). -/
instance instAddCommMonoidInt64 : AddCommMonoid Int64 where
  add_assoc := Int64.add_assoc
  zero_add := Int64.zero_add
  add_zero := Int64.add_zero
  add_comm := Int64.add_comm
  nsmul := nsmulRec

namespace UltraNoteCore

/-- `DepositIndex::DepositAmount`. -/
abbrev DepositAmount := Int64

/-- `DepositIndex::DepositInterest`. -/
abbrev DepositInterest := UInt64

/-- `DepositIndex::DepositHeight`. -/
abbrev DepositHeight := UInt32

/-- `DepositIndex::DepositIndexEntry`: the totals after the block at `height`. -/
structure DepositIndexEntry where
  height : DepositHeight
  amount : DepositAmount
  interest : DepositInterest
deriving DecidableEq, Repr

/-- `DepositIndex`: the entries, in increasing height, and the number of blocks. -/
structure DepositIndex where
  index : List DepositIndexEntry
  blockCount : DepositHeight
deriving DecidableEq, Repr

namespace DepositIndex

/-- `DepositIndex()`: no block. -/
def empty : DepositIndex := ⟨[], 0⟩

/-- `DepositIndex::size`. -/
def size (d : DepositIndex) : DepositHeight := d.blockCount

/-- `DepositIndex::fullDepositAmount`: the amount of the last entry, `0` without one. -/
def fullDepositAmount (d : DepositIndex) : DepositAmount :=
  match d.index.getLast? with
  | none => 0
  | some e => e.amount

/-- `DepositIndex::fullInterestAmount`. -/
def fullInterestAmount (d : DepositIndex) : DepositInterest :=
  match d.index.getLast? with
  | none => 0
  | some e => e.interest

/-- `DepositIndex::pushBlock`: an entry with the new totals when the block changes one of
them, and one more block (`++blockCount`, in `uint32_t`). The previous totals are read off the
last entry, as `fullDepositAmount` and `fullInterestAmount` do. -/
def pushBlock (d : DepositIndex) (amount : DepositAmount) (interest : DepositInterest) :
    DepositIndex :=
  { index :=
      if amount ≠ 0 ∨ 0 < interest then
        d.index ++ [⟨d.blockCount, amount + d.fullDepositAmount, interest + d.fullInterestAmount⟩]
      else d.index
    blockCount := d.blockCount + 1 }

/-- `DepositIndex::popBlock`: one block less, and its entry gone if it had one. -/
def popBlock (d : DepositIndex) : DepositIndex :=
  let blockCount := d.blockCount - 1
  match d.index.getLast? with
  | some e => if e.height = blockCount then ⟨d.index.dropLast, blockCount⟩ else ⟨d.index, blockCount⟩
  | none => ⟨d.index, blockCount⟩

/-- `DepositIndex::upperBound`: the position `std::upper_bound` returns, that of the first entry
above `height`. -/
def upperBound (d : DepositIndex) (height : DepositHeight) : Nat :=
  (d.index.takeWhile fun e => !decide (height < e.height)).length

/-- `DepositIndex::popBlocks(from)`: forget the blocks from height `fromHeight` on, returning
how many went (the `uint32_t` difference, as a `size_t`). The cut starts at the entry before the
upper bound when that entry is at `fromHeight` itself. -/
def popBlocks (d : DepositIndex) (fromHeight : DepositHeight) : DepositIndex × Nat :=
  if d.blockCount ≤ fromHeight then (d, 0)
  else
    let ub := d.upperBound fromHeight
    let it :=
      if ub = 0 then 0
      else
        match d.index[ub - 1]? with
        | some e => if e.height ≠ fromHeight then ub else ub - 1
        | none => ub
    let diff := d.blockCount - fromHeight
    (⟨d.index.take it, d.blockCount - diff⟩, diff.toNat)

/-- `DepositIndex::depositAmountAtHeight`: the amount of the last entry at or before
`height`. -/
def depositAmountAtHeight (d : DepositIndex) (height : DepositHeight) : DepositAmount :=
  if d.blockCount = 0 then 0
  else
    let ub := d.upperBound height
    if ub = 0 then 0
    else
      match d.index[ub - 1]? with
      | some e => e.amount
      | none => 0

/-- `DepositIndex::depositInterestAtHeight`. -/
def depositInterestAtHeight (d : DepositIndex) (height : DepositHeight) : DepositInterest :=
  if d.blockCount = 0 then 0
  else
    let ub := d.upperBound height
    if ub = 0 then 0
    else
      match d.index[ub - 1]? with
      | some e => e.interest
      | none => 0

@[simp] theorem pushBlock_blockCount (d : DepositIndex) (amount : DepositAmount)
    (interest : DepositInterest) : (d.pushBlock amount interest).blockCount = d.blockCount + 1 :=
  rfl

@[simp] theorem popBlock_blockCount (d : DepositIndex) :
    d.popBlock.blockCount = d.blockCount - 1 := by
  unfold popBlock
  split
  · dsimp only
    split <;> rfl
  · rfl

/-- `popBlock` drops the last entry when it is at the height of the last block. -/
theorem popBlock_index_of_last {d : DepositIndex} {e : DepositIndexEntry}
    (hl : d.index.getLast? = some e) (he : e.height = d.blockCount - 1) :
    d.popBlock.index = d.index.dropLast := by
  simp [popBlock, hl, he]

/-- `popBlock` keeps the entries when the last one is below the last block. -/
theorem popBlock_index_of_below {d : DepositIndex}
    (h : ∀ e, d.index.getLast? = some e → e.height ≠ d.blockCount - 1) :
    d.popBlock.index = d.index := by
  unfold popBlock
  split
  · next e hl => simp [h e hl]
  · rfl

end DepositIndex

/-! ## The naive model: the list of blocks

A block is its `(amount, interest)` change. `Refines L d` says that `d` counts `L.length` blocks
and that its entries are the running-sum encoding of `L`; the count is a `uint32_t`, so `L` has
fewer than `2 ^ 32` blocks. -/

namespace DepositIndex

open RunningSum

/-- The index entry an encoded `(position, totals)` pair stands for, at the `uint32_t` height of
the position. -/
def entryOf (p : ℕ × (DepositAmount × DepositInterest)) : DepositIndexEntry :=
  ⟨UInt32.ofNat p.1, p.2.1, p.2.2⟩

/-- `d` stores the blocks `L`. -/
def Refines (L : List (DepositAmount × DepositInterest)) (d : DepositIndex) : Prop :=
  d.blockCount.toNat = L.length ∧ d.index = (encode L).map entryOf

instance (L : List (DepositAmount × DepositInterest)) (d : DepositIndex) :
    Decidable (Refines L d) :=
  inferInstanceAs (Decidable (_ ∧ _))

theorem refines_empty : Refines [] empty := ⟨rfl, rfl⟩

variable {L : List (DepositAmount × DepositInterest)} {d : DepositIndex}

theorem fst_sum (L : List (DepositAmount × DepositInterest)) :
    L.sum.1 = (L.map Prod.fst).sum := by
  simpa using map_list_sum (AddMonoidHom.fst DepositAmount DepositInterest) L

theorem snd_sum (L : List (DepositAmount × DepositInterest)) :
    L.sum.2 = (L.map Prod.snd).sum := by
  simpa using map_list_sum (AddMonoidHom.snd DepositAmount DepositInterest) L

/-- A refined list has fewer than `2 ^ 32` blocks: its length is a `uint32_t`. -/
theorem Refines.length_lt (h : Refines L d) : L.length < 2 ^ 32 :=
  h.1 ▸ d.blockCount.toNat_lt

theorem Refines.blockCount_eq (h : Refines L d) : d.blockCount = UInt32.ofNat L.length := by
  rw [← h.1, UInt32.ofNat_toNat]

/-- The height of an entry is its position: positions stay below the number of blocks, which
fits in a `uint32_t`. -/
theorem Refines.height_entryOf (h : Refines L d) {p : ℕ × (DepositAmount × DepositInterest)}
    (hp : p ∈ encode L) : (entryOf p).height.toNat = p.1 :=
  UInt32.toNat_ofNat_of_lt' (Nat.lt_trans (key_lt_of_mem_encode hp) h.length_lt)

/-- The blocks an index stores determine it. -/
theorem Refines.unique {d' : DepositIndex} (h : Refines L d) (h' : Refines L d') : d = d' := by
  obtain ⟨index, blockCount⟩ := d
  obtain ⟨index', blockCount'⟩ := d'
  obtain ⟨hc, hi⟩ := h
  obtain ⟨hc', hi'⟩ := h'
  simp only at hc hi hc' hi'
  rw [UInt32.toNat_inj.mp (hc.trans hc'.symm), hi, hi']

/-- The totals of the last entry are those of the whole list. -/
theorem Refines.fullAmounts (h : Refines L d) :
    (d.fullDepositAmount, d.fullInterestAmount) = L.sum := by
  have hsum := lastSum_encode L
  unfold lastSum at hsum
  unfold fullDepositAmount fullInterestAmount
  rw [h.2, List.getLast?_map]
  cases hl : (encode L).getLast? with
  | none =>
    simp only [hl, Option.map_none, Option.getD_none] at hsum
    exact Prod.mk_zero_zero.trans hsum
  | some p =>
    simp only [hl, Option.map_some, Option.getD_some] at hsum
    simp [entryOf, ← hsum]

/-- A block is stored exactly when it changes a total. -/
theorem stored_iff (amount : DepositAmount) (interest : DepositInterest) :
    (amount ≠ 0 ∨ 0 < interest) ↔ ¬ (amount, interest) = 0 := by
  rw [UInt64.pos_iff_ne_zero, Prod.mk_eq_zero, not_and_or]

/-- A push keeps the refinement while the list stays below `2 ^ 32` blocks: the entry goes in
at the block count, which is the list's length. -/
theorem Refines.pushBlock (h : Refines L d) (hlen : L.length + 1 < 2 ^ 32)
    (amount : DepositAmount) (interest : DepositInterest) :
    Refines (L ++ [(amount, interest)]) (d.pushBlock amount interest) := by
  have hfa : d.fullDepositAmount = L.sum.1 := congrArg Prod.fst h.fullAmounts
  have hfi : d.fullInterestAmount = L.sum.2 := congrArg Prod.snd h.fullAmounts
  have hcount : (d.blockCount + 1).toNat = L.length + 1 := by
    rw [UInt32.toNat_add, UInt32.toNat_one, h.1, Nat.mod_eq_of_lt hlen]
  refine ⟨by simpa using hcount, ?_⟩
  rw [encode_append_singleton]
  by_cases h0 : (amount, interest) = 0
  · have hns : ¬ (amount ≠ 0 ∨ 0 < interest) := fun hs => (stored_iff _ _).mp hs h0
    simp only [DepositIndex.pushBlock, if_neg hns, h.2, h0, if_true, List.append_nil]
  · have hs : amount ≠ 0 ∨ 0 < interest := (stored_iff _ _).mpr h0
    simp only [DepositIndex.pushBlock, if_pos hs, h0, if_false, List.map_append, List.map_cons,
      List.map_nil, hfa, hfi, h.blockCount_eq, entryOf, Prod.fst_add, Prod.snd_add,
      add_comm amount, add_comm interest, h.2]

/-- The entry of the last block, if stored, sits at height `L.length - 1`; every other entry
lies below, so `popBlock` drops exactly the last block's entry. -/
theorem Refines.popBlock (h : Refines L d) (hne : L ≠ []) : Refines L.dropLast d.popBlock := by
  obtain ⟨L, x, rfl⟩ := (List.eq_nil_or_concat L).resolve_left hne
  have hlt := h.length_lt
  obtain ⟨hc, hi⟩ := h
  rw [List.concat_eq_append] at hc hi hlt ⊢
  rw [List.length_append, List.length_singleton] at hc hlt
  rw [encode_append_singleton] at hi
  rw [List.dropLast_concat]
  -- `--blockCount` does not wrap: the index holds a block
  have hcount : (d.blockCount - 1).toNat = L.length := by
    rw [UInt32.toNat_sub_of_le _ _ (UInt32.le_iff_toNat_le.mpr (by simp [hc])), hc,
      UInt32.toNat_one, Nat.add_sub_cancel]
  have hfits : L.length < UInt32.size := Nat.lt_trans (Nat.lt_succ_self _) hlt
  have hlast : d.blockCount - 1 = UInt32.ofNat L.length := by
    rw [← UInt32.toNat_inj, hcount, UInt32.toNat_ofNat_of_lt' hfits]
  refine ⟨by simpa using hcount, ?_⟩
  by_cases hx : x = 0
  · -- nothing was stored for the last block: the last entry, if any, lies below it
    simp only [hx, if_true, List.append_nil] at hi
    rw [popBlock_index_of_below, hi]
    intro e hl
    rw [hi, List.getLast?_map, Option.map_eq_some_iff] at hl
    obtain ⟨p, hp, rfl⟩ := hl
    have hkey := key_lt_of_mem_encode (List.mem_of_getLast? hp)
    intro heq
    have hheight := congrArg UInt32.toNat heq
    rw [hcount, entryOf, UInt32.toNat_ofNat_of_lt' (Nat.lt_trans hkey hfits)] at hheight
    omega
  · simp only [hx, if_false] at hi
    rw [popBlock_index_of_last (e := entryOf (L.length, L.sum + x)) (by simp [hi])
      (by simp [entryOf, hlast]), hi]
    simp

/-! ## Queries -/

/-- The upper bound of `n` is past the entries of the first `n + 1` blocks. -/
theorem Refines.upperBound_eq (h : Refines L d) (n : DepositHeight) :
    d.upperBound n = (encode (L.take (n.toNat + 1))).length := by
  have hp : ∀ p ∈ encode L, ((fun e : DepositIndexEntry => !decide (n < e.height)) ∘ entryOf) p =
      decide (p.1 < n.toNat + 1) := by
    intro p hp
    have hheight := h.height_entryOf hp
    by_cases hlt : n.toNat < p.1
    · have : ¬ p.1 < n.toNat + 1 := by omega
      simp [UInt32.lt_iff_toNat_lt, hheight, hlt, this]
    · have : p.1 < n.toNat + 1 := by omega
      simp [UInt32.lt_iff_toNat_lt, hheight, hlt, this]
  rw [DepositIndex.upperBound, h.2, List.takeWhile_map, takeWhile_encode L _ hp, List.length_map]

/-- The entry before the upper bound of `n` is the last entry of the first `n + 1` blocks. -/
theorem Refines.getElem?_upperBound_pred (h : Refines L d) (n : DepositHeight)
    (hub : d.upperBound n ≠ 0) :
    d.index[d.upperBound n - 1]? = (encode (L.take (n.toNat + 1))).getLast?.map entryOf := by
  rw [h.upperBound_eq] at hub ⊢
  rw [h.2, encode_eq_take_append L (n.toNat + 1), List.map_append,
    List.getElem?_append_left (by simp; omega), List.getElem?_map, List.getLast?_eq_getElem?]

/-- The totals after block `n` are read off the last entry of the first `n + 1` blocks. -/
theorem Refines.atHeight (h : Refines L d) (n : DepositHeight) :
    (if d.blockCount = 0 then ((0 : DepositAmount), (0 : DepositInterest))
      else if d.upperBound n = 0 then (0, 0)
      else match d.index[d.upperBound n - 1]? with
        | some e => (e.amount, e.interest)
        | none => (0, 0)) = (L.take (n.toNat + 1)).sum := by
  have hsum := lastSum_encode (L.take (n.toNat + 1))
  unfold lastSum at hsum
  split
  · next h0 =>
    rw [← UInt32.toNat_inj, h.1, UInt32.toNat_zero, List.length_eq_zero_iff] at h0
    simp [h0]
  · split
    · next hub =>
      rw [h.upperBound_eq, List.length_eq_zero_iff] at hub
      simp only [hub, List.getLast?_nil, Option.map_none, Option.getD_none] at hsum
      exact Prod.mk_zero_zero.trans hsum
    · next hub =>
      rw [h.getElem?_upperBound_pred n hub]
      cases hl : (encode (L.take (n.toNat + 1))).getLast? with
      | none =>
        rw [h.upperBound_eq, List.getLast?_eq_none_iff.mp hl] at hub
        exact absurd rfl hub
      | some p =>
        simp only [hl, Option.map_some, Option.getD_some] at hsum
        simp [entryOf, ← hsum]

theorem Refines.depositAmountAtHeight (h : Refines L d) (n : DepositHeight) :
    d.depositAmountAtHeight n = ((L.take (n.toNat + 1)).map Prod.fst).sum := by
  rw [← fst_sum, ← h.atHeight n, DepositIndex.depositAmountAtHeight]
  dsimp only
  split_ifs
  · rfl
  · rfl
  · split <;> rfl

theorem Refines.depositInterestAtHeight (h : Refines L d) (n : DepositHeight) :
    d.depositInterestAtHeight n = ((L.take (n.toNat + 1)).map Prod.snd).sum := by
  rw [← snd_sum, ← h.atHeight n, DepositIndex.depositInterestAtHeight]
  dsimp only
  split_ifs
  · rfl
  · rfl
  · split <;> rfl

theorem Refines.fullDepositAmount (h : Refines L d) :
    d.fullDepositAmount = (L.map Prod.fst).sum := by
  rw [← fst_sum, ← h.fullAmounts]

theorem Refines.fullInterestAmount (h : Refines L d) :
    d.fullInterestAmount = (L.map Prod.snd).sum := by
  rw [← snd_sum, ← h.fullAmounts]

/-! ## Forgetting a suffix -/

theorem popBlocks_of_le (d : DepositIndex) {n : DepositHeight} (hn : d.blockCount ≤ n) :
    d.popBlocks n = (d, 0) := by
  simp [DepositIndex.popBlocks, hn]

theorem popBlocks_of_lt (d : DepositIndex) {n : DepositHeight} (hn : n < d.blockCount) :
    (d.popBlocks n).1.blockCount = n ∧ (d.popBlocks n).2 = d.blockCount.toNat - n.toNat := by
  have : ¬ d.blockCount ≤ n := by
    rw [UInt32.not_le]
    exact hn
  simp only [DepositIndex.popBlocks, if_neg this, sub_sub_cancel, true_and]
  exact UInt32.toNat_sub_of_le _ _ (UInt32.le_of_lt hn)

/-- `popBlocks n` cuts the entries just past those of the first `n` blocks: the entry before
the upper bound of `n` is block `n`'s own when that block has one, and lies below `n`
otherwise. -/
theorem Refines.popBlocks_index (h : Refines L d) {n : DepositHeight} (hn : n.toNat < L.length) :
    (d.popBlocks n).1.index = d.index.take (encode (L.take n.toNat)).length := by
  have hnot : ¬ d.blockCount ≤ n := by
    rw [UInt32.le_iff_toNat_le, h.1]
    omega
  simp only [DepositIndex.popBlocks, if_neg hnot]
  congr 1
  obtain ⟨x, hx⟩ : ∃ x, L[n.toNat]? = some x := ⟨L[n.toNat], List.getElem?_eq_getElem hn⟩
  have hsucc := encode_take_succ L n.toNat
  have hub := h.upperBound_eq n
  rw [hx] at hsucc
  by_cases hx0 : x = 0
  · simp only [hx0, if_true, List.append_nil] at hsucc
    rw [hsucc] at hub
    split
    · next h0 => rw [← hub, h0]
    · next h0 =>
      rw [h.getElem?_upperBound_pred n h0, hsucc]
      cases hl : (encode (L.take n.toNat)).getLast? with
      | none =>
        rw [hub, List.getLast?_eq_none_iff.mp hl] at h0
        exact absurd rfl h0
      | some p =>
        have hkey := key_lt_of_mem_encode (List.mem_of_getLast? hl)
        simp only [List.length_take] at hkey
        have hne : (entryOf p).height ≠ n := by
          intro heq
          have hheight := congrArg UInt32.toNat heq
          rw [entryOf, UInt32.toNat_ofNat_of_lt' (Nat.lt_trans (by omega) n.toNat_lt)] at hheight
          omega
        simp [hne, hub]
  · simp only [hx0, if_false] at hsucc
    rw [hsucc, List.length_append, List.length_singleton] at hub
    have h0 : d.upperBound n ≠ 0 := by omega
    rw [if_neg h0, h.getElem?_upperBound_pred n h0, hsucc]
    simp [entryOf, hub]

theorem Refines.popBlocks (h : Refines L d) (n : DepositHeight) :
    Refines (L.take n.toNat) (d.popBlocks n).1 ∧
      (d.popBlocks n).2 = if n.toNat < L.length then L.length - n.toNat else 0 := by
  by_cases hn : n.toNat < L.length
  · obtain ⟨hc, hdiff⟩ :=
      popBlocks_of_lt d (n := n) (by rw [UInt32.lt_iff_toNat_lt, h.1]; exact hn)
    refine ⟨⟨by simp [hc]; omega, ?_⟩, by rw [hdiff, h.1, if_pos hn]⟩
    rw [h.popBlocks_index hn, h.2, ← List.map_take, encode_eq_take_append L n.toNat,
      List.take_left' rfl]
  · rw [popBlocks_of_le d (by rw [UInt32.le_iff_toNat_le, h.1]; omega), if_neg hn]
    exact ⟨by rwa [List.take_of_length_le (by omega)], rfl⟩

end DepositIndex

/-! ## Sequences of operations -/

/-- The calls the blockchain makes on its `DepositIndex`. -/
inductive DepositOp where
  | pushBlock (amount : DepositAmount) (interest : DepositInterest)
  | popBlock
  | popBlocks (fromHeight : DepositHeight)
deriving DecidableEq, Repr

namespace DepositOp

/-- What an operation does to the list of blocks held. -/
def onList (L : List (DepositAmount × DepositInterest)) :
    DepositOp → List (DepositAmount × DepositInterest)
  | .pushBlock amount interest => L ++ [(amount, interest)]
  | .popBlock => L.dropLast
  | .popBlocks n => L.take n.toNat

/-- A sequence of operations that pops a single block only when there is one, as
`assert(blockCount > 0)` demands, and never holds `2 ^ 32` blocks, which the `uint32_t` block
count cannot count. -/
def Valid : List (DepositAmount × DepositInterest) → List DepositOp → Prop
  | _, [] => True
  | L, op :: ops =>
    (op = .popBlock → L ≠ []) ∧ (op.onList L).length < 2 ^ 32 ∧ Valid (op.onList L) ops

instance decValid : ∀ L ops, Decidable (Valid L ops)
  | _, [] => isTrue trivial
  | L, op :: ops =>
    have := decValid (op.onList L) ops
    inferInstanceAs (Decidable ((op = .popBlock → L ≠ []) ∧ (op.onList L).length < 2 ^ 32 ∧
      Valid (op.onList L) ops))

end DepositOp

namespace DepositIndex

/-- Apply one operation. -/
def apply (d : DepositIndex) : DepositOp → DepositIndex
  | .pushBlock amount interest => d.pushBlock amount interest
  | .popBlock => d.popBlock
  | .popBlocks n => (d.popBlocks n).1

/-- Apply a sequence of operations, first to last. -/
def run (d : DepositIndex) (ops : List DepositOp) : DepositIndex :=
  ops.foldl apply d

end DepositIndex

/-- The blocks held after a sequence of operations, in the naive model. -/
def blockList (L : List (DepositAmount × DepositInterest)) (ops : List DepositOp) :
    List (DepositAmount × DepositInterest) :=
  ops.foldl DepositOp.onList L

namespace DepositIndex

variable {L : List (DepositAmount × DepositInterest)} {d : DepositIndex}

theorem Refines.apply (h : Refines L d) {op : DepositOp} (hop : op = .popBlock → L ≠ [])
    (hlen : (op.onList L).length < 2 ^ 32) :
    Refines (op.onList L) (d.apply op) := by
  cases op with
  | pushBlock amount interest =>
    exact h.pushBlock (by simpa [DepositOp.onList] using hlen) amount interest
  | popBlock => exact h.popBlock (hop rfl)
  | popBlocks n => exact (h.popBlocks n).1

/-- **Run lemma**: a valid sequence of operations keeps the refinement. -/
theorem Refines.run (h : Refines L d) {ops : List DepositOp} (hv : DepositOp.Valid L ops) :
    Refines (blockList L ops) (d.run ops) := by
  induction ops generalizing L d with
  | nil => exact h
  | cons op ops ih => exact ih (h.apply hv.1 hv.2.1) hv.2.2

end DepositIndex

open DepositIndex in
/-- **`DepositIndex` refines the list of blocks.** After any valid sequence of `pushBlock`,
`popBlock` and `popBlocks` from the empty index, one that never holds `2 ^ 32` blocks, with `L`
the blocks pushed and not popped: the size is `L.length`, the totals at a height are the sums of
`L` up to that height (in the index's wrapping `int64_t`/`uint64_t` arithmetic), the full totals
are the sums of `L`, and `popBlocks n` returns the number of blocks it drops. -/
theorem depositIndex_refines_blockList (ops : List DepositOp) (hv : DepositOp.Valid [] ops) :
    (DepositIndex.empty.run ops).size.toNat = (blockList [] ops).length ∧
    (∀ n : DepositHeight, (DepositIndex.empty.run ops).depositAmountAtHeight n =
      (((blockList [] ops).take (n.toNat + 1)).map Prod.fst).sum) ∧
    (∀ n : DepositHeight, (DepositIndex.empty.run ops).depositInterestAtHeight n =
      (((blockList [] ops).take (n.toNat + 1)).map Prod.snd).sum) ∧
    (DepositIndex.empty.run ops).fullDepositAmount = ((blockList [] ops).map Prod.fst).sum ∧
    (DepositIndex.empty.run ops).fullInterestAmount = ((blockList [] ops).map Prod.snd).sum ∧
    (∀ n : DepositHeight, ((DepositIndex.empty.run ops).popBlocks n).2 =
      if n.toNat < (blockList [] ops).length then (blockList [] ops).length - n.toNat else 0) := by
  have h := refines_empty.run hv
  exact ⟨h.1, h.depositAmountAtHeight, h.depositInterestAtHeight, h.fullDepositAmount,
    h.fullInterestAmount, fun n => (h.popBlocks n).2⟩

/-- Pushing three blocks (one without deposits), popping one and cutting back to one block. -/
def depositSampleOps : List DepositOp :=
  [.pushBlock 5 1, .pushBlock 0 0, .pushBlock (-2) 3, .popBlock, .pushBlock 4 0, .popBlocks 1]

theorem depositIndex_refines_blockList_sample :
    DepositOp.Valid [] depositSampleOps ∧
      (DepositIndex.empty.run depositSampleOps).size.toNat =
        (blockList [] depositSampleOps).length :=
  ⟨by decide, (depositIndex_refines_blockList depositSampleOps (by decide)).1⟩

/-! ## The block count wraps -/

namespace DepositIndex

/-- Pushes of a block without deposits add no entry and count the blocks in `uint32_t`. -/
theorem run_replicate_pushBlock_zero (d : DepositIndex) (k : ℕ) :
    d.run (List.replicate k (.pushBlock 0 0)) = ⟨d.index, d.blockCount + UInt32.ofNat k⟩ := by
  induction k generalizing d with
  | zero => simp [run]
  | succ k ih =>
    have hstep : d.apply (.pushBlock 0 0) = ⟨d.index, d.blockCount + 1⟩ := by
      simp [apply, DepositIndex.pushBlock]
    rw [List.replicate_succ, run, List.foldl_cons, hstep, ← run, ih, UInt32.ofNat_add,
      UInt32.ofNat_one, add_assoc, add_comm 1]

end DepositIndex

theorem blockList_replicate_pushBlock (L : List (DepositAmount × DepositInterest))
    (amount : DepositAmount) (interest : DepositInterest) (k : ℕ) :
    blockList L (List.replicate k (.pushBlock amount interest)) =
      L ++ List.replicate k (amount, interest) := by
  induction k generalizing L with
  | zero => simp [blockList]
  | succ k ih =>
    rw [List.replicate_succ, blockList, List.foldl_cons, ← blockList, ih, DepositOp.onList,
      List.replicate_succ, List.append_assoc, List.singleton_append]

/-- **The block count wraps.** `2 ^ 32` pushes of a block without deposits, none popped, hold
`2 ^ 32` blocks, and the index's size is `0`. -/
theorem depositIndex_size_wraps :
    (DepositIndex.empty.run (List.replicate (2 ^ 32) (.pushBlock 0 0))).size = 0 ∧
      (blockList [] (List.replicate (2 ^ 32) (.pushBlock 0 0))).length = 2 ^ 32 := by
  rw [DepositIndex.run_replicate_pushBlock_zero, blockList_replicate_pushBlock, List.nil_append,
    List.length_replicate]
  exact ⟨by decide, rfl⟩

end UltraNoteCore
