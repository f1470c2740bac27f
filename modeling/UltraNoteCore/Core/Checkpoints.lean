import UltraNoteCore.Basic.CryptoNote
import Mathlib.Tactic.Tauto

/-!
# Checkpoints

`Checkpoints` (`Checkpoints.cpp`) pins the hash of the main-chain block at a few heights. Below
the last checkpoint the blockchain checks a pushed block against the checkpoints instead of its
proof of work, and `is_alternative_block_allowed` refuses alternative blocks that would replace
a checkpointed block, or that fork more than `CRYPTONOTE_MINED_MONEY_UNLOCK_WINDOW` blocks
below the main-chain height outside the checkpoint zone. The depth test is computed in
`uint64_t`, as `size_t` promotes it: below the window the subtraction wraps and every
alternative block outside the zone is refused.

`m_points` is a `std::map`; the model keeps its entries in key order, and the structure carries
that order, so "the last checkpoint" and "the checkpoints up to a height" read off the list.

## Main definitions

* `Checkpoints`: the entries of `m_points`, strictly increasing in height
* `Checkpoints.add_checkpoint`, `is_in_checkpoint_zone`, `check_block`,
  `is_alternative_block_allowed`

## Main results

* `Checkpoints.is_in_checkpoint_zone_iff`: a height is in the zone iff some checkpoint is at or
  above it
* `Checkpoints.check_block_iff`: a block passes iff no checkpoint at its height names another
  hash
* `Checkpoints.is_alternative_block_allowed_iff`: what admits an alternative block, in terms of
  the set of checkpoints
-/

namespace UltraNoteCore

/-- `parameters::CRYPTONOTE_MINED_MONEY_UNLOCK_WINDOW`, a `size_t`. -/
def CRYPTONOTE_MINED_MONEY_UNLOCK_WINDOW : UInt64 := 10

/-- `Checkpoints`: the entries of `m_points` in key order. -/
structure Checkpoints where
  m_points : List (UInt32 × Hash)
  sorted : m_points.Pairwise fun p q => p.1 < q.1

namespace Checkpoints

/-- A fresh `Checkpoints`, with no points. -/
def empty : Checkpoints := ⟨[], List.Pairwise.nil⟩

/-- The insertion of `m_points[height] = h` into the entries of a map, at their key position. -/
def insertPoint (p : UInt32 × Hash) : List (UInt32 × Hash) → List (UInt32 × Hash)
  | [] => [p]
  | q :: qs => if p.1 < q.1 then p :: q :: qs else q :: insertPoint p qs

theorem mem_insertPoint {p q : UInt32 × Hash} {l : List (UInt32 × Hash)} :
    q ∈ insertPoint p l ↔ q = p ∨ q ∈ l := by
  induction l with
  | nil => simp [insertPoint]
  | cons r l ih =>
    simp only [insertPoint]
    split_ifs
    · simp
    · simp only [List.mem_cons, ih]
      tauto

/-- Inserting a height that is not a key keeps the keys strictly increasing. -/
theorem sorted_insertPoint {p : UInt32 × Hash} {l : List (UInt32 × Hash)}
    (hl : l.Pairwise fun p q => p.1 < q.1) (hp : ∀ q ∈ l, q.1 ≠ p.1) :
    (insertPoint p l).Pairwise fun p q => p.1 < q.1 := by
  induction l with
  | nil => simp [insertPoint]
  | cons q l ih =>
    rw [List.pairwise_cons] at hl
    simp only [insertPoint]
    split_ifs with hlt
    · -- `p` goes first: every key after it is above `q`, hence above `p`
      refine List.Pairwise.cons (fun r hr => ?_) (List.Pairwise.cons hl.1 hl.2)
      rcases List.mem_cons.mp hr with rfl | hr
      · exact hlt
      · exact UInt32.lt_trans hlt (hl.1 r hr)
    · -- `p` goes after `q`, so its key is above `q`'s
      have hqp : q.1 < p.1 := by
        have hne := hp q List.mem_cons_self
        rw [UInt32.lt_iff_toNat_lt] at hlt ⊢
        have : q.1.toNat ≠ p.1.toNat := fun h => hne (UInt32.toNat_inj.mp h)
        omega
      refine List.Pairwise.cons (fun r hr => ?_) (ih hl.2 fun r hr => hp r (.tail _ hr))
      rcases mem_insertPoint.mp hr with rfl | hr
      · exact hqp
      · exact hl.1 r hr

variable (cp : Checkpoints)

/-- `Checkpoints::add_checkpoint`: the point is added unless its height already has one. The
hex parsing of the hash string is not modelled. -/
def add_checkpoint (height : UInt32) (h : Hash) : Bool × Checkpoints :=
  if hp : ∃ q ∈ cp.m_points, q.1 = height then (false, cp)
  else (true, ⟨insertPoint (height, h) cp.m_points,
    sorted_insertPoint cp.sorted fun q hq hqh => hp ⟨q, hq, hqh⟩⟩)

/-- `Checkpoints::is_in_checkpoint_zone`: at or below the last checkpoint. -/
def is_in_checkpoint_zone (height : UInt32) : Bool :=
  match cp.m_points.getLast? with
  | none => false
  | some p => decide (height ≤ p.1)

/-- `Checkpoints::check_block`: whether a block with hash `h` may stand at `height`, and
whether `height` is a checkpoint (`is_a_checkpoint`). The overload without the flag is the
first component. -/
def check_block (height : UInt32) (h : Hash) : Bool × Bool :=
  match cp.m_points.lookup height with
  | none => (true, false)
  | some expected => (expected == h, true)

/-- `Checkpoints::is_alternative_block_allowed`: not the genesis height; not deeper than the
window below the main-chain height unless in the checkpoint zone; and above the last checkpoint
at or below the main-chain height (`--m_points.upper_bound(blockchain_height)`). -/
def is_alternative_block_allowed (blockchain_height block_height : UInt32) : Bool :=
  if block_height = 0 then false
  else if block_height.toUInt64 < blockchain_height.toUInt64 - CRYPTONOTE_MINED_MONEY_UNLOCK_WINDOW
      ∧ cp.is_in_checkpoint_zone block_height = false then false
  else
    match (cp.m_points.takeWhile fun p => decide (p.1 ≤ blockchain_height)).getLast? with
    | none => true
    | some p => decide (p.1 < block_height)

/-! ## The checks in terms of the set of checkpoints -/

section Sorted

variable {l : List (UInt32 × Hash)}

/-- In a list with increasing keys the last entry has the largest key. -/
theorem le_of_getLast? (hl : l.Pairwise fun p q => p.1 < q.1) {p q : UInt32 × Hash}
    (hp : l.getLast? = some p) (hq : q ∈ l) : q.1 ≤ p.1 := by
  obtain ⟨l, rfl⟩ : ∃ l', l = l' ++ [p] := List.getLast?_eq_some_iff.mp hp
  rw [List.pairwise_append] at hl
  rcases List.mem_append.mp hq with hq | hq
  · exact UInt32.le_of_lt (hl.2.2 q hq p List.mem_cons_self)
  · rw [List.mem_singleton.mp hq]
    exact UInt32.le_refl _

/-- The entries before the first key above `height` are exactly those at or below it. -/
theorem mem_takeWhile_le (hl : l.Pairwise fun p q => p.1 < q.1) {height : UInt32}
    {p : UInt32 × Hash} :
    p ∈ l.takeWhile (fun q => decide (q.1 ≤ height)) ↔ p ∈ l ∧ p.1 ≤ height := by
  induction l with
  | nil => simp
  | cons q l ih =>
    rw [List.pairwise_cons] at hl
    rw [List.takeWhile_cons]
    split
    · next hq =>
      simp only [List.mem_cons, ih hl.2]
      constructor
      · rintro (rfl | ⟨hp, hph⟩)
        · exact ⟨.inl rfl, of_decide_eq_true hq⟩
        · exact ⟨.inr hp, hph⟩
      · rintro ⟨rfl | hp, hph⟩
        · exact .inl rfl
        · exact .inr ⟨hp, hph⟩
    · next hq =>
      -- the first key is above `height`, so every later one is too
      have hq' : height < q.1 := UInt32.not_le.mp fun h => hq (decide_eq_true h)
      simp only [List.not_mem_nil, List.mem_cons, false_iff, not_and]
      rintro (rfl | hp) hph
      · exact UInt32.not_le.mpr hq' hph
      · exact UInt32.not_le.mpr (UInt32.lt_trans hq' (hl.1 p hp)) hph

/-- Keys are unique in a list with increasing keys. -/
theorem eq_of_key_eq (hl : l.Pairwise fun p q => p.1 < q.1) {p q : UInt32 × Hash}
    (hp : p ∈ l) (hq : q ∈ l) (hpq : p.1 = q.1) : p = q := by
  induction l with
  | nil => simp at hp
  | cons r l ih =>
    rw [List.pairwise_cons] at hl
    rcases List.mem_cons.mp hp with rfl | hpl <;> rcases List.mem_cons.mp hq with rfl | hql
    · rfl
    · exact absurd hpq (UInt32.ne_of_lt (hl.1 q hql))
    · exact absurd hpq.symm (UInt32.ne_of_lt (hl.1 p hpl))
    · exact ih hl.2 hpl hql

end Sorted

variable {cp}

theorem is_in_checkpoint_zone_iff (height : UInt32) :
    cp.is_in_checkpoint_zone height = true ↔ ∃ p ∈ cp.m_points, height ≤ p.1 := by
  unfold is_in_checkpoint_zone
  split
  · next hnone =>
    rw [List.getLast?_eq_none_iff.mp hnone]
    simp
  · next p hp =>
    rw [decide_eq_true_iff]
    exact ⟨fun h => ⟨p, List.mem_of_getLast? hp, h⟩,
      fun ⟨q, hq, h⟩ => UInt32.le_trans h (le_of_getLast? cp.sorted hp hq)⟩

theorem check_block_iff (height : UInt32) (h : Hash) :
    (cp.check_block height h).1 = true ↔ ∀ p ∈ cp.m_points, p.1 = height → p.2 = h := by
  unfold check_block
  split
  · next hnone =>
    simp only [true_iff]
    intro p hp hph
    have := List.lookup_eq_none_iff.mp hnone p hp
    simp [hph] at this
  · next expected hsome =>
    obtain ⟨l₁, l₂, hl, -⟩ := List.lookup_eq_some_iff.mp hsome
    have hmem : (height, expected) ∈ cp.m_points := by simp [hl]
    simp only [beq_iff_eq]
    constructor
    · rintro rfl p hp hph
      rw [eq_of_key_eq cp.sorted hp hmem hph]
    · exact fun hall => hall _ hmem rfl

/-- **Admission of an alternative block.** It is not at height zero; it is within the window
below the main-chain height (in wrapping `uint64_t`) or in the checkpoint zone; and it is above
every checkpoint at or below the main-chain height. -/
theorem is_alternative_block_allowed_iff (blockchain_height block_height : UInt32) :
    cp.is_alternative_block_allowed blockchain_height block_height = true ↔
      block_height ≠ 0 ∧
      (block_height.toUInt64 < blockchain_height.toUInt64 - CRYPTONOTE_MINED_MONEY_UNLOCK_WINDOW →
        cp.is_in_checkpoint_zone block_height = true) ∧
      ∀ p ∈ cp.m_points, p.1 ≤ blockchain_height → p.1 < block_height := by
  have hmem : ∀ p, p ∈ cp.m_points.takeWhile (fun q => decide (q.1 ≤ blockchain_height)) ↔
      p ∈ cp.m_points ∧ p.1 ≤ blockchain_height := fun _ => mem_takeWhile_le cp.sorted
  unfold is_alternative_block_allowed
  split_ifs with h0 hdeep
  · simp [h0]
  · simp only [false_iff, not_and]
    exact fun _ himp => absurd (himp hdeep.1) (by simp [hdeep.2])
  · have hdeep' : block_height.toUInt64 <
        blockchain_height.toUInt64 - CRYPTONOTE_MINED_MONEY_UNLOCK_WINDOW →
        cp.is_in_checkpoint_zone block_height = true := by
      intro hlt
      by_contra hz
      exact hdeep ⟨hlt, by simpa using hz⟩
    split
    · next hnone =>
      -- no checkpoint is at or below the main-chain height
      rw [List.getLast?_eq_none_iff] at hnone
      simp only [true_iff]
      refine ⟨h0, hdeep', fun p hp hph => ?_⟩
      have := (hmem p).mpr ⟨hp, hph⟩
      simp [hnone] at this
    · next p hp =>
      -- the last checkpoint at or below the main-chain height is the highest of them
      have hsorted : (cp.m_points.takeWhile fun p => decide (p.1 ≤ blockchain_height)).Pairwise
          fun p q => p.1 < q.1 :=
        cp.sorted.sublist (List.takeWhile_sublist _)
      have hpmem := (hmem p).mp (List.mem_of_getLast? hp)
      rw [decide_eq_true_iff]
      constructor
      · intro hlt
        refine ⟨h0, hdeep', fun q hq hqh => ?_⟩
        exact UInt32.lt_of_le_of_lt (le_of_getLast? hsorted hp ((hmem q).mpr ⟨hq, hqh⟩)) hlt
      · exact fun ⟨_, _, hall⟩ => hall p hpmem.1 hpmem.2

end Checkpoints

end UltraNoteCore
