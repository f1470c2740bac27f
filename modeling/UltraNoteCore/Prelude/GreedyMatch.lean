import Mathlib

/-!
# Greedy matching into a subsequence

`greedyMatch r as bs` walks `bs` once and matches the elements of `as` in order, each to the
first element after the previous match that `r` relates to it; the walk fails when `bs` runs
out first. Two-pointer loops that check a list of signatures against an ordered list of keys
have this shape. Taking the first related element never loses a match, so the walk succeeds
exactly when `as` is related, element by element, to a subsequence of `bs`, that is, to the
elements of `bs` at some strictly increasing indices.

## Main definitions

* `GreedyMatch.greedyMatch`: the walk

## Main results

* `greedyMatch_iff_sublistForall₂`: the walk succeeds iff `List.SublistForall₂` holds
* `greedyMatch_iff_exists_orderEmbedding`: the walk succeeds iff there are strictly increasing
  indices `k j` with `r as[j] bs[k j]` for every `j`
-/

namespace GreedyMatch

variable {α β : Type*} (r : α → β → Bool)

/-- Match every element of the first list, in order, to the first element of the second list
after the previous match that `r` relates to it. -/
def greedyMatch : List α → List β → Bool
  | [], _ => true
  | _ :: _, [] => false
  | a :: as, b :: bs => if r a b then greedyMatch as bs else greedyMatch (a :: as) bs

@[simp] theorem greedyMatch_nil (bs : List β) : greedyMatch r [] bs = true := by
  cases bs <;> rfl

@[simp] theorem greedyMatch_cons_nil (a : α) (as : List α) :
    greedyMatch r (a :: as) [] = false := rfl

theorem greedyMatch_cons_cons (a : α) (as : List α) (b : β) (bs : List β) :
    greedyMatch r (a :: as) (b :: bs) =
      if r a b then greedyMatch r as bs else greedyMatch r (a :: as) bs := rfl

variable {r}

/-- Dropping the first element to match keeps a match. -/
theorem sublistForall₂_of_cons {R : α → β → Prop} {a : α} {as : List α} {bs : List β}
    (h : List.SublistForall₂ R (a :: as) bs) : List.SublistForall₂ R as bs := by
  obtain ⟨l, hR, hsub⟩ := List.sublistForall₂_iff.mp h
  cases hR with
  | cons _ hR' => exact List.sublistForall₂_iff.mpr ⟨_, hR', (List.sublist_cons_self _ _).trans hsub⟩

theorem sublistForall₂_of_greedyMatch {as : List α} {bs : List β}
    (h : greedyMatch r as bs = true) : List.SublistForall₂ (fun a b => r a b = true) as bs := by
  induction as, bs using greedyMatch.induct r with
  | case1 bs => exact .nil
  | case2 a as => simp at h
  | case3 a as b bs hab ih =>
    rw [greedyMatch_cons_cons, if_pos hab] at h
    exact .cons hab (ih h)
  | case4 a as b bs hab ih =>
    rw [greedyMatch_cons_cons, if_neg hab] at h
    exact .cons_right (ih h)

/-- Completeness of the greedy choice. The induction is on the list walked; where the match
skips an element `b` that `r` relates to the current `a`, the walk takes `b` and matches the
rest of the list against what the match uses after `b`. -/
theorem greedyMatch_of_sublistForall₂ {as : List α} {bs : List β}
    (h : List.SublistForall₂ (fun a b => r a b = true) as bs) : greedyMatch r as bs = true := by
  induction bs generalizing as with
  | nil =>
    cases h
    exact greedyMatch_nil r []
  | cons b bs ih =>
    cases as with
    | nil => exact greedyMatch_nil r _
    | cons a as =>
      rw [greedyMatch_cons_cons]
      cases h with
      | cons hab h => rw [if_pos hab]; exact ih h
      | cons_right h =>
        split_ifs
        · exact ih (sublistForall₂_of_cons h)
        · exact ih h

theorem greedyMatch_iff_sublistForall₂ (as : List α) (bs : List β) :
    greedyMatch r as bs = true ↔ List.SublistForall₂ (fun a b => r a b = true) as bs :=
  ⟨sublistForall₂_of_greedyMatch, greedyMatch_of_sublistForall₂⟩

/-- A list related element by element to a sublist is related to the elements at strictly
increasing indices, and back. -/
theorem exists_forall₂_sublist_iff {R : α → β → Prop} {as : List α} {bs : List β} :
    (∃ cs, List.Forall₂ R as cs ∧ cs.Sublist bs) ↔
      ∃ k : Fin as.length ↪o Fin bs.length, ∀ j, R (as.get j) (bs.get (k j)) := by
  constructor
  · rintro ⟨cs, hR, hsub⟩
    obtain ⟨f, hf⟩ := List.sublist_iff_exists_fin_orderEmbedding_get_eq.mp hsub
    have hlen : as.length = cs.length := hR.length_eq
    refine ⟨(Fin.castOrderIso hlen).toOrderEmbedding.trans f, fun j => ?_⟩
    have hj := (List.forall₂_iff_get.mp hR).2 j j.2 (hlen ▸ j.2)
    rwa [hf] at hj
  · rintro ⟨k, hk⟩
    let cs := List.ofFn fun j => bs.get (k j)
    have hlen : cs.length = as.length := List.length_ofFn
    refine ⟨cs, List.forall₂_iff_get.mpr ⟨hlen.symm, fun i h₁ h₂ => ?_⟩, ?_⟩
    · simpa [cs] using hk ⟨i, h₁⟩
    · refine List.sublist_iff_exists_fin_orderEmbedding_get_eq.mpr
        ⟨(Fin.castOrderIso hlen).toOrderEmbedding.trans k, fun ix => ?_⟩
      simp [cs, Fin.cast]

theorem greedyMatch_iff_exists_orderEmbedding (as : List α) (bs : List β) :
    greedyMatch r as bs = true ↔
      ∃ k : Fin as.length ↪o Fin bs.length, ∀ j, r (as.get j) (bs.get (k j)) = true := by
  rw [greedyMatch_iff_sublistForall₂, List.sublistForall₂_iff, exists_forall₂_sublist_iff]

end GreedyMatch
