import Mathlib.Algebra.BigOperators.Group.List.Basic

/-!
# Sparse running sums

A list `xs` over an additive monoid is stored by the entries `(i, xs₀ + ⋯ + xsᵢ)` of its
non-zero positions `i`, in increasing position: the running sum at a position is held by the
last entry at or before it, and the positions that add nothing take no entry. An index of
that shape answers a prefix-sum query by a search for the last entry at or before the
position, and forgets a suffix by cutting its entries at the first position that goes.

## Main definitions

* `RunningSum.encodeFrom`, `RunningSum.encode`: the entries of a list
* `RunningSum.lastSum`: the running sum an entry list ends with

## Main results

* `encodeFrom_append`: the entries of a concatenation
* `takeWhile_encode`: the entries at positions below `n` are those of the first `n` values
* `lastSum_encode`: the last entry holds the sum of the whole list
* `encode_take_succ`: the entries of one more value
-/

namespace RunningSum

variable {M : Type*} [AddCommMonoid M] [DecidableEq M]

/-- The entries of `xs` when its first value sits at position `start` and `acc` is the sum
of the values before it. -/
def encodeFrom (start : ℕ) (acc : M) : List M → List (ℕ × M)
  | [] => []
  | x :: xs => (if x = 0 then [] else [(start, acc + x)]) ++ encodeFrom (start + 1) (acc + x) xs

/-- The entries of `xs`, positions counted from zero. -/
def encode (xs : List M) : List (ℕ × M) :=
  encodeFrom 0 0 xs

/-- The running sum an entry list ends with: that of its last entry, `init` when it has none. -/
def lastSum (init : M) (es : List (ℕ × M)) : M :=
  (es.getLast?.map Prod.snd).getD init

@[simp] theorem encodeFrom_nil (start : ℕ) (acc : M) : encodeFrom start acc [] = [] := rfl

theorem encodeFrom_cons (start : ℕ) (acc x : M) (xs : List M) :
    encodeFrom start acc (x :: xs) =
      (if x = 0 then [] else [(start, acc + x)]) ++ encodeFrom (start + 1) (acc + x) xs := rfl

@[simp] theorem encode_nil : encode ([] : List M) = [] := rfl

theorem encodeFrom_append (start : ℕ) (acc : M) (xs ys : List M) :
    encodeFrom start acc (xs ++ ys) =
      encodeFrom start acc xs ++ encodeFrom (start + xs.length) (acc + xs.sum) ys := by
  induction xs generalizing start acc with
  | nil => simp
  | cons x xs ih =>
    rw [List.cons_append, encodeFrom_cons, encodeFrom_cons, ih, List.append_assoc,
      List.length_cons, List.sum_cons, add_assoc acc x, Nat.add_assoc, Nat.add_comm 1 xs.length]

theorem encodeFrom_singleton (start : ℕ) (acc x : M) :
    encodeFrom start acc [x] = if x = 0 then [] else [(start, acc + x)] := by
  simp [encodeFrom_cons]

/-- Appending one value adds its entry, at position `xs.length`, when it is non-zero. -/
theorem encode_append_singleton (xs : List M) (x : M) :
    encode (xs ++ [x]) = encode xs ++ if x = 0 then [] else [(xs.length, xs.sum + x)] := by
  rw [encode, encodeFrom_append, encodeFrom_singleton, zero_add, zero_add, encode]

/-- Every entry of `encodeFrom start acc xs` has a position in `[start, start + xs.length)`. -/
theorem key_mem_encodeFrom {start : ℕ} {acc : M} {xs : List M} {e : ℕ × M}
    (he : e ∈ encodeFrom start acc xs) : start ≤ e.1 ∧ e.1 < start + xs.length := by
  induction xs generalizing start acc with
  | nil => simp at he
  | cons x xs ih =>
    rw [encodeFrom_cons, List.mem_append] at he
    rcases he with he | he
    · split at he
      · simp at he
      · rw [List.mem_singleton] at he
        subst he
        simp
    · have := ih he
      simp only [List.length_cons]
      omega

/-! ## The last entry -/

omit [AddCommMonoid M] [DecidableEq M] in
theorem lastSum_append (init : M) (es fs : List (ℕ × M)) :
    lastSum init (es ++ fs) = lastSum (lastSum init es) fs := by
  unfold lastSum
  rw [List.getLast?_append]
  cases fs.getLast? <;> simp

/-- The entry of one value leaves the running sum at `acc + x`, whether it is stored or not. -/
theorem lastSum_single (start : ℕ) (acc x : M) :
    lastSum acc (if x = 0 then [] else [(start, acc + x)]) = acc + x := by
  split
  · simp [lastSum, *]
  · simp [lastSum]

theorem lastSum_encodeFrom (start : ℕ) (acc : M) (xs : List M) :
    lastSum acc (encodeFrom start acc xs) = acc + xs.sum := by
  induction xs generalizing start acc with
  | nil => simp [lastSum]
  | cons x xs ih =>
    rw [encodeFrom_cons, lastSum_append, lastSum_single, ih, List.sum_cons, add_assoc]

/-- **The last entry holds the total**: the running sum of `encode xs` is `xs.sum`. -/
theorem lastSum_encode (xs : List M) : lastSum 0 (encode xs) = xs.sum := by
  rw [encode, lastSum_encodeFrom, zero_add]

/-! ## Cutting at a position -/

theorem takeWhile_eq_nil_of_forall {α : Type*} {p : α → Bool} {l : List α}
    (h : ∀ a ∈ l, p a = false) : l.takeWhile p = [] := by
  cases l with
  | nil => rfl
  | cons a l => simp [h a (by simp)]

/-- The entries of the first `n` values are a prefix of the entries of `xs`. -/
theorem encode_eq_take_append (xs : List M) (n : ℕ) :
    encode xs = encode (xs.take n) ++
      encodeFrom (xs.take n).length (xs.take n).sum (xs.drop n) := by
  conv_lhs => rw [← List.take_append_drop n xs]
  rw [encode, encodeFrom_append, zero_add, zero_add, encode]

/-- **The entries below a position**: those of `encode xs` at positions below `n` are the
entries of the first `n` values. The test only has to decide the position on the entries
themselves, as a comparison of positions in a narrower type does. -/
theorem takeWhile_encode (xs : List M) (n : ℕ) {p : ℕ × M → Bool}
    (hp : ∀ e ∈ encode xs, p e = decide (e.1 < n)) :
    (encode xs).takeWhile p = encode (xs.take n) := by
  have hsplit := encode_eq_take_append xs n
  rw [hsplit, List.takeWhile_append_of_pos, takeWhile_eq_nil_of_forall, List.append_nil]
  · intro e he
    have hkey := (key_mem_encodeFrom he).1
    have hlen : (xs.drop n).length ≠ 0 := by
      intro h0
      rw [List.length_eq_zero_iff.mp h0] at he
      simp at he
    have : (xs.take n).length = n := by
      simp only [List.length_take, List.length_drop] at hlen ⊢
      omega
    rw [hp e (hsplit ▸ List.mem_append_right _ he), decide_eq_false_iff_not]
    omega
  · intro e he
    have := (key_mem_encodeFrom he).2
    simp only [List.length_take, zero_add] at this
    rw [hp e (hsplit ▸ List.mem_append_left _ he), decide_eq_true_eq]
    omega

/-- The entries of one more value: the entry of `xs[n]`, when it exists and is non-zero. -/
theorem encode_take_succ (xs : List M) (n : ℕ) :
    encode (xs.take (n + 1)) =
      encode (xs.take n) ++
        match xs[n]? with
        | some x => if x = 0 then [] else [(n, (xs.take n).sum + x)]
        | none => [] := by
  cases h : xs[n]? with
  | none =>
    rw [List.getElem?_eq_none_iff] at h
    rw [List.take_of_length_le h, List.take_of_length_le (by omega), List.append_nil]
  | some x =>
    have hn : n < xs.length := (List.getElem?_eq_some_iff.mp h).1
    rw [List.take_add_one, h, Option.toList_some, encode_append_singleton,
      List.length_take_of_le (Nat.le_of_lt hn)]

/-- Every entry of `encode xs` has a position below `xs.length`. -/
theorem key_lt_of_mem_encode {xs : List M} {e : ℕ × M} (he : e ∈ encode xs) :
    e.1 < xs.length := by
  simpa using (key_mem_encodeFrom he).2

end RunningSum
