import Mathlib

/-!
# Containers with a unique key index and an ordered rank index

A `boost::multi_index_container` with an `ordered_unique` index on a key and an
`ordered_non_unique` index on a rank is a `RankedList`: its elements in the order of the rank
index. The structure carries the two facts the indexes keep: the keys are pairwise distinct,
and the ranks never decrease along the list.

An element is linked into the rank index after every element of no greater rank (boost's link
point for a non-unique index), so `insert` puts a new element last among its equals, and
refuses an element whose key is taken. `replace` keeps the element's place when the new rank
still lies between the ranks of its neighbours, and unlinks and links it again otherwise (the
`in_place` test of an ordered index). `eraseFirst` erases the element at the front of the rank
index, `erase` the element with a key.

## Main definitions

* `insertRanked`: the link point of a non-unique ordered index
* `RankedList`, `RankedList.find?`, `RankedList.insert`, `RankedList.replace`,
  `RankedList.erase`, `RankedList.eraseFirst`

## Main results

* `perm_insertRanked`, `pairwise_insertRanked`: linking adds the element and keeps the order
* `RankedList.mem_insert`, `RankedList.mem_replace`, `RankedList.mem_erase`,
  `RankedList.mem_eraseFirst`: the elements each operation leaves
* `RankedList.length_insert_le`, `RankedList.length_replace`: what they do to the size
-/

namespace List

variable {α β : Type*} [LinearOrder β] (rank : α → β)

/-- The link point of an ordered non-unique index: `a` goes after every element of rank at most
its own, before the first of greater rank. -/
def insertRanked (a : α) : List α → List α
  | [] => [a]
  | b :: l => if rank a < rank b then a :: b :: l else b :: insertRanked a l

variable {rank}

theorem perm_insertRanked (a : α) : ∀ l : List α, (insertRanked rank a l).Perm (a :: l)
  | [] => List.Perm.refl _
  | b :: l => by
    unfold insertRanked
    split
    · exact List.Perm.refl _
    · exact ((perm_insertRanked a l).cons b).trans (List.Perm.swap a b l)

theorem pairwise_insertRanked (a : α) :
    ∀ {l : List α}, l.Pairwise (fun x y => rank x ≤ rank y) →
      (insertRanked rank a l).Pairwise fun x y => rank x ≤ rank y
  | [], _ => List.pairwise_singleton _ a
  | b :: l, h => by
    rw [List.pairwise_cons] at h
    unfold insertRanked
    split
    · -- `a` goes first: it is below `b`, hence below everything after `b`
      next hlt =>
      refine List.Pairwise.cons (fun x hx => ?_) (List.Pairwise.cons h.1 h.2)
      rcases List.mem_cons.mp hx with rfl | hx
      · exact le_of_lt hlt
      · exact le_trans (le_of_lt hlt) (h.1 x hx)
    · -- `b` stays first: it is below `a` and below the rest
      next hge =>
      refine List.Pairwise.cons (fun x hx => ?_) (pairwise_insertRanked a h.2)
      rcases List.mem_cons.mp ((perm_insertRanked a l).subset hx) with rfl | hx
      · exact le_of_not_gt hge
      · exact h.1 x hx

/-- In a list of nondecreasing ranks every element is at most the last one. -/
theorem rank_le_of_getLast? {l : List α} (h : l.Pairwise fun x y => rank x ≤ rank y) {x z : α}
    (hx : x ∈ l) (hz : l.getLast? = some z) : rank x ≤ rank z := by
  obtain ⟨l', rfl⟩ := List.getLast?_eq_some_iff.mp hz
  rcases List.mem_append.mp hx with hx | hx
  · exact (List.pairwise_append.mp h).2.2 x hx z List.mem_cons_self
  · rw [List.mem_singleton.mp hx]

/-- In a list of nondecreasing ranks the first element is at most every one. -/
theorem rank_le_of_head? {l : List α} (h : l.Pairwise fun x y => rank x ≤ rank y) {x z : α}
    (hx : x ∈ l) (hz : l.head? = some z) : rank z ≤ rank x := by
  obtain ⟨l', rfl⟩ := List.head?_eq_some_iff.mp hz
  rcases List.mem_cons.mp hx with rfl | hx
  · exact le_refl _
  · exact (List.pairwise_cons.mp h).1 x hx

end List

/-- A container with a unique index on `key` and an ordered non-unique index on `rank`: its
elements in the order of the rank index. -/
structure RankedList {κ β : Type*} [LinearOrder β] (α : Type*) (key : α → κ) (rank : α → β) where
  items : List α
  nodup : (items.map key).Nodup
  sorted : items.Pairwise fun a b => rank a ≤ rank b

namespace RankedList

variable {α κ β : Type*} [DecidableEq κ] [LinearOrder β] {key : α → κ} {rank : α → β}

/-- The empty container. -/
def empty : RankedList α key rank :=
  ⟨[], List.nodup_nil, List.Pairwise.nil⟩

/-- `get<by_key>().find(k)`: the element with key `k`. -/
def find? (l : RankedList α key rank) (k : κ) : Option α :=
  l.items.find? fun a => decide (key a = k)

/-- `insert(a)`: links `a` into the rank index when its key is free; a taken key leaves the
container as it is. -/
def insert (l : RankedList α key rank) (a : α) : RankedList α key rank :=
  if h : ∃ b ∈ l.items, key b = key a then l
  else ⟨l.items.insertRanked rank a,
    ((List.perm_insertRanked a l.items).map key).nodup_iff.mpr
      (List.nodup_cons.mpr ⟨by simpa using h, l.nodup⟩),
    List.pairwise_insertRanked a l.sorted⟩

section Replace

variable (key rank)

/-- The elements after `replace(it, a)`, for the iterator `it` at the element with the key of
`a`: the element stays in place when `a`'s rank lies between those of its neighbours, and is
unlinked and linked again otherwise. -/
def replaceItems (a : α) (items : List α) : List α :=
  match items.findIdx? fun b => decide (key b = key a) with
  | none => items
  | some i =>
    if ((items.take i).getLast?.all fun b => decide (rank b ≤ rank a)) &&
        (items.drop (i + 1)).head?.all fun b => decide (rank a ≤ rank b) then
      items.take i ++ a :: items.drop (i + 1)
    else (items.take i ++ items.drop (i + 1)).insertRanked rank a

/-- The shape of a replacement: the list splits at the element with the key of `a`. -/
theorem replaceItems_of_findIdx? {a : α} {items : List α} {i : ℕ}
    (h : items.findIdx? (fun b => decide (key b = key a)) = some i) :
    ∃ pre old post, items = pre ++ old :: post ∧ key old = key a ∧
      replaceItems key rank a items =
        if (pre.getLast?.all fun b => decide (rank b ≤ rank a)) &&
            post.head?.all fun b => decide (rank a ≤ rank b) then pre ++ a :: post
        else (pre ++ post).insertRanked rank a := by
  obtain ⟨hi, hkey, -⟩ := List.findIdx?_eq_some_iff_getElem.mp h
  refine ⟨items.take i, items[i], items.drop (i + 1), ?_, of_decide_eq_true hkey, ?_⟩
  · rw [List.getElem_cons_drop, List.take_append_drop]
  · rw [replaceItems, h]

theorem replaceItems_of_findIdx?_eq_none {a : α} {items : List α}
    (h : items.findIdx? (fun b => decide (key b = key a)) = none) :
    replaceItems key rank a items = items := by
  rw [replaceItems, h]

variable {key rank}

/-- The new element in place of the old one keeps the keys distinct and the ranks in order
when its rank lies between those of the neighbours. -/
theorem pairwise_replace_in_place {pre post : List α} {old a : α}
    (h : (pre ++ old :: post).Pairwise fun x y => rank x ≤ rank y)
    (hleft : pre.getLast?.all fun b => decide (rank b ≤ rank a))
    (hright : post.head?.all fun b => decide (rank a ≤ rank b)) :
    (pre ++ a :: post).Pairwise fun x y => rank x ≤ rank y := by
  obtain ⟨hpre, hold, hcross⟩ := List.pairwise_append.mp h
  have hpost := (List.pairwise_cons.mp hold).2
  refine List.pairwise_append.mpr ⟨hpre, List.Pairwise.cons (fun y hy => ?_) hpost, ?_⟩
  · -- `a` is below the first of `post`, hence below all of it
    cases hz : post.head? with
    | none => simp [List.head?_eq_none_iff.mp hz] at hy
    | some z =>
      rw [hz, Option.all_some, decide_eq_true_eq] at hright
      exact le_trans hright (List.rank_le_of_head? hpost hy hz)
  · intro x hx y hy
    rcases List.mem_cons.mp hy with rfl | hy
    · -- every element of `pre` is below its last, which is below `a`
      cases hz : pre.getLast? with
      | none => simp [List.getLast?_eq_none_iff.mp hz] at hx
      | some z =>
        rw [hz, Option.all_some, decide_eq_true_eq] at hleft
        exact le_trans (List.rank_le_of_getLast? hpre hx hz) hleft
    · exact hcross x hx y (List.mem_cons_of_mem _ hy)

theorem nodup_replaceItems {a : α} {items : List α} (h : (items.map key).Nodup) :
    ((replaceItems key rank a items).map key).Nodup := by
  cases hidx : items.findIdx? (fun b => decide (key b = key a)) with
  | none => rwa [replaceItems_of_findIdx?_eq_none key rank hidx]
  | some i =>
    obtain ⟨pre, old, post, rfl, hkey, hreplace⟩ := replaceItems_of_findIdx? key rank hidx
    rw [hreplace]
    split
    · simpa [hkey] using h
    · -- the relinked element takes the key it replaces
      refine ((List.perm_insertRanked a _).map key).nodup_iff.mpr ?_
      refine (List.perm_middle.map key).nodup_iff.mp ?_
      simpa [hkey] using h

theorem pairwise_replaceItems {a : α} {items : List α}
    (h : items.Pairwise fun x y => rank x ≤ rank y) :
    (replaceItems key rank a items).Pairwise fun x y => rank x ≤ rank y := by
  cases hidx : items.findIdx? (fun b => decide (key b = key a)) with
  | none => rwa [replaceItems_of_findIdx?_eq_none key rank hidx]
  | some i =>
    obtain ⟨pre, old, post, rfl, -, hreplace⟩ := replaceItems_of_findIdx? key rank hidx
    rw [hreplace]
    split
    · next hfits =>
      rw [Bool.and_eq_true] at hfits
      exact pairwise_replace_in_place h hfits.1 hfits.2
    · exact List.pairwise_insertRanked a (h.sublist ((List.sublist_cons_self old post).append_left pre))

theorem mem_replaceItems {a b : α} {items : List α} (h : b ∈ replaceItems key rank a items) :
    b = a ∨ b ∈ items := by
  cases hidx : items.findIdx? (fun b => decide (key b = key a)) with
  | none => exact Or.inr (replaceItems_of_findIdx?_eq_none key rank hidx ▸ h)
  | some i =>
    obtain ⟨pre, old, post, rfl, -, hreplace⟩ := replaceItems_of_findIdx? key rank hidx
    rw [hreplace] at h
    -- either way the elements are `a` and those of `pre` and `post`
    have hmem : b = a ∨ b ∈ pre ++ post := by
      split at h
      · rcases List.mem_append.mp h with h | h
        · exact Or.inr (List.mem_append_left _ h)
        · rcases List.mem_cons.mp h with h | h
          · exact Or.inl h
          · exact Or.inr (List.mem_append_right _ h)
      · exact List.mem_cons.mp ((List.perm_insertRanked a _).subset h)
    rcases hmem with h | h
    · exact Or.inl h
    · rcases List.mem_append.mp h with h | h
      · exact Or.inr (List.mem_append_left _ h)
      · exact Or.inr (List.mem_append_right _ (List.mem_cons_of_mem _ h))

theorem length_replaceItems (a : α) (items : List α) :
    (replaceItems key rank a items).length = items.length := by
  cases hidx : items.findIdx? (fun b => decide (key b = key a)) with
  | none => rw [replaceItems_of_findIdx?_eq_none key rank hidx]
  | some i =>
    obtain ⟨pre, old, post, rfl, -, hreplace⟩ := replaceItems_of_findIdx? key rank hidx
    rw [hreplace]
    split
    · simp
    · rw [(List.perm_insertRanked a _).length_eq, List.length_cons, List.length_append,
        List.length_append, List.length_cons]
      omega

end Replace

/-- `replace(it, a)` for the iterator `it` at the element with the key of `a`. -/
def replace (l : RankedList α key rank) (a : α) : RankedList α key rank :=
  ⟨replaceItems key rank a l.items, nodup_replaceItems l.nodup, pairwise_replaceItems l.sorted⟩

/-- `erase(it)` for the iterator `it` at the element with key `k`. -/
def erase (l : RankedList α key rank) (k : κ) : RankedList α key rank :=
  ⟨l.items.filter fun a => decide (key a ≠ k),
    l.nodup.sublist ((List.filter_sublist (l := l.items)).map key),
    l.sorted.sublist List.filter_sublist⟩

/-- `get<by_rank>().erase(begin())`: erases the element at the front of the rank index. -/
def eraseFirst (l : RankedList α key rank) : RankedList α key rank :=
  ⟨l.items.tail, l.nodup.sublist ((List.tail_sublist l.items).map key),
    l.sorted.sublist (List.tail_sublist l.items)⟩

theorem isSome_find? {l : RankedList α key rank} {k : κ} :
    (l.find? k).isSome ↔ ∃ b ∈ l.items, key b = k := by
  simp [find?]

theorem mem_insert {l : RankedList α key rank} {a b : α} (h : b ∈ (l.insert a).items) :
    b = a ∨ b ∈ l.items := by
  unfold insert at h
  split at h
  · exact Or.inr h
  · exact List.mem_cons.mp ((List.perm_insertRanked a _).subset h)

theorem length_insert_le (l : RankedList α key rank) (a : α) :
    (l.insert a).items.length ≤ l.items.length + 1 := by
  unfold insert
  split
  · exact Nat.le_succ _
  · exact Nat.le_of_eq (List.perm_insertRanked a _).length_eq

theorem mem_replace {l : RankedList α key rank} {a b : α} (h : b ∈ (l.replace a).items) :
    b = a ∨ b ∈ l.items :=
  mem_replaceItems h

@[simp] theorem length_replace (l : RankedList α key rank) (a : α) :
    (l.replace a).items.length = l.items.length :=
  length_replaceItems a l.items

@[simp] theorem mem_erase {l : RankedList α key rank} {k : κ} {b : α} :
    b ∈ (l.erase k).items ↔ b ∈ l.items ∧ key b ≠ k := by
  simp [erase]

theorem length_erase_le (l : RankedList α key rank) (k : κ) :
    (l.erase k).items.length ≤ l.items.length :=
  List.length_filter_le _ _

omit [DecidableEq κ] in
theorem mem_eraseFirst {l : RankedList α key rank} {b : α} (h : b ∈ l.eraseFirst.items) :
    b ∈ l.items :=
  List.mem_of_mem_tail h

omit [DecidableEq κ] in
@[simp] theorem length_eraseFirst (l : RankedList α key rank) :
    l.eraseFirst.items.length = l.items.length - 1 :=
  List.length_tail

end RankedList
