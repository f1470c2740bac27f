import Mathlib

/-!
# Containers: hash maps, maps of sets used as indexes, and unique-key lists

A `std::unordered_map<K, V>` is a function `K → Option V`: `emplace` binds a key only when it
is free, `erase` frees it. A map of sets `K → Option (Finset I)` used as an index binds a key
to the identifiers related to it: `m[k].insert(i)` is `insertAt`, and `eraseAt` erases an
identifier and the key's entry with it once its set is empty. `Indexes m R` says that such a
map is an exact index of the relation `R`: the set of a key holds exactly what `R` relates to
it, and no key is bound to the empty set.

A container with a unique index on a key (a `boost::multi_index_container` with a
`hashed_unique` index) is a `KeyedList`: a list whose keys are pairwise distinct, a fact the
structure carries, so that insertion refuses a taken key and erasure by key removes one value.

A `std::unordered_map<K, V>` that is written through `operator[]`, which binds an absent key to
a default value first, and is then iterated is a `DefaultMap`: an association list whose first
entry for a key is its value. A write changes a sum over the entries by the new value minus the
old one, whatever the order of the iteration.

## Main definitions

* `StdMap.emplace`, `StdMap.erase`: insertion without overwriting, and removal
* `StdMap.members`, `StdMap.touch`, `StdMap.insertAt`, `StdMap.eraseAt`: the set of a key,
  `m[k]`, `m[k].insert(i)`, and erasure that drops empty sets
* `StdMap.Indexes m R`: `m` is an exact index of `R`
* `KeyedList`, `KeyedList.insert`, `KeyedList.emplace`, `KeyedList.pop`, `KeyedList.erase`,
  `KeyedList.map`, `KeyedList.find?`
* `DefaultMap`, `DefaultMap.get`, `DefaultMap.modify`: `m[k]` read and written

## Main results

* `isSome_emplace`, `emplace_of_ne`, `emplace_of_eq_none`, `erase_of_ne`: the entries that
  `emplace` and `erase` keep and make
* `Indexes.insertAt`, `Indexes.eraseAt`: the index of a relation after adding or removing a pair
* `Indexes.isSome_iff`: a key has an entry exactly when something is related to it
* `Indexes.touch_eq`: `m[k]` changes nothing at a key that something is related to
* `KeyedList.eq_of_key_eq`: two values of a keyed list with one key are one value
* `DefaultMap.get_modify`, `DefaultMap.sum_modify`: a write through `operator[]`
-/

namespace StdMap

variable {κ α ι : Type*}

/-- `m.emplace(k, v)`: binds `k` to `v` unless `k` already has an entry. -/
def emplace [DecidableEq κ] (m : κ → Option α) (k : κ) (v : α) : κ → Option α :=
  if (m k).isSome then m else Function.update m k (some v)

/-- `m.erase(k)`. -/
def erase [DecidableEq κ] (m : κ → Option α) (k : κ) : κ → Option α :=
  Function.update m k none

section Entries

variable [DecidableEq κ] {m : κ → Option α} {k k' : κ}

/-- `emplace` keeps every entry and gives `k` one. -/
theorem isSome_emplace (v : α) : (emplace m k v k').isSome = ((m k').isSome || decide (k' = k)) := by
  unfold emplace
  by_cases hk : k' = k
  · subst hk
    split <;> simp_all
  · split <;> simp [hk, Function.update_of_ne]

@[simp] theorem erase_of_ne (h : k' ≠ k) : erase m k k' = m k' := by
  rw [erase, Function.update_of_ne h]

@[simp] theorem emplace_of_ne (v : α) (h : k' ≠ k) : emplace m k v k' = m k' := by
  unfold emplace
  split
  · rfl
  · rw [Function.update_of_ne h]

/-- A free key takes the value. -/
theorem emplace_of_eq_none (v : α) (h : m k = none) : emplace m k v k = some v := by
  rw [emplace, h, Option.isSome_none, if_neg Bool.false_ne_true, Function.update_self]

end Entries

section Index

/-- The set bound to `k`, empty when `k` has no entry. -/
def members (m : κ → Option (Finset ι)) (k : κ) : Finset ι :=
  (m k).getD ∅

/-- `m` is an exact index of `R`: the set of each key holds exactly the identifiers `R`
relates to it, and no key is bound to the empty set. -/
structure Indexes (m : κ → Option (Finset ι)) (R : κ → ι → Prop) : Prop where
  mem_iff : ∀ k i, i ∈ members m k ↔ R k i
  ne_empty : ∀ k, m k ≠ some ∅

@[simp] theorem members_none (k : κ) : members (fun _ => (none : Option (Finset ι))) k = ∅ := rfl

/-- The map with no entry indexes the empty relation. -/
theorem Indexes.empty : Indexes (fun _ : κ => (none : Option (Finset ι))) (fun _ _ => False) :=
  ⟨by simp, by simp⟩

theorem Indexes.congr {m : κ → Option (Finset ι)} {R R' : κ → ι → Prop} (h : Indexes m R)
    (hR : ∀ k i, R k i ↔ R' k i) : Indexes m R' :=
  ⟨fun k i => (h.mem_iff k i).trans (hR k i), h.ne_empty⟩

/-- A key has an entry exactly when `R` relates something to it. -/
theorem Indexes.isSome_iff {m : κ → Option (Finset ι)} {R : κ → ι → Prop} (h : Indexes m R)
    (k : κ) : (m k).isSome ↔ ∃ i, R k i := by
  constructor
  · intro hs
    obtain ⟨s, hs⟩ := Option.isSome_iff_exists.mp hs
    have hne : s ≠ ∅ := fun he => h.ne_empty k (he ▸ hs)
    obtain ⟨i, hi⟩ := Finset.nonempty_iff_ne_empty.mpr hne
    exact ⟨i, (h.mem_iff k i).mp (by simpa [members, hs] using hi)⟩
  · rintro ⟨i, hi⟩
    have hmem := (h.mem_iff k i).mpr hi
    cases hk : m k with
    | none => simp [members, hk] at hmem
    | some s => rfl

theorem Indexes.eq_none_iff {m : κ → Option (Finset ι)} {R : κ → ι → Prop} (h : Indexes m R)
    (k : κ) : m k = none ↔ ∀ i, ¬R k i := by
  rw [← Option.not_isSome_iff_eq_none, h.isSome_iff, not_exists]

variable [DecidableEq κ]

/-- `m[k]`: binds `k` to the empty set when it has no entry. -/
def touch (m : κ → Option (Finset ι)) (k : κ) : κ → Option (Finset ι) :=
  Function.update m k (some (members m k))

theorem touch_of_isSome {m : κ → Option (Finset ι)} {k : κ} (h : (m k).isSome) :
    touch m k = m := by
  obtain ⟨s, hs⟩ := Option.isSome_iff_exists.mp h
  rw [touch, members, hs, Option.getD_some, ← hs, Function.update_eq_self]

/-- `m[k]` adds no entry at a key that something is related to. -/
theorem Indexes.touch_eq {m : κ → Option (Finset ι)} {R : κ → ι → Prop} (h : Indexes m R)
    {k : κ} {i : ι} (hi : R k i) : touch m k = m :=
  touch_of_isSome ((h.isSome_iff k).mpr ⟨i, hi⟩)

variable [DecidableEq ι]

/-- `m[k].insert(i)`. -/
def insertAt (m : κ → Option (Finset ι)) (k : κ) (i : ι) : κ → Option (Finset ι) :=
  Function.update m k (some (insert i (members m k)))

/-- `m[k].erase(i)`, and `m.erase(k)` when that leaves the set of `k` empty. -/
def eraseAt (m : κ → Option (Finset ι)) (k : κ) (i : ι) : κ → Option (Finset ι) :=
  Function.update m k (if (members m k).erase i = ∅ then none else some ((members m k).erase i))

theorem members_insertAt (m : κ → Option (Finset ι)) (k k' : κ) (i : ι) :
    members (insertAt m k i) k' = if k' = k then insert i (members m k) else members m k' := by
  by_cases hk : k' = k
  · subst hk
    simp [members, insertAt]
  · simp [members, insertAt, hk]

theorem members_eraseAt (m : κ → Option (Finset ι)) (k k' : κ) (i : ι) :
    members (eraseAt m k i) k' = if k' = k then (members m k).erase i else members m k' := by
  by_cases hk : k' = k
  · subst hk
    rw [if_pos rfl, eraseAt]
    -- split on the drop of the entry before unfolding `members`
    split
    · next he => simpa [members] using he.symm
    · simp [members]
  · simp [members, eraseAt, hk]

namespace Indexes

variable {m : κ → Option (Finset ι)} {R : κ → ι → Prop}

/-- Adding `i` to the set of `k` indexes the relation with the pair `(k, i)` added. -/
theorem insertAt (h : Indexes m R) (k : κ) (i : ι) :
    Indexes (StdMap.insertAt m k i) (fun k' i' => R k' i' ∨ k' = k ∧ i' = i) := by
  constructor
  · intro k' i'
    rw [members_insertAt]
    by_cases hk : k' = k
    · subst hk
      simp [h.mem_iff, or_comm]
    · simp [h.mem_iff, hk]
  · intro k'
    by_cases hk : k' = k
    · subst hk
      simp [StdMap.insertAt]
    · simpa [StdMap.insertAt, hk] using h.ne_empty k'

/-- Erasing `i` from the set of `k` indexes the relation with the pair `(k, i)` removed. -/
theorem eraseAt (h : Indexes m R) (k : κ) (i : ι) :
    Indexes (StdMap.eraseAt m k i) (fun k' i' => R k' i' ∧ ¬(k' = k ∧ i' = i)) := by
  constructor
  · intro k' i'
    rw [members_eraseAt]
    by_cases hk : k' = k
    · subst hk
      simp [h.mem_iff, and_comm]
    · simp [h.mem_iff, hk]
  · intro k'
    by_cases hk : k' = k
    · subst hk
      -- the entry is dropped exactly when it would become empty
      by_cases he : (members m k').erase i = ∅ <;> simp [StdMap.eraseAt, he]
    · simpa [StdMap.eraseAt, hk] using h.ne_empty k'

end Indexes

end Index

end StdMap

/-- A list of values with pairwise distinct keys: a container with a unique index on `key`. -/
structure KeyedList {κ : Type*} (α : Type*) (key : α → κ) where
  items : List α
  nodup : (items.map key).Nodup

namespace KeyedList

variable {α κ : Type*} {key : α → κ} [DecidableEq κ]

/-- The empty container. -/
def empty : KeyedList α key :=
  ⟨[], List.nodup_nil⟩

/-- `find(k)`: the value with key `k`. -/
def find? (l : KeyedList α key) (k : κ) : Option α :=
  l.items.find? fun a => decide (key a = k)

/-- `insert(a)`: appends `a` when its key is free, fails when it is taken. -/
def insert (l : KeyedList α key) (a : α) : Option (KeyedList α key) :=
  if h : ∃ b ∈ l.items, key b = key a then none
  else some ⟨l.items ++ [a], by
    rw [List.map_append, List.nodup_append]
    exact ⟨l.nodup, List.nodup_singleton _, by simpa using h⟩⟩

/-- `pop_back()`: removes the last value. -/
def pop (l : KeyedList α key) : KeyedList α key :=
  ⟨l.items.dropLast, l.nodup.sublist ((List.dropLast_sublist _).map key)⟩

/-- `erase(k)`: removes the value with key `k`. -/
def erase (l : KeyedList α key) (k : κ) : KeyedList α key :=
  ⟨l.items.filter fun a => decide (key a ≠ k),
    l.nodup.sublist ((List.filter_sublist (l := l.items)).map key)⟩

/-- `emplace(a)` whose refusal the caller ignores: appends `a` when its key is free and
leaves the container as it was otherwise. -/
def emplace (l : KeyedList α key) (a : α) : KeyedList α key :=
  (l.insert a).getD l

omit [DecidableEq κ] in
/-- `replace(it, f(*it))` at every value, for an `f` that keeps keys. -/
def map (l : KeyedList α key) (f : α → α) (hf : ∀ a, key (f a) = key a) : KeyedList α key :=
  ⟨l.items.map f, by rw [List.map_map, show key ∘ f = key from funext hf]; exact l.nodup⟩

omit [DecidableEq κ] in
/-- A keyed list is its values. -/
theorem ext_items {l l' : KeyedList α key} (h : l.items = l'.items) : l = l' := by
  obtain ⟨items, _⟩ := l
  obtain ⟨items', _⟩ := l'
  subst h
  rfl

omit [DecidableEq κ] in
/-- Two values of a keyed list with one key are one value. -/
theorem eq_of_key_eq (l : KeyedList α key) {a b : α} (ha : a ∈ l.items) (hb : b ∈ l.items)
    (hab : key a = key b) : a = b :=
  List.inj_on_of_nodup_map l.nodup ha hb hab

@[simp] theorem mem_erase {l : KeyedList α key} {k : κ} {a : α} :
    a ∈ (l.erase k).items ↔ a ∈ l.items ∧ key a ≠ k := by
  simp [erase]

/-- Erasing keys one after the other leaves values of the container. -/
theorem mem_of_mem_foldl_erase {β : Type*} (g : β → κ) (xs : List β) {l : KeyedList α key}
    {a : α} (h : a ∈ (xs.foldl (fun c x => c.erase (g x)) l).items) : a ∈ l.items := by
  induction xs generalizing l with
  | nil => exact h
  | cons x xs ih => exact (mem_erase.mp (ih h)).1

theorem find?_eq_some {l : KeyedList α key} {k : κ} {a : α} (h : l.find? k = some a) :
    a ∈ l.items ∧ key a = k := by
  have hk := List.find?_some h
  exact ⟨List.mem_of_find?_eq_some h, by simpa using hk⟩

theorem insert_eq_some {l l' : KeyedList α key} {a : α} (h : l.insert a = some l') :
    (∀ b ∈ l.items, key b ≠ key a) ∧ l'.items = l.items ++ [a] := by
  unfold insert at h
  split at h
  · cases h
  · next hfree =>
    cases h
    exact ⟨fun b hb hk => hfree ⟨b, hb, hk⟩, rfl⟩

/-- A value whose key is free is appended. -/
theorem insert_of_fresh {l : KeyedList α key} {a : α} (h : ∀ b ∈ l.items, key b ≠ key a) :
    ∃ l', l.insert a = some l' ∧ l'.items = l.items ++ [a] := by
  unfold insert
  rw [dif_neg fun ⟨b, hb, hk⟩ => h b hb hk]
  exact ⟨_, rfl, rfl⟩

omit [DecidableEq κ] in
@[simp] theorem pop_items (l : KeyedList α key) : l.pop.items = l.items.dropLast := rfl

/-- `emplace` appends a value of a free key and leaves the container as it was otherwise. -/
theorem emplace_items (l : KeyedList α key) (a : α) :
    (l.emplace a).items = if ∃ b ∈ l.items, key b = key a then l.items else l.items ++ [a] := by
  unfold emplace insert
  by_cases h : ∃ b ∈ l.items, key b = key a
  · rw [dif_pos h, if_pos h]
    rfl
  · rw [dif_neg h, if_neg h]
    rfl

/-- `find` of the key of a value of the container is that value. -/
theorem find?_key_of_mem (l : KeyedList α key) {a : α} (ha : a ∈ l.items) :
    l.find? (key a) = some a := by
  unfold find?
  cases h : l.items.find? fun b => decide (key b = key a) with
  | none => exact absurd ha (by simpa using List.find?_eq_none.mp h a)
  | some b =>
    have hb := List.find?_some h
    exact congrArg some (l.eq_of_key_eq (List.mem_of_find?_eq_some h) ha (by simpa using hb))

omit [DecidableEq κ] in
@[simp] theorem map_items (l : KeyedList α key) (f : α → α) (hf : ∀ a, key (f a) = key a) :
    (l.map f hf).items = l.items.map f := rfl

/-! ### Two containers whose values correspond

A container `m` whose values are the images `f a` of the values of `l`, where `f` keeps keys,
stays so when the same value is inserted into both or the same key erased from both. -/

section Image

variable {β : Type*} {key' : β → κ} {l : KeyedList α key} {m : KeyedList β key'} {f : α → β}

omit [DecidableEq κ] in
theorem exists_key_iff_of_perm_map (h : m.items.Perm (l.items.map f))
    (hf : ∀ a, key' (f a) = key a) (k : κ) :
    (∃ b ∈ m.items, key' b = k) ↔ ∃ a ∈ l.items, key a = k := by
  constructor
  · rintro ⟨b, hb, rfl⟩
    obtain ⟨a, ha, rfl⟩ := List.mem_map.mp (h.subset hb)
    exact ⟨a, ha, (hf a).symm⟩
  · rintro ⟨a, ha, rfl⟩
    exact ⟨f a, h.symm.subset (List.mem_map_of_mem ha), hf a⟩

theorem perm_map_emplace (h : m.items.Perm (l.items.map f)) (hf : ∀ a, key' (f a) = key a)
    (a : α) : (m.emplace (f a)).items.Perm ((l.emplace a).items.map f) := by
  rw [emplace_items, emplace_items, hf a]
  by_cases hfree : ∃ b ∈ l.items, key b = key a
  · rw [if_pos ((exists_key_iff_of_perm_map h hf _).mpr hfree), if_pos hfree]
    exact h
  · rw [if_neg (mt (exists_key_iff_of_perm_map h hf _).mp hfree), if_neg hfree, List.map_append]
    exact h.append_right [f a]

theorem perm_map_erase (h : m.items.Perm (l.items.map f)) (hf : ∀ a, key' (f a) = key a)
    (k : κ) : (m.erase k).items.Perm ((l.erase k).items.map f) := by
  have hfilter := h.filter fun b => decide (key' b ≠ k)
  rw [List.filter_map] at hfilter
  simpa [erase, Function.comp_def, hf] using hfilter

end Image

end KeyedList

/-- A `std::unordered_map` written through `operator[]` and iterated: an association list, the
first entry of a key holding its value. -/
abbrev DefaultMap (κ β : Type*) := List (κ × β)

namespace DefaultMap

variable {κ β : Type*} [DecidableEq κ] [Inhabited β]

/-- `m[k]` read: the value of `k`, the default when `k` has no entry. -/
def get : DefaultMap κ β → κ → β
  | [], _ => default
  | (k', v) :: m, k => if k' = k then v else get m k

/-- `m[k]` written through `f`: the entry of `k` holds `f` of its value, a new entry at the end
when `k` had none. -/
def modify : DefaultMap κ β → κ → (β → β) → DefaultMap κ β
  | [], k, f => [(k, f default)]
  | (k', v) :: m, k, f => if k' = k then (k', f v) :: m else (k', v) :: modify m k f

theorem get_modify (m : DefaultMap κ β) (k k' : κ) (f : β → β) :
    (m.modify k f).get k' = if k' = k then f (m.get k) else m.get k' := by
  induction m with
  | nil =>
    by_cases h : k' = k
    · simp [modify, get, h]
    · simp [modify, get, Ne.symm h, h]
  | cons entry m ih =>
    obtain ⟨k'', v⟩ := entry
    by_cases hk : k'' = k
    · subst hk
      by_cases h : k' = k''
      · simp [modify, get, h]
      · simp [modify, get, Ne.symm h, h]
    · by_cases h : k'' = k'
      · subst h
        simp [modify, get, hk]
      · simp [modify, get, hk, h, ih]

/-- A write moves a sum over the entries by the new value minus the old one. -/
theorem sum_modify (m : DefaultMap κ β) (k : κ) (f : β → β) {g : β → ℤ} (hg : g default = 0) :
    ((m.modify k f).map fun e => g e.2).sum =
      (m.map fun e => g e.2).sum + (g (f (m.get k)) - g (m.get k)) := by
  induction m with
  | nil => simp [modify, get, hg]
  | cons entry m ih =>
    obtain ⟨k', v⟩ := entry
    by_cases hk : k' = k
    · simp only [modify, get, hk, if_true, List.map_cons, List.sum_cons]
      omega
    · simp only [modify, get, hk, if_false, List.map_cons, List.sum_cons, ih]
      omega

end DefaultMap

namespace List

/-- A `mapM` in `Except` whose function succeeds at every element returns the mapped list. -/
theorem mapM_eq_ok_map {ε α β : Type*} {g : α → Except ε β} {g' : α → β} :
    ∀ {l : List α}, (∀ x ∈ l, g x = .ok (g' x)) → l.mapM g = .ok (l.map g')
  | [], _ => rfl
  | x :: xs, h => by
    simp only [List.mapM_cons, h x List.mem_cons_self,
      mapM_eq_ok_map fun y hy => h y (List.mem_cons_of_mem x hy), List.map_cons]
    rfl

/-- A `mapM` in `Except` over a permutation of the images `f x` of a list, whose function gives
`g' x` at each `f x`, returns a permutation of the values `g' x`. -/
theorem Perm.mapM_eq_ok {ε α β γ : Type*} {J : List γ} {X : List α} {f : α → γ}
    {g : γ → Except ε β} {g' : α → β} (hJ : J.Perm (X.map f))
    (hg : ∀ x ∈ X, g (f x) = .ok (g' x)) : ∃ L, J.mapM g = .ok L ∧ L.Perm (X.map g') := by
  by_cases hα : Nonempty α
  swap
  · -- no values, so both lists are empty
    have hX : X = [] := List.eq_nil_iff_forall_not_mem.mpr fun x _ => hα ⟨x⟩
    rw [hX, List.map_nil] at hJ
    rw [hJ.eq_nil, hX]
    exact ⟨[], rfl, List.Perm.nil⟩
  -- each element of `J` is the image of some element of `X`; read `g'` there
  have hpreimage : ∀ j ∈ J, ∃ x ∈ X, f x = j := fun j hj => List.mem_map.mp (hJ.subset hj)
  choose! pick hpick using hpreimage
  refine ⟨J.map (g' ∘ pick), mapM_eq_ok_map fun j hj => ?_, ?_⟩
  · calc g j = g (f (pick j)) := by rw [(hpick j hj).2]
      _ = .ok (g' (pick j)) := hg _ (hpick j hj).1
  · refine (hJ.map _).trans (List.Perm.of_eq ?_)
    rw [List.map_map]
    refine List.map_congr_left fun x hx => ?_
    -- `pick (f x)` and `x` have one image, so `g` gives one value at both
    have hx' := hpick (f x) (hJ.symm.subset (List.mem_map_of_mem hx))
    have hvalue := hg _ hx'.1
    rw [hx'.2, hg x hx] at hvalue
    exact (Except.ok.inj hvalue).symm

end List
