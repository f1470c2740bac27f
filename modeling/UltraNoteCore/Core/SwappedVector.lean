import Mathlib
import UltraNoteCore.Prelude.ByteFile
import UltraNoteCore.Prelude.Containers
import UltraNoteCore.Basic.Bytes
import UltraNoteCore.Common.StreamTools

/-!
# The swapped vector of the block store

`SwappedVector<T>` is the node's block store (`Blockchain::m_blocks`): a vector whose items live
in a file, with a bounded cache of the items read or written last. The items file holds the
serialized items end to end; the index file holds their count as a `uint64_t`, then the size of
each as a `uint32_t`. `open` rebuilds the offsets of the items from the sizes. `push_back`
writes the item at the logical end of the items file and its size after the others;
`pop_back` and `clear` only rewrite the count, so the stale bytes behind the logical end are
overwritten by the next `push_back`. The cache is a `std::map` from indexes to items
(`m_items`) and a `std::list` of the indexes in order of use (`m_cache`), each entry linked to
the other by an iterator; `prepare` evicts the least recently used item when the pool is full.

The files are their contents (`ByteFile`), and the integers the index file holds are their
little-endian bytes, as `reinterpret_cast` writes them on the node's platforms. The iterators
linking the two cache containers are the indexes they lead to: an item's cache entry is the one
holding its index. `T` and its `serialize` are parameters: a writer `enc` for the
`BinaryOutputStreamSerializer` and a reader `dec` for the `BinaryInputStreamSerializer`. The
checks `if (!m_itemsFile)` of a stream that failed are left out: the files are read and
written without I/O errors. The hit and miss counters feed only the statistics `close` prints.

The proof layer states what the store is for: it holds a list. `Stores v L` says that the
files, the offsets and the cache of `v` hold the list `L`: the items file starts with the
encodings of the items, the index file with their count and sizes, the offsets are where the
encodings start, and every cached item is the item of its index. Every call keeps that relation
with the list operation it implements, and a restart (a new object opened on the files the old
one left) finds the same list with an empty cache, whatever its pool size.

## Main definitions

* `SwappedVector`, `SwappedVector.get` (`operator[]`), `push_back`, `pop_back`, `clear`,
  `prepare` with its eviction `evictIfFull`, `SwappedVector.open`
* `SwappedVector.Call`, `SwappedVector.runCalls`: runs of calls, with restarts
* `SwappedVector.Stores`: the vector holds a list
* `SwappedVector.Call.runList`: the same calls on the list

## Main results

* `SwappedVector.Stores.get_of_lt`, `.get_of_le`, `.push_back`, `.pop_back`, `.clear`,
  `.reopen`: each call against the list operation
* `SwappedVector.runCalls_stores`: every admissible run of calls implements the list
* `SwappedVector.open_runCalls_stores`: the same from an `open` on a folder without files
-/

namespace UltraNoteCore

/-- `SwappedVector<T>` after a successful `open`: the contents of the two files, the pool size,
the offsets of the items, the logical size of the items file, and the cache. -/
structure SwappedVector (T : Type) where
  m_itemsFile : List UInt8
  m_indexesFile : List UInt8
  m_poolSize : ℕ
  m_offsets : List UInt64
  m_itemsFileSize : UInt64
  m_items : KeyedList (UInt64 × T) Prod.fst
  m_cache : List UInt64

namespace SwappedVector

variable {T : Type}

/-! ## The calls -/

section Model

variable (enc : T → Except String (List UInt8)) (dec : common.Reader T)

/-- `size()`. -/
def size (v : SwappedVector T) : UInt64 := UInt64.ofNat v.m_offsets.length

/-- `empty()`. -/
def empty (v : SwappedVector T) : Bool := v.m_offsets.isEmpty

/-- The first step of `prepare`: when the pool is full, the item at the front of `m_cache`, the
least recently used one, goes. -/
def evictIfFull (v : SwappedVector T) : SwappedVector T :=
  if v.m_items.items.length = v.m_poolSize then
    match v.m_cache with
    -- `m_cache.begin()` of an empty list: only with a pool of size zero, which `open` refuses
    | [] => v
    | front :: rest => { v with m_items := v.m_items.erase front, m_cache := rest }
  else v

/-- `prepare(index)` with the write through the pointer it returns: after the eviction, `item`
is bound to `index` and its entry put at the back of `m_cache`. -/
def prepare (v : SwappedVector T) (index : UInt64) (item : T) : SwappedVector T :=
  let v := v.evictIfFull
  -- `insert` keeps an entry already at `index`, and the write through the pointer overwrites it
  let items := if (v.m_items.find? index).isSome then
      v.m_items.map (fun entry => if entry.1 = index then (index, item) else entry)
        fun entry => by split <;> simp_all
    else v.m_items.emplace (index, item)
  { v with m_items := items, m_cache := v.m_cache ++ [index] }

/-- `operator[](index)`: a cached item, whose cache entry moves to the back unless it is there
already; otherwise the item read from its offset in the items file, put in the cache. An index
past the end throws. -/
def get (v : SwappedVector T) (index : UInt64) : Except String (T × SwappedVector T) :=
  match v.m_items.find? index with
  | some itemEntry =>
    let cache := if v.m_cache.getLast? ≠ some index then v.m_cache.erase index ++ [index]
      else v.m_cache
    .ok (itemEntry.2, { v with m_cache := cache })
  | none =>
    if v.m_offsets.length ≤ index.toNat then .error "SwappedVector::operator[]"
    else
      match dec.run (v.m_itemsFile.drop (v.m_offsets.getD index.toNat 0).toNat) with
      | .ok (tempItem, _) => .ok (tempItem, v.prepare index tempItem)
      | .error e => .error e

/-- `front()`. -/
def front (v : SwappedVector T) : Except String (T × SwappedVector T) := v.get dec 0

/-- `back()`: `operator[](m_offsets.size() - 1)`, which wraps on an empty vector. -/
def back (v : SwappedVector T) : Except String (T × SwappedVector T) := v.get dec (v.size - 1)

/-- `push_back(item)`: the item written at the logical end of the items file, its size after
the others in the index file, then the count; the item goes to the cache. A `serialize` that
throws leaves the vector as it was. -/
def push_back (v : SwappedVector T) (item : T) : Except String (SwappedVector T) := do
  let bytes ← enc item
  -- `tellp()` after the write
  let itemsFileSize : UInt64 := UInt64.ofNat (v.m_itemsFileSize.toNat + bytes.length)
  let itemSize : UInt32 := (itemsFileSize - v.m_itemsFileSize).toUInt32
  let indexesFile := ByteFile.write 0 v.m_indexesFile (8 + 4 * v.m_offsets.length)
    (bytesOfNat 4 itemSize.toNat)
  let count : UInt64 := UInt64.ofNat v.m_offsets.length + 1
  let v := { v with
    m_itemsFile := ByteFile.write 0 v.m_itemsFile v.m_itemsFileSize.toNat bytes
    m_indexesFile := ByteFile.write 0 indexesFile 0 (bytesOfNat 8 count.toNat)
    m_offsets := v.m_offsets ++ [v.m_itemsFileSize]
    m_itemsFileSize := itemsFileSize }
  pure (v.prepare (UInt64.ofNat v.m_offsets.length - 1) item)

/-- `pop_back()`: the count rewritten, the logical end moved back to the last offset, and the
last item dropped from the cache. On an empty vector `m_offsets.back()` is undefined: `none`. -/
def pop_back (v : SwappedVector T) : Option (SwappedVector T) :=
  match v.m_offsets.getLast? with
  | none => none
  | some back =>
    let count : UInt64 := UInt64.ofNat v.m_offsets.length - 1
    let offsets := v.m_offsets.dropLast
    let index : UInt64 := UInt64.ofNat offsets.length
    let v := { v with
      m_indexesFile := ByteFile.write 0 v.m_indexesFile 0 (bytesOfNat 8 count.toNat)
      m_itemsFileSize := back
      m_offsets := offsets }
    match v.m_items.find? index with
    | some _ => some { v with m_items := v.m_items.erase index, m_cache := v.m_cache.erase index }
    | none => some v

/-- `clear()`: a count of zero, and nothing cached. -/
def clear (v : SwappedVector T) : SwappedVector T :=
  { v with
    m_indexesFile := ByteFile.write 0 v.m_indexesFile 0 (bytesOfNat 8 0)
    m_offsets := []
    m_itemsFileSize := 0
    m_items := KeyedList.empty
    m_cache := [] }

/-- The loop of `open` over the sizes in the index file, read from `pos` on: each item starts
where the one before ends. -/
def openLoop (indexesFile : List UInt8) :
    ℕ → ℕ → List UInt64 → UInt64 → Option (List UInt64 × UInt64)
  | 0, _, offsets, itemsFileSize => some (offsets, itemsFileSize)
  | count + 1, pos, offsets, itemsFileSize =>
    match ByteFile.read indexesFile pos 4 with
    | none => none
    | some itemSize =>
      openLoop indexesFile count (pos + 4) (offsets ++ [itemsFileSize])
        (itemsFileSize + UInt64.ofNat (natOfBytes itemSize))

/-- `open(itemFileName, indexFileName, poolSize)` of a new object, on the files as they are
(`none` for a missing one): `none` when it returns `false`. With both files there, the offsets
come from the index file. Otherwise the missing files are created, the index file with a count
of zero; the second `open` of a stream the first one opened fails, so an items file already
there is kept, and an index file already there makes the write of the count fail. -/
def «open» (itemFile indexFile : Option (List UInt8)) (poolSize : ℕ) :
    Option (SwappedVector T) :=
  if poolSize = 0 then none
  else
    match itemFile, indexFile with
    | some itemsFile, some indexesFile =>
      match ByteFile.read indexesFile 0 8 with
      | none => none
      | some count =>
        match openLoop indexesFile (natOfBytes count) 8 [] 0 with
        | none => none
        | some (offsets, itemsFileSize) =>
          some ⟨itemsFile, indexesFile, poolSize, offsets, itemsFileSize, KeyedList.empty, []⟩
    | some itemsFile, none =>
      some ⟨itemsFile, bytesOfNat 8 0, poolSize, [], 0, KeyedList.empty, []⟩
    | none, some _ => none
    | none, none => some ⟨[], bytesOfNat 8 0, poolSize, [], 0, KeyedList.empty, []⟩

/-- The calls on the store, with a restart: the object is destroyed, its files closed as they
are, and a new one opened on them with a pool of `poolSize` items. -/
inductive Call (T : Type)
  | push_back (item : T)
  | pop_back
  | clear
  | get (index : UInt64)
  | reopen (poolSize : ℕ)

/-- A call on the vector, with what `operator[]` returns; `none` when the run cannot go on
(a `push_back` that throws, a `pop_back` of an empty vector, an `open` that fails). -/
def Call.run : Call T → SwappedVector T → Option (List (Except String T) × SwappedVector T)
  | .push_back item, v =>
    match v.push_back enc item with
    | .ok v => some ([], v)
    | .error _ => none
  | .pop_back, v => (v.pop_back).map fun v => ([], v)
  | .clear, v => some ([], v.clear)
  | .get index, v =>
    match v.get dec index with
    | .ok (item, v) => some ([.ok item], v)
    | .error e => some ([.error e], v)
  | .reopen poolSize, v =>
    (SwappedVector.open (some v.m_itemsFile) (some v.m_indexesFile) poolSize).map fun v => ([], v)

/-- The calls in turn, with what the reads return. -/
def runCalls : List (Call T) → SwappedVector T → Option (List (Except String T) × SwappedVector T)
  | [], v => some ([], v)
  | call :: calls, v =>
    match call.run enc dec v with
    | none => none
    | some (out, v) => (runCalls calls v).map fun r => (out ++ r.1, r.2)

end Model

/-! ## The list the vector holds -/

/-- The calls on a list: `operator[]` past the end throws as the vector's does. -/
def Call.apply : Call T → List T → List (Except String T) × List T
  | .push_back item, L => ([], L ++ [item])
  | .pop_back, L => ([], L.dropLast)
  | .clear, _ => ([], [])
  | .get index, L =>
    ([match L[index.toNat]? with
      | some item => .ok item
      | none => .error "SwappedVector::operator[]"], L)
  | .reopen _, L => ([], L)

/-- The calls in turn on a list. -/
def Call.runList : List (Call T) → List T → List (Except String T) × List T
  | [], L => ([], L)
  | call :: calls, L =>
    let r := call.apply L
    let rs := Call.runList calls r.2
    (r.1 ++ rs.1, rs.2)

/-! ## What the files and the cache hold

The items the store is responsible for are given by the list `L`; the encodings `serialize`
writes of them (`encoded`) fix every byte the store reads back. -/

section Stores

variable (enc : T → Except String (List UInt8)) (P : T → Prop)

/-- The bytes `serialize` writes of an item, none when it throws. -/
def encoded (item : T) : List UInt8 :=
  match enc item with
  | .ok bytes => bytes
  | .error _ => []

/-- The sizes of the encodings of the items. -/
def sizes (L : List T) : List ℕ := L.map fun item => (encoded enc item).length

/-- What the index file starts with for the items `L`: their count, then their sizes. -/
def indexOf (L : List T) : List UInt8 :=
  bytesOfNat 8 L.length ++ (L.map fun item => bytesOfNat 4 (encoded enc item).length).flatten

/-- The items fit the formats of the files: `serialize` writes each and reads it back (`P`),
in fewer than `2^32` bytes, all of them in fewer than `2^64`, and there are fewer than `2^64`
of them. -/
structure Fits (L : List T) : Prop where
  admitted : ∀ item ∈ L, P item ∧ enc item = .ok (encoded enc item)
  size_lt : ∀ item ∈ L, (encoded enc item).length < 2 ^ 32
  sum_lt : (sizes enc L).sum < 2 ^ 64
  length_lt : L.length < 2 ^ 64

/-- The cache holds items of `L` at their indexes, its two containers in one-to-one
correspondence (the cache list is a permutation of the keys of the map), with at most
`m_poolSize` items. -/
structure Caches (v : SwappedVector T) (L : List T) : Prop where
  poolSize_pos : 0 < v.m_poolSize
  cached : ∀ entry ∈ v.m_items.items, L[entry.1.toNat]? = some entry.2
  linked : v.m_cache.Perm (v.m_items.items.map Prod.fst)
  bounded : v.m_items.items.length ≤ v.m_poolSize

/-- **`v` holds the list `L`**: its items file starts with the encodings of the items end to
end, its index file with their count and sizes, its offsets are where the encodings start and
its logical end where they end, and its cache holds items of `L`. -/
structure Stores (v : SwappedVector T) (L : List T) : Prop extends Caches v L where
  fits : Fits enc P L
  offsets : v.m_offsets.map UInt64.toNat = ByteFile.offsetsFrom 0 (sizes enc L)
  itemsFileSize : v.m_itemsFileSize.toNat = (sizes enc L).sum
  itemsFile : (L.map (encoded enc)).flatten <+: v.m_itemsFile
  indexesFile : indexOf enc L <+: v.m_indexesFile

/-- A call the list admits: an item pushed keeps the list within the formats, a `pop_back` is
of a non-empty vector, a restart has a pool. -/
def Call.Admits : Call T → List T → Prop
  | .push_back item, L => Fits enc P (L ++ [item])
  | .pop_back, L => L ≠ []
  | .clear, _ => True
  | .get _, _ => True
  | .reopen poolSize, _ => 0 < poolSize

/-- Every call of the run is admitted by the list it meets. -/
def Admissible : List (Call T) → List T → Prop
  | [], _ => True
  | call :: calls, L => call.Admits enc P L ∧ Admissible calls (call.apply L).2

end Stores

/-! ## The cache

The cache calls change only `m_items` and `m_cache`: what they do to the files is stated once,
as `SameFiles`, and what they do to the cache as `Caches`. -/

section Cache

variable {v w : SwappedVector T} {L : List T}

/-- Two vectors with the same files, pool size, offsets and logical end. -/
structure SameFiles (v w : SwappedVector T) : Prop where
  itemsFile : w.m_itemsFile = v.m_itemsFile
  indexesFile : w.m_indexesFile = v.m_indexesFile
  poolSize : w.m_poolSize = v.m_poolSize
  offsets : w.m_offsets = v.m_offsets
  itemsFileSize : w.m_itemsFileSize = v.m_itemsFileSize

theorem SameFiles.trans {u : SwappedVector T} (h : SameFiles u v) (h' : SameFiles v w) :
    SameFiles u w :=
  ⟨h'.itemsFile.trans h.itemsFile, h'.indexesFile.trans h.indexesFile,
    h'.poolSize.trans h.poolSize, h'.offsets.trans h.offsets, h'.itemsFileSize.trans h.itemsFileSize⟩

theorem sameFiles_evictIfFull (v : SwappedVector T) : SameFiles v v.evictIfFull := by
  unfold evictIfFull
  split
  · split <;> exact ⟨rfl, rfl, rfl, rfl, rfl⟩
  · exact ⟨rfl, rfl, rfl, rfl, rfl⟩

theorem sameFiles_prepare (v : SwappedVector T) (index : UInt64) (item : T) :
    SameFiles v (v.prepare index item) :=
  (sameFiles_evictIfFull v).trans ⟨rfl, rfl, rfl, rfl, rfl⟩

theorem find?_eq_none_iff {items : KeyedList (UInt64 × T) Prod.fst} {index : UInt64} :
    items.find? index = none ↔ ∀ entry ∈ items.items, entry.1 ≠ index := by
  simp [KeyedList.find?, List.find?_eq_none]

/-- No item is cached past the end of the list. -/
theorem Caches.find?_of_le (h : Caches v L) {index : UInt64} (hle : L.length ≤ index.toNat) :
    v.m_items.find? index = none := by
  refine find?_eq_none_iff.mpr fun entry hmem hkey => ?_
  have hcached := h.cached entry hmem
  rw [hkey, List.getElem?_eq_none hle] at hcached
  cases hcached

/-- A cached item is the item of its index. -/
theorem Caches.getElem?_of_find? (h : Caches v L) {index : UInt64} {entry : UInt64 × T}
    (hfind : v.m_items.find? index = some entry) : L[index.toNat]? = some entry.2 := by
  obtain ⟨hmem, hkey⟩ := KeyedList.find?_eq_some hfind
  rw [← hkey]
  exact h.cached entry hmem

/-- Erasing the entry of a key erases the key from the keys. -/
theorem keys_erase (items : KeyedList (UInt64 × T) Prod.fst) (index : UInt64) :
    (items.erase index).items.map Prod.fst = (items.items.map Prod.fst).erase index := by
  rw [List.Nodup.erase_eq_filter items.nodup, List.filter_map, KeyedList.erase]
  congr 1
  refine List.filter_congr fun entry _ => ?_
  by_cases hentry : entry.1 = index <;> simp [hentry]

/-- The eviction keeps the cache, leaves room for one more item, and only drops items. -/
theorem Caches.evictIfFull (h : Caches v L) :
    Caches v.evictIfFull L ∧ v.evictIfFull.m_items.items.length < v.m_poolSize ∧
      ∀ entry ∈ v.evictIfFull.m_items.items, entry ∈ v.m_items.items := by
  by_cases hfull : v.m_items.items.length = v.m_poolSize
  · -- a full pool is not empty, so the cache list, a permutation of the keys, has a front
    obtain ⟨front, rest, hcache⟩ : ∃ front rest, v.m_cache = front :: rest := by
      cases hc : v.m_cache with
      | nil =>
        have hlen := h.linked.length_eq
        rw [hc, List.length_map, hfull] at hlen
        exact absurd hlen.symm h.poolSize_pos.ne'
      | cons front rest => exact ⟨front, rest, rfl⟩
    have hev : v.evictIfFull = { v with m_items := v.m_items.erase front, m_cache := rest } := by
      rw [SwappedVector.evictIfFull, if_pos hfull, hcache]
    have hfront : front ∈ v.m_items.items.map Prod.fst :=
      h.linked.subset (by rw [hcache]; exact List.mem_cons_self)
    have hkeys := keys_erase v.m_items front
    have hlength : (v.m_items.erase front).items.length + 1 = v.m_items.items.length := by
      rw [← List.length_map (f := Prod.fst), hkeys, List.length_erase_of_mem hfront,
        List.length_map]
      have := List.length_pos_of_mem hfront
      rw [List.length_map] at this
      omega
    rw [hev]
    refine ⟨⟨h.poolSize_pos, fun entry hmem => h.cached entry (KeyedList.mem_erase.mp hmem).1,
      ?_, by dsimp only; omega⟩, by dsimp only; omega,
      fun entry hmem => (KeyedList.mem_erase.mp hmem).1⟩
    have hperm := h.linked.erase front
    rwa [hcache, List.erase_cons_head, ← hkeys] at hperm
  · have hev : v.evictIfFull = v := by rw [SwappedVector.evictIfFull, if_neg hfull]
    rw [hev]
    exact ⟨h, lt_of_le_of_ne h.bounded hfull, fun _ hmem => hmem⟩

/-- `prepare` puts an item of the list at a fresh index into the cache. -/
theorem Caches.prepare (h : Caches v L) {index : UInt64} {item : T}
    (hitem : L[index.toNat]? = some item) (hfresh : v.m_items.find? index = none) :
    Caches (v.prepare index item) L := by
  obtain ⟨hev, hlt, hsub⟩ := h.evictIfFull
  have hfresh' : ∀ entry ∈ v.evictIfFull.m_items.items, entry.1 ≠ index := fun entry hmem =>
    find?_eq_none_iff.mp hfresh entry (hsub entry hmem)
  have hitems : (v.evictIfFull.m_items.emplace (index, item)).items =
      v.evictIfFull.m_items.items ++ [(index, item)] := by
    rw [KeyedList.emplace_items, if_neg]
    rintro ⟨entry, hmem, hkey⟩
    exact hfresh' entry hmem hkey
  have hprep : v.prepare index item = { v.evictIfFull with
      m_items := v.evictIfFull.m_items.emplace (index, item)
      m_cache := v.evictIfFull.m_cache ++ [index] } := by
    simp only [SwappedVector.prepare, find?_eq_none_iff.mpr hfresh', Option.isSome_none,
      Bool.false_eq_true, if_false]
  have hpool := (sameFiles_evictIfFull v).poolSize
  rw [hprep]
  refine ⟨hev.poolSize_pos, fun entry hmem => ?_, ?_, ?_⟩
  · rw [hitems, List.mem_append, List.mem_singleton] at hmem
    rcases hmem with hmem | rfl
    · exact hev.cached entry hmem
    · exact hitem
  · rw [hitems, List.map_append]
    exact hev.linked.append_right [index]
  · rw [hitems, List.length_append, List.length_singleton]
    dsimp only
    omega

/-- A hit moves the item's entry to the back of the cache list, which stays a permutation of
the keys. -/
theorem Caches.touch (h : Caches v L) {index : UInt64} {entry : UInt64 × T}
    (hfind : v.m_items.find? index = some entry) :
    Caches { v with m_cache := if v.m_cache.getLast? ≠ some index then
      v.m_cache.erase index ++ [index] else v.m_cache } L := by
  refine ⟨h.poolSize_pos, h.cached, ?_, h.bounded⟩
  dsimp only
  split
  · obtain ⟨hmem, hkey⟩ := KeyedList.find?_eq_some hfind
    have hindex : index ∈ v.m_cache :=
      h.linked.symm.subset (List.mem_map.mpr ⟨entry, hmem, hkey⟩)
    exact ((List.perm_cons_erase hindex).trans (List.perm_append_singleton _ _).symm).symm.trans
      h.linked
  · exact h.linked

/-- The cache depends only on the pool size and the two containers. -/
theorem Caches.congr (h : Caches v L) (hpool : w.m_poolSize = v.m_poolSize)
    (hitems : w.m_items = v.m_items) (hcache : w.m_cache = v.m_cache) : Caches w L := by
  refine ⟨?_, ?_, ?_, ?_⟩ <;> simp only [hpool, hitems, hcache]
  exacts [h.poolSize_pos, h.cached, h.linked, h.bounded]

/-- The cache of the list without its last item: no entry is at the last index. -/
theorem Caches.dropLast {x : T} (h : Caches v (L ++ [x]))
    (hnone : ∀ entry ∈ v.m_items.items, entry.1 ≠ UInt64.ofNat L.length) : Caches v L := by
  refine ⟨h.poolSize_pos, fun entry hmem => ?_, h.linked, h.bounded⟩
  have hcached := h.cached entry hmem
  have hlt : entry.1.toNat < L.length + 1 := by
    have := (List.getElem?_eq_some_iff.mp hcached).1
    simpa using this
  -- the last index is the only one the list without its last item loses
  have hne : entry.1.toNat ≠ L.length := fun heq =>
    hnone entry hmem (by rw [← heq, UInt64.ofNat_toNat])
  rwa [List.getElem?_append_left (by omega)] at hcached

/-- Erasing a cached index and its cache entry keeps the cache. -/
theorem Caches.erase (h : Caches v L) (index : UInt64) :
    Caches { v with m_items := v.m_items.erase index, m_cache := v.m_cache.erase index } L :=
  ⟨h.poolSize_pos, fun entry hmem => h.cached entry (KeyedList.mem_erase.mp hmem).1,
    by rw [keys_erase]; exact h.linked.erase index,
    (List.length_filter_le _ _).trans h.bounded⟩

end Cache

/-! ## Each call against the list -/

section Calls

variable {enc : T → Except String (List UInt8)} {dec : common.Reader T} {P : T → Prop}
  {v w : SwappedVector T} {L : List T}

@[simp] theorem sizes_nil : sizes enc ([] : List T) = [] := rfl

@[simp] theorem sizes_append (L L' : List T) :
    sizes enc (L ++ L') = sizes enc L ++ sizes enc L' :=
  List.map_append

@[simp] theorem length_sizes (L : List T) : (sizes enc L).length = L.length :=
  List.length_map _

theorem length_flatten_encoded (L : List T) :
    (L.map (encoded enc)).flatten.length = (sizes enc L).sum := by
  simp [List.length_flatten, sizes, Function.comp_def]

theorem length_indexOf (L : List T) : (indexOf enc L).length = 8 + 4 * L.length := by
  simp [indexOf, List.length_flatten, Function.comp_def, Nat.mul_comm]

theorem Fits.nil : Fits enc P ([] : List T) :=
  ⟨by simp, by simp, by simp, by simp⟩

/-- The items before a point fit when all of them do. -/
theorem Fits.of_prefix {L' : List T} (h : Fits enc P L) (hhead : L' <+: L) : Fits enc P L' := by
  obtain ⟨rest, rfl⟩ := hhead
  refine ⟨fun item hmem => h.admitted item (List.mem_append_left _ hmem),
    fun item hmem => h.size_lt item (List.mem_append_left _ hmem), ?_, ?_⟩
  · have := h.sum_lt
    rw [sizes_append, List.sum_append] at this
    omega
  · have := h.length_lt
    rw [List.length_append] at this
    omega

/-- The files of a vector that holds a list hold it for any cache of that list. -/
theorem Stores.of_sameFiles (hv : Stores enc P v L) (hsame : SameFiles v w) (hw : Caches w L) :
    Stores enc P w L where
  toCaches := hw
  fits := hv.fits
  offsets := by rw [hsame.offsets]; exact hv.offsets
  itemsFileSize := by rw [hsame.itemsFileSize]; exact hv.itemsFileSize
  itemsFile := by rw [hsame.itemsFile]; exact hv.itemsFile
  indexesFile := by rw [hsame.indexesFile]; exact hv.indexesFile

theorem Stores.length_offsets (hv : Stores enc P v L) : v.m_offsets.length = L.length := by
  have := congrArg List.length hv.offsets
  simpa using this

/-- `size()` is the length of the list. -/
theorem Stores.size_toNat (hv : Stores enc P v L) : v.size.toNat = L.length := by
  rw [size, UInt64.toNat_ofNat', hv.length_offsets, Nat.mod_eq_of_lt hv.fits.length_lt]

/-- The offset of item `i` is the size of the items before it. -/
theorem Stores.offset_toNat (hv : Stores enc P v L) {i : ℕ} (hi : i < L.length) :
    (v.m_offsets.getD i 0).toNat = ((sizes enc L).take i).sum := by
  have hlen : i < v.m_offsets.length := by rw [hv.length_offsets]; exact hi
  have hentry := List.getElem_of_eq hv.offsets (by simpa using hlen)
  rw [List.getElem_map, ByteFile.getElem_offsetsFrom, zero_add] at hentry
  rw [List.getD_eq_getElem _ _ hlen, hentry]

/-- The bytes from the offset of item `i` on start with its encoding. -/
theorem Stores.drop_offset (hv : Stores enc P v L) {i : ℕ} (hi : i < L.length) :
    ∃ rest, v.m_itemsFile.drop (v.m_offsets.getD i 0).toNat = encoded enc L[i] ++ rest := by
  obtain ⟨tail, htail⟩ := hv.itemsFile
  have hrecords : i < (L.map (encoded enc)).length := by simpa using hi
  have hsizes : ((L.map (encoded enc)).take i).map List.length = (sizes enc L).take i := by
    rw [List.map_take, List.map_map]
    rfl
  have hle : ((sizes enc L).take i).sum ≤ (L.map (encoded enc)).flatten.length := by
    rw [length_flatten_encoded]
    exact (List.take_sublist _ _).sum_le_sum fun _ _ => Nat.zero_le _
  refine ⟨(L.map (encoded enc) |>.drop (i + 1)).flatten ++ tail, ?_⟩
  rw [hv.offset_toNat hi, ← htail, List.drop_append_of_le_length hle, ← hsizes,
    ByteFile.drop_flatten _ hrecords, List.getElem_map, List.append_assoc]

/-- **`operator[]` within the list** returns the item of the index, from the cache or read back
from the items file, and the vector still holds the list. -/
theorem Stores.get_of_lt (hexact : Codec.ExactE P enc dec) (hv : Stores enc P v L)
    {index : UInt64} (hlt : index.toNat < L.length) :
    ∃ w, v.get dec index = .ok (L[index.toNat], w) ∧ Stores enc P w L := by
  cases hfind : v.m_items.find? index with
  | some entry =>
    -- a hit: the cached item is the item of its index
    have hitem : L[index.toNat] = entry.2 := by
      have hcached := hv.getElem?_of_find? hfind
      rw [List.getElem?_eq_getElem hlt] at hcached
      exact Option.some.inj hcached
    refine ⟨_, by rw [get, hfind, hitem], ?_⟩
    exact hv.of_sameFiles ⟨rfl, rfl, rfl, rfl, rfl⟩ (hv.touch hfind)
  | none =>
    -- a miss: the item is read back from its encoding at its offset
    obtain ⟨rest, hdrop⟩ := hv.drop_offset hlt
    obtain ⟨hP, henc⟩ := hv.fits.admitted L[index.toNat] (List.getElem_mem hlt)
    have hrun : dec.run (v.m_itemsFile.drop (v.m_offsets.getD index.toNat 0).toNat) =
        .ok (L[index.toNat], rest) :=
      (hexact _ _ _).mpr ⟨hP, _, henc, hdrop⟩
    have hin : ¬v.m_offsets.length ≤ index.toNat := by rw [hv.length_offsets]; omega
    refine ⟨_, by rw [get, hfind]; dsimp only; rw [if_neg hin, hrun], ?_⟩
    exact hv.of_sameFiles (sameFiles_prepare v _ _)
      (hv.prepare (List.getElem?_eq_getElem hlt) hfind)

/-- `operator[]` past the end of the list throws. -/
theorem Stores.get_of_le (hv : Stores enc P v L) {index : UInt64} (hle : L.length ≤ index.toNat) :
    v.get dec index = .error "SwappedVector::operator[]" := by
  rw [get, hv.find?_of_le hle]
  dsimp only
  rw [if_pos (by rw [hv.length_offsets]; exact hle)]

/-- The cache of a list is a cache of any longer list. -/
theorem Caches.append (h : Caches v L) (L' : List T) : Caches v (L ++ L') :=
  ⟨h.poolSize_pos, fun entry hmem => by
    have hcached := h.cached entry hmem
    have hlt := (List.getElem?_eq_some_iff.mp hcached).1
    rwa [List.getElem?_append_left hlt],
    h.linked, h.bounded⟩

/-- **`push_back`** of an item that keeps the list within the formats writes it after the others
and caches it: the vector holds the longer list. -/
theorem Stores.push_back (hv : Stores enc P v L) {item : T} (hfits : Fits enc P (L ++ [item])) :
    ∃ w, v.push_back enc item = .ok w ∧ Stores enc P w (L ++ [item]) := by
  obtain ⟨-, henc⟩ := hfits.admitted item (List.mem_append_right _ (List.mem_singleton_self item))
  set bytes := encoded enc item with hbytes
  -- the widths: the new logical end, the item's size and the count fit their integers
  have hsum : (sizes enc L).sum + bytes.length < 2 ^ 64 := by
    have := hfits.sum_lt
    simpa [sizes] using this
  have hsmall : bytes.length < 2 ^ 32 :=
    hfits.size_lt item (List.mem_append_right _ (List.mem_singleton_self item))
  have hcountLt : L.length + 1 < 2 ^ 64 := by simpa using hfits.length_lt
  have hend : (UInt64.ofNat (v.m_itemsFileSize.toNat + bytes.length)).toNat =
      (sizes enc L).sum + bytes.length := by
    rw [UInt64.toNat_ofNat', hv.itemsFileSize, Nat.mod_eq_of_lt hsum]
  have hitemSize : ((UInt64.ofNat (v.m_itemsFileSize.toNat + bytes.length) -
      v.m_itemsFileSize).toUInt32).toNat = bytes.length := by
    have hle : v.m_itemsFileSize ≤ UInt64.ofNat (v.m_itemsFileSize.toNat + bytes.length) := by
      rw [UInt64.le_iff_toNat_le, hend, hv.itemsFileSize]
      omega
    rw [UInt64.toNat_toUInt32, UInt64.toNat_sub_of_le _ _ hle, hend, hv.itemsFileSize,
      Nat.add_sub_cancel_left, Nat.mod_eq_of_lt hsmall]
  have hcount : (UInt64.ofNat v.m_offsets.length + 1).toNat = L.length + 1 := by
    rw [UInt64.toNat_add, UInt64.toNat_ofNat', hv.length_offsets,
      Nat.mod_eq_of_lt (by omega : L.length < 2 ^ 64)]
    simp only [UInt64.toNat_one]
    exact Nat.mod_eq_of_lt hcountLt
  have hindex : (UInt64.ofNat (v.m_offsets ++ [v.m_itemsFileSize]).length - 1).toNat =
      L.length := by
    rw [List.length_append, hv.length_offsets, List.length_singleton]
    rw [UInt64.toNat_sub_of_le _ _ (by
      rw [UInt64.le_iff_toNat_le, UInt64.toNat_ofNat', Nat.mod_eq_of_lt hcountLt]
      simp), UInt64.toNat_ofNat', Nat.mod_eq_of_lt hcountLt]
    simp
  -- the items file: the encoding goes at the logical end
  have hitems : ((L ++ [item]).map (encoded enc)).flatten <+:
      ByteFile.write 0 v.m_itemsFile v.m_itemsFileSize.toNat bytes := by
    have hpos : v.m_itemsFileSize.toNat = (L.map (encoded enc)).flatten.length := by
      rw [hv.itemsFileSize, length_flatten_encoded]
    rw [hpos]
    simpa using ByteFile.prefix_write_append 0 hv.itemsFile bytes
  -- the index file: the size after the others, then the count over the old one
  have hindexes : indexOf enc (L ++ [item]) <+: ByteFile.write 0
      (ByteFile.write 0 v.m_indexesFile (8 + 4 * v.m_offsets.length)
        (bytesOfNat 4 bytes.length)) 0 (bytesOfNat 8 (L.length + 1)) := by
    have hpos : 8 + 4 * v.m_offsets.length = (indexOf enc L).length := by
      rw [length_indexOf, hv.length_offsets]
    have happend := ByteFile.prefix_write_append 0 hv.indexesFile (bytesOfNat 4 bytes.length)
    rw [← hpos, indexOf, List.append_assoc] at happend
    have hreplace := @ByteFile.prefix_write_replace _ 0 _ [] _ _ (by simpa using happend)
      (bytesOfNat 8 (L.length + 1)) (by simp)
    simpa [indexOf, ← hbytes] using hreplace
  -- the offsets: the new item starts at the old logical end
  have hoffsets : (v.m_offsets ++ [v.m_itemsFileSize]).map UInt64.toNat =
      ByteFile.offsetsFrom 0 (sizes enc (L ++ [item])) := by
    rw [List.map_append, hv.offsets, sizes_append, ByteFile.offsetsFrom_append, zero_add,
      List.map_singleton, hv.itemsFileSize]
    rfl
  rw [SwappedVector.push_back, henc]
  refine ⟨_, rfl, ?_⟩
  -- the vector with the item written, before the cache takes it
  have hw : Stores enc P { v with
      m_itemsFile := ByteFile.write 0 v.m_itemsFile v.m_itemsFileSize.toNat bytes
      m_indexesFile := ByteFile.write 0 (ByteFile.write 0 v.m_indexesFile
        (8 + 4 * v.m_offsets.length) (bytesOfNat 4 ((UInt64.ofNat (v.m_itemsFileSize.toNat +
          bytes.length) - v.m_itemsFileSize).toUInt32).toNat)) 0
        (bytesOfNat 8 (UInt64.ofNat v.m_offsets.length + 1).toNat)
      m_offsets := v.m_offsets ++ [v.m_itemsFileSize]
      m_itemsFileSize := UInt64.ofNat (v.m_itemsFileSize.toNat + bytes.length) }
      (L ++ [item]) :=
    { toCaches := (hv.toCaches.append [item]).congr rfl rfl rfl
      fits := hfits
      offsets := hoffsets
      itemsFileSize := by rw [hend, sizes_append, List.sum_append]; simp [sizes, hbytes]
      itemsFile := hitems
      indexesFile := by rw [hitemSize, hcount]; exact hindexes }
  refine hw.of_sameFiles (sameFiles_prepare _ _ _) (hw.prepare ?_ ?_)
  · rw [hindex, List.getElem?_append_right (le_refl _), Nat.sub_self]
    rfl
  · exact hv.find?_of_le (by rw [hindex])

/-- **`pop_back`** of a non-empty vector moves the logical end back to the offset of the last
item and drops that item from the cache: the vector holds the list without its last item. -/
theorem Stores.pop_back (hv : Stores enc P v L) (hne : L ≠ []) :
    ∃ w, v.pop_back = some w ∧ Stores enc P w L.dropLast := by
  obtain ⟨L', x, rfl⟩ : ∃ L' x, L = L' ++ [x] :=
    ⟨L.dropLast, L.getLast hne, (List.dropLast_append_getLast hne).symm⟩
  rw [List.dropLast_concat]
  -- the offsets end with the offset of the last item, where the items before it end
  obtain ⟨offsets, back, hoffsets, hmap, hback⟩ : ∃ offsets back,
      v.m_offsets = offsets ++ [back] ∧
        offsets.map UInt64.toNat = ByteFile.offsetsFrom 0 (sizes enc L') ∧
        back.toNat = (sizes enc L').sum := by
    have hsplit := hv.offsets
    rw [sizes_append, ByteFile.offsetsFrom_append, zero_add, List.map_eq_append_iff] at hsplit
    obtain ⟨offsets, last, hoffsets, hmap, hlast⟩ := hsplit
    obtain ⟨back, rfl, hback⟩ := List.map_eq_singleton_iff.mp hlast
    exact ⟨offsets, back, hoffsets, hmap, hback⟩
  have hlen : offsets.length = L'.length := by simpa using congrArg List.length hmap
  have hcountLt : L'.length + 1 < 2 ^ 64 := by simpa using hv.fits.length_lt
  have hcount : (UInt64.ofNat (offsets ++ [back]).length - 1).toNat = L'.length := by
    have hle : (1 : UInt64) ≤ UInt64.ofNat (offsets ++ [back]).length := by
      rw [UInt64.le_iff_toNat_le, UInt64.toNat_ofNat', List.length_append, hlen,
        List.length_singleton, Nat.mod_eq_of_lt hcountLt]
      simp
    rw [UInt64.toNat_sub_of_le _ _ hle, UInt64.toNat_ofNat', List.length_append, hlen,
      List.length_singleton, Nat.mod_eq_of_lt hcountLt]
    simp
  -- the index file: the count of the items before the last one over the old count
  have hindexes : indexOf enc L' <+: ByteFile.write 0 v.m_indexesFile 0
      (bytesOfNat 8 L'.length) := by
    have hold := hv.indexesFile
    rw [indexOf, List.length_append, List.length_singleton, List.map_append,
      List.flatten_append, ← List.nil_append (bytesOfNat 8 _)] at hold
    have hreplace := @ByteFile.prefix_write_replace _ 0 _ _ _ _ hold (bytesOfNat 8 L'.length)
      (by simp)
    exact (List.prefix_append _ _).trans (by simpa [indexOf, List.append_assoc] using hreplace)
  -- the shorter vector's files, whatever its cache
  have hstores : ∀ u : SwappedVector T, u.m_itemsFile = v.m_itemsFile →
      u.m_indexesFile = ByteFile.write 0 v.m_indexesFile 0 (bytesOfNat 8 L'.length) →
      u.m_offsets = offsets → u.m_itemsFileSize = back → Caches u L' → Stores enc P u L' :=
    fun u hitems hindexesFile hoffsets' hend hu =>
      { toCaches := hu
        fits := hv.fits.of_prefix (List.prefix_append _ _)
        offsets := by rw [hoffsets']; exact hmap
        itemsFileSize := by rw [hend]; exact hback
        itemsFile := by
          rw [hitems]
          exact (by simp : (L'.map (encoded enc)).flatten <+:
            ((L' ++ [x]).map (encoded enc)).flatten).trans hv.itemsFile
        indexesFile := by rw [hindexesFile]; exact hindexes }
  have hindex : UInt64.ofNat offsets.length = UInt64.ofNat L'.length := by rw [hlen]
  rw [SwappedVector.pop_back, hoffsets]
  simp only [List.getLast?_concat, List.dropLast_concat, hcount]
  cases hfind : v.m_items.find? (UInt64.ofNat offsets.length) with
  | some entry =>
    refine ⟨_, rfl, hstores _ rfl rfl rfl rfl (Caches.dropLast (x := x) ?_ fun entry hmem => ?_)⟩
    · exact (hv.toCaches.erase _).congr rfl rfl rfl
    · rw [← hindex]
      exact (KeyedList.mem_erase.mp hmem).2
  | none =>
    refine ⟨_, rfl, hstores _ rfl rfl rfl rfl (Caches.dropLast (x := x) ?_ fun entry hmem => ?_)⟩
    · exact hv.toCaches.congr rfl rfl rfl
    · rw [← hindex]
      exact find?_eq_none_iff.mp hfind entry hmem

/-- **`clear`** leaves a count of zero and nothing cached: the vector holds the empty list. -/
theorem Stores.clear (hv : Stores enc P v L) : Stores enc P v.clear [] where
  toCaches := ⟨hv.poolSize_pos, by simp [SwappedVector.clear, KeyedList.empty],
    by simp [SwappedVector.clear, KeyedList.empty], by simp [SwappedVector.clear, KeyedList.empty]⟩
  fits := Fits.nil
  offsets := rfl
  itemsFileSize := rfl
  itemsFile := List.nil_prefix
  indexesFile := by
    show indexOf enc [] <+: ByteFile.write 0 v.m_indexesFile 0 (bytesOfNat 8 0)
    have hold := hv.indexesFile
    rw [indexOf, ← List.nil_append (bytesOfNat 8 _)] at hold
    have hreplace := @ByteFile.prefix_write_replace _ 0 _ _ _ _ hold (bytesOfNat 8 0) (by simp)
    exact (List.prefix_append _ _).trans (by simpa [indexOf] using hreplace)

/-- The loop of `open` reads the sizes the index file holds from `pre.length` on, and lays the
items end to end from `total`. -/
theorem openLoop_eq {file : List UInt8} (pre : List UInt8) (itemSizes : List ℕ)
    (offsets : List UInt64) (total : UInt64)
    (hpre : pre ++ (itemSizes.map (bytesOfNat 4)).flatten <+: file)
    (hsmall : ∀ itemSize ∈ itemSizes, itemSize < 2 ^ 32)
    (hsum : total.toNat + itemSizes.sum < 2 ^ 64) :
    openLoop file itemSizes.length pre.length offsets total =
      some (offsets ++ (ByteFile.offsetsFrom total.toNat itemSizes).map UInt64.ofNat,
        UInt64.ofNat (total.toNat + itemSizes.sum)) := by
  induction itemSizes generalizing pre offsets total with
  | nil => simp [openLoop]
  | cons itemSize itemSizes ih =>
    have hsmall' : itemSize < 2 ^ 32 := hsmall itemSize List.mem_cons_self
    have hread : ByteFile.read file pre.length 4 = some (bytesOfNat 4 itemSize) := by
      have hhead : pre ++ bytesOfNat 4 itemSize <+: file := by
        refine List.IsPrefix.trans ?_ hpre
        rw [List.map_cons, List.flatten_cons, ← List.append_assoc]
        exact List.prefix_append _ _
      simpa using ByteFile.read_of_prefix hhead
    have hsize : natOfBytes (bytesOfNat 4 itemSize) = itemSize := by
      rw [natOfBytes_bytesOfNat, Nat.mod_eq_of_lt (by simpa using hsmall')]
    have htotal : (total + UInt64.ofNat itemSize).toNat = total.toNat + itemSize := by
      rw [UInt64.toNat_add, UInt64.toNat_ofNat', Nat.mod_eq_of_lt (by omega : itemSize < 2 ^ 64)]
      simp only [List.sum_cons] at hsum
      exact Nat.mod_eq_of_lt (by omega)
    have hrest := ih (pre ++ bytesOfNat 4 itemSize) (offsets ++ [total])
      (total + UInt64.ofNat itemSize) (by simpa [List.append_assoc] using hpre)
      (fun s hs => hsmall s (List.mem_cons_of_mem _ hs))
      (by simp only [List.sum_cons] at hsum; omega)
    rw [List.length_append, length_bytesOfNat, htotal] at hrest
    rw [List.length_cons, openLoop, hread]
    simp only [hsize, hrest, ByteFile.offsetsFrom, List.map_cons, UInt64.ofNat_toNat,
      List.append_assoc, List.singleton_append, List.sum_cons, Nat.add_assoc]

/-- **A restart** (a new object opened, with any pool, on the files the vector left) finds the
list again, with nothing cached. -/
theorem Stores.reopen (hv : Stores enc P v L) {poolSize : ℕ} (hpool : 0 < poolSize) :
    ∃ w, SwappedVector.open (some v.m_itemsFile) (some v.m_indexesFile) poolSize = some w ∧
      Stores enc P w L := by
  have hcount : ByteFile.read v.m_indexesFile 0 8 = some (bytesOfNat 8 L.length) := by
    have hhead : [] ++ bytesOfNat 8 L.length <+: v.m_indexesFile :=
      (List.prefix_append _ _).trans hv.indexesFile
    simpa using ByteFile.read_of_prefix hhead
  have hlength : natOfBytes (bytesOfNat 8 L.length) = L.length := by
    rw [natOfBytes_bytesOfNat, Nat.mod_eq_of_lt (by simpa using hv.fits.length_lt)]
  have hsmall : ∀ itemSize ∈ sizes enc L, itemSize < 2 ^ 32 := by
    intro itemSize hmem
    obtain ⟨item, hitem, rfl⟩ := List.mem_map.mp hmem
    exact hv.fits.size_lt item hitem
  have hloop := openLoop_eq (bytesOfNat 8 L.length) (sizes enc L) [] 0
    (by simpa [indexOf, sizes, Function.comp_def] using hv.indexesFile) hsmall
    (by simpa using hv.fits.sum_lt)
  rw [length_bytesOfNat, length_sizes] at hloop
  refine ⟨_, by rw [SwappedVector.open, if_neg hpool.ne']; simp only [hcount, hlength, hloop]; rfl,
    ?_⟩
  refine
    { toCaches := ⟨hpool, by simp [KeyedList.empty], by simp [KeyedList.empty],
        by simp [KeyedList.empty]⟩
      fits := hv.fits
      offsets := ?_
      itemsFileSize := ?_
      itemsFile := hv.itemsFile
      indexesFile := hv.indexesFile }
  · -- every offset is below the end of the items, so it fits its integer
    simp only [List.nil_append, UInt64.toNat_zero, List.map_map]
    refine (List.map_congr_left fun offset hmem => ?_).trans (List.map_id _)
    have := (ByteFile.le_of_mem_offsetsFrom hmem).2
    simp only [Function.comp_apply, UInt64.toNat_ofNat', id]
    exact Nat.mod_eq_of_lt (by have := hv.fits.sum_lt; omega)
  · simp only [UInt64.toNat_zero, zero_add, UInt64.toNat_ofNat']
    exact Nat.mod_eq_of_lt hv.fits.sum_lt

/-- `open` of a new object on a folder without the files creates them, and the vector holds the
empty list. -/
theorem open_none_none {poolSize : ℕ} (hpool : 0 < poolSize) :
    ∃ v, SwappedVector.open (T := T) none none poolSize = some v ∧ Stores enc P v [] :=
  ⟨_, by rw [SwappedVector.open, if_neg hpool.ne'],
    { toCaches := ⟨hpool, by simp [KeyedList.empty], by simp [KeyedList.empty],
        by simp [KeyedList.empty]⟩
      fits := Fits.nil
      offsets := rfl
      itemsFileSize := rfl
      itemsFile := List.nil_prefix
      indexesFile := by simp [indexOf] }⟩

end Calls

/-! ## Runs -/

section Runs

variable {enc : T → Except String (List UInt8)} {dec : common.Reader T} {P : T → Prop}

/-- `back()` of a non-empty vector is the last item of the list. -/
theorem Stores.back (hexact : Codec.ExactE P enc dec) {v : SwappedVector T} {L : List T}
    (hv : Stores enc P v L) (hne : L ≠ []) :
    ∃ w, v.back dec = .ok (L.getLast hne, w) ∧ Stores enc P w L := by
  have hpos : 0 < L.length := List.length_pos_iff.mpr hne
  have hindex : (v.size - 1).toNat = L.length - 1 := by
    have hle : (1 : UInt64) ≤ v.size := by
      rw [UInt64.le_iff_toNat_le, hv.size_toNat]
      exact hpos
    rw [UInt64.toNat_sub_of_le _ _ hle, hv.size_toNat]
    rfl
  obtain ⟨w, hget, hw⟩ := hv.get_of_lt hexact (show (v.size - 1).toNat < L.length by omega)
  refine ⟨w, ?_, hw⟩
  rw [SwappedVector.back, hget]
  simp only [hindex, List.getLast_eq_getElem]

/-- One call does to the vector what it does to the list, and returns what the list returns. -/
theorem Stores.run (hexact : Codec.ExactE P enc dec) {v : SwappedVector T} {L : List T}
    (hv : Stores enc P v L) {call : Call T} (hadm : call.Admits enc P L) :
    ∃ w, call.run enc dec v = some ((call.apply L).1, w) ∧ Stores enc P w (call.apply L).2 := by
  cases call with
  | push_back item =>
    obtain ⟨w, hpush, hw⟩ := hv.push_back hadm
    exact ⟨w, by rw [Call.run, hpush]; rfl, hw⟩
  | pop_back =>
    obtain ⟨w, hpop, hw⟩ := hv.pop_back hadm
    exact ⟨w, by rw [Call.run, hpop]; rfl, hw⟩
  | clear => exact ⟨_, rfl, hv.clear⟩
  | get index =>
    by_cases hlt : index.toNat < L.length
    · obtain ⟨w, hget, hw⟩ := hv.get_of_lt hexact hlt
      refine ⟨w, ?_, hw⟩
      rw [Call.run, hget, Call.apply, List.getElem?_eq_getElem hlt]
    · refine ⟨v, ?_, hv⟩
      rw [Call.run, hv.get_of_le (not_lt.mp hlt), Call.apply,
        List.getElem?_eq_none (not_lt.mp hlt)]
  | reopen poolSize =>
    obtain ⟨w, hopen, hw⟩ := hv.reopen hadm
    exact ⟨w, by rw [Call.run, hopen]; rfl, hw⟩

/-- Every admissible run does to the vector what it does to the list, and its reads return what
the list's return. -/
theorem runCalls_stores (hexact : Codec.ExactE P enc dec) (calls : List (Call T))
    {v : SwappedVector T} {L : List T} (hv : Stores enc P v L) (hadm : Admissible enc P calls L) :
    ∃ w, runCalls enc dec calls v = some ((Call.runList calls L).1, w) ∧
      Stores enc P w (Call.runList calls L).2 := by
  induction calls generalizing v L with
  | nil => exact ⟨v, rfl, hv⟩
  | cons call calls ih =>
    obtain ⟨hcall, hrest⟩ := hadm
    obtain ⟨u, hrun, hu⟩ := hv.run hexact hcall
    obtain ⟨w, hruns, hw⟩ := ih hu hrest
    refine ⟨w, ?_, hw⟩
    rw [runCalls, hrun]
    simp only [hruns, Option.map_some, Call.runList]

/-- **The block store implements a list.** Opened on a folder without its files with a pool of
at least one item, a `SwappedVector` run through any calls that push only items its formats
hold, pop only a non-empty vector and restart with a pool of at least one item, returns from
every `operator[]` the item of the list at that index, or the exception past its end; it ends
with the list's size, at most a pool of cached items, each the item of its index, and its cache
map and list in one-to-one correspondence. -/
theorem open_runCalls_stores (hexact : Codec.ExactE P enc dec) {poolSize : ℕ}
    (hpool : 0 < poolSize) (calls : List (Call T)) (hadm : Admissible enc P calls []) :
    ∃ v w, SwappedVector.open none none poolSize = some v ∧
      runCalls enc dec calls v = some ((Call.runList calls []).1, w) ∧
      w.size.toNat = (Call.runList calls []).2.length ∧
      Stores enc P w (Call.runList calls []).2 := by
  obtain ⟨v, hopen, hv⟩ : ∃ v, SwappedVector.open none none poolSize = some v ∧
      Stores enc P v [] := open_none_none hpool
  obtain ⟨w, hrun, hw⟩ := runCalls_stores hexact calls hv hadm
  exact ⟨v, w, hopen, hrun, hw.size_toNat, hw⟩

/-- Calls on a pool of one item: two pushes, a read of the first item (evicted by the second), a
restart, a read of the second, a pop, and a read past the new end. -/
def sampleCalls : List (Call (List UInt8)) :=
  [.push_back [5], .push_back [7], .get 0, .reopen 1, .get 1, .pop_back, .get 1]

/-- With one-byte items written and read as themselves, the reads return the items pushed and
then the exception past the end. -/
theorem open_runCalls_stores_sample :
    ∃ v w, SwappedVector.open none none 1 = some v ∧
      runCalls (fun bytes => .ok bytes) (common.read 1) sampleCalls v =
        some ([.ok [5], .ok [7], .error "SwappedVector::operator[]"], w) ∧ w.size.toNat = 1 := by
  have hfits : ∀ L : List (List UInt8), L = [[5]] ∨ L = [[5], [7]] →
      Fits (fun bytes => .ok bytes) (fun bytes : List UInt8 => bytes.length = 1) L := by
    rintro L (rfl | rfl) <;>
      exact ⟨by simp [encoded], by simp [encoded], by simp [sizes, encoded], by simp⟩
  obtain ⟨v, w, hopen, hrun, hsize, -⟩ := open_runCalls_stores (common.read_exact 1).exactE
    Nat.one_pos sampleCalls ⟨hfits _ (.inl rfl), hfits _ (.inr rfl), trivial, Nat.one_pos, trivial,
      List.cons_ne_nil _ _, trivial, trivial⟩
  exact ⟨v, w, hopen, hrun.trans rfl, hsize.trans rfl⟩

end Runs

end SwappedVector

end UltraNoteCore
