import Mathlib

/-!
# Files as lists of bytes

A file open through a `std::fstream` is modelled by its contents. `seekp(pos)` followed by
`write(bytes)` overwrites the contents from `pos` on and extends them where the write passes
their end; a seek past the end leaves a gap that reads as `fill` (a zero byte for a file).
`seekg(pos)` followed by `read(n)` gives the `n` values from `pos` on, and fails when fewer
follow `pos`.

A store that keeps its data at the front of a file, and may leave stale bytes behind its
logical end, is described by the prefix of the file it is responsible for. The lemmas here say
how a write moves such a prefix: a write at its end extends it, a write over a part of it of
the same length replaces that part, and a read inside it returns what it holds.

Records laid end to end start at the running sums of their lengths (`offsetsFrom`); the bytes
from the start of a record on are that record and the ones after it.

## Main definitions

* `ByteFile.write`, `ByteFile.read`: a positioned write and read
* `ByteFile.offsetsFrom`: where records of the given sizes start when laid end to end

## Main results

* `ByteFile.prefix_write_append`, `ByteFile.prefix_write_replace`, `ByteFile.read_of_prefix`
* `ByteFile.offsetsFrom_append`, `ByteFile.getElem_offsetsFrom`, `ByteFile.le_of_mem_offsetsFrom`
* `ByteFile.drop_flatten`: the bytes from the start of a record on
-/

namespace ByteFile

variable {α : Type*}

/-- `seekp(pos)` then `write(bytes)`: the contents up to `pos`, padded with `fill` up to `pos`
when they end before it, then `bytes`, then whatever followed the written part. -/
def write (fill : α) (file : List α) (pos : ℕ) (bytes : List α) : List α :=
  file.take pos ++ List.replicate (pos - file.length) fill ++ bytes ++
    file.drop (pos + bytes.length)

/-- `seekg(pos)` then `read(n)`: the `n` values from `pos` on, `none` when the file ends first
(the stream's failbit). -/
def read (file : List α) (pos n : ℕ) : Option (List α) :=
  if pos + n ≤ file.length then some ((file.drop pos).take n) else none

/-- The start of each record when records of sizes `sizes` are laid end to end from `start`. -/
def offsetsFrom (start : ℕ) : List ℕ → List ℕ
  | [] => []
  | size :: sizes => start :: offsetsFrom (start + size) sizes

section Write

variable (fill : α) {file pre : List α}

/-- A write at the end of a known prefix extends the prefix. -/
theorem prefix_write_append (hpre : pre <+: file) (bytes : List α) :
    pre ++ bytes <+: write fill file pre.length bytes := by
  obtain ⟨rest, rfl⟩ := hpre
  have hpad : pre.length - (pre ++ rest).length = 0 := by simp
  rw [write, hpad, List.take_left', List.replicate_zero, List.append_nil]
  · exact List.prefix_append _ _
  · rfl

/-- A write over a part of a known prefix, of the part's length, replaces the part. -/
theorem prefix_write_replace {part rest : List α} (hpre : pre ++ part ++ rest <+: file)
    {bytes : List α} (hlength : bytes.length = part.length) :
    pre ++ bytes ++ rest <+: write fill file pre.length bytes := by
  obtain ⟨tail, rfl⟩ := hpre
  have htake : (pre ++ part ++ rest ++ tail).take pre.length = pre := by
    simp [List.append_assoc]
  have hpad : pre.length - (pre ++ part ++ rest ++ tail).length = 0 := by simp
  have hdrop : (pre ++ part ++ rest ++ tail).drop (pre.length + bytes.length) = rest ++ tail := by
    rw [hlength, List.append_assoc, List.append_assoc, List.drop_append, List.drop_append]
    simp
  rw [write, htake, hpad, hdrop, List.replicate_zero, List.append_nil, ← List.append_assoc]
  exact List.prefix_append _ _

/-- A read inside a known prefix returns the values the prefix holds there. -/
theorem read_of_prefix {bytes : List α} (hpre : pre ++ bytes <+: file) :
    read file pre.length bytes.length = some bytes := by
  obtain ⟨rest, rfl⟩ := hpre
  rw [read, if_pos (by simp)]
  simp

end Write

section Offsets

@[simp] theorem offsetsFrom_nil (start : ℕ) : offsetsFrom start [] = [] := rfl

@[simp] theorem length_offsetsFrom (start : ℕ) (sizes : List ℕ) :
    (offsetsFrom start sizes).length = sizes.length := by
  induction sizes generalizing start with
  | nil => rfl
  | cons size sizes ih => simp [offsetsFrom, ih]

/-- One more record starts where the others end. -/
theorem offsetsFrom_append (start : ℕ) (sizes sizes' : List ℕ) :
    offsetsFrom start (sizes ++ sizes') =
      offsetsFrom start sizes ++ offsetsFrom (start + sizes.sum) sizes' := by
  induction sizes generalizing start with
  | nil => simp
  | cons size sizes ih => simp [offsetsFrom, ih, Nat.add_assoc]

/-- Every record starts between `start` and the end of the records. -/
theorem le_of_mem_offsetsFrom {start : ℕ} {sizes : List ℕ} {offset : ℕ}
    (h : offset ∈ offsetsFrom start sizes) : start ≤ offset ∧ offset ≤ start + sizes.sum := by
  induction sizes generalizing start with
  | nil => simp at h
  | cons size sizes ih =>
    rcases List.mem_cons.mp h with rfl | h
    · simp
    · obtain ⟨hlo, hhi⟩ := ih h
      simp only [List.sum_cons]
      omega

/-- Record `i` starts after the records before it. -/
theorem getElem_offsetsFrom (start : ℕ) (sizes : List ℕ) {i : ℕ}
    (hi : i < (offsetsFrom start sizes).length) :
    (offsetsFrom start sizes)[i] = start + (sizes.take i).sum := by
  induction sizes generalizing start i with
  | nil => simp at hi
  | cons size sizes ih =>
    cases i with
    | zero => simp [offsetsFrom]
    | succ i =>
      simp only [offsetsFrom, List.getElem_cons_succ, List.take_succ_cons, List.sum_cons]
      rw [ih]
      omega

/-- The bytes from the start of record `i` on: the record, then the records after it. -/
theorem drop_flatten (records : List (List α)) {i : ℕ} (hi : i < records.length) :
    records.flatten.drop ((records.take i).map List.length).sum =
      records[i] ++ (records.drop (i + 1)).flatten := by
  have hsplit : records.flatten = (records.take i).flatten ++ (records.drop i).flatten := by
    rw [← List.flatten_append, List.take_append_drop]
  rw [hsplit, List.drop_eq_getElem_cons hi, List.flatten_cons, ← List.length_flatten,
    List.drop_left]

end Offsets

end ByteFile
