import Mathlib.Data.List.Sort

/-!
# The median of `Common/Math.h`

`common::medianValue` sorts a vector and returns its middle element, or the (truncated) mean of
the two middle elements for an even length, and the value-initialised element for an empty
vector. The blockchain takes the median of recent timestamps (`uint64_t`, whose sum wraps) and
of recent block sizes (`size_t`, modelled as natural numbers), so the function is generic in
its arithmetic.

## Main definitions

* `medianValue`

## Main results

* `medianValue_nil`, `medianValue_singleton`: the two short cases
-/

namespace UltraNoteCore

variable {T : Type*} [LE T] [DecidableRel (α := T) (· ≤ ·)] [Add T] [Div T] [OfNat T 2] [Zero T]

/-- `common::medianValue`. -/
def medianValue (v : List T) : T :=
  if v.isEmpty then 0
  else if v.length = 1 then v.getD 0 0
  else
    let n := v.length / 2
    -- `std::sort`: for a total order every sort gives this list; insertion sort is structural
    let sorted := v.insertionSort (· ≤ ·)
    if v.length % 2 = 1 then sorted.getD n 0
    else (sorted.getD (n - 1) 0 + sorted.getD n 0) / 2

@[simp] theorem medianValue_nil : medianValue ([] : List T) = 0 := rfl

@[simp] theorem medianValue_singleton (a : T) : medianValue [a] = a := rfl

end UltraNoteCore
