import UltraNoteCore.Common.JsonValue
import Mathlib.Data.List.DropRight
import Mathlib.Data.List.TakeWhile
import Mathlib.Algebra.Order.Field.Rat

/-!
# Amounts as text

`Currency::formatAmount` writes an amount of atomic units as a decimal number with
`numberOfDecimalPlaces` digits after the point, and `Currency::parseAmount` reads one back: it
trims white space (`boost::algorithm::trim`), erases the zeros after the point beyond the last
place, erases the point, pads the fraction with zeros to the number of places, and leaves the
range check to `common::fromString`, an `std::istringstream` extraction into a `uint64_t`.
The number of places, `m_numberOfDecimalPlaces` of the currency, is an argument here.

`AmountText d t v` says what a decimal text means: digits and at most one point, at least one
digit, at most `d` digits after the point once the zeros beyond the `d`-th are dropped, and the
value `v / 10 ^ d`. `parseAmount` reads exactly these texts with `v < 2 ^ 64`, save one kind:
with no decimal places, a text with nothing before the point and only zeros after it (`".0"`)
loses every digit to the erasing loop and is refused.

## Main definitions

* `common.trim`, `common.fromStringUInt64`: `boost::algorithm::trim`, `common::fromString`
* `Currency.formatAmount`, `Currency.trimFraction`, `Currency.parseAmountDigits`,
  `Currency.parseAmount`
* `Currency.AmountText`: the decimal texts of an amount

## Main results

* `Currency.parseAmount_formatAmount`: every amount reads back, for every number of places
* `Currency.map_parseAmount_eq_some_iff`: which texts are read, and as what
-/

namespace List

variable {α : Type} [BEq α] [LawfulBEq α] {a : α}

/-- The first occurrence of `a` splits a list around it. -/
theorem eq_append_cons_of_idxOf?_eq_some :
    ∀ {l : List α} {i : ℕ}, l.idxOf? a = some i →
      ∃ pre post, l = pre ++ a :: post ∧ a ∉ pre ∧ pre.length = i
  | [], _, h => by simp at h
  | b :: l, i, h => by
    rw [idxOf?_cons] at h
    by_cases hb : b = a
    · -- the head is the first occurrence
      subst hb
      rw [if_pos (beq_self_eq_true b), Option.some.injEq] at h
      exact ⟨[], l, rfl, List.not_mem_nil, h⟩
    · rw [beq_eq_false_iff_ne.mpr hb, if_neg Bool.false_ne_true] at h
      obtain ⟨j, hj, rfl⟩ := Option.map_eq_some_iff.mp h
      obtain ⟨pre, post, rfl, hpre, rfl⟩ := eq_append_cons_of_idxOf?_eq_some hj
      refine ⟨b :: pre, post, rfl, ?_, rfl⟩
      rw [List.mem_cons, not_or]
      exact ⟨Ne.symm hb, hpre⟩

theorem idxOf?_append_cons (post : List α) :
    ∀ {pre : List α}, a ∉ pre → (pre ++ a :: post).idxOf? a = some pre.length
  | [], _ => by simp [idxOf?_cons]
  | b :: pre, h => by
    rw [List.mem_cons, not_or] at h
    rw [List.cons_append, idxOf?_cons, beq_eq_false_iff_ne.mpr (Ne.symm h.1),
      if_neg Bool.false_ne_true, idxOf?_append_cons post h.2]
    rfl

end List

namespace UltraNoteCore

namespace common

/-! ## `StringTools` and the string algorithms of boost -/

/-- `boost::algorithm::trim` in the "C" locale: white space off the end, then off the start. -/
def trim (str : List UInt8) : List UInt8 := (str.rdropWhile isspace).dropWhile isspace

/-- `common::fromString(text, value)` for a `uint64_t`, as libstdc++ reads
`std::istringstream(text) >> value`: white space is skipped, a sign may stand before the
digits (a minus sign negates modulo `2 ^ 64`), the longest run of digits is read, and the
extraction fails without a digit or on a magnitude above `UINT64_MAX`. -/
def fromStringUInt64 (text : List UInt8) : Option UInt64 :=
  let text := text.dropWhile isspace
  let negative := text.head? = some '-'.toUInt8
  let text := if negative ∨ text.head? = some '+'.toUInt8 then text.drop 1 else text
  let digits := text.takeWhile isDigit
  if digits = [] then none
  else if decimalValue digits < 2 ^ 64 then
    some (if negative then -UInt64.ofNat (decimalValue digits) else UInt64.ofNat (decimalValue digits))
  else none

theorem decimalValue_append (x y : List UInt8) :
    decimalValue (x ++ y) = decimalValue x * 10 ^ y.length + decimalValue y := by
  unfold decimalValue
  rw [List.reverse_append, List.map_append, Nat.ofDigits_append, List.length_map,
    List.length_reverse, Nat.add_comm, Nat.mul_comm]

theorem decimalValue_replicate_zero (n : ℕ) : decimalValue (List.replicate n '0'.toUInt8) = 0 := by
  unfold decimalValue
  rw [List.reverse_replicate, List.map_replicate]
  exact Nat.ofDigits_replicate_zero

theorem decimalValue_append_zeros (x : List UInt8) (n : ℕ) :
    decimalValue (x ++ List.replicate n '0'.toUInt8) = decimalValue x * 10 ^ n := by
  rw [decimalValue_append, decimalValue_replicate_zero, List.length_replicate, Nat.add_zero]

@[simp] theorem isDigit_zero : isDigit '0'.toUInt8 = true := by decide

@[simp] theorem isDigit_point : isDigit '.'.toUInt8 = false := by decide

@[simp] theorem isspace_point : isspace '.'.toUInt8 = false := by decide

theorem ne_sign_of_isDigit {c : UInt8} (h : isDigit c = true) :
    c ≠ '-'.toUInt8 ∧ c ≠ '+'.toUInt8 := by
  rw [isDigit_iff] at h
  constructor <;> intro hc <;> rw [hc] at h <;> exact absurd h (by decide)

/-- On a nonempty string of digits the extraction reads all of it. -/
theorem fromStringUInt64_of_digits {text : List UInt8} (hne : text ≠ [])
    (hdigits : ∀ c ∈ text, isDigit c = true) :
    fromStringUInt64 text =
      if decimalValue text < 2 ^ 64 then some (UInt64.ofNat (decimalValue text)) else none := by
  obtain ⟨c, rest, rfl⟩ := List.exists_cons_of_ne_nil hne
  have hc := hdigits c List.mem_cons_self
  have hspace : (c :: rest).dropWhile isspace = c :: rest := by
    rw [List.dropWhile_cons, isspace_eq_false_of_isDigit hc, if_neg Bool.false_ne_true]
  have hsign := ne_sign_of_isDigit hc
  have htake : (c :: rest).takeWhile isDigit = c :: rest :=
    List.takeWhile_eq_self_iff.mpr hdigits
  simp only [fromStringUInt64, hspace, List.head?_cons, Option.some.injEq, hsign.1, hsign.2,
    or_self, if_false, htake, reduceCtorEq]

/-- A text with no white space is its own trim. -/
theorem trim_of_forall_isspace_eq_false {t : List UInt8} (h : ∀ c ∈ t, isspace c = false) :
    trim t = t := by
  have hright : t.rdropWhile isspace = t :=
    List.rdropWhile_eq_self_iff.mpr fun hne => by rw [h _ (List.getLast_mem hne)]; decide
  have hleft : t.dropWhile isspace = t :=
    List.dropWhile_eq_self_iff.mpr fun hpos => by rw [h _ (List.getElem_mem hpos)]; decide
  rw [trim, hright, hleft]

end common

namespace Currency

open common

/-! ## The printer and the reader -/

/-- `CRYPTONOTE_DISPLAY_DECIMAL_POINT`, the number of decimal places of the main net. -/
def CRYPTONOTE_DISPLAY_DECIMAL_POINT : ℕ := 6

/-- `Currency::formatAmount(uint64_t)`: the digits of the amount, zero-padded to one more than
the number of decimal places, with a point before the last `numberOfDecimalPlaces`. -/
def formatAmount (numberOfDecimalPlaces : ℕ) (amount : UInt64) : List UInt8 :=
  let s := decimalText amount.toNat
  let s := if s.length < numberOfDecimalPlaces + 1 then
      List.replicate (numberOfDecimalPlaces + 1 - s.length) '0'.toUInt8 ++ s
    else s
  s.take (s.length - numberOfDecimalPlaces) ++
    '.'.toUInt8 :: s.drop (s.length - numberOfDecimalPlaces)

/-- The loop of `parseAmount` that erases trailing zeros after the point while more than
`numberOfDecimalPlaces` digits follow it; it returns the text and that count of digits. -/
def trimFraction (numberOfDecimalPlaces : ℕ) : ℕ → List UInt8 → List UInt8 × ℕ
  | 0, strAmount => (strAmount, 0)
  | fractionSize + 1, strAmount =>
    if numberOfDecimalPlaces < fractionSize + 1 ∧ strAmount.getLast? = some '0'.toUInt8 then
      trimFraction numberOfDecimalPlaces fractionSize strAmount.dropLast
    else (strAmount, fractionSize + 1)

/-- The end of `parseAmount`, once the point is erased: `fractionSize` digits stood after it. -/
def parseAmountDigits (numberOfDecimalPlaces fractionSize : ℕ) (strAmount : List UInt8) :
    Option UInt64 :=
  if strAmount.isEmpty then none
  else if !strAmount.all isDigit then none
  else
    let strAmount := if fractionSize < numberOfDecimalPlaces then
        strAmount ++ List.replicate (numberOfDecimalPlaces - fractionSize) '0'.toUInt8
      else strAmount
    fromStringUInt64 strAmount

/-- `Currency::parseAmount`; `none` is a `false` return. -/
def parseAmount (numberOfDecimalPlaces : ℕ) (str : List UInt8) : Option UInt64 :=
  let strAmount := trim str
  match strAmount.idxOf? '.'.toUInt8 with
  | some pointIndex =>
    match trimFraction numberOfDecimalPlaces (strAmount.length - pointIndex - 1) strAmount with
    | (strAmount, fractionSize) =>
      if numberOfDecimalPlaces < fractionSize then none
      else parseAmountDigits numberOfDecimalPlaces fractionSize (strAmount.eraseIdx pointIndex)
  | none => parseAmountDigits numberOfDecimalPlaces 0 strAmount

/-! ## What a decimal text means -/

/-- The bytes before the point of a text, all of it if it has none. -/
def integerPart (t : List UInt8) : List UInt8 := t.takeWhile (· != '.'.toUInt8)

/-- The bytes after the point of a text, none if it has none. -/
def fractionPart (t : List UInt8) : List UInt8 := (t.dropWhile (· != '.'.toUInt8)).drop 1

/-- A decimal text of the amount `v` with `d` decimal places: decimal digits and at most one
point, at least one digit, at most `d` digits after the point once the trailing zeros beyond
the `d`-th are dropped, and the value `v / 10 ^ d`. -/
structure AmountText (d : ℕ) (t : List UInt8) (v : ℕ) : Prop where
  chars : ∀ c ∈ t, isDigit c = true ∨ c = '.'.toUInt8
  onePoint : t.count '.'.toUInt8 ≤ 1
  someDigit : ∃ c ∈ t, isDigit c = true
  places : ((fractionPart t).take d ++
    ((fractionPart t).drop d).rdropWhile (· == '0'.toUInt8)).length ≤ d
  value : (decimalValue (t.filter isDigit) : ℚ) / 10 ^ (fractionPart t).length = v / 10 ^ d

/-! ## The erasing loop -/

theorem trimFraction_of_le {d n : ℕ} (h : n ≤ d) (strAmount : List UInt8) :
    trimFraction d n strAmount = (strAmount, n) := by
  cases n with
  | zero => rfl
  | succ n => rw [trimFraction, if_neg fun hstep => absurd hstep.1 (Nat.not_lt.mpr h)]

/-- The loop on a text that ends in the fraction `f`: it erases a run of `k` trailing zeros of
`f`, and stops at the last place or at a digit other than zero. -/
theorem trimFraction_append (d : ℕ) (u f : List UInt8) :
    ∃ f' k, f = f' ++ List.replicate k '0'.toUInt8 ∧
      trimFraction d f.length (u ++ f) = (u ++ f', f'.length) ∧
      (f'.length ≤ d ∨ f'.getLast? ≠ some '0'.toUInt8) ∧ (0 < k → d ≤ f'.length) := by
  -- the loop takes bytes off the end, so the induction adds them there
  induction f using List.reverseRecOn with
  | nil =>
    exact ⟨[], 0, rfl, by rw [List.append_nil]; rfl, Or.inl (Nat.zero_le d),
      fun h => absurd h (Nat.lt_irrefl 0)⟩
  | append_singleton f c ih =>
    simp only [List.length_append, List.length_singleton, trimFraction, ← List.append_assoc,
      List.getLast?_concat, List.dropLast_concat, Option.some.injEq]
    by_cases hstep : d < f.length + 1 ∧ c = '0'.toUInt8
    · -- one more zero is erased
      obtain ⟨hd, rfl⟩ := hstep
      rw [if_pos ⟨hd, rfl⟩]
      obtain ⟨f', k, rfl, hrun, hlast, hk⟩ := ih
      refine ⟨f', k + 1, by rw [List.replicate_succ', List.append_assoc], hrun, hlast, fun _ => ?_⟩
      rcases Nat.eq_zero_or_pos k with rfl | hk0
      · simpa using hd
      · exact hk hk0
    · -- the loop stops with `f ++ [c]` after the point
      rw [if_neg hstep]
      refine ⟨f ++ [c], 0, by rw [List.replicate_zero, List.append_nil], ?_, ?_,
        fun h => absurd h (Nat.lt_irrefl 0)⟩
      · rw [List.append_assoc, List.length_append, List.length_singleton]
      · rw [List.length_append, List.length_singleton, List.getLast?_concat, ne_eq,
          Option.some.injEq]
        by_cases hd : d < f.length + 1
        · exact Or.inr fun hc => hstep ⟨hd, hc⟩
        · exact Or.inl (Nat.not_lt.mp hd)

/-- At most `d` digits stay once the trailing zeros beyond the `d`-th are dropped exactly when
every digit beyond the `d`-th is a zero. -/
theorem length_take_append_rdropWhile_le_iff (d : ℕ) (f : List UInt8) :
    (f.take d ++ (f.drop d).rdropWhile (· == '0'.toUInt8)).length ≤ d ↔
      ∀ c ∈ f.drop d, c = '0'.toUInt8 := by
  rcases Nat.lt_or_ge d f.length with hlt | hle
  · have hlen : ∀ n, d + n ≤ d ↔ n = 0 := by omega
    rw [List.length_append, List.length_take_of_le hlt.le, hlen, List.length_eq_zero_iff,
      List.rdropWhile_eq_nil_iff]
    simp only [beq_iff_eq]
  · rw [List.drop_eq_nil_of_le hle, List.take_of_length_le hle]
    simpa using hle

/-- After the loop, the digits beyond the `d`-th are zeros exactly when at most `d` are left. -/
theorem forall_mem_drop_eq_zero_iff {d k : ℕ} {f' : List UInt8}
    (hlast : f'.length ≤ d ∨ f'.getLast? ≠ some '0'.toUInt8) :
    (∀ c ∈ (f' ++ List.replicate k '0'.toUInt8).drop d, c = '0'.toUInt8) ↔ f'.length ≤ d := by
  rw [List.drop_append]
  constructor
  · intro hzero
    by_contra hlt
    rw [Nat.not_le] at hlt
    -- the last digit left stands beyond the `d`-th, and it is no zero
    obtain ⟨x, hx⟩ : ∃ x, f'.getLast? = some x :=
      ⟨_, List.getLast?_eq_some_getLast (List.ne_nil_of_length_pos (by omega))⟩
    have hmem : x ∈ f'.drop d := by
      apply List.mem_of_getLast?
      rw [List.getLast?_drop, if_neg (Nat.not_le.mpr hlt), hx]
    rw [hzero x (List.mem_append_left _ hmem)] at hx
    exact hlast.resolve_left (Nat.not_le.mpr hlt) hx
  · intro hle c hc
    rw [List.drop_eq_nil_of_le hle, List.nil_append] at hc
    exact List.eq_of_mem_replicate (List.mem_of_mem_drop hc)

/-! ## The parts of a text -/

theorem bne_point_of_not_mem {t : List UInt8} (h : '.'.toUInt8 ∉ t) :
    ∀ c ∈ t, (c != '.'.toUInt8) = true := fun c hc => by
  rw [bne_iff_ne]
  exact fun hc' => h (hc' ▸ hc)

theorem integerPart_of_not_mem {t : List UInt8} (h : '.'.toUInt8 ∉ t) : integerPart t = t :=
  List.takeWhile_eq_self_iff.mpr (bne_point_of_not_mem h)

theorem fractionPart_of_not_mem {t : List UInt8} (h : '.'.toUInt8 ∉ t) : fractionPart t = [] := by
  rw [fractionPart, List.dropWhile_eq_nil_iff.mpr (bne_point_of_not_mem h), List.drop_nil]

theorem integerPart_append_point {a : List UInt8} (ha : '.'.toUInt8 ∉ a) (f : List UInt8) :
    integerPart (a ++ '.'.toUInt8 :: f) = a := by
  rw [integerPart, List.takeWhile_append_of_pos (bne_point_of_not_mem ha),
    List.takeWhile_cons_of_neg (by simp), List.append_nil]

theorem fractionPart_append_point {a : List UInt8} (ha : '.'.toUInt8 ∉ a) (f : List UInt8) :
    fractionPart (a ++ '.'.toUInt8 :: f) = f := by
  rw [fractionPart, List.dropWhile_append_of_pos (bne_point_of_not_mem ha),
    List.dropWhile_cons_of_neg (by simp), List.drop_one, List.tail_cons]

/-- The digits and the point of a text split at its first point: digits on both sides. -/
theorem chars_onePoint_iff {a f : List UInt8} (ha : '.'.toUInt8 ∉ a) :
    ((∀ c ∈ a ++ '.'.toUInt8 :: f, isDigit c = true ∨ c = '.'.toUInt8) ∧
      (a ++ '.'.toUInt8 :: f).count '.'.toUInt8 ≤ 1) ↔ ∀ c ∈ a ++ f, isDigit c = true := by
  have hcount : (a ++ '.'.toUInt8 :: f).count '.'.toUInt8 ≤ 1 ↔ '.'.toUInt8 ∉ f := by
    rw [List.count_append, List.count_cons_self, List.count_eq_zero.mpr ha, ← List.count_eq_zero]
    omega
  rw [hcount]
  constructor
  · rintro ⟨hchars, hf⟩ c hc
    rcases List.mem_append.mp hc with hc | hc
    · exact (hchars c (List.mem_append_left _ hc)).resolve_right fun h => ha (h ▸ hc)
    · exact (hchars c (List.mem_append_right _ (List.mem_cons_of_mem _ hc))).resolve_right
        fun h => hf (h ▸ hc)
  · intro hdigits
    refine ⟨fun c hc => ?_, fun hf => ?_⟩
    · rcases List.mem_append.mp hc with hc | hc
      · exact Or.inl (hdigits c (List.mem_append_left _ hc))
      · rcases List.mem_cons.mp hc with rfl | hc
        · exact Or.inr rfl
        · exact Or.inl (hdigits c (List.mem_append_right _ hc))
    · have := hdigits _ (List.mem_append_right _ hf)
      rw [isDigit_point] at this
      exact Bool.false_ne_true this

theorem filter_isDigit_append_point {a f : List UInt8} (h : ∀ c ∈ a ++ f, isDigit c = true) :
    (a ++ '.'.toUInt8 :: f).filter isDigit = a ++ f := by
  rw [List.filter_append, List.filter_cons_of_neg (by simp), ← List.filter_append]
  exact List.filter_eq_self.mpr h

theorem exists_isDigit_append_point_iff {a f : List UInt8} (h : ∀ c ∈ a ++ f, isDigit c = true) :
    (∃ c ∈ a ++ '.'.toUInt8 :: f, isDigit c = true) ↔ a ++ f ≠ [] := by
  constructor
  · rintro ⟨c, hc, hdigit⟩ hnil
    rw [List.append_eq_nil_iff] at hnil
    rw [hnil.1, hnil.2, List.nil_append, List.mem_singleton] at hc
    rw [hc, isDigit_point] at hdigit
    exact Bool.false_ne_true hdigit
  · intro hne
    obtain ⟨c, hc⟩ := List.exists_mem_of_ne_nil _ hne
    refine ⟨c, ?_, h c hc⟩
    rcases List.mem_append.mp hc with hc | hc
    · exact List.mem_append_left _ hc
    · exact List.mem_append_right _ (List.mem_cons_of_mem _ hc)

/-- Two decimal fractions with denominators `10 ^ m ≤ 10 ^ d` agree when the numerators differ
by the factor `10 ^ (d - m)`. -/
theorem div_ten_pow_eq_div_ten_pow_iff {D v m d : ℕ} (h : m ≤ d) :
    (D : ℚ) / 10 ^ m = v / 10 ^ d ↔ v = D * 10 ^ (d - m) := by
  have hpow : (10 : ℚ) ^ d = 10 ^ (d - m) * 10 ^ m := by rw [← pow_add, Nat.sub_add_cancel h]
  have hten : ∀ n, (10 : ℚ) ^ n ≠ 0 := fun n => pow_ne_zero n (by norm_num)
  rw [div_eq_div_iff (hten m) (hten d), hpow, ← mul_assoc, mul_left_inj' (hten m), eq_comm]
  constructor <;> intro hv <;> exact_mod_cast hv

/-- The zeros the loop erases do not change the value of the text. -/
theorem value_append_zeros (a f' : List UInt8) (k : ℕ) :
    (decimalValue (a ++ (f' ++ List.replicate k '0'.toUInt8)) : ℚ) /
        10 ^ (f' ++ List.replicate k '0'.toUInt8).length =
      decimalValue (a ++ f') / 10 ^ f'.length := by
  rw [← List.append_assoc, decimalValue_append_zeros, List.length_append, List.length_replicate,
    Nat.cast_mul, Nat.cast_pow, pow_add, Nat.cast_ofNat, mul_div_mul_right _ _ (pow_ne_zero k (by norm_num))]

/-! ## Which texts are amounts -/

theorem amountText_iff_of_not_mem {d v : ℕ} {t : List UInt8} (h : '.'.toUInt8 ∉ t) :
    AmountText d t v ↔ t ≠ [] ∧ (∀ c ∈ t, isDigit c = true) ∧ v = decimalValue t * 10 ^ d := by
  have hvalue : ∀ hdigits : ∀ c ∈ t, isDigit c = true,
      (decimalValue (t.filter isDigit) : ℚ) / 10 ^ (fractionPart t).length = v / 10 ^ d ↔
        v = decimalValue t * 10 ^ d := fun hdigits => by
    rw [List.filter_eq_self.mpr hdigits, fractionPart_of_not_mem h, List.length_nil,
      div_ten_pow_eq_div_ten_pow_iff (Nat.zero_le d), Nat.sub_zero]
  constructor
  · rintro ⟨hchars, -, ⟨c, hc, hdigit⟩, -, hval⟩
    have hdigits : ∀ c ∈ t, isDigit c = true := fun c hc =>
      (hchars c hc).resolve_right fun hc' => h (hc' ▸ hc)
    exact ⟨List.ne_nil_of_mem hc, hdigits, (hvalue hdigits).mp hval⟩
  · rintro ⟨hne, hdigits, hv⟩
    obtain ⟨c, hc⟩ := List.exists_mem_of_ne_nil _ hne
    refine ⟨fun c hc => Or.inl (hdigits c hc), ?_, ⟨c, hc, hdigits c hc⟩, ?_,
      (hvalue hdigits).mpr hv⟩
    · rw [List.count_eq_zero.mpr h]
      exact Nat.zero_le 1
    · rw [fractionPart_of_not_mem h]
      simp

/-- A text with a point, its fraction written as what the loop leaves and the zeros it erases. -/
theorem amountText_append_point_iff {d v k : ℕ} {a f' : List UInt8} (ha : '.'.toUInt8 ∉ a)
    (hlast : f'.length ≤ d ∨ f'.getLast? ≠ some '0'.toUInt8) :
    AmountText d (a ++ '.'.toUInt8 :: (f' ++ List.replicate k '0'.toUInt8)) v ↔
      f'.length ≤ d ∧ a ++ (f' ++ List.replicate k '0'.toUInt8) ≠ [] ∧
        (∀ c ∈ a ++ f', isDigit c = true) ∧ v = decimalValue (a ++ f') * 10 ^ (d - f'.length) := by
  have hzeros : ∀ c ∈ List.replicate k '0'.toUInt8, isDigit c = true := fun c hc => by
    rw [List.eq_of_mem_replicate hc, isDigit_zero]
  -- the digits of the whole fraction are those the loop leaves, then zeros
  have hdigits_iff : (∀ c ∈ a ++ (f' ++ List.replicate k '0'.toUInt8), isDigit c = true) ↔
      ∀ c ∈ a ++ f', isDigit c = true := by
    rw [← List.append_assoc]
    constructor
    · exact fun h c hc => h c (List.mem_append_left _ hc)
    · intro h c hc
      rcases List.mem_append.mp hc with hc | hc
      · exact h c hc
      · exact hzeros c hc
  rw [← forall_mem_drop_eq_zero_iff hlast, ← length_take_append_rdropWhile_le_iff, ← hdigits_iff,
    ← chars_onePoint_iff ha]
  constructor
  · rintro ⟨hchars, hone, hsome, hplaces, hval⟩
    have hdigits := (chars_onePoint_iff ha).mp ⟨hchars, hone⟩
    rw [fractionPart_append_point ha] at hplaces hval
    rw [filter_isDigit_append_point hdigits, value_append_zeros] at hval
    have hle := (forall_mem_drop_eq_zero_iff hlast).mp
      ((length_take_append_rdropWhile_le_iff d _).mp hplaces)
    exact ⟨hplaces, (exists_isDigit_append_point_iff hdigits).mp hsome, ⟨hchars, hone⟩,
      (div_ten_pow_eq_div_ten_pow_iff hle).mp hval⟩
  · rintro ⟨hplaces, hne, hchars, hv⟩
    have hdigits := (chars_onePoint_iff ha).mp hchars
    have hle := (forall_mem_drop_eq_zero_iff hlast).mp
      ((length_take_append_rdropWhile_le_iff d _).mp hplaces)
    refine ⟨hchars.1, hchars.2, (exists_isDigit_append_point_iff hdigits).mpr hne, ?_, ?_⟩
    · rwa [fractionPart_append_point ha]
    · rw [fractionPart_append_point ha, filter_isDigit_append_point hdigits, value_append_zeros]
      exact (div_ten_pow_eq_div_ten_pow_iff hle).mpr hv

/-! ## The reader on each kind of text -/

/-- The end of the reader on digits: the padded number, if it fits in 64 bits. -/
theorem parseAmountDigits_of_digits {d n : ℕ} {x : List UInt8} (hne : x ≠ [])
    (hdigits : ∀ c ∈ x, isDigit c = true) :
    parseAmountDigits d n x =
      if decimalValue x * 10 ^ (d - n) < 2 ^ 64 then
        some (UInt64.ofNat (decimalValue x * 10 ^ (d - n)))
      else none := by
  -- with `n ≥ d` nothing is appended, which is appending `10 ^ 0`
  have hpad : (if n < d then x ++ List.replicate (d - n) '0'.toUInt8 else x) =
      x ++ List.replicate (d - n) '0'.toUInt8 := by
    split
    · rfl
    · rw [Nat.sub_eq_zero_of_le (by omega), List.replicate_zero, List.append_nil]
  have hpadded : ∀ c ∈ x ++ List.replicate (d - n) '0'.toUInt8, isDigit c = true := fun c hc => by
    rcases List.mem_append.mp hc with hc | hc
    · exact hdigits c hc
    · rw [List.eq_of_mem_replicate hc, isDigit_zero]
  have hall : x.all isDigit = true := List.all_eq_true.mpr hdigits
  simp only [parseAmountDigits, List.isEmpty_iff, hne, hall, Bool.not_true, if_false, hpad,
    Bool.false_eq_true]
  rw [fromStringUInt64_of_digits (by simp [hne]) hpadded, decimalValue_append_zeros]

theorem map_parseAmountDigits_eq_some_iff {d n v : ℕ} {x : List UInt8} :
    (parseAmountDigits d n x).map UInt64.toNat = some v ↔
      x ≠ [] ∧ (∀ c ∈ x, isDigit c = true) ∧ v = decimalValue x * 10 ^ (d - n) ∧ v < 2 ^ 64 := by
  by_cases hne : x = []
  · subst hne
    simp [parseAmountDigits]
  by_cases hdigits : ∀ c ∈ x, isDigit c = true
  · rw [parseAmountDigits_of_digits hne hdigits]
    split
    · rename_i hfit
      rw [Option.map_some, Option.some.injEq, UInt64.toNat_ofNat_of_lt' hfit]
      constructor
      · rintro rfl
        exact ⟨hne, hdigits, rfl, hfit⟩
      · rintro ⟨-, -, rfl, -⟩
        rfl
    · rename_i hfit
      simp only [Option.map_none, reduceCtorEq, false_iff]
      rintro ⟨-, -, rfl, hv⟩
      exact hfit hv
  · have hall : x.all isDigit = false := by
      rw [Bool.eq_false_iff, ne_eq, List.all_eq_true]
      exact hdigits
    simp [parseAmountDigits, hne, hall, hdigits]

/-- A text without a point is read as an integer of whole coins. -/
theorem parseAmount_of_not_mem {d : ℕ} {str : List UInt8} (h : '.'.toUInt8 ∉ trim str) :
    parseAmount d str = parseAmountDigits d 0 (trim str) := by
  simp only [parseAmount, List.idxOf?_eq_none_iff.mpr h]

/-- A text with a point is read with the digits the loop leaves after it. -/
theorem parseAmount_of_eq_append_point {d : ℕ} {str a f f' : List UInt8}
    (h : trim str = a ++ '.'.toUInt8 :: f) (ha : '.'.toUInt8 ∉ a)
    (hrun : trimFraction d f.length (a ++ '.'.toUInt8 :: f) = (a ++ '.'.toUInt8 :: f', f'.length)) :
    parseAmount d str = if d < f'.length then none else parseAmountDigits d f'.length (a ++ f') := by
  have hsize : (a ++ '.'.toUInt8 :: f).length - a.length - 1 = f.length := by
    rw [List.length_append, List.length_cons]
    omega
  have herase : (a ++ '.'.toUInt8 :: f').eraseIdx a.length = a ++ f' := by
    rw [List.eraseIdx_append_of_length_le (le_refl _), Nat.sub_self, List.eraseIdx_cons_zero]
  simp only [parseAmount, h, List.idxOf?_append_cons f ha, hsize, hrun, herase]

/-- **Round trip**: the reader reads back every amount the printer writes, whatever the number
of decimal places. -/
theorem formatAmount_eq (d : ℕ) (amount : UInt64) :
    ∃ s : List UInt8, formatAmount d amount =
        s.take (s.length - d) ++ '.'.toUInt8 :: s.drop (s.length - d) ∧
      d + 1 ≤ s.length ∧ (∀ c ∈ s, isDigit c = true) ∧ decimalValue s = amount.toNat := by
  refine ⟨if (decimalText amount.toNat).length < d + 1 then
      List.replicate (d + 1 - (decimalText amount.toNat).length) '0'.toUInt8 ++
        decimalText amount.toNat
    else decimalText amount.toNat, rfl, ?_, ?_, ?_⟩
  · split
    · rw [List.length_append, List.length_replicate]
      omega
    · omega
  · intro c hc
    split at hc
    · rcases List.mem_append.mp hc with hc | hc
      · rw [List.eq_of_mem_replicate hc, isDigit_zero]
      · exact isDigit_of_mem_decimalText hc
    · exact isDigit_of_mem_decimalText hc
  · split
    · rw [decimalValue_append, decimalValue_replicate_zero, Nat.zero_mul, Nat.zero_add,
        decimalValue_decimalText]
    · exact decimalValue_decimalText _

theorem parseAmount_formatAmount (d : ℕ) (amount : UInt64) :
    parseAmount d (formatAmount d amount) = some amount := by
  obtain ⟨s, hs, hlen, hdigits, hvalue⟩ := formatAmount_eq d amount
  have hf : (s.drop (s.length - d)).length = d := by
    rw [List.length_drop]
    omega
  have ha : '.'.toUInt8 ∉ s.take (s.length - d) := fun hmem => by
    have := hdigits _ (List.mem_of_mem_take hmem)
    rw [isDigit_point] at this
    exact Bool.false_ne_true this
  -- the printer writes no white space
  have htrim : trim (formatAmount d amount) = formatAmount d amount := by
    apply trim_of_forall_isspace_eq_false
    intro c hc
    rw [hs] at hc
    rcases List.mem_append.mp hc with hc | hc
    · exact isspace_eq_false_of_isDigit (hdigits c (List.mem_of_mem_take hc))
    · rcases List.mem_cons.mp hc with rfl | hc
      · exact isspace_point
      · exact isspace_eq_false_of_isDigit (hdigits c (List.mem_of_mem_drop hc))
  have hne : s ≠ [] := List.ne_nil_of_length_pos (by omega)
  rw [parseAmount_of_eq_append_point (htrim.trans hs) ha (trimFraction_of_le hf.le _), hf,
    if_neg (Nat.lt_irrefl d), List.take_append_drop, parseAmountDigits_of_digits hne hdigits,
    Nat.sub_self, pow_zero, Nat.mul_one, hvalue, if_pos (UInt64.toNat_lt amount),
    UInt64.ofNat_toNat]

/-- With no decimal places, a text is read only if a digit stands before the point. -/
theorem nonempty_iff_of_trimFraction {d k : ℕ} {a f' : List UInt8} (hle : f'.length ≤ d)
    (hk : 0 < k → d ≤ f'.length) :
    a ++ f' ≠ [] ↔ a ++ (f' ++ List.replicate k '0'.toUInt8) ≠ [] ∧ (d = 0 → a ≠ []) := by
  constructor
  · intro hne
    refine ⟨fun hnil => hne ?_, fun hd ha => hne ?_⟩
    · rw [List.append_eq_nil_iff, List.append_eq_nil_iff] at hnil
      rw [hnil.1, hnil.2.1, List.append_nil]
    · rw [ha, List.nil_append, ← List.length_eq_zero_iff]
      omega
  · rintro ⟨hne, hd⟩ hnil
    rw [List.append_eq_nil_iff] at hnil
    rw [hnil.1, hnil.2, List.nil_append, List.nil_append] at hne
    -- the loop erased every digit after the point, so it stopped at zero places
    have hk0 : 0 < k := by
      rcases Nat.eq_zero_or_pos k with rfl | hk0
      · exact absurd rfl hne
      · exact hk0
    have := hk hk0
    rw [hnil.2, List.length_nil] at this
    exact hd (Nat.le_zero.mp this) hnil.1

theorem exists_isDigit_iff_ne_nil {a : List UInt8} (h : ∀ c ∈ a, isDigit c = true) :
    (∃ c ∈ a, isDigit c = true) ↔ a ≠ [] := by
  constructor
  · rintro ⟨c, hc, -⟩
    exact List.ne_nil_of_mem hc
  · intro hne
    obtain ⟨c, hc⟩ := List.exists_mem_of_ne_nil _ hne
    exact ⟨c, hc, h c hc⟩

/-- **What the reader reads**: a text is read as `v` exactly when, trimmed, it is a decimal
text of `v` with `v < 2 ^ 64`, and with no decimal places it has a digit before the point. -/
theorem map_parseAmount_eq_some_iff (d : ℕ) (str : List UInt8) (v : ℕ) :
    (parseAmount d str).map UInt64.toNat = some v ↔
      AmountText d (trim str) v ∧ (d = 0 → ∃ c ∈ integerPart (trim str), isDigit c = true) ∧
        v < 2 ^ 64 := by
  -- the cases of the reader: the first point of the trimmed text, if any
  cases hidx : (trim str).idxOf? '.'.toUInt8 with
  | none =>
    have h := List.idxOf?_eq_none_iff.mp hidx
    rw [parseAmount_of_not_mem h, map_parseAmountDigits_eq_some_iff, amountText_iff_of_not_mem h,
      integerPart_of_not_mem h, Nat.sub_zero]
    constructor
    · rintro ⟨hne, hdigits, hv, hfit⟩
      exact ⟨⟨hne, hdigits, hv⟩, fun _ => (exists_isDigit_iff_ne_nil hdigits).mpr hne, hfit⟩
    · rintro ⟨⟨hne, hdigits, hv⟩, -, hfit⟩
      exact ⟨hne, hdigits, hv, hfit⟩
  | some pointIndex =>
    obtain ⟨a, f, htrim, ha, -⟩ := List.eq_append_cons_of_idxOf?_eq_some hidx
    obtain ⟨f', k, rfl, hrun, hlast, hk⟩ := trimFraction_append d (a ++ ['.'.toUInt8]) f
    rw [List.append_assoc, List.singleton_append, List.append_assoc, List.singleton_append] at hrun
    rw [parseAmount_of_eq_append_point htrim ha hrun, htrim, amountText_append_point_iff ha hlast,
      integerPart_append_point ha]
    by_cases hd : d < f'.length
    · -- more than `d` digits are left after the point
      rw [if_pos hd, Option.map_none]
      constructor
      · intro hnone
        exact absurd hnone (by simp)
      · rintro ⟨⟨hle, -⟩, -⟩
        exact absurd hle (Nat.not_le.mpr hd)
    · rw [if_neg hd, map_parseAmountDigits_eq_some_iff]
      have hle := Nat.not_lt.mp hd
      have hnonempty := nonempty_iff_of_trimFraction (a := a) hle hk
      constructor
      · rintro ⟨hne, hdigits, hv, hfit⟩
        have hdigits_a : ∀ c ∈ a, isDigit c = true := fun c hc => hdigits c (List.mem_append_left _ hc)
        obtain ⟨hne', hzero⟩ := hnonempty.mp hne
        exact ⟨⟨hle, hne', hdigits, hv⟩,
          fun hd0 => (exists_isDigit_iff_ne_nil hdigits_a).mpr (hzero hd0), hfit⟩
      · rintro ⟨⟨-, hne', hdigits, hv⟩, hzero, hfit⟩
        have hdigits_a : ∀ c ∈ a, isDigit c = true := fun c hc => hdigits c (List.mem_append_left _ hc)
        refine ⟨hnonempty.mpr ⟨hne', fun hd0 => ?_⟩, hdigits, hv, hfit⟩
        exact (exists_isDigit_iff_ne_nil hdigits_a).mp (hzero hd0)

/-- The reader is exact: every printed amount reads back, and a text is read as `v` exactly when
it is a decimal text of `v < 2 ^ 64`, with a digit before the point when there are no places. -/
theorem parseAmount_exact :
    (∀ d amount, parseAmount d (formatAmount d amount) = some amount) ∧
      ∀ d str v, (parseAmount d str).map UInt64.toNat = some v ↔
        AmountText d (trim str) v ∧ (d = 0 → ∃ c ∈ integerPart (trim str), isDigit c = true) ∧
          v < 2 ^ 64 :=
  ⟨parseAmount_formatAmount, map_parseAmount_eq_some_iff⟩

/-- With no decimal places `".0"` is a decimal text of zero, but the loop erases its only
digit, the point goes with it, and the empty rest is refused. -/
theorem parseAmount_point_zero :
    AmountText 0 (trim ['.'.toUInt8, '0'.toUInt8]) 0 ∧ 0 < 2 ^ 64 ∧
      parseAmount 0 ['.'.toUInt8, '0'.toUInt8] = none := by
  have hmem : ∀ c ∈ ['.'.toUInt8, '0'.toUInt8], c = '.'.toUInt8 ∨ c = '0'.toUInt8 := by
    intro c hc
    simpa only [List.mem_cons, List.mem_singleton, List.not_mem_nil, or_false] using hc
  have htrim : trim ['.'.toUInt8, '0'.toUInt8] = ['.'.toUInt8, '0'.toUInt8] := by
    apply trim_of_forall_isspace_eq_false
    intro c hc
    rcases hmem c hc with rfl | rfl
    · exact isspace_point
    · exact isspace_eq_false_of_isDigit isDigit_zero
  have hfraction : fractionPart ['.'.toUInt8, '0'.toUInt8] = ['0'.toUInt8] :=
    fractionPart_append_point List.not_mem_nil ['0'.toUInt8]
  refine ⟨?_, by norm_num, by decide⟩
  rw [htrim]
  refine ⟨fun c hc => ?_, by decide, ⟨'0'.toUInt8, by simp, isDigit_zero⟩, ?_, ?_⟩
  · rcases hmem c hc with rfl | rfl
    · exact Or.inr rfl
    · exact Or.inl isDigit_zero
  · rw [hfraction]
    decide
  · have hdigits : ['.'.toUInt8, '0'.toUInt8].filter isDigit = ['0'.toUInt8] :=
      filter_isDigit_append_point (a := []) (by simp)
    rw [hdigits, hfraction, show decimalValue ['0'.toUInt8] = 0 by decide]
    simp

end Currency

end UltraNoteCore
