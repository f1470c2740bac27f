import UltraNoteCore.Common.StreamTools
import Mathlib.Data.Nat.Digits.Lemmas

/-!
# The JSON text of `common::JsonValue`

`JsonValue::toString` writes a value with `operator<<` and `JsonValue::fromString` reads one
with `operator>>` (`JsonValue.cpp`). The printer writes object keys as they are and escapes
only two bytes of a string, a double quote as backslash-quote and a newline as
backslash-newline. The reader ends a string or a key at the first double quote not after a
backslash and keeps every backslash with the byte after it, so it undoes neither escape.

A value is modelled without its `REAL` case: the reader's branch for a number with a dot is
not followed (`readNumber`). Text is a list of bytes, as `std::string` is. An `Object` is the
list of a `std::map`'s entries in key order; `SortedKeys` is the invariant of the map.

The reader is the stream state passed along (`Codec.Decoder`), with an exception as an error.
Its mutual recursion goes by `fuel`: every call takes one from it, and `fromString` gives
three per byte of its text, as each call reads a byte of its own or is one of the at most
three calls made before the next byte is read.

## Main definitions

* `JsonValue`, `JsonValue.toString`, `ReplaceStringInPlace`
* `readValue` (`operator>>`), `readArray`, `readObject`, `readString`, `readNumber`,
  `fromString`
* `JsonValue.SortedKeys`, `JsonValue.NoEscapes`

## Main results

* `readValue_toString`: the reader reads back every printed value whose strings and keys hold
  no byte the printer escapes or the reader unescapes
* `fromString_toString`: hence `fromString (toString v) = v` for those values
* `fromString_toString_quote`: a string holding a double quote reads back with a backslash
  before it
-/

namespace UltraNoteCore

namespace common

open Codec

/-- `common::JsonValue` without its `REAL` case; `Integer` is `int64_t`, and an `Object`
holds the entries of its `std::map` in key order. -/
inductive JsonValue where
  | array (elements : List JsonValue)
  | bool (value : Bool)
  | integer (value : Int64)
  | nil
  | object (members : List (List UInt8 × JsonValue))
  | string (value : List UInt8)
deriving Repr

/-! ## The printer -/

/-- `ReplaceStringInPlace`: every occurrence of `search`, from left to right, becomes `replace`;
the search goes on after the replacement. After a match the `skip` bytes still inside it are
passed over. (The source loops forever on an empty `search`, which no caller passes.) -/
def ReplaceStringInPlace (search replace : List UInt8) : ℕ → List UInt8 → List UInt8
  | _, [] => []
  | 0, c :: rest =>
    if search.isPrefixOf (c :: rest) then
      replace ++ ReplaceStringInPlace search replace (search.length - 1) rest
    else c :: ReplaceStringInPlace search replace 0 rest
  | skip + 1, _ :: rest => ReplaceStringInPlace search replace skip rest

/-- The decimal digits `std::ostream` writes for `n`, most significant first. -/
def decimalText (n : ℕ) : List UInt8 :=
  if n = 0 then ['0'.toUInt8] else (Nat.digits 10 n).reverse.map fun d => (d + 48).toUInt8

/-- `out << valueInteger`. -/
def integerText (value : Int64) : List UInt8 :=
  if value.toInt < 0 then '-'.toUInt8 :: decimalText (-value.toInt).toNat
  else decimalText value.toInt.toNat

/-- The text of a `STRING` between its quotes: quotes, then newlines, escaped. -/
def escapeString (str : List UInt8) : List UInt8 :=
  ReplaceStringInPlace ['\n'.toUInt8] ['\\'.toUInt8, '\n'.toUInt8] 0
    (ReplaceStringInPlace ['"'.toUInt8] ['\\'.toUInt8, '"'.toUInt8] 0 str)

mutual

/-- `operator<<(std::ostream&, const JsonValue&)`, as `toString` returns it. -/
def JsonValue.toString : JsonValue → List UInt8
  | .array elements => '['.toUInt8 :: writeElements elements ++ [']'.toUInt8]
  | .bool value =>
    if value then ['t'.toUInt8, 'r'.toUInt8, 'u'.toUInt8, 'e'.toUInt8]
    else ['f'.toUInt8, 'a'.toUInt8, 'l'.toUInt8, 's'.toUInt8, 'e'.toUInt8]
  | .integer value => integerText value
  | .nil => ['n'.toUInt8, 'u'.toUInt8, 'l'.toUInt8, 'l'.toUInt8]
  | .object members => '\x7b'.toUInt8 :: writeMembers members ++ ['\x7d'.toUInt8]
  | .string value => '"'.toUInt8 :: escapeString value ++ ['"'.toUInt8]

/-- The elements of an `ARRAY`, separated by commas. -/
def writeElements : List JsonValue → List UInt8
  | [] => []
  | [value] => value.toString
  | value :: next :: rest => value.toString ++ ','.toUInt8 :: writeElements (next :: rest)

/-- The members of an `OBJECT`, each its key in quotes, a colon and its value, separated by
commas. -/
def writeMembers : List (List UInt8 × JsonValue) → List UInt8
  | [] => []
  | [(key, value)] => '"'.toUInt8 :: key ++ '"'.toUInt8 :: ':'.toUInt8 :: value.toString
  | (key, value) :: next :: rest =>
    '"'.toUInt8 :: key ++ '"'.toUInt8 :: ':'.toUInt8 :: value.toString ++
      ','.toUInt8 :: writeMembers (next :: rest)

end

/-! ## The reader -/

/-- `isspace` in the "C" locale. -/
def isspace (c : UInt8) : Bool := c = 32 || (9 ≤ c && c ≤ 13)

/-- A decimal digit. -/
def isDigit (c : UInt8) : Bool := '0'.toUInt8 ≤ c && c ≤ '9'.toUInt8

/-- `readNonWsChar`: the next byte that is not white space. -/
def readNonWsChar : Codec.Decoder String UInt8 UInt8
  | [] => .error "Unable to parse: unexpected end of stream"
  | c :: rest => if isspace c then readNonWsChar rest else .ok (c, rest)

/-- `readStringToken`, with the bytes read so far: up to the first double quote that does not
follow a backslash; a backslash is kept together with the byte after it. -/
def readStringToken (value : List UInt8) : Codec.Decoder String UInt8 (List UInt8)
  | [] => .error "Unable to parse: unexpected end of stream"
  | c :: rest =>
    if c = '"'.toUInt8 then .ok (value, rest)
    else if c = '\\'.toUInt8 then
      match rest with
      | [] => .error "Unable to parse: unexpected end of stream"
      | c' :: rest' => readStringToken (value ++ [c, c']) rest'
    else readStringToken (value ++ [c]) rest

/-- The loop of `readNumber`: digits and dots, with the dots counted. -/
def readNumberText (text : List UInt8) (dots : ℕ) :
    List UInt8 → List UInt8 × ℕ × List UInt8
  | [] => (text, dots, [])
  | c :: rest =>
    if isDigit c then readNumberText (text ++ [c]) dots rest
    else if c = '.'.toUInt8 then readNumberText (text ++ ['.'.toUInt8]) (dots + 1) rest
    else (text, dots, c :: rest)

/-- The number a string of decimal digits writes. -/
def decimalValue (digits : List UInt8) : ℕ :=
  Nat.ofDigits 10 (digits.reverse.map fun c => c.toNat - 48)

/-- `std::istringstream(text) >> value` into an `int64_t`, for a sign or digit followed by
digits: a value out of range is the nearest bound, and a lone sign gives `0`. -/
def parseInteger : List UInt8 → Int64
  | [] => 0
  | c :: digits =>
    if c = '-'.toUInt8 then
      if digits = [] then 0 else Int64.ofInt (max (-(decimalValue digits : ℤ)) (-2 ^ 63))
    else Int64.ofInt (min (decimalValue (c :: digits) : ℤ) (2 ^ 63 - 1))

/-- The test of `readNumber` against a leading zero: `0` and a minus sign followed by `0`
start no longer integer. -/
def hasLeadingZero : List UInt8 → Bool
  | c :: d :: _ => c = '0'.toUInt8 || (c = '-'.toUInt8 && d = '0'.toUInt8)
  | _ => false

/-- `JsonValue::readNumber`, after its first byte `c`. -/
def readNumber (c : UInt8) : Codec.Decoder String UInt8 JsonValue := fun input =>
  match readNumberText [c] 0 input with
  | (text, dots, rest) =>
    if 0 < dots then .error "a REAL value is outside this model"
    else if hasLeadingZero text then .error "Unable to parse"
    else .ok (.integer (parseInteger text), rest)

/-- `in.read(data, n)` compared with the rest of a literal: a short read fails the test too. -/
def readLiteral (literal : List UInt8) (value : JsonValue) :
    Codec.Decoder String UInt8 JsonValue := fun input =>
  if input.take literal.length = literal then .ok (value, input.drop literal.length)
  else .error "Unable to parse"

/-- `JsonValue::readTrue`. -/
def readTrue : Codec.Decoder String UInt8 JsonValue :=
  readLiteral ['r'.toUInt8, 'u'.toUInt8, 'e'.toUInt8] (.bool true)

/-- `JsonValue::readFalse`. -/
def readFalse : Codec.Decoder String UInt8 JsonValue :=
  readLiteral ['a'.toUInt8, 'l'.toUInt8, 's'.toUInt8, 'e'.toUInt8] (.bool false)

/-- `JsonValue::readNull`. -/
def readNull : Codec.Decoder String UInt8 JsonValue :=
  readLiteral ['u'.toUInt8, 'l'.toUInt8, 'l'.toUInt8] .nil

/-- `JsonValue::readString`. -/
def readString : Codec.Decoder String UInt8 JsonValue := .string <$> readStringToken []

/-- `value[name]` followed by the read into it: the member under `name` is set, and the
entries stay in key order. -/
def insertMember (name : List UInt8) (member : JsonValue) :
    List (List UInt8 × JsonValue) → List (List UInt8 × JsonValue)
  | [] => [(name, member)]
  | (key, value) :: rest =>
    if name < key then (name, member) :: (key, value) :: rest
    else if name = key then (name, member) :: rest
    else (key, value) :: insertMember name member rest

mutual

/-- `operator>>(std::istream&, JsonValue&)`: the first byte that is not white space decides
what is read. -/
def readValue : ℕ → Codec.Decoder String UInt8 JsonValue
  | 0 => throw "out of fuel"
  | fuel + 1 => do
    let c ← readNonWsChar
    if c = '['.toUInt8 then readArray fuel
    else if c = 't'.toUInt8 then readTrue
    else if c = 'f'.toUInt8 then readFalse
    else if c = '-'.toUInt8 || isDigit c then readNumber c
    else if c = 'n'.toUInt8 then readNull
    else if c = '\x7b'.toUInt8 then readObject fuel
    else if c = '"'.toUInt8 then readString
    else throw "Unable to parse"

/-- `JsonValue::readArray`, after the opening bracket: the byte read is put back when it does
not close the array. -/
def readArray : ℕ → Codec.Decoder String UInt8 JsonValue
  | 0 => throw "out of fuel"
  | fuel + 1 => do
    let c ← readNonWsChar
    if c ≠ ']'.toUInt8 then do
      modify (c :: ·)
      readArrayElements fuel []
    else pure (.array [])

/-- The loop of `readArray`, with the elements read so far: an element, then a closing bracket
or a comma. -/
def readArrayElements : ℕ → List JsonValue → Codec.Decoder String UInt8 JsonValue
  | 0, _ => throw "out of fuel"
  | fuel + 1, value => do
    let element ← readValue fuel
    let c ← readNonWsChar
    if c = ']'.toUInt8 then pure (.array (value ++ [element]))
    else if c ≠ ','.toUInt8 then throw "Unable to parse"
    else readArrayElements fuel (value ++ [element])

/-- `JsonValue::readObject`, after the opening brace. -/
def readObject : ℕ → Codec.Decoder String UInt8 JsonValue
  | 0 => throw "out of fuel"
  | fuel + 1 => do
    let c ← readNonWsChar
    if c ≠ '\x7d'.toUInt8 then readObjectMembers fuel c [] else pure (.object [])

/-- The loop of `readObject`, at the byte `c` that must open a key, with the entries read so
far: a key, a colon, a value, then a closing brace or a comma and the next byte. -/
def readObjectMembers : ℕ → UInt8 → List (List UInt8 × JsonValue) →
    Codec.Decoder String UInt8 JsonValue
  | 0, _, _ => throw "out of fuel"
  | fuel + 1, c, value =>
    if c ≠ '"'.toUInt8 then throw "Unable to parse"
    else do
      let name ← readStringToken []
      let c ← readNonWsChar
      if c ≠ ':'.toUInt8 then throw "Unable to parse"
      else do
        let member ← readValue fuel
        let value := insertMember name member value
        let c ← readNonWsChar
        if c = '\x7d'.toUInt8 then pure (.object value)
        else if c ≠ ','.toUInt8 then throw "Unable to parse"
        else do
          let c ← readNonWsChar
          readObjectMembers fuel c value

end

/-- `JsonValue::fromString`: what follows the value is not read. -/
def fromString (source : List UInt8) : Except String JsonValue :=
  (readValue (3 * source.length + 1)).run' source

/-! ## What the round trip needs of a value -/

/-- The invariant of `std::map`: at every object the keys increase strictly. -/
def JsonValue.SortedKeys : JsonValue → Prop
  | .array elements => ∀ element ∈ elements, element.SortedKeys
  | .object members =>
    (members.map Prod.fst).Pairwise (· < ·) ∧ ∀ member ∈ members, member.2.SortedKeys
  | _ => True
decreasing_by
  all_goals simp_wf
  · have helement := List.sizeOf_lt_of_mem ‹element ∈ elements›
    omega
  · -- a member's value is smaller than the member, which is smaller than the list
    have hmember := List.sizeOf_lt_of_mem ‹member ∈ members›
    obtain ⟨key, value⟩ := member
    simp only [Prod.mk.sizeOf_spec] at hmember ⊢
    omega

/-- No string holds a byte the printer escapes or the reader keeps escaped (a double quote, a
backslash, a newline), and no key a double quote or a backslash. -/
def JsonValue.NoEscapes : JsonValue → Prop
  | .array elements => ∀ element ∈ elements, element.NoEscapes
  | .object members => ∀ member ∈ members,
    '"'.toUInt8 ∉ member.1 ∧ '\\'.toUInt8 ∉ member.1 ∧ member.2.NoEscapes
  | .string value => '"'.toUInt8 ∉ value ∧ '\\'.toUInt8 ∉ value ∧ '\n'.toUInt8 ∉ value
  | _ => True
decreasing_by
  all_goals simp_wf
  · have helement := List.sizeOf_lt_of_mem ‹element ∈ elements›
    omega
  · -- a member's value is smaller than the member, which is smaller than the list
    have hmember := List.sizeOf_lt_of_mem ‹member ∈ members›
    obtain ⟨key, value⟩ := member
    simp only [Prod.mk.sizeOf_spec] at hmember ⊢
    omega

/-- What follows a value does not continue a number. -/
def NumberEnd (rest : List UInt8) : Prop :=
  ∀ c ∈ rest.head?, isDigit c = false ∧ c ≠ '.'.toUInt8

theorem numberEnd_nil : NumberEnd [] := by
  intro c hc
  cases hc

theorem numberEnd_cons {c : UInt8} (rest : List UInt8) (hdigit : isDigit c = false)
    (hdot : c ≠ '.'.toUInt8) : NumberEnd (c :: rest) := by
  intro d hd
  cases hd
  exact ⟨hdigit, hdot⟩

/-! ## Bytes and numbers -/

theorem isDigit_iff {c : UInt8} : isDigit c = true ↔ 48 ≤ c.toNat ∧ c.toNat ≤ 57 := by
  have h0 : ('0'.toUInt8).toNat = 48 := rfl
  have h9 : ('9'.toUInt8).toNat = 57 := rfl
  simp [isDigit, UInt8.le_iff_toNat_le, h0, h9]

theorem isspace_eq_false_of_isDigit {c : UInt8} (h : isDigit c = true) : isspace c = false := by
  rw [isDigit_iff] at h
  simp [isspace, UInt8.le_iff_toNat_le, UInt8.ext_iff]
  omega

theorem isDigit_digitByte : ∀ d < 10, isDigit (d + 48).toUInt8 = true := by decide

theorem digitByte_ne_zero : ∀ d < 10, 0 < d → (d + 48).toUInt8 ≠ '0'.toUInt8 := by decide

theorem toNat_digitByte {d : ℕ} (hd : d < 10) : (d + 48).toUInt8.toNat - 48 = d := by
  simp [Nat.toUInt8, UInt8.toNat_ofNat]
  omega

theorem readNonWsChar_cons {c : UInt8} (rest : List UInt8) (hc : isspace c = false) :
    readNonWsChar.run (c :: rest) = .ok (c, rest) := by
  simp [StateT.run, readNonWsChar, hc]

theorem decimalText_of_ne_zero {n : ℕ} (hn : n ≠ 0) :
    decimalText n = (Nat.digits 10 n).reverse.map fun d => (d + 48).toUInt8 :=
  if_neg hn

theorem isDigit_of_mem_decimalText {n : ℕ} {c : UInt8} (hc : c ∈ decimalText n) :
    isDigit c = true := by
  unfold decimalText at hc
  split at hc
  · rw [List.mem_singleton] at hc
    subst hc
    rfl
  · obtain ⟨d, hd, rfl⟩ := List.mem_map.mp hc
    exact isDigit_digitByte d (Nat.digits_lt_base (by decide) (List.mem_reverse.mp hd))

theorem decimalText_ne_nil (n : ℕ) : decimalText n ≠ [] := by
  unfold decimalText
  split
  · simp
  · simpa using Nat.digits_ne_nil_iff_ne_zero.mpr ‹n ≠ 0›

/-- The most significant digit written for a positive number is not `0`. -/
theorem decimalText_head? {n : ℕ} (hn : n ≠ 0) :
    ∃ d, 0 < d ∧ d < 10 ∧ (decimalText n).head? = some (d + 48).toUInt8 := by
  have hne : Nat.digits 10 n ≠ [] := Nat.digits_ne_nil_iff_ne_zero.mpr hn
  refine ⟨(Nat.digits 10 n).getLast hne, Nat.pos_of_ne_zero (Nat.getLast_digit_ne_zero 10 hn),
    Nat.digits_lt_base (by decide) (List.getLast_mem hne), ?_⟩
  rw [decimalText_of_ne_zero hn, List.head?_map, List.head?_reverse,
    List.getLast?_eq_some_getLast hne]
  rfl

theorem decimalValue_decimalText (n : ℕ) : decimalValue (decimalText n) = n := by
  unfold decimalText
  split
  · subst ‹n = 0›
    rfl
  · -- reading the digits back undoes the shift of each digit to its byte
    have hdigits : ((Nat.digits 10 n).map fun d => (d + 48).toUInt8.toNat - 48) =
        Nat.digits 10 n :=
      (List.map_congr_left fun d hd => toNat_digitByte
        (Nat.digits_lt_base (by decide) hd)).trans (List.map_id _)
    simp only [decimalValue, List.map_reverse, List.reverse_reverse, List.map_map,
      Function.comp_def]
    rw [hdigits, Nat.ofDigits_digits]

/-- The text of an integer is a sign or a digit, then digits. -/
theorem integerText_cons (value : Int64) : ∃ c text, integerText value = c :: text ∧
    (c = '-'.toUInt8 ∨ isDigit c = true) ∧ ∀ d ∈ text, isDigit d = true := by
  unfold integerText
  split
  · exact ⟨_, _, rfl, .inl rfl, fun d hd => isDigit_of_mem_decimalText hd⟩
  · obtain ⟨c, text, htext⟩ := List.exists_cons_of_ne_nil (decimalText_ne_nil value.toInt.toNat)
    have hmem : ∀ d ∈ c :: text, isDigit d = true := fun d hd =>
      isDigit_of_mem_decimalText (htext ▸ hd)
    exact ⟨c, text, htext, .inr (hmem c (by simp)), fun d hd => hmem d (by simp [hd])⟩

theorem hasLeadingZero_decimalText (n : ℕ) : hasLeadingZero (decimalText n) = false := by
  by_cases hn : n = 0
  · subst hn
    rfl
  · obtain ⟨d, hd₀, hd₁₀, hhead⟩ := decimalText_head? hn
    have hne := digitByte_ne_zero d hd₁₀ hd₀
    have hminus : (d + 48).toUInt8 ≠ '-'.toUInt8 := by
      intro h
      have := isDigit_digitByte d hd₁₀
      rw [h] at this
      exact absurd this (by decide)
    match htext : decimalText n, hhead with
    | [_], _ => rfl
    | c :: e :: text, hhead =>
      cases hhead
      simp only [hasLeadingZero, decide_eq_false hne, decide_eq_false hminus, Bool.false_and,
        Bool.or_self]

theorem hasLeadingZero_integerText (value : Int64) :
    hasLeadingZero (integerText value) = false := by
  unfold integerText
  split
  · rename_i hneg
    have hn : (-value.toInt).toNat ≠ 0 := by omega
    obtain ⟨d, hd₀, hd₁₀, hhead⟩ := decimalText_head? hn
    match htext : decimalText (-value.toInt).toNat, hhead with
    | c :: text, hhead =>
      cases hhead
      have hminus : '-'.toUInt8 ≠ '0'.toUInt8 := by decide
      simp only [hasLeadingZero, decide_eq_false hminus, decide_eq_false
        (digitByte_ne_zero d hd₁₀ hd₀), Bool.and_false, Bool.or_self]
  · exact hasLeadingZero_decimalText _

theorem parseInteger_integerText (value : Int64) : parseInteger (integerText value) = value := by
  have hlow := Int64.le_toInt value
  have hhigh := Int64.toInt_lt value
  unfold integerText
  split
  · rename_i hneg
    obtain ⟨c, text, htext⟩ :=
      List.exists_cons_of_ne_nil (decimalText_ne_nil (-value.toInt).toNat)
    have hvalue := decimalValue_decimalText (-value.toInt).toNat
    rw [htext] at hvalue
    simp only [parseInteger, if_pos, htext, reduceCtorEq, if_false, hvalue]
    rw [show max (-((-value.toInt).toNat : ℤ)) (-2 ^ 63) = value.toInt by omega,
      Int64.ofInt_toInt]
  · rename_i hnonneg
    obtain ⟨c, text, htext, hc, -⟩ := integerText_cons value
    rw [integerText, if_neg hnonneg] at htext
    have hvalue := decimalValue_decimalText value.toInt.toNat
    rw [htext] at hvalue
    have hc' : c ≠ '-'.toUInt8 := by
      rcases hc with rfl | hdigit
      · have := isDigit_of_mem_decimalText (htext ▸ List.mem_cons_self : '-'.toUInt8 ∈ _)
        exact absurd this (by decide)
      · rintro rfl
        exact absurd hdigit (by decide)
    simp only [parseInteger, htext, if_neg hc', hvalue]
    rw [show min ((value.toInt.toNat : ℕ) : ℤ) (2 ^ 63 - 1) = value.toInt by omega,
      Int64.ofInt_toInt]

theorem readNumberText_append (rest : List UInt8) (hend : NumberEnd rest) (dots : ℕ) :
    ∀ {text digits : List UInt8}, (∀ d ∈ digits, isDigit d = true) →
      readNumberText text dots (digits ++ rest) = (text ++ digits, dots, rest)
  | text, [], _ => by
    cases rest with
    | nil => simp [readNumberText]
    | cons c rest =>
      obtain ⟨hdigit, hdot⟩ := hend c rfl
      simp [readNumberText, hdigit, hdot]
  | text, d :: digits, hdigits => by
    rw [List.cons_append, readNumberText, if_pos (hdigits d List.mem_cons_self),
      readNumberText_append rest hend dots fun e he => hdigits e (List.mem_cons_of_mem d he),
      List.append_assoc, List.singleton_append]

/-- The reader takes back the integer the printer wrote, up to a byte that cannot continue a
number. -/
theorem readNumber_integerText (value : Int64) {c : UInt8} {text : List UInt8}
    (htext : integerText value = c :: text) (rest : List UInt8) (hend : NumberEnd rest) :
    (readNumber c).run (text ++ rest) = .ok (.integer value, rest) := by
  obtain ⟨c', text', htext', -, hdigits⟩ := integerText_cons value
  rw [htext'] at htext
  obtain ⟨rfl, rfl⟩ := List.cons.inj htext
  have hread := @readNumberText_append rest hend 0 [c'] _ hdigits
  have hzero := hasLeadingZero_integerText value
  have hvalue := parseInteger_integerText value
  rw [htext'] at hzero hvalue
  simp only [StateT.run, readNumber, hread, List.singleton_append, Nat.lt_irrefl, if_false,
    hzero, Bool.false_eq_true, hvalue]

/-! ## Strings without escapes -/

theorem ReplaceStringInPlace_of_not_mem {c : UInt8} {replace : List UInt8} :
    ∀ {str : List UInt8}, c ∉ str → ReplaceStringInPlace [c] replace 0 str = str
  | [], _ => rfl
  | d :: str, hc => by
    have hcd : c ≠ d := by
      rintro rfl
      exact hc List.mem_cons_self
    rw [ReplaceStringInPlace, if_neg (by simp [List.isPrefixOf, hcd]),
      ReplaceStringInPlace_of_not_mem fun h => hc (List.mem_cons_of_mem d h)]

theorem escapeString_of_not_mem {str : List UInt8} (hquote : '"'.toUInt8 ∉ str)
    (hnewline : '\n'.toUInt8 ∉ str) : escapeString str = str := by
  rw [escapeString, ReplaceStringInPlace_of_not_mem hquote,
    ReplaceStringInPlace_of_not_mem hnewline]

theorem readStringToken_cons (value : List UInt8) {c : UInt8} (rest : List UInt8)
    (hquote : c ≠ '"'.toUInt8) (hslash : c ≠ '\\'.toUInt8) :
    (readStringToken value).run (c :: rest) = (readStringToken (value ++ [c])).run rest := by
  unfold StateT.run
  rw [readStringToken.eq_def]
  simp only [if_neg hquote, if_neg hslash]

theorem readStringToken_append (rest : List UInt8) :
    ∀ {value str : List UInt8}, '"'.toUInt8 ∉ str → '\\'.toUInt8 ∉ str →
      (readStringToken value).run (str ++ '"'.toUInt8 :: rest) = .ok (value ++ str, rest)
  | value, [], _, _ => by
    unfold StateT.run
    rw [List.nil_append, readStringToken.eq_def, List.append_nil]
    simp only [if_pos]
  | value, c :: str, hquote, hslash => by
    have hc₁ : c ≠ '"'.toUInt8 := by
      rintro rfl
      exact hquote List.mem_cons_self
    have hc₂ : c ≠ '\\'.toUInt8 := by
      rintro rfl
      exact hslash List.mem_cons_self
    rw [List.cons_append, readStringToken_cons value _ hc₁ hc₂,
      readStringToken_append rest (fun h => hquote (List.mem_cons_of_mem c h))
        (fun h => hslash (List.mem_cons_of_mem c h)),
      List.append_assoc, List.singleton_append]

/-! ## One step of the reader

What each reader does at the byte it dispatches on, so that the round trip below never unfolds
the do-blocks. -/

theorem readValue_run_array (fuel : ℕ) (s : List UInt8) :
    (readValue (fuel + 1)).run ('['.toUInt8 :: s) = (readArray fuel).run s := rfl

theorem readValue_run_object (fuel : ℕ) (s : List UInt8) :
    (readValue (fuel + 1)).run ('\x7b'.toUInt8 :: s) = (readObject fuel).run s := rfl

theorem readValue_run_string (fuel : ℕ) (s : List UInt8) :
    (readValue (fuel + 1)).run ('"'.toUInt8 :: s) = readString.run s := rfl

theorem readValue_run_number (fuel : ℕ) {c : UInt8} (hc : c = '-'.toUInt8 ∨ isDigit c = true)
    (s : List UInt8) : (readValue (fuel + 1)).run (c :: s) = (readNumber c).run s := by
  rcases hc with rfl | hdigit
  · rfl
  · -- a digit is none of the bytes tested before the numbers
    have hnot : ∀ b : UInt8, isDigit b = false → c ≠ b := by
      rintro b hb rfl
      rw [hdigit] at hb
      cases hb
    rw [readValue, run_bind_of_eq_ok (readNonWsChar_cons s (isspace_eq_false_of_isDigit hdigit)),
      if_neg (hnot _ rfl), if_neg (hnot _ rfl), if_neg (hnot _ rfl), if_pos (by simp [hdigit])]

theorem readArray_run_close (fuel : ℕ) (s : List UInt8) :
    (readArray (fuel + 1)).run (']'.toUInt8 :: s) = .ok (.array [], s) := rfl

/-- A byte that does not close the array is put back, and the elements are read from it. -/
theorem readArray_run_open (fuel : ℕ) {c : UInt8} (hspace : isspace c = false)
    (hclose : c ≠ ']'.toUInt8) (s : List UInt8) :
    (readArray (fuel + 1)).run (c :: s) = (readArrayElements fuel []).run (c :: s) := by
  rw [readArray, run_bind_of_eq_ok (readNonWsChar_cons s hspace), if_pos hclose]
  rfl

theorem readObject_run_close (fuel : ℕ) (s : List UInt8) :
    (readObject (fuel + 1)).run ('\x7d'.toUInt8 :: s) = .ok (.object [], s) := rfl

theorem readObject_run_open (fuel : ℕ) {c : UInt8} (hspace : isspace c = false)
    (hclose : c ≠ '\x7d'.toUInt8) (s : List UInt8) :
    (readObject (fuel + 1)).run (c :: s) = (readObjectMembers fuel c []).run s := by
  rw [readObject, run_bind_of_eq_ok (readNonWsChar_cons s hspace), if_pos hclose]

section Loops

variable {fuel : ℕ} {s rest : List UInt8}

/-- An element followed by a comma: the loop goes on with the element kept. -/
theorem readArrayElements_run_comma {value : List JsonValue} {element : JsonValue}
    (h : (readValue fuel).run s = .ok (element, ','.toUInt8 :: rest)) :
    (readArrayElements (fuel + 1) value).run s =
      (readArrayElements fuel (value ++ [element])).run rest := by
  rw [readArrayElements, run_bind_of_eq_ok h,
    run_bind_of_eq_ok (readNonWsChar_cons (c := ','.toUInt8) rest rfl)]
  rfl

/-- An element followed by the closing bracket ends the array. -/
theorem readArrayElements_run_close {value : List JsonValue} {element : JsonValue}
    (h : (readValue fuel).run s = .ok (element, ']'.toUInt8 :: rest)) :
    (readArrayElements (fuel + 1) value).run s = .ok (.array (value ++ [element]), rest) := by
  rw [readArrayElements, run_bind_of_eq_ok h,
    run_bind_of_eq_ok (readNonWsChar_cons (c := ']'.toUInt8) rest rfl)]
  rfl

variable {value : List (List UInt8 × JsonValue)} {name : List UInt8} {member : JsonValue}
  {s₁ : List UInt8}

/-- A member followed by a comma: the loop goes on at the byte after it. -/
theorem readObjectMembers_run_comma {c : UInt8} {s₂ : List UInt8}
    (hname : (readStringToken []).run s = .ok (name, ':'.toUInt8 :: s₁))
    (hmember : (readValue fuel).run s₁ = .ok (member, ','.toUInt8 :: c :: s₂))
    (hc : isspace c = false) :
    (readObjectMembers (fuel + 1) '"'.toUInt8 value).run s =
      (readObjectMembers fuel c (insertMember name member value)).run s₂ := by
  have hclose : ','.toUInt8 ≠ '\x7d'.toUInt8 := by decide
  simp only [readObjectMembers, ne_eq, not_true_eq_false, if_false, run_bind_of_eq_ok hname,
    run_bind_of_eq_ok (readNonWsChar_cons (c := ':'.toUInt8) s₁ rfl), run_bind_of_eq_ok hmember,
    run_bind_of_eq_ok (readNonWsChar_cons (c := ','.toUInt8) (c :: s₂) rfl), hclose,
    run_bind_of_eq_ok (readNonWsChar_cons s₂ hc)]

/-- A member followed by the closing brace ends the object. -/
theorem readObjectMembers_run_close
    (hname : (readStringToken []).run s = .ok (name, ':'.toUInt8 :: s₁))
    (hmember : (readValue fuel).run s₁ = .ok (member, '\x7d'.toUInt8 :: rest)) :
    (readObjectMembers (fuel + 1) '"'.toUInt8 value).run s =
      .ok (.object (insertMember name member value), rest) := by
  simp only [readObjectMembers, ne_eq, not_true_eq_false, if_false, run_bind_of_eq_ok hname,
    run_bind_of_eq_ok (readNonWsChar_cons (c := ':'.toUInt8) s₁ rfl), run_bind_of_eq_ok hmember,
    run_bind_of_eq_ok (readNonWsChar_cons (c := '\x7d'.toUInt8) rest rfl), if_true, run_pure]

end Loops

/-! ## The printed text -/

/-- A printed value starts with a byte that is not white space and closes nothing. -/
theorem JsonValue.toString_cons (v : JsonValue) : ∃ c text, v.toString = c :: text ∧
    isspace c = false ∧ c ≠ ']'.toUInt8 ∧ c ≠ '\x7d'.toUInt8 := by
  cases v with
  | array elements => exact ⟨_, _, rfl, rfl, by decide, by decide⟩
  | bool value => cases value <;> exact ⟨_, _, rfl, rfl, by decide, by decide⟩
  | integer value =>
    obtain ⟨c, text, htext, hc, -⟩ := integerText_cons value
    -- a sign or a digit is neither white space nor a closing bracket or brace
    have hnot : ∀ b : UInt8, isDigit b = false → b ≠ '-'.toUInt8 → c ≠ b := by
      rintro b hdigit hminus rfl
      rcases hc with rfl | hc
      · exact hminus rfl
      · rw [hc] at hdigit
        cases hdigit
    refine ⟨c, text, htext, ?_, hnot _ rfl (by decide), hnot _ rfl (by decide)⟩
    rcases hc with rfl | hc
    · rfl
    · exact isspace_eq_false_of_isDigit hc
  | nil => exact ⟨_, _, rfl, rfl, by decide, by decide⟩
  | object members => exact ⟨_, _, rfl, rfl, by decide, by decide⟩
  | string value => exact ⟨_, _, rfl, rfl, by decide, by decide⟩

theorem writeElements_cons (element : JsonValue) (elements : List JsonValue) :
    ∃ text, writeElements (element :: elements) = element.toString ++ text := by
  cases elements with
  | nil => exact ⟨[], (List.append_nil _).symm⟩
  | cons next rest => exact ⟨_, rfl⟩

theorem writeMembers_cons (member : List UInt8 × JsonValue)
    (members : List (List UInt8 × JsonValue)) :
    ∃ text, writeMembers (member :: members) = '"'.toUInt8 :: text := by
  obtain ⟨key, value⟩ := member
  cases members with
  | nil => exact ⟨_, rfl⟩
  | cons next rest => exact ⟨_, rfl⟩

/-- Reading members in increasing key order appends each one. -/
theorem insertMember_of_lt {name : List UInt8} {member : JsonValue} :
    ∀ {value : List (List UInt8 × JsonValue)}, (∀ entry ∈ value, entry.1 < name) →
      insertMember name member value = value ++ [(name, member)]
  | [], _ => rfl
  | (key, entry) :: rest, hlt => by
    have hkey : key < name := hlt _ List.mem_cons_self
    have hne : name ≠ key := by
      rintro rfl
      exact List.lt_irrefl name hkey
    rw [insertMember, if_neg (List.lt_asymm hkey), if_neg hne,
      insertMember_of_lt fun e he => hlt e (List.mem_cons_of_mem _ he)]
    rfl

/-- In a list of entries with increasing keys, the entries before one have smaller keys. -/
theorem keys_lt_of_pairwise {value members : List (List UInt8 × JsonValue)}
    {key : List UInt8} {member : JsonValue}
    (h : ((value ++ (key, member) :: members).map Prod.fst).Pairwise (· < ·)) :
    ∀ entry ∈ value, entry.1 < key := by
  intro entry hentry
  exact (List.pairwise_append.mp (List.pairwise_map.mp h)).2.2 entry hentry (key, member)
    List.mem_cons_self

/-! ## The round trip -/

mutual

/-- The reader reads back a printed value with its keys in order and without escapes, up to
anything that cannot continue a number, given three calls per printed byte. -/
theorem readValue_toString : ∀ (v : JsonValue) (fuel : ℕ) (rest : List UInt8),
    v.SortedKeys → v.NoEscapes → 3 * v.toString.length < fuel → NumberEnd rest →
      (readValue fuel).run (v.toString ++ rest) = .ok (v, rest)
  | _, 0, _, _, _, hfuel, _ => absurd hfuel (Nat.not_lt_zero _)
  | .nil, _ + 1, _, _, _, _, _ => rfl
  | .bool true, _ + 1, _, _, _, _, _ => rfl
  | .bool false, _ + 1, _, _, _, _, _ => rfl
  | .integer value, fuel + 1, rest, _, _, _, hend => by
    obtain ⟨c, text, htext, hc, -⟩ := integerText_cons value
    show (readValue (fuel + 1)).run (integerText value ++ rest) = _
    rw [htext, List.cons_append, readValue_run_number fuel hc]
    exact readNumber_integerText value htext rest hend
  | .string value, fuel + 1, rest, _, hno, _, _ => by
    simp only [JsonValue.NoEscapes] at hno
    obtain ⟨hquote, hslash, hnewline⟩ := hno
    simp only [JsonValue.toString, escapeString_of_not_mem hquote hnewline, List.cons_append,
      List.append_assoc, List.nil_append]
    rw [readValue_run_string, readString, map_eq_pure_bind,
      run_bind_of_eq_ok (readStringToken_append rest hquote hslash)]
    rfl
  | .array [], fuel + 1, rest, _, _, hfuel, _ => by
    obtain ⟨fuel, rfl⟩ : ∃ g, fuel = g + 1 :=
      ⟨fuel - 1, by simp [JsonValue.toString, writeElements] at hfuel; omega⟩
    rfl
  | .array (element :: elements), fuel + 1, rest, hsorted, hno, hfuel, _ => by
    simp only [JsonValue.SortedKeys] at hsorted
    simp only [JsonValue.NoEscapes] at hno
    have hlen : (JsonValue.array (element :: elements)).toString.length =
        (writeElements (element :: elements)).length + 2 := by
      simp [JsonValue.toString]
    obtain ⟨fuel, rfl⟩ : ∃ g, fuel = g + 1 := ⟨fuel - 1, by omega⟩
    -- the first byte of the first element is put back and opens the loop over the elements
    obtain ⟨c, t, ht, hspace, hclose, -⟩ := element.toString_cons
    obtain ⟨text, htext⟩ := writeElements_cons element elements
    have hs : writeElements (element :: elements) ++ ']'.toUInt8 :: rest =
        c :: (t ++ text ++ ']'.toUInt8 :: rest) := by
      rw [htext, ht]
      simp
    simp only [JsonValue.toString, List.cons_append, List.append_assoc, List.nil_append]
    rw [readValue_run_array, hs, readArray_run_open fuel hspace hclose, ← hs]
    exact readArrayElements_writeElements (element :: elements) fuel [] rest hsorted hno
      (List.cons_ne_nil _ _) (by omega)
  | .object [], fuel + 1, rest, _, _, hfuel, _ => by
    obtain ⟨fuel, rfl⟩ : ∃ g, fuel = g + 1 :=
      ⟨fuel - 1, by simp [JsonValue.toString, writeMembers] at hfuel; omega⟩
    rfl
  | .object (member :: members), fuel + 1, rest, hsorted, hno, hfuel, _ => by
    simp only [JsonValue.SortedKeys] at hsorted
    simp only [JsonValue.NoEscapes] at hno
    have hlen : (JsonValue.object (member :: members)).toString.length =
        (writeMembers (member :: members)).length + 2 := by
      simp [JsonValue.toString]
    obtain ⟨fuel, rfl⟩ : ∃ g, fuel = g + 1 := ⟨fuel - 1, by omega⟩
    -- the quote that opens the first key is the byte the loop starts at
    obtain ⟨text, htext⟩ := writeMembers_cons member members
    simp only [JsonValue.toString, List.cons_append, List.append_assoc, List.nil_append]
    rw [readValue_run_object, htext, List.cons_append, readObject_run_open fuel rfl (by decide)]
    exact readObjectMembers_writeMembers (member :: members) fuel [] _ rest hsorted.1 hsorted.2
      hno (List.cons_ne_nil _ _) (by omega) (by rw [htext, List.cons_append])

/-- The loop of `readArray` reads back the printed elements and the closing bracket. -/
theorem readArrayElements_writeElements : ∀ (elements : List JsonValue) (fuel : ℕ)
    (value : List JsonValue) (rest : List UInt8),
    (∀ element ∈ elements, element.SortedKeys) → (∀ element ∈ elements, element.NoEscapes) →
    elements ≠ [] → 3 * (writeElements elements).length + 3 < fuel →
      (readArrayElements fuel value).run (writeElements elements ++ ']'.toUInt8 :: rest) =
        .ok (.array (value ++ elements), rest)
  | [], _, _, _, _, _, hne, _ => absurd rfl hne
  | _ :: _, 0, _, _, _, _, _, hfuel => absurd hfuel (Nat.not_lt_zero _)
  | [element], fuel + 1, value, rest, hsorted, hno, _, hfuel => by
    simp only [writeElements] at hfuel ⊢
    have hread := readValue_toString element fuel (']'.toUInt8 :: rest)
      (hsorted element List.mem_cons_self) (hno element List.mem_cons_self) (by omega)
      (numberEnd_cons rest rfl (by decide))
    exact readArrayElements_run_close hread
  | element :: next :: elements, fuel + 1, value, rest, hsorted, hno, _, hfuel => by
    have hlen : (writeElements (element :: next :: elements)).length =
        element.toString.length + 1 + (writeElements (next :: elements)).length := by
      simp only [writeElements, List.length_append, List.length_cons]
      omega
    have hread := readValue_toString element fuel
      (','.toUInt8 :: (writeElements (next :: elements) ++ ']'.toUInt8 :: rest))
      (hsorted element List.mem_cons_self) (hno element List.mem_cons_self) (by omega)
      (numberEnd_cons _ rfl (by decide))
    have htext : writeElements (element :: next :: elements) ++ ']'.toUInt8 :: rest =
        element.toString ++ ','.toUInt8 ::
          (writeElements (next :: elements) ++ ']'.toUInt8 :: rest) := by
      simp [writeElements]
    rw [htext, readArrayElements_run_comma hread,
      readArrayElements_writeElements (next :: elements) fuel (value ++ [element]) rest
        (fun e he => hsorted e (List.mem_cons_of_mem _ he))
        (fun e he => hno e (List.mem_cons_of_mem _ he)) (List.cons_ne_nil _ _) (by omega),
      List.append_assoc, List.singleton_append]

/-- The loop of `readObject`, after the quote that opens the first key, reads back the printed
members and the closing brace; each key comes after those read before it. -/
theorem readObjectMembers_writeMembers : ∀ (members : List (List UInt8 × JsonValue))
    (fuel : ℕ) (value : List (List UInt8 × JsonValue)) (s rest : List UInt8),
    ((value ++ members).map Prod.fst).Pairwise (· < ·) →
    (∀ member ∈ members, member.2.SortedKeys) →
    (∀ member ∈ members, '"'.toUInt8 ∉ member.1 ∧ '\\'.toUInt8 ∉ member.1 ∧
      member.2.NoEscapes) →
    members ≠ [] → 3 * (writeMembers members).length + 3 < fuel →
    '"'.toUInt8 :: s = writeMembers members ++ '\x7d'.toUInt8 :: rest →
      (readObjectMembers fuel '"'.toUInt8 value).run s = .ok (.object (value ++ members), rest)
  | [], _, _, _, _, _, _, _, hne, _, _ => absurd rfl hne
  | _ :: _, 0, _, _, _, _, _, _, _, hfuel, _ => absurd hfuel (Nat.not_lt_zero _)
  | [(key, member)], fuel + 1, value, s, rest, hpairwise, hsorted, hno, _, hfuel, htext => by
    obtain ⟨hquote, hslash, hmember⟩ := hno _ List.mem_cons_self
    have hs : s = key ++ '"'.toUInt8 :: ':'.toUInt8 :: (member.toString ++ '\x7d'.toUInt8 :: rest) := by
      simpa [writeMembers] using htext
    have hlen : (writeMembers [(key, member)]).length = key.length + 3 + member.toString.length := by
      simp only [writeMembers, List.length_cons, List.length_append]
      omega
    have hname := @readStringToken_append
      (':'.toUInt8 :: (member.toString ++ '\x7d'.toUInt8 :: rest)) [] key hquote hslash
    rw [List.nil_append] at hname
    have hread := readValue_toString member fuel ('\x7d'.toUInt8 :: rest)
      (hsorted _ List.mem_cons_self) hmember (by omega) (numberEnd_cons rest rfl (by decide))
    rw [hs, readObjectMembers_run_close hname hread,
      insertMember_of_lt (keys_lt_of_pairwise hpairwise)]
  | (key, member) :: next :: members, fuel + 1, value, s, rest, hpairwise, hsorted, hno, _,
      hfuel, htext => by
    obtain ⟨hquote, hslash, hmember⟩ := hno _ List.mem_cons_self
    obtain ⟨text, hnext⟩ := writeMembers_cons next members
    have hs : s = key ++ '"'.toUInt8 :: ':'.toUInt8 :: (member.toString ++ ','.toUInt8 ::
        '"'.toUInt8 :: (text ++ '\x7d'.toUInt8 :: rest)) := by
      simpa [writeMembers, hnext] using htext
    have hlen : (writeMembers ((key, member) :: next :: members)).length =
        key.length + 4 + member.toString.length + (writeMembers (next :: members)).length := by
      simp only [writeMembers, List.length_cons, List.length_append]
      omega
    have hname := @readStringToken_append (':'.toUInt8 :: (member.toString ++ ','.toUInt8 ::
      '"'.toUInt8 :: (text ++ '\x7d'.toUInt8 :: rest))) [] key hquote hslash
    rw [List.nil_append] at hname
    have hread := readValue_toString member fuel
      (','.toUInt8 :: '"'.toUInt8 :: (text ++ '\x7d'.toUInt8 :: rest))
      (hsorted _ List.mem_cons_self) hmember (by omega) (numberEnd_cons _ rfl (by decide))
    rw [hs, readObjectMembers_run_comma hname hread rfl,
      insertMember_of_lt (keys_lt_of_pairwise hpairwise),
      readObjectMembers_writeMembers (next :: members) fuel (value ++ [(key, member)])
        (text ++ '\x7d'.toUInt8 :: rest) rest
        (by rwa [List.append_assoc, List.singleton_append])
        (fun m hm => hsorted m (List.mem_cons_of_mem _ hm))
        (fun m hm => hno m (List.mem_cons_of_mem _ hm)) (List.cons_ne_nil _ _) (by omega)
        (by rw [hnext, List.cons_append]),
      List.append_assoc, List.singleton_append]

end

/-- `fromString` reads back every printed value whose objects keep their keys in order and
whose strings and keys hold no byte the printer escapes or the reader unescapes. -/
theorem fromString_toString (v : JsonValue) (hsorted : v.SortedKeys) (hno : v.NoEscapes) :
    fromString v.toString = .ok v := by
  have hread := readValue_toString v (3 * v.toString.length + 1) [] hsorted hno
    (Nat.lt_succ_self _) numberEnd_nil
  rw [List.append_nil] at hread
  rw [fromString, StateT.run'_eq, hread]
  rfl

theorem fromString_toString_object :
    (JsonValue.object [([97], .array [.integer (-5), .string [98]])]).SortedKeys ∧
      (JsonValue.object [([97], .array [.integer (-5), .string [98]])]).NoEscapes ∧
      fromString (JsonValue.object [([97], .array [.integer (-5), .string [98]])]).toString =
        .ok (.object [([97], .array [.integer (-5), .string [98]])]) := by
  have hsorted : (JsonValue.object [([97], .array [.integer (-5), .string [98]])]).SortedKeys := by
    simp [JsonValue.SortedKeys]
  have hno : (JsonValue.object [([97], .array [.integer (-5), .string [98]])]).NoEscapes := by
    simp only [JsonValue.NoEscapes, forall_eq, List.mem_cons,
      List.not_mem_nil, or_false, forall_eq_or_imp]
    decide
  exact ⟨hsorted, hno, fromString_toString _ hsorted hno⟩

/-- A string of one double quote is printed with a backslash before the quote and read back
with it. -/
theorem fromString_toString_quote :
    fromString (JsonValue.string ['"'.toUInt8]).toString =
      .ok (.string ['\\'.toUInt8, '"'.toUInt8]) := rfl

end common

end UltraNoteCore
