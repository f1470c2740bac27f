import UltraNoteCore.Basic.CryptoNote

/-!
# Format checks and amounts of a transaction

The stateless checks of `CryptoNoteFormatUtils.cpp`, `CryptoNoteTools.cpp` and
`core::check_tx_inputs_keyimages_diff` that the pool and the blockchain run on a transaction:
what it spends, what it creates, and whether its inputs and outputs are well typed.
`check_key` is a curve-point test of `crypto/`; the checks that call it take it as an argument.

## Main definitions

* `getOutputAmount`, `get_outs_money_amount`: the (wrapping) sum of the output amounts
* `keyImages`, `multisignatureOutputsSpent`: what the inputs of a transaction spend
* `check_inputs_types_supported`, `check_outs_valid`, `check_outs_overflow`,
  `check_inputs_overflow`, `checkMultisignatureInputsDiff`, `check_tx_inputs_keyimages_diff`
* `get_block_height`: the height a block's coinbase claims
* `relative_output_offsets_to_absolute`, `absolute_output_offsets_to_relative`: the global
  indexes of a ring from its offsets, and back

## Main results

* `relative_output_offsets_to_absolute_of_pairwise`: the offsets of a sorted ring give back the
  ring
-/

namespace UltraNoteCore

/-! ## What a transaction spends and creates -/

/-- `getOutputAmount`: the sum of the output amounts, in `uint64_t`. -/
def getOutputAmount (tx : TransactionPrefix) : UInt64 :=
  tx.outputs.foldl (fun acc o => acc + o.amount) 0

/-- `get_outs_money_amount`, the pool's name for the same sum. -/
def get_outs_money_amount (tx : TransactionPrefix) : UInt64 :=
  tx.outputs.foldl (fun acc o => acc + o.amount) 0

/-- The key image of a `KeyInput`, none for the other inputs. -/
def TransactionInput.keyImage? : TransactionInput → Option KeyImage
  | .key k => some k.keyImage
  | _ => none

/-- The `(amount, outputIndex)` a `MultisignatureInput` spends, none for the other inputs. -/
def TransactionInput.multisignatureOutput? : TransactionInput → Option (UInt64 × UInt32)
  | .multisignature m => some (m.amount, m.outputIndex)
  | _ => none

@[simp] theorem TransactionInput.keyImage?_key (k : KeyInput) :
    (TransactionInput.key k).keyImage? = some k.keyImage := rfl

@[simp] theorem TransactionInput.keyImage?_base (b : BaseInput) :
    (TransactionInput.base b).keyImage? = none := rfl

@[simp] theorem TransactionInput.keyImage?_multisignature (m : MultisignatureInput) :
    (TransactionInput.multisignature m).keyImage? = none := rfl

@[simp] theorem TransactionInput.multisignatureOutput?_key (k : KeyInput) :
    (TransactionInput.key k).multisignatureOutput? = none := rfl

@[simp] theorem TransactionInput.multisignatureOutput?_base (b : BaseInput) :
    (TransactionInput.base b).multisignatureOutput? = none := rfl

@[simp] theorem TransactionInput.multisignatureOutput?_multisignature (m : MultisignatureInput) :
    (TransactionInput.multisignature m).multisignatureOutput? = some (m.amount, m.outputIndex) :=
  rfl

/-- The key images a transaction reveals, in input order. -/
def keyImages (tx : TransactionPrefix) : List KeyImage :=
  tx.inputs.filterMap TransactionInput.keyImage?

/-- The multisignature outputs a transaction spends, as `(amount, outputIndex)`, in input order. -/
def multisignatureOutputsSpent (tx : TransactionPrefix) : List (UInt64 × UInt32) :=
  tx.inputs.filterMap TransactionInput.multisignatureOutput?

/-! ## Well-formedness checks -/

/-- `check_inputs_types_supported`: only key and multisignature inputs, the latter only from
version 2 on. -/
def check_inputs_types_supported (tx : TransactionPrefix) : Bool :=
  tx.inputs.all fun
    | .multisignature _ => decide (TRANSACTION_VERSION_2 ≤ tx.version)
    | .key _ => true
    | .base _ => false

/-- `check_outs_valid`: key outputs have a non-zero amount and a valid key; multisignature
outputs need version 2, at most as many required signatures as keys, and valid keys. -/
def check_outs_valid (checkKey : PublicKey → Bool) (tx : TransactionPrefix) : Bool :=
  tx.outputs.all fun out =>
    match out.target with
    | .key k => out.amount != 0 && checkKey k.key
    | .multisignature m =>
      decide (TRANSACTION_VERSION_2 ≤ tx.version) &&
        decide (m.requiredSignatureCount.toNat ≤ m.keys.length) && m.keys.all checkKey

/-- The loop of `check_outs_overflow`: no partial sum of `amounts` wraps past `2^64`. -/
def noPartialSumWraps : UInt64 → List UInt64 → Bool
  | _, [] => true
  | money, a :: as => !(decide (a + money < money)) && noPartialSumWraps (money + a) as

/-- `check_outs_overflow`: the output amounts sum without wrapping. -/
def check_outs_overflow (tx : TransactionPrefix) : Bool :=
  noPartialSumWraps 0 (tx.outputs.map (·.amount))

/-- The amount `check_inputs_overflow` charges an input: a deposit withdrawal counts with the
most interest any term can give, `amount * DEPOSIT_MAX_TOTAL_RATE / 100` in 128-bit arithmetic;
`none` when that bound itself overflows. -/
def inputOverflowBound : TransactionInput → Option UInt64
  | .key k => some k.amount
  | .multisignature m =>
    if m.term = 0 then some m.amount
    else
      let maxInterest := m.amount.toNat * 3 / 100
      if 2 ^ 64 ≤ maxInterest then none
      else if (UInt64.ofNat (2 ^ 64 - 1) - UInt64.ofNat maxInterest) < m.amount then none
      else some (m.amount + UInt64.ofNat maxInterest)
  | .base _ => some 0

/-- `check_inputs_overflow`: the inputs, each with its largest possible interest, sum without
wrapping. -/
def check_inputs_overflow (tx : TransactionPrefix) : Bool :=
  match tx.inputs.mapM inputOverflowBound with
  | some amounts => noPartialSumWraps 0 amounts
  | none => false

/-- `check_money_overflow`. -/
def check_money_overflow (tx : TransactionPrefix) : Bool :=
  check_inputs_overflow tx && check_outs_overflow tx

/-- `checkMultisignatureInputsDiff`: no multisignature output is spent twice by one
transaction. -/
def checkMultisignatureInputsDiff (tx : TransactionPrefix) : Bool :=
  (multisignatureOutputsSpent tx).Nodup

/-- `core::check_tx_inputs_keyimages_diff`: no key image is revealed twice by one transaction. -/
def check_tx_inputs_keyimages_diff (tx : TransactionPrefix) : Bool :=
  (keyImages tx).Nodup

/-- `get_block_height`: the height in the coinbase's `BaseInput`, `0` for a malformed
coinbase. -/
def get_block_height (b : Block) : UInt32 :=
  match b.baseTransaction.inputs with
  | [.base i] => i.blockIndex
  | _ => 0

/-- The running sums of `relative_output_offsets_to_absolute`, from `acc`, in `uint32_t`. -/
def absoluteOffsetsFrom (acc : UInt32) : List UInt32 → List UInt32
  | [] => []
  | o :: os => (acc + o) :: absoluteOffsetsFrom (acc + o) os

/-- `relative_output_offsets_to_absolute`: a ring's global output indexes from the offsets
between consecutive members. -/
def relative_output_offsets_to_absolute (off : List UInt32) : List UInt32 :=
  absoluteOffsetsFrom 0 off

/-- The offsets of `absolute_output_offsets_to_relative`: each index less the one before it
(`acc` before the first), in `uint32_t`. -/
def relativeOffsetsFrom (acc : UInt32) : List UInt32 → List UInt32
  | [] => []
  | o :: os => (o - acc) :: relativeOffsetsFrom o os

/-- `absolute_output_offsets_to_relative`: a ring's global indexes sorted ("just to be sure"),
then the first one and the offset of each later one from the one before it. -/
def absolute_output_offsets_to_relative (off : List UInt32) : List UInt32 :=
  relativeOffsetsFrom 0 (off.mergeSort (· ≤ ·))

/-! ## Small lemmas -/

/-- Running sums undo offsets: in `uint32_t` every difference is exact modulo `2 ^ 32`. -/
theorem absoluteOffsetsFrom_relativeOffsetsFrom (acc : UInt32) (l : List UInt32) :
    absoluteOffsetsFrom acc (relativeOffsetsFrom acc l) = l := by
  induction l generalizing acc with
  | nil => rfl
  | cons o os ih =>
    rw [relativeOffsetsFrom, absoluteOffsetsFrom, UInt32.add_comm, UInt32.sub_add_cancel, ih]

/-- The verifier's absolute indexes are the signer's ring sorted. -/
theorem relative_output_offsets_to_absolute_absolute_output_offsets_to_relative
    (off : List UInt32) :
    relative_output_offsets_to_absolute (absolute_output_offsets_to_relative off) =
      off.mergeSort (· ≤ ·) :=
  absoluteOffsetsFrom_relativeOffsetsFrom 0 _

/-- A sorted ring is read back in its own order. -/
theorem relative_output_offsets_to_absolute_of_pairwise {off : List UInt32}
    (h : off.Pairwise (· ≤ ·)) :
    relative_output_offsets_to_absolute (absolute_output_offsets_to_relative off) = off := by
  rw [relative_output_offsets_to_absolute_absolute_output_offsets_to_relative]
  exact List.mergeSort_of_pairwise (by simpa using h)

@[simp] theorem keyImages_mk (v : UInt8) (u : UInt64) (ins : List TransactionInput)
    (outs : List TransactionOutput) (e : List UInt8) :
    keyImages ⟨v, u, ins, outs, e⟩ = ins.filterMap TransactionInput.keyImage? := rfl

theorem mem_keyImages {tx : TransactionPrefix} {k : KeyImage} :
    k ∈ keyImages tx ↔ ∃ i ∈ tx.inputs, i.keyImage? = some k := by
  simp [keyImages]

theorem mem_multisignatureOutputsSpent {tx : TransactionPrefix} {o : UInt64 × UInt32} :
    o ∈ multisignatureOutputsSpent tx ↔ ∃ i ∈ tx.inputs, i.multisignatureOutput? = some o := by
  simp [multisignatureOutputsSpent]

end UltraNoteCore
