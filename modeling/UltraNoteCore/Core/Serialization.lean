import UltraNoteCore.Serialization.Binary
import UltraNoteCore.Basic.Bytes

/-!
# The binary format of transactions and blocks

The `serialize` overloads of `CryptoNoteSerialization.cpp`, run with the binary serializers.
Integers are varints, keys, key images, digests and signatures their bytes (`serializePod`), the
inputs and outputs one-byte tagged variants, vectors length-prefixed containers and `extra` a
blob. A transaction's signatures follow its prefix without a length: each input carries as many
as `getSignaturesCount` says, and a transaction with no signatures at all is written only when
no input needs any. The reader resizes `signatures` to one list per input, so it reads back a
transaction whose signature lists are normalised (`Transaction.normaliseSignatures`).

## Main definitions

* `getSignaturesCount`
* `Input.serializeTransaction`, `Output.serializeTransaction`, `Input.serializeBlock`,
  `Output.serializeBlock` and the overloads below them
* `TransactionPrefix.WithinLimits`, `Block.WithinLimits`: the sizes the input serializer accepts
* `Transaction.normaliseSignatures`

## Main results

* `Input.serializeTransaction_exact`, `Input.serializeBlock_exact`: each reader accepts exactly
  what its writer writes of the transactions and blocks within the limits whose signatures are
  normalised
* `transaction_block_binary_roundtrip`: the round trip and canonicity of the two formats
* `transaction_oversized_extra_not_read`: a transaction with an `extra` above the limit is
  written but not read back
-/

namespace UltraNoteCore

open Codec common

/-- `getSignaturesCount`: the signatures an input carries, none for a coinbase, one per ring
member of a key input and `signatureCount` for a multisignature input. -/
def getSignaturesCount : TransactionInput → ℕ
  | .base _ => 0
  | .key input => input.outputIndexes.length
  | .multisignature input => input.signatureCount.toNat

/-- `BinaryVariantTagGetter` on an input. -/
def TransactionInput.binaryVariantTag : TransactionInput → UInt8
  | .base _ => 0xff
  | .key _ => 0x2
  | .multisignature _ => 0x3

/-- `BinaryVariantTagGetter` on an output target. -/
def TransactionOutputTarget.binaryVariantTag : TransactionOutputTarget → UInt8
  | .key _ => 0x2
  | .multisignature _ => 0x3

/-! ## Reading -/

namespace Input

/-- `serialize(crypto::Hash&)`, a `serializePod`. -/
def serializeHash : Reader Hash := serializePod 32 Hash.ofBytes

/-- `serialize(crypto::PublicKey&)`, a `serializePod`. -/
def serializePublicKey : Reader PublicKey := serializePod 32 PublicKey.ofBytes

/-- `serialize(crypto::KeyImage&)`, a `serializePod`. -/
def serializeKeyImage : Reader KeyImage := serializePod 32 KeyImage.ofBytes

/-- `serialize(crypto::Signature&)`, a `serializePod`. -/
def serializeSignature : Reader Signature := serializePod 64 Signature.ofBytes

/-- The one-byte tag of a variant, `serializer.binary(&tag, sizeof(tag))`. -/
def serializeTag : Reader UInt8 := serializePod 1 (List.headD · 0)

/-- `serializeVarintVector`: the container format, with `uint32_t` varint elements. -/
def serializeVarintVector : Reader (List UInt32) := serializeContainer readVarintUInt32

/-- `serialize(BaseInput&)`. -/
def serializeBaseInput : Reader BaseInput := do
  let blockIndex ← readVarintUInt32
  pure { blockIndex }

/-- `serialize(KeyInput&)`. -/
def serializeKeyInput : Reader KeyInput := do
  let amount ← readVarintUInt64
  let outputIndexes ← serializeVarintVector
  let keyImage ← serializeKeyImage
  pure { amount, outputIndexes, keyImage }

/-- `serialize(MultisignatureInput&)`. -/
def serializeMultisignatureInput : Reader MultisignatureInput := do
  let amount ← readVarintUInt64
  let signatureCount ← readVarintUInt8
  let outputIndex ← readVarintUInt32
  let term ← readVarintUInt32
  pure { amount, signatureCount, outputIndex, term }

/-- `getVariantValue` for an input: the kind its tag names. -/
def getTransactionInputValue (tag : UInt8) : Reader TransactionInput :=
  if tag = 0xff then .base <$> serializeBaseInput
  else if tag = 0x2 then .key <$> serializeKeyInput
  else if tag = 0x3 then .multisignature <$> serializeMultisignatureInput
  else throw "Unknown variant tag"

/-- `serialize(TransactionInput&)`: the tag, then the variant. -/
def serializeTransactionInput : Reader TransactionInput := do
  let tag ← serializeTag
  getTransactionInputValue tag

/-- `serialize(KeyOutput&)`. -/
def serializeKeyOutput : Reader KeyOutput := do
  let key ← serializePublicKey
  pure { key }

/-- `serialize(MultisignatureOutput&)`. -/
def serializeMultisignatureOutput : Reader MultisignatureOutput := do
  let keys ← serializeContainer serializePublicKey
  let requiredSignatureCount ← readVarintUInt8
  let term ← readVarintUInt32
  pure { keys, requiredSignatureCount, term }

/-- `getVariantValue` for an output target. -/
def getTransactionOutputTargetValue (tag : UInt8) : Reader TransactionOutputTarget :=
  if tag = 0x2 then .key <$> serializeKeyOutput
  else if tag = 0x3 then .multisignature <$> serializeMultisignatureOutput
  else throw "Unknown variant tag"

/-- `serialize(TransactionOutputTarget&)`: the tag, then the variant. -/
def serializeTransactionOutputTarget : Reader TransactionOutputTarget := do
  let tag ← serializeTag
  getTransactionOutputTargetValue tag

/-- `serialize(TransactionOutput&)`. -/
def serializeTransactionOutput : Reader TransactionOutput := do
  let amount ← readVarintUInt64
  let target ← serializeTransactionOutputTarget
  pure { amount, target }

/-- `serialize(TransactionPrefix&)`: a version above `TRANSACTION_VERSION_2` is refused as soon
as it is read. -/
def serializeTransactionPrefix : Reader TransactionPrefix := do
  let version ← readVarintUInt8
  if TRANSACTION_VERSION_2 < version then throw "Wrong transaction version"
  else do
    let unlockTime ← readVarintUInt64
    let inputs ← serializeContainer serializeTransactionInput
    let outputs ← serializeContainer serializeTransactionOutput
    let extra ← serializeAsBinary
    pure { version, unlockTime, inputs, outputs, extra }

/-- The signatures `serialize(Transaction&)` reads: `signatures` is first resized to one list per
input, so it is empty only without inputs, and each input's list is read with its count. -/
def serializeSignatures : List TransactionInput → Reader (List (List Signature))
  | [] => pure []
  | input :: inputs => do
    let signatures ← decodeN serializeSignature (getSignaturesCount input)
    let rest ← serializeSignatures inputs
    pure (signatures :: rest)

/-- `serialize(Transaction&)`: the prefix, then the signatures of its inputs. -/
def serializeTransaction : Reader Transaction := do
  let txP ← serializeTransactionPrefix
  let signatures ← serializeSignatures txP.inputs
  pure { txP with signatures }

/-- `serializeBlockHeader`: a major version above `BLOCK_MAJOR_VERSION_3` is refused as soon as
it is read; the nonce is its four bytes. -/
def serializeBlockHeader : Reader BlockHeader := do
  let majorVersion ← readVarintUInt8
  if majorVersion > BLOCK_MAJOR_VERSION_3 then throw "Wrong major version"
  else do
    let minorVersion ← readVarintUInt8
    let timestamp ← readVarintUInt64
    let previousBlockHash ← serializeHash
    let nonce ← serializePod 4 fun bytes => UInt32.ofNat (natOfBytes bytes)
    pure { majorVersion, minorVersion, nonce, timestamp, previousBlockHash }

/-- `serialize(AccountPublicAddress&)`: the spend key, then the view key. -/
def serializeAccountPublicAddress : Reader AccountPublicAddress := do
  let spendPublicKey ← serializePublicKey
  let viewPublicKey ← serializePublicKey
  pure { spendPublicKey, viewPublicKey }

/-- `serialize(Block&)`: the header, the coinbase and the hashes of the other transactions. -/
def serializeBlock : Reader Block := do
  let header ← serializeBlockHeader
  let baseTransaction ← serializeTransaction
  let transactionHashes ← serializeContainer serializeHash
  pure { header with baseTransaction, transactionHashes }

end Input

/-! ## Writing -/

namespace Output

/-- `serialize(crypto::Hash&)`: its bytes. -/
def serializeHash (h : Hash) : List UInt8 := h.toBytes

/-- `serialize(crypto::PublicKey&)`: its bytes. -/
def serializePublicKey (key : PublicKey) : List UInt8 := key.toBytes

/-- `serialize(crypto::KeyImage&)`: its bytes. -/
def serializeKeyImage (keyImage : KeyImage) : List UInt8 := keyImage.toBytes

/-- `serialize(crypto::Signature&)`: its bytes. -/
def serializeSignature (sig : Signature) : List UInt8 := sig.toBytes

/-- `serializeVarintVector`. -/
def serializeVarintVector (vector : List UInt32) : List UInt8 :=
  serializeContainer (fun i => writeVarint i.toUInt64) vector

/-- `serialize(BaseInput&)`. -/
def serializeBaseInput (gen : BaseInput) : List UInt8 := writeVarint gen.blockIndex.toUInt64

/-- `serialize(KeyInput&)`. -/
def serializeKeyInput (key : KeyInput) : List UInt8 :=
  writeVarint key.amount ++ serializeVarintVector key.outputIndexes ++
    serializeKeyImage key.keyImage

/-- `serialize(MultisignatureInput&)`. -/
def serializeMultisignatureInput (multisignature : MultisignatureInput) : List UInt8 :=
  writeVarint multisignature.amount ++ writeVarint multisignature.signatureCount.toUInt64 ++
    writeVarint multisignature.outputIndex.toUInt64 ++ writeVarint multisignature.term.toUInt64

/-- `serialize(TransactionInput&)`: the tag, then the variant (`VariantSerializer`). -/
def serializeTransactionInput (input : TransactionInput) : List UInt8 :=
  input.binaryVariantTag :: match input with
    | .base gen => serializeBaseInput gen
    | .key key => serializeKeyInput key
    | .multisignature multisignature => serializeMultisignatureInput multisignature

/-- `serialize(KeyOutput&)`. -/
def serializeKeyOutput (key : KeyOutput) : List UInt8 := serializePublicKey key.key

/-- `serialize(MultisignatureOutput&)`. -/
def serializeMultisignatureOutput (multisignature : MultisignatureOutput) : List UInt8 :=
  serializeContainer serializePublicKey multisignature.keys ++
    writeVarint multisignature.requiredSignatureCount.toUInt64 ++
    writeVarint multisignature.term.toUInt64

/-- `serialize(TransactionOutputTarget&)`: the tag, then the variant. -/
def serializeTransactionOutputTarget (output : TransactionOutputTarget) : List UInt8 :=
  output.binaryVariantTag :: match output with
    | .key key => serializeKeyOutput key
    | .multisignature multisignature => serializeMultisignatureOutput multisignature

/-- `serialize(TransactionOutput&)`. -/
def serializeTransactionOutput (output : TransactionOutput) : List UInt8 :=
  writeVarint output.amount ++ serializeTransactionOutputTarget output.target

/-- `serialize(TransactionPrefix&)`: the version check throws after the version is written, so
nothing is written at all. -/
def serializeTransactionPrefix (txP : TransactionPrefix) : Except String (List UInt8) :=
  if TRANSACTION_VERSION_2 < txP.version then throw "Wrong transaction version"
  else pure (writeVarint txP.version.toUInt64 ++ writeVarint txP.unlockTime ++
    serializeContainer serializeTransactionInput txP.inputs ++
    serializeContainer serializeTransactionOutput txP.outputs ++ serializeAsBinary txP.extra)

/-- The loop of `serialize(Transaction&)` over the inputs: without signatures every input must
need none; otherwise each input's list must have its count, and is written. -/
def serializeSignatures (signaturesNotExpected : Bool) :
    List TransactionInput → List (List Signature) → Except String (List UInt8)
  | [], _ => pure []
  | input :: inputs, signatures =>
    let signatureSize := getSignaturesCount input
    if signaturesNotExpected then
      if signatureSize = 0 then serializeSignatures true inputs signatures
      else throw "Serialization error: signatures are not expected"
    else if signatureSize ≠ (signatures.headD []).length then
      throw "Serialization error: unexpected signatures size"
    else do
      let rest ← serializeSignatures false inputs signatures.tail
      pure ((signatures.headD []).flatMap serializeSignature ++ rest)

/-- `serialize(Transaction&)`: the prefix, then the signatures, which must be absent or one list
per input. -/
def serializeTransaction (tx : Transaction) : Except String (List UInt8) := do
  let txP ← serializeTransactionPrefix tx.toTransactionPrefix
  let signaturesNotExpected := tx.signatures.isEmpty
  if signaturesNotExpected = false ∧ tx.inputs.length ≠ tx.signatures.length then
    throw "Serialization error: unexpected signatures size"
  else do
    let signatures ← serializeSignatures signaturesNotExpected tx.inputs tx.signatures
    pure (txP ++ signatures)

/-- `serializeBlockHeader`. -/
def serializeBlockHeader (header : BlockHeader) : Except String (List UInt8) :=
  if header.majorVersion > BLOCK_MAJOR_VERSION_3 then throw "Wrong major version"
  else pure (writeVarint header.majorVersion.toUInt64 ++
    writeVarint header.minorVersion.toUInt64 ++ writeVarint header.timestamp ++
    serializeHash header.previousBlockHash ++ bytesOfNat 4 header.nonce.toNat)

/-- `serialize(AccountPublicAddress&)`. -/
def serializeAccountPublicAddress (address : AccountPublicAddress) : List UInt8 :=
  serializePublicKey address.spendPublicKey ++ serializePublicKey address.viewPublicKey

/-- `serialize(Block&)`. -/
def serializeBlock (block : Block) : Except String (List UInt8) := do
  let header ← serializeBlockHeader block.toBlockHeader
  let baseTransaction ← serializeTransaction block.baseTransaction
  pure (header ++ baseTransaction ++ serializeContainer serializeHash block.transactionHashes)

end Output

/-! ## What the reader accepts -/

/-- The sizes of an input that the input serializer accepts. -/
def TransactionInput.WithinLimits : TransactionInput → Prop
  | .key input => input.outputIndexes.length ≤ 100 * 1024 * 1024
  | _ => True

/-- The sizes of an output target that the input serializer accepts. -/
def TransactionOutputTarget.WithinLimits : TransactionOutputTarget → Prop
  | .multisignature output => output.keys.length ≤ 100 * 1024 * 1024
  | _ => True

/-- Every array and string of a prefix has at most `100 * 1024 * 1024` elements. -/
def TransactionPrefix.WithinLimits (txP : TransactionPrefix) : Prop :=
  txP.inputs.length ≤ 100 * 1024 * 1024 ∧ (∀ input ∈ txP.inputs, input.WithinLimits) ∧
    txP.outputs.length ≤ 100 * 1024 * 1024 ∧
    (∀ output ∈ txP.outputs, output.target.WithinLimits) ∧
    txP.extra.length ≤ 100 * 1024 * 1024

/-- The coinbase and the list of transaction hashes are within the limits. -/
def Block.WithinLimits (block : Block) : Prop :=
  block.baseTransaction.WithinLimits ∧ block.transactionHashes.length ≤ 100 * 1024 * 1024

instance : DecidablePred TransactionInput.WithinLimits
  | .base _ => isTrue trivial
  | .key input =>
    inferInstanceAs (Decidable (input.outputIndexes.length ≤ 100 * 1024 * 1024))
  | .multisignature _ => isTrue trivial

instance : DecidablePred TransactionOutputTarget.WithinLimits
  | .key _ => isTrue trivial
  | .multisignature output => inferInstanceAs (Decidable (output.keys.length ≤ 100 * 1024 * 1024))

instance : DecidablePred TransactionPrefix.WithinLimits := fun _ =>
  inferInstanceAs (Decidable (_ ∧ _))

instance : DecidablePred Block.WithinLimits := fun _ =>
  inferInstanceAs (Decidable (_ ∧ _))

/-- The signatures as the reader leaves them: one list per input, of the input's count. -/
def Transaction.SignaturesNormal (tx : Transaction) : Prop :=
  tx.signatures.map List.length = tx.inputs.map getSignaturesCount

instance : DecidablePred Transaction.SignaturesNormal := fun _ =>
  inferInstanceAs (Decidable (_ = _))

/-- A transaction with no signatures at all gets one empty list per input, as the reader
resizes them; other transactions are unchanged. -/
def Transaction.normaliseSignatures (tx : Transaction) : Transaction :=
  if tx.signatures.isEmpty then { tx with signatures := tx.inputs.map fun _ => [] } else tx

/-- The coinbase with its signatures normalised. -/
def Block.normaliseSignatures (block : Block) : Block :=
  { block with baseTransaction := block.baseTransaction.normaliseSignatures }

/-! ## Exactness of the overloads -/

namespace Input

theorem serializeHash_exact : Exact (fun _ => True) Output.serializeHash serializeHash :=
  serializePod_exact Hash.length_toBytes Hash.ofBytes_toBytes fun _ h => Hash.toBytes_ofBytes h

theorem serializePublicKey_exact :
    Exact (fun _ => True) Output.serializePublicKey serializePublicKey :=
  serializePod_exact PublicKey.length_toBytes PublicKey.ofBytes_toBytes
    fun _ h => PublicKey.toBytes_ofBytes h

theorem serializeKeyImage_exact :
    Exact (fun _ => True) Output.serializeKeyImage serializeKeyImage :=
  serializePod_exact KeyImage.length_toBytes KeyImage.ofBytes_toBytes
    fun _ h => KeyImage.toBytes_ofBytes h

theorem serializeSignature_exact :
    Exact (fun _ => True) Output.serializeSignature serializeSignature :=
  serializePod_exact Signature.length_toBytes Signature.ofBytes_toBytes
    fun _ h => Signature.toBytes_ofBytes h

theorem serializeTag_exact : Exact (fun _ => True) (fun tag => [tag]) serializeTag :=
  serializePod_exact (fun _ => rfl) (fun _ => rfl) fun bytes h => by
    match bytes, h with
    | [_], _ => rfl

/-- The nonce is its four little-endian bytes. -/
theorem serializeNonce_exact :
    Exact (fun _ => True) (fun nonce : UInt32 => bytesOfNat 4 nonce.toNat)
      (serializePod 4 fun bytes => UInt32.ofNat (natOfBytes bytes)) := by
  refine serializePod_exact (fun _ => length_bytesOfNat _ _) (fun nonce => ?_) fun bytes h => ?_
  · rw [natOfBytes_bytesOfNat, Nat.mod_eq_of_lt (by simpa using nonce.toNat_lt),
      UInt32.ofNat_toNat]
  · have hlt : natOfBytes bytes < 2 ^ 32 := by simpa [h] using natOfBytes_lt bytes
    rw [UInt32.toNat_ofNat', Nat.mod_eq_of_lt hlt, ← h, bytesOfNat_natOfBytes]

theorem serializeVarintVector_exact :
    Exact (fun vector => vector.length ≤ 100 * 1024 * 1024) Output.serializeVarintVector
      serializeVarintVector := by
  intro input vector rest
  rw [serializeVarintVector, serializeContainer_exact readVarintUInt32_exact,
    Output.serializeVarintVector]
  simp only [implies_true, and_true]
  
theorem serializeBaseInput_exact :
    Exact (fun _ => True) Output.serializeBaseInput serializeBaseInput := by
  intro input gen rest
  simp only [serializeBaseInput, readVarintUInt32_exact.run_bind_eq_ok, run_pure_eq_ok]
  constructor
  · rintro ⟨blockIndex, s, -, rfl, rfl, rfl⟩
    exact ⟨trivial, rfl⟩
  · rintro ⟨-, rfl⟩
    exact ⟨gen.blockIndex, rest, trivial, rfl, rfl, rfl⟩

theorem serializeKeyInput_exact :
    Exact (fun key => key.outputIndexes.length ≤ 100 * 1024 * 1024) Output.serializeKeyInput
      serializeKeyInput := by
  intro input key rest
  simp only [serializeKeyInput, readVarintUInt64_exact.run_bind_eq_ok,
    serializeVarintVector_exact.run_bind_eq_ok, serializeKeyImage_exact.run_bind_eq_ok,
    run_pure_eq_ok]
  constructor
  · rintro ⟨amount, s1, -, rfl, outputIndexes, s2, hlen, rfl, keyImage, s3, -, rfl, rfl, rfl⟩
    exact ⟨hlen, by simp [Output.serializeKeyInput]⟩
  · rintro ⟨hlen, rfl⟩
    exact ⟨_, _, trivial, by simp [Output.serializeKeyInput], _, _, hlen, rfl, _, _, trivial, rfl, rfl, rfl⟩

theorem serializeMultisignatureInput_exact :
    Exact (fun _ => True) Output.serializeMultisignatureInput serializeMultisignatureInput := by
  intro input multisignature rest
  simp only [serializeMultisignatureInput, readVarintUInt64_exact.run_bind_eq_ok,
    readVarintUInt8_exact.run_bind_eq_ok, readVarintUInt32_exact.run_bind_eq_ok, run_pure_eq_ok]
  constructor
  · rintro ⟨amount, s1, -, rfl, signatureCount, s2, -, rfl, outputIndex, s3, -, rfl, term, s4, -,
      rfl, rfl, rfl⟩
    exact ⟨trivial, by simp [Output.serializeMultisignatureInput]⟩
  · rintro ⟨-, rfl⟩
    exact ⟨_, _, trivial, by simp [Output.serializeMultisignatureInput], _, _, trivial, rfl, _, _,
      trivial, rfl, _, _, trivial, rfl, rfl, rfl⟩

theorem serializeTransactionInput_exact :
    Exact TransactionInput.WithinLimits Output.serializeTransactionInput
      serializeTransactionInput := by
  intro input x rest
  rw [serializeTransactionInput, serializeTag_exact.run_bind_eq_ok]
  constructor
  · rintro ⟨tag, s, -, rfl, hrun⟩
    unfold getTransactionInputValue at hrun
    -- the tag picks the kind; an unknown tag throws
    split_ifs at hrun with hbase hkey hmultisignature
    · obtain ⟨gen, rfl, -, rfl⟩ := serializeBaseInput_exact.run_map_eq_ok.mp hrun
      exact ⟨trivial, by rw [hbase]; rfl⟩
    · obtain ⟨key, rfl, hkey', rfl⟩ := serializeKeyInput_exact.run_map_eq_ok.mp hrun
      exact ⟨hkey', by rw [hkey]; rfl⟩
    · obtain ⟨multisignature, rfl, -, rfl⟩ :=
        serializeMultisignatureInput_exact.run_map_eq_ok.mp hrun
      exact ⟨trivial, by rw [hmultisignature]; rfl⟩
    · cases hrun
  · rintro ⟨hx, rfl⟩
    cases x with
    | base gen =>
      refine ⟨0xff, Output.serializeBaseInput gen ++ rest, trivial, rfl, ?_⟩
      rw [getTransactionInputValue, if_pos rfl, serializeBaseInput_exact.run_map_eq_ok]
      exact ⟨gen, rfl, trivial, rfl⟩
    | key key =>
      refine ⟨0x2, Output.serializeKeyInput key ++ rest, trivial, rfl, ?_⟩
      rw [getTransactionInputValue, if_neg (by decide), if_pos rfl,
        serializeKeyInput_exact.run_map_eq_ok]
      exact ⟨key, rfl, hx, rfl⟩
    | multisignature multisignature =>
      refine ⟨0x3, Output.serializeMultisignatureInput multisignature ++ rest, trivial, rfl, ?_⟩
      rw [getTransactionInputValue, if_neg (by decide), if_neg (by decide), if_pos rfl,
        serializeMultisignatureInput_exact.run_map_eq_ok]
      exact ⟨multisignature, rfl, trivial, rfl⟩

theorem serializeKeyOutput_exact :
    Exact (fun _ => True) Output.serializeKeyOutput serializeKeyOutput := by
  intro input key rest
  simp only [serializeKeyOutput, serializePublicKey_exact.run_bind_eq_ok, run_pure_eq_ok]
  constructor
  · rintro ⟨k, s, -, rfl, rfl, rfl⟩
    exact ⟨trivial, rfl⟩
  · rintro ⟨-, rfl⟩
    exact ⟨key.key, rest, trivial, rfl, rfl, rfl⟩

theorem serializeMultisignatureOutput_exact :
    Exact (fun multisignature => multisignature.keys.length ≤ 100 * 1024 * 1024)
      Output.serializeMultisignatureOutput serializeMultisignatureOutput := by
  intro input multisignature rest
  simp only [serializeMultisignatureOutput,
    (serializeContainer_exact serializePublicKey_exact).run_bind_eq_ok,
    readVarintUInt8_exact.run_bind_eq_ok, readVarintUInt32_exact.run_bind_eq_ok, run_pure_eq_ok]
  constructor
  · rintro ⟨keys, s1, ⟨hlen, -⟩, rfl, requiredSignatureCount, s2, -, rfl, term, s3, -, rfl, rfl,
      rfl⟩
    exact ⟨hlen, by simp [Output.serializeMultisignatureOutput]⟩
  · rintro ⟨hlen, rfl⟩
    exact ⟨_, _, ⟨hlen, fun _ _ => trivial⟩, by simp [Output.serializeMultisignatureOutput], _, _,
      trivial, rfl, _, _, trivial, rfl, rfl, rfl⟩

theorem serializeTransactionOutputTarget_exact :
    Exact TransactionOutputTarget.WithinLimits Output.serializeTransactionOutputTarget
      serializeTransactionOutputTarget := by
  intro input x rest
  rw [serializeTransactionOutputTarget, serializeTag_exact.run_bind_eq_ok]
  constructor
  · rintro ⟨tag, s, -, rfl, hrun⟩
    unfold getTransactionOutputTargetValue at hrun
    split_ifs at hrun with hkey hmultisignature
    · obtain ⟨key, rfl, -, rfl⟩ := serializeKeyOutput_exact.run_map_eq_ok.mp hrun
      exact ⟨trivial, by rw [hkey]; rfl⟩
    · obtain ⟨multisignature, rfl, hlen, rfl⟩ :=
        serializeMultisignatureOutput_exact.run_map_eq_ok.mp hrun
      exact ⟨hlen, by rw [hmultisignature]; rfl⟩
    · cases hrun
  · rintro ⟨hx, rfl⟩
    cases x with
    | key key =>
      refine ⟨0x2, Output.serializeKeyOutput key ++ rest, trivial, rfl, ?_⟩
      rw [getTransactionOutputTargetValue, if_pos rfl, serializeKeyOutput_exact.run_map_eq_ok]
      exact ⟨key, rfl, trivial, rfl⟩
    | multisignature multisignature =>
      refine ⟨0x3, Output.serializeMultisignatureOutput multisignature ++ rest, trivial, rfl, ?_⟩
      rw [getTransactionOutputTargetValue, if_neg (by decide), if_pos rfl,
        serializeMultisignatureOutput_exact.run_map_eq_ok]
      exact ⟨multisignature, rfl, hx, rfl⟩

theorem serializeTransactionOutput_exact :
    Exact (fun output => output.target.WithinLimits) Output.serializeTransactionOutput
      serializeTransactionOutput := by
  intro input output rest
  simp only [serializeTransactionOutput, readVarintUInt64_exact.run_bind_eq_ok,
    serializeTransactionOutputTarget_exact.run_bind_eq_ok, run_pure_eq_ok]
  constructor
  · rintro ⟨amount, s1, -, rfl, target, s2, htarget, rfl, rfl, rfl⟩
    exact ⟨htarget, by simp [Output.serializeTransactionOutput]⟩
  · rintro ⟨htarget, rfl⟩
    exact ⟨_, _, trivial, by simp [Output.serializeTransactionOutput], _, _, htarget, rfl, rfl,
      rfl⟩

theorem serializeTransactionPrefix_exact :
    ExactE TransactionPrefix.WithinLimits Output.serializeTransactionPrefix
      serializeTransactionPrefix := by
  intro input txP rest
  simp only [serializeTransactionPrefix, readVarintUInt8_exact.run_bind_eq_ok,
    run_ite_throw_eq_ok, readVarintUInt64_exact.run_bind_eq_ok,
    (serializeContainer_exact serializeTransactionInput_exact).run_bind_eq_ok,
    (serializeContainer_exact serializeTransactionOutput_exact).run_bind_eq_ok,
    serializeAsBinary_exact.run_bind_eq_ok, run_pure_eq_ok]
  constructor
  · rintro ⟨version, s1, -, rfl, hversion, unlockTime, s2, -, rfl, inputs, s3, ⟨hinputs, hinput⟩,
      rfl, outputs, s4, ⟨houtputs, houtput⟩, rfl, extra, s5, hextra, rfl, rfl, rfl⟩
    refine ⟨⟨hinputs, hinput, houtputs, houtput, hextra⟩, _,
      by rw [Output.serializeTransactionPrefix, if_neg hversion]; rfl, by simp⟩
  · rintro ⟨⟨hinputs, hinput, houtputs, houtput, hextra⟩, bs, hbs, rfl⟩
    rw [Output.serializeTransactionPrefix] at hbs
    split at hbs
    · cases hbs
    rename_i hversion
    cases hbs
    exact ⟨_, _, trivial, by simp, hversion, _, _, trivial, rfl, _, _, ⟨hinputs, hinput⟩, rfl, _,
      _, ⟨houtputs, houtput⟩, rfl, _, _, hextra, rfl, rfl, rfl⟩

theorem serializeSignatures_exact (inputs : List TransactionInput) :
    Exact (fun signatures => signatures.map List.length = inputs.map getSignaturesCount)
      (fun signatures => signatures.flatMap (·.flatMap Output.serializeSignature))
      (serializeSignatures inputs) := by
  induction inputs with
  | nil =>
    intro input signatures rest
    rw [serializeSignatures, run_pure_eq_ok]
    constructor
    · rintro ⟨rfl, rfl⟩
      exact ⟨rfl, rfl⟩
    · rintro ⟨hlen, rfl⟩
      rw [List.map_nil, List.map_eq_nil_iff] at hlen
      subst hlen
      exact ⟨rfl, rfl⟩
  | cons x inputs ih =>
    intro input signatures rest
    simp only [serializeSignatures, (serializeSignature_exact.decodeN _).run_bind_eq_ok,
      ih.run_bind_eq_ok, run_pure_eq_ok]
    constructor
    · rintro ⟨sigs, s1, ⟨hlen, -⟩, rfl, others, s2, hothers, rfl, rfl, rfl⟩
      exact ⟨by rw [List.map_cons, List.map_cons, hlen, hothers], by simp⟩
    · rintro ⟨hlen, rfl⟩
      cases signatures with
      | nil => cases hlen
      | cons sigs others =>
        rw [List.map_cons, List.map_cons, List.cons.injEq] at hlen
        exact ⟨sigs, _, ⟨hlen.1, fun _ _ => trivial⟩, by simp, others, rest, hlen.2, rfl, rfl, rfl⟩

end Input

namespace Output

/-- Without signatures every input must need none, and nothing is written. -/
theorem serializeSignatures_true_eq_ok {inputs : List TransactionInput}
    {signatures : List (List Signature)} {bs : List UInt8} :
    serializeSignatures true inputs signatures = .ok bs ↔
      (∀ input ∈ inputs, getSignaturesCount input = 0) ∧ bs = [] := by
  induction inputs with
  | nil =>
    rw [serializeSignatures, pure_eq_ok]
    simp [eq_comm]
  | cons input inputs ih =>
    rw [serializeSignatures, if_pos rfl]
    split
    · rename_i hcount
      simp [ih, hcount]
    · rename_i hcount
      simp [hcount]

/-- With signatures, the lists must have the counts of their inputs, and are written in turn. -/
theorem serializeSignatures_false_eq_ok {inputs : List TransactionInput}
    {signatures : List (List Signature)} {bs : List UInt8}
    (hlen : inputs.length = signatures.length) :
    serializeSignatures false inputs signatures = .ok bs ↔
      signatures.map List.length = inputs.map getSignaturesCount ∧
        bs = signatures.flatMap (·.flatMap serializeSignature) := by
  induction inputs generalizing signatures bs with
  | nil =>
    rw [List.length_nil, eq_comm, List.length_eq_zero_iff] at hlen
    subst hlen
    rw [serializeSignatures, pure_eq_ok]
    simp [eq_comm]
  | cons input inputs ih =>
    cases signatures with
    | nil => cases hlen
    | cons sigs others =>
      rw [serializeSignatures, if_neg (by decide)]
      by_cases hcount : getSignaturesCount input = sigs.length
      · rw [if_neg (show ¬(getSignaturesCount input ≠ ((sigs :: others).headD []).length) from
          not_not.mpr hcount), bind_eq_ok]
        simp only [List.tail_cons, List.headD_cons, ih (by simpa using hlen), pure_eq_ok,
          List.map_cons, List.cons.injEq, List.flatMap_cons]
        constructor
        · rintro ⟨rest, ⟨hrest, rfl⟩, rfl⟩
          exact ⟨⟨hcount.symm, hrest⟩, rfl⟩
        · rintro ⟨⟨-, hrest⟩, rfl⟩
          exact ⟨_, ⟨hrest, rfl⟩, rfl⟩
      · rw [if_pos (show getSignaturesCount input ≠ ((sigs :: others).headD []).length from
          hcount)]
        simp only [throw_ne_ok, false_iff, List.map_cons, List.cons.injEq]
        rintro ⟨⟨h, -⟩, -⟩
        exact hcount h.symm

/-- A transaction whose signatures are normalised is written as its prefix followed by its
signatures. -/
theorem serializeTransaction_of_normal {tx : Transaction} {bs : List UInt8}
    (hwritten : serializeTransactionPrefix tx.toTransactionPrefix = .ok bs)
    (hnormal : tx.SignaturesNormal) :
    serializeTransaction tx =
      .ok (bs ++ tx.signatures.flatMap (·.flatMap serializeSignature)) := by
  have hlen : tx.inputs.length = tx.signatures.length := by
    simpa using (congrArg List.length hnormal).symm
  rw [serializeTransaction, bind_eq_ok]
  refine ⟨bs, hwritten, ?_⟩
  by_cases hempty : tx.signatures = []
  · -- no inputs, so no signatures to write
    have hinputs : tx.inputs = [] := List.length_eq_zero_iff.mp (by rw [hlen, hempty]; rfl)
    simp [hempty, hinputs, serializeSignatures]
  · have hcheck : ¬(tx.signatures.isEmpty = false ∧ tx.inputs.length ≠ tx.signatures.length) :=
      fun h => h.2 hlen
    rw [if_neg hcheck, bind_eq_ok]
    have hfalse : tx.signatures.isEmpty = false := by simpa using hempty
    rw [hfalse]
    exact ⟨_, (serializeSignatures_false_eq_ok hlen).mpr ⟨hnormal, rfl⟩, rfl⟩

end Output

theorem Transaction.toTransactionPrefix_normaliseSignatures (tx : Transaction) :
    tx.normaliseSignatures.toTransactionPrefix = tx.toTransactionPrefix := by
  unfold Transaction.normaliseSignatures
  split <;> rfl

/-- What the writer writes of a transaction it writes of the transaction with normalised
signatures, whose signatures are then as the reader leaves them. -/
theorem Output.serializeTransaction_normaliseSignatures {tx : Transaction} {bs : List UInt8}
    (h : Output.serializeTransaction tx = .ok bs) :
    tx.normaliseSignatures.SignaturesNormal ∧
      Output.serializeTransaction tx.normaliseSignatures = .ok bs := by
  obtain ⟨bs1, hbs1, hrest⟩ := bind_eq_ok.mp h
  by_cases hempty : tx.signatures = []
  · -- every input needs no signature, so one empty list each writes nothing
    rw [hempty] at hrest
    simp only [List.isEmpty_nil, Bool.true_eq_false, false_and, if_false, bind_eq_ok,
      serializeSignatures_true_eq_ok, pure_eq_ok] at hrest
    obtain ⟨_, ⟨hcount, rfl⟩, rfl⟩ := hrest
    have hnormal : tx.normaliseSignatures.SignaturesNormal := by
      simp only [Transaction.SignaturesNormal, Transaction.normaliseSignatures, hempty,
        List.isEmpty_nil, if_true, List.map_map]
      exact List.map_congr_left fun input hinput => (hcount input hinput).symm
    refine ⟨hnormal, ?_⟩
    rw [Output.serializeTransaction_of_normal
      (by rw [Transaction.toTransactionPrefix_normaliseSignatures]; exact hbs1) hnormal]
    simp [Transaction.normaliseSignatures, hempty]
  · -- a transaction with signatures is its own normal form
    have hsame : tx.normaliseSignatures = tx := by
      simp [Transaction.normaliseSignatures, hempty]
    rw [hsame]
    refine ⟨?_, h⟩
    have hfalse : tx.signatures.isEmpty = false := by simpa using hempty
    rw [hfalse] at hrest
    dsimp only at hrest
    split at hrest
    · cases hrest
    rename_i hcheck
    have hlen : tx.inputs.length = tx.signatures.length := by
      by_contra hne
      exact hcheck ⟨rfl, hne⟩
    obtain ⟨_, hsigs, -⟩ := bind_eq_ok.mp hrest
    exact ((Output.serializeSignatures_false_eq_ok hlen).mp hsigs).1

namespace Input

theorem serializeTransaction_exact :
    ExactE (fun tx => tx.WithinLimits ∧ tx.SignaturesNormal) Output.serializeTransaction
      serializeTransaction := by
  intro input tx rest
  rw [serializeTransaction, serializeTransactionPrefix_exact.run_bind_eq_ok]
  simp only [(serializeSignatures_exact _).run_bind_eq_ok, run_pure_eq_ok]
  constructor
  · rintro ⟨txP, s1, hlimits, ⟨bs, hbs, rfl⟩, signatures, s2, hnormal, rfl, rfl, rfl⟩
    exact ⟨⟨hlimits, hnormal⟩, _, Output.serializeTransaction_of_normal hbs hnormal, by simp⟩
  · rintro ⟨⟨hlimits, hnormal⟩, bs, hbs, rfl⟩
    obtain ⟨bs1, hbs1, -⟩ := bind_eq_ok.mp hbs
    rw [Output.serializeTransaction_of_normal hbs1 hnormal] at hbs
    cases hbs
    exact ⟨tx.toTransactionPrefix, _, hlimits, ⟨bs1, hbs1, by simp⟩, tx.signatures, rest,
      hnormal, rfl, rfl, rfl⟩

theorem serializeAccountPublicAddress_exact :
    Exact (fun _ => True) Output.serializeAccountPublicAddress serializeAccountPublicAddress := by
  intro input address rest
  simp only [serializeAccountPublicAddress, serializePublicKey_exact.run_bind_eq_ok,
    run_pure_eq_ok]
  constructor
  · rintro ⟨spendPublicKey, s1, -, rfl, viewPublicKey, s2, -, rfl, rfl, rfl⟩
    exact ⟨trivial, by simp [Output.serializeAccountPublicAddress]⟩
  · rintro ⟨-, rfl⟩
    exact ⟨_, _, trivial, by simp [Output.serializeAccountPublicAddress], _, _, trivial, rfl, rfl,
      rfl⟩

theorem serializeBlockHeader_exact :
    ExactE (fun _ => True) Output.serializeBlockHeader serializeBlockHeader := by
  intro input header rest
  simp only [serializeBlockHeader, readVarintUInt8_exact.run_bind_eq_ok, run_ite_throw_eq_ok,
    readVarintUInt64_exact.run_bind_eq_ok, serializeHash_exact.run_bind_eq_ok,
    serializeNonce_exact.run_bind_eq_ok, run_pure_eq_ok]
  constructor
  · rintro ⟨majorVersion, s1, -, rfl, hversion, minorVersion, s2, -, rfl, timestamp, s3, -, rfl,
      previousBlockHash, s4, -, rfl, nonce, s5, -, rfl, rfl, rfl⟩
    exact ⟨trivial, _, by rw [Output.serializeBlockHeader, if_neg hversion]; rfl, by simp⟩
  · rintro ⟨-, bs, hbs, rfl⟩
    rw [Output.serializeBlockHeader] at hbs
    split at hbs
    · cases hbs
    rename_i hversion
    cases hbs
    exact ⟨_, _, trivial, by simp, hversion, _, _, trivial, rfl, _, _, trivial, rfl, _, _, trivial,
      rfl, _, _, trivial, rfl, rfl, rfl⟩

theorem serializeBlock_exact :
    ExactE (fun block => block.WithinLimits ∧ block.baseTransaction.SignaturesNormal)
      Output.serializeBlock serializeBlock := by
  intro input block rest
  rw [serializeBlock, serializeBlockHeader_exact.run_bind_eq_ok]
  simp only [serializeTransaction_exact.run_bind_eq_ok,
    (serializeContainer_exact serializeHash_exact).run_bind_eq_ok, run_pure_eq_ok]
  constructor
  · rintro ⟨header, s1, -, ⟨bs1, hbs1, rfl⟩, baseTransaction, s2, ⟨hlimits, hnormal⟩,
      ⟨bs2, hbs2, rfl⟩, transactionHashes, s3, ⟨hlen, -⟩, rfl, rfl, rfl⟩
    refine ⟨⟨⟨hlimits, hlen⟩, hnormal⟩,
      bs1 ++ bs2 ++ Output.serializeContainer Output.serializeHash transactionHashes, ?_, by simp⟩
    simp only [Output.serializeBlock, bind_eq_ok, pure_eq_ok]
    exact ⟨bs1, hbs1, bs2, hbs2, rfl⟩
  · rintro ⟨⟨⟨hlimits, hlen⟩, hnormal⟩, bs, hbs, rfl⟩
    simp only [Output.serializeBlock, bind_eq_ok, pure_eq_ok] at hbs
    obtain ⟨bs1, hbs1, bs2, hbs2, rfl⟩ := hbs
    exact ⟨block.toBlockHeader, _, trivial, ⟨bs1, hbs1, by simp⟩, block.baseTransaction, _,
      ⟨hlimits, hnormal⟩, ⟨bs2, hbs2, rfl⟩, block.transactionHashes, rest,
      ⟨hlen, fun _ _ => trivial⟩, rfl, rfl, rfl⟩

end Input

/-- What the writer writes of a block it writes of the block with its coinbase normalised. -/
theorem Output.serializeBlock_normaliseSignatures {block : Block} {bs : List UInt8}
    (h : Output.serializeBlock block = .ok bs) :
    block.normaliseSignatures.baseTransaction.SignaturesNormal ∧
      Output.serializeBlock block.normaliseSignatures = .ok bs := by
  simp only [Output.serializeBlock, bind_eq_ok, pure_eq_ok] at h ⊢
  obtain ⟨bs1, hbs1, bs2, hbs2, rfl⟩ := h
  obtain ⟨hnormal, hbs2'⟩ := Output.serializeTransaction_normaliseSignatures hbs2
  exact ⟨hnormal, bs1, hbs1, bs2, hbs2', rfl⟩

theorem transaction_binary_roundtrip (tx : Transaction) (binaryArray : List UInt8)
    (hlimits : tx.WithinLimits)
    (hto : toBinaryArray Output.serializeTransaction tx = some binaryArray) :
    fromBinaryArray Input.serializeTransaction binaryArray = some tx.normaliseSignatures ∧
      toBinaryArray Output.serializeTransaction tx.normaliseSignatures = some binaryArray := by
  obtain ⟨hnormal, henc⟩ :=
    Output.serializeTransaction_normaliseSignatures (toBinaryArray_eq_some.mp hto)
  have hto' := toBinaryArray_eq_some.mpr henc
  have hlimits' : tx.normaliseSignatures.WithinLimits := by
    rwa [TransactionPrefix.WithinLimits, Transaction.toTransactionPrefix_normaliseSignatures]
  exact ⟨(fromBinaryArray_eq_some Input.serializeTransaction_exact _ _).mpr
    ⟨⟨hlimits', hnormal⟩, hto'⟩, hto'⟩

theorem block_binary_roundtrip (block : Block) (binaryArray : List UInt8)
    (hlimits : block.WithinLimits)
    (hto : toBinaryArray Output.serializeBlock block = some binaryArray) :
    fromBinaryArray Input.serializeBlock binaryArray = some block.normaliseSignatures ∧
      toBinaryArray Output.serializeBlock block.normaliseSignatures = some binaryArray := by
  obtain ⟨hnormal, henc⟩ := Output.serializeBlock_normaliseSignatures (toBinaryArray_eq_some.mp hto)
  have hto' := toBinaryArray_eq_some.mpr henc
  have hlimits' : block.normaliseSignatures.WithinLimits := by
    refine ⟨?_, hlimits.2⟩
    rw [Block.normaliseSignatures, TransactionPrefix.WithinLimits,
      Transaction.toTransactionPrefix_normaliseSignatures]
    exact hlimits.1
  exact ⟨(fromBinaryArray_eq_some Input.serializeBlock_exact _ _).mpr
    ⟨⟨hlimits', hnormal⟩, hto'⟩, hto'⟩

theorem transaction_block_binary_roundtrip :
    (∀ (tx : Transaction) (binaryArray : List UInt8), tx.WithinLimits →
      toBinaryArray Output.serializeTransaction tx = some binaryArray →
      fromBinaryArray Input.serializeTransaction binaryArray = some tx.normaliseSignatures ∧
        toBinaryArray Output.serializeTransaction tx.normaliseSignatures = some binaryArray) ∧
    (∀ (binaryArray : List UInt8) (tx : Transaction),
      fromBinaryArray Input.serializeTransaction binaryArray = some tx →
      toBinaryArray Output.serializeTransaction tx = some binaryArray) ∧
    (∀ (block : Block) (binaryArray : List UInt8), block.WithinLimits →
      toBinaryArray Output.serializeBlock block = some binaryArray →
      fromBinaryArray Input.serializeBlock binaryArray = some block.normaliseSignatures ∧
        toBinaryArray Output.serializeBlock block.normaliseSignatures = some binaryArray) ∧
    (∀ (binaryArray : List UInt8) (block : Block),
      fromBinaryArray Input.serializeBlock binaryArray = some block →
      toBinaryArray Output.serializeBlock block = some binaryArray) :=
  ⟨transaction_binary_roundtrip,
    fun _ _ h => ((fromBinaryArray_eq_some Input.serializeTransaction_exact _ _).mp h).2,
    block_binary_roundtrip,
    fun _ _ h => ((fromBinaryArray_eq_some Input.serializeBlock_exact _ _).mp h).2⟩

/-- What the writer writes of a transaction starts with what it writes of the prefix. -/
theorem Output.serializeTransaction_eq_ok {tx : Transaction} {bs : List UInt8}
    (h : Output.serializeTransaction tx = .ok bs) :
    ∃ bs₁ bs₂, Output.serializeTransactionPrefix tx.toTransactionPrefix = .ok bs₁ ∧
      bs = bs₁ ++ bs₂ := by
  obtain ⟨bs₁, hbs₁, hrest⟩ := bind_eq_ok.mp h
  dsimp only at hrest
  split at hrest
  · cases hrest
  obtain ⟨bs₂, -, hpure⟩ := bind_eq_ok.mp hrest
  exact ⟨bs₁, bs₂, hbs₁, (pure_eq_ok.mp hpure).symm⟩

namespace Input

/-- A prefix whose `extra` passes the limit is refused once its inputs and outputs are read,
whatever follows. -/
theorem serializeTransactionPrefix_oversized_extra {txP : TransactionPrefix} {bs : List UInt8}
    (hbs : Output.serializeTransactionPrefix txP = .ok bs)
    (hinputs : txP.inputs.length ≤ 100 * 1024 * 1024 ∧ ∀ input ∈ txP.inputs, input.WithinLimits)
    (houtputs : txP.outputs.length ≤ 100 * 1024 * 1024 ∧
      ∀ output ∈ txP.outputs, output.target.WithinLimits)
    (hlong : 100 * 1024 * 1024 < txP.extra.length) (hfit : txP.extra.length < 2 ^ 64)
    (rest : List UInt8) :
    serializeTransactionPrefix.run (bs ++ rest) = .error "string size is too big" := by
  rw [Output.serializeTransactionPrefix] at hbs
  split at hbs
  · cases hbs
  rename_i hversion
  cases hbs
  simp only [List.append_assoc]
  rw [serializeTransactionPrefix, run_bind_of_eq_ok (readVarintUInt8_exact.run_eq_ok trivial _),
    if_neg hversion, run_bind_of_eq_ok (readVarintUInt64_exact.run_eq_ok trivial _),
    run_bind_of_eq_ok
      ((serializeContainer_exact serializeTransactionInput_exact).run_eq_ok hinputs _),
    run_bind_of_eq_ok
      ((serializeContainer_exact serializeTransactionOutput_exact).run_eq_ok houtputs _),
    run_bind_of_eq_error (serializeAsBinary_oversized hlong hfit rest)]

end Input

/-- The writer writes a transaction whose `extra` passes the limit, and the reader refuses
it. -/
theorem fromBinaryArray_oversized_extra {tx : Transaction} {binaryArray : List UInt8}
    (hto : toBinaryArray Output.serializeTransaction tx = some binaryArray)
    (hinputs : tx.inputs.length ≤ 100 * 1024 * 1024 ∧ ∀ input ∈ tx.inputs, input.WithinLimits)
    (houtputs : tx.outputs.length ≤ 100 * 1024 * 1024 ∧
      ∀ output ∈ tx.outputs, output.target.WithinLimits)
    (hlong : 100 * 1024 * 1024 < tx.extra.length) (hfit : tx.extra.length < 2 ^ 64) :
    fromBinaryArray Input.serializeTransaction binaryArray = none := by
  obtain ⟨bs₁, bs₂, hbs₁, rfl⟩ := Output.serializeTransaction_eq_ok (toBinaryArray_eq_some.mp hto)
  exact fromBinaryArray_of_error (run_bind_of_eq_error
    (Input.serializeTransactionPrefix_oversized_extra hbs₁ hinputs houtputs hlong hfit bs₂))

/-- A transaction without inputs or outputs whose `extra` is one byte above the limit. -/
def oversizedExtraTransaction : Transaction :=
  { version := TRANSACTION_VERSION_1, unlockTime := 0, inputs := [], outputs := [],
    extra := List.replicate (100 * 1024 * 1024 + 1) 0, signatures := [] }

theorem transaction_oversized_extra_not_read :
    ∃ binaryArray,
      toBinaryArray Output.serializeTransaction oversizedExtraTransaction = some binaryArray ∧
        fromBinaryArray Input.serializeTransaction binaryArray = none := by
  -- the version is 1, so the writer writes the prefix
  obtain ⟨bs, hwritten⟩ : ∃ bs,
      Output.serializeTransactionPrefix oversizedExtraTransaction.toTransactionPrefix = .ok bs :=
    ⟨_, by rw [Output.serializeTransactionPrefix, if_neg (by decide)]; rfl⟩
  have hto := toBinaryArray_eq_some.mpr (Output.serializeTransaction_of_normal hwritten rfl)
  have hlength : oversizedExtraTransaction.extra.length = 100 * 1024 * 1024 + 1 :=
    List.length_replicate
  refine ⟨_, hto, fromBinaryArray_oversized_extra hto ⟨by decide, fun _ h => by cases h⟩
    ⟨by decide, fun _ h => by cases h⟩ (by omega) (by omega)⟩

end UltraNoteCore
