import UltraNoteCore.Core.TransactionExtra
import UltraNoteCore.Basic.FormatUtils
import Mathlib.Logic.Relation

/-!
# Building a transaction

The output side of `TransactionImpl` (`Transaction.cpp`): a transaction under construction with
its secret key and the parsed fields of its extra. Every output key is derived from the
recipient's address, the transaction's secret key and the output's position in the
transaction: a key output's one key, and each of the keys of a multisignature output, all at
the same position.

The curve operations are parameters: `generate_key_derivation` (`false` when the public key is
not a point, modelled as `none`) and `derive_public_key`. `derivePublicKey` ignores a failed
derivation, and so derives from an unspecified one, the `default` of the derivation type.

## Main definitions

* `TransactionImpl`, `TransactionImpl.create`
* `TransactionImpl.addOutput`, `TransactionImpl.addMultisignatureOutput`,
  `TransactionImpl.addMultisignatureInput`, `TransactionImpl.addKeyInput`,
  `TransactionImpl.setUnlockTime`
* `transaction_types.GlobalOutput`, `transaction_types.InputKeyInfo`: a ring and what a key
  input is built from
* `TransactionImpl.getTransactionPublicKey`
* `TransactionImpl.AddOutputStep`: one successful call of either `addOutput`
* `TransactionImpl.setDeterministicTransactionSecretKey`, `TransactionImpl.appendExtra`,
  `TransactionImpl.signInputKey`: the steps a wallet takes after adding the inputs

## Main results

* `TransactionImpl.addOutput_eq_ok`, `TransactionImpl.addMultisignatureOutput_eq_ok`: what a
  successful call checked and what it appended
* `TransactionImpl.getTransactionPublicKey_of_run`: along any run of output additions from
  `TransactionImpl()` the transaction's public key stays the one of its key pair
* `TransactionImpl.addKeyInput_eq_ok`, `TransactionImpl.signInputKey_eq_ok`: a key input is
  appended as `keyInput` builds it, and signing leaves the prefix alone

The hashes of the inputs and of the prefix, the derivation of the deterministic key pair and the
ring signature are parameters, as the curve operations are.
-/

namespace UltraNoteCore

/-- `crypto::SecretKey`. -/
structure SecretKey where
  data : BitVec 256
deriving DecidableEq, Repr

/-- `KeyPair`. -/
structure KeyPair where
  publicKey : PublicKey
  secretKey : SecretKey
deriving DecidableEq, Repr

/-- `NULL_PUBLIC_KEY`. -/
def NULL_PUBLIC_KEY : PublicKey := ⟨0⟩

/-- The state of `TransactionImpl` the output side reads and writes: the transaction, its
secret key when known, and the fields of its `TransactionExtra`. -/
structure TransactionImpl where
  transaction : Transaction
  secretKey : Option SecretKey
  extra : List TransactionExtraField

/-- `transaction_types::GlobalOutput`: a ring member, by its key and its global index among the
outputs of its amount. -/
structure transaction_types.GlobalOutput where
  targetKey : PublicKey
  outputIndex : UInt32
deriving DecidableEq, Repr

/-- `transaction_types::OutputKeyInfo`: the real ring member, by the public key and position of
the transaction that created it, and its position in the ring (`transactionIndex`). -/
structure transaction_types.OutputKeyInfo where
  transactionPublicKey : PublicKey
  transactionIndex : ℕ
  outputInTransaction : ℕ
deriving DecidableEq, Repr

/-- `transaction_types::InputKeyInfo`: what a key input is built from. -/
structure transaction_types.InputKeyInfo where
  amount : UInt64
  outputs : List transaction_types.GlobalOutput
  realOutput : transaction_types.OutputKeyInfo
deriving DecidableEq, Repr

namespace TransactionImpl

/-- `TransactionImpl()`: a version 1 transaction whose extra holds the public key of the fresh
key pair `txKeys`. -/
def create (txKeys : KeyPair) : TransactionImpl where
  transaction :=
    { version := TRANSACTION_VERSION_1
      unlockTime := 0
      inputs := []
      outputs := []
      extra := (writeTransactionExtra [] [.publicKey ⟨txKeys.publicKey⟩]).2
      signatures := [] }
  secretKey := some txKeys.secretKey
  extra := [.publicKey ⟨txKeys.publicKey⟩]

/-- `TransactionImpl::getTransactionPublicKey`: the first public-key field of the extra, the
null key when there is none. -/
def getTransactionPublicKey (t : TransactionImpl) : PublicKey :=
  (t.extra.findSome? fun
    | .publicKey field => some field.publicKey
    | _ => none).getD NULL_PUBLIC_KEY

/-- `txSecretKey()`. -/
def txSecretKey (t : TransactionImpl) : Except String SecretKey :=
  match t.secretKey with
  | some key => .ok key
  | none => .error "Operation requires transaction secret key"

/-- `checkIfSigning()`: no output may be added once a signature is there. -/
def checkIfSigning (t : TransactionImpl) : Except String Unit :=
  if t.transaction.signatures.isEmpty then .ok ()
  else .error "Cannot perform requested operation, since it will invalidate transaction signatures"

/-- `TransactionImpl::setUnlockTime`. -/
def setUnlockTime (t : TransactionImpl) (unlockTime : UInt64) : Except String TransactionImpl := do
  t.checkIfSigning
  pure { t with transaction := { t.transaction with unlockTime } }

/-- `TransactionImpl::addInput(const MultisignatureInput&)`: the input goes at the end, the
transaction becomes version 2, and the input's position is returned. -/
def addMultisignatureInput (t : TransactionImpl) (input : MultisignatureInput) :
    Except String (TransactionImpl × ℕ) := do
  t.checkIfSigning
  let transaction := { t.transaction with
    inputs := t.transaction.inputs ++ [.multisignature input]
    version := TRANSACTION_VERSION_2 }
  pure ({ t with transaction }, transaction.inputs.length - 1)

/-- `TransactionImpl::getSignatures(input)` with `signature` pushed onto the list it returns:
the lists first grow to one per input, and an index past them is refused. -/
def pushSignature (t : TransactionImpl) (input : ℕ) (signature : Signature) :
    Except String TransactionImpl :=
  let signatures := t.transaction.signatures ++
    List.replicate (t.transaction.inputs.length - t.transaction.signatures.length) []
  if signatures.length ≤ input then throw "Invalid input index"
  else pure { t with transaction := { t.transaction with
    signatures := signatures.modify input (· ++ [signature]) } }

section KeyInput

variable {AccountKeys : Type}
  (generate_key_image_helper : AccountKeys → PublicKey → ℕ → KeyPair × KeyImage)

/-- The key input `TransactionImpl::addInput(senderKeys, info, ephKeys)` builds, with the
one-time keys it writes to `ephKeys`: the key image of the real member, and the ring's global
indexes as relative offsets. Whether `generate_key_image_helper` succeeded is not checked. -/
def keyInput (senderKeys : AccountKeys) (info : transaction_types.InputKeyInfo) :
    KeyPair × KeyInput :=
  let (ephKeys, keyImage) := generate_key_image_helper senderKeys
    info.realOutput.transactionPublicKey info.realOutput.outputInTransaction
  (ephKeys, ⟨info.amount, absolute_output_offsets_to_relative (info.outputs.map (·.outputIndex)),
    keyImage⟩)

/-- `TransactionImpl::addInput(senderKeys, info, ephKeys)`: the key input goes at the end; its
position and the one-time keys are returned. -/
def addKeyInput (t : TransactionImpl) (senderKeys : AccountKeys)
    (info : transaction_types.InputKeyInfo) :
    Except String (TransactionImpl × ℕ × KeyPair) := do
  t.checkIfSigning
  let (ephKeys, input) := keyInput generate_key_image_helper senderKeys info
  let transaction := { t.transaction with inputs := t.transaction.inputs ++ [.key input] }
  pure ({ t with transaction }, transaction.inputs.length - 1, ephKeys)

end KeyInput

section Derive

variable {KeyDerivation : Type} [Inhabited KeyDerivation]
  (generate_key_derivation : PublicKey → SecretKey → Option KeyDerivation)
  (derive_public_key : KeyDerivation → ℕ → PublicKey → PublicKey)

/-- `derivePublicKey`: the one-time key of an output to `address` at `outputIndex`; the results of
the two curve operations are not checked. -/
def derivePublicKey (address : AccountPublicAddress) (txKey : SecretKey) (outputIndex : ℕ) :
    PublicKey :=
  derive_public_key ((generate_key_derivation address.viewPublicKey txKey).getD default) outputIndex
    address.spendPublicKey

/-- `TransactionImpl::addOutput(amount, to)`: a key output to `address` at the next position, and
its position. -/
def addOutput (t : TransactionImpl) (amount : UInt64) (address : AccountPublicAddress) :
    Except String (TransactionImpl × ℕ) := do
  t.checkIfSigning
  let txKey ← t.txSecretKey
  let outKey : KeyOutput :=
    ⟨derivePublicKey generate_key_derivation derive_public_key address txKey
      t.transaction.outputs.length⟩
  let transaction :=
    { t.transaction with outputs := t.transaction.outputs ++ [⟨amount, .key outKey⟩] }
  pure ({ t with transaction }, transaction.outputs.length - 1)

/-- `TransactionImpl::addOutput(amount, to, requiredSignatures, term)`: a multisignature output
whose keys are derived for each of `addresses` at the position of the output; the count is
stored in the `uint8_t` field, and the transaction becomes version 2. -/
def addMultisignatureOutput (t : TransactionImpl) (amount : UInt64)
    (addresses : List AccountPublicAddress) (requiredSignatures term : UInt32) :
    Except String (TransactionImpl × ℕ) := do
  t.checkIfSigning
  let txKey ← t.txSecretKey
  let outputIndex := t.transaction.outputs.length
  let outMsig : MultisignatureOutput :=
    { keys := addresses.map fun address =>
        derivePublicKey generate_key_derivation derive_public_key address txKey outputIndex
      requiredSignatureCount := requiredSignatures.toUInt8
      term := term }
  let transaction := { t.transaction with
    outputs := t.transaction.outputs ++ [⟨amount, .multisignature outMsig⟩]
    version := TRANSACTION_VERSION_2 }
  pure ({ t with transaction }, outputIndex)

/-- One successful call of either `addOutput`. -/
inductive AddOutputStep : TransactionImpl → TransactionImpl → Prop
  | key {t t' : TransactionImpl} {amount : UInt64} {address : AccountPublicAddress} {p : ℕ} :
      t.addOutput generate_key_derivation derive_public_key amount address = .ok (t', p) →
      AddOutputStep t t'
  | multisignature {t t' : TransactionImpl} {amount : UInt64}
      {addresses : List AccountPublicAddress} {requiredSignatures term : UInt32} {p : ℕ} :
      t.addMultisignatureOutput generate_key_derivation derive_public_key amount addresses
        requiredSignatures term = .ok (t', p) →
      AddOutputStep t t'

variable {generate_key_derivation derive_public_key} {t t' : TransactionImpl} {amount : UInt64}
  {p : ℕ}

@[simp] theorem checkIfSigning_eq_ok {u : Unit} :
    t.checkIfSigning = .ok u ↔ t.transaction.signatures = [] := by
  unfold checkIfSigning
  split <;> simp_all [List.isEmpty_iff]

@[simp] theorem txSecretKey_eq_ok {txKey : SecretKey} :
    t.txSecretKey = .ok txKey ↔ t.secretKey = some txKey := by
  unfold txSecretKey
  split <;> simp_all

theorem setUnlockTime_eq_ok {unlockTime : UInt64} (h : t.setUnlockTime unlockTime = .ok t') :
    t.transaction.signatures = [] ∧
      t' = { t with transaction := { t.transaction with unlockTime } } := by
  simp only [setUnlockTime, Codec.bind_eq_ok, checkIfSigning_eq_ok, Codec.pure_eq_ok] at h
  obtain ⟨_, hsigned, rfl⟩ := h
  exact ⟨hsigned, rfl⟩

/-- A multisignature input is added only to an unsigned transaction, at the end. -/
theorem addMultisignatureInput_eq_ok {input : MultisignatureInput}
    (h : t.addMultisignatureInput input = .ok (t', p)) :
    t.transaction.signatures = [] ∧ p = t.transaction.inputs.length ∧
      t' = { t with transaction := { t.transaction with
        inputs := t.transaction.inputs ++ [.multisignature input]
        version := TRANSACTION_VERSION_2 } } := by
  simp only [addMultisignatureInput, Codec.bind_eq_ok, checkIfSigning_eq_ok, Codec.pure_eq_ok,
    Prod.mk.injEq] at h
  obtain ⟨_, hsigned, rfl, rfl⟩ := h
  simp [hsigned]

/-- Signing touches the signatures only. -/
theorem pushSignature_eq_ok {input : ℕ} {signature : Signature}
    (h : t.pushSignature input signature = .ok t') :
    t'.transaction.toTransactionPrefix = t.transaction.toTransactionPrefix := by
  unfold pushSignature at h
  dsimp only at h
  split at h
  · cases h
  · cases h
    rfl

/-- A key output is added only to an unsigned transaction that knows its secret key; it goes
at the end, and its key is derived at that position. -/
theorem addOutput_eq_ok {address : AccountPublicAddress}
    (h : t.addOutput generate_key_derivation derive_public_key amount address = .ok (t', p)) :
    t.transaction.signatures = [] ∧ ∃ txKey, t.secretKey = some txKey ∧
      p = t.transaction.outputs.length ∧
      t' = { t with transaction := { t.transaction with outputs := t.transaction.outputs ++
        [⟨amount, .key ⟨derivePublicKey generate_key_derivation derive_public_key address txKey
          t.transaction.outputs.length⟩⟩] } } := by
  simp only [addOutput, Codec.bind_eq_ok, checkIfSigning_eq_ok, txSecretKey_eq_ok] at h
  obtain ⟨_, hsigned, txKey, hsecret, hpure⟩ := h
  refine ⟨hsigned, txKey, hsecret, ?_⟩
  simp only [Codec.pure_eq_ok, Prod.mk.injEq] at hpure
  obtain ⟨rfl, rfl⟩ := hpure
  simp

/-- A multisignature output is added under the same guards as a key output; every one of its
keys is derived at the output's position. -/
theorem addMultisignatureOutput_eq_ok {addresses : List AccountPublicAddress}
    {requiredSignatures term : UInt32}
    (h : t.addMultisignatureOutput generate_key_derivation derive_public_key amount addresses
      requiredSignatures term = .ok (t', p)) :
    t.transaction.signatures = [] ∧ ∃ txKey, t.secretKey = some txKey ∧
      p = t.transaction.outputs.length ∧
      t' = { t with transaction := { t.transaction with
        outputs := t.transaction.outputs ++ [⟨amount, .multisignature
          { keys := addresses.map fun address => derivePublicKey generate_key_derivation
              derive_public_key address txKey t.transaction.outputs.length
            requiredSignatureCount := requiredSignatures.toUInt8
            term := term }⟩]
        version := TRANSACTION_VERSION_2 } } := by
  simp only [addMultisignatureOutput, Codec.bind_eq_ok, checkIfSigning_eq_ok,
    txSecretKey_eq_ok] at h
  obtain ⟨_, hsigned, txKey, hsecret, hpure⟩ := h
  refine ⟨hsigned, txKey, hsecret, ?_⟩
  simp only [Codec.pure_eq_ok, Prod.mk.injEq] at hpure
  obtain ⟨rfl, rfl⟩ := hpure
  exact ⟨rfl, rfl⟩

/-- Adding an output leaves the fields of the extra alone. -/
theorem AddOutputStep.extra_eq (h : AddOutputStep generate_key_derivation derive_public_key t t') :
    t'.extra = t.extra := by
  cases h with
  | key h =>
    obtain ⟨-, _, -, -, rfl⟩ := addOutput_eq_ok h
    rfl
  | multisignature h =>
    obtain ⟨-, _, -, -, rfl⟩ := addMultisignatureOutput_eq_ok h
    rfl

@[simp] theorem getTransactionPublicKey_create (txKeys : KeyPair) :
    (create txKeys).getTransactionPublicKey = txKeys.publicKey := rfl

/-- The transaction public key a receiver reads is the one `TransactionImpl()` wrote, however
many outputs were added since. -/
theorem getTransactionPublicKey_of_run {txKeys : KeyPair}
    (h : Relation.ReflTransGen (AddOutputStep generate_key_derivation derive_public_key)
      (create txKeys) t) :
    t.getTransactionPublicKey = txKeys.publicKey := by
  -- the extra is the same in every state of the run
  induction h with
  | refl => rfl
  | tail _ step ih => rw [getTransactionPublicKey, step.extra_eq]; exact ih

end Derive

/-! ## The deterministic key, the raw extra and the ring signatures -/

/-- `TransactionExtra::set(value)`: the first field of the type of `value` is overwritten
(`find(typeid(T))`), or `value` is appended. -/
def setExtraField (fields : List TransactionExtraField) (value : TransactionExtraField) :
    List TransactionExtraField :=
  let sameType : TransactionExtraField → Bool := fun field =>
    match field, value with
    | .padding _, .padding _ | .publicKey _, .publicKey _ | .nonce _, .nonce _
    | .mergeMiningTag _, .mergeMiningTag _ | .message _, .message _ | .ttl _, .ttl _ => true
    | _, _ => false
  match fields.findIdx? sameType with
  | some i => fields.set i value
  | none => fields ++ [value]

section Sign

variable (generateDeterministicTransactionKeys : Hash → SecretKey → KeyPair)
  (getTransactionInputsHash : List TransactionInput → Hash)
  (getTransactionPrefixHash : TransactionPrefix → Hash)
  (generate_ring_signature : Hash → KeyImage → List PublicKey → SecretKey → ℕ → ℕ → Signature)

/-- `TransactionImpl::setDeterministicTransactionSecretKey(key)`: the key pair derived from the
hash of the inputs and `key` replaces the transaction's, in its public-key field and its secret
key; the extra is written again from its fields. Whether the derivation succeeded is not
checked. -/
def setDeterministicTransactionSecretKey (t : TransactionImpl) (key : SecretKey) :
    Except String TransactionImpl := do
  t.checkIfSigning
  let deterministicTxKeys :=
    generateDeterministicTransactionKeys (getTransactionInputsHash t.transaction.inputs) key
  let extra := setExtraField t.extra (.publicKey ⟨deterministicTxKeys.publicKey⟩)
  pure { transaction := { t.transaction with extra := (writeTransactionExtra [] extra).2 }
         secretKey := some deterministicTxKeys.secretKey
         extra := extra }

/-- `TransactionImpl::appendExtra(extraData)`: the bytes go at the end of the raw extra; the
parsed fields are not updated. -/
def appendExtra (t : TransactionImpl) (extraData : List UInt8) : Except String TransactionImpl := do
  t.checkIfSigning
  pure { t with transaction := { t.transaction with extra := t.transaction.extra ++ extraData } }

/-- `TransactionImpl::signInputKey(index, info, ephKeys)`: the input at `index` must be a key
input; its ring signature, one signature per member of the ring (`signatures.resize`), made
over the prefix hash with the one-time secret key at the real member's position, replaces its
list of signatures, after the lists grow to one per input (`getSignatures`). -/
def signInputKey (t : TransactionImpl) (index : ℕ) (info : transaction_types.InputKeyInfo)
    (ephKeys : KeyPair) : Except String TransactionImpl := do
  let input ← match t.transaction.inputs[index]? with
    | some (.key input) => pure input
    | some _ => throw "Unexpected transaction input type"
    | none => throw "Transaction input index out of range"
  let prefixHash := getTransactionPrefixHash t.transaction.toTransactionPrefix
  let keys := info.outputs.map (·.targetKey)
  let ringSignatures := (List.range keys.length).map
    (generate_ring_signature prefixHash input.keyImage keys ephKeys.secretKey
      info.realOutput.transactionIndex)
  let signatures := t.transaction.signatures ++
    List.replicate (t.transaction.inputs.length - t.transaction.signatures.length) []
  if signatures.length ≤ index then throw "Invalid input index"
  else pure { t with transaction := { t.transaction with
    signatures := signatures.set index ringSignatures } }

variable {generateDeterministicTransactionKeys getTransactionInputsHash getTransactionPrefixHash
  generate_ring_signature} {t t' : TransactionImpl}

/-- The deterministic key changes the extra and the secret key, not the prefix's inputs and
outputs. -/
theorem setDeterministicTransactionSecretKey_eq_ok {key : SecretKey}
    (h : t.setDeterministicTransactionSecretKey generateDeterministicTransactionKeys
      getTransactionInputsHash key = .ok t') :
    t'.transaction.inputs = t.transaction.inputs ∧ t'.transaction.outputs = t.transaction.outputs ∧
      t'.transaction.signatures = t.transaction.signatures := by
  simp only [setDeterministicTransactionSecretKey, Codec.bind_eq_ok, checkIfSigning_eq_ok,
    Codec.pure_eq_ok] at h
  obtain ⟨_, -, rfl⟩ := h
  exact ⟨rfl, rfl, rfl⟩

/-- The deterministic key is written over the public key of the fields, and the raw extra
written again from them. -/
theorem setDeterministicTransactionSecretKey_extra {key : SecretKey}
    (h : t.setDeterministicTransactionSecretKey generateDeterministicTransactionKeys
      getTransactionInputsHash key = .ok t') :
    ∃ publicKey, t'.extra = setExtraField t.extra (.publicKey ⟨publicKey⟩) ∧
      t'.transaction.extra = (writeTransactionExtra [] t'.extra).2 := by
  simp only [setDeterministicTransactionSecretKey, Codec.bind_eq_ok, checkIfSigning_eq_ok,
    Codec.pure_eq_ok] at h
  obtain ⟨_, -, rfl⟩ := h
  exact ⟨_, rfl, rfl⟩

theorem appendExtra_eq_ok {extraData : List UInt8} (h : t.appendExtra extraData = .ok t') :
    t'.transaction.inputs = t.transaction.inputs ∧ t'.transaction.outputs = t.transaction.outputs ∧
      t'.transaction.signatures = t.transaction.signatures ∧ t'.secretKey = t.secretKey := by
  simp only [appendExtra, Codec.bind_eq_ok, checkIfSigning_eq_ok, Codec.pure_eq_ok] at h
  obtain ⟨_, -, rfl⟩ := h
  exact ⟨rfl, rfl, rfl, rfl⟩

theorem appendExtra_extra {extraData : List UInt8} (h : t.appendExtra extraData = .ok t') :
    t'.transaction.extra = t.transaction.extra ++ extraData := by
  simp only [appendExtra, Codec.bind_eq_ok, checkIfSigning_eq_ok, Codec.pure_eq_ok] at h
  obtain ⟨_, -, rfl⟩ := h
  rfl

/-- A ring signature changes the signatures only. -/
theorem signInputKey_eq_ok {index : ℕ} {info : transaction_types.InputKeyInfo} {ephKeys : KeyPair}
    (h : t.signInputKey getTransactionPrefixHash generate_ring_signature index info ephKeys =
      .ok t') :
    t'.transaction.toTransactionPrefix = t.transaction.toTransactionPrefix := by
  unfold signInputKey at h
  -- the lookup throws unless it finds a key input; the ring signature then goes to its list
  cases hi : t.transaction.inputs[index]? with
  | none => rw [hi] at h; cases h
  | some input =>
    cases input with
    | base => rw [hi] at h; cases h
    | multisignature => rw [hi] at h; cases h
    | key input =>
      rw [hi] at h
      dsimp only at h
      split at h
      · cases h
      · cases h
        rfl

/-- A key input is added only to an unsigned transaction, at the end, as `keyInput` builds it. -/
theorem addKeyInput_eq_ok {AccountKeys : Type}
    {generate_key_image_helper : AccountKeys → PublicKey → ℕ → KeyPair × KeyImage}
    {senderKeys : AccountKeys} {info : transaction_types.InputKeyInfo} {p : ℕ} {ephKeys : KeyPair}
    (h : t.addKeyInput generate_key_image_helper senderKeys info = .ok (t', p, ephKeys)) :
    t.transaction.signatures = [] ∧
      ephKeys = (keyInput generate_key_image_helper senderKeys info).1 ∧
      t' = { t with transaction := { t.transaction with inputs := t.transaction.inputs ++
        [.key (keyInput generate_key_image_helper senderKeys info).2] } } := by
  simp only [addKeyInput, Codec.bind_eq_ok, checkIfSigning_eq_ok] at h
  obtain ⟨_, hsigned, h⟩ := h
  simp only [Codec.pure_eq_ok, Prod.mk.injEq] at h
  obtain ⟨rfl, -, rfl⟩ := h
  exact ⟨hsigned, rfl, rfl⟩

end Sign

end TransactionImpl

end UltraNoteCore
