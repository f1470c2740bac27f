import UltraNoteCore.Wallet.WalletGreen
import UltraNoteCore.Wallet.WalletTransfers

/-!
# How `WalletGreen` builds a transaction

`WalletGreen::makeTransaction(decomposedOutputs, keysInfo, messages, extra, unlockTimestamp,
transactionSK)` (`WalletGreen.cpp`) creates a transaction, sets its unlock time, adds a key input
for every prepared ring, replaces its key pair by the one derived from the wallet's view key
(`setDeterministicTransactionSecretKey`), appends the encrypted messages and the caller's
extra, adds one key output per amount of every receiver, sorted by amount, and signs every
input with a ring signature over the prefix.

The curve operations, the two hashes `TransactionImpl` takes, the message encryption and the
account keys of a wallet record are the environment (`MakeTransactionEnv`). The amounts are
`std::shuffle`d and then `std::sort`ed, which leaves equal amounts in no particular order; the
model sorts them with a stable sort, one of the orders the source may produce.

## Main definitions

* `ReceiverAmounts`, `WalletMessage`, `MakeTransactionEnv`, `WalletOuts`
* `WalletGreen.checkIfEnoughMixins`, `WalletGreen.requestMixinOuts`: the decoys the node returns
* `amountsToAddresses`: the outputs in the order they are added
* `WalletGreen.makeTransaction`, through its loops `addInputs`, `appendMessages`, `addOutputs`
  and `signInputs`

## Main results

* `WalletGreen.makeTransaction_eq_ok`: the inputs of the built transaction are the key inputs
  of the rings in order, and its output amounts are the receivers' amounts sorted
-/

namespace UltraNoteCore

/-- `WalletGreen::ReceiverAmounts`: the amounts of the outputs to one address. -/
structure ReceiverAmounts where
  receiver : AccountPublicAddress
  amounts : List UInt64

/-- `WalletMessage`: a text for the holder of `address`. -/
structure WalletMessage where
  address : String
  message : String

/-- What `makeTransaction` reads outside its arguments. -/
structure MakeTransactionEnv (AccountKeys KeyDerivation : Type) where
  /-- `makeAccountKeys(*input.walletRecord)`, by the record's number. -/
  makeAccountKeys : ℕ → AccountKeys
  generate_key_image_helper : AccountKeys → PublicKey → ℕ → KeyPair × KeyImage
  generate_key_derivation : PublicKey → SecretKey → Option KeyDerivation
  derive_public_key : KeyDerivation → ℕ → PublicKey → PublicKey
  generateDeterministicTransactionKeys : Hash → SecretKey → KeyPair
  getTransactionInputsHash : List TransactionInput → Hash
  getTransactionPrefixHash : TransactionPrefix → Hash
  generate_ring_signature : Hash → KeyImage → List PublicKey → SecretKey → ℕ → ℕ → Signature
  /-- The extra bytes of message `i` encrypted with the transaction's key pair
  (`TX_EXTRA_MESSAGE_TAG`, then the serialized `tx_extra_message`), `none` when its address does
  not parse or the encryption fails. -/
  messageField : ℕ → WalletMessage → KeyPair → Option (List UInt8)
  /-- The fresh key pair of `createTransaction()`. -/
  createKeys : KeyPair
  m_viewSecretKey : SecretKey

/-- `WalletGreen::WalletOuts`: the outputs of one wallet record (by number) that a transfer may
spend. -/
structure WalletOuts where
  wallet : ℕ
  outs : List TransactionOutputInformation

namespace WalletGreen

/-- `checkIfEnoughMixins` (`WalletGreen.cpp`): `MIXIN_COUNT_TOO_BIG` when `mixIn` is zero and the
node returned nothing, or when it returned fewer than `mixIn` decoys for some amount. -/
def checkIfEnoughMixins (mixinResult : List outs_for_amount) (mixIn : UInt64) :
    Except WalletError Unit :=
  if mixIn = 0 ∧ mixinResult = [] then .error (.code .MIXIN_COUNT_TOO_BIG)
  else if mixinResult.any fun ofa => ofa.outs.length < mixIn.toNat then
    .error (.code .MIXIN_COUNT_TOO_BIG)
  else .ok ()

/-- `WalletGreen::requestMixinOuts(selectedTransfers, mixIn, mixinResult)`: the decoys the node
returns for the selected amounts (`getRandomOutsByAmounts`, which also says whether the request
failed), checked before the request's error is thrown. -/
def requestMixinOuts
    (getRandomOutsByAmounts : List UInt64 → UInt64 → List outs_for_amount × Bool)
    (selectedTransfers : List OutputToTransfer) (mixIn : UInt64) :
    Except WalletError (List outs_for_amount) := do
  let (mixinResult, mixinError) :=
    getRandomOutsByAmounts (selectedTransfers.map (·.out.amount)) mixIn
  checkIfEnoughMixins mixinResult mixIn
  if mixinError then throw .node
  pure mixinResult

end WalletGreen

/-- The `(address, amount)` pairs of `makeTransaction`, in the order their outputs are added. -/
def amountsToAddresses (decomposedOutputs : List ReceiverAmounts) :
    List (AccountPublicAddress × UInt64) :=
  (decomposedOutputs.flatMap fun output => output.amounts.map fun amount => (output.receiver, amount)
    ).mergeSort fun left right => left.2 ≤ right.2

namespace WalletGreen

variable {AccountKeys KeyDerivation : Type} [Inhabited KeyDerivation]
  (e : MakeTransactionEnv AccountKeys KeyDerivation)

/-- The loop of `makeTransaction` over `keysInfo`: each key input goes at the end, and the
one-time keys `addInput` writes to `input.ephKeys` are kept in order. -/
def addInputs (tx : TransactionImpl) :
    List InputInfo → Except String (TransactionImpl × List KeyPair)
  | [] => pure (tx, [])
  | input :: keysInfo => do
    let (tx, _, ephKeys) ← tx.addKeyInput e.generate_key_image_helper
      (e.makeAccountKeys input.walletRecord) input.keyInfo
    let (tx, rest) ← addInputs tx keysInfo
    pure (tx, ephKeys :: rest)

/-- The loop over the messages: the ones that encrypt are appended to the extra. -/
def appendMessages (tx : TransactionImpl) (kp : KeyPair) :
    ℕ → List WalletMessage → Except String TransactionImpl
  | _, [] => pure tx
  | i, message :: messages => do
    let tx ← match e.messageField i message kp with
      | some ba => tx.appendExtra ba
      | none => pure tx
    appendMessages tx kp (i + 1) messages

/-- The loop over `amountsToAddresses`: one key output per pair. -/
def addOutputs (tx : TransactionImpl) :
    List (AccountPublicAddress × UInt64) → Except String TransactionImpl
  | [] => pure tx
  | (address, amount) :: rest => do
    let (tx, _) ← tx.addOutput e.generate_key_derivation e.derive_public_key amount address
    addOutputs tx rest

/-- The loop that signs input `i` with the ring of `keysInfo[i]` and its one-time keys. -/
def signInputs (tx : TransactionImpl) :
    ℕ → List (InputInfo × KeyPair) → Except String TransactionImpl
  | _, [] => pure tx
  | i, (input, ephKeys) :: rest => do
    let tx ← tx.signInputKey e.getTransactionPrefixHash e.generate_ring_signature i input.keyInfo
      ephKeys
    signInputs tx (i + 1) rest

/-- `WalletGreen::makeTransaction(decomposedOutputs, keysInfo, messages, extra, unlockTimestamp,
transactionSK)`: the transaction and the secret key written to `transactionSK`. -/
def makeTransaction (decomposedOutputs : List ReceiverAmounts) (keysInfo : List InputInfo)
    (messages : List WalletMessage) (extra : List UInt8) (unlockTimestamp : UInt64) :
    Except String (TransactionImpl × SecretKey) := do
  let tx ← (TransactionImpl.create e.createKeys).setUnlockTime unlockTimestamp
  let (tx, ephKeys) ← addInputs e tx keysInfo
  let tx ← tx.setDeterministicTransactionSecretKey e.generateDeterministicTransactionKeys
    e.getTransactionInputsHash e.m_viewSecretKey
  let transactionSK ← tx.txSecretKey
  let kp : KeyPair := ⟨tx.getTransactionPublicKey, transactionSK⟩
  let tx ← appendMessages e tx kp 0 messages
  let tx ← addOutputs e tx (amountsToAddresses decomposedOutputs)
  let tx ← tx.appendExtra extra
  let tx ← signInputs e tx 0 (keysInfo.zip ephKeys)
  pure (tx, transactionSK)

/-! ## What the loops build -/

/-- The key input `addInputs` builds from a prepared ring. -/
def preparedKeyInput (input : InputInfo) : TransactionInput :=
  .key (TransactionImpl.keyInput e.generate_key_image_helper (e.makeAccountKeys input.walletRecord)
    input.keyInfo).2

variable {e}

omit [Inhabited KeyDerivation] in
theorem addInputs_eq_ok : ∀ {tx tx' : TransactionImpl} {keysInfo : List InputInfo}
    {ephKeys : List KeyPair},
    addInputs e tx keysInfo = .ok (tx', ephKeys) →
      tx'.transaction.inputs = tx.transaction.inputs ++ keysInfo.map (preparedKeyInput e) ∧
        tx'.transaction.outputs = tx.transaction.outputs ∧ ephKeys.length = keysInfo.length ∧
        tx'.transaction.extra = tx.transaction.extra ∧ tx'.extra = tx.extra
  | _, _, [], ephKeys, h => by
    cases h
    simp
  | tx, tx', input :: keysInfo, ephKeys, h => by
    simp only [addInputs, Codec.bind_eq_ok] at h
    obtain ⟨⟨tx₁, p, eph⟩, h₁, ⟨tx₂, rest⟩, h₂, hpure⟩ := h
    obtain ⟨rfl, rfl⟩ := Prod.mk.inj (Codec.pure_eq_ok.mp hpure)
    obtain ⟨-, -, rfl⟩ := TransactionImpl.addKeyInput_eq_ok h₁
    obtain ⟨hin, hout, hlen, hextra, hfields⟩ := addInputs_eq_ok h₂
    refine ⟨?_, hout, by simp [hlen], hextra, hfields⟩
    rw [hin]
    simp [preparedKeyInput]

omit [Inhabited KeyDerivation] in
theorem appendMessages_eq_ok {kp : KeyPair} : ∀ {tx tx' : TransactionImpl} {i : ℕ}
    {messages : List WalletMessage},
    appendMessages e tx kp i messages = .ok tx' →
      tx'.transaction.inputs = tx.transaction.inputs ∧
        tx'.transaction.outputs = tx.transaction.outputs ∧ tx'.secretKey = tx.secretKey
  | _, _, _, [], h => by
    cases h
    exact ⟨rfl, rfl, rfl⟩
  | tx, tx', i, message :: messages, h => by
    unfold appendMessages at h
    split at h
    · -- an encrypted message is appended to the raw extra
      obtain ⟨tx₁, h₁, h₂⟩ := Codec.bind_eq_ok.mp h
      obtain ⟨hin, hout, hkey⟩ := appendMessages_eq_ok h₂
      obtain ⟨hin₁, hout₁, -, hkey₁⟩ := TransactionImpl.appendExtra_eq_ok h₁
      exact ⟨hin.trans hin₁, hout.trans hout₁, hkey.trans hkey₁⟩
    · -- one that does not encrypt is skipped
      exact appendMessages_eq_ok h

theorem addOutputs_eq_ok : ∀ {tx tx' : TransactionImpl}
    {pairs : List (AccountPublicAddress × UInt64)},
    addOutputs e tx pairs = .ok tx' →
      tx'.transaction.inputs = tx.transaction.inputs ∧
        tx'.transaction.outputs.map (·.amount) =
          tx.transaction.outputs.map (·.amount) ++ pairs.map (·.2) ∧
        tx'.transaction.extra = tx.transaction.extra
  | _, _, [], h => by
    cases h
    simp
  | tx, tx', (address, amount) :: rest, h => by
    simp only [addOutputs, Codec.bind_eq_ok] at h
    obtain ⟨⟨tx₁, p⟩, h₁, h₂⟩ := h
    obtain ⟨-, txKey, -, -, rfl⟩ := TransactionImpl.addOutput_eq_ok h₁
    obtain ⟨hin, hout, hextra⟩ := addOutputs_eq_ok h₂
    exact ⟨hin, by simp [hout], hextra⟩

omit [Inhabited KeyDerivation] in
theorem signInputs_eq_ok : ∀ {tx tx' : TransactionImpl} {i : ℕ}
    {inputs : List (InputInfo × KeyPair)},
    signInputs e tx i inputs = .ok tx' →
      tx'.transaction.toTransactionPrefix = tx.transaction.toTransactionPrefix
  | _, _, _, [], h => by
    cases h
    rfl
  | tx, tx', i, (input, ephKeys) :: rest, h => by
    simp only [signInputs, Codec.bind_eq_ok] at h
    obtain ⟨tx₁, h₁, h₂⟩ := h
    rw [signInputs_eq_ok h₂, TransactionImpl.signInputKey_eq_ok h₁]

variable {tx' : TransactionImpl} {decomposedOutputs : List ReceiverAmounts}
  {keysInfo : List InputInfo}
  {messages : List WalletMessage} {extra : List UInt8} {unlockTimestamp : UInt64}
  {transactionSK : SecretKey}

/-- **What `makeTransaction` builds**: a key input for each prepared ring, in order, and one
output for each amount of every receiver, sorted by amount. -/
theorem makeTransaction_eq_ok
    (h : makeTransaction e decomposedOutputs keysInfo messages extra unlockTimestamp =
      .ok (tx', transactionSK)) :
    tx'.transaction.inputs = keysInfo.map (preparedKeyInput e) ∧
      tx'.transaction.outputs.map (·.amount) = (amountsToAddresses decomposedOutputs).map (·.2) := by
  simp only [makeTransaction, Codec.bind_eq_ok] at h
  obtain ⟨tx₁, h₁, ⟨tx₂, ephKeys⟩, h₂, tx₃, h₃, sk, -, tx₄, h₄, tx₅, h₅, tx₆, h₆, tx₇, h₇,
    hpure⟩ := h
  obtain ⟨rfl, -⟩ := Prod.mk.inj (Codec.pure_eq_ok.mp hpure)
  -- the inputs are added to the fresh transaction before anything else touches them
  obtain ⟨-, rfl⟩ := TransactionImpl.setUnlockTime_eq_ok h₁
  obtain ⟨hin₂, hout₂, -⟩ := addInputs_eq_ok h₂
  obtain ⟨hin₃, hout₃, -⟩ := TransactionImpl.setDeterministicTransactionSecretKey_eq_ok h₃
  obtain ⟨hin₄, hout₄, -⟩ := appendMessages_eq_ok h₄
  obtain ⟨hin₅, hout₅, -⟩ := addOutputs_eq_ok h₅
  obtain ⟨hin₆, hout₆, -⟩ := TransactionImpl.appendExtra_eq_ok h₆
  have hsigned := signInputs_eq_ok h₇
  have hin₇ : tx₇.transaction.inputs = tx₆.transaction.inputs := congrArg (·.inputs) hsigned
  have hout₇ : tx₇.transaction.outputs = tx₆.transaction.outputs := congrArg (·.outputs) hsigned
  refine ⟨?_, ?_⟩
  · rw [hin₇, hin₆, hin₅, hin₄, hin₃, hin₂]
    rfl
  · rw [hout₇, hout₆, hout₅, hout₄, hout₃, hout₂]
    rfl

/-- **The extra of a transaction without messages**: with no message and no extra bytes, the
raw extra is the written public-key field of the deterministic key, over the fresh one. -/
theorem makeTransaction_extra
    (h : makeTransaction e decomposedOutputs keysInfo [] [] unlockTimestamp =
      .ok (tx', transactionSK)) :
    ∃ publicKey, tx'.transaction.extra = (writeTransactionExtra [] [.publicKey ⟨publicKey⟩]).2 := by
  simp only [makeTransaction, Codec.bind_eq_ok] at h
  obtain ⟨tx₁, h₁, ⟨tx₂, ephKeys⟩, h₂, tx₃, h₃, sk, -, tx₄, h₄, tx₅, h₅, tx₆, h₆, tx₇, h₇,
    hpure⟩ := h
  obtain ⟨rfl, -⟩ := Prod.mk.inj (Codec.pure_eq_ok.mp hpure)
  obtain ⟨-, rfl⟩ := TransactionImpl.setUnlockTime_eq_ok h₁
  obtain ⟨-, -, -, -, hfields₂⟩ := addInputs_eq_ok h₂
  obtain ⟨publicKey, hfields₃, hextra₃⟩ :=
    TransactionImpl.setDeterministicTransactionSecretKey_extra h₃
  -- no message is appended, and the outputs and the signatures leave the extra alone
  obtain rfl : tx₃ = tx₄ := Codec.pure_eq_ok.mp h₄
  obtain ⟨-, -, hextra₅⟩ := addOutputs_eq_ok h₅
  have hextra₇ : tx₇.transaction.extra = tx₆.transaction.extra :=
    congrArg (·.extra) (signInputs_eq_ok h₇)
  refine ⟨publicKey, ?_⟩
  rw [hextra₇, TransactionImpl.appendExtra_extra h₆, List.append_nil, hextra₅, hextra₃, hfields₃,
    hfields₂]
  rfl

end WalletGreen

end UltraNoteCore
