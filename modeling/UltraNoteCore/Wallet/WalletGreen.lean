import UltraNoteCore.Basic.DecomposeAmount
import UltraNoteCore.Core.CurrencyBounds
import UltraNoteCore.Core.Serialization
import UltraNoteCore.Core.Transaction
import UltraNoteCore.Core.TransactionPool
import UltraNoteCore.Transfers.TransfersContainer
import Mathlib.Logic.Relation

/-!
# Deposits in `WalletGreen`

`WalletGreen` (`WalletGreen.cpp`) records a deposit once the transaction that creates it is in
a block (`insertNewDeposit`); its interest is computed then, at the height of that block, and
never again. `withdrawDeposit` spends the deposit's output with one multisignature input and
pays the principal plus the recorded interest, less a fee of 10, back to the owner's address,
cut into digits by `split`. The node values the same input at the height where it checks the
withdrawal. The two agree from `END_MULTIPLIER_BLOCK` on; a deposit recorded below it carries
ten times the interest the node credits later, so its withdrawal spends more than the input is
worth there and the node refuses it.

The transfers container, the node and the signatures are the wallet's environment: the
container's answer for the deposit's output, the node's verdict on a relayed transaction, and
the signature `generate_signature` makes for each input are arguments.

## Main definitions

* `Deposit`, `WalletGreen`, `WalletGreen.insertNewDeposit`, `WalletGreen.withdrawDeposit`
* `WalletGreen.DepositStep`: the calls that write `m_deposits`
* `WalletGreen.DepositsRecorded`: every deposit carries the interest of its own block

## Main results

* `WalletGreen.depositsRecorded_of_run`: along every run the recorded interest is that of the
  deposit's block
* `WalletGreen.withdrawDeposit_eq_ok`: what a successful withdrawal checked, built and sent
* `WalletGreen.withdrawDeposit_interest_agrees`: where the node admits a withdrawal, it credits
  the interest the wallet recorded, and the outputs stay within the input
* `WalletGreen.withdrawDeposit_early_refused`: a deposit recorded up to `END_MULTIPLIER_BLOCK`
  is never withdrawn through a node past it
-/

namespace UltraNoteCore

/-- The `cn::error::WalletErrorCodes` the modelled paths raise. -/
inductive WalletErrorCodes
  | INTERNAL_WALLET_ERROR
  | MIXIN_COUNT_TOO_BIG
  | NOTHING_TO_OPTIMIZE
  | MINIMUM_INPUT_COUNT
  | MINIMUM_ONE_ADDRESS
  | THRESHOLD_TOO_LOW
  | TRANSACTION_SIZE_TOO_BIG
  | WRONG_AMOUNT
  | OBJECT_NOT_FOUND
  | DEPOSIT_DOESNOT_EXIST
  | DEPOSIT_LOCKED
  | NOT_INITIALIZED
  | OPERATION_CANCELLED
  | INDEX_OUT_OF_RANGE
deriving DecidableEq, Repr

/-- What a `WalletGreen` call throws: one of its error codes, the `std::runtime_error` of the
transaction it builds, or the error the node reports for a relayed transaction. -/
inductive WalletError
  | code (code : WalletErrorCodes)
  | transaction (message : String)
  | node
deriving DecidableEq, Repr

/-- `WALLET_INVALID_TRANSACTION_ID`, the largest `size_t`. -/
def WALLET_INVALID_TRANSACTION_ID : ℕ := 2 ^ 64 - 1

/-- `cn::Deposit`, without `address`, which the deposit paths neither set nor read. -/
structure Deposit where
  creatingTransactionId : ℕ
  spendingTransactionId : ℕ
  term : UInt32
  amount : UInt64
  interest : UInt64
  height : UInt64
  unlockHeight : UInt64
  locked : Bool
  outputInTransaction : UInt32
  transactionHash : Hash
deriving DecidableEq, Repr

/-- The state of `WalletGreen` the deposit paths read and write. -/
structure WalletGreen where
  /-- `m_deposits`, in the order of its random-access index. -/
  m_deposits : List Deposit
  /-- The hashes of `m_transactions`, whose hash index `insertDeposit` searches. -/
  m_transactions : List Hash
  /-- `m_blockchain`: the hashes of the blocks the wallet has seen. -/
  m_blockchain : List Hash
  m_upperTransactionSizeLimit : ℕ

/-- `split` of `WalletGreen.cpp`: both callbacks of `decompose_amount_into_digits` push onto one
vector. -/
def split (amount dustThreshold : UInt64) : List UInt64 :=
  decompose_amount_into_digits dustThreshold id id amount

/-- `WalletGreen::prepareMultisignatureInputs`. -/
def prepareMultisignatureInputs (selectedTransfers : List TransactionOutputInformation) :
    List MultisignatureInput :=
  selectedTransfers.map fun output =>
    { amount := output.amount
      signatureCount := output.requiredSignatures.toUInt8
      outputIndex := output.globalOutputIndex
      term := output.term }

/-- What a `WalletGreen` call reads of the node: its verdict on a relayed transaction
(`INode::relayTransaction`). -/
structure WalletNode where
  relayTransaction : Transaction → Bool

namespace WalletGreen

/-- `WalletGreen::getBlockCount`. -/
def getBlockCount (w : WalletGreen) : UInt32 := w.m_blockchain.length.toUInt32

/-- `WalletGreen::getDeposit`. -/
def getDeposit (w : WalletGreen) (depositIndex : ℕ) : Except WalletError Deposit :=
  match w.m_deposits[depositIndex]? with
  | some deposit => .ok deposit
  | none => .error (.code .DEPOSIT_DOESNOT_EXIST)

/-- `WalletGreen::insertDeposit`: the deposit, with its position in its transaction and the
transaction's hash, goes at the end; the transaction must be known. -/
def insertDeposit (w : WalletGreen) (deposit : Deposit) (depositIndexInTransaction : ℕ)
    (transactionHash : Hash) : Except WalletError (WalletGreen × ℕ) :=
  let info := { deposit with
    outputInTransaction := depositIndexInTransaction.toUInt32
    transactionHash := transactionHash }
  if transactionHash ∈ w.m_transactions then
    .ok ({ w with m_deposits := w.m_deposits ++ [info] }, w.m_deposits.length)
  else .error (.code .OBJECT_NOT_FOUND)

/-- `WalletGreen::insertNewDeposit`: the interest is computed at the height of the block that
confirmed the deposit. The position and hash, left unset here, are written by `insertDeposit`;
the unlock height is a `uint32_t` sum. -/
def insertNewDeposit (w : WalletGreen) (depositOutput : TransactionOutputInformation)
    (creatingTransactionId : ℕ) (currency : Currency) (height : UInt32) :
    Except WalletError (WalletGreen × ℕ) :=
  let deposit : Deposit :=
    { amount := depositOutput.amount
      creatingTransactionId := creatingTransactionId
      term := depositOutput.term
      spendingTransactionId := WALLET_INVALID_TRANSACTION_ID
      interest := currency.calculateInterest depositOutput.amount depositOutput.term height.toNat
      height := height.toUInt64
      unlockHeight := (height + depositOutput.term).toUInt64
      locked := true
      outputInTransaction := 0
      transactionHash := NULL_HASH }
  w.insertDeposit deposit depositOutput.outputInTransaction.toNat depositOutput.transactionHash

/-- `WalletGreen::updateWalletDepositInfo`: only the spending transaction is taken over; whether
it changed is returned. -/
def updateWalletDepositInfo (w : WalletGreen) (depositId : ℕ) (info : Deposit) :
    WalletGreen × Bool :=
  ({ w with m_deposits := w.m_deposits.modify depositId fun deposit =>
      { deposit with spendingTransactionId := info.spendingTransactionId } },
    match w.m_deposits[depositId]? with
    | some deposit => deposit.spendingTransactionId ≠ info.spendingTransactionId
    | none => false)

/-- `WalletGreen::validateSaveAndSendTransaction` on the path `withdrawDeposit` and
`createFusionTransaction` take (`send` set): the size of the transaction's data against the
limit of its kind, then the relay. A transaction the serializer refuses has no data that reads
back, which the source reports as an internal error. -/
def validateSaveAndSendTransaction (w : WalletGreen) (currency : Currency) (node : WalletNode)
    (transaction : Transaction) (isFusion : Bool) : Except WalletError Unit :=
  match toBinaryArray Output.serializeTransaction transaction with
  | none => .error (.code .INTERNAL_WALLET_ERROR)
  | some transactionData =>
    if w.m_upperTransactionSizeLimit < transactionData.length ∧ isFusion = false then
      .error (.code .TRANSACTION_SIZE_TOO_BIG)
    else if currency.fusionTxMaxSize < transactionData.length ∧ isFusion = true then
      .error (.code .TRANSACTION_SIZE_TOO_BIG)
    else if node.relayTransaction transaction then .ok ()
    else .error .node

section Withdraw

variable {KeyDerivation : Type} [Inhabited KeyDerivation]
  (generate_key_derivation : PublicKey → SecretKey → Option KeyDerivation)
  (derive_public_key : KeyDerivation → ℕ → PublicKey → PublicKey)

/-- The transaction `withdrawDeposit` builds on `transaction`: one multisignature input per
selected transfer, one key output to `address` per amount, unlock time zero, then every input
signed with `signature` of its position. -/
def withdrawalTransaction (transaction : TransactionImpl)
    (selectedTransfers : List TransactionOutputInformation) (outputAmounts : List UInt64)
    (address : AccountPublicAddress) (signature : ℕ → Signature) :
    Except String TransactionImpl := do
  let inputs := prepareMultisignatureInputs selectedTransfers
  let transaction ← inputs.foldlM (fun t input => Prod.fst <$> t.addMultisignatureInput input)
    transaction
  let transaction ← outputAmounts.foldlM (fun t amount =>
    Prod.fst <$> t.addOutput generate_key_derivation derive_public_key amount address) transaction
  let transaction ← transaction.setUnlockTime 0
  (List.range inputs.length).foldlM (fun t i => t.pushSignature i (signature i)) transaction

/-- `WalletGreen::withdrawDeposit`: the deposit must exist, be unlocked at the wallet's block
count, and its output be available in the container; the transaction pays `amount + interest -
10` back to `address`, the address of the deposit's first transfer, and is sent. -/
def withdrawDeposit (w : WalletGreen) (currency : Currency) (node : WalletNode)
    (getTransfer : Hash → UInt32 → TransactionOutputInformation × TransferState)
    (address : AccountPublicAddress) (txKeys : KeyPair) (signature : ℕ → Signature)
    (depositId : ℕ) : Except WalletError Transaction := do
  let deposit ← w.getDeposit depositId
  if w.getBlockCount.toUInt64 < deposit.unlockHeight then throw (.code .DEPOSIT_LOCKED)
  else
    let foundMoney := deposit.amount + deposit.interest
    let (transfer, state) := getTransfer deposit.transactionHash deposit.outputInTransaction
    if state ≠ .TransferAvailable then throw (.code .DEPOSIT_LOCKED)
    else
      let transaction ← (withdrawalTransaction generate_key_derivation derive_public_key
        (TransactionImpl.create txKeys) [transfer] (split (foundMoney - 10) DEFAULT_DUST_THRESHOLD)
        address signature).mapError .transaction
      w.validateSaveAndSendTransaction currency node transaction.transaction false
      pure transaction.transaction

end Withdraw

/-! ## What the withdrawal builds -/

section Build

variable {KeyDerivation : Type} [Inhabited KeyDerivation]
  {generate_key_derivation : PublicKey → SecretKey → Option KeyDerivation}
  {derive_public_key : KeyDerivation → ℕ → PublicKey → PublicKey}

theorem map_fst_eq_ok {α β : Type} {x : Except String (α × β)} {a : α}
    (h : (Prod.fst <$> x) = .ok a) : ∃ b, x = .ok (a, b) := by
  rw [map_eq_pure_bind, Codec.bind_eq_ok] at h
  obtain ⟨⟨a', b⟩, hx, hpure⟩ := h
  obtain rfl : a' = a := Codec.pure_eq_ok.mp hpure
  exact ⟨b, hx⟩

/-- Adding the inputs appends them and leaves the outputs alone. -/
theorem foldlM_addMultisignatureInput_eq_ok : ∀ {inputs : List MultisignatureInput}
    {t t' : TransactionImpl},
    inputs.foldlM (fun t input => Prod.fst <$> t.addMultisignatureInput input) t = .ok t' →
      t'.transaction.inputs = t.transaction.inputs ++ inputs.map .multisignature ∧
        t'.transaction.outputs = t.transaction.outputs
  | [], t, t', h => by
    cases h
    simp
  | input :: inputs, t, t', h => by
    rw [List.foldlM_cons, Codec.bind_eq_ok] at h
    obtain ⟨t₁, h₁, hrest⟩ := h
    obtain ⟨_, h₁⟩ := map_fst_eq_ok h₁
    obtain ⟨-, -, rfl⟩ := TransactionImpl.addMultisignatureInput_eq_ok h₁
    obtain ⟨hinputs, houtputs⟩ := foldlM_addMultisignatureInput_eq_ok hrest
    exact ⟨by simp [hinputs], houtputs⟩

/-- Adding the outputs appends one of each amount and leaves the inputs alone. -/
theorem foldlM_addOutput_eq_ok {address : AccountPublicAddress} : ∀ {amounts : List UInt64}
    {t t' : TransactionImpl},
    amounts.foldlM (fun t amount =>
      Prod.fst <$> t.addOutput generate_key_derivation derive_public_key amount address) t =
        .ok t' →
      t'.transaction.inputs = t.transaction.inputs ∧
        t'.transaction.outputs.map (·.amount) = t.transaction.outputs.map (·.amount) ++ amounts
  | [], t, t', h => by
    cases h
    simp
  | amount :: amounts, t, t', h => by
    rw [List.foldlM_cons, Codec.bind_eq_ok] at h
    obtain ⟨t₁, h₁, hrest⟩ := h
    obtain ⟨_, h₁⟩ := map_fst_eq_ok h₁
    obtain ⟨-, _, -, -, rfl⟩ := TransactionImpl.addOutput_eq_ok h₁
    obtain ⟨hinputs, houtputs⟩ := foldlM_addOutput_eq_ok hrest
    exact ⟨hinputs, by simp [houtputs]⟩

/-- Signing changes no input and no output. -/
theorem foldlM_pushSignature_eq_ok {signature : ℕ → Signature} : ∀ {indexes : List ℕ}
    {t t' : TransactionImpl},
    indexes.foldlM (fun t i => t.pushSignature i (signature i)) t = .ok t' →
      t'.transaction.toTransactionPrefix = t.transaction.toTransactionPrefix
  | [], t, t', h => by
    cases h
    rfl
  | i :: indexes, t, t', h => by
    rw [List.foldlM_cons, Codec.bind_eq_ok] at h
    obtain ⟨t₁, h₁, hrest⟩ := h
    rw [foldlM_pushSignature_eq_ok hrest, TransactionImpl.pushSignature_eq_ok h₁]

/-- The built transaction has the inputs of the selected transfers after those of
`transaction`, and outputs of the given amounts after its own. -/
theorem withdrawalTransaction_eq_ok {transaction t' : TransactionImpl}
    {selectedTransfers : List TransactionOutputInformation} {outputAmounts : List UInt64}
    {address : AccountPublicAddress} {signature : ℕ → Signature}
    (h : withdrawalTransaction generate_key_derivation derive_public_key transaction
      selectedTransfers outputAmounts address signature = .ok t') :
    t'.transaction.inputs = transaction.transaction.inputs ++
        (prepareMultisignatureInputs selectedTransfers).map .multisignature ∧
      t'.transaction.outputs.map (·.amount) =
        transaction.transaction.outputs.map (·.amount) ++ outputAmounts := by
  simp only [withdrawalTransaction, Codec.bind_eq_ok] at h
  obtain ⟨t₁, h₁, t₂, h₂, t₃, h₃, h₄⟩ := h
  obtain ⟨hinputs₁, houtputs₁⟩ := foldlM_addMultisignatureInput_eq_ok h₁
  obtain ⟨hinputs₂, houtputs₂⟩ := foldlM_addOutput_eq_ok h₂
  obtain ⟨-, rfl⟩ := TransactionImpl.setUnlockTime_eq_ok h₃
  -- signing keeps the prefix of the transaction `setUnlockTime` left, whose lists are `t₂`'s
  have hsigned := foldlM_pushSignature_eq_ok h₄
  exact ⟨(congrArg TransactionPrefix.inputs hsigned).trans (hinputs₂.trans hinputs₁),
    (congrArg (·.outputs.map (·.amount)) hsigned).trans (houtputs₂.trans (by rw [houtputs₁]))⟩

/-! ## What a successful withdrawal did -/

theorem getDeposit_eq_ok {w : WalletGreen} {depositIndex : ℕ} {deposit : Deposit} :
    w.getDeposit depositIndex = .ok deposit ↔ w.m_deposits[depositIndex]? = some deposit := by
  unfold getDeposit
  split
  · rename_i d hd
    rw [hd]
    exact ⟨fun h => by cases h; rfl, fun h => by cases h; rfl⟩
  · rename_i hd
    rw [hd]
    constructor <;> intro h <;> cases h

/-- A sent transaction serialized within the limit of its kind and was relayed. -/
theorem validateSaveAndSendTransaction_eq_ok {w : WalletGreen} {currency : Currency}
    {node : WalletNode} {transaction : Transaction} {isFusion : Bool}
    (h : w.validateSaveAndSendTransaction currency node transaction isFusion = .ok ()) :
    ∃ transactionData, toBinaryArray Output.serializeTransaction transaction = some transactionData ∧
      (isFusion = false → transactionData.length ≤ w.m_upperTransactionSizeLimit) ∧
      (isFusion = true → transactionData.length ≤ currency.fusionTxMaxSize) ∧
      node.relayTransaction transaction = true := by
  unfold validateSaveAndSendTransaction at h
  split at h
  · cases h
  · rename_i transactionData hdata
    split_ifs at h with hlimit hfusion hrelay
    exact ⟨transactionData, hdata, fun hkind => Nat.not_lt.mp fun hlt => hlimit ⟨hlt, hkind⟩,
      fun hkind => Nat.not_lt.mp fun hlt => hfusion ⟨hlt, hkind⟩, hrelay⟩

/-- A successful `withdrawDeposit` found the deposit unlocked and its output available, built
the withdrawal of `amount + interest - 10` on the container's record of the output, and the
node took it. -/
theorem withdrawDeposit_eq_ok {w : WalletGreen} {currency : Currency} {node : WalletNode}
    {getTransfer : Hash → UInt32 → TransactionOutputInformation × TransferState}
    {address : AccountPublicAddress} {txKeys : KeyPair} {signature : ℕ → Signature}
    {depositId : ℕ} {tx : Transaction}
    (h : w.withdrawDeposit generate_key_derivation derive_public_key currency node getTransfer
      address txKeys signature depositId = .ok tx) :
    ∃ deposit t, w.m_deposits[depositId]? = some deposit ∧
      deposit.unlockHeight ≤ w.getBlockCount.toUInt64 ∧
      (getTransfer deposit.transactionHash deposit.outputInTransaction).2 = .TransferAvailable ∧
      withdrawalTransaction generate_key_derivation derive_public_key
        (TransactionImpl.create txKeys)
        [(getTransfer deposit.transactionHash deposit.outputInTransaction).1]
        (split (deposit.amount + deposit.interest - 10) DEFAULT_DUST_THRESHOLD) address signature =
          .ok t ∧
      tx = t.transaction ∧ node.relayTransaction tx = true := by
  unfold withdrawDeposit at h
  rw [Codec.bind_eq_ok] at h
  obtain ⟨deposit, hdeposit, h⟩ := h
  -- the locked and unavailable branches throw, which `split_ifs` discharges
  split_ifs at h with hlocked
  rcases htransfer : getTransfer deposit.transactionHash deposit.outputInTransaction with
    ⟨transfer, state⟩
  rw [htransfer] at h
  simp only at h
  split_ifs at h with hstate
  simp only [Codec.bind_eq_ok, Codec.mapError_eq_ok] at h
  obtain ⟨t, hbuild, u, hsend, hpure⟩ := h
  obtain rfl : t.transaction = tx := Codec.pure_eq_ok.mp hpure
  obtain ⟨-, -, -, -, hrelay⟩ := validateSaveAndSendTransaction_eq_ok hsend
  refine ⟨deposit, t, getDeposit_eq_ok.mp hdeposit, UInt64.not_lt.mp hlocked, ?_, ?_, rfl, hrelay⟩
  · rw [htransfer]
    exact not_not.mp hstate
  · rw [htransfer]
    exact hbuild

end Build

/-! ## The interest recorded along a run -/

/-- The calls of `WalletGreen` as they change `m_deposits`: a confirmed deposit output is
recorded (`transactionUpdated` through `insertNewDeposit`), a spending transaction is noted
(`updateWalletDepositInfo`), `clear` drops every deposit, and every other call leaves them as
they are. -/
inductive DepositStep (currency : Currency) : WalletGreen → WalletGreen → Prop
  | insertNewDeposit {w w' : WalletGreen} {depositOutput : TransactionOutputInformation}
      {creatingTransactionId : ℕ} {height : UInt32} {id : ℕ} :
      w.insertNewDeposit depositOutput creatingTransactionId currency height = .ok (w', id) →
      DepositStep currency w w'
  | updateWalletDepositInfo (w : WalletGreen) (depositId : ℕ) (info : Deposit) :
      DepositStep currency w (w.updateWalletDepositInfo depositId info).1
  | clear (w : WalletGreen) : DepositStep currency w { w with m_deposits := [] }
  | other {w w' : WalletGreen} : w'.m_deposits = w.m_deposits → DepositStep currency w w'

/-- Every recorded deposit carries the interest of the block that confirmed it. -/
def DepositsRecorded (currency : Currency) (w : WalletGreen) : Prop :=
  ∀ deposit ∈ w.m_deposits,
    deposit.interest = currency.calculateInterest deposit.amount deposit.term deposit.height.toNat

/-- A property of every element survives modifying one of them by a map that keeps it. -/
theorem forall_mem_modify {α : Type} {P : α → Prop} {f : α → α} (hf : ∀ a, P a → P (f a)) :
    ∀ {l : List α} (i : ℕ), (∀ a ∈ l, P a) → ∀ a ∈ l.modify i f, P a
  | [], _, _ => by simp
  | b :: l, 0, hl => by
    rw [List.modify_zero_cons]
    intro a ha
    rcases List.mem_cons.mp ha with rfl | ha
    · exact hf b (hl b List.mem_cons_self)
    · exact hl a (List.mem_cons_of_mem b ha)
  | b :: l, i + 1, hl => by
    rw [List.modify_succ_cons]
    intro a ha
    rcases List.mem_cons.mp ha with rfl | ha
    · exact hl a List.mem_cons_self
    · exact forall_mem_modify hf i (fun a h => hl a (List.mem_cons_of_mem b h)) a ha

section Recorded

variable {currency : Currency} {w w' : WalletGreen}

theorem DepositsRecorded.insertNewDeposit {depositOutput : TransactionOutputInformation}
    {creatingTransactionId : ℕ} {height : UInt32} {id : ℕ} (hw : DepositsRecorded currency w)
    (h : w.insertNewDeposit depositOutput creatingTransactionId currency height = .ok (w', id)) :
    DepositsRecorded currency w' := by
  unfold WalletGreen.insertNewDeposit insertDeposit at h
  split_ifs at h with hknown
  simp only [Except.ok.injEq, Prod.mk.injEq] at h
  obtain ⟨rfl, -⟩ := h
  intro deposit hmem
  rcases List.mem_append.mp hmem with hold | hnew
  · exact hw deposit hold
  · -- the new deposit's height is the `uint32_t` height it was computed at
    rw [List.mem_singleton.mp hnew]
    show currency.calculateInterest _ _ height.toNat =
      currency.calculateInterest _ _ height.toUInt64.toNat
    rw [UInt32.toNat_toUInt64]

/-- Noting the spending transaction leaves amount, term, height and interest alone. -/
theorem DepositsRecorded.updateWalletDepositInfo (hw : DepositsRecorded currency w)
    (depositId : ℕ) (info : Deposit) :
    DepositsRecorded currency (w.updateWalletDepositInfo depositId info).1 := by
  unfold DepositsRecorded WalletGreen.updateWalletDepositInfo
  dsimp only
  refine forall_mem_modify ?_ depositId hw
  exact fun _ h => h

theorem DepositsRecorded.step (hw : DepositsRecorded currency w)
    (h : DepositStep currency w w') : DepositsRecorded currency w' := by
  cases h with
  | insertNewDeposit h => exact hw.insertNewDeposit h
  | updateWalletDepositInfo depositId info => exact hw.updateWalletDepositInfo depositId info
  | clear => exact fun _ h => absurd h List.not_mem_nil
  | other hkeep => exact fun deposit h => hw deposit (hkeep ▸ h)

/-- Along every run, every deposit carries the interest of its own block. -/
theorem depositsRecorded_of_run {w₀ : WalletGreen} (h₀ : DepositsRecorded currency w₀)
    (hrun : Relation.ReflTransGen (DepositStep currency) w₀ w) : DepositsRecorded currency w := by
  induction hrun with
  | refl => exact h₀
  | tail _ hstep ih => exact ih.step hstep

/-- A deposit of a wallet that started with none carries the interest of its own block. -/
theorem interest_eq_of_run {w₀ : WalletGreen} (h₀ : w₀.m_deposits = [])
    (hrun : Relation.ReflTransGen (DepositStep currency) w₀ w) {depositId : ℕ} {deposit : Deposit}
    (hdeposit : w.m_deposits[depositId]? = some deposit) :
    deposit.interest = currency.calculateInterest deposit.amount deposit.term deposit.height.toNat :=
  depositsRecorded_of_run (fun _ hd => by rw [h₀] at hd; cases hd) hrun deposit
    (List.mem_of_getElem? hdeposit)

end Recorded

/-! ## The withdrawal as the node values it -/

/-- With the default threshold of 10, `split` cuts an amount into pieces that add up to it. -/
theorem sum_split_default (amount : UInt64) :
    ((split amount DEFAULT_DUST_THRESHOLD).map UInt64.toNat).sum = amount.toNat := by
  show ((decomposeAmount amount 10).map UInt64.toNat).sum = amount.toNat
  rw [decomposeAmount_ten, sum_digitChunks amount 1 (by simpa using amount.toNat_lt)]
  exact Nat.mul_one _

/-- Outputs of the amounts `split` makes of `amount` pay exactly `amount`. -/
theorem get_outs_money_amount_of_split {tx : TransactionPrefix} {amount : UInt64}
    (houtputs : tx.outputs.map (·.amount) = split amount DEFAULT_DUST_THRESHOLD) :
    get_outs_money_amount tx = amount := by
  have hsum : (tx.outputs.map fun o => o.amount.toNat).sum = amount.toNat := by
    rw [← sum_split_default amount, ← houtputs, List.map_map]
    rfl
  apply UInt64.toNat_inj.mp
  have hfit : (0 : UInt64).toNat + (tx.outputs.map fun o => o.amount.toNat).sum < 2 ^ 64 := by
    rw [hsum, UInt64.toNat_zero, Nat.zero_add]
    exact amount.toNat_lt
  rw [get_outs_money_amount, toNat_foldl_add (·.amount) 0 tx.outputs hfit, hsum,
    UInt64.toNat_zero, Nat.zero_add]

theorem getTransactionAllInputsAmount_of_eq_singleton (c : Currency) {tx : TransactionPrefix}
    {input : TransactionInput} (h : tx.inputs = [input]) (height : ℕ) :
    c.getTransactionAllInputsAmount tx height = c.getTransactionInputAmount height input := by
  rw [Currency.getTransactionAllInputsAmount, h, List.foldl_cons, List.foldl_nil, UInt64.zero_add]

theorem calculateTotalTransactionInterest_of_eq_singleton (c : Currency) {tx : TransactionPrefix}
    {input : TransactionInput} (h : tx.inputs = [input]) (height : ℕ) :
    c.calculateTotalTransactionInterest tx height = c.inputInterest height input := by
  rw [Currency.calculateTotalTransactionInterest, h, List.foldl_cons, List.foldl_nil,
    UInt64.zero_add]

section Withdrawal

variable {KeyDerivation : Type} [Inhabited KeyDerivation]
  {generate_key_derivation : PublicKey → SecretKey → Option KeyDerivation}
  {derive_public_key : KeyDerivation → ℕ → PublicKey → PublicKey}
  {currency : Currency} {w : WalletGreen} {node : WalletNode}
  {getTransfer : Hash → UInt32 → TransactionOutputInformation × TransferState}
  {address : AccountPublicAddress} {txKeys : KeyPair} {signature : ℕ → Signature}
  {depositId : ℕ} {deposit : Deposit} {tx : Transaction}

/-- The withdrawal of a deposit whose output the container records with the deposit's amount
and term has that output as its one input and pays `amount + interest - 10`. -/
theorem withdrawDeposit_spends_deposit (hdeposit : w.m_deposits[depositId]? = some deposit)
    (hamount : (getTransfer deposit.transactionHash deposit.outputInTransaction).1.amount =
      deposit.amount)
    (hterm : (getTransfer deposit.transactionHash deposit.outputInTransaction).1.term =
      deposit.term)
    (h : w.withdrawDeposit generate_key_derivation derive_public_key currency node getTransfer
      address txKeys signature depositId = .ok tx) :
    ∃ signatureCount outputIndex, tx.inputs =
        [.multisignature ⟨deposit.amount, signatureCount, outputIndex, deposit.term⟩] ∧
      get_outs_money_amount tx.toTransactionPrefix = deposit.amount + deposit.interest - 10 ∧
      node.relayTransaction tx = true := by
  obtain ⟨deposit', t, hdeposit', -, -, hbuild, rfl, hrelay⟩ := withdrawDeposit_eq_ok h
  obtain rfl : deposit = deposit' := Option.some.inj (hdeposit.symm.trans hdeposit')
  obtain ⟨hinputs, houtputs⟩ := withdrawalTransaction_eq_ok hbuild
  refine ⟨(getTransfer deposit.transactionHash deposit.outputInTransaction).1.requiredSignatures.toUInt8,
    (getTransfer deposit.transactionHash deposit.outputInTransaction).1.globalOutputIndex, ?_,
    get_outs_money_amount_of_split ?_, hrelay⟩
  · rw [hinputs]
    simp [TransactionImpl.create, prepareMultisignatureInputs, hamount, hterm]
  · rw [houtputs]
    rfl

/-- How the node values a withdrawal of a deposit it takes at `height`: its one input is worth
the principal plus the interest at `height`, all of it interest the node credits, and the
outputs pay `amount + interest - 10`, no more than the input is worth. -/
theorem withdrawDeposit_valued {checkKey : PublicKey → Bool} {height : ℕ}
    (hnode : ∀ tx, node.relayTransaction tx = true →
      check_tx_semantic Currency.mainnet checkKey tx height = true)
    (hdeposit : w.m_deposits[depositId]? = some deposit)
    (hamount : (getTransfer deposit.transactionHash deposit.outputInTransaction).1.amount =
      deposit.amount)
    (hterm : (getTransfer deposit.transactionHash deposit.outputInTransaction).1.term =
      deposit.term) (hterm₀ : deposit.term ≠ 0)
    (h : w.withdrawDeposit generate_key_derivation derive_public_key Currency.mainnet node
      getTransfer address txKeys signature depositId = .ok tx) :
    Currency.mainnet.getTransactionAllInputsAmount tx.toTransactionPrefix height =
        deposit.amount + Currency.mainnet.calculateInterest deposit.amount deposit.term height ∧
      Currency.mainnet.calculateTotalTransactionInterest tx.toTransactionPrefix height =
        Currency.mainnet.calculateInterest deposit.amount deposit.term height ∧
      get_outs_money_amount tx.toTransactionPrefix = deposit.amount + deposit.interest - 10 ∧
      deposit.amount + deposit.interest - 10 ≤
        Currency.mainnet.getTransactionAllInputsAmount tx.toTransactionPrefix height := by
  obtain ⟨signatureCount, outputIndex, hinputs, hout, hrelay⟩ :=
    withdrawDeposit_spends_deposit hdeposit hamount hterm h
  have hadmitted := get_outs_money_amount_le_of_check_tx_semantic (hnode tx hrelay)
  refine ⟨?_, ?_, hout, hout ▸ hadmitted⟩
  · rw [getTransactionAllInputsAmount_of_eq_singleton _ hinputs]
    simp only [Currency.getTransactionInputAmount, if_neg hterm₀]
  · rw [calculateTotalTransactionInterest_of_eq_singleton _ hinputs]
    simp only [Currency.inputInterest, if_neg hterm₀]

/-- The node never admits, past `END_MULTIPLIER_BLOCK`, the withdrawal of a deposit that
carries the interest of a block up to it. -/
theorem early_withdrawal_not_covered {height : ℕ}
    (hrecorded : deposit.interest =
      Currency.mainnet.calculateInterest deposit.amount deposit.term deposit.height.toNat)
    (hearly : deposit.height.toNat ≤ END_MULTIPLIER_BLOCK) (hnow : END_MULTIPLIER_BLOCK < height)
    (hamount : Currency.mainnet.depositMinAmount ≤ deposit.amount)
    (hsupply : deposit.amount ≤ Currency.mainnet.moneySupply)
    (hmin : Currency.mainnet.depositMinTerm ≤ deposit.term)
    (hterm : deposit.term ≤ Currency.mainnet.depositMaxTerm) :
    ¬deposit.amount + deposit.interest - 10 ≤
      deposit.amount + Currency.mainnet.calculateInterest deposit.amount deposit.term height := by
  rw [hrecorded]
  exact UInt64.not_le.mpr
    (Currency.mainnet_add_calculateInterest_lt_of_le hearly hnow hamount hsupply hmin hterm)

theorem term_ne_zero_of_le {term : UInt32} (hmin : Currency.mainnet.depositMinTerm ≤ term) :
    term ≠ 0 := by
  have hmin' : 22000 ≤ term.toNat := UInt32.le_iff_toNat_le.mp hmin
  rintro rfl
  exact absurd hmin' (by decide)

/-- Wherever the node admits a withdrawal at a height no lower than the deposit's block, the
interest the wallet recorded for the deposit is the interest the node credits there, and the
withdrawal pays out `amount + interest - 10`, no more than the node values its input at. -/
theorem withdrawDeposit_interest_agrees {w₀ : WalletGreen} (h₀ : w₀.m_deposits = [])
    (hrun : Relation.ReflTransGen (DepositStep Currency.mainnet) w₀ w)
    {checkKey : PublicKey → Bool} {height : ℕ}
    (hnode : ∀ tx, node.relayTransaction tx = true →
      check_tx_semantic Currency.mainnet checkKey tx height = true)
    (hdeposit : w.m_deposits[depositId]? = some deposit)
    (houtAmount : (getTransfer deposit.transactionHash deposit.outputInTransaction).1.amount =
      deposit.amount)
    (houtTerm : (getTransfer deposit.transactionHash deposit.outputInTransaction).1.term =
      deposit.term)
    (hamount : Currency.mainnet.depositMinAmount ≤ deposit.amount)
    (hsupply : deposit.amount ≤ Currency.mainnet.moneySupply)
    (hmin : Currency.mainnet.depositMinTerm ≤ deposit.term)
    (hterm : deposit.term ≤ Currency.mainnet.depositMaxTerm)
    (hlater : deposit.height.toNat ≤ height)
    (h : w.withdrawDeposit generate_key_derivation derive_public_key Currency.mainnet node
      getTransfer address txKeys signature depositId = .ok tx) :
    deposit.interest = Currency.mainnet.calculateInterest deposit.amount deposit.term height ∧
      Currency.mainnet.calculateTotalTransactionInterest tx.toTransactionPrefix height =
        deposit.interest ∧
      get_outs_money_amount tx.toTransactionPrefix = deposit.amount + deposit.interest - 10 ∧
      deposit.amount + deposit.interest - 10 ≤
        Currency.mainnet.getTransactionAllInputsAmount tx.toTransactionPrefix height := by
  obtain ⟨hvalue, hcredited, hout, hadmitted⟩ :=
    withdrawDeposit_valued hnode hdeposit houtAmount houtTerm (term_ne_zero_of_le hmin) h
  have hrecorded := interest_eq_of_run h₀ hrun hdeposit
  -- the deposit's block and the node's height are on one side of `END_MULTIPLIER_BLOCK`: the
  -- other case is a withdrawal the node refuses
  have hinterest : deposit.interest =
      Currency.mainnet.calculateInterest deposit.amount deposit.term height := by
    by_cases hearly : deposit.height.toNat ≤ END_MULTIPLIER_BLOCK
    · by_cases hnow : height ≤ END_MULTIPLIER_BLOCK
      · rw [hrecorded]
        exact Currency.calculateInterest_of_le_of_le _ _ _ hearly hnow
      · rw [hvalue] at hadmitted
        exact absurd hadmitted (early_withdrawal_not_covered hrecorded hearly (Nat.not_le.mp hnow)
          hamount hsupply hmin hterm)
    · have hlate := Nat.not_le.mp hearly
      rw [hrecorded]
      exact Currency.calculateInterest_of_lt _ _ _ hlate (Nat.lt_of_lt_of_le hlate hlater)
  exact ⟨hinterest, hcredited.trans hinterest.symm, hout, hadmitted⟩

/-- A deposit recorded up to `END_MULTIPLIER_BLOCK` is never withdrawn through a node past it:
the recorded interest is ten times what the node credits, and the outputs exceed the input. -/
theorem withdrawDeposit_early_refused {w₀ : WalletGreen} (h₀ : w₀.m_deposits = [])
    (hrun : Relation.ReflTransGen (DepositStep Currency.mainnet) w₀ w)
    {checkKey : PublicKey → Bool} {height : ℕ}
    (hnode : ∀ tx, node.relayTransaction tx = true →
      check_tx_semantic Currency.mainnet checkKey tx height = true)
    (hdeposit : w.m_deposits[depositId]? = some deposit)
    (houtAmount : (getTransfer deposit.transactionHash deposit.outputInTransaction).1.amount =
      deposit.amount)
    (houtTerm : (getTransfer deposit.transactionHash deposit.outputInTransaction).1.term =
      deposit.term)
    (hamount : Currency.mainnet.depositMinAmount ≤ deposit.amount)
    (hsupply : deposit.amount ≤ Currency.mainnet.moneySupply)
    (hmin : Currency.mainnet.depositMinTerm ≤ deposit.term)
    (hterm : deposit.term ≤ Currency.mainnet.depositMaxTerm)
    (hearly : deposit.height.toNat ≤ END_MULTIPLIER_BLOCK) (hnow : END_MULTIPLIER_BLOCK < height) :
    w.withdrawDeposit generate_key_derivation derive_public_key Currency.mainnet node
      getTransfer address txKeys signature depositId ≠ .ok tx := by
  intro h
  obtain ⟨hvalue, -, -, hadmitted⟩ :=
    withdrawDeposit_valued hnode hdeposit houtAmount houtTerm (term_ne_zero_of_le hmin) h
  rw [hvalue] at hadmitted
  exact early_withdrawal_not_covered (interest_eq_of_run h₀ hrun hdeposit) hearly hnow hamount
    hsupply hmin hterm hadmitted

end Withdrawal

/-! ### Withdrawals on the main network

A wallet that has seen 26000 blocks and knows one transaction, whose first output deposits one
coin for the shortest term; the node admits what `check_tx_semantic` admits at height 4000. -/

/-- The deposit output, as the container records it. -/
def sampleDepositOutput : TransactionOutputInformation :=
  { type := .Multisignature, amount := 1000000, globalOutputIndex := 0, outputInTransaction := 0,
    transactionHash := NULL_HASH, transactionPublicKey := default, outputKey := default,
    requiredSignatures := 1, term := 22000 }

def sampleWallet : WalletGreen :=
  { m_deposits := [], m_transactions := [NULL_HASH],
    m_blockchain := List.replicate 26000 NULL_HASH,
    m_upperTransactionSizeLimit := Currency.mainnet.transactionMaxSize }

/-- The deposit `insertNewDeposit` records for the output confirmed at `height`. -/
def sampleDeposit (height : UInt32) : Deposit :=
  { creatingTransactionId := 0, spendingTransactionId := WALLET_INVALID_TRANSACTION_ID,
    term := 22000, amount := 1000000,
    interest := Currency.mainnet.calculateInterest 1000000 22000 height.toNat,
    height := height.toUInt64, unlockHeight := (height + 22000).toUInt64, locked := true,
    outputInTransaction := 0, transactionHash := NULL_HASH }

theorem sampleWallet_insertNewDeposit (height : UInt32) :
    sampleWallet.insertNewDeposit sampleDepositOutput 0 Currency.mainnet height =
      .ok ({ sampleWallet with m_deposits := [sampleDeposit height] }, 0) := rfl

def sampleNode : WalletNode := ⟨fun tx => check_tx_semantic Currency.mainnet (fun _ => true) tx 4000⟩

/-- The derivation the sample withdrawal builds its output keys with. -/
def sampleKeyDerivation : PublicKey → SecretKey → Option Unit := fun _ _ => some ()

def sampleDerivePublicKey : Unit → ℕ → PublicKey → PublicKey := fun _ _ key => key

/-- The withdrawal of the deposit confirmed at height 4000 goes through, and wallet and node
agree on its interest of 2500. -/
theorem withdrawDeposit_interest_agrees_sample :
    ∃ tx, ({ sampleWallet with m_deposits := [sampleDeposit 4000] }).withdrawDeposit
        sampleKeyDerivation sampleDerivePublicKey Currency.mainnet sampleNode
        (fun _ _ => (sampleDepositOutput, .TransferAvailable)) ⟨default, default⟩
        ⟨default, ⟨0⟩⟩ (fun _ => default) 0 = .ok tx ∧
      (sampleDeposit 4000).interest = Currency.mainnet.calculateInterest 1000000 22000 4000 ∧
      Currency.mainnet.calculateTotalTransactionInterest tx.toTransactionPrefix 4000 =
        (sampleDeposit 4000).interest ∧
      get_outs_money_amount tx.toTransactionPrefix = 1000000 + (sampleDeposit 4000).interest - 10 ∧
      1000000 + (sampleDeposit 4000).interest - 10 ≤
        Currency.mainnet.getTransactionAllInputsAmount tx.toTransactionPrefix 4000 := by
  have hok : (({ sampleWallet with m_deposits := [sampleDeposit 4000] }).withdrawDeposit
      sampleKeyDerivation sampleDerivePublicKey Currency.mainnet sampleNode
      (fun _ _ => (sampleDepositOutput, .TransferAvailable)) ⟨default, default⟩
      ⟨default, ⟨0⟩⟩ (fun _ => default) 0).isOk = true := by decide +kernel
  cases hres : ({ sampleWallet with m_deposits := [sampleDeposit 4000] }).withdrawDeposit
      sampleKeyDerivation sampleDerivePublicKey Currency.mainnet sampleNode
      (fun _ _ => (sampleDepositOutput, .TransferAvailable)) ⟨default, default⟩
      ⟨default, ⟨0⟩⟩ (fun _ => default) 0 with
  | error e =>
    rw [hres] at hok
    cases hok
  | ok tx =>
    exact ⟨tx, rfl, withdrawDeposit_interest_agrees (by rfl)
      (.single (.insertNewDeposit (sampleWallet_insertNewDeposit 4000))) (fun _ h => h)
      (show _ = some (sampleDeposit 4000) from rfl) rfl rfl (by decide) (by decide) (by decide)
      (by decide) (by decide) hres⟩

/-- The deposit confirmed at height 100 is never withdrawn through the node at 4000. -/
theorem withdrawDeposit_early_refused_sample :
    (({ sampleWallet with m_deposits := [sampleDeposit 100] }).withdrawDeposit
        sampleKeyDerivation sampleDerivePublicKey Currency.mainnet sampleNode
        (fun _ _ => (sampleDepositOutput, .TransferAvailable)) ⟨default, default⟩
        ⟨default, ⟨0⟩⟩ (fun _ => default) 0).isOk = false := by
  cases hres : ({ sampleWallet with m_deposits := [sampleDeposit 100] }).withdrawDeposit
      sampleKeyDerivation sampleDerivePublicKey Currency.mainnet sampleNode
      (fun _ _ => (sampleDepositOutput, .TransferAvailable)) ⟨default, default⟩
      ⟨default, ⟨0⟩⟩ (fun _ => default) 0 with
  | error e => rfl
  | ok tx =>
    exact absurd hres (withdrawDeposit_early_refused (by rfl)
      (.single (.insertNewDeposit (sampleWallet_insertNewDeposit 100))) (fun _ h => h)
      (show _ = some (sampleDeposit 100) from rfl) rfl rfl (by decide) (by decide) (by decide)
      (by decide) (by decide) (by decide))

end WalletGreen

end UltraNoteCore
