import UltraNoteCore.Wallet.WalletGreen
import UltraNoteCore.Core.Fusion

/-!
# The fusion cache of `WalletGreen`

`WalletGreen::isFusionTransaction(transactionId)` answers from `m_fusionTxsCache` when the
transaction has an entry there; otherwise it computes the verdict from the transfers
containers (`isFusionTransaction(const WalletTransaction&)`) and stores it. Two other paths
write entries: `validateSaveAndSendTransaction`, with the flag its caller passes, and
`transactionUpdated`, when a transaction is seen for the first time. An entry is never
overwritten (`emplace`), and none is erased while the wallet is open.

In `transactionUpdated`, a transaction seen for the first time is one the hash index does not
find, and the verdict stored for it is that of `*it`, the past-the-end iterator of that failed
lookup: a read of memory that holds no transaction. The model takes the value read there as an
argument, `junk`. Along every run every entry keeps an index below the number of
transactions, but the entry of a transaction first seen in `transactionUpdated` is the verdict
on `junk`, and `isFusionTransaction(transactionId)` returns it from then on, whatever the
containers say.

The transfers containers are the wallet's environment: what each answers about a transaction
hash is a `FusionContainerView`. The deposit, transfer and event parts of
`transactionUpdated` are outside this model.

## Main definitions

* `WalletTransaction`, `WalletTransactionInformation`, `FusionContainerView`,
  `WalletGreenTransactions`
* `WalletGreenTransactions.isFusionTransactionOf`, `WalletGreenTransactions.isFusionTransaction`:
  the two overloads of `WalletGreen::isFusionTransaction`
* `WalletGreenTransactions.insertBlockchainTransaction`,
  `WalletGreenTransactions.updateWalletTransactionInfo`,
  `WalletGreenTransactions.transactionUpdated`,
  `WalletGreenTransactions.insertOutgoingTransactionAndPushEvent`,
  `WalletGreenTransactions.validateSaveAndSendTransaction`
* `WalletEvent`, `WalletGreenTransactions.run`: runs of the events that write the cache

## Main results

* `WalletGreenTransactions.CacheBounded.run`: along every run every cached index names a
  transaction
* `WalletGreenTransactions.isFusionTransaction_of_cache`: a cached verdict is the answer
* `WalletGreenTransactions.fusionTxsCache_transactionUpdated_of_new`: a transaction first seen
  in `transactionUpdated` is cached with the verdict on `junk`
-/

namespace UltraNoteCore

/-- `WalletTransactionState`. -/
inductive WalletTransactionState
  | SUCCEEDED
  | FAILED
  | CANCELLED
  | CREATED
  | DELETED
deriving DecidableEq, Repr

/-- `WALLET_INVALID_DEPOSIT_ID`, the largest `size_t`. -/
def WALLET_INVALID_DEPOSIT_ID : ℕ := 2 ^ 64 - 1

/-- `WALLET_UNCONFIRMED_TRANSACTION_HEIGHT`. -/
def WALLET_UNCONFIRMED_TRANSACTION_HEIGHT : UInt32 := 4294967295

/-- `WalletTransaction`, without `secretKey`, which the modelled paths neither set nor read. -/
structure WalletTransaction where
  state : WalletTransactionState
  timestamp : UInt64
  blockHeight : UInt32
  hash : Hash
  totalAmount : Int64
  fee : UInt64
  creationTime : UInt64
  unlockTime : UInt64
  extra : List UInt8
  firstDepositId : ℕ
  depositCount : ℕ
  isBase : Bool
deriving DecidableEq, Repr

/-- `TransactionInformation` with the fields the wallet reads beyond those the transfers
container model keeps. -/
structure WalletTransactionInformation extends TransactionInformation where
  firstDepositId : ℕ
  unlockTime : UInt64
  totalAmountIn : UInt64
  totalAmountOut : UInt64
  extra : List UInt8
deriving DecidableEq, Repr

/-- What `isFusionTransaction(const WalletTransaction&)` asks the transfers container of a
wallet about a transaction hash. -/
structure FusionContainerView where
  /-- `getTransactionOutputs(hash, IncludeTypeKey | IncludeStateAll)`. -/
  getTransactionOutputs : Hash → List TransactionOutputInformation
  /-- `getTransactionInputs(hash, IncludeTypeKey)`. -/
  getTransactionInputs : Hash → List TransactionOutputInformation
  /-- `getTransactionInformation(hash, info)`: the information, when the container has it. -/
  getTransactionInformation : Hash → Option WalletTransactionInformation

/-- `ContainerAmounts` of `transactionUpdated`, without the container, which the fusion cache
does not read. -/
structure ContainerAmounts where
  input : Int64
  output : Int64

/-- `WalletState`. -/
inductive WalletState
  | INITIALIZED
  | NOT_INITIALIZED
deriving DecidableEq, Repr

/-- The state of `WalletGreen` the transaction paths and the fusion cache read and write:
`m_transactions` in the order of its random-access index, and `m_fusionTxsCache`. -/
structure WalletGreenTransactions where
  m_state : WalletState
  m_stopped : Bool
  m_transactions : List WalletTransaction
  m_fusionTxsCache : ℕ → Option Bool

namespace WalletGreenTransactions

/-! ## The verdict of the containers -/

/-- `outputsAmounts[output.outputInTransaction] = output.amount`, the vector first grown with
zeros to hold the position. -/
def setOutputAmount (outputsAmounts : List UInt64) (output : TransactionOutputInformation) :
    List UInt64 :=
  let i := output.outputInTransaction.toNat
  let outputsAmounts := if outputsAmounts.length ≤ i then
      outputsAmounts ++ List.replicate (i + 1 - outputsAmounts.length) 0
    else outputsAmounts
  outputsAmounts.set i output.amount

/-- The variables of the loop of `isFusionTransaction(const WalletTransaction&)` over the
wallets; `txInfo` is set by the first container that has the transaction (`gotTx`). -/
structure FusionSums where
  inputsSum : UInt64
  outputsSum : UInt64
  outputsAmounts : List UInt64
  inputsAmounts : List UInt64
  txInfo : Option WalletTransactionInformation

/-- One wallet of that loop. -/
def fusionSumsStep (hash : Hash) (sums : FusionSums) (wallet : FusionContainerView) :
    FusionSums :=
  let outputs := wallet.getTransactionOutputs hash
  let inputs := wallet.getTransactionInputs hash
  { inputsSum := inputs.foldl (fun sum input => sum + input.amount) sums.inputsSum
    outputsSum := outputs.foldl (fun sum output => sum + output.amount) sums.outputsSum
    outputsAmounts := outputs.foldl setOutputAmount sums.outputsAmounts
    inputsAmounts := sums.inputsAmounts ++ inputs.map (·.amount)
    txInfo := if sums.txInfo.isSome then sums.txInfo else wallet.getTransactionInformation hash }

/-- `WalletGreen::isFusionTransaction(const WalletTransaction&)`: no fee, the transaction known
to a container, its amounts agreeing, and the currency's test with size `0`. -/
def isFusionTransactionOf (currency : Currency) (wallets : List FusionContainerView)
    (walletTx : WalletTransaction) : Bool :=
  if walletTx.fee ≠ 0 then false
  else
    let sums := wallets.foldl (fusionSumsStep walletTx.hash) ⟨0, 0, [], [], none⟩
    match sums.txInfo with
    | none => false
    | some txInfo =>
      if sums.outputsSum ≠ sums.inputsSum ∨ sums.outputsSum ≠ txInfo.totalAmountOut ∨
          sums.inputsSum ≠ txInfo.totalAmountIn then false
      else currency.isFusionTransaction sums.inputsAmounts sums.outputsAmounts 0

/-- `WalletGreen::isFusionTransaction(transactionId)`: the cached verdict, or the verdict of
the containers now, which is then cached. -/
def isFusionTransaction (currency : Currency) (wallets : List FusionContainerView)
    (ws : WalletGreenTransactions) (transactionId : ℕ) :
    Except WalletError (Bool × WalletGreenTransactions) :=
  if ws.m_state ≠ .INITIALIZED then .error (.code .NOT_INITIALIZED)
  else if ws.m_stopped then .error (.code .OPERATION_CANCELLED)
  else
    match ws.m_transactions[transactionId]? with
    | none => .error (.code .INDEX_OUT_OF_RANGE)
    | some walletTx =>
      match ws.m_fusionTxsCache transactionId with
      | some isFusion => .ok (isFusion, ws)
      | none =>
        let result := isFusionTransactionOf currency wallets walletTx
        .ok (result, { ws with
          m_fusionTxsCache := StdMap.emplace ws.m_fusionTxsCache transactionId result })

/-! ## Recording transactions -/

/-- `insertBlockchainTransaction`: a transaction the containers report, appended. -/
def insertBlockchainTransaction (ws : WalletGreenTransactions)
    (info : WalletTransactionInformation) (txBalance : Int64) : ℕ × WalletGreenTransactions :=
  let isBase := info.totalAmountIn = 0
  let tx : WalletTransaction :=
    { state := .SUCCEEDED
      timestamp := info.timestamp
      blockHeight := info.blockHeight
      hash := info.transactionHash
      depositCount := 0
      firstDepositId := WALLET_INVALID_DEPOSIT_ID
      isBase := isBase
      fee := if isBase then 0
        else if info.totalAmountIn < info.totalAmountOut then MINIMUM_FEE
        else info.totalAmountIn - info.totalAmountOut
      unlockTime := info.unlockTime
      extra := info.extra
      totalAmount := txBalance
      creationTime := info.timestamp }
  (ws.m_transactions.length, { ws with m_transactions := ws.m_transactions ++ [tx] })

/-- The `modify` of `updateWalletTransactionInfo`: each field that differs from the
information is set, and the state becomes `SUCCEEDED` for a transaction sent or confirmed. -/
def updateTransactionInfo (info : WalletTransactionInformation) (totalAmount : Int64)
    (transaction : WalletTransaction) : WalletTransaction :=
  let transaction := if transaction.firstDepositId ≠ info.firstDepositId then
      { transaction with firstDepositId := info.firstDepositId, depositCount := 1 }
    else transaction
  let transaction := { transaction with blockHeight := info.blockHeight, timestamp := info.timestamp }
  let isSucceeded := transaction.state = .SUCCEEDED
  let wasSent := transaction.state ≠ .CREATED ∧ transaction.state ≠ .FAILED
  let isConfirmed := transaction.blockHeight ≠ WALLET_UNCONFIRMED_TRANSACTION_HEIGHT
  let transaction := if ¬isSucceeded ∧ (wasSent ∨ isConfirmed) then
      { transaction with state := .SUCCEEDED }
    else transaction
  let transaction := { transaction with totalAmount := totalAmount }
  let transaction := if transaction.extra.isEmpty ∧ ¬info.extra.isEmpty then
      { transaction with extra := info.extra }
    else transaction
  { transaction with isBase := info.totalAmountIn = 0 }

/-- `updateWalletTransactionInfo`: the transaction at `transactionId` modified, and whether a
field changed. -/
def updateWalletTransactionInfo (ws : WalletGreenTransactions) (transactionId : ℕ)
    (info : WalletTransactionInformation) (totalAmount : Int64) :
    Bool × WalletGreenTransactions :=
  match ws.m_transactions[transactionId]? with
  | none => (false, ws)
  | some transaction =>
    let updated := updateTransactionInfo info totalAmount transaction
    (updated ≠ transaction,
      { ws with m_transactions := ws.m_transactions.set transactionId updated })

/-- `transactionUpdated`, for the transactions and the fusion cache. A known hash updates its
transaction; a new one is appended, and the verdict cached for it is that of `junk`, the value
`*it` reads through the past-the-end iterator of the failed lookup. -/
def transactionUpdated (currency : Currency) (wallets : List FusionContainerView)
    (ws : WalletGreenTransactions) (transactionInfo : WalletTransactionInformation)
    (containerAmountsList : List ContainerAmounts) (junk : WalletTransaction) :
    WalletGreenTransactions :=
  if ws.m_state = .NOT_INITIALIZED then ws
  else
    let totalAmount := containerAmountsList.foldl
      (fun sum containerAmounts => sum + containerAmounts.input + containerAmounts.output) 0
    match ws.m_transactions.findIdx? (fun tx => decide (tx.hash = transactionInfo.transactionHash)) with
    | some transactionId => (ws.updateWalletTransactionInfo transactionId transactionInfo totalAmount).2
    | none =>
      match ws.insertBlockchainTransaction transactionInfo totalAmount with
      | (transactionId, ws) =>
        let verdict := isFusionTransactionOf currency wallets junk
        { ws with m_fusionTxsCache := StdMap.emplace ws.m_fusionTxsCache transactionId verdict }

/-- `insertOutgoingTransactionAndPushEvent`, with `now` for `time(nullptr)`. -/
def insertOutgoingTransactionAndPushEvent (ws : WalletGreenTransactions) (transactionHash : Hash)
    (fee : UInt64) (extra : List UInt8) (unlockTimestamp now : UInt64) :
    ℕ × WalletGreenTransactions :=
  let insertTx : WalletTransaction :=
    { state := .CREATED
      creationTime := now
      unlockTime := unlockTimestamp
      blockHeight := WALLET_UNCONFIRMED_TRANSACTION_HEIGHT
      extra := extra
      fee := fee
      hash := transactionHash
      totalAmount := 0
      timestamp := 0
      isBase := false
      firstDepositId := WALLET_INVALID_DEPOSIT_ID
      depositCount := 0 }
  (ws.m_transactions.length, { ws with m_transactions := ws.m_transactions ++ [insertTx] })

/-- `updateTransactionStateAndPushEvent`. -/
def updateTransactionStateAndPushEvent (ws : WalletGreenTransactions) (transactionId : ℕ)
    (state : WalletTransactionState) : WalletGreenTransactions :=
  { ws with m_transactions := ws.m_transactions.modify transactionId fun tx => { tx with state := state } }

/-- `validateSaveAndSendTransaction(transaction, destinations, isFusion, true)` on the
transactions and the cache. The checks and the relay go as `WalletGreen.validateSaveAndSendTransaction`
says; past the checks the transaction is recorded with the fee it pays and its flag `isFusion`
cached, and the relay sets its state: `SUCCEEDED`, or `FAILED` by the rollback when the node
refuses it. -/
def validateSaveAndSendTransaction (ws : WalletGreenTransactions) (w : WalletGreen)
    (currency : Currency) (node : WalletNode) (transaction : ITransactionReader) (now : UInt64)
    (isFusion : Bool) : Except WalletError Unit × WalletGreenTransactions :=
  let inputTotal := (getInputsAmounts transaction.transaction).foldl (· + ·) 0
  let outputTotal := transaction.transaction.outputs.foldl (fun sum o => sum + o.amount) 0
  let fee := if inputTotal < outputTotal then MINIMUM_FEE else inputTotal - outputTotal
  let recorded := fun (state : WalletTransactionState) =>
    match ws.insertOutgoingTransactionAndPushEvent transaction.getTransactionHash fee
        transaction.transaction.extra transaction.transaction.unlockTime now with
    | (transactionId, ws) =>
      let ws := { ws with
        m_fusionTxsCache := StdMap.emplace ws.m_fusionTxsCache transactionId isFusion }
      ws.updateTransactionStateAndPushEvent transactionId state
  match w.validateSaveAndSendTransaction currency node transaction.transaction isFusion with
  | .ok () => (.ok (), recorded .SUCCEEDED)
  | .error .node => (.error .node, recorded .FAILED)
  | .error e => (.error e, ws)

end WalletGreenTransactions

/-- The events that write the fusion cache, each with what the wallet's environment answers at
its time. -/
inductive WalletEvent where
  | transactionUpdated (wallets : List FusionContainerView)
      (transactionInfo : WalletTransactionInformation)
      (containerAmountsList : List ContainerAmounts) (junk : WalletTransaction)
  | validateSaveAndSendTransaction (w : WalletGreen) (node : WalletNode)
      (transaction : ITransactionReader) (now : UInt64) (isFusion : Bool)
  | isFusionTransaction (wallets : List FusionContainerView) (transactionId : ℕ)

namespace WalletGreenTransactions

/-- One event; a call that throws leaves the state its throw leaves. -/
def apply (currency : Currency) (ws : WalletGreenTransactions) : WalletEvent → WalletGreenTransactions
  | .transactionUpdated wallets transactionInfo containerAmountsList junk =>
    ws.transactionUpdated currency wallets transactionInfo containerAmountsList junk
  | .validateSaveAndSendTransaction w node transaction now isFusion =>
    (ws.validateSaveAndSendTransaction w currency node transaction now isFusion).2
  | .isFusionTransaction wallets transactionId =>
    match ws.isFusionTransaction currency wallets transactionId with
    | .ok (_, ws) => ws
    | .error _ => ws

/-- A run of events. -/
def run (currency : Currency) (ws : WalletGreenTransactions) (events : List WalletEvent) :
    WalletGreenTransactions :=
  events.foldl (apply currency) ws

/-! ## Every cached index names a transaction -/

/-- Every entry of the cache is at the index of a transaction. -/
def CacheBounded (ws : WalletGreenTransactions) : Prop :=
  ∀ transactionId isFusion, ws.m_fusionTxsCache transactionId = some isFusion →
    transactionId < ws.m_transactions.length

/-- A state with the same cache and at least as many transactions. -/
theorem CacheBounded.mono {ws ws' : WalletGreenTransactions} (h : ws.CacheBounded)
    (hcache : ws'.m_fusionTxsCache = ws.m_fusionTxsCache)
    (hlen : ws.m_transactions.length ≤ ws'.m_transactions.length) : ws'.CacheBounded :=
  fun transactionId isFusion hentry =>
    Nat.lt_of_lt_of_le (h transactionId isFusion (hcache ▸ hentry)) hlen

/-- An entry made at the index of a transaction. -/
theorem CacheBounded.emplace {ws : WalletGreenTransactions} (h : ws.CacheBounded)
    {transactionId : ℕ} (hid : transactionId < ws.m_transactions.length) (isFusion : Bool) :
    { ws with m_fusionTxsCache :=
        StdMap.emplace ws.m_fusionTxsCache transactionId isFusion }.CacheBounded := by
  intro k b hk
  dsimp only at hk ⊢
  by_cases hkid : k = transactionId
  · rw [hkid]
    exact hid
  · rw [StdMap.emplace_of_ne isFusion hkid] at hk
    exact h k b hk

/-- Appending a transaction and making an entry at its index. -/
theorem CacheBounded.append_emplace {ws ws' : WalletGreenTransactions} (h : ws.CacheBounded)
    (hcache : ws'.m_fusionTxsCache = ws.m_fusionTxsCache)
    (hlen : ws'.m_transactions.length = ws.m_transactions.length + 1) (isFusion : Bool) :
    { ws' with m_fusionTxsCache :=
        StdMap.emplace ws'.m_fusionTxsCache ws.m_transactions.length isFusion }.CacheBounded :=
  (h.mono hcache (hlen ▸ Nat.le_succ _)).emplace (hlen ▸ Nat.lt_succ_self _) isFusion

@[simp] theorem insertBlockchainTransaction_fst (ws : WalletGreenTransactions)
    (info : WalletTransactionInformation) (txBalance : Int64) :
    (ws.insertBlockchainTransaction info txBalance).1 = ws.m_transactions.length := rfl

theorem length_insertBlockchainTransaction (ws : WalletGreenTransactions)
    (info : WalletTransactionInformation) (txBalance : Int64) :
    (ws.insertBlockchainTransaction info txBalance).2.m_transactions.length =
      ws.m_transactions.length + 1 := by
  simp [insertBlockchainTransaction]

theorem length_insertOutgoingTransactionAndPushEvent (ws : WalletGreenTransactions)
    (transactionHash : Hash) (fee : UInt64) (extra : List UInt8) (unlockTimestamp now : UInt64) :
    (ws.insertOutgoingTransactionAndPushEvent transactionHash fee extra unlockTimestamp now
      ).2.m_transactions.length = ws.m_transactions.length + 1 := by
  simp [insertOutgoingTransactionAndPushEvent]

theorem CacheBounded.updateWalletTransactionInfo {ws : WalletGreenTransactions}
    (h : ws.CacheBounded) (transactionId : ℕ) (info : WalletTransactionInformation)
    (totalAmount : Int64) : (ws.updateWalletTransactionInfo transactionId info totalAmount).2.CacheBounded := by
  unfold WalletGreenTransactions.updateWalletTransactionInfo
  split
  · exact h
  · exact h.mono rfl (le_of_eq (List.length_set ..).symm)

theorem CacheBounded.transactionUpdated {ws : WalletGreenTransactions} (h : ws.CacheBounded)
    (currency : Currency) (wallets : List FusionContainerView)
    (transactionInfo : WalletTransactionInformation) (containerAmountsList : List ContainerAmounts)
    (junk : WalletTransaction) :
    (ws.transactionUpdated currency wallets transactionInfo containerAmountsList junk).CacheBounded := by
  unfold WalletGreenTransactions.transactionUpdated
  split
  · exact h
  · -- a known transaction is updated in place; a new one is appended before its entry is made
    split
    · exact h.updateWalletTransactionInfo _ _ _
    · exact @CacheBounded.append_emplace ws (ws.insertBlockchainTransaction transactionInfo _).2 h
        rfl (length_insertBlockchainTransaction _ _ _) _

/-- A transaction sent is recorded, its entry made at its index, and its state set. -/
theorem CacheBounded.recordOutgoing {ws : WalletGreenTransactions} (h : ws.CacheBounded)
    (transactionHash : Hash) (fee : UInt64) (extra : List UInt8) (unlockTimestamp now : UInt64)
    (isFusion : Bool) (state : WalletTransactionState) :
    (match ws.insertOutgoingTransactionAndPushEvent transactionHash fee extra unlockTimestamp now with
      | (transactionId, ws) =>
        let ws := { ws with
          m_fusionTxsCache := StdMap.emplace ws.m_fusionTxsCache transactionId isFusion }
        ws.updateTransactionStateAndPushEvent transactionId state).CacheBounded := by
  have hentry := @CacheBounded.append_emplace ws
    (ws.insertOutgoingTransactionAndPushEvent transactionHash fee extra unlockTimestamp now).2 h
    rfl (length_insertOutgoingTransactionAndPushEvent _ _ _ _ _ _) isFusion
  -- setting the state keeps every transaction
  exact hentry.mono rfl (by
    simp [updateTransactionStateAndPushEvent, insertOutgoingTransactionAndPushEvent])

theorem CacheBounded.validateSaveAndSendTransaction {ws : WalletGreenTransactions}
    (h : ws.CacheBounded) (w : WalletGreen) (currency : Currency) (node : WalletNode)
    (transaction : ITransactionReader) (now : UInt64) (isFusion : Bool) :
    (ws.validateSaveAndSendTransaction w currency node transaction now isFusion).2.CacheBounded := by
  unfold WalletGreenTransactions.validateSaveAndSendTransaction
  split
  · exact h.recordOutgoing _ _ _ _ _ _ _
  · exact h.recordOutgoing _ _ _ _ _ _ _
  · exact h

theorem CacheBounded.isFusionTransaction {ws ws' : WalletGreenTransactions} (h : ws.CacheBounded)
    {currency : Currency} {wallets : List FusionContainerView} {transactionId : ℕ} {result : Bool}
    (hquery : ws.isFusionTransaction currency wallets transactionId = .ok (result, ws')) :
    ws'.CacheBounded := by
  unfold WalletGreenTransactions.isFusionTransaction at hquery
  split at hquery
  · cases hquery
  split at hquery
  · cases hquery
  split at hquery
  · cases hquery
  · next walletTx htx =>
    have hid := (List.getElem?_eq_some_iff.mp htx).1
    split at hquery
    · cases hquery
      exact h
    · cases hquery
      exact h.emplace hid _

theorem CacheBounded.apply {ws : WalletGreenTransactions} (h : ws.CacheBounded)
    (currency : Currency) : ∀ event : WalletEvent, (ws.apply currency event).CacheBounded
  | .transactionUpdated wallets transactionInfo containerAmountsList junk =>
    h.transactionUpdated currency wallets transactionInfo containerAmountsList junk
  | .validateSaveAndSendTransaction w node transaction now isFusion =>
    h.validateSaveAndSendTransaction w currency node transaction now isFusion
  | .isFusionTransaction wallets transactionId => by
    show (match ws.isFusionTransaction currency wallets transactionId with
      | .ok (_, ws) => ws
      | .error _ => ws).CacheBounded
    split
    · next hquery => exact h.isFusionTransaction hquery
    · exact h

theorem CacheBounded.run {ws : WalletGreenTransactions} (h : ws.CacheBounded)
    (currency : Currency) : ∀ events : List WalletEvent, (ws.run currency events).CacheBounded
  | [] => h
  | event :: events => (h.apply currency event).run currency events

/-! ## What the cache answers -/

/-- A cached verdict is the answer, whatever the containers say now. -/
theorem isFusionTransaction_of_cache {ws : WalletGreenTransactions} (currency : Currency)
    (wallets : List FusionContainerView) {transactionId : ℕ} {isFusion : Bool}
    (hstate : ws.m_state = .INITIALIZED) (hstopped : ws.m_stopped = false)
    (hid : transactionId < ws.m_transactions.length)
    (hentry : ws.m_fusionTxsCache transactionId = some isFusion) :
    ws.isFusionTransaction currency wallets transactionId = .ok (isFusion, ws) := by
  rw [WalletGreenTransactions.isFusionTransaction, if_neg (by rw [hstate]; exact not_ne_iff.mpr rfl),
    if_neg (by rw [hstopped]; exact Bool.false_ne_true), List.getElem?_eq_getElem hid]
  simp only [hentry]

/-- **A transaction first seen in `transactionUpdated`** is appended, and its entry is the
verdict on `junk`. -/
theorem fusionTxsCache_transactionUpdated_of_new {ws : WalletGreenTransactions}
    (currency : Currency) (wallets : List FusionContainerView)
    {transactionInfo : WalletTransactionInformation} (containerAmountsList : List ContainerAmounts)
    (junk : WalletTransaction) (hstate : ws.m_state = .INITIALIZED)
    (hnew : ∀ tx ∈ ws.m_transactions, tx.hash ≠ transactionInfo.transactionHash)
    (hfree : ws.m_fusionTxsCache ws.m_transactions.length = none) :
    let ws' := ws.transactionUpdated currency wallets transactionInfo containerAmountsList junk
    ws'.m_state = ws.m_state ∧ ws'.m_stopped = ws.m_stopped ∧
      ws'.m_transactions.length = ws.m_transactions.length + 1 ∧
      ws'.m_fusionTxsCache ws.m_transactions.length =
        some (isFusionTransactionOf currency wallets junk) := by
  have hfind : ws.m_transactions.findIdx?
      (fun tx => decide (tx.hash = transactionInfo.transactionHash)) = none := by
    rw [List.findIdx?_eq_none_iff]
    intro tx htx
    simpa using hnew tx htx
  simp only [WalletGreenTransactions.transactionUpdated, hstate, reduceCtorEq, if_false, hfind]
  refine ⟨hstate, rfl, length_insertBlockchainTransaction _ _ _, ?_⟩
  exact StdMap.emplace_of_eq_none _ hfree

/-- **The cache answers the verdict on `junk`**: along every run every cached index names a
transaction; but once `transactionUpdated` has seen a transaction for the first time,
`isFusionTransaction` answers for it the verdict on the value read through the end iterator,
whatever the containers say from then on. -/
theorem cacheBounded_run_and_isFusionTransaction_of_new (currency : Currency) :
    (∀ (ws : WalletGreenTransactions) (events : List WalletEvent), ws.CacheBounded →
        (ws.run currency events).CacheBounded) ∧
      ∀ (ws : WalletGreenTransactions) (wallets wallets' : List FusionContainerView)
        (transactionInfo : WalletTransactionInformation)
        (containerAmountsList : List ContainerAmounts) (junk : WalletTransaction),
        ws.m_state = .INITIALIZED → ws.m_stopped = false → ws.CacheBounded →
        (∀ tx ∈ ws.m_transactions, tx.hash ≠ transactionInfo.transactionHash) →
        (ws.transactionUpdated currency wallets transactionInfo containerAmountsList junk
            ).isFusionTransaction currency wallets' ws.m_transactions.length =
          .ok (isFusionTransactionOf currency wallets junk,
            ws.transactionUpdated currency wallets transactionInfo containerAmountsList junk) := by
  refine ⟨fun ws events h => h.run currency events, ?_⟩
  intro ws wallets wallets' transactionInfo containerAmountsList junk hstate hstopped hbounded hnew
  -- the new index is past every cached one
  have hfree : ws.m_fusionTxsCache ws.m_transactions.length = none := by
    cases hentry : ws.m_fusionTxsCache ws.m_transactions.length with
    | none => rfl
    | some isFusion => exact absurd (hbounded _ isFusion hentry) (Nat.lt_irrefl _)
  obtain ⟨hstate', hstopped', hlen, hentry⟩ := fusionTxsCache_transactionUpdated_of_new currency
    wallets containerAmountsList junk hstate hnew hfree
  exact isFusionTransaction_of_cache currency wallets' (hstate'.trans hstate)
    (hstopped'.trans hstopped) (by rw [hlen]; exact Nat.lt_succ_self _) hentry

/-- An output of the sample, at position `i`. -/
def sampleCacheOutput (amount : UInt64) (i : ℕ) : TransactionOutputInformation :=
  { type := .Key, amount := amount, globalOutputIndex := i.toUInt32,
    outputInTransaction := i.toUInt32, transactionHash := NULL_HASH,
    transactionPublicKey := default, outputKey := default, requiredSignatures := 0, term := 0 }

/-- A fusion transaction in a block: twelve inputs of `10` merged into `20` and `100`. -/
def sampleFusionInformation : WalletTransactionInformation :=
  { transactionHash := NULL_HASH, blockHeight := 1, timestamp := 0,
    firstDepositId := WALLET_INVALID_DEPOSIT_ID, unlockTime := 0, totalAmountIn := 120,
    totalAmountOut := 120, extra := [] }

/-- The container of a wallet that holds that transaction. -/
def sampleFusionView : FusionContainerView where
  getTransactionOutputs hash :=
    if hash = NULL_HASH then [sampleCacheOutput 20 0, sampleCacheOutput 100 1] else []
  getTransactionInputs hash :=
    if hash = NULL_HASH then (List.range 12).map (sampleCacheOutput 10) else []
  getTransactionInformation hash :=
    if hash = NULL_HASH then some sampleFusionInformation else none

/-- An initialized wallet with no transactions. -/
def sampleWalletTransactions : WalletGreenTransactions :=
  ⟨.INITIALIZED, false, [], fun _ => none⟩

/-- A value the end iterator may read: a transaction with a fee. -/
def sampleJunk : WalletTransaction :=
  { state := .SUCCEEDED, timestamp := 0, blockHeight := 0, hash := NULL_HASH, totalAmount := 0,
    fee := 1, creationTime := 0, unlockTime := 0, extra := [], firstDepositId := 0,
    depositCount := 0, isBase := false }

/-- The fusion transaction first seen in `transactionUpdated` is reported as no fusion
transaction, although the containers' verdict on the transaction recorded is that it is one. -/
theorem isFusionTransaction_sample :
    ∃ ws', (sampleWalletTransactions.transactionUpdated Currency.mainnet [sampleFusionView]
        sampleFusionInformation [] sampleJunk).isFusionTransaction Currency.mainnet
        [sampleFusionView] 0 = .ok (false, ws') ∧
      ws'.m_transactions.map (isFusionTransactionOf Currency.mainnet [sampleFusionView]) =
        [true] := by
  obtain ⟨-, hnew⟩ := cacheBounded_run_and_isFusionTransaction_of_new Currency.mainnet
  have hquery := hnew sampleWalletTransactions [sampleFusionView] [sampleFusionView]
    sampleFusionInformation [] sampleJunk rfl rfl (fun _ _ hentry => nomatch hentry)
    (fun _ htx => absurd htx List.not_mem_nil)
  have hjunk : isFusionTransactionOf Currency.mainnet [sampleFusionView] sampleJunk = false := by
    decide
  rw [hjunk] at hquery
  exact ⟨_, hquery, by decide +kernel⟩

end WalletGreenTransactions

end UltraNoteCore
