import UltraNoteCore.Basic.CryptoNote
import UltraNoteCore.Core.Currency
import UltraNoteCore.Prelude.Containers
import UltraNoteCore.Prelude.StateExcept

/-!
# The transfers container

`TransfersContainer` of `Transfers/TransfersContainer.cpp` keeps, for one wallet address, the
outputs it owns and the transactions that touched them. An output is in one of three
`boost::multi_index_container`s: unconfirmed (its transaction is in no block yet), available
(in a block, not spent) or spent (a known transaction spends it, with the spending block and
input). Each has a unique index on the output's `TransactionOutputKey` (its transaction and
position), so each is a `KeyedList`; the spent container has a second unique index on the
key image or multisignature coordinates the output is spent by. Unlock jobs record the height
at which an available output unlocks.

The container is a state machine: `addTransaction`, `markTransactionConfirmed`,
`deleteUnconfirmedTransaction`, `detach` and `advanceHeight` change it, each over the state as a
C++ object, so that a throw in the middle of a call leaves what the call had already done
(`EStateM`). `getTransfer` reads it.

`getTransfer` looks a key up in the available, then the unconfirmed, then the spent container,
and for a spent output assigns `*unconfirmedIt`, the unconfirmed container's end iterator at
that point, whose dereference is undefined. The model writes what is read through an iterator
as an `Option`, `none` for an end iterator, and keeps that read.

## Main definitions

* `TransactionOutputInformationIn`, `TransactionOutputInformationEx`, `SpentTransactionOutput`,
  `TransferUnlockJob`, `TransactionInformation`: the records the containers hold
* `TransfersContainer`, `TransfersContainer.create`
* `TransfersContainer.addTransaction`, `markTransactionConfirmed`,
  `deleteUnconfirmedTransaction`, `detach`, `advanceHeight`: the calls that change it
* `TransfersContainer.getTransfer`, `isSpendTimeUnlocked`, `isIncluded`, `getOutputs`, `balance`
* `TransfersContainer.Call`, `TransfersContainer.Reachable`: the states a sequence of calls
  reaches from a fresh container
-/

namespace UltraNoteCore

/-- `transaction_types::OutputType`. -/
inductive transaction_types.OutputType
  | Invalid
  | Key
  | Multisignature
deriving DecidableEq, Repr

/-- `TransactionOutputInformation`. The source keeps `outputKey` in a union with
`requiredSignatures` and `term`, the one read by `type`; the record keeps all three. -/
structure TransactionOutputInformation where
  type : transaction_types.OutputType
  amount : UInt64
  globalOutputIndex : UInt32
  outputInTransaction : UInt32
  transactionHash : Hash
  transactionPublicKey : PublicKey
  outputKey : PublicKey
  requiredSignatures : UInt32
  term : UInt32
deriving DecidableEq, Repr

/-- `ITransfersContainer::TransferState`. -/
inductive TransferState
  | TransferUnconfirmed
  | TransferLocked
  | TransferAvailable
  | TransferSpent
deriving DecidableEq, Repr

/-- `ITransfersContainer::IncludeStateUnlocked`. -/
def IncludeStateUnlocked : UInt32 := 0x01

/-- `ITransfersContainer::IncludeStateLocked`. -/
def IncludeStateLocked : UInt32 := 0x02

/-- `ITransfersContainer::IncludeStateSoftLocked`. -/
def IncludeStateSoftLocked : UInt32 := 0x04

/-- `ITransfersContainer::IncludeTypeKey`. -/
def IncludeTypeKey : UInt32 := 0x100

/-- `ITransfersContainer::IncludeTypeMultisignature`. -/
def IncludeTypeMultisignature : UInt32 := 0x200

/-- `ITransfersContainer::IncludeTypeDeposit`. -/
def IncludeTypeDeposit : UInt32 := 0x400

/-- `UNCONFIRMED_TRANSACTION_GLOBAL_OUTPUT_INDEX`, `std::numeric_limits<uint32_t>::max()`: the
global index of an output whose transaction is in no block. -/
def UNCONFIRMED_TRANSACTION_GLOBAL_OUTPUT_INDEX : UInt32 := 4294967295

/-- `WALLET_LEGACY_UNCONFIRMED_TRANSACTION_HEIGHT`, `std::numeric_limits<uint32_t>::max()`: the
height of a transaction in no block. -/
def WALLET_LEGACY_UNCONFIRMED_TRANSACTION_HEIGHT : UInt32 := 4294967295

/-! ## The records -/

/-- `TransactionOutputInformationIn`: an output as the consumer reports it, with the key image
of a key output. -/
structure TransactionOutputInformationIn extends TransactionOutputInformation where
  keyImage : KeyImage
deriving DecidableEq, Repr

/-- `TransactionOutputInformationEx`: an output as the container stores it. -/
structure TransactionOutputInformationEx extends TransactionOutputInformationIn where
  unlockTime : UInt64
  blockHeight : UInt32
  transactionIndex : UInt32
  visible : Bool
deriving DecidableEq, Repr

/-- `TransactionOutputKey`: the transaction of an output and its position in it. -/
structure TransactionOutputKey where
  transactionHash : Hash
  outputInTransaction : UInt32
deriving DecidableEq, Repr

/-- `SpentOutputDescriptor`: what spends an output, the key image of a key output or the amount
and global index of a multisignature output. -/
inductive SpentOutputDescriptor
  | invalid
  | key (keyImage : KeyImage)
  | multisignature (amount : UInt64) (globalOutputIndex : UInt32)
deriving DecidableEq, Repr

/-- `SpentOutputDescriptor::operator==`. The source asserts on an invalid descriptor and
returns `false`. -/
def SpentOutputDescriptor.beq : SpentOutputDescriptor → SpentOutputDescriptor → Bool
  | .key keyImage, .key keyImage' => keyImage' == keyImage
  | .multisignature amount globalOutputIndex, .multisignature amount' globalOutputIndex' =>
    amount' == amount && globalOutputIndex' == globalOutputIndex
  | _, _ => false

/-- `SpentOutputDescriptor(const TransactionOutputInformationIn&)`. -/
def TransactionOutputInformationIn.getSpentOutputDescriptor (info : TransactionOutputInformationIn) :
    SpentOutputDescriptor :=
  match info.type with
  | .Key => .key info.keyImage
  | .Multisignature => .multisignature info.amount info.globalOutputIndex
  | .Invalid => .invalid

/-- `TransactionOutputInformationEx::getTransactionOutputKey`. -/
def TransactionOutputInformationEx.getTransactionOutputKey (info : TransactionOutputInformationEx) :
    TransactionOutputKey :=
  ⟨info.transactionHash, info.outputInTransaction⟩

/-- `TransactionBlockInfo`: the block of a transaction and its position in it. -/
structure TransactionBlockInfo where
  height : UInt32
  timestamp : UInt64
  transactionIndex : UInt32
deriving DecidableEq, Repr

/-- `SpentTransactionOutput`: a spent output with the block, transaction and input spending it. -/
structure SpentTransactionOutput extends TransactionOutputInformationEx where
  spendingBlock : TransactionBlockInfo
  spendingTransactionHash : Hash
  inputInTransaction : UInt32
deriving DecidableEq, Repr

/-- `TransferUnlockJob`: the height at which an output unlocks. -/
structure TransferUnlockJob where
  unlockHeight : UInt32
  transactionOutputKey : TransactionOutputKey
deriving DecidableEq, Repr

/-- `TransactionInformation`, with the fields the modelled calls read: the hash and the block
height, and the timestamp they set. -/
structure TransactionInformation where
  transactionHash : Hash
  blockHeight : UInt32
  timestamp : UInt64
deriving DecidableEq, Repr

/-- What the container reads of an `ITransactionReader`: the transaction's hash and the
transaction, whose unlock time and inputs it reads. -/
structure ITransactionReader where
  getTransactionHash : Hash
  transaction : Transaction
deriving DecidableEq, Repr

/-- `lessTIterator`: the order of outputs by block height, then position in the block. -/
def lessTIterator (it1 it2 : TransactionOutputInformationEx) : Bool :=
  it1.blockHeight < it2.blockHeight ||
    (it1.blockHeight == it2.blockHeight && it1.transactionIndex < it2.transactionIndex)

/-- `TransferIteratorList::minElement` (`std::min_element`): the first least output. -/
def minElement : List TransactionOutputInformationEx → Option TransactionOutputInformationEx
  | [] => none
  | it :: its => some (its.foldl (fun m it' => if lessTIterator it' m then it' else m) it)

/-- `TransferIteratorList::sort` then `findFirstByAmount`: the first output of `amount` in the
order of `lessTIterator`. The source sorts with `std::sort`, which leaves outputs of one block
position in no fixed order; the model keeps their order in the container. -/
def findFirstByAmount (its : List TransactionOutputInformationEx) (amount : UInt64) :
    Option TransactionOutputInformationEx :=
  (its.mergeSort fun it1 it2 => !lessTIterator it2 it1).find? (·.amount == amount)

/-- `makeTransferUnlockJob`: an output unlocks at the greatest of its unlock time (its block
height when that is zero, cast to `uint32_t`), the end of a deposit's term, and the block after
the spendable age. -/
def makeTransferUnlockJob (output : TransactionOutputInformationEx)
    (transactionSpendableAge : UInt32) : TransferUnlockJob :=
  let unlockTime : UInt32 :=
    (if output.unlockTime = 0 then output.blockHeight.toUInt64 else output.unlockTime).toUInt32
  let unlockHeight :=
    if output.type = .Multisignature ∧ output.term ≠ 0 then
      max (max unlockTime (output.blockHeight + output.term))
        (output.blockHeight + transactionSpendableAge + 1)
    else max unlockTime (output.blockHeight + transactionSpendableAge + 1)
  ⟨unlockHeight, output.getTransactionOutputKey⟩

/-! ## The state -/

/-- The exceptions the container throws. -/
inductive ContainerException
  /-- `std::invalid_argument` with its message. -/
  | invalid_argument (what : String)
  /-- `std::runtime_error` with its message. -/
  | runtime_error (what : String)
deriving DecidableEq, Repr

/-- `TransfersContainer`: the transactions, the three containers of outputs, the unlock jobs,
the current height, the spendable age and the currency. The ordered index of the transactions
by block height is their list sorted by height, ties in the order they were added. -/
structure TransfersContainer where
  m_transactions : KeyedList TransactionInformation (·.transactionHash)
  m_unconfirmedTransfers : KeyedList TransactionOutputInformationEx (·.getTransactionOutputKey)
  m_availableTransfers : KeyedList TransactionOutputInformationEx (·.getTransactionOutputKey)
  m_spentTransfers : KeyedList SpentTransactionOutput (·.getTransactionOutputKey)
  m_transfersUnlockJobs : KeyedList TransferUnlockJob (·.transactionOutputKey)
  m_currentHeight : UInt32
  m_transactionSpendableAge : UInt64
  m_currency : Currency

/-- The container's calls: programs over it that may throw. -/
abbrev ContainerM := EStateM ContainerException TransfersContainer

namespace TransfersContainer

/-- `TransfersContainer(currency, transactionSpendableAge)`: empty, at height `0`. -/
def create (currency : Currency) (transactionSpendableAge : UInt64) : TransfersContainer where
  m_transactions := KeyedList.empty
  m_unconfirmedTransfers := KeyedList.empty
  m_availableTransfers := KeyedList.empty
  m_spentTransfers := KeyedList.empty
  m_transfersUnlockJobs := KeyedList.empty
  m_currentHeight := 0
  m_transactionSpendableAge := transactionSpendableAge
  m_currency := currency

variable (c : TransfersContainer)

/-- `TransfersContainer::isSpendTimeUnlocked`: an unlock time below `maxBlockHeight` is a height,
compared with the current one, otherwise a time, compared with the wall clock `now`
(`time(NULL)`); a deposit is also locked until its term has passed. -/
def isSpendTimeUnlocked (now : UInt64) (info : TransactionOutputInformationEx) : Bool :=
  let isOuputUnlocked :=
    if info.unlockTime < c.m_currency.maxBlockHeight then
      decide (info.unlockTime ≤
        c.m_currentHeight.toUInt64 + UInt64.ofNat c.m_currency.lockedTxAllowedDeltaBlocks)
    else decide (info.unlockTime ≤ now + c.m_currency.lockedTxAllowedDeltaSeconds)
  if isOuputUnlocked && info.type == .Multisignature && info.term != 0 then
    decide (info.blockHeight + info.term ≤ c.m_currentHeight + 1)
  else isOuputUnlocked

/-- The state `TransfersContainer::isIncluded(info, flags)` gives an output before it filters:
locked while in no block or before its unlock time, soft-locked before the spendable age has
passed, unlocked after. -/
def includeState (now : UInt64) (info : TransactionOutputInformationEx) : UInt32 :=
  if info.blockHeight = WALLET_LEGACY_UNCONFIRMED_TRANSACTION_HEIGHT ∨
      !c.isSpendTimeUnlocked now info then IncludeStateLocked
  else if c.m_currentHeight.toUInt64 < info.blockHeight.toUInt64 + c.m_transactionSpendableAge then
    IncludeStateSoftLocked
  else IncludeStateUnlocked

/-- The static `TransfersContainer::isIncluded(output, state, flags)`: the flags name the
output's type (a multisignature output with a term is a deposit) and its state. -/
def isIncludedByState (output : TransactionOutputInformationEx) (state flags : UInt32) : Bool :=
  ((flags &&& IncludeTypeKey != 0 && output.type == .Key) ||
    (flags &&& IncludeTypeMultisignature != 0 && output.type == .Multisignature &&
      output.term == 0) ||
    (flags &&& IncludeTypeDeposit != 0 && output.type == .Multisignature && output.term > 0)) &&
  flags &&& state != 0

/-- `TransfersContainer::isIncluded(info, flags)`. -/
def isIncluded (now : UInt64) (info : TransactionOutputInformationEx) (flags : UInt32) : Bool :=
  isIncludedByState info (c.includeState now info) flags

/-- `TransfersContainer::getOutputs`: the visible available outputs the flags include, then,
when the flags ask for locked outputs, the visible unconfirmed ones, taken as locked. -/
def getOutputs (now : UInt64) (flags : UInt32) : List TransactionOutputInformation :=
  (c.m_availableTransfers.items.filter fun t => t.visible && c.isIncluded now t flags).map
      (·.toTransactionOutputInformation) ++
    if flags &&& IncludeStateLocked != 0 then
      (c.m_unconfirmedTransfers.items.filter fun t =>
        t.visible && isIncludedByState t IncludeStateLocked flags).map
        (·.toTransactionOutputInformation)
    else []

/-- `TransfersContainer::balance`: the sum, modulo `2^64`, of the amounts `getOutputs` lists. -/
def balance (now : UInt64) (flags : UInt32) : UInt64 :=
  ((c.getOutputs now flags).map (·.amount)).sum

/-- `TransfersContainer::getTransfer`: `none` when it returns `false`; otherwise what it assigns
to `transfer`, read through the iterator of the container it names (`none` when that iterator
is the end), and the state it assigns to `transferState`. The spent branch reads through
`unconfirmedIt`, as the source does. -/
def getTransfer (now : UInt64) (transactionHash : Hash) (outputInTransaction : UInt32) :
    Option (Option TransactionOutputInformation × TransferState) :=
  let transferId : TransactionOutputKey := ⟨transactionHash, outputInTransaction⟩
  match c.m_availableTransfers.find? transferId with
  | some availableIt =>
    some (some availableIt.toTransactionOutputInformation,
      if !c.isSpendTimeUnlocked now availableIt ||
          c.m_currentHeight.toUInt64 < availableIt.blockHeight.toUInt64 + c.m_transactionSpendableAge
      then .TransferLocked else .TransferAvailable)
  | none =>
    let unconfirmedIt := c.m_unconfirmedTransfers.find? transferId
    match unconfirmedIt with
    | some unconfirmed => some (some unconfirmed.toTransactionOutputInformation, .TransferUnconfirmed)
    | none =>
      match c.m_spentTransfers.find? transferId with
      | some _ => some (unconfirmedIt.map (·.toTransactionOutputInformation), .TransferSpent)
      | none => none

/-! ## Visibility and unlock jobs -/

/-- The outputs a descriptor `equal_range` finds: those whose descriptor equals it. -/
def spentBy (descriptor : SpentOutputDescriptor) (info : TransactionOutputInformationEx) : Bool :=
  info.getSpentOutputDescriptor.beq descriptor

/-- `updateVisibility` on the outputs of a container that `descriptor` finds. -/
def setVisible {κ : Type} {α : Type} {key : α → κ} (l : KeyedList α key)
    (toEx : α → TransactionOutputInformationEx) (setVisibleTo : α → Bool → α)
    (hset : ∀ a b, key (setVisibleTo a b) = key a) (descriptor : SpentOutputDescriptor)
    (visible : α → Bool) : KeyedList α key :=
  l.map (fun a => if spentBy descriptor (toEx a) then setVisibleTo a (visible a) else a)
    fun a => by split <;> simp [hset]

/-- `TransfersContainer::updateTransfersVisibility`: of the outputs with a key image, the spent
one is the visible one; with none spent, the earliest available one; with none available, the
unconfirmed one if it is alone. -/
def updateTransfersVisibility (keyImage : KeyImage) : TransfersContainer :=
  let descriptor := SpentOutputDescriptor.key keyImage
  let unconfirmedRange := c.m_unconfirmedTransfers.items.filter (spentBy descriptor)
  let availableRange := c.m_availableTransfers.items.filter (spentBy descriptor)
  let spentCount :=
    (c.m_spentTransfers.items.filter fun s => spentBy descriptor s.toTransactionOutputInformationEx).length
  let setEx (l : KeyedList TransactionOutputInformationEx (·.getTransactionOutputKey))
      (visible : TransactionOutputInformationEx → Bool) :=
    setVisible l id (fun a v => { a with visible := v }) (fun _ _ => rfl) descriptor visible
  let hidden := fun _ : TransactionOutputInformationEx => false
  if 0 < spentCount then
    let spent := setVisible c.m_spentTransfers (·.toTransactionOutputInformationEx)
      (fun a v => { a with visible := v }) (fun _ _ => rfl) descriptor fun _ => true
    { c with
      m_unconfirmedTransfers := setEx c.m_unconfirmedTransfers hidden
      m_availableTransfers := setEx c.m_availableTransfers hidden
      m_spentTransfers := spent }
  else
    match minElement availableRange with
    | some earliestTransfer =>
      let earliest := fun a : TransactionOutputInformationEx =>
        a.getTransactionOutputKey == earliestTransfer.getTransactionOutputKey
      { c with
        m_unconfirmedTransfers := setEx c.m_unconfirmedTransfers hidden
        m_availableTransfers := setEx c.m_availableTransfers earliest }
    | none =>
      let alone := fun _ : TransactionOutputInformationEx => unconfirmedRange.length == 1
      { c with m_unconfirmedTransfers := setEx c.m_unconfirmedTransfers alone }

/-- `TransfersContainer::addUnlockJob`. -/
def addUnlockJob (output : TransactionOutputInformationEx) : TransfersContainer :=
  let job := makeTransferUnlockJob output c.m_transactionSpendableAge.toUInt32
  { c with m_transfersUnlockJobs := c.m_transfersUnlockJobs.emplace job }

/-- `TransfersContainer::deleteUnlockJob`. -/
def deleteUnlockJob (output : TransactionOutputInformationEx) : TransfersContainer :=
  let key := output.getTransactionOutputKey
  { c with m_transfersUnlockJobs := c.m_transfersUnlockJobs.erase key }

/-- The unlock jobs in the order of their index by unlock height, ties in the order they were
added. -/
def unlockJobsByHeight : List TransferUnlockJob :=
  c.m_transfersUnlockJobs.items.mergeSort fun j₁ j₂ => j₁.unlockHeight ≤ j₂.unlockHeight

/-- `TransfersContainer::getAvailableOutput`. -/
def getAvailableOutput (transactionOutputKey : TransactionOutputKey) :
    Except ContainerException TransactionOutputInformation :=
  match c.m_availableTransfers.find? transactionOutputKey with
  | some availableIt => .ok availableIt.toTransactionOutputInformation
  | none => .error (.invalid_argument "The output is supposed to be available")

/-- `TransfersContainer::getUnlockingTransfers`: the available outputs of the jobs between
`upper_bound(prevHeight + 1)` (the first job when `prevHeight` is `0`) and
`upper_bound(currentHeight + 1)`. -/
def getUnlockingTransfers (prevHeight currentHeight : UInt32) :
    Except ContainerException (List TransactionOutputInformation) :=
  if currentHeight < prevHeight then
    .error (.invalid_argument "New height is less then current height")
  else
    (c.unlockJobsByHeight.filter fun job =>
      (prevHeight = 0 ∨ prevHeight + 1 < job.unlockHeight) ∧
        job.unlockHeight ≤ currentHeight + 1).mapM
      fun job => c.getAvailableOutput job.transactionOutputKey

/-- `TransfersContainer::getLockingTransfers`: after a detach, the available outputs of the jobs
between `upper_bound(currentHeight + 1)` and `upper_bound(prevHeight + 1)`. -/
def getLockingTransfers (prevHeight currentHeight : UInt32) :
    Except ContainerException (List TransactionOutputInformation) :=
  if prevHeight < currentHeight then .ok []
  else
    (c.unlockJobsByHeight.filter fun job =>
      currentHeight + 1 < job.unlockHeight ∧ job.unlockHeight ≤ prevHeight + 1).mapM
      fun job => c.getAvailableOutput job.transactionOutputKey

/-- `TransfersContainer::doAdvanceHeight`. -/
def doAdvanceHeight (height : UInt32) : ContainerM (List TransactionOutputInformation) := do
  let c ← get
  if height < c.m_currentHeight then
    throw (.invalid_argument "New height is less then current while advancing height")
  else
    let prevHeight := c.m_currentHeight
    set { c with m_currentHeight := height }
    MonadExcept.ofExcept ((← get).getUnlockingTransfers prevHeight height)

/-! ## Adding a transaction -/

/-- The output `transfer` of `tx` as stored for a transaction in `block`. -/
def storedTransfer (block : TransactionBlockInfo) (tx : ITransactionReader)
    (transfer : TransactionOutputInformationIn) : TransactionOutputInformationEx :=
  { transfer with
    transactionHash := tx.getTransactionHash
    unlockTime := tx.transaction.unlockTime
    blockHeight := block.height
    transactionIndex := block.transactionIndex
    visible := true }

/-- Some output of a container is spent by `descriptor` (`count(descriptor) > 0`). -/
def hasSpentBy (descriptor : SpentOutputDescriptor) : Bool :=
  c.m_availableTransfers.items.any (spentBy descriptor) ||
    c.m_spentTransfers.items.any fun s => spentBy descriptor s.toTransactionOutputInformationEx

/-- One step of the loop of `addTransactionOutputs` before the visibility update: an unconfirmed
output goes to the unconfirmed container; a confirmed one gets an unlock job and goes to the
available container, unless it is a multisignature output already known. -/
def addTransactionOutput (info : TransactionOutputInformationEx) (transferIsUnconfirmed : Bool) :
    ContainerM Unit := do
  let c ← get
  if transferIsUnconfirmed then
    set { c with m_unconfirmedTransfers := c.m_unconfirmedTransfers.emplace info }
  else if info.type = .Multisignature ∧ c.hasSpentBy info.getSpentOutputDescriptor then
    throw (.runtime_error "Transfer already exists")
  else
    let c := c.addUnlockJob info
    set { c with m_availableTransfers := c.m_availableTransfers.emplace info }

/-- The loop of `TransfersContainer::addTransactionOutputs` over the wallet's outputs of `tx`;
`outputsAdded` becomes `true` at the first one. -/
def addTransactionOutputs (block : TransactionBlockInfo) (tx : ITransactionReader) :
    List TransactionOutputInformationIn → Bool → ContainerM Bool
  | [], outputsAdded => pure outputsAdded
  | transfer :: transfers, _ => do
    let transactionIsUnconfimed := block.height == WALLET_LEGACY_UNCONFIRMED_TRANSACTION_HEIGHT
    let transferIsUnconfirmed :=
      transfer.globalOutputIndex == UNCONFIRMED_TRANSACTION_GLOBAL_OUTPUT_INDEX
    if transactionIsUnconfimed != transferIsUnconfirmed then
      throw (.invalid_argument "Bad transfer's globalOutputIndex")
    else
      let info := storedTransfer block tx transfer
      addTransactionOutput info transferIsUnconfirmed
      if info.type = .Key then modify (·.updateTransfersVisibility info.keyImage)
      addTransactionOutputs block tx transfers true

/-- `TransfersContainer::copyToSpent`: the output spent by input `inputIndex` of `tx` in
`block`, into the spent container. Its unique index on the descriptor refuses an output spent
by what a spent one is spent by. -/
def copyToSpent (block : TransactionBlockInfo) (tx : ITransactionReader) (inputIndex : Nat)
    (output : TransactionOutputInformationEx) : TransfersContainer :=
  let spentOutput : SpentTransactionOutput :=
    { output with
      spendingBlock := block
      spendingTransactionHash := tx.getTransactionHash
      inputInTransaction := UInt32.ofNat inputIndex }
  let descriptor := output.getSpentOutputDescriptor
  if c.m_spentTransfers.items.any fun s => spentBy descriptor s.toTransactionOutputInformationEx
  then c
  else { c with m_spentTransfers := c.m_spentTransfers.emplace spentOutput }

/-- An input of `tx` spends `output`: its unlock job goes, it is copied to the spent container
and erased from the available one. -/
def spendTransfer (block : TransactionBlockInfo) (tx : ITransactionReader) (inputIndex : Nat)
    (output : TransactionOutputInformationEx) : TransfersContainer :=
  let c := (c.deleteUnlockJob output).copyToSpent block tx inputIndex output
  let key := output.getTransactionOutputKey
  { c with m_availableTransfers := c.m_availableTransfers.erase key }

/-- The loop of `TransfersContainer::addTransactionInputs` from input `i` on. A key input spends
the first available output of its key image and amount, and throws when its key image is
spent, only unconfirmed, or of no available output of its amount; a multisignature input spends
the available output of its amount and global index if there is one. -/
def addTransactionInputs (block : TransactionBlockInfo) (tx : ITransactionReader) :
    Nat → List TransactionInput → Bool → ContainerM Bool
  | _, [], inputsAdded => pure inputsAdded
  | i, .key input :: inputs, inputsAdded => do
    let c ← get
    let descriptor := SpentOutputDescriptor.key input.keyImage
    let availableRange := c.m_availableTransfers.items.filter (spentBy descriptor)
    let unconfirmedCount := (c.m_unconfirmedTransfers.items.filter (spentBy descriptor)).length
    if c.m_spentTransfers.items.any fun s => spentBy descriptor s.toTransactionOutputInformationEx
    then throw (.runtime_error "Spending already spent transfer")
    else if availableRange = [] then
      if 0 < unconfirmedCount then throw (.runtime_error "Spending unconfirmed transfer")
      -- this input spends no output of the container
      else addTransactionInputs block tx (i + 1) inputs inputsAdded
    else
      match findFirstByAmount availableRange input.amount with
      | none =>
        throw (.runtime_error "Input has invalid amount, corresponding output isn't found")
      | some spendingTransfer =>
        set ((c.spendTransfer block tx i spendingTransfer).updateTransfersVisibility
          input.keyImage)
        addTransactionInputs block tx (i + 1) inputs true
  | i, .multisignature input :: inputs, inputsAdded => do
    let c ← get
    let descriptor := SpentOutputDescriptor.multisignature input.amount input.outputIndex
    match c.m_availableTransfers.items.find? (spentBy descriptor) with
    | some availableOutput =>
      set (c.spendTransfer block tx i availableOutput)
      addTransactionInputs block tx (i + 1) inputs true
    | none => addTransactionInputs block tx (i + 1) inputs inputsAdded
  | i, .base _ :: inputs, inputsAdded => addTransactionInputs block tx (i + 1) inputs inputsAdded

/-- The private `TransfersContainer::addTransaction`: the record of `tx` in `block`. -/
def addTransactionInformation (block : TransactionBlockInfo) (tx : ITransactionReader) :
    TransfersContainer :=
  let txInfo : TransactionInformation := ⟨tx.getTransactionHash, block.height, block.timestamp⟩
  { c with m_transactions := c.m_transactions.emplace txInfo }

/-- `TransfersContainer::addTransaction`: adds the wallet's outputs `transfers` of `tx` and the
outputs its inputs spend, records `tx` when it touched the container, and for a transaction in
a block advances the height to it, returning the outputs that unlock (`none` when
`unlockingTransfers` is left as it was). -/
def addTransaction (block : TransactionBlockInfo) (tx : ITransactionReader)
    (transfers : List TransactionOutputInformationIn) :
    ContainerM (Bool × Option (List TransactionOutputInformation)) := do
  let c ← get
  if block.height < c.m_currentHeight then
    throw (.invalid_argument "Cannot add transaction from block < m_currentHeight")
  else if c.m_transactions.items.any (·.transactionHash == tx.getTransactionHash) then
    throw (.invalid_argument "Transaction is already added")
  else
    let outputsAdded ← addTransactionOutputs block tx transfers false
    let inputsAdded ← addTransactionInputs block tx 0 tx.transaction.inputs false
    let added := outputsAdded || inputsAdded
    if added then modify (·.addTransactionInformation block tx)
    if block.height != WALLET_LEGACY_UNCONFIRMED_TRANSACTION_HEIGHT then
      let finishedJobs ← doAdvanceHeight block.height
      pure (added, some finishedJobs)
    else pure (added, none)

/-- `TransfersContainer::advanceHeight`. -/
def advanceHeight (height : UInt32) : ContainerM (List TransactionOutputInformation) :=
  doAdvanceHeight height

/-! ## Confirming, deleting and detaching transactions -/

/-- One step of the loop of `markTransactionConfirmed` over the unconfirmed outputs of the
transaction: the output, read again from the container, moves to the available one with the
block and its global index. -/
def confirmTransfer (block : TransactionBlockInfo) (globalIndices : List UInt32)
    (key : TransactionOutputKey) : ContainerM Unit := do
  let c ← get
  match c.m_unconfirmedTransfers.find? key with
  | none => pure ()
  | some transfer =>
    if globalIndices.length ≤ transfer.outputInTransaction.toNat then
      throw (.invalid_argument "Not enough elements in globalIndices")
    else
      let transfer := { transfer with
        blockHeight := block.height
        transactionIndex := block.transactionIndex
        globalOutputIndex := globalIndices.getD transfer.outputInTransaction.toNat 0 }
      if transfer.type = .Multisignature ∧ c.hasSpentBy transfer.getSpentOutputDescriptor then
        -- the source notes that this throw breaks the container's consistency
        throw (.runtime_error "Transfer already exists")
      else
        let c := c.addUnlockJob transfer
        let c := { c with
          m_availableTransfers := c.m_availableTransfers.emplace transfer
          m_unconfirmedTransfers := c.m_unconfirmedTransfers.erase key }
        set (if transfer.type = .Key then c.updateTransfersVisibility transfer.keyImage else c)

/-- The spent outputs whose spending transaction is `transactionHash` get the spending block. -/
def setSpendingBlock (block : TransactionBlockInfo) (transactionHash : Hash) :
    TransfersContainer :=
  let spent := c.m_spentTransfers.map
    (fun s => if s.spendingTransactionHash = transactionHash then { s with spendingBlock := block }
      else s)
    fun s => by split <;> rfl
  { c with m_spentTransfers := spent }

/-- `TransfersContainer::markTransactionConfirmed`: an unconfirmed transaction enters `block`;
its outputs become available with their global indexes. -/
def markTransactionConfirmed (block : TransactionBlockInfo) (transactionHash : Hash)
    (globalIndices : List UInt32) : ContainerM Bool := do
  if block.height = WALLET_LEGACY_UNCONFIRMED_TRANSACTION_HEIGHT then
    throw (.invalid_argument "Block height equals WALLET_LEGACY_UNCONFIRMED_TRANSACTION_HEIGHT")
  else
    let c ← get
    match c.m_transactions.find? transactionHash with
    | none => pure false
    | some txInfo =>
      if txInfo.blockHeight ≠ WALLET_LEGACY_UNCONFIRMED_TRANSACTION_HEIGHT then pure false
      else
        -- `replace` moves the record to its new place in the index by height
        let transactions := (c.m_transactions.erase transactionHash).emplace
          { txInfo with blockHeight := block.height, timestamp := block.timestamp }
        set { c with m_transactions := transactions }
        let keys := (c.m_unconfirmedTransfers.items.filter
          (·.transactionHash = transactionHash)).map (·.getTransactionOutputKey)
        keys.forM (confirmTransfer block globalIndices)
        modify (·.setSpendingBlock block transactionHash)
        pure true

/-- One step of the first loop of `deleteTransactionTransfers`: the spent output, read again
from the container, goes back to the available one, and the visibility is updated at the key
image of the available output of its key (the one just added, or the one already there). -/
def unspendTransfer (key : TransactionOutputKey) : TransfersContainer :=
  match c.m_spentTransfers.find? key with
  | none => c
  | some it =>
    let unspendingTransfer := it.toTransactionOutputInformationEx
    let c := c.addUnlockJob unspendingTransfer
    let c := { c with
      m_availableTransfers := c.m_availableTransfers.emplace unspendingTransfer
      m_spentTransfers := c.m_spentTransfers.erase key }
    match c.m_availableTransfers.find? key with
    | some result => if result.type = .Key then c.updateTransfersVisibility result.keyImage else c
    | none => c

/-- One step of the second loop of `deleteTransactionTransfers`: an unconfirmed output of the
transaction is erased. -/
def eraseUnconfirmedTransfer (key : TransactionOutputKey) : TransfersContainer :=
  match c.m_unconfirmedTransfers.find? key with
  | none => c
  | some it =>
    let c := { c with m_unconfirmedTransfers := c.m_unconfirmedTransfers.erase key }
    if it.type = .Key then c.updateTransfersVisibility it.keyImage else c

/-- One step of the third loop of `deleteTransactionTransfers`: an available output of the
transaction loses its unlock job and is erased. -/
def eraseAvailableTransfer (key : TransactionOutputKey) : TransfersContainer :=
  match c.m_availableTransfers.find? key with
  | none => c
  | some it =>
    let c := c.deleteUnlockJob it
    let c := { c with m_availableTransfers := c.m_availableTransfers.erase key }
    if it.type = .Key then c.updateTransfersVisibility it.keyImage else c

/-- `TransfersContainer::deleteTransactionTransfers`: the outputs the transaction spends become
available again, and its own unconfirmed and available outputs are erased. -/
def deleteTransactionTransfers (transactionHash : Hash) : TransfersContainer :=
  let spentKeys := (c.m_spentTransfers.items.filter
    (·.spendingTransactionHash = transactionHash)).map (·.getTransactionOutputKey)
  let c := spentKeys.foldl unspendTransfer c
  let unconfirmedKeys := (c.m_unconfirmedTransfers.items.filter
    (·.transactionHash = transactionHash)).map (·.getTransactionOutputKey)
  let c := unconfirmedKeys.foldl eraseUnconfirmedTransfer c
  let availableKeys := (c.m_availableTransfers.items.filter
    (·.transactionHash = transactionHash)).map (·.getTransactionOutputKey)
  availableKeys.foldl eraseAvailableTransfer c

/-- `TransfersContainer::deleteUnconfirmedTransaction`. -/
def deleteUnconfirmedTransaction (transactionHash : Hash) : ContainerM Bool := do
  let c ← get
  match c.m_transactions.find? transactionHash with
  | none => pure false
  | some txInfo =>
    if txInfo.blockHeight ≠ WALLET_LEGACY_UNCONFIRMED_TRANSACTION_HEIGHT then pure false
    else
      let c := c.deleteTransactionTransfers transactionHash
      set { c with m_transactions := c.m_transactions.erase transactionHash }
      pure true

/-- The transactions in the order of their index by block height, ties in the order they were
added. -/
def transactionsByHeight : List TransactionInformation :=
  c.m_transactions.items.mergeSort fun t₁ t₂ => t₁.blockHeight ≤ t₂.blockHeight

/-- The loop of `detach` over the transactions from the highest down: a transaction of a block
at `height` or above is deleted, an unconfirmed one when it spends an output of such a block,
and the walk stops at the first transaction of a block below `height`. -/
def detachLoop (height : UInt32) :
    List TransactionInformation → TransfersContainer → TransfersContainer × List Hash
  | [], c => (c, [])
  | txInfo :: rest, c =>
    let doDelete :=
      if txInfo.blockHeight = WALLET_LEGACY_UNCONFIRMED_TRANSACTION_HEIGHT then
        c.m_spentTransfers.items.any fun s =>
          s.spendingTransactionHash = txInfo.transactionHash ∧ height ≤ s.blockHeight
      else decide (height ≤ txInfo.blockHeight)
    if txInfo.blockHeight ≠ WALLET_LEGACY_UNCONFIRMED_TRANSACTION_HEIGHT ∧
        txInfo.blockHeight < height then (c, [])
    else if doDelete then
      let c := c.deleteTransactionTransfers txInfo.transactionHash
      let c := { c with m_transactions := c.m_transactions.erase txInfo.transactionHash }
      let (c, deleted) := detachLoop height rest c
      (c, txInfo.transactionHash :: deleted)
    else detachLoop height rest c

/-- `TransfersContainer::detach`: the chain is cut at `height`; the transactions of the cut
blocks, and the unconfirmed ones that spend their outputs, are deleted (returned in the order
of deletion), the height becomes `height - 1`, and the outputs whose unlock the cut undoes are
returned. -/
def detach (height : UInt32) :
    ContainerM (List Hash × List TransactionOutputInformation) := do
  let c ← get
  let (c, deletedTransactions) := detachLoop height c.transactionsByHeight.reverse c
  let prevHeight := c.m_currentHeight
  let c := { c with m_currentHeight := if height = 0 then 0 else height - 1 }
  set c
  let lockedTransfers ← MonadExcept.ofExcept (c.getLockingTransfers prevHeight c.m_currentHeight)
  pure (deletedTransactions, lockedTransfers)

/-! ## Runs -/

/-- The calls that change a container, with their arguments. -/
inductive Call
  | addTransaction (block : TransactionBlockInfo) (tx : ITransactionReader)
      (transfers : List TransactionOutputInformationIn)
  | markTransactionConfirmed (block : TransactionBlockInfo) (transactionHash : Hash)
      (globalIndices : List UInt32)
  | deleteUnconfirmedTransaction (transactionHash : Hash)
  | detach (height : UInt32)
  | advanceHeight (height : UInt32)

/-- A call as a program over the container; what it returns is dropped. -/
def Call.run : Call → ContainerM Unit
  | .addTransaction block tx transfers => do
    let _ ← TransfersContainer.addTransaction block tx transfers
  | .markTransactionConfirmed block transactionHash globalIndices => do
    let _ ← TransfersContainer.markTransactionConfirmed block transactionHash globalIndices
  | .deleteUnconfirmedTransaction transactionHash => do
    let _ ← TransfersContainer.deleteUnconfirmedTransaction transactionHash
  | .detach height => do let _ ← TransfersContainer.detach height
  | .advanceHeight height => do let _ ← TransfersContainer.advanceHeight height

/-- The state after a sequence of calls, each from where the one before ended, whether it
returned or threw. -/
def runCalls : List Call → TransfersContainer → TransfersContainer
  | [], c => c
  | call :: calls, c => runCalls calls (call.run.run c).state

/-- The states of a container: those a sequence of calls reaches from a fresh one. -/
def Reachable : Prop :=
  ∃ currency transactionSpendableAge calls,
    c = runCalls calls (create currency transactionSpendableAge)

/-! ## What `getTransfer` reports -/

section GetTransfer

variable (now : UInt64) (transactionHash : Hash) (outputInTransaction : UInt32)

/-- An available output is reported as itself, locked until it is unlocked and past the
spendable age. -/
theorem getTransfer_of_available {transfer : TransactionOutputInformationEx}
    (h : c.m_availableTransfers.find? ⟨transactionHash, outputInTransaction⟩ = some transfer) :
    c.getTransfer now transactionHash outputInTransaction =
      some (some transfer.toTransactionOutputInformation,
        if !c.isSpendTimeUnlocked now transfer ||
            c.m_currentHeight.toUInt64 < transfer.blockHeight.toUInt64 + c.m_transactionSpendableAge
        then .TransferLocked else .TransferAvailable) := by
  simp only [getTransfer, h]

/-- An unconfirmed output that is not also available is reported as itself, unconfirmed. -/
theorem getTransfer_of_unconfirmed {transfer : TransactionOutputInformationEx}
    (havailable : c.m_availableTransfers.find? ⟨transactionHash, outputInTransaction⟩ = none)
    (h : c.m_unconfirmedTransfers.find? ⟨transactionHash, outputInTransaction⟩ = some transfer) :
    c.getTransfer now transactionHash outputInTransaction =
      some (some transfer.toTransactionOutputInformation, .TransferUnconfirmed) := by
  simp only [getTransfer, havailable, h]

/-- `getTransfer` returns `false` exactly for a key that no container holds. -/
theorem getTransfer_eq_none_iff :
    c.getTransfer now transactionHash outputInTransaction = none ↔
      c.m_availableTransfers.find? ⟨transactionHash, outputInTransaction⟩ = none ∧
        c.m_unconfirmedTransfers.find? ⟨transactionHash, outputInTransaction⟩ = none ∧
        c.m_spentTransfers.find? ⟨transactionHash, outputInTransaction⟩ = none := by
  -- one case per container that may hold the key, in the order of the lookups
  cases havailable : c.m_availableTransfers.find? ⟨transactionHash, outputInTransaction⟩ with
  | some available => simp [getTransfer, havailable]
  | none =>
    cases hunconfirmed : c.m_unconfirmedTransfers.find? ⟨transactionHash, outputInTransaction⟩ with
    | some unconfirmed => simp [getTransfer, havailable, hunconfirmed]
    | none =>
      cases hspent : c.m_spentTransfers.find? ⟨transactionHash, outputInTransaction⟩ with
      | some spent => simp [getTransfer, havailable, hunconfirmed, hspent]
      | none => simp [getTransfer, havailable, hunconfirmed, hspent]

/-- A spent output is reported spent, but what is assigned to `transfer` is read through the
unconfirmed container's end iterator, not the spent output. -/
theorem getTransfer_spent_reads_end
    (havailable : c.m_availableTransfers.find? ⟨transactionHash, outputInTransaction⟩ = none)
    (hunconfirmed : c.m_unconfirmedTransfers.find? ⟨transactionHash, outputInTransaction⟩ = none)
    (hspent : (c.m_spentTransfers.find? ⟨transactionHash, outputInTransaction⟩).isSome) :
    c.getTransfer now transactionHash outputInTransaction = some (none, .TransferSpent) := by
  obtain ⟨spent, hspent⟩ := Option.isSome_iff_exists.mp hspent
  simp only [getTransfer, havailable, hunconfirmed, hspent, Option.map_none]

end GetTransfer

/-! ### A spent output -/

/-- A key output of `100` at position `0` of the transaction with hash `1`, of key image `7`. -/
def sampleTransfer : TransactionOutputInformationIn :=
  { type := .Key, amount := 100, globalOutputIndex := 0, outputInTransaction := 0,
    transactionHash := ⟨1⟩, transactionPublicKey := ⟨0⟩, outputKey := ⟨0⟩,
    requiredSignatures := 0, term := 0, keyImage := ⟨7⟩ }

/-- The transaction with hash `1`, in block `1`, whose output is `sampleTransfer`. -/
def sampleReceivingTx : ITransactionReader :=
  ⟨⟨1⟩,
    { version := 1, unlockTime := 0, inputs := [.base ⟨1⟩], outputs := [⟨100, .key ⟨⟨0⟩⟩⟩],
      extra := [], signatures := [] }⟩

/-- The transaction with hash `2`, in block `2`, whose key input of key image `7` spends
`sampleTransfer`. -/
def sampleSpendingTx : ITransactionReader :=
  ⟨⟨2⟩,
    { version := 1, unlockTime := 0, inputs := [.key ⟨100, [0], ⟨7⟩⟩], outputs := [],
      extra := [], signatures := [] }⟩

/-- A fresh mainnet container after the wallet receives `sampleTransfer` in block `1` and
spends it in block `2`. -/
def sampleSpentContainer : TransfersContainer :=
  runCalls [.addTransaction ⟨1, 0, 0⟩ sampleReceivingTx [sampleTransfer],
    .addTransaction ⟨2, 0, 0⟩ sampleSpendingTx []] (create Currency.mainnet 10)

/-- The output received and spent is in the spent container of a reachable state, and
`getTransfer` reports it spent with the record read through the end iterator. -/
theorem getTransfer_spent_reads_end_sample :
    sampleSpentContainer.Reachable ∧
      (sampleSpentContainer.m_spentTransfers.find? ⟨⟨1⟩, 0⟩).isSome ∧
      sampleSpentContainer.getTransfer 0 ⟨1⟩ 0 = some (none, .TransferSpent) :=
  ⟨⟨_, _, _, rfl⟩, by decide +kernel,
    getTransfer_spent_reads_end sampleSpentContainer 0 ⟨1⟩ 0 (by decide +kernel)
      (by decide +kernel) (by decide +kernel)⟩

end TransfersContainer

end UltraNoteCore
