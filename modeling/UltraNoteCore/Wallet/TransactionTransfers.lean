import Mathlib
import UltraNoteCore.Prelude.Containers

/-!
# The transfers of a wallet transaction

`WalletGreen` keeps the transfers of all its transactions in one vector `m_transfers` of pairs
(transaction id, `WalletTransfer`), sorted by transaction id. When the transfers containers
report a transaction, `WalletGreen::updateTransactionTransfers` reconciles the transfers of that
transaction with what the containers know: for each wallet address the amount it spent (an
input, negative) and received (an output, positive), and the totals of the transaction's
inputs and outputs.

It edits the vector in place, in the range of the transaction, which it addresses through the
index of its first transfer. First, for each container, it brings the transfers of the
container's address to the container's input and output amounts (`updateAddressTransfers`):
appending a transfer, erasing them, or keeping the first and erasing the others
(`adjustTransfer`). Then, for each direction, it balances the rest on the transfer with the
empty address, the part of the total that no wallet address accounts for
(`updateUnknownTransfers`).

The reconciliation is exact on sums: every edit moves the sum of the transfers of an address and
direction in a way one lemma states (`amountOf`), so each address ends with its amounts and each
direction with its total, the transfers of other transactions stay as they were and the vector
stays sorted. No edit writes a zero amount, but a transfer of amount zero already in the range
is kept when nothing touches its address and direction.

`int64_t` amounts are integers: no sum the function forms reaches `2^63` in a wallet, whose
amounts are bounded by the money supply. The address of a container, which the source reads
from its wallet record and prints with `Currency::accountAddressAsString`, is an argument
`addressOf`. The debug `assert`s are left out.

## Main definitions

* `WalletTransfer`, `WalletTransfers`, `WalletGreen.AddressAmounts`,
  `WalletGreen.ContainerAmounts`, `WalletGreen.TransfersMap`
* `WalletGreen.getKnownTransfersMap`, `appendTransfer`, `adjustTransfer`, `eraseTransfers`,
  `eraseTransfersByAddress`, `eraseForeignTransfers`, `updateAddressTransfers`,
  `updateUnknownTransfers`: the edits of the range of one transaction
* `WalletGreen.updateTransactionTransfers`
* `WalletGreen.amountOf`: the sum of the transfers whose address and direction satisfy a test
-/

namespace UltraNoteCore

/-- `WalletTransferType`. -/
inductive WalletTransferType
  | USUAL
  | DONATION
  | CHANGE
deriving DecidableEq, Repr

/-- `WalletTransfer`: an amount spent from (negative) or paid to (positive) an address. -/
structure WalletTransfer where
  type : WalletTransferType
  address : String
  amount : ℤ
deriving DecidableEq, Repr

/-- `TransactionTransferPair`: a transfer and the id of its transaction. -/
abbrev TransactionTransferPair := ℕ × WalletTransfer

/-- `WalletTransfers`, the type of `m_transfers`. -/
abbrev WalletTransfers := List TransactionTransferPair

namespace WalletGreen

/-- `WalletGreen::AddressAmounts`. -/
structure AddressAmounts where
  input : ℤ := 0
  output : ℤ := 0
deriving DecidableEq, Repr, Inhabited

/-- `WalletGreen::ContainerAmounts`: a transfers container and its amounts in a transaction. -/
structure ContainerAmounts (κ : Type) where
  container : κ
  amounts : AddressAmounts

/-- `WalletGreen::TransfersMap`, an `unordered_map` from addresses. -/
abbrev TransfersMap := DefaultMap String AddressAmounts

/-- The range `getTransactionTransfersRange(transactionIndex)`, as indices: `std::equal_range`
over the transaction ids of the sorted vector. -/
def getTransactionTransfersRange (transfers : WalletTransfers) (transactionIndex : ℕ) : ℕ × ℕ :=
  (transfers.findIdx fun pair => decide (transactionIndex ≤ pair.1),
    transfers.findIdx fun pair => decide (transactionIndex < pair.1))

/-- The transfers the loops of the reconciliation visit: from `firstTransferIdx` on, while the
transaction id is `transactionId`. -/
def transferBlock (transfers : WalletTransfers) (transactionId firstTransferIdx : ℕ) :
    WalletTransfers :=
  (transfers.drop firstTransferIdx).takeWhile fun pair => pair.1 == transactionId

/-- The transfers after those the loops visit. -/
def afterTransferBlock (transfers : WalletTransfers) (transactionId firstTransferIdx : ℕ) :
    WalletTransfers :=
  (transfers.drop firstTransferIdx).dropWhile fun pair => pair.1 == transactionId

/-- The body of the loop of `getKnownTransfersMap`: a transfer to a non-empty address adds its
amount to the address's input when negative, to its output otherwise. -/
def knownTransfersStep (result : TransfersMap) (pair : TransactionTransferPair) : TransfersMap :=
  let address := pair.2.address
  if !address.isEmpty then
    if pair.2.amount < 0 then
      result.modify address fun amounts => { amounts with input := amounts.input + pair.2.amount }
    else
      result.modify address fun amounts => { amounts with output := amounts.output + pair.2.amount }
  else result

/-- `WalletGreen::getKnownTransfersMap`: the amounts of the transaction's transfers per
non-empty address. -/
def getKnownTransfersMap (transfers : WalletTransfers) (transactionId firstTransferIdx : ℕ) :
    TransfersMap :=
  (transferBlock transfers transactionId firstTransferIdx).foldl knownTransfersStep []

/-- `WalletGreen::appendTransfer`: a new transfer at the `std::upper_bound` of the transaction
id from `firstTransferIdx`. -/
def appendTransfer (transfers : WalletTransfers) (transactionId firstTransferIdx : ℕ)
    (address : String) (amount : ℤ) : WalletTransfers :=
  let insertIt := firstTransferIdx +
    (transfers.drop firstTransferIdx).findIdx fun pair => decide (transactionId < pair.1)
  transfers.insertIdx insertIt (transactionId, ⟨.USUAL, address, amount⟩)

/-- The loop of `adjustTransfer` with its flags `updated` and `firstAddressTransferFound`: the
first transfer of `address` in the direction of `amount` takes `amount`, the later ones are
erased. -/
def adjustTransferLoop (address : String) (amount : ℤ) :
    Bool → Bool → WalletTransfers → Bool × Bool × WalletTransfers
  | updated, found, [] => (updated, found, [])
  | updated, found, (id, transfer) :: block =>
    let transferIsOutput := decide (0 < transfer.amount)
    if (transferIsOutput == decide (0 < amount) && transfer.address == address) = true then
      if found then adjustTransferLoop address amount true true block
      else
        let result := adjustTransferLoop address amount (updated || transfer.amount != amount) true
          block
        (result.1, result.2.1, (id, { transfer with amount := amount }) :: result.2.2)
    else
      let result := adjustTransferLoop address amount updated found block
      (result.1, result.2.1, (id, transfer) :: result.2.2)

/-- `WalletGreen::adjustTransfer`: the loop, then a new transfer where it stopped when it found
no transfer of `address` in the direction of `amount`. -/
def adjustTransfer (transfers : WalletTransfers) (transactionId firstTransferIdx : ℕ)
    (address : String) (amount : ℤ) : Bool × WalletTransfers :=
  let result := adjustTransferLoop address amount false false
    (transferBlock transfers transactionId firstTransferIdx)
  let after := afterTransferBlock transfers transactionId firstTransferIdx
  if result.2.1 then (result.1, transfers.take firstTransferIdx ++ result.2.2 ++ after)
  else
    (true, transfers.take firstTransferIdx ++ result.2.2 ++
      (transactionId, ⟨.USUAL, address, amount⟩) :: after)

/-- `WalletGreen::eraseTransfers`: erases the transaction's transfers whose direction and
address satisfy `predicate`. -/
def eraseTransfers (transfers : WalletTransfers) (transactionId firstTransferIdx : ℕ)
    (predicate : Bool → String → Bool) : Bool × WalletTransfers :=
  let block := transferBlock transfers transactionId firstTransferIdx
  let erased := fun pair : TransactionTransferPair =>
    predicate (decide (0 < pair.2.amount)) pair.2.address
  (block.any erased, transfers.take firstTransferIdx ++ block.filter (fun pair => !erased pair) ++
    afterTransferBlock transfers transactionId firstTransferIdx)

/-- `WalletGreen::eraseTransfersByAddress`. -/
def eraseTransfersByAddress (transfers : WalletTransfers) (transactionId firstTransferIdx : ℕ)
    (address : String) (eraseOutputTransfers : Bool) : Bool × WalletTransfers :=
  eraseTransfers transfers transactionId firstTransferIdx fun isOutput transferAddress =>
    eraseOutputTransfers == isOutput && address == transferAddress

/-- `WalletGreen::eraseForeignTransfers`: erases the transfers of the addresses not in
`knownAddresses`. -/
def eraseForeignTransfers (transfers : WalletTransfers) (transactionId firstTransferIdx : ℕ)
    (knownAddresses : List String) (eraseOutputTransfers : Bool) : Bool × WalletTransfers :=
  eraseTransfers transfers transactionId firstTransferIdx fun isOutput transferAddress =>
    eraseOutputTransfers == isOutput && knownAddresses.count transferAddress == 0

/-- `WalletGreen::updateAddressTransfers`: brings the transfers of `address` in one direction
from `knownAmount` to `targetAmount`. -/
def updateAddressTransfers (transfers : WalletTransfers) (transactionId firstTransferIdx : ℕ)
    (address : String) (knownAmount targetAmount : ℤ) : Bool × WalletTransfers :=
  if knownAmount ≠ targetAmount then
    if knownAmount = 0 then
      (true, appendTransfer transfers transactionId firstTransferIdx address targetAmount)
    else if targetAmount = 0 then
      eraseTransfersByAddress transfers transactionId firstTransferIdx address
        (decide (0 < knownAmount))
    else adjustTransfer transfers transactionId firstTransferIdx address targetAmount
  else (false, transfers)

/-- `WalletGreen::updateUnknownTransfers`: balances one direction of the transaction on the
transfer with the empty address. -/
def updateUnknownTransfers (transfers : WalletTransfers) (transactionId firstTransferIdx : ℕ)
    (myAddresses : List String) (knownAmount myAmount totalAmount : ℤ) (isOutput : Bool) :
    Bool × WalletTransfers :=
  if totalAmount.natAbs < knownAmount.natAbs then
    let erased := eraseForeignTransfers transfers transactionId firstTransferIdx myAddresses isOutput
    if totalAmount = myAmount then
      let erased' := eraseTransfersByAddress erased.2 transactionId firstTransferIdx "" isOutput
      (erased.1 || erased'.1, erased'.2)
    else
      let adjusted := adjustTransfer erased.2 transactionId firstTransferIdx ""
        (totalAmount - myAmount)
      (erased.1 || adjusted.1, adjusted.2)
  else if knownAmount = totalAmount then
    eraseTransfersByAddress transfers transactionId firstTransferIdx "" isOutput
  else adjustTransfer transfers transactionId firstTransferIdx "" (totalAmount - knownAmount)

/-- The variables of the loop over the containers in `updateTransactionTransfers`. -/
structure UpdateTransfersState where
  updated : Bool
  transfers : WalletTransfers
  myInputAddresses : List String
  myOutputAddresses : List String
  myInputsAmount : ℤ
  myOutputsAmount : ℤ

/-- One round of the loop over the containers: the transfers of the container's address in both
directions, from the amounts `initialTransfers` knew, and the container's amounts added to the
wallet's. -/
def updateContainerTransfers {κ : Type} (addressOf : κ → String) (transactionId firstTransferIdx : ℕ)
    (initialTransfers : TransfersMap) (s : UpdateTransfersState) (containerAmount : ContainerAmounts κ) :
    UpdateTransfersState :=
  let addressString := addressOf containerAmount.container
  let inputs := updateAddressTransfers s.transfers transactionId firstTransferIdx addressString
    (initialTransfers.get addressString).input containerAmount.amounts.input
  let outputs := updateAddressTransfers inputs.2 transactionId firstTransferIdx addressString
    (initialTransfers.get addressString).output containerAmount.amounts.output
  { updated := s.updated || inputs.1 || outputs.1
    transfers := outputs.2
    myInputAddresses := if containerAmount.amounts.input ≠ 0 then
        s.myInputAddresses.insert addressString else s.myInputAddresses
    myOutputAddresses := if containerAmount.amounts.output ≠ 0 then
        s.myOutputAddresses.insert addressString else s.myOutputAddresses
    myInputsAmount := s.myInputsAmount + containerAmount.amounts.input
    myOutputsAmount := s.myOutputsAmount + containerAmount.amounts.output }

/-- `WalletGreen::updateTransactionTransfers`: whether it changed anything, and the new
`m_transfers`. -/
def updateTransactionTransfers {κ : Type} (addressOf : κ → String) (transfers : WalletTransfers)
    (transactionId : ℕ) (containerAmountsList : List (ContainerAmounts κ))
    (allInputsAmount allOutputsAmount : ℤ) : Bool × WalletTransfers :=
  let firstTransferIdx := (getTransactionTransfersRange transfers transactionId).1
  let initialTransfers := getKnownTransfersMap transfers transactionId firstTransferIdx
  let s := containerAmountsList.foldl
    (updateContainerTransfers addressOf transactionId firstTransferIdx initialTransfers)
    ⟨false, transfers, [], [], 0, 0⟩
  let updatedTransfers := getKnownTransfersMap s.transfers transactionId firstTransferIdx
  let knownInputsAmount := (updatedTransfers.map fun pair => pair.2.input).sum
  let knownOutputsAmount := (updatedTransfers.map fun pair => pair.2.output).sum
  let inputs := updateUnknownTransfers s.transfers transactionId firstTransferIdx
    s.myInputAddresses knownInputsAmount s.myInputsAmount allInputsAmount false
  let outputs := updateUnknownTransfers inputs.2 transactionId firstTransferIdx
    s.myOutputAddresses knownOutputsAmount s.myOutputsAmount allOutputsAmount true
  (s.updated || inputs.1 || outputs.1, outputs.2)

/-! ## Sums over the transfers of a transaction

A transfer has an address and a direction, `true` for an output (a positive amount). Every edit
acts on the transfers of one address and direction, so the sums that say what the edits do are
`amountOf Q`, over the transfers whose address and direction satisfy `Q`. A transfer of amount
zero counts as an input there, and adds nothing. -/

/-- The sum of the amounts of the transfers whose address and direction satisfy `Q`. -/
def amountOf (Q : String → Bool → Bool) (block : WalletTransfers) : ℤ :=
  ((block.filter fun pair => Q pair.2.address (decide (0 < pair.2.amount))).map
    fun pair => pair.2.amount).sum

/-- The transfers of one address and direction. -/
def sameClass (address : String) (isOutput : Bool) : String → Bool → Bool :=
  fun transferAddress transferIsOutput => transferAddress == address && transferIsOutput == isOutput

/-- The transfers have non-zero amounts. -/
def NonZeroAmounts (block : WalletTransfers) : Prop :=
  ∀ pair ∈ block, pair.2.amount ≠ 0

section Amounts

variable {Q : String → Bool → Bool}

@[simp] theorem amountOf_nil : amountOf Q [] = 0 := rfl

theorem amountOf_cons (pair : TransactionTransferPair) (block : WalletTransfers) :
    amountOf Q (pair :: block) =
      (if Q pair.2.address (decide (0 < pair.2.amount)) then pair.2.amount else 0) +
        amountOf Q block := by
  unfold amountOf
  split <;> simp [*]

@[simp] theorem amountOf_append (block block' : WalletTransfers) :
    amountOf Q (block ++ block') = amountOf Q block + amountOf Q block' := by
  simp [amountOf, List.filter_append]

theorem amountOf_congr {Q' : String → Bool → Bool} (h : ∀ c o, Q c o = Q' c o)
    (block : WalletTransfers) : amountOf Q block = amountOf Q' block := by
  have hQ : Q = Q' := funext fun c => funext fun o => h c o
  rw [hQ]

theorem amountOf_of_forall_false (h : ∀ c o, Q c o = false) (block : WalletTransfers) :
    amountOf Q block = 0 := by
  simp [amountOf, h]

/-- A sum splits along any second test. -/
theorem amountOf_split (R : String → Bool → Bool) (block : WalletTransfers) :
    amountOf Q block =
      amountOf (fun c o => Q c o && R c o) block + amountOf (fun c o => Q c o && !R c o) block := by
  induction block with
  | nil => rfl
  | cons pair block ih =>
    rw [amountOf_cons, amountOf_cons, amountOf_cons, ih]
    cases Q pair.2.address (decide (0 < pair.2.amount)) <;>
      cases R pair.2.address (decide (0 < pair.2.amount)) <;> simp <;> omega

/-- Outputs sum to a non-negative amount. -/
theorem amountOf_nonneg (h : ∀ c, Q c false = false) (block : WalletTransfers) :
    0 ≤ amountOf Q block := by
  induction block with
  | nil => rfl
  | cons pair block ih =>
    rw [amountOf_cons]
    by_cases hpos : 0 < pair.2.amount
    · split <;> omega
    · simp [hpos, h, ih]

/-- Inputs sum to a non-positive amount. -/
theorem amountOf_nonpos (h : ∀ c, Q c true = false) (block : WalletTransfers) :
    amountOf Q block ≤ 0 := by
  induction block with
  | nil => rfl
  | cons pair block ih =>
    rw [amountOf_cons]
    by_cases hpos : 0 < pair.2.amount
    · simp [hpos, h, ih]
    · split <;> omega

/-- Within one class a test is constant. -/
theorem amountOf_and_sameClass (address : String) (isOutput : Bool) (block : WalletTransfers) :
    amountOf (fun c o => Q c o && sameClass address isOutput c o) block =
      if Q address isOutput then amountOf (sameClass address isOutput) block else 0 := by
  split
  · next hQ =>
    refine amountOf_congr (fun c o => ?_) block
    by_cases hc : c = address <;> by_cases ho : o = isOutput <;> simp [sameClass, hc, ho, hQ]
  · next hQ =>
    refine amountOf_of_forall_false (fun c o => ?_) block
    by_cases hc : c = address <;> by_cases ho : o = isOutput <;> simp_all [sameClass]

/-- Erasing the transfers a test selects removes them from every sum. -/
theorem amountOf_filter (E : Bool → String → Bool) (block : WalletTransfers) :
    amountOf Q (block.filter fun pair => !E (decide (0 < pair.2.amount)) pair.2.address) =
      amountOf (fun c o => Q c o && !E o c) block := by
  simp only [amountOf, List.filter_filter]

end Amounts

/-! ## The loop of `adjustTransfer` -/

section AdjustTransferLoop

variable (address : String) (amount : ℤ)

/-- The loop's test, `transferIsOutput == updateOutputTransfers && address == address`, is that
of the class of `address` in the direction of `amount`. -/
theorem adjustTransferLoop_test (transfer : WalletTransfer) :
    (decide (0 < transfer.amount) == decide (0 < amount) && transfer.address == address) =
      sameClass address (decide (0 < amount)) transfer.address (decide (0 < transfer.amount)) := by
  simp only [sameClass]
  rw [Bool.and_comm]

theorem adjustTransferLoop_found (updated found : Bool) (block : WalletTransfers) :
    (adjustTransferLoop address amount updated found block).2.1 =
      (found || block.any fun pair =>
        sameClass address (decide (0 < amount)) pair.2.address (decide (0 < pair.2.amount))) := by
  induction block generalizing updated found with
  | nil => simp [adjustTransferLoop]
  | cons pair block ih =>
    obtain ⟨id, transfer⟩ := pair
    simp only [adjustTransferLoop, adjustTransferLoop_test]
    split
    · next hclass =>
      split
      · simp [*]
      · simp [ih, hclass]
    · next hclass =>
      simp only [Bool.not_eq_true] at hclass
      simp [ih, hclass]

/-- What the loop leaves of the transfers of `address` in the direction of `amount`: the first
takes `amount`, unless one was found before. -/
theorem amountOf_adjustTransferLoop (Q : String → Bool → Bool) (updated found : Bool)
    (block : WalletTransfers) :
    amountOf Q (adjustTransferLoop address amount updated found block).2.2 =
      amountOf (fun c o => Q c o && !sameClass address (decide (0 < amount)) c o) block +
        if (!found && block.any fun pair =>
            sameClass address (decide (0 < amount)) pair.2.address (decide (0 < pair.2.amount))) &&
          Q address (decide (0 < amount)) then amount else 0 := by
  induction block generalizing updated found with
  | nil => simp [adjustTransferLoop]
  | cons pair block ih =>
    obtain ⟨id, transfer⟩ := pair
    simp only [adjustTransferLoop, adjustTransferLoop_test]
    split
    · next hclass =>
      -- a transfer of the class: erased when one was found, otherwise it takes `amount`
      have hsame : transfer.address = address ∧ decide (0 < transfer.amount) = decide (0 < amount) := by
        simpa [sameClass] using hclass
      split
      · next hfound =>
        simp only [ih, amountOf_cons, List.any_cons, hclass, hfound]
        simp
      · next hfound =>
        simp only [Bool.not_eq_true] at hfound
        simp only [amountOf_cons, ih, List.any_cons, hclass, hfound, Bool.not_true, Bool.and_false,
          Bool.false_and, Bool.false_eq_true, if_false, Bool.not_false, Bool.true_or, Bool.true_and]
        rw [hsame.1]
        omega
    · next hclass =>
      -- a transfer of another class stays as it was
      simp only [Bool.not_eq_true] at hclass
      simp only [amountOf_cons, ih, List.any_cons, hclass, Bool.not_false, Bool.and_true,
        Bool.false_or]
      omega

/-- Every transfer the loop leaves is one of the block, possibly with the amount `amount`. -/
theorem mem_adjustTransferLoop (updated found : Bool) (block : WalletTransfers) :
    ∀ pair ∈ (adjustTransferLoop address amount updated found block).2.2,
      ∃ pair' ∈ block, pair.1 = pair'.1 ∧ (pair.2.amount = pair'.2.amount ∨ pair.2.amount = amount) := by
  induction block generalizing updated found with
  | nil => simp [adjustTransferLoop]
  | cons pair block ih =>
    obtain ⟨id, transfer⟩ := pair
    intro pair hpair
    simp only [adjustTransferLoop] at hpair
    -- a transfer left by the rest of the loop is one of the rest
    have hrest : ∀ updated found, pair ∈ (adjustTransferLoop address amount updated found block).2.2 →
        ∃ pair' ∈ (id, transfer) :: block, pair.1 = pair'.1 ∧
          (pair.2.amount = pair'.2.amount ∨ pair.2.amount = amount) := fun updated found h => by
      obtain ⟨pair', hmem, hid, hamount⟩ := ih updated found pair h
      exact ⟨pair', List.mem_cons_of_mem _ hmem, hid, hamount⟩
    split at hpair
    · split at hpair
      · exact hrest _ _ hpair
      · rcases List.mem_cons.mp hpair with rfl | hpair
        · exact ⟨(id, transfer), List.mem_cons_self, rfl, Or.inr rfl⟩
        · exact hrest _ _ hpair
    · rcases List.mem_cons.mp hpair with rfl | hpair
      · exact ⟨(id, transfer), List.mem_cons_self, rfl, Or.inl rfl⟩
      · exact hrest _ _ hpair

end AdjustTransferLoop

/-! ## The range of one transaction

In a sorted vector the transfers of a transaction are one range, after those of smaller ids and
before those of larger ones. Every edit replaces that range and nothing else. -/

/-- `pre`, `block` and `after` hold the transfers of the transactions before `transactionId`, of
`transactionId`, and after it. -/
structure Shape (transactionId : ℕ) (pre block after : WalletTransfers) : Prop where
  pre_lt : ∀ pair ∈ pre, pair.1 < transactionId
  block_eq : ∀ pair ∈ block, pair.1 = transactionId
  after_gt : ∀ pair ∈ after, transactionId < pair.1

/-- `transfers` is `pre ++ block ++ after` for a range `block` of `transactionId` with the
property `P`. -/
def RangeOf (transactionId : ℕ) (pre after transfers : WalletTransfers)
    (P : WalletTransfers → Prop) : Prop :=
  ∃ block, transfers = pre ++ block ++ after ∧ (∀ pair ∈ block, pair.1 = transactionId) ∧ P block

private theorem insertIdx_length_append {α : Type} (l₁ l₂ : List α) (x : α) :
    (l₁ ++ l₂).insertIdx l₁.length x = l₁ ++ x :: l₂ := by
  induction l₁ with
  | nil => simp
  | cons y l₁ ih => simp [List.insertIdx_succ_cons, ih]

namespace Shape

variable {transactionId : ℕ} {pre block after : WalletTransfers}

theorem with_block (hs : Shape transactionId pre block after) {block' : WalletTransfers}
    (h : ∀ pair ∈ block', pair.1 = transactionId) : Shape transactionId pre block' after :=
  ⟨hs.pre_lt, h, hs.after_gt⟩

theorem of_rangeOf (hs : Shape transactionId pre block after) {transfers : WalletTransfers}
    {P : WalletTransfers → Prop} (h : RangeOf transactionId pre after transfers P) :
    ∃ block', transfers = pre ++ block' ++ after ∧ Shape transactionId pre block' after ∧ P block' := by
  obtain ⟨block', rfl, hblock', hP⟩ := h
  exact ⟨block', rfl, hs.with_block hblock', hP⟩

/-- `std::equal_range` starts the range of the transaction after `pre`. -/
theorem firstTransferIdx_eq (hs : Shape transactionId pre block after) :
    (getTransactionTransfersRange (pre ++ block ++ after) transactionId).1 = pre.length := by
  have hpre : (pre.findIdx fun pair => decide (transactionId ≤ pair.1)) = pre.length :=
    List.findIdx_eq_length.mpr fun pair hpair => by simp [hs.pre_lt pair hpair]
  -- every transfer from the range on has an id of at least `transactionId`
  have hrest : ((block ++ after).findIdx fun pair => decide (transactionId ≤ pair.1)) = 0 := by
    cases hcons : block ++ after with
    | nil => rfl
    | cons pair rest =>
      have hmem : pair ∈ block ++ after := hcons ▸ List.mem_cons_self
      have hle : transactionId ≤ pair.1 := by
        rcases List.mem_append.mp hmem with hblock | hafter
        · exact (hs.block_eq pair hblock).ge
        · exact (hs.after_gt pair hafter).le
      simp [List.findIdx_cons, hle]
  simp only [getTransactionTransfersRange, List.append_assoc]
  rw [List.findIdx_append, hpre, if_neg (lt_irrefl _), hrest, zero_add]

theorem transferBlock_eq (hs : Shape transactionId pre block after) :
    transferBlock (pre ++ block ++ after) transactionId pre.length = block := by
  have hafter : (after.takeWhile fun pair => pair.1 == transactionId) = [] := by
    cases after with
    | nil => rfl
    | cons pair rest => simp [(hs.after_gt pair List.mem_cons_self).ne']
  simp only [transferBlock, List.append_assoc, List.drop_left]
  rw [List.takeWhile_append_of_pos fun pair hpair => by simp [hs.block_eq pair hpair], hafter,
    List.append_nil]

theorem afterTransferBlock_eq (hs : Shape transactionId pre block after) :
    afterTransferBlock (pre ++ block ++ after) transactionId pre.length = after := by
  have hafter : (after.dropWhile fun pair => pair.1 == transactionId) = after := by
    cases after with
    | nil => rfl
    | cons pair rest => simp [(hs.after_gt pair List.mem_cons_self).ne']
  simp only [afterTransferBlock, List.append_assoc, List.drop_left]
  rw [List.dropWhile_append_of_pos fun pair hpair => by simp [hs.block_eq pair hpair], hafter]

theorem take_eq : (pre ++ block ++ after).take pre.length = pre := by
  simp

/-- The transfers of the other transactions are those before and after the range. -/
theorem filter_ne_eq (hs : Shape transactionId pre block after) :
    (pre ++ block ++ after).filter (fun pair => pair.1 ≠ transactionId) = pre ++ after := by
  have hpre : (pre.filter fun pair => decide (pair.1 ≠ transactionId)) = pre :=
    List.filter_eq_self.mpr fun pair hpair => by simp [(hs.pre_lt pair hpair).ne]
  have hblock : (block.filter fun pair => decide (pair.1 ≠ transactionId)) = [] :=
    List.filter_eq_nil_iff.mpr fun pair hpair => by simp [hs.block_eq pair hpair]
  have hafter : (after.filter fun pair => decide (pair.1 ≠ transactionId)) = after :=
    List.filter_eq_self.mpr fun pair hpair => by simp [(hs.after_gt pair hpair).ne']
  simp only [List.filter_append, hpre, hblock, hafter, List.append_nil]

/-- Any range between sorted transfers before and after it keeps the vector sorted. -/
theorem pairwise (hs : Shape transactionId pre block after)
    (hpre : pre.Pairwise fun p q => p.1 ≤ q.1) (hafter : after.Pairwise fun p q => p.1 ≤ q.1) :
    (pre ++ block ++ after).Pairwise fun p q => p.1 ≤ q.1 := by
  have hblock : block.Pairwise fun p q => p.1 ≤ q.1 :=
    List.pairwise_of_forall_mem_list fun p hp q hq => by
      rw [hs.block_eq p hp, hs.block_eq q hq]
  refine List.pairwise_append.mpr ⟨List.pairwise_append.mpr ⟨hpre, hblock, ?_⟩, hafter, ?_⟩
  · intro p hp q hq
    exact (hs.pre_lt p hp).le.trans (hs.block_eq q hq).ge
  · intro p hp q hq
    rcases List.mem_append.mp hp with hp | hp
    · exact ((hs.pre_lt p hp).trans (hs.after_gt q hq)).le
    · exact (hs.block_eq p hp).le.trans (hs.after_gt q hq).le

end Shape

/-! ## The edits -/

section Edits

variable {transactionId : ℕ} {pre block after : WalletTransfers}

/-- `appendTransfer` puts the new transfer at the end of the range. -/
theorem appendTransfer_spec (hs : Shape transactionId pre block after) (address : String)
    (amount : ℤ) :
    RangeOf transactionId pre after
      (appendTransfer (pre ++ block ++ after) transactionId pre.length address amount)
      fun block' => (∀ Q, amountOf Q block' =
          amountOf Q block + if Q address (decide (0 < amount)) then amount else 0) ∧
        (amount ≠ 0 → NonZeroAmounts block → NonZeroAmounts block') := by
  -- `std::upper_bound` stops after the range: no id in it is larger, the first after it is
  have hblock : (block.findIdx fun pair => decide (transactionId < pair.1)) = block.length :=
    List.findIdx_eq_length.mpr fun pair hpair => by simp [hs.block_eq pair hpair]
  have hafter : (after.findIdx fun pair => decide (transactionId < pair.1)) = 0 := by
    cases after with
    | nil => rfl
    | cons pair rest => simp [List.findIdx_cons, hs.after_gt pair List.mem_cons_self]
  refine ⟨block ++ [(transactionId, ⟨.USUAL, address, amount⟩)], ?_, ?_, ?_, ?_⟩
  · simp only [appendTransfer, List.append_assoc, List.drop_left]
    rw [List.findIdx_append, hblock, if_neg (lt_irrefl _), hafter, zero_add, ← List.length_append,
      ← List.append_assoc, insertIdx_length_append]
    simp
  · intro pair hpair
    rcases List.mem_append.mp hpair with hpair | hpair
    · exact hs.block_eq pair hpair
    · simp only [List.mem_singleton] at hpair
      rw [hpair]
  · intro Q
    simp [amountOf_cons]
  · intro hamount hnonzero pair hpair
    rcases List.mem_append.mp hpair with hpair | hpair
    · exact hnonzero pair hpair
    · simp only [List.mem_singleton] at hpair
      rw [hpair]
      exact hamount

/-- `eraseTransfers` removes the transfers the predicate selects from every sum. -/
theorem eraseTransfers_spec (hs : Shape transactionId pre block after)
    (predicate : Bool → String → Bool) :
    RangeOf transactionId pre after
      (eraseTransfers (pre ++ block ++ after) transactionId pre.length predicate).2
      fun block' => (∀ Q, amountOf Q block' = amountOf (fun c o => Q c o && !predicate o c) block) ∧
        (NonZeroAmounts block → NonZeroAmounts block') := by
  refine ⟨block.filter fun pair => !predicate (decide (0 < pair.2.amount)) pair.2.address,
    ?_, ?_, ?_, ?_⟩
  · simp only [eraseTransfers, hs.transferBlock_eq, hs.afterTransferBlock_eq, Shape.take_eq]
  · exact fun pair hpair => hs.block_eq pair (List.mem_of_mem_filter hpair)
  · exact fun Q => amountOf_filter predicate block
  · exact fun hnonzero pair hpair => hnonzero pair (List.mem_of_mem_filter hpair)

/-- `adjustTransfer` leaves one transfer of `address` in the direction of `amount`, of that
amount. -/
theorem adjustTransfer_spec (hs : Shape transactionId pre block after) (address : String)
    (amount : ℤ) :
    RangeOf transactionId pre after
      (adjustTransfer (pre ++ block ++ after) transactionId pre.length address amount).2
      fun block' => (∀ Q, amountOf Q block' =
          amountOf (fun c o => Q c o && !sameClass address (decide (0 < amount)) c o) block +
            if Q address (decide (0 < amount)) then amount else 0) ∧
        (amount ≠ 0 → NonZeroAmounts block → NonZeroAmounts block') := by
  have hfound := adjustTransferLoop_found address amount false false block
  have hsum := amountOf_adjustTransferLoop address amount
  have hmem := mem_adjustTransferLoop address amount false false block
  -- the transfers the loop leaves keep their ids and have their own amounts or `amount`
  have hids : ∀ pair ∈ (adjustTransferLoop address amount false false block).2.2,
      pair.1 = transactionId := fun pair hpair => by
    obtain ⟨pair', hpair', hid, _⟩ := hmem pair hpair
    rw [hid, hs.block_eq pair' hpair']
  have hnonzero : amount ≠ 0 → NonZeroAmounts block →
      NonZeroAmounts (adjustTransferLoop address amount false false block).2.2 :=
    fun hamount hblock pair hpair => by
      obtain ⟨pair', hpair', _, hvalue⟩ := hmem pair hpair
      rcases hvalue with hvalue | hvalue
      · rw [hvalue]; exact hblock pair' hpair'
      · rw [hvalue]; exact hamount
  simp only [adjustTransfer, hs.transferBlock_eq, hs.afterTransferBlock_eq, Shape.take_eq]
  split
  · next hany =>
    -- a transfer of the class was found and took `amount`
    refine ⟨_, rfl, hids, fun Q => ?_, hnonzero⟩
    rw [hsum Q false false]
    simp only [hfound, Bool.false_or] at hany
    simp [hany]
  · next hany =>
    -- none was found: the new transfer closes the range
    refine ⟨(adjustTransferLoop address amount false false block).2.2 ++
      [(transactionId, ⟨.USUAL, address, amount⟩)], by simp, ?_, fun Q => ?_, ?_⟩
    · intro pair hpair
      rcases List.mem_append.mp hpair with hpair | hpair
      · exact hids pair hpair
      · simp only [List.mem_singleton] at hpair
        rw [hpair]
    · simp only [hfound, Bool.false_or, Bool.not_eq_true] at hany
      rw [amountOf_append, hsum Q false false]
      simp [amountOf_cons, hany]
    · intro hamount hblock pair hpair
      rcases List.mem_append.mp hpair with hpair | hpair
      · exact hnonzero hamount hblock pair hpair
      · simp only [List.mem_singleton] at hpair
        rw [hpair]
        exact hamount

/-- A non-zero amount of the sign of a direction lies in that direction. -/
theorem decide_pos_eq {isOutput : Bool} {amount : ℤ}
    (hsign : if isOutput then 0 ≤ amount else amount ≤ 0) (hamount : amount ≠ 0) :
    decide (0 < amount) = isOutput := by
  cases isOutput
  · simp only [Bool.false_eq_true, if_false] at hsign
    simp only [decide_eq_false_iff_not, not_lt]
    exact hsign
  · simp only [if_true] at hsign
    simp only [decide_eq_true_eq]
    omega

/-- `updateAddressTransfers` from the amount the transaction has for an address in a direction
leaves it the target amount there, and every other class as it was. -/
theorem updateAddressTransfers_spec (hs : Shape transactionId pre block after) (address : String)
    (isOutput : Bool) (targetAmount : ℤ)
    (hsign : if isOutput then 0 ≤ targetAmount else targetAmount ≤ 0) :
    RangeOf transactionId pre after
      (updateAddressTransfers (pre ++ block ++ after) transactionId pre.length address
        (amountOf (sameClass address isOutput) block) targetAmount).2
      fun block' => (∀ Q, amountOf Q block' =
          amountOf (fun c o => Q c o && !sameClass address isOutput c o) block +
            if Q address isOutput then targetAmount else 0) ∧
        (NonZeroAmounts block → NonZeroAmounts block') := by
  set knownAmount := amountOf (sameClass address isOutput) block with hknown
  -- the sums of the block, with the class of `address` taken out
  have hsplit : ∀ Q, amountOf Q block =
      amountOf (fun c o => Q c o && !sameClass address isOutput c o) block +
        if Q address isOutput then knownAmount else 0 := fun Q => by
    rw [amountOf_split (sameClass address isOutput), amountOf_and_sameClass, add_comm]
  -- the known amount has the sign of its direction
  have hknownSign : if isOutput then 0 ≤ knownAmount else knownAmount ≤ 0 := by
    cases isOutput
    · exact amountOf_nonpos (fun c => by simp [sameClass]) block
    · exact amountOf_nonneg (fun c => by simp [sameClass]) block
  unfold updateAddressTransfers
  split
  · next hne =>
    split
    · next hzero =>
      -- nothing known: a new transfer of the target amount
      have hdirection := decide_pos_eq hsign (fun h => hne (hzero.trans h.symm))
      obtain ⟨block', heq, hids, hsum, hnonzero⟩ :=
        appendTransfer_spec hs address targetAmount
      refine ⟨block', heq, hids, fun Q => ?_, hnonzero (fun h => hne (hzero.trans h.symm))⟩
      rw [hsum Q, hsplit Q, hdirection, hzero]
      simp
    · next hzero =>
      split
      · next htarget =>
        -- a target of zero: the class is erased
        have hdirection := decide_pos_eq hknownSign hzero
        obtain ⟨block', heq, hids, hsum, hnonzero⟩ := eraseTransfers_spec hs
          fun isOutput' transferAddress =>
            decide (0 < knownAmount) == isOutput' && address == transferAddress
        refine ⟨block', heq, hids, fun Q => ?_, hnonzero⟩
        rw [hsum Q, htarget, hdirection]
        simp only [ite_self, add_zero]
        refine amountOf_congr (fun c o => ?_) block
        by_cases hc : c = address
        · subst hc
          cases o <;> cases isOutput <;> simp [sameClass]
        · have hc' : (address == c) = false := beq_eq_false_iff_ne.mpr (Ne.symm hc)
          have hc'' : (c == address) = false := beq_eq_false_iff_ne.mpr hc
          cases o <;> cases isOutput <;> simp [sameClass, hc', hc'']
      · next htarget =>
        -- both non-zero: the first transfer of the class takes the target
        have hdirection := decide_pos_eq hsign htarget
        obtain ⟨block', heq, hids, hsum, hnonzero⟩ := adjustTransfer_spec hs address targetAmount
        refine ⟨block', heq, hids, fun Q => ?_, hnonzero htarget⟩
        rw [hsum Q, hdirection]
  · next heq =>
    -- the class already holds the target
    refine ⟨block, rfl, hs.block_eq, fun Q => ?_, id⟩
    rw [hsplit Q, not_not.mp heq]

end Edits

/-! ## The map of known transfers -/

section KnownTransfers

theorem get_knownTransfersStep (result : TransfersMap) (pair : TransactionTransferPair)
    {address : String} (haddress : address ≠ "") :
    ((knownTransfersStep result pair).get address).input =
        (result.get address).input + amountOf (sameClass address false) [pair] ∧
      ((knownTransfersStep result pair).get address).output =
        (result.get address).output + amountOf (sameClass address true) [pair] := by
  obtain ⟨id, transfer⟩ := pair
  simp only [knownTransfersStep, amountOf_cons, amountOf_nil, add_zero, sameClass]
  by_cases hempty : transfer.address.isEmpty = true
  · -- an empty address is not `address`
    have hne : transfer.address ≠ address := fun h =>
      haddress (h ▸ String.isEmpty_iff.mp hempty)
    simp [hempty, hne]
  · simp only [Bool.not_eq_true] at hempty
    by_cases haddr : address = transfer.address
    · subst haddr
      by_cases hneg : transfer.amount < 0
      · have hnotpos : ¬0 < transfer.amount := by omega
        simp [hempty, hneg, hnotpos, DefaultMap.get_modify]
      · by_cases hpos : 0 < transfer.amount
        · simp [hempty, hneg, hpos, DefaultMap.get_modify]
        · have hzero : transfer.amount = 0 := by omega
          simp [hempty, hzero, DefaultMap.get_modify]
    · simp only [hempty, Bool.not_false, if_true]
      split <;> simp [DefaultMap.get_modify, haddr, Ne.symm haddr]

theorem sum_knownTransfersStep (result : TransfersMap) (pair : TransactionTransferPair) :
    ((knownTransfersStep result pair).map fun entry => entry.2.input).sum =
        (result.map fun entry => entry.2.input).sum +
          amountOf (fun c o => !c.isEmpty && !o) [pair] ∧
      ((knownTransfersStep result pair).map fun entry => entry.2.output).sum =
        (result.map fun entry => entry.2.output).sum +
          amountOf (fun c o => !c.isEmpty && o) [pair] := by
  obtain ⟨id, transfer⟩ := pair
  simp only [knownTransfersStep, amountOf_cons, amountOf_nil, add_zero]
  by_cases hempty : transfer.address.isEmpty = true
  · simp [hempty]
  · simp only [Bool.not_eq_true] at hempty
    by_cases hneg : transfer.amount < 0
    · have hnotpos : ¬0 < transfer.amount := by omega
      simp only [hempty, Bool.not_false, if_true, hneg, hnotpos, decide_false, Bool.not_false,
        Bool.and_self, Bool.and_false, Bool.false_eq_true, if_false, add_zero]
      refine ⟨?_, ?_⟩
      · rw [DefaultMap.sum_modify _ _ _ rfl]
        dsimp only
        omega
      · rw [DefaultMap.sum_modify _ _ _ rfl]
        dsimp only
        omega
    · simp only [hempty, Bool.not_false, if_true, hneg, if_false]
      refine ⟨?_, ?_⟩
      · rw [DefaultMap.sum_modify _ _ _ rfl]
        by_cases hpos : 0 < transfer.amount
        · simp [hpos]
        · have hzero : transfer.amount = 0 := by omega
          simp [hzero]
      · rw [DefaultMap.sum_modify _ _ _ rfl]
        by_cases hpos : 0 < transfer.amount
        · simp [hpos]
        · have hzero : transfer.amount = 0 := by omega
          simp [hzero]

/-- The map of a range holds, for each non-empty address, the sums of its inputs and outputs,
and its entries sum to those of all non-empty addresses. -/
theorem foldl_knownTransfersStep (block : WalletTransfers) (result : TransfersMap) :
    (∀ address, address ≠ "" →
      ((block.foldl knownTransfersStep result).get address).input =
          (result.get address).input + amountOf (sameClass address false) block ∧
        ((block.foldl knownTransfersStep result).get address).output =
          (result.get address).output + amountOf (sameClass address true) block) ∧
      ((block.foldl knownTransfersStep result).map fun entry => entry.2.input).sum =
        (result.map fun entry => entry.2.input).sum +
          amountOf (fun c o => !c.isEmpty && !o) block ∧
      ((block.foldl knownTransfersStep result).map fun entry => entry.2.output).sum =
        (result.map fun entry => entry.2.output).sum +
          amountOf (fun c o => !c.isEmpty && o) block := by
  induction block generalizing result with
  | nil => simp
  | cons pair block ih =>
    -- the first transfer, then the rest of the range
    have hcons : ∀ Q, amountOf Q (pair :: block) = amountOf Q [pair] + amountOf Q block :=
      fun Q => amountOf_append [pair] block
    obtain ⟨hget, hinputs, houtputs⟩ := ih (knownTransfersStep result pair)
    obtain ⟨hstepInputs, hstepOutputs⟩ := sum_knownTransfersStep result pair
    refine ⟨fun address haddress => ?_, ?_, ?_⟩
    · obtain ⟨hinput, houtput⟩ := hget address haddress
      obtain ⟨hstepInput, hstepOutput⟩ := get_knownTransfersStep result pair haddress
      simp only [List.foldl_cons, hinput, houtput, hstepInput, hstepOutput, hcons]
      omega
    · simp only [List.foldl_cons, hinputs, hstepInputs, hcons]
      omega
    · simp only [List.foldl_cons, houtputs, hstepOutputs, hcons]
      omega

theorem getKnownTransfersMap_spec {transactionId : ℕ} {pre block after : WalletTransfers}
    (hs : Shape transactionId pre block after) :
    (∀ address, address ≠ "" →
      ((getKnownTransfersMap (pre ++ block ++ after) transactionId pre.length).get address).input =
          amountOf (sameClass address false) block ∧
        ((getKnownTransfersMap (pre ++ block ++ after) transactionId pre.length).get
            address).output = amountOf (sameClass address true) block) ∧
      ((getKnownTransfersMap (pre ++ block ++ after) transactionId pre.length).map
          fun entry => entry.2.input).sum = amountOf (fun c o => !c.isEmpty && !o) block ∧
      ((getKnownTransfersMap (pre ++ block ++ after) transactionId pre.length).map
          fun entry => entry.2.output).sum = amountOf (fun c o => !c.isEmpty && o) block := by
  obtain ⟨hget, hinputs, houtputs⟩ := foldl_knownTransfersStep block []
  have hdefault : (default : AddressAmounts) = {} := rfl
  simp only [getKnownTransfersMap, hs.transferBlock_eq]
  refine ⟨fun address haddress => ?_, by simpa using hinputs, by simpa using houtputs⟩
  obtain ⟨hinput, houtput⟩ := hget address haddress
  exact ⟨by simpa [DefaultMap.get, hdefault] using hinput,
    by simpa [DefaultMap.get, hdefault] using houtput⟩

end KnownTransfers

/-! ## Balancing on the unknown transfer

Each branch of `updateUnknownTransfers` erases, in one direction, the transfers of the addresses
a test `R` selects (the foreign ones, or only the empty address) and then puts `x` on the
empty address. One lemma says what that does to the direction's total and to each class. -/

section Unknown

variable {transactionId : ℕ} {pre block after : WalletTransfers}

theorem isEmpty_eq_beq (c : String) : c.isEmpty = (c == "") := by
  by_cases hc : c = ""
  · simp [hc]
  · have hne : c.isEmpty = false := by
      rw [← Bool.not_eq_true, String.isEmpty_iff]
      exact hc
    simp [hne, hc]

/-- A range whose direction `isOutput` lost the addresses `R` selects and gained `x` on the empty
address has the direction's total `total`, the other direction unchanged, and every non-empty
address that `R` keeps unchanged. -/
theorem balance_of_sums {block' : WalletTransfers} (isOutput : Bool) (R : String → Bool)
    (x total : ℤ)
    (hsums : ∀ Q, amountOf Q block' =
      amountOf (fun c o => Q c o && !(o == isOutput && R c)) block + if Q "" isOutput then x else 0)
    (htotal : amountOf (fun c o => !R c && o == isOutput) block + x = total) :
    amountOf (fun _ o => o == isOutput) block' = total ∧
      (∀ Q, (∀ c, Q c isOutput = false) → amountOf Q block' = amountOf Q block) ∧
      (∀ c, c ≠ "" → (R c = false ∨ amountOf (sameClass c isOutput) block = 0) →
        amountOf (sameClass c isOutput) block' = amountOf (sameClass c isOutput) block) := by
  refine ⟨?_, fun Q hQ => ?_, fun c hc hkept => ?_⟩
  · -- the direction's total: what `R` keeps, and `x`
    rw [hsums, beq_self_eq_true, if_pos rfl, ← htotal]
    congr 1
    refine amountOf_congr (fun c o => ?_) block
    cases o <;> cases isOutput <;> cases R c <;> rfl
  · -- the other direction: nothing erased, nothing added
    simp only [hsums, hQ, Bool.false_eq_true, if_false, add_zero]
    refine amountOf_congr (fun c o => ?_) block
    by_cases ho : o = isOutput
    · subst ho
      simp [hQ]
    · have ho' : (o == isOutput) = false := beq_eq_false_iff_ne.mpr ho
      simp [ho']
  · -- a non-empty address that `R` keeps, or whose class is empty
    have hclass : sameClass c isOutput "" isOutput = false := by
      simp [sameClass, Ne.symm hc]
    simp only [hsums, hclass, Bool.false_eq_true, if_false, add_zero]
    by_cases hkeep : R c = false
    · -- `R` keeps the address: its class is untouched
      refine amountOf_congr (fun c' o => ?_) block
      by_cases hc' : c' = c
      · subst hc'
        simp [hkeep]
      · simp [sameClass, hc']
    · -- `R` erases it, so its class was empty
      have hzero := hkept.resolve_left hkeep
      rw [hzero]
      refine amountOf_of_forall_false (fun c' o => ?_) block
      by_cases hc' : c' = c
      · subst hc'
        simp only [Bool.not_eq_false] at hkeep
        cases o <;> cases isOutput <;> simp [sameClass, hkeep]
      · simp [sameClass, hc']

/-- `updateUnknownTransfers` in the direction `isOutput`, from the wallet's amount `myAmount` of
its addresses `myAddresses` and the amount known for all non-empty addresses, brings the
direction's total to `totalAmount`. It leaves the other direction, and each wallet address or
empty class, as they were. -/
theorem updateUnknownTransfers_spec (hs : Shape transactionId pre block after)
    (myAddresses : List String) (hmine : "" ∉ myAddresses) (isOutput : Bool)
    (myAmount totalAmount : ℤ)
    (hmy : amountOf (fun c o => decide (c ∈ myAddresses) && o == isOutput) block = myAmount)
    (hbound : if isOutput then myAmount ≤ totalAmount ∧ 0 ≤ totalAmount
      else totalAmount ≤ myAmount ∧ totalAmount ≤ 0) :
    RangeOf transactionId pre after
      (updateUnknownTransfers (pre ++ block ++ after) transactionId pre.length myAddresses
        (amountOf (fun c o => !c.isEmpty && o == isOutput) block) myAmount totalAmount isOutput).2
      fun block' => (amountOf (fun _ o => o == isOutput) block' = totalAmount ∧
        (∀ Q, (∀ c, Q c isOutput = false) → amountOf Q block' = amountOf Q block) ∧
        (∀ c, c ≠ "" → (c ∈ myAddresses ∨ amountOf (sameClass c isOutput) block = 0) →
          amountOf (sameClass c isOutput) block' = amountOf (sameClass c isOutput) block)) ∧
        (NonZeroAmounts block → NonZeroAmounts block') := by
  set knownAmount := amountOf (fun c o => !c.isEmpty && o == isOutput) block with hknown
  have hknownSign : if isOutput then 0 ≤ knownAmount else knownAmount ≤ 0 := by
    cases isOutput
    · exact amountOf_nonpos (fun c => by simp) block
    · exact amountOf_nonneg (fun c => by simp) block
  -- the erased test of the foreign branch keeps exactly the wallet's addresses
  have hforeign : ∀ c o, (isOutput == o && myAddresses.count c == 0) =
      (o == isOutput && decide (c ∉ myAddresses)) := fun c o => by
    by_cases hc : c ∈ myAddresses
    · have hcount : myAddresses.count c ≠ 0 := (List.count_pos_iff.mpr hc).ne'
      cases o <;> cases isOutput <;> simp [hc, hcount]
    · cases o <;> cases isOutput <;> simp [hc, List.count_eq_zero.mpr hc]
  have hempty : decide ("" ∉ myAddresses) = true := decide_eq_true hmine
  -- the known amount is the sum over the non-empty addresses
  have hknownTotal : amountOf (fun c o => !(c == "") && o == isOutput) block = knownAmount :=
    amountOf_congr (fun c o => by rw [isEmpty_eq_beq]) block
  have hmyTotal : amountOf (fun c o => !decide (c ∉ myAddresses) && o == isOutput) block =
      myAmount := by
    rw [← hmy]
    exact amountOf_congr (fun c o => by simp) block
  -- the empty address is in no class the wallet's addresses name
  have hemptyClass : ∀ c, (c == "") = true → decide (c ∉ myAddresses) = true := fun c hc => by
    rw [beq_iff_eq] at hc
    subst hc
    exact hempty
  simp only [updateUnknownTransfers, eraseForeignTransfers, eraseTransfersByAddress]
  split
  · next habs =>
    -- more known than the total: erase the foreign transfers, then balance the rest
    obtain ⟨block1, heq1, hs1, hsum1, hnonzero1⟩ := hs.of_rangeOf (eraseTransfers_spec hs
      fun isOutput' transferAddress =>
        isOutput == isOutput' && myAddresses.count transferAddress == 0)
    have hkept : ∀ c, c ∈ myAddresses ∨ amountOf (sameClass c isOutput) block = 0 →
        decide (c ∉ myAddresses) = false ∨ amountOf (sameClass c isOutput) block = 0 :=
      fun c hc => hc.imp_left fun h => by simpa using h
    rw [heq1]
    split
    · next hmine' =>
      -- the wallet's addresses account for the total: the unknown transfer goes
      obtain ⟨block2, heq2, hids2, hsum2, hnonzero2⟩ := eraseTransfers_spec hs1
        fun isOutput' transferAddress => isOutput == isOutput' && "" == transferAddress
      have hsums : ∀ Q, amountOf Q block2 = amountOf (fun c o =>
          Q c o && !(o == isOutput && decide (c ∉ myAddresses))) block +
            if Q "" isOutput then 0 else 0 := fun Q => by
        rw [hsum2, hsum1, ite_self, add_zero]
        refine amountOf_congr (fun c o => ?_) block
        rw [hforeign]
        by_cases hc : c = ""
        · subst hc
          cases o <;> cases isOutput <;> simp [hmine]
        · have hc' : ("" == c) = false := beq_eq_false_iff_ne.mpr (Ne.symm hc)
          simp [hc']
      obtain ⟨htotal, hother, hlisted⟩ :=
        balance_of_sums isOutput (fun c => decide (c ∉ myAddresses)) 0 totalAmount hsums
          (by rw [hmyTotal, hmine', add_zero])
      exact ⟨block2, heq2, hids2, ⟨htotal, hother, fun c hc h => hlisted c hc (hkept c h)⟩,
        fun h => hnonzero2 (hnonzero1 h)⟩
    · next hmine' =>
      -- the rest of the total goes on the unknown transfer
      have hdirection : decide (0 < totalAmount - myAmount) = isOutput := by
        refine decide_pos_eq ?_ (by omega)
        cases isOutput <;> simp only [Bool.false_eq_true, if_false, if_true] at hbound ⊢ <;> omega
      obtain ⟨block2, heq2, hids2, hsum2, hnonzero2⟩ :=
        adjustTransfer_spec hs1 "" (totalAmount - myAmount)
      have hsums : ∀ Q, amountOf Q block2 = amountOf (fun c o =>
          Q c o && !(o == isOutput && decide (c ∉ myAddresses))) block +
            if Q "" isOutput then totalAmount - myAmount else 0 := fun Q => by
        rw [hsum2, hdirection, hsum1]
        congr 1
        refine amountOf_congr (fun c o => ?_) block
        rw [hforeign]
        by_cases hc : c = ""
        · subst hc
          cases o <;> cases isOutput <;> simp [sameClass, hmine]
        · have hc' : (c == "") = false := beq_eq_false_iff_ne.mpr hc
          simp [sameClass, hc']
      obtain ⟨htotal, hother, hlisted⟩ :=
        balance_of_sums isOutput (fun c => decide (c ∉ myAddresses)) (totalAmount - myAmount)
          totalAmount hsums (by rw [hmyTotal]; omega)
      exact ⟨block2, heq2, hids2, ⟨htotal, hother, fun c hc h => hlisted c hc (hkept c h)⟩,
        fun h => hnonzero2 (by omega) (hnonzero1 h)⟩
  · next habs =>
    -- the known part is in: only the unknown transfer changes
    have hunknown : ∀ c, c ≠ "" → ((fun c => c == "") c) = false := fun c hc =>
      beq_eq_false_iff_ne.mpr hc
    split
    · next hknownEq =>
      obtain ⟨block1, heq1, hids1, hsum1, hnonzero1⟩ := eraseTransfers_spec hs
        fun isOutput' transferAddress => isOutput == isOutput' && "" == transferAddress
      have hsums : ∀ Q, amountOf Q block1 = amountOf (fun c o =>
          Q c o && !(o == isOutput && c == "")) block + if Q "" isOutput then 0 else 0 :=
        fun Q => by
          rw [hsum1, ite_self, add_zero]
          refine amountOf_congr (fun c o => ?_) block
          by_cases hc : c = ""
          · subst hc
            cases o <;> cases isOutput <;> simp
          · have hc' : ("" == c) = false := beq_eq_false_iff_ne.mpr (Ne.symm hc)
            have hc'' : (c == "") = false := beq_eq_false_iff_ne.mpr hc
            simp [hc', hc'']
      obtain ⟨htotal, hother, hlisted⟩ :=
        balance_of_sums isOutput (fun c => c == "") 0 totalAmount hsums
          (by rw [hknownTotal, hknownEq, add_zero])
      exact ⟨block1, heq1, hids1,
        ⟨htotal, hother, fun c hc _ => hlisted c hc (Or.inl (hunknown c hc))⟩, hnonzero1⟩
    · next hknownEq =>
      have hdirection : decide (0 < totalAmount - knownAmount) = isOutput := by
        refine decide_pos_eq ?_ (by omega)
        cases isOutput <;> simp only [Bool.false_eq_true, if_false, if_true] at hbound hknownSign ⊢ <;>
          omega
      obtain ⟨block1, heq1, hids1, hsum1, hnonzero1⟩ :=
        adjustTransfer_spec hs "" (totalAmount - knownAmount)
      have hsums : ∀ Q, amountOf Q block1 = amountOf (fun c o =>
          Q c o && !(o == isOutput && c == "")) block +
            if Q "" isOutput then totalAmount - knownAmount else 0 := fun Q => by
        rw [hsum1, hdirection]
        congr 1
        refine amountOf_congr (fun c o => ?_) block
        simp only [sameClass, Bool.and_comm]
      obtain ⟨htotal, hother, hlisted⟩ :=
        balance_of_sums isOutput (fun c => c == "") (totalAmount - knownAmount) totalAmount hsums
          (by rw [hknownTotal]; omega)
      exact ⟨block1, heq1, hids1,
        ⟨htotal, hother, fun c hc _ => hlisted c hc (Or.inl (hunknown c hc))⟩,
        hnonzero1 (by omega)⟩

end Unknown

/-! ## The loop over the containers

After the loop has handled the containers `done`, the range holds, in every class, what it
held before outside their addresses, and their amounts on their addresses. -/

section Containers

variable {κ : Type} (addressOf : κ → String)

/-- The amounts the containers `done` give their addresses, in the classes `Q` selects. -/
def listedAmount (Q : String → Bool → Bool) (done : List (ContainerAmounts κ)) : ℤ :=
  (done.map fun containerAmount =>
    (if Q (addressOf containerAmount.container) false then containerAmount.amounts.input else 0) +
      (if Q (addressOf containerAmount.container) true then containerAmount.amounts.output
        else 0)).sum

/-- What the loop over the containers keeps: the range as described, the wallet's amounts, and
the wallet's addresses with a non-zero amount in each direction. -/
structure ContainersDone (transactionId : ℕ) (pre block after : WalletTransfers)
    (done : List (ContainerAmounts κ)) (s : UpdateTransfersState) : Prop where
  transfers : RangeOf transactionId pre after s.transfers fun block' =>
    (∀ Q, amountOf Q block' = amountOf (fun c o => Q c o &&
      !decide (c ∈ done.map fun containerAmount => addressOf containerAmount.container)) block +
        listedAmount addressOf Q done) ∧
      (NonZeroAmounts block → NonZeroAmounts block')
  inputsAmount : s.myInputsAmount = (done.map fun containerAmount => containerAmount.amounts.input).sum
  outputsAmount :
    s.myOutputsAmount = (done.map fun containerAmount => containerAmount.amounts.output).sum
  inputAddresses : ∀ c, c ∈ s.myInputAddresses ↔
    ∃ containerAmount ∈ done, addressOf containerAmount.container = c ∧
      containerAmount.amounts.input ≠ 0
  outputAddresses : ∀ c, c ∈ s.myOutputAddresses ↔
    ∃ containerAmount ∈ done, addressOf containerAmount.container = c ∧
      containerAmount.amounts.output ≠ 0

variable {addressOf}

theorem listedAmount_append (Q : String → Bool → Bool) (done : List (ContainerAmounts κ))
    (containerAmount : ContainerAmounts κ) :
    listedAmount addressOf Q (done ++ [containerAmount]) = listedAmount addressOf Q done +
      ((if Q (addressOf containerAmount.container) false then containerAmount.amounts.input
        else 0) +
        (if Q (addressOf containerAmount.container) true then containerAmount.amounts.output
          else 0)) := by
  simp [listedAmount]

theorem listedAmount_congr {Q R : String → Bool → Bool} {done : List (ContainerAmounts κ)}
    (h : ∀ containerAmount ∈ done, ∀ o,
      Q (addressOf containerAmount.container) o = R (addressOf containerAmount.container) o) :
    listedAmount addressOf Q done = listedAmount addressOf R done := by
  unfold listedAmount
  congr 1
  refine List.map_congr_left fun containerAmount hmem => ?_
  rw [h containerAmount hmem false, h containerAmount hmem true]

/-- With distinct addresses, a container's class holds its own amount. -/
theorem listedAmount_sameClass {done : List (ContainerAmounts κ)}
    (hdistinct : (done.map fun containerAmount => addressOf containerAmount.container).Nodup)
    {containerAmount : ContainerAmounts κ} (hmem : containerAmount ∈ done) (isOutput : Bool) :
    listedAmount addressOf (sameClass (addressOf containerAmount.container) isOutput) done =
      if isOutput then containerAmount.amounts.output else containerAmount.amounts.input := by
  induction done with
  | nil => simp at hmem
  | cons head done ih =>
    simp only [List.map_cons, List.nodup_cons, List.mem_map, not_exists, not_and] at hdistinct
    have hsum : ∀ Q, listedAmount addressOf Q (head :: done) =
        ((if Q (addressOf head.container) false then head.amounts.input else 0) +
          (if Q (addressOf head.container) true then head.amounts.output else 0)) +
            listedAmount addressOf Q done := fun Q => by
      simp [listedAmount]
    rw [hsum]
    rcases List.mem_cons.mp hmem with rfl | hmem
    · -- the container itself: no other one shares its address
      have hrest : listedAmount addressOf
          (sameClass (addressOf containerAmount.container) isOutput) done = 0 := by
        unfold listedAmount
        refine List.sum_eq_zero fun x hx => ?_
        obtain ⟨other, hother, rfl⟩ := List.mem_map.mp hx
        have hne : addressOf other.container ≠ addressOf containerAmount.container :=
          fun h => hdistinct.1 other hother h
        simp [sameClass, hne]
      cases isOutput <;> simp [sameClass, hrest]
    · -- another container: the head's address is not its own
      have hne : addressOf head.container ≠ addressOf containerAmount.container :=
        fun h => hdistinct.1 containerAmount hmem h.symm
      rw [ih hdistinct.2 hmem]
      simp [sameClass, hne]

variable {transactionId : ℕ} {pre block after : WalletTransfers}

theorem ContainersDone.init (hs : Shape transactionId pre block after) :
    ContainersDone addressOf transactionId pre block after []
      ⟨false, pre ++ block ++ after, [], [], 0, 0⟩ where
  transfers := ⟨block, rfl, hs.block_eq, fun Q => by simp [listedAmount], id⟩
  inputsAmount := rfl
  outputsAmount := rfl
  inputAddresses := by simp
  outputAddresses := by simp

/-- The set of wallet addresses with a non-zero amount after one more container. -/
theorem mem_insert_of_ne_zero {done : List (ContainerAmounts κ)} {addresses : List String}
    (amount : ContainerAmounts κ → ℤ)
    (h : ∀ c, c ∈ addresses ↔ ∃ containerAmount ∈ done,
      addressOf containerAmount.container = c ∧ amount containerAmount ≠ 0)
    (containerAmount : ContainerAmounts κ) (c : String) :
    c ∈ (if amount containerAmount ≠ 0 then addresses.insert (addressOf containerAmount.container)
      else addresses) ↔
      ∃ other ∈ done ++ [containerAmount], addressOf other.container = c ∧ amount other ≠ 0 := by
  simp only [List.mem_append, List.mem_singleton]
  split
  · next hne =>
    rw [List.mem_insert_iff, h]
    constructor
    · rintro (rfl | ⟨other, hother, hc, hne'⟩)
      · exact ⟨containerAmount, Or.inr rfl, rfl, hne⟩
      · exact ⟨other, Or.inl hother, hc, hne'⟩
    · rintro ⟨other, hother | rfl, hc, hne'⟩
      · exact Or.inr ⟨other, hother, hc, hne'⟩
      · exact Or.inl hc.symm
  · next hzero =>
    rw [h]
    constructor
    · rintro ⟨other, hother, hc, hne'⟩
      exact ⟨other, Or.inl hother, hc, hne'⟩
    · rintro ⟨other, hother | rfl, hc, hne'⟩
      · exact ⟨other, hother, hc, hne'⟩
      · exact absurd hne' hzero

/-- One round of the loop: the container's address gets its amounts in both directions. -/
theorem ContainersDone.step {done : List (ContainerAmounts κ)} {s : UpdateTransfersState}
    (hs : Shape transactionId pre block after)
    (h : ContainersDone addressOf transactionId pre block after done s)
    (containerAmount : ContainerAmounts κ)
    (hfresh : addressOf containerAmount.container ∉
      done.map fun containerAmount => addressOf containerAmount.container)
    (haddress : addressOf containerAmount.container ≠ "")
    (hsign : containerAmount.amounts.input ≤ 0 ∧ 0 ≤ containerAmount.amounts.output) :
    ContainersDone addressOf transactionId pre block after (done ++ [containerAmount])
      (updateContainerTransfers addressOf transactionId pre.length
        (getKnownTransfersMap (pre ++ block ++ after) transactionId pre.length) s
        containerAmount) := by
  set address := addressOf containerAmount.container with haddressDef
  obtain ⟨block1, heq1, hs1, hsum1, hnonzero1⟩ := hs.of_rangeOf h.transfers
  obtain ⟨hknown, -, -⟩ := getKnownTransfersMap_spec hs
  -- the containers before have other addresses, so the class of `address` is as it was
  have hclass : ∀ o, amountOf (sameClass address o) block1 = amountOf (sameClass address o) block :=
    fun o => by
      rw [hsum1, listedAmount_congr (R := fun _ _ => false) (fun other hother o' => ?_)]
      · have hlisted : listedAmount addressOf (fun _ _ => false) done = 0 := by
          simp [listedAmount]
        rw [hlisted, add_zero]
        refine amountOf_congr (fun c o' => ?_) block
        by_cases hc : c = address
        · subst hc
          simp [hfresh]
        · simp [sameClass, hc]
      · have hne : addressOf other.container ≠ address := fun heq =>
          hfresh (heq ▸ List.mem_map_of_mem hother)
        simp [sameClass, hne]
  have hinput : (getKnownTransfersMap (pre ++ block ++ after) transactionId pre.length
      |>.get address).input = amountOf (sameClass address false) block1 := by
    rw [hclass, (hknown address haddress).1]
  -- the inputs of `address`
  obtain ⟨block2, heq2, hs2, hsum2, hnonzero2⟩ := hs1.of_rangeOf
    (updateAddressTransfers_spec hs1 address false containerAmount.amounts.input
      (by simpa using hsign.1))
  have houtput : (getKnownTransfersMap (pre ++ block ++ after) transactionId pre.length
      |>.get address).output = amountOf (sameClass address true) block2 := by
    rw [hsum2, (hknown address haddress).2, ← hclass true]
    simp only [sameClass, beq_self_eq_true, Bool.true_and, show (false == true) = false from rfl,
      Bool.false_eq_true, if_false, add_zero]
    refine amountOf_congr (fun c o => ?_) block1
    cases o <;> simp [sameClass]
  -- the outputs of `address`
  obtain ⟨block3, heq3, hids3, hsum3, hnonzero3⟩ :=
    updateAddressTransfers_spec hs2 address true containerAmount.amounts.output
      (by simpa using hsign.2)
  refine ⟨⟨block3, ?_, hids3, fun Q => ?_, fun hblock => hnonzero3 (hnonzero2 (hnonzero1 hblock))⟩,
    ?_, ?_, fun c => ?_, fun c => ?_⟩
  · simp only [updateContainerTransfers]
    rw [← haddressDef, heq1, hinput, heq2, houtput, heq3]
  · -- every sum: the containers before, then both classes of `address`
    have hP : (Q address false && !sameClass address true address false) = Q address false := by
      simp [sameClass]
    have hcongr : amountOf (fun c o => Q c o && !sameClass address true c o &&
        !sameClass address false c o &&
          !decide (c ∈ done.map fun containerAmount => addressOf containerAmount.container))
        block = amountOf (fun c o => Q c o && !decide (c ∈ (done ++ [containerAmount]).map
          fun containerAmount => addressOf containerAmount.container)) block := by
      refine amountOf_congr (fun c o => ?_) block
      by_cases hc : c = address
      · subst hc
        cases o <;> simp [sameClass, ← haddressDef]
      · have hc' : (c == address) = false := beq_eq_false_iff_ne.mpr hc
        simp [sameClass, hc', hc, ← haddressDef]
    have hlisted : listedAmount addressOf (fun c o => Q c o && !sameClass address true c o &&
        !sameClass address false c o) done = listedAmount addressOf Q done := by
      refine listedAmount_congr fun other hother o => ?_
      have hne : (addressOf other.container == address) = false := beq_eq_false_iff_ne.mpr
        fun heq => hfresh (heq ▸ List.mem_map_of_mem hother)
      simp [sameClass, hne]
    simp only [hsum3 Q, hsum2, hsum1, hP, listedAmount_append]
    rw [hcongr, hlisted, ← haddressDef]
    omega
  · simp [updateContainerTransfers, h.inputsAmount]
  · simp [updateContainerTransfers, h.outputsAmount]
  · exact mem_insert_of_ne_zero (fun containerAmount => containerAmount.amounts.input)
      h.inputAddresses containerAmount c
  · exact mem_insert_of_ne_zero (fun containerAmount => containerAmount.amounts.output)
      h.outputAddresses containerAmount c

/-- The whole loop, by induction on the containers still to handle. -/
theorem ContainersDone.foldl (hs : Shape transactionId pre block after) :
    ∀ (rest done : List (ContainerAmounts κ)) (s : UpdateTransfersState),
      ContainersDone addressOf transactionId pre block after done s →
      ((done ++ rest).map fun containerAmount => addressOf containerAmount.container).Nodup →
      (∀ containerAmount ∈ rest, addressOf containerAmount.container ≠ "") →
      (∀ containerAmount ∈ rest,
        containerAmount.amounts.input ≤ 0 ∧ 0 ≤ containerAmount.amounts.output) →
      ContainersDone addressOf transactionId pre block after (done ++ rest)
        (rest.foldl (updateContainerTransfers addressOf transactionId pre.length
          (getKnownTransfersMap (pre ++ block ++ after) transactionId pre.length)) s)
  | [], done, s, h, _, _, _ => by simpa using h
  | containerAmount :: rest, done, s, h, hdistinct, haddress, hsign => by
    have hfresh : addressOf containerAmount.container ∉
        done.map fun containerAmount => addressOf containerAmount.container := by
      rw [List.map_append, List.map_cons, List.nodup_append] at hdistinct
      exact fun hmem => hdistinct.2.2 _ hmem _ List.mem_cons_self rfl
    have hnext := h.step hs containerAmount hfresh (haddress _ List.mem_cons_self)
      (hsign _ List.mem_cons_self)
    have hrest := ContainersDone.foldl hs rest (done ++ [containerAmount]) _ hnext
      (by simpa using hdistinct) (fun c hc => haddress c (List.mem_cons_of_mem _ hc))
      (fun c hc => hsign c (List.mem_cons_of_mem _ hc))
    simpa using hrest

/-- After the loop, the class of a container's address holds the container's amount. -/
theorem amountOf_listed {done : List (ContainerAmounts κ)} {block1 : WalletTransfers}
    (hdistinct : (done.map fun containerAmount => addressOf containerAmount.container).Nodup)
    (hsum : ∀ Q, amountOf Q block1 = amountOf (fun c o => Q c o &&
      !decide (c ∈ done.map fun containerAmount => addressOf containerAmount.container)) block +
        listedAmount addressOf Q done)
    {containerAmount : ContainerAmounts κ} (hmem : containerAmount ∈ done) (isOutput : Bool) :
    amountOf (sameClass (addressOf containerAmount.container) isOutput) block1 =
      if isOutput then containerAmount.amounts.output else containerAmount.amounts.input := by
  rw [hsum, amountOf_of_forall_false (fun c o => ?_) block, zero_add,
    listedAmount_sameClass hdistinct hmem]
  by_cases hc : c = addressOf containerAmount.container
  · subst hc
    simp [List.mem_map_of_mem hmem]
  · simp [sameClass, hc]

/-- After the loop, the wallet's addresses with an amount in a direction sum to the wallet's
amount there. -/
theorem amountOf_mine {done : List (ContainerAmounts κ)} {block1 : WalletTransfers}
    (hsum : ∀ Q, amountOf Q block1 = amountOf (fun c o => Q c o &&
      !decide (c ∈ done.map fun containerAmount => addressOf containerAmount.container)) block +
        listedAmount addressOf Q done)
    (isOutput : Bool) {addresses : List String}
    (haddresses : ∀ c, c ∈ addresses ↔ ∃ containerAmount ∈ done,
      addressOf containerAmount.container = c ∧
        (if isOutput then containerAmount.amounts.output else containerAmount.amounts.input) ≠ 0) :
    amountOf (fun c o => decide (c ∈ addresses) && o == isOutput) block1 =
      (done.map fun containerAmount =>
        if isOutput then containerAmount.amounts.output else containerAmount.amounts.input).sum := by
  rw [hsum, amountOf_of_forall_false (fun c o => ?_) block, zero_add]
  · unfold listedAmount
    congr 1
    refine List.map_congr_left fun containerAmount hmem => ?_
    by_cases hc : addressOf containerAmount.container ∈ addresses
    · cases isOutput <;> simp [hc]
    · -- an address left out has no amount in that direction
      have hzero : (if isOutput then containerAmount.amounts.output
          else containerAmount.amounts.input) = 0 := by
        by_contra hne
        exact hc ((haddresses _).mpr ⟨containerAmount, hmem, rfl, hne⟩)
      cases isOutput <;> simp_all
  · by_cases hc : c ∈ addresses
    · obtain ⟨containerAmount, hmem, rfl, -⟩ := (haddresses c).mp hc
      simp [List.mem_map_of_mem hmem]
    · simp [hc]

/-- After the loop, an address of the list is in the wallet's addresses of a direction, or its
class there sums to zero. -/
theorem mem_or_amountOf_zero {done : List (ContainerAmounts κ)} {block1 : WalletTransfers}
    (hdistinct : (done.map fun containerAmount => addressOf containerAmount.container).Nodup)
    (hsum : ∀ Q, amountOf Q block1 = amountOf (fun c o => Q c o &&
      !decide (c ∈ done.map fun containerAmount => addressOf containerAmount.container)) block +
        listedAmount addressOf Q done)
    {containerAmount : ContainerAmounts κ} (hmem : containerAmount ∈ done) (isOutput : Bool)
    {addresses : List String}
    (haddresses : ∀ c, c ∈ addresses ↔ ∃ other ∈ done, addressOf other.container = c ∧
      (if isOutput then other.amounts.output else other.amounts.input) ≠ 0) :
    addressOf containerAmount.container ∈ addresses ∨
      amountOf (sameClass (addressOf containerAmount.container) isOutput) block1 = 0 := by
  by_cases hzero : (if isOutput then containerAmount.amounts.output
      else containerAmount.amounts.input) = 0
  · exact Or.inr ((amountOf_listed hdistinct hsum hmem isOutput).trans hzero)
  · exact Or.inl ((haddresses _).mpr ⟨containerAmount, hmem, rfl, hzero⟩)

/-- No address set of the loop holds the empty address when no container has it. -/
theorem empty_not_mem_addresses {done : List (ContainerAmounts κ)}
    {P : ContainerAmounts κ → Prop} {addresses : List String}
    (haddresses : ∀ c, c ∈ addresses ↔
      ∃ containerAmount ∈ done, addressOf containerAmount.container = c ∧ P containerAmount)
    (haddress : ∀ containerAmount ∈ done, addressOf containerAmount.container ≠ "") :
    "" ∉ addresses := fun hmem => by
  obtain ⟨containerAmount, hmem', hc, -⟩ := (haddresses "").mp hmem
  exact haddress containerAmount hmem' hc

end Containers

/-! ## The whole update on the range -/

section Update

variable {κ : Type} {addressOf : κ → String} {transactionId : ℕ} {pre block after : WalletTransfers}

/-- `updateTransactionTransfers` in the range of the transaction: the class of each container's
address ends with the container's amount, each direction with its total, and no edit writes a
zero amount. -/
theorem updateTransactionTransfers_spec (hs : Shape transactionId pre block after)
    (containerAmountsList : List (ContainerAmounts κ)) (allInputsAmount allOutputsAmount : ℤ)
    (hdistinct : (containerAmountsList.map fun containerAmount =>
      addressOf containerAmount.container).Nodup)
    (haddress : ∀ containerAmount ∈ containerAmountsList, addressOf containerAmount.container ≠ "")
    (hamounts : ∀ containerAmount ∈ containerAmountsList,
      containerAmount.amounts.input ≤ 0 ∧ 0 ≤ containerAmount.amounts.output)
    (hinputs : allInputsAmount ≤
      (containerAmountsList.map fun containerAmount => containerAmount.amounts.input).sum ∧
        allInputsAmount ≤ 0)
    (houtputs : (containerAmountsList.map fun containerAmount =>
      containerAmount.amounts.output).sum ≤ allOutputsAmount ∧ 0 ≤ allOutputsAmount) :
    RangeOf transactionId pre after
      (updateTransactionTransfers addressOf (pre ++ block ++ after) transactionId
        containerAmountsList allInputsAmount allOutputsAmount).2 fun block' =>
      (∀ containerAmount ∈ containerAmountsList, ∀ isOutput,
        amountOf (sameClass (addressOf containerAmount.container) isOutput) block' =
          if isOutput then containerAmount.amounts.output else containerAmount.amounts.input) ∧
        amountOf (fun _ o => o == false) block' = allInputsAmount ∧
        amountOf (fun _ o => o == true) block' = allOutputsAmount ∧
        (NonZeroAmounts block → NonZeroAmounts block') := by
  -- the loop over the containers
  have hone := @ContainersDone.foldl _ addressOf _ _ _ _ hs containerAmountsList [] _
    (ContainersDone.init hs) (by simpa using hdistinct) haddress hamounts
  simp only [List.nil_append] at hone
  set s := containerAmountsList.foldl (updateContainerTransfers addressOf transactionId pre.length
    (getKnownTransfersMap (pre ++ block ++ after) transactionId pre.length))
      ⟨false, pre ++ block ++ after, [], [], 0, 0⟩ with hsdef
  obtain ⟨block1, heq1, hs1, hsum1, hnonzero1⟩ := hs.of_rangeOf hone.transfers
  -- what the loop leaves: the wallet's amounts per direction, on addresses that are not empty
  have hmyIn : amountOf (fun c o => decide (c ∈ s.myInputAddresses) && o == false) block1 =
      s.myInputsAmount := by
    rw [hone.inputsAmount]
    simpa using amountOf_mine hsum1 false (by simpa using hone.inputAddresses)
  have hmyOut : amountOf (fun c o => decide (c ∈ s.myOutputAddresses) && o == true) block1 =
      s.myOutputsAmount := by
    rw [hone.outputsAmount]
    simpa using amountOf_mine hsum1 true (by simpa using hone.outputAddresses)
  have hmineIn := empty_not_mem_addresses hone.inputAddresses haddress
  have hmineOut := empty_not_mem_addresses hone.outputAddresses haddress
  -- the inputs balanced on the unknown transfer
  obtain ⟨-, hknownIn, hknownOut⟩ := getKnownTransfersMap_spec hs1
  obtain ⟨block2, heq2, hs2, ⟨htotal2, hother2, hlisted2⟩, hnonzero2⟩ := hs1.of_rangeOf
    (updateUnknownTransfers_spec hs1 s.myInputAddresses hmineIn false s.myInputsAmount
      allInputsAmount hmyIn (by simpa [hone.inputsAmount] using hinputs))
  -- then the outputs, which the inputs left as they were
  have hmyOut2 : amountOf (fun c o => decide (c ∈ s.myOutputAddresses) && o == true) block2 =
      s.myOutputsAmount := by
    rw [hother2 _ fun c => by simp]
    exact hmyOut
  obtain ⟨block3, heq3, hids3, ⟨htotal3, hother3, hlisted3⟩, hnonzero3⟩ :=
    updateUnknownTransfers_spec hs2 s.myOutputAddresses hmineOut true s.myOutputsAmount
      allOutputsAmount hmyOut2 (by simpa [hone.outputsAmount] using houtputs)
  have hresult : (updateTransactionTransfers addressOf (pre ++ block ++ after) transactionId
      containerAmountsList allInputsAmount allOutputsAmount).2 = pre ++ block3 ++ after := by
    have hknownIn' : ((getKnownTransfersMap s.transfers transactionId pre.length).map
        fun entry => entry.2.input).sum = amountOf (fun c o => !c.isEmpty && o == false) block1 := by
      rw [heq1, hknownIn]
      exact amountOf_congr (fun c o => by cases o <;> rfl) block1
    have hknownOut' : ((getKnownTransfersMap s.transfers transactionId pre.length).map
        fun entry => entry.2.output).sum = amountOf (fun c o => !c.isEmpty && o == true) block2 := by
      rw [heq1, hknownOut, hother2 _ fun c => by simp]
      exact amountOf_congr (fun c o => by cases o <;> rfl) block1
    simp only [updateTransactionTransfers, hs.firstTransferIdx_eq, ← hsdef, hknownIn', hknownOut']
    rw [heq1, heq2, heq3]
  -- each container's classes: one direction is left alone by the other's balancing
  have hclass : ∀ containerAmount ∈ containerAmountsList, ∀ isOutput,
      amountOf (sameClass (addressOf containerAmount.container) isOutput) block3 =
        if isOutput then containerAmount.amounts.output else containerAmount.amounts.input := by
    intro containerAmount hca isOutput
    cases isOutput
    · rw [hother3 _ fun c => by simp [sameClass],
        hlisted2 _ (haddress containerAmount hca)
          (mem_or_amountOf_zero hdistinct hsum1 hca false (by simpa using hone.inputAddresses)),
        amountOf_listed hdistinct hsum1 hca false]
    · rw [hlisted3 _ (haddress containerAmount hca) ?_, hother2 _ fun c => by simp [sameClass],
        amountOf_listed hdistinct hsum1 hca true]
      rw [hother2 _ fun c => by simp [sameClass]]
      exact mem_or_amountOf_zero hdistinct hsum1 hca true (by simpa using hone.outputAddresses)
  have htotalIn : amountOf (fun _ o => o == false) block3 = allInputsAmount := by
    rw [hother3 _ fun c => by simp]
    exact htotal2
  exact ⟨block3, hresult, hids3, hclass, htotalIn, htotal3,
    fun hblock => hnonzero3 (hnonzero2 (hnonzero1 hblock))⟩

end Update

/-! ## The reconciliation -/

section Reconciliation

/-- The sum of the amounts of the transfers of `transactionId` that satisfy `P`. -/
def transfersAmount (transfers : WalletTransfers) (transactionId : ℕ)
    (P : WalletTransfer → Bool) : ℤ :=
  ((transfers.filter fun pair => pair.1 == transactionId && P pair.2).map
    fun pair => pair.2.amount).sum

private theorem ge_of_mem_dropWhile_lt (transactionId : ℕ) :
    ∀ {transfers : WalletTransfers}, transfers.Pairwise (fun p q => p.1 ≤ q.1) →
      ∀ pair ∈ transfers.dropWhile (fun pair => decide (pair.1 < transactionId)),
        transactionId ≤ pair.1
  | [], _, pair, hpair => by simp at hpair
  | first :: transfers, hsorted, pair, hpair => by
    rw [List.pairwise_cons] at hsorted
    by_cases hfirst : first.1 < transactionId
    · simp only [List.dropWhile_cons, hfirst, decide_true] at hpair
      exact ge_of_mem_dropWhile_lt transactionId hsorted.2 pair hpair
    · simp only [List.dropWhile_cons, hfirst, decide_false] at hpair
      rcases List.mem_cons.mp hpair with rfl | hpair
      · omega
      · exact le_trans (by omega) (hsorted.1 pair hpair)

private theorem gt_of_mem_dropWhile_eq (transactionId : ℕ) :
    ∀ {transfers : WalletTransfers}, transfers.Pairwise (fun p q => p.1 ≤ q.1) →
      (∀ pair ∈ transfers, transactionId ≤ pair.1) →
      ∀ pair ∈ transfers.dropWhile (fun pair => pair.1 == transactionId), transactionId < pair.1
  | [], _, _, pair, hpair => by simp at hpair
  | first :: transfers, hsorted, hge, pair, hpair => by
    rw [List.pairwise_cons] at hsorted
    have hfirst := hge first List.mem_cons_self
    by_cases heq : first.1 = transactionId
    · simp only [List.dropWhile_cons, heq, beq_self_eq_true] at hpair
      exact gt_of_mem_dropWhile_eq transactionId hsorted.2
        (fun p hp => hge p (List.mem_cons_of_mem _ hp)) pair hpair
    · simp only [List.dropWhile_cons, beq_iff_eq, heq] at hpair
      rcases List.mem_cons.mp hpair with rfl | hpair
      · omega
      · exact lt_of_lt_of_le (by omega) (hsorted.1 pair hpair)

/-- A vector sorted by transaction id is the transfers before a transaction, its own, and those
after. -/
theorem exists_shape {transfers : WalletTransfers}
    (hsorted : transfers.Pairwise fun p q => p.1 ≤ q.1) (transactionId : ℕ) :
    ∃ pre block after, transfers = pre ++ block ++ after ∧ Shape transactionId pre block after := by
  set rest := transfers.dropWhile fun pair => decide (pair.1 < transactionId) with hrest
  have hrestSorted : rest.Pairwise fun p q => p.1 ≤ q.1 :=
    hsorted.sublist (List.dropWhile_suffix _).sublist
  have hrestGe : ∀ pair ∈ rest, transactionId ≤ pair.1 :=
    ge_of_mem_dropWhile_lt transactionId hsorted
  refine ⟨transfers.takeWhile fun pair => decide (pair.1 < transactionId),
    rest.takeWhile fun pair => pair.1 == transactionId,
    rest.dropWhile fun pair => pair.1 == transactionId, ?_, ⟨?_, ?_, ?_⟩⟩
  · rw [List.append_assoc, List.takeWhile_append_dropWhile, List.takeWhile_append_dropWhile]
  · intro pair hpair
    simpa using List.mem_takeWhile_imp hpair
  · intro pair hpair
    simpa using List.mem_takeWhile_imp hpair
  · exact gt_of_mem_dropWhile_eq transactionId hrestSorted hrestGe

/-- The sums of a range by sign: a negative amount is an input, a positive one an output. -/
theorem sum_filter_lt_zero (R : String → Bool) (block : WalletTransfers) :
    ((block.filter fun pair => R pair.2.address && decide (pair.2.amount < 0)).map
      fun pair => pair.2.amount).sum = amountOf (fun c o => R c && o == false) block := by
  induction block with
  | nil => rfl
  | cons pair block ih =>
    rw [amountOf_cons, ← ih]
    by_cases hneg : pair.2.amount < 0
    · have hpos : ¬0 < pair.2.amount := by omega
      cases hR : R pair.2.address <;> simp [hneg, hpos, hR]
    · -- a transfer of amount zero counts as an input but adds nothing
      by_cases hpos : 0 < pair.2.amount
      · cases hR : R pair.2.address <;> simp [hneg, hpos, hR]
      · have hzero : pair.2.amount = 0 := by omega
        cases hR : R pair.2.address <;> simp [hzero, hR]

theorem sum_filter_pos (R : String → Bool) (block : WalletTransfers) :
    ((block.filter fun pair => R pair.2.address && decide (0 < pair.2.amount)).map
      fun pair => pair.2.amount).sum = amountOf (fun c o => R c && o == true) block := by
  unfold amountOf
  congr 3
  funext pair
  cases decide (0 < pair.2.amount) <;> simp

theorem transfersAmount_eq {transactionId : ℕ} {pre block after : WalletTransfers}
    (hs : Shape transactionId pre block after) (P : WalletTransfer → Bool) :
    transfersAmount (pre ++ block ++ after) transactionId P =
      ((block.filter fun pair => P pair.2).map fun pair => pair.2.amount).sum := by
  have hpre : (pre.filter fun pair => pair.1 == transactionId && P pair.2) = [] :=
    List.filter_eq_nil_iff.mpr fun pair hpair => by simp [(hs.pre_lt pair hpair).ne]
  have hafter : (after.filter fun pair => pair.1 == transactionId && P pair.2) = [] :=
    List.filter_eq_nil_iff.mpr fun pair hpair => by simp [(hs.after_gt pair hpair).ne']
  have hblock : (block.filter fun pair => pair.1 == transactionId && P pair.2) =
      block.filter fun pair => P pair.2 :=
    List.filter_congr fun pair hpair => by simp [hs.block_eq pair hpair]
  simp only [transfersAmount, List.filter_append, hpre, hafter, hblock, List.nil_append,
    List.append_nil]

/-- **The reconciliation is exact.** On a vector sorted by transaction id, for containers with
distinct non-empty addresses, inputs at most zero and outputs at least zero, and totals that
cover the containers' amounts, `updateTransactionTransfers` leaves the transaction with
transfers whose negative amounts to each container's address sum to its input and positive
ones to its output, whose negative and positive amounts sum to the totals, and with no amount
zero unless one was there before. The transfers of other transactions are as they were, and
the vector stays sorted. -/
theorem updateTransactionTransfers_reconciles {κ : Type} (addressOf : κ → String)
    (transfers : WalletTransfers) (transactionId : ℕ)
    (containerAmountsList : List (ContainerAmounts κ)) (allInputsAmount allOutputsAmount : ℤ)
    (hsorted : transfers.Pairwise fun p q => p.1 ≤ q.1)
    (hdistinct : (containerAmountsList.map fun containerAmount =>
      addressOf containerAmount.container).Nodup)
    (haddress : ∀ containerAmount ∈ containerAmountsList, addressOf containerAmount.container ≠ "")
    (hamounts : ∀ containerAmount ∈ containerAmountsList,
      containerAmount.amounts.input ≤ 0 ∧ 0 ≤ containerAmount.amounts.output)
    (hinputs : allInputsAmount ≤
      (containerAmountsList.map fun containerAmount => containerAmount.amounts.input).sum ∧
        allInputsAmount ≤ 0)
    (houtputs : (containerAmountsList.map fun containerAmount =>
      containerAmount.amounts.output).sum ≤ allOutputsAmount ∧ 0 ≤ allOutputsAmount) :
    let result := (updateTransactionTransfers addressOf transfers transactionId
      containerAmountsList allInputsAmount allOutputsAmount).2
    (∀ containerAmount ∈ containerAmountsList,
      transfersAmount result transactionId (fun transfer =>
          transfer.address == addressOf containerAmount.container &&
            decide (transfer.amount < 0)) = containerAmount.amounts.input ∧
        transfersAmount result transactionId (fun transfer =>
          transfer.address == addressOf containerAmount.container &&
            decide (0 < transfer.amount)) = containerAmount.amounts.output) ∧
      transfersAmount result transactionId (fun transfer => decide (transfer.amount < 0)) =
        allInputsAmount ∧
      transfersAmount result transactionId (fun transfer => decide (0 < transfer.amount)) =
        allOutputsAmount ∧
      ((∀ pair ∈ transfers, pair.1 = transactionId → pair.2.amount ≠ 0) →
        ∀ pair ∈ result, pair.1 = transactionId → pair.2.amount ≠ 0) ∧
      result.filter (fun pair => pair.1 ≠ transactionId) =
        transfers.filter (fun pair => pair.1 ≠ transactionId) ∧
      result.Pairwise fun p q => p.1 ≤ q.1 := by
  obtain ⟨pre, block, after, rfl, hs⟩ := exists_shape hsorted transactionId
  obtain ⟨block', hresult, hids, hclass, htotalIn, htotalOut, hnonzero⟩ :=
    updateTransactionTransfers_spec hs containerAmountsList allInputsAmount allOutputsAmount
      hdistinct haddress hamounts hinputs houtputs
  intro result
  replace hresult : result = pre ++ block' ++ after := hresult
  have hs' := hs.with_block hids
  -- the sums of the statement, read on the range
  have hnegative : ∀ R : String → Bool, transfersAmount result transactionId
      (fun transfer => R transfer.address && decide (transfer.amount < 0)) =
        amountOf (fun c o => R c && o == false) block' := fun R => by
    rw [hresult, transfersAmount_eq hs', sum_filter_lt_zero]
  have hpositive : ∀ R : String → Bool, transfersAmount result transactionId
      (fun transfer => R transfer.address && decide (0 < transfer.amount)) =
        amountOf (fun c o => R c && o == true) block' := fun R => by
    rw [hresult, transfersAmount_eq hs', sum_filter_pos]
  refine ⟨fun containerAmount hca => ⟨?_, ?_⟩, ?_, ?_, fun hzero => ?_, ?_, ?_⟩
  · rw [hnegative (· == addressOf containerAmount.container)]
    exact hclass containerAmount hca false
  · rw [hpositive (· == addressOf containerAmount.container)]
    exact hclass containerAmount hca true
  · have h := hnegative fun _ => true
    simp only [Bool.true_and] at h
    rw [h]
    exact htotalIn
  · have h := hpositive fun _ => true
    simp only [Bool.true_and] at h
    rw [h]
    exact htotalOut
  · -- no amount zero in the range, so none among the transfers of the transaction
    have hblock : NonZeroAmounts block := fun pair hpair =>
      hzero pair (by simp [hpair]) (hs.block_eq pair hpair)
    intro pair hpair hid
    rw [hresult] at hpair
    rcases List.mem_append.mp hpair with hpair | hpair
    · rcases List.mem_append.mp hpair with hpair | hpair
      · exact absurd hid (hs.pre_lt pair hpair).ne
      · exact hnonzero hblock pair hpair
    · exact absurd hid (hs.after_gt pair hpair).ne'
  · rw [hresult, hs'.filter_ne_eq, hs.filter_ne_eq]
  · rw [hresult]
    rw [List.append_assoc] at hsorted
    exact hs'.pairwise (List.pairwise_append.mp hsorted).1
      (List.pairwise_append.mp (List.pairwise_append.mp hsorted).2.1).2.1

/-- A transaction with a stale input of one wallet address, a foreign output and an unknown
transfer, between two other transactions. -/
def sampleTransfers : WalletTransfers :=
  [(0, ⟨.USUAL, "A", 5⟩), (1, ⟨.USUAL, "A", -3⟩), (1, ⟨.USUAL, "Z", 2⟩), (1, ⟨.USUAL, "", 1⟩),
    (2, ⟨.USUAL, "B", 4⟩)]

/-- The amounts the containers of the addresses "A" and "B" report for that transaction. -/
def sampleContainers : List (ContainerAmounts String) :=
  [⟨"A", ⟨-7, 2⟩⟩, ⟨"B", ⟨0, 3⟩⟩]

/-- The input of "A" is adjusted, its output and that of "B" appended, the foreign output kept,
and the unknown transfers take what remains of each total. -/
theorem updateTransactionTransfers_reconciles_sample :
    (updateTransactionTransfers id sampleTransfers 1 sampleContainers (-10) 9).2 =
      [(0, ⟨.USUAL, "A", 5⟩), (1, ⟨.USUAL, "A", -7⟩), (1, ⟨.USUAL, "Z", 2⟩),
        (1, ⟨.USUAL, "", 2⟩), (1, ⟨.USUAL, "A", 2⟩), (1, ⟨.USUAL, "B", 3⟩),
        (1, ⟨.USUAL, "", -3⟩), (2, ⟨.USUAL, "B", 4⟩)] ∧
    transfersAmount (updateTransactionTransfers id sampleTransfers 1 sampleContainers (-10) 9).2 1
      (fun transfer => decide (transfer.amount < 0)) = -10 ∧
    transfersAmount (updateTransactionTransfers id sampleTransfers 1 sampleContainers (-10) 9).2 1
      (fun transfer => decide (0 < transfer.amount)) = 9 := by
  obtain ⟨-, hinputs, houtputs, -⟩ := updateTransactionTransfers_reconciles id sampleTransfers 1
    sampleContainers (-10) 9 (by decide) (by decide) (by decide) (by decide) (by decide)
    (by decide)
  exact ⟨by decide, hinputs, houtputs⟩

end Reconciliation

end WalletGreen

end UltraNoteCore
