import UltraNoteCore.Common.ShuffleGenerator
import UltraNoteCore.Core.Fusion
import UltraNoteCore.Core.Node
import UltraNoteCore.Wallet.MakeTransaction

/-!
# Fusion transactions: what the wallet sends

`WalletGreen::createFusionTransaction(threshold, mixin, sourceAddresses, destinationAddress)`
(`WalletGreen.cpp`) merges small outputs of the wallet into a transaction without fee. It picks
the outputs of one decade below `threshold` that `isAmountApplicableInFusionTransactionInput`
admits (`pickRandomFusionInputs`), prepares their rings, and builds a transaction that pays
their sum to the destination in its decimal digits (`decomposeFusionOutputs`, dust threshold
zero); while the data is larger than `fusionTxMaxSize` and there are still
`fusionTxMinInputCount` inputs, it drops the largest input and builds again. The transaction is
then sent to the node.

The node relays it without fee only if `Currency::isFusionTransaction` accepts it. Of that test
the wallet meets every part but one: the size and the input count by its own checks, the ratio
because inputs of one decade add up to few digits, and the outputs because the decomposition
with threshold zero is the node's with threshold ten. The part it does not meet is the dust
threshold: from `UPGRADE_HEIGHT_V3` on, `isAmountApplicableInFusionTransactionInput` admits
amounts below it, and a transaction of such inputs is refused as fusion
(`createFusionTransaction_isFusionTransaction_iff`).

Against the node as the daemon runs it (`inProcessNode`: `core::handle_incoming_tx`, whose pool
marks what it relays), such a transaction is not relayed and the call fails, so what a
successful call sent is fusion: the wallet's transaction pays no fee and carries no TTL, and
`tx_memory_pool::add_tx` marks such a transaction to be relayed only when it passes the fusion
test (`createFusionTransaction_isFusionTransaction`).

The wallet's records and outputs, the node's height, decoys and verdict, and the two random
choices (the order of the buckets and the values the `ShuffleGenerator` draws) are the
environment (`FusionEnv`, `WalletNode`). The checks of the wallet's state and of the addresses
that come first are not modelled; the call returns the transaction it sends in place of its id.

## Main definitions

* `FusionEnv`
* `WalletGreen.pickRandomFusionInputs`, `WalletGreen.decomposeFusionOutputs`,
  `WalletGreen.getTransactionSize`
* `WalletGreen.createFusionTransaction`, with its loop `fusionRounds` of `fusionRound`s
* `inProcessNode`: the node's verdict on a relayed transaction; `DaemonPrimitives`

## Main results

* `WalletGreen.pickRandomFusionInputs_decade`: the picked outputs are of one decade
* `WalletGreen.fusionRound_eq_ok`: the inputs and outputs of the transaction of one round
* `WalletGreen.fusionRounds_eq_ok`: the loop keeps a prefix of the inputs and its rings
* `WalletGreen.fusionRound_fee_eq_zero`: the transaction of a round pays no fee
* `WalletGreen.createFusionTransaction_eq_ok`: what a successful call sent
* `WalletGreen.createFusionTransaction_isFusionTransaction_iff`: the node takes it as fusion
  exactly when no input is below the dust threshold
* `WalletGreen.createFusionTransaction_isFusionTransaction`: against the daemon's node, what a
  successful call sent is fusion
-/

namespace UltraNoteCore

/-- What `createFusionTransaction` reads besides its arguments. -/
structure FusionEnv where
  /-- `m_walletsContainer.get<RandomAccessIndex>().size()`. -/
  walletsCount : ℕ
  /-- `pickWalletsWithMoney()` without source addresses, `pickWallets(sourceAddresses)`
  otherwise: the outputs of each source wallet record. -/
  walletOuts : List WalletOuts
  /-- `m_node.getLastKnownBlockHeight()`. -/
  lastKnownBlockHeight : UInt32
  /-- `m_node.getRandomOutsByAmounts`, as `requestMixinOuts` reads it. -/
  getRandomOutsByAmounts : List UInt64 → UInt64 → List outs_for_amount × Bool
  /-- The order `std::shuffle` leaves the bucket numbers `0, …, 19` in. -/
  bucketNumbers : List ℕ
  /-- The value the distribution draws at the `i`-th call of the `ShuffleGenerator`. -/
  draw : ℕ → ℕ

/-- `std::numeric_limits<uint64_t>::max()`. -/
def UINT64_MAX : UInt64 := 18446744073709551615

namespace WalletGreen

/-! ## Picking the inputs -/

/-- The outputs of the wallets that `isAmountApplicableInFusionTransactionInput` admits, in
order, each with the power of ten it reports. -/
def fusionReadyOuts (c : Currency) (height : UInt32) (walletOuts : List WalletOuts)
    (threshold : UInt64) : List (OutputToTransfer × UInt8) :=
  walletOuts.flatMap fun walletOut => walletOut.outs.filterMap fun out =>
    (c.isAmountApplicableInFusionTransactionInput out.amount threshold height).map
      fun powerOfTen => (⟨out, walletOut.wallet⟩, powerOfTen)

/-- The `lowerBound` of a bucket: ten multiplied into one, `selectedBucket` times. -/
def bucketLowerBound (selectedBucket : ℕ) : UInt64 :=
  (List.range selectedBucket).foldl (fun lowerBound _ => lowerBound * 10) 1

/-- `WalletGreen::pickRandomFusionInputs(addresses, threshold, minInputCount, maxInputCount)`:
the applicable outputs are counted by power of ten; the first bucket in the shuffled order with
`minInputCount` of them is taken; its outputs are those in `[lowerBound, upperBound)`, trimmed to
`maxInputCount` by a `ShuffleGenerator`, and sorted by amount (equal amounts in an order
`std::sort` may leave them in). -/
def pickRandomFusionInputs (c : Currency) (height : UInt32) (walletOuts : List WalletOuts)
    (threshold : UInt64) (minInputCount maxInputCount : ℕ) (bucketNumbers : List ℕ)
    (draw : ℕ → ℕ) : Except String (List OutputToTransfer) := do
  let ready := fusionReadyOuts c height walletOuts threshold
  let bucketSizes := ready.foldl (fun sizes out => sizes.modify out.2.toNat (· + 1))
    (List.replicate 20 0)
  match bucketNumbers.find? fun bucket => minInputCount ≤ bucketSizes.getD bucket 0 with
  | none => pure []
  | some selectedBucket =>
    let lowerBound := bucketLowerBound selectedBucket
    let upperBound := if selectedBucket = 19 then UINT64_MAX else lowerBound * 10
    let selectedOuts := (ready.map (·.1)).filter fun out =>
      lowerBound ≤ out.out.amount ∧ out.out.amount < upperBound
    if selectedOuts.length ≤ maxInputCount then
      pure (selectedOuts.insertionSort fun l r => l.out.amount ≤ r.out.amount)
    else
      let (indexes, _) ← (ShuffleGenerator.init selectedOuts.length).run
        ((List.range maxInputCount).map draw)
      pure ((indexes.filterMap fun i => selectedOuts[i]?).insertionSort
        fun l r => l.out.amount ≤ r.out.amount)

/-! ## Building the transaction -/

/-- `WalletGreen::decomposeFusionOutputs(address, inputsAmount)`: the decimal digits of the sum,
with dust threshold zero, sorted. -/
def decomposeFusionOutputs (address : AccountPublicAddress) (inputsAmount : UInt64) :
    ReceiverAmounts :=
  ⟨address, (decomposeAmount inputsAmount 0).insertionSort (· ≤ ·)⟩

/-- `getTransactionSize` (`WalletGreen.cpp`): the length of the transaction's data. The bytes a
refused serialization wrote before it threw are not modelled; their length is taken as zero. -/
def getTransactionSize (transaction : TransactionImpl) : ℕ :=
  ((toBinaryArray Output.serializeTransaction transaction.transaction).getD []).length

section Create

variable {AccountKeys KeyDerivation : Type} [Inhabited KeyDerivation]
  (c : Currency) (e : MakeTransactionEnv AccountKeys KeyDerivation)

/-- One round of the loop of `createFusionTransaction`: the transaction that pays the sum of
the inputs to `destination`, without messages, extra or unlock time. -/
def fusionRound (destination : AccountPublicAddress) (fusionInputs : List OutputToTransfer)
    (keysInfo : List InputInfo) : Except String TransactionImpl := do
  let inputsAmount := fusionInputs.foldl (fun amount input => amount + input.out.amount) 0
  let (fusionTransaction, _) ←
    makeTransaction e [decomposeFusionOutputs destination inputsAmount] keysInfo [] [] 0
  pure fusionTransaction

/-- The `do … while` loop of `createFusionTransaction`: while the transaction is larger than
`fusionTxMaxSize` and there are still `fusionTxMinInputCount` inputs, the last (largest) input
and its ring are dropped and the transaction built again. Each round but the last drops an
input, so the number of inputs is enough `fuel` once `fusionTxMinInputCount` is positive. -/
def fusionRounds (destination : AccountPublicAddress) :
    ℕ → List OutputToTransfer → List InputInfo →
      Except String (List OutputToTransfer × TransactionImpl)
  | fuel, fusionInputs, keysInfo => do
    let fusionTransaction ← fusionRound e destination fusionInputs keysInfo
    match fuel with
    | fuel + 1 =>
      if getTransactionSize fusionTransaction > c.fusionTxMaxSize ∧
          c.fusionTxMinInputCount ≤ fusionInputs.length then
        fusionRounds destination fuel fusionInputs.dropLast keysInfo.dropLast
      else pure (fusionInputs, fusionTransaction)
    | 0 => pure (fusionInputs, fusionTransaction)

/-- The part of `createFusionTransaction` after the inputs are picked: the decoys, the rings,
the rounds, the count of inputs left, and the send. -/
def sendFusionInputs (w : WalletGreen) (node : WalletNode) (env : FusionEnv) (mixin : UInt64)
    (destination : AccountPublicAddress) (fusionInputs : List OutputToTransfer) :
    Except WalletError Transaction := do
  let mixinResult ←
    if mixin ≠ 0 then requestMixinOuts env.getRandomOutsByAmounts fusionInputs mixin
    else pure []
  let keysInfo := prepareInputs fusionInputs mixinResult mixin
  let (fusionInputs, fusionTransaction) ←
    (fusionRounds c e destination fusionInputs.length fusionInputs keysInfo).mapError .transaction
  if fusionInputs.length < c.fusionTxMinInputCount then .error (.code .MINIMUM_INPUT_COUNT)
  else do
    w.validateSaveAndSendTransaction c node fusionTransaction.transaction true
    pure fusionTransaction.transaction

/-- `WalletGreen::createFusionTransaction(threshold, mixin, sourceAddresses,
destinationAddress)`, with `destination` the address `getChangeDestination` resolves: the
transaction it sends. -/
def createFusionTransaction (w : WalletGreen) (node : WalletNode) (env : FusionEnv)
    (threshold mixin : UInt64) (destination : AccountPublicAddress) :
    Except WalletError Transaction :=
  let MAX_FUSION_OUTPUT_COUNT : UInt64 := 8
  let fusionTreshold := c.defaultDustThreshold
  let estimatedFusionInputsCount := Currency.getApproximateMaximumInputCount
    (UInt64.ofNat c.fusionTxMaxSize) MAX_FUSION_OUTPUT_COUNT mixin
  if threshold ≤ fusionTreshold then .error (.code .THRESHOLD_TOO_LOW)
  else if env.walletsCount = 0 then .error (.code .MINIMUM_ONE_ADDRESS)
  else if estimatedFusionInputsCount.toNat < c.fusionTxMinInputCount then
    .error (.code .MIXIN_COUNT_TOO_BIG)
  else do
    let fusionInputs ← (pickRandomFusionInputs c env.lastKnownBlockHeight env.walletOuts
      threshold c.fusionTxMinInputCount estimatedFusionInputsCount.toNat env.bucketNumbers
      env.draw).mapError .transaction
    if fusionInputs.length < c.fusionTxMinInputCount then .error (.code .NOTHING_TO_OPTIMIZE)
    else sendFusionInputs c e w node env mixin destination fusionInputs

end Create

end WalletGreen

/-! ## The node the wallet sends to -/

/-- `InProcessNode::relayTransaction` on a node whose blockchain is `s`: `core::handle_incoming_tx`
takes the transaction as one not kept by a block, and it is relayed only if the node accepted
it, its verification did not fail and the pool marked it to be relayed; an exception of the
blockchain is an error. -/
def inProcessNode (ctx : Context) (s : Blockchain) : WalletNode where
  relayTransaction tx :=
    match (Blockchain.handle_incoming_tx ctx tx false).run s with
    | .ok (added, tvc) _ => added && !tvc.m_verification_failed && tvc.m_should_be_relayed
    | .error _ _ => false

/-- Primitives that judge a transaction as the daemon does: its size is that of its
serialization, its TTL the one `add_tx` reads from its extra, and the fusion test is
`Currency::isFusionTransaction(tx, size)` of the node's currency. -/
structure DaemonPrimitives (ctx : Context) : Prop where
  getObjectBinarySize : ∀ tx, ctx.prims.getObjectBinarySize tx =
    ((toBinaryArray Output.serializeTransaction tx).getD []).length
  ttl : ∀ extra, ctx.prims.ttl extra = extraTTL extra
  isFusionTransaction : ∀ tx size, ctx.prims.isFusionTransaction tx size =
    ctx.m_currency.isFusionTransaction (getInputsAmounts tx) (tx.outputs.map (·.amount)) size

/-- The node relays a transaction only when `add_tx`, from the value-initialised context of
`handle_incoming_tx`, marked it to be relayed: a transaction the semantic check refuses, or
that the chain or the pool already has, comes back unmarked. -/
theorem relayTransaction_inProcessNode {ctx : Context} {s : Blockchain} {tx : Transaction}
    (h : (inProcessNode ctx s).relayTransaction tx = true) :
    ∃ height, (s.m_tx_pool.add_tx ctx.m_currency (s.poolEnv ctx) tx (ctx.prims.getObjectHash tx)
      (ctx.prims.getObjectBinarySize tx) {} false height).2.1.m_should_be_relayed = true := by
  unfold inProcessNode at h
  dsimp only at h
  split at h
  · rename_i added tvc s' hrun
    have hrelay : tvc.m_should_be_relayed = true := by simp_all
    unfold Blockchain.handle_incoming_tx Blockchain.handleIncomingTransaction
      Blockchain.add_new_tx at hrun
    obtain ⟨s₁, s₂, hget, hrun⟩ := EStateM.run_bind_eq_ok.mp hrun
    cases hget
    dsimp only at hrun
    split_ifs at hrun with hsemantic
    · cases hrun
      cases hrelay
    obtain ⟨s₁, s₂, hget, hrun⟩ := EStateM.run_bind_eq_ok.mp hrun
    cases hget
    split_ifs at hrun with hchain hpool
    · cases hrun
      cases hrelay
    · cases hrun
      cases hrelay
    -- the pool's verdict is what comes back
    obtain ⟨u, s₃, -, hpure⟩ := EStateM.run_bind_eq_ok.mp hrun
    cases hpure
    exact ⟨_, hrelay⟩
  · cases h

namespace WalletGreen

/-! ## What the wallet picks

The outputs of the bucket taken are applicable, so pretty amounts, and lie in the bucket's
range `[10 ^ k, 10 ^ (k + 1))` (up to `UINT64_MAX` for the last); trimming and sorting only keep
some of them. So the picked outputs are digits times one power of ten. -/

/-- An output the picker counts is one the currency admits, with the power of ten it reports. -/
theorem isAmountApplicable_of_mem_fusionReadyOuts {c : Currency} {height : UInt32}
    {walletOuts : List WalletOuts} {threshold : UInt64} {ready : OutputToTransfer × UInt8}
    (h : ready ∈ fusionReadyOuts c height walletOuts threshold) :
    c.isAmountApplicableInFusionTransactionInput ready.1.out.amount threshold height =
      some ready.2 := by
  simp only [fusionReadyOuts, List.mem_flatMap, List.mem_filterMap, Option.map_eq_some_iff] at h
  obtain ⟨walletOut, -, out, -, powerOfTen, happlicable, rfl⟩ := h
  exact happlicable

/-- Counting the outputs into buckets keeps the twenty buckets. -/
theorem length_foldl_modify (ready : List (OutputToTransfer × UInt8)) :
    ∀ sizes : List ℕ,
      (ready.foldl (fun sizes out => sizes.modify out.2.toNat (· + 1)) sizes).length =
        sizes.length := by
  induction ready with
  | nil => intro sizes; rfl
  | cons out ready ih =>
    intro sizes
    rw [List.foldl_cons, ih, List.length_modify]

/-- The lower bound of one of the twenty buckets is its power of ten, without wrap. -/
theorem toNat_bucketLowerBound {k : ℕ} (hk : k ≤ 19) : (bucketLowerBound k).toNat = 10 ^ k := by
  induction k with
  | zero => rfl
  | succ k ih =>
    have hstep : bucketLowerBound (k + 1) = bucketLowerBound k * 10 := by
      simp only [bucketLowerBound, List.range_succ, List.foldl_append, List.foldl_cons,
        List.foldl_nil]
    have hfit : 10 ^ k * 10 < 2 ^ 64 :=
      calc 10 ^ k * 10 = 10 ^ (k + 1) := (Nat.pow_succ ..).symm
        _ ≤ 10 ^ 19 := Nat.pow_le_pow_right (by decide) hk
        _ < 2 ^ 64 := by decide
    rw [hstep, UInt64.toNat_mul, ih (by omega), show (10 : UInt64).toNat = 10 from rfl,
      Nat.mod_eq_of_lt hfit, Nat.pow_succ]

/-- An applicable amount in the range of bucket `k` is a digit times `10 ^ k`. -/
theorem decade_of_mem_bucket {c : Currency} {height : UInt32} {threshold : UInt64} {k : ℕ}
    (hk : k < 20) {out : OutputToTransfer} {powerOfTen : UInt8}
    (happlicable :
      c.isAmountApplicableInFusionTransactionInput out.out.amount threshold height = some powerOfTen)
    (hlow : bucketLowerBound k ≤ out.out.amount)
    (hhigh : out.out.amount < if k = 19 then UINT64_MAX else bucketLowerBound k * 10) :
    ∃ d, 1 ≤ d ∧ d ≤ 9 ∧ out.out.amount.toNat = d * 10 ^ k := by
  have hpretty := (Currency.isAmountApplicableInFusionTransactionInput_eq_some happlicable).2.2
  have hbound := toNat_bucketLowerBound (k := k) (by omega)
  refine eq_digit_mul_pow_of_mem_PRETTY_AMOUNTS hpretty
    (hbound ▸ UInt64.le_iff_toNat_le.mp hlow) ?_
  by_cases h19 : k = 19
  · exact .inl h19
  · -- below the last bucket the upper bound is `10 ^ (k + 1)`, which does not wrap
    rw [if_neg h19] at hhigh
    have hfit : 10 ^ k * 10 < 2 ^ 64 :=
      calc 10 ^ k * 10 = 10 ^ (k + 1) := (Nat.pow_succ ..).symm
        _ ≤ 10 ^ 19 := Nat.pow_le_pow_right (by decide) (by omega)
        _ < 2 ^ 64 := by decide
    have hlt := UInt64.lt_iff_toNat_lt.mp hhigh
    rw [UInt64.toNat_mul, hbound, show (10 : UInt64).toNat = 10 from rfl,
      Nat.mod_eq_of_lt hfit, ← Nat.pow_succ] at hlt
    exact .inr hlt


/-- **The picked outputs are of one decade**: when at least one output is asked for, they are
all a digit from 1 to 9 times one power of ten. -/
theorem pickRandomFusionInputs_decade {c : Currency} {height : UInt32}
    {walletOuts : List WalletOuts} {threshold : UInt64} {minInputCount maxInputCount : ℕ}
    {bucketNumbers : List ℕ} {draw : ℕ → ℕ} {picked : List OutputToTransfer}
    (hmin : 0 < minInputCount)
    (h : pickRandomFusionInputs c height walletOuts threshold minInputCount maxInputCount
      bucketNumbers draw = .ok picked) :
    ∃ k, ∀ input ∈ picked, ∃ d, 1 ≤ d ∧ d ≤ 9 ∧ input.out.amount.toNat = d * 10 ^ k := by
  unfold pickRandomFusionInputs at h
  extract_lets ready bucketSizes at h
  split at h
  · -- no bucket has enough outputs: nothing is picked
    obtain rfl := (Codec.pure_eq_ok.mp h).symm
    exact ⟨0, fun _ hinput => absurd hinput List.not_mem_nil⟩
  rename_i selectedBucket hfind
  extract_lets lowerBound upperBound selectedOuts at h
  -- the bucket has `minInputCount > 0` outputs, so it is one of the twenty
  have hk : selectedBucket < 20 := by
    have hsize : decide (minInputCount ≤ bucketSizes.getD selectedBucket 0) = true :=
      List.find?_some (p := fun bucket => decide (minInputCount ≤ bucketSizes.getD bucket 0)) hfind
    by_contra hk
    rw [List.getD_eq_default _ _ (by
      simp only [bucketSizes, length_foldl_modify, List.length_replicate]; omega)] at hsize
    exact absurd (of_decide_eq_true hsize) (by omega)
  refine ⟨selectedBucket, fun input hinput => ?_⟩
  -- every picked output is one of the bucket's: sorted, or trimmed and then sorted
  have hselected : input ∈ selectedOuts := by
    split at h
    · obtain rfl := (Codec.pure_eq_ok.mp h).symm
      exact (List.perm_insertionSort _ _).mem_iff.mp hinput
    · obtain ⟨⟨indexes, g⟩, -, hpure⟩ := Codec.bind_eq_ok.mp h
      obtain rfl := (Codec.pure_eq_ok.mp hpure).symm
      obtain ⟨i, -, hi⟩ := List.mem_filterMap.mp ((List.perm_insertionSort _ _).mem_iff.mp hinput)
      exact List.mem_of_getElem? hi
  obtain ⟨hready, hbounds⟩ := List.mem_filter.mp hselected
  obtain ⟨r, hmem, rfl⟩ := List.mem_map.mp hready
  obtain ⟨hlow, hhigh⟩ := of_decide_eq_true hbounds
  exact decade_of_mem_bucket hk (isAmountApplicable_of_mem_fusionReadyOuts hmem) hlow hhigh

/-! ## What the wallet builds -/

/-- A single receiver's sorted amounts are added in their order. -/
theorem amountsToAddresses_decomposeFusionOutputs (address : AccountPublicAddress)
    (inputsAmount : UInt64) :
    amountsToAddresses [decomposeFusionOutputs address inputsAmount] =
      (decomposeFusionOutputs address inputsAmount).amounts.map fun amount => (address, amount) := by
  rw [amountsToAddresses, List.flatMap_singleton]
  apply List.mergeSort_of_pairwise
  rw [List.pairwise_map]
  exact (List.pairwise_insertionSort (· ≤ ·) _).imp fun hle => decide_eq_true hle

/-- Dropping the last of a prefix leaves the prefix one shorter. -/
theorem dropLast_take_eq_take {α : Type} (l : List α) (m : ℕ) :
    (l.take m).dropLast = l.take (min m l.length - 1) := by
  rw [List.dropLast_eq_take, List.take_take, List.length_take]
  congr 1
  omega

section Sent

variable {AccountKeys KeyDerivation : Type} [Inhabited KeyDerivation]
  {c : Currency} {e : MakeTransactionEnv AccountKeys KeyDerivation}
  {destination : AccountPublicAddress}

/-- **The transaction of one round**: its inputs are key inputs for the amounts of the rings,
its outputs the sorted decimal digits of the inputs' sum, and its extra holds only its public
key. -/
theorem fusionRound_eq_ok {fusionInputs : List OutputToTransfer} {keysInfo : List InputInfo}
    {tx : TransactionImpl} (h : fusionRound e destination fusionInputs keysInfo = .ok tx) :
    getInputsAmounts tx.transaction = keysInfo.map (·.keyInfo.amount) ∧
      tx.transaction.outputs.map (·.amount) =
        (decomposeAmount (fusionInputs.foldl (fun amount input => amount + input.out.amount) 0)
          0).insertionSort (· ≤ ·) ∧
      (∀ (currency : Currency) (height : ℕ),
        tx.transaction.inputs.map (currency.getTransactionInputAmount height) =
          keysInfo.map (·.keyInfo.amount)) ∧
      ∃ publicKey, tx.transaction.extra = (writeTransactionExtra [] [.publicKey ⟨publicKey⟩]).2 := by
  simp only [fusionRound, Codec.bind_eq_ok] at h
  obtain ⟨⟨tx', sk⟩, hmake, hpure⟩ := h
  obtain rfl := Codec.pure_eq_ok.mp hpure
  obtain ⟨hinputs, houtputs⟩ := makeTransaction_eq_ok hmake
  refine ⟨?_, ?_, fun currency height => ?_, makeTransaction_extra hmake⟩
  · -- every input is the key input of its ring, for the ring's amount
    rw [getInputsAmounts, hinputs, List.filterMap_map]
    exact List.filterMap_eq_map.symm ▸ rfl
  · rw [houtputs, amountsToAddresses_decomposeFusionOutputs, List.map_map]
    exact List.map_id _
  · rw [hinputs, List.map_map]
    rfl

/-- **A round pays no fee**: at every height and in every currency, the node's `uint64_t` sum of
the inputs is the sum of the outputs, which are the digits of the same `uint64_t` sum. -/
theorem fusionRound_fee_eq_zero {fusionInputs : List OutputToTransfer} {keysInfo : List InputInfo}
    {tx : TransactionImpl} (h : fusionRound e destination fusionInputs keysInfo = .ok tx)
    (hamounts : keysInfo.map (·.keyInfo.amount) = fusionInputs.map (·.out.amount))
    (currency : Currency) (height : ℕ) :
    currency.getTransactionAllInputsAmount tx.transaction.toTransactionPrefix height =
      get_outs_money_amount tx.transaction.toTransactionPrefix := by
  obtain ⟨-, houtputs, hinputs, -⟩ := fusionRound_eq_ok h
  set inputsAmount := fusionInputs.foldl (fun amount input => amount + input.out.amount) 0
  -- the wallet and the node both add the selected amounts up modulo `2 ^ 64`
  have hwallet : inputsAmount.toNat =
      ((fusionInputs.map (·.out.amount)).map UInt64.toNat).sum % 2 ^ 64 := by
    rw [toNat_foldl_add_mod, List.map_map, UInt64.toNat_zero, Nat.zero_add]
    rfl
  have hnode : (currency.getTransactionAllInputsAmount tx.transaction.toTransactionPrefix
      height).toNat = ((fusionInputs.map (·.out.amount)).map UInt64.toNat).sum % 2 ^ 64 := by
    rw [Currency.getTransactionAllInputsAmount, toNat_foldl_add_mod, UInt64.toNat_zero,
      Nat.zero_add, ← hamounts, ← hinputs currency height, List.map_map]
    rfl
  -- the outputs are a permutation of the digits of the wallet's sum
  have houts : (get_outs_money_amount tx.transaction.toTransactionPrefix).toNat =
      inputsAmount.toNat := by
    have hdigits : (tx.transaction.outputs.map fun output => output.amount.toNat) =
        ((decomposeAmount inputsAmount 0).insertionSort (· ≤ ·)).map UInt64.toNat := by
      rw [← houtputs, List.map_map]
      rfl
    rw [get_outs_money_amount, toNat_foldl_add_mod, UInt64.toNat_zero, Nat.zero_add]
    change (tx.transaction.outputs.map fun output => output.amount.toNat).sum % 2 ^ 64 = _
    rw [hdigits, ((List.perm_insertionSort _ _).map _).sum_eq, decomposeAmount_zero,
      sum_digitChunks inputsAmount 1 (by simpa using inputsAmount.toNat_lt), UInt64.toNat_one,
      Nat.mul_one, Nat.mod_eq_of_lt inputsAmount.toNat_lt]
  apply UInt64.toNat_inj.mp
  rw [hnode, houts, hwallet]

/-- **The loop keeps a prefix**: when the rings are as many as the inputs, the inputs the loop
ends with are a prefix of those it started from, and its transaction is the round on that
prefix and the rings of it. -/
theorem fusionRounds_eq_ok {fusionInputs₀ : List OutputToTransfer} {keysInfo₀ : List InputInfo}
    (hlen : keysInfo₀.length = fusionInputs₀.length) :
    ∀ {fuel m : ℕ} {result : List OutputToTransfer × TransactionImpl},
      fusionRounds c e destination fuel (fusionInputs₀.take m) (keysInfo₀.take m) = .ok result →
      ∃ m', result.1 = fusionInputs₀.take m' ∧
        fusionRound e destination result.1 (keysInfo₀.take m') = .ok result.2
  | fuel, m, result, h => by
    rw [fusionRounds, Codec.bind_eq_ok] at h
    obtain ⟨fusionTransaction, hround, hrest⟩ := h
    cases fuel with
    | zero =>
      obtain rfl := (Codec.pure_eq_ok.mp hrest).symm
      exact ⟨m, rfl, hround⟩
    | succ fuel =>
      dsimp only at hrest
      by_cases hbig : getTransactionSize fusionTransaction > c.fusionTxMaxSize ∧
          c.fusionTxMinInputCount ≤ (fusionInputs₀.take m).length
      · -- the round was too big: the same on a prefix one shorter
        rw [if_pos hbig, dropLast_take_eq_take, dropLast_take_eq_take, hlen] at hrest
        exact fusionRounds_eq_ok hlen hrest
      · rw [if_neg hbig] at hrest
        obtain rfl := (Codec.pure_eq_ok.mp hrest).symm
        exact ⟨m, rfl, hround⟩

/-- **The round a successful call sent**: the transaction of a round on a prefix, of at least
`fusionTxMinInputCount`, of the picked outputs and of their rings, which passed the send. -/
theorem createFusionTransaction_round {w : WalletGreen} {node : WalletNode} {env : FusionEnv}
    {threshold mixin : UInt64} {sent : Transaction}
    (h : createFusionTransaction c e w node env threshold mixin destination = .ok sent) :
    ∃ (maxInputCount : ℕ) (picked : List OutputToTransfer) (keysInfo : List InputInfo) (m : ℕ)
      (tx : TransactionImpl),
      pickRandomFusionInputs c env.lastKnownBlockHeight env.walletOuts threshold
          c.fusionTxMinInputCount maxInputCount env.bucketNumbers env.draw = .ok picked ∧
        keysInfo.map (·.keyInfo.amount) = picked.map (·.out.amount) ∧
        fusionRound e destination (picked.take m) (keysInfo.take m) = .ok tx ∧
        c.fusionTxMinInputCount ≤ (picked.take m).length ∧ tx.transaction = sent ∧
        w.validateSaveAndSendTransaction c node sent true = .ok () := by
  unfold createFusionTransaction at h
  extract_lets MAX_FUSION_OUTPUT_COUNT fusionTreshold estimatedFusionInputsCount at h
  -- the three checks before the inputs are picked passed
  split_ifs at h
  obtain ⟨picked, hpick, h⟩ := Codec.bind_eq_ok.mp h
  rw [Codec.mapError_eq_ok] at hpick
  split_ifs at h
  unfold sendFusionInputs at h
  extract_lets sendRest at h
  -- with decoys requested or not, the rest runs on the decoys there are
  obtain ⟨mixinResult, h⟩ : ∃ mixinResult, sendRest mixinResult = .ok sent := by
    split_ifs at h
    · obtain ⟨mixinResult, -, h⟩ := Codec.bind_eq_ok.mp h
      exact ⟨mixinResult, h⟩
    · obtain ⟨mixinResult, -, h⟩ := Codec.bind_eq_ok.mp h
      exact ⟨mixinResult, h⟩
  simp only [sendRest] at h
  obtain ⟨⟨fusionInputs, fusionTransaction⟩, hrounds, h⟩ := Codec.bind_eq_ok.mp h
  rw [Codec.mapError_eq_ok] at hrounds
  split_ifs at h with hcount
  obtain ⟨u, hvalidate, hpure⟩ := Codec.bind_eq_ok.mp h
  obtain rfl := Codec.pure_eq_ok.mp hpure
  -- the loop starts from all the picked outputs and their rings
  have hlen := length_prepareInputs picked mixinResult mixin
  have hstart : fusionRounds c e destination picked.length (picked.take picked.length)
      ((prepareInputs picked mixinResult mixin).take picked.length) =
        .ok (fusionInputs, fusionTransaction) := by
    rw [List.take_length, List.take_of_length_le hlen.le]
    exact hrounds
  obtain ⟨m, htake, hround⟩ := fusionRounds_eq_ok hlen hstart
  dsimp only at htake hround
  refine ⟨_, picked, prepareInputs picked mixinResult mixin, m, fusionTransaction, hpick,
    map_amount_prepareInputs picked mixinResult mixin, ?_, ?_, rfl, hvalidate⟩
  · rw [← htake]
    exact hround
  · rw [← htake]
    exact Nat.not_lt.mp hcount

/-- **What a successful call sent**: the inputs of the rounds' prefix of the picked outputs,
which are of one decade and at least `fusionTxMinInputCount`; outputs that are the sorted
digits of their sum; data within `fusionTxMaxSize`; and the node took it. -/
theorem createFusionTransaction_eq_ok {w : WalletGreen} {node : WalletNode} {env : FusionEnv}
    {threshold mixin : UInt64} {sent : Transaction} (hmin : 0 < c.fusionTxMinInputCount)
    (h : createFusionTransaction c e w node env threshold mixin destination = .ok sent) :
    ∃ (fusionInputs : List OutputToTransfer) (transactionData : List UInt8),
      (∃ k, ∀ input ∈ fusionInputs, ∃ d, 1 ≤ d ∧ d ≤ 9 ∧ input.out.amount.toNat = d * 10 ^ k) ∧
      c.fusionTxMinInputCount ≤ fusionInputs.length ∧
      getInputsAmounts sent = fusionInputs.map (·.out.amount) ∧
      sent.outputs.map (·.amount) =
        (decomposeAmount (fusionInputs.foldl (fun amount input => amount + input.out.amount) 0)
          0).insertionSort (· ≤ ·) ∧
      toBinaryArray Output.serializeTransaction sent = some transactionData ∧
      transactionData.length ≤ c.fusionTxMaxSize ∧ node.relayTransaction sent = true := by
  obtain ⟨maxInputCount, picked, keysInfo, m, tx, hpick, hamounts, hround, hcount, rfl,
    hvalidate⟩ := createFusionTransaction_round h
  obtain ⟨transactionData, hdata, -, hsize, hrelay⟩ := validateSaveAndSendTransaction_eq_ok hvalidate
  obtain ⟨hinputs, houtputs, -⟩ := fusionRound_eq_ok hround
  obtain ⟨k, hdecade⟩ := pickRandomFusionInputs_decade hmin hpick
  refine ⟨picked.take m, transactionData,
    ⟨k, fun input hinput => hdecade input (List.mem_of_mem_take hinput)⟩, hcount, ?_, houtputs,
    hdata, hsize rfl, hrelay⟩
  rw [hinputs, List.map_take, hamounts, List.map_take]

/-- **The node takes the sent transaction as fusion exactly when no input is below the dust
threshold.** On the main network, whatever the wallet holds, the threshold, mixin, height and
node, a transaction `createFusionTransaction` sent, whose input amounts add up without wrap,
passes `Currency::isFusionTransaction` on its data exactly when every input amount is at least
`defaultDustThreshold`. -/
theorem createFusionTransaction_isFusionTransaction_iff {w : WalletGreen} {node : WalletNode}
    {env : FusionEnv} {threshold mixin : UInt64} {sent : Transaction}
    (h : createFusionTransaction Currency.mainnet e w node env threshold mixin destination =
      .ok sent)
    (hfit : ((getInputsAmounts sent).map UInt64.toNat).sum < 2 ^ 64) :
    ∃ transactionData, toBinaryArray Output.serializeTransaction sent = some transactionData ∧
      (Currency.mainnet.isFusionTransaction (getInputsAmounts sent) (sent.outputs.map (·.amount))
          transactionData.length = true ↔
        ∀ amount ∈ getInputsAmounts sent, Currency.mainnet.defaultDustThreshold ≤ amount) := by
  obtain ⟨fusionInputs, transactionData, ⟨k, hdecade⟩, hcount, hinputs, houtputs, hdata, hsize,
    -⟩ := createFusionTransaction_eq_ok (by decide) h
  -- the wallet's sum over the inputs is the node's sum over their amounts
  have hsum : fusionInputs.foldl (fun amount input => amount + input.out.amount) 0 =
      (fusionInputs.map (·.out.amount)).foldl (· + ·) 0 := by
    rw [List.foldl_map]
  refine ⟨transactionData, hdata, ?_⟩
  rw [houtputs, hinputs, hsum]
  rw [hinputs] at hfit
  exact Currency.isFusionTransaction_mainnet_iff_of_decade (by simpa using hdecade) hfit
    (by simpa using hcount) hsize

/-- **The node relays the sent transaction as fusion.** Against a node that judges as the
daemon, whatever its blockchain, the wallet, the threshold and the mixin, the transaction a
successful `createFusionTransaction` sent pays no fee at any height, carries no TTL, and passes
`Currency::isFusionTransaction` on its serialized size: `add_tx` marks a transaction without
fee or TTL to be relayed only as fusion. -/
theorem createFusionTransaction_isFusionTransaction {ctx : Context} {s : Blockchain}
    {w : WalletGreen} {env : FusionEnv} {threshold mixin : UInt64} {sent : Transaction}
    (hprims : DaemonPrimitives ctx)
    (h : createFusionTransaction ctx.m_currency e w (inProcessNode ctx s) env threshold mixin
      destination = .ok sent) :
    ∃ transactionData, toBinaryArray Output.serializeTransaction sent = some transactionData ∧
      (∀ height, ctx.m_currency.getTransactionAllInputsAmount sent.toTransactionPrefix height =
        get_outs_money_amount sent.toTransactionPrefix) ∧
      extraTTL sent.extra = 0 ∧
      ctx.m_currency.isFusionTransaction (getInputsAmounts sent) (sent.outputs.map (·.amount))
        transactionData.length = true := by
  obtain ⟨maxInputCount, picked, keysInfo, m, tx, -, hamounts, hround, -, rfl, hvalidate⟩ :=
    createFusionTransaction_round h
  obtain ⟨transactionData, hdata, -, -, hrelay⟩ := validateSaveAndSendTransaction_eq_ok hvalidate
  have hfee := fusionRound_fee_eq_zero hround (by rw [List.map_take, hamounts, List.map_take])
    ctx.m_currency
  -- the extra holds a public key and no TTL
  have httl : extraTTL tx.transaction.extra = 0 := by
    obtain ⟨-, -, -, publicKey, hextra⟩ := fusionRound_eq_ok hround
    rw [hextra, extraTTL_writeTransactionExtra _ (by simp [TransactionExtraField.WithinLimits])
      (by simp)]
    rfl
  have hsize : ctx.prims.getObjectBinarySize tx.transaction = transactionData.length := by
    rw [hprims.getObjectBinarySize, hdata, Option.getD_some]
  -- the pool marked it to be relayed, and without fee or TTL only the fusion test does that
  obtain ⟨height, hmarked⟩ := relayTransaction_inProcessNode hrelay
  obtain ⟨-, hverdict⟩ := tx_memory_pool.should_be_relayed_add_tx rfl hmarked
  refine ⟨transactionData, hdata, hfee, httl, ?_⟩
  rcases hverdict with hpays | hfusion | hlives
  · exact absurd (by rw [hfee height, UInt64.sub_self]) hpays
  · rw [← hsize, ← hprims.isFusionTransaction]
    exact hfusion
  · exact absurd ((hprims.ttl _).trans httl) hlives

end Sent

/-! ### A wallet of twelve outputs the node holds -/

/-- A key output of the wallet's first record, of `amount`, at position `i` of its
transaction. -/
def sampleFusionOutput (amount : UInt64) (i : ℕ) : TransactionOutputInformation :=
  { type := .Key, amount := amount, globalOutputIndex := i.toUInt32,
    outputInTransaction := i.toUInt32, transactionHash := NULL_HASH,
    transactionPublicKey := default, outputKey := default, requiredSignatures := 0, term := 0 }

/-- The amount of output `i` of the funding transaction: eight of `10`, then four of `30`. -/
def sampleFundingAmount (i : ℕ) : UInt64 := if i < 8 then 10 else 30

/-- A coinbase of twelve key outputs, of the amounts `sampleFundingAmount`. -/
def sampleFundingTx : Transaction :=
  { version := 1, unlockTime := 0, inputs := [.base ⟨0⟩],
    outputs := (List.range 12).map fun i =>
      ⟨sampleFundingAmount i, .key ⟨⟨BitVec.ofNat 256 (i + 1)⟩⟩⟩,
    extra := [], signatures := [] }

/-- The block at height `0` holding `sampleFundingTx`. -/
def sampleFundingBlock : BlockEntry where
  bl := ⟨⟨1, 0, 0, 0, NULL_HASH⟩, sampleFundingTx, []⟩
  height := 0
  block_cumulative_size := 0
  cumulative_difficulty := 1
  already_generated_coins := 0
  transactions := [⟨sampleFundingTx, (List.range 12).map UInt32.ofNat⟩]

/-- A node of the one block `sampleFundingBlock`, its outputs indexed by amount. -/
def sampleDaemonState : Blockchain :=
  { Blockchain.empty tx_memory_pool.empty with
    m_blocks := [sampleFundingBlock]
    m_outputs := fun amount =>
      if amount = 10 then (List.range 8).map fun i => (⟨0, 0⟩, UInt16.ofNat i)
      else if amount = 30 then (List.range' 8 4).map fun i => (⟨0, 0⟩, UInt16.ofNat i)
      else []
    m_current_block_cumul_sz_limit := 1000000 }

/-- The main network's node, with signatures that verify and the daemon's size, TTL and fusion
test. -/
def sampleDaemonContext : Context where
  m_currency := Currency.mainnet
  m_checkpoints := Checkpoints.empty
  prims :=
    { get_block_hash := fun _ => NULL_HASH
      getObjectHash := fun _ => NULL_HASH
      getPrefixHash := fun _ => NULL_HASH
      getObjectBinarySize := fun tx =>
        ((toBinaryArray Output.serializeTransaction tx).getD []).length
      check_key := fun _ => true
      check_signature := fun _ _ _ => true
      keyImageInSubgroup := fun _ => true
      check_ring_signature := fun _ _ _ _ => true
      get_block_longhash := fun _ => none
      hasMergeMiningTag := fun _ => false
      getPaymentId := fun _ => none
      ttl := extraTTL
      isFusionTransaction := fun tx size => Currency.mainnet.isFusionTransaction
        (getInputsAmounts tx) (tx.outputs.map (·.amount)) size }
  now := 0

/-- One wallet record holding the twelve outputs of `sampleFundingTx`, by their global indexes
among the outputs of their amounts, with the buckets tried in order. -/
def sampleFundedFusionEnv : FusionEnv where
  walletsCount := 1
  walletOuts := [⟨0, (List.range 12).map fun i =>
    { sampleFusionOutput (sampleFundingAmount i) i with
      globalOutputIndex := UInt32.ofNat (if i < 8 then i else i - 8) }⟩]
  lastKnownBlockHeight := 1
  getRandomOutsByAmounts _ _ := ([], false)
  bucketNumbers := List.range 20
  draw _ := 0

/-- Curve operations and hashes that return constants, but one key image per output. -/
def sampleFusionMakeEnv : MakeTransactionEnv Unit Unit where
  makeAccountKeys _ := ()
  generate_key_image_helper _ _ n := (⟨default, ⟨0⟩⟩, ⟨BitVec.ofNat 256 n⟩)
  generate_key_derivation _ _ := some ()
  derive_public_key _ _ key := key
  generateDeterministicTransactionKeys _ _ := ⟨default, ⟨0⟩⟩
  getTransactionInputsHash _ := default
  getTransactionPrefixHash _ := default
  generate_ring_signature _ _ _ _ _ _ := default
  messageField _ _ _ := none
  createKeys := ⟨default, ⟨0⟩⟩
  m_viewSecretKey := ⟨0⟩

/-- With threshold 100 and no decoys the wallet sends the twelve outputs, 200 in all, as one
output of 200, and the node relays it as fusion. -/
theorem createFusionTransaction_isFusionTransaction_sample :
    ∃ sent transactionData,
      createFusionTransaction sampleDaemonContext.m_currency sampleFusionMakeEnv sampleWallet
          (inProcessNode sampleDaemonContext sampleDaemonState) sampleFundedFusionEnv 100 0
          ⟨default, default⟩ = .ok sent ∧
        toBinaryArray Output.serializeTransaction sent = some transactionData ∧
        Currency.mainnet.isFusionTransaction (getInputsAmounts sent) (sent.outputs.map (·.amount))
          transactionData.length = true := by
  -- the run goes through: the node finds the twelve outputs and takes the transaction
  have hrun : (createFusionTransaction sampleDaemonContext.m_currency sampleFusionMakeEnv
      sampleWallet (inProcessNode sampleDaemonContext sampleDaemonState) sampleFundedFusionEnv 100 0
      ⟨default, default⟩).toOption.isSome = true := by
    decide +kernel
  cases hsent : createFusionTransaction sampleDaemonContext.m_currency sampleFusionMakeEnv
      sampleWallet (inProcessNode sampleDaemonContext sampleDaemonState) sampleFundedFusionEnv 100 0
      ⟨default, default⟩ with
  | error err =>
    rw [hsent] at hrun
    cases hrun
  | ok sent =>
    obtain ⟨transactionData, hdata, -, -, hfusion⟩ := createFusionTransaction_isFusionTransaction
      ⟨fun _ => rfl, fun _ => rfl, fun _ _ => rfl⟩ hsent
    exact ⟨sent, transactionData, rfl, hdata, hfusion⟩

end WalletGreen

end UltraNoteCore
