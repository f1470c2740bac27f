import UltraNoteCore.Transfers.TransfersContainer

/-!
# The unlock jobs of the transfers container

`TransfersContainer` schedules the unlock of each available output as a `TransferUnlockJob` at
the height `makeTransferUnlockJob` computes, and `advanceHeight` reports the outputs whose jobs
lie between the old and the new height. Every call that moves an output into or out of the
available container adds or deletes its job in the same step. So along every run, including one
that an exception cuts short, the jobs are exactly those of the available outputs
(`JobsExact`). `advanceHeight` and `detach` then report exactly the available outputs whose job
height lies in the window they scan.

Whether that window is the change of state `isIncluded` computes depends on the unlock time.
Read as a height, the job height of an output is one more than the first height at which it is
unlocked (`includeState_eq_unlocked_iff`). The scan from a height `p > 0` then reports exactly
the outputs that turn unlocked. Read as a time, the job keeps the unlock time, cast to
`uint32_t`, as a height, while `isIncluded` compares it with the clock, so an output unlocked by
the clock is reported at a height unrelated to its unlock, or never.

## Main definitions

* `TransfersContainer.unlockJob`: the job of an output at the container's spendable age
* `TransfersContainer.JobsExact`: the jobs are those of the available outputs, one each
* `TransfersContainer.unlocksBetween`, `TransfersContainer.locksBetween`: the windows that
  `getUnlockingTransfers` and `getLockingTransfers` scan
* `TransfersContainer.detachState`: the container after `detach`

## Main results

* `JobsExact.create` and one lemma per step, `Call.preserves_jobsExact`,
  `Reachable.jobsExact`: the jobs stay exact along every run
* `advanceHeight_perm`, `detach_perm`: what the two calls report
* `includeState_eq_unlocked_iff`, `unlocksBetween_iff`, `locksBetween_iff`: the windows against
  the state of an output whose unlock time is a height
* `reachable_jobsExact_and_windows`: the schedule of a reachable container, with
  `advanceHeight_timestamp_sample`, an output unlocked by the clock that `advanceHeight` does not
  report
-/

namespace UltraNoteCore

namespace TransfersContainer

open EStateM

/-- The job `addUnlockJob` makes for `t` in `c`. -/
def unlockJob (c : TransfersContainer) (t : TransactionOutputInformationEx) : TransferUnlockJob :=
  makeTransferUnlockJob t c.m_transactionSpendableAge.toUInt32

/-- The unlock jobs are the jobs of the available outputs, one for each. -/
def JobsExact (c : TransfersContainer) : Prop :=
  c.m_transfersUnlockJobs.items.Perm (c.m_availableTransfers.items.map c.unlockJob)

@[simp] theorem unlockJob_transactionOutputKey (c : TransfersContainer)
    (t : TransactionOutputInformationEx) :
    (c.unlockJob t).transactionOutputKey = t.getTransactionOutputKey := rfl

/-- A job does not read the visibility of its output. -/
@[simp] theorem makeTransferUnlockJob_visible (t : TransactionOutputInformationEx) (v : Bool)
    (age : UInt32) : makeTransferUnlockJob { t with visible := v } age = makeTransferUnlockJob t age :=
  rfl

theorem unlockJob_eq_of_age {c c' : TransfersContainer}
    (h : c'.m_transactionSpendableAge = c.m_transactionSpendableAge) : c'.unlockJob = c.unlockJob := by
  unfold unlockJob
  rw [h]

/-! ## The fields each step touches -/

section Fields

variable (c : TransfersContainer)

theorem map_unlockJob_setVisible
    (l : KeyedList TransactionOutputInformationEx (·.getTransactionOutputKey))
    (descriptor : SpentOutputDescriptor) (visible : TransactionOutputInformationEx → Bool) :
    (setVisible l id (fun a v => { a with visible := v }) (fun _ _ => rfl) descriptor
        visible).items.map c.unlockJob = l.items.map c.unlockJob := by
  simp only [setVisible, KeyedList.map_items, List.map_map]
  refine List.map_congr_left fun t _ => ?_
  simp only [Function.comp_apply, id]
  split
  · exact makeTransferUnlockJob_visible t _ _
  · rfl

@[simp] theorem updateTransfersVisibility_jobs (keyImage : KeyImage) :
    (c.updateTransfersVisibility keyImage).m_transfersUnlockJobs = c.m_transfersUnlockJobs := by
  unfold updateTransfersVisibility
  dsimp only
  split
  · rfl
  · split <;> rfl

@[simp] theorem updateTransfersVisibility_spendableAge (keyImage : KeyImage) :
    (c.updateTransfersVisibility keyImage).m_transactionSpendableAge =
      c.m_transactionSpendableAge := by
  unfold updateTransfersVisibility
  dsimp only
  split
  · rfl
  · split <;> rfl

@[simp] theorem updateTransfersVisibility_currentHeight (keyImage : KeyImage) :
    (c.updateTransfersVisibility keyImage).m_currentHeight = c.m_currentHeight := by
  unfold updateTransfersVisibility
  dsimp only
  split
  · rfl
  · split <;> rfl

theorem map_unlockJob_updateTransfersVisibility (keyImage : KeyImage) :
    (c.updateTransfersVisibility keyImage).m_availableTransfers.items.map c.unlockJob =
      c.m_availableTransfers.items.map c.unlockJob := by
  unfold updateTransfersVisibility
  dsimp only
  split
  · exact map_unlockJob_setVisible c _ _ _
  · split
    · exact map_unlockJob_setVisible c _ _ _
    · rfl

@[simp] theorem copyToSpent_jobs (block : TransactionBlockInfo) (tx : ITransactionReader)
    (inputIndex : Nat) (output : TransactionOutputInformationEx) :
    (c.copyToSpent block tx inputIndex output).m_transfersUnlockJobs = c.m_transfersUnlockJobs := by
  unfold copyToSpent
  dsimp only
  split <;> rfl

@[simp] theorem copyToSpent_available (block : TransactionBlockInfo) (tx : ITransactionReader)
    (inputIndex : Nat) (output : TransactionOutputInformationEx) :
    (c.copyToSpent block tx inputIndex output).m_availableTransfers = c.m_availableTransfers := by
  unfold copyToSpent
  dsimp only
  split <;> rfl

@[simp] theorem copyToSpent_spendableAge (block : TransactionBlockInfo) (tx : ITransactionReader)
    (inputIndex : Nat) (output : TransactionOutputInformationEx) :
    (c.copyToSpent block tx inputIndex output).m_transactionSpendableAge =
      c.m_transactionSpendableAge := by
  unfold copyToSpent
  dsimp only
  split <;> rfl

end Fields

/-! ## The steps keep the jobs exact -/

namespace JobsExact

variable {c c' : TransfersContainer}

/-- A fresh container has no outputs and no jobs. -/
theorem create (currency : Currency) (transactionSpendableAge : UInt64) :
    (TransfersContainer.create currency transactionSpendableAge).JobsExact :=
  List.Perm.refl []

/-- An output and its job inserted together. -/
theorem emplace (h : c.JobsExact) (t : TransactionOutputInformationEx)
    (hage : c'.m_transactionSpendableAge = c.m_transactionSpendableAge)
    (hjobs : c'.m_transfersUnlockJobs = c.m_transfersUnlockJobs.emplace (c.unlockJob t))
    (havailable : c'.m_availableTransfers = c.m_availableTransfers.emplace t) : c'.JobsExact := by
  unfold JobsExact
  rw [unlockJob_eq_of_age hage, hjobs, havailable]
  exact KeyedList.perm_map_emplace h (fun _ => rfl) t

/-- An output and its job erased together. -/
theorem erase (h : c.JobsExact) (key : TransactionOutputKey)
    (hage : c'.m_transactionSpendableAge = c.m_transactionSpendableAge)
    (hjobs : c'.m_transfersUnlockJobs = c.m_transfersUnlockJobs.erase key)
    (havailable : c'.m_availableTransfers = c.m_availableTransfers.erase key) : c'.JobsExact := by
  unfold JobsExact
  rw [unlockJob_eq_of_age hage, hjobs, havailable]
  exact KeyedList.perm_map_erase h (fun _ => rfl) key

theorem updateTransfersVisibility (h : c.JobsExact) (keyImage : KeyImage) :
    (c.updateTransfersVisibility keyImage).JobsExact := by
  unfold JobsExact
  rw [updateTransfersVisibility_jobs, unlockJob_eq_of_age (updateTransfersVisibility_spendableAge c _),
    map_unlockJob_updateTransfersVisibility]
  exact h

theorem spendTransfer (h : c.JobsExact) (block : TransactionBlockInfo) (tx : ITransactionReader)
    (inputIndex : Nat) (output : TransactionOutputInformationEx) :
    (c.spendTransfer block tx inputIndex output).JobsExact :=
  -- `deleteUnlockJob` and the erasure from the available container use the output's key
  h.erase output.getTransactionOutputKey (copyToSpent_spendableAge _ _ _ _ _)
    (copyToSpent_jobs _ _ _ _ _) (congrArg (KeyedList.erase · _) (copyToSpent_available _ _ _ _ _))

theorem unspendTransfer (h : c.JobsExact) (key : TransactionOutputKey) :
    (c.unspendTransfer key).JobsExact := by
  unfold TransfersContainer.unspendTransfer
  dsimp only
  split
  · exact h
  · next it _ =>
    -- the job and the output go back in one step, then the visibility is updated
    have hback : ({ c.addUnlockJob it.toTransactionOutputInformationEx with
        m_availableTransfers :=
          (c.addUnlockJob it.toTransactionOutputInformationEx).m_availableTransfers.emplace
            it.toTransactionOutputInformationEx
        m_spentTransfers := (c.addUnlockJob it.toTransactionOutputInformationEx).m_spentTransfers.erase
            key } : TransfersContainer).JobsExact :=
      h.emplace it.toTransactionOutputInformationEx rfl rfl rfl
    split
    · split
      · exact hback.updateTransfersVisibility _
      · exact hback
    · exact hback

theorem eraseUnconfirmedTransfer (h : c.JobsExact) (key : TransactionOutputKey) :
    (c.eraseUnconfirmedTransfer key).JobsExact := by
  unfold TransfersContainer.eraseUnconfirmedTransfer
  dsimp only
  split
  · exact h
  · split
    · exact JobsExact.updateTransfersVisibility (by exact h) _
    · exact h

theorem eraseAvailableTransfer (h : c.JobsExact) (key : TransactionOutputKey) :
    (c.eraseAvailableTransfer key).JobsExact := by
  unfold TransfersContainer.eraseAvailableTransfer
  dsimp only
  split
  · exact h
  · next it hit =>
    -- the output found under `key` has that key, so its job is the one erased
    have hkey : it.getTransactionOutputKey = key := (KeyedList.find?_eq_some hit).2
    have hgone : ({ c.deleteUnlockJob it with
        m_availableTransfers := (c.deleteUnlockJob it).m_availableTransfers.erase key } :
          TransfersContainer).JobsExact :=
      h.erase key rfl (by rw [← hkey]; rfl) rfl
    split
    · exact hgone.updateTransfersVisibility _
    · exact hgone

/-- The record of a transaction touches no output. -/
theorem addTransactionInformation (h : c.JobsExact) (block : TransactionBlockInfo)
    (tx : ITransactionReader) : (c.addTransactionInformation block tx).JobsExact :=
  h

/-- The spending block of spent outputs touches no available one. -/
theorem setSpendingBlock (h : c.JobsExact) (block : TransactionBlockInfo) (transactionHash : Hash) :
    (c.setSpendingBlock block transactionHash).JobsExact :=
  h

/-- A left fold of steps that each keep the jobs exact. -/
theorem foldl {β : Type} {f : TransfersContainer → β → TransfersContainer}
    (hf : ∀ c x, c.JobsExact → (f c x).JobsExact) :
    ∀ (xs : List β) {c : TransfersContainer}, c.JobsExact → (xs.foldl f c).JobsExact
  | [], _, h => h
  | x :: xs, c, h => foldl hf xs (hf c x h)

theorem deleteTransactionTransfers (h : c.JobsExact) (transactionHash : Hash) :
    (c.deleteTransactionTransfers transactionHash).JobsExact :=
  -- the three loops: spent outputs back to available, unconfirmed and available ones erased
  foldl (fun _ key h => h.eraseAvailableTransfer key) _ <|
    foldl (fun _ key h => h.eraseUnconfirmedTransfer key) _ <|
      foldl (fun _ key h => h.unspendTransfer key) _ h

theorem detachLoop (height : UInt32) :
    ∀ (txs : List TransactionInformation) {c : TransfersContainer}, c.JobsExact →
      (TransfersContainer.detachLoop height txs c).1.JobsExact
  | [], _, h => h
  | txInfo :: rest, c, h => by
    have hdeleted : ({ c.deleteTransactionTransfers txInfo.transactionHash with
        m_transactions := (c.deleteTransactionTransfers txInfo.transactionHash).m_transactions.erase
          txInfo.transactionHash } : TransfersContainer).JobsExact :=
      deleteTransactionTransfers h txInfo.transactionHash
    unfold TransfersContainer.detachLoop
    dsimp only
    split
    · exact h
    -- whether to delete is decided one way for an unconfirmed transaction, another for one in a
    -- block
    · split <;> split
      · exact detachLoop height rest hdeleted
      · exact detachLoop height rest h
      · exact detachLoop height rest hdeleted
      · exact detachLoop height rest h

end JobsExact

/-! ## The calls keep the jobs exact, also when they throw -/

section Calls

theorem preserves_addTransactionOutput (info : TransactionOutputInformationEx)
    (transferIsUnconfirmed : Bool) :
    Preserves JobsExact (addTransactionOutput info transferIsUnconfirmed) := by
  unfold addTransactionOutput
  refine Preserves.get_bind fun c hc => (?_ : Preserves JobsExact _) c hc
  dsimp only
  -- an unconfirmed output goes to its own container, a confirmed one together with its job
  refine Preserves.ite (Preserves.set (by exact hc)) ?_
  exact Preserves.ite (Preserves.throw _) (Preserves.set (hc.emplace info rfl rfl rfl))

theorem preserves_addTransactionOutputs (block : TransactionBlockInfo) (tx : ITransactionReader) :
    ∀ (transfers : List TransactionOutputInformationIn) (outputsAdded : Bool),
      Preserves JobsExact (addTransactionOutputs block tx transfers outputsAdded)
  | [], _ => Preserves.pure _
  | _ :: transfers, _ => by
    rw [addTransactionOutputs]
    dsimp only
    refine Preserves.ite (Preserves.throw _) ?_
    refine (preserves_addTransactionOutput _ _).bind fun _ => ?_
    -- a key output has its key image's visibility updated before the loop goes on
    refine Preserves.ite ?_ ?_
    · exact (Preserves.modify fun _ h => h.updateTransfersVisibility _).bind fun _ =>
        preserves_addTransactionOutputs block tx transfers true
    · exact preserves_addTransactionOutputs block tx transfers true

theorem preserves_addTransactionInputs (block : TransactionBlockInfo) (tx : ITransactionReader) :
    ∀ (i : Nat) (inputs : List TransactionInput) (inputsAdded : Bool),
      Preserves JobsExact (addTransactionInputs block tx i inputs inputsAdded)
  | _, [], _ => Preserves.pure _
  | i, .key _ :: inputs, _ => by
    rw [addTransactionInputs]
    refine Preserves.get_bind fun c hc => (?_ : Preserves JobsExact _) c hc
    dsimp only
    -- a key input throws, spends nothing of the container, or spends the first available
    -- output of its amount
    refine Preserves.ite (Preserves.throw _) ?_
    refine Preserves.ite ?_ ?_
    · exact Preserves.ite (Preserves.throw _) (preserves_addTransactionInputs block tx _ _ _)
    split
    · exact Preserves.throw _
    · exact (Preserves.set ((hc.spendTransfer _ _ _ _).updateTransfersVisibility _)).bind fun _ =>
        preserves_addTransactionInputs block tx _ _ _
  | i, .multisignature _ :: inputs, _ => by
    rw [addTransactionInputs]
    refine Preserves.get_bind fun c hc => (?_ : Preserves JobsExact _) c hc
    dsimp only
    split
    · exact (Preserves.set (hc.spendTransfer _ _ _ _)).bind fun _ =>
        preserves_addTransactionInputs block tx _ _ _
    · exact preserves_addTransactionInputs block tx _ _ _
  | i, .base _ :: inputs, _ => by
    rw [addTransactionInputs]
    exact preserves_addTransactionInputs block tx _ _ _

theorem preserves_doAdvanceHeight (height : UInt32) :
    Preserves JobsExact (doAdvanceHeight height) := by
  unfold doAdvanceHeight
  refine Preserves.get_bind fun c hc => (?_ : Preserves JobsExact _) c hc
  dsimp only
  refine Preserves.ite (Preserves.throw _) ?_
  exact (Preserves.set (by exact hc)).bind fun _ =>
    Preserves.get_bind fun s hs => Preserves.ofExcept _ s hs

theorem preserves_addTransaction (block : TransactionBlockInfo) (tx : ITransactionReader)
    (transfers : List TransactionOutputInformationIn) :
    Preserves JobsExact (addTransaction block tx transfers) := by
  unfold addTransaction
  refine Preserves.get_bind fun c hc => (?_ : Preserves JobsExact _) c hc
  dsimp only
  refine Preserves.ite (Preserves.throw _) ?_
  refine Preserves.ite (Preserves.throw _) ?_
  refine (preserves_addTransactionOutputs block tx transfers false).bind fun _ => ?_
  refine (preserves_addTransactionInputs block tx 0 _ false).bind fun _ => ?_
  -- the record of the transaction touches no output; the height advances for a confirmed one
  have hadvance : ∀ added : Bool, Preserves JobsExact
      (if (block.height != WALLET_LEGACY_UNCONFIRMED_TRANSACTION_HEIGHT) = true then do
        let finishedJobs ← doAdvanceHeight block.height
        pure (added, some finishedJobs)
      else pure (added, none)) := fun _ =>
    Preserves.ite ((preserves_doAdvanceHeight _).bind fun _ => Preserves.pure _) (Preserves.pure _)
  refine Preserves.ite ?_ ?_
  · exact (Preserves.modify fun _ h => h.addTransactionInformation block tx).bind fun _ => hadvance _
  · exact hadvance _

theorem preserves_confirmTransfer (block : TransactionBlockInfo) (globalIndices : List UInt32)
    (key : TransactionOutputKey) : Preserves JobsExact (confirmTransfer block globalIndices key) := by
  unfold confirmTransfer
  refine Preserves.get_bind fun c hc => (?_ : Preserves JobsExact _) c hc
  dsimp only
  split
  · exact Preserves.pure _
  · refine Preserves.ite (Preserves.throw _) ?_
    refine Preserves.ite (Preserves.throw _) ?_
    refine Preserves.set ?_
    -- the output moves from the unconfirmed container to the available one with its job
    split
    · refine JobsExact.updateTransfersVisibility ?_ _
      exact JobsExact.emplace hc _ rfl rfl rfl
    · exact JobsExact.emplace hc _ rfl rfl rfl

theorem preserves_markTransactionConfirmed (block : TransactionBlockInfo) (transactionHash : Hash)
    (globalIndices : List UInt32) :
    Preserves JobsExact (markTransactionConfirmed block transactionHash globalIndices) := by
  unfold markTransactionConfirmed
  refine Preserves.ite (Preserves.throw _)
    (Preserves.get_bind fun c hc => (?_ : Preserves JobsExact _) c hc)
  dsimp only
  split
  · exact Preserves.pure _
  · refine Preserves.ite (Preserves.pure _) ?_
    refine (Preserves.set (by exact hc)).bind fun _ => ?_
    refine (Preserves.forM (preserves_confirmTransfer block globalIndices) _).bind fun _ => ?_
    exact (Preserves.modify fun _ h => h.setSpendingBlock block transactionHash).bind fun _ =>
      Preserves.pure _

theorem preserves_deleteUnconfirmedTransaction (transactionHash : Hash) :
    Preserves JobsExact (deleteUnconfirmedTransaction transactionHash) := by
  unfold deleteUnconfirmedTransaction
  refine Preserves.get_bind fun c hc => (?_ : Preserves JobsExact _) c hc
  dsimp only
  split
  · exact Preserves.pure _
  · refine Preserves.ite (Preserves.pure _) ?_
    exact (Preserves.set (by exact hc.deleteTransactionTransfers transactionHash)).bind fun _ =>
      Preserves.pure _

theorem preserves_detach (height : UInt32) : Preserves JobsExact (detach height) := by
  unfold detach
  refine Preserves.get_bind fun c hc => (?_ : Preserves JobsExact _) c hc
  dsimp only
  -- the loop deletes the cut transactions, then the height moves and the locked outputs are read
  exact (Preserves.set (by exact JobsExact.detachLoop height c.transactionsByHeight.reverse hc)).bind
    fun _ => (Preserves.ofExcept _).bind fun _ => Preserves.pure _

/-- Every call keeps the jobs exact, whether it returns or throws. -/
theorem Call.preserves_jobsExact : ∀ call : Call, Preserves JobsExact call.run
  | .addTransaction block tx transfers =>
    (preserves_addTransaction block tx transfers).bind fun _ => Preserves.pure _
  | .markTransactionConfirmed block transactionHash globalIndices =>
    (preserves_markTransactionConfirmed block transactionHash globalIndices).bind fun _ =>
      Preserves.pure _
  | .deleteUnconfirmedTransaction transactionHash =>
    (preserves_deleteUnconfirmedTransaction transactionHash).bind fun _ => Preserves.pure _
  | .detach height => (preserves_detach height).bind fun _ => Preserves.pure _
  | .advanceHeight height => (preserves_doAdvanceHeight height).bind fun _ => Preserves.pure _

theorem jobsExact_runCalls :
    ∀ (calls : List Call) {c : TransfersContainer}, c.JobsExact → (runCalls calls c).JobsExact
  | [], _, h => h
  | call :: calls, c, h => jobsExact_runCalls calls (call.preserves_jobsExact c h)

/-- In every reachable container the jobs are those of the available outputs. -/
theorem Reachable.jobsExact {c : TransfersContainer} (hc : c.Reachable) : c.JobsExact := by
  obtain ⟨currency, transactionSpendableAge, calls, rfl⟩ := hc
  exact jobsExact_runCalls calls (JobsExact.create currency transactionSpendableAge)

end Calls

/-! ## What `advanceHeight` and `detach` report -/

section Reports

variable {c : TransfersContainer}

/-- The window `getUnlockingTransfers prevHeight currentHeight` scans: the jobs above
`prevHeight + 1` (all of them when `prevHeight` is `0`) up to `currentHeight + 1`. -/
def unlocksBetween (prevHeight currentHeight : UInt32) (job : TransferUnlockJob) : Bool :=
  decide ((prevHeight = 0 ∨ prevHeight + 1 < job.unlockHeight) ∧ job.unlockHeight ≤ currentHeight + 1)

/-- The window `getLockingTransfers prevHeight currentHeight` scans: the jobs above
`currentHeight + 1` up to `prevHeight + 1`. -/
def locksBetween (prevHeight currentHeight : UInt32) (job : TransferUnlockJob) : Bool :=
  decide (currentHeight + 1 < job.unlockHeight ∧ job.unlockHeight ≤ prevHeight + 1)

/-- The jobs of a window, in the order of the height index, read the available outputs whose
jobs lie in the window, each once. -/
theorem mapM_getAvailableOutput_perm (hc : c.JobsExact) (window : TransferUnlockJob → Bool) :
    ∃ L, (c.unlockJobsByHeight.filter window).mapM
        (fun job => c.getAvailableOutput job.transactionOutputKey) = .ok L ∧
      L.Perm ((c.m_availableTransfers.items.filter fun t => window (c.unlockJob t)).map
        (·.toTransactionOutputInformation)) := by
  have hwindow : (c.unlockJobsByHeight.filter window).Perm
      ((c.m_availableTransfers.items.filter fun t => window (c.unlockJob t)).map c.unlockJob) := by
    have hsorted : c.unlockJobsByHeight.Perm c.m_transfersUnlockJobs.items := List.mergeSort_perm _ _
    have hfilter := (hsorted.trans hc).filter window
    rwa [List.filter_map] at hfilter
  refine hwindow.mapM_eq_ok fun t ht => ?_
  -- the job of an available output reads that output back
  have hmem := (List.mem_filter.mp ht).1
  simp only [getAvailableOutput, unlockJob_transactionOutputKey, KeyedList.find?_key_of_mem _ hmem]

theorem getUnlockingTransfers_perm (hc : c.JobsExact) {prevHeight currentHeight : UInt32}
    (hle : prevHeight ≤ currentHeight) :
    ∃ L, c.getUnlockingTransfers prevHeight currentHeight = .ok L ∧
      L.Perm ((c.m_availableTransfers.items.filter fun t =>
        unlocksBetween prevHeight currentHeight (c.unlockJob t)).map
          (·.toTransactionOutputInformation)) := by
  unfold getUnlockingTransfers
  rw [if_neg (UInt32.not_lt.mpr hle)]
  exact mapM_getAvailableOutput_perm hc _

theorem getLockingTransfers_perm (hc : c.JobsExact) (prevHeight currentHeight : UInt32) :
    ∃ L, c.getLockingTransfers prevHeight currentHeight = .ok L ∧
      L.Perm (if prevHeight < currentHeight then []
        else (c.m_availableTransfers.items.filter fun t =>
          locksBetween prevHeight currentHeight (c.unlockJob t)).map
            (·.toTransactionOutputInformation)) := by
  unfold getLockingTransfers
  split
  · exact ⟨[], rfl, List.Perm.nil⟩
  · exact mapM_getAvailableOutput_perm hc _

/-- `advanceHeight` from the current height up returns, in some order, the available outputs
whose jobs lie in the window between the two heights, and moves the height. -/
theorem advanceHeight_perm (hc : c.JobsExact) {height : UInt32} (hle : c.m_currentHeight ≤ height) :
    ∃ L, (advanceHeight height).run c = .ok L { c with m_currentHeight := height } ∧
      L.Perm ((c.m_availableTransfers.items.filter fun t =>
        unlocksBetween c.m_currentHeight height (c.unlockJob t)).map
          (·.toTransactionOutputInformation)) := by
  obtain ⟨L, hL, hperm⟩ :=
    getUnlockingTransfers_perm (c := { c with m_currentHeight := height }) hc hle
  refine ⟨L, ?_, hperm⟩
  simp only [advanceHeight, doAdvanceHeight, EStateM.run_bind, EStateM.run_get,
    if_neg (UInt32.not_lt.mpr hle), EStateM.run_set, hL, MonadExcept.ofExcept, EStateM.run_pure]

/-! ### Detaching -/

section Detach

variable (c : TransfersContainer)

@[simp] theorem unspendTransfer_currentHeight (key : TransactionOutputKey) :
    (c.unspendTransfer key).m_currentHeight = c.m_currentHeight := by
  unfold TransfersContainer.unspendTransfer
  dsimp only
  split
  · rfl
  · split
    · split
      · exact updateTransfersVisibility_currentHeight _ _
      · rfl
    · rfl

@[simp] theorem eraseUnconfirmedTransfer_currentHeight (key : TransactionOutputKey) :
    (c.eraseUnconfirmedTransfer key).m_currentHeight = c.m_currentHeight := by
  unfold TransfersContainer.eraseUnconfirmedTransfer
  dsimp only
  split
  · rfl
  · split
    · exact updateTransfersVisibility_currentHeight _ _
    · rfl

@[simp] theorem eraseAvailableTransfer_currentHeight (key : TransactionOutputKey) :
    (c.eraseAvailableTransfer key).m_currentHeight = c.m_currentHeight := by
  unfold TransfersContainer.eraseAvailableTransfer
  dsimp only
  split
  · rfl
  · split
    · exact updateTransfersVisibility_currentHeight _ _
    · rfl

theorem foldl_currentHeight {β : Type} {f : TransfersContainer → β → TransfersContainer}
    (hf : ∀ c x, (f c x).m_currentHeight = c.m_currentHeight) :
    ∀ (xs : List β) (c : TransfersContainer), (xs.foldl f c).m_currentHeight = c.m_currentHeight
  | [], _ => rfl
  | x :: xs, c => (foldl_currentHeight hf xs (f c x)).trans (hf c x)

@[simp] theorem deleteTransactionTransfers_currentHeight (transactionHash : Hash) :
    (c.deleteTransactionTransfers transactionHash).m_currentHeight = c.m_currentHeight := by
  unfold TransfersContainer.deleteTransactionTransfers
  dsimp only
  rw [foldl_currentHeight eraseAvailableTransfer_currentHeight,
    foldl_currentHeight eraseUnconfirmedTransfer_currentHeight,
    foldl_currentHeight unspendTransfer_currentHeight]

theorem detachLoop_currentHeight (height : UInt32) :
    ∀ (txs : List TransactionInformation) (c : TransfersContainer),
      (detachLoop height txs c).1.m_currentHeight = c.m_currentHeight
  | [], _ => rfl
  | txInfo :: rest, c => by
    have hdeleted := deleteTransactionTransfers_currentHeight c txInfo.transactionHash
    unfold detachLoop
    dsimp only
    split
    · rfl
    · split <;> split
      · exact (detachLoop_currentHeight height rest _).trans hdeleted
      · exact detachLoop_currentHeight height rest c
      · exact (detachLoop_currentHeight height rest _).trans hdeleted
      · exact detachLoop_currentHeight height rest c

/-- The container after `detach height`: the cut transactions deleted, the height one below the
cut. -/
def detachState (height : UInt32) : TransfersContainer :=
  { (detachLoop height c.transactionsByHeight.reverse c).1 with
    m_currentHeight := if height = 0 then 0 else height - 1 }

end Detach

/-- `detach` returns the deleted transactions and, in some order, the outputs still available
whose jobs lie in the window between the new height and the old one; the container it leaves
has its jobs exact. -/
theorem detach_perm (hc : c.JobsExact) (height : UInt32) :
    (c.detachState height).JobsExact ∧
      ∃ L, (detach height).run c =
          .ok ((detachLoop height c.transactionsByHeight.reverse c).2, L) (c.detachState height) ∧
        L.Perm (if c.m_currentHeight < (c.detachState height).m_currentHeight then []
          else ((c.detachState height).m_availableTransfers.items.filter fun t =>
            locksBetween c.m_currentHeight (c.detachState height).m_currentHeight
              ((c.detachState height).unlockJob t)).map (·.toTransactionOutputInformation)) := by
  have hjobs : (c.detachState height).JobsExact :=
    JobsExact.detachLoop height c.transactionsByHeight.reverse hc
  obtain ⟨L, hL, hperm⟩ := getLockingTransfers_perm hjobs c.m_currentHeight
    (c.detachState height).m_currentHeight
  refine ⟨hjobs, L, ?_, hperm⟩
  have hprev := detachLoop_currentHeight height c.transactionsByHeight.reverse c
  simp only [detach, EStateM.run_bind, EStateM.run_get, EStateM.run_set, detachState] at hL ⊢
  rw [hprev, hL]
  rfl

end Reports

/-! ## The window against the state of an output

For an output whose unlock time is a height, the job height is one more than the first height at
which `isIncluded` counts the output unlocked, provided the currency lets an output be spent one
block early and no `uint32_t` sum in the job wraps. -/

section State

variable (c : TransfersContainer) (t : TransactionOutputInformationEx)

/-- The output is a deposit: a multisignature output with a term. -/
def IsDeposit : Prop := t.type = .Multisignature ∧ t.term ≠ 0

instance : Decidable (IsDeposit t) := inferInstanceAs (Decidable (_ ∧ _))

/-- An output of a block whose unlock time is a height, in a container whose currency lets an
output be spent one block early, with the job's sums below `2^32`. -/
structure HeightLocked : Prop where
  confirmed : t.blockHeight ≠ WALLET_LEGACY_UNCONFIRMED_TRANSACTION_HEIGHT
  unlockTime_lt : t.unlockTime < c.m_currency.maxBlockHeight
  maxBlockHeight_le : c.m_currency.maxBlockHeight.toNat ≤ 2 ^ 32
  lockedTxAllowedDeltaBlocks_eq : c.m_currency.lockedTxAllowedDeltaBlocks = 1
  age_lt : t.blockHeight.toNat + c.m_transactionSpendableAge.toNat + 1 < 2 ^ 32
  term_lt : IsDeposit t → t.blockHeight.toNat + t.term.toNat < 2 ^ 32

variable {c t}

/-- The state is unlocked exactly when the output is in a block, its spend time is unlocked and
the spendable age has passed. -/
theorem includeState_eq_unlocked_iff_of (now : UInt64) :
    c.includeState now t = IncludeStateUnlocked ↔
      t.blockHeight ≠ WALLET_LEGACY_UNCONFIRMED_TRANSACTION_HEIGHT ∧
        c.isSpendTimeUnlocked now t = true ∧
        t.blockHeight.toUInt64 + c.m_transactionSpendableAge ≤ c.m_currentHeight.toUInt64 := by
  unfold includeState
  split
  · next hlocked =>
    -- a locked output: one of the two conditions fails
    refine ⟨fun h => absurd h (by decide), fun ⟨hconfirmed, hspend, _⟩ => ?_⟩
    rcases hlocked with hunconfirmed | hspend'
    · exact absurd hunconfirmed hconfirmed
    · simp [hspend] at hspend'
  · next hnotlocked =>
    simp only [not_or, Bool.not_eq_true', Bool.not_eq_false] at hnotlocked
    split
    · next hsoft =>
      exact ⟨fun h => absurd h (by decide), fun ⟨_, _, hage⟩ => absurd hage (UInt64.not_le.mpr hsoft)⟩
    · next hsoft =>
      exact ⟨fun _ => ⟨hnotlocked.1, hnotlocked.2, UInt64.not_lt.mp hsoft⟩, fun _ => rfl⟩

private theorem uint32_toNat_add_of_lt {a b : UInt32} (h : a.toNat + b.toNat < 2 ^ 32) :
    (a + b).toNat = a.toNat + b.toNat := by
  rw [UInt32.toNat_add]
  exact Nat.mod_eq_of_lt h

private theorem ite_and_eq_true {b d e : Bool} :
    (if (b && d) = true then e else b) = true ↔ b = true ∧ (d = true → e = true) := by
  cases b <;> cases d <;> simp

/-- For an unlock time below `maxBlockHeight`, the spend time is unlocked when the height plus
the allowed delta has reached it and, for a deposit, the current height plus one has reached the
end of its term. -/
theorem isSpendTimeUnlocked_iff_of_lt (now : UInt64)
    (hlt : t.unlockTime < c.m_currency.maxBlockHeight) :
    c.isSpendTimeUnlocked now t = true ↔
      t.unlockTime ≤ c.m_currentHeight.toUInt64 + UInt64.ofNat c.m_currency.lockedTxAllowedDeltaBlocks ∧
        (IsDeposit t → t.blockHeight + t.term ≤ c.m_currentHeight + 1) := by
  simp only [isSpendTimeUnlocked, if_pos hlt, Bool.and_assoc]
  rw [ite_and_eq_true]
  simp only [decide_eq_true_eq, Bool.and_eq_true, beq_iff_eq, bne_iff_ne, IsDeposit]

theorem unlockHeight_toNat (ht : HeightLocked c t) :
    (c.unlockJob t).unlockHeight.toNat =
      max (max (if t.unlockTime = 0 then t.blockHeight.toNat else t.unlockTime.toNat)
          (if IsDeposit t then t.blockHeight.toNat + t.term.toNat else 0))
        (t.blockHeight.toNat + c.m_transactionSpendableAge.toNat + 1) := by
  have hage := ht.age_lt
  have hunlock : t.unlockTime.toNat < 2 ^ 32 :=
    lt_of_lt_of_le (UInt64.lt_iff_toNat_lt.mp ht.unlockTime_lt) ht.maxBlockHeight_le
  have hageNat : c.m_transactionSpendableAge.toUInt32.toNat = c.m_transactionSpendableAge.toNat := by
    rw [UInt64.toNat_toUInt32]
    exact Nat.mod_eq_of_lt (by omega)
  -- the sums of the job do not wrap, and the unlock time fits in 32 bits
  have hspendable : (t.blockHeight + c.m_transactionSpendableAge.toUInt32 + 1).toNat =
      t.blockHeight.toNat + c.m_transactionSpendableAge.toNat + 1 := by
    rw [uint32_toNat_add_of_lt, uint32_toNat_add_of_lt, hageNat, UInt32.toNat_one] <;>
      simp only [hageNat, uint32_toNat_add_of_lt (by omega : t.blockHeight.toNat +
        c.m_transactionSpendableAge.toUInt32.toNat < 2 ^ 32), UInt32.toNat_one] <;> omega
  have hunlockTime : (if t.unlockTime = 0 then t.blockHeight.toUInt64 else t.unlockTime).toUInt32.toNat =
      if t.unlockTime = 0 then t.blockHeight.toNat else t.unlockTime.toNat := by
    split
    · rw [UInt64.toNat_toUInt32, UInt32.toNat_toUInt64]
      exact Nat.mod_eq_of_lt t.blockHeight.toNat_lt
    · rw [UInt64.toNat_toUInt32]
      exact Nat.mod_eq_of_lt hunlock
  simp only [unlockJob, makeTransferUnlockJob]
  by_cases hdeposit : IsDeposit t
  · have hterm : (t.blockHeight + t.term).toNat = t.blockHeight.toNat + t.term.toNat :=
      uint32_toNat_add_of_lt (ht.term_lt hdeposit)
    have hcond : t.type = .Multisignature ∧ t.term ≠ 0 := hdeposit
    rw [if_pos hdeposit, if_pos hcond, UInt32.toNat_max, UInt32.toNat_max, hunlockTime, hterm,
      hspendable]
  · have hcond : ¬(t.type = .Multisignature ∧ t.term ≠ 0) := hdeposit
    rw [if_neg hdeposit, if_neg hcond, UInt32.toNat_max, hunlockTime, hspendable, Nat.max_zero]

/-- **The job height is the first unlocked height plus one.** At a height `x` with `x + 1` below
`2^32`, an output whose unlock time is a height is unlocked exactly when its job height is at
most `x + 1`. -/
theorem includeState_eq_unlocked_iff (ht : HeightLocked c t) (now : UInt64) {x : UInt32}
    (hx : x.toNat + 1 < 2 ^ 32) :
    { c with m_currentHeight := x }.includeState now t = IncludeStateUnlocked ↔
      (c.unlockJob t).unlockHeight.toNat ≤ x.toNat + 1 := by
  have hunlock : t.unlockTime.toNat < 2 ^ 32 :=
    lt_of_lt_of_le (UInt64.lt_iff_toNat_lt.mp ht.unlockTime_lt) ht.maxBlockHeight_le
  have hage := ht.age_lt
  have hdelta : (x.toUInt64 + UInt64.ofNat 1).toNat = x.toNat + 1 := by
    rw [UInt64.toNat_add, UInt32.toNat_toUInt64, UInt64.toNat_ofNat']
    exact Nat.mod_eq_of_lt (by omega)
  have hx1 : (x + 1).toNat = x.toNat + 1 := uint32_toNat_add_of_lt hx
  have hspendable : (t.blockHeight.toUInt64 + c.m_transactionSpendableAge).toNat =
      t.blockHeight.toNat + c.m_transactionSpendableAge.toNat := by
    rw [UInt64.toNat_add, UInt32.toNat_toUInt64]
    exact Nat.mod_eq_of_lt (by omega)
  rw [includeState_eq_unlocked_iff_of,
    isSpendTimeUnlocked_iff_of_lt (c := { c with m_currentHeight := x }) now ht.unlockTime_lt,
    unlockHeight_toNat ht]
  simp only [ht.lockedTxAllowedDeltaBlocks_eq, UInt64.le_iff_toNat_le, UInt32.le_iff_toNat_le,
    hdelta, hx1, hspendable, UInt32.toNat_toUInt64, ne_eq, ht.confirmed, not_false_eq_true,
    true_and, max_le_iff]
  -- split on the two branches of the job height: an unlock time of zero, and a deposit
  split_ifs with h0 hdeposit hdeposit
  · simp only [h0, UInt64.toNat_zero, hdeposit, true_implies,
      uint32_toNat_add_of_lt (ht.term_lt hdeposit)]
    omega
  · simp only [h0, UInt64.toNat_zero, hdeposit, false_implies, and_true]
    omega
  · simp only [hdeposit, true_implies, uint32_toNat_add_of_lt (ht.term_lt hdeposit)]
    omega
  · simp only [hdeposit, false_implies, and_true]
    omega

/-- The window from a height `p > 0` up to `h`, with `p + 1` and `h + 1` below `2^32`, holds the
job of an output whose unlock time is a height exactly when the output turns unlocked between
the two heights. -/
theorem unlocksBetween_iff (ht : HeightLocked c t) (now : UInt64) {p h : UInt32} (hp : p ≠ 0)
    (hp' : p.toNat + 1 < 2 ^ 32) (hh : h.toNat + 1 < 2 ^ 32) :
    unlocksBetween p h (c.unlockJob t) = true ↔
      { c with m_currentHeight := p }.includeState now t ≠ IncludeStateUnlocked ∧
        { c with m_currentHeight := h }.includeState now t = IncludeStateUnlocked := by
  have hp1 : (p + 1).toNat = p.toNat + 1 := uint32_toNat_add_of_lt hp'
  have hh1 : (h + 1).toNat = h.toNat + 1 := uint32_toNat_add_of_lt hh
  rw [ne_eq, includeState_eq_unlocked_iff ht now hp', includeState_eq_unlocked_iff ht now hh]
  simp only [unlocksBetween, hp, false_or, decide_eq_true_eq, UInt32.lt_iff_toNat_lt,
    UInt32.le_iff_toNat_le, hp1, hh1, not_le]

/-- The window `getLockingTransfers` scans when the height goes back from `p` to `h`, with `p + 1`
and `h + 1` below `2^32`, holds the job of an output whose unlock time is a height exactly when
the output is unlocked at `p` and no longer at `h`. -/
theorem locksBetween_iff (ht : HeightLocked c t) (now : UInt64) {p h : UInt32}
    (hp : p.toNat + 1 < 2 ^ 32) (hh : h.toNat + 1 < 2 ^ 32) :
    locksBetween p h (c.unlockJob t) = true ↔
      { c with m_currentHeight := p }.includeState now t = IncludeStateUnlocked ∧
        { c with m_currentHeight := h }.includeState now t ≠ IncludeStateUnlocked := by
  have hp1 : (p + 1).toNat = p.toNat + 1 := uint32_toNat_add_of_lt hp
  have hh1 : (h + 1).toNat = h.toNat + 1 := uint32_toNat_add_of_lt hh
  rw [ne_eq, includeState_eq_unlocked_iff ht now hp, includeState_eq_unlocked_iff ht now hh]
  simp only [locksBetween, decide_eq_true_eq, UInt32.lt_iff_toNat_lt, UInt32.le_iff_toNat_le,
    hp1, hh1, not_le, and_comm]

end State

/-! ## The schedule of a reachable container

Every reachable container keeps one job per available output, `advanceHeight` and `detach`
return the outputs of the windows their jobs fall in, and for an output whose unlock time is a
height those windows are the changes of its state. For an unlock time that is a timestamp the job
height is the timestamp truncated to `uint32_t`, a height unrelated to the state. -/

/-- The schedule of a reachable container and what its windows mean. -/
theorem reachable_jobsExact_and_windows {c : TransfersContainer} (hc : c.Reachable) :
    c.JobsExact ∧
      (∀ height, c.m_currentHeight ≤ height → ∃ L,
        (advanceHeight height).run c = .ok L { c with m_currentHeight := height } ∧
          L.Perm ((c.m_availableTransfers.items.filter fun t =>
            unlocksBetween c.m_currentHeight height (c.unlockJob t)).map
              (·.toTransactionOutputInformation))) ∧
      (∀ height, (c.detachState height).JobsExact ∧
        ∃ L, (detach height).run c =
            .ok ((detachLoop height c.transactionsByHeight.reverse c).2, L) (c.detachState height) ∧
          L.Perm (if c.m_currentHeight < (c.detachState height).m_currentHeight then []
            else ((c.detachState height).m_availableTransfers.items.filter fun t =>
              locksBetween c.m_currentHeight (c.detachState height).m_currentHeight
                ((c.detachState height).unlockJob t)).map (·.toTransactionOutputInformation))) ∧
      (∀ t now {p h : UInt32}, c.HeightLocked t → p ≠ 0 → p.toNat + 1 < 2 ^ 32 →
        h.toNat + 1 < 2 ^ 32 →
        (unlocksBetween p h (c.unlockJob t) = true ↔
          { c with m_currentHeight := p }.includeState now t ≠ IncludeStateUnlocked ∧
            { c with m_currentHeight := h }.includeState now t = IncludeStateUnlocked)) ∧
      (∀ t now {p h : UInt32}, c.HeightLocked t → p.toNat + 1 < 2 ^ 32 → h.toNat + 1 < 2 ^ 32 →
        (locksBetween p h (c.unlockJob t) = true ↔
          { c with m_currentHeight := p }.includeState now t = IncludeStateUnlocked ∧
            { c with m_currentHeight := h }.includeState now t ≠ IncludeStateUnlocked)) := by
  have hjobs : c.JobsExact := hc.jobsExact
  refine ⟨hjobs, fun height hle => advanceHeight_perm hjobs hle, fun height => detach_perm hjobs height,
    ?_, ?_⟩
  · intro t now p h ht hp hp' hh
    exact unlocksBetween_iff ht now hp hp' hh
  · intro t now p h ht hp hh
    exact locksBetween_iff ht now hp hh

/-- A key output of `100` at position `0` of the transaction with hash `3`. -/
def sampleTimestampTransfer : TransactionOutputInformationIn :=
  { type := .Key, amount := 100, globalOutputIndex := 0, outputInTransaction := 0,
    transactionHash := ⟨3⟩, transactionPublicKey := ⟨0⟩, outputKey := ⟨0⟩,
    requiredSignatures := 0, term := 0, keyImage := ⟨9⟩ }

/-- The transaction with hash `3`, locked until the timestamp `1800000000`. -/
def sampleTimestampTx : ITransactionReader :=
  ⟨⟨3⟩,
    { version := 1, unlockTime := 1800000000, inputs := [.base ⟨1⟩],
      outputs := [⟨100, .key ⟨⟨0⟩⟩⟩], extra := [], signatures := [] }⟩

/-- A fresh mainnet container of spendable age `10` after the wallet receives
`sampleTimestampTransfer` in block `1`, which advances its height to `1`. -/
def sampleTimestampContainer : TransfersContainer :=
  runCalls [.addTransaction ⟨1, 0, 0⟩ sampleTimestampTx [sampleTimestampTransfer]]
    (create Currency.mainnet 10)

/-- At the time `1900000000` the output is soft-locked at height `1` and unlocked at height `11`,
yet `advanceHeight 11` returns no output: its job waits for the height `1800000000`. -/
theorem advanceHeight_timestamp_sample :
    sampleTimestampContainer.Reachable ∧ sampleTimestampContainer.m_currentHeight = 1 ∧
      (∃ t ∈ sampleTimestampContainer.m_availableTransfers.items,
        sampleTimestampContainer.includeState 1900000000 t = IncludeStateSoftLocked ∧
          { sampleTimestampContainer with m_currentHeight := 11 }.includeState 1900000000 t =
            IncludeStateUnlocked) ∧
      (advanceHeight 11).run sampleTimestampContainer =
        .ok [] { sampleTimestampContainer with m_currentHeight := 11 } := by
  have hreach : sampleTimestampContainer.Reachable := ⟨_, _, _, rfl⟩
  obtain ⟨_, hadvance, _⟩ := reachable_jobsExact_and_windows hreach
  obtain ⟨L, hrun, hperm⟩ := hadvance 11 (by decide +kernel)
  -- no job of the container falls in the window up to height 11
  have hwindow : (sampleTimestampContainer.m_availableTransfers.items.filter fun t =>
      unlocksBetween sampleTimestampContainer.m_currentHeight 11
        (sampleTimestampContainer.unlockJob t)) = [] := by decide +kernel
  rw [hwindow, List.map_nil] at hperm
  refine ⟨hreach, by decide +kernel, by decide +kernel, ?_⟩
  rw [hrun, hperm.eq_nil]

end TransfersContainer

end UltraNoteCore
