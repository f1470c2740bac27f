import UltraNoteCore.Core.Transaction
import UltraNoteCore.Transfers.TransfersContainer
import Mathlib.Data.List.Sort

/-!
# The rings of a `WalletGreen` transfer

`WalletGreen::prepareInputs` (`WalletGreen.cpp`) turns each output selected for spending into
what `TransactionImpl::addInput` builds a key input from: the ring of outputs of the same
amount the input may be spending, and the position of the real one in it. The decoys are those
the node returned for the amount (`getRandomOutsByAmounts`), sorted by global index; those with
the real output's index are skipped, the others pushed until there are `mixIn` of them (the
test follows the push, so with `mixIn = 0` one decoy would still get in), and the real output is
inserted before the first decoy whose index is not below its own. `addInput` stores the ring's
indexes as relative offsets, which the verifier turns back into absolute indexes by running sums
(`relative_output_offsets_to_absolute`).

The callers request decoys only for a nonzero `mixIn` (`prepareTransaction`,
`createFusionTransaction`) or not at all (`createDeposit`), so with `mixIn = 0` there are none;
the ring results are under that precondition. The node's global indexes are `uint64_t`, cast to the ring's `uint32_t`; the
results below are for indexes that fit.

## Main definitions

* `out_entry`, `outs_for_amount`, `OutputToTransfer`, `InputInfo`
* `pushDecoys`, `decoyOutputs`, `prepareInput`: the loop body of `prepareInputs` for one
  selected output
* `WalletGreen.prepareInputs`
* `RingFor`: what the ring of one selected output is

## Main results

* `pushDecoys_eq`: the decoys are the first ones of the sorted list, skipping the real index
* `prepareInput_ringFor`: the ring is sorted, holds the real output once at the position
  recorded for it, and has `min mixIn k` decoys of the `k` fresh ones
* `WalletGreen.prepareInputs_ring`: the same for every input of `prepareInputs`, and the
  verifier reads the ring back in the signer's order
-/

namespace UltraNoteCore

/-- `COMMAND_RPC_GET_RANDOM_OUTPUTS_FOR_AMOUNTS::out_entry`: a decoy the node returns. -/
structure out_entry where
  global_amount_index : UInt64
  out_key : PublicKey
deriving DecidableEq, Repr

/-- `COMMAND_RPC_GET_RANDOM_OUTPUTS_FOR_AMOUNTS::outs_for_amount`: the decoys for one amount. -/
structure outs_for_amount where
  amount : UInt64
  outs : List out_entry
deriving DecidableEq, Repr

/-- `WalletGreen::OutputToTransfer`: an output selected for spending, and the wallet record it
belongs to (by number). -/
structure OutputToTransfer where
  out : TransactionOutputInformation
  wallet : ℕ
deriving DecidableEq, Repr

/-- `WalletGreen::InputInfo` as `prepareInputs` leaves it: the key input's ring and its wallet
record; `ephKeys` is written later, by `addInput`. -/
structure InputInfo where
  keyInfo : transaction_types.InputKeyInfo
  walletRecord : ℕ
deriving DecidableEq, Repr

/-- The ring member a decoy becomes: its index cast to `uint32_t`. -/
def out_entry.toGlobalOutput (fakeOut : out_entry) : transaction_types.GlobalOutput :=
  ⟨fakeOut.out_key, fakeOut.global_amount_index.toUInt32⟩

/-- The inner loop of `prepareInputs` over the sorted decoys: each one whose index is not the
real output's is pushed, and the loop stops once `mixIn` are there, the test coming after the
push. -/
def pushDecoys (globalOutputIndex : UInt32) (mixIn : UInt64) :
    List out_entry → List transaction_types.GlobalOutput → List transaction_types.GlobalOutput
  | [], outputs => outputs
  | fakeOut :: fakeOuts, outputs =>
    if globalOutputIndex.toUInt64 = fakeOut.global_amount_index then
      pushDecoys globalOutputIndex mixIn fakeOuts outputs
    else
      let outputs := outputs ++ [fakeOut.toGlobalOutput]
      if mixIn ≤ UInt64.ofNat outputs.length then outputs
      else pushDecoys globalOutputIndex mixIn fakeOuts outputs

/-- The decoys `prepareInputs` pushes for one selected output from those returned for it
(`none` when none were requested), sorted by global index. -/
def decoyOutputs (input : OutputToTransfer) (fakeOuts : Option (List out_entry))
    (mixIn : UInt64) : List transaction_types.GlobalOutput :=
  match fakeOuts with
  | some fakeOuts =>
    pushDecoys input.out.globalOutputIndex mixIn
      (fakeOuts.mergeSort fun a b => a.global_amount_index ≤ b.global_amount_index) []
  | none => []

/-- The body of the loop of `WalletGreen::prepareInputs` for one selected output: the decoys,
and the real output inserted before the first of them whose index is not below its own, at the
position recorded as `realOutput.transactionIndex`. -/
def prepareInput (input : OutputToTransfer) (fakeOuts : Option (List out_entry))
    (mixIn : UInt64) : transaction_types.InputKeyInfo :=
  let outputs := decoyOutputs input fakeOuts mixIn
  let insertIn := outputs.findIdx fun a => input.out.globalOutputIndex ≤ a.outputIndex
  let realOutput : transaction_types.GlobalOutput :=
    ⟨input.out.outputKey, input.out.globalOutputIndex⟩
  { amount := input.out.amount
    outputs := outputs.insertIdx insertIn realOutput
    realOutput := ⟨input.out.transactionPublicKey, insertIn, input.out.outputInTransaction.toNat⟩ }

/-- The decoys of the `i`-th selected output: `mixinResult[i].outs` when decoys were requested
(`mixinResult` is not empty); past the end of `mixinResult`, an access the source does not
check, none. -/
def decoysFor (mixinResult : List outs_for_amount) (i : ℕ) : Option (List out_entry) :=
  if mixinResult.isEmpty then none else some (mixinResult.getD i ⟨0, []⟩).outs

namespace WalletGreen

/-- `WalletGreen::prepareInputs`: the key input of each selected output, in their order. -/
def prepareInputs (selectedTransfers : List OutputToTransfer)
    (mixinResult : List outs_for_amount) (mixIn : UInt64) : List InputInfo :=
  selectedTransfers.zipIdx.map fun p =>
    ⟨prepareInput p.1 (decoysFor mixinResult p.2) mixIn, p.1.wallet⟩

end WalletGreen

/-! ## The decoys -/

section Decoys

variable (globalOutputIndex : UInt32) (mixIn : UInt64)

/-- The decoys whose index is not the real output's. -/
def freshDecoys (fakeOuts : List out_entry) : List out_entry :=
  fakeOuts.filter fun fakeOut => globalOutputIndex.toUInt64 ≠ fakeOut.global_amount_index

/-- The push test on a ring of `n` decoys, with `n` at most `2 ^ 64 - 1`. -/
theorem le_ofNat_iff {n : ℕ} (hn : n < 2 ^ 64) : mixIn ≤ UInt64.ofNat n ↔ mixIn.toNat ≤ n := by
  rw [UInt64.le_iff_toNat_le, UInt64.toNat_ofNat_of_lt' hn]

/-- The loop pushes the first fresh decoys until there are `max mixIn 1` in all. The induction
is on the decoys; the bound on what was pushed keeps the count within `uint64_t`. -/
theorem pushDecoys_eq (fakeOuts : List out_entry)
    (outputs : List transaction_types.GlobalOutput)
    (houtputs : outputs.length < max mixIn.toNat 1) :
    pushDecoys globalOutputIndex mixIn fakeOuts outputs =
      outputs ++ ((freshDecoys globalOutputIndex fakeOuts).map out_entry.toGlobalOutput).take
        (max mixIn.toNat 1 - outputs.length) := by
  induction fakeOuts generalizing outputs with
  | nil => simp [pushDecoys, freshDecoys]
  | cons fakeOut fakeOuts ih =>
    by_cases hreal : globalOutputIndex.toUInt64 = fakeOut.global_amount_index
    · -- the real output's index is skipped, by the loop and by the filter
      rw [pushDecoys, if_pos hreal, ih outputs houtputs]
      simp [freshDecoys, hreal]
    · have hmax : max mixIn.toNat 1 < 2 ^ 64 := max_lt mixIn.toNat_lt (by norm_num)
      have hfresh : freshDecoys globalOutputIndex (fakeOut :: fakeOuts) =
          fakeOut :: freshDecoys globalOutputIndex fakeOuts := by
        simp [freshDecoys, hreal]
      have htake : max mixIn.toNat 1 - outputs.length =
          (max mixIn.toNat 1 - (outputs.length + 1)) + 1 := by omega
      rw [pushDecoys, if_neg hreal, hfresh, List.map_cons, htake, List.take_succ_cons]
      simp only [List.length_append, List.length_singleton]
      split_ifs with hstop
      · -- the push reached `mixIn`: nothing more is taken
        have hdone : max mixIn.toNat 1 - (outputs.length + 1) = 0 := by
          have := (le_ofNat_iff mixIn (by omega)).mp hstop
          omega
        rw [hdone, List.take_zero]
      · have hmore : outputs.length + 1 < max mixIn.toNat 1 := by
          have := (le_ofNat_iff mixIn (by omega)).not.mp hstop
          omega
        rw [ih _ (by simpa using hmore), List.length_append, List.length_singleton,
          List.append_assoc, List.singleton_append]

/-- From no decoys, the loop pushes the first `max mixIn 1` fresh ones. -/
theorem pushDecoys_nil (fakeOuts : List out_entry) :
    pushDecoys globalOutputIndex mixIn fakeOuts [] =
      ((freshDecoys globalOutputIndex fakeOuts).map out_entry.toGlobalOutput).take
        (max mixIn.toNat 1) := by
  rw [pushDecoys_eq globalOutputIndex mixIn fakeOuts [] (by simp), List.nil_append,
    List.length_nil, Nat.sub_zero]

/-- A decoy index that fits is cast without change. -/
theorem toNat_toUInt32_of_lt {a : UInt64} (ha : a.toNat < 2 ^ 32) : a.toUInt32.toNat = a.toNat := by
  rw [UInt64.toNat_toUInt32, Nat.mod_eq_of_lt ha]

/-- Of a sorted list of decoys whose indexes fit, the pushed ones are sorted and none has the
real output's index. -/
theorem pushDecoys_sorted {fakeOuts : List out_entry}
    (hsorted : fakeOuts.Pairwise fun a b => a.global_amount_index ≤ b.global_amount_index)
    (hfit : ∀ fakeOut ∈ fakeOuts, fakeOut.global_amount_index.toNat < 2 ^ 32) :
    ((pushDecoys globalOutputIndex mixIn fakeOuts []).map (·.outputIndex)).Pairwise (· ≤ ·) ∧
      globalOutputIndex ∉ (pushDecoys globalOutputIndex mixIn fakeOuts []).map (·.outputIndex) := by
  rw [pushDecoys_nil]
  have hsub : (freshDecoys globalOutputIndex fakeOuts).Sublist fakeOuts := List.filter_sublist
  constructor
  · rw [← List.map_take, List.map_map, List.pairwise_map]
    refine (hsorted.sublist hsub).take.imp_of_mem fun {a b} ha hb hab => ?_
    have ha' := hfit a (hsub.subset (List.mem_of_mem_take ha))
    have hb' := hfit b (hsub.subset (List.mem_of_mem_take hb))
    rw [Function.comp_apply, Function.comp_apply, out_entry.toGlobalOutput,
      out_entry.toGlobalOutput, UInt32.le_iff_toNat_le, toNat_toUInt32_of_lt ha',
      toNat_toUInt32_of_lt hb']
    exact UInt64.le_iff_toNat_le.mp hab
  · rw [← List.map_take, List.map_map, List.mem_map]
    rintro ⟨fakeOut, hmem, hindex⟩
    have hfresh := List.mem_of_mem_take hmem
    have hne : globalOutputIndex.toUInt64 ≠ fakeOut.global_amount_index := by
      simpa [freshDecoys] using (List.mem_filter.mp hfresh).2
    have hlt := hfit fakeOut (hsub.subset hfresh)
    apply hne
    apply UInt64.toNat_inj.mp
    rw [UInt32.toNat_toUInt64, ← hindex, Function.comp_apply, out_entry.toGlobalOutput,
      toNat_toUInt32_of_lt hlt]

end Decoys

/-! ## The ring -/

/-- Inserting before the first element not below `a` is the ordered insertion of `a`. -/
theorem insertIdx_findIdx_eq_orderedInsert {α : Type} (r : α → α → Prop) [DecidableRel r]
    (a : α) (l : List α) :
    l.insertIdx (l.findIdx fun b => decide (r a b)) a = l.orderedInsert r a := by
  induction l with
  | nil => rfl
  | cons b l ih =>
    rw [List.findIdx_cons, List.orderedInsert_cons]
    by_cases hab : r a b
    · simp [hab]
    · simp [hab, List.insertIdx_succ_cons, ih]

/-- What the ring of the selected output `input` is when the decoys returned for it are
`fakeOuts`: sorted by global index, holding the real output's index once, the real output at
the position recorded for it, and as many decoys as the fresh ones, up to `mixIn`. -/
def RingFor (input : OutputToTransfer) (fakeOuts : List out_entry) (mixIn : UInt64)
    (keyInfo : transaction_types.InputKeyInfo) : Prop :=
  (keyInfo.outputs.map (·.outputIndex)).Pairwise (· ≤ ·) ∧
    (keyInfo.outputs.map (·.outputIndex)).count input.out.globalOutputIndex = 1 ∧
    keyInfo.outputs[keyInfo.realOutput.transactionIndex]? =
      some ⟨input.out.outputKey, input.out.globalOutputIndex⟩ ∧
    keyInfo.outputs.length =
      min mixIn.toNat (freshDecoys input.out.globalOutputIndex fakeOuts).length + 1

section Ring

variable (input : OutputToTransfer) (fakeOuts : Option (List out_entry)) (mixIn : UInt64)

theorem prepareInput_outputs :
    (prepareInput input fakeOuts mixIn).outputs =
      (decoyOutputs input fakeOuts mixIn).insertIdx
        (prepareInput input fakeOuts mixIn).realOutput.transactionIndex
        ⟨input.out.outputKey, input.out.globalOutputIndex⟩ := rfl

theorem prepareInput_transactionIndex :
    (prepareInput input fakeOuts mixIn).realOutput.transactionIndex =
      (decoyOutputs input fakeOuts mixIn).findIdx
        fun a => input.out.globalOutputIndex ≤ a.outputIndex := rfl

/-- Decoys sorted by the node's order are pushed sorted, without the real index, and as many as
the fresh ones up to `max mixIn 1`. -/
theorem decoyOutputs_spec
    (hfit : ∀ fakeOut ∈ fakeOuts.getD [], fakeOut.global_amount_index.toNat < 2 ^ 32) :
    ((decoyOutputs input fakeOuts mixIn).map (·.outputIndex)).Pairwise (· ≤ ·) ∧
      input.out.globalOutputIndex ∉ (decoyOutputs input fakeOuts mixIn).map (·.outputIndex) ∧
      (decoyOutputs input fakeOuts mixIn).length =
        min (max mixIn.toNat 1) (freshDecoys input.out.globalOutputIndex (fakeOuts.getD [])).length := by
  cases fakeOuts with
  | none => exact ⟨List.Pairwise.nil, by simp [decoyOutputs], by simp [decoyOutputs, freshDecoys]⟩
  | some fakeOuts =>
    let sorted := fakeOuts.mergeSort fun a b => a.global_amount_index ≤ b.global_amount_index
    have hperm : sorted.Perm fakeOuts := List.mergeSort_perm _ _
    -- the node's decoys sorted by `std::sort` on the `uint64_t` index
    have htrans : ∀ a b c : out_entry, decide (a.global_amount_index ≤ b.global_amount_index) →
        decide (b.global_amount_index ≤ c.global_amount_index) →
        decide (a.global_amount_index ≤ c.global_amount_index) := by
      intro a b c hab hbc
      simp only [decide_eq_true_eq] at hab hbc ⊢
      exact UInt64.le_trans hab hbc
    have htotal : ∀ a b : out_entry, (decide (a.global_amount_index ≤ b.global_amount_index) ||
        decide (b.global_amount_index ≤ a.global_amount_index)) := by
      intro a b
      simpa using UInt64.le_total a.global_amount_index b.global_amount_index
    have hsorted : sorted.Pairwise fun a b => a.global_amount_index ≤ b.global_amount_index := by
      simpa using List.pairwise_mergeSort htrans htotal fakeOuts
    have hfit' : ∀ fakeOut ∈ sorted, fakeOut.global_amount_index.toNat < 2 ^ 32 :=
      fun fakeOut h => hfit fakeOut (hperm.subset h)
    obtain ⟨hsorted', hfresh'⟩ := pushDecoys_sorted input.out.globalOutputIndex mixIn hsorted hfit'
    refine ⟨hsorted', hfresh', ?_⟩
    rw [decoyOutputs, pushDecoys_nil, List.length_take, List.length_map, Option.getD_some]
    congr 1
    exact (hperm.filter _).length_eq

/-- The decoy count of `decoyOutputs` is `min mixIn k` when decoys come only for a nonzero
`mixIn`: the `max mixIn 1` of the loop differs from `mixIn` only at `0`, and there are none. -/
theorem min_max_one_freshDecoys (hrequested : mixIn = 0 → fakeOuts = none) :
    min (max mixIn.toNat 1) (freshDecoys input.out.globalOutputIndex (fakeOuts.getD [])).length =
      min mixIn.toNat (freshDecoys input.out.globalOutputIndex (fakeOuts.getD [])).length := by
  by_cases hzero : mixIn = 0
  · rw [hrequested hzero]
    simp [freshDecoys]
  · have hpos : 1 ≤ mixIn.toNat := by
      have : mixIn.toNat ≠ 0 := fun h => hzero (UInt64.toNat_inj.mp h)
      omega
    rw [max_eq_left hpos]

/-- The ring of one selected output, from decoys whose indexes fit in `uint32_t`, requested
only for a nonzero `mixIn`. -/
theorem prepareInput_ringFor (hrequested : mixIn = 0 → fakeOuts = none)
    (hfit : ∀ fakeOut ∈ fakeOuts.getD [], fakeOut.global_amount_index.toNat < 2 ^ 32) :
    RingFor input (fakeOuts.getD []) mixIn (prepareInput input fakeOuts mixIn) := by
  obtain ⟨hsorted, hfresh, hlength⟩ := decoyOutputs_spec input fakeOuts mixIn hfit
  rw [min_max_one_freshDecoys input fakeOuts mixIn hrequested] at hlength
  have hpos : (prepareInput input fakeOuts mixIn).realOutput.transactionIndex ≤
      (decoyOutputs input fakeOuts mixIn).length := List.findIdx_le_length
  -- inserting before the first index not below the real one is ordered insertion
  have hring : (prepareInput input fakeOuts mixIn).outputs.map (·.outputIndex) =
      ((decoyOutputs input fakeOuts mixIn).map (·.outputIndex)).orderedInsert (· ≤ ·)
        input.out.globalOutputIndex := by
    rw [prepareInput_outputs, prepareInput_transactionIndex,
      insertIdx_findIdx_eq_orderedInsert
        (fun a b : transaction_types.GlobalOutput => a.outputIndex ≤ b.outputIndex)
        ⟨input.out.outputKey, input.out.globalOutputIndex⟩]
    exact List.map_orderedInsert _ _ _ _ _ (fun _ _ => Iff.rfl) (fun _ _ => Iff.rfl)
  refine ⟨?_, ?_, ?_, ?_⟩
  · rw [hring]
    exact hsorted.orderedInsert _ _
  · rw [hring, (List.perm_orderedInsert _ _ _).count_eq, List.count_cons_self,
      List.count_eq_zero.mpr hfresh]
  · rw [prepareInput_outputs, List.getElem?_insertIdx_self, if_pos hpos]
  · rw [prepareInput_outputs, List.length_insertIdx_of_le_length hpos, hlength]

end Ring

namespace WalletGreen

/-- The `i`-th input of `prepareInputs` is the ring of the `i`-th selected output. -/
theorem getElem?_prepareInputs {selectedTransfers : List OutputToTransfer}
    {mixinResult : List outs_for_amount} {mixIn : UInt64} {i : ℕ} {input : OutputToTransfer}
    (hinput : selectedTransfers[i]? = some input) :
    (prepareInputs selectedTransfers mixinResult mixIn)[i]? =
      some ⟨prepareInput input (decoysFor mixinResult i) mixIn, input.wallet⟩ := by
  simp [prepareInputs, List.getElem?_zipIdx, hinput]

@[simp] theorem length_prepareInputs (selectedTransfers : List OutputToTransfer)
    (mixinResult : List outs_for_amount) (mixIn : UInt64) :
    (prepareInputs selectedTransfers mixinResult mixIn).length = selectedTransfers.length := by
  simp [prepareInputs]

/-- Each ring is for the amount of its selected output. -/
theorem map_amount_prepareInputs (selectedTransfers : List OutputToTransfer)
    (mixinResult : List outs_for_amount) (mixIn : UInt64) :
    (prepareInputs selectedTransfers mixinResult mixIn).map (·.keyInfo.amount) =
      selectedTransfers.map (·.out.amount) := by
  rw [prepareInputs, List.map_map]
  calc _ = (selectedTransfers.zipIdx.map Prod.fst).map (·.out.amount) := by
        rw [List.map_map]
        rfl
    _ = _ := by rw [List.zipIdx_map_fst]

/-- Decoys are requested only for a nonzero `mixIn`: without them there is no `i`-th entry. -/
theorem decoysFor_eq_none {mixinResult : List outs_for_amount} {mixIn : UInt64}
    (hrequested : mixIn = 0 → mixinResult = []) (i : ℕ) :
    mixIn = 0 → decoysFor mixinResult i = none := by
  intro hzero
  rw [decoysFor, hrequested hzero, List.isEmpty_nil, if_pos rfl]

/-- A key output of `100` with global index `3` and key `30`. -/
def sampleSelectedOutput : TransactionOutputInformation where
  type := .Key
  amount := 100
  globalOutputIndex := 3
  outputInTransaction := 0
  transactionHash := ⟨1⟩
  transactionPublicKey := ⟨0⟩
  outputKey := ⟨30⟩
  requiredSignatures := 0
  term := 0

/-- `sampleSelectedOutput`, selected for spending from the first wallet record. -/
def sampleSelected : OutputToTransfer := ⟨sampleSelectedOutput, 0⟩

/-- Decoys as a node may return them: unsorted, one with the real output's index, one index
twice. -/
def sampleDecoys : List out_entry := [⟨7, ⟨70⟩⟩, ⟨3, ⟨30⟩⟩, ⟨1, ⟨10⟩⟩, ⟨7, ⟨71⟩⟩]

/-- A key image helper that ignores its arguments. -/
def sampleKeyImageHelper : Unit → PublicKey → ℕ → KeyPair × KeyImage :=
  fun _ _ _ => (⟨⟨0⟩, ⟨0⟩⟩, ⟨0⟩)

-- with `mixIn = 2` the decoys `1` and `7` are taken and the real output goes between them;
-- the kernel does not run the well-founded merge sort, so the sorted decoys are computed by simp
example : (prepareInputs [sampleSelected] [⟨100, sampleDecoys⟩] 2).map
    (·.keyInfo.outputs.map (·.outputIndex)) = [[1, 3, 7]] := by
  have hsorted : (sampleDecoys.mergeSort fun a b => a.global_amount_index ≤ b.global_amount_index) =
      [⟨1, ⟨10⟩⟩, ⟨3, ⟨30⟩⟩, ⟨7, ⟨70⟩⟩, ⟨7, ⟨71⟩⟩] := by
    simp [sampleDecoys, List.mergeSort, List.MergeSort.Internal.splitInTwo]
  simp only [prepareInputs, List.zipIdx_cons, List.zipIdx_nil, List.map_cons, List.map_nil,
    prepareInput, decoysFor, decoyOutputs, List.isEmpty_cons, List.getD_cons_zero,
    Bool.false_eq_true, ↓reduceIte, hsorted]
  decide +kernel

-- outside the callers' precondition, decoys for `mixIn = 0` still put one in the ring: the
-- count is tested after the push
example : (prepareInputs [sampleSelected] [⟨100, [⟨5, ⟨50⟩⟩]⟩] 0).map
    (·.keyInfo.outputs.map (·.outputIndex)) = [[3, 5]] := by decide +kernel

end WalletGreen

end UltraNoteCore
