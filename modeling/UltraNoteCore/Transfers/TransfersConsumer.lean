import UltraNoteCore.Core.Transaction

/-!
# Finding a wallet's outputs in a transaction

`findMyOutputs` of `TransfersConsumer.cpp`: the receiver's side of output construction. With
the derivation of the transaction's public key and the view secret key it undoes
`derive_public_key` on every output key and keeps the output's position under the spend key
it recovers, when that key is one of the subscribed `spendKeys`.

The sender derives every key of the output at position `p` at index `p`
(`TransactionImpl.addOutput`). The receiver undoes a multisignature key at its output's
position too, but a key output at `keyIndex`, a counter that advances once per key output and
once per key of every multisignature output. The two agree at a key output only while the keys
of the outputs before it number as many as those outputs.

The map `outputs` (`std::unordered_map<PublicKey, std::vector<uint32_t>>`) is a function from
spend keys to the positions found, the empty list where the map has no entry; the set
`spendKeys` is a list. Positions are stored as `uint32_t`, so `Nat.toUInt32`.

## Main definitions

* `checkOutputKey`, `findMyOutputs`
* `findMyOutputsLoop`, `checkMultisignatureKeys`: the loop over the outputs and over the keys of
  one multisignature output
* `keyCounter`: the value of the loop's key counter after a list of outputs

## Main results

* `findMyOutputsLoop_apply`: what the loop finds under one spend key, output by output
* `findMyOutputs_key_output_iff`: a key output addressed to the wallet is found exactly when
  the key counter at its position equals the position
* `findMyOutputs_multisignature_count`: a multisignature output is found once per key
  addressed to the wallet, so twice when two of its keys are
-/

namespace UltraNoteCore

open TransactionImpl

/-- The number of keys of an output: how far the key counter of `findMyOutputs` advances. -/
def TransactionOutputTarget.keyCount : TransactionOutputTarget → ℕ
  | .key _ => 1
  | .multisignature output => output.keys.length

/-- The key counter of `findMyOutputs` after `outputs`. -/
def keyCounter (outputs : List TransactionOutput) : ℕ :=
  (outputs.map fun output => output.target.keyCount).sum

@[simp] theorem keyCounter_nil : keyCounter [] = 0 := rfl

@[simp] theorem keyCounter_cons (output : TransactionOutput) (outputs : List TransactionOutput) :
    keyCounter (output :: outputs) = output.target.keyCount + keyCounter outputs := by
  simp [keyCounter]

section Consumer

variable {KeyDerivation : Type}
  (underive_public_key : KeyDerivation → ℕ → PublicKey → PublicKey)

/-- `checkOutputKey`: the spend key `key` was derived from at `keyIndex`; when it is one of
`spendKeys`, `outputIndex` is appended to its entry. -/
def checkOutputKey (derivation : KeyDerivation) (key : PublicKey) (keyIndex outputIndex : ℕ)
    (spendKeys : List PublicKey) (outputs : PublicKey → List UInt32) :
    PublicKey → List UInt32 :=
  let spendKey := underive_public_key derivation keyIndex key
  if spendKey ∈ spendKeys then
    Function.update outputs spendKey (outputs spendKey ++ [outputIndex.toUInt32])
  else outputs

/-- The inner loop of `findMyOutputs` over the keys of the multisignature output at `idx`:
each key is checked at `idx`, and the key counter advances once per key. -/
def checkMultisignatureKeys (derivation : KeyDerivation) (idx : ℕ) (spendKeys : List PublicKey) :
    List PublicKey → ℕ × (PublicKey → List UInt32) → ℕ × (PublicKey → List UInt32)
  | [], state => state
  | key :: keys, (keyIndex, outputs) =>
    checkMultisignatureKeys derivation idx spendKeys keys
      (keyIndex + 1, checkOutputKey underive_public_key derivation key idx idx spendKeys outputs)

/-- The loop of `findMyOutputs` over the outputs from position `idx` on, with the key counter
at `keyIndex`. -/
def findMyOutputsLoop (derivation : KeyDerivation) (spendKeys : List PublicKey) :
    List TransactionOutput → ℕ → ℕ → (PublicKey → List UInt32) → PublicKey → List UInt32
  | [], _, _, outputs => outputs
  | out :: rest, idx, keyIndex, outputs =>
    match out.target with
    | .key output =>
      findMyOutputsLoop derivation spendKeys rest (idx + 1) (keyIndex + 1)
        (checkOutputKey underive_public_key derivation output.key keyIndex idx spendKeys outputs)
    | .multisignature output =>
      let (keyIndex, outputs) :=
        checkMultisignatureKeys underive_public_key derivation idx spendKeys output.keys
          (keyIndex, outputs)
      findMyOutputsLoop derivation spendKeys rest (idx + 1) keyIndex outputs

variable (generate_key_derivation : PublicKey → SecretKey → Option KeyDerivation)

/-- `findMyOutputs`: nothing is found when the transaction's public key gives no
derivation. -/
def findMyOutputs (tx : TransactionImpl) (viewSecretKey : SecretKey) (spendKeys : List PublicKey)
    (outputs : PublicKey → List UInt32) : PublicKey → List UInt32 :=
  match generate_key_derivation tx.getTransactionPublicKey viewSecretKey with
  | none => outputs
  | some derivation =>
    findMyOutputsLoop underive_public_key derivation spendKeys tx.transaction.outputs 0 0 outputs

/-! ## What the loop finds under one spend key -/

/-- The positions the loop appends under `spendKey` for the output `target` at `idx`, with the
key counter at `keyIndex`. -/
def outputMatches (derivation : KeyDerivation) (spendKeys : List PublicKey) (spendKey : PublicKey)
    (idx keyIndex : ℕ) : TransactionOutputTarget → List UInt32
  | .key output =>
    if spendKey ∈ spendKeys ∧ underive_public_key derivation keyIndex output.key = spendKey then
      [idx.toUInt32]
    else []
  | .multisignature output =>
    if spendKey ∈ spendKeys then
      List.replicate
        (output.keys.countP fun key => underive_public_key derivation idx key = spendKey)
        idx.toUInt32
    else []

/-- The positions the loop appends under `spendKey` for `outputs`, the first at `idx`. -/
def matchesFrom (derivation : KeyDerivation) (spendKeys : List PublicKey) (spendKey : PublicKey) :
    List TransactionOutput → ℕ → ℕ → List UInt32
  | [], _, _ => []
  | out :: rest, idx, keyIndex =>
    outputMatches underive_public_key derivation spendKeys spendKey idx keyIndex out.target ++
      matchesFrom derivation spendKeys spendKey rest (idx + 1) (keyIndex + out.target.keyCount)

variable {underive_public_key} {derivation : KeyDerivation} {spendKeys : List PublicKey}
  {spendKey : PublicKey}

theorem checkOutputKey_apply (key : PublicKey) (keyIndex outputIndex : ℕ)
    (outputs : PublicKey → List UInt32) :
    checkOutputKey underive_public_key derivation key keyIndex outputIndex spendKeys outputs
      spendKey = outputs spendKey ++
        if spendKey ∈ spendKeys ∧ underive_public_key derivation keyIndex key = spendKey then
          [outputIndex.toUInt32]
        else [] := by
  unfold checkOutputKey
  by_cases hmem : underive_public_key derivation keyIndex key ∈ spendKeys
  · by_cases hkey : underive_public_key derivation keyIndex key = spendKey
    · subst hkey
      simp [hmem]
    · simp [hmem, hkey, Function.update_of_ne (Ne.symm hkey)]
  · -- a key outside `spendKeys` leaves the map alone, also under `spendKey`
    have : ¬(spendKey ∈ spendKeys ∧ underive_public_key derivation keyIndex key = spendKey) :=
      fun ⟨hs, hk⟩ => hmem (hk ▸ hs)
    simp [hmem, this]

@[simp] theorem checkMultisignatureKeys_fst (idx : ℕ) (keys : List PublicKey)
    (state : ℕ × (PublicKey → List UInt32)) :
    (checkMultisignatureKeys underive_public_key derivation idx spendKeys keys state).1 =
      state.1 + keys.length := by
  induction keys generalizing state with
  | nil => simp [checkMultisignatureKeys]
  | cons key keys ih =>
    obtain ⟨keyIndex, outputs⟩ := state
    simp only [checkMultisignatureKeys, ih, List.length_cons]
    omega

/-- The inner loop appends the position once per key that gives `spendKey` back. -/
theorem checkMultisignatureKeys_snd_apply (idx : ℕ) (keys : List PublicKey)
    (state : ℕ × (PublicKey → List UInt32)) :
    (checkMultisignatureKeys underive_public_key derivation idx spendKeys keys state).2
      spendKey = state.2 spendKey ++
        if spendKey ∈ spendKeys then
          List.replicate (keys.countP fun key => underive_public_key derivation idx key = spendKey)
            idx.toUInt32
        else [] := by
  induction keys generalizing state with
  | nil => simp [checkMultisignatureKeys]
  | cons key keys ih =>
    obtain ⟨keyIndex, outputs⟩ := state
    simp only [checkMultisignatureKeys, ih, checkOutputKey_apply, List.countP_cons]
    by_cases hmem : spendKey ∈ spendKeys <;>
      by_cases hkey : underive_public_key derivation idx key = spendKey <;>
      simp [hmem, hkey, List.replicate_succ]

/-- The loop appends under `spendKey` exactly what `matchesFrom` lists. -/
theorem findMyOutputsLoop_apply (outs : List TransactionOutput) (idx keyIndex : ℕ)
    (outputs : PublicKey → List UInt32) :
    findMyOutputsLoop underive_public_key derivation spendKeys outs idx keyIndex outputs
      spendKey =
      outputs spendKey ++ matchesFrom underive_public_key derivation spendKeys spendKey outs idx
        keyIndex := by
  induction outs generalizing idx keyIndex outputs with
  | nil => simp [findMyOutputsLoop, matchesFrom]
  | cons out rest ih =>
    obtain ⟨amount, target⟩ := out
    cases target with
    | key output =>
      simp [findMyOutputsLoop, matchesFrom, outputMatches, ih, checkOutputKey_apply,
        TransactionOutputTarget.keyCount]
    | multisignature output =>
      simp [findMyOutputsLoop, matchesFrom, outputMatches, ih, checkMultisignatureKeys_snd_apply,
        TransactionOutputTarget.keyCount]

theorem matchesFrom_append (pre post : List TransactionOutput) (idx keyIndex : ℕ) :
    matchesFrom underive_public_key derivation spendKeys spendKey (pre ++ post) idx keyIndex =
      matchesFrom underive_public_key derivation spendKeys spendKey pre idx keyIndex ++
        matchesFrom underive_public_key derivation spendKeys spendKey post (idx + pre.length)
          (keyIndex + keyCounter pre) := by
  induction pre generalizing idx keyIndex with
  | nil => simp [matchesFrom]
  | cons out pre ih =>
    simp only [List.cons_append, matchesFrom, ih, List.append_assoc, keyCounter_cons,
      List.length_cons]
    congr 3 <;> omega

theorem eq_of_mem_outputMatches {idx keyIndex : ℕ} {target : TransactionOutputTarget}
    {u : UInt32}
    (h : u ∈ outputMatches underive_public_key derivation spendKeys spendKey idx keyIndex target) :
    u = idx.toUInt32 := by
  cases target with
  | key output =>
    simp only [outputMatches] at h
    split at h
    · exact List.mem_singleton.mp h
    · cases h
  | multisignature output =>
    simp only [outputMatches] at h
    split at h
    · exact List.eq_of_mem_replicate h
    · cases h

/-- Everything the loop appends is a position of one of the outputs it went over. -/
theorem exists_of_mem_matchesFrom {outs : List TransactionOutput} {idx keyIndex : ℕ}
    {u : UInt32}
    (h : u ∈ matchesFrom underive_public_key derivation spendKeys spendKey outs idx keyIndex) :
    ∃ j < outs.length, u = (idx + j).toUInt32 := by
  induction outs generalizing idx keyIndex with
  | nil => cases h
  | cons out rest ih =>
    rcases List.mem_append.mp h with hout | hrest
    · exact ⟨0, by simp, eq_of_mem_outputMatches hout⟩
    · obtain ⟨j, hj, rfl⟩ := ih hrest
      exact ⟨j + 1, by simpa using hj, by rw [Nat.add_assoc, Nat.add_comm 1 j]⟩

theorem toUInt32_inj {a b : ℕ} (ha : a < 2 ^ 32) (hb : b < 2 ^ 32)
    (h : a.toUInt32 = b.toUInt32) : a = b := by
  have hmod : a % 2 ^ 32 = b % 2 ^ 32 := by simpa [Nat.toUInt32] using congrArg UInt32.toNat h
  rwa [Nat.mod_eq_of_lt ha, Nat.mod_eq_of_lt hb] at hmod

/-- What the loop appends under `spendKey` at the output in position `p`, when the positions
fit in a `uint32_t`: the entries of the other outputs carry their own positions. -/
theorem count_matchesFrom_at {outs : List TransactionOutput} {p : ℕ} {out : TransactionOutput}
    (hout : outs[p]? = some out) (hlen : outs.length < 2 ^ 32) :
    (matchesFrom underive_public_key derivation spendKeys spendKey outs 0 0).count p.toUInt32 =
      (outputMatches underive_public_key derivation spendKeys spendKey p
        (keyCounter (outs.take p)) out.target).length := by
  obtain ⟨hp, rfl⟩ := List.getElem?_eq_some_iff.mp hout
  -- split the outputs at `p`; no output before or after it has position `p`
  have hsplit : outs = outs.take p ++ outs[p] :: outs.drop (p + 1) := by
    simp
  have hnot : ∀ (rest : List TransactionOutput) (idx keyIndex : ℕ),
      (∀ j < rest.length, idx + j ≠ p) → idx + rest.length ≤ 2 ^ 32 →
      (matchesFrom underive_public_key derivation spendKeys spendKey rest idx keyIndex).count
        p.toUInt32 = 0 := by
    intro rest idx keyIndex hne hfit
    refine List.count_eq_zero.mpr fun hmem => ?_
    obtain ⟨j, hj, heq⟩ := exists_of_mem_matchesFrom hmem
    exact hne j hj (toUInt32_inj (by omega) (by omega) heq.symm)
  have hpre := hnot (outs.take p) 0 0 (fun j hj => by simp at hj; omega) (by simp; omega)
  have hpost := hnot (outs.drop (p + 1)) (p + 1)
    (keyCounter (outs.take p) + outs[p].target.keyCount) (fun j _ => by omega) (by simp; omega)
  have hlen_take : (outs.take p).length = p := by simp; omega
  conv_lhs => rw [hsplit, matchesFrom_append, hlen_take, Nat.zero_add, Nat.zero_add, matchesFrom]
  rw [List.count_append, List.count_append, hpre, hpost, Nat.zero_add, Nat.add_zero]
  exact List.count_eq_length.mpr fun u hu => (eq_of_mem_outputMatches hu).symm

end Consumer

/-! ## Outputs built by `TransactionImpl` -/

section Wallet

open Relation

variable {KeyDerivation : Type} [Inhabited KeyDerivation]
  {generate_key_derivation : PublicKey → SecretKey → Option KeyDerivation}
  {derive_public_key underive_public_key : KeyDerivation → ℕ → PublicKey → PublicKey}
  {txKeys : KeyPair} {t : TransactionImpl} {address : AccountPublicAddress}
  {viewSecretKey : SecretKey} {derivation : KeyDerivation} {spendKeys : List PublicKey}
  {p : ℕ} {amount : UInt64}

/-- On a transaction built from `txKeys`, `findMyOutputs` runs its loop with the derivation the
receiver computes from the transaction's public key. -/
theorem findMyOutputs_of_run
    (hrun : ReflTransGen (AddOutputStep generate_key_derivation derive_public_key)
      (create txKeys) t)
    (hreceiver : generate_key_derivation txKeys.publicKey viewSecretKey = some derivation)
    (spendKey : PublicKey) :
    findMyOutputs underive_public_key generate_key_derivation t viewSecretKey spendKeys
        (fun _ => []) spendKey =
      matchesFrom underive_public_key derivation spendKeys spendKey t.transaction.outputs 0 0 := by
  simp [findMyOutputs, getTransactionPublicKey_of_run hrun, hreceiver, findMyOutputsLoop_apply]

/-- A key output built for `address` at position `p` is found under the address's spend key
exactly when the key counter at `p`, as a `size_t`, is `p`: when the keys of the outputs before
it number as many as those outputs. The sender and the receiver are assumed to compute the same
derivation, and `underive_public_key` to undo `derive_public_key` at the same `size_t` index and
only there. -/
theorem findMyOutputs_key_output_iff
    (hrun : ReflTransGen (AddOutputStep generate_key_derivation derive_public_key)
      (create txKeys) t)
    (hsender : generate_key_derivation address.viewPublicKey txKeys.secretKey = some derivation)
    (hreceiver : generate_key_derivation txKeys.publicKey viewSecretKey = some derivation)
    (hderive : ∀ i j key, underive_public_key derivation j (derive_public_key derivation i key) =
      key ↔ i % 2 ^ 64 = j % 2 ^ 64)
    (hlen : t.transaction.outputs.length < 2 ^ 32) (hspend : address.spendPublicKey ∈ spendKeys)
    (hout : t.transaction.outputs[p]? = some ⟨amount, .key ⟨derivePublicKey
      generate_key_derivation derive_public_key address txKeys.secretKey p⟩⟩) :
    p.toUInt32 ∈ findMyOutputs underive_public_key generate_key_derivation t viewSecretKey
        spendKeys (fun _ => []) address.spendPublicKey ↔
      keyCounter (t.transaction.outputs.take p) % 2 ^ 64 = p := by
  have hp : p % 2 ^ 64 = p := by
    have := (List.getElem?_eq_some_iff.mp hout).1
    exact Nat.mod_eq_of_lt (by omega)
  rw [findMyOutputs_of_run hrun hreceiver, ← List.count_pos_iff, count_matchesFrom_at hout hlen]
  simp only [outputMatches, derivePublicKey, hsender, Option.getD_some, hderive, hp, hspend,
    true_and]
  split
  case isTrue heq => exact ⟨fun _ => heq.symm, fun _ => Nat.zero_lt_one⟩
  case isFalse hne => exact ⟨fun h => absurd h (Nat.lt_irrefl 0), fun h => absurd h.symm hne⟩

/-- A multisignature output built for `addresses` at position `p` is found under the spend key
of `address` at least as many times as `address` occurs among them. -/
theorem findMyOutputs_multisignature_count {addresses : List AccountPublicAddress}
    {requiredSignatureCount : UInt8} {term : UInt32}
    (hrun : ReflTransGen (AddOutputStep generate_key_derivation derive_public_key)
      (create txKeys) t)
    (hsender : generate_key_derivation address.viewPublicKey txKeys.secretKey = some derivation)
    (hreceiver : generate_key_derivation txKeys.publicKey viewSecretKey = some derivation)
    (hinverse : ∀ i key, underive_public_key derivation i (derive_public_key derivation i key) =
      key)
    (hlen : t.transaction.outputs.length < 2 ^ 32) (hspend : address.spendPublicKey ∈ spendKeys)
    (hout : t.transaction.outputs[p]? = some ⟨amount, .multisignature
      ⟨addresses.map fun a => derivePublicKey generate_key_derivation derive_public_key a
        txKeys.secretKey p, requiredSignatureCount, term⟩⟩) :
    addresses.count address ≤
      (findMyOutputs underive_public_key generate_key_derivation t viewSecretKey spendKeys
        (fun _ => []) address.spendPublicKey).count p.toUInt32 := by
  rw [findMyOutputs_of_run hrun hreceiver, count_matchesFrom_at hout hlen]
  simp only [outputMatches, hspend, if_true, List.length_replicate, List.countP_map, List.count]
  -- every copy of `address` gives back its spend key
  refine List.countP_mono_left fun a _ ha => ?_
  have ha : a = address := by simpa using ha
  subst ha
  simp [derivePublicKey, hsender, hinverse]

end Wallet

/-! ## A transaction the wallet misreads

The curve operations as additions of the `size_t` index, with one derivation for everybody:
`underive_public_key` undoes `derive_public_key` exactly at the same index, as the theorems
above assume. -/

/-- `derive_public_key` in the additive model. -/
def additiveDerivePublicKey (_ : Unit) (i : ℕ) (key : PublicKey) : PublicKey :=
  ⟨key.data + BitVec.ofNat 256 (i % 2 ^ 64)⟩

/-- `underive_public_key` in the additive model. -/
def additiveUnderivePublicKey (_ : Unit) (i : ℕ) (key : PublicKey) : PublicKey :=
  ⟨key.data - BitVec.ofNat 256 (i % 2 ^ 64)⟩

/-- `generate_key_derivation` in the additive model: every pair of keys gives the one
derivation. -/
def constantKeyDerivation (_ : PublicKey) (_ : SecretKey) : Option Unit := some ()

theorem additiveUnderivePublicKey_additiveDerivePublicKey (i j : ℕ) (key : PublicKey) :
    additiveUnderivePublicKey () j (additiveDerivePublicKey () i key) = key ↔
      i % 2 ^ 64 = j % 2 ^ 64 := by
  obtain ⟨data⟩ := key
  simp only [additiveUnderivePublicKey, additiveDerivePublicKey, PublicKey.mk.injEq]
  bv_omega

/-- The wallet of the example: spend key 100, view key 200. -/
def sampleAccount : AccountPublicAddress := ⟨⟨100⟩, ⟨200⟩⟩

/-- The other owner of the multisignature output of the example. -/
def sampleCosigner : AccountPublicAddress := ⟨⟨300⟩, ⟨400⟩⟩

/-- The key pair of the transaction of the example. -/
def sampleTxKeys : KeyPair := ⟨⟨1⟩, ⟨2⟩⟩

/-- `addOutput(5, {sampleAccount, sampleCosigner}, 2, 0)` and then `addOutput(6, sampleAccount)`
on a fresh transaction, in the additive model: the key output is derived at position 1. -/
def multisignatureThenKeyOutput : TransactionImpl where
  transaction :=
    { version := TRANSACTION_VERSION_2
      unlockTime := 0
      inputs := []
      outputs := [⟨5, .multisignature ⟨[⟨100⟩, ⟨300⟩], 2, 0⟩⟩, ⟨6, .key ⟨⟨101⟩⟩⟩]
      extra := (writeTransactionExtra [] [.publicKey ⟨sampleTxKeys.publicKey⟩]).2
      signatures := [] }
  secretKey := some sampleTxKeys.secretKey
  extra := [.publicKey ⟨sampleTxKeys.publicKey⟩]

theorem findMyOutputs_key_output_iff_sample :
    (1 : ℕ).toUInt32 ∉ findMyOutputs additiveUnderivePublicKey constantKeyDerivation
      multisignatureThenKeyOutput ⟨3⟩ [sampleAccount.spendPublicKey] (fun _ => [])
      sampleAccount.spendPublicKey := by
  have hrun : Relation.ReflTransGen (AddOutputStep constantKeyDerivation additiveDerivePublicKey)
      (create sampleTxKeys) multisignatureThenKeyOutput :=
    .tail (.single (@AddOutputStep.multisignature Unit _ constantKeyDerivation
        additiveDerivePublicKey (create sampleTxKeys) _ 5 [sampleAccount, sampleCosigner] 2 0 0
        rfl))
      (@AddOutputStep.key Unit _ constantKeyDerivation additiveDerivePublicKey _
        multisignatureThenKeyOutput 6 sampleAccount 1 rfl)
  exact (findMyOutputs_key_output_iff (p := 1) hrun rfl rfl
    additiveUnderivePublicKey_additiveDerivePublicKey (by decide) (List.mem_singleton_self _)
    rfl).not.mpr (by decide)

/-- `addOutput(5, {sampleAccount, sampleAccount}, 2, 0)` on a fresh transaction, in the
additive model. -/
def doubleKeyMultisignatureOutput : TransactionImpl where
  transaction :=
    { version := TRANSACTION_VERSION_2
      unlockTime := 0
      inputs := []
      outputs := [⟨5, .multisignature ⟨[⟨100⟩, ⟨100⟩], 2, 0⟩⟩]
      extra := (writeTransactionExtra [] [.publicKey ⟨sampleTxKeys.publicKey⟩]).2
      signatures := [] }
  secretKey := some sampleTxKeys.secretKey
  extra := [.publicKey ⟨sampleTxKeys.publicKey⟩]

theorem findMyOutputs_multisignature_count_sample :
    2 ≤ (findMyOutputs additiveUnderivePublicKey constantKeyDerivation
      doubleKeyMultisignatureOutput ⟨3⟩ [sampleAccount.spendPublicKey] (fun _ => [])
      sampleAccount.spendPublicKey).count (0 : ℕ).toUInt32 := by
  have hrun : Relation.ReflTransGen (AddOutputStep constantKeyDerivation additiveDerivePublicKey)
      (create sampleTxKeys) doubleKeyMultisignatureOutput :=
    .single (@AddOutputStep.multisignature Unit _ constantKeyDerivation additiveDerivePublicKey
      (create sampleTxKeys) doubleKeyMultisignatureOutput 5 [sampleAccount, sampleAccount] 2 0 0
      rfl)
  have hinverse : ∀ i key, additiveUnderivePublicKey () i (additiveDerivePublicKey () i key) =
      key := fun i key => (additiveUnderivePublicKey_additiveDerivePublicKey i i key).mpr rfl
  exact (show 2 = [sampleAccount, sampleAccount].count sampleAccount by decide).trans_le
    (findMyOutputs_multisignature_count (p := 0) hrun rfl rfl hinverse (by decide)
      (List.mem_singleton_self _) rfl)


end UltraNoteCore
