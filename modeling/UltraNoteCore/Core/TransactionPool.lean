import UltraNoteCore.Core.Currency
import UltraNoteCore.Prelude.Containers
import Mathlib.Data.Finset.Union

/-!
# The transaction pool

`tx_memory_pool` (`TransactionPool.cpp`) holds the transactions waiting for a block, with two
indexes that keep conflicting spends out: `m_spent_key_images` binds each key image to the
pooled transactions that reveal it, and `m_spentOutputs` holds the multisignature outputs spent
by the pooled transactions that were not added on behalf of a block (`keptByBlock`). A
transaction kept by a block skips the conflict checks, since the block already spent its
inputs; its key images are still indexed, its multisignature outputs are not.

The validator the pool was built with (in the node, the blockchain), the clock, and two pure
functions of a transaction that other files define (its TTL field, the fusion test) are read
at each call from a `PoolEnv`. `core::check_tx_semantic`, the check a transaction passes
before it reaches the pool, is here as well.

## Main definitions

* `check_tx_semantic`: the stateless checks of `core`
* `tx_memory_pool`: the pool's state; `add_tx`, `take_tx`, `removeExpiredTransactions`
* `tx_memory_pool.Invariant`: the spent-input indexes agree with the pooled transactions

## Main results

* `Invariant.add_tx`, `Invariant.take_tx`, `Invariant.removeExpiredTransactions`: every
  operation keeps the invariant, given that an added transaction reveals no key image twice
* `Invariant.runPool`: the invariant holds after every run from the empty pool
-/

namespace UltraNoteCore

/-- `tx_verification_context`, value-initialised. -/
structure tx_verification_context where
  m_should_be_relayed : Bool := false
  m_verification_failed : Bool := false
  m_verification_impossible : Bool := false
  m_added_to_pool : Bool := false
  m_tx_fee_too_small : Bool := false
deriving DecidableEq, Repr

/-- `core::check_tx_semantic`: inputs present and of supported types, valid outputs, no
overflow, inputs worth at least the outputs at `height`, and no key image or multisignature
output spent twice. -/
def check_tx_semantic (c : Currency) (checkKey : PublicKey → Bool) (tx : Transaction)
    (height : Nat) : Bool :=
  if tx.inputs.isEmpty then false
  else if !check_inputs_types_supported tx.toTransactionPrefix then false
  else if !check_outs_valid checkKey tx.toTransactionPrefix then false
  else if !check_money_overflow tx.toTransactionPrefix then false
  else
    let amount_in := c.getTransactionAllInputsAmount tx.toTransactionPrefix height
    let amount_out := get_outs_money_amount tx.toTransactionPrefix
    -- the retry reads the inputs again at `testHeight`, which the source sets to `height`
    if amount_in < amount_out ∧
        c.getTransactionAllInputsAmount tx.toTransactionPrefix height < amount_out then false
    else check_tx_inputs_keyimages_diff tx.toTransactionPrefix &&
      checkMultisignatureInputsDiff tx.toTransactionPrefix

theorem check_tx_inputs_keyimages_diff_of_check_tx_semantic {c : Currency}
    {checkKey : PublicKey → Bool} {tx : Transaction} {height : Nat}
    (h : check_tx_semantic c checkKey tx height = true) :
    check_tx_inputs_keyimages_diff tx.toTransactionPrefix = true := by
  unfold check_tx_semantic at h
  dsimp only at h
  split_ifs at h
  exact ((Bool.and_eq_true _ _).mp h).1

/-- A transaction `check_tx_semantic` admits spends at least what it creates, its inputs
valued at `height`. -/
theorem get_outs_money_amount_le_of_check_tx_semantic {c : Currency}
    {checkKey : PublicKey → Bool} {tx : Transaction} {height : Nat}
    (h : check_tx_semantic c checkKey tx height = true) :
    get_outs_money_amount tx.toTransactionPrefix ≤
      c.getTransactionAllInputsAmount tx.toTransactionPrefix height := by
  unfold check_tx_semantic at h
  dsimp only at h
  split_ifs at h with h₁ h₂ h₃ h₄ hamount
  exact UInt64.not_lt.mp fun hlt => hamount ⟨hlt, hlt⟩

/-! ## The pool's state -/

/-- `tx_memory_pool::GlobalOutput`: a multisignature output as `(amount, outputIndex)`, both
`uint64_t`. -/
abbrev GlobalOutput := UInt64 × UInt64

/-- The `GlobalOutput` a multisignature input spends, none for the other inputs. -/
def TransactionInput.globalOutput? : TransactionInput → Option GlobalOutput
  | .multisignature m => some (m.amount, m.outputIndex.toUInt64)
  | _ => none

@[simp] theorem TransactionInput.globalOutput?_key (k : KeyInput) :
    (TransactionInput.key k).globalOutput? = none := rfl

@[simp] theorem TransactionInput.globalOutput?_base (b : BaseInput) :
    (TransactionInput.base b).globalOutput? = none := rfl

@[simp] theorem TransactionInput.globalOutput?_multisignature (m : MultisignatureInput) :
    (TransactionInput.multisignature m).globalOutput? = some (m.amount, m.outputIndex.toUInt64) :=
  rfl

/-- The multisignature outputs a transaction spends, as `GlobalOutput`s, in input order. -/
def globalOutputs (tx : TransactionPrefix) : List GlobalOutput :=
  tx.inputs.filterMap TransactionInput.globalOutput?

/-- `tx_memory_pool::TransactionDetails`, without the `TransactionCheckInfo` it extends, which
only the block template reads. -/
structure TransactionDetails where
  id : Hash
  tx : Transaction
  blobSize : Nat
  fee : UInt64
  keptByBlock : Bool
  receiveTime : UInt64
deriving DecidableEq, Repr

/-- The state of `tx_memory_pool` that `add_tx`, `take_tx` and `removeExpiredTransactions`
read and write; `m_transactions` is unique by `id`, as its `hashed_unique` index. -/
structure tx_memory_pool where
  m_transactions : KeyedList TransactionDetails TransactionDetails.id
  m_spent_key_images : KeyImage → Option (Finset Hash)
  m_spentOutputs : Finset GlobalOutput
  m_recentlyDeletedTransactions : Hash → Option UInt64
  m_ttlIndex : Hash → Option UInt64

/-- A new pool: no transaction, every index empty. -/
def tx_memory_pool.empty : tx_memory_pool :=
  ⟨KeyedList.empty, fun _ => none, ∅, fun _ => none, fun _ => none⟩

/-- What the pool reads from outside itself at one call. -/
structure PoolEnv where
  /-- `ITransactionValidator::checkTransactionInputs`, the blockchain's verdict on the inputs. -/
  checkTransactionInputs : Transaction → Bool
  /-- `ITransactionValidator::checkTransactionSize`. -/
  checkTransactionSize : Nat → Bool
  /-- The wall clock: `time(nullptr)`, which `RealTimeProvider::now` also returns. -/
  now : UInt64
  /-- The `TransactionExtraTTL` of an `extra`, `0` when it has none. -/
  ttl : List UInt8 → UInt64
  /-- `Currency::isFusionTransaction(tx, blobSize)`. -/
  isFusionTransaction : Transaction → Nat → Bool

namespace tx_memory_pool

/-! ## The spent-input indexes -/

/-- `tx_memory_pool::haveSpentInputs`: some key image of `tx` has an entry, or some
multisignature output it spends is in `m_spentOutputs`. -/
def haveSpentInputs (p : tx_memory_pool) (tx : Transaction) : Bool :=
  tx.inputs.any fun
    | .key k => (p.m_spent_key_images k.keyImage).isSome
    | .multisignature m => decide ((m.amount, m.outputIndex.toUInt64) ∈ p.m_spentOutputs)
    | .base _ => false

/-- The loop of `tx_memory_pool::addTransactionInputs` over the inputs `ins`. A key image gets
the transaction's `id`, which fails unless the transaction is kept by a block or the image is
new, and fails if `id` is there already; a multisignature output is recorded unless the
transaction is kept by a block. A failure returns at once, with what was done so far. -/
def addTransactionInputs (p : tx_memory_pool) (id : Hash) (keptByBlock : Bool) :
    List TransactionInput → Bool × tx_memory_pool
  | [] => (true, p)
  | .key k :: ins =>
    let kei_image_set := StdMap.members p.m_spent_key_images k.keyImage
    -- `m_spent_key_images[txin.keyImage]` has created the entry when a check fails
    let touched := { p with
      m_spent_key_images := StdMap.touch p.m_spent_key_images k.keyImage }
    -- `kei_image_set.size() == 0`
    if !(keptByBlock || decide (kei_image_set = ∅)) then (false, touched)
    else if id ∈ kei_image_set then (false, touched)
    else addTransactionInputs { p with
      m_spent_key_images := StdMap.insertAt p.m_spent_key_images k.keyImage id } id keptByBlock ins
  | .multisignature m :: ins =>
    if !keptByBlock then
      addTransactionInputs { p with
        m_spentOutputs := insert (m.amount, m.outputIndex.toUInt64) p.m_spentOutputs }
        id keptByBlock ins
    else addTransactionInputs p id keptByBlock ins
  | .base _ :: ins => addTransactionInputs p id keptByBlock ins

/-- The loop of `tx_memory_pool::removeTransactionInputs` over the inputs `ins`. A key image
loses `id`, and its entry once the set is empty; a missing entry, an empty set or a missing
`id` fails at once. A multisignature output is erased unless the transaction is kept by a
block. -/
def removeTransactionInputs (p : tx_memory_pool) (id : Hash) (keptByBlock : Bool) :
    List TransactionInput → Bool × tx_memory_pool
  | [] => (true, p)
  | .key k :: ins =>
    match p.m_spent_key_images k.keyImage with
    | none => (false, p)
    | some key_image_set =>
      if key_image_set = ∅ then (false, p)
      else if id ∉ key_image_set then (false, p)
      else removeTransactionInputs { p with
        m_spent_key_images := StdMap.eraseAt p.m_spent_key_images k.keyImage id }
        id keptByBlock ins
  | .multisignature m :: ins =>
    if !keptByBlock then
      removeTransactionInputs { p with
        m_spentOutputs := p.m_spentOutputs.erase (m.amount, m.outputIndex.toUInt64) }
        id keptByBlock ins
    else removeTransactionInputs p id keptByBlock ins
  | .base _ :: ins => removeTransactionInputs p id keptByBlock ins

/-- `tx_memory_pool::removeTransaction`: the inputs are unindexed (the result is ignored), the
TTL entry and the transaction erased. -/
def removeTransaction (p : tx_memory_pool) (d : TransactionDetails) : tx_memory_pool :=
  let p₁ := (p.removeTransactionInputs d.id d.keptByBlock d.tx.inputs).2
  { p₁ with
    m_ttlIndex := StdMap.erase p₁.m_ttlIndex d.id
    m_transactions := p₁.m_transactions.erase d.id }


/-! ## The loops over the inputs -/

section Loops

variable {p : tx_memory_pool} (id : Hash) (keptByBlock : Bool)

@[simp] theorem addTransactionInputs_transactions (p : tx_memory_pool) (id : Hash)
    (keptByBlock : Bool) (ins : List TransactionInput) :
    (p.addTransactionInputs id keptByBlock ins).2.m_transactions = p.m_transactions := by
  induction ins generalizing p with
  | nil => rfl
  | cons i ins ih =>
    cases i with
    | base => exact ih p
    | key k =>
      simp only [addTransactionInputs]
      split_ifs <;> first | rfl | exact ih _
    | multisignature m =>
      simp only [addTransactionInputs]
      split_ifs
      · exact ih _
      · exact ih _

@[simp] theorem removeTransactionInputs_transactions (p : tx_memory_pool) (id : Hash)
    (keptByBlock : Bool) (ins : List TransactionInput) :
    (p.removeTransactionInputs id keptByBlock ins).2.m_transactions = p.m_transactions := by
  induction ins generalizing p with
  | nil => rfl
  | cons i ins ih =>
    cases i with
    | base => exact ih p
    | key k =>
      simp only [removeTransactionInputs]
      split
      · rfl
      · split_ifs <;> first | rfl | exact ih _
    | multisignature m =>
      simp only [removeTransactionInputs]
      split_ifs
      · exact ih _
      · exact ih _

/-- **Indexing the inputs of a new transaction.** When `id` is related to none of the key images
of `ins`, which are pairwise distinct, and (unless the transaction is kept by a block) nothing
is related to them, the loop succeeds: the key images get `id`, and the multisignature outputs
are recorded unless the transaction is kept by a block. -/
theorem addTransactionInputs_spec (ins : List TransactionInput) {R : KeyImage → Hash → Prop}
    (hR : StdMap.Indexes p.m_spent_key_images R)
    (hnd : (ins.filterMap TransactionInput.keyImage?).Nodup)
    (hfresh : ∀ k ∈ ins.filterMap TransactionInput.keyImage?, ¬R k id)
    (hfree : keptByBlock = false → ∀ k ∈ ins.filterMap TransactionInput.keyImage?, ∀ i, ¬R k i) :
    (p.addTransactionInputs id keptByBlock ins).1 = true ∧
    StdMap.Indexes (p.addTransactionInputs id keptByBlock ins).2.m_spent_key_images
      (fun k i => R k i ∨ k ∈ ins.filterMap TransactionInput.keyImage? ∧ i = id) ∧
    (p.addTransactionInputs id keptByBlock ins).2.m_spentOutputs =
      if keptByBlock then p.m_spentOutputs
      else p.m_spentOutputs ∪ (ins.filterMap TransactionInput.globalOutput?).toFinset := by
  induction ins generalizing p R with
  | nil =>
    exact ⟨rfl, hR.congr (by simp), by cases keptByBlock <;> simp [addTransactionInputs]⟩
  | cons i ins ih =>
    cases i with
    | base =>
      simpa [addTransactionInputs, List.filterMap_cons] using ih hR
        (by simpa [List.filterMap_cons] using hnd) (by simpa [List.filterMap_cons] using hfresh)
        (by simpa [List.filterMap_cons] using hfree)
    | multisignature m =>
      have hnd' : (ins.filterMap TransactionInput.keyImage?).Nodup := by
        simpa [List.filterMap_cons] using hnd
      have hfresh' : ∀ k ∈ ins.filterMap TransactionInput.keyImage?, ¬R k id := by
        simpa [List.filterMap_cons] using hfresh
      have hfree' : keptByBlock = false →
          ∀ k ∈ ins.filterMap TransactionInput.keyImage?, ∀ i, ¬R k i := by
        simpa [List.filterMap_cons] using hfree
      cases keptByBlock
      · -- not kept by a block: the output is recorded before the rest of the loop
        obtain ⟨h1, h2, h3⟩ := ih (p := { p with
          m_spentOutputs := insert (m.amount, m.outputIndex.toUInt64) p.m_spentOutputs })
          hR hnd' hfresh' hfree'
        refine ⟨by simpa [addTransactionInputs] using h1,
          by simpa [addTransactionInputs, List.filterMap_cons] using h2, ?_⟩
        simp only [addTransactionInputs, Bool.not_false, if_true] at h3 ⊢
        rw [h3]
        simp [Finset.insert_union, Finset.union_insert]
      · obtain ⟨h1, h2, h3⟩ := ih hR hnd' hfresh' hfree'
        exact ⟨by simpa [addTransactionInputs] using h1,
          by simpa [addTransactionInputs, List.filterMap_cons] using h2,
          by simpa [addTransactionInputs, List.filterMap_cons] using h3⟩
    | key k =>
      simp only [List.filterMap_cons, TransactionInput.keyImage?_key, List.nodup_cons,
        List.mem_cons, forall_eq_or_imp] at hnd hfresh hfree
      obtain ⟨hnotin, hnd'⟩ := hnd
      -- both checks pass: the set of a new key image is empty, and `id` is in no set
      have hempty : keptByBlock = false → StdMap.members p.m_spent_key_images k.keyImage = ∅ := by
        intro hk
        ext i
        simpa [hR.mem_iff] using (hfree hk).1 i
      have hid : id ∉ StdMap.members p.m_spent_key_images k.keyImage := by
        rw [hR.mem_iff]
        exact hfresh.1
      have hstep : p.addTransactionInputs id keptByBlock (.key k :: ins) =
          addTransactionInputs
            { p with m_spent_key_images := StdMap.insertAt p.m_spent_key_images k.keyImage id }
            id keptByBlock ins := by
        cases keptByBlock
        · simp [addTransactionInputs, hempty rfl]
        · simp [addTransactionInputs, hid]
      obtain ⟨h1, h2, h3⟩ := ih (R := fun k' i => R k' i ∨ k' = k.keyImage ∧ i = id)
        (p := { p with m_spent_key_images := StdMap.insertAt p.m_spent_key_images k.keyImage id })
        (hR.insertAt k.keyImage id) hnd'
        (fun k' hk' => by
          rintro (h | ⟨rfl, -⟩)
          · exact hfresh.2 k' hk' h
          · exact hnotin hk')
        (fun hk k' hk' i => by
          rintro (h | ⟨rfl, -⟩)
          · exact (hfree hk).2 k' hk' i h
          · exact hnotin hk')
      rw [hstep]
      refine ⟨h1, h2.congr fun k' i => ?_, by simpa [List.filterMap_cons] using h3⟩
      simp only [List.filterMap_cons, TransactionInput.keyImage?_key, List.mem_cons]
      tauto

/-- **Unindexing the inputs of a pooled transaction.** When `id` is related to each of the
key images of `ins`, which are pairwise distinct, the loop succeeds: the key images lose `id`,
and the multisignature outputs are erased unless the transaction is kept by a block. -/
theorem removeTransactionInputs_spec (ins : List TransactionInput) {R : KeyImage → Hash → Prop}
    (hR : StdMap.Indexes p.m_spent_key_images R)
    (hnd : (ins.filterMap TransactionInput.keyImage?).Nodup)
    (hmem : ∀ k ∈ ins.filterMap TransactionInput.keyImage?, R k id) :
    (p.removeTransactionInputs id keptByBlock ins).1 = true ∧
    StdMap.Indexes (p.removeTransactionInputs id keptByBlock ins).2.m_spent_key_images
      (fun k i => R k i ∧ ¬(k ∈ ins.filterMap TransactionInput.keyImage? ∧ i = id)) ∧
    (p.removeTransactionInputs id keptByBlock ins).2.m_spentOutputs =
      if keptByBlock then p.m_spentOutputs
      else p.m_spentOutputs \ (ins.filterMap TransactionInput.globalOutput?).toFinset := by
  induction ins generalizing p R with
  | nil =>
    exact ⟨rfl, hR.congr (by simp), by cases keptByBlock <;> simp [removeTransactionInputs]⟩
  | cons i ins ih =>
    cases i with
    | base =>
      simpa [removeTransactionInputs, List.filterMap_cons] using ih hR
        (by simpa [List.filterMap_cons] using hnd) (by simpa [List.filterMap_cons] using hmem)
    | multisignature m =>
      have hnd' : (ins.filterMap TransactionInput.keyImage?).Nodup := by
        simpa [List.filterMap_cons] using hnd
      have hmem' : ∀ k ∈ ins.filterMap TransactionInput.keyImage?, R k id := by
        simpa [List.filterMap_cons] using hmem
      cases keptByBlock
      · -- not kept by a block: the output is erased before the rest of the loop
        obtain ⟨h1, h2, h3⟩ := ih (p := { p with
          m_spentOutputs := p.m_spentOutputs.erase (m.amount, m.outputIndex.toUInt64) })
          hR hnd' hmem'
        refine ⟨by simpa [removeTransactionInputs] using h1,
          by simpa [removeTransactionInputs, List.filterMap_cons] using h2, ?_⟩
        simp only [removeTransactionInputs, Bool.not_false, if_true] at h3 ⊢
        rw [h3]
        simp [Finset.sdiff_insert, Finset.erase_sdiff_comm]
      · obtain ⟨h1, h2, h3⟩ := ih hR hnd' hmem'
        exact ⟨by simpa [removeTransactionInputs] using h1,
          by simpa [removeTransactionInputs, List.filterMap_cons] using h2,
          by simpa [removeTransactionInputs, List.filterMap_cons] using h3⟩
    | key k =>
      simp only [List.filterMap_cons, TransactionInput.keyImage?_key, List.nodup_cons,
        List.mem_cons, forall_eq_or_imp] at hnd hmem
      obtain ⟨hnotin, hnd'⟩ := hnd
      -- the entry of the key image exists, is not empty, and holds `id`
      have hin : id ∈ StdMap.members p.m_spent_key_images k.keyImage :=
        (hR.mem_iff _ _).mpr hmem.1
      obtain ⟨s, hs⟩ : ∃ s, p.m_spent_key_images k.keyImage = some s := by
        cases hk : p.m_spent_key_images k.keyImage with
        | none => simp [StdMap.members, hk] at hin
        | some s => exact ⟨s, rfl⟩
      have hne : s ≠ ∅ := fun he => hR.ne_empty k.keyImage (he ▸ hs)
      have hids : id ∈ s := by simpa [StdMap.members, hs] using hin
      have hstep : p.removeTransactionInputs id keptByBlock (.key k :: ins) =
          removeTransactionInputs
            { p with m_spent_key_images := StdMap.eraseAt p.m_spent_key_images k.keyImage id }
            id keptByBlock ins := by
        simp [removeTransactionInputs, hs, hne, hids]
      obtain ⟨h1, h2, h3⟩ := ih (R := fun k' i => R k' i ∧ ¬(k' = k.keyImage ∧ i = id))
        (p := { p with m_spent_key_images := StdMap.eraseAt p.m_spent_key_images k.keyImage id })
        (hR.eraseAt k.keyImage id) hnd'
        (fun k' hk' => ⟨hmem.2 k' hk', fun hkk => hnotin (hkk.1 ▸ hk')⟩)
      rw [hstep]
      refine ⟨h1, h2.congr fun k' i => ?_, by simpa [List.filterMap_cons] using h3⟩
      simp only [List.filterMap_cons, TransactionInput.keyImage?_key, List.mem_cons]
      tauto

end Loops


/-! ## The invariant -/

section Invariant

variable {p q : tx_memory_pool} {tx : Transaction} {d e : TransactionDetails}

/-- The relation `m_spent_key_images` indexes: the pooled transaction `id` reveals the key
image `k`. -/
def revealsKeyImage (p : tx_memory_pool) (k : KeyImage) (id : Hash) : Prop :=
  ∃ d ∈ p.m_transactions.items, d.id = id ∧ k ∈ keyImages d.tx.toTransactionPrefix

/-- The set `m_spentOutputs` holds: the outputs spent by the pooled transactions that are not
kept by a block. -/
def spendsOutput (p : tx_memory_pool) (o : GlobalOutput) : Prop :=
  ∃ d ∈ p.m_transactions.items, d.keptByBlock = false ∧ o ∈ globalOutputs d.tx.toTransactionPrefix

/-- **The pool invariant.** Every pooled transaction reveals each key image once;
`m_spent_key_images` is an exact index of which pooled transaction reveals which key image;
`m_spentOutputs` holds exactly the outputs spent by the pooled transactions not kept by a block;
and two such transactions spend no common key image or output. -/
structure Invariant (p : tx_memory_pool) : Prop where
  keyImages_nodup : ∀ d ∈ p.m_transactions.items, (keyImages d.tx.toTransactionPrefix).Nodup
  spent_key_images : StdMap.Indexes p.m_spent_key_images p.revealsKeyImage
  spentOutputs_iff : ∀ o, o ∈ p.m_spentOutputs ↔ p.spendsOutput o
  nonKept_disjoint : ∀ d₁ ∈ p.m_transactions.items, ∀ d₂ ∈ p.m_transactions.items,
    d₁.keptByBlock = false → d₂.keptByBlock = false → d₁.id ≠ d₂.id →
    (∀ k ∈ keyImages d₁.tx.toTransactionPrefix, k ∉ keyImages d₂.tx.toTransactionPrefix) ∧
    (∀ o ∈ globalOutputs d₁.tx.toTransactionPrefix, o ∉ globalOutputs d₂.tx.toTransactionPrefix)

theorem Invariant.empty : Invariant tx_memory_pool.empty :=
  ⟨by simp [tx_memory_pool.empty, KeyedList.empty],
    StdMap.Indexes.empty.congr (by simp [revealsKeyImage, tx_memory_pool.empty, KeyedList.empty]),
    by simp [spendsOutput, tx_memory_pool.empty, KeyedList.empty],
    by simp [tx_memory_pool.empty, KeyedList.empty]⟩

/-- `haveSpentInputs` is false exactly when no key image of `tx` has an entry and no output it
spends is recorded. -/
theorem haveSpentInputs_eq_false :
    p.haveSpentInputs tx = false ↔
      (∀ k ∈ keyImages tx.toTransactionPrefix, p.m_spent_key_images k = none) ∧
      (∀ o ∈ globalOutputs tx.toTransactionPrefix, o ∉ p.m_spentOutputs) := by
  simp only [haveSpentInputs, List.any_eq_false, keyImages, globalOutputs, List.mem_filterMap]
  constructor
  · intro hall
    refine ⟨?_, ?_⟩
    · rintro k ⟨i, hi, hk⟩
      cases i <;> simp at hk
      subst hk
      simpa using hall _ hi
    · rintro o ⟨i, hi, ho⟩
      cases i <;> simp at ho
      subst ho
      simpa using hall _ hi
  · rintro ⟨hk, ho⟩ i hi
    cases i with
    | base => simp
    | key k => simpa using hk _ ⟨_, hi, rfl⟩
    | multisignature m => simpa using ho _ ⟨_, hi, rfl⟩

/-- A transaction that passed `haveSpentInputs` shares no key image with a pooled transaction,
and no multisignature output with one not kept by a block. -/
theorem Invariant.disjoint_of_haveSpentInputs (h : p.Invariant)
    (hs : p.haveSpentInputs tx = false) (he : e ∈ p.m_transactions.items) :
    (∀ k ∈ keyImages tx.toTransactionPrefix, k ∉ keyImages e.tx.toTransactionPrefix) ∧
    (e.keptByBlock = false →
      ∀ o ∈ globalOutputs tx.toTransactionPrefix, o ∉ globalOutputs e.tx.toTransactionPrefix) := by
  obtain ⟨hk, ho⟩ := haveSpentInputs_eq_false.mp hs
  refine ⟨fun k hkt hke => ?_, fun hek o hot hoe => ?_⟩
  · exact (h.spent_key_images.eq_none_iff k).mp (hk k hkt) e.id ⟨e, he, rfl, hke⟩
  · exact ho o hot ((h.spentOutputs_iff o).mpr ⟨e, he, hek, hoe⟩)

@[simp] theorem mem_removeTransaction_items :
    e ∈ (p.removeTransaction d).m_transactions.items ↔
      e ∈ p.m_transactions.items ∧ e.id ≠ d.id := by
  simp [removeTransaction]

/-- **Removing a pooled transaction keeps the invariant**: its inputs are unindexed without
failure, and what stays indexed is what the other transactions spend. -/
theorem Invariant.removeTransaction (h : p.Invariant) (hd : d ∈ p.m_transactions.items) :
    (p.removeTransaction d).Invariant := by
  obtain ⟨-, hki, hso⟩ := removeTransactionInputs_spec d.id d.keptByBlock d.tx.inputs
    h.spent_key_images (h.keyImages_nodup d hd) (fun k hk => ⟨d, hd, rfl, hk⟩)
  -- the only pooled transaction with the id of `d` is `d`
  have hsame : ∀ e ∈ p.m_transactions.items, e.id = d.id → e = d :=
    fun e he hid => p.m_transactions.eq_of_key_eq he hd hid
  refine ⟨fun e he => h.keyImages_nodup e (mem_removeTransaction_items.mp he).1,
    hki.congr fun k i => ?_, fun o => ?_, fun d₁ h₁ d₂ h₂ => ?_⟩
  · simp only [revealsKeyImage, mem_removeTransaction_items]
    constructor
    · rintro ⟨⟨e, he, rfl, hk⟩, hnot⟩
      refine ⟨e, ⟨he, fun hid => hnot ⟨?_, hid⟩⟩, rfl, hk⟩
      rw [hsame e he hid] at hk
      exact hk
    · rintro ⟨e, ⟨he, hid⟩, rfl, hk⟩
      exact ⟨⟨e, he, rfl, hk⟩, fun ⟨_, hid'⟩ => hid hid'⟩
  · change o ∈ (p.removeTransactionInputs d.id d.keptByBlock d.tx.inputs).2.m_spentOutputs ↔ _
    rw [hso]
    simp only [spendsOutput, mem_removeTransaction_items]
    cases hkept : d.keptByBlock
    · -- the outputs of `d` are erased; another transaction not kept by a block spends none
      simp only [Bool.false_eq_true, if_false, Finset.mem_sdiff, List.mem_toFinset,
        h.spentOutputs_iff, spendsOutput]
      constructor
      · rintro ⟨⟨e, he, hek, ho⟩, hnd⟩
        refine ⟨e, ⟨he, fun hid => hnd ?_⟩, hek, ho⟩
        rw [hsame e he hid] at ho
        exact ho
      · rintro ⟨e, ⟨he, hid⟩, hek, ho⟩
        exact ⟨⟨e, he, hek, ho⟩, (h.nonKept_disjoint e he d hd hek hkept hid).2 o ho⟩
    · -- `d` is kept by a block: it recorded no output
      simp only [if_true, h.spentOutputs_iff, spendsOutput]
      constructor
      · rintro ⟨e, he, hek, ho⟩
        refine ⟨e, ⟨he, fun hid => ?_⟩, hek, ho⟩
        rw [hsame e he hid, hkept] at hek
        cases hek
      · rintro ⟨e, ⟨he, -⟩, hek, ho⟩
        exact ⟨e, he, hek, ho⟩
  · exact h.nonKept_disjoint d₁ (mem_removeTransaction_items.mp h₁).1 d₂
      (mem_removeTransaction_items.mp h₂).1

end Invariant

/-! ## The operations -/

section Operations

variable (c : Currency)

/-- The block of `add_tx` that adds to the pool, once every check has passed: the transaction
is inserted (a taken id fails), its TTL recorded, and its inputs indexed. The flags are set
before the inputs are indexed, and `m_verification_failed` is cleared only if that succeeds. -/
def insertTransaction (p : tx_memory_pool) (txd : TransactionDetails) (ttl : UInt64)
    (tvc : tx_verification_context) (shouldBeRelayed : Bool) :
    Bool × tx_verification_context × tx_memory_pool :=
  match p.m_transactions.insert txd with
  | none => (false, tvc, p)
  | some m_transactions =>
    let p₁ := { p with
      m_transactions := m_transactions
      m_ttlIndex := if ttl ≠ 0 then StdMap.emplace p.m_ttlIndex txd.id ttl else p.m_ttlIndex }
    let tvc := { tvc with
      m_added_to_pool := true, m_should_be_relayed := shouldBeRelayed,
      m_verification_failed := true }
    let added := p₁.addTransactionInputs txd.id txd.keptByBlock txd.tx.inputs
    if added.1 then (true, { tvc with m_verification_failed := false }, added.2)
    else (false, tvc, added.2)

/-- `tx_memory_pool::add_tx(tx, id, blobSize, tvc, keptByBlock, height)`. The checks run in
the source's order; a transaction kept by a block skips the TTL, conflict, input and size
checks and the recently-deleted shortcut, and invalid inputs only mark it unverifiable. The
transaction is inserted before its inputs are indexed, so a failure of
`addTransactionInputs` leaves it in the pool. -/
def add_tx (p : tx_memory_pool) (env : PoolEnv) (tx : Transaction) (id : Hash) (blobSize : Nat)
    (tvc : tx_verification_context) (keptByBlock : Bool) (height : Nat) :
    Bool × tx_verification_context × tx_memory_pool :=
  let failed := { tvc with m_verification_failed := true }
  let inputs_amount := c.getTransactionAllInputsAmount tx.toTransactionPrefix height
  let outputs_amount := get_outs_money_amount tx.toTransactionPrefix
  let ttl := env.ttl tx.extra
  let fee := inputs_amount - outputs_amount
  let isFusionTransaction := fee == 0 && env.isFusionTransaction tx blobSize
  if !check_inputs_types_supported tx.toTransactionPrefix then (false, failed, p)
  else if outputs_amount > inputs_amount then (false, failed, p)
  -- expired, too far ahead, or carrying a fee: the three TTL rejections
  else if ttl ≠ 0 ∧ keptByBlock = false ∧ (ttl ≤ env.now ∨
      c.mempoolTxLiveTime + c.blockFutureTimeLimit < ttl - env.now ∨ fee ≠ 0) then
    (false, failed, p)
  else if keptByBlock = false ∧ p.haveSpentInputs tx then (false, failed, p)
  else if env.checkTransactionInputs tx = false ∧ keptByBlock = false then (false, failed, p)
  else
  let inputsValid := env.checkTransactionInputs tx
  let tvc := if inputsValid then tvc else { tvc with m_verification_impossible := true }
  if keptByBlock = false ∧ env.checkTransactionSize blobSize = false then
    (false, { tvc with m_verification_failed := true }, p)
  else if keptByBlock = false ∧ (p.m_recentlyDeletedTransactions id).isSome then
    (true, { tvc with
      m_verification_failed := false, m_should_be_relayed := false, m_added_to_pool := false }, p)
  else p.insertTransaction ⟨id, tx, blobSize, fee, keptByBlock, env.now⟩ ttl tvc
    (inputsValid && (decide (fee > 0) || isFusionTransaction || ttl != 0))

/-- `tx_memory_pool::take_tx`: the transaction, its size and fee, and the pool without it. -/
def take_tx (p : tx_memory_pool) (id : Hash) :
    Option (Transaction × Nat × UInt64) × tx_memory_pool :=
  match p.m_transactions.find? id with
  | none => (none, p)
  | some d => (some (d.tx, d.blobSize, d.fee), p.removeTransaction d)

/-- Whether the loop of `removeExpiredTransactions` removes `d`: it is older than its live time
(longer for a transaction kept by a block), or past its TTL. -/
def isExpired (now : UInt64) (q : tx_memory_pool) (d : TransactionDetails) : Bool :=
  let txAge := now - d.receiveTime
  let remove :=
    decide ((if d.keptByBlock then c.mempoolTxFromAltBlockLiveTime else c.mempoolTxLiveTime) <
      txAge)
  let ttlExpired := match q.m_ttlIndex d.id with
    | some ttl => decide (ttl ≤ now)
    | none => false
  remove || ttlExpired

/-- One turn of the loop of `removeExpiredTransactions`: an expired transaction is recorded as
recently deleted and removed. -/
def expireTransaction (now : UInt64) (q : tx_memory_pool) (d : TransactionDetails) :
    tx_memory_pool :=
  if isExpired c now q d then
    { q with
      m_recentlyDeletedTransactions := StdMap.emplace q.m_recentlyDeletedTransactions d.id now
    }.removeTransaction d
  else q

/-- `tx_memory_pool::removeExpiredTransactions`: deletions older than
`numberOfPeriodsToForgetTxDeletedFromPool` live times are forgotten, then every pooled
transaction is visited once. -/
def removeExpiredTransactions (p : tx_memory_pool) (now : UInt64) : tx_memory_pool :=
  let forget := fun t => !decide
    (c.numberOfPeriodsToForgetTxDeletedFromPool * c.mempoolTxLiveTime < now - t)
  let p₁ := { p with
    m_recentlyDeletedTransactions := fun h => (p.m_recentlyDeletedTransactions h).filter forget }
  p.m_transactions.items.foldl (expireTransaction c now) p₁


/-! ## Every operation keeps the invariant -/

variable {c} {p q : tx_memory_pool} {env : PoolEnv} {tx : Transaction} {id : Hash}
  {blobSize : Nat} {tvc : tx_verification_context} {keptByBlock : Bool} {height : Nat}
  {now : UInt64} {d e : TransactionDetails}

/-- The insertion block leaves the pool as it is, or inserts the transaction under a free id
and indexes its inputs. -/
theorem insertTransaction_cases {ttl : UInt64} {shouldBeRelayed : Bool} :
    (p.insertTransaction d ttl tvc shouldBeRelayed).2.2 = p ∨
    ∃ items : KeyedList TransactionDetails TransactionDetails.id,
      p.m_transactions.insert d = some items ∧
      (p.insertTransaction d ttl tvc shouldBeRelayed).2.2 =
        ({ p with
          m_transactions := items
          m_ttlIndex := if ttl ≠ 0 then StdMap.emplace p.m_ttlIndex d.id ttl else p.m_ttlIndex
          }.addTransactionInputs d.id d.keptByBlock d.tx.inputs).2 := by
  unfold insertTransaction
  split
  · exact .inl rfl
  · next items hins =>
    refine .inr ⟨items, hins, ?_⟩
    dsimp only
    split_ifs <;> rfl

/-- **What `add_tx` can do to the pool.** Either the pool is unchanged, or the insertion block
runs; unless the transaction is kept by a block, it passed `haveSpentInputs` first. -/
theorem add_tx_cases :
    (p.add_tx c env tx id blobSize tvc keptByBlock height).2.2 = p ∨
    (keptByBlock = false → p.haveSpentInputs tx = false) ∧
    ∃ (fee : UInt64) (tvc' : tx_verification_context) (shouldBeRelayed : Bool),
      (p.add_tx c env tx id blobSize tvc keptByBlock height).2.2 =
        (p.insertTransaction ⟨id, tx, blobSize, fee, keptByBlock, env.now⟩ (env.ttl tx.extra)
          tvc' shouldBeRelayed).2.2 := by
  generalize hr : p.add_tx c env tx id blobSize tvc keptByBlock height = r
  unfold add_tx at hr
  dsimp only at hr
  split_ifs at hr with _ _ _ hspent
  -- the rejections and the recently-deleted shortcut leave the pool as it is
  all_goals try (subst hr; exact .inl rfl)
  -- what is left is the insertion block
  all_goals
    subst hr
    exact .inr ⟨fun hk => by simpa [hk] using hspent, _, _, _, rfl⟩

/-- The insertion block marks a transaction to be relayed only with the verdict it is given. -/
theorem should_be_relayed_insertTransaction {ttl : UInt64} {shouldBeRelayed : Bool}
    (h : (p.insertTransaction d ttl tvc shouldBeRelayed).2.1.m_should_be_relayed = true) :
    shouldBeRelayed = true ∨ tvc.m_should_be_relayed = true := by
  unfold insertTransaction at h
  split at h
  · exact .inr h
  · dsimp only at h
    split_ifs at h <;> exact .inl h

/-- **When `add_tx` marks a transaction to be relayed.** From an unmarked context, as every
caller's value-initialised one, only the insertion block marks it: its inputs passed the
blockchain's check, and it pays a fee, passes the fusion test or carries a TTL. -/
theorem should_be_relayed_add_tx (htvc : tvc.m_should_be_relayed = false)
    (h : (p.add_tx c env tx id blobSize tvc keptByBlock height).2.1.m_should_be_relayed = true) :
    env.checkTransactionInputs tx = true ∧
      (c.getTransactionAllInputsAmount tx.toTransactionPrefix height -
          get_outs_money_amount tx.toTransactionPrefix ≠ 0 ∨
        env.isFusionTransaction tx blobSize = true ∨ env.ttl tx.extra ≠ 0) := by
  unfold add_tx at h
  dsimp only at h
  split_ifs at h
  -- every rejection keeps the context's unmarked flag, and the shortcut clears it
  all_goals try (simp only [htvc] at h; cases h)
  -- the insertion block marks with its verdict, whether the inputs were checked or not
  all_goals
    rcases should_be_relayed_insertTransaction h with hrelay | hrelay
    · simp only [Bool.and_eq_true, Bool.or_eq_true, decide_eq_true_eq, beq_iff_eq, bne_iff_ne]
        at hrelay
      obtain ⟨hin, (hfee | ⟨-, hfusion⟩) | httl⟩ := hrelay
      · exact ⟨hin, .inl fun hzero => UInt64.lt_irrefl 0 (hzero ▸ hfee)⟩
      · exact ⟨hin, .inr (.inl hfusion)⟩
      · exact ⟨hin, .inr (.inr httl)⟩
    · simp [htvc] at hrelay

theorem Invariant.add_tx (h : p.Invariant)
    (hdiff : check_tx_inputs_keyimages_diff tx.toTransactionPrefix = true) :
    (p.add_tx c env tx id blobSize tvc keptByBlock height).2.2.Invariant := by
  rcases (add_tx_cases :
      (p.add_tx c env tx id blobSize tvc keptByBlock height).2.2 = p ∨ _) with
    heq | ⟨hfree, fee, tvc', relayed, heq⟩
  · rw [heq]
    exact h
  rw [heq]
  rcases (insertTransaction_cases : (p.insertTransaction ⟨id, tx, blobSize, fee, keptByBlock,
      env.now⟩ (env.ttl tx.extra) tvc' relayed).2.2 = p ∨ _) with
    heq | ⟨items, hins, heq⟩
  · rw [heq]
    exact h
  rw [heq]
  obtain ⟨hidfree, hitems⟩ := KeyedList.insert_eq_some hins
  have hmem : ∀ e, e ∈ items.items ↔
      e ∈ p.m_transactions.items ∨ e = ⟨id, tx, blobSize, fee, keptByBlock, env.now⟩ := by
    simp [hitems]
  have hnd : (keyImages tx.toTransactionPrefix).Nodup := by
    simpa [check_tx_inputs_keyimages_diff] using hdiff
  -- a transaction not kept by a block finds its key images unindexed
  have hunused : keptByBlock = false →
      ∀ k ∈ keyImages tx.toTransactionPrefix, ∀ i, ¬p.revealsKeyImage k i := fun hk k hkt i =>
    (h.spent_key_images.eq_none_iff k).mp ((haveSpentInputs_eq_false.mp (hfree hk)).1 k hkt) i
  obtain ⟨-, hki, hso⟩ := addTransactionInputs_spec
    (p := { p with m_transactions := items, m_ttlIndex := _ }) id keptByBlock tx.inputs
    h.spent_key_images hnd
    (fun k _ ⟨e, he, hid, _⟩ => hidfree e he hid) hunused
  refine ⟨fun e he => ?_, hki.congr fun k i => ?_, fun o => ?_, fun d₁ h₁ d₂ h₂ hk₁ hk₂ hid => ?_⟩
  · rcases (hmem e).mp (by simpa using he) with he | rfl
    · exact h.keyImages_nodup e he
    · exact hnd
  · simp only [revealsKeyImage, addTransactionInputs_transactions, hmem]
    constructor
    · rintro (⟨e, he, rfl, hk⟩ | ⟨hk, rfl⟩)
      · exact ⟨e, .inl he, rfl, hk⟩
      · exact ⟨_, .inr rfl, rfl, hk⟩
    · rintro ⟨e, he | rfl, rfl, hk⟩
      · exact .inl ⟨e, he, rfl, hk⟩
      · exact .inr ⟨hk, rfl⟩
  · rw [hso]
    simp only [spendsOutput, addTransactionInputs_transactions, hmem]
    cases keptByBlock
    · simp only [Bool.false_eq_true, if_false, Finset.mem_union, List.mem_toFinset,
        h.spentOutputs_iff, spendsOutput]
      constructor
      · rintro (⟨e, he, hek, ho⟩ | ho)
        · exact ⟨e, .inl he, hek, ho⟩
        · exact ⟨_, .inr rfl, rfl, ho⟩
      · rintro ⟨e, he | rfl, hek, ho⟩
        · exact .inl ⟨e, he, hek, ho⟩
        · exact .inr ho
    · simp only [if_true, h.spentOutputs_iff, spendsOutput]
      constructor
      · rintro ⟨e, he, hek, ho⟩
        exact ⟨e, .inl he, hek, ho⟩
      · rintro ⟨e, he | rfl, hek, ho⟩
        · exact ⟨e, he, hek, ho⟩
        · cases hek
  · -- a new transaction not kept by a block passed `haveSpentInputs`
    simp only [addTransactionInputs_transactions] at h₁ h₂
    rcases (hmem d₁).mp h₁ with h₁ | rfl <;> rcases (hmem d₂).mp h₂ with h₂ | rfl
    · exact h.nonKept_disjoint d₁ h₁ d₂ h₂ hk₁ hk₂ hid
    · obtain ⟨hk, ho⟩ := h.disjoint_of_haveSpentInputs (hfree hk₂) h₁
      exact ⟨fun k h₁k h₂k => hk k h₂k h₁k, fun o h₁o h₂o => ho hk₁ o h₂o h₁o⟩
    · obtain ⟨hk, ho⟩ := h.disjoint_of_haveSpentInputs (hfree hk₁) h₂
      exact ⟨hk, ho hk₂⟩
    · exact absurd rfl hid

theorem Invariant.take_tx (h : p.Invariant) : (p.take_tx id).2.Invariant := by
  unfold tx_memory_pool.take_tx
  split
  · exact h
  · next d hd => exact h.removeTransaction (KeyedList.find?_eq_some hd).1

/-- One turn of the loop of `removeExpiredTransactions` leaves the pool as it is or removes
the visited transaction, after recording it as deleted. -/
theorem expireTransaction_cases :
    expireTransaction c now q d = q ∨
    expireTransaction c now q d =
      { q with m_recentlyDeletedTransactions :=
          StdMap.emplace q.m_recentlyDeletedTransactions d.id now }.removeTransaction d := by
  unfold expireTransaction
  split
  · exact .inr rfl
  · exact .inl rfl

theorem mem_expireTransaction_items (he : e ∈ q.m_transactions.items) (hid : e.id ≠ d.id) :
    e ∈ (expireTransaction c now q d).m_transactions.items := by
  rcases (expireTransaction_cases : expireTransaction c now q d = q ∨ _) with heq | heq <;>
    rw [heq]
  · exact he
  · exact mem_removeTransaction_items.mpr ⟨he, hid⟩

theorem Invariant.expireTransaction (h : q.Invariant) (hd : d ∈ q.m_transactions.items) :
    (tx_memory_pool.expireTransaction c now q d).Invariant := by
  rcases (expireTransaction_cases : tx_memory_pool.expireTransaction c now q d = q ∨ _) with heq | heq <;>
    rw [heq]
  · exact h
  · -- the invariant does not read `m_recentlyDeletedTransactions`
    exact Invariant.removeTransaction ⟨h.1, h.2, h.3, h.4⟩ hd

/-- The loop of `removeExpiredTransactions` keeps the invariant: each transaction it visits is
still pooled, since the ones removed before it have other ids. -/
theorem Invariant.foldl_expireTransaction (l : List TransactionDetails)
    (hl : (l.map TransactionDetails.id).Nodup) (h : q.Invariant)
    (hmem : ∀ d ∈ l, d ∈ q.m_transactions.items) :
    (l.foldl (tx_memory_pool.expireTransaction c now) q).Invariant := by
  induction l generalizing q with
  | nil => exact h
  | cons d l ih =>
    simp only [List.map_cons, List.nodup_cons, List.mem_map, not_exists, not_and] at hl
    simp only [List.mem_cons, forall_eq_or_imp] at hmem
    exact ih hl.2 (h.expireTransaction hmem.1) fun e he =>
      mem_expireTransaction_items (hmem.2 e he) (fun hid => hl.1 e he hid)

theorem Invariant.removeExpiredTransactions (h : p.Invariant) :
    (p.removeExpiredTransactions c now).Invariant :=
  Invariant.foldl_expireTransaction p.m_transactions.items p.m_transactions.nodup
    ⟨h.1, h.2, h.3, h.4⟩ fun _ hd => hd

end Operations

end tx_memory_pool

/-! ## Runs of the pool -/

/-- An operation of a run of the pool. -/
inductive PoolOperation where
  | add_tx (env : PoolEnv) (tx : Transaction) (id : Hash) (blobSize : Nat) (keptByBlock : Bool)
      (height : Nat)
  | take_tx (id : Hash)
  | removeExpiredTransactions (now : UInt64)

namespace PoolOperation

/-- The pool after an operation; `add_tx` starts from a value-initialised context, as its
callers do. -/
def apply (c : Currency) (p : tx_memory_pool) : PoolOperation → tx_memory_pool
  | add_tx env tx id blobSize keptByBlock height =>
    (p.add_tx c env tx id blobSize {} keptByBlock height).2.2
  | take_tx id => (p.take_tx id).2
  | removeExpiredTransactions now => p.removeExpiredTransactions c now

/-- The transaction an operation adds passed `core::check_tx_semantic` at its height. -/
def semantic (c : Currency) (checkKey : PublicKey → Bool) : PoolOperation → Bool
  | add_tx _ tx _ _ _ height => check_tx_semantic c checkKey tx height
  | _ => true

end PoolOperation

/-- The pool after a run of operations. -/
def runPool (c : Currency) (p : tx_memory_pool) (ops : List PoolOperation) : tx_memory_pool :=
  ops.foldl (PoolOperation.apply c) p

section Run

variable {c : Currency} {checkKey : PublicKey → Bool} {p : tx_memory_pool}

theorem tx_memory_pool.Invariant.apply (h : p.Invariant) {op : PoolOperation}
    (hop : op.semantic c checkKey = true) : (op.apply c p).Invariant := by
  cases op with
  | add_tx env tx id blobSize keptByBlock height =>
    exact h.add_tx (check_tx_inputs_keyimages_diff_of_check_tx_semantic hop)
  | take_tx id => exact h.take_tx
  | removeExpiredTransactions now => exact h.removeExpiredTransactions

/-- **The invariant along a run**: every operation keeps it, provided the transactions added
passed `core::check_tx_semantic`. -/
theorem tx_memory_pool.Invariant.runPool (h : p.Invariant) {ops : List PoolOperation}
    (hops : ∀ op ∈ ops, op.semantic c checkKey = true) : (runPool c p ops).Invariant := by
  induction ops generalizing p with
  | nil => exact h
  | cons op ops ih =>
    exact ih (h.apply (hops op List.mem_cons_self)) fun op' hop' =>
      hops op' (List.mem_cons_of_mem op hop')

end Run

/-- After every run of `add_tx` (kept by a block or not), `take_tx` and
`removeExpiredTransactions` from a new pool, on transactions that pass `check_tx_semantic`,
`m_spent_key_images` binds each key image exactly to the ids of the pooled transactions that
reveal it and binds no key image to the empty set, `m_spentOutputs` holds exactly the outputs
spent by the pooled transactions not kept by a block, and two such transactions spend no
common key image or output. -/
theorem pool_spent_indexes_exact (c : Currency) (checkKey : PublicKey → Bool)
    (ops : List PoolOperation) (hsem : ∀ op ∈ ops, op.semantic c checkKey = true) :
    let p := runPool c tx_memory_pool.empty ops
    (∀ k id, id ∈ StdMap.members p.m_spent_key_images k ↔
      ∃ d ∈ p.m_transactions.items, d.id = id ∧ k ∈ keyImages d.tx.toTransactionPrefix) ∧
    (∀ k, p.m_spent_key_images k ≠ some ∅) ∧
    (∀ o, o ∈ p.m_spentOutputs ↔
      ∃ d ∈ p.m_transactions.items, d.keptByBlock = false ∧
        o ∈ globalOutputs d.tx.toTransactionPrefix) ∧
    (∀ d₁ ∈ p.m_transactions.items, ∀ d₂ ∈ p.m_transactions.items, d₁ ≠ d₂ →
      d₁.keptByBlock = false → d₂.keptByBlock = false →
      (∀ k ∈ keyImages d₁.tx.toTransactionPrefix, k ∉ keyImages d₂.tx.toTransactionPrefix) ∧
      (∀ o ∈ globalOutputs d₁.tx.toTransactionPrefix,
        o ∉ globalOutputs d₂.tx.toTransactionPrefix)) := by
  intro p
  have h : p.Invariant := tx_memory_pool.Invariant.empty.runPool hsem
  refine ⟨h.spent_key_images.mem_iff, h.spent_key_images.ne_empty, h.spentOutputs_iff,
    fun d₁ h₁ d₂ h₂ hne hk₁ hk₂ => h.nonKept_disjoint d₁ h₁ d₂ h₂ hk₁ hk₂ fun hid => ?_⟩
  -- distinct pooled transactions have distinct ids
  exact hne (p.m_transactions.eq_of_key_eq h₁ h₂ hid)

/-- A clock, a validator that accepts everything, and no TTL. -/
def samplePoolEnv : PoolEnv :=
  ⟨fun _ => true, fun _ => true, 100, fun _ => 0, fun _ _ => false⟩

/-- A transaction spending the key image `k` (worth `10`) into one output of `9`. -/
def sampleSpend (k : KeyImage) : Transaction :=
  ⟨⟨1, 0, [.key ⟨10, [0], k⟩], [⟨9, .key ⟨⟨5⟩⟩⟩], []⟩, []⟩

/-- Two transactions revealing one key image, the second added on behalf of a block, then the
first taken and the pool expired. -/
def samplePoolRun : List PoolOperation :=
  [.add_tx samplePoolEnv (sampleSpend ⟨1⟩) ⟨1⟩ 100 false 10,
   .add_tx samplePoolEnv { sampleSpend ⟨1⟩ with extra := [1] } ⟨2⟩ 100 true 10,
   .take_tx ⟨1⟩, .removeExpiredTransactions 200]

theorem pool_spent_indexes_exact_sample :
    (∀ op ∈ samplePoolRun, op.semantic Currency.mainnet (fun _ => true) = true) ∧
    let p := runPool Currency.mainnet tx_memory_pool.empty samplePoolRun
    (∀ k id, id ∈ StdMap.members p.m_spent_key_images k ↔
      ∃ d ∈ p.m_transactions.items, d.id = id ∧ k ∈ keyImages d.tx.toTransactionPrefix) ∧
    (∀ k, p.m_spent_key_images k ≠ some ∅) ∧
    (∀ o, o ∈ p.m_spentOutputs ↔
      ∃ d ∈ p.m_transactions.items, d.keptByBlock = false ∧
        o ∈ globalOutputs d.tx.toTransactionPrefix) ∧
    (∀ d₁ ∈ p.m_transactions.items, ∀ d₂ ∈ p.m_transactions.items, d₁ ≠ d₂ →
      d₁.keptByBlock = false → d₂.keptByBlock = false →
      (∀ k ∈ keyImages d₁.tx.toTransactionPrefix, k ∉ keyImages d₂.tx.toTransactionPrefix) ∧
      (∀ o ∈ globalOutputs d₁.tx.toTransactionPrefix,
        o ∉ globalOutputs d₂.tx.toTransactionPrefix)) :=
  ⟨by decide, pool_spent_indexes_exact Currency.mainnet (fun _ => true) samplePoolRun (by decide)⟩

end UltraNoteCore
