import UltraNoteCore.Core.Serialization

/-!
# The fields of a transaction's extra

`parseTransactionExtra` and `writeTransactionExtra` of `TransactionExtra.cpp`, with the writers
`addTransactionPublicKeyToExtra`, `addExtraNonceToTransactionExtra`,
`appendMergeMiningTagToExtra`, `append_message_to_extra` and `appendTTLToExtra`, and the
merge-mining tag's `serialize` of `CryptoNoteSerialization.cpp`.

Each field is a tag byte and a body of its own framing: a public key is its 32 bytes, a nonce
one byte of length and its bytes, a merge-mining tag and a message a binary string (the tag's
string holds its varint depth and root), a TTL the varint size of the varint TTL and the TTL.
A padding writes `size` zero bytes, the first of which is its tag; the reader takes zeros up to
the end of the stream, so a padding reads back only as the last field. An unknown tag is
skipped. Both sides report success as a flag and keep what they produced up to a failure: the
fields read so far, the bytes appended so far.

## Main definitions

* `TransactionExtraField` and its six kinds
* `parseTransactionExtra`, by well-founded recursion on the unread bytes
* `writeTransactionExtra`, through `ExtraSerializerVisitor`
* `extraTTL`: the TTL `tx_memory_pool::add_tx` reads

## Main results

* `parseTransactionExtra_writeTransactionExtra`: fields within the limits of both sides, with a
  padding only at the end, are written and read back exactly
* `parseTransactionExtra_oversized_message`: a message above the string limit of the reader is
  written but not read back
* `extraTTL_writeTransactionExtra`: the TTL the pool reads from written fields is their first
-/

namespace UltraNoteCore

open Codec common

/-- `TX_EXTRA_PADDING_MAX_COUNT`. -/
def TX_EXTRA_PADDING_MAX_COUNT : ℕ := 255
/-- `TX_EXTRA_NONCE_MAX_COUNT`. -/
def TX_EXTRA_NONCE_MAX_COUNT : ℕ := 255
/-- `TX_EXTRA_TAG_PADDING`. -/
def TX_EXTRA_TAG_PADDING : UInt8 := 0x00
/-- `TX_EXTRA_TAG_PUBKEY`. -/
def TX_EXTRA_TAG_PUBKEY : UInt8 := 0x01
/-- `TX_EXTRA_NONCE`. -/
def TX_EXTRA_NONCE : UInt8 := 0x02
/-- `TX_EXTRA_MERGE_MINING_TAG`. -/
def TX_EXTRA_MERGE_MINING_TAG : UInt8 := 0x03
/-- `TX_EXTRA_MESSAGE_TAG`. -/
def TX_EXTRA_MESSAGE_TAG : UInt8 := 0x04
/-- `TX_EXTRA_TTL`. -/
def TX_EXTRA_TTL : UInt8 := 0x05

/-- `TransactionExtraPadding`; its `size_t` is 64 bits wide. -/
structure TransactionExtraPadding where
  size : UInt64
deriving DecidableEq, Repr

/-- `TransactionExtraPublicKey`. -/
structure TransactionExtraPublicKey where
  publicKey : PublicKey
deriving DecidableEq, Repr

/-- `TransactionExtraNonce`. -/
structure TransactionExtraNonce where
  nonce : List UInt8
deriving DecidableEq, Repr

/-- `TransactionExtraMergeMiningTag`; its `size_t` depth is 64 bits wide. -/
structure TransactionExtraMergeMiningTag where
  depth : UInt64
  merkleRoot : Hash
deriving DecidableEq, Repr

/-- `tx_extra_message`: the bytes of its `std::string`. -/
structure tx_extra_message where
  data : List UInt8
deriving DecidableEq, Repr

/-- `TransactionExtraTTL`. -/
structure TransactionExtraTTL where
  ttl : UInt64
deriving DecidableEq, Repr

/-- `TransactionExtraField`, the variant of the six kinds. -/
inductive TransactionExtraField where
  | padding (field : TransactionExtraPadding)
  | publicKey (field : TransactionExtraPublicKey)
  | nonce (field : TransactionExtraNonce)
  | mergeMiningTag (field : TransactionExtraMergeMiningTag)
  | message (field : tx_extra_message)
  | ttl (field : TransactionExtraTTL)
deriving DecidableEq, Repr

/-! ## The merge-mining tag and the message in binary -/

namespace Input

/-- `doSerialize(TransactionExtraMergeMiningTag&)` reading: the depth as a 64-bit varint, then
the root. -/
def doSerializeMergeMiningTag : Reader TransactionExtraMergeMiningTag := do
  let depth ← readVarintUInt64
  let merkleRoot ← serializeHash
  pure ⟨depth, merkleRoot⟩

/-- `serialize(TransactionExtraMergeMiningTag&)` reading: a string, from whose own stream the
fields are read; what the string holds past them is ignored. -/
def serializeMergeMiningTag : Reader TransactionExtraMergeMiningTag := do
  let field ← serializeString
  match doSerializeMergeMiningTag.run field with
  | .ok (tag, _) => pure tag
  | .error e => throw e

end Input

namespace Output

/-- `doSerialize(TransactionExtraMergeMiningTag&)` writing. -/
def doSerializeMergeMiningTag (tag : TransactionExtraMergeMiningTag) : List UInt8 :=
  writeVarint tag.depth ++ serializeHash tag.merkleRoot

/-- `serialize(TransactionExtraMergeMiningTag&)` writing: the fields as one string. -/
def serializeMergeMiningTag (tag : TransactionExtraMergeMiningTag) : List UInt8 :=
  serializeString (doSerializeMergeMiningTag tag)

/-- `tx_extra_message::serialize` writing: `s(data, "data")`. -/
def serializeMessage (message : tx_extra_message) : List UInt8 := serializeString message.data

end Output

/-! ## Parsing -/

/-- The loop of the padding case: zero bytes are taken while the stream lasts and `size` is at
most `TX_EXTRA_PADDING_MAX_COUNT`; a non-zero byte fails. `size` counts the tag. -/
def readPadding (size : ℕ) : List UInt8 → Option (ℕ × List UInt8)
  | [] => some (size, [])
  | b :: rest =>
    if size ≤ TX_EXTRA_PADDING_MAX_COUNT then
      if b ≠ 0 then none else readPadding (size + 1) rest
    else some (size, b :: rest)

/-- The nonce case: one byte of size, then that many bytes. -/
def readExtraNonce : Reader (List UInt8) := do
  let size ← readUInt8
  if size.toNat > 0 then read size.toNat else pure []

/-- The TTL case: a size as an 8-bit varint, which is not used, then the TTL. -/
def readExtraTTL : Reader UInt64 := do
  let _ ← readVarintUInt8
  readVarintUInt64

/-- The cases of the `switch` of `parseTransactionExtra` but the padding: the field read after
the tag `c`, none for a tag it does not know. -/
def readExtraField (c : UInt8) : Reader (Option TransactionExtraField) :=
  if c = TX_EXTRA_TAG_PUBKEY then
    (fun publicKey => some (.publicKey ⟨publicKey⟩)) <$> Input.serializePublicKey
  else if c = TX_EXTRA_NONCE then (fun nonce => some (.nonce ⟨nonce⟩)) <$> readExtraNonce
  else if c = TX_EXTRA_MERGE_MINING_TAG then
    (fun mmTag => some (.mergeMiningTag mmTag)) <$> Input.serializeMergeMiningTag
  else if c = TX_EXTRA_MESSAGE_TAG then
    (fun data => some (.message ⟨data⟩)) <$> Input.serializeString
  else if c = TX_EXTRA_TTL then (fun ttl => some (.ttl ⟨ttl⟩)) <$> readExtraTTL
  else pure none

theorem readPadding_length_le {size : ℕ} {s rest : List UInt8} {n : ℕ}
    (h : readPadding size s = some (n, rest)) : rest.length ≤ s.length := by
  induction s generalizing size with
  | nil =>
    cases h
    exact Nat.le_refl _
  | cons b s ih =>
    unfold readPadding at h
    split at h
    · split at h
      · cases h
      · exact Nat.le_succ_of_le (ih h)
    · cases h
      exact Nat.le_refl _

theorem readExtraNonce_shrinks : Shrinks readExtraNonce := by
  refine readUInt8_exact.shrinks.bind fun size => ?_
  split
  · exact (read_exact _).shrinks
  · exact Shrinks.pure _

theorem Input.serializeMergeMiningTag_shrinks : Shrinks Input.serializeMergeMiningTag := by
  refine Input.serializeString_exact.shrinks.bind fun field => ?_
  split
  · exact Shrinks.pure _
  · exact Shrinks.throw _

theorem readExtraField_shrinks (c : UInt8) : Shrinks (readExtraField c) := by
  unfold readExtraField
  split
  · exact Input.serializePublicKey_exact.shrinks.map _
  split
  · exact readExtraNonce_shrinks.map _
  split
  · exact Input.serializeMergeMiningTag_shrinks.map _
  split
  · exact Input.serializeString_exact.shrinks.map _
  split
  · exact (readVarintUInt8_exact.shrinks.bind fun _ => readVarintUInt64_exact.shrinks).map _
  · exact Shrinks.pure _

/-- The `while (!iss.endOfStream())` loop of `parseTransactionExtra`, with the fields read so
far: a tag, then its case; `return false` and a thrown exception both end it with `false`. -/
def parseTransactionExtraLoop (transactionExtraFields : List TransactionExtraField) :
    List UInt8 → Bool × List TransactionExtraField
  | [] => (true, transactionExtraFields)
  | c :: rest =>
    if c = TX_EXTRA_TAG_PADDING then
      match h : readPadding 1 rest with
      | none => (false, transactionExtraFields)
      | some (size, rest') =>
        if size > TX_EXTRA_PADDING_MAX_COUNT then (false, transactionExtraFields)
        else
          parseTransactionExtraLoop
            (transactionExtraFields ++ [.padding ⟨UInt64.ofNat size⟩]) rest'
    else
      match h : (readExtraField c).run rest with
      | .error _ => (false, transactionExtraFields)
      | .ok (field, rest') =>
        parseTransactionExtraLoop (transactionExtraFields ++ field.toList) rest'
termination_by s => s.length
decreasing_by
  · exact Nat.lt_succ_of_le (readPadding_length_le h)
  · exact Nat.lt_succ_of_le (readExtraField_shrinks c rest field rest' h)

/-- `parseTransactionExtra`: whether the bytes parse, and the fields read up to the first
failure. -/
def parseTransactionExtra (transactionExtra : List UInt8) : Bool × List TransactionExtraField :=
  if transactionExtra.isEmpty then (true, [])
  else parseTransactionExtraLoop [] transactionExtra

/-! ## Writing -/

/-- `addTransactionPublicKeyToExtra`: the tag and the key's bytes. -/
def addTransactionPublicKeyToExtra (tx_extra : List UInt8) (tx_pub_key : PublicKey) :
    Bool × List UInt8 :=
  (true, tx_extra ++ TX_EXTRA_TAG_PUBKEY :: tx_pub_key.toBytes)

/-- `addExtraNonceToTransactionExtra`: refused above `TX_EXTRA_NONCE_MAX_COUNT`, otherwise
the tag, the length as one byte and the nonce. -/
def addExtraNonceToTransactionExtra (tx_extra extra_nonce : List UInt8) : Bool × List UInt8 :=
  if extra_nonce.length > TX_EXTRA_NONCE_MAX_COUNT then (false, tx_extra)
  else (true, tx_extra ++ TX_EXTRA_NONCE :: UInt8.ofNat extra_nonce.length :: extra_nonce)

/-- `appendMergeMiningTagToExtra`: the tag and the binary form of the merge-mining tag. -/
def appendMergeMiningTagToExtra (tx_extra : List UInt8) (mm_tag : TransactionExtraMergeMiningTag) :
    Bool × List UInt8 :=
  match toBinaryArray (fun tag => .ok (Output.serializeMergeMiningTag tag)) mm_tag with
  | none => (false, tx_extra)
  | some blob => (true, tx_extra ++ TX_EXTRA_MERGE_MINING_TAG :: blob)

/-- `append_message_to_extra`: the tag and the binary form of the message. -/
def append_message_to_extra (tx_extra : List UInt8) (message : tx_extra_message) :
    Bool × List UInt8 :=
  match toBinaryArray (fun m => .ok (Output.serializeMessage m)) message with
  | none => (false, tx_extra)
  | some blob => (true, tx_extra ++ TX_EXTRA_MESSAGE_TAG :: blob)

/-- `appendTTLToExtra`: the tag, the size of the TTL's varint as a varint, and the varint. -/
def appendTTLToExtra (tx_extra : List UInt8) (ttl : UInt64) : List UInt8 :=
  let ttlData := get_varint_data ttl
  let extraFieldSize := get_varint_data (UInt64.ofNat ttlData.length)
  tx_extra ++ TX_EXTRA_TTL :: (extraFieldSize ++ ttlData)

/-- `ExtraSerializerVisitor`: one field appended to `extra`; a padding is refused above
`TX_EXTRA_PADDING_MAX_COUNT`, otherwise it is `size` zero bytes. -/
def ExtraSerializerVisitor (extra : List UInt8) : TransactionExtraField → Bool × List UInt8
  | .padding t =>
    if t.size.toNat > TX_EXTRA_PADDING_MAX_COUNT then (false, extra)
    else (true, extra ++ List.replicate t.size.toNat 0)
  | .publicKey t => addTransactionPublicKeyToExtra extra t.publicKey
  | .nonce t => addExtraNonceToTransactionExtra extra t.nonce
  | .mergeMiningTag t => appendMergeMiningTagToExtra extra t
  | .message t => append_message_to_extra extra t
  | .ttl t => (true, appendTTLToExtra extra t.ttl)

/-- `writeTransactionExtra`: the fields appended in turn, stopping at the first refused. -/
def writeTransactionExtra (tx_extra : List UInt8) :
    List TransactionExtraField → Bool × List UInt8
  | [] => (true, tx_extra)
  | tag :: tx_extra_fields =>
    match ExtraSerializerVisitor tx_extra tag with
    | (true, extra) => writeTransactionExtra extra tx_extra_fields
    | (false, extra) => (false, extra)

/-! ## The fields the writer accepts -/

/-- A field both sides handle: a padding of `1..TX_EXTRA_PADDING_MAX_COUNT` bytes (a padding of
none writes nothing), a nonce of at most `TX_EXTRA_NONCE_MAX_COUNT` bytes, a message within the
string limit of the reader. -/
def TransactionExtraField.WithinLimits : TransactionExtraField → Prop
  | .padding t => 1 ≤ t.size.toNat ∧ t.size.toNat ≤ TX_EXTRA_PADDING_MAX_COUNT
  | .nonce t => t.nonce.length ≤ TX_EXTRA_NONCE_MAX_COUNT
  | .message t => t.data.length ≤ 100 * 1024 * 1024
  | _ => True

instance : DecidablePred TransactionExtraField.WithinLimits := fun f =>
  match f with
  | .padding t => inferInstanceAs
    (Decidable (1 ≤ t.size.toNat ∧ t.size.toNat ≤ TX_EXTRA_PADDING_MAX_COUNT))
  | .publicKey _ => isTrue trivial
  | .nonce t => inferInstanceAs (Decidable (t.nonce.length ≤ TX_EXTRA_NONCE_MAX_COUNT))
  | .mergeMiningTag _ => isTrue trivial
  | .message t => inferInstanceAs (Decidable (t.data.length ≤ 100 * 1024 * 1024))
  | .ttl _ => isTrue trivial

/-- The padding kind, which the reader takes to the end of the stream. -/
def TransactionExtraField.IsPadding : TransactionExtraField → Prop
  | .padding _ => True
  | _ => False

instance : DecidablePred TransactionExtraField.IsPadding := fun f =>
  match f with
  | .padding _ => isTrue trivial
  | .publicKey _ | .nonce _ | .mergeMiningTag _ | .message _ | .ttl _ => isFalse id

/-- The visitor appends to what is there: what it writes does not depend on it. -/
theorem ExtraSerializerVisitor_append (extra : List UInt8) (f : TransactionExtraField) :
    ExtraSerializerVisitor extra f =
      ((ExtraSerializerVisitor [] f).1, extra ++ (ExtraSerializerVisitor [] f).2) := by
  cases f with
  | padding t =>
    simp only [ExtraSerializerVisitor]
    split <;> simp
  | publicKey t => simp [ExtraSerializerVisitor, addTransactionPublicKeyToExtra]
  | nonce t =>
    simp only [ExtraSerializerVisitor, addExtraNonceToTransactionExtra]
    split <;> simp
  | mergeMiningTag t => simp [ExtraSerializerVisitor, appendMergeMiningTagToExtra, toBinaryArray]
  | message t => simp [ExtraSerializerVisitor, append_message_to_extra, toBinaryArray]
  | ttl t => simp [ExtraSerializerVisitor, appendTTLToExtra]

/-- A field within the limits is accepted by the visitor. -/
theorem ExtraSerializerVisitor_fst {f : TransactionExtraField} (hf : f.WithinLimits) :
    (ExtraSerializerVisitor [] f).1 = true := by
  cases f with
  | padding t =>
    simp only [ExtraSerializerVisitor, TransactionExtraField.WithinLimits] at hf ⊢
    rw [if_neg (by omega)]
  | nonce t =>
    simp only [ExtraSerializerVisitor, addExtraNonceToTransactionExtra,
      TransactionExtraField.WithinLimits] at hf ⊢
    rw [if_neg (by omega)]
  | _ => simp [ExtraSerializerVisitor, addTransactionPublicKeyToExtra,
      appendMergeMiningTagToExtra, append_message_to_extra, toBinaryArray]

/-- Fields within the limits are written one after the other. -/
theorem writeTransactionExtra_eq (tx_extra : List UInt8) (F : List TransactionExtraField)
    (hlimits : ∀ f ∈ F, f.WithinLimits) :
    writeTransactionExtra tx_extra F =
      (true, tx_extra ++ F.flatMap fun f => (ExtraSerializerVisitor [] f).2) := by
  induction F generalizing tx_extra with
  | nil => simp [writeTransactionExtra]
  | cons f F ih =>
    have hf := ExtraSerializerVisitor_fst (hlimits f List.mem_cons_self)
    rw [writeTransactionExtra, ExtraSerializerVisitor_append, hf]
    dsimp only
    rw [ih _ fun g hg => hlimits g (List.mem_cons_of_mem f hg), List.flatMap_cons,
      List.append_assoc]

/-! ## Reading back one field -/

theorem Input.doSerializeMergeMiningTag_exact :
    Exact (fun _ => True) Output.doSerializeMergeMiningTag Input.doSerializeMergeMiningTag := by
  intro input tag rest
  simp only [Input.doSerializeMergeMiningTag, readVarintUInt64_exact.run_bind_eq_ok,
    Input.serializeHash_exact.run_bind_eq_ok, run_pure_eq_ok]
  constructor
  · rintro ⟨depth, s1, -, rfl, merkleRoot, s2, -, rfl, rfl, rfl⟩
    exact ⟨trivial, by simp [Output.doSerializeMergeMiningTag]⟩
  · rintro ⟨-, rfl⟩
    exact ⟨_, _, trivial, by simp [Output.doSerializeMergeMiningTag], _, _, trivial, rfl, rfl,
      rfl⟩

/-- The merge-mining tag reads back from its string, whose own stream it reads to the end. -/
theorem Input.serializeMergeMiningTag_run (tag : TransactionExtraMergeMiningTag)
    (rest : List UInt8) :
    Input.serializeMergeMiningTag.run (Output.serializeMergeMiningTag tag ++ rest) =
      .ok (tag, rest) := by
  -- the string holds a varint of at most ten bytes and the 32 bytes of the root
  have hlen : (Output.doSerializeMergeMiningTag tag).length ≤ 100 * 1024 * 1024 := by
    have hvarint : (writeVarint tag.depth).length ≤ 9 + 1 := by
      rw [writeVarint_eq_encode]
      exact LEB128.length_encode_le (lt_of_lt_of_le tag.depth.toNat_lt (by decide))
    simp only [Output.doSerializeMergeMiningTag, List.length_append, Output.serializeHash,
      Hash.length_toBytes]
    omega
  have hinner : Input.doSerializeMergeMiningTag.run (Output.doSerializeMergeMiningTag tag) =
      .ok (tag, []) := by
    simpa using Input.doSerializeMergeMiningTag_exact.run_eq_ok trivial []
  rw [Input.serializeMergeMiningTag, Output.serializeMergeMiningTag,
    run_bind_of_eq_ok (Input.serializeString_exact.run_eq_ok hlen rest), hinner]
  rfl

/-- A nonce within `TX_EXTRA_NONCE_MAX_COUNT` reads back after its length byte. -/
theorem readExtraNonce_run {nonce : List UInt8} (h : nonce.length ≤ TX_EXTRA_NONCE_MAX_COUNT)
    (rest : List UInt8) :
    readExtraNonce.run (UInt8.ofNat nonce.length :: nonce ++ rest) = .ok (nonce, rest) := by
  have hsize : (UInt8.ofNat nonce.length).toNat = nonce.length := by
    rw [UInt8.toNat_ofNat']
    exact Nat.mod_eq_of_lt (by unfold TX_EXTRA_NONCE_MAX_COUNT at h; omega)
  rw [readExtraNonce, show UInt8.ofNat nonce.length :: nonce ++ rest =
    [UInt8.ofNat nonce.length] ++ (nonce ++ rest) from rfl,
    run_bind_of_eq_ok (readUInt8_exact.run_eq_ok trivial _), hsize]
  exact (Input.read_or_empty_exact nonce.length).run_eq_ok rfl rest

/-- The size prefix of a TTL fits the 8-bit varint it is read as. -/
theorem get_varint_data_length_eq (ttl : UInt64) :
    get_varint_data (UInt64.ofNat (get_varint_data ttl).length) =
      writeVarint (UInt8.ofNat (get_varint_data ttl).length).toUInt64 := by
  have hlen : (get_varint_data ttl).length ≤ 9 + 1 := by
    rw [get_varint_data, write_varint_eq_encode]
    exact LEB128.length_encode_le (lt_of_lt_of_le ttl.toNat_lt (by decide))
  congr 1
  apply UInt64.toNat_inj.mp
  rw [UInt64.toNat_ofNat', UInt8.toNat_toUInt64, UInt8.toNat_ofNat', Nat.mod_eq_of_lt (by omega),
    Nat.mod_eq_of_lt (by omega)]

theorem readExtraTTL_run (ttl : UInt64) (rest : List UInt8) :
    readExtraTTL.run (get_varint_data (UInt64.ofNat (get_varint_data ttl).length) ++
      get_varint_data ttl ++ rest) = .ok (ttl, rest) := by
  rw [readExtraTTL, get_varint_data_length_eq, List.append_assoc,
    run_bind_of_eq_ok (readVarintUInt8_exact.run_eq_ok trivial _)]
  exact readVarintUInt64_exact.run_eq_ok trivial rest

/-- A field other than a padding is its tag and a body that `readExtraField` reads back under
that tag, whatever follows it. -/
theorem readExtraField_visitor {f : TransactionExtraField} (hf : f.WithinLimits)
    (hnp : ¬f.IsPadding) :
    ∃ c body, (ExtraSerializerVisitor [] f).2 = c :: body ∧ c ≠ TX_EXTRA_TAG_PADDING ∧
      ∀ rest, (readExtraField c).run (body ++ rest) = .ok (some f, rest) := by
  cases f with
  | padding t => exact absurd trivial hnp
  | publicKey t =>
    refine ⟨TX_EXTRA_TAG_PUBKEY, t.publicKey.toBytes, rfl, by decide, fun rest => ?_⟩
    rw [readExtraField, if_pos rfl]
    exact run_map_eq_ok.mpr ⟨_, _, Input.serializePublicKey_exact.run_eq_ok trivial rest, rfl⟩
  | nonce t =>
    have hle : ¬t.nonce.length > TX_EXTRA_NONCE_MAX_COUNT := Nat.not_lt.mpr hf
    refine ⟨TX_EXTRA_NONCE, UInt8.ofNat t.nonce.length :: t.nonce, ?_, by decide,
      fun rest => ?_⟩
    · simp only [ExtraSerializerVisitor, addExtraNonceToTransactionExtra, if_neg hle]
      rfl
    · rw [readExtraField, if_neg (by decide), if_pos rfl]
      exact run_map_eq_ok.mpr ⟨_, _, readExtraNonce_run hf rest, rfl⟩
  | mergeMiningTag t =>
    refine ⟨TX_EXTRA_MERGE_MINING_TAG, Output.serializeMergeMiningTag t, rfl, by decide,
      fun rest => ?_⟩
    rw [readExtraField, if_neg (by decide), if_neg (by decide), if_pos rfl]
    exact run_map_eq_ok.mpr ⟨_, _, Input.serializeMergeMiningTag_run t rest, rfl⟩
  | message t =>
    refine ⟨TX_EXTRA_MESSAGE_TAG, Output.serializeMessage t, rfl, by decide, fun rest => ?_⟩
    rw [readExtraField, if_neg (by decide), if_neg (by decide), if_neg (by decide), if_pos rfl]
    exact run_map_eq_ok.mpr ⟨_, _, Input.serializeString_exact.run_eq_ok hf rest, rfl⟩
  | ttl t =>
    refine ⟨TX_EXTRA_TTL, get_varint_data (UInt64.ofNat (get_varint_data t.ttl).length) ++
      get_varint_data t.ttl, rfl, by decide, fun rest => ?_⟩
    rw [readExtraField, if_neg (by decide), if_neg (by decide), if_neg (by decide),
      if_neg (by decide), if_pos rfl]
    exact run_map_eq_ok.mpr ⟨_, _, readExtraTTL_run t.ttl rest, rfl⟩

/-- Zero bytes up to the bound are all taken by the padding loop. -/
theorem readPadding_replicate (size k : ℕ) (h : size + k ≤ TX_EXTRA_PADDING_MAX_COUNT + 1) :
    readPadding size (List.replicate k 0) = some (size + k, []) := by
  induction k generalizing size with
  | zero => rfl
  | succ k ih =>
    rw [List.replicate_succ, readPadding, if_pos (by omega), if_neg (by decide),
      ih (size + 1) (by omega), Nat.add_right_comm, Nat.add_assoc]

/-! ## The parsing loop over written fields -/

/-- One step of the loop over a field other than a padding. -/
theorem parseTransactionExtraLoop_field (fields : List TransactionExtraField)
    {f : TransactionExtraField} (hf : f.WithinLimits) (hnp : ¬f.IsPadding) (rest : List UInt8) :
    parseTransactionExtraLoop fields ((ExtraSerializerVisitor [] f).2 ++ rest) =
      parseTransactionExtraLoop (fields ++ [f]) rest := by
  obtain ⟨c, body, hbytes, hc, hread⟩ := readExtraField_visitor hf hnp
  rw [hbytes, List.cons_append]
  conv_lhs => rw [parseTransactionExtraLoop]
  rw [if_neg hc]
  split
  · rename_i h
    rw [hread] at h
    cases h
  · rename_i field rest' h
    rw [hread] at h
    cases h
    rfl

/-- A padding within the limits, written last, is read to the end of the stream. -/
theorem parseTransactionExtraLoop_padding (fields : List TransactionExtraField)
    {t : TransactionExtraPadding} (ht : (TransactionExtraField.padding t).WithinLimits) :
    parseTransactionExtraLoop fields (ExtraSerializerVisitor [] (.padding t)).2 =
      (true, fields ++ [.padding t]) := by
  obtain ⟨hpos, hmax⟩ := ht
  have hzeros : (ExtraSerializerVisitor [] (.padding t)).2 =
      0 :: List.replicate (t.size.toNat - 1) 0 := by
    simp only [ExtraSerializerVisitor, if_neg (Nat.not_lt.mpr hmax), List.nil_append]
    rw [← List.replicate_succ, Nat.sub_add_cancel hpos]
  rw [hzeros]
  conv_lhs => rw [parseTransactionExtraLoop]
  have htag : (0 : UInt8) = TX_EXTRA_TAG_PADDING := rfl
  rw [if_pos htag]
  -- the tag and the zeros after it make up the padding's size
  split
  · rename_i h
    rw [readPadding_replicate 1 _ (by omega)] at h
    cases h
  · rename_i size rest' h
    rw [readPadding_replicate 1 _ (by omega), Nat.add_sub_cancel' hpos] at h
    cases h
    rw [if_neg (Nat.not_lt.mpr hmax), UInt64.ofNat_toNat, parseTransactionExtraLoop]

/-- The loop reads back written fields, the last of which only may be a padding. -/
theorem parseTransactionExtraLoop_flatMap (fields : List TransactionExtraField)
    (F : List TransactionExtraField) (hlimits : ∀ f ∈ F, f.WithinLimits)
    (hpadding : ∀ f ∈ F.dropLast, ¬f.IsPadding) :
    parseTransactionExtraLoop fields (F.flatMap fun f => (ExtraSerializerVisitor [] f).2) =
      (true, fields ++ F) := by
  induction F generalizing fields with
  | nil => simp [parseTransactionExtraLoop]
  | cons f F ih =>
    have hf := hlimits f List.mem_cons_self
    by_cases hpad : f.IsPadding
    · -- a padding is last
      cases F with
      | cons g G => exact absurd hpad (hpadding f (by simp))
      | nil =>
        cases f with
        | padding t =>
          rw [List.flatMap_cons, List.flatMap_nil, List.append_nil]
          exact parseTransactionExtraLoop_padding fields hf
        | _ => exact absurd hpad id
    · rw [List.flatMap_cons, parseTransactionExtraLoop_field fields hf hpad,
        ih (fields ++ [f]) (fun g hg => hlimits g (List.mem_cons_of_mem f hg)), List.append_assoc,
        List.singleton_append]
      -- the fields before the last of the tail are before the last of the whole list
      intro g hg
      cases F with
      | nil => cases hg
      | cons h H => exact hpadding g (by rw [List.dropLast_cons_of_ne_nil (by simp)]; exact List.mem_cons_of_mem f hg)

/-- `parseTransactionExtra` is its loop from no fields: an empty extra parses to none. -/
theorem parseTransactionExtra_eq_loop (transactionExtra : List UInt8) :
    parseTransactionExtra transactionExtra = parseTransactionExtraLoop [] transactionExtra := by
  cases transactionExtra with
  | nil => simp [parseTransactionExtra, parseTransactionExtraLoop]
  | cons c rest => rfl

theorem parseTransactionExtra_writeTransactionExtra (F : List TransactionExtraField)
    (hlimits : ∀ f ∈ F, f.WithinLimits) (hpadding : ∀ f ∈ F.dropLast, ¬f.IsPadding) :
    (writeTransactionExtra [] F).1 = true ∧
      parseTransactionExtra (writeTransactionExtra [] F).2 = (true, F) := by
  rw [writeTransactionExtra_eq [] F hlimits, parseTransactionExtra_eq_loop, List.nil_append,
    parseTransactionExtraLoop_flatMap [] F hlimits hpadding, List.nil_append]
  exact ⟨rfl, rfl⟩

theorem parseTransactionExtra_writeTransactionExtra_sample :
    (∀ f ∈ [.publicKey ⟨⟨5⟩⟩, .nonce ⟨[1, 2]⟩, .mergeMiningTag ⟨300, ⟨7⟩⟩, .message ⟨[104, 105]⟩,
        .ttl ⟨1000⟩, .padding ⟨3⟩], TransactionExtraField.WithinLimits f) ∧
      (∀ f ∈ ([.publicKey ⟨⟨5⟩⟩, .nonce ⟨[1, 2]⟩, .mergeMiningTag ⟨300, ⟨7⟩⟩,
        .message ⟨[104, 105]⟩, .ttl ⟨1000⟩, .padding ⟨3⟩] : List TransactionExtraField).dropLast,
        ¬f.IsPadding) ∧
      (writeTransactionExtra [] [.publicKey ⟨⟨5⟩⟩, .nonce ⟨[1, 2]⟩, .mergeMiningTag ⟨300, ⟨7⟩⟩,
        .message ⟨[104, 105]⟩, .ttl ⟨1000⟩, .padding ⟨3⟩]).1 = true ∧
      parseTransactionExtra (writeTransactionExtra [] [.publicKey ⟨⟨5⟩⟩, .nonce ⟨[1, 2]⟩,
        .mergeMiningTag ⟨300, ⟨7⟩⟩, .message ⟨[104, 105]⟩, .ttl ⟨1000⟩, .padding ⟨3⟩]).2 =
        (true, [.publicKey ⟨⟨5⟩⟩, .nonce ⟨[1, 2]⟩, .mergeMiningTag ⟨300, ⟨7⟩⟩,
          .message ⟨[104, 105]⟩, .ttl ⟨1000⟩, .padding ⟨3⟩]) :=
  ⟨by decide, by decide, parseTransactionExtra_writeTransactionExtra _ (by decide) (by decide)⟩

/-- A message longer than the reader's string limit: the writer appends it, the reader refuses
its size and the parse fails with no field. -/
theorem parseTransactionExtra_message_too_long {data : List UInt8}
    (hlong : 100 * 1024 * 1024 < data.length) (hfit : data.length < 2 ^ 64) :
    (writeTransactionExtra [] [.message ⟨data⟩]).1 = true ∧
      parseTransactionExtra (writeTransactionExtra [] [.message ⟨data⟩]).2 = (false, []) := by
  have hwritten : writeTransactionExtra [] [.message ⟨data⟩] =
      (true, TX_EXTRA_MESSAGE_TAG :: (Output.serializeString data ++ [])) := by
    simp only [writeTransactionExtra, ExtraSerializerVisitor, append_message_to_extra,
      toBinaryArray, Output.serializeMessage, List.nil_append, List.append_nil]
  -- the reader takes the string's size, refuses it, and the exception ends the parse
  have hrefused : (readExtraField TX_EXTRA_MESSAGE_TAG).run (Output.serializeString data ++ []) =
      .error "string size is too big" := by
    rw [readExtraField, if_neg (by decide), if_neg (by decide), if_neg (by decide), if_pos rfl,
      map_eq_pure_bind]
    exact run_bind_of_eq_error (Input.serializeString_oversized hlong hfit [])
  refine ⟨by rw [hwritten], ?_⟩
  rw [hwritten, parseTransactionExtra_eq_loop, parseTransactionExtraLoop, if_neg (by decide)]
  split
  · rfl
  · rename_i h
    rw [hrefused] at h
    cases h

/-- A message of one byte more than the reader's string limit. -/
theorem parseTransactionExtra_oversized_message :
    (writeTransactionExtra []
        [.message ⟨List.replicate (100 * 1024 * 1024 + 1) 0⟩]).1 = true ∧
      parseTransactionExtra (writeTransactionExtra []
        [.message ⟨List.replicate (100 * 1024 * 1024 + 1) 0⟩]).2 = (false, []) :=
  @parseTransactionExtra_message_too_long (List.replicate (100 * 1024 * 1024 + 1) 0)
    (by rw [List.length_replicate]; decide) (by rw [List.length_replicate]; decide)

/-! ## The TTL the pool reads -/

/-- The TTL a field carries, if it is a `TransactionExtraTTL`. -/
def TransactionExtraField.ttl? : TransactionExtraField → Option UInt64
  | .ttl field => some field.ttl
  | _ => none

/-- The TTL `tx_memory_pool::add_tx` reads from an extra: `findTransactionExtraFieldByType` on
the fields `parseTransactionExtra` returns, which keeps those read before a failure, and `0`
without a TTL field. -/
def extraTTL (extra : List UInt8) : UInt64 :=
  ((parseTransactionExtra extra).2.findSome? TransactionExtraField.ttl?).getD 0

/-- Fields written within the limits of both sides read back with their first TTL. -/
theorem extraTTL_writeTransactionExtra (F : List TransactionExtraField)
    (hlimits : ∀ f ∈ F, f.WithinLimits) (hpadding : ∀ f ∈ F.dropLast, ¬f.IsPadding) :
    extraTTL (writeTransactionExtra [] F).2 = (F.findSome? TransactionExtraField.ttl?).getD 0 := by
  rw [extraTTL, writeTransactionExtra_eq [] F hlimits, parseTransactionExtra_eq_loop,
    List.nil_append, parseTransactionExtraLoop_flatMap [] F hlimits hpadding, List.nil_append]

end UltraNoteCore
