import Mathlib

/-!
# The CryptoNote data model

The transaction and block records of `include/CryptoNote.h`, with the source's field names and
fixed-width field types. The digests and keys of `crypto/CryptoTypes.h` are 32-byte values (a
signature is 64 bytes); nothing in the node looks inside them except the cryptographic
primitives, which the blockchain model takes as parameters, so each is a structure over a
bit vector of its width.

## Main definitions

* `TransactionInput`, `TransactionOutputTarget`: the two `boost::variant`s of the format
* `Transaction`, `Block`: a transaction prefix with its signatures, a header with its coinbase
  and the hashes of its other transactions
* `AccountPublicAddress`: the spend and view keys of an address
* `TRANSACTION_VERSION_1`, `BLOCK_MAJOR_VERSION_1`, …: the version constants of
  `CryptoNoteConfig.h`
-/

namespace UltraNoteCore

/-- `crypto::Hash`: a 32-byte digest. -/
structure Hash where
  data : BitVec 256
deriving DecidableEq, Repr, Inhabited

/-- `crypto::KeyImage`: the 32-byte image of a one-time key, revealed when it is spent. -/
structure KeyImage where
  data : BitVec 256
deriving DecidableEq, Repr, Inhabited

/-- `crypto::PublicKey`: a 32-byte curve point. -/
structure PublicKey where
  data : BitVec 256
deriving DecidableEq, Repr, Inhabited

/-- `crypto::Signature`: a 64-byte signature. -/
structure Signature where
  data : BitVec 512
deriving DecidableEq, Repr, Inhabited

/-- `NULL_HASH`, the value-initialised digest. -/
def NULL_HASH : Hash := ⟨0⟩

/-! ## Inputs and outputs -/

/-- `BaseInput`: the single input of a coinbase, naming the height it is minted at. -/
structure BaseInput where
  blockIndex : UInt32
deriving DecidableEq, Repr

/-- `KeyInput`: a ring-signed spend of one key output of `amount`; the ring is given by
relative global indexes, and `keyImage` marks the real output as spent. -/
structure KeyInput where
  amount : UInt64
  outputIndexes : List UInt32
  keyImage : KeyImage
deriving DecidableEq, Repr

/-- `MultisignatureInput`: a spend of the multisignature output number `outputIndex` of
`amount`; a non-zero `term` withdraws a deposit. -/
structure MultisignatureInput where
  amount : UInt64
  signatureCount : UInt8
  outputIndex : UInt32
  term : UInt32
deriving DecidableEq, Repr

/-- `KeyOutput`: an output spendable by the holder of one one-time key. -/
structure KeyOutput where
  key : PublicKey
deriving DecidableEq, Repr

/-- `MultisignatureOutput`: an output spendable by `requiredSignatureCount` of `keys`; a
non-zero `term` makes it a deposit locked for that many blocks. -/
structure MultisignatureOutput where
  keys : List PublicKey
  requiredSignatureCount : UInt8
  term : UInt32
deriving DecidableEq, Repr

/-- `TransactionInput = boost::variant<BaseInput, KeyInput, MultisignatureInput>`. -/
inductive TransactionInput where
  | base (input : BaseInput)
  | key (input : KeyInput)
  | multisignature (input : MultisignatureInput)
deriving DecidableEq, Repr

/-- `TransactionOutputTarget = boost::variant<KeyOutput, MultisignatureOutput>`. -/
inductive TransactionOutputTarget where
  | key (output : KeyOutput)
  | multisignature (output : MultisignatureOutput)
deriving DecidableEq, Repr

/-- `TransactionOutput`. -/
structure TransactionOutput where
  amount : UInt64
  target : TransactionOutputTarget
deriving DecidableEq, Repr

/-! ## Transactions and blocks -/

/-- `TransactionPrefix`: everything of a transaction that its signatures sign. -/
structure TransactionPrefix where
  version : UInt8
  unlockTime : UInt64
  inputs : List TransactionInput
  outputs : List TransactionOutput
  extra : List UInt8
deriving DecidableEq, Repr

/-- `Transaction`: a prefix with one list of signatures per input. -/
structure Transaction extends TransactionPrefix where
  signatures : List (List Signature)
deriving DecidableEq, Repr

/-- `BlockHeader`. -/
structure BlockHeader where
  majorVersion : UInt8
  minorVersion : UInt8
  nonce : UInt32
  timestamp : UInt64
  previousBlockHash : Hash
deriving DecidableEq, Repr

/-- `Block`: a header, the coinbase (`baseTransaction`) and the hashes of the other
transactions, which travel separately. -/
structure Block extends BlockHeader where
  baseTransaction : Transaction
  transactionHashes : List Hash
deriving DecidableEq, Repr

/-- `AccountPublicAddress`: the two public keys an address names. -/
structure AccountPublicAddress where
  spendPublicKey : PublicKey
  viewPublicKey : PublicKey
deriving DecidableEq, Repr

/-! ## Version constants of `CryptoNoteConfig.h` -/

/-- `TRANSACTION_VERSION_1`. -/
def TRANSACTION_VERSION_1 : UInt8 := 1
/-- `TRANSACTION_VERSION_2`. -/
def TRANSACTION_VERSION_2 : UInt8 := 2
/-- `BLOCK_MAJOR_VERSION_1`. -/
def BLOCK_MAJOR_VERSION_1 : UInt8 := 1
/-- `BLOCK_MAJOR_VERSION_2`. -/
def BLOCK_MAJOR_VERSION_2 : UInt8 := 2
/-- `BLOCK_MAJOR_VERSION_3`. -/
def BLOCK_MAJOR_VERSION_3 : UInt8 := 3
/-- `BLOCK_MINOR_VERSION_1`. -/
def BLOCK_MINOR_VERSION_1 : UInt8 := 1

end UltraNoteCore
