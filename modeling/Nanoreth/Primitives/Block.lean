import Mathlib.Data.Countable.Basic
import Mathlib.Data.FinEnum
import Mathlib.Logic.Equiv.List
import Mathlib.Tactic.DeriveCountable
import Nanoreth.Primitives.Transaction

/-!
# Blocks

The blocks of the node (`primitives/header.rs`, `body.rs`, `block.rs`). A block
is an Ethereum block whose header carries, outside of its hash, the number of
its system transactions and the bloom of all its logs, theirs included
(`HlHeaderExtras`), and whose body carries the calls to read precompiles made by
its transactions (`ReadPrecompileCalls`).

What the node takes from its dependencies — hashes, signer recovery, encodings
and tries — is a parameter of the model, `Crypto`.
-/

namespace Nanoreth

/-- A bloom filter of logs. -/
abbrev Bloom := BitVec 2048

/-- The receipt of a transaction; its gas is cumulative over the block. -/
structure EthereumReceipt where
  txType : TxType
  success : Bool
  cumulativeGasUsed : UInt64
  logs : List Log
  deriving DecidableEq

/-- A withdrawal of the consensus layer. -/
structure Withdrawal where
  index : UInt64
  validatorIndex : UInt64
  address : Address
  amount : UInt64
  deriving DecidableEq

/-- A regular Ethereum header. -/
structure Header where
  parentHash : B256
  ommersHash : B256
  beneficiary : Address
  stateRoot : B256
  transactionsRoot : B256
  receiptsRoot : B256
  logsBloom : Bloom
  difficulty : U256
  number : UInt64
  gasLimit : UInt64
  gasUsed : UInt64
  timestamp : UInt64
  extraData : Bytes
  mixHash : B256
  nonce : BitVec 64
  baseFeePerGas : Option UInt64
  withdrawalsRoot : Option B256
  blobGasUsed : Option UInt64
  excessBlobGas : Option UInt64
  parentBeaconBlockRoot : Option B256
  requestsHash : Option B256
  deriving DecidableEq

/-- The root of an empty trie. -/
def emptyRootHash : B256 := 0x56e81f171bcc55a6ff8345e692c0f86e5b48e01b996cadc001622fb5e363b421

/-- The hash of an empty list of ommers. -/
def emptyOmmerRootHash : B256 := 0x1dcc4de8dec75d7aab85b567b6ccd41ad312451b948a7413f0a142fd40d49347

instance : Inhabited Header where
  default :=
    { parentHash := 0
      ommersHash := emptyOmmerRootHash
      beneficiary := 0
      stateRoot := emptyRootHash
      transactionsRoot := emptyRootHash
      receiptsRoot := emptyRootHash
      logsBloom := 0
      difficulty := 0
      number := 0
      gasLimit := 0
      gasUsed := 0
      timestamp := 0
      extraData := []
      mixHash := 0
      nonce := 0
      baseFeePerGas := none
      withdrawalsRoot := none
      blobGasUsed := none
      excessBlobGas := none
      parentBeaconBlockRoot := none
      requestsHash := none }

/-- The functions the node takes from its dependencies. -/
structure Crypto where
  /-- The hash of a transaction. -/
  txHash : EthereumTxEnvelope → B256
  /-- The signer of a transaction, recovered from its signature. -/
  recoverSigner : EthereumTxEnvelope → Option Address
  /-- The hash of a header. -/
  hashSlow : Header → B256
  /-- The bits a log sets in a bloom filter. -/
  logBloom : Log → Bloom
  /-- The encoding of a transaction (EIP-2718). -/
  encodeTx : EthereumTxEnvelope → Bytes
  /-- The encoding of a receipt with its bloom (EIP-2718). -/
  encodeReceipt : EthereumReceipt → Bloom → Bytes
  /-- The encoding of a withdrawal. -/
  encodeWithdrawal : Withdrawal → Bytes
  /-- The root of the trie of encoded values, keyed by their index. -/
  orderedTrieRoot : List Bytes → B256
  /-- The hash of execution requests (EIP-7685). -/
  requestsHash : List Bytes → B256

variable (C : Crypto)

/-! ## Blooms -/

/-- The bloom of a list of logs. -/
def logsBloom (logs : List Log) : Bloom :=
  logs.foldl (fun bloom log => bloom ||| C.logBloom log) 0

/-- The bloom filter may be accumulated from any value. -/
theorem foldl_logBloom (bloom : Bloom) (logs : List Log) :
    logs.foldl (fun bloom log => bloom ||| C.logBloom log) bloom = bloom ||| logsBloom C logs := by
  induction logs generalizing bloom with
  | nil => simp [logsBloom]
  | cons log logs ih =>
    rw [logsBloom, List.foldl_cons, List.foldl_cons, ih, ih (0 ||| C.logBloom log), BitVec.or_assoc]
    simp

@[simp]
theorem logsBloom_nil : logsBloom C [] = 0 := rfl

/-- The bloom filter of logs is the union of those of both parts. -/
@[simp]
theorem logsBloom_append (logs logs' : List Log) :
    logsBloom C (logs ++ logs') = logsBloom C logs ||| logsBloom C logs' := by
  rw [logsBloom, List.foldl_append, foldl_logBloom]
  rfl

/-! ## Calls to read precompiles -/

/-- A call to a read precompile: its input and its gas limit. -/
structure ReadPrecompileInput where
  input : Bytes
  gasLimit : UInt64
  deriving DecidableEq

/-- What a read precompile answered. -/
inductive ReadPrecompileResult
  | ok (gasUsed : UInt64) (bytes : Bytes)
  | outOfGas
  | error
  | unexpectedError
  deriving DecidableEq

/-- The calls made to the read precompiles in a block, for each precompile. -/
abbrev ReadPrecompileCalls := List (Address × List (ReadPrecompileInput × ReadPrecompileResult))

/-- The precompile data of a block. -/
structure HlExtras where
  readPrecompileCalls : Option ReadPrecompileCalls
  highestPrecompileAddress : Option Address
  deriving DecidableEq

/-! ## Blocks -/

/-- The fields a header carries outside of its hash. The count is the length of
    a vector in memory, so that it never reaches `2 ^ 64`. -/
structure HlHeaderExtras where
  logsBloomWithSystemTxs : Bloom
  systemTxCount : ℕ
  deriving DecidableEq

/-- A header of the node. -/
structure HlHeader where
  inner : Header
  extras : HlHeaderExtras
  deriving DecidableEq

/-- The hash of a header is that of the Ethereum header. -/
def HlHeader.hash (header : HlHeader) : B256 := C.hashSlow header.inner

/-- The header extending `header`, given the receipts of the block, those of its
    `systemTxCount` system transactions included. -/
def HlHeader.fromEthereumHeader (header : Header) (receipts : List EthereumReceipt)
    (systemTxCount : ℕ) : HlHeader where
  inner := header
  extras :=
    { logsBloomWithSystemTxs := logsBloom C (receipts.flatMap (·.logs))
      systemTxCount := systemTxCount }

/-- The sidecar of a blob transaction. -/
structure BlobTransactionSidecar where
  blobs : List Bytes
  commitments : List Bytes
  proofs : List Bytes
  deriving DecidableEq

/-- The body of a block of transactions `T`, whose ommers are headers `H`. -/
structure BlockBody (T H : Type) where
  transactions : List T
  ommers : List H
  withdrawals : Option (List Withdrawal)
  deriving DecidableEq

/-- The body of a block of the node. -/
structure HlBlockBody where
  inner : BlockBody TransactionSigned HlHeader
  sidecars : Option (List BlobTransactionSidecar)
  readPrecompileCalls : Option ReadPrecompileCalls
  highestPrecompileAddress : Option Address
  deriving DecidableEq

/-- A block of the node. -/
structure HlBlock where
  header : HlHeader
  body : HlBlockBody
  deriving DecidableEq

/-- The precompile data of a block body. -/
def HlBlockBody.extras (body : HlBlockBody) : HlExtras where
  readPrecompileCalls := body.readPrecompileCalls
  highestPrecompileAddress := body.highestPrecompileAddress

namespace TransactionSigned

/-- The hash of a transaction. -/
def txHash (tx : TransactionSigned) : B256 := C.txHash tx.inner

/-- The signer of a transaction: the sender encoded in its signature if it is a
    system one, and otherwise recovered from it. -/
def recoverSigner (tx : TransactionSigned) : Option Address :=
  if tx.isSystemTransaction then some (sToAddress tx.signature.s)
  else C.recoverSigner tx.inner

end TransactionSigned

/-- The root of the trie of transactions. -/
def calculateTransactionRoot (transactions : List TransactionSigned) : B256 :=
  C.orderedTrieRoot (transactions.map fun tx => C.encodeTx tx.inner)

/-- The transactions of a body its root is about: the regular ones. -/
def HlBlockBody.transactionsForRoot (body : HlBlockBody) : List TransactionSigned :=
  body.inner.transactions.filter fun tx => !tx.isSystemTransaction

/-- The transactions root of a body. -/
def HlBlockBody.calculateTxRoot (body : HlBlockBody) : B256 :=
  calculateTransactionRoot C body.transactionsForRoot

/-! ## Countability

Blocks are finite data and can be numbered, so that there are codecs for them. -/

deriving instance Countable for Withdrawal, BlobTransactionSidecar, Header, HlHeaderExtras,
  HlHeader, TxKind, SignedAuthorization, TxLegacy, TxEip2930, TxEip1559, TxEip4844, TxEip7702,
  Signature, Signed, EthereumTxEnvelope, TransactionSigned, ReadPrecompileInput,
  ReadPrecompileResult, HlExtras

end Nanoreth
