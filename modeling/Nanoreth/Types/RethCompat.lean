import Nanoreth.Primitives.Block
import Nanoreth.SpotMeta

/-!
# Blocks on the wire

The format in which nodes exchange blocks, and its conversions from and to the
blocks of the database (`types/mod.rs`, `types/reth_compat.rs`, `types/patch.rs`).
A `BlockAndReceipts` keeps the system transactions apart from the regular ones,
unsigned, each with its receipt.

* `BlockAndReceipts.toRethBlock` merges them, the system transactions first. It
  fabricates their signatures, whose `s` encodes the sender. The sender is, in
  this order (`SenderSource`): the one upstream gives; the one recovered from the
  logs of the receipt, for a few blocks of testnet; the sender of native
  transfers, if the input is empty; and otherwise the spot asset of the token
  contract that is called.
* `BlockAndReceipts.fromDb` splits them again, using the count in the header.
-/

namespace Nanoreth

open Partial

/-! ## Receipts -/

/-- The types of transactions that receipts are stored with. -/
inductive LegacyTxType
  | legacy
  | eip2930
  | eip1559
  | eip4844
  | eip7702
  deriving DecidableEq

/-- A receipt on the wire. -/
structure LegacyReceipt where
  txType : LegacyTxType
  success : Bool
  cumulativeGasUsed : UInt64
  logs : List Log
  deriving DecidableEq

/-- The receipt of the node for a stored one. -/
def LegacyReceipt.toEthereumReceipt (r : LegacyReceipt) : EthereumReceipt where
  txType := match r.txType with
    | .legacy => .legacy
    | .eip2930 => .eip2930
    | .eip1559 => .eip1559
    | .eip4844 => .eip4844
    | .eip7702 => .eip7702
  success := r.success
  cumulativeGasUsed := r.cumulativeGasUsed
  logs := r.logs

/-- The stored receipt for one of the node. -/
def EthereumReceipt.toLegacyReceipt (r : EthereumReceipt) : LegacyReceipt where
  txType := match r.txType with
    | .legacy => .legacy
    | .eip2930 => .eip2930
    | .eip1559 => .eip1559
    | .eip4844 => .eip4844
    | .eip7702 => .eip7702
  success := r.success
  cumulativeGasUsed := r.cumulativeGasUsed
  logs := r.logs

/-- Receipts can be converted back. -/
@[simp]
theorem EthereumReceipt.toEthereumReceipt_toLegacyReceipt (r : EthereumReceipt) :
    r.toLegacyReceipt.toEthereumReceipt = r := by
  obtain ⟨t, _, _, _⟩ := r
  cases t <;> rfl

/-! ## Transactions -/

/-- A raw transaction. -/
inductive Transaction
  | legacy (tx : TxLegacy)
  | eip2930 (tx : TxEip2930)
  | eip1559 (tx : TxEip1559)
  | eip4844 (tx : TxEip4844)
  | eip7702 (tx : TxEip7702)
  deriving DecidableEq

/-- The gas price of a raw transaction, if it has a fixed one. -/
def Transaction.gasPrice : Transaction → Option U128
  | legacy tx => some tx.gasPrice
  | eip2930 tx => some tx.gasPrice
  | _ => none

/-- A signed transaction on the wire. -/
structure CompatTransactionSigned where
  signature : Signature
  transaction : Transaction
  deriving DecidableEq

namespace CompatTransactionSigned

/-- The transaction on the wire of a transaction of the node. -/
def fromNodeTx (tx : TransactionSigned) : CompatTransactionSigned :=
  match tx.inner with
  | .legacy signed => ⟨signed.signature, .legacy signed.tx⟩
  | .eip2930 signed => ⟨signed.signature, .eip2930 signed.tx⟩
  | .eip1559 signed => ⟨signed.signature, .eip1559 signed.tx⟩
  | .eip4844 signed => ⟨signed.signature, .eip4844 signed.tx⟩
  | .eip7702 signed => ⟨signed.signature, .eip7702 signed.tx⟩

/-- A transaction of the node without its signature, for system transactions. -/
def extractTransaction (tx : TransactionSigned) : Transaction :=
  match tx.inner with
  | .legacy signed => .legacy signed.tx
  | .eip2930 signed => .eip2930 signed.tx
  | .eip1559 signed => .eip1559 signed.tx
  | .eip4844 signed => .eip4844 signed.tx
  | .eip7702 signed => .eip7702 signed.tx

/-- The transaction of the node of a transaction on the wire. -/
def toRethTransaction (tx : CompatTransactionSigned) : TransactionSigned :=
  match tx.transaction with
  | .legacy t => ⟨.legacy ⟨t, tx.signature⟩⟩
  | .eip2930 t => ⟨.eip2930 ⟨t, tx.signature⟩⟩
  | .eip1559 t => ⟨.eip1559 ⟨t, tx.signature⟩⟩
  | .eip4844 t => ⟨.eip4844 ⟨t, tx.signature⟩⟩
  | .eip7702 t => ⟨.eip7702 ⟨t, tx.signature⟩⟩

/-- Transactions can be converted back. -/
@[simp]
theorem toRethTransaction_fromNodeTx (tx : TransactionSigned) :
    (fromNodeTx tx).toRethTransaction = tx := by
  obtain ⟨inner⟩ := tx
  cases inner <;> rfl

end CompatTransactionSigned

/-- A system transaction: without a signature, with its receipt and, if upstream
    gives it, its sender (the field `from`). -/
structure SystemTx where
  tx : Transaction
  receipt : Option LegacyReceipt
  fromAddress : Option Address
  deriving DecidableEq

/-! ## Blocks -/

/-- A header with its hash. -/
structure SealedHeader where
  hash : B256
  header : Header
  deriving DecidableEq

/-- A block with its hash. -/
structure SealedBlock where
  header : SealedHeader
  body : BlockBody CompatTransactionSigned Header
  deriving DecidableEq

/-- The versions of stored blocks, of which there is one. -/
inductive EvmBlock
  | reth115 (block : SealedBlock)
  deriving DecidableEq

/-- A block on the wire. -/
structure BlockAndReceipts where
  block : EvmBlock
  receipts : List LegacyReceipt
  systemTxs : List SystemTx
  readPrecompileCalls : ReadPrecompileCalls
  highestPrecompileAddress : Option Address
  deriving DecidableEq

namespace BlockAndReceipts

/-- The block without its version. -/
def sealedBlock (b : BlockAndReceipts) : SealedBlock :=
  match b.block with
  | .reth115 block => block

/-- The hash that is stored with the block. -/
def hash (b : BlockAndReceipts) : B256 := b.sealedBlock.header.hash

/-- The number of the block. -/
def number (b : BlockAndReceipts) : UInt64 := b.sealedBlock.header.header.number

/-- The hash of the parent. -/
def parentHash (b : BlockAndReceipts) : B256 := b.sealedBlock.header.header.parentHash

end BlockAndReceipts

/-! ## The sender of a system transaction -/

/-- The topic of the transfers of a token. -/
def erc20TransferTopic : B256 :=
  0xddf252ad1be2c89b69c2b068fc378daa952ba7f163c4a11628f55a4df523b3ef

/-- The token whose senders are recovered from its logs on testnet. -/
def senderRecoveryToken : Address := 0x2b3370ee501b4a559b57d449569354196457d8ab

/-- The blocks in which they are, the last one excluded. -/
def senderRecoveryBlocks : UInt64 × UInt64 := (55231857, 55432000)

/-- The sender of a transfer of `token`, if `log` is one. -/
def transferSender (token : Address) (log : Log) : Option Address :=
  match log.topics with
  | topic :: sender :: _ =>
    if log.address = token ∧ topic = erc20TransferTopic then some (sender.setWidth 160) else none
  | _ => none

/-- The sender of a system transaction to `token`, recovered from its receipt. -/
def recoverTestnetSystemTxSender (chainId blockNumber : UInt64) (token : Address)
    (receipt : Option LegacyReceipt) : Option Address := do
  if chainId ≠ testnetChainId ∨
      ¬(senderRecoveryBlocks.1 ≤ blockNumber ∧ blockNumber < senderRecoveryBlocks.2) ∨
      token ≠ senderRecoveryToken then
    none
  let receipt ← receipt
  let sender ← receipt.logs.findSome? (transferSender token)
  if sender.setWidth 256 ≠ (1 : U256) then some sender else none

/-- Where the sender of a system transaction is taken from. -/
inductive SenderSource
  | upstream (sender : Address)
  | testnetLog (sender : Address)
  | hype
  | spot
  deriving DecidableEq

/-- Where the sender of the system transaction of payload `tx`, a call of
    `target`, is taken from: the first of the sources that has it. -/
def senderSource (chainId blockNumber : UInt64) (transaction : SystemTx) (tx : TxLegacy)
    (target : Address) : SenderSource :=
  match transaction.fromAddress with
  | some sender => .upstream sender
  | none =>
    match recoverTestnetSystemTxSender chainId blockNumber target transaction.receipt with
    | some sender => .testnetLog sender
    | none => if tx.input.isEmpty then .hype else .spot

variable (env : SpotEnv) (fuel : ℕ)

/-- The `s` encoding the sender of a call of `target`, taken from a source. -/
def SenderSource.toS (chainId : UInt64) (target : Address) : SenderSource → SpotM U256
  | .upstream sender => pure (addressToS sender)
  | .testnetLog sender => pure (addressToS sender)
  | .hype => pure 1
  | .spot => spotToS env chainId target fuel

/-- The transaction of the node of a system transaction, with a fabricated
    signature. -/
def systemTxToRethTransaction (chainId blockNumber : UInt64) (transaction : SystemTx) :
    SpotM TransactionSigned :=
  match transaction.tx with
  | .legacy tx =>
    match tx.target with
    | .call target => do
      let s ← (senderSource chainId blockNumber transaction tx target).toS env fuel chainId target
      return ⟨.legacy ⟨tx, ⟨1, s, true⟩⟩⟩
    | .create => throw (.panic "Unexpected contract creation")
  | _ => throw (.panic "Unexpected transaction type")

/-! ## Conversions -/

variable (C : Crypto)

/-- The system transactions of a block that have a receipt. The others are left
    out. -/
def retainedSystemTxs (systemTxs : List SystemTx) : List SystemTx :=
  systemTxs.filter (·.receipt.isSome)

/-- The receipts of a block: those of the system transactions `systemTxs`, then
    the regular ones. -/
def mergeReceipts (systemTxs : List SystemTx) (receipts : List LegacyReceipt) :
    List EthereumReceipt :=
  (retainedSystemTxs systemTxs).filterMap (fun tx => tx.receipt.map (·.toEthereumReceipt)) ++
    receipts.map (·.toEthereumReceipt)

/-- The block of the node of a block on the wire. -/
def SealedBlock.toRethBlock (block : SealedBlock) (readPrecompileCalls : ReadPrecompileCalls)
    (highestPrecompileAddress : Option Address) (systemTxs : List SystemTx)
    (receipts : List LegacyReceipt) (chainId : UInt64) : SpotM HlBlock := do
  let retained := retainedSystemTxs systemTxs
  let blockNumber := block.header.header.number
  let systemTransactions ← retained.mapM (systemTxToRethTransaction env fuel chainId blockNumber)
  let mergedTxs := systemTransactions ++ block.body.transactions.map (·.toRethTransaction)
  let mergedReceipts := mergeReceipts systemTxs receipts
  return {
    header := .fromEthereumHeader C block.header.header mergedReceipts retained.length
    body := {
      inner := { transactions := mergedTxs, withdrawals := block.body.withdrawals, ommers := [] }
      sidecars := none
      readPrecompileCalls := some readPrecompileCalls
      highestPrecompileAddress := highestPrecompileAddress } }

/-- The elements of a list before the index `count` and the others; all of them
    are among the others if there are not that many. -/
def splitSystem {α : Type} (count : ℕ) (xs : List α) : List α × List α :=
  if 0 < count ∧ count ≤ xs.length then
    let (system, regular) := xs.zipIdx.partition fun (_, i) => i < count
    (system.map (·.1), regular.map (·.1))
  else ([], xs)

namespace BlockAndReceipts

/-- Converts a stored block to one of the node. -/
def toRethBlock (b : BlockAndReceipts) (chainId : UInt64) : SpotM HlBlock :=
  b.sealedBlock.toRethBlock env fuel C b.readPrecompileCalls b.highestPrecompileAddress b.systemTxs
    b.receipts chainId

/-- The receipts a node stores for a block. -/
def mergedReceipts (b : BlockAndReceipts) : List EthereumReceipt :=
  mergeReceipts b.systemTxs b.receipts

/-- The block on the wire of a block of the node and its receipts. -/
def fromDb (block : HlBlock) (receipts : List EthereumReceipt) : BlockAndReceipts :=
  let systemTxCount := block.header.extras.systemTxCount
  let (systemTxList, regularTxList) := splitSystem systemTxCount block.body.inner.transactions
  let (systemReceipts, regularReceipts) := splitSystem systemTxCount receipts
  let systemTxs := (systemTxList.zip systemReceipts).map fun (tx, receipt) =>
    { tx := CompatTransactionSigned.extractTransaction tx
      receipt := some receipt.toLegacyReceipt
      fromAddress := tx.recoverSigner C : SystemTx }
  { block := .reth115 {
      header := { hash := C.hashSlow block.header.inner, header := block.header.inner }
      body := {
        transactions := regularTxList.map .fromNodeTx
        ommers := []
        withdrawals := block.body.inner.withdrawals } }
    receipts := regularReceipts.map (·.toLegacyReceipt)
    systemTxs := systemTxs
    readPrecompileCalls := block.body.readPrecompileCalls.getD []
    highestPrecompileAddress := block.body.highestPrecompileAddress }

end BlockAndReceipts

end Nanoreth
