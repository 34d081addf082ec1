import Nanoreth.Evm.State

/-!
# Blocks over RPC

What the RPC interface of a node serves for a block of the chain and its receipts: the
block with its transactions or their hashes (`toRpcBlock`), the receipts
(`rpcReceipts`) and the logs (`blockLogs`). Transactions are numbered in the block, and
logs across its transactions; the gas of a transaction is the difference of the
cumulative gas of two receipts, which must not decrease.

This is what the dependencies of the node do. How they price a transaction and present a
receipt is a parameter, `RpcConvert`.
-/

namespace Nanoreth

open Partial

/-- Where a transaction is, for its conversion. -/
structure TransactionInfo where
  hash : B256
  index : ℕ
  blockHash : B256
  blockNumber : UInt64
  baseFee : Option UInt64
  deriving DecidableEq

/-- Where a transaction is, for the conversion of its receipt. -/
structure TransactionMeta where
  txHash : B256
  index : ℕ
  blockHash : B256
  blockNumber : UInt64
  baseFee : Option UInt64
  excessBlobGas : Option UInt64
  timestamp : UInt64
  deriving DecidableEq

/-- What a receipt is converted from: it has the gas of the transaction alone, and the number
    of its first log in the block. -/
structure ConvertReceiptInput where
  receipt : EthereumReceipt
  tx : Recovered
  gasUsed : UInt64
  nextLogIndex : ℕ
  metadata : TransactionMeta
  deriving DecidableEq

/-- The conversions: the gas price of a transaction at a base fee, a receipt, and the size of
    a block. -/
structure RpcConvert (R : Type) where
  effectiveGasPrice : TransactionSigned → Option UInt64 → U128
  convertReceipt : ConvertReceiptInput → R
  size : HlBlock → U256

/-- A transaction as it is served. -/
structure RpcTransaction where
  inner : Recovered
  blockHash : B256
  blockNumber : UInt64
  transactionIndex : Option ℕ
  effectiveGasPrice : U128
  deriving DecidableEq

/-- The transactions of a block, or their hashes. -/
inductive BlockTransactions
  | full (transactions : List RpcTransaction)
  | hashes (hashes : List B256)
  | uncle
  deriving DecidableEq

/-- A block as it is served. -/
structure RpcBlock where
  hash : B256
  header : HlHeader
  transactions : BlockTransactions
  size : U256
  withdrawals : Option (List Withdrawal)
  deriving DecidableEq

/-- The number of the block. -/
def RpcBlock.number (block : RpcBlock) : UInt64 := block.header.inner.number

/-- A log as it is served. -/
structure RpcLog where
  inner : Log
  blockHash : Option B256
  blockNumber : Option UInt64
  blockTimestamp : Option UInt64
  transactionHash : Option B256
  transactionIndex : Option ℕ
  logIndex : Option ℕ
  removed : Bool
  deriving DecidableEq

/-- How a block is asked for by number. -/
inductive BlockNumberOrTag
  | latest
  | finalized
  | safe
  | earliest
  | pending
  | number (number : UInt64)
  deriving DecidableEq

/-- What a block is asked for by. -/
inductive BlockId
  | hash (hash : B256)
  | number (number : BlockNumberOrTag)
  deriving DecidableEq

instance : Inhabited BlockId := ⟨.number .latest⟩

/-- A transaction as it is served, with where it is. -/
def RpcConvert.fill {R : Type} (V : RpcConvert R) (tx : Recovered) (info : TransactionInfo) :
    RpcTransaction where
  inner := tx
  blockHash := info.blockHash
  blockNumber := info.blockNumber
  transactionIndex := some info.index
  effectiveGasPrice := V.effectiveGasPrice tx.tx info.baseFee

variable {R : Type} (C : Crypto) (V : RpcConvert R)

namespace HlHeader

variable (header : HlHeader)

/-- Where the transaction at an index of the block is. -/
def transactionInfo (index : ℕ) (tx : Recovered) : TransactionInfo where
  hash := tx.tx.txHash C
  index := index
  blockHash := header.hash C
  blockNumber := header.inner.number
  baseFee := header.inner.baseFeePerGas

/-- Where a transaction of a block is. -/
def transactionMeta (index : ℕ) (tx : Recovered) : TransactionMeta where
  txHash := tx.tx.txHash C
  index := index
  blockHash := header.hash C
  blockNumber := header.inner.number
  baseFee := header.inner.baseFeePerGas
  excessBlobGas := header.inner.excessBlobGas
  timestamp := header.inner.timestamp

/-- What the receipt of the transaction at an index is converted from, after the transactions
    before it used `gasUsed` and emitted `nextLogIndex` logs. -/
def receiptInput (index : ℕ) (gasUsed : UInt64) (nextLogIndex : ℕ) (tx : Recovered)
    (receipt : EthereumReceipt) : Except Halt ConvertReceiptInput := do
  let gas ← checkedSub receipt.cumulativeGasUsed gasUsed
  return {
    receipt := receipt
    tx := tx
    gasUsed := gas
    nextLogIndex := nextLogIndex
    metadata := header.transactionMeta C index tx }

/-- What the receipts of transactions from an index on are converted from. -/
def receiptInputs :
    ℕ → UInt64 → ℕ → List (Recovered × EthereumReceipt) → Except Halt (List ConvertReceiptInput)
  | _, _, _, [] => .ok []
  | index, gasUsed, nextLogIndex, (tx, receipt) :: rest => do
    let input ← header.receiptInput C index gasUsed nextLogIndex tx receipt
    let inputs ← receiptInputs (index + 1) receipt.cumulativeGasUsed
      (nextLogIndex + receipt.logs.length) rest
    return input :: inputs

/-- A log of the transaction at an index. -/
def rpcLog (index : ℕ) (tx : Recovered) (logIndex : ℕ) (log : Log) : RpcLog where
  inner := log
  blockHash := some (header.hash C)
  blockNumber := some header.inner.number
  blockTimestamp := some header.inner.timestamp
  transactionHash := some (tx.tx.txHash C)
  transactionIndex := some index
  logIndex := some logIndex
  removed := false

/-- The logs of transactions from an index on, with the number of the first one. -/
def rpcLogs : ℕ → ℕ → List (Recovered × EthereumReceipt) → List RpcLog
  | _, _, [] => []
  | index, logIndex, (tx, receipt) :: rest =>
    receipt.logs.mapIdx (fun i log => header.rpcLog C index tx (logIndex + i) log) ++
      rpcLogs (index + 1) (logIndex + receipt.logs.length) rest

end HlHeader

namespace RecoveredBlock

variable (block : RecoveredBlock)

/-- The converted transactions of a block. -/
def rpcTransactions : List RpcTransaction :=
  block.transactionsRecovered.mapIdx fun index tx =>
    V.fill tx (block.block.header.transactionInfo C index tx)

/-- The block as it is served, with its transactions in full or by their hashes. -/
def toRpcBlock (full : Bool) : RpcBlock where
  hash := block.block.header.hash C
  header := block.block.header
  transactions :=
    if full then .full (block.rpcTransactions C V)
    else .hashes (block.transactionsRecovered.map fun tx => tx.tx.txHash C)
  size := V.size block.block
  withdrawals := block.block.body.inner.withdrawals

/-- How many transactions the block has. -/
def transactionCount : U256 := BitVec.ofNat 256 block.transactionsRecovered.length

/-- What the receipts of a block are converted from. -/
def blockInputs (receipts : List EthereumReceipt) : Except Halt (List ConvertReceiptInput) :=
  block.block.header.receiptInputs C 0 0 0 (block.transactionsRecovered.zip receipts)

/-- The receipts of a block as they are served. -/
def rpcReceipts (receipts : List EthereumReceipt) : Except Halt (List R) := do
  let inputs ← block.blockInputs C receipts
  return inputs.map V.convertReceipt

/-- The logs of a block as they are served. -/
def blockLogs (receipts : List EthereumReceipt) : List RpcLog :=
  block.block.header.rpcLogs C 0 0 (block.transactionsRecovered.zip receipts)

end RecoveredBlock

end Nanoreth
