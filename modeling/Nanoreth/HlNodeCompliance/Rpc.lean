import Nanoreth.Rpc.Types

/-!
# Endpoints without system transactions

`hl-node` does not serve the system transactions of a block with the others. The endpoints
of the node that comply with it (`hl_node_compliance/rpc.rs`) take what the stock ones
serve, and leave the system transactions out; other endpoints serve these alone. Each of
them finds the system transactions in its own way: by the count in the header, by the gas
price, or by the cumulative gas of the receipts.

The stock endpoints, and the provider below them, are a parameter, `EthApi`. Where the
source subtracts or drains, the model panics if there is too little.
-/

namespace Nanoreth

open Partial

/-- Why a request fails: the API fails, the node panics, or there is no such block. -/
inductive HandlerError (E : Type)
  | api (error : E)
  | panic (halt : Halt)
  | invalidBlockHeight (id : Option BlockId)

/-- What the node looks up in its database. -/
structure EthApi (E : Type) where
  blockById : BlockId → Except E (Option HlBlock)
  headerById : BlockId → Except E (Option HlHeader)
  receiptsByBlock : UInt64 → Except E (Option (List EthereumReceipt))
  recoveredBlock : BlockId → Except E (Option RecoveredBlock)
  loadBlockAndReceipts : BlockId → Except E (Option (RecoveredBlock × List EthereumReceipt))
  loadTransactionAndReceipt :
    B256 → Except E (Option (Recovered × TransactionMeta × EthereumReceipt))

/-- The receipts of a block, those of its system transactions apart. -/
structure BlockReceiptsWithSystemTx (R : Type) where
  receipts : List R
  systemTxReceipts : List R
  deriving DecidableEq

variable {E R : Type} (C : Crypto) (V : RpcConvert R)

/-! ## Receipts -/

namespace HlHeader

variable (header : HlHeader)

/-- The loop of `adjust_block_receipts`, from an index on: the receipts before
    `systemTxCount` are skipped. -/
def regularInputs (systemTxCount : ℕ) :
    ℕ → UInt64 → ℕ → List (Recovered × EthereumReceipt) → Except Halt (List ConvertReceiptInput)
  | _, _, _, [] => .ok []
  | idx, gasUsed, nextLogIndex, (tx, receipt) :: rest =>
    if idx < systemTxCount then
      -- The gas and the logs of system transactions are not counted for the regular ones.
      regularInputs systemTxCount (idx + 1) gasUsed nextLogIndex rest
    else do
      let input ←
        header.receiptInput C (idx - systemTxCount) gasUsed nextLogIndex tx receipt
      let inputs ← regularInputs systemTxCount (idx + 1) receipt.cumulativeGasUsed
        (nextLogIndex + receipt.logs.length) rest
      return input :: inputs

/-- The gas used, and the number of logs, so far. -/
structure Cursor where
  gasUsed : UInt64
  nextLogIndex : ℕ

/-- The cursor after a receipt. -/
def Cursor.advance (cursor : Cursor) (receipt : EthereumReceipt) : Cursor where
  gasUsed := receipt.cumulativeGasUsed
  nextLogIndex := cursor.nextLogIndex + receipt.logs.length

/-- The loop of `block_receipts_with_system_txs`, from an index on. It returns the regular
    receipts and those of the system transactions. -/
def splitInputs (systemTxCount : ℕ) :
    ℕ → Cursor → Cursor → List (Recovered × EthereumReceipt) →
      Except Halt (List ConvertReceiptInput × List ConvertReceiptInput)
  | _, _, _, [] => .ok ([], [])
  | idx, regular, system, (tx, receipt) :: rest =>
    if idx < systemTxCount then do
      let input ← header.receiptInput C idx system.gasUsed system.nextLogIndex tx receipt
      let (regularInputs, systemInputs) ←
        splitInputs systemTxCount (idx + 1) regular (system.advance receipt) rest
      return (regularInputs, input :: systemInputs)
    else do
      let input ← header.receiptInput C (idx - systemTxCount) regular.gasUsed
        regular.nextLogIndex tx receipt
      let (regularInputs, systemInputs) ←
        splitInputs systemTxCount (idx + 1) (regular.advance receipt) system rest
      return (input :: regularInputs, systemInputs)

/-- The loop of `get_system_txs_receipts_by_block_id`, from an index on: it stops at the
    first receipt with gas. -/
def systemInputs :
    ℕ → UInt64 → ℕ → List (Recovered × EthereumReceipt) → Except Halt (List ConvertReceiptInput)
  | _, _, _, [] => .ok []
  | idx, gasUsed, nextLogIndex, (tx, receipt) :: rest =>
    -- The first receipt with gas ends the loop, whatever comes after it.
    if receipt.cumulativeGasUsed ≠ 0 then .ok []
    else do
      let input ← header.receiptInput C idx gasUsed nextLogIndex tx receipt
      let inputs ← systemInputs (idx + 1) receipt.cumulativeGasUsed
        (nextLogIndex + receipt.logs.length) rest
      return input :: inputs

end HlHeader

namespace EthApi

variable (api : EthApi E)

/-- The number of system transactions of a block, if its header is available. -/
def systemTxCountForBlock (id : BlockId) : Except (HandlerError E) (Option ℕ) := do
  let header ← (api.headerById id).mapError .api
  return header.map (·.extras.systemTxCount)

/-- The receipts of the regular transactions of a block, and how many system ones there are. -/
def adjustBlockReceipts (id : BlockId) : Except (HandlerError E) (Option (ℕ × List R)) := do
  match ← api.systemTxCountForBlock id with
  | none => return none
  | some systemTxCount =>
    match ← (api.loadBlockAndReceipts id).mapError .api with
    | none => return none
    | some (block, receipts) =>
      let inputs ← (block.block.header.regularInputs C systemTxCount 0 0 0
        (block.transactionsRecovered.zip receipts)).mapError .panic
      return some (systemTxCount, inputs.map V.convertReceipt)

/-- The receipts of a block, those of the system transactions apart. -/
def blockReceiptsWithSystemTxs (id : BlockId) :
    Except (HandlerError E) (Option (BlockReceiptsWithSystemTx R)) := do
  match ← api.systemTxCountForBlock id with
  | none => return none
  | some systemTxCount =>
    match ← (api.loadBlockAndReceipts id).mapError .api with
    | none => return none
    | some (block, receipts) =>
      let (regularInputs, systemInputs) ← (block.block.header.splitInputs C systemTxCount 0
        ⟨0, 0⟩ ⟨0, 0⟩ (block.transactionsRecovered.zip receipts)).mapError .panic
      return some
        { receipts := regularInputs.map V.convertReceipt
          systemTxReceipts := systemInputs.map V.convertReceipt }

/-- The receipt of a transaction, as one of those of its filtered block. -/
def adjustTransactionReceipt (txHash : B256) : Except (HandlerError E) (Option R) := do
  match ← (api.loadTransactionAndReceipt txHash).mapError .api with
  | none => return none
  | some (_, metadata, _) =>
    match ← api.adjustBlockReceipts C V (.hash metadata.blockHash) with
    | none => return none
    | some (systemTxCount, blockReceipts) =>
      -- The receipts of system transactions are not served.
      if metadata.index < systemTxCount then return none
      else return blockReceipts[metadata.index - systemTxCount]?

/-- The receipts of the system transactions of a block, which are those before the first gas. -/
def getSystemTxsReceiptsByBlockId (id : BlockId) :
    Except (HandlerError E) (Option (List R)) := do
  match ← (api.loadBlockAndReceipts id).mapError .api with
  | none => return none
  | some (block, receipts) =>
    let inputs ← (block.block.header.systemInputs C 0 0 0
      (block.transactionsRecovered.zip receipts)).mapError .panic
    return some (inputs.map V.convertReceipt)

/-! ## Blocks -/

/-- A transaction, numbered without the system transactions. -/
def renumber (systemTxCount : ℕ) (tx : RpcTransaction) : Except Halt RpcTransaction :=
  match tx.transactionIndex with
  | none => .ok tx
  | some idx => do
    let idx ← checkedSub idx systemTxCount
    return { tx with transactionIndex := some idx }

/-- The transactions of a block without the first ones, numbered from 0 on again. -/
def adjustTransactions (systemTxCount : ℕ) : BlockTransactions → Except Halt BlockTransactions
  | .full transactions => do
    let transactions ← drain systemTxCount transactions
    let transactions ← transactions.mapM (renumber systemTxCount)
    return .full transactions
  | .hashes hashes => do
    let hashes ← drain systemTxCount hashes
    return .hashes hashes
  | .uncle => .ok .uncle

/-- The block without its system transactions, by the count in the header of its number. -/
def adjustBlock (block : RpcBlock) : Except (HandlerError E) (Option RpcBlock) := do
  match ← api.systemTxCountForBlock (.number (.number block.number)) with
  | none => return none
  | some systemTxCount =>
    let transactions ← (adjustTransactions systemTxCount block.transactions).mapError .panic
    return some { block with transactions := transactions }

/-- The system transactions of a block, which are found by their gas price. -/
def getSystemTxsByBlockId (id : BlockId) :
    Except (HandlerError E) (Option (List RpcTransaction)) := do
  match ← (api.recoveredBlock id).mapError .api with
  | none => return none
  | some block =>
    return some (block.transactionsRecovered.zipIdx.filterMap fun (tx, index) =>
      -- By the transaction, not by the count of the header.
      if tx.tx.isSystemTransaction then
        some (V.fill tx (block.block.header.transactionInfo C index tx))
      else none)

/-! ## Logs -/

/-- Counts the transaction of a receipt, and its logs, if it is a system one. -/
def countSystem (counts : ℕ × ℕ) (receipt : EthereumReceipt) : ℕ × ℕ :=
  if receipt.cumulativeGasUsed = 0 then (counts.1 + 1, counts.2 + receipt.logs.length)
  else counts

/-- A log, numbered without the system transactions and their logs; none if it is one of
    these, or cannot be numbered. -/
def adjustLog (log : RpcLog) : Except Halt (Option RpcLog) :=
  match log.transactionIndex, log.logIndex, log.blockNumber with
  | some txIdx, some logIdx, some blockNumber =>
    -- By the receipts of the block that has the number now, which may be another one.
    match api.receiptsByBlock blockNumber with
    | .ok (some receipts) => do
      let (sysTxCount, sysLogCount) := receipts.foldl countSystem (0, 0)
      if sysTxCount > txIdx then return none
      else
        let txIdx ← checkedSub txIdx sysTxCount
        let logIdx ← checkedSub logIdx sysLogCount
        return some { log with transactionIndex := some txIdx, logIndex := some logIdx }
    | _ => return none
  | _, _, _ => return none

/-! ## Handlers

What is served depends on whether the request asks for compliance. -/

section Handlers

variable (compliant : Bool)

/-- A block, by what the request asks for it by. -/
def rpcBlock (id : BlockId) (full : Bool) : Except (HandlerError E) (Option RpcBlock) := do
  match ← (api.recoveredBlock id).mapError .api with
  | none => return none
  | some block =>
    if compliant then api.adjustBlock (block.toRpcBlock C V full)
    else return some (block.toRpcBlock C V full)

/-- `eth_getBlockByHash`. -/
def blockByHash (hash : B256) (full : Bool) : Except (HandlerError E) (Option RpcBlock) :=
  api.rpcBlock C V compliant (.hash hash) full

/-- `eth_getBlockByNumber`. -/
def blockByNumber (number : BlockNumberOrTag) (full : Bool) :
    Except (HandlerError E) (Option RpcBlock) :=
  api.rpcBlock C V compliant (.number number) full

/-- The number of transactions of a block. The subtraction is one of words, which wraps. -/
def blockTransactionCount (id : BlockId) : Except (HandlerError E) (Option U256) := do
  match ← (api.recoveredBlock id).mapError .api with
  | none => return none
  | some block =>
    if compliant then
      match ← api.systemTxCountForBlock id with
      | none => return none
      -- The count of the header may exceed the transactions, and then this wraps around.
      | some sysTxCount => return some (block.transactionCount - BitVec.ofNat 256 sysTxCount)
    else return some block.transactionCount

/-- `eth_getBlockTransactionCountByHash`. -/
def blockTransactionCountByHash (hash : B256) : Except (HandlerError E) (Option U256) :=
  api.blockTransactionCount compliant (.hash hash)

/-- `eth_getBlockTransactionCountByNumber`. -/
def blockTransactionCountByNumber (number : BlockNumberOrTag) :
    Except (HandlerError E) (Option U256) :=
  api.blockTransactionCount compliant (.number number)

/-- `eth_getBlockReceipts`. -/
def blockReceipts (id : BlockId) : Except (HandlerError E) (Option (List R)) := do
  match ← (api.blockById id).mapError .api with
  | none => return none
  | some _ =>
    if compliant then
      let result ← api.adjustBlockReceipts C V id
      return result.map (·.2)
    else
      match ← (api.loadBlockAndReceipts id).mapError .api with
      | none => return none
      | some (block, receipts) =>
        let receipts ← (block.rpcReceipts C V receipts).mapError .panic
        return some receipts

/-- `eth_getBlockReceiptsWithSystemTx`. -/
def blockReceiptsWithSystemTx (id : BlockId) :
    Except (HandlerError E) (Option (BlockReceiptsWithSystemTx R)) := do
  match ← (api.blockById id).mapError .api with
  | none => return none
  | some _ => api.blockReceiptsWithSystemTxs C V id

/-- The logs selected by a filter. -/
def logs (selected : List RpcLog) : Except Halt (List RpcLog) :=
  if compliant then selected.filterMapM api.adjustLog else .ok selected

end Handlers

/-- What is served for a hash: no block if the lookup fails. -/
def noneOnError {α : Type} : Except (HandlerError E) (Option α) → Except (HandlerError E) (Option α)
  | .error (.panic halt) => .error (.panic halt)
  | .error _ => .ok none
  | .ok result => .ok result

/-- What is served for a number: a failure if there is no block. -/
def errorOnNone {α : Type} (id : Option BlockId) (result : Except (HandlerError E) (Option α)) :
    Except (HandlerError E) (Option α) := do
  match ← result with
  | some found => return some found
  | none => throw (.invalidBlockHeight id)

/-- `eth_getEvmSystemTxsByBlockHash`. -/
def getEvmSystemTxsByBlockHash (hash : B256) :
    Except (HandlerError E) (Option (List RpcTransaction)) :=
  noneOnError (api.getSystemTxsByBlockId C V (.hash hash))

/-- `eth_getEvmSystemTxsByBlockNumber`, of the latest block by default. -/
def getEvmSystemTxsByBlockNumber (id : Option BlockId) :
    Except (HandlerError E) (Option (List RpcTransaction)) :=
  errorOnNone id (api.getSystemTxsByBlockId C V (id.getD default))

/-- `eth_getEvmSystemTxsReceiptsByBlockHash`. -/
def getEvmSystemTxsReceiptsByBlockHash (hash : B256) :
    Except (HandlerError E) (Option (List R)) :=
  noneOnError (api.getSystemTxsReceiptsByBlockId C V (.hash hash))

/-- `eth_getEvmSystemTxsReceiptsByBlockNumber`, of the latest block by default. -/
def getEvmSystemTxsReceiptsByBlockNumber (id : Option BlockId) :
    Except (HandlerError E) (Option (List R)) :=
  errorOnNone id (api.getSystemTxsReceiptsByBlockId C V (id.getD default))

end EthApi

end Nanoreth
