import Nanoreth.ChainSpec

/-!
# Validation after execution

An executed block is validated against its receipts (`consensus/reth_copy.rs`): the gas
used, the receipts root, the bloom of the logs, and the hash of the requests in its
header must be those computed from them. The receipts without cumulative gas, those of
system transactions, are left out of the root and of the bloom.
-/

namespace Nanoreth

variable (C : Crypto)

/-- A computed value, and the one in the header. -/
structure GotExpected (α : Type) where
  got : α
  expected : α
  deriving DecidableEq

/-- Why a block is rejected after its execution. -/
inductive ConsensusError
  | blockGasUsed (gas : GotExpected UInt64) (gasSpentByTx : List (ℕ × UInt64))
  | bodyReceiptRootDiff (root : GotExpected B256)
  | bodyBloomLogDiff (bloom : GotExpected Bloom)
  | requestsHashMissing
  | bodyRequestsHashDiff (hash : GotExpected B256)
  deriving DecidableEq

/-- The root of the trie of receipts. -/
def calculateReceiptRoot (receipts : List EthereumReceipt) : B256 :=
  C.orderedTrieRoot (receipts.map fun receipt => C.encodeReceipt receipt (logsBloom C receipt.logs))

/-- The gas that is reported for each transaction in an error. -/
def gasSpentByTransactions (receipts : List EthereumReceipt) : List (ℕ × UInt64) :=
  receipts.zipIdx.map fun (receipt, i) => (i, receipt.cumulativeGasUsed)

/-- The receipts the receipts root is about: those of regular transactions. -/
def receiptsForRoot (receipts : List EthereumReceipt) : List EthereumReceipt :=
  receipts.filter fun receipt => receipt.cumulativeGasUsed != 0

/-- Compares what is calculated with what the header has. -/
def compareReceiptsRootAndLogsBloom (calculatedReceiptsRoot : B256) (calculatedLogsBloom : Bloom)
    (expectedReceiptsRoot : B256) (expectedLogsBloom : Bloom) : Except ConsensusError Unit := do
  if calculatedReceiptsRoot ≠ expectedReceiptsRoot then
    throw (.bodyReceiptRootDiff ⟨calculatedReceiptsRoot, expectedReceiptsRoot⟩)
  if calculatedLogsBloom ≠ expectedLogsBloom then
    throw (.bodyBloomLogDiff ⟨calculatedLogsBloom, expectedLogsBloom⟩)

/-- Verifies the root and the bloom of receipts, which are the regular ones. -/
def verifyReceipts (expectedReceiptsRoot : B256) (expectedLogsBloom : Bloom)
    (receipts : List EthereumReceipt) : Except ConsensusError Unit :=
  let bloom := receipts.foldl (fun bloom receipt => bloom ||| logsBloom C receipt.logs) 0
  compareReceiptsRootAndLogsBloom (calculateReceiptRoot C receipts) bloom expectedReceiptsRoot
    expectedLogsBloom

/-- Validates the requests of a block, if it has any. -/
def validateRequests (block : HlBlock) (chainSpec : ChainSpec) (requests : List Bytes) :
    Except ConsensusError Unit :=
  if chainSpec.isPragueActiveAtTimestamp block.header.inner.timestamp then
    match block.header.inner.requestsHash with
    | none => throw .requestsHashMissing
    | some headerRequestsHash =>
      if C.requestsHash requests ≠ headerRequestsHash then
        throw (.bodyRequestsHashDiff ⟨C.requestsHash requests, headerRequestsHash⟩)
      else pure ()
  else pure ()

/-- Validates a block by what its execution returned. System transactions are left out. -/
def validateBlockPostExecution (block : HlBlock) (chainSpec : ChainSpec)
    (receipts : List EthereumReceipt) (requests : List Bytes) : Except ConsensusError Unit := do
  -- The gas of a block is that of its last receipt; without receipts it is zero.
  let cumulativeGasUsed := (receipts.getLast?.map (·.cumulativeGasUsed)).getD 0
  if block.header.inner.gasUsed ≠ cumulativeGasUsed then
    throw (.blockGasUsed ⟨cumulativeGasUsed, block.header.inner.gasUsed⟩
      (gasSpentByTransactions receipts))
  if chainSpec.isByzantiumActiveAtBlock block.header.inner.number then
    verifyReceipts C block.header.inner.receiptsRoot block.header.inner.logsBloom
      (receiptsForRoot receipts)
  validateRequests C block chainSpec requests

/-- The bloom of receipts is that of all their logs. -/
theorem foldl_receipts_bloom (receipts : List EthereumReceipt) (bloom : Bloom) :
    receipts.foldl (fun bloom receipt => bloom ||| logsBloom C receipt.logs) bloom =
      bloom ||| logsBloom C (receipts.flatMap (·.logs)) := by
  induction receipts generalizing bloom with
  | nil => simp
  | cons receipt receipts ih =>
    rw [List.foldl_cons, ih, List.flatMap_cons, logsBloom_append, BitVec.or_assoc]

/-- Receipts are verified by their root and the bloom of their logs. -/
theorem verifyReceipts_eq_ok {root : B256} {bloom : Bloom} {receipts : List EthereumReceipt} :
    verifyReceipts C root bloom receipts = .ok () ↔
      calculateReceiptRoot C receipts = root ∧ logsBloom C (receipts.flatMap (·.logs)) = bloom := by
  simp only [verifyReceipts, compareReceiptsRootAndLogsBloom, foldl_receipts_bloom]
  by_cases hroot : calculateReceiptRoot C receipts = root
  · by_cases hbloom : logsBloom C (receipts.flatMap (·.logs)) = bloom
    · simp [hroot, hbloom]
      rfl
    · simp only [hroot, hbloom, BitVec.ofNat_eq_ofNat, BitVec.zero_or, ne_eq, not_false_eq_true,
        not_true_eq_false, if_true, if_false, and_false, iff_false]
      exact nofun
  · simp only [hroot, ne_eq, not_false_eq_true, if_true, false_and, iff_false]
    exact nofun

/-- Where Byzantium is active and Prague is not, a block is validated by the gas used, the
    receipts root and the bloom of the logs in its header. -/
theorem validateBlockPostExecution_eq_ok {block : HlBlock} {chainSpec : ChainSpec}
    {receipts : List EthereumReceipt} {requests : List Bytes}
    (hbyzantium : chainSpec.isByzantiumActiveAtBlock block.header.inner.number = true)
    (hprague : chainSpec.isPragueActiveAtTimestamp block.header.inner.timestamp = false) :
    validateBlockPostExecution C block chainSpec receipts requests = .ok () ↔
      block.header.inner.gasUsed = (receipts.getLast?.map (·.cumulativeGasUsed)).getD 0 ∧
        calculateReceiptRoot C (receiptsForRoot receipts) = block.header.inner.receiptsRoot ∧
        logsBloom C ((receiptsForRoot receipts).flatMap (·.logs)) =
          block.header.inner.logsBloom := by
  rw [← verifyReceipts_eq_ok]
  simp only [validateBlockPostExecution, validateRequests, hbyzantium, hprague]
  by_cases hgas : block.header.inner.gasUsed = (receipts.getLast?.map (·.cumulativeGasUsed)).getD 0
  · simp [hgas]
  · simp only [hgas, ne_eq, not_false_eq_true, if_true, false_and, iff_false]
    exact nofun

end Nanoreth
