import Nanoreth.HlNodeCompliance.Filtered

/-!
# The endpoints agree

A client of `hl-node` may ask for a block, its transactions, receipts and logs in several
ways. On a canonical block whose system transactions come first, the compliant endpoints
serve one and the same filtered block, and the other ones the rest of it
(`endpoints_agree`). So do the handlers of the requests (`ServesFiltered`).
-/

namespace Nanoreth

open Partial Cut

namespace EthApi

variable {E R : Type} {C : Crypto} {V : RpcConvert R}

/-- The node has a block and its receipts under an id. -/
structure Serves (api : EthApi E) (id : BlockId) (block : RecoveredBlock)
    (receipts : List EthereumReceipt) : Prop where
  blockById : api.blockById id = .ok (some block.block)
  headerById : api.headerById id = .ok (some block.block.header)
  recoveredBlock : api.recoveredBlock id = .ok (some block)
  loadBlockAndReceipts : api.loadBlockAndReceipts id = .ok (some (block, receipts))

/-- A block is the one the node has under its hash and its number. -/
structure Canonical (C : Crypto) (api : EthApi E) (block : RecoveredBlock)
    (receipts : List EthereumReceipt) : Prop where
  byHash : api.Serves (.hash (block.block.header.hash C)) block receipts
  byNumber : api.Serves (.number (.number block.block.header.inner.number)) block receipts
  receiptsByBlock : api.receiptsByBlock block.block.header.inner.number = .ok (some receipts)

variable {api : EthApi E} {id : BlockId} {block : RecoveredBlock} {receipts : List EthereumReceipt}

/-- The count is that of the header. -/
theorem Serves.systemTxCountForBlock (h : api.Serves id block receipts) :
    api.systemTxCountForBlock id = .ok (some block.systemTxCount) := by
  rw [EthApi.systemTxCountForBlock, h.headerById]
  rfl

/-- A block is adjusted to the filtered one, but for its size. -/
theorem Canonical.adjustBlock (h : api.Canonical C block receipts)
    (hfirst : SystemFirst block receipts) (full : Bool) :
    api.adjustBlock (block.toRpcBlock C V full) = .ok (some
      { (block.drop block.systemTxCount).toRpcBlock C V full with
        size := V.size block.block }) := by
  have hcount : api.systemTxCountForBlock
      (.number (.number (block.toRpcBlock C V full).number)) = .ok (some _) :=
    h.byNumber.systemTxCountForBlock
  rw [EthApi.adjustBlock, hcount]
  change (Except.mapError _ (adjustTransactions _ _) >>= _) = _
  rw [adjustTransactions_toRpcBlock hfirst.cutAt_transactionsRecovered.le_length]
  rfl

/-- The transactions of the filtered block are counted. -/
theorem Serves.blockTransactionCount (h : api.Serves id block receipts)
    (hfirst : SystemFirst block receipts) :
    api.blockTransactionCount true id =
      .ok (some (block.drop block.systemTxCount).transactionCount) := by
  have hle := hfirst.cutAt_transactionsRecovered.le_length
  have hcount : block.transactionCount - BitVec.ofNat 256 block.systemTxCount =
      (block.drop block.systemTxCount).transactionCount := by
    rw [RecoveredBlock.transactionCount, RecoveredBlock.transactionCount,
      RecoveredBlock.transactionsRecovered_drop, List.length_drop, BitVec.sub_eq_iff_eq_add,
      ← BitVec.ofNat_add, Nat.sub_add_cancel hle]
  rw [EthApi.blockTransactionCount, h.recoveredBlock, h.systemTxCountForBlock, ← hcount]
  rfl

/-! ## Receipts -/

section Receipts

variable {regular system : List ConvertReceiptInput}

/-- The receipts are adjusted to those of the filtered block. -/
theorem Serves.adjustBlockReceipts (h : api.Serves id block receipts)
    (hregular : (block.drop block.systemTxCount).blockInputs C
      (receipts.drop block.systemTxCount) = .ok regular) :
    api.adjustBlockReceipts C V id =
      .ok (some (block.systemTxCount, regular.map V.convertReceipt)) := by
  rw [RecoveredBlock.blockInputs_drop] at hregular
  rw [EthApi.adjustBlockReceipts, h.systemTxCountForBlock, h.loadBlockAndReceipts]
  change (Except.mapError _ (block.block.header.regularInputs _ _ _ _ _ _) >>= _) = _
  rw [HlHeader.regularInputs_eq, Nat.zero_sub, Nat.sub_zero, hregular]
  rfl

/-- The receipts are split into those of the filtered block and those of the system
    transactions. -/
theorem Serves.blockReceiptsWithSystemTxs (h : api.Serves id block receipts)
    (hregular : (block.drop block.systemTxCount).blockInputs C
      (receipts.drop block.systemTxCount) = .ok regular)
    (hsystem : (block.take block.systemTxCount).blockInputs C
      (receipts.take block.systemTxCount) = .ok system) :
    api.blockReceiptsWithSystemTxs C V id = .ok (some
      { receipts := regular.map V.convertReceipt
        systemTxReceipts := system.map V.convertReceipt }) := by
  rw [RecoveredBlock.blockInputs_drop] at hregular
  rw [RecoveredBlock.blockInputs_take] at hsystem
  rw [EthApi.blockReceiptsWithSystemTxs, h.systemTxCountForBlock, h.loadBlockAndReceipts]
  change (Except.mapError _ (block.block.header.splitInputs _ _ _ _ _ _) >>= _) = _
  rw [HlHeader.splitInputs_eq, Nat.zero_sub, Nat.sub_zero, hregular, hsystem]
  rfl

/-- The receipts of the system transactions are those of a block of these only. -/
theorem Serves.getSystemTxsReceiptsByBlockId (h : api.Serves id block receipts)
    (hfirst : SystemFirst block receipts)
    (hsystem : (block.take block.systemTxCount).blockInputs C
      (receipts.take block.systemTxCount) = .ok system) :
    api.getSystemTxsReceiptsByBlockId C V id = .ok (some (system.map V.convertReceipt)) := by
  rw [RecoveredBlock.blockInputs_take] at hsystem
  rw [EthApi.getSystemTxsReceiptsByBlockId, h.loadBlockAndReceipts]
  change (Except.mapError _ (block.block.header.systemInputs _ _ _ _ _) >>= _) = _
  rw [HlHeader.systemInputs_eq, hfirst.cutAt_zip.takeWhile_eq, hsystem]
  rfl

/-- The receipt of a transaction is looked up in the filtered block. -/
theorem Canonical.adjustTransactionReceipt (h : api.Canonical C block receipts)
    (hregular : (block.drop block.systemTxCount).blockInputs C
      (receipts.drop block.systemTxCount) = .ok regular)
    {txHash : B256} {i : ℕ} {tx : Recovered} {receipt : EthereumReceipt}
    (hload : api.loadTransactionAndReceipt txHash =
      .ok (some (tx, block.block.header.transactionMeta C i tx, receipt))) :
    api.adjustTransactionReceipt C V txHash =
      .ok (if i < block.systemTxCount then none
        else (regular.map V.convertReceipt)[i - block.systemTxCount]?) := by
  rw [EthApi.adjustTransactionReceipt, hload]
  change (api.adjustBlockReceipts C V (.hash (block.block.header.hash C)) >>= _) = _
  rw [h.byHash.adjustBlockReceipts hregular]
  change (if i < block.systemTxCount then pure none else pure _) = _
  split
  · rfl
  · rfl

end Receipts

/-! ## System transactions -/

/-- The system transactions are those that come first. -/
theorem Serves.getSystemTxsByBlockId (h : api.Serves id block receipts)
    (hfirst : SystemFirst block receipts) :
    api.getSystemTxsByBlockId C V id =
      .ok (some ((block.take block.systemTxCount).rpcTransactions C V)) := by
  rw [EthApi.getSystemTxsByBlockId, h.recoveredBlock,
    ← systemTransactions_eq hfirst.cutAt_transactionsRecovered]
  rfl

/-! ## Logs -/

/-- The logs of the system transactions are dropped, and the others are those of the filtered
    block. -/
theorem Canonical.adjustLog (h : api.Canonical C block receipts)
    (hfirst : SystemFirst block receipts) :
    List.Forall₂ (fun log adjusted => api.adjustLog log = .ok adjusted)
      (block.blockLogs C receipts)
      (((block.take block.systemTxCount).blockLogs C
          (receipts.take block.systemTxCount)).map (fun _ => none) ++
        ((block.drop block.systemTxCount).blockLogs C
          (receipts.drop block.systemTxCount)).map some) := by
  rw [hfirst.blockLogs_eq C]
  refine List.rel_append ?_ ?_
  · rw [List.forall₂_map_right_iff, List.forall₂_same]
    intro log hlog
    obtain ⟨i, j, hi, hj, hnumber, -, hlt⟩ := HlHeader.mem_rpcLogs hlog
    rw [RecoveredBlock.zip_take, Nat.zero_add,
      List.length_take_of_le hfirst.cutAt_zip.le_length] at hlt
    exact adjustLog_system h.receiptsByBlock hfirst.cut_receipts hi hj hnumber hlt
  · rw [List.forall₂_map_left_iff, List.forall₂_map_right_iff, List.forall₂_same]
    intro log hlog
    obtain ⟨i, j, hi, hj, hnumber, -, -⟩ := HlHeader.mem_rpcLogs hlog
    exact adjustLog_shift h.receiptsByBlock hfirst.cut_receipts hi hj hnumber

/-- A log is dropped if and only if it is one of a system transaction. -/
theorem Canonical.adjustLog_eq_none_iff (h : api.Canonical C block receipts)
    (hfirst : SystemFirst block receipts) {log : RpcLog} (hlog : log ∈ block.blockLogs C receipts)
    {i : ℕ} (hi : log.transactionIndex = some i) :
    api.adjustLog log = .ok none ↔ i < block.systemTxCount := by
  constructor
  · intro hnone
    rw [hfirst.blockLogs_eq C, List.mem_append] at hlog
    rcases hlog with hlog | hlog
    · obtain ⟨i', _, hi', -, -, -, hlt⟩ := HlHeader.mem_rpcLogs hlog
      rw [RecoveredBlock.zip_take, Nat.zero_add,
        List.length_take_of_le hfirst.cutAt_zip.le_length] at hlt
      rw [hi, Option.some.injEq] at hi'
      rwa [hi']
    · obtain ⟨log', hlog', rfl⟩ := List.mem_map.1 hlog
      obtain ⟨_, _, hi', hj', hnumber, -, -⟩ := HlHeader.mem_rpcLogs hlog'
      rw [adjustLog_shift h.receiptsByBlock hfirst.cut_receipts hi' hj' hnumber] at hnone
      cases hnone
  · intro hlt
    obtain ⟨i', j, hi', hj, hnumber, -, -⟩ := HlHeader.mem_rpcLogs hlog
    exact adjustLog_system h.receiptsByBlock hfirst.cut_receipts hi hj hnumber hlt

/-! ## Handlers -/

section Handlers

variable {regular system : List ConvertReceiptInput}

/-- What the handlers serve of a block: the filtered block, its receipts and its logs for compliant
    requests, and the system transactions and their receipts if these are asked for. -/
structure ServesFiltered (C : Crypto) (V : RpcConvert R) (api : EthApi E) (id : BlockId)
    (block : RecoveredBlock) (receipts : List EthereumReceipt)
    (regular system : List ConvertReceiptInput) : Prop where
  rpcBlock : ∀ full, api.rpcBlock C V true id full = .ok (some
    { (block.drop block.systemTxCount).toRpcBlock C V full with size := V.size block.block })
  blockReceipts : api.blockReceipts C V true id = .ok (some (regular.map V.convertReceipt))
  blockReceiptsWithSystemTx : api.blockReceiptsWithSystemTx C V id = .ok (some
    { receipts := regular.map V.convertReceipt
      systemTxReceipts := system.map V.convertReceipt })
  logs : api.logs true (block.blockLogs C receipts) =
    .ok ((block.drop block.systemTxCount).blockLogs C (receipts.drop block.systemTxCount))
  getEvmSystemTxs : api.getEvmSystemTxsByBlockNumber C V (some id) =
    .ok (some ((block.take block.systemTxCount).rpcTransactions C V))
  getEvmSystemTxsReceipts : api.getEvmSystemTxsReceiptsByBlockNumber C V (some id) =
    .ok (some (system.map V.convertReceipt))
  byHash : ∀ hash, id = .hash hash →
    api.getEvmSystemTxsByBlockHash C V hash =
        .ok (some ((block.take block.systemTxCount).rpcTransactions C V)) ∧
      api.getEvmSystemTxsReceiptsByBlockHash C V hash =
        .ok (some (system.map V.convertReceipt))
  byNumber : ∀ number, id = .number number →
    api.blockTransactionCountByNumber true number =
      .ok (some (block.drop block.systemTxCount).transactionCount)

/-- A compliant request for a block is served the filtered one, by hash and by number. -/
theorem Canonical.rpcBlock (h : api.Canonical C block receipts)
    (hserves : api.Serves id block receipts) (hfirst : SystemFirst block receipts) (full : Bool) :
    api.rpcBlock C V true id full = .ok (some
      { (block.drop block.systemTxCount).toRpcBlock C V full with
        size := V.size block.block }) := by
  rw [EthApi.rpcBlock, hserves.recoveredBlock]
  exact h.adjustBlock hfirst full

/-- A compliant request for the receipts of a block is served those of the filtered one. -/
theorem Serves.blockReceipts (h : api.Serves id block receipts)
    (hregular : (block.drop block.systemTxCount).blockInputs C
      (receipts.drop block.systemTxCount) = .ok regular) :
    api.blockReceipts C V true id = .ok (some (regular.map V.convertReceipt)) := by
  rw [EthApi.blockReceipts, h.blockById]
  change (api.adjustBlockReceipts C V id >>= _) = _
  rw [h.adjustBlockReceipts hregular]
  rfl

/-- A compliant request for the logs of a block is served those of the filtered one. -/
theorem Canonical.logs (h : api.Canonical C block receipts)
    (hfirst : SystemFirst block receipts) :
    api.logs true (block.blockLogs C receipts) =
      .ok ((block.drop block.systemTxCount).blockLogs C (receipts.drop block.systemTxCount)) := by
  rw [EthApi.logs, if_pos rfl, filterMapM_eq_of_forall₂ (h.adjustLog hfirst),
    List.filterMap_append, List.filterMap_map, List.filterMap_map, List.filterMap_eq_nil_iff.2,
    List.nil_append]
  · exact congrArg _ List.filterMap_some
  · exact fun _ _ => rfl

/-- A canonical block is served as it is after the filter. -/
theorem Canonical.servesFiltered (h : api.Canonical C block receipts)
    (hserves : api.Serves id block receipts) (hfirst : SystemFirst block receipts)
    (hregular : (block.drop block.systemTxCount).blockInputs C
      (receipts.drop block.systemTxCount) = .ok regular)
    (hsystem : (block.take block.systemTxCount).blockInputs C
      (receipts.take block.systemTxCount) = .ok system) :
    ServesFiltered C V api id block receipts regular system := by
  have htxs : api.getSystemTxsByBlockId C V id = _ := hserves.getSystemTxsByBlockId hfirst
  have hreceipts : api.getSystemTxsReceiptsByBlockId C V id = _ :=
    hserves.getSystemTxsReceiptsByBlockId hfirst hsystem
  refine ⟨h.rpcBlock hserves hfirst, hserves.blockReceipts hregular, ?_, h.logs hfirst, ?_, ?_, ?_,
    ?_⟩
  · rw [EthApi.blockReceiptsWithSystemTx, hserves.blockById]
    exact hserves.blockReceiptsWithSystemTxs hregular hsystem
  · rw [EthApi.getEvmSystemTxsByBlockNumber, Option.getD_some, htxs]
    rfl
  · rw [EthApi.getEvmSystemTxsReceiptsByBlockNumber, Option.getD_some, hreceipts]
    rfl
  · rintro hash rfl
    rw [EthApi.getEvmSystemTxsByBlockHash, EthApi.getEvmSystemTxsReceiptsByBlockHash, htxs,
      hreceipts]
    exact ⟨rfl, rfl⟩
  · rintro number rfl
    exact hserves.blockTransactionCount hfirst

end Handlers

end EthApi

open EthApi

variable {E R : Type} {C : Crypto} {V : RpcConvert R} {api : EthApi E} {id : BlockId}
  {block : RecoveredBlock} {receipts : List EthereumReceipt}

/-- All endpoints are about the same filtered block. Let the system transactions of a canonical
    block come first, by the count of its header, their gas price and the gas of the receipts.
    Then the compliant endpoints serve what the stock ones would serve if the block consisted
    of its other transactions only, up to the size of the block. They subtract without
    underflow. The receipt of a transaction is that of the transaction, and none if it is a
    system one; a log is dropped if and only if it is one of a system transaction.

    The other endpoints serve what the stock ones would serve if the block consisted of its
    system transactions only. The handlers of the requests serve the same. -/
theorem endpoints_agree (hfirst : SystemFirst block receipts)
    (hcanonical : api.Canonical C block receipts) (hserves : api.Serves id block receipts) :
    let count := block.systemTxCount
    let filtered := block.drop count
    let system := block.take count
    ∃ regularInputs systemInputs,
      filtered.blockInputs C (receipts.drop count) = .ok regularInputs ∧
      system.blockInputs C (receipts.take count) = .ok systemInputs ∧
      block.blockInputs C receipts =
        .ok (systemInputs ++ regularInputs.map (.shift count (logCount (receipts.take count)))) ∧
      (∀ full, api.adjustBlock (block.toRpcBlock C V full) =
        .ok (some { filtered.toRpcBlock C V full with size := V.size block.block })) ∧
      api.blockTransactionCount true id = .ok (some filtered.transactionCount) ∧
      api.adjustBlockReceipts C V id =
        .ok (some (count, regularInputs.map V.convertReceipt)) ∧
      api.blockReceiptsWithSystemTxs C V id = .ok (some
        { receipts := regularInputs.map V.convertReceipt
          systemTxReceipts := systemInputs.map V.convertReceipt }) ∧
      (∀ i tx receipt, block.transactionsRecovered[i]? = some tx → receipts[i]? = some receipt →
        api.loadTransactionAndReceipt (tx.tx.txHash C) =
          .ok (some (tx, block.block.header.transactionMeta C i tx, receipt)) →
        if tx.tx.isSystemTransaction then
          api.adjustTransactionReceipt C V (tx.tx.txHash C) = .ok none
        else ∃ input, regularInputs[i - count]? = some input ∧ input.tx = tx ∧
          input.receipt = receipt ∧
          input.metadata = block.block.header.transactionMeta C (i - count) tx ∧
          api.adjustTransactionReceipt C V (tx.tx.txHash C) =
            .ok (some (V.convertReceipt input))) ∧
      List.Forall₂ (fun log adjusted => api.adjustLog log = .ok adjusted)
        (block.blockLogs C receipts)
        ((system.blockLogs C (receipts.take count)).map (fun _ => none) ++
          (filtered.blockLogs C (receipts.drop count)).map some) ∧
      (∀ log ∈ block.blockLogs C receipts, ∀ i tx, log.transactionIndex = some i →
        block.transactionsRecovered[i]? = some tx →
        (api.adjustLog log = .ok none ↔ tx.tx.isSystemTransaction = true)) ∧
      api.getSystemTxsByBlockId C V id = .ok (some (system.rpcTransactions C V)) ∧
      api.getSystemTxsReceiptsByBlockId C V id =
        .ok (some (systemInputs.map V.convertReceipt)) ∧
      ServesFiltered C V api id block receipts regularInputs systemInputs := by
  intro count filtered system
  obtain ⟨regularInputs, systemInputs, hregular, hsystem, hall⟩ := hfirst.exists_blockInputs C
  refine ⟨regularInputs, systemInputs, hregular, hsystem, hall, hcanonical.adjustBlock hfirst,
    hserves.blockTransactionCount hfirst, hserves.adjustBlockReceipts hregular,
    hserves.blockReceiptsWithSystemTxs hregular hsystem, fun i tx receipt htx hreceipt hload => ?_,
    hcanonical.adjustLog hfirst, fun log hlog i tx hi htx => ?_,
    hserves.getSystemTxsByBlockId hfirst, hserves.getSystemTxsReceiptsByBlockId hfirst hsystem,
    hcanonical.servesFiltered hserves hfirst hregular hsystem⟩
  -- A receipt of its own. The index of a regular transaction is counted from the cut, which is
  -- where the inputs of the filtered block have it.
  · have hk : tx.tx.isSystemTransaction = true ↔ i < count :=
      hfirst.isSystemTransaction_iff htx
    have hadjust := hcanonical.adjustTransactionReceipt (V := V) hregular hload
    split
    · next hsystem =>
      rw [hadjust, if_pos (hk.1 hsystem)]
    · next hsystem =>
      have hle : count ≤ i := not_lt.1 (mt hk.2 hsystem)
      have hpair : ((block.transactionsRecovered.zip receipts).drop count)[i - count]? =
          some (tx, receipt) := by
        rw [List.getElem?_drop, Nat.add_sub_cancel' hle, List.getElem?_zip_eq_some]
        exact ⟨htx, hreceipt⟩
      rw [RecoveredBlock.blockInputs_drop] at hregular
      obtain ⟨input, hget, hinput⟩ := HlHeader.receiptInputs_getElem? hregular hpair
      rw [Nat.zero_add] at hinput
      refine ⟨input, hget, hinput.1, hinput.2.1, hinput.2.2, ?_⟩
      rw [hadjust, if_neg (not_lt.2 hle), List.getElem?_map, hget]
      rfl
  · rw [hfirst.isSystemTransaction_iff htx]
    exact hcanonical.adjustLog_eq_none_iff hfirst hlog hi

/-- The receipts of a system transaction and a regular one, each with a log. -/
def mixedReceipts : List EthereumReceipt :=
  [{ txType := .legacy, success := true, cumulativeGasUsed := 0, logs := [⟨0xbeef, [], []⟩] },
   { txType := .legacy, success := true, cumulativeGasUsed := 21000, logs := [⟨0xbeef, [], []⟩] }]

/-- The block of `mixedTxs`. -/
def mixedRecovered : RecoveredBlock where
  block :=
    { header :=
        { inner := { (default : Header) with number := 5000000 }
          extras := { logsBloomWithSystemTxs := 0, systemTxCount := 1 } }
      body :=
        { inner := { transactions := mixedTxs.map (·.tx), ommers := [], withdrawals := none }
          sidecars := none
          readPrecompileCalls := none
          highestPrecompileAddress := none } }
  senders := mixedTxs.map (·.signer)
  length_senders := rfl

/-- The conversions, on legacy transactions and the block above. -/
def mixedConvert : RpcConvert ConvertReceiptInput where
  effectiveGasPrice tx _ := tx.gasPrice.getD 0
  convertReceipt input := input
  size _ := 841

/-- A node with a single block. -/
def singleBlock (C : Crypto) (block : RecoveredBlock) (receipts : List EthereumReceipt) :
    EthApi Unit where
  blockById _ := .ok (some block.block)
  headerById _ := .ok (some block.block.header)
  receiptsByBlock _ := .ok (some receipts)
  recoveredBlock _ := .ok (some block)
  loadBlockAndReceipts _ := .ok (some (block, receipts))
  loadTransactionAndReceipt txHash := .ok do
    let ((tx, receipt), i) ← (block.transactionsRecovered.zip receipts).zipIdx.find?
      fun ((tx, _), _) => tx.tx.txHash C = txHash
    return (tx, block.block.header.transactionMeta C i tx, receipt)

/-- The compliant block has one transaction, with a receipt of its own. -/
theorem endpoints_agree_mixedBlock :
    let api := singleBlock mixedCrypto mixedRecovered mixedReceipts
    api.blockTransactionCount true (.number .latest) = .ok (some 1) ∧
    api.getSystemTxsByBlockId mixedCrypto mixedConvert (.number .latest) =
      .ok (some ((mixedRecovered.take 1).rpcTransactions mixedCrypto mixedConvert)) ∧
    ∃ input, input.tx = emptyTransfer 1 ∧ input.metadata.index = 0 ∧
      api.adjustTransactionReceipt mixedCrypto mixedConvert
        0xe71b0ed05a46b70a3641ea82ae70e68c4eb69ec5b8bdb104d8664138be08a008 = .ok (some input) := by
  intro api
  have hserves (id) : api.Serves id mixedRecovered mixedReceipts := ⟨rfl, rfl, rfl, rfl⟩
  have hfirst : SystemFirst mixedRecovered mixedReceipts :=
    ⟨rfl, ⟨by decide, by decide, by decide⟩, ⟨by decide, by decide, by decide⟩, by decide⟩
  obtain ⟨_, _, -, -, -, -, hcount, -, -, hreceipt, -, -, hsystem, -⟩ := endpoints_agree
    (C := mixedCrypto) (V := mixedConvert) hfirst ⟨hserves _, hserves _, rfl⟩
    (hserves (.number .latest))
  obtain ⟨input, -, htx, -, hmeta, hserved⟩ := hreceipt 1 (emptyTransfer 1) _ rfl rfl rfl
  exact ⟨hcount, hsystem, input, htx, by rw [hmeta]; rfl, hserved⟩

end Nanoreth
