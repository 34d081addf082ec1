import Nanoreth.Evm.SystemPrefix
import Nanoreth.HlNodeCompliance.Rpc

/-!
# The filtered block

What the stock endpoints would serve if a block consisted of its regular transactions only
(`RecoveredBlock.drop`), or of its system transactions only (`RecoveredBlock.take`). The
loops of the compliant endpoints compute just that:

* the receipts after the count, numbered without the others (`regularInputs_eq`), or with
  the others apart (`splitInputs_eq`), and the receipts up to the first one with gas
  (`systemInputs_eq`);
* the transactions after the count (`adjustTransactions_toRpcBlock`), and those at gas price
  `0` (`systemTransactions_eq`);
* the logs, less the number of logs without gas (`adjustLog_shift`).

If the system transactions of the block come first (`SystemFirst`), the receipts and the
logs of the block are those of its two parts, one after the other (`exists_blockInputs`,
`blockLogs_eq`).
-/

namespace Nanoreth

open Partial Cut

/-! ## Parts of blocks -/

namespace RecoveredBlock

/-- The number of system transactions, as the header has it. -/
abbrev systemTxCount (block : RecoveredBlock) : ℕ := block.block.header.extras.systemTxCount

/-- A block with other transactions. -/
def withTransactions (block : RecoveredBlock) (txs : List TransactionSigned)
    (senders : List Address) (h : senders.length = txs.length) : RecoveredBlock where
  block :=
    { block.block with
      body := { block.block.body with
        inner := { block.block.body.inner with transactions := txs } } }
  senders := senders
  length_senders := h

/-- The block without its first `k` transactions. -/
def drop (k : ℕ) (block : RecoveredBlock) : RecoveredBlock :=
  block.withTransactions (block.block.body.inner.transactions.drop k) (block.senders.drop k)
    (by rw [List.length_drop, List.length_drop, block.length_senders])

/-- The block with its first `k` transactions only. -/
def take (k : ℕ) (block : RecoveredBlock) : RecoveredBlock :=
  block.withTransactions (block.block.body.inner.transactions.take k) (block.senders.take k)
    (by rw [List.length_take, List.length_take, block.length_senders])

variable {block : RecoveredBlock} {k : ℕ}

theorem transactionsRecovered_drop :
    (block.drop k).transactionsRecovered = block.transactionsRecovered.drop k :=
  List.drop_zipWith.symm

theorem transactionsRecovered_take :
    (block.take k).transactionsRecovered = block.transactionsRecovered.take k :=
  List.take_zipWith.symm

/-- The first transactions are dropped with their receipts. -/
theorem zip_drop {receipts : List EthereumReceipt} :
    (block.drop k).transactionsRecovered.zip (receipts.drop k) =
      (block.transactionsRecovered.zip receipts).drop k := by
  rw [transactionsRecovered_drop]
  exact List.drop_zipWith.symm

/-- The first transactions are taken with their receipts. -/
theorem zip_take {receipts : List EthereumReceipt} :
    (block.take k).transactionsRecovered.zip (receipts.take k) =
      (block.transactionsRecovered.zip receipts).take k := by
  rw [transactionsRecovered_take]
  exact List.take_zipWith.symm

theorem length_transactionsRecovered :
    block.transactionsRecovered.length = block.block.body.inner.transactions.length := by
  rw [transactionsRecovered, List.length_zipWith, block.length_senders, Nat.min_self]

/-- The transactions with senders are those of the body. -/
theorem map_tx_transactionsRecovered :
    block.transactionsRecovered.map (·.tx) = block.block.body.inner.transactions := by
  rw [transactionsRecovered, ← List.map_uncurry_zip_eq_zipWith, List.map_map]
  exact List.map_fst_zip block.length_senders.ge

/-- What the receipts without the first ones are converted from. -/
theorem blockInputs_drop {C : Crypto} {receipts : List EthereumReceipt} :
    (block.drop k).blockInputs C (receipts.drop k) = block.block.header.receiptInputs C 0 0 0
      ((block.transactionsRecovered.zip receipts).drop k) := by
  rw [blockInputs, zip_drop]
  rfl

/-- What the first receipts are converted from. -/
theorem blockInputs_take {C : Crypto} {receipts : List EthereumReceipt} :
    (block.take k).blockInputs C (receipts.take k) = block.block.header.receiptInputs C 0 0 0
      ((block.transactionsRecovered.zip receipts).take k) := by
  rw [blockInputs, zip_take]
  rfl

end RecoveredBlock

/-! ## Receipts -/

namespace HlHeader

variable {C : Crypto} {header : HlHeader}

/-- The regular receipts are those of the transactions after the system ones, numbered
    without these. -/
theorem regularInputs_eq (k idx : ℕ) (gasUsed : UInt64) (next : ℕ)
    (pairs : List (Recovered × EthereumReceipt)) :
    header.regularInputs C k idx gasUsed next pairs =
      header.receiptInputs C (idx - k) gasUsed next (pairs.drop (k - idx)) := by
  induction pairs generalizing idx gasUsed next with
  | nil => simp [regularInputs, receiptInputs]
  | cons p rest ih =>
    obtain ⟨tx, receipt⟩ := p
    by_cases hidx : idx < k
    · -- A system transaction: there is one less to drop from the rest.
      rw [regularInputs, if_pos hidx, ih, show k - idx = k - (idx + 1) + 1 by omega,
        List.drop_succ_cons, Nat.sub_eq_zero_of_le hidx.le, Nat.sub_eq_zero_of_le hidx]
    · -- A regular one: nothing is dropped from here on.
      have hsucc : idx + 1 - k = idx - k + 1 := by omega
      rw [regularInputs, if_neg hidx, Nat.sub_eq_zero_of_le (not_lt.1 hidx), List.drop_zero,
        receiptInputs]
      simp only [ih, hsucc, Nat.sub_eq_zero_of_le (show k ≤ idx + 1 by omega), List.drop_zero]

/-- The receipts split by the count are those of the first transactions, and the regular
    ones. -/
theorem splitInputs_eq (k idx : ℕ) (regular system : Cursor)
    (pairs : List (Recovered × EthereumReceipt)) :
    header.splitInputs C k idx regular system pairs = (do
      let systemInputs ← header.receiptInputs C idx system.gasUsed system.nextLogIndex
        (pairs.take (k - idx))
      let regularInputs ← header.receiptInputs C (idx - k) regular.gasUsed regular.nextLogIndex
        (pairs.drop (k - idx))
      return (regularInputs, systemInputs)) := by
  induction pairs generalizing idx regular system with
  | nil => simp [splitInputs, receiptInputs]; rfl
  | cons p rest ih =>
    obtain ⟨tx, receipt⟩ := p
    by_cases hidx : idx < k
    · rw [splitInputs, if_pos hidx, show k - idx = k - (idx + 1) + 1 by omega,
        List.drop_succ_cons, List.take_succ_cons, receiptInputs, Nat.sub_eq_zero_of_le hidx.le]
      simp only [ih, Nat.sub_eq_zero_of_le hidx, bind_assoc, pure_bind, Cursor.advance]
    · have hsucc : idx + 1 - k = idx - k + 1 := by omega
      rw [splitInputs, if_neg hidx, Nat.sub_eq_zero_of_le (not_lt.1 hidx), List.drop_zero,
        List.take_zero, receiptInputs, receiptInputs]
      simp only [ih, hsucc, Nat.sub_eq_zero_of_le (show k ≤ idx + 1 by omega), List.drop_zero,
        List.take_zero, receiptInputs, bind_assoc, pure_bind, Cursor.advance]
      rfl

/-- The receipts up to the first one with gas. -/
theorem systemInputs_eq (idx : ℕ) (gasUsed : UInt64) (next : ℕ)
    (pairs : List (Recovered × EthereumReceipt)) :
    header.systemInputs C idx gasUsed next pairs =
      header.receiptInputs C idx gasUsed next
        (pairs.takeWhile (isSystemReceipt ∘ Prod.snd)) := by
  induction pairs generalizing idx gasUsed next with
  | nil => rfl
  | cons p rest ih =>
    obtain ⟨tx, receipt⟩ := p
    by_cases hgas : receipt.cumulativeGasUsed = 0
    · have hsystem : (isSystemReceipt ∘ Prod.snd) (tx, receipt) = true := beq_iff_eq.2 hgas
      rw [systemInputs, if_neg (not_not_intro hgas), List.takeWhile_cons_of_pos hsystem,
        receiptInputs]
      simp only [ih]
    · rw [systemInputs, if_pos hgas, List.takeWhile_cons_of_neg]
      · rfl
      · simp [isSystemReceipt, hgas]

/-- The conversion of a receipt subtracts the gas before it, and counts its logs for the next one.
    -/
theorem receiptInputs_cons_eq_ok {index next : ℕ} {gasUsed : UInt64} {tx : Recovered}
    {receipt : EthereumReceipt} {rest : List (Recovered × EthereumReceipt)}
    {inputs : List ConvertReceiptInput} :
    header.receiptInputs C index gasUsed next ((tx, receipt) :: rest) = .ok inputs ↔
      gasUsed ≤ receipt.cumulativeGasUsed ∧ ∃ inputs',
        header.receiptInputs C (index + 1) receipt.cumulativeGasUsed
            (next + receipt.logs.length) rest = .ok inputs' ∧
          inputs =
            { receipt := receipt
              tx := tx
              gasUsed := receipt.cumulativeGasUsed - gasUsed
              nextLogIndex := next
              metadata := header.transactionMeta C index tx } :: inputs' := by
  rw [receiptInputs, receiptInput]
  by_cases hgas : gasUsed ≤ receipt.cumulativeGasUsed
  · simp only [checkedSub_of_le hgas, except_bind_eq_ok]
    constructor
    · rintro ⟨input, ⟨gas, hgas', hinput⟩, inputs', hinputs, heq⟩
      cases hgas'
      cases hinput
      cases heq
      exact ⟨hgas, inputs', hinputs, rfl⟩
    · rintro ⟨-, inputs', hinputs, rfl⟩
      exact ⟨_, ⟨_, rfl, rfl⟩, inputs', hinputs, rfl⟩
  · rw [checkedSub, if_neg hgas]
    constructor
    · intro h
      cases h
    · exact fun h => absurd h.1 hgas

/-- The receipts are converted if their gas does not decrease. -/
theorem exists_receiptInputs {pairs : List (Recovered × EthereumReceipt)} {gasUsed : UInt64}
    (hgas : ∀ p ∈ pairs, gasUsed ≤ p.2.cumulativeGasUsed)
    (hsorted : pairs.Pairwise fun p q => p.2.cumulativeGasUsed ≤ q.2.cumulativeGasUsed)
    (index next : ℕ) : ∃ inputs, header.receiptInputs C index gasUsed next pairs = .ok inputs := by
  induction pairs generalizing index gasUsed next with
  | nil => exact ⟨[], rfl⟩
  | cons p rest ih =>
    obtain ⟨tx, receipt⟩ := p
    rw [List.pairwise_cons] at hsorted
    obtain ⟨inputs, hinputs⟩ := ih hsorted.1 hsorted.2 (index + 1) (next + receipt.logs.length)
    exact ⟨_, receiptInputs_cons_eq_ok.2 ⟨hgas _ List.mem_cons_self, inputs, hinputs, rfl⟩⟩

/-- The receipt at an index is converted from that of the transaction at the index. -/
theorem receiptInputs_getElem? {pairs : List (Recovered × EthereumReceipt)} {gasUsed : UInt64}
    {index next : ℕ} {inputs : List ConvertReceiptInput}
    (h : header.receiptInputs C index gasUsed next pairs = .ok inputs) {i : ℕ} {tx : Recovered}
    {receipt : EthereumReceipt} (hi : pairs[i]? = some (tx, receipt)) :
    ∃ input, inputs[i]? = some input ∧ input.tx = tx ∧ input.receipt = receipt ∧
      input.metadata = header.transactionMeta C (index + i) tx := by
  induction pairs generalizing index gasUsed next inputs i with
  | nil => cases hi
  | cons p rest ih =>
    obtain ⟨tx', receipt'⟩ := p
    obtain ⟨-, inputs', hinputs, rfl⟩ := receiptInputs_cons_eq_ok.1 h
    cases i with
    | zero =>
      cases hi
      exact ⟨_, rfl, rfl, rfl, rfl⟩
    | succ i =>
      obtain ⟨input, hget, htx, hreceipt, hmeta⟩ := ih hinputs hi
      exact ⟨input, hget, htx, hreceipt, by rw [hmeta, Nat.add_right_comm, Nat.add_assoc]⟩

end HlHeader

/-- The number of logs of receipts. -/
def logCount (receipts : List EthereumReceipt) : ℕ := (receipts.map (·.logs.length)).sum

/-- A receipt numbered after `txs` more transactions with `logs` more logs. -/
def ConvertReceiptInput.shift (txs logs : ℕ) (input : ConvertReceiptInput) :
    ConvertReceiptInput :=
  { input with
    nextLogIndex := input.nextLogIndex + logs
    metadata := { input.metadata with index := input.metadata.index + txs } }

/-- A log numbered after `txs` more transactions with `logs` more logs. -/
def RpcLog.shift (txs logs : ℕ) (log : RpcLog) : RpcLog :=
  { log with
    transactionIndex := log.transactionIndex.map (· + txs)
    logIndex := log.logIndex.map (· + logs) }

namespace HlHeader

variable {C : Crypto} {header : HlHeader} {xs ys : List (Recovered × EthereumReceipt)}

/-- The conversion depends on the first index by a shift. -/
theorem receiptInputs_shift (k n : ℕ) {gasUsed : UInt64} {index next : ℕ}
    {inputs : List ConvertReceiptInput}
    (h : header.receiptInputs C index gasUsed next xs = .ok inputs) :
    header.receiptInputs C (index + k) gasUsed (next + n) xs =
      .ok (inputs.map (ConvertReceiptInput.shift k n)) := by
  induction xs generalizing index gasUsed next inputs with
  | nil =>
    cases h
    rfl
  | cons p rest ih =>
    obtain ⟨tx, receipt⟩ := p
    obtain ⟨hgas, inputs', hinputs, rfl⟩ := receiptInputs_cons_eq_ok.1 h
    refine receiptInputs_cons_eq_ok.2 ⟨hgas, inputs'.map (.shift k n), ?_, rfl⟩
    rw [Nat.add_right_comm, Nat.add_right_comm next]
    exact ih hinputs

/-- Receipts without gas, and those after them. -/
theorem receiptInputs_append (hxs : ∀ p ∈ xs, p.2.cumulativeGasUsed = 0) {index next : ℕ}
    {inputs inputs' : List ConvertReceiptInput}
    (h : header.receiptInputs C index 0 next xs = .ok inputs)
    (h' : header.receiptInputs C (index + xs.length) 0 (next + logCount (xs.map (·.2))) ys =
      .ok inputs') :
    header.receiptInputs C index 0 next (xs ++ ys) = .ok (inputs ++ inputs') := by
  induction xs generalizing index next inputs with
  | nil =>
    cases h
    exact h'
  | cons p rest ih =>
    obtain ⟨tx, receipt⟩ := p
    have hzero : receipt.cumulativeGasUsed = 0 := hxs _ List.mem_cons_self
    obtain ⟨hgas, inputs₁, hinputs, rfl⟩ := receiptInputs_cons_eq_ok.1 h
    refine receiptInputs_cons_eq_ok.2 ⟨hgas, inputs₁ ++ inputs', ?_, rfl⟩
    -- No gas is used up to here, so that the rest is converted from `0` again.
    rw [hzero] at hinputs ⊢
    refine ih (fun p hp => hxs p (List.mem_cons_of_mem _ hp)) hinputs ?_
    rw [show index + 1 + rest.length = index + ((tx, receipt) :: rest).length by
      rw [List.length_cons]; omega, Nat.add_assoc next]
    exact h'

/-- The logs depend on the first indices by a shift. -/
theorem rpcLogs_shift (k n index next : ℕ) :
    header.rpcLogs C (index + k) (next + n) xs =
      (header.rpcLogs C index next xs).map (RpcLog.shift k n) := by
  induction xs generalizing index next with
  | nil => rfl
  | cons p rest ih =>
    obtain ⟨tx, receipt⟩ := p
    rw [rpcLogs, rpcLogs, List.map_append, List.mapIdx_eq_zipIdx_map, List.mapIdx_eq_zipIdx_map,
      List.map_map, ← ih, Nat.add_right_comm index, Nat.add_right_comm next n]
    congr 2
    funext ⟨log, i⟩
    simp only [Function.comp_apply, RpcLog.shift, rpcLog, Option.map_some,
      Nat.add_right_comm next n]

/-- The logs of later receipts are counted from those before. -/
theorem rpcLogs_append (index next : ℕ) :
    header.rpcLogs C index next (xs ++ ys) = header.rpcLogs C index next xs ++
      header.rpcLogs C (index + xs.length) (next + logCount (xs.map (·.2))) ys := by
  induction xs generalizing index next with
  | nil => rfl
  | cons p rest ih =>
    obtain ⟨tx, receipt⟩ := p
    rw [List.cons_append, rpcLogs, rpcLogs, ih, List.append_assoc,
      show index + 1 + rest.length = index + ((tx, receipt) :: rest).length by
        rw [List.length_cons]; omega, Nat.add_assoc next]
    rfl

/-- What is known of a log of a block. -/
theorem mem_rpcLogs {index next : ℕ} {log : RpcLog} (h : log ∈ header.rpcLogs C index next xs) :
    ∃ i j, log.transactionIndex = some i ∧ log.logIndex = some j ∧
      log.blockNumber = some header.inner.number ∧ index ≤ i ∧ i < index + xs.length := by
  induction xs generalizing index next with
  | nil => cases h
  | cons p rest ih =>
    obtain ⟨tx, receipt⟩ := p
    rw [rpcLogs, List.mem_append, List.mem_mapIdx] at h
    rw [List.length_cons]
    rcases h with ⟨j, hj, rfl⟩ | h
    · exact ⟨index, next + j, rfl, rfl, rfl, le_rfl, by omega⟩
    · obtain ⟨i, j, hi, hj, hnumber, hle, hlt⟩ := ih h
      exact ⟨i, j, hi, hj, hnumber, by omega, by omega⟩

end HlHeader

/-! ## Logs -/

namespace EthApi

/-- The loop counts system receipts, and their logs. -/
theorem foldl_countSystem (receipts : List EthereumReceipt) (counts : ℕ × ℕ) :
    receipts.foldl countSystem counts =
      (counts.1 + receipts.countP isSystemReceipt,
        counts.2 + logCount (receipts.filter isSystemReceipt)) := by
  induction receipts generalizing counts with
  | nil => rfl
  | cons receipt receipts ih =>
    rw [List.foldl_cons, ih, countSystem]
    by_cases hgas : receipt.cumulativeGasUsed = 0
    · have hsystem : isSystemReceipt receipt = true := beq_iff_eq.2 hgas
      rw [if_pos hgas, List.countP_cons_of_pos hsystem, List.filter_cons_of_pos hsystem,
        logCount, logCount, List.map_cons, List.sum_cons, Nat.add_assoc, Nat.add_assoc,
        Nat.add_comm 1]
    · have hsystem : ¬ isSystemReceipt receipt = true := fun h => hgas (beq_iff_eq.1 h)
      rw [if_neg hgas, List.countP_cons_of_neg hsystem, List.filter_cons_of_neg hsystem]

variable {E : Type} {api : EthApi E} {number : UInt64} {receipts : List EthereumReceipt} {k : ℕ}

/-- A log is adjusted by the number of system transactions and that of their logs. -/
theorem adjustLog_eq (hreceipts : api.receiptsByBlock number = .ok (some receipts))
    (hcut : CutAt isSystemReceipt k receipts) {log : RpcLog} {i j : ℕ}
    (hi : log.transactionIndex = some i) (hj : log.logIndex = some j)
    (hnumber : log.blockNumber = some number) :
    api.adjustLog log =
      if k > i then .ok none
      else do
        let i ← checkedSub i k
        let j ← checkedSub j (logCount (receipts.take k))
        return some { log with transactionIndex := some i, logIndex := some j } := by
  rw [adjustLog, hi, hj, hnumber]
  simp only [hreceipts, foldl_countSystem, Nat.zero_add, hcut.countP_eq, hcut.filter_eq]
  rfl

/-- The logs of system transactions are dropped. -/
theorem adjustLog_system (hreceipts : api.receiptsByBlock number = .ok (some receipts))
    (hcut : CutAt isSystemReceipt k receipts) {log : RpcLog} {i j : ℕ}
    (hi : log.transactionIndex = some i) (hj : log.logIndex = some j)
    (hnumber : log.blockNumber = some number) (hik : i < k) : api.adjustLog log = .ok none := by
  rw [adjustLog_eq hreceipts hcut hi hj hnumber, if_pos hik]

/-- The other logs are numbered without them. -/
theorem adjustLog_shift (hreceipts : api.receiptsByBlock number = .ok (some receipts))
    (hcut : CutAt isSystemReceipt k receipts) {log : RpcLog} {i j : ℕ}
    (hi : log.transactionIndex = some i) (hj : log.logIndex = some j)
    (hnumber : log.blockNumber = some number) :
    api.adjustLog (log.shift k (logCount (receipts.take k))) = .ok (some log) := by
  set n := logCount (receipts.take k)
  have hi' : (log.shift k n).transactionIndex = some (i + k) := by rw [RpcLog.shift, hi]; rfl
  have hj' : (log.shift k n).logIndex = some (j + n) := by rw [RpcLog.shift, hj]; rfl
  rw [adjustLog_eq hreceipts hcut hi' hj' hnumber, if_neg (by omega),
    checkedSub_of_le (Nat.le_add_left _ _), checkedSub_of_le (Nat.le_add_left _ _),
    Nat.add_sub_cancel, Nat.add_sub_cancel]
  change Except.ok (some { log with transactionIndex := some i, logIndex := some j }) = _
  rw [← hi, ← hj]

/-! ## Transactions -/

variable {R : Type} {C : Crypto} {V : RpcConvert R} {block : RecoveredBlock}

/-- Dropping the first transactions of a response is the response of the block without them. -/
theorem adjustTransactions_toRpcBlock (hk : k ≤ block.transactionsRecovered.length) (full : Bool) :
    adjustTransactions k (block.toRpcBlock C V full).transactions =
      .ok ((block.drop k).toRpcBlock C V full).transactions := by
  cases full with
  | false =>
    change (do let hashes ← drain k _; return BlockTransactions.hashes hashes) = _
    rw [drain_of_le (by rwa [List.length_map]), ← List.map_drop,
      ← RecoveredBlock.transactionsRecovered_drop]
    rfl
  | true =>
    change (do
      let transactions ← drain k (block.rpcTransactions C V)
      let transactions ← transactions.mapM (renumber k)
      return BlockTransactions.full transactions) = _
    rw [drain_of_le (by rwa [RecoveredBlock.rpcTransactions, List.length_mapIdx]),
      RecoveredBlock.rpcTransactions, drop_mapIdx, List.mapIdx_eq_zipIdx_map]
    change (do
      let transactions ← List.mapM (renumber k) _
      return BlockTransactions.full transactions) = _
    -- The transactions that are left are numbered from `k` on, which is subtracted.
    have hrenumber : (renumber k ∘ fun p : Recovered × ℕ =>
          V.fill p.1 (block.block.header.transactionInfo C (k + p.2) p.1)) =
        fun p => pure (V.fill p.1 (block.block.header.transactionInfo C p.2 p.1)) := by
      funext p
      change (checkedSub (k + p.2) k >>= _) = _
      rw [checkedSub_of_le (Nat.le_add_right _ _), Nat.add_sub_cancel_left]
      rfl
    rw [List.mapM_map, hrenumber, List.mapM_pure, ← RecoveredBlock.transactionsRecovered_drop]
    change Except.ok (BlockTransactions.full _) = Except.ok (BlockTransactions.full _)
    rw [RecoveredBlock.rpcTransactions, List.mapIdx_eq_zipIdx_map]
    rfl

/-- The transactions at gas price `0`, with their index. -/
theorem systemTransactions_eq
    (hcut : CutAt (fun tx => tx.tx.isSystemTransaction) k block.transactionsRecovered) :
    (block.transactionsRecovered.zipIdx.filterMap fun (tx, index) =>
      if tx.tx.isSystemTransaction then
        some (V.fill tx (block.block.header.transactionInfo C index tx))
      else none) = (block.take k).rpcTransactions C V := by
  have hzip : CutAt ((fun tx => tx.tx.isSystemTransaction) ∘ Prod.fst) k
      block.transactionsRecovered.zipIdx := by
    refine CutAt.of_map ?_
    rw [List.zipIdx_map_fst]
    exact hcut
  refine (hzip.filterMap_eq _).trans ?_
  rw [RecoveredBlock.rpcTransactions, RecoveredBlock.transactionsRecovered_take, ← take_mapIdx,
    List.mapIdx_eq_zipIdx_map, List.map_take]
  rfl

end EthApi

/-! ## The filtered block -/

/-- The system transactions of a block are its first ones, whether by the count in its header,
    by their gas price or by the cumulative gas of the receipts, which does not decrease. -/
structure SystemFirst (block : RecoveredBlock) (receipts : List EthereumReceipt) : Prop where
  length_eq : receipts.length = block.block.body.inner.transactions.length
  cut_transactions : CutAt TransactionSigned.isSystemTransaction
    block.systemTxCount block.block.body.inner.transactions
  cut_receipts : CutAt isSystemReceipt block.systemTxCount receipts
  sorted : receipts.Pairwise fun r r' => r.cumulativeGasUsed ≤ r'.cumulativeGasUsed

namespace SystemFirst

variable {block : RecoveredBlock} {receipts : List EthereumReceipt}

theorem map_snd_zip (h : SystemFirst block receipts) :
    (block.transactionsRecovered.zip receipts).map (·.2) = receipts :=
  List.map_snd_zip (by rw [h.length_eq, RecoveredBlock.length_transactionsRecovered])

/-- Receipts are cut at the number of system transactions. -/
theorem cutAt_zip (h : SystemFirst block receipts) :
    CutAt (isSystemReceipt ∘ Prod.snd) block.systemTxCount
      (block.transactionsRecovered.zip receipts) :=
  CutAt.of_map (by rw [h.map_snd_zip]; exact h.cut_receipts)

theorem cutAt_transactionsRecovered (h : SystemFirst block receipts) :
    CutAt (fun tx : Recovered => tx.tx.isSystemTransaction)
      block.systemTxCount block.transactionsRecovered :=
  CutAt.of_map (by rw [RecoveredBlock.map_tx_transactionsRecovered]; exact h.cut_transactions)

/-- The system transactions are those before the cut. -/
theorem isSystemTransaction_iff (h : SystemFirst block receipts) {i : ℕ} {tx : Recovered}
    (htx : block.transactionsRecovered[i]? = some tx) :
    tx.tx.isSystemTransaction = true ↔ i < block.systemTxCount := by
  obtain ⟨hi, rfl⟩ := List.getElem?_eq_some_iff.1 htx
  exact h.cutAt_transactionsRecovered.getElem_iff hi

/-- The receipts of the filtered block and those of the system transactions are converted
    without underflow. Together, they are those of the block. -/
theorem exists_blockInputs (h : SystemFirst block receipts) (C : Crypto) :
    let k := block.systemTxCount
    ∃ regular system,
      (block.drop k).blockInputs C (receipts.drop k) = .ok regular ∧
      (block.take k).blockInputs C (receipts.take k) = .ok system ∧
      block.blockInputs C receipts =
        .ok (system ++ regular.map (.shift k (logCount (receipts.take k)))) := by
  intro k
  set pairs := block.transactionsRecovered.zip receipts with hpairs
  have hsorted : pairs.Pairwise fun p q => p.2.cumulativeGasUsed ≤ q.2.cumulativeGasUsed := by
    have := h.sorted
    rw [← h.map_snd_zip, List.pairwise_map] at this
    exact this
  -- The gas does not decrease in either part, and both start from `0`.
  have hconvert (xs) (hxs : xs.Sublist pairs) :
      ∃ inputs, block.block.header.receiptInputs C 0 0 0 xs = .ok inputs :=
    HlHeader.exists_receiptInputs (fun p _ => UInt64.zero_le) (hsorted.sublist hxs) 0 0
  obtain ⟨regular, hregular⟩ := hconvert _ (List.drop_sublist k pairs)
  obtain ⟨system, hsystem⟩ := hconvert _ (List.take_sublist k pairs)
  refine ⟨regular, system, ?_, ?_, ?_⟩
  · rw [RecoveredBlock.blockInputs_drop]
    exact hregular
  · rw [RecoveredBlock.blockInputs_take]
    exact hsystem
  · have hlogs : logCount ((pairs.take k).map (·.2)) = logCount (receipts.take k) := by
      rw [List.map_take, h.map_snd_zip]
    rw [RecoveredBlock.blockInputs, ← hpairs, ← List.take_append_drop k pairs]
    refine HlHeader.receiptInputs_append (fun p hp => beq_iff_eq.1 (h.cutAt_zip.take p hp))
      hsystem ?_
    rw [hlogs, List.length_take_of_le h.cutAt_zip.le_length]
    exact HlHeader.receiptInputs_shift _ _ hregular

/-- The logs of a block are those of its system transactions, and then those of the filtered
    block. -/
theorem blockLogs_eq (h : SystemFirst block receipts) (C : Crypto) :
    let k := block.systemTxCount
    block.blockLogs C receipts = (block.take k).blockLogs C (receipts.take k) ++
      ((block.drop k).blockLogs C (receipts.drop k)).map
        (.shift k (logCount (receipts.take k))) := by
  intro k
  rw [RecoveredBlock.blockLogs, RecoveredBlock.blockLogs, RecoveredBlock.blockLogs,
    RecoveredBlock.zip_drop, RecoveredBlock.zip_take]
  conv_lhs => rw [← List.take_append_drop k (block.transactionsRecovered.zip receipts)]
  rw [HlHeader.rpcLogs_append, List.map_take, h.map_snd_zip,
    List.length_take_of_le h.cutAt_zip.le_length, HlHeader.rpcLogs_shift]
  rfl

end SystemFirst

end Nanoreth
