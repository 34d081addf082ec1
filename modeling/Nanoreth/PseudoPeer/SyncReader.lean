import Nanoreth.PseudoPeer.Sources
import Nanoreth.Types.RoundTrip

/-!
# Reading blocks to serve

A sync server reads a block and its receipts from the database of its node, and puts them in the
format of the wire (`addons/sync_server.rs`, `types/mod.rs`). The transactions and the receipts
are split by the count of system transactions in the header, each list by itself: a list with
fewer elements than that is not split at all. The system transactions are then paired with their
receipts.

So if only one of the lists is split, its first elements are paired with nothing, and are not
served (`payloads_fromDb_of_lt`, `mergedReceipts_fromDb_of_lt`). This is the only way to lose a
transaction or a receipt (`fromDb_lossless_iff`).
-/

namespace Nanoreth

/-- The payloads of the transactions of a block. -/
def HlBlock.payloads (block : HlBlock) : List Transaction :=
  block.body.inner.transactions.map CompatTransactionSigned.extractTransaction

/-- A list that is not long enough is not split. -/
theorem splitSystem_of_lt {α : Type} {count : ℕ} {xs : List α} (h : xs.length < count) :
    splitSystem count xs = ([], xs) :=
  if_neg fun hle => absurd hle.2 (Nat.not_le.2 h)

theorem transaction_fromNodeTx (tx : TransactionSigned) :
    (CompatTransactionSigned.fromNodeTx tx).transaction =
      CompatTransactionSigned.extractTransaction tx := by
  obtain ⟨inner⟩ := tx
  cases inner <;> rfl

/-- The served system transactions are those of the block. -/
theorem map_tx_served (C : Crypto) {txs : List TransactionSigned} {receipts : List EthereumReceipt}
    (hlen : txs.length = receipts.length) :
    (List.zipWith (servedSystemTx C) txs receipts).map (·.tx) =
      txs.map CompatTransactionSigned.extractTransaction := by
  calc (List.zipWith (servedSystemTx C) txs receipts).map (·.tx)
      = ((txs.zip receipts).map (·.1)).map CompatTransactionSigned.extractTransaction := by
        rw [← List.map_uncurry_zip_eq_zipWith, List.map_map, List.map_map]
        rfl
    _ = _ := by rw [List.map_fst_zip hlen.le]

namespace BlockAndReceipts

/-- The payloads of the transactions of a block on the wire, the system ones first. -/
def payloads (b : BlockAndReceipts) : List Transaction :=
  b.systemTxs.map (·.tx) ++ b.sealedBlock.body.transactions.map (·.transaction)

variable {C : Crypto} {block : HlBlock} {receipts : List EthereumReceipt}

/-! ## What is served -/

/-- There are no system transactions if one of the lists is not split. -/
theorem systemTxs_fromDb_of_lt
    (h : block.body.inner.transactions.length < block.header.extras.systemTxCount ∨
      receipts.length < block.header.extras.systemTxCount) :
    (fromDb C block receipts).systemTxs = [] := by
  rcases h with h | h
  · simp only [fromDb, splitSystem_of_lt h, List.zip_nil_left, List.map_nil]
  · simp only [fromDb, splitSystem_of_lt h, List.zip_nil_right, List.map_nil]

/-- If the count exceeds the transactions, all of them are served as regular ones. -/
theorem transactions_fromDb_of_lt
    (h : block.body.inner.transactions.length < block.header.extras.systemTxCount) :
    (fromDb C block receipts).sealedBlock.body.transactions =
      block.body.inner.transactions.map .fromNodeTx := by
  simp only [fromDb, sealedBlock, splitSystem_of_lt h]

theorem receipts_fromDb_of_lt (h : receipts.length < block.header.extras.systemTxCount) :
    (fromDb C block receipts).receipts = receipts.map (·.toLegacyReceipt) := by
  simp only [fromDb, splitSystem_of_lt h]

/-- The receipts served, when there are no system transactions. -/
theorem mergedReceipts_of_nil {b : BlockAndReceipts} {rs : List EthereumReceipt}
    (hsystem : b.systemTxs = []) (hreceipts : b.receipts = rs.map (·.toLegacyReceipt)) :
    b.mergedReceipts = rs := by
  rw [mergedReceipts, mergeReceipts, hsystem, hreceipts, map_toEthereumReceipt_toLegacyReceipt]
  rfl

/-- Without system transactions, the payloads are those of the regular ones. -/
theorem payloads_of_nil {b : BlockAndReceipts} {txs : List TransactionSigned}
    (hsystem : b.systemTxs = []) (htxs : b.sealedBlock.body.transactions = txs.map .fromNodeTx) :
    b.payloads = txs.map CompatTransactionSigned.extractTransaction := by
  rw [payloads, hsystem, htxs, List.map_map]
  exact List.map_congr_left fun tx _ => transaction_fromNodeTx tx

/-- The transactions are served, in order and payload, unless only they are split. -/
theorem payloads_fromDb
    (h : block.header.extras.systemTxCount ≤ block.body.inner.transactions.length →
      block.header.extras.systemTxCount ≤ receipts.length) :
    (fromDb C block receipts).payloads = block.payloads := by
  rcases Nat.lt_or_ge block.body.inner.transactions.length block.header.extras.systemTxCount
    with hlt | hle
  · exact payloads_of_nil (systemTxs_fromDb_of_lt (.inl hlt)) (transactions_fromDb_of_lt hlt)
  · have hlen : (block.body.inner.transactions.take block.header.extras.systemTxCount).length =
        (receipts.take block.header.extras.systemTxCount).length := by
      rw [List.length_take_of_le hle, List.length_take_of_le (h hle)]
    rw [payloads, fromDb_systemTxs hle (h hle), fromDb_transactions hle, map_tx_served C hlen,
      List.map_map]
    calc _ = (block.body.inner.transactions.take block.header.extras.systemTxCount).map
              CompatTransactionSigned.extractTransaction ++
            (block.body.inner.transactions.drop block.header.extras.systemTxCount).map
              CompatTransactionSigned.extractTransaction :=
          congrArg _ (List.map_congr_left fun tx _ => transaction_fromNodeTx tx)
      _ = block.payloads := by rw [← List.map_append, List.take_append_drop]; rfl

/-- The first transactions are not served if only they are split. -/
theorem payloads_fromDb_of_lt
    (htxs : block.header.extras.systemTxCount ≤ block.body.inner.transactions.length)
    (hreceipts : receipts.length < block.header.extras.systemTxCount) :
    (fromDb C block receipts).payloads =
      block.payloads.drop block.header.extras.systemTxCount := by
  rw [payloads_of_nil (systemTxs_fromDb_of_lt (.inr hreceipts)) (fromDb_transactions htxs),
    HlBlock.payloads, List.map_drop]

/-- The receipts are served, in order, unless only they are split. -/
theorem mergedReceipts_fromDb
    (h : block.header.extras.systemTxCount ≤ receipts.length →
      block.header.extras.systemTxCount ≤ block.body.inner.transactions.length) :
    (fromDb C block receipts).mergedReceipts = receipts := by
  rcases Nat.lt_or_ge receipts.length block.header.extras.systemTxCount with hlt | hle
  · exact mergedReceipts_of_nil (systemTxs_fromDb_of_lt (.inr hlt)) (receipts_fromDb_of_lt hlt)
  · have hlen : (block.body.inner.transactions.take block.header.extras.systemTxCount).length =
        (receipts.take block.header.extras.systemTxCount).length := by
      rw [List.length_take_of_le hle, List.length_take_of_le (h hle)]
    rw [mergedReceipts, mergeReceipts, fromDb_systemTxs (h hle) hle, retained_served,
      receipts_served hlen, fromDb_receipts hle, map_toEthereumReceipt_toLegacyReceipt,
      List.take_append_drop]

/-- The first receipts are not served if only they are split. -/
theorem mergedReceipts_fromDb_of_lt
    (htxs : block.body.inner.transactions.length < block.header.extras.systemTxCount)
    (hreceipts : block.header.extras.systemTxCount ≤ receipts.length) :
    (fromDb C block receipts).mergedReceipts =
      receipts.drop block.header.extras.systemTxCount :=
  mergedReceipts_of_nil (systemTxs_fromDb_of_lt (.inl htxs)) (fromDb_receipts hreceipts)

end BlockAndReceipts

/-- A list is not what is left of it without its first elements. -/
theorem drop_ne_self {α : Type} {n : ℕ} {xs : List α} (hpos : 0 < n) (h : n ≤ xs.length) :
    xs.drop n ≠ xs := by
  intro heq
  have hlen := congrArg List.length heq
  rw [List.length_drop] at hlen
  omega

/-- A sync server reads what the database has for a number. What it serves then has all
    transactions of the block, in order and payload, and all receipts, if and only if the
    transactions and the receipts are both as many as the system transactions, or both fewer. -/
theorem fromDb_lossless_iff (C : Crypto) (block : HlBlock) (receipts : List EthereumReceipt) :
    let count := block.header.extras.systemTxCount
    let served := BlockAndReceipts.fromDb C block receipts
    (∀ (provider : SyncProvider) (number : UInt64),
      provider.blockByNumber number = .ok (some block) →
      provider.receiptsByBlock number = .ok (some receipts) →
      provider.readBlockAndReceipts C number = .ok served) ∧
    (served.payloads = block.payloads ∧ served.mergedReceipts = receipts ↔
      (count ≤ block.body.inner.transactions.length ↔ count ≤ receipts.length)) := by
  intro count served
  refine ⟨fun provider number hblock hreceipts => ?_, fun ⟨hpayloads, hmerged⟩ => ?_, fun h => ?_⟩
  · rw [SyncProvider.readBlockAndReceipts, hblock]
    change (provider.receiptsByBlock number >>= _) = _
    rw [hreceipts]
    rfl
  · have hlength : block.payloads.length = block.body.inner.transactions.length := List.length_map _
    constructor
    · intro htxs
      -- If the count exceeds what is there, dropping takes everything, and something was there.
      by_contra hlt
      rw [BlockAndReceipts.payloads_fromDb_of_lt htxs (Nat.not_le.1 hlt)] at hpayloads
      exact drop_ne_self (by omega) (hlength ▸ htxs) hpayloads
    · intro hreceipts
      by_contra hlt
      rw [BlockAndReceipts.mergedReceipts_fromDb_of_lt (Nat.not_le.1 hlt) hreceipts] at hmerged
      exact drop_ne_self (by omega) hreceipts hmerged
  · exact ⟨BlockAndReceipts.payloads_fromDb h.1, BlockAndReceipts.mergedReceipts_fromDb h.2⟩

/-- A native transfer, as it is stored. -/
def storedTransfer : TransactionSigned :=
  fabricated
    { chainId := some testnetChainId
      nonce := 0
      gasPrice := 0
      gasLimit := 200000
      target := .call senderRecoveryToken
      value := 0
      input := [] } 1

/-- A block that counts one system transaction. -/
def countingOne (transactions : List TransactionSigned) : HlBlock where
  header := ⟨{ (default : Header) with number := 56000000 }, ⟨0, 1⟩⟩
  body := ⟨⟨transactions, [], none⟩, none, some [], none⟩

/-- The system transaction of a block is not served if its receipt is not there, and neither is a
    receipt if the transaction is not. -/
theorem fromDb_loses :
    (BlockAndReceipts.fromDb transferCrypto (countingOne [storedTransfer]) []).payloads = [] ∧
    (countingOne [storedTransfer]).payloads ≠ [] ∧
    (BlockAndReceipts.fromDb transferCrypto (countingOne [])
      [{ txType := .legacy, success := true, cumulativeGasUsed := 0, logs := [] }]).mergedReceipts =
      [] := by
  refine ⟨rfl, ?_, rfl⟩
  exact List.cons_ne_nil _ _

end Nanoreth
