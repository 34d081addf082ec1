import Nanoreth.Evm.Accounting
import Nanoreth.Consensus.PostExecution
import Nanoreth.Types.RoundTrip
import Nanoreth.Lib.Cut
import Mathlib.Algebra.Order.BigOperators.Group.List
import Mathlib.Algebra.Order.Ring.Nat

/-!
# System transactions come first

The node tells the system transactions of a block in three ways: by the count in the
header, by their gas price, and by the cumulative gas of their receipts. Blocks are cut
at the same place by all of them:

* a converted block has its system transactions first, as many as its header counts
  (`cutAt_transactions`);
* if the system transactions of a block come first, and the others use some gas, the
  receipts without cumulative gas are theirs (`Accounts.cutAt_receipts`).

So everything that is computed from the system transactions, or without them, is about
the same ones (`system_transactions_agree`).
-/

namespace Nanoreth

open Transition HlBlockExecutor Partial Cut

variable {E : Type} {transact : Transact E} {env : SpotEnv} {fuel : ℕ} {C : Crypto}
  {chainId : UInt64}

/-! ## Transactions -/

/-- A converted system transaction keeps its gas price. -/
theorem gasPrice_systemTxToRethTransaction {blockNumber : UInt64} {stx : SystemTx}
    {tx : TransactionSigned} {cache cache' : SpotCache}
    (h : systemTxToRethTransaction env fuel chainId blockNumber stx cache = .ok (tx, cache')) :
    tx.gasPrice = stx.tx.gasPrice := by
  unfold systemTxToRethTransaction at h
  cases htx : stx.tx with
  | legacy payload =>
    simp only [htx] at h
    cases htarget : payload.target with
    | create => simp only [htarget] at h; cases h
    | call target =>
      simp only [htarget, bind_eq_ok, pure_eq_ok, Prod.mk.injEq] at h
      obtain ⟨s, _, _, rfl, _⟩ := h
      rfl
  | eip2930 | eip1559 | eip4844 | eip7702 =>
    simp only [htx] at h
    cases h

/-- A converted block has its system transactions first, as many as its header counts. -/
theorem cutAt_transactions {b : BlockAndReceipts} {block : HlBlock} {cache cache' : SpotCache}
    (hsystem : ∀ stx ∈ retainedSystemTxs b.systemTxs, stx.tx.gasPrice = some 0)
    (hregular : ∀ tx ∈ b.sealedBlock.body.transactions, tx.toRethTransaction.gasPrice ≠ some 0)
    (hblock : b.toRethBlock env fuel C chainId cache = .ok (block, cache')) :
    CutAt TransactionSigned.isSystemTransaction block.header.extras.systemTxCount
      block.body.inner.transactions := by
  simp only [BlockAndReceipts.toRethBlock, SealedBlock.toRethBlock, bind_eq_ok, pure_eq_ok,
    Prod.mk.injEq] at hblock
  obtain ⟨systemTransactions, _, hsys, rfl, _⟩ := hblock
  obtain ⟨hlen, hmem⟩ := results_of_mapM hsys
  change CutAt _ (retainedSystemTxs b.systemTxs).length _
  rw [← hlen]
  refine cutAt_append (fun tx htx => ?_) fun tx htx => ?_
  · obtain ⟨stx, hstx, _, _, hconv⟩ := hmem tx htx
    rw [TransactionSigned.isSystemTransaction, gasPrice_systemTxToRethTransaction hconv,
      hsystem stx hstx]
    rfl
  · obtain ⟨tx', htx', rfl⟩ := List.mem_map.1 htx
    exact beq_eq_false_iff_ne.2 (hregular tx' htx')

/-! ## Receipts -/

/-- Whether a receipt is one of a system transaction, by its cumulative gas. -/
def isSystemReceipt (receipt : EthereumReceipt) : Bool := receipt.cumulativeGasUsed == 0

/-- The header of a stored block, as the migration recomputes it from its receipts
    (`migrate.rs`). -/
def toHlHeader (C : Crypto) (receipts : List EthereumReceipt) (ethHeader : Header) : HlHeader :=
  let systemTxCount := (receipts.filter isSystemReceipt).length
  .fromEthereumHeader C ethHeader receipts systemTxCount

/-- The receipts for the root are those of regular transactions. -/
theorem receiptsForRoot_eq {receipts : List EthereumReceipt} :
    receiptsForRoot receipts = receipts.filter fun receipt => !isSystemReceipt receipt := rfl

/-- System transactions use no regular gas. -/
theorem regularGas_eq_zero {txs : List (Recovered × ResultAndState)}
    (h : ∀ p ∈ txs, p.1.tx.isSystemTransaction = true) : regularGas txs = 0 := by
  rw [regularGas, List.filter_eq_nil_iff.2]
  · rfl
  · intro p hp
    simp [h p hp]

/-- The gas of a regular transaction counts. -/
theorem le_regularGas {txs : List (Recovered × ResultAndState)} {p : Recovered × ResultAndState}
    (hp : p ∈ txs) (hregular : p.1.tx.isSystemTransaction = false) :
    p.2.result.gasUsed.toNat ≤ regularGas txs := by
  refine List.le_sum_of_mem (List.mem_map_of_mem (List.mem_filter.2 ⟨hp, ?_⟩))
  rw [hregular]
  rfl

/-- Whether a committed transaction is a system one. -/
def isSystemCommitted (p : Recovered × ResultAndState) : Bool := p.1.tx.isSystemTransaction

/-- If the system transactions come first, and the others use some gas, the receipts
    without cumulative gas are those of the system transactions. -/
theorem Accounts.cutAt_receipts {txs : List (Recovered × ResultAndState)} {ex : HlBlockExecutor}
    (h : Accounts txs ex) {k : ℕ} (hcut : CutAt isSystemCommitted k txs)
    (hgas : ∀ p ∈ txs, p.1.tx.isSystemTransaction = false → 0 < p.2.result.gasUsed) :
    CutAt isSystemReceipt k ex.receipts := by
  refine cutAt_iff_getElem.2 ⟨hcut.le_length.trans h.length_eq.ge, fun i hi' => ?_⟩
  have hi : i < txs.length := h.length_eq ▸ hi'
  obtain ⟨gas, hreceipt, heq⟩ := h.receipt i txs[i].1 txs[i].2 (List.getElem?_eq_getElem hi)
  rw [(List.getElem?_eq_some_iff.1 hreceipt).2]
  have hzero : isSystemReceipt (buildReceipt txs[i].1.tx txs[i].2.result gas) = true ↔
      gas.toNat = 0 := by
    simp [isSystemReceipt, buildReceipt, ← UInt64.toNat_inj]
  rw [hzero, heq]
  constructor
  · intro hsum
    by_contra hk
    -- The transaction is a regular one, so that its gas is in the sum.
    have hregular : txs[i].1.tx.isSystemTransaction = false := by
      rw [← Bool.not_eq_true]
      exact fun hsystem => hk ((hcut.getElem_iff hi).1 hsystem)
    have hmem : txs[i] ∈ txs.take (i + 1) := List.mem_take_iff_getElem.2 ⟨i, by omega, rfl⟩
    have hle := le_regularGas hmem hregular
    have hpos := hgas txs[i] (List.getElem_mem hi) hregular
    rw [UInt64.lt_iff_toNat_lt, UInt64.toNat_zero] at hpos
    omega
  · intro hk
    refine regularGas_eq_zero fun p hp => hcut.take p ?_
    exact (List.take_subset_take_left txs (show i + 1 ≤ k by omega)) hp

/-! ## The cut -/

/-- The three ways to tell the system transactions of a block agree. Let the system
    transactions of a block on the wire be at gas price `0`, and the others not, and let an
    executor commit the transactions of the converted block, the regular ones using some
    gas. Then the system transactions are those at the indices below the count in the
    header, those at gas price `0`, and those whose receipts have no cumulative gas.

    Hence the transactions root, the receipts root, the block served to other nodes and the
    count recomputed by the migration are all about the same transactions. -/
theorem system_transactions_agree (hbounded : transact.GasBounded) {b : BlockAndReceipts}
    {block : HlBlock} {cache cache' : SpotCache}
    (hsystem : ∀ stx ∈ retainedSystemTxs b.systemTxs, stx.tx.gasPrice = some 0)
    (hregular : ∀ tx ∈ b.sealedBlock.body.transactions, tx.toRethTransaction.gasPrice ≠ some 0)
    (hblock : b.toRethBlock env fuel C chainId cache = .ok (block, cache'))
    {ex₀ ex : HlBlockExecutor} {attempts : List (Attempt E)} (hinit : (driver C transact).init ex₀)
    (hrun : Run (driver C transact) ex₀ attempts ex)
    (htxs : (committed attempts).map (·.1.tx) = block.body.inner.transactions)
    (hgas : ∀ p ∈ committed attempts, p.1.tx.isSystemTransaction = false →
      0 < p.2.result.gasUsed) :
    let count := block.header.extras.systemTxCount
    let txs := block.body.inner.transactions
    let served := BlockAndReceipts.fromDb C block ex.receipts
    ex.receipts.length = txs.length ∧
      (∀ i tx receipt, txs[i]? = some tx → ex.receipts[i]? = some receipt →
        (i < count ↔ tx.isSystemTransaction = true) ∧
          (tx.isSystemTransaction = true ↔ receipt.cumulativeGasUsed = 0)) ∧
      block.body.transactionsForRoot = txs.drop count ∧
      receiptsForRoot ex.receipts = ex.receipts.drop count ∧
      served.systemTxs =
        List.zipWith (servedSystemTx C) (txs.take count) (ex.receipts.take count) ∧
      served.sealedBlock.body.transactions = (txs.drop count).map .fromNodeTx ∧
      served.receipts = (ex.receipts.drop count).map (·.toLegacyReceipt) ∧
      ∀ ethHeader, (toHlHeader C ex.receipts ethHeader).extras.systemTxCount = count := by
  intro count txs served
  have haccounts := accounts_of_run hbounded hinit hrun
  -- The block is cut by the pseudo peer, and the receipts by execution, at the same place.
  have hcutTxs : CutAt TransactionSigned.isSystemTransaction count txs :=
    cutAt_transactions hsystem hregular hblock
  have hcutReceipts : CutAt isSystemReceipt count ex.receipts :=
    haccounts.cutAt_receipts (CutAt.of_map (by rw [htxs]; exact hcutTxs)) hgas
  have hlen : ex.receipts.length = txs.length := by
    rw [haccounts.length_eq, ← List.length_map (·.1.tx), htxs]
  refine ⟨hlen, fun i tx receipt htx hreceipt => ?_, hcutTxs.filter_not_eq,
    hcutReceipts.filter_not_eq,
    BlockAndReceipts.fromDb_systemTxs hcutTxs.le_length hcutReceipts.le_length,
    BlockAndReceipts.fromDb_transactions hcutTxs.le_length,
    BlockAndReceipts.fromDb_receipts hcutReceipts.le_length, fun ethHeader => ?_⟩
  · obtain ⟨hi, rfl⟩ := List.getElem?_eq_some_iff.1 htx
    obtain ⟨hi', rfl⟩ := List.getElem?_eq_some_iff.1 hreceipt
    have hzero := hcutReceipts.getElem_iff hi'
    rw [isSystemReceipt, beq_iff_eq] at hzero
    rw [hzero]
    exact ⟨(hcutTxs.getElem_iff hi).symm, hcutTxs.getElem_iff hi⟩
  · change (ex.receipts.filter isSystemReceipt).length = count
    rw [← List.countP_eq_length_filter, hcutReceipts.countP_eq]

/-- A block with a native transfer and a regular one. -/
def mixedBlock : BlockAndReceipts where
  block := .reth115
    { header := { hash := 0, header := { (default : Header) with number := 5000000 } }
      body :=
        { transactions := [.fromNodeTx (emptyTransfer 1).tx], ommers := [], withdrawals := none } }
  receipts := [{ txType := .legacy, success := true, cumulativeGasUsed := 21000, logs := [] }]
  systemTxs :=
    [{ tx := CompatTransactionSigned.extractTransaction (emptyTransfer 0).tx
       receipt := some { txType := .legacy, success := true, cumulativeGasUsed := 0, logs := [] }
       fromAddress := none }]
  readPrecompileCalls := []
  highestPrecompileAddress := none

/-- The transactions of the converted block. -/
def mixedTxs : List Recovered :=
  [⟨fabricated
      { chainId := some 999
        nonce := 0
        gasPrice := 0
        gasLimit := 21000
        target := .call 0xbeef
        value := 0
        input := [] } 1, hypeSystemAddress⟩,
   emptyTransfer 1]

/-- The hashes of the block and its transactions; the latter have different gas prices. -/
def mixedCrypto : Crypto :=
  { emptyCrypto with
    txHash := fun tx =>
      if tx.gasPrice = some 0 then
        0x172b50f3c0e4edaaaaa4eee52708dba788128d42510ebb1ef016527da90371b4
      else 0xe71b0ed05a46b70a3641ea82ae70e68c4eb69ec5b8bdb104d8664138be08a008
    hashSlow := fun _ => 0xa8bb3184b9986ec67157157afedb3d80f8c375f132fd460229c03b857c7c3aaa }

theorem system_transactions_agree_mixedBlock : ∃ block ex₀ attempts ex,
    mixedBlock.toRethBlock noTokens 0 mixedCrypto 999 emptyCache = .ok (block, emptyCache) ∧
    start (transferEvm 30000000) transferCtx = .ok ex₀ ∧
    attemptAll mixedCrypto transferTransact ex₀ mixedTxs = (attempts, ex) ∧
    block.header.extras.systemTxCount = 1 ∧
    block.body.transactionsForRoot = block.body.inner.transactions.drop 1 ∧
    receiptsForRoot ex.receipts = ex.receipts.drop 1 ∧
    ∀ ethHeader, (toHlHeader mixedCrypto ex.receipts ethHeader).extras.systemTxCount = 1 := by
  have hblock : mixedBlock.toRethBlock noTokens 0 mixedCrypto 999 emptyCache =
    .ok (_, emptyCache) := rfl
  have hstart : start (transferEvm 30000000) transferCtx = .ok _ := rfl
  have h := system_transactions_agree gasBounded_transferTransact (fun stx hstx => ?_)
    (fun tx htx => ?_) hblock ⟨_, _, hstart⟩ (run_attemptAll _ mixedTxs) rfl ?_
  · exact ⟨_, _, _, _, hblock, hstart, rfl, rfl, h.2.2.1, h.2.2.2.1, h.2.2.2.2.2.2.2⟩
  · obtain rfl := List.mem_singleton.1 hstx
    rfl
  · obtain rfl := List.mem_singleton.1 htx
    decide
  · decide

end Nanoreth
