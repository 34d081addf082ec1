import Nanoreth.Evm.Executor

/-!
# Gas accounting

The gas used by a block is that of its regular transactions. The executor checks a
transaction against what is left of the gas limit of the block before it executes
it, so that, if the EVM keeps to the gas limits of the transactions, its machine
arithmetic is exact: the invariant `Accounts` holds along every run.

* `Accounts.step`: an attempt preserves the invariant;
* `gas_accounting`: the invariant, and what it means for the next attempt and for
  the outcome of the block.
-/

namespace Nanoreth

open Transition HlBlockExecutor

variable {E : Type} {C : Crypto} {transact : Transact E}

/-- The gas used by the regular transactions among `txs`. -/
def regularGas (txs : List (Recovered × ResultAndState)) : ℕ :=
  ((txs.filter fun p => !p.1.tx.isSystemTransaction).map fun p => p.2.result.gasUsed.toNat).sum

theorem regularGas_append (txs txs' : List (Recovered × ResultAndState)) :
    regularGas (txs ++ txs') = regularGas txs + regularGas txs' := by
  simp [regularGas]

theorem regularGas_singleton (tx : Recovered) (output : ResultAndState) :
    regularGas [(tx, output)] =
      if tx.tx.isSystemTransaction then 0 else output.result.gasUsed.toNat := by
  cases h : tx.tx.isSystemTransaction <;> simp [regularGas, h]

/-- The invariant of an executor that committed the transactions `txs`. -/
structure Accounts (txs : List (Recovered × ResultAndState)) (ex : HlBlockExecutor) : Prop where
  gas_le : ex.gasUsed ≤ ex.evm.block.gasLimit
  gas_eq : ex.gasUsed.toNat = regularGas txs
  length_eq : ex.receipts.length = txs.length
  /-- There is one receipt for each transaction, in order. -/
  receipt : ∀ i tx output, txs[i]? = some (tx, output) →
    ∃ gas : UInt64, ex.receipts[i]? = some (buildReceipt tx.tx output.result gas) ∧
      gas.toNat = regularGas (txs.take (i + 1))

namespace Accounts

variable {txs : List (Recovered × ResultAndState)} {ex : HlBlockExecutor}

/-- What is left of the gas limit is the difference: it does not underflow. -/
theorem toNat_available (h : Accounts txs ex) :
    (ex.evm.block.gasLimit - ex.gasUsed).toNat =
      ex.evm.block.gasLimit.toNat - ex.gasUsed.toNat :=
  UInt64.toNat_sub_of_le _ _ h.gas_le

/-- The gas of a transaction that fits in the block is added exactly. -/
theorem add_gas (h : Accounts txs ex) {limit gas : UInt64}
    (hlimit : limit ≤ ex.evm.block.gasLimit - ex.gasUsed) (hgas : gas ≤ limit) :
    (ex.gasUsed + gas).toNat = ex.gasUsed.toNat + gas.toNat ∧
      ex.gasUsed + gas ≤ ex.evm.block.gasLimit := by
  have hle := h.gas_le
  have havailable := h.toNat_available
  rw [UInt64.le_iff_toNat_le] at hlimit hgas hle
  have hadd : (ex.gasUsed + gas).toNat = ex.gasUsed.toNat + gas.toNat := by
    rw [UInt64.toNat_add]
    have := ex.evm.block.gasLimit.toNat_lt
    exact Nat.mod_eq_of_lt (by omega)
  rw [UInt64.le_iff_toNat_le]
  omega

/-- Committing a transaction that was executed, in any environment made of it, extends the
    accounts. -/
theorem commit (h : Accounts txs ex) (hbounded : transact.GasBounded) {tx : Recovered}
    {env : HlTxEnv} {output : ResultAndState} (henv : env.tx = tx.tx)
    (hlimit : tx.tx.gasLimit ≤ ex.evm.block.gasLimit - ex.gasUsed)
    (houtput : ex.evm.transact transact env = .ok output) :
    Accounts (txs ++ [(tx, output)]) (commitTransaction ex output tx).2 := by
  have hgas : output.result.gasUsed ≤ tx.tx.gasLimit := henv ▸ hbounded _ _ _ _ _ houtput
  obtain ⟨hadd, hle⟩ := h.add_gas hlimit hgas
  have hused : (commitTransaction ex output tx).2.gasUsed.toNat =
      regularGas (txs ++ [(tx, output)]) := by
    rw [commitTransaction_gasUsed, regularGas_append, regularGas_singleton, ← h.gas_eq]
    split_ifs
    · rfl
    · exact hadd
  refine ⟨?_, hused, ?_, fun i tx' output' hi => ?_⟩
  · rw [commitTransaction_gasUsed, commitTransaction_block]
    split_ifs
    · exact h.gas_le
    · exact hle
  · rw [commitTransaction_receipts, List.length_append, List.length_append, h.length_eq]
    rfl
  · rw [commitTransaction_receipts]
    rcases Nat.lt_or_ge i txs.length with hlt | hge
    · -- An earlier transaction keeps its receipt.
      rw [List.getElem?_append_left hlt] at hi
      obtain ⟨gas, hreceipt, hgas⟩ := h.receipt i tx' output' hi
      refine ⟨gas, ?_, ?_⟩
      · rw [List.getElem?_append_left (by rwa [h.length_eq])]
        exact hreceipt
      · rw [List.take_append_of_le_length hlt]
        exact hgas
    · -- The last receipt is that of the transaction.
      rw [List.getElem?_append_right hge] at hi
      obtain ⟨hi₀, hi⟩ := List.getElem?_eq_some_iff.1 hi
      obtain rfl : i = txs.length := by simp at hi₀; omega
      simp only [Nat.sub_self, List.getElem_cons_zero, Prod.mk.injEq] at hi
      obtain ⟨rfl, rfl⟩ := hi
      refine ⟨(commitTransaction ex output tx).2.gasUsed, ?_, ?_⟩
      · rw [List.getElem?_append_right h.length_eq.le, h.length_eq, Nat.sub_self]
        rfl
      · rw [List.take_of_length_le (by simp)]
        exact hused

/-- The logs of the receipts are those of the transactions. -/
theorem map_logs (h : Accounts txs ex) :
    ex.receipts.map (·.logs) = txs.map (·.2.result.intoLogs) := by
  refine List.ext_getElem (by simp [h.length_eq]) fun i hi hi' => ?_
  rw [List.length_map] at hi'
  obtain ⟨gas, hreceipt, -⟩ := h.receipt i txs[i].1 txs[i].2 (List.getElem?_eq_getElem hi')
  rw [List.getElem_map, List.getElem_map, (List.getElem?_eq_some_iff.1 hreceipt).2]
  rfl

/-- The gas used by the block is the cumulative gas of the last receipt. -/
theorem finish_gasUsed (h : Accounts txs ex) :
    ex.finish.2.gasUsed = ((ex.finish.2.receipts.getLast?).map (·.cumulativeGasUsed)).getD 0 := by
  change ex.gasUsed = (ex.receipts.getLast?.map (·.cumulativeGasUsed)).getD 0
  rcases txs.eq_nil_or_concat with rfl | ⟨txs', ⟨tx, output⟩, rfl⟩
  · rw [List.length_eq_zero_iff.1 h.length_eq]
    exact UInt64.toNat.inj h.gas_eq
  · have hlen : ex.receipts.length = txs'.length + 1 := by simpa using h.length_eq
    obtain ⟨gas, hreceipt, hgas⟩ := h.receipt txs'.length tx output (by simp)
    rw [List.getLast?_eq_getElem?, hlen, Nat.add_sub_cancel, hreceipt]
    rw [List.take_of_length_le (by simp), ← h.gas_eq] at hgas
    exact UInt64.toNat.inj hgas.symm

/-- A step of the driver extends the accounts by what it commits. -/
theorem step (h : Accounts txs ex) (hbounded : transact.GasBounded) {a : Attempt E}
    {ex' : HlBlockExecutor} (hstep : (driver C transact).step ex a ex') :
    Accounts (txs ++ committed [a]) ex' := by
  obtain ⟨tx, outcome⟩ := a
  rcases attempt_cases hstep with ⟨error, rfl, rfl⟩ | ⟨output, rfl, hlimit, houtput, rfl⟩
  · simpa using h
  · exact h.commit hbounded rfl hlimit houtput

end Accounts

/-- The executor starts without any gas used. -/
theorem accounts_init {ex : HlBlockExecutor} (h : (driver C transact).init ex) :
    Accounts [] ex := by
  obtain ⟨evm, ctx, hstart⟩ := h
  rw [start_eq] at hstart
  cases hp : applyPrecompilesWithForwarder evm.block.number ctx.extras ctx.readPrecompileForwarder
      evm.precompiles with
  | error e => rw [hp] at hstart; cases hstart
  | ok precompiles =>
    rw [hp] at hstart
    cases hstart
    refine ⟨?_, ?_, ?_, fun i tx output hi => absurd hi (by simp)⟩
    · rw [deployCorewriterContract_gasUsed]
      exact UInt64.zero_le
    · rw [deployCorewriterContract_gasUsed]
      rfl
    · rw [deployCorewriterContract_receipts]
      rfl

/-- The accounts of the executor are exact along every run. -/
theorem accounts_of_run (hbounded : transact.GasBounded) {ex₀ ex : HlBlockExecutor}
    {attempts : List (Attempt E)} (hinit : (driver C transact).init ex₀)
    (hrun : Run (driver C transact) ex₀ attempts ex) : Accounts (committed attempts) ex := by
  refine hrun.invariant (P := fun as ex => Accounts (committed as) ex) (accounts_init hinit) ?_
  intro as ex a ex' h hstep
  rw [committed_append]
  exact h.step hbounded hstep

/-- Gas accounting. Let the EVM never report more gas than the limit of the transaction.
    After any attempts at transactions, the block has used no more gas than its limit, so
    that what is left of it is computed exactly, and so is the gas used after another
    transaction. There is a receipt for each committed transaction, in order, with the
    gas of the regular ones up to it. A transaction that does not fit is rejected, which
    changes nothing. The gas used by the block is that of the last receipt. -/
theorem gas_accounting (hbounded : transact.GasBounded) {ex₀ ex : HlBlockExecutor}
    {attempts : List (Attempt E)} (hinit : (driver C transact).init ex₀)
    (hrun : Run (driver C transact) ex₀ attempts ex) :
    Accounts (committed attempts) ex ∧
      (ex.evm.block.gasLimit - ex.gasUsed).toNat =
        ex.evm.block.gasLimit.toNat - ex.gasUsed.toNat ∧
      (∀ tx output ex', ex.attempt C transact tx = (.ok output, ex') →
        (ex.gasUsed + output.result.gasUsed).toNat =
          ex.gasUsed.toNat + output.result.gasUsed.toNat) ∧
      (∀ tx, ex.evm.block.gasLimit.toNat < ex.gasUsed.toNat + tx.tx.gasLimit.toNat →
        ∃ error, ex.attempt C transact tx = (.error error, ex)) ∧
      (∀ tx error ex', ex.attempt C transact tx = (.error error, ex') → ex' = ex) ∧
      ex.finish.2.receipts = ex.receipts ∧
      ex.finish.2.gasUsed = (ex.receipts.getLast?.map (·.cumulativeGasUsed)).getD 0 := by
  have h := accounts_of_run hbounded hinit hrun
  refine ⟨h, h.toNat_available, fun tx output ex' hstep => ?_, fun tx hlimit => ?_,
    fun tx error ex' hstep => ?_, rfl, h.finish_gasUsed⟩
  · rcases attempt_cases hstep with ⟨_, houtcome, -⟩ | ⟨_, houtcome, hlimit, houtput, -⟩
    · cases houtcome
    · cases houtcome
      exact (h.add_gas hlimit (hbounded _ _ _ _ _ houtput)).1
  · cases hstep : ex.attempt C transact tx with
    | mk outcome ex' =>
      rcases attempt_cases hstep with ⟨error, rfl, rfl⟩ | ⟨_, -, hfits, -, -⟩
      · exact ⟨error, rfl⟩
      -- A limit above what is left cannot fit, so the attempt failed.
      · have hle := h.gas_le
        rw [UInt64.le_iff_toNat_le] at hfits hle
        rw [h.toNat_available] at hfits
        omega
  · rcases attempt_cases hstep with ⟨_, -, hex⟩ | ⟨_, houtcome, -, -, -⟩
    · exact hex
    · cases houtcome

/-- The EVM on transfers of nothing, in a block whose base fee is the gas price: the
    caller pays for the gas, and its nonce is incremented. -/
def transferTransact : Transact Unit := fun db _ _ tx =>
  let info := ((db tx.caller).map (·.info)).getD default
  let fee : U256 := 21000 * (tx.tx.gasPrice.getD 0).setWidth 256
  if tx.tx.gasLimit < 21000 then .error ()
  else .ok
    { result := .success 21000 []
      state := Function.update (fun _ => none) tx.caller (some
        { info := { info with nonce := info.nonce + 1, balance := info.balance - fee }
          storage := fun _ => none
          isTouched := true
          isSelfdestructed := false
          isCreated := false }) }

/-- A transfer uses no more than its gas limit. -/
theorem gasBounded_transferTransact : transferTransact.GasBounded := by
  intro db block precompiles tx output h
  unfold transferTransact at h
  split_ifs at h with hlimit
  cases h
  exact UInt64.not_lt.1 hlimit

/-- A transfer of nothing, at a gas price. -/
def emptyTransfer (gasPrice : U128) : Recovered where
  tx := ⟨.legacy
    { tx :=
        { chainId := some 999
          nonce := 0
          gasPrice := gasPrice
          gasLimit := 21000
          target := .call 0xbeef
          value := 0
          input := [] }
      signature := ⟨1, 0xcafe, true⟩ }⟩
  signer := 0xcafe

/-- A block of the gas limit `gasLimit`, in which the sender of the transfers has some
    balance. -/
def transferEvm (gasLimit : UInt64) : Evm where
  db := Function.update (fun _ => none) 0xcafe
    (some ⟨{ (default : AccountInfo) with balance := 1000000000000000000 }, fun _ => 0⟩)
  block :=
    { number := 5000000
      beneficiary := 0
      timestamp := 1748000000
      difficulty := 0
      prevrandao := some 0
      gasLimit := gasLimit
      basefee := 1
      blobExcessGas := some 0 }
  precompiles := fun _ => none

/-- A block without recorded calls. -/
def transferCtx : HlBlockExecutionCtx := ⟨⟨0, some 0, none⟩, ⟨none, none⟩, none⟩

/-- The functions of the dependencies, where nothing is hashed but an empty trie. -/
def emptyCrypto : Crypto where
  txHash _ := 0
  recoverSigner _ := some 0xcafe
  hashSlow _ := 0
  logBloom _ := 0
  encodeTx _ := []
  encodeReceipt _ _ := []
  encodeWithdrawal _ := []
  orderedTrieRoot _ := emptyRootHash
  requestsHash _ := 0

/-- A regular transfer, a system one and two regular ones, the last of which does not
    fit. -/
theorem gas_accounting_transfers : ∃ ex₀ attempts ex,
    start (transferEvm 50000) transferCtx = .ok ex₀ ∧
    attemptAll emptyCrypto transferTransact ex₀
      [emptyTransfer 1, emptyTransfer 0, emptyTransfer 1, emptyTransfer 1] = (attempts, ex) ∧
    (committed attempts).length = 3 ∧ Accounts (committed attempts) ex ∧
      ex.receipts.map (·.cumulativeGasUsed) = [21000, 21000, 42000] ∧
      ex.finish.2.gasUsed = (ex.receipts.getLast?.map (·.cumulativeGasUsed)).getD 0 := by
  refine ⟨_, _, _, rfl, rfl, rfl, ?_⟩
  have h := gas_accounting gasBounded_transferTransact ⟨transferEvm 50000, transferCtx, rfl⟩
    (run_attemptAll (C := emptyCrypto) _
      [emptyTransfer 1, emptyTransfer 0, emptyTransfer 1, emptyTransfer 1])
  exact ⟨h.1, rfl, h.2.2.2.2.2.2⟩

end Nanoreth
