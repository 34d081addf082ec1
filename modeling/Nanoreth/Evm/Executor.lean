import Nanoreth.Evm.State
import Nanoreth.Lib.Transition

/-!
# The block executor

`HlBlockExecutor` executes the transactions of a block (`evm/executor.rs`), one after
the other: a transaction is executed if its gas limit fits in what is left of that of
the block, and its changes are committed. A system transaction must fit as well, but
is not charged. The receipt of a transaction is built when it is committed.

The executor is driven by attempts at transactions, some of which may be rejected
(`driver`). The step lemma of the development is `attempt_cases`: an attempt either
leaves the executor as it was, or commits the transaction, with what the EVM returned
for it in the state the executor was in.
-/

namespace Nanoreth

open Partial Transition Overwrite

/-! ## Patches -/

/-- The accounts whose changes are dropped on mainnet: the number of the block, the
    index of the transaction and whether it is a system one, and the account. -/
def mainnetPatchesAfterTx : List (UInt64 × ℕ × Bool × Address) :=
  [(1_467_569, 0, false, 0x33f6fe38c55cb100ce27b3138e5d2d041648364f),
   (1_467_631, 0, false, 0x33f6fe38c55cb100ce27b3138e5d2d041648364f),
   (1_499_313, 2, false, 0xe27bfc0a812b38927ff646f24af9149f45deb550),
   (1_499_406, 0, false, 0xe27bfc0a812b38927ff646f24af9149f45deb550),
   (1_499_685, 0, false, 0xfee3932b75a87e86930668a6ab3ed43b404c8a30),
   (1_514_843, 0, false, 0x723e5fbbeed025772a91240fd0956a866a41a603),
   (1_514_936, 0, false, 0x723e5fbbeed025772a91240fd0956a866a41a603),
   (1_530_529, 2, false, 0xa694e8fd8f4a177dd23636d838e9f1fb2138d87a),
   (1_530_622, 2, false, 0xa694e8fd8f4a177dd23636d838e9f1fb2138d87a),
   (1_530_684, 3, false, 0xa694e8fd8f4a177dd23636d838e9f1fb2138d87a),
   (1_530_777, 3, false, 0xa694e8fd8f4a177dd23636d838e9f1fb2138d87a),
   (1_530_839, 2, false, 0x692a343fc401a7755f8fc2facf61af426adaf061),
   (1_530_901, 0, false, 0xfd9716f16596715ce765dabaee11787870e04b8a),
   (1_530_994, 3, false, 0xfd9716f16596715ce765dabaee11787870e04b8a),
   (1_531_056, 4, false, 0xdc67c2b8349ca20f58760e08371fc9271e82b5a4),
   (1_531_149, 0, false, 0xdc67c2b8349ca20f58760e08371fc9271e82b5a4),
   (1_531_211, 3, false, 0xdc67c2b8349ca20f58760e08371fc9271e82b5a4),
   (1_531_366, 1, false, 0x9a90a517d27a9e60e454c96fefbbe94ff244ed6f)]

/-- Whether the changes of an account are dropped after a transaction. -/
def isPatched (blockNumber : UInt64) (txIndex : ℕ) (isSystemTx : Bool)
    (patch : UInt64 × ℕ × Bool × Address) : Bool :=
  blockNumber == patch.1 && txIndex == patch.2.1 && isSystemTx == patch.2.2.1

/-- Drops the changes of the patched accounts. -/
def patchMainnetAfterTx (blockNumber : UInt64) (txIndex : ℕ) (isSystemTx : Bool)
    (changes : EvmState) : EvmState :=
  -- The table is sorted by block number; blocks outside of it are left alone at once.
  match mainnetPatchesAfterTx.head?, mainnetPatchesAfterTx.getLast? with
  | some first, some last =>
    if first.1 > blockNumber ∨ last.1 < blockNumber then changes
    else mainnetPatchesAfterTx.foldl (fun changes patch =>
      if isPatched blockNumber txIndex isSystemTx patch then
        Function.update changes patch.2.2.2 none
      else changes) changes
  | _, _ => changes

/-- The changes of an account are dropped if one of the patches is for it. -/
theorem patchMainnetAfterTx_apply (blockNumber : UInt64) (txIndex : ℕ) (isSystemTx : Bool)
    (changes : EvmState) (address : Address) :
    patchMainnetAfterTx blockNumber txIndex isSystemTx changes address =
      if ∃ patch ∈ mainnetPatchesAfterTx,
          isPatched blockNumber txIndex isSystemTx patch = true ∧ patch.2.2.2 = address then none
      else changes address := by
  change (if (1_467_569 : UInt64) > blockNumber ∨ (1_531_366 : UInt64) < blockNumber then changes
    else mainnetPatchesAfterTx.foldl _ changes) address = _
  split_ifs with hrange h h
  · -- The patches are in the range.
    have hbounds : ∀ patch ∈ mainnetPatchesAfterTx,
        (1_467_569 : UInt64) ≤ patch.1 ∧ patch.1 ≤ (1_531_366 : UInt64) := by decide
    obtain ⟨patch, hmem, hpatched, -⟩ := h
    simp only [isPatched, Bool.and_eq_true, beq_iff_eq] at hpatched
    rw [hpatched.1.1] at hrange
    rcases hrange with hlt | hlt
    · exact absurd hlt (UInt64.not_lt.2 (hbounds patch hmem).1)
    · exact absurd hlt (UInt64.not_lt.2 (hbounds patch hmem).2)
  · rfl
  · rw [foldl_remove_eq, if_pos h]
  · rw [foldl_remove_eq, if_neg h]

/-! ## The core writer -/

/-- The bytes of a word, the most significant first. -/
def toBeBytes (word : B256) : Bytes :=
  (List.range 32).map fun i => UInt8.ofNat (word.toNat >>> (8 * (31 - i)))

/-- The block at which the contract is deployed. -/
def corewriterEnabledBlockNumber : U256 := 7578300

/-- Where the contract is deployed. -/
def corewriterContractAddress : Address := 0x3333333333333333333333333333333333333333

/-- The code of the contract, written in words of 32 bytes. -/
def corewriterCode : Bytes :=
  [0x608060405234801561000f575f5ffd5b5060043610610029575f3560e01c8063,
   0x17938e131461002d575b5f5ffd5b610047600480360381019061004291906101,
   0x23565b610049565b005b5f5f90505b6101908110156100655780806001019150,
   0x5061004e565b503373ffffffffffffffffffffffffffffffffffffffff167f8c,
   0x7f585fb295f7eb1e6aeb8fba61b23a4fe60beda405f0045073b185c74412e383,
   0x836040516100ae9291906101c8565b60405180910390a25050565b5f5ffd5b5f,
   0x5ffd5b5f5ffd5b5f5ffd5b5f5ffd5b5f5f83601f8401126100e3576100e26100,
   0xc2565b5b8235905067ffffffffffffffff811115610100576100ff6100c6565b,
   0x5b60208301915083600182028301111561011c5761011b6100ca565b5b925092,
   0x9050565b5f5f60208385031215610139576101386100ba565b5b5f83013567ff,
   0xffffffffffffff811115610156576101556100be565b5b610162858286016100,
   0xce565b92509250509250929050565b5f82825260208201905092915050565b82,
   0x8183375f83830152505050565b5f601f19601f8301169050919050565b5f6101,
   0xa7838561016e565b93506101b483858461017e565b6101bd8361018c565b8401,
   0x90509392505050565b5f6020820190508181035f8301526101e181848661019c,
   0x565b9050939250505056fea2646970667358221220f01517e1fbaff8af4bd72c,
   0xb063cccecbacbb00b07354eea7dd52265d355474fb64736f6c634300081c0033].flatMap toBeBytes

theorem corewriterCode_ne_nil : corewriterCode ≠ [] := by
  rw [corewriterCode, List.flatMap_cons]
  exact List.append_ne_nil_of_left_ne_nil (by decide) _

/-- The hash of `corewriterCode`. -/
def corewriterCodeHash : B256 := 0xba098fb2aaeb70bd4ec2ee44904a14009e95de0d93010f20026dcc1570e6a291

/-- The account at an address with the code of the core writer, the rest of it being as
    in the database. -/
def withCorewriter (db : Db) (address : Address) : DbAccount where
  info :=
    { ((db address).map (·.info)).getD default with
      codeHash := corewriterCodeHash
      code := some corewriterCode }
  storage := db.storage address

/-! ## The executor -/

/-- What is known of a block before it is executed. -/
structure EthBlockExecutionCtx where
  parentHash : B256
  parentBeaconBlockRoot : Option B256
  withdrawals : Option (List Withdrawal)
  deriving DecidableEq

/-- What the executor is given about the block, beyond its environment. -/
structure HlBlockExecutionCtx where
  ctx : EthBlockExecutionCtx
  extras : HlExtras
  readPrecompileForwarder : Option ScopedReadPrecompileForwarder

/-- The state of the execution of a block. -/
structure HlBlockExecutor where
  evm : Evm
  gasUsed : UInt64
  receipts : List EthereumReceipt
  ctx : HlBlockExecutionCtx

/-- What is known of a block of the chain before it is executed: it is never forwarded. -/
def contextForBlock (block : HlBlock) : HlBlockExecutionCtx where
  ctx :=
    { parentHash := block.header.inner.parentHash
      parentBeaconBlockRoot := block.header.inner.parentBeaconBlockRoot
      withdrawals := block.body.inner.withdrawals }
  extras := block.body.extras
  readPrecompileForwarder := none

/-- Why a transaction is not executed. -/
inductive BlockExecutionError (E : Type)
  | transactionGasLimitMoreThanAvailableBlockGas (transactionGasLimit blockAvailableGas : UInt64)
  | evm (error : E) (hash : B256)

/-- The outcome of the execution of a block. -/
structure BlockExecutionResult where
  receipts : List EthereumReceipt
  requests : List Bytes
  gasUsed : UInt64
  deriving DecidableEq

/-- The receipt of a transaction. -/
def buildReceipt (tx : TransactionSigned) (result : ExecutionResult) (cumulativeGasUsed : UInt64) :
    EthereumReceipt where
  txType := tx.txType
  success := result.isSuccess
  cumulativeGasUsed := cumulativeGasUsed
  logs := result.intoLogs

namespace HlBlockExecutor

/-- An executor, with the precompiles that the block has recorded. -/
def new (evm : Evm) (ctx : HlBlockExecutionCtx) : Except Halt HlBlockExecutor := do
  let precompiles ← applyPrecompilesWithForwarder evm.block.number ctx.extras
    ctx.readPrecompileForwarder evm.precompiles
  return {
    evm := { evm with precompiles := precompiles }
    gasUsed := 0
    receipts := []
    ctx := ctx }

/-- Deploys the contract before its block is executed, and only then. -/
def deployCorewriterContract (ex : HlBlockExecutor) : HlBlockExecutor :=
  if ex.evm.block.number ≠ corewriterEnabledBlockNumber then ex
  else
    let account := withCorewriter ex.evm.db corewriterContractAddress
    { ex with evm.db := Function.update ex.evm.db corewriterContractAddress (some account) }

/-- What is changed before the first transaction. -/
def applyPreExecutionChanges (ex : HlBlockExecutor) : Except Halt HlBlockExecutor := do
  let precompiles ← applyPrecompilesWithForwarder ex.evm.block.number ex.ctx.extras
    ex.ctx.readPrecompileForwarder ex.evm.precompiles
  return deployCorewriterContract { ex with evm.precompiles := precompiles }

/-- Creates an executor, and applies the changes before the block. -/
def start (evm : Evm) (ctx : HlBlockExecutionCtx) : Except Halt HlBlockExecutor := do
  let ex ← new evm ctx
  ex.applyPreExecutionChanges

/-- The executor created with the given precompiles. -/
def fresh (evm : Evm) (ctx : HlBlockExecutionCtx) (precompiles : PrecompilesMap) :
    HlBlockExecutor where
  evm := { evm with precompiles := precompiles }
  gasUsed := 0
  receipts := []
  ctx := ctx

/-- The precompiles of the block are installed twice before it is executed, to the same
    effect as once. -/
theorem start_eq (evm : Evm) (ctx : HlBlockExecutionCtx) :
    start evm ctx = (fun precompiles => (fresh evm ctx precompiles).deployCorewriterContract) <$>
      applyPrecompilesWithForwarder evm.block.number ctx.extras ctx.readPrecompileForwarder
        evm.precompiles := by
  unfold start new
  cases h : applyPrecompilesWithForwarder evm.block.number ctx.extras ctx.readPrecompileForwarder
      evm.precompiles with
  | error e => rfl
  | ok precompiles =>
    have hidem := applyPrecompilesWithForwarder_idem h
    change applyPreExecutionChanges (fresh evm ctx precompiles) = _
    simp only [applyPreExecutionChanges, fresh, hidem]
    rfl

@[simp]
theorem deployCorewriterContract_gasUsed (ex : HlBlockExecutor) :
    ex.deployCorewriterContract.gasUsed = ex.gasUsed := by
  unfold deployCorewriterContract
  split_ifs <;> rfl

@[simp]
theorem deployCorewriterContract_receipts (ex : HlBlockExecutor) :
    ex.deployCorewriterContract.receipts = ex.receipts := by
  unfold deployCorewriterContract
  split_ifs <;> rfl

theorem deployCorewriterContract_of_ne {ex : HlBlockExecutor}
    (h : ex.evm.block.number ≠ corewriterEnabledBlockNumber) : ex.deployCorewriterContract = ex :=
  if_pos h

/-- Deployment changes the account of the contract only. -/
theorem deployCorewriterContract_db {ex : HlBlockExecutor}
    (h : ex.evm.block.number = corewriterEnabledBlockNumber) :
    ex.deployCorewriterContract.evm.db = Function.update ex.evm.db corewriterContractAddress
      (some (withCorewriter ex.evm.db corewriterContractAddress)) := by
  rw [deployCorewriterContract, if_neg (not_not.2 h)]

@[simp]
theorem deployCorewriterContract_block (ex : HlBlockExecutor) :
    ex.deployCorewriterContract.evm.block = ex.evm.block := by
  unfold deployCorewriterContract
  split_ifs <;> rfl

variable {E : Type} (C : Crypto) (transact : Transact E)

/-- Executes a transaction. The arithmetic is that of the machine. -/
def executeTransactionWithoutCommit (ex : HlBlockExecutor) (tx : Recovered) :
    Except (BlockExecutionError E) ResultAndState × HlBlockExecutor :=
  let blockAvailableGas := ex.evm.block.gasLimit - ex.gasUsed
  if tx.tx.gasLimit > blockAvailableGas then
    (.error (.transactionGasLimitMoreThanAvailableBlockGas tx.tx.gasLimit blockAvailableGas), ex)
  else
    ((ex.evm.transact transact (.fromRecoveredTx tx)).mapError (.evm · (tx.tx.txHash C)), ex)

/-- Commits a transaction, and returns the gas it used. -/
def commitTransaction (ex : HlBlockExecutor) (output : ResultAndState) (tx : Recovered) :
    UInt64 × HlBlockExecutor :=
  let gasUsed := output.result.gasUsed
  -- System transactions are free of charge.
  let ex := if !tx.tx.isSystemTransaction then { ex with gasUsed := ex.gasUsed + gasUsed } else ex
  -- The index of the transaction is the number of receipts so far.
  let state := patchMainnetAfterTx (saturatingToU64 ex.evm.block.number)
    ex.receipts.length tx.tx.isSystemTransaction output.state
  let ex := { ex with receipts := ex.receipts ++ [buildReceipt tx.tx output.result ex.gasUsed] }
  (gasUsed, { ex with evm.db := ex.evm.db.commit state })

/-- The EVM and the result after the last transaction. -/
def finish (ex : HlBlockExecutor) : Evm × BlockExecutionResult :=
  (ex.evm, { receipts := ex.receipts, requests := [], gasUsed := ex.gasUsed })

/-- Executing a transaction does not change the executor. -/
theorem executeTransactionWithoutCommit_snd (ex : HlBlockExecutor) (tx : Recovered) :
    (executeTransactionWithoutCommit C transact ex tx).2 = ex := by
  simp only [executeTransactionWithoutCommit]
  split_ifs <;> rfl

/-- Gas of system transactions does not count. -/
@[simp]
theorem commitTransaction_gasUsed (ex : HlBlockExecutor) (output : ResultAndState)
    (tx : Recovered) :
    (commitTransaction ex output tx).2.gasUsed =
      if tx.tx.isSystemTransaction then ex.gasUsed else ex.gasUsed + output.result.gasUsed := by
  cases h : tx.tx.isSystemTransaction <;> simp [commitTransaction, h]

@[simp]
theorem commitTransaction_block (ex : HlBlockExecutor) (output : ResultAndState) (tx : Recovered) :
    (commitTransaction ex output tx).2.evm.block = ex.evm.block := by
  cases h : tx.tx.isSystemTransaction <;> simp [commitTransaction, h]

@[simp]
theorem commitTransaction_precompiles (ex : HlBlockExecutor) (output : ResultAndState)
    (tx : Recovered) :
    (commitTransaction ex output tx).2.evm.precompiles = ex.evm.precompiles := by
  cases h : tx.tx.isSystemTransaction <;> simp [commitTransaction, h]

/-- A transaction adds its receipt. -/
theorem commitTransaction_receipts (ex : HlBlockExecutor) (output : ResultAndState)
    (tx : Recovered) :
    (commitTransaction ex output tx).2.receipts =
      ex.receipts ++
        [buildReceipt tx.tx output.result (commitTransaction ex output tx).2.gasUsed] := by
  cases h : tx.tx.isSystemTransaction <;> simp [commitTransaction, h]

/-- The changes of a transaction are patched before they are committed. -/
theorem commitTransaction_db (ex : HlBlockExecutor) (output : ResultAndState) (tx : Recovered) :
    (commitTransaction ex output tx).2.evm.db =
      ex.evm.db.commit (patchMainnetAfterTx (saturatingToU64 ex.evm.block.number)
        ex.receipts.length tx.tx.isSystemTransaction output.state) := by
  cases h : tx.tx.isSystemTransaction <;> simp [commitTransaction, h]

/-- Executes a transaction, and commits it if it is not rejected. -/
def attempt (ex : HlBlockExecutor) (tx : Recovered) :
    Except (BlockExecutionError E) ResultAndState × HlBlockExecutor :=
  match executeTransactionWithoutCommit C transact ex tx with
  | (.error error, ex) => (.error error, ex)
  | (.ok output, ex) => (.ok output, (commitTransaction ex output tx).2)

variable {C transact}

/-- A transaction is executed if it fits in the block, by the EVM. -/
theorem executeTransactionWithoutCommit_eq_ok {ex ex' : HlBlockExecutor} {tx : Recovered}
    {output : ResultAndState} :
    executeTransactionWithoutCommit C transact ex tx = (.ok output, ex') ↔
      ex' = ex ∧ tx.tx.gasLimit ≤ ex.evm.block.gasLimit - ex.gasUsed ∧
        ex.evm.transact transact (.fromRecoveredTx tx) = .ok output := by
  simp only [executeTransactionWithoutCommit]
  split_ifs with hlimit
  · simp [UInt64.not_le.2 hlimit]
  · cases ex.evm.transact transact (.fromRecoveredTx tx) <;>
      simp [Except.mapError, UInt64.not_lt.1 hlimit, and_comm, eq_comm]

/-- An attempt either leaves the executor as it was, or commits the transaction. -/
theorem attempt_cases {ex ex' : HlBlockExecutor} {tx : Recovered}
    {outcome : Except (BlockExecutionError E) ResultAndState}
    (h : attempt C transact ex tx = (outcome, ex')) :
    (∃ error, outcome = .error error ∧ ex' = ex) ∨
      ∃ output, outcome = .ok output ∧ tx.tx.gasLimit ≤ ex.evm.block.gasLimit - ex.gasUsed ∧
        ex.evm.transact transact (.fromRecoveredTx tx) = .ok output ∧
        ex' = (commitTransaction ex output tx).2 := by
  unfold attempt at h
  cases hexec : executeTransactionWithoutCommit C transact ex tx with
  | mk outcome₁ ex₁ =>
    rw [hexec] at h
    cases outcome₁ with
    | error error =>
      cases h
      have hsnd := executeTransactionWithoutCommit_snd C transact ex tx
      rw [hexec] at hsnd
      exact .inl ⟨error, rfl, hsnd⟩
    | ok output =>
      cases h
      obtain ⟨rfl, hlimit, houtput⟩ := executeTransactionWithoutCommit_eq_ok.1 hexec
      exact .inr ⟨output, rfl, hlimit, houtput, rfl⟩

/-- An attempt at a transaction commits it if it fits in the block and the EVM executes it. -/
theorem attempt_eq_ok {ex ex' : HlBlockExecutor} {tx : Recovered} {output : ResultAndState} :
    attempt C transact ex tx = (.ok output, ex') ↔
      tx.tx.gasLimit ≤ ex.evm.block.gasLimit - ex.gasUsed ∧
        ex.evm.transact transact (.fromRecoveredTx tx) = .ok output ∧
        ex' = (commitTransaction ex output tx).2 := by
  constructor
  · intro h
    rcases attempt_cases h with ⟨_, houtcome, -⟩ | ⟨_, houtcome, hlimit, houtput, rfl⟩
    · cases houtcome
    · cases houtcome
      exact ⟨hlimit, houtput, rfl⟩
  · rintro ⟨hlimit, houtput, rfl⟩
    rw [attempt, executeTransactionWithoutCommit_eq_ok.2 ⟨rfl, hlimit, houtput⟩]

variable (C transact) in
/-- Executes and commits the transactions of a list, up to the first one rejected. -/
def executeAll (ex : HlBlockExecutor) :
    List Recovered → Except (BlockExecutionError E) HlBlockExecutor
  | [] => .ok ex
  | tx :: txs =>
    match ex.attempt C transact tx with
    | (.ok _, ex') => executeAll ex' txs
    | (.error error, _) => .error error

@[simp]
theorem executeAll_nil {ex ex' : HlBlockExecutor} :
    executeAll C transact ex [] = .ok ex' ↔ ex' = ex := by
  rw [executeAll, Except.ok.injEq, eq_comm]

/-- A transaction is executed, if its gas limit fits, before those after it. -/
theorem executeAll_cons {ex ex' : HlBlockExecutor} {tx : Recovered} {txs : List Recovered} :
    executeAll C transact ex (tx :: txs) = .ok ex' ↔
      ∃ output, tx.tx.gasLimit ≤ ex.evm.block.gasLimit - ex.gasUsed ∧
        ex.evm.transact transact (.fromRecoveredTx tx) = .ok output ∧
        executeAll C transact (commitTransaction ex output tx).2 txs = .ok ex' := by
  constructor
  · intro h
    cases hattempt : ex.attempt C transact tx with
    | mk outcome ex₁ =>
      rw [executeAll, hattempt] at h
      cases outcome with
      | error error => cases h
      | ok output =>
        obtain ⟨hlimit, houtput, rfl⟩ := attempt_eq_ok.1 hattempt
        exact ⟨output, hlimit, houtput, h⟩
  · rintro ⟨output, hlimit, houtput, h⟩
    rw [executeAll, attempt_eq_ok.2 ⟨hlimit, houtput, rfl⟩]
    exact h

/-- Transactions are executed one part after the other. -/
theorem executeAll_append {ex ex' : HlBlockExecutor} {txs txs' : List Recovered} :
    executeAll C transact ex (txs ++ txs') = .ok ex' ↔
      ∃ ex₁, executeAll C transact ex txs = .ok ex₁ ∧ executeAll C transact ex₁ txs' = .ok ex' := by
  induction txs generalizing ex with
  | nil => simp
  | cons tx txs ih =>
    rw [List.cons_append, executeAll_cons]
    simp only [executeAll_cons, ih]
    constructor
    · rintro ⟨output, hlimit, houtput, ex₁, h, h'⟩
      exact ⟨ex₁, ⟨output, hlimit, houtput, h⟩, h'⟩
    · rintro ⟨ex₁, ⟨output, hlimit, houtput, h⟩, h'⟩
      exact ⟨output, hlimit, houtput, ex₁, h, h'⟩

end HlBlockExecutor

/-! ## Driving the executor -/

/-- An attempt at a transaction, and its outcome. -/
structure Attempt (E : Type) where
  tx : Recovered
  outcome : Except (BlockExecutionError E) ResultAndState

/-- The executor as it is driven: it is created, the changes before the block are
    applied, and transactions are attempted. -/
def driver {E : Type} (C : Crypto) (transact : Transact E) :
    System HlBlockExecutor (Attempt E) where
  init ex := ∃ evm ctx, HlBlockExecutor.start evm ctx = .ok ex
  step ex attempt ex' := ex.attempt C transact attempt.tx = (attempt.outcome, ex')

/-- The transactions committed by attempts, with what the EVM returned for them. -/
def committed {E : Type} (attempts : List (Attempt E)) : List (Recovered × ResultAndState) :=
  attempts.filterMap fun attempt => attempt.outcome.toOption.map (attempt.tx, ·)

theorem committed_append {E : Type} (attempts attempts' : List (Attempt E)) :
    committed (attempts ++ attempts') = committed attempts ++ committed attempts' :=
  List.filterMap_append

/-- A transaction that fails is not committed. -/
@[simp]
theorem committed_error {E : Type} (tx : Recovered) (error : BlockExecutionError E) :
    committed [⟨tx, .error error⟩] = [] := rfl

/-- Attempts at the transactions of a list, in order. -/
def attemptAll {E : Type} (C : Crypto) (transact : Transact E) (ex : HlBlockExecutor) :
    List Recovered → List (Attempt E) × HlBlockExecutor
  | [] => ([], ex)
  | tx :: txs =>
    let (outcome, ex') := ex.attempt C transact tx
    let (attempts, ex'') := attemptAll C transact ex' txs
    (⟨tx, outcome⟩ :: attempts, ex'')

/-- Attempting transactions one after the other is a run of the driver. -/
theorem run_attemptAll {E : Type} {C : Crypto} {transact : Transact E} (ex : HlBlockExecutor)
    (txs : List Recovered) :
    Run (driver C transact) ex (attemptAll C transact ex txs).1
      (attemptAll C transact ex txs).2 := by
  induction txs generalizing ex with
  | nil => exact .nil
  | cons tx txs ih => exact .cons rfl (ih (ex.attempt C transact tx).2)

end Nanoreth
