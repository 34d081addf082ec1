import Nanoreth.Evm.SystemPrefix

/-!
# Building blocks

The node assembles a block from the outcome of the execution of its transactions
(`HlBlockAssembler.assembleBlock`). The block it builds is to pass its own validation,
and it passes the checks of the gas used and of the receipts root
(`validate_assembleBlock`).

The bloom of the logs in its header is another matter: the assembler computes it from all
receipts, and the validation from those of regular transactions. The block is thus valid
exactly when the logs of the system transactions set no bit that those of the regular ones
do not (`validate_assembleBlock_iff`), and a block with a single system transaction that
emits a log is not (`assembleBlock_rejected`).
-/

namespace Nanoreth

open Transition HlBlockExecutor Cut

/-- What a block is assembled from. -/
structure BlockAssemblerInput where
  evmEnv : BlockEnv
  executionCtx : HlBlockExecutionCtx
  parent : HlHeader
  transactions : List TransactionSigned
  output : BlockExecutionResult
  stateRoot : B256

/-- The assembler, with the data that it puts into all headers. -/
structure HlBlockAssembler where
  chainSpec : ChainSpec
  extraData : Bytes

variable (C : Crypto)

/-- The root of the trie of withdrawals. -/
def calculateWithdrawalsRoot (withdrawals : List Withdrawal) : B256 :=
  C.orderedTrieRoot (withdrawals.map C.encodeWithdrawal)

namespace HlBlockAssembler

variable (assembler : HlBlockAssembler) (input : BlockAssemblerInput)

/-- The time of the block, as a number of a header. -/
def timestamp : UInt64 := saturatingToU64 input.evmEnv.timestamp

/-- The withdrawals of a block, since Shanghai. -/
def withdrawals : Option (List Withdrawal) :=
  if assembler.chainSpec.isShanghaiActiveAtTimestamp (timestamp input) then
    some (input.executionCtx.ctx.withdrawals.getD [])
  else none

/-- The gas of the blobs of a block, since Cancun. -/
def blobGasUsed : Option UInt64 :=
  if assembler.chainSpec.isCancunActiveAtTimestamp (timestamp input) then
    some (input.transactions.foldl (fun total tx => total + tx.blobGasUsed.getD 0) 0)
  else none

/-- The excess blob gas of a block, since Cancun; it is `0` in the first such block. -/
def excessBlobGas : Option UInt64 :=
  if assembler.chainSpec.isCancunActiveAtTimestamp (timestamp input) then
    if assembler.chainSpec.isCancunActiveAtTimestamp input.parent.inner.timestamp then
      assembler.chainSpec.maybeNextBlockExcessBlobGas input.parent.inner (timestamp input)
    else some 0
  else none

/-- The Ethereum header of an assembled block. -/
def assembleHeader : Header where
  parentHash := input.executionCtx.ctx.parentHash
  ommersHash := emptyOmmerRootHash
  beneficiary := input.evmEnv.beneficiary
  stateRoot := input.stateRoot
  transactionsRoot := calculateTransactionRoot C
    -- System transactions and their receipts are in the block, but not below the roots.
    (input.transactions.filter fun tx => !tx.isSystemTransaction)
  receiptsRoot := calculateReceiptRoot C
    (input.output.receipts.filter fun receipt => receipt.cumulativeGasUsed != 0)
  withdrawalsRoot := (assembler.withdrawals input).map (calculateWithdrawalsRoot C)
  logsBloom := logsBloom C (input.output.receipts.flatMap (·.logs))
  timestamp := timestamp input
  mixHash := input.evmEnv.prevrandao.getD 0
  nonce := 0
  baseFeePerGas := some input.evmEnv.basefee
  number := saturatingToU64 input.evmEnv.number
  gasLimit := input.evmEnv.gasLimit
  difficulty := input.evmEnv.difficulty
  gasUsed := input.output.gasUsed
  extraData := assembler.extraData
  parentBeaconBlockRoot := input.executionCtx.ctx.parentBeaconBlockRoot
  blobGasUsed := assembler.blobGasUsed input
  excessBlobGas := assembler.excessBlobGas input
  requestsHash :=
    if assembler.chainSpec.isPragueActiveAtTimestamp (timestamp input) then
      some (C.requestsHash input.output.requests)
    else none

/-- The block of the transactions that were executed, with the count of the system ones. -/
def assembleBlock : HlBlock where
  header := .fromEthereumHeader C (assembler.assembleHeader C input) input.output.receipts
    (input.transactions.filter (·.isSystemTransaction)).length
  body :=
    { inner :=
        { transactions := input.transactions
          ommers := []
          withdrawals := assembler.withdrawals input }
      sidecars := none
      readPrecompileCalls := input.executionCtx.extras.readPrecompileCalls
      highestPrecompileAddress := input.executionCtx.extras.highestPrecompileAddress }

end HlBlockAssembler

/-! ## Validation -/

variable {C} {E : Type} {transact : Transact E} {assembler : HlBlockAssembler}
  {input : BlockAssemblerInput}

/-- The validation is left with the check of the bloom: the gas used and the receipts root
    are those of the receipts. -/
theorem validate_assembleBlock {k : ℕ}
    (hgas : input.output.gasUsed =
      (input.output.receipts.getLast?.map (·.cumulativeGasUsed)).getD 0)
    (hcut : CutAt isSystemReceipt k input.output.receipts)
    (hbyzantium : assembler.chainSpec.isByzantiumActiveAtBlock
      (saturatingToU64 input.evmEnv.number) = true)
    (hprague : assembler.chainSpec.isPragueActiveAtTimestamp
      (saturatingToU64 input.evmEnv.timestamp) = false) (requests : List Bytes) :
    validateBlockPostExecution C (assembler.assembleBlock C input) assembler.chainSpec
        input.output.receipts requests = .ok () ↔
      logsBloom C ((input.output.receipts.drop k).flatMap (·.logs)) =
        logsBloom C ((input.output.receipts.take k).flatMap (·.logs)) |||
          logsBloom C ((input.output.receipts.drop k).flatMap (·.logs)) := by
  rw [validateBlockPostExecution_eq_ok C hbyzantium hprague, receiptsForRoot_eq,
    hcut.filter_not_eq, ← logsBloom_append, ← List.flatMap_append, List.take_append_drop]
  refine ⟨fun h => h.2.2, fun h => ⟨hgas, ?_, h⟩⟩
  -- The assembler drops the same receipts as the validation.
  change _ = calculateReceiptRoot C (receiptsForRoot input.output.receipts)
  rw [receiptsForRoot_eq, hcut.filter_not_eq]

/-- The node accepts a block it builds if and only if the logs of the system transactions
    set no bit in the bloom that those of the regular transactions do not set. The block is
    built from the outcome of an executor whose system transactions come first, and whose
    regular transactions use some gas. -/
theorem validate_assembleBlock_iff (hbounded : transact.GasBounded) {ex₀ ex : HlBlockExecutor}
    {attempts : List (Attempt E)} (hinit : (driver C transact).init ex₀)
    (hrun : Run (driver C transact) ex₀ attempts ex) {k : ℕ}
    (hcut : CutAt isSystemCommitted k (committed attempts))
    (hgas : ∀ p ∈ committed attempts, p.1.tx.isSystemTransaction = false →
      0 < p.2.result.gasUsed)
    (houtput : input.output = ex.finish.2)
    (hbyzantium : assembler.chainSpec.isByzantiumActiveAtBlock
      (saturatingToU64 input.evmEnv.number) = true)
    (hprague : assembler.chainSpec.isPragueActiveAtTimestamp
      (saturatingToU64 input.evmEnv.timestamp) = false) :
    validateBlockPostExecution C (assembler.assembleBlock C input) assembler.chainSpec
        input.output.receipts input.output.requests = .ok () ↔
      logsBloom C (((committed attempts).drop k).flatMap (·.2.result.intoLogs)) =
        logsBloom C (((committed attempts).take k).flatMap (·.2.result.intoLogs)) |||
          logsBloom C (((committed attempts).drop k).flatMap (·.2.result.intoLogs)) := by
  have haccounts := accounts_of_run hbounded hinit hrun
  -- The block is assembled from what the run has accumulated.
  have hreceipts : input.output.receipts = ex.receipts := by rw [houtput]; rfl
  have hused := haccounts.finish_gasUsed
  rw [← houtput] at hused
  rw [validate_assembleBlock hused (hreceipts ▸ haccounts.cutAt_receipts hcut hgas) hbyzantium
    hprague, hreceipts]
  simp only [List.flatMap_def, List.map_drop, List.map_take, haccounts.map_logs]

/-- A call of the contract at `0xbeef`, at a gas price. -/
def logCall (gasPrice : U128) : Recovered where
  tx := ⟨.legacy
    { tx :=
        { chainId := some 999
          nonce := 0
          gasPrice := gasPrice
          gasLimit := 30000
          target := .call 0xbeef
          value := 0
          input := [] }
      signature := ⟨1, 0xcafe, true⟩ }⟩
  signer := 0xcafe

/-- The EVM on calls of the contract at `0xbeef`, whose code emits an empty log
    (`60006000a0`), in a block whose base fee is the gas price. -/
def logTransact : Transact Unit := fun db _ _ tx =>
  let info := ((db tx.caller).map (·.info)).getD default
  let fee : U256 := 21381 * (tx.tx.gasPrice.getD 0).setWidth 256
  if tx.tx.gasLimit < 21381 then .error ()
  else .ok
    { result := .success 21381 [⟨0xbeef, [], []⟩]
      state := Function.update (fun _ => none) tx.caller (some
        { info := { info with nonce := info.nonce + 1, balance := info.balance - fee }
          storage := fun _ => none
          isTouched := true
          isSelfdestructed := false
          isCreated := false }) }

/-- A transaction of `logTransact` uses no more than its gas limit. -/
theorem gasBounded_logTransact : logTransact.GasBounded := by
  intro db block precompiles tx output h
  unfold logTransact at h
  split_ifs at h with hlimit
  cases h
  exact UInt64.not_lt.1 hlimit

/-- The bits of the bloom of a log of the contract at `0xbeef`. -/
def logBits : Bloom := 1 <<< 988 ||| 1 <<< 1846 ||| 1 <<< 809

/-- The functions of the dependencies on the blocks below: the roots are those of no value,
    of the receipt of a regular call, and of the call. -/
def logCrypto : Crypto where
  txHash _ := 0
  recoverSigner _ := some 0xcafe
  hashSlow _ := 0
  logBloom _ := logBits
  encodeTx _ := [0]
  encodeReceipt _ _ := [1]
  encodeWithdrawal _ := []
  orderedTrieRoot values :=
    if values = [] then emptyRootHash
    else if values = [[1]] then 0xcc590dec445262f2ffbdbdea1b6b50fa53113f4e3fdf36f85cbffced00999a1e
    else 0xcdbebf5fedba5a09a982d1ef8e29428298a1de182f9b3a34fb2a92ab0fda5538
  requestsHash _ := 0

/-- The assembler of a node. -/
def hlAssembler : HlBlockAssembler where
  chainSpec := ⟨hlHardforks, fun _ _ => some 0⟩
  extraData := []

/-- The input of the assembler for the outcome of an executor. -/
def logInput (attempts : List (Attempt Unit)) (ex : HlBlockExecutor) : BlockAssemblerInput where
  evmEnv := (transferEvm 30000000).block
  executionCtx := transferCtx
  parent := ⟨default, ⟨0, 0⟩⟩
  transactions := (committed attempts).map (·.1.tx)
  output := ex.finish.2
  stateRoot := 0

/-- A system call and a regular one, with the same log: the block is accepted. -/
theorem validate_assembleBlock_sameLog : ∃ ex₀ attempts ex,
    start (transferEvm 30000000) transferCtx = .ok ex₀ ∧
    attemptAll logCrypto logTransact ex₀ [logCall 0, logCall 1] = (attempts, ex) ∧
    validateBlockPostExecution logCrypto
      (hlAssembler.assembleBlock logCrypto (logInput attempts ex)) hlAssembler.chainSpec
      ex.finish.2.receipts ex.finish.2.requests = .ok () := by
  have hstart : start (transferEvm 30000000) transferCtx = .ok _ := rfl
  have hactive := hlHardforks_active hlAssembler.chainSpec rfl
  refine ⟨_, _, _, hstart, rfl, ?_⟩
  exact (validate_assembleBlock_iff (k := 1) gasBounded_logTransact ⟨_, _, hstart⟩
    (run_attemptAll _ [logCall 0, logCall 1]) ⟨by decide, by decide, by decide⟩ (by decide) rfl
    (hactive _).1 (hactive _).2).2 (BitVec.or_self).symm

/-- A system call alone: the block is rejected for the bloom in its header. -/
theorem assembleBlock_rejected : ∃ ex₀ attempts ex,
    start (transferEvm 30000000) transferCtx = .ok ex₀ ∧
    attemptAll logCrypto logTransact ex₀ [logCall 0] = (attempts, ex) ∧
    CutAt isSystemCommitted 1 (committed attempts) ∧
    validateBlockPostExecution logCrypto
      (hlAssembler.assembleBlock logCrypto (logInput attempts ex)) hlAssembler.chainSpec
      ex.finish.2.receipts ex.finish.2.requests = .error (.bodyBloomLogDiff ⟨0, logBits⟩) :=
  ⟨_, _, _, rfl, rfl, ⟨by decide, by decide, by decide⟩, by decide +kernel⟩

end Nanoreth
