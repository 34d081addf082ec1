import Nanoreth.Evm.Assembler
import Nanoreth.Rpc.Call

/-!
# Simulating blocks

`eth_simulateV1` runs calls in blocks that are built on top of a block of the chain, one after the
other (`rpc/simulate.rs`). Each block starts from the state that the one before it leaves, with the
overrides of the request, is executed by the block executor of the node, and is assembled into
a block, whose header is the parent of the next one (`simulateBlock`). The loop over the calls of a
block is in reth (`simulate::execute_transactions`), and is a parameter: it is assumed to have the
transactions of the calls executed in order, and to assemble the block of them (`ExecutesCalls`).

A block that is simulated has no recorded reads. It takes the range of its read precompiles from the
block the simulation starts at, and a forwarder if that is the head, and only in a node with a
forwarder (`simulationPrecompiles`).

* `simulateV1_spec`: the blocks that are returned are a chain on top of the base block, one for
  each of the request, with one transaction for each call; their headers account for the gas of the
  calls, except for those at gas price `0`, which are taken for system transactions.
* `simulateV1_congr`: what is recorded in the blocks of the chain, the base block among them, makes
  no difference.

The base block, the head and the state are looked up one after the other, and the chain may grow in
between: they are separate arguments. How a request is completed to a transaction, how overrides are
applied, and what the EVM does, are parameters.
-/

namespace Nanoreth

open Partial HlBlockExecutor

/-! ## The environment of the next block -/

/-- What the next block is to have. -/
structure NextBlockEnvAttributes where
  timestamp : UInt64
  suggestedFeeRecipient : Address
  prevRandao : B256
  gasLimit : UInt64
  parentBeaconBlockRoot : Option B256
  withdrawals : Option (List Withdrawal)

/-- A block to simulate, those overrides of the state being `O`. -/
structure SimBlock (O R : Type) where
  blockOverrides : Option BlockOverrides
  stateOverrides : Option O
  calls : List (TransactionRequest R)

/-- A request. How the blocks are presented is left out. -/
structure SimulatePayload (O R : Type) where
  blockStateCalls : List (SimBlock O R)
  traceTransfers : Bool
  validation : Bool

/-- What the EVM of a simulated block is made with, beside its block. -/
structure SimEvm where
  cfgEnv : CfgEnv
  disableNonceCheck : Bool
  traceTransfers : Bool
  /-- The hashes of blocks that are overridden, the last ones first. -/
  blockHashes : List (UInt64 × B256)

/-- Why a simulation fails. -/
inductive SimulateError (E X P : Type)
  | invalidParams (message : String)
  | headerNotFound
  | gasLimitReached
  | blockGasLimitExceeded
  | execution (error : BlockExecutionError E)
  | api (error : X)
  | provider (error : P)
  | panic (halt : Halt)

/-- What the node takes from its dependencies to simulate blocks. -/
structure SimHooks (O R X : Type) extends OverrideHooks where
  callGasLimit : UInt64
  maxSimulateBlocks : UInt64
  chainId : UInt64
  nextEnvAttributes : HlHeader → Except X NextBlockEnvAttributes
  /-- The base fee of the next block, at a timestamp. -/
  nextBlockBaseFee : HlHeader → UInt64 → Option UInt64
  applyStateOverrides : O → Db → Except X Db
  /-- Completes a request, given the gas limit if it has none, the base fee and the chain. -/
  resolveTransaction : TransactionRequest R → UInt64 → UInt64 → UInt64 → Db → Except X Recovered

/-- A block that was simulated, with the results of its calls. -/
structure SimulatedBlock where
  block : HlBlock
  results : List ExecutionResult

/-- A block that is being built: what the EVM is made with, the executor, what is known of the
    block, and its parent. -/
structure BlockBuilder where
  evm : SimEvm
  executor : HlBlockExecutor
  ctx : HlBlockExecutionCtx
  parent : HlHeader

/-- Executes the calls of a block, given the gas limit of those that have none and the chain, and
    returns the block and the state after it. -/
abbrev ExecuteTransactions (E R X P : Type) :=
  BlockBuilder → List (TransactionRequest R) → UInt64 → UInt64 →
    Except (SimulateError E X P) (SimulatedBlock × Db)

/-- The variables of the loop over the blocks. -/
structure SimState where
  db : Db
  blockHashes : List (UInt64 × B256)
  parent : HlHeader

variable {E O R X P : Type}

section Model

variable (hooks : SimHooks O R X)

/-- The environment of a block after the parent. -/
def nextEvmEnv (parent : HlHeader) (attributes : NextBlockEnvAttributes) : EvmEnv where
  cfgEnv :=
    { disableBlockGasLimit := false
      disableEip3607 := false
      disableBaseFee := false
      txGasLimitCap := none }
  blockEnv :=
    { number := (parent.inner.number + 1).toBitVec.setWidth 256
      beneficiary := attributes.suggestedFeeRecipient
      timestamp := attributes.timestamp.toBitVec.setWidth 256
      difficulty := 0
      prevrandao := some attributes.prevRandao
      gasLimit := attributes.gasLimit
      basefee := (hooks.nextBlockBaseFee parent attributes.timestamp).getD 0
      blobExcessGas := some 0 }

/-- What is known of the next block before it is executed. -/
def contextForNextBlock (C : Crypto) (parent : HlHeader) (attributes : NextBlockEnvAttributes) :
    HlBlockExecutionCtx where
  ctx :=
    { parentHash := parent.hash C
      parentBeaconBlockRoot := attributes.parentBeaconBlockRoot
      withdrawals := attributes.withdrawals }
  extras := ⟨none, none⟩
  readPrecompileForwarder := none

/-- The checks of the EVM that are switched off, and the base fee, unless the calls are to be
    validated. -/
def simulationEnv (validation : Bool) (env : EvmEnv) : EvmEnv :=
  let cfg := { env.cfgEnv with disableEip3607 := true }
  if validation then { env with cfgEnv := cfg }
  else
    { cfgEnv :=
        { cfg with
          disableBaseFee := true
          txGasLimitCap := some (UInt64.ofNat (2 ^ 64 - 1)) }
      blockEnv := { env.blockEnv with basefee := 0 } }

/-- The block environment with the fields that a request sets, unless it sets too high a gas
    limit. -/
def overrideBlock (overrides : Option BlockOverrides) (env : BlockEnv) :
    Except (SimulateError E X P) BlockEnv :=
  match overrides with
  | none => .ok env
  | some overrides =>
    -- The limit may exceed that of the block, as long as it does not exceed that of calls.
    if overrides.gasLimit.any fun limit => env.gasLimit < limit && hooks.callGasLimit < limit then
      .error .gasLimitReached
    else .ok (hooks.overrideBlockEnv overrides env)

/-- The gas limits of the calls that have one, added up. The addition wraps. -/
def specifiedGas (calls : List (TransactionRequest R)) : UInt64 :=
  (calls.filterMap (·.gas)).foldl (· + ·) 0

/-- How many calls have no gas limit. -/
def withoutGasLimit (calls : List (TransactionRequest R)) : ℕ :=
  (calls.filter (·.gas.isNone)).length

/-- The gas limit of the calls that have none. -/
def defaultGasLimit (calls : List (TransactionRequest R)) (blockGasLimit : UInt64) :
    Except (SimulateError E X P) UInt64 :=
  if blockGasLimit < specifiedGas calls then .error .blockGasLimitExceeded
  else if 0 < withoutGasLimit calls then
    .ok ((blockGasLimit - specifiedGas calls) / UInt64.ofNat (withoutGasLimit calls))
  else .ok 0

/-! ## The precompiles of simulated blocks -/

namespace HlCallApi

variable (api : HlCallApi P)

/-- The precompile data of the blocks on top of a block, and the forwarder if that is the head. -/
def hlSimulationPrecompiles (parentBlockNumber : UInt64) :
    Except P (HlExtras × Option ScopedReadPrecompileForwarder) :=
  match api.forwarder with
  | none => return (⟨none, none⟩, none)
  | some forwarder => do
    let chainInfo ← api.chainInfo
    let extrasBlockNumber := min parentBlockNumber chainInfo.bestNumber
    let parent ← api.getHlExtras extrasBlockNumber
    -- Upstream answers at its head only.
    let forwarder := if chainInfo.bestNumber ≤ parentBlockNumber then
      some (forwarder, chainInfo.bestHash) else none
    return (⟨none, parent.highestPrecompileAddress⟩, forwarder)

/-- They are only looked up in a node with a forwarder. -/
def simulationPrecompiles (parentBlockNumber : UInt64) :
    Except P (Option (HlExtras × Option ScopedReadPrecompileForwarder)) :=
  match api.forwarder with
  | none => return none
  | some _ => return some (← api.hlSimulationPrecompiles parentBlockNumber)

end HlCallApi

/-- Attaches the precompile data to what is known of a block. -/
def attachPrecompiles (ctx : HlBlockExecutionCtx)
    (simulationPrecompiles : Option (HlExtras × Option ScopedReadPrecompileForwarder)) :
    HlBlockExecutionCtx :=
  match simulationPrecompiles with
  | none => ctx
  | some (extras, forwarder) =>
    { ctx with extras := extras, readPrecompileForwarder := forwarder }

/-! ## The loops -/

section Loops

variable (C : Crypto) (executeTransactions : ExecuteTransactions E R X P)
  (precompiles : PrecompilesMap)
  (simulationPrecompiles : Option (HlExtras × Option ScopedReadPrecompileForwarder))

/-- A builder of a block, with a new executor. -/
def createBlockBuilder (evm : SimEvm) (env : Evm) (parent : HlHeader) (ctx : HlBlockExecutionCtx) :
    Except Halt BlockBuilder := do
  let executor ← HlBlockExecutor.new env ctx
  return ⟨evm, executor, ctx, parent⟩

/-- Simulates a block. -/
def simulateBlock (payload : SimulatePayload O R) (s : SimState) (block : SimBlock O R) :
    Except (SimulateError E X P) (SimulatedBlock × SimState) := do
  let attributes ← (hooks.nextEnvAttributes s.parent).mapError .api
  let env := simulationEnv payload.validation (nextEvmEnv hooks s.parent attributes)
  let blockEnv ← overrideBlock hooks block.blockOverrides env.blockEnv
  let blockHashes := ((block.blockOverrides.bind (·.blockHash)).getD []) ++ s.blockHashes
  let db ← (match block.stateOverrides with
    | some overrides => hooks.applyStateOverrides overrides s.db
    | none => .ok s.db).mapError .api
  -- What the calls do not specify is shared among them.
  let defaultGas ← defaultGasLimit block.calls blockEnv.gasLimit
  let ctx := attachPrecompiles (contextForNextBlock C s.parent attributes) simulationPrecompiles
  let evm : SimEvm := ⟨env.cfgEnv, !payload.validation, payload.traceTransfers, blockHashes⟩
  let builder ← (createBlockBuilder evm ⟨db, blockEnv, precompiles⟩ s.parent ctx).mapError .panic
  let (simulated, db) ← executeTransactions builder block.calls defaultGas hooks.chainId
  return (simulated, ⟨db, blockHashes, simulated.block.header⟩)

/-- Simulates blocks, each in the state after those before. -/
def simulateBlocks (payload : SimulatePayload O R) :
    SimState → List (SimBlock O R) → Except (SimulateError E X P) (List SimulatedBlock)
  | _, [] => .ok []
  | s, block :: blocks => do
    let (simulated, s) ← simulateBlock hooks C executeTransactions precompiles
      simulationPrecompiles payload s block
    let rest ← simulateBlocks payload s blocks
    return simulated :: rest

end Loops

/-- Simulates the blocks of a request. `recoveredBlock` is what is found for the base block, and
    `state` the state after it. -/
def simulateV1 (C : Crypto) (executeTransactions : ExecuteTransactions E R X P)
    (api : HlCallApi P) (payload : SimulatePayload O R)
    (recoveredBlock : Except X (Option HlBlock)) (state : Except X Db) :
    Except (SimulateError E X P) (List SimulatedBlock) :=
  if hooks.maxSimulateBlocks.toNat < payload.blockStateCalls.length then
    .error (.invalidParams "too many blocks.")
  else if payload.blockStateCalls = [] then .error (.invalidParams "calls are empty.")
  else do
    let some baseBlock ← recoveredBlock.mapError .api | throw .headerNotFound
    let simulationPrecompiles ←
      (api.simulationPrecompiles baseBlock.header.inner.number).mapError .provider
    let db ← state.mapError .api
    simulateBlocks hooks C executeTransactions api.precompiles simulationPrecompiles payload
      ⟨db, [], baseBlock.header⟩ payload.blockStateCalls

end Model

/-! ## The gas of calls -/

section Gas

variable {calls : List (TransactionRequest R)} {limit defaultGas : UInt64}

/-- The gas limits of the calls that have one, added up exactly. -/
def totalGas (calls : List (TransactionRequest R)) : ℕ :=
  ((calls.filterMap (·.gas)).map (·.toNat)).sum

/-- The loop adds gas modulo `2 ^ 64`. -/
theorem toNat_foldl_add (gas : List UInt64) (start : UInt64) :
    (gas.foldl (· + ·) start).toNat = (start.toNat + (gas.map (·.toNat)).sum) % 2 ^ 64 := by
  induction gas generalizing start with
  | nil => exact (Nat.mod_eq_of_lt start.toNat_lt).symm
  | cons g gas ih =>
    rw [List.foldl_cons, ih, UInt64.toNat_add, List.map_cons, List.sum_cons]
    omega

theorem toNat_specifiedGas (calls : List (TransactionRequest R)) :
    (specifiedGas calls).toNat = totalGas calls % 2 ^ 64 := by
  rw [specifiedGas, toNat_foldl_add, totalGas, UInt64.toNat_zero, Nat.zero_add]

/-- The calls share the gas of the block, if their gas limits can be added up. -/
theorem defaultGasLimit_le
    (h : (defaultGasLimit calls limit : Except (SimulateError E X P) UInt64) = .ok defaultGas) :
    totalGas calls % 2 ^ 64 ≤ limit.toNat ∧
      (totalGas calls < 2 ^ 64 → withoutGasLimit calls < 2 ^ 64 →
        totalGas calls + defaultGas.toNat * withoutGasLimit calls ≤ limit.toNat) := by
  unfold defaultGasLimit at h
  split_ifs at h with hlimit hmissing
  · have hle := UInt64.le_iff_toNat_le.1 (UInt64.not_lt.1 hlimit)
    rw [toNat_specifiedGas] at hle
    refine ⟨hle, fun htotal hcount => ?_⟩
    cases h
    rw [UInt64.toNat_div, UInt64.toNat_sub_of_le _ _ (UInt64.not_lt.1 hlimit), toNat_specifiedGas,
      UInt64.toNat_ofNat_of_lt' hcount]
    rw [Nat.mod_eq_of_lt htotal] at hle ⊢
    have hdiv := Nat.div_mul_le_self (limit.toNat - totalGas calls) (withoutGasLimit calls)
    omega
  · have hle := UInt64.le_iff_toNat_le.1 (UInt64.not_lt.1 hlimit)
    rw [toNat_specifiedGas] at hle
    refine ⟨hle, fun htotal _ => ?_⟩
    rw [Nat.mod_eq_of_lt htotal] at hle
    rw [Nat.eq_zero_of_not_pos hmissing]
    omega

end Gas

/-! ## One call and one block -/

section Run

variable {C : Crypto} {hooks : SimHooks O R X} {transact : SimEvm → Transact E}
  {executeTransactions : ExecuteTransactions E R X P} {ex ex' : HlBlockExecutor}
  {txs executed : List (Recovered × ResultAndState)}

/-- A call is completed to a transaction, given some state. -/
def Resolves (hooks : SimHooks O R X) (defaultGas basefee : UInt64) (call : TransactionRequest R)
    (p : Recovered × ResultAndState) : Prop :=
  ∃ db, hooks.resolveTransaction call defaultGas basefee hooks.chainId db = .ok p.1

/-- Transactions that the executor executes and commits one after the other. Each one fits in the
    block, and is executed in an environment that is made of it, for whichever caller. -/
inductive Executes (transact : Transact E) :
    HlBlockExecutor → List (Recovered × ResultAndState) → HlBlockExecutor → Prop
  | nil {ex : HlBlockExecutor} : Executes transact ex [] ex
  | cons {ex ex' : HlBlockExecutor} {tx : Recovered} {env : HlTxEnv} {output : ResultAndState}
      {rest : List (Recovered × ResultAndState)} (henv : env.tx = tx.tx)
      (hlimit : tx.tx.gasLimit ≤ ex.evm.block.gasLimit - ex.gasUsed)
      (houtput : ex.evm.transact transact env = .ok output)
      (hrest : Executes transact (commitTransaction ex output tx).2 rest ex') :
      Executes transact ex ((tx, output) :: rest) ex'

/-- What a block is assembled from once its transactions are executed. No state root is
    computed. -/
def BlockBuilder.input (builder : BlockBuilder) (executed : List (Recovered × ResultAndState))
    (ex : HlBlockExecutor) : BlockAssemblerInput where
  evmEnv := ex.evm.block
  executionCtx := builder.ctx
  parent := builder.parent
  transactions := executed.map (·.1.tx)
  output := ex.finish.2
  stateRoot := 0

/-- What is assumed of `simulate::execute_transactions`: it applies the changes before the block,
    completes the calls, has the executor execute and commit the transactions in order, and
    assembles the block of them. -/
def ExecutesCalls (C : Crypto) (hooks : SimHooks O R X) (transact : SimEvm → Transact E)
    (assembler : HlBlockAssembler) (executeTransactions : ExecuteTransactions E R X P) : Prop :=
  ∀ builder calls defaultGas simulated db,
    executeTransactions builder calls defaultGas hooks.chainId = .ok (simulated, db) →
    ∃ ex executed ex', builder.executor.applyPreExecutionChanges = .ok ex ∧
      Executes (transact builder.evm) ex executed ex' ∧
      List.Forall₂ (Resolves hooks defaultGas ex.evm.block.basefee) calls executed ∧
      simulated = ⟨assembler.assembleBlock C (builder.input executed ex'),
        executed.map (·.2.result)⟩ ∧ db = ex'.evm.db

/-- Executing transactions in order extends the accounts of the executor. -/
theorem Executes.accounts {transact : Transact E} (hbounded : transact.GasBounded)
    (h : Executes transact ex executed ex') (haccounts : Accounts txs ex) :
    Accounts (txs ++ executed) ex' ∧ ex'.evm.block = ex.evm.block := by
  induction h generalizing txs with
  | nil => exact ⟨(List.append_nil txs).symm ▸ haccounts, rfl⟩
  | cons henv hlimit houtput _ ih =>
    obtain ⟨haccounts', hblock⟩ := ih (haccounts.commit hbounded henv hlimit houtput)
    rw [List.append_assoc, List.singleton_append] at haccounts'
    exact ⟨haccounts', hblock.trans (commitTransaction_block _ _ _)⟩

theorem block_of_start {evm : Evm} {ctx : HlBlockExecutionCtx} (h : start evm ctx = .ok ex) :
    ex.evm.block = evm.block := by
  rw [start_eq] at h
  cases hp : applyPrecompilesWithForwarder evm.block.number ctx.extras ctx.readPrecompileForwarder
      evm.precompiles with
  | error e =>
    rw [hp] at h
    cases h
  | ok precompiles =>
    rw [hp] at h
    cases h
    exact deployCorewriterContract_block _

/-- A builder has the executor of the block that was begun, before the changes are applied. -/
theorem createBlockBuilder_eq_ok {evm : SimEvm} {env : Evm} {parent : HlHeader}
    {ctx : HlBlockExecutionCtx} {builder : BlockBuilder}
    (h : createBlockBuilder evm env parent ctx = .ok builder)
    (hex : builder.executor.applyPreExecutionChanges = .ok ex) :
    start env ctx = .ok ex ∧ builder.evm = evm ∧ builder.ctx = ctx ∧ builder.parent = parent := by
  obtain ⟨executor, hexecutor, h⟩ := except_bind_eq_ok.1 h
  cases h
  exact ⟨except_bind_eq_ok.2 ⟨executor, hexecutor, hex⟩, rfl, rfl, rfl⟩

/-! ## The chain of simulated blocks -/

/-- A block that was simulated on top of a parent: it has a transaction and a result for each call,
    the header accounts for the gas of those that are not at gas price `0`, and the calls share
    the gas of the block, if their gas limits can be added up. -/
structure IsSimulated (C : Crypto) (hooks : SimHooks O R X) (extras : HlExtras) (parent : HlHeader)
    (block : SimBlock O R) (simulated : SimulatedBlock) : Prop where
  parentHash_eq : simulated.block.header.inner.parentHash = parent.hash C
  number_eq : simulated.block.header.inner.number = saturatingToU64
    ((block.blockOverrides.bind (·.number)).getD ((parent.inner.number + 1).toBitVec.setWidth 256))
  extras_eq : simulated.block.body.extras = extras
  gasUsed_le : simulated.block.header.inner.gasUsed ≤ simulated.block.header.inner.gasLimit
  calls : ∃ (executed : List (Recovered × ResultAndState)) (defaultGas basefee : UInt64),
    simulated.block.body.inner.transactions = executed.map (·.1.tx) ∧
    simulated.results = executed.map (·.2.result) ∧
    simulated.block.header.inner.gasUsed.toNat = regularGas executed ∧
    simulated.block.header.extras.systemTxCount = (executed.filter isSystemCommitted).length ∧
    simulated.block.header.inner.baseFeePerGas = some basefee ∧
    List.Forall₂ (Resolves hooks defaultGas basefee) block.calls executed ∧
    totalGas block.calls % 2 ^ 64 ≤ simulated.block.header.inner.gasLimit.toNat ∧
    (totalGas block.calls < 2 ^ 64 → withoutGasLimit block.calls < 2 ^ 64 →
      totalGas block.calls + defaultGas.toNat * withoutGasLimit block.calls ≤
        simulated.block.header.inner.gasLimit.toNat)

/-- Blocks that were simulated one on top of the other. -/
def IsSimulatedChain (C : Crypto) (hooks : SimHooks O R X) (extras : HlExtras) :
    HlHeader → List (SimBlock O R) → List SimulatedBlock → Prop
  | _, [], [] => True
  | parent, block :: blocks, simulated :: rest =>
    IsSimulated C hooks extras parent block simulated ∧
      IsSimulatedChain C hooks extras simulated.block.header blocks rest
  | _, _, _ => False

/-- The precompile data of simulated blocks. -/
def simulationExtras
    (simulationPrecompiles : Option (HlExtras × Option ScopedReadPrecompileForwarder)) : HlExtras :=
  (simulationPrecompiles.map (·.1)).getD ⟨none, none⟩

/-- The extras of the simulation are attached. -/
theorem extras_attachPrecompiles {ctx : HlBlockExecutionCtx}
    {simulationPrecompiles : Option (HlExtras × Option ScopedReadPrecompileForwarder)}
    (hextras : ctx.extras = ⟨none, none⟩) :
    (attachPrecompiles ctx simulationPrecompiles).extras =
      simulationExtras simulationPrecompiles := by
  cases simulationPrecompiles with
  | none => exact hextras
  | some attached => rfl

theorem ctx_attachPrecompiles (ctx : HlBlockExecutionCtx)
    (simulationPrecompiles : Option (HlExtras × Option ScopedReadPrecompileForwarder)) :
    (attachPrecompiles ctx simulationPrecompiles).ctx = ctx.ctx := by
  cases simulationPrecompiles <;> rfl

/-- The number is that of the override, if there is one. -/
theorem number_overrideBlock {overrides : Option BlockOverrides} {env env' : BlockEnv}
    (h : (overrideBlock hooks overrides env : Except (SimulateError E X P) BlockEnv) = .ok env') :
    env'.number = (overrides.bind (·.number)).getD env.number := by
  cases overrides with
  | none =>
    cases h
    rfl
  | some overrides =>
    simp only [overrideBlock] at h
    split_ifs at h
    cases h
    exact hooks.number_overrideBlockEnv overrides env

theorem number_simulationEnv (validation : Bool) (env : EvmEnv) :
    (simulationEnv validation env).blockEnv.number = env.blockEnv.number := by
  cases validation <;> rfl

variable {assembler : HlBlockAssembler} {precompiles : PrecompilesMap}
  {simulationPrecompiles : Option (HlExtras × Option ScopedReadPrecompileForwarder)}
  {payload : SimulatePayload O R} {s s' : SimState} {simulated : SimulatedBlock}

/-- What is simulated for a block. -/
theorem simulateBlock_spec (hbounded : ∀ evm, (transact evm).GasBounded)
    (hexecutes : ExecutesCalls C hooks transact assembler executeTransactions)
    {block : SimBlock O R}
    (h : simulateBlock hooks C executeTransactions precompiles simulationPrecompiles payload s
      block = .ok (simulated, s')) :
    IsSimulated C hooks (simulationExtras simulationPrecompiles) s.parent block simulated ∧
      s'.parent = simulated.block.header := by
  simp only [simulateBlock, except_bind_eq_ok, mapError_eq_ok] at h
  obtain ⟨attributes, -, env, henv, db, -, defaultGas, hdefault, builder, hbuilder,
    ⟨simulated', db'⟩, hexecute, h⟩ := h
  cases h
  -- What the calls are executed with is a run of the driver, so the accounting of gas applies.
  obtain ⟨ex, executed, ex', hex, hrun, hresolves, rfl, -⟩ := hexecutes _ _ _ _ _ hexecute
  obtain ⟨hstart, -, hctx, hparent⟩ := createBlockBuilder_eq_ok hbuilder hex
  refine ⟨?_, rfl⟩
  have hinit : (driver C (transact builder.evm)).init ex := ⟨_, _, hstart⟩
  obtain ⟨haccounts, hblock⟩ := hrun.accounts (hbounded _) (accounts_init hinit)
  rw [block_of_start hstart] at hblock hresolves
  rw [List.nil_append] at haccounts
  obtain ⟨hwrap, hbudget⟩ := defaultGasLimit_le hdefault
  have hlimit : ex'.evm.block.gasLimit = env.gasLimit := congrArg BlockEnv.gasLimit hblock
  rw [← hlimit] at hwrap hbudget
  refine ⟨?_, ?_, ?_, haccounts.gas_le, executed, defaultGas, env.basefee, rfl, rfl,
    haccounts.gas_eq, ?_, congrArg (fun env : BlockEnv => some env.basefee) hblock, hresolves,
    hwrap, hbudget⟩
  · change builder.ctx.ctx.parentHash = _
    rw [hctx, ctx_attachPrecompiles]
    rfl
  · change saturatingToU64 ex'.evm.block.number = _
    rw [hblock, number_overrideBlock henv, number_simulationEnv]
    rfl
  · change builder.ctx.extras = _
    rw [hctx]
    exact extras_attachPrecompiles rfl
  · change (List.filter _ (executed.map (·.1.tx))).length = _
    rw [List.filter_map, List.length_map]
    rfl

/-- Blocks are simulated one after the other. -/
theorem simulateBlocks_spec (hbounded : ∀ evm, (transact evm).GasBounded)
    (hexecutes : ExecutesCalls C hooks transact assembler executeTransactions)
    {blocks : List (SimBlock O R)} {results : List SimulatedBlock}
    (h : simulateBlocks hooks C executeTransactions precompiles simulationPrecompiles payload s
      blocks = .ok results) :
    IsSimulatedChain C hooks (simulationExtras simulationPrecompiles) s.parent blocks results := by
  induction blocks generalizing s results with
  | nil =>
    cases h
    trivial
  | cons block blocks ih =>
    obtain ⟨⟨simulated, s'⟩, hblock, h⟩ := except_bind_eq_ok.1 h
    obtain ⟨rest, hrest, h⟩ := except_bind_eq_ok.1 h
    cases h
    obtain ⟨hsimulated, hparent⟩ := simulateBlock_spec hbounded hexecutes hblock
    exact ⟨hsimulated, hparent ▸ ih hrest⟩

/-! ## The request -/

variable {api api' : HlCallApi P} {recoveredBlock : Except X (Option HlBlock)}
  {state : Except X Db} {blocks : List SimulatedBlock}

/-- The range of the read precompiles of the blocks that are simulated on top of a block. -/
def IsSimulationRange (api : HlCallApi P) (parentBlockNumber : UInt64) (highest : Option Address) :
    Prop :=
  match api.forwarder with
  | none => highest = none
  | some _ => ∃ chainInfo extras, api.chainInfo = .ok chainInfo ∧
    api.getHlExtras (min parentBlockNumber chainInfo.bestNumber) = .ok extras ∧
    highest = extras.highestPrecompileAddress

/-- The range of precompiles is that of the block. -/
theorem simulationPrecompiles_eq_ok {number : UInt64}
    (h : api.simulationPrecompiles number = .ok simulationPrecompiles) :
    ∃ highest, simulationExtras simulationPrecompiles = ⟨none, highest⟩ ∧
      IsSimulationRange api number highest := by
  unfold HlCallApi.simulationPrecompiles at h
  unfold IsSimulationRange
  cases hforwarder : api.forwarder with
  | none =>
    rw [hforwarder] at h
    cases h
    exact ⟨none, rfl, rfl⟩
  | some forwarder =>
    simp only [hforwarder, HlCallApi.hlSimulationPrecompiles, except_bind_eq_ok] at h
    obtain ⟨_, ⟨chainInfo, hinfo, extras, hextras, hattached⟩, h⟩ := h
    cases hattached
    cases h
    exact ⟨_, rfl, chainInfo, extras, hinfo, hextras, rfl⟩

/-- **Simulated blocks**: the blocks that are returned are a chain on top of the base block, one
    for each block of the request. None has recorded calls. In a node with a forwarder, all have the
    range of the base block, or of the head if that is below it; in a node without, none has a
    range. -/
theorem simulateV1_spec (hbounded : ∀ evm, (transact evm).GasBounded)
    (hexecutes : ExecutesCalls C hooks transact assembler executeTransactions)
    (h : simulateV1 hooks C executeTransactions api payload recoveredBlock state = .ok blocks) :
    0 < payload.blockStateCalls.length ∧
      payload.blockStateCalls.length ≤ hooks.maxSimulateBlocks.toNat ∧
      ∃ baseBlock highest, recoveredBlock = .ok (some baseBlock) ∧
        IsSimulationRange api baseBlock.header.inner.number highest ∧
        IsSimulatedChain C hooks ⟨none, highest⟩ baseBlock.header payload.blockStateCalls
          blocks := by
  unfold simulateV1 at h
  -- The number of blocks is checked before anything else.
  by_cases hmax : hooks.maxSimulateBlocks.toNat < payload.blockStateCalls.length
  · rw [if_pos hmax] at h
    cases h
  by_cases hempty : payload.blockStateCalls = []
  · rw [if_neg hmax, if_pos hempty] at h
    cases h
  rw [if_neg hmax, if_neg hempty] at h
  obtain ⟨found, hfound, h⟩ := except_bind_eq_ok.1 h
  rw [mapError_eq_ok] at hfound
  cases found with
  | none => cases h
  | some baseBlock =>
    simp only [except_bind_eq_ok, mapError_eq_ok] at h
    obtain ⟨simulationPrecompiles, hprecompiles, db, -, h⟩ := h
    obtain ⟨highest, hextras, hrange⟩ := simulationPrecompiles_eq_ok hprecompiles
    have hchain := simulateBlocks_spec hbounded hexecutes h
    rw [hextras] at hchain
    exact ⟨List.length_pos_iff.2 hempty, Nat.not_lt.1 hmax, baseBlock, highest, hfound, hrange,
      hchain⟩

/-- The dependencies of the node, for requests of transfers at a gas price. -/
def simHooks : SimHooks Empty U128 Unit where
  toOverrideHooks := fieldOverrides
  callGasLimit := 50000000
  maxSimulateBlocks := 256
  chainId := 999
  nextEnvAttributes parent := .ok ⟨parent.inner.timestamp + 12, 0, 0, 30000000, some 0, some []⟩
  nextBlockBaseFee _ _ := some 1
  applyStateOverrides _ db := .ok db
  resolveTransaction call _ _ _ _ := .ok (emptyTransfer call.rest)

/-- A block with a transfer at gas price `1` and one at gas price `0`, and a block that is
    renumbered. -/
def simPayload : SimulatePayload Empty U128 where
  blockStateCalls :=
    [⟨none, none, [⟨none, none, 1⟩, ⟨some 21000, none, 0⟩]⟩,
     ⟨some ⟨some 20, none, none, none, none, none, none, none⟩, none, [⟨none, none, 1⟩]⟩]
  traceTransfers := false
  validation := true

/-- Executes the transactions of a list for their senders, and commits them. -/
def executeForSigners : HlBlockExecutor → List Recovered →
    Except (SimulateError Unit Unit Unit) (List (Recovered × ResultAndState) × HlBlockExecutor)
  | ex, [] => .ok ([], ex)
  | ex, tx :: txs =>
    if ex.evm.block.gasLimit - ex.gasUsed < tx.tx.gasLimit then .error .gasLimitReached
    else do
      let output ← (ex.evm.transact transferTransact ⟨tx.tx, tx.signer⟩).mapError .api
      let (rest, ex) ← executeForSigners (commitTransaction ex output tx).2 txs
      return ((tx, output) :: rest, ex)

/-- Executes the transfers of a block. -/
def executeTransfers : ExecuteTransactions Unit U128 Unit Unit := fun builder calls _ _ => do
  let ex ← builder.executor.applyPreExecutionChanges.mapError .panic
  let (executed, ex) ← executeForSigners ex (calls.map fun call => emptyTransfer call.rest)
  return (⟨hlAssembler.assembleBlock emptyCrypto (builder.input executed ex),
    executed.map (·.2.result)⟩, ex.evm.db)

/-- The executor executes what it is given. -/
theorem executes_executeForSigners {txs : List Recovered}
    (h : executeForSigners ex txs = .ok (executed, ex')) :
    Executes transferTransact ex executed ex' ∧ executed.map (·.1) = txs := by
  induction txs generalizing ex executed with
  | nil =>
    cases h
    exact ⟨.nil, rfl⟩
  | cons tx txs ih =>
    rw [executeForSigners] at h
    split_ifs at h with hlimit
    simp only [except_bind_eq_ok, mapError_eq_ok] at h
    obtain ⟨output, houtput, ⟨rest, ex₁⟩, hrest, h⟩ := h
    cases h
    obtain ⟨hexecutes, hmap⟩ := ih hrest
    exact ⟨.cons rfl (UInt64.not_lt.1 hlimit) houtput hexecutes, by rw [List.map_cons, hmap]⟩

/-- This executor is as `ExecutesCalls` asks for. -/
theorem executesCalls_executeTransfers :
    ExecutesCalls emptyCrypto simHooks (fun _ => transferTransact) hlAssembler
      executeTransfers := by
  intro builder calls defaultGas simulated db h
  simp only [executeTransfers, except_bind_eq_ok, mapError_eq_ok] at h
  obtain ⟨ex, hex, ⟨executed, ex'⟩, hrun, h⟩ := h
  cases h
  obtain ⟨hexecutes, hmap⟩ := executes_executeForSigners hrun
  refine ⟨ex, executed, ex', hex, hexecutes, ?_, rfl, rfl⟩
  rw [← List.forall₂_eq_eq_eq, List.forall₂_map_left_iff, List.forall₂_map_right_iff] at hmap
  exact hmap.flip.imp fun call p hp => ⟨fun _ => none, congrArg Except.ok hp.symm⟩

/-- The blocks that are simulated on top of block 5. -/
def simBlocks : Except (SimulateError Unit Unit Unit) (List SimulatedBlock) :=
  simulateV1 simHooks emptyCrypto executeTransfers (callChain.withForwarder callHead none)
    simPayload (.ok (some (callBlock 5 []))) (.ok (transferEvm 0).db)

/-- Two blocks on top of block 5: the transfer at gas price `0` uses no gas of the first one. -/
theorem simulateV1_spec_two : ∃ blocks, simBlocks = .ok blocks ∧
    blocks.map (fun b => (b.block.header.inner.number, b.block.header.inner.gasUsed,
      b.block.header.extras.systemTxCount)) = [(6, 21000, 1), (20, 21000, 0)] ∧
    ∃ highest, IsSimulatedChain emptyCrypto simHooks ⟨none, highest⟩ (callBlock 5 []).header
      simPayload.blockStateCalls blocks := by
  have hheaders : simBlocks.toOption.map (List.map fun b => (b.block.header.inner.number,
      b.block.header.inner.gasUsed, b.block.header.extras.systemTxCount)) =
      some [(6, 21000, 1), (20, 21000, 0)] := by decide +kernel
  cases hblocks : simBlocks with
  | error e =>
    rw [hblocks] at hheaders
    cases hheaders
  | ok blocks =>
    rw [hblocks] at hheaders
    refine ⟨blocks, rfl, Option.some.inj hheaders, ?_⟩
    obtain ⟨-, -, baseBlock, highest, hbase, -, hchain⟩ :=
      simulateV1_spec (fun _ => gasBounded_transferTransact) executesCalls_executeTransfers hblocks
    cases hbase
    exact ⟨highest, hchain⟩

/-! ## What is recorded in the chain -/

/-- A block without the calls that are recorded in it. -/
def HlBlock.unrecorded (block : HlBlock) : HlBlock :=
  { block with body.readPrecompileCalls := none }

/-- What is found in two chains differs in the recorded calls only. -/
def SameUnrecorded {X : Type} (found found' : Except X (Option HlBlock)) : Prop :=
  found.map (Option.map HlBlock.unrecorded) = found'.map (Option.map HlBlock.unrecorded)

/-- Either nothing is found in both chains, or blocks with the same header and range. -/
theorem SameUnrecorded.cases {X : Type} {found found' : Except X (Option HlBlock)}
    (h : SameUnrecorded found found') :
    found = found' ∨ ∃ block block', found = .ok (some block) ∧ found' = .ok (some block') ∧
      block.header = block'.header ∧
      block.body.highestPrecompileAddress = block'.body.highestPrecompileAddress := by
  match found, found' with
  | .error e, .error e' =>
    cases h
    exact .inl rfl
  | .error e, .ok found' => cases h
  | .ok found, .error e' => cases h
  | .ok none, .ok none => exact .inl rfl
  | .ok none, .ok (some block') => cases h
  | .ok (some block), .ok none => cases h
  | .ok (some block), .ok (some block') =>
    have hsame : block.unrecorded = block'.unrecorded :=
      Option.some.inj (Except.ok.inj h)
    exact .inr ⟨block, block', rfl, rfl, congrArg (·.header) hsame,
      congrArg (·.body.highestPrecompileAddress) hsame⟩

/-- The range of the precompiles is not recorded with the calls. -/
theorem highest_of_sameUnrecorded {number : UInt64}
    (h : SameUnrecorded (api.blockById number) (api'.blockById number)) :
    (api.getHlExtras number).map (·.highestPrecompileAddress) =
      (api'.getHlExtras number).map (·.highestPrecompileAddress) := by
  unfold HlEthApi.getHlExtras
  obtain heq | ⟨block, block', hfound, hfound', -, hhighest⟩ := h.cases
  · rw [heq]
  · rw [hfound, hfound']
    exact congrArg Except.ok hhighest

/-- Of the block whose range it is, only that is used. -/
theorem hlSimulationPrecompiles_some {forwarder : ReadPrecompileForwarder}
    (h : api.forwarder = some forwarder) (number : UInt64) :
    api.hlSimulationPrecompiles number = api.chainInfo >>= fun chainInfo =>
      (api.getHlExtras (min number chainInfo.bestNumber)).map (·.highestPrecompileAddress) >>=
        fun highest => .ok (⟨none, highest⟩, if chainInfo.bestNumber ≤ number then
          some (forwarder, chainInfo.bestHash) else none) := by
  unfold HlCallApi.hlSimulationPrecompiles
  rw [h]
  refine congrArg (api.chainInfo >>= ·) (funext fun chainInfo => ?_)
  dsimp only
  cases api.getHlExtras (min number chainInfo.bestNumber) <;> rfl

/-- The precompiles do not depend on recorded calls. -/
theorem simulationPrecompiles_congr (hforwarder : api.forwarder = api'.forwarder)
    (hinfo : api.chainInfo = api'.chainInfo)
    (hblocks : ∀ number, SameUnrecorded (api.blockById number) (api'.blockById number))
    (number : UInt64) : api.simulationPrecompiles number = api'.simulationPrecompiles number := by
  unfold HlCallApi.simulationPrecompiles
  cases h : api.forwarder with
  | none => rw [← hforwarder, h]
  | some forwarder =>
    rw [← hforwarder, h, hlSimulationPrecompiles_some h,
      hlSimulationPrecompiles_some (hforwarder ▸ h), hinfo]
    simp only [highest_of_sameUnrecorded (hblocks _)]

/-- What is recorded in the blocks of the chain makes no difference to a simulation: in two nodes
    whose blocks differ in it, the base block and those that are looked up for the range among
    them, the results are the same. -/
theorem simulateV1_congr (hooks : SimHooks O R X) (C : Crypto)
    (executeTransactions : ExecuteTransactions E R X P) (payload : SimulatePayload O R)
    (state : Except X Db) {recoveredBlock recoveredBlock' : Except X (Option HlBlock)}
    (hforwarder : api.forwarder = api'.forwarder) (hinfo : api.chainInfo = api'.chainInfo)
    (hprecompiles : api.precompiles = api'.precompiles)
    (hblocks : ∀ number, SameUnrecorded (api.blockById number) (api'.blockById number))
    (hbase : SameUnrecorded recoveredBlock recoveredBlock') :
    simulateV1 hooks C executeTransactions api payload recoveredBlock state =
      simulateV1 hooks C executeTransactions api' payload recoveredBlock' state := by
  have hrange := simulationPrecompiles_congr hforwarder hinfo hblocks
  unfold simulateV1
  obtain heq | ⟨block, block', hfound, hfound', hheader, -⟩ := hbase.cases
  · simp only [heq, hrange, hprecompiles]
  · subst hfound hfound'
    -- Only the header of the base block is used.
    simp only [Except.mapError, bind, Except.bind, hrange, hprecompiles, hheader]

/-- A chain without the calls that are recorded in its blocks. -/
def HlEthApi.unrecorded {P : Type} (api : HlEthApi P) : HlEthApi P where
  blockById number := (api.blockById number).map (Option.map HlBlock.unrecorded)
  precompiles := api.precompiles

/-- A block is the same without its records, but for them. -/
theorem sameUnrecorded_unrecorded {X : Type} (found : Except X (Option HlBlock)) :
    SameUnrecorded found (found.map (Option.map HlBlock.unrecorded)) := by
  match found with
  | .error e => rfl
  | .ok none => rfl
  | .ok (some block) => rfl

/-- The calls that are recorded in block 6 make no difference to the blocks that are simulated on
    top of it. -/
theorem simulateV1_congr_unrecorded :
    (callBlock 6 recordedCall).unrecorded ≠ callBlock 6 recordedCall ∧
    simulateV1 simHooks emptyCrypto executeTransfers
      (callChain.withForwarder callHead (some forwardAll)) simPayload
      (.ok (some (callBlock 6 recordedCall))) (.ok (transferEvm 0).db) =
    simulateV1 simHooks emptyCrypto executeTransfers
      (callChain.unrecorded.withForwarder callHead (some forwardAll)) simPayload
      (.ok (some (callBlock 6 recordedCall).unrecorded)) (.ok (transferEvm 0).db) := by
  refine ⟨fun h => ?_, simulateV1_congr _ _ _ _ _ rfl rfl rfl
    (fun number => sameUnrecorded_unrecorded _) (sameUnrecorded_unrecorded _)⟩
  cases congrArg (·.body.readPrecompileCalls) h

end Run

end Nanoreth
