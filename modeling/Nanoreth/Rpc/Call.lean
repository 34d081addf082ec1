import Nanoreth.Rpc.Trace

/-!
# Calls

A call (`eth_call`, or the trace of one) is run on the state after a block, in the
environment of the block with the overrides of the request (`prepareCallEnv`). The node
then installs the precompiles of a block, with a forwarder for what is not recorded there
if it is not older than the head (`hlCallPrecompiles`).

A call on the state of an old block is to be run with what is recorded in it, and without
a forwarder, whatever the request overrides. The number of the block is kept in the
transaction environment for that purpose, but only in a node with a forwarder, and the
number in the block environment is converted in either case. So the node does what it
should if and only if the overridden number fits in 64 bits, and the block of that number
has the same precompile data (`historicalCall_iff`).
-/

namespace Nanoreth

open Partial

/-! ## Environments -/

/-- The checks of the EVM that are switched off for calls. -/
structure CfgEnv where
  disableBlockGasLimit : Bool
  disableEip3607 : Bool
  disableBaseFee : Bool
  txGasLimitCap : Option UInt64
  deriving DecidableEq

/-- What a call is executed in, apart from the state. -/
structure EvmEnv where
  cfgEnv : CfgEnv
  blockEnv : BlockEnv
  deriving DecidableEq

/-- The fields of the block environment that a request sets. -/
structure BlockOverrides where
  number : Option U256
  difficulty : Option U256
  time : Option UInt64
  gasLimit : Option UInt64
  coinbase : Option Address
  random : Option B256
  baseFee : Option U256
  blockHash : Option (List (UInt64 × B256))
  deriving DecidableEq

/-- The overrides of a request, those of the state being `O`. -/
structure EvmOverrides (O : Type) where
  state : Option O
  block : Option BlockOverrides

/-- The number a request sets, or else that of the block. -/
def EvmOverrides.number {O : Type} (overrides : EvmOverrides O) (env : BlockEnv) : U256 :=
  (overrides.block.bind (·.number)).getD env.number

/-- A request for a call: its gas limit, its nonce, and its other fields. -/
structure TransactionRequest (R : Type) where
  gas : Option UInt64
  nonce : Option UInt64
  rest : R
  deriving DecidableEq

/-- The transaction of a call: its gas price and its gas limit, and its other fields. -/
structure TxEnv (T : Type) where
  gasPrice : U128
  gasLimit : UInt64
  rest : T
  deriving DecidableEq

/-- The transaction of a call, and the number of the block whose state it is run on. -/
structure RpcTxEnv (T : Type) where
  base : TxEnv T
  rpcStateBlockNumber : Option UInt64
  deriving DecidableEq

/-- How the fields that a request sets are put into the block environment. Of the result, the number
    is known. -/
structure OverrideHooks where
  overrideBlockEnv : BlockOverrides → BlockEnv → BlockEnv
  number_overrideBlockEnv : ∀ overrides env,
    (overrideBlockEnv overrides env).number = overrides.number.getD env.number

/-- What the node takes from its dependencies to prepare a call: the state `D` it is run on
    is changed by the overrides, and read to complete the request. -/
structure CallHooks (D O R T X : Type) extends OverrideHooks where
  callGasLimit : UInt64
  overrideBlockHashes : List (UInt64 × B256) → D → D
  applyStateOverrides : O → D → Except X D
  createTxnEnv : EvmEnv → TransactionRequest R → D → Except X (TxEnv T)
  callerGasAllowance : D → EvmEnv → TxEnv T → Except X UInt64

/-- Why a call is not prepared. -/
inductive PrepareError (X : Type)
  | api (error : X)
  | panic (halt : Halt)
  deriving DecidableEq

variable {D O R T X P : Type}

/-- The gas limit of a request is capped, if there is a cap, and set to it otherwise. -/
def TransactionRequest.capGas (request : TransactionRequest R) (callGasLimit : UInt64) :
    TransactionRequest R :=
  match request.gas with
  | some requestedGas =>
    if callGasLimit ≠ 0 ∧ callGasLimit < requestedGas then
      { request with gas := some callGasLimit } else request
  | none => { request with gas := some callGasLimit }

/-- The configuration of the EVM for calls. -/
def callCfg : CfgEnv where
  disableBlockGasLimit := true
  disableEip3607 := true
  disableBaseFee := true
  txGasLimitCap := some (UInt64.ofNat (2 ^ 64 - 1))

section Prepare

variable (hooks : CallHooks D O R T X)

/-- The gas limit of a request without one is what the caller can pay for. -/
def limitGas (requestHasGasLimit : Bool) (env : EvmEnv) (tx : TxEnv T) (db : D) :
    Except X (TxEnv T) :=
  if !requestHasGasLimit ∧ 0 < tx.gasPrice then do
    let cap ← hooks.callerGasAllowance db env tx
    return { tx with gasLimit := min cap env.blockEnv.gasLimit }
  else return tx

/-- The environment and the transaction of a call on the state of the block of `env`. The
    number of that block is kept if there is a forwarder. -/
def prepareCallEnv (forwarder : Option ReadPrecompileForwarder) (env : EvmEnv)
    (request : TransactionRequest R) (db : D) (overrides : EvmOverrides O) :
    Except (PrepareError X) (EvmEnv × RpcTxEnv T × D) := do
  let rpcStateBlockNumber ← (toU64 env.blockEnv.number).mapError .panic
  let requestHasGasLimit := request.gas.isSome
  -- The nonce is taken from the state.
  let request := { request.capGas hooks.callGasLimit with nonce := none }
  let db := match overrides.block.bind (·.blockHash) with
    | some blockHashes => hooks.overrideBlockHashes blockHashes db
    | none => db
  let block := match overrides.block with
    | some blockOverrides => hooks.overrideBlockEnv blockOverrides env.blockEnv
    | none => env.blockEnv
  let db ← (match overrides.state with
    | some stateOverrides => hooks.applyStateOverrides stateOverrides db
    | none => .ok db).mapError .api
  let base ← (hooks.createTxnEnv ⟨callCfg, block⟩ request db).mapError .api
  -- At gas price zero, there is no base fee to pay.
  let block := if base.gasPrice = 0 then { block with basefee := 0 } else block
  let base ← (limitGas hooks requestHasGasLimit ⟨callCfg, block⟩ base db).mapError .api
  return (⟨callCfg, block⟩, ⟨base, forwarder.map fun _ => rpcStateBlockNumber⟩, db)

end Prepare

/-! ## The precompiles of a call -/

/-- The head of the chain. -/
structure ChainInfo where
  bestHash : B256
  bestNumber : UInt64
  deriving DecidableEq

/-- The Ethereum API of a node, with or without a forwarder. -/
structure HlCallApi (P : Type) extends HlEthApi P where
  chainInfo : Except P ChainInfo
  forwarder : Option ReadPrecompileForwarder

namespace HlCallApi

variable (api : HlCallApi P)

/-- The precompile data to run a call with, and the forwarder, from the head on. -/
def hlCallPrecompiles (blockNumber : UInt64) :
    Except P (HlExtras × Option ScopedReadPrecompileForwarder) :=
  match api.forwarder with
  | none => do
    let extras ← api.getHlExtras blockNumber
    return (extras, none)
  | some forwarder => do
    let chainInfo ← api.chainInfo
    let atHead := some (forwarder, chainInfo.bestHash)
    if blockNumber < chainInfo.bestNumber then
      let extras ← api.getHlExtras blockNumber
      return (extras, none)
    else if blockNumber = chainInfo.bestNumber then
      let extras ← api.getHlExtras blockNumber
      return (extras, atHead)
    else
      -- A block that is not mined yet takes its range from the head.
      let head ← api.getHlExtras chainInfo.bestNumber
      return (⟨none, head.highestPrecompileAddress⟩, atHead)

variable {E : Type}

/-- The precompile data and the forwarder a call is run with. The number in the block
    environment is converted whether it is used or not. -/
def callPrecompiles (env : EvmEnv) (tx : RpcTxEnv T) :
    Except (RpcError E P) (HlExtras × Option ScopedReadPrecompileForwarder) := do
  let number ← (toU64 env.blockEnv.number).mapError .panic
  (api.hlCallPrecompiles (tx.rpcStateBlockNumber.getD number)).mapError .provider

/-- Runs a call in an EVM with its precompiles installed. -/
def callWith {A : Type} (run : EvmEnv → PrecompilesMap → RpcTxEnv T → Except E A) (env : EvmEnv)
    (tx : RpcTxEnv T) : Except (RpcError E P) A := do
  let (extras, forwarder) ← api.callPrecompiles env tx
  let precompiles ← (applyPrecompilesWithForwarder env.blockEnv.number extras forwarder
    api.precompiles).mapError .panic
  (run env precompiles tx).mapError .evm

/-- Executes a transaction of a request. -/
def transact {A : Type} (run : D → EvmEnv → PrecompilesMap → RpcTxEnv T → Except E A) (db : D)
    (env : EvmEnv) (tx : RpcTxEnv T) : Except (RpcError E P) A :=
  api.callWith (run db) env tx

/-- Executes a transaction of a request, with an inspector. -/
def transactWithInspector {A I : Type}
    (run : D → I → EvmEnv → PrecompilesMap → RpcTxEnv T → Except E A) (db : D) (env : EvmEnv)
    (tx : RpcTxEnv T) (inspector : I) : Except (RpcError E P) A :=
  api.callWith (run db inspector) env tx

/-- Runs the call of a trace. -/
def inspect {A I : Type} (run : D → I → EvmEnv → PrecompilesMap → RpcTxEnv T → Except E A)
    (db : D) (env : EvmEnv) (tx : RpcTxEnv T) (inspector : I) : Except (RpcError E P) A :=
  api.callWith (run db inspector) env tx

end HlCallApi

/-! ## Calls on old blocks -/

section Prepare

variable {hooks : CallHooks D O R T X} {env env' : EvmEnv} {request : TransactionRequest R}
  {db db' : D} {overrides : EvmOverrides O} {tx : RpcTxEnv T}

/-- A prepared call is one on the block of the overridden number, and keeps the number of the
    block it is run on if there is a forwarder. -/
theorem prepareCallEnv_eq_ok {forwarder : Option ReadPrecompileForwarder}
    (h : prepareCallEnv hooks forwarder env request db overrides = .ok (env', tx, db')) :
    env'.blockEnv.number = overrides.number env.blockEnv ∧
      ∃ number, toU64 env.blockEnv.number = .ok number ∧
        tx.rpcStateBlockNumber = forwarder.map fun _ => number := by
  simp only [prepareCallEnv, except_bind_eq_ok, mapError_eq_ok] at h
  obtain ⟨number, hnumber, _, -, base, -, _, -, h⟩ := h
  cases h
  refine ⟨?_, number, hnumber, rfl⟩
  have hblock : (match overrides.block with
      | some blockOverrides => hooks.overrideBlockEnv blockOverrides env.blockEnv
      | none => env.blockEnv).number = overrides.number env.blockEnv := by
    cases h : overrides.block <;> simp [EvmOverrides.number, h, hooks.number_overrideBlockEnv]
  split_ifs
  · exact hblock
  · exact hblock

/-- A forwarder makes no difference but for the number that is kept. -/
theorem prepareCallEnv_some (forwarder : ReadPrecompileForwarder) {number : UInt64}
    (hnumber : toU64 env.blockEnv.number = .ok number)
    (h : prepareCallEnv hooks none env request db overrides = .ok (env', tx, db')) :
    prepareCallEnv hooks (some forwarder) env request db overrides =
      .ok (env', { tx with rpcStateBlockNumber := some number }, db') := by
  simp only [prepareCallEnv, except_bind_eq_ok, mapError_eq_ok] at h ⊢
  obtain ⟨number', hnumber', db₁, hdb, base, hbase, base', hlimit, h⟩ := h
  refine ⟨number', hnumber', db₁, hdb, base, hbase, base', hlimit, ?_⟩
  cases h
  rw [hnumber] at hnumber'
  cases hnumber'
  rfl

end Prepare

namespace HlEthApi

variable (api : HlEthApi P)

/-- The API of a node at the given head, with or without a forwarder. -/
def withForwarder (info : ChainInfo) (forwarder : Option ReadPrecompileForwarder) :
    HlCallApi P where
  toHlEthApi := api
  chainInfo := .ok info
  forwarder := forwarder

variable {api} {info : ChainInfo} {number : UInt64} {extras : HlExtras}

theorem getHlExtras_eq_ok {block : HlBlock} (h : api.blockById number = .ok (some block)) :
    api.getHlExtras number = .ok block.body.extras := by
  rw [getHlExtras, h]
  rfl

/-- Without a forwarder, only the extras are read. -/
theorem hlCallPrecompiles_none :
    (api.withForwarder info none).hlCallPrecompiles number = .ok (extras, none) ↔
      api.getHlExtras number = .ok extras := by
  change (api.getHlExtras number >>= fun extras => .ok (extras, none)) = _ ↔ _
  cases api.getHlExtras number with
  | error e => exact iff_of_false nofun nofun
  | ok found =>
    change Except.ok (found, none) = _ ↔ _
    simp

/-- Below the head, the forwarder makes no difference. -/
theorem hlCallPrecompiles_below (forwarder : ReadPrecompileForwarder)
    (h : number < info.bestNumber) :
    (api.withForwarder info (some forwarder)).hlCallPrecompiles number =
      (api.withForwarder info none).hlCallPrecompiles number := by
  change (if number < info.bestNumber then _ else _) = _
  rw [if_pos h]
  rfl

end HlEthApi

/-- A call uses the precompiles of the block it is made at. -/
theorem HlCallApi.callPrecompiles_eq_ok {E : Type} {api : HlCallApi P} {env : EvmEnv}
    {tx : RpcTxEnv T} {chosen : HlExtras × Option ScopedReadPrecompileForwarder} :
    (api.callPrecompiles env tx : Except (RpcError E P) _) = .ok chosen ↔
      ∃ number, toU64 env.blockEnv.number = .ok number ∧
        api.hlCallPrecompiles (tx.rpcStateBlockNumber.getD number) = .ok chosen := by
  simp only [callPrecompiles, except_bind_eq_ok, mapError_eq_ok]

/-- The precompile data and the forwarder a request on the state of `block` is run with, from
    its preparation on. -/
def HlCallApi.callAt {E : Type} (api : HlCallApi P) (hooks : CallHooks D O R T X) (cfg : CfgEnv)
    (block : HlBlock) (request : TransactionRequest R) (db : D) (overrides : EvmOverrides O) :
    Except (PrepareError X)
      (Except (RpcError E P) (HlExtras × Option ScopedReadPrecompileForwarder)) := do
  let (env, tx, _) ← prepareCallEnv hooks api.forwarder ⟨cfg, evmEnv block.header⟩ request db
    overrides
  return api.callPrecompiles env tx

/-- **Historical calls**: a call on the state of a block below the head is run with what is
    recorded in the block, without a forwarder, in a node with a forwarder and in one without,
    if and only if the number of the block environment fits in 64 bits, and what is recorded
    in the block of that number is the same. -/
theorem historicalCall_iff {E : Type} (api : HlEthApi P) (info : ChainInfo)
    (forwarder : ReadPrecompileForwarder) (hooks : CallHooks D O R T X) (cfg : CfgEnv)
    (block : HlBlock) (request : TransactionRequest R) (db : D) (overrides : EvmOverrides O)
    (hblock : api.blockById block.header.inner.number = .ok (some block))
    (hbelow : block.header.inner.number < info.bestNumber)
    (hprepared : ∃ prepared, prepareCallEnv hooks none ⟨cfg, evmEnv block.header⟩ request db
      overrides = .ok prepared) :
    (∀ forwarder' ∈ [none, some forwarder],
      (api.withForwarder info forwarder').callAt (E := E) hooks cfg block request db overrides =
        .ok (.ok (block.body.extras, none))) ↔
      ∃ number, toU64 (overrides.number (evmEnv block.header)) = .ok number ∧
        api.getHlExtras number = .ok block.body.extras := by
  obtain ⟨⟨env, tx, db'⟩, hnone⟩ := hprepared
  have hsome := prepareCallEnv_some forwarder (toU64_number block.header) hnone
  obtain ⟨hnumber, _, -, hkept⟩ := prepareCallEnv_eq_ok hnone
  have hcall : ∀ forwarder' tx', prepareCallEnv hooks forwarder' ⟨cfg, evmEnv block.header⟩
      request db overrides = .ok (env, tx', db') →
      (api.withForwarder info forwarder').callAt (E := E) hooks cfg block request db overrides =
        .ok ((api.withForwarder info forwarder').callPrecompiles env tx') := by
    intro forwarder' tx' h
    change (prepareCallEnv hooks forwarder' _ request db overrides >>= _) = _
    rw [h]
    rfl
  rw [List.forall_mem_cons, List.forall_mem_singleton, hcall _ _ hnone, hcall _ _ hsome,
    Except.ok.injEq, Except.ok.injEq, HlCallApi.callPrecompiles_eq_ok,
    HlCallApi.callPrecompiles_eq_ok, ← hnumber, hkept]
  simp only [Option.map_none, Option.getD_none, Option.getD_some,
    HlEthApi.hlCallPrecompiles_below forwarder hbelow, HlEthApi.hlCallPrecompiles_none,
    HlEthApi.getHlExtras_eq_ok hblock, and_true]
  -- What the node with a forwarder needs, the other one does, too.
  exact and_iff_left_of_imp fun ⟨number, hfits, _⟩ => ⟨number, hfits⟩

/-- A block without transactions, with the given recorded calls. -/
def callBlock (number : UInt64) (calls : ReadPrecompileCalls) : HlBlock where
  header := ⟨{ (default : Header) with number := number }, ⟨0, 0⟩⟩
  body := ⟨⟨[], [], some []⟩, none, some calls, none⟩

/-- A call recorded in block 6. -/
def recordedCall : ReadPrecompileCalls := [(0x801, [(⟨[1], 2000⟩, .ok 1000 [7])])]

/-- A chain of which the blocks 5 and 6 are known, and its head. -/
def callChain : HlEthApi Unit where
  blockById number :=
    if number = 5 then .ok (some (callBlock 5 []))
    else if number = 6 then .ok (some (callBlock 6 recordedCall))
    else .ok none
  precompiles _ := none

/-- The head of the chain. -/
def callHead : ChainInfo := ⟨0xbeef, 10⟩

/-- The block environment, with the fields a request sets. -/
def BlockOverrides.apply (overrides : BlockOverrides) (env : BlockEnv) : BlockEnv where
  number := overrides.number.getD env.number
  beneficiary := overrides.coinbase.getD env.beneficiary
  timestamp := (overrides.time.map (·.toBitVec.setWidth 256)).getD env.timestamp
  difficulty := overrides.difficulty.getD env.difficulty
  prevrandao := overrides.random.or env.prevrandao
  gasLimit := overrides.gasLimit.getD env.gasLimit
  basefee := (overrides.baseFee.map saturatingToU64).getD env.basefee
  blobExcessGas := env.blobExcessGas

/-- Every field that a request sets is overridden. -/
def fieldOverrides : OverrideHooks where
  overrideBlockEnv := BlockOverrides.apply
  number_overrideBlockEnv _ _ := rfl

/-- The dependencies of the node, for requests at gas price `0` that override no state. -/
def callHooks : CallHooks Unit Empty Unit Unit Unit where
  toOverrideHooks := fieldOverrides
  callGasLimit := 50000000
  overrideBlockHashes _ db := db
  applyStateOverrides _ db := .ok db
  createTxnEnv _ request _ := .ok ⟨0, request.gas.getD 0, ()⟩
  callerGasAllowance _ _ _ := .ok 0

/-- A forwarder that answers every call. -/
def forwardAll : ReadPrecompileForwarder := fun _ _ gas _ _ => .ok (.ok ⟨gas, [9], false⟩)

/-- The overrides of the block number and of the timestamp. -/
def overriding (number : Option U256) (time : Option UInt64) : EvmOverrides Empty where
  state := none
  block := some ⟨number, none, time, none, none, none, none, none⟩

/-- A call on block 5 that overrides the timestamp is run with what block 5 recorded. -/
theorem historicalCall_time :
    (callChain.withForwarder callHead none).callAt (E := Unit) callHooks callCfg (callBlock 5 [])
        ⟨none, none, ()⟩ () (overriding none (some 1900000000)) =
      .ok (.ok ((callBlock 5 []).body.extras, none)) ∧
    (callChain.withForwarder callHead (some forwardAll)).callAt (E := Unit) callHooks callCfg
        (callBlock 5 []) ⟨none, none, ()⟩ () (overriding none (some 1900000000)) =
      .ok (.ok ((callBlock 5 []).body.extras, none)) := by
  have h := (historicalCall_iff (E := Unit) callChain callHead forwardAll callHooks callCfg
    (callBlock 5 []) ⟨none, none, ()⟩ () (overriding none (some 1900000000)) rfl (by decide)
    ⟨_, rfl⟩).2 ⟨5, rfl, rfl⟩
  rwa [List.forall_mem_cons, List.forall_mem_singleton] at h

/-- A call on block 5 that overrides the number with 6 is run with what block 6 recorded, but
    for nodes with a forwarder. One that overrides it with `2 ^ 64` panics in all nodes. -/
theorem historicalCall_overridden :
    (callChain.withForwarder callHead none).callAt (E := Unit) callHooks callCfg (callBlock 5 [])
        ⟨none, none, ()⟩ () (overriding (some 6) none) =
      .ok (.ok ((callBlock 6 recordedCall).body.extras, none)) ∧
    (callChain.withForwarder callHead (some forwardAll)).callAt (E := Unit) callHooks callCfg
        (callBlock 5 []) ⟨none, none, ()⟩ () (overriding (some 6) none) =
      .ok (.ok ((callBlock 5 []).body.extras, none)) ∧
    (callBlock 6 recordedCall).body.extras ≠ (callBlock 5 []).body.extras ∧
    ∀ forwarder ∈ [none, some forwardAll],
      (callChain.withForwarder callHead forwarder).callAt (E := Unit) callHooks callCfg
          (callBlock 5 []) ⟨none, none, ()⟩ () (overriding (some 18446744073709551616) none) =
        .ok (.error (.panic (.panic "Uint conversion error"))) := by
  refine ⟨rfl, rfl, by decide, ?_⟩
  rw [List.forall_mem_cons, List.forall_mem_singleton]
  exact ⟨rfl, rfl⟩

end Nanoreth
