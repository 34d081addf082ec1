import Nanoreth.Lib.Bisect
import Nanoreth.Rpc.TxEnv

/-!
# Gas estimation

The gas that a transaction needs is found by running it with different gas limits
(`eth_estimateGas`, in `rpc/estimate.rs`). A transfer is first tried with the least gas that a
transaction needs. Otherwise the transaction is run with the most gas that it may use: that of the
request, of the block, and what the caller can pay for. If it succeeds, a limit is searched for
between what it has used and that. First a guess is tried, from what was used and refunded; then the
bounds are narrowed, until they are close.

A transaction may succeed with some gas limit, and fail with a higher one: the precompile calls that
are recorded in a block are found by their exact gas limit. So what the search returns need not be
the least limit, but it is always one that a run has succeeded with. The search ends, and the
arithmetic on gas limits does not overflow (`estimateGasWith_spec`).
-/

namespace Nanoreth

open Partial Bisect

/-- The gas of a plain transfer. -/
def minTransactionGas : ℕ := 21000

/-- The gas that is given to the recipient of a transfer. -/
def callStipendGas : ℕ := 2300

/-- What the estimate takes from the result of a run. A run halts for a reason `H`. -/
inductive CallResult (H : Type)
  | success (gasUsed gasRefunded : ℕ)
  | revert (gasUsed : ℕ) (output : Bytes)
  | halt (reason : H) (gasUsed : ℕ)
  deriving DecidableEq

namespace CallResult

variable {H : Type}

/-- The gas that is used, whatever the outcome. -/
def gasUsed : CallResult H → ℕ
  | success gasUsed _ => gasUsed
  | revert gasUsed _ => gasUsed
  | halt _ gasUsed => gasUsed

/-- Whether a call succeeds. -/
def isSuccess : CallResult H → Bool
  | success _ _ => true
  | _ => false

end CallResult

/-- Why there is no estimate. -/
inductive EstimateError (X P H : Type)
  | api (error : X)
  | provider (error : P)
  | gasRequiredExceedsAllowance (gasLimit : ℕ)
  | evmHalt (reason : H) (gasLimit : ℕ)
  | revert (output : Bytes)
  | panic (halt : Halt)

/-- What the node takes from its dependencies to estimate gas. `rangeError` is the error, if any,
    for which a halt ends the search, and `withinErrorRatio` tells if the bounds are close. -/
structure EstimateHooks (D O R X P H : Type) extends CallHooks D O R TxFields X where
  requestGasPrice : R → Option U128
  accountCode : D → Address → Except P (Option Bytes)
  transact : D → EvmEnv → PrecompilesMap → RpcTxEnv TxFields → Except X (CallResult H)
  isGasTooHigh : X → Bool
  isGasTooLow : X → Bool
  mapOutOfGasErr : D → EvmEnv → PrecompilesMap → RpcTxEnv TxFields → UInt64 → X
  rangeError : H → Option X
  withinErrorRatio : ℕ → ℕ → Bool

/-- A transaction that is ready to be run, and what the request and the block say of its gas. -/
structure EstimateSetup (D : Type) where
  db : D
  env : EvmEnv
  precompiles : PrecompilesMap
  tx : RpcTxEnv TxFields
  isBasicTransfer : Bool
  requestsGas : Bool
  maxGasLimit : UInt64

variable {D O R X P H : Type}

/-- Computations that run transactions, with the gas limits of their runs in order. -/
abbrev EstimateM (X P H : Type) := StateT (List ℕ) (Except (EstimateError X P H))

/-- A computation without runs, its errors being errors of the estimate. -/
def EstimateM.lift {α ε : Type} (f : ε → EstimateError X P H) (x : Except ε α) :
    EstimateM X P H α :=
  StateT.lift (x.mapError f)

/-! ## The setup -/

/-- The most gas that a transaction may use in the block. -/
def EvmEnv.maxGasLimit (env : EvmEnv) : UInt64 :=
  match env.cfgEnv.txGasLimitCap with
  | some cap => min cap env.blockEnv.gasLimit
  | none => env.blockEnv.gasLimit

/-- The most gas that the transaction of a request may use in the block. -/
def TransactionRequest.highestGasLimit (request : TransactionRequest R) (env : EvmEnv) : UInt64 :=
  match request.gas with
  | some gasLimit => if env.maxGasLimit < gasLimit then env.maxGasLimit else gasLimit
  | none => env.maxGasLimit

namespace EstimateHooks

variable (hooks : EstimateHooks D O R X P H)

/-- A call without input of an account without code. -/
def isBasicTransfer (db : D) (tx : TxEnv TxFields) : Bool :=
  tx.rest.data.isEmpty &&
    match tx.rest.kind with
    | .call target =>
      match hooks.accountCode db target with
      | .ok code => (code.map List.isEmpty).getD true
      -- If the code cannot be read, the target may have some.
      | .error _ => false
    | .create => false

/-- The gas limit that the search starts from: what the caller can pay for, if there is a price. -/
def startGasLimit (highest : UInt64) (db : D) (env : EvmEnv) (tx : TxEnv TxFields) :
    Except X UInt64 :=
  if 0 < tx.gasPrice then do
    let allowance ← hooks.callerGasAllowance db env tx
    return min highest allowance
  else return highest

/-- What is done before the transaction is run. -/
def setup (api : HlCallApi P) (env : EvmEnv) (request : TransactionRequest R) (db : D)
    (stateOverride : Option O) : Except (EstimateError X P H) (EstimateSetup D) := do
  let env := { env with
    cfgEnv := { env.cfgEnv with disableEip3607 := true, disableBaseFee := true } }
  let request := { request with nonce := none }
  let db ← (match stateOverride with
    | some overrides => hooks.applyStateOverrides overrides db
    | none => .ok db).mapError .api
  let tx ← (hooks.createTxnEnv env request db).mapError .api
  let highest ← (hooks.startGasLimit (request.highestGasLimit env) db env tx).mapError .api
  let number ← (toU64 env.blockEnv.number).mapError .panic
  let (extras, forwarder) ← (api.hlCallPrecompiles number).mapError .provider
  let precompiles ← (applyPrecompilesWithForwarder env.blockEnv.number extras forwarder
    api.precompiles).mapError .panic
  return {
    db := db
    env := env
    precompiles := precompiles
    tx := ⟨{ tx with gasLimit := min tx.gasLimit highest }, none⟩
    isBasicTransfer := hooks.isBasicTransfer db tx
    requestsGas := request.gas.isSome || (hooks.requestGasPrice request.rest).isSome
    maxGasLimit := env.maxGasLimit }

/-! ## The search -/

variable (setup : EstimateSetup D)

/-- The result of the transaction with a gas limit. -/
def resultAt (gasLimit : ℕ) : Except X (CallResult H) :=
  hooks.transact setup.db setup.env setup.precompiles
    { setup.tx with base := { setup.tx.base with gasLimit := UInt64.ofNat gasLimit } }

/-- Runs the transaction with a gas limit. -/
def runAt (gasLimit : ℕ) : EstimateM X P H (Except X (CallResult H)) := do
  modify (· ++ [gasLimit])
  return hooks.resultAt setup gasLimit

/-- The bound that the gas limit of a run becomes. -/
def updateEstimatedGasRange : CallResult H → Except X Side
  | .success _ _ => .ok .upper
  | .revert _ _ => .ok .lower
  | .halt reason _ =>
    match hooks.rangeError reason with
    | some error => .error error
    | none => .ok .lower

/-- Runs the transaction in the middle of the bounds. -/
def probe (mid : ℕ) : EstimateM X P H Side := do
  match ← hooks.runAt setup mid with
  | .error error =>
    if hooks.isGasTooHigh error then return .upper
    else if hooks.isGasTooLow error then return .lower
    else throw (.api error)
  | .ok result => EstimateM.lift .api (hooks.updateEstimatedGasRange result)

/-- Narrows the bounds of the gas limit, and returns the upper one. -/
def searchGas : ℕ → ℕ → ℕ → ℕ → EstimateM X P H ℕ
  | 0, _, _, _ => throw (.panic .outOfFuel)
  | fuel + 1, lowest, highest, mid => do
    let next ← EstimateM.lift .panic (checkedAdd 64 lowest 1)
    if next < highest then
      let width ← EstimateM.lift .panic (checkedSub highest lowest)
      if hooks.withinErrorRatio width highest then return highest
      else
        match ← hooks.probe setup mid with
        | .lower => searchGas fuel mid highest ((highest + mid) / 2)
        | .upper => searchGas fuel lowest mid ((mid + lowest) / 2)
    else return highest

/-- A guess at the gas limit. -/
def optimisticGasLimit (gasUsed gasRefund : ℕ) : Except Halt ℕ := do
  let spent ← checkedAdd 64 gasUsed gasRefund
  let sum ← checkedAdd 64 spent callStipendGas
  let scaled ← checkedMul 64 sum 64
  return scaled / 63

/-- Tries the guess, if it is below the highest gas limit. Returns the gas used by the last run,
    and the bounds. -/
def tryOptimistic (optimistic gasUsed lowest highest : ℕ) : EstimateM X P H (ℕ × ℕ × ℕ) :=
  if optimistic < highest then do
    match ← hooks.runAt setup optimistic with
    | .error error => throw (.api error)
    | .ok result =>
      match ← EstimateM.lift .api (hooks.updateEstimatedGasRange result) with
      | .upper => return (result.gasUsed, lowest, optimistic)
      | .lower => return (result.gasUsed, optimistic, highest)
  else return (gasUsed, lowest, highest)

/-- The search, when the transaction succeeds with the highest gas limit. -/
def narrow (fuel highest gasUsed gasRefund : ℕ) : EstimateM X P H ℕ := do
  let optimistic ← EstimateM.lift .panic (optimisticGasLimit gasUsed gasRefund)
  let (gasUsed, lowest, highest) ←
    hooks.tryOptimistic setup optimistic gasUsed (gasUsed - 1) highest
  let triple ← EstimateM.lift .panic (checkedMul 64 gasUsed 3)
  hooks.searchGas setup fuel lowest highest (min triple ((highest + lowest) / 2))

/-- Tries the gas of a basic transfer. -/
def tryBasicTransfer : EstimateM X P H Bool :=
  if setup.isBasicTransfer then do
    match ← hooks.runAt setup minTransactionGas with
    | .error _ => return false
    | .ok result => return result.isSuccess
  else return false

/-- The estimate, for a transaction that is ready to be run. -/
def estimate (fuel : ℕ) : EstimateM X P H ℕ := do
  let gasLimit := setup.tx.base.gasLimit.toNat
  let outOfGas := hooks.mapOutOfGasErr setup.db setup.env setup.precompiles setup.tx
    setup.maxGasLimit
  if ← hooks.tryBasicTransfer setup then return minTransactionGas
  else
    match ← hooks.runAt setup gasLimit with
    | .error error =>
      -- What was asked for may be the reason, so the call is tried once more with the largest
      -- limit.
      if hooks.isGasTooHigh error && setup.requestsGas then throw (.api outOfGas)
      else if hooks.isGasTooLow error then throw (.gasRequiredExceedsAllowance gasLimit)
      else throw (.api error)
    | .ok (.halt reason _) => throw (.evmHalt reason gasLimit)
    | .ok (.revert _ output) =>
      if setup.requestsGas then throw (.api outOfGas) else throw (.revert output)
    | .ok (.success gasUsed gasRefund) => hooks.narrow setup fuel gasLimit gasUsed gasRefund

/-- The estimate for a request, and the gas limits of the runs. -/
def estimateGasWith (api : HlCallApi P) (fuel : ℕ) (env : EvmEnv) (request : TransactionRequest R)
    (db : D) (stateOverride : Option O) : Except (EstimateError X P H) (ℕ × List ℕ) := do
  let setup ← hooks.setup api env request db stateOverride
  hooks.estimate setup fuel []

/-! ## Runs -/

/-- If a gas limit is too high, so are the higher ones. -/
def TooHighAbove : Prop :=
  ∀ {db env precompiles tx error gasLimit},
    hooks.transact db env precompiles tx = .error error → hooks.isGasTooHigh error = true →
      tx.base.gasLimit ≤ gasLimit →
      ∃ error', hooks.transact db env precompiles
          { tx with base := { tx.base with gasLimit := gasLimit } } = .error error' ∧
        hooks.isGasTooHigh error' = true

/-- The EVM does not use or refund more gas than the limit. -/
structure BoundsGas : Prop where
  gasUsed_le : ∀ {db env precompiles tx result},
    hooks.transact db env precompiles tx = .ok result → result.gasUsed ≤ tx.base.gasLimit.toNat
  gasRefunded_le : ∀ {db env precompiles tx gasUsed gasRefunded},
    hooks.transact db env precompiles tx = .ok (.success gasUsed gasRefunded) →
      gasRefunded ≤ tx.base.gasLimit.toNat

/-- The transaction succeeds with a gas limit. -/
def Succeeds (gasLimit : ℕ) : Prop :=
  ∃ gasUsed gasRefunded, hooks.resultAt setup gasLimit = .ok (.success gasUsed gasRefunded)

variable {hooks setup} {gasLimit lower upper mid fuel : ℕ} {runs runs' : List ℕ}

/-- No run uses more than its gas limit. -/
theorem BoundsGas.gasUsed_le_of_resultAt (hgas : hooks.BoundsGas) {result : CallResult H}
    (h : hooks.resultAt setup gasLimit = .ok result) : result.gasUsed ≤ gasLimit := by
  refine (hgas.gasUsed_le h).trans ?_
  rw [UInt64.toNat_ofNat']
  exact Nat.mod_le _ _

/-- No more than the gas limit is refunded. -/
theorem BoundsGas.gasRefunded_le_of_resultAt (hgas : hooks.BoundsGas) {gasUsed gasRefunded : ℕ}
    (h : hooks.resultAt setup gasLimit = .ok (.success gasUsed gasRefunded)) :
    gasRefunded ≤ gasLimit := by
  refine (hgas.gasRefunded_le h).trans ?_
  rw [UInt64.toNat_ofNat']
  exact Nat.mod_le _ _

/-- A gas limit below one that succeeds is not too high. -/
theorem TooHighAbove.not_tooHigh (hhigh : hooks.TooHighAbove) (hupper : hooks.Succeeds setup upper)
    (hlt : upper < 2 ^ 64) (hmid : mid ≤ upper) {error : X}
    (h : hooks.resultAt setup mid = .error error) : hooks.isGasTooHigh error ≠ true := by
  intro htooHigh
  have hle : UInt64.ofNat mid ≤ UInt64.ofNat upper := by
    rw [UInt64.le_iff_toNat_le, UInt64.toNat_ofNat', UInt64.toNat_ofNat',
      Nat.mod_eq_of_lt (hmid.trans_lt hlt), Nat.mod_eq_of_lt hlt]
    exact hmid
  obtain ⟨error', herror, -⟩ := hhigh h htooHigh hle
  obtain ⟨gasUsed, gasRefunded, hsuccess⟩ := hupper
  cases herror.symm.trans hsuccess

theorem runAt_apply : (hooks.runAt setup gasLimit : EstimateM X P H _) runs =
    .ok (hooks.resultAt setup gasLimit, runs ++ [gasLimit]) := rfl

theorem lift_eq_ok {α ε : Type} {f : ε → EstimateError X P H} {x : Except ε α} {a : α} :
    EstimateM.lift f x runs = .ok (a, runs') ↔ x = .ok a ∧ runs' = runs := by
  cases x with
  | error e => exact iff_of_false nofun nofun
  | ok b =>
    change Except.ok (b, runs) = Except.ok (a, runs') ↔ _
    simp [eq_comm]

theorem lift_ok {α ε : Type} (f : ε → EstimateError X P H) (a : α) :
    EstimateM.lift f (.ok a) runs = .ok (a, runs) := rfl

/-- What a probe finds. -/
theorem probe_apply : (hooks.probe setup mid : EstimateM X P H Side) runs =
    match hooks.resultAt setup mid with
    | .error error =>
      if hooks.isGasTooHigh error then .ok (.upper, runs ++ [mid])
      else if hooks.isGasTooLow error then .ok (.lower, runs ++ [mid])
      else .error (.api error)
    | .ok result =>
      match hooks.updateEstimatedGasRange result with
      | .error error => .error (.api error)
      | .ok side => .ok (side, runs ++ [mid]) := by
  rw [probe, bind_apply, runAt_apply, ok_bind]
  cases hresult : hooks.resultAt setup mid with
  | error error =>
    dsimp only
    split_ifs <;> rfl
  | ok result =>
    dsimp only
    cases hooks.updateEstimatedGasRange result <;> rfl

/-- The upper bound is lowered to limits that succeed. -/
theorem succeeds_of_upper {result : CallResult H} (hresult : hooks.resultAt setup mid = .ok result)
    (h : hooks.updateEstimatedGasRange result = .ok .upper) : hooks.Succeeds setup mid := by
  cases result with
  | success gasUsed gasRefunded => exact ⟨gasUsed, gasRefunded, hresult⟩
  | revert => cases h
  | halt reason =>
    rw [updateEstimatedGasRange] at h
    split at h <;> cases h

/-- A probe is a run, and its gas limit becomes the upper bound if the run succeeds. -/
theorem TooHighAbove.of_probe (hhigh : hooks.TooHighAbove) (hupper : hooks.Succeeds setup upper)
    (hlt : upper < 2 ^ 64) (hmid : mid ≤ upper) {side : Side}
    (h : (hooks.probe setup mid : EstimateM X P H Side) runs = .ok (side, runs')) :
    runs' = runs ++ [mid] ∧ (side = .upper → hooks.Succeeds setup mid) := by
  rw [probe_apply] at h
  cases hresult : hooks.resultAt setup mid with
  | error error =>
    simp only [hresult, if_neg (hhigh.not_tooHigh hupper hlt hmid hresult)] at h
    split_ifs at h
    cases h
    exact ⟨rfl, nofun⟩
  | ok result =>
    simp only [hresult] at h
    cases hupdate : hooks.updateEstimatedGasRange result with
    | error error =>
      rw [hupdate] at h
      cases h
    | ok side =>
      rw [hupdate] at h
      cases h
      exact ⟨rfl, fun hside => succeeds_of_upper hresult (hside ▸ hupdate)⟩

/-- A probe has no errors but those of the API. -/
theorem error_of_probe {e : EstimateError X P H}
    (h : (hooks.probe setup mid : EstimateM X P H Side) runs = .error e) :
    ∃ error, e = .api error := by
  rw [probe_apply] at h
  split at h
  · split_ifs at h
    cases h
    exact ⟨_, rfl⟩
  · split at h
    · cases h
      exact ⟨_, rfl⟩
    · cases h

/-! ## The bounds -/

/-- The search for gas limits is a bisection, as long as they do not overflow. -/
theorem searchGas_eq_search (hlower : lower < 2 ^ 63) (hupper : upper < 2 ^ 63)
    (hmid : mid < 2 ^ 63) :
    hooks.searchGas setup fuel lower upper mid runs =
      search (.panic .outOfFuel : EstimateError X P H) (hooks.probe setup)
        (fun lower upper => hooks.withinErrorRatio (upper - lower) upper) fuel lower upper mid
        runs := by
  induction fuel generalizing lower upper mid runs with
  | zero => rfl
  | succ fuel ih =>
    -- Both bounds are far from overflow, so that the arithmetic of the loop succeeds.
    rw [searchGas, bind_apply, checkedAdd_of_lt (by omega), lift_ok, ok_bind, search_succ]
    by_cases hlt : lower + 1 < upper
    · rw [if_pos hlt, if_pos hlt, bind_apply, checkedSub_of_le (by omega), lift_ok, ok_bind]
      dsimp only
      by_cases hstop : hooks.withinErrorRatio (upper - lower) upper
      · rw [if_pos hstop, if_pos hstop]
        rfl
      · rw [if_neg hstop, if_neg hstop, bind_apply]
        cases hprobe : (hooks.probe setup mid : EstimateM X P H Side) runs with
        | error e => rfl
        | ok r =>
          obtain ⟨side, runs'⟩ := r
          cases side with
          | lower => exact ih hmid hupper (by omega)
          | upper => exact ih hlower hmid (by omega)
    · rw [if_neg hlt, if_neg hlt]
      rfl

/-- What the search for gas limits returns is what the bisection does. -/
theorem search_of_searchGas {r : ℕ × List ℕ}
    (h : hooks.searchGas setup fuel lower upper mid runs = .ok r) :
    search (.panic .outOfFuel : EstimateError X P H) (hooks.probe setup)
      (fun lower upper => hooks.withinErrorRatio (upper - lower) upper) fuel lower upper mid
      runs = .ok r := by
  induction fuel generalizing lower upper mid runs with
  | zero => cases h
  | succ fuel ih =>
    rw [searchGas, bind_eq_ok] at h
    -- The search has returned, so no checked operation has panicked.
    obtain ⟨next, runs₁, hnext, h⟩ := h
    obtain ⟨hadd, rfl⟩ := lift_eq_ok.1 hnext
    cases eq_of_checkedAdd hadd
    rw [search_succ]
    by_cases hlt : lower + 1 < upper
    · rw [if_pos hlt, bind_eq_ok] at h
      obtain ⟨width, runs₂, hwidth, h⟩ := h
      obtain ⟨hsub, rfl⟩ := lift_eq_ok.1 hwidth
      cases eq_of_checkedSub hsub
      rw [if_pos hlt]
      by_cases hstop : hooks.withinErrorRatio (upper - lower) upper
      · rw [if_pos hstop] at h ⊢
        exact h
      · rw [if_neg hstop, bind_eq_ok] at h
        obtain ⟨side, runs₃, hprobe, h⟩ := h
        rw [if_neg hstop, hprobe]
        cases side with
        | lower => exact ih h
        | upper => exact ih h
    · rw [if_neg hlt] at h ⊢
      exact h

variable (hooks setup) in
/-- A run has succeeded with the upper bound, and the next one is below it. -/
structure Seen (limit lower upper mid : ℕ) (runs : List ℕ) : Prop where
  mem : upper ∈ runs
  succeeds : hooks.Succeeds setup upper
  le : upper ≤ limit
  mid_lt : lower + 1 < upper → mid < upper

/-- A probe keeps what is known of the bounds. -/
theorem TooHighAbove.preserves_seen (hhigh : hooks.TooHighAbove) {limit : ℕ}
    (hlimit : limit < 2 ^ 64) :
    Preserves (hooks.probe setup : ℕ → EstimateM X P H Side) (hooks.Seen setup limit) where
  lower {lower upper mid runs runs'} hlt hseen hprobe := by
    obtain ⟨rfl, -⟩ := hhigh.of_probe hseen.succeeds (hseen.le.trans_lt hlimit)
      (hseen.mid_lt hlt).le hprobe
    exact ⟨List.mem_append_left _ hseen.mem, hseen.succeeds, hseen.le, fun _ => by omega⟩
  upper {lower upper mid runs runs'} hlt hseen hprobe := by
    obtain ⟨rfl, hsucceeds⟩ := hhigh.of_probe hseen.succeeds (hseen.le.trans_lt hlimit)
      (hseen.mid_lt hlt).le hprobe
    have hmid := hseen.mid_lt hlt
    exact ⟨List.mem_append_right _ List.mem_cons_self, hsucceeds rfl, hmid.le.trans hseen.le,
      fun _ => by omega⟩

variable (hooks setup) in
/-- An estimate is a gas limit that a run has succeeded with. -/
def Sound (within : ℕ → Prop) (r : Except (EstimateError X P H) (ℕ × List ℕ)) : Prop :=
  ∀ v runs, r = .ok (v, runs) → v ∈ runs ∧ hooks.Succeeds setup v ∧ within v

/-- A result that is no panic. -/
def NoPanic {α : Type} (r : Except (EstimateError X P H) α) : Prop :=
  ∀ halt, r ≠ .error (.panic halt)

/-- What the search returns was run with success. -/
theorem TooHighAbove.sound_searchGas (hhigh : hooks.TooHighAbove) {limit : ℕ}
    (hlimit : limit < 2 ^ 64) (hseen : hooks.Seen setup limit lower upper mid runs) :
    hooks.Sound setup (· ≤ limit)
      (hooks.searchGas setup fuel lower upper mid runs : Except (EstimateError X P H) _) := by
  intro v runs' hfound
  obtain ⟨lower', mid', hseen'⟩ :=
    search_invariant (hhigh.preserves_seen hlimit) hseen (search_of_searchGas hfound)
  exact ⟨hseen'.mem, hseen'.succeeds, hseen'.le⟩

/-- The search does not panic. -/
theorem TooHighAbove.noPanic_searchGas (hhigh : hooks.TooHighAbove) {limit : ℕ}
    (hlimit : limit < 2 ^ 56) (hfuel : 57 < fuel) (hle : lower ≤ upper) (hmid : mid ≤ upper)
    (hseen : hooks.Seen setup limit lower upper mid runs) :
    NoPanic (hooks.searchGas setup fuel lower upper mid runs :
      Except (EstimateError X P H) _) := by
  have hupper := hseen.le
  have hpreserves : Preserves (hooks.probe setup : ℕ → EstimateM X P H Side)
      (hooks.Seen setup limit) := hhigh.preserves_seen (by omega)
  rw [searchGas_eq_search (by omega) (by omega) (by omega)]
  intro halt hpanic
  obtain ⟨_, _, _, _, -, hprobe⟩ :=
    error_of_search (k := 56) hpreserves hfuel (by omega) hmid hseen hpanic
  obtain ⟨error, heq⟩ := error_of_probe hprobe
  cases heq

/-- The optimistic limit does not overflow. -/
theorem optimisticGasLimit_eq {gasUsed gasRefund : ℕ} (hused : gasUsed < 2 ^ 56)
    (hrefund : gasRefund < 2 ^ 56) : optimisticGasLimit gasUsed gasRefund =
      .ok ((gasUsed + gasRefund + callStipendGas) * 64 / 63) := by
  have hstipend : callStipendGas = 2300 := rfl
  simp only [optimisticGasLimit, except_bind_eq_ok]
  exact ⟨_, checkedAdd_of_lt (by omega), _, checkedAdd_of_lt (by omega), _,
    checkedMul_of_lt (by omega), rfl⟩

/-- The guess is not below the highest gas limit, or its run fails, or it becomes a bound. -/
theorem tryOptimistic_cases {optimistic highest gasUsed lowest : ℕ} :
    let r : Except (EstimateError X P H) _ :=
      hooks.tryOptimistic setup optimistic gasUsed lowest highest runs
    r = .ok ((gasUsed, lowest, highest), runs) ∨ (∃ error, r = .error (.api error)) ∨
    optimistic < highest ∧ ∃ result, hooks.resultAt setup optimistic = .ok result ∧
      (hooks.Succeeds setup optimistic ∧
          r = .ok ((result.gasUsed, lowest, optimistic), runs ++ [optimistic]) ∨
        r = .ok ((result.gasUsed, optimistic, highest), runs ++ [optimistic])) := by
  intro r
  have hr : r = (hooks.tryOptimistic setup optimistic gasUsed lowest highest :
    EstimateM X P H _) runs := rfl
  rw [tryOptimistic] at hr
  -- The optimistic limit is only tried below the highest one.
  by_cases hlt : optimistic < highest
  · rw [if_pos hlt, bind_apply, runAt_apply, ok_bind] at hr
    refine .inr ?_
    cases hresult : hooks.resultAt setup optimistic with
    | error error =>
      rw [hresult] at hr
      exact .inl ⟨error, hr⟩
    | ok result =>
      rw [hresult] at hr
      dsimp only at hr
      rw [bind_apply] at hr
      cases hupdate : hooks.updateEstimatedGasRange result with
      | error error =>
        rw [hupdate] at hr
        exact .inl ⟨error, hr⟩
      | ok side =>
        rw [hupdate] at hr
        refine .inr ⟨hlt, result, rfl, ?_⟩
        cases side with
        | upper => exact .inl ⟨succeeds_of_upper hresult hupdate, hr⟩
        | lower => exact .inr hr
  · rw [if_neg hlt] at hr
    exact .inl hr

/-- After the guess, the bounds are narrowed from a limit that a run has succeeded with. -/
theorem TooHighAbove.sound_narrow (hhigh : hooks.TooHighAbove) {highest gasUsed gasRefund : ℕ}
    (hlimit : highest < 2 ^ 64) (hsucceeds : hooks.Succeeds setup highest)
    (hmem : highest ∈ runs) :
    hooks.Sound setup (· ≤ highest)
      (hooks.narrow setup fuel highest gasUsed gasRefund runs :
        Except (EstimateError X P H) _) := by
  intro v runs' h
  rw [narrow, bind_eq_ok] at h
  obtain ⟨optimistic, runs₁, hoptimistic, h⟩ := h
  obtain ⟨-, rfl⟩ := lift_eq_ok.1 hoptimistic
  rw [bind_eq_ok] at h
  obtain ⟨⟨gasUsed', lowest, highest'⟩, runs₂, htried, h⟩ := h
  dsimp only at h
  rw [bind_eq_ok] at h
  obtain ⟨triple, runs₃, htriple, h⟩ := h
  obtain ⟨-, rfl⟩ := lift_eq_ok.1 htriple
  -- The gas used does not matter here: the next limit to be tried is below the upper bound.
  have hmid : lowest + 1 < highest' → min triple ((highest' + lowest) / 2) < highest' := by omega
  refine hhigh.sound_searchGas hlimit ?_ v runs' h
  rcases tryOptimistic_cases with hsame | ⟨error, herror⟩ | ⟨hlt, result, -, hbound⟩
  · cases htried.symm.trans hsame
    exact ⟨hmem, hsucceeds, le_rfl, hmid⟩
  · cases htried.symm.trans herror
  · rcases hbound with ⟨hguess, hupper⟩ | hlower
    · cases htried.symm.trans hupper
      exact ⟨List.mem_append_right _ List.mem_cons_self, hguess, hlt.le, hmid⟩
    · cases htried.symm.trans hlower
      exact ⟨List.mem_append_left _ hmem, hsucceeds, le_rfl, hmid⟩

/-- Gas that is bounded by the limits does not overflow, and the search ends. -/
theorem TooHighAbove.noPanic_narrow (hhigh : hooks.TooHighAbove) (hgas : hooks.BoundsGas)
    {highest gasUsed gasRefund : ℕ} (hlimit : highest < 2 ^ 56) (hfuel : 57 < fuel)
    (hresult : hooks.resultAt setup highest = .ok (.success gasUsed gasRefund))
    (hmem : highest ∈ runs) :
    NoPanic (hooks.narrow setup fuel highest gasUsed gasRefund runs :
      Except (EstimateError X P H) _) := by
  have hused : gasUsed ≤ highest := hgas.gasUsed_le_of_resultAt hresult
  have hrefund : gasRefund ≤ highest := hgas.gasRefunded_le_of_resultAt hresult
  have hsucceeds : hooks.Succeeds setup highest := ⟨_, _, hresult⟩
  -- The search from the bounds after the guess.
  have hsearch {gasUsed' lowest highest' : ℕ} {runs' : List ℕ} (hused' : gasUsed' ≤ highest)
      (hlowest : lowest ≤ highest') (hle : highest' ≤ highest)
      (hsucceeds' : hooks.Succeeds setup highest') (hmem' : highest' ∈ runs') :
      NoPanic ((do
        let triple ← EstimateM.lift .panic (checkedMul 64 gasUsed' 3)
        hooks.searchGas setup fuel lowest highest' (min triple ((highest' + lowest) / 2)) :
          EstimateM X P H ℕ) runs') := by
    rw [bind_apply, checkedMul_of_lt (by omega), lift_ok, ok_bind]
    exact hhigh.noPanic_searchGas hlimit hfuel hlowest (by omega)
      ⟨hmem', hsucceeds', hle, fun _ => by omega⟩
  rw [narrow, bind_apply, optimisticGasLimit_eq (by omega) (by omega), lift_ok, ok_bind,
    bind_apply]
  rcases tryOptimistic_cases with hsame | ⟨error, herror⟩ | ⟨hlt, result, hguess, hbound⟩
  · rw [hsame, ok_bind]
    exact hsearch hused (by omega) le_rfl hsucceeds hmem
  · rw [herror]
    nofun
  · have hused' : result.gasUsed ≤ highest := (hgas.gasUsed_le_of_resultAt hguess).trans hlt.le
    rcases hbound with ⟨hsucceeds', hupper⟩ | hlower
    · rw [hupper, ok_bind]
      exact hsearch hused' (by omega) hlt.le hsucceeds'
        (List.mem_append_right _ List.mem_cons_self)
    · rw [hlower, ok_bind]
      exact hsearch hused' hlt.le le_rfl hsucceeds (List.mem_append_left _ hmem)

/-! ## Estimates -/

variable (hooks setup runs) in
/-- The shortcut is taken if the transfer succeeds with the least gas. -/
theorem tryBasicTransfer_spec : ∃ succeeded runs',
    (hooks.tryBasicTransfer setup : EstimateM X P H Bool) runs = .ok (succeeded, runs') ∧
    (succeeded = true → setup.isBasicTransfer = true ∧ minTransactionGas ∈ runs' ∧
      hooks.Succeeds setup minTransactionGas) := by
  rw [tryBasicTransfer]
  by_cases hbasic : setup.isBasicTransfer
  · rw [if_pos hbasic, bind_apply, runAt_apply, ok_bind]
    cases hresult : hooks.resultAt setup minTransactionGas with
    | error error => exact ⟨false, _, rfl, nofun⟩
    | ok result =>
      refine ⟨_, _, rfl, fun hsuccess => ⟨hbasic, List.mem_append_right _ List.mem_cons_self, ?_⟩⟩
      cases result with
      | success gasUsed gasRefunded => exact ⟨gasUsed, gasRefunded, hresult⟩
      | revert | halt => cases hsuccess
  · rw [if_neg hbasic]
    exact ⟨false, runs, rfl, nofun⟩

/-- An estimate fails without a panic, or is that of a basic transfer, or it is searched for from
    a gas limit that a run has succeeded with. -/
theorem estimate_cases :
    let gasLimit := setup.tx.base.gasLimit.toNat
    let r : Except (EstimateError X P H) _ := hooks.estimate setup fuel runs
    (∃ e, r = .error e ∧ ∀ halt, e ≠ .panic halt) ∨
    (∃ runs', r = .ok (minTransactionGas, runs') ∧ setup.isBasicTransfer = true ∧
      minTransactionGas ∈ runs' ∧ hooks.Succeeds setup minTransactionGas) ∨
    ∃ gasUsed gasRefund runs', hooks.resultAt setup gasLimit = .ok (.success gasUsed gasRefund) ∧
      gasLimit ∈ runs' ∧ r = hooks.narrow setup fuel gasLimit gasUsed gasRefund runs' := by
  intro gasLimit r
  obtain ⟨succeeded, runs₁, hbasic, hseen⟩ := tryBasicTransfer_spec (P := P) hooks setup runs
  have hr : r = (hooks.estimate setup fuel : EstimateM X P H _) runs := rfl
  rw [estimate, bind_apply, hbasic, ok_bind] at hr
  -- Unless the basic transfer is taken, the first run is at the gas limit; it decides whether there
  -- is a search at all.
  cases succeeded with
  | true => exact .inr (.inl ⟨runs₁, hr, hseen rfl⟩)
  | false =>
    dsimp only at hr
    rw [if_neg Bool.false_ne_true, bind_apply, runAt_apply, ok_bind] at hr
    cases hresult : hooks.resultAt setup setup.tx.base.gasLimit.toNat with
    | error error =>
      rw [hresult] at hr
      dsimp only at hr
      split_ifs at hr <;> exact .inl ⟨_, hr, nofun⟩
    | ok result =>
      rw [hresult] at hr
      cases result with
      | halt reason => exact .inl ⟨_, hr, nofun⟩
      | revert gasUsed output =>
        dsimp only at hr
        split_ifs at hr <;> exact .inl ⟨_, hr, nofun⟩
      | success gasUsed gasRefund =>
        exact .inr (.inr ⟨gasUsed, gasRefund, _, rfl,
          List.mem_append_right _ List.mem_cons_self, hr⟩)

/-- What the estimate returns was run with success. -/
theorem TooHighAbove.sound_estimate (hhigh : hooks.TooHighAbove) :
    hooks.Sound setup (fun v => v ≤ setup.tx.base.gasLimit.toNat ∨
        setup.isBasicTransfer = true ∧ v = minTransactionGas)
      (hooks.estimate setup fuel runs : Except (EstimateError X P H) _) := by
  intro v runs' h
  rcases estimate_cases with
    ⟨e, herror, -⟩ | ⟨runs₁, hok, hbasic, hmem, hsucceeds⟩ |
      ⟨gasUsed, gasRefund, runs₁, hresult, hmem, hnarrow⟩
  · cases h.symm.trans herror
  · cases h.symm.trans hok
    exact ⟨hmem, hsucceeds, .inr ⟨hbasic, rfl⟩⟩
  · obtain ⟨hmem', hsucceeds, hle⟩ := hhigh.sound_narrow setup.tx.base.gasLimit.toNat_lt
      ⟨_, _, hresult⟩ hmem v runs' (hnarrow.symm.trans h)
    exact ⟨hmem', hsucceeds, .inl hle⟩

/-- The estimate does not panic. -/
theorem TooHighAbove.noPanic_estimate (hhigh : hooks.TooHighAbove) (hgas : hooks.BoundsGas)
    (hlimit : setup.tx.base.gasLimit.toNat < 2 ^ 56) (hfuel : 57 < fuel) :
    NoPanic (hooks.estimate setup fuel runs : Except (EstimateError X P H) _) := by
  rcases estimate_cases with
    ⟨e, herror, hpanic⟩ | ⟨runs₁, hok, -⟩ | ⟨gasUsed, gasRefund, runs₁, hresult, hmem, hnarrow⟩
  · rw [herror]
    exact fun halt heq => hpanic halt (Except.error.inj heq)
  · rw [hok]
    nofun
  · rw [hnarrow]
    exact hhigh.noPanic_narrow hgas hlimit hfuel hresult hmem

/-- The largest limit is that of the block, or of the configuration. -/
theorem maxGasLimit_le (env : EvmEnv) : env.maxGasLimit.toNat ≤ env.blockEnv.gasLimit.toNat ∧
    ∀ cap ∈ env.cfgEnv.txGasLimitCap, env.maxGasLimit.toNat ≤ cap.toNat := by
  rw [EvmEnv.maxGasLimit]
  cases hcap : env.cfgEnv.txGasLimitCap with
  | none => exact ⟨le_rfl, nofun⟩
  | some cap =>
    refine ⟨UInt64.le_iff_toNat_le.1 Std.min_le_right, fun cap' hcap' => ?_⟩
    cases hcap'
    exact UInt64.le_iff_toNat_le.1 Std.min_le_left

/-- The search begins below that, and below what is requested. -/
theorem highestGasLimit_le (request : TransactionRequest R) (env : EvmEnv) :
    (request.highestGasLimit env).toNat ≤ env.maxGasLimit.toNat ∧
      ∀ gas ∈ request.gas, (request.highestGasLimit env).toNat ≤ gas.toNat := by
  rw [TransactionRequest.highestGasLimit]
  cases hgas : request.gas with
  | none => exact ⟨le_rfl, nofun⟩
  | some gas =>
    refine ⟨?_, fun gas' hgas' => ?_⟩
    · dsimp only
      split_ifs with hlt
      · exact le_rfl
      · exact UInt64.le_iff_toNat_le.1 (UInt64.not_lt.1 hlt)
    · cases hgas'
      dsimp only
      split_ifs with hlt
      · exact (UInt64.lt_iff_toNat_lt.1 hlt).le
      · exact le_rfl

variable (hooks) in
/-- The limits of a request: its own, those of the block, and what the caller can pay for. -/
structure WithinLimits (request : TransactionRequest R) (setup : EstimateSetup D) (v : ℕ) :
    Prop where
  requested : ∀ gas ∈ request.gas, v ≤ gas.toNat
  block : v ≤ setup.env.blockEnv.gasLimit.toNat
  cap : ∀ cap ∈ setup.env.cfgEnv.txGasLimitCap, v ≤ cap.toNat
  allowance : ∀ tx, hooks.createTxnEnv setup.env { request with nonce := none } setup.db = .ok tx →
    0 < tx.gasPrice →
    ∃ allowance, hooks.callerGasAllowance setup.db setup.env tx = .ok allowance ∧
      v ≤ allowance.toNat

theorem WithinLimits.mono {request : TransactionRequest R} {v v' : ℕ}
    (h : hooks.WithinLimits request setup v) (hle : v' ≤ v) :
    hooks.WithinLimits request setup v' where
  requested gas hgas := hle.trans (h.requested gas hgas)
  block := hle.trans h.block
  cap cap hcap := hle.trans (h.cap cap hcap)
  allowance tx htx hprice := by
    obtain ⟨allowance, hallowance, hv⟩ := h.allowance tx htx hprice
    exact ⟨allowance, hallowance, hle.trans hv⟩

/-- The search begins with what the caller can pay for. -/
theorem startGasLimit_le {highest start : UInt64} {db : D} {env : EvmEnv} {tx : TxEnv TxFields}
    (h : hooks.startGasLimit highest db env tx = .ok start) :
    start.toNat ≤ highest.toNat ∧ (0 < tx.gasPrice →
      ∃ allowance, hooks.callerGasAllowance db env tx = .ok allowance ∧
        start.toNat ≤ allowance.toNat) := by
  rw [startGasLimit] at h
  split_ifs at h with hprice
  · obtain ⟨allowance, hallowance, h⟩ := except_bind_eq_ok.1 h
    cases h
    exact ⟨UInt64.le_iff_toNat_le.1 Std.min_le_left, fun _ =>
      ⟨allowance, hallowance, UInt64.le_iff_toNat_le.1 Std.min_le_right⟩⟩
  · cases h
    exact ⟨le_rfl, fun h => absurd h hprice⟩

/-- The transaction is run within the limits of the request. -/
theorem setup_spec {api : HlCallApi P} {env : EvmEnv} {request : TransactionRequest R} {db : D}
    {stateOverride : Option O} (h : hooks.setup api env request db stateOverride = .ok setup) :
    setup.tx.base.gasLimit.toNat ≤ (request.highestGasLimit env).toNat ∧
      hooks.WithinLimits request setup setup.tx.base.gasLimit.toNat := by
  simp only [EstimateHooks.setup, except_bind_eq_ok, mapError_eq_ok] at h
  obtain ⟨db', -, tx, htx, start, hstart, number, -, chosen, -, precompiles, -, h⟩ := h
  cases h
  have hle : (min tx.gasLimit start).toNat ≤ start.toNat :=
    UInt64.le_iff_toNat_le.1 Std.min_le_right
  obtain ⟨hhighest, hallowance⟩ := startGasLimit_le hstart
  obtain ⟨hmax, hrequested⟩ := highestGasLimit_le request env
  obtain ⟨hblock, hcap⟩ := maxGasLimit_le env
  refine ⟨hle.trans hhighest, ?_⟩
  constructor
  case requested => exact fun gas hgas => hle.trans (hhighest.trans (hrequested gas hgas))
  case block => exact hle.trans (hhighest.trans (hmax.trans hblock))
  case cap => exact fun cap hcap' => hle.trans (hhighest.trans (hmax.trans (hcap cap hcap')))
  case allowance =>
    intro tx' htx' hprice
    cases htx.symm.trans htx'
    obtain ⟨allowance, hallowance, hstart⟩ := hallowance hprice
    exact ⟨allowance, hallowance, hle.trans hstart⟩

/-- An estimate is a gas limit that a run has succeeded with, and which is within the limits of the
    request, or else the least gas of a basic transfer. If the EVM does not use or refund more gas
    than the limit, then a request that can be set up leads to an estimate or an error, without a
    panic. -/
theorem estimateGasWith_spec (hooks : EstimateHooks D O R X P H) (api : HlCallApi P) (fuel : ℕ)
    (env : EvmEnv) (request : TransactionRequest R) (db : D) (stateOverride : Option O)
    (hhigh : hooks.TooHighAbove) :
    (hooks.BoundsGas → (request.highestGasLimit env).toNat < 2 ^ 56 → 57 < fuel →
      ∀ setup halt, hooks.setup api env request db stateOverride = .ok setup →
        hooks.estimateGasWith api fuel env request db stateOverride ≠ .error (.panic halt)) ∧
    ∀ v runs, hooks.estimateGasWith api fuel env request db stateOverride = .ok (v, runs) →
      ∃ setup, hooks.setup api env request db stateOverride = .ok setup ∧
        v ∈ runs ∧ hooks.Succeeds setup v ∧
        (hooks.WithinLimits request setup v ∨
          setup.isBasicTransfer = true ∧ v = minTransactionGas) := by
  constructor
  · intro hgas hlimit hfuel setup halt hsetup
    rw [estimateGasWith, hsetup]
    exact hhigh.noPanic_estimate hgas ((setup_spec hsetup).1.trans_lt hlimit) hfuel halt
  · intro v runs h
    obtain ⟨setup, hsetup, hestimate⟩ := except_bind_eq_ok.1 h
    obtain ⟨hmem, hsucceeds, hwithin⟩ := hhigh.sound_estimate v runs hestimate
    exact ⟨setup, hsetup, hmem, hsucceeds, hwithin.imp_left (setup_spec hsetup).2.mono⟩

end EstimateHooks

/-- An EVM in which a call needs `30000` gas. -/
def callEvm : EstimateHooks Unit Empty Unit Unit Unit Unit where
  toOverrideHooks := fieldOverrides
  callGasLimit := 50000000
  overrideBlockHashes _ db := db
  applyStateOverrides _ db := .ok db
  createTxnEnv env request _ := .ok
    { gasPrice := 0
      gasLimit := request.gas.getD env.blockEnv.gasLimit
      rest := { txType := .legacy, caller := 0xc0ffee, kind := .call 0xbeef, value := 0,
                data := [1], nonce := 0, chainId := none } }
  callerGasAllowance _ _ _ := .ok 0
  requestGasPrice _ := none
  accountCode _ _ := .ok none
  transact _ _ _ tx :=
    if 30000 ≤ tx.base.gasLimit then .ok (.success 30000 0)
    else .ok (.halt () tx.base.gasLimit.toNat)
  isGasTooHigh _ := false
  isGasTooLow _ := false
  mapOutOfGasErr _ _ _ _ _ := ()
  rangeError _ := none
  withinErrorRatio width highest := width * 1000 < highest * 15

theorem tooHighAbove_callEvm : callEvm.TooHighAbove :=
  fun _ htooHigh => absurd htooHigh Bool.false_ne_true

/-- No run of this machine uses more gas than its limit. -/
theorem boundsGas_callEvm : callEvm.BoundsGas where
  gasUsed_le {_ _ _ tx result} h := by
    change (if 30000 ≤ tx.base.gasLimit then _ else _) = _ at h
    split_ifs at h with hle
    · cases h
      exact UInt64.le_iff_toNat_le.1 hle
    · cases h
      exact le_rfl
  gasRefunded_le {_ _ _ tx gasUsed gasRefunded} h := by
    change (if 30000 ≤ tx.base.gasLimit then _ else _) = _ at h
    split_ifs at h
    · cases h
      exact Nat.zero_le _
    · cases h

/-- The environment of a block with a gas limit of 30 million. -/
def callEnv : EvmEnv where
  cfgEnv := ⟨false, false, false, none⟩
  blockEnv := { evmEnv (callBlock 5 []).header with gasLimit := 30000000 }

/-- A call is run five times, and the last limit is returned. -/
theorem estimateGasWith_call : callEvm.BoundsGas ∧ ∃ setup,
    callEvm.estimateGasWith (callChain.withForwarder callHead none) 58 callEnv ⟨none, none, ()⟩ ()
      none = .ok (30350, [30000000, 32812, 31405, 30702, 30350]) ∧
    callEvm.Succeeds setup 30350 := by
  have hrun : callEvm.estimateGasWith (callChain.withForwarder callHead none) 58 callEnv
      ⟨none, none, ()⟩ () none = .ok (30350, [30000000, 32812, 31405, 30702, 30350]) := rfl
  obtain ⟨setup, -, -, hsucceeds, -⟩ := (EstimateHooks.estimateGasWith_spec callEvm
    (callChain.withForwarder callHead none) 58 callEnv ⟨none, none, ()⟩ () none
    tooHighAbove_callEvm).2 _ _ hrun
  exact ⟨boundsGas_callEvm, setup, hrun, hsucceeds⟩

end Nanoreth
