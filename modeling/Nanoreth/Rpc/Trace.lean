import Nanoreth.Evm.Accounting
import Nanoreth.Rpc.Types

/-!
# Tracing

To trace a transaction, the node runs the transactions before it in the block again, from
the state after the parent block (`rpc/call.rs`, `rpc/mod.rs`). Both ways to do so,
`replayTransactionsUntil` and `traceBlockUntilWithInspector`, install the precompiles of
the block, and commit the changes of one transaction after the other (`replayDb`). They
leave out what the executor does beyond that, which is to deploy the core writer, and to
drop the changes of patched accounts. They also look up the precompiles of the block by
its number.

The transactions are thus run on the states they were executed on if and only if none of
this matters (`replaysExecution_iff`). In the block of the core writer it does
(`replay_misses_corewriter`).
-/

namespace Nanoreth

open Partial HlBlockExecutor

/-! ## Replaying transactions -/

/-- Why a request fails: the provider or the EVM fails, or the node panics. -/
inductive RpcError (E P : Type)
  | provider (error : P)
  | evm (error : E)
  | panic (halt : Halt)

/-- The Ethereum API of the node: its provider, and the precompiles of its EVM. -/
structure HlEthApi (P : Type) where
  blockById : UInt64 → Except P (Option HlBlock)
  precompiles : PrecompilesMap

/-- A word as an integer of 64 bits. -/
def toU64 (n : U256) : Except Halt UInt64 :=
  if n.toNat < 2 ^ 64 then .ok (UInt64.ofNat n.toNat) else .error (.panic "Uint conversion error")

/-- What a tracer finds when a transaction was run: its result, and the database it was
    run on. -/
structure TracingCtx where
  tx : Recovered
  output : ResultAndState
  db : Db

variable {E P R : Type} (C : Crypto) (transact : Transact E)

section Replay

variable (block : BlockEnv) (precompiles : PrecompilesMap)

/-- Runs transactions up to the one of the given hash, and commits their changes. Returns
    the number of transactions run, and the database. -/
def replayLoop (targetTxHash : B256) : Db → ℕ → List Recovered → Except E (ℕ × Db)
  | db, index, [] => .ok (index, db)
  | db, index, tx :: txs =>
    -- The target itself is not executed.
    if tx.tx.txHash C = targetTxHash then .ok (index, db)
    else
      match transact db block precompiles (.fromRecoveredTx tx) with
      | .error error => .error error
      | .ok output => replayLoop targetTxHash (db.commit output.state) (index + 1) txs

/-- Runs transactions, applying `f` to each of them, and commits their changes. Beside the
    results, the databases the transactions are run on are recorded. -/
def tryTraceMany (f : ℕ → TracingCtx → Except (RpcError E P) R) :
    Db → ℕ → List Recovered → List Db × Except (RpcError E P) (List R)
  | _, _, [] => ([], .ok [])
  | db, index, tx :: txs =>
    match transact db block precompiles (.fromRecoveredTx tx) with
    | .error error => ([db], .error (.evm error))
    | .ok output =>
      match f index ⟨tx, output, db⟩ with
      | .error error => ([db], .error error)
      | .ok result =>
        let (dbs, results) := tryTraceMany f (db.commit output.state) (index + 1) txs
        (db :: dbs, results.map (result :: ·))

end Replay

namespace HlEthApi

variable (api : HlEthApi P)

/-- What a block has recorded, which is nothing if it is not found. -/
def getHlExtras (number : UInt64) : Except P HlExtras := do
  let block ← api.blockById number
  return (block.map (·.body.extras)).getD ⟨none, none⟩

/-- The precompiles of the block of an environment, as they are looked up. -/
def replayPrecompiles (block : BlockEnv) : Except (RpcError E P) PrecompilesMap := do
  let number ← (toU64 block.number).mapError .panic
  let extras ← (api.getHlExtras number).mapError .provider
  (applyPrecompiles block.number extras api.precompiles).mapError .panic

/-- Executes the transactions of a block before a given one. -/
def replayTransactionsUntil (db : Db) (block : BlockEnv) (transactions : List Recovered)
    (targetTxHash : B256) : Except (RpcError E P) (ℕ × Db) := do
  let precompiles ← api.replayPrecompiles block
  (replayLoop C transact block precompiles targetTxHash db 0 transactions).mapError .evm

/-- The number of transactions to trace, among `count`. -/
def maxTransactions (count : ℕ) : Option ℕ → ℕ
  | none => count
  | some highest => highest + 1

/-- Traces the transactions of a block up to `highestIndex`, from the state `parent`. -/
def traceBlockUntilWithInspector (block : RecoveredBlock) (highestIndex : Option ℕ) (parent : Db)
    (f : TransactionInfo → TracingCtx → Except (RpcError E P) R) :
    List Db × Except (RpcError E P) (List R) :=
  let env := evmEnv block.block.header
  if block.transactionsRecovered.isEmpty then ([], .ok [])
  else
    match api.replayPrecompiles env with
    | .error error => ([], .error error)
    | .ok precompiles =>
      tryTraceMany transact env precompiles (fun index ctx =>
        f { hash := ctx.tx.tx.txHash C
            index := index
            blockHash := C.hashSlow block.block.header.inner
            blockNumber := saturatingToU64 env.number
            baseFee := some env.basefee } ctx)
        parent 0 (block.transactionsRecovered.take
          (maxTransactions block.transactionsRecovered.length highestIndex))

/-- What a block is executed on, after its parent. -/
def evmAt (block : RecoveredBlock) (parent : Db) : Evm :=
  ⟨parent, evmEnv block.block.header, api.precompiles⟩

end HlEthApi

/-! ## The states transactions are run on -/

/-- The database after running transactions and committing their changes. -/
def replayDb (block : BlockEnv) (precompiles : PrecompilesMap) : Db → List Recovered → Except E Db
  | db, [] => .ok db
  | db, tx :: txs =>
    match transact db block precompiles (.fromRecoveredTx tx) with
    | .error error => .error error
    | .ok output => replayDb block precompiles (db.commit output.state) txs

variable {C transact} {block : BlockEnv} {precompiles : PrecompilesMap}

/-- A transaction is replayed before those after it. -/
theorem replayDb_cons {db db' : Db} {tx : Recovered} {txs : List Recovered} :
    replayDb transact block precompiles db (tx :: txs) = .ok db' ↔
      ∃ output, transact db block precompiles (.fromRecoveredTx tx) = .ok output ∧
        replayDb transact block precompiles (db.commit output.state) txs = .ok db' := by
  rw [replayDb]
  cases transact db block precompiles (.fromRecoveredTx tx) <;> simp

/-- A replay up to a transaction, the first one of its hash, leaves the database it is run
    on. -/
theorem replayLoop_eq {txs : List Recovered} {i : ℕ} {tx : Recovered} {db db' : Db}
    (htx : txs[i]? = some tx) (hbefore : ∀ tx' ∈ txs.take i, tx'.tx.txHash C ≠ tx.tx.txHash C)
    (h : replayDb transact block precompiles db (txs.take i) = .ok db') (index : ℕ) :
    replayLoop C transact block precompiles (tx.tx.txHash C) db index txs =
      .ok (index + i, db') := by
  induction i generalizing txs db index with
  | zero =>
    obtain ⟨txs, rfl⟩ := List.head?_eq_some_iff.1 (List.head?_eq_getElem?.trans htx)
    cases h
    simp [replayLoop]
  | succ i ih =>
    cases txs with
    | nil => cases htx
    | cons tx₀ txs =>
      rw [List.take_succ_cons] at hbefore h
      obtain ⟨output, houtput, h⟩ := replayDb_cons.1 h
      rw [replayLoop, if_neg (hbefore tx₀ List.mem_cons_self), houtput]
      simp only
      rw [ih htx (fun tx' htx' => hbefore tx' (List.mem_cons_of_mem _ htx')) h]
      congr 2
      omega

/-- A trace runs each transaction on the database left by the earlier ones. -/
theorem getElem?_tryTraceMany {txs : List Recovered} {i : ℕ} {db db' : Db} (hi : i < txs.length)
    (h : replayDb transact block precompiles db (txs.take i) = .ok db') (index : ℕ)
    (f : ℕ → TracingCtx → R) :
    (tryTraceMany transact block precompiles
      (fun n ctx => (.ok (f n ctx) : Except (RpcError E P) R)) db index txs).1[i]? = some db' := by
  induction i generalizing txs db index with
  | zero =>
    cases txs with
    | nil => cases hi
    | cons tx txs =>
      obtain rfl : db = db' := Except.ok.inj h
      rw [tryTraceMany]
      cases transact db block precompiles (.fromRecoveredTx tx) <;> rfl
  | succ i ih =>
    cases txs with
    | nil => cases hi
    | cons tx txs =>
      rw [List.take_succ_cons] at h
      obtain ⟨output, houtput, h⟩ := replayDb_cons.1 h
      rw [tryTraceMany, houtput]
      exact ih (Nat.lt_of_succ_lt_succ hi) h (index + 1)

/-- No change of the transactions is dropped, the first one being at the index `k`. -/
def Unpatched (number : UInt64) (k : ℕ) (txs : List Recovered) : Prop :=
  ∀ j tx, txs[j]? = some tx → ∀ patch ∈ mainnetPatchesAfterTx,
    isPatched number (k + j) tx.tx.isSystemTransaction patch = false

/-- No transaction is patched if neither the first nor those after it are. -/
theorem unpatched_cons {number : UInt64} {k : ℕ} {tx : Recovered} {txs : List Recovered} :
    Unpatched number k (tx :: txs) ↔
      (∀ patch ∈ mainnetPatchesAfterTx,
        isPatched number k tx.tx.isSystemTransaction patch = false) ∧
        Unpatched number (k + 1) txs := by
  constructor
  · intro h
    refine ⟨h 0 tx rfl, fun j tx' htx' => ?_⟩
    rw [Nat.add_right_comm]
    exact h (j + 1) tx' htx'
  · rintro ⟨h₀, h⟩ j tx' htx'
    cases j with
    | zero => cases htx'; exact h₀
    | succ j =>
      rw [← Nat.add_assoc, Nat.add_right_comm]
      exact h j tx' htx'

/-- Changes that no patch is for are not patched. -/
theorem patchMainnetAfterTx_eq_self {number : UInt64} {k : ℕ} {isSystemTx : Bool}
    (h : ∀ patch ∈ mainnetPatchesAfterTx, isPatched number k isSystemTx patch = false)
    (changes : EvmState) : patchMainnetAfterTx number k isSystemTx changes = changes := by
  funext address
  rw [patchMainnetAfterTx_apply, if_neg]
  rintro ⟨patch, hmem, hpatched, -⟩
  rw [h patch hmem] at hpatched
  cases hpatched

/-- Without patches, the executor runs transactions on the same states as a replay. -/
theorem replayDb_of_executeAll {ex ex' : HlBlockExecutor} {txs : List Recovered}
    (h : executeAll C transact ex txs = .ok ex')
    (hpatches : Unpatched (saturatingToU64 ex.evm.block.number) ex.receipts.length txs) :
    replayDb transact ex.evm.block ex.evm.precompiles ex.evm.db txs = .ok ex'.evm.db := by
  induction txs generalizing ex with
  | nil => rw [executeAll_nil.1 h]; rfl
  | cons tx txs ih =>
    obtain ⟨output, -, houtput, h⟩ := executeAll_cons.1 h
    obtain ⟨hfirst, hpatches⟩ := unpatched_cons.1 hpatches
    refine replayDb_cons.2 ⟨output, houtput, ?_⟩
    -- The executor commits the same changes, as none is dropped.
    have hdb := commitTransaction_db ex output tx
    rw [patchMainnetAfterTx_eq_self hfirst] at hdb
    have := ih h (by
      rw [commitTransaction_block, commitTransaction_receipts, List.length_append]
      exact hpatches)
    rwa [hdb, commitTransaction_block, commitTransaction_precompiles] at this

/-! ## Probes

What the executor and a replay do differently shows in the length of the code of an
account, in an EVM that appends to this code. -/

/-- The length of the code of an account. -/
def codeLength (db : Db) (address : Address) : ℕ :=
  (((db address).bind (·.info.code)).getD []).length

/-- An account with more code. -/
def appended (db : Db) (address : Address) : Account where
  info :=
    { balance := 1
      nonce := 0
      codeHash := keccakEmpty
      code := some (0 :: ((db address).bind (·.info.code)).getD []) }
  storage _ := none
  isTouched := true
  isSelfdestructed := false
  isCreated := false

open Classical in
/-- An EVM that appends to the code of the account `probed` if the precompiles are as
    given. The first regular transaction uses more gas than `limit`, so that the available
    gas of the block wraps around: all transactions then fit in the block. -/
noncomputable def probe (limit : UInt64) (probed : Address) (on : PrecompilesMap → Prop) :
    Transact Unit := fun db _ precompiles tx =>
  .ok
    { result := .success (if tx.tx.isSystemTransaction ∨ (db 0).isSome then 0 else limit + 1) []
      state := fun address =>
        if address = 0 then (if tx.tx.isSystemTransaction then none else some (appended db 0))
        else if address = probed ∧ on precompiles then some (appended db probed) else none }

theorem Db.commit_of_none {db : Db} {changes : EvmState} {address : Address}
    (h : changes address = none) : db.commit changes address = db address := by
  rw [Db.commit, h]

theorem Db.codeLength_commit_of_none (db : Db) {changes : EvmState} {address : Address}
    (h : changes address = none) :
    codeLength (db.commit changes) address = codeLength db address := by
  rw [codeLength, Db.commit_of_none h, codeLength]

theorem Db.commit_appended {db : Db} {changes : EvmState} {address : Address}
    (h : changes address = some (appended db address)) :
    codeLength (db.commit changes) address = codeLength db address + 1 := by
  have hempty : (appended db address).info.isEmpty = false := by
    simp [appended, AccountInfo.isEmpty]
  simp only [codeLength, Db.commit, h, hempty]
  simp [appended]

variable {limit : UInt64} {probed : Address} {on : PrecompilesMap → Prop}

/-- What such an EVM computes: the gas used, the mark set at the address `0`, and the changes
    of the probed account. -/
structure ProbeOutput (limit : UInt64) (probed : Address) (isOn : Prop) (db : Db)
    (tx : TransactionSigned) (output : ResultAndState) : Prop where
  gasUsed_zero : tx.isSystemTransaction = true ∨ (db 0).isSome → output.result.gasUsed = 0
  gasUsed_first : tx.isSystemTransaction = false → db 0 = none →
    output.result.gasUsed = limit + 1
  system : tx.isSystemTransaction = true → output.state 0 = none
  regular : tx.isSystemTransaction = false → output.state 0 = some (appended db 0)
  on : isOn → output.state probed = some (appended db probed)
  off : ¬ isOn → output.state probed = none

/-- What the probe does to the state. -/
theorem probeOutput (hprobed : probed ≠ 0) {db : Db} {tx : HlTxEnv} {output : ResultAndState}
    (h : probe limit probed on db block precompiles tx = .ok output) :
    ProbeOutput limit probed (on precompiles) db tx.tx output := by
  cases h
  refine ⟨fun h => ?_, fun hregular hdb => ?_, fun h => ?_, fun h => ?_, fun hon => ?_,
    fun hon => ?_⟩
  · simp only [h, if_true, ExecutionResult.gasUsed]
  · simp only [hregular, hdb, Option.isSome_none, Bool.false_eq_true, or_self, if_false,
      ExecutionResult.gasUsed]
  · simp [h]
  · simp [h]
  · simp only [hprobed, hon, and_self, if_false, if_true]
  · simp only [hprobed, hon, and_false, if_false]

/-- A replay never fails in such an EVM, and appends once for each transaction. -/
theorem replayDb_probe (hprobed : probed ≠ 0) (txs : List Recovered) (db : Db) :
    ∃ db', replayDb (probe limit probed on) block precompiles db txs = .ok db' ∧
      (on precompiles → codeLength db' probed = codeLength db probed + txs.length) ∧
      (¬ on precompiles → codeLength db' probed = codeLength db probed) := by
  induction txs generalizing db with
  | nil => exact ⟨db, rfl, fun _ => rfl, fun _ => rfl⟩
  | cons tx txs ih =>
    obtain ⟨output, houtput⟩ : ∃ output, probe limit probed on db block precompiles
        (.fromRecoveredTx tx) = .ok output := ⟨_, rfl⟩
    have hprobe := probeOutput hprobed houtput
    obtain ⟨db', hdb', hlen, hlen'⟩ := ih (db.commit output.state)
    refine ⟨db', replayDb_cons.2 ⟨output, houtput, hdb'⟩, fun hon => ?_, fun hon => ?_⟩
    · rw [hlen hon, Db.commit_appended (hprobe.on hon), List.length_cons]
      omega
    · rw [hlen' hon, db.codeLength_commit_of_none (hprobe.off hon)]

/-- The gas used in such an EVM: none before the first regular transaction, which sets a
    mark. -/
def Probed (limit : UInt64) (ex : HlBlockExecutor) : Prop :=
  (ex.gasUsed = 0 ∧ ex.evm.db 0 = none) ∨ (ex.gasUsed = limit + 1 ∧ (ex.evm.db 0).isSome)

/-- The gas limits of the transactions up to the first regular one are at most `limit`. -/
def Fits (limit : UInt64) : List Recovered → Prop
  | [] => True
  | tx :: txs => tx.tx.gasLimit ≤ limit ∧ (tx.tx.isSystemTransaction = true → Fits limit txs)

/-- The account at `0` is not patched. -/
theorem patchMainnetAfterTx_zero (number : UInt64) (k : ℕ) (isSystemTx : Bool)
    (changes : EvmState) :
    patchMainnetAfterTx number k isSystemTx changes 0 = changes 0 := by
  have hne : ∀ patch ∈ mainnetPatchesAfterTx, patch.2.2.2 ≠ 0 := by decide
  rw [patchMainnetAfterTx_apply, if_neg]
  rintro ⟨patch, hmem, -, hzero⟩
  exact hne patch hmem hzero

theorem Db.commit_appended_isSome {db : Db} {changes : EvmState} {address : Address}
    (h : changes address = some (appended db address)) :
    (db.commit changes address).isSome = true := by
  have hempty : (appended db address).info.isEmpty = false := by
    simp [appended, AccountInfo.isEmpty]
  simp only [Db.commit, h, hempty]
  simp [appended]

namespace ProbeOutput

variable {ex : HlBlockExecutor} {tx : Recovered} {output : ResultAndState} {isOn : Prop}

/-- Committing a transaction of such an EVM. -/
theorem commit (hprobe : ProbeOutput limit probed isOn ex.evm.db tx.tx output)
    (h : Probed limit ex) :
    Probed limit (commitTransaction ex output tx).2 ∧
      ((commitTransaction ex output tx).2.evm.db 0 = none →
        ex.evm.db 0 = none ∧ tx.tx.isSystemTransaction = true) := by
  rw [Probed, commitTransaction_gasUsed, commitTransaction_db]
  cases hsystem : tx.tx.isSystemTransaction with
  | true =>
    rw [Db.commit_of_none ((patchMainnetAfterTx_zero _ _ _ _).trans (hprobe.system hsystem))]
    exact ⟨h, fun hnone => ⟨hnone, rfl⟩⟩
  | false =>
    have hmark := Db.commit_appended_isSome
      ((patchMainnetAfterTx_zero (saturatingToU64 ex.evm.block.number) ex.receipts.length false
        output.state).trans (hprobe.regular hsystem))
    refine ⟨.inr ⟨?_, hmark⟩, fun hnone => ?_⟩
    · rcases h with ⟨hgas, hdb⟩ | ⟨hgas, hdb⟩
      · simp [hgas, hprobe.gasUsed_first hsystem hdb]
      · simp [hgas, hprobe.gasUsed_zero (.inr hdb)]
    · rw [hnone] at hmark
      cases hmark

/-- The probed account after a transaction is committed. -/
theorem codeLength_commit (hprobe : ProbeOutput limit probed isOn ex.evm.db tx.tx output) :
    codeLength (commitTransaction ex output tx).2.evm.db probed ≤
        codeLength ex.evm.db probed + 1 ∧
      (¬ isOn ∨ (∃ patch ∈ mainnetPatchesAfterTx, isPatched (saturatingToU64 ex.evm.block.number)
          ex.receipts.length tx.tx.isSystemTransaction patch = true ∧ patch.2.2.2 = probed) →
        codeLength (commitTransaction ex output tx).2.evm.db probed =
          codeLength ex.evm.db probed) := by
  rw [commitTransaction_db]
  have happly := patchMainnetAfterTx_apply (saturatingToU64 ex.evm.block.number)
    ex.receipts.length tx.tx.isSystemTransaction output.state probed
  split_ifs at happly with hpatch
  · -- The change is dropped.
    have hnone := Db.codeLength_commit_of_none ex.evm.db happly
    exact ⟨hnone.le.trans (Nat.le_succ _), fun _ => hnone⟩
  · by_cases hon : isOn
    · refine ⟨(Db.commit_appended (happly.trans (hprobe.on hon))).le, ?_⟩
      rintro (h | h)
      · exact absurd hon h
      · exact absurd h hpatch
    · have hnone := Db.codeLength_commit_of_none ex.evm.db (happly.trans (hprobe.off hon))
      exact ⟨hnone.le.trans (Nat.le_succ _), fun _ => hnone⟩

end ProbeOutput

theorem le_available (gas limit : UInt64) : gas ≤ limit - (limit + 1) := by
  have := gas.toNat_lt
  have := limit.toNat_lt
  rw [UInt64.le_iff_toNat_le, UInt64.toNat_sub, UInt64.toNat_add]
  simp only [UInt64.toNat_one]
  omega

/-- The executor runs all transactions in such an EVM, if those up to the first regular one
    fit in the block. -/
theorem exists_executeAll (hprobed : probed ≠ 0) {ex : HlBlockExecutor} {txs : List Recovered}
    (h : Probed ex.evm.block.gasLimit ex)
    (hfits : ex.evm.db 0 = none → Fits ex.evm.block.gasLimit txs) :
    ∃ ex', executeAll C (probe ex.evm.block.gasLimit probed on) ex txs = .ok ex' := by
  induction txs generalizing ex with
  | nil => exact ⟨ex, rfl⟩
  | cons tx txs ih =>
    obtain ⟨output, houtput⟩ : ∃ output, ex.evm.transact
        (probe ex.evm.block.gasLimit probed on) (.fromRecoveredTx tx) = .ok output := ⟨_, rfl⟩
    have hprobe := probeOutput hprobed houtput
    -- Before the first regular transaction, no gas is used; after it, any gas limit fits.
    have hlimit : tx.tx.gasLimit ≤ ex.evm.block.gasLimit - ex.gasUsed := by
      rcases h with ⟨hgas, hdb⟩ | ⟨hgas, hdb⟩
      · rw [hgas, UInt64.sub_zero]
        exact (hfits hdb).1
      · rw [hgas]
        exact le_available _ _
    obtain ⟨hcommit, hsystem⟩ := hprobe.commit h
    have hblock := commitTransaction_block ex output tx
    rw [← hblock] at hcommit
    obtain ⟨ex', hex'⟩ := ih hcommit fun hdb => by
      obtain ⟨hdb, hsystem⟩ := hsystem hdb
      rw [hblock]
      exact (hfits hdb).2 hsystem
    rw [hblock] at hex'
    exact ⟨ex', executeAll_cons.2 ⟨output, hlimit, houtput, hex'⟩⟩

/-- The probed account after transactions are executed. -/
theorem codeLength_executeAll (hprobed : probed ≠ 0) {ex ex' : HlBlockExecutor}
    {txs : List Recovered} (h : executeAll C (probe limit probed on) ex txs = .ok ex') :
    codeLength ex'.evm.db probed ≤ codeLength ex.evm.db probed + txs.length ∧
      (¬ on ex.evm.precompiles → codeLength ex'.evm.db probed = codeLength ex.evm.db probed) ∧
      ∀ j tx, txs[j]? = some tx → ∀ patch ∈ mainnetPatchesAfterTx,
        isPatched (saturatingToU64 ex.evm.block.number) (ex.receipts.length + j)
          tx.tx.isSystemTransaction patch = true → patch.2.2.2 = probed →
        codeLength ex'.evm.db probed < codeLength ex.evm.db probed + txs.length := by
  induction txs generalizing ex with
  | nil =>
    rw [executeAll_nil.1 h]
    exact ⟨Nat.le_refl _, fun _ => rfl, fun j tx htx => absurd htx (by simp)⟩
  | cons tx txs ih =>
    obtain ⟨output, -, houtput, h⟩ := executeAll_cons.1 h
    obtain ⟨hle, heq⟩ := (probeOutput hprobed houtput).codeLength_commit
    obtain ⟨ihle, ihoff, ihlt⟩ := ih h
    rw [commitTransaction_precompiles] at ihoff
    rw [commitTransaction_block, commitTransaction_receipts, List.length_append] at ihlt
    rw [List.length_cons]
    refine ⟨by omega, fun hoff => ?_, fun j tx' htx' patch hmem hpatched haddress => ?_⟩
    · rw [ihoff hoff, heq (.inl hoff)]
    · cases j with
      | zero =>
        -- The change of this transaction is dropped.
        cases htx'
        have := heq (.inr ⟨patch, hmem, hpatched, haddress⟩)
        omega
      | succ j =>
        rw [← Nat.add_assoc, Nat.add_right_comm] at hpatched
        have := ihlt j tx' htx' patch hmem hpatched haddress
        omega

/-- A block of which some transactions are executed, from no gas used, has those up to the
    first regular one fit in it. -/
theorem fits_of_executeAll {ex ex' : HlBlockExecutor} {txs : List Recovered}
    (h : executeAll C transact ex txs = .ok ex') (hgas : ex.gasUsed = 0) :
    Fits ex.evm.block.gasLimit txs := by
  induction txs generalizing ex with
  | nil => trivial
  | cons tx txs ih =>
    obtain ⟨output, hlimit, -, h⟩ := executeAll_cons.1 h
    rw [hgas, UInt64.sub_zero] at hlimit
    refine ⟨hlimit, fun hsystem => ?_⟩
    have := ih h (by rw [commitTransaction_gasUsed, if_pos hsystem, hgas])
    rwa [commitTransaction_block] at this

/-! ## Replays and executions -/

/-- The transaction `i` of a block is replayed on the state it was executed on, in every EVM
    and after every parent, whenever the executor gets to it. -/
def ReplaysExecution (C : Crypto) (api : HlEthApi P) (block : RecoveredBlock) (i : ℕ) : Prop :=
  ∀ (E : Type) (transact : Transact E) (parent : Db) (ex₀ ex : HlBlockExecutor) (tx : Recovered)
    (output : ResultAndState),
    start (api.evmAt block parent) (contextForBlock block.block) = .ok ex₀ →
    executeAll C transact ex₀ (block.transactionsRecovered.take i) = .ok ex →
    block.transactionsRecovered[i]? = some tx →
    executeTransactionWithoutCommit C transact ex tx = (.ok output, ex) →
    (∀ highest : Option ℕ, (∀ h ∈ highest, i ≤ h) →
      ∀ (R : Type) (f : TransactionInfo → TracingCtx → R),
        (api.traceBlockUntilWithInspector C transact block highest parent fun info ctx =>
          .ok (f info ctx)).1[i]? = some ex.evm.db) ∧
      ((∀ tx' ∈ block.transactionsRecovered.take i, tx'.tx.txHash C ≠ tx.tx.txHash C) →
        api.replayTransactionsUntil C transact parent (evmEnv block.block.header)
          block.transactionsRecovered (tx.tx.txHash C) = .ok (i, ex.evm.db))

/-- An executor may get to the transaction `i` of a block. -/
structure Executable (api : HlEthApi P) (block : RecoveredBlock) (i : ℕ) : Prop where
  lt_length : i < block.transactionsRecovered.length
  precompiles : ∃ precompiles, applyPrecompiles (evmEnv block.block.header).number
    block.block.body.extras api.precompiles = .ok precompiles
  fits : Fits block.block.header.inner.gasLimit (block.transactionsRecovered.take (i + 1))

/-- What a replay leaves out does not matter for the transaction `i` of a block: it is not the
    block of the core writer, the block looked up by its number has the same precompiles,
    and no change of an earlier transaction is dropped. -/
structure Replayable (api : HlEthApi P) (block : RecoveredBlock) (i : ℕ) : Prop where
  corewriter : (evmEnv block.block.header).number ≠ corewriterEnabledBlockNumber
  precompiles : ∃ extras precompiles, api.getHlExtras block.block.header.inner.number = .ok extras ∧
    applyPrecompiles (evmEnv block.block.header).number extras api.precompiles = .ok precompiles ∧
    (0 < i → applyPrecompiles (evmEnv block.block.header).number block.block.body.extras
      api.precompiles = .ok precompiles)
  patches : Unpatched block.block.header.inner.number 0 (block.transactionsRecovered.take i)

section

variable {api : HlEthApi P} {block : RecoveredBlock} {i : ℕ}

theorem toU64_number (header : HlHeader) :
    toU64 (evmEnv header).number = .ok header.inner.number := by
  have hn : (header.inner.number.toBitVec.setWidth 256).toNat = header.inner.number.toNat := by
    rw [BitVec.toNat_setWidth, UInt64.toNat_toBitVec]
    exact Nat.mod_eq_of_lt (header.inner.number.toNat_lt.trans (by decide))
  rw [toU64, evmEnv, hn, if_pos header.inner.number.toNat_lt, UInt64.ofNat_toNat]

/-- The precompiles a replay installs. -/
theorem replayPrecompiles_eq_ok {precompiles : PrecompilesMap} :
    (api.replayPrecompiles (evmEnv block.block.header) : Except (RpcError E P) _) =
        .ok precompiles ↔
      ∃ extras, api.getHlExtras block.block.header.inner.number = .ok extras ∧
        applyPrecompiles (evmEnv block.block.header).number extras api.precompiles =
          .ok precompiles := by
  rw [HlEthApi.replayPrecompiles, toU64_number, except_bind_eq_ok]
  simp only [except_bind_eq_ok, mapError_eq_ok, Except.ok.injEq, exists_eq_left']

/-- The executor created with the precompiles of a block. -/
def executorAt (api : HlEthApi P) (block : RecoveredBlock) (parent : Db)
    (precompiles : PrecompilesMap) : HlBlockExecutor :=
  fresh (api.evmAt block parent) (contextForBlock block.block) precompiles

/-- The executor starts with the precompiles of the block. -/
theorem start_eq_ok {parent : Db} {ex₀ : HlBlockExecutor} :
    start (api.evmAt block parent) (contextForBlock block.block) = .ok ex₀ ↔
      ∃ precompiles, applyPrecompiles (evmEnv block.block.header).number block.block.body.extras
        api.precompiles = .ok precompiles ∧
        ex₀ = (executorAt api block parent precompiles).deployCorewriterContract := by
  rw [start_eq]
  change _ <$> applyPrecompiles (evmEnv block.block.header).number block.block.body.extras
    api.precompiles = _ ↔ _
  cases applyPrecompiles (evmEnv block.block.header).number block.block.body.extras
    api.precompiles <;> simp [executorAt, eq_comm]

/-- The databases recorded by a trace, whose precompiles are found. -/
theorem getElem?_trace {parent db : Db} {precompiles : PrecompilesMap}
    (hprecompiles : (api.replayPrecompiles (evmEnv block.block.header) :
      Except (RpcError E P) _) = .ok precompiles)
    (hi : i < block.transactionsRecovered.length)
    (h : replayDb transact (evmEnv block.block.header) precompiles parent
      (block.transactionsRecovered.take i) = .ok db)
    {highest : Option ℕ} (hhighest : ∀ h ∈ highest, i ≤ h) (f : TransactionInfo → TracingCtx → R) :
    (api.traceBlockUntilWithInspector C transact block highest parent fun info ctx =>
      .ok (f info ctx)).1[i]? = some db := by
  have hne : block.transactionsRecovered.isEmpty = false := by
    rw [← Bool.not_eq_true, List.isEmpty_iff]
    rintro hnil
    simp [hnil] at hi
  simp only [HlEthApi.traceBlockUntilWithInspector, hne, Bool.false_eq_true, if_false, hprecompiles]
  have hmax : i < HlEthApi.maxTransactions block.transactionsRecovered.length highest := by
    cases highest with
    | none => exact hi
    | some highest => exact Nat.lt_succ_of_le (hhighest highest rfl)
  refine getElem?_tryTraceMany (by rw [List.length_take]; omega) ?_ 0 _
  rwa [List.take_take, Nat.min_eq_left hmax.le]

theorem take_succ_eq {txs : List Recovered} {tx : Recovered} (h : txs[i]? = some tx) :
    txs.take (i + 1) = txs.take i ++ [tx] := by
  rw [List.take_add_one, h]
  rfl

/-- A block that an executor gets to a transaction of is executable. -/
theorem executable_of_executeAll {parent : Db} {ex₀ ex : HlBlockExecutor} {tx : Recovered}
    {output : ResultAndState}
    (hstart : start (api.evmAt block parent) (contextForBlock block.block) = .ok ex₀)
    (hrun : executeAll C transact ex₀ (block.transactionsRecovered.take i) = .ok ex)
    (htx : block.transactionsRecovered[i]? = some tx)
    (hexec : executeTransactionWithoutCommit C transact ex tx = (.ok output, ex)) :
    Executable api block i := by
  obtain ⟨precompiles, hprecompiles, rfl⟩ := start_eq_ok.1 hstart
  refine ⟨(List.getElem?_eq_some_iff.1 htx).1, ⟨precompiles, hprecompiles⟩, ?_⟩
  obtain ⟨-, hlimit, houtput⟩ := executeTransactionWithoutCommit_eq_ok.1 hexec
  have hlast : executeAll C transact ex [tx] = .ok (commitTransaction ex output tx).2 :=
    executeAll_cons.2 ⟨output, hlimit, houtput, rfl⟩
  have hall := executeAll_append.2 ⟨ex, hrun, hlast⟩
  have hfits := fits_of_executeAll hall (deployCorewriterContract_gasUsed _)
  rw [← take_succ_eq htx, deployCorewriterContract_block] at hfits
  exact hfits

/-- A replayable transaction is replayed on the state it was executed on. -/
theorem replaysExecution_of_replayable (h : Executable api block i → Replayable api block i) :
    ReplaysExecution C api block i := by
  intro E transact parent ex₀ ex tx output hstart hrun htx hexec
  obtain ⟨hcorewriter, ⟨extras, precompiles', hextras, hprecompiles', hsame⟩, hpatches⟩ :=
    h (executable_of_executeAll hstart hrun htx hexec)
  obtain ⟨precompiles, hprecompiles, rfl⟩ := start_eq_ok.1 hstart
  rw [deployCorewriterContract_of_ne hcorewriter] at hrun
  have hlookup : (api.replayPrecompiles (evmEnv block.block.header) : Except (RpcError E P) _) =
      .ok precompiles' := replayPrecompiles_eq_ok.2 ⟨extras, hextras, hprecompiles'⟩
  have hreplay : replayDb transact (evmEnv block.block.header) precompiles' parent
      (block.transactionsRecovered.take i) = .ok ex.evm.db := by
    rcases Nat.eq_zero_or_pos i with rfl | hi
    · -- Nothing is run before the first transaction, whatever the precompiles.
      rw [List.take_zero, executeAll_nil] at hrun
      rw [hrun]
      rfl
    · obtain rfl : precompiles = precompiles' :=
        Except.ok.inj (hprecompiles.symm.trans (hsame hi))
      refine replayDb_of_executeAll hrun ?_
      change Unpatched (saturatingToU64 (block.block.header.inner.number.toBitVec.setWidth 256)) 0 _
      rw [saturatingToU64_setWidth]
      exact hpatches
  refine ⟨fun highest hhighest R f => ?_, fun hbefore => ?_⟩
  · exact getElem?_trace hlookup (List.getElem?_eq_some_iff.1 htx).1 hreplay hhighest f
  · rw [HlEthApi.replayTransactionsUntil, except_bind_eq_ok]
    refine ⟨precompiles', hlookup, ?_⟩
    rw [replayLoop_eq htx hbefore hreplay, Nat.zero_add]
    rfl

/-- The executor before the probes, without any account. -/
theorem probed_start {precompiles : PrecompilesMap} :
    Probed block.block.header.inner.gasLimit
      (executorAt api block (fun _ => none) precompiles).deployCorewriterContract := by
  refine .inl ⟨deployCorewriterContract_gasUsed _, ?_⟩
  by_cases h : (executorAt api block (fun _ => none) precompiles).evm.block.number =
      corewriterEnabledBlockNumber
  · rw [deployCorewriterContract_db h, Function.update_of_ne (by decide)]
    rfl
  · rw [deployCorewriterContract_of_ne h]
    rfl

variable (on) in
/-- The probed account in the state a transaction is executed on, if it is replayed on the
    same one. -/
theorem ReplaysExecution.codeLength_eq (h : ReplaysExecution C api block i)
    (hexecutable : Executable api block i) {precompiles : PrecompilesMap}
    (hprecompiles : applyPrecompiles (evmEnv block.block.header).number block.block.body.extras
      api.precompiles = .ok precompiles) (hprobed : probed ≠ 0) :
    ∃ ex extras precompiles',
      executeAll C (probe block.block.header.inner.gasLimit probed on)
        (executorAt api block (fun _ => none) precompiles).deployCorewriterContract
        (block.transactionsRecovered.take i) = .ok ex ∧
      api.getHlExtras block.block.header.inner.number = .ok extras ∧
      applyPrecompiles (evmEnv block.block.header).number extras api.precompiles =
        .ok precompiles' ∧
      (on precompiles' → codeLength ex.evm.db probed = i) ∧
      (¬ on precompiles' → codeLength ex.evm.db probed = 0) := by
  obtain ⟨tx, htx⟩ : ∃ tx, block.transactionsRecovered[i]? = some tx :=
    ⟨_, List.getElem?_eq_getElem hexecutable.lt_length⟩
  set ex₀ := (executorAt api block (fun _ => none) precompiles).deployCorewriterContract with hex₀
  have hgas : ex₀.evm.block.gasLimit = block.block.header.inner.gasLimit := by
    rw [hex₀, deployCorewriterContract_block]
    rfl
  -- The executor gets to the transaction.
  have hall : ∃ ex₁, executeAll C (probe ex₀.evm.block.gasLimit probed on) ex₀
      (block.transactionsRecovered.take (i + 1)) = .ok ex₁ :=
    exists_executeAll hprobed (hgas ▸ probed_start) fun _ => hgas ▸ hexecutable.fits
  obtain ⟨ex₁, hall⟩ := hall
  rw [hgas, take_succ_eq htx, executeAll_append] at hall
  obtain ⟨ex, hrun, hlast⟩ := hall
  obtain ⟨output, hlimit, houtput, -⟩ := executeAll_cons.1 hlast
  obtain ⟨htrace, -⟩ := h Unit _ _ ex₀ ex tx output (start_eq_ok.2 ⟨precompiles, hprecompiles, rfl⟩)
    hrun htx (executeTransactionWithoutCommit_eq_ok.2 ⟨rfl, hlimit, houtput⟩)
  -- So does the trace, which therefore has found its precompiles.
  have htrace := htrace none (fun _ h => by cases h) Unit fun _ _ => ()
  cases hlookup : (api.replayPrecompiles (evmEnv block.block.header) :
      Except (RpcError Unit P) _) with
  | error error =>
    rw [HlEthApi.traceBlockUntilWithInspector, hlookup] at htrace
    split_ifs at htrace <;> cases htrace
  | ok precompiles' =>
    obtain ⟨extras, hextras, hprecompiles'⟩ := replayPrecompiles_eq_ok.1 hlookup
    obtain ⟨db, hdb, hon, hoff⟩ := replayDb_probe hprobed (block.transactionsRecovered.take i)
      fun _ => none
    rw [getElem?_trace hlookup hexecutable.lt_length hdb fun _ h => by cases h] at htrace
    obtain rfl : db = ex.evm.db := Option.some.inj htrace
    refine ⟨ex, extras, precompiles', hrun, hextras, hprecompiles', fun h => ?_, hoff⟩
    rw [hon h, List.length_take_of_le hexecutable.lt_length.le]
    exact Nat.zero_add i

/-- A transaction that is replayed on the state it was executed on is replayable. -/
theorem ReplaysExecution.replayable (h : ReplaysExecution C api block i)
    (hexecutable : Executable api block i) : Replayable api block i := by
  obtain ⟨precompiles, hprecompiles⟩ := hexecutable.precompiles
  have hcorewriter : (evmEnv block.block.header).number ≠ corewriterEnabledBlockNumber := by
    intro hnumber
    -- The executor deploys the core writer, whose code nothing else changes.
    have hne : corewriterContractAddress ≠ 0 := by decide
    obtain ⟨ex, _, _, hrun, -, -, -, hoff⟩ := h.codeLength_eq (fun _ => False)
      hexecutable hprecompiles hne
    have hlen := (codeLength_executeAll hne hrun).2.1 id
    rw [hoff id, deployCorewriterContract_db hnumber, codeLength, Function.update_self] at hlen
    exact corewriterCode_ne_nil (List.length_eq_zero_iff.1 hlen.symm)
  have hlen₀ : ∀ probed, codeLength
      (executorAt api block (fun _ => none) precompiles).evm.db probed = 0 := fun _ => rfl
  refine ⟨hcorewriter, ?_, fun j tx htx patch hmem => ?_⟩
  · -- An EVM that appends with other precompiles only, which the executor does not have.
    obtain ⟨ex, extras, precompiles', hrun, hextras, hprecompiles', hon, -⟩ :=
      h.codeLength_eq (· ≠ precompiles) hexecutable hprecompiles (show (1 : Address) ≠ 0 by decide)
    refine ⟨extras, precompiles', hextras, hprecompiles', fun hi => ?_⟩
    by_contra hne
    rw [deployCorewriterContract_of_ne hcorewriter] at hrun
    have hlen := (codeLength_executeAll (by decide) hrun).2.1 (fun hoff => hoff rfl)
    rw [hon fun heq => hne (heq ▸ hprecompiles), hlen₀] at hlen
    omega
  · -- An EVM that always appends to the patched account, of which the executor drops a change.
    by_contra hpatched
    rw [Bool.not_eq_false] at hpatched
    have hne : patch.2.2.2 ≠ 0 := (by decide : ∀ patch ∈ mainnetPatchesAfterTx, patch.2.2.2 ≠ 0)
      patch hmem
    obtain ⟨ex, _, _, hrun, -, -, hon, -⟩ := h.codeLength_eq (fun _ => True)
      hexecutable hprecompiles hne
    rw [deployCorewriterContract_of_ne hcorewriter] at hrun
    have hnumber : saturatingToU64 (evmEnv block.block.header).number =
      block.block.header.inner.number := saturatingToU64_setWidth _
    have hlt := (codeLength_executeAll hne hrun).2.2 j tx htx patch hmem (hnumber ▸ hpatched) rfl
    rw [hon trivial, hlen₀, List.length_take] at hlt
    omega

variable (C api block i) in
/-- Tracing replays the execution of a block if and only if what it leaves out does not
    matter: for every transaction an executor may get to, the block is not that of the core
    writer, the block looked up by its number has the same precompiles, and no change of an
    earlier transaction is dropped. -/
theorem replaysExecution_iff :
    ReplaysExecution C api block i ↔ (Executable api block i → Replayable api block i) :=
  ⟨fun h hexecutable => h.replayable hexecutable, replaysExecution_of_replayable⟩

end

/-- The block of the core writer, with a transfer. -/
def corewriterBlock : RecoveredBlock where
  block :=
    { header :=
        { inner :=
            { (default : Header) with
              number := 7578300
              gasLimit := 30000000
              baseFeePerGas := some 1 }
          extras := ⟨0, 0⟩ }
      body :=
        { inner := { transactions := [(emptyTransfer 1).tx], ommers := [], withdrawals := none }
          sidecars := none
          readPrecompileCalls := none
          highestPrecompileAddress := none } }
  senders := [0xcafe]
  length_senders := rfl

/-- A node whose chain has the block of the core writer. -/
def corewriterApi : HlEthApi Unit where
  blockById _ := .ok (some corewriterBlock.block)
  precompiles _ := none

/-- The first transaction of the block of the core writer is executed on a state with the core
    writer, but traced on one without it. -/
theorem replay_misses_corewriter :
    (∃ ex₀ output,
      start (corewriterApi.evmAt corewriterBlock (transferEvm 0).db)
        (contextForBlock corewriterBlock.block) = .ok ex₀ ∧
      executeTransactionWithoutCommit emptyCrypto transferTransact ex₀ (emptyTransfer 1) =
        (.ok output, ex₀) ∧
      (ex₀.evm.db corewriterContractAddress).isSome = true ∧
      (corewriterApi.traceBlockUntilWithInspector emptyCrypto transferTransact corewriterBlock none
        (transferEvm 0).db fun _ _ => .ok ()).1 = [(transferEvm 0).db] ∧
      (transferEvm 0).db corewriterContractAddress = none) ∧
    ¬ ReplaysExecution emptyCrypto corewriterApi corewriterBlock 0 := by
  refine ⟨⟨_, _, rfl, rfl, rfl, rfl, rfl⟩, fun h => ?_⟩
  have htrace := (h Unit transferTransact (transferEvm 0).db _ _ (emptyTransfer 1) _ rfl rfl rfl
    rfl).1 none (fun _ h => by cases h) Unit fun _ _ => ()
  have hdb := congrArg Option.isSome
    (congrFun (Option.some.inj htrace) corewriterContractAddress)
  cases hdb

end Nanoreth
