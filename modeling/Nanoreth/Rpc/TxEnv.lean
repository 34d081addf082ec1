import Nanoreth.Rpc.Call
import Nanoreth.Types.RethCompat

/-!
# The environment of a transaction

The EVM executes a transaction in an environment with its fields and its caller
(`evm/transaction.rs`). It is made in two ways: from a transaction and its sender, and from a
transaction, its sender and its encoding. The first one takes the caller of a transaction at gas
price `0` from the signature, whatever the sender is; the second one takes the sender.

How a transaction becomes an environment for a given caller is in alloy, and a parameter
(`FromRecoveredTx`). The two ways agree on the senders that are recovered from transactions. But a
simulation (`eth_simulateV1`) pairs an unsigned transaction, with an empty signature, with the
sender that the request asks for. At gas price `0`, the first way then makes the zero address the
caller (`txEnv_agree_iff`).
-/

namespace Nanoreth

open Partial

/-! ## Environments -/

/-- The fields of the environment of a transaction, but for its gas price and its gas limit. -/
structure TxFields where
  txType : TxType
  caller : Address
  kind : TxKind
  value : U256
  data : Bytes
  nonce : UInt64
  chainId : Option UInt64
  accessList : AccessList := []
  gasPriorityFee : Option U128 := none
  blobHashes : List B256 := []
  maxFeePerBlobGas : U128 := 0
  authorizationList : List SignedAuthorization := []
  deriving DecidableEq

/-- How alloy makes the environment of a transaction for a caller: of each kind of payload, and of
    the envelope of a signed one. The signature makes no difference, and the caller is kept. -/
structure FromRecoveredTx where
  fromLegacy : TxLegacy → Address → TxEnv TxFields
  fromEip2930 : TxEip2930 → Address → TxEnv TxFields
  fromEip1559 : TxEip1559 → Address → TxEnv TxFields
  fromEip4844 : TxEip4844 → Address → TxEnv TxFields
  fromEip7702 : TxEip7702 → Address → TxEnv TxFields
  fromEnvelope : EthereumTxEnvelope → Address → TxEnv TxFields
  fromEnvelope_eq : ∀ tx sender, fromEnvelope tx sender =
    match tx with
    | .legacy signed => fromLegacy signed.tx sender
    | .eip2930 signed => fromEip2930 signed.tx sender
    | .eip1559 signed => fromEip1559 signed.tx sender
    | .eip4844 signed => fromEip4844 signed.tx sender
    | .eip7702 signed => fromEip7702 signed.tx sender
  caller_fromEnvelope : ∀ tx sender, (fromEnvelope tx sender).rest.caller = sender

/-- The environment of a signed transaction is that of its envelope. -/
def TxEnv.fromRecoveredTx (envs : FromRecoveredTx) (tx : TransactionSigned) (sender : Address) :
    TxEnv TxFields :=
  envs.fromEnvelope tx.inner sender

/-- The payload of a transaction. -/
def TransactionSigned.intoTypedTransaction (tx : TransactionSigned) : Transaction :=
  match tx.inner with
  | .legacy signed => .legacy signed.tx
  | .eip2930 signed => .eip2930 signed.tx
  | .eip1559 signed => .eip1559 signed.tx
  | .eip4844 signed => .eip4844 signed.tx
  | .eip7702 signed => .eip7702 signed.tx

namespace RpcTxEnv

/-- A transaction that is not run on the state of a known block. -/
def new (base : TxEnv TxFields) : RpcTxEnv TxFields := ⟨base, none⟩

/-- The sender. -/
def caller (env : RpcTxEnv TxFields) : Address := env.base.rest.caller

/-- The environment of a transaction and its sender. The signer of a transaction at gas price `0` is
    unwrapped. -/
def fromRecoveredTx (envs : FromRecoveredTx) (C : Crypto) (tx : TransactionSigned)
    (sender : Address) : Except Halt (RpcTxEnv TxFields) :=
  if tx.gasPrice.isSome ∧ tx.gasPrice = some 0 then
    match tx.recoverSigner C with
    | some signer => .ok (new (TxEnv.fromRecoveredTx envs tx signer))
    | none => .error (.panic "called `Result::unwrap()` on an `Err` value: RecoveryError")
  else .ok (new (TxEnv.fromRecoveredTx envs tx sender))

/-- The environment of a transaction, its sender and its encoding, which is not used. -/
def fromEncodedTx (envs : FromRecoveredTx) (tx : TransactionSigned) (sender : Address)
    (_encoded : Bytes) : RpcTxEnv TxFields :=
  let base := match tx.intoTypedTransaction with
    | .legacy tx => envs.fromLegacy tx sender
    | .eip2930 tx => envs.fromEip2930 tx sender
    | .eip1559 tx => envs.fromEip1559 tx sender
    | .eip4844 tx => envs.fromEip4844 tx sender
    | .eip7702 tx => envs.fromEip7702 tx sender
  ⟨base, none⟩

end RpcTxEnv

/-- The transaction that is simulated for a request, from the payload built of it, if there is
    one. -/
def tryIntoSimTx (typedTx : Option Transaction) : Except String TransactionSigned :=
  match typedTx with
  | none => .error "Required fields missing"
  | some tx => .ok (CompatTransactionSigned.toRethTransaction ⟨⟨0, 0, false⟩, tx⟩)

/-! ## Callers -/

namespace RpcTxEnv

variable {envs : FromRecoveredTx} {C : Crypto} {tx : TransactionSigned} {sender : Address}

theorem caller_new (envs : FromRecoveredTx) (tx : TransactionSigned) (sender : Address) :
    (new (TxEnv.fromRecoveredTx envs tx sender)).caller = sender :=
  envs.caller_fromEnvelope tx.inner sender

theorem fromEncodedTx_eq (envs : FromRecoveredTx) (tx : TransactionSigned) (sender : Address)
    (encoded : Bytes) :
    fromEncodedTx envs tx sender encoded = new (TxEnv.fromRecoveredTx envs tx sender) := by
  obtain ⟨inner⟩ := tx
  rw [TxEnv.fromRecoveredTx, envs.fromEnvelope_eq]
  cases inner <;> rfl

/-- There is no panic: a transaction at gas price `0` is a system one, whose signer is always
    recovered. -/
theorem fromRecoveredTx_eq (envs : FromRecoveredTx) (C : Crypto) (tx : TransactionSigned)
    (sender : Address) :
    fromRecoveredTx envs C tx sender = .ok (new (TxEnv.fromRecoveredTx envs tx
      (HlTxEnv.fromRecoveredTx ⟨tx, sender⟩).caller)) := by
  unfold fromRecoveredTx HlTxEnv.fromRecoveredTx TransactionSigned.recoverSigner
  by_cases hprice : tx.gasPrice = some 0
  · have hsystem : tx.isSystemTransaction = true := beq_iff_eq.2 hprice
    rw [if_pos ⟨hprice ▸ rfl, hprice⟩, if_pos hsystem, if_pos hsystem]
  · have hsystem : tx.isSystemTransaction ≠ true := fun h => hprice (beq_iff_eq.1 h)
    rw [if_neg fun h => hprice h.2, if_neg hsystem]

/-- The two environments are the same, and have the sender as their caller. -/
def Agree (envs : FromRecoveredTx) (C : Crypto) (tx : TransactionSigned) (sender : Address)
    (encoded : Bytes) : Prop :=
  fromRecoveredTx envs C tx sender = .ok (fromEncodedTx envs tx sender encoded) ∧
    (fromEncodedTx envs tx sender encoded).caller = sender

/-- Both ways agree if the sender of a transaction with gas price zero is the one it encodes. -/
theorem agree_iff {encoded : Bytes} : Agree envs C tx sender encoded ↔
    (tx.gasPrice = some 0 → sToAddress tx.signature.s = sender) := by
  have hcaller : (HlTxEnv.fromRecoveredTx ⟨tx, sender⟩).caller = sender ↔
      (tx.gasPrice = some 0 → sToAddress tx.signature.s = sender) := by
    rw [HlTxEnv.fromRecoveredTx, TransactionSigned.isSystemTransaction]
    by_cases hprice : tx.gasPrice = some 0
    · rw [if_pos (beq_iff_eq.2 hprice)]
      exact ⟨fun h _ => h, fun h => h hprice⟩
    · rw [if_neg fun h => hprice (beq_iff_eq.1 h)]
      exact ⟨fun _ h => absurd h hprice, fun _ => rfl⟩
  rw [Agree, fromRecoveredTx_eq, fromEncodedTx_eq, ← hcaller, Except.ok.injEq]
  constructor
  · rintro ⟨heq, -⟩
    rw [← caller_new envs tx (HlTxEnv.fromRecoveredTx ⟨tx, sender⟩).caller, heq, caller_new]
  · intro h
    exact ⟨by rw [h], caller_new envs tx sender⟩

end RpcTxEnv

/-- A simulated transaction has an empty signature. -/
theorem signature_of_tryIntoSimTx {typedTx : Option Transaction} {tx : TransactionSigned}
    (h : tryIntoSimTx typedTx = .ok tx) : tx.signature = ⟨0, 0, false⟩ := by
  cases typedTx with
  | none => cases h
  | some payload =>
    cases h
    cases payload <;> rfl

/-- The two environments of a transaction agree, and are for its sender, if and only if the sender
    of a transaction at gas price `0` is the one that its signature encodes. This is so if the
    sender is recovered from the transaction. For a simulated transaction it means that the sender
    is the zero address, at gas price `0`. -/
theorem txEnv_agree_iff (envs : FromRecoveredTx) (C : Crypto) (tx : TransactionSigned)
    (sender : Address) (encoded : Bytes) :
    (RpcTxEnv.Agree envs C tx sender encoded ↔
      (tx.gasPrice = some 0 → sToAddress tx.signature.s = sender)) ∧
    (tx.recoverSigner C = some sender → RpcTxEnv.Agree envs C tx sender encoded) ∧
    ∀ typedTx, tryIntoSimTx typedTx = .ok tx →
      (RpcTxEnv.Agree envs C tx sender encoded ↔ (tx.gasPrice = some 0 → sender = 0)) := by
  refine ⟨RpcTxEnv.agree_iff, fun hrecovered => ?_, fun typedTx htx => ?_⟩
  · refine RpcTxEnv.agree_iff.2 fun hprice => ?_
    have hsystem : tx.isSystemTransaction = true := beq_iff_eq.2 hprice
    rw [TransactionSigned.recoverSigner, if_pos hsystem] at hrecovered
    exact Option.some.inj hrecovered
  · have hzero : sToAddress tx.signature.s = 0 := by
      rw [signature_of_tryIntoSimTx htx]
      decide
    rw [RpcTxEnv.agree_iff, hzero]
    exact imp_congr_right fun _ => eq_comm

namespace TxEnv

/-- A legacy transaction, with its fields. -/
def fromLegacy (tx : TxLegacy) (caller : Address) : TxEnv TxFields where
  gasPrice := tx.gasPrice
  gasLimit := tx.gasLimit
  rest :=
    { txType := .legacy
      caller := caller
      kind := tx.target
      value := tx.value
      data := tx.input
      nonce := tx.nonce
      chainId := tx.chainId }

/-- A transaction with an access list, with its fields. -/
def fromEip2930 (tx : TxEip2930) (caller : Address) : TxEnv TxFields where
  gasPrice := tx.gasPrice
  gasLimit := tx.gasLimit
  rest :=
    { txType := .eip2930
      caller := caller
      kind := tx.target
      value := tx.value
      data := tx.input
      nonce := tx.nonce
      chainId := some tx.chainId
      accessList := tx.accessList }

/-- A transaction with a priority fee, with its fields. -/
def fromEip1559 (tx : TxEip1559) (caller : Address) : TxEnv TxFields where
  gasPrice := tx.maxFeePerGas
  gasLimit := tx.gasLimit
  rest :=
    { txType := .eip1559
      caller := caller
      kind := tx.target
      value := tx.value
      data := tx.input
      nonce := tx.nonce
      chainId := some tx.chainId
      accessList := tx.accessList
      gasPriorityFee := some tx.maxPriorityFeePerGas }

/-- A transaction with blobs, with its fields. -/
def fromEip4844 (tx : TxEip4844) (caller : Address) : TxEnv TxFields where
  gasPrice := tx.maxFeePerGas
  gasLimit := tx.gasLimit
  rest :=
    { txType := .eip4844
      caller := caller
      kind := .call tx.target
      value := tx.value
      data := tx.input
      nonce := tx.nonce
      chainId := some tx.chainId
      accessList := tx.accessList
      gasPriorityFee := some tx.maxPriorityFeePerGas
      blobHashes := tx.blobVersionedHashes
      maxFeePerBlobGas := tx.maxFeePerBlobGas }

/-- A transaction with authorisations, with its fields. -/
def fromEip7702 (tx : TxEip7702) (caller : Address) : TxEnv TxFields where
  gasPrice := tx.maxFeePerGas
  gasLimit := tx.gasLimit
  rest :=
    { txType := .eip7702
      caller := caller
      kind := .call tx.target
      value := tx.value
      data := tx.input
      nonce := tx.nonce
      chainId := some tx.chainId
      accessList := tx.accessList
      gasPriorityFee := some tx.maxPriorityFeePerGas
      authorizationList := tx.authorizationList }

/-- The environments with the fields of the transactions. -/
def withFields : FromRecoveredTx where
  fromLegacy := fromLegacy
  fromEip2930 := fromEip2930
  fromEip1559 := fromEip1559
  fromEip4844 := fromEip4844
  fromEip7702 := fromEip7702
  fromEnvelope tx sender :=
    match tx with
    | .legacy signed => fromLegacy signed.tx sender
    | .eip2930 signed => fromEip2930 signed.tx sender
    | .eip1559 signed => fromEip1559 signed.tx sender
    | .eip4844 signed => fromEip4844 signed.tx sender
    | .eip7702 signed => fromEip7702 signed.tx sender
  fromEnvelope_eq _ _ := rfl
  caller_fromEnvelope tx _ := by cases tx <;> rfl

end TxEnv

/-- A call at gas price `0`. -/
def freeCall : TxLegacy where
  chainId := some mainnetChainId
  nonce := 0
  gasPrice := 0
  gasLimit := 100000
  target := .call 0xbeef
  value := 0
  input := []

/-- A call at gas price `0` that is simulated for a sender: the environment that is made of the
    transaction and its sender is for the zero address, and the one that is made with its encoding
    for the sender. -/
theorem txEnv_simulated : ∃ tx env, tryIntoSimTx (some (.legacy freeCall)) = .ok tx ∧
    RpcTxEnv.fromRecoveredTx TxEnv.withFields emptyCrypto tx 0xc0ffee = .ok env ∧ env.caller = 0 ∧
    (RpcTxEnv.fromEncodedTx TxEnv.withFields tx 0xc0ffee []).caller = 0xc0ffee :=
  ⟨_, _, rfl, rfl, rfl, rfl⟩

end Nanoreth
