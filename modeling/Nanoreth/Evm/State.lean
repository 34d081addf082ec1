import Nanoreth.Evm.Precompiles

/-!
# The EVM

The EVM of the node is that of its dependencies. It is modelled by what it computes
(`Transact`): the result and the changes of a transaction, given the state of the
database (`Db`), the block (`BlockEnv`) and the installed precompiles. The changes
are committed to the database afterwards (`Db.commit`).
-/

namespace Nanoreth

/-- The hash of no code. -/
def keccakEmpty : B256 := 0xc5d2460186f7233c927e7db2dcc703c0e500b653ca82273b7bfad8045d85a470

/-- The fields of an account. -/
structure AccountInfo where
  balance : U256
  nonce : UInt64
  codeHash : B256
  code : Option Bytes
  deriving DecidableEq

instance : Inhabited AccountInfo := ⟨⟨0, 0, keccakEmpty, some []⟩⟩

/-- Whether an account is empty (EIP-161). -/
def AccountInfo.isEmpty (info : AccountInfo) : Bool :=
  info.codeHash == keccakEmpty && info.balance == 0 && info.nonce == 0

/-- An account in the database. -/
structure DbAccount where
  info : AccountInfo
  storage : U256 → U256

/-- The state of the database: the accounts that exist. -/
abbrev Db := Address → Option DbAccount

/-- An account as changed by a transaction, with the slots it accessed. -/
structure Account where
  info : AccountInfo
  storage : U256 → Option U256
  isTouched : Bool
  isSelfdestructed : Bool
  isCreated : Bool

/-- The accounts changed by a transaction. -/
abbrev EvmState := Address → Option Account

/-- The storage of an account of the database, empty if it does not exist. -/
def Db.storage (db : Db) (address : Address) : U256 → U256 :=
  match db address with
  | some account => account.storage
  | none => fun _ => 0

/-- Commits the changes of a transaction. -/
def Db.commit (db : Db) (changes : EvmState) : Db := fun address =>
  match changes address with
  | none => db address
  | some account =>
    -- The order matters: an account that was destroyed is gone even if it was created again.
    if !account.isTouched then db address
    else if account.isSelfdestructed then none
    else if account.isCreated then some ⟨account.info, fun slot => (account.storage slot).getD 0⟩
    else if account.info.isEmpty then none
    else some ⟨account.info, fun slot => (account.storage slot).getD (db.storage address slot)⟩

/-- How a transaction ended, and the gas it used. -/
inductive ExecutionResult
  | success (gasUsed : UInt64) (logs : List Log)
  | revert (gasUsed : UInt64)
  | halt (gasUsed : UInt64)
  deriving DecidableEq

namespace ExecutionResult

/-- The gas that is used, whatever the outcome. -/
def gasUsed : ExecutionResult → UInt64
  | success gasUsed _ => gasUsed
  | revert gasUsed => gasUsed
  | halt gasUsed => gasUsed

/-- Whether a transaction succeeds. -/
def isSuccess : ExecutionResult → Bool
  | success _ _ => true
  | _ => false

/-- The logs of a transaction, which has none if it does not succeed. -/
def intoLogs : ExecutionResult → List Log
  | success _ logs => logs
  | _ => []

end ExecutionResult

/-- The result of a transaction and the changes it makes. -/
structure ResultAndState where
  result : ExecutionResult
  state : EvmState

/-- The block a transaction is executed in. -/
structure BlockEnv where
  number : U256
  beneficiary : Address
  timestamp : U256
  difficulty : U256
  prevrandao : Option B256
  gasLimit : UInt64
  basefee : UInt64
  blobExcessGas : Option UInt64
  deriving DecidableEq

/-- The environment of a block (`config.rs`): its specification is that of Cancun, so that
    there is no difficulty. -/
def evmEnv (header : HlHeader) : BlockEnv where
  number := header.inner.number.toBitVec.setWidth 256
  beneficiary := header.inner.beneficiary
  timestamp := header.inner.timestamp.toBitVec.setWidth 256
  difficulty := 0
  prevrandao := some header.inner.mixHash
  gasLimit := header.inner.gasLimit
  basefee := header.inner.baseFeePerGas.getD 0
  blobExcessGas := header.inner.excessBlobGas

/-- A transaction and its signer. -/
structure Recovered where
  tx : TransactionSigned
  signer : Address
  deriving DecidableEq

/-- A block and the signers of its transactions. -/
structure RecoveredBlock where
  block : HlBlock
  senders : List Address
  length_senders : senders.length = block.body.inner.transactions.length

/-- The transactions of a block with their senders. -/
def RecoveredBlock.transactionsRecovered (block : RecoveredBlock) : List Recovered :=
  List.zipWith Recovered.mk block.block.body.inner.transactions block.senders

/-- A transaction and the account it is executed for. -/
structure HlTxEnv where
  tx : TransactionSigned
  caller : Address
  deriving DecidableEq

/-- A system transaction is executed for the sender encoded in its signature. -/
def HlTxEnv.fromRecoveredTx (tx : Recovered) : HlTxEnv where
  tx := tx.tx
  caller := if tx.tx.isSystemTransaction then sToAddress tx.tx.signature.s else tx.signer

/-- The execution of a transaction, which may fail with an error of the EVM. -/
abbrev Transact (E : Type) := Db → BlockEnv → PrecompilesMap → HlTxEnv → Except E ResultAndState

/-- An EVM that never reports more gas than the limit of the transaction. -/
def Transact.GasBounded {E : Type} (transact : Transact E) : Prop :=
  ∀ db block precompiles tx output, transact db block precompiles tx = .ok output →
    output.result.gasUsed ≤ tx.tx.gasLimit

/-- What a transaction is executed on. -/
structure Evm where
  db : Db
  block : BlockEnv
  precompiles : PrecompilesMap

/-- Executes a transaction in the state of the EVM. -/
def Evm.transact {E : Type} (transact : Transact E) (evm : Evm) (tx : HlTxEnv) :
    Except E ResultAndState :=
  transact evm.db evm.block evm.precompiles tx

end Nanoreth
