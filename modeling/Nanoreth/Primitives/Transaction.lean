import Mathlib.Data.BitVec

/-!
# Transactions

The transaction type of the node (`primitives/transaction.rs`): Ethereum's, with
a *pseudo signer* for system transactions. A system transaction arrives without
a signature; the node fabricates one whose `s` encodes the sender, so that
recovering the signer gives it back (`sToAddress`, `addressToS`).

* A transaction is a system one exactly when its gas price is `0`
  (`TransactionSigned.isSystemTransaction`).
* `addressToS` embeds the addresses in the values of `s`: the address of native
  transfers is sent to `1`, and the address `1`, which would collide with it, is
  lifted above the address space. `sToAddress` is its left inverse
  (`sToAddress_addressToS`).

A payload and its signature are kept apart from the hash of the two, which is
computed on demand. The field `to` of the payloads is called `target` here.
-/

namespace Nanoreth

/-- An account address, of 20 bytes. -/
abbrev Address := BitVec 160

/-- A hash, or any other word of 32 bytes. -/
abbrev B256 := BitVec 256

/-- An unsigned integer of 256 bits. -/
abbrev U256 := BitVec 256

/-- An unsigned integer of 128 bits. -/
abbrev U128 := BitVec 128

/-- A sequence of bytes. -/
abbrev Bytes := List UInt8

/-- A log: the contract that emitted it, its topics and its data. -/
structure Log where
  address : Address
  topics : List B256
  data : Bytes
  deriving DecidableEq

/-! ## Payloads -/

/-- The target of a transaction: the creation of a contract, or a call. -/
inductive TxKind
  | create
  | call (target : Address)
  deriving DecidableEq

/-- The accounts and the storage slots a transaction declares to access. -/
abbrev AccessList := List (Address × List B256)

/-- A signed delegation of an account to a contract (EIP-7702). -/
structure SignedAuthorization where
  chainId : U256
  address : Address
  nonce : UInt64
  yParity : Bool
  r : U256
  s : U256
  deriving DecidableEq

/-- A transaction before typed ones. -/
structure TxLegacy where
  chainId : Option UInt64
  nonce : UInt64
  gasPrice : U128
  gasLimit : UInt64
  target : TxKind
  value : U256
  input : Bytes
  deriving DecidableEq

/-- A transaction with an access list. -/
structure TxEip2930 where
  chainId : UInt64
  nonce : UInt64
  gasPrice : U128
  gasLimit : UInt64
  target : TxKind
  value : U256
  accessList : AccessList
  input : Bytes
  deriving DecidableEq

/-- A transaction with a fee cap and a tip. -/
structure TxEip1559 where
  chainId : UInt64
  nonce : UInt64
  gasLimit : UInt64
  maxFeePerGas : U128
  maxPriorityFeePerGas : U128
  target : TxKind
  value : U256
  accessList : AccessList
  input : Bytes
  deriving DecidableEq

/-- A transaction with blobs. -/
structure TxEip4844 where
  chainId : UInt64
  nonce : UInt64
  gasLimit : UInt64
  maxFeePerGas : U128
  maxPriorityFeePerGas : U128
  target : Address
  value : U256
  accessList : AccessList
  blobVersionedHashes : List B256
  maxFeePerBlobGas : U128
  input : Bytes
  deriving DecidableEq

/-- A transaction that sets the code of accounts. -/
structure TxEip7702 where
  chainId : UInt64
  nonce : UInt64
  gasLimit : UInt64
  maxFeePerGas : U128
  maxPriorityFeePerGas : U128
  target : Address
  value : U256
  accessList : AccessList
  authorizationList : List SignedAuthorization
  input : Bytes
  deriving DecidableEq

/-- The types of transactions (EIP-2718). -/
inductive TxType
  | legacy
  | eip2930
  | eip1559
  | eip4844
  | eip7702
  deriving DecidableEq

/-! ## Signed transactions -/

/-- The signature values of a transaction. -/
structure Signature where
  r : U256
  s : U256
  yParity : Bool
  deriving DecidableEq

/-- A payload with its signature. -/
structure Signed (T : Type) where
  tx : T
  signature : Signature
  deriving DecidableEq

/-- A signed Ethereum transaction, of any type. -/
inductive EthereumTxEnvelope
  | legacy (signed : Signed TxLegacy)
  | eip2930 (signed : Signed TxEip2930)
  | eip1559 (signed : Signed TxEip1559)
  | eip4844 (signed : Signed TxEip4844)
  | eip7702 (signed : Signed TxEip7702)
  deriving DecidableEq

/-- A transaction of the node: an Ethereum one (the variant `Default` of the
    source, its only one). -/
structure TransactionSigned where
  inner : EthereumTxEnvelope
  deriving DecidableEq

namespace EthereumTxEnvelope

/-- The type of a transaction. -/
def txType : EthereumTxEnvelope → TxType
  | legacy _ => .legacy
  | eip2930 _ => .eip2930
  | eip1559 _ => .eip1559
  | eip4844 _ => .eip4844
  | eip7702 _ => .eip7702

/-- The signature of a transaction. -/
def signature : EthereumTxEnvelope → Signature
  | legacy signed => signed.signature
  | eip2930 signed => signed.signature
  | eip1559 signed => signed.signature
  | eip4844 signed => signed.signature
  | eip7702 signed => signed.signature

/-- The gas limit of a transaction. -/
def gasLimit : EthereumTxEnvelope → UInt64
  | legacy signed => signed.tx.gasLimit
  | eip2930 signed => signed.tx.gasLimit
  | eip1559 signed => signed.tx.gasLimit
  | eip4844 signed => signed.tx.gasLimit
  | eip7702 signed => signed.tx.gasLimit

/-- The gas price: only the types preceding EIP-1559 have one. -/
def gasPrice : EthereumTxEnvelope → Option U128
  | legacy signed => some signed.tx.gasPrice
  | eip2930 signed => some signed.tx.gasPrice
  | eip1559 _ | eip4844 _ | eip7702 _ => none

/-- The gas of a blob of a blob transaction. -/
def gasPerBlob : UInt64 := 131072

/-- The gas of the blobs of a blob transaction. -/
def blobGasUsed : EthereumTxEnvelope → Option UInt64
  | eip4844 signed => some (UInt64.ofNat signed.tx.blobVersionedHashes.length * gasPerBlob)
  | legacy _ | eip2930 _ | eip1559 _ | eip7702 _ => none

end EthereumTxEnvelope

namespace TransactionSigned

/-- The type of the transaction. -/
def txType (tx : TransactionSigned) : TxType := tx.inner.txType

/-- The signature of the transaction. -/
def signature (tx : TransactionSigned) : Signature := tx.inner.signature

/-- The gas limit of the transaction. -/
def gasLimit (tx : TransactionSigned) : UInt64 := tx.inner.gasLimit

/-- The gas price of the transaction, if it has one. -/
def gasPrice (tx : TransactionSigned) : Option U128 := tx.inner.gasPrice

/-- The gas of the blobs of the transaction, if it has some. -/
def blobGasUsed (tx : TransactionSigned) : Option UInt64 := tx.inner.blobGasUsed

/-- A system transaction is one whose gas price is `0`. -/
def isSystemTransaction (tx : TransactionSigned) : Bool := tx.gasPrice == some 0

end TransactionSigned

/-! ## The sender of a system transaction -/

/-- The sender of native transfers, encoded as `1`. -/
def hypeSystemAddress : Address := 0x2222222222222222222222222222222222222222

/-- The address whose natural encoding collides with that of `hypeSystemAddress`. -/
def addressOne : Address := 1

/-- The escaped encoding of `addressOne`, one bit above the address space. -/
def addressOneS : U256 := 0x10000000000000000000000000000000000000001

/-- The sender encoded in the `s` of a fabricated signature. -/
def sToAddress (s : U256) : Address :=
  if s = 1 then hypeSystemAddress
  else if s = addressOneS then addressOne
  else s.setWidth 160

/-- The `s` of the fabricated signature of a transaction of the sender `addr`. -/
def addressToS (addr : Address) : U256 :=
  if addr = hypeSystemAddress then 1
  else if addr = addressOne then addressOneS
  else addr.setWidth 256

/-- The natural encoding of an address is in the address space. -/
theorem toNat_setWidth_address (addr : Address) : (addr.setWidth 256).toNat = addr.toNat := by
  rw [BitVec.toNat_setWidth]
  exact Nat.mod_eq_of_lt (addr.isLt.trans (by decide))

/-- An address is recovered from its natural encoding, unless it is `addressOne`. -/
theorem sToAddress_setWidth {addr : Address} (h1 : addr ≠ addressOne) :
    sToAddress (addr.setWidth 256) = addr := by
  have hne : addr.setWidth 256 ≠ 1 := fun h => h1 (by
    have := congrArg BitVec.toNat h
    rw [toNat_setWidth_address] at this
    exact BitVec.eq_of_toNat_eq this)
  have hneS : addr.setWidth 256 ≠ addressOneS := fun h => by
    have := congrArg BitVec.toNat h
    rw [toNat_setWidth_address] at this
    have hlt := addr.isLt
    rw [this] at hlt
    exact absurd hlt (by decide)
  rw [sToAddress, if_neg hne, if_neg hneS]
  apply BitVec.eq_of_toNat_eq
  rw [BitVec.toNat_setWidth, toNat_setWidth_address]
  exact Nat.mod_eq_of_lt addr.isLt

/-- The sender is recovered from its encoding. -/
@[simp]
theorem sToAddress_addressToS (addr : Address) : sToAddress (addressToS addr) = addr := by
  unfold addressToS
  split_ifs with h h1
  · rw [h]; decide
  · rw [h1]; decide
  · exact sToAddress_setWidth h1

/-- A value in the address space encodes an address, unless it is the natural
    encoding of the sender of native transfers. -/
theorem addressToS_sToAddress_of_lt {s : U256} (hs : s.toNat < 2 ^ 160) (h1 : s ≠ 1)
    (hhype : s.toNat ≠ hypeSystemAddress.toNat) : addressToS (sToAddress s) = s := by
  have hneS : s ≠ addressOneS := fun h => by
    rw [h] at hs
    exact absurd hs (by decide)
  have hnat : (s.setWidth 160).toNat = s.toNat := by
    rw [BitVec.toNat_setWidth]
    exact Nat.mod_eq_of_lt hs
  rw [sToAddress, if_neg h1, if_neg hneS, addressToS, if_neg, if_neg]
  · apply BitVec.eq_of_toNat_eq
    rw [toNat_setWidth_address, hnat]
  · intro h
    rw [h] at hnat
    exact h1 (BitVec.eq_of_toNat_eq hnat.symm)
  · intro h
    rw [h] at hnat
    exact hhype hnat.symm

end Nanoreth
