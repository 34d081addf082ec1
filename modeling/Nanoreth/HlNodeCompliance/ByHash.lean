import Nanoreth.HlNodeCompliance.Agreement

/-!
# Blocks by hash

A compliant request for a block by its hash loads the block, and then the header of its *number* to
find out how many system transactions to leave out. The request for the number of its transactions
loads the header of the hash instead. The block of a hash need not be the canonical one at its
number: it may be a sibling of it, or may have been replaced between the two lookups.

So the requests are served right if and only if the header at the number, if there is one, has the
count of the block, as has the header of the hash, and the block has that many transactions
(`blockByHash_iff`).
-/

namespace Nanoreth

open Partial

/-- The number of transactions that are served. -/
def BlockTransactions.length : BlockTransactions → ℕ
  | .full transactions => transactions.length
  | .hashes txHashes => txHashes.length
  | .uncle => 0

namespace EthApi

variable {E R : Type} {C : Crypto} {V : RpcConvert R} {api : EthApi E} {block : RecoveredBlock}
  {hash : B256} {header : HlHeader} {full : Bool}

/-- The response has as many transactions as the block. -/
theorem length_toRpcBlock (C : Crypto) (V : RpcConvert R) (block : RecoveredBlock) (full : Bool) :
    (block.toRpcBlock C V full).transactions.length = block.transactionsRecovered.length := by
  cases full with
  | false => exact List.length_map _
  | true => exact List.length_mapIdx

variable (C V full) in
/-- There is a panic if there are not as many transactions as are to be left out. -/
theorem adjustTransactions_of_lt {k : ℕ} (hk : block.transactionsRecovered.length < k) :
    ∃ halt, adjustTransactions k (block.toRpcBlock C V full).transactions = .error halt := by
  cases full with
  | false =>
    refine ⟨.panic "range end index out of range for slice", ?_⟩
    change (drain k _ >>= _) = _
    rw [drain, if_neg (by rw [List.length_map]; omega)]
    rfl
  | true =>
    refine ⟨.panic "range end index out of range for slice", ?_⟩
    change (drain k (block.rpcTransactions C V) >>= _) = _
    rw [drain, if_neg (by rw [RecoveredBlock.rpcTransactions, List.length_mapIdx]; omega)]
    rfl

/-- What is served for a hash, when there is a header at the number of its block. -/
theorem blockByHash_eq (hfound : api.recoveredBlock (.hash hash) = .ok (some block))
    (hheader : api.headerById (.number (.number block.block.header.inner.number)) =
      .ok (some header)) :
    api.blockByHash C V true hash full =
      ((adjustTransactions header.extras.systemTxCount
        (block.toRpcBlock C V full).transactions).mapError .panic).map
        fun transactions =>
          some { block.toRpcBlock C V full with transactions := transactions } := by
  rw [blockByHash, rpcBlock, hfound]
  change api.adjustBlock (block.toRpcBlock C V full) = _
  rw [adjustBlock, systemTxCountForBlock]
  change (Except.mapError _ (api.headerById (.number (.number block.block.header.inner.number))) >>=
    _) >>= _ = _
  rw [hheader]
  rfl

variable (C V full) in
/-- No block is served, without a panic, when there is no header at the number. -/
theorem blockByHash_of_no_header (hfound : api.recoveredBlock (.hash hash) = .ok (some block))
    (hheader : ∀ header, api.headerById (.number (.number block.block.header.inner.number)) ≠
      .ok (some header)) :
    api.blockByHash C V true hash full = .ok none ∨
      ∃ error, api.blockByHash C V true hash full = .error (.api error) := by
  rw [blockByHash, rpcBlock, hfound]
  change api.adjustBlock (block.toRpcBlock C V full) = _ ∨
    ∃ error, api.adjustBlock (block.toRpcBlock C V full) = _
  have hnumber : (block.toRpcBlock C V full).number = block.block.header.inner.number := rfl
  rw [adjustBlock, systemTxCountForBlock, hnumber]
  cases hlookup : api.headerById (.number (.number block.block.header.inner.number)) with
  | error error => exact .inr ⟨error, rfl⟩
  | ok found =>
    cases found with
    | none => exact .inl rfl
    | some header => exact absurd hlookup (hheader header)

/-- The number of transactions that is served for a hash. -/
theorem blockTransactionCountByHash_eq_ok_iff {count : U256}
    (hfound : api.recoveredBlock (.hash hash) = .ok (some block)) :
    api.blockTransactionCountByHash true hash = .ok (some count) ↔
      ∃ header, api.headerById (.hash hash) = .ok (some header) ∧
        block.transactionCount - BitVec.ofNat 256 header.extras.systemTxCount = count := by
  rw [blockTransactionCountByHash, blockTransactionCount, hfound]
  change ((Except.mapError _ (api.headerById (.hash hash)) >>= _) >>= _ = _) ↔ _
  cases api.headerById (.hash hash) with
  | error error =>
    change Except.error (HandlerError.api error) = _ ↔ _
    simp
  | ok found =>
    cases found with
    | none =>
      change Except.ok none = _ ↔ _
      simp
    | some header =>
      change Except.ok (some (block.transactionCount - _)) = _ ↔ _
      simp

/-- The block of a hash is served right: there is no panic, and if a block is served, then without
    as many transactions as its own system transactions, and there are as many left as are served
    as their number. -/
structure ServedByHash (C : Crypto) (V : RpcConvert R) (api : EthApi E) (hash : B256)
    (block : RecoveredBlock) (full : Bool) : Prop where
  no_panic : ∀ halt, api.blockByHash C V true hash full ≠ .error (.panic halt)
  removed : ∀ served, api.blockByHash C V true hash full = .ok (some served) →
    served.transactions.length + block.systemTxCount = block.transactionsRecovered.length
  count : ∀ served, api.blockByHash C V true hash full = .ok (some served) →
    api.blockTransactionCountByHash true hash =
      .ok (some (BitVec.ofNat 256 served.transactions.length))

/-- The count of a header is that of the block of the hash, which the header of the hash has
    too. -/
structure OwnCount (api : EthApi E) (hash : B256) (block : RecoveredBlock) (header : HlHeader) :
    Prop where
  count_eq : header.extras.systemTxCount = block.systemTxCount
  count_le : block.systemTxCount ≤ block.transactionsRecovered.length
  byHash : ∃ header', api.headerById (.hash hash) = .ok (some header') ∧
    BitVec.ofNat 256 header'.extras.systemTxCount = BitVec.ofNat 256 block.systemTxCount

/-- Subtraction of fixed width can be solved for what is subtracted. -/
theorem sub_eq_iff {w a b c : ℕ} (h : c + b = a) (x : ℕ) :
    BitVec.ofNat w a - BitVec.ofNat w x = BitVec.ofNat w c ↔
      BitVec.ofNat w x = BitVec.ofNat w b := by
  rw [BitVec.sub_eq_iff_eq_add, ← h, BitVec.ofNat_add, BitVec.add_right_inj, eq_comm]

variable (C V full) in
/-- The block that is served, with the count of the header at its number. -/
theorem blockByHash_of_le (hfound : api.recoveredBlock (.hash hash) = .ok (some block))
    (hheader : api.headerById (.number (.number block.block.header.inner.number)) =
      .ok (some header))
    (hle : header.extras.systemTxCount ≤ block.transactionsRecovered.length) :
    ∃ served, api.blockByHash C V true hash full = .ok (some served) ∧
      served.transactions.length + header.extras.systemTxCount =
        block.transactionsRecovered.length := by
  refine ⟨_, by rw [blockByHash_eq hfound hheader, adjustTransactions_toRpcBlock hle]; rfl, ?_⟩
  change ((block.drop _).toRpcBlock C V full).transactions.length + _ = _
  rw [length_toRpcBlock, RecoveredBlock.transactionsRecovered_drop, List.length_drop]
  omega

variable (C V full) in
/-- The request panics if the header counts more system transactions than there are transactions. -/
theorem blockByHash_of_lt (hfound : api.recoveredBlock (.hash hash) = .ok (some block))
    (hheader : api.headerById (.number (.number block.block.header.inner.number)) =
      .ok (some header))
    (hlt : block.transactionsRecovered.length < header.extras.systemTxCount) :
    ∃ halt, api.blockByHash C V true hash full = .error (.panic halt) := by
  obtain ⟨halt, hhalt⟩ := adjustTransactions_of_lt C V full hlt
  exact ⟨halt, by rw [blockByHash_eq hfound hheader, hhalt]; rfl⟩

/-- The block is served without its system transactions if the header that was found has its count.
    -/
theorem servedByHash_of_header (hfound : api.recoveredBlock (.hash hash) = .ok (some block))
    (hheader : api.headerById (.number (.number block.block.header.inner.number)) =
      .ok (some header)) :
    ServedByHash C V api hash block full ↔ OwnCount api hash block header := by
  -- If the header that was found by number counts too many, the request panics; no count is served.
  rcases Nat.lt_or_ge block.transactionsRecovered.length header.extras.systemTxCount with hlt | hle
  · obtain ⟨halt, hhalt⟩ := blockByHash_of_lt C V full hfound hheader hlt
    refine ⟨fun h => absurd hhalt (h.no_panic halt), fun h => ?_⟩
    have := h.count_eq
    have := h.count_le
    omega
  · obtain ⟨served, hserved, hlength⟩ :=
      blockByHash_of_le C V full hfound hheader hle
    constructor
    -- Both the removed transactions and the count by hash are of the same block, so the counts
    -- agree.
    · intro h
      have hremoved := h.removed served hserved
      obtain ⟨header', hheader', hcount⟩ :=
        (blockTransactionCountByHash_eq_ok_iff hfound).1 (h.count served hserved)
      exact ⟨by omega, by omega, header', hheader', (sub_eq_iff hremoved _).1 hcount⟩
    · intro h
      have hremoved : served.transactions.length + block.systemTxCount =
          block.transactionsRecovered.length := by
        rw [← h.count_eq, hlength]
      obtain ⟨header', hheader', hcount⟩ := h.byHash
      constructor
      case no_panic =>
        rw [hserved]
        nofun
      case removed =>
        intro served' hserved'
        cases hserved.symm.trans hserved'
        exact hremoved
      case count =>
        intro served' hserved'
        cases hserved.symm.trans hserved'
        exact (blockTransactionCountByHash_eq_ok_iff hfound).2
          ⟨header', hheader', (sub_eq_iff hremoved _).2 hcount⟩

/-- The block of a hash is served right if and only if, where there is a header at its number, this
    has the count of the block. -/
theorem blockByHash_iff (C : Crypto) (V : RpcConvert R) (api : EthApi E) (hash : B256)
    (block : RecoveredBlock) (hfound : api.recoveredBlock (.hash hash) = .ok (some block))
    (full : Bool) :
    ServedByHash C V api hash block full ↔
      ∀ header, api.headerById (.number (.number block.block.header.inner.number)) =
        .ok (some header) → OwnCount api hash block header := by
  by_cases hheader : ∃ header, api.headerById
      (.number (.number block.block.header.inner.number)) = .ok (some header)
  · obtain ⟨header, hheader⟩ := hheader
    rw [servedByHash_of_header hfound hheader]
    constructor
    · intro h header' hheader'
      cases hheader.symm.trans hheader'
      exact h
    · exact fun h => h header hheader
  -- Without a header for its number, the block is not served at all, and nothing is claimed.
  · have hnone := blockByHash_of_no_header C V full hfound
      fun header h => hheader ⟨header, h⟩
    refine iff_of_true ?_ fun header h => absurd ⟨header, h⟩ hheader
    constructor
    case no_panic =>
      intro halt
      rcases hnone with h | ⟨error, h⟩ <;> rw [h] <;> nofun
    case removed =>
      intro served
      rcases hnone with h | ⟨error, h⟩ <;> rw [h] <;> nofun
    case count =>
      intro served
      rcases hnone with h | ⟨error, h⟩ <;> rw [h] <;> nofun

/-- The node has a single block. -/
theorem blockByHash_iff_mixedBlock :
    ServedByHash mixedCrypto mixedConvert (singleBlock mixedCrypto mixedRecovered mixedReceipts)
      (mixedRecovered.block.header.hash mixedCrypto) mixedRecovered true := by
  refine (blockByHash_iff mixedCrypto mixedConvert
    (singleBlock mixedCrypto mixedRecovered mixedReceipts) _ mixedRecovered rfl true).2
    fun header hheader => ?_
  cases hheader
  exact ⟨rfl, by decide, _, rfl, rfl⟩

/-- The node with the block under its hash, but another one at its number, with `count` system
    transactions. -/
def siblingOf (block : RecoveredBlock) (receipts : List EthereumReceipt) (count : ℕ) :
    EthApi Unit :=
  { singleBlock mixedCrypto block receipts with
    headerById := fun
      | .hash _ => .ok (some block.block.header)
      | .number _ => .ok (some ⟨block.block.header.inner,
          { block.block.header.extras with systemTxCount := count }⟩) }

/-- Of the two transactions of a block, one of them a system one, none is served if its sibling has
    two system transactions; if it has three, there is a panic. -/
theorem blockByHash_sibling :
    let hash := mixedRecovered.block.header.hash mixedCrypto
    mixedRecovered.systemTxCount = 1 ∧ mixedRecovered.transactionsRecovered.length = 2 ∧
    (∃ served, (siblingOf mixedRecovered mixedReceipts 2).blockByHash mixedCrypto mixedConvert true
      hash false = .ok (some served) ∧ served.transactions = .hashes []) ∧
    (siblingOf mixedRecovered mixedReceipts 2).blockTransactionCountByHash true hash =
      .ok (some 1) ∧
    (siblingOf mixedRecovered mixedReceipts 3).blockByHash mixedCrypto mixedConvert true hash
      false = .error (.panic (.panic "range end index out of range for slice")) := by
  intro hash
  exact ⟨rfl, rfl, ⟨_, rfl, rfl⟩, rfl, rfl⟩

end EthApi

end Nanoreth
