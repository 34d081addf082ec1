import Nanoreth.Types.RethCompat
import Mathlib.Logic.Relation

/-!
# Node-to-node sync

A node converts a block on the wire, stores it with its receipts, and serves it to
other nodes on the wire again. The block a node stores, `Stored`, has fabricated
signatures on its first transactions, as many as its header counts. Such a block is
a fixed point of serving and converting:

* a node that is served it stores the same block, whatever it knows about spot
  assets, as it takes the senders of the system transactions from upstream
  (`Stored.toRethBlock_fromDb`);
* it stores the same receipts (`Stored.mergedReceipts_fromDb`).

So the block is the same after any number of hops (`sync_lossless`).
-/

namespace Nanoreth

open Partial

/-! ## Splitting -/

/-- The elements of small index are the first ones. -/
theorem map_fst_filter_zipIdx_lt {α : Type} (n : ℕ) (xs : List α) (k : ℕ) :
    ((xs.zipIdx k).filter fun p => decide (p.2 < n)).map (·.1) = xs.take (n - k) := by
  induction xs generalizing k with
  | nil => simp
  | cons x xs ih =>
    rw [List.zipIdx_cons, List.filter_cons]
    by_cases hk : k < n
    · obtain ⟨m, hm⟩ : ∃ m, n - k = m + 1 := ⟨n - k - 1, by omega⟩
      simp only [hk, decide_true, if_true, List.map_cons, ih, hm, List.take_succ_cons]
      rw [show n - (k + 1) = m by omega]
    · have hk' : n - k = 0 := by omega
      have hk'' : n - (k + 1) = 0 := by omega
      simp [hk, ih, hk', hk'']

/-- The elements of larger index are those after the first ones. -/
theorem map_fst_filter_zipIdx_ge {α : Type} (n : ℕ) (xs : List α) (k : ℕ) :
    ((xs.zipIdx k).filter fun p => !decide (p.2 < n)).map (·.1) = xs.drop (n - k) := by
  induction xs generalizing k with
  | nil => simp
  | cons x xs ih =>
    rw [List.zipIdx_cons, List.filter_cons]
    by_cases hk : k < n
    · obtain ⟨m, hm⟩ : ∃ m, n - k = m + 1 := ⟨n - k - 1, by omega⟩
      simp only [hk, decide_true, Bool.not_true, Bool.false_eq_true, if_false, ih, hm,
        List.drop_succ_cons]
      rw [show n - (k + 1) = m by omega]
    · have hk' : n - k = 0 := by omega
      have hk'' : n - (k + 1) = 0 := by omega
      simp [hk, ih, hk', hk'']

/-- A list is split at the index `count`, if it is that long. -/
theorem splitSystem_eq {α : Type} {count : ℕ} {xs : List α} (h : count ≤ xs.length) :
    splitSystem count xs = (xs.take count, xs.drop count) := by
  unfold splitSystem
  split_ifs with hc
  · rw [List.partition_eq_filter_filter]
    exact Prod.ext (map_fst_filter_zipIdx_lt count xs 0) (map_fst_filter_zipIdx_ge count xs 0)
  · obtain rfl : count = 0 := by omega
    simp

/-! ## System transactions -/

/-- A call of a contract at gas price `0`. -/
def SystemTx.IsLegacyCall (tx : SystemTx) : Prop :=
  ∃ payload target, tx.tx = .legacy payload ∧ payload.target = .call target ∧ payload.gasPrice = 0

/-- The transaction of the payload `payload` with the fabricated signature of `s`. -/
def fabricated (payload : TxLegacy) (s : U256) : TransactionSigned :=
  ⟨.legacy ⟨payload, ⟨1, s, true⟩⟩⟩

/-- A system transaction as the node stores it: the `s` of its signature is that
    of the sender recovered from it. -/
def IsFabricated (tx : TransactionSigned) : Prop :=
  ∃ payload target s, tx = fabricated payload s ∧ payload.target = .call target ∧
    payload.gasPrice = 0 ∧ addressToS (sToAddress s) = s

variable {env : SpotEnv} {fuel : ℕ} {C : Crypto} {chainId : UInt64}

/-- What a spot token is encoded as. -/
theorem spotToS_ok {target : Address} {cache cache' : SpotCache} {s : U256}
    (h : spotToS env chainId target fuel cache = .ok (s, cache')) :
    ∃ spot : SpotId, s = spot.toS := by
  induction fuel generalizing cache with
  | zero => cases h
  | succ fuel ih =>
    rw [spotToS_succ] at h
    cases hspot : cache.spotEvmMap target with
    | some spot =>
      rw [hspot] at h
      cases h
      exact ⟨spot, rfl⟩
    | none =>
      rw [hspot] at h
      cases hfetch : fetchSpotMeta env chainId fuel cache.requests with
      | error halt =>
        rw [hfetch] at h
        cases h
      | ok answer =>
        rw [hfetch] at h
        exact ih h

/-- The values of `s` that encode the sender of a system transaction. -/
inductive EncodesSender : U256 → Prop
  | address (sender : Address) : EncodesSender (addressToS sender)
  | hype : EncodesSender 1
  | spot (spot : SpotId) : EncodesSender spot.toS

/-- What is computed for a system transaction encodes a sender. -/
theorem encodesSender_of_toS {target : Address} {source : SenderSource} {cache cache' : SpotCache}
    {s : U256} (h : source.toS env fuel chainId target cache = .ok (s, cache')) :
    EncodesSender s := by
  cases source with
  | upstream sender | testnetLog sender =>
    rw [SenderSource.toS, pure_eq_ok, Prod.mk.injEq] at h
    rw [h.1]
    exact .address sender
  | hype =>
    rw [SenderSource.toS, pure_eq_ok, Prod.mk.injEq] at h
    rw [h.1]
    exact .hype
  | spot =>
    rw [SenderSource.toS] at h
    obtain ⟨spot, rfl⟩ := spotToS_ok h
    exact .spot spot

/-- The sender is turned into `s` in one of three ways, each of which is reversible. -/
theorem EncodesSender.addressToS_sToAddress {s : U256} (h : EncodesSender s) :
    addressToS (sToAddress s) = s := by
  cases h with
  | address sender => rw [sToAddress_addressToS]
  | hype => decide
  | spot spot => exact addressToS_sToAddress_toS spot

/-- Whatever the source of the sender, the node stores a fabricated signature from
    which the sender is recovered. -/
theorem isFabricated_of_ok {blockNumber : UInt64} {stx : SystemTx} {tx : TransactionSigned}
    {cache cache' : SpotCache} (hstx : stx.IsLegacyCall)
    (h : systemTxToRethTransaction env fuel chainId blockNumber stx cache = .ok (tx, cache')) :
    IsFabricated tx := by
  obtain ⟨payload, target, htx, htarget, hprice⟩ := hstx
  simp only [systemTxToRethTransaction, htx, htarget, bind_eq_ok, pure_eq_ok, Prod.mk.injEq] at h
  obtain ⟨s, _, hs, rfl, _⟩ := h
  exact ⟨payload, target, s, rfl, htarget, hprice,
    (encodesSender_of_toS hs).addressToS_sToAddress⟩

/-- The system transaction served for a stored one. -/
def servedSystemTx (C : Crypto) (tx : TransactionSigned) (receipt : EthereumReceipt) :
    SystemTx where
  tx := CompatTransactionSigned.extractTransaction tx
  receipt := some receipt.toLegacyReceipt
  fromAddress := tx.recoverSigner C

/-- The sender of such a transaction is what it encodes. -/
theorem IsFabricated.recoverSigner {tx : TransactionSigned} (htx : IsFabricated tx) :
    tx.recoverSigner C = some (sToAddress tx.signature.s) := by
  obtain ⟨payload, target, s, rfl, -, hprice, -⟩ := htx
  have : (fabricated payload s).isSystemTransaction = true := by
    simp [fabricated, TransactionSigned.isSystemTransaction, TransactionSigned.gasPrice,
      EthereumTxEnvelope.gasPrice, hprice]
  rw [TransactionSigned.recoverSigner, if_pos this]

/-- The system transaction served for a stored one is converted back to it, from
    the sender upstream gives, without looking up anything. -/
theorem IsFabricated.systemTxToRethTransaction_served {tx : TransactionSigned}
    (htx : IsFabricated tx) (receipt : EthereumReceipt) (blockNumber : UInt64) (cache : SpotCache) :
    systemTxToRethTransaction env fuel chainId blockNumber (servedSystemTx C tx receipt) cache =
      .ok (tx, cache) := by
  have hsigner := htx.recoverSigner (C := C)
  obtain ⟨payload, target, s, rfl, htarget, -, hs⟩ := htx
  have hfrom : (servedSystemTx C (fabricated payload s) receipt).fromAddress =
      some (sToAddress s) := hsigner
  have htx : (servedSystemTx C (fabricated payload s) receipt).tx = .legacy payload := rfl
  simp only [systemTxToRethTransaction, htx, htarget, senderSource, hfrom, SenderSource.toS,
    pure_bind]
  rw [pure_eq_ok, hs]
  rfl

/-- The receipts of the system transactions served for stored ones are theirs. -/
theorem receipts_served {txs : List TransactionSigned} {receipts : List EthereumReceipt}
    (hlen : txs.length = receipts.length) :
    (List.zipWith (servedSystemTx C) txs receipts).filterMap
      (fun tx => tx.receipt.map (·.toEthereumReceipt)) = receipts := by
  induction txs generalizing receipts with
  | nil => rw [List.length_eq_zero_iff.1 hlen.symm]; rfl
  | cons tx txs ih =>
    cases receipts with
    | nil => cases hlen
    | cons receipt receipts =>
      have := ih (Nat.succ.inj hlen)
      simp [servedSystemTx, this]

/-- They all have a receipt. -/
theorem retained_served (txs : List TransactionSigned) (receipts : List EthereumReceipt) :
    retainedSystemTxs (List.zipWith (servedSystemTx C) txs receipts) =
      List.zipWith (servedSystemTx C) txs receipts := by
  rw [retainedSystemTxs, List.filter_eq_self]
  intro stx hstx
  obtain ⟨i, hi, rfl⟩ := List.mem_iff_getElem.1 hstx
  simp [servedSystemTx]

/-- The served transactions are those of the block. -/
theorem forall₂_served {txs : List TransactionSigned} {receipts : List EthereumReceipt}
    (hlen : txs.length = receipts.length) (htxs : ∀ tx ∈ txs, IsFabricated tx)
    (blockNumber : UInt64) :
    List.Forall₂ (fun stx tx => ∀ cache,
      systemTxToRethTransaction env fuel chainId blockNumber stx cache = .ok (tx, cache))
      (List.zipWith (servedSystemTx C) txs receipts) txs := by
  induction txs generalizing receipts with
  | nil => exact .nil
  | cons tx txs ih =>
    cases receipts with
    | nil => cases hlen
    | cons receipt receipts =>
      exact .cons (fun cache =>
          (htxs tx List.mem_cons_self).systemTxToRethTransaction_served receipt blockNumber cache)
        (ih (Nat.succ.inj hlen) fun tx' h => htxs tx' (List.mem_cons_of_mem _ h))

theorem map_toEthereumReceipt_toLegacyReceipt (receipts : List EthereumReceipt) :
    (receipts.map (·.toLegacyReceipt)).map (·.toEthereumReceipt) = receipts := by
  simp [Function.comp_def]

theorem map_toRethTransaction_fromNodeTx (txs : List TransactionSigned) :
    (txs.map CompatTransactionSigned.fromNodeTx).map (·.toRethTransaction) = txs := by
  simp [Function.comp_def]

/-! ## Stored blocks -/

/-- A block a node stores with its receipts: the system transactions, as many as
    the header counts, come first, with their receipts. -/
structure Stored (C : Crypto) (block : HlBlock) (receipts : List EthereumReceipt) : Prop where
  count_le_transactions : block.header.extras.systemTxCount ≤ block.body.inner.transactions.length
  count_le_receipts : block.header.extras.systemTxCount ≤ receipts.length
  isFabricated : ∀ tx ∈ block.body.inner.transactions.take block.header.extras.systemTxCount,
    IsFabricated tx
  bloom : block.header.extras.logsBloomWithSystemTxs = logsBloom C (receipts.flatMap (·.logs))
  ommers : block.body.inner.ommers = []
  sidecars : block.body.sidecars = none
  calls : block.body.readPrecompileCalls.isSome

/-- Every system transaction that is kept has a receipt. -/
theorem length_filterMap_receipt (txs : List SystemTx) :
    ((retainedSystemTxs txs).filterMap fun tx => tx.receipt.map (·.toEthereumReceipt)).length =
      (retainedSystemTxs txs).length := by
  rw [retainedSystemTxs, List.filterMap_filter]
  induction txs with
  | nil => rfl
  | cons tx txs ih => cases h : tx.receipt <;> simp [h, ih]

/-- The block a node converts is stored with the receipts of its transactions. -/
theorem stored_of_toRethBlock {b : BlockAndReceipts} {block : HlBlock} {cache cache' : SpotCache}
    (hb : ∀ tx ∈ retainedSystemTxs b.systemTxs, tx.IsLegacyCall)
    (h : b.toRethBlock env fuel C chainId cache = .ok (block, cache')) :
    Stored C block b.mergedReceipts := by
  simp only [BlockAndReceipts.toRethBlock, SealedBlock.toRethBlock, bind_eq_ok, pure_eq_ok,
    Prod.mk.injEq] at h
  obtain ⟨systemTransactions, _, hsys, rfl, _⟩ := h
  obtain ⟨hlen, hmem⟩ := results_of_mapM hsys
  refine ⟨?_, ?_, ?_, rfl, rfl, rfl, rfl⟩
  · simp [HlHeader.fromEthereumHeader, hlen]
  · simp [HlHeader.fromEthereumHeader, BlockAndReceipts.mergedReceipts, mergeReceipts,
      length_filterMap_receipt]
  · simp only [HlHeader.fromEthereumHeader, ← hlen, List.take_left]
    intro tx htx
    obtain ⟨stx, hstx, _, _, hconv⟩ := hmem tx htx
    exact isFabricated_of_ok (hb stx hstx) hconv

/-! ## Serving -/

namespace BlockAndReceipts

variable {block : HlBlock} {receipts : List EthereumReceipt}

/-- The first transactions of a block, as many as its header counts, are served as system
    transactions, with their receipts. -/
theorem fromDb_systemTxs
    (htxs : block.header.extras.systemTxCount ≤ block.body.inner.transactions.length)
    (hreceipts : block.header.extras.systemTxCount ≤ receipts.length) :
    (fromDb C block receipts).systemTxs =
      List.zipWith (servedSystemTx C)
        (block.body.inner.transactions.take block.header.extras.systemTxCount)
        (receipts.take block.header.extras.systemTxCount) := by
  simp only [fromDb, splitSystem_eq htxs, splitSystem_eq hreceipts, List.zip, List.map_zipWith]
  rfl

/-- The other ones are served as regular transactions. -/
theorem fromDb_transactions
    (htxs : block.header.extras.systemTxCount ≤ block.body.inner.transactions.length) :
    (fromDb C block receipts).sealedBlock.body.transactions =
      (block.body.inner.transactions.drop block.header.extras.systemTxCount).map .fromNodeTx := by
  simp only [fromDb, sealedBlock, splitSystem_eq htxs]

/-- The receipts after those of system transactions are served. -/
theorem fromDb_receipts (hreceipts : block.header.extras.systemTxCount ≤ receipts.length) :
    (fromDb C block receipts).receipts =
      (receipts.drop block.header.extras.systemTxCount).map (·.toLegacyReceipt) := by
  simp only [fromDb, splitSystem_eq hreceipts]

end BlockAndReceipts

namespace Stored

variable {block : HlBlock} {receipts : List EthereumReceipt}

/-- The system transactions are served with their receipts. -/
theorem fromDb_systemTxs (h : Stored C block receipts) :
    (BlockAndReceipts.fromDb C block receipts).systemTxs =
      List.zipWith (servedSystemTx C)
        (block.body.inner.transactions.take block.header.extras.systemTxCount)
        (receipts.take block.header.extras.systemTxCount) :=
  BlockAndReceipts.fromDb_systemTxs h.count_le_transactions h.count_le_receipts

theorem retained_fromDb (h : Stored C block receipts) :
    retainedSystemTxs (BlockAndReceipts.fromDb C block receipts).systemTxs =
      (BlockAndReceipts.fromDb C block receipts).systemTxs := by
  rw [h.fromDb_systemTxs, retained_served]

theorem length_system (h : Stored C block receipts) :
    (block.body.inner.transactions.take block.header.extras.systemTxCount).length =
      (receipts.take block.header.extras.systemTxCount).length := by
  rw [List.length_take_of_le h.count_le_transactions, List.length_take_of_le h.count_le_receipts]

/-- The receipts of what is served for a stored block are those stored with it. -/
theorem mergedReceipts_fromDb (h : Stored C block receipts) :
    (BlockAndReceipts.fromDb C block receipts).mergedReceipts = receipts := by
  rw [BlockAndReceipts.mergedReceipts, mergeReceipts, h.retained_fromDb, h.fromDb_systemTxs,
    BlockAndReceipts.fromDb_receipts h.count_le_receipts, receipts_served h.length_system,
    map_toEthereumReceipt_toLegacyReceipt, List.take_append_drop]

/-- There are as many as the header counts. -/
theorem length_fromDb_systemTxs (h : Stored C block receipts) :
    (BlockAndReceipts.fromDb C block receipts).systemTxs.length =
      block.header.extras.systemTxCount := by
  rw [h.fromDb_systemTxs, List.length_zipWith, h.length_system, min_self,
    List.length_take_of_le h.count_le_receipts]

/-- A node that is served a stored block stores the same block, without looking up
    anything about spot assets. -/
theorem toRethBlock_fromDb (h : Stored C block receipts) (cache : SpotCache) :
    (BlockAndReceipts.fromDb C block receipts).toRethBlock env fuel C chainId cache =
      .ok (block, cache) := by
  have hmerged := h.mergedReceipts_fromDb
  rw [BlockAndReceipts.mergedReceipts] at hmerged
  simp only [BlockAndReceipts.toRethBlock, SealedBlock.toRethBlock, bind_eq_ok, pure_eq_ok,
    Prod.mk.injEq, h.retained_fromDb, hmerged, h.length_fromDb_systemTxs,
    BlockAndReceipts.fromDb_transactions h.count_le_transactions]
  refine ⟨block.body.inner.transactions.take block.header.extras.systemTxCount, cache, ?_, ?_, rfl⟩
  · rw [h.fromDb_systemTxs]
    exact mapM_eq_of_forall₂ (forall₂_served h.length_system h.isFabricated _) cache
  · -- The block is rebuilt field by field.
    obtain ⟨calls, hcalls⟩ := Option.isSome_iff_exists.1 h.calls
    have htxs := map_toRethTransaction_fromNodeTx
      (block.body.inner.transactions.drop block.header.extras.systemTxCount)
    have hbloom := h.bloom
    have hommers := h.ommers
    have hsidecars := h.sidecars
    rw [htxs, List.take_append_drop, HlHeader.fromEthereumHeader, ← hbloom]
    simp only [BlockAndReceipts.fromDb, BlockAndReceipts.sealedBlock, hcalls, Option.getD_some]
    rw [← hcalls, ← hommers, ← hsidecars]

end Stored

/-! ## Hops -/

/-- A node that is served `b` serves `b'`: it converts `b`, whatever it knows about
    spot assets, and stores it with its receipts. -/
def Reserves (C : Crypto) (chainId : UInt64) (b b' : BlockAndReceipts) : Prop :=
  ∃ env fuel cache cache' block, b.toRethBlock env fuel C chainId cache = .ok (block, cache') ∧
    b' = .fromDb C block b.mergedReceipts

/-- What is served for a stored block is served again unchanged. -/
theorem Stored.fromDb_of_reserves {block : HlBlock} {receipts : List EthereumReceipt}
    (h : Stored C block receipts) {b : BlockAndReceipts}
    (hb : Relation.ReflTransGen (Reserves C chainId) (.fromDb C block receipts) b) :
    b = .fromDb C block receipts := by
  induction hb with
  | refl => rfl
  | tail _ hstep ih =>
    obtain ⟨env, fuel, cache, cache', block', hblock, rfl⟩ := hstep
    rw [ih, h.toRethBlock_fromDb, Except.ok.injEq, Prod.mk.injEq] at hblock
    rw [ih, h.mergedReceipts_fromDb, hblock.1]

/-- The senders of the system transactions served for a stored block are given by
    upstream. -/
theorem Stored.senderSource_fromDb {block : HlBlock} {receipts : List EthereumReceipt}
    (h : Stored C block receipts) {stx : SystemTx}
    (hstx : stx ∈ (BlockAndReceipts.fromDb C block receipts).systemTxs) :
    ∃ payload target sender, stx.tx = .legacy payload ∧ payload.target = .call target ∧
      stx.fromAddress = some sender ∧ ∀ blockNumber,
        senderSource chainId blockNumber stx payload target = .upstream sender := by
  rw [h.fromDb_systemTxs, ← List.map_uncurry_zip_eq_zipWith, List.mem_map] at hstx
  obtain ⟨⟨tx, receipt⟩, hmem, rfl⟩ := hstx
  have hfab := h.isFabricated tx (List.of_mem_zip hmem).1
  have hsigner := hfab.recoverSigner (C := C)
  obtain ⟨payload, target, s, rfl, htarget, -, -⟩ := hfab
  refine ⟨payload, target, sToAddress s, rfl, htarget, hsigner, fun blockNumber => ?_⟩
  have hfrom : (servedSystemTx C (fabricated payload s) receipt).fromAddress =
      some (sToAddress s) := hsigner
  rw [Function.uncurry_apply_pair, senderSource, hfrom]

/-- Sync is lossless. Let a node convert the block `b`, whose system transactions
    with a receipt are calls at gas price `0`. However many nodes serve it to each
    other, each converts it to the same block, from the senders upstream gives and
    whatever it knows about spot assets. -/
theorem sync_lossless {b : BlockAndReceipts} {block : HlBlock} {cache cache' : SpotCache}
    (hb : ∀ tx ∈ retainedSystemTxs b.systemTxs, tx.IsLegacyCall)
    (h : b.toRethBlock env fuel C chainId cache = .ok (block, cache')) {b' : BlockAndReceipts}
    (hb' : Relation.ReflTransGen (Reserves C chainId) (.fromDb C block b.mergedReceipts) b') :
    (∀ env' fuel' cache₁, b'.toRethBlock env' fuel' C chainId cache₁ = .ok (block, cache₁)) ∧
      b'.mergedReceipts = b.mergedReceipts ∧
      ∀ stx ∈ b'.systemTxs, ∃ payload target sender,
        stx.tx = .legacy payload ∧ payload.target = .call target ∧ stx.fromAddress = some sender ∧
          ∀ blockNumber,
            senderSource chainId blockNumber stx payload target = .upstream sender := by
  have hstored := stored_of_toRethBlock hb h
  rw [hstored.fromDb_of_reserves hb']
  exact ⟨fun _ _ => hstored.toRethBlock_fromDb, hstored.mergedReceipts_fromDb,
    fun _ => hstored.senderSource_fromDb⟩

/-- A native transfer, or one of the token of a spot asset, without its sender. -/
def transfer (input : Bytes) : SystemTx where
  tx := .legacy
    { chainId := some testnetChainId
      nonce := 0
      gasPrice := 0
      gasLimit := 200000
      target := .call senderRecoveryToken
      value := 0
      input := input }
  receipt := some { txType := .legacy, success := true, cumulativeGasUsed := 0, logs := [] }
  fromAddress := none

/-- A block with a native transfer and a transfer of a token. -/
def transferBlock : BlockAndReceipts where
  block := .reth115
    { header :=
        { hash := 0x4de00f3b132db63724772bd806a4660f4b3f8101e4c3498ed8dea1b30d526913
          header := { (default : Header) with number := 56000000 } }
      body := { transactions := [], ommers := [], withdrawals := none } }
  receipts := []
  systemTxs := [transfer [], transfer [0xa9, 0x05, 0x9c, 0xbb]]
  readPrecompileCalls := []
  highestPrecompileAddress := none

/-- The functions of the dependencies, on the header of `transferBlock`. -/
def transferCrypto : Crypto where
  txHash _ := 0
  recoverSigner _ := none
  hashSlow _ := 0x4de00f3b132db63724772bd806a4660f4b3f8101e4c3498ed8dea1b30d526913
  logBloom _ := 0
  encodeTx _ := []
  encodeReceipt _ _ := []
  encodeWithdrawal _ := []
  orderedTrieRoot _ := emptyRootHash
  requestsHash _ := 0

/-- An API that knows no token. -/
def noTokens : SpotEnv := ⟨none, none, fun _ _ => some [], []⟩

/-- The cache of a node that has asked nothing yet. -/
def emptyCache : SpotCache := ⟨fun _ => none, 0⟩

/-- The cache filled from this API on testnet. -/
def testnetCache : SpotCache := ⟨patchTestnetSpotMeta fun _ => none, 1⟩

/-- The spot asset is fetched in the first conversion only. -/
theorem sync_lossless_transferBlock :
    ∃ block, transferBlock.toRethBlock noTokens 2 transferCrypto testnetChainId emptyCache =
        .ok (block, testnetCache) ∧
      (BlockAndReceipts.fromDb transferCrypto block transferBlock.mergedReceipts).toRethBlock
        noTokens 0 transferCrypto testnetChainId emptyCache = .ok (block, emptyCache) := by
  refine ⟨_, rfl, (sync_lossless (fun tx htx => ?_) (rfl : transferBlock.toRethBlock noTokens 2
    transferCrypto testnetChainId emptyCache = .ok (_, testnetCache)) .refl).1 _ _ _⟩
  have htx : tx ∈ transferBlock.systemTxs := List.mem_of_mem_filter htx
  simp only [transferBlock, List.mem_cons, List.not_mem_nil, or_false] at htx
  rcases htx with rfl | rfl <;> exact ⟨_, _, rfl, rfl, rfl⟩

end Nanoreth
