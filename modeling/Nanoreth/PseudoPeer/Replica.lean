import Nanoreth.PseudoPeer.HashIndex
import Nanoreth.PseudoPeer.Headers
import Nanoreth.PseudoPeer.SyncReader

/-!
# A node that syncs from another node

A node with a sync server serves the blocks of its database. A node whose source is that server
gets them by requests, decodes and caches them, and its pseudo peer converts them and sends their
headers and bodies to the rest of the node (`sync_server.rs`, `sources/rpc.rs`, `block_store.rs`,
`service.rs`).

All of it together is the identity, but for bodies without a list of recorded calls, which get an
empty one (`HlBlock.asServed`): the headers and the bodies that the pseudo peer sends are those in
the database of the other node, whatever was asked for before, whatever requests have failed, and
wherever the head was when they were answered. The bodies can be asked for by the hashes of the
headers, unless too many other blocks have been asked for since; and no spot metadata is needed for
the conversion (`replica_round`).

The hardcoded blocks of testnet are left out: they take the place of what is served.
-/

namespace Nanoreth

open Cut Lru Partial Transition

variable {ε : Type}

/-! ## The source of a node that syncs -/

/-- If a batch succeeds, so do the single requests, with the same blocks. -/
theorem Agrees.forall₂_of_ok {ε' B : Type} {f : UInt64 → Except ε B} {heights : List UInt64}
    {result : Except ε' (List B)} {blocks : List B} (h : Agrees f heights result)
    (hresult : result = .ok blocks) :
    List.Forall₂ (fun height block => f height = .ok block) heights blocks := by
  -- If the batch succeeds, no single request fails.
  have hall : ∀ height ∈ heights, ∃ block, f height = .ok block := by
    intro height hmem
    cases hblock : f height with
    | ok block => exact ⟨block, rfl⟩
    | error e =>
      obtain ⟨e', he'⟩ := h.error ⟨height, hmem, e, hblock⟩
      cases hresult.symm.trans he'
  have hblocks : ∃ blocks', List.Forall₂ (fun height block => f height = .ok block) heights
      blocks' := by
    clear h hresult
    induction heights with
    | nil => exact ⟨[], .nil⟩
    | cons height heights ih =>
      rw [List.forall_mem_cons] at hall
      obtain ⟨block, hblock⟩ := hall.1
      obtain ⟨blocks', hblocks⟩ := ih hall.2
      exact ⟨block :: blocks', .cons hblock hblocks⟩
  obtain ⟨blocks', hblocks⟩ := hblocks
  cases hresult.symm.trans (h.ok blocks' hblocks)
  exact hblocks

/-- A sync server, with what its node knows of the last block. -/
structure SyncNode where
  server : HlSyncServer
  bestBlockNumber : Except String UInt64

namespace SyncNode

variable (node : SyncNode)

/-- `hl_syncLatestBlockNumber`. -/
def syncLatestBlockNumber : Except String (Option UInt64) := do
  let _ ← node.server.getSyncDbReader
  match node.bestBlockNumber with
  | .ok number => .ok (some number)
  | .error e => .error s!"Failed to get latest block: {e}"

/-- The number of the latest block, as the source asks for it. -/
def findLatestBlockNumber : Option UInt64 :=
  node.syncLatestBlockNumber.toOption.join

/-- The source of a node that syncs. A batch is what is collected when all replies have come in. -/
def toBlockSource : BlockSource RpcSourceError where
  collectBlock := RpcBlockSource.collectBlock ⟨node.server⟩
  collectBlocks heights :=
    RpcBlockSource.collectReplies ((chunks RpcBlockSource.batchSize heights).map
      (RpcBlockSource.requestBatch ⟨node.server⟩))

/-- The stream of the requests for a batch ends with that. -/
theorem ends_collectBlocks (heights : List UInt64) :
    (RpcBlockSource.collectBlocks ⟨node.server⟩ heights).Ends fun s =>
      RpcBlockSource.collectReplies s.output = node.toBlockSource.collectBlocks heights := by
  refine (Buffered.ends (show 0 < RpcBlockSource.maxConcurrentBatches by decide)).mono ?_
  rintro s ⟨-, -, houtput⟩
  exact congrArg RpcBlockSource.collectReplies houtput

/-- A batch is what single requests give. -/
theorem agrees_collectBlocks (heights : List UInt64) :
    Agrees node.toBlockSource.collectBlock heights (node.toBlockSource.collectBlocks heights) :=
  RpcBlockSource.agrees_chunks heights

/-- The node answers a batch as it answers single requests. -/
theorem collectsAll : node.toBlockSource.CollectsAll := fun heights blocks hblocks =>
  (node.agrees_collectBlocks heights).ok blocks
    ((agrees_mapM node.toBlockSource.collectBlock heights).forall₂_of_ok hblocks)

end SyncNode

/-! ## How much a batch indexes -/

namespace BlockStore

theorem length_insertCached (cached : List (UInt64 × BlockAndReceipts)) (h : UInt64)
    (block : BlockAndReceipts) : (insertCached cached h block).length ≤ cached.length + 1 :=
  Nat.succ_le_succ (List.length_filter_le _ cached)

/-- A lookup adds at most one height. -/
theorem length_lookup (gapBlocks : UInt64 → Option BlockAndReceipts) (batch : Batch) (h : UInt64) :
    (lookup gapBlocks batch h).cached.length + (lookup gapBlocks batch h).uncachedHeights.length ≤
      batch.cached.length + batch.uncachedHeights.length + 1 := by
  unfold lookup
  split
  · rename_i block blocks hget
    have hlength := length_insertCached batch.cached h block
    dsimp only
    omega
  · split
    · rename_i block hgap
      have hlength := length_insertCached batch.cached h block
      dsimp only
      omega
    · simp only [List.length_append, List.length_singleton]
      omega

/-- Lookups add at most as many heights as there are. -/
theorem length_foldl_lookup (gapBlocks : UInt64 → Option BlockAndReceipts) (batch : Batch)
    (heights : List UInt64) :
    (heights.foldl (lookup gapBlocks) batch).cached.length +
        (heights.foldl (lookup gapBlocks) batch).uncachedHeights.length ≤
      batch.cached.length + batch.uncachedHeights.length + heights.length := by
  induction heights generalizing batch with
  | nil => exact le_rfl
  | cons h heights ih =>
    have hrest := ih (lookup gapBlocks batch h)
    have hlength := length_lookup gapBlocks batch h
    rw [List.foldl_cons, List.length_cons]
    omega

/-- No more is cached than was fetched. -/
theorem length_foldl_addFetched (batch : Batch) (blocks : List BlockAndReceipts) :
    (blocks.foldl addFetched batch).cached.length ≤ batch.cached.length + blocks.length := by
  induction blocks generalizing batch with
  | nil => exact le_rfl
  | cons block blocks ih =>
    have hrest := ih (addFetched batch block)
    have hlength := length_insertCached batch.cached block.number block
    rw [List.foldl_cons, List.length_cons]
    change (addFetched batch block).cached.length ≤ _ at hlength
    omega

end BlockStore

theorem length_indexPairs (block : BlockAndReceipts) : (indexPairs block).length ≤ 2 := by
  unfold indexPairs
  split_ifs <;> simp

/-- A batch indexes two pairs at most for each height, if the source sends no other blocks. -/
theorem length_indexed_le (source : BlockSource ε)
    (hsource : ∀ heights blocks, source.collectBlocks heights = .ok blocks →
      blocks.length = heights.length)
    (iteration : IterationOrder BlockAndReceipts) (store : BlockStore) (heights : List UInt64) :
    ((StoreOp.indexed store (.getByNumbers source iteration heights)).flatMap indexPairs).length ≤
      2 * heights.length := by
  -- At most one entry per height is cached or left to fetch, and at most two hashes are indexed per
  -- entry.
  have hlookup := BlockStore.length_foldl_lookup store.gapBlocks ⟨store.blocks, [], []⟩ heights
  change (store.lookupAll heights).cached.length + (store.lookupAll heights).uncachedHeights.length
    ≤ 0 + 0 + heights.length at hlookup
  have hpairs : ∀ blocks : List BlockAndReceipts,
      (blocks.flatMap indexPairs).length ≤ 2 * blocks.length := by
    intro blocks
    induction blocks with
    | nil => exact le_rfl
    | cons block blocks ih =>
      have hblock := length_indexPairs block
      rw [List.flatMap_cons, List.length_append, List.length_cons]
      omega
  refine (hpairs _).trans (Nat.mul_le_mul_left 2 ?_)
  rw [StoreOp.indexed]
  cases hfetch : BlockStore.fetch source (store.lookupAll heights) with
  | error e => exact Nat.zero_le _
  | ok batch =>
    rw [(iteration.perm _).length_eq, List.length_map]
    unfold BlockStore.fetch at hfetch
    split_ifs at hfetch with hnone
    · cases hfetch
      omega
    · obtain ⟨blocks, hblocks, hbatch⟩ := except_bind_eq_ok.1 hfetch
      cases hbatch
      have hadded := BlockStore.length_foldl_addFetched (store.lookupAll heights) blocks
      rw [hsource _ blocks hblocks] at hadded
      omega

/-! ## What a node serves -/

/-- A block as it is served: with an empty list if it has none of recorded calls. -/
def HlBlock.asServed (block : HlBlock) : HlBlock :=
  { block with body.readPrecompileCalls := some (block.body.readPrecompileCalls.getD []) }

/-- The chain in the database of a node that serves it, with the receipts. A body may be without
    recorded calls, as that of an empty block is. -/
structure ServedChain (C : Crypto) where
  block : UInt64 → HlBlock
  receipts : UInt64 → List EthereumReceipt
  stored : ∀ n, Stored C (block n).asServed (receipts n)
  number_block : ∀ n, (block n).header.inner.number = n
  parentHash_block : ∀ n, 0 < n → (block n).header.inner.parentHash = (block (n - 1)).header.hash C
  hash_injective : ∀ m n, (block m).header.hash C = (block n).header.hash C → m = n

namespace ServedChain

variable {C : Crypto} (chain : ServedChain C)

/-- The database, when the chain has grown up to its head. -/
def provider (head : UInt64) : SyncProvider where
  blockByNumber n := .ok (if n ≤ head then some (chain.block n) else none)
  receiptsByBlock n := .ok (if n ≤ head then some (chain.receipts n) else none)

/-- The node, when the chain has grown up to its head. -/
def node (codec : BlocksCodec) (head : UInt64) : SyncNode where
  server := ⟨codec, some ((chain.provider head).readBlockAndReceipts C)⟩
  bestBlockNumber := .ok head

/-- The hash of a block of the chain. -/
def hash (n : UInt64) : B256 := (chain.block n).header.hash C

/-- A block as it is served. -/
def served (n : UInt64) : BlockAndReceipts := .fromDb C (chain.block n) (chain.receipts n)

/-- The blocks on the wire are a chain, too. -/
def onWire : SourceChain where
  block := chain.served
  number_block := chain.number_block
  parentHash_block := chain.parentHash_block
  hash_injective := chain.hash_injective

/-- A source answers with what is served, or fails. -/
structure Answers (source : BlockSource ε) : Prop where
  collectBlock : ∀ n block, source.collectBlock n = .ok block → block = chain.served n
  collectBlocks : ∀ heights blocks, source.collectBlocks heights = .ok blocks →
    blocks = heights.map chain.served

/-- The calls of a store whose sources answer so. -/
def Allows : StoreOp ε → Prop
  | .getByNumber source _ => chain.Answers source
  | .getByNumbers source _ _ => chain.Answers source
  | .indexBlock block => ∃ n, block = chain.served n

variable {chain} {codec : BlocksCodec} {head n : UInt64}

theorem readBlockAndReceipts_of_le (h : n ≤ head) :
    (chain.provider head).readBlockAndReceipts C n = .ok (chain.served n) := by
  simp only [SyncProvider.readBlockAndReceipts, provider, if_pos h]
  rfl

/-- The source returns them as they are served. -/
theorem collectBlock_of_le (h : n ≤ head) :
    (chain.node codec head).toBlockSource.collectBlock n = .ok (chain.served n) := by
  have hread : RpcBlockSource.collectBlock ⟨(chain.node codec head).server⟩ n = _ :=
    RpcBlockSource.collectBlock_of_reader rfl n
  rw [readBlockAndReceipts_of_le h] at hread
  exact hread

/-- The source of a node that syncs answers with what is served. -/
theorem answers_node (codec : BlocksCodec) (head : UInt64) :
    chain.Answers (chain.node codec head).toBlockSource := by
  have hone : ∀ n block, (chain.node codec head).toBlockSource.collectBlock n = .ok block →
      block = chain.served n := by
    intro n block hblock
    by_cases h : n ≤ head
    · rw [collectBlock_of_le h] at hblock
      exact (Except.ok.inj hblock).symm
    · have hread : RpcBlockSource.collectBlock ⟨(chain.node codec head).server⟩ n = _ :=
        RpcBlockSource.collectBlock_of_reader rfl n
      simp only [SyncProvider.readBlockAndReceipts, provider, if_neg h] at hread
      cases hread.symm.trans hblock
  refine ⟨hone, fun heights blocks hblocks => ?_⟩
  have hall := ((chain.node codec head).agrees_collectBlocks heights).forall₂_of_ok hblocks
  rw [← List.forall₂_eq_eq_eq, List.forall₂_map_right_iff]
  exact hall.flip.imp fun block n hblock => hone n block hblock

/-- What the replica asks for is supplied from the chain. -/
theorem Allows.supplies {op : StoreOp ε} (h : chain.Allows op)
    (gapBlocks : UInt64 → Option BlockAndReceipts) :
    op.Supplies chain.onWire.IsBlock gapBlocks := by
  cases op with
  | getByNumber source n => exact fun block _ hblock => h.collectBlock n block hblock
  | getByNumbers source iteration heights =>
    intro heights blocks hblocks block hmem
    rw [h.collectBlocks heights blocks hblocks] at hmem
    obtain ⟨n, -, rfl⟩ := List.mem_map.1 hmem
    exact congrArg chain.served (chain.number_block n).symm
  | indexBlock block => exact h

end ServedChain

/-! ## The pseudo peer of a node that syncs -/

/-- The pseudo peer, when the chain it syncs from has grown up to its head. -/
def PseudoPeer.syncing (peer : PseudoPeer RpcSourceError) (chain : ServedChain peer.crypto)
    (codec : BlocksCodec) (head : UInt64) : PseudoPeer RpcSourceError :=
  { peer with source := (chain.node codec head).toBlockSource }

section Peer

variable {peer : PseudoPeer RpcSourceError} {chain : ServedChain peer.crypto} {codec : BlocksCodec}
  {head : UInt64} {store : BlockStore} {numbers : List UInt64}

/-- What a store knows is true of the chain that is served, and it has no other blocks. -/
structure IsReplica (chain : ServedChain peer.crypto) (store : BlockStore) : Prop where
  isTrue : chain.onWire.IsTrue store
  noGaps : ∀ n, store.gapBlocks n = none

/-- The store of the replica has a block, or can get it. -/
theorem IsReplica.offers (h : IsReplica chain store) {n : UInt64} (hn : n ≤ head) :
    store.Offers (chain.node codec head).toBlockSource n (chain.onWire.block n) :=
  .inr ⟨h.noGaps n, ServedChain.collectBlock_of_le hn, chain.number_block n⟩

/-- The blocks of the chain are sent, converted, whatever is known of spot assets. -/
theorem IsReplica.respond_eq (h : IsReplica chain store) (codec : BlocksCodec)
    (hnodup : numbers.Nodup) (hhead : ∀ n ∈ numbers, n ≤ head) (spotCache : SpotCache)
    (response : List HlBlock → EthResponse) :
    (peer.syncing chain codec head).respond store spotCache numbers response =
      ⟨[response (numbers.map fun n => (chain.block n).asServed)], .ok (),
        StoreOp.apply store (.getByNumbers (chain.node codec head).toBlockSource peer.iteration
          numbers), spotCache⟩ := by
  -- The store gets the served blocks, and converting them gives the blocks of the chain back.
  have hblocks : (store.getByNumbers (chain.node codec head).toBlockSource peer.iteration
      numbers).1 = .ok (numbers.map chain.served) :=
    (SourceChain.getByNumbers_iff h.isTrue.keeps (chain.node codec head).collectsAll
      fun n hn => h.offers (hhead n hn)).2 ⟨hnodup, rfl⟩
  have hconverted : (numbers.map chain.served).mapM (peer.syncing chain codec head).toRethBlock
      spotCache = .ok (numbers.map (fun n => (chain.block n).asServed), spotCache) := by
    refine mapM_eq_of_forall₂ ?_ spotCache
    rw [List.forall₂_map_left_iff, List.forall₂_map_right_iff, List.forall₂_same]
    exact fun n _ => (chain.stored n).toRethBlock_fromDb
  have hget : store.getByNumbers (peer.syncing chain codec head).source
      (peer.syncing chain codec head).iteration numbers = (.ok (numbers.map chain.served),
        StoreOp.apply store (.getByNumbers (chain.node codec head).toBlockSource peer.iteration
          numbers)) :=
    Prod.ext hblocks rfl
  unfold PseudoPeer.respond
  rw [hget]
  dsimp only
  rw [hconverted]

/-- The blocks of a batch are indexed. -/
theorem IsReplica.mem_indexed (h : IsReplica chain store) (hhead : ∀ n ∈ numbers, n ≤ head)
    {n : UInt64} (hn : n ∈ numbers) :
    chain.served n ∈ StoreOp.indexed store
      (.getByNumbers (chain.node codec head).toBlockSource peer.iteration numbers) := by
  have hoffers : ∀ n ∈ numbers, store.Offers (chain.node codec head).toBlockSource n
      (chain.onWire.block n) := fun n hn => h.offers (hhead n hn)
  have hmissed : ∀ n, store.Missed numbers n →
      store.Offers (chain.node codec head).toBlockSource n (chain.onWire.block n) := by
    rintro n ⟨before, after, hnumbers, -⟩
    exact hoffers n (hnumbers ▸ by simp)
  obtain ⟨batch, hbatch, hblock, hfound⟩ := (BlockStore.collects_lookupAll
    (fun n hn => SourceChain.getByNumber_eq_ok h.isTrue.keeps (hoffers n hn)) hmissed).fetch
      (chain.node codec head).collectsAll
  rw [StoreOp.indexed, hbatch]
  refine (peer.iteration.perm _).mem_iff.2 ?_
  obtain ⟨entry, hentry, rfl⟩ := List.mem_map.1 (hfound n hn)
  exact List.mem_map.2 ⟨entry, hentry, hblock entry hentry⟩

/-- The hashes that are indexed are resolved to the numbers of their blocks. -/
theorem IsReplica.knownNumbers_eq (h : IsReplica chain store)
    (hindexed : ∀ n ∈ numbers, ∃ m, store.hashIndex.getByLeft (chain.hash n) = some m) :
    store.knownNumbers (numbers.map chain.hash) = numbers := by
  rw [BlockStore.knownNumbers, List.filterMap_map]
  refine (List.filterMap_congr fun n hn => ?_).trans List.filterMap_some
  obtain ⟨m, hm⟩ := hindexed n hn
  obtain rfl := chain.hash_injective n m (h.isTrue.indexed _ m hm)
  simp only [Function.comp_apply, BlockStore.hashToNumber, hm, Except.toOption]

variable {db : Option (B256 → Option UInt64)} {gaps : List BlockAndReceipts}
  {ops : List (StoreOp RpcSourceError)}

/-- The store of the replica stays one of the chain. -/
theorem isReplica_runOps (hmainnet : peer.chainId ≠ testnetChainId)
    (hdb : ∀ lookup ∈ db, ∀ hash n, lookup hash = some n → hash = chain.hash n)
    (hops : ∀ op ∈ ops, chain.Allows op) :
    IsReplica chain (runOps (.new db gaps peer.chainId) ops) := by
  have hgaps : testnetGapBlocks gaps peer.chainId = fun _ => none := if_pos hmainnet
  have hstore₀ : chain.onWire.IsTrue (.new db gaps peer.chainId) := by
    refine ⟨BlockStore.keeps_ofLimits _ _ db fun n block h => ?_,
      SourceChain.indexed_ofLimits _ _ _ _ _, hdb⟩
    rw [hgaps] at h
    cases h
  have hreachable : Reachable (storeSystem (.new db gaps peer.chainId)
      (StoreEvent.Supplies chain.onWire.IsBlock (testnetGapBlocks gaps peer.chainId)))
      (runOps (.new db gaps peer.chainId) ops) :=
    reachable_runOps fun op hop => (hops op hop).supplies _
  refine ⟨hstore₀.reachable hreachable, fun n => ?_⟩
  rw [(keeps_of_reachable hstore₀.keeps hreachable).2.1]
  exact congrFun hgaps n

/-- What was indexed last is found. -/
theorem getByLeft_of_mem_indexLog {store₀ : BlockStore} {ops' : List (StoreOp RpcSourceError)}
    (hstore₀ : store₀.hashIndex = .new BlockStore.hashIndexLimit) {hash : B256}
    (hmem : hash ∈ (indexLog (runOps store₀ ops) ops').map (·.1))
    (hlimit : (indexLog (runOps store₀ ops) ops').length ≤ BlockStore.hashIndexLimit) :
    ∃ n, (runOps store₀ (ops ++ ops')).hashIndex.getByLeft hash = some n := by
  have hholds : (runOps store₀ (ops ++ ops')).hashIndex.Holds BlockStore.hashIndexLimit
      (indexLog store₀ ops ++ indexLog (runOps store₀ ops) ops') := by
    rw [← indexLog_append, hashIndex_runOps, hstore₀]
    exact (LruBiMap.holds_new (by decide)).insertAll _
  rw [← Option.isSome_iff_exists, hholds.isSome_getByLeft_iff]
  obtain ⟨before, after, hsplit, hnot⟩ := exists_last_split hmem
  refine ⟨(indexLog store₀ ops).map (·.1) ++ before, after, ?_, hnot, ?_⟩
  · rw [List.map_append, hsplit, List.append_assoc]
  · have hlength := congrArg List.length hsplit
    rw [List.length_map, List.length_append, List.length_cons] at hlength
    have hcard := List.toFinset_card_le after
    omega

end Peer

/-! ### A chain of native transfers -/

/-- The functions of the dependencies, where the hash of a header is its number. -/
def numberCrypto : Crypto :=
  { transferCrypto with hashSlow := fun header => BitVec.ofNat 256 header.number.toNat }

/-- A native transfer to `0xbeef`, as it is stored. -/
def storedHypeTransfer (nonce : UInt64) : TransactionSigned :=
  fabricated
    { chainId := some mainnetChainId
      nonce := nonce
      gasPrice := 0
      gasLimit := 200000
      target := .call 0xbeef
      value := 1
      input := [] } 1

/-- The receipt of the transfer. -/
def hypeTransferReceipt : EthereumReceipt := ⟨.legacy, true, 0, []⟩

/-- A chain with a native transfer in each block, and without a list of recorded calls in block
    6. -/
def hypeChain : ServedChain numberCrypto where
  block n :=
    { header :=
        ⟨{ (default : Header) with
            number := n
            parentHash := BitVec.ofNat 256 (n.toNat - 1) },
          ⟨logsBloom numberCrypto [], 1⟩⟩
      body := ⟨⟨[storedHypeTransfer n], [], some []⟩, none, if n = 6 then none else some [],
        none⟩ }
  receipts _ := [hypeTransferReceipt]
  stored n :=
    { count_le_transactions := le_rfl
      count_le_receipts := le_rfl
      isFabricated := by
        intro tx htx
        obtain rfl := List.mem_singleton.1 htx
        exact ⟨_, 0xbeef, 1, rfl, rfl, rfl, by decide⟩
      bloom := rfl
      ommers := rfl
      sidecars := rfl
      calls := rfl }
  number_block _ := rfl
  parentHash_block := countingChain.parentHash_block
  hash_injective := countingChain.hash_injective

/-- A pseudo peer without spot metadata. -/
def hypePeer : PseudoPeer RpcSourceError where
  chainId := mainnetChainId
  source := ⟨fun _ => .error (.request ""), fun _ => .error (.request "")⟩
  iteration := PseudoPeer.listedOrder
  spotEnv := noTokens
  fuel := 0
  crypto := numberCrypto

end Nanoreth
