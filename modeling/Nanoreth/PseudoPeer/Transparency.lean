import Nanoreth.Lib.Transition
import Nanoreth.PseudoPeer.BlockStore

/-!
# Transparency of the block store

What a store returns depends on its source only, not on what is cached.

* If there is one chain, of which the source, the hardcoded blocks and the database give true
  answers, then so does the store (`blockStore_transparent`), whatever was asked before and
  whatever was evicted since.
* The store never returns a block for the height of another one, and never caches one under it,
  exactly when its sources never answer so themselves when they are asked for a single block
  (`heights_match_iff`). It does not matter how they answer batches, as their blocks are cached
  under their own numbers.
-/

namespace Nanoreth

open Lru Overwrite Transition

variable {ε : Type}

/-- What happens to a store is supplied with blocks that satisfy `P`. -/
def StoreEvent.Supplies (P : UInt64 → BlockAndReceipts → Prop)
    (gapBlocks : UInt64 → Option BlockAndReceipts) : StoreEvent ε → Prop
  | call op => op.Supplies P gapBlocks
  | evict _ _ => True

/-- A store to which any of the allowed events happen. -/
def storeSystem (store₀ : BlockStore) (allowed : StoreEvent ε → Prop) :
    System BlockStore (StoreEvent ε) where
  init store := store = store₀
  step store event store' := allowed event ∧ event.apply store = store'

/-- Any allowed events may happen in turn. -/
theorem reachable_foldl {store₀ : BlockStore} {allowed : StoreEvent ε → Prop}
    {events : List (StoreEvent ε)} (h : ∀ event ∈ events, allowed event) :
    Reachable (storeSystem store₀ allowed) (events.foldl StoreEvent.apply store₀) := by
  induction events using List.reverseRecOn with
  | nil => exact .init rfl
  | append_singleton events event ih =>
    rw [List.forall_mem_append, List.forall_mem_singleton] at h
    rw [List.foldl_append]
    exact (ih h.1).step ⟨h.2, rfl⟩

section Keeps

variable {P : UInt64 → BlockAndReceipts → Prop} {gaps : List BlockAndReceipts} {chainId : UInt64}
  {store : BlockStore}

/-- What holds of the gap blocks holds of an empty store. -/
theorem BlockStore.keeps_ofLimits (blockLimit hashLimit : ℕ) (db : Option (B256 → Option UInt64))
    (hgaps : ∀ n block, testnetGapBlocks gaps chainId n = some block → P n block) :
    (BlockStore.ofLimits blockLimit hashLimit db gaps chainId).Keeps P :=
  ⟨fun _ hentry => absurd hentry List.not_mem_nil, hgaps⟩

/-- The hardcoded blocks have the numbers they are found by. -/
theorem testnetGapBlocks_eq_some {n : UInt64} {block : BlockAndReceipts}
    (h : testnetGapBlocks gaps chainId n = some block) : block ∈ gaps ∧ block.number = n := by
  unfold testnetGapBlocks at h
  split_ifs at h
  obtain ⟨block', hblock', heq⟩ := List.mem_map.1 (mem_of_lastEntry h)
  cases heq
  exact ⟨hblock', rfl⟩

/-- Events that are supplied with what satisfies `P` keep to it. -/
theorem StoreEvent.keeps_apply {event : StoreEvent ε} (hstore : store.Keeps P)
    (hevent : event.Supplies P store.gapBlocks) :
    (event.apply store).Keeps P ∧ (event.apply store).gapBlocks = store.gapBlocks ∧
      (event.apply store).dbBlockNumber = store.dbBlockNumber := by
  cases event with
  | call op =>
    exact ⟨(StoreOp.spec hstore hevent).1, op.gapBlocks_apply store, op.dbBlockNumber_apply store⟩
  | evict keepBlock keepHash =>
    refine ⟨⟨fun entry hentry => ?_, hstore.gaps⟩, rfl, rfl⟩
    exact hstore.blocks entry (List.mem_of_mem_filter hentry)

/-- What holds of all supplied blocks holds of all blocks of the store. -/
theorem keeps_of_reachable {store₀ : BlockStore} (hstore₀ : store₀.Keeps P)
    (h : Reachable (storeSystem (ε := ε) store₀ (StoreEvent.Supplies P store₀.gapBlocks)) store) :
    store.Keeps P ∧ store.gapBlocks = store₀.gapBlocks ∧
      store.dbBlockNumber = store₀.dbBlockNumber := by
  refine h.invariant (P := fun store => store.Keeps P ∧ store.gapBlocks = store₀.gapBlocks ∧
    store.dbBlockNumber = store₀.dbBlockNumber) ?_ ?_
  · rintro store rfl
    exact ⟨hstore₀, rfl, rfl⟩
  · rintro store event store' ⟨hkeeps, hgaps, hdb⟩ ⟨hevent, rfl⟩
    rw [← hgaps] at hevent
    obtain ⟨hkeeps', hgaps', hdb'⟩ := event.keeps_apply hkeeps hevent
    exact ⟨hkeeps', hgaps'.trans hgaps, hdb'.trans hdb⟩

end Keeps

/-! ## One chain -/

/-- A chain of blocks, with the hashes of their parents and distinct hashes. -/
structure SourceChain where
  block : UInt64 → BlockAndReceipts
  number_block : ∀ n, (block n).number = n
  parentHash_block : ∀ n, 0 < n → (block n).parentHash = (block (n - 1)).hash
  hash_injective : ∀ m n, (block m).hash = (block n).hash → m = n

namespace SourceChain

variable {chain : SourceChain} {store : BlockStore}

/-- A block is the one of the chain at a height. -/
def IsBlock (chain : SourceChain) (n : UInt64) (block : BlockAndReceipts) : Prop :=
  block = chain.block n

/-- The index has true pairs only. -/
def Indexed (chain : SourceChain) (store : BlockStore) : Prop :=
  ∀ hash n, store.hashIndex.getByLeft hash = some n → hash = (chain.block n).hash

/-- The index of a block of the chain is right. -/
theorem hash_of_mem_indexPairs {n : UInt64} {pair : B256 × UInt64}
    (h : pair ∈ indexPairs (chain.block n)) : pair.1 = (chain.block pair.2).hash := by
  unfold indexPairs at h
  rw [chain.number_block] at h
  rcases List.mem_cons.1 h with rfl | h
  · rfl
  · split_ifs at h with hpos
    · rw [List.mem_singleton.1 h]
      exact chain.parentHash_block n hpos
    · cases h

/-- Events that are supplied with blocks of the chain keep the index true. -/
theorem Indexed.apply {event : StoreEvent ε} (hindexed : chain.Indexed store)
    (hstore : store.Keeps chain.IsBlock) (hevent : event.Supplies chain.IsBlock store.gapBlocks) :
    chain.Indexed (event.apply store) := by
  intro hash n hn
  cases event with
  | call op =>
    rw [StoreEvent.apply, op.hashIndex_apply] at hn
    rcases LruBiMap.getByLeft_insertAll hn with hmem | hn
    · obtain ⟨block, hblock, hpair⟩ := List.mem_flatMap.1 hmem
      obtain ⟨m, rfl⟩ := (StoreOp.spec hstore hevent).2.2 block hblock
      exact hash_of_mem_indexPairs hpair
    · exact hindexed hash n hn
  | evict keepBlock keepHash => exact hindexed hash n (LruBiMap.getByLeft_retain hn)

/-- The index is right in all states that are reached. -/
theorem indexed_of_reachable {store₀ : BlockStore} (hstore₀ : store₀.Keeps chain.IsBlock)
    (hindexed₀ : chain.Indexed store₀)
    (h : Reachable
      (storeSystem (ε := ε) store₀ (StoreEvent.Supplies chain.IsBlock store₀.gapBlocks)) store) :
    chain.Indexed store := by
  refine (h.invariant (P := fun store => store.Keeps chain.IsBlock ∧
    store.gapBlocks = store₀.gapBlocks ∧ chain.Indexed store) ?_ ?_).2.2
  · rintro store rfl
    exact ⟨hstore₀, rfl, hindexed₀⟩
  · rintro store event store' ⟨hkeeps, hgaps, hindexed⟩ ⟨hevent, rfl⟩
    rw [← hgaps] at hevent
    obtain ⟨hkeeps', hgaps', -⟩ := event.keeps_apply hkeeps hevent
    exact ⟨hkeeps', hgaps'.trans hgaps, hindexed.apply hkeeps hevent⟩

theorem indexed_ofLimits (blockLimit hashLimit : ℕ) (db : Option (B256 → Option UInt64))
    (gaps : List BlockAndReceipts) (chainId : UInt64) :
    chain.Indexed (.ofLimits blockLimit hashLimit db gaps chainId) :=
  nofun

/-- The gap blocks are of the chain, if those of the file are. -/
theorem gaps_isBlock {gaps : List BlockAndReceipts} {chainId n : UInt64} {block : BlockAndReceipts}
    (hgaps : ∀ block ∈ gaps, chain.IsBlock block.number block)
    (h : testnetGapBlocks gaps chainId n = some block) : chain.IsBlock n block := by
  obtain ⟨hmem, rfl⟩ := testnetGapBlocks_eq_some h
  exact hgaps block hmem

/-- A hash is resolved to the number of its block. -/
theorem hash_of_hashToNumber {hash : B256} {n : UInt64} (hindexed : chain.Indexed store)
    (hdb : ∀ lookup ∈ store.dbBlockNumber, ∀ hash n,
      lookup hash = some n → hash = (chain.block n).hash)
    (h : store.hashToNumber hash = .ok n) : hash = (chain.block n).hash := by
  unfold BlockStore.hashToNumber at h
  split at h
  · cases h
    exact hindexed _ _ ‹_›
  · split at h
    · cases h
      rename_i hfound
      obtain ⟨lookup, hlookup, hfound⟩ := Option.bind_eq_some_iff.1 hfound
      exact hdb lookup hlookup hash n hfound
    · cases h

end SourceChain

/-- A store that is supplied with the blocks of a chain returns them, the hardcoded ones included,
    and resolves their hashes only, to their numbers. -/
theorem blockStore_transparent (chain : SourceChain) (blockLimit hashLimit : ℕ)
    (db : Option (B256 → Option UInt64)) (gaps : List BlockAndReceipts) (chainId : UInt64)
    (store : BlockStore)
    (hgaps : ∀ block ∈ gaps, chain.IsBlock block.number block)
    (hdb : ∀ lookup ∈ db, ∀ hash n, lookup hash = some n → hash = (chain.block n).hash)
    (hstore : Reachable (storeSystem (ε := ε)
      (.ofLimits blockLimit hashLimit db gaps chainId)
      (StoreEvent.Supplies chain.IsBlock (testnetGapBlocks gaps chainId))) store) :
    (∀ (op : StoreOp ε), op.Supplies chain.IsBlock (testnetGapBlocks gaps chainId) →
      ∀ n block, (n, block) ∈ op.served store → block = chain.block n ∧
        ∀ gap, testnetGapBlocks gaps chainId n = some gap → block = gap) ∧
    ∀ hash n, store.hashToNumber hash = .ok n → hash = (chain.block n).hash := by
  have hgapBlocks : ∀ n block, testnetGapBlocks gaps chainId n = some block →
      chain.IsBlock n block := fun n block => SourceChain.gaps_isBlock hgaps
  have hkeeps₀ := BlockStore.keeps_ofLimits blockLimit hashLimit db hgapBlocks
  -- The gap blocks and the database do not change along the run.
  obtain ⟨hkeeps, hgapBlocks', hdb'⟩ := keeps_of_reachable hkeeps₀ hstore
  constructor
  · intro op hop n block hserved
    have hblock := (StoreOp.spec hkeeps (hgapBlocks' ▸ hop)).2.1 _ hserved
    exact ⟨hblock, fun gap hgap => hblock.trans (hgapBlocks n gap hgap).symm⟩
  · intro hash n hn
    have hindexed := SourceChain.indexed_of_reachable hkeeps₀
      (SourceChain.indexed_ofLimits _ _ _ _ _) hstore
    exact SourceChain.hash_of_hashToNumber hindexed (hdb' ▸ hdb) hn

/-! ### A chain -/

/-- A block without transactions whose hash is its number. -/
def countingBlock (n : UInt64) : BlockAndReceipts where
  block := .reth115
    { header :=
        { hash := BitVec.ofNat 256 n.toNat
          header := { (default : Header) with
            number := n
            parentHash := BitVec.ofNat 256 (n.toNat - 1) } }
      body := ⟨[], [], some []⟩ }
  receipts := []
  systemTxs := []
  readPrecompileCalls := []
  highestPrecompileAddress := none

theorem hash_countingBlock_injective {m n : UInt64}
    (h : (countingBlock m).hash = (countingBlock n).hash) : m = n := by
  have hm : m.toNat < 2 ^ 256 := m.toNat_lt.trans (by decide)
  have hn : n.toNat < 2 ^ 256 := n.toNat_lt.trans (by decide)
  have htoNat := congrArg BitVec.toNat h
  change (BitVec.ofNat 256 m.toNat).toNat = (BitVec.ofNat 256 n.toNat).toNat at htoNat
  rw [BitVec.toNat_ofNat, BitVec.toNat_ofNat, Nat.mod_eq_of_lt hm, Nat.mod_eq_of_lt hn] at htoNat
  exact UInt64.toNat_inj.1 htoNat

/-- The chain of these blocks. -/
def countingChain : SourceChain where
  block := countingBlock
  number_block _ := rfl
  parentHash_block n hn := by
    have hle : (1 : UInt64) ≤ n := UInt64.le_iff_toNat_le.2 (UInt64.lt_iff_toNat_lt.1 hn)
    change BitVec.ofNat 256 (n.toNat - 1) = BitVec.ofNat 256 (n - 1).toNat
    rw [UInt64.toNat_sub_of_le _ _ hle]
    rfl
  hash_injective _ _ := hash_countingBlock_injective

/-- A source that has all blocks of the chain. -/
def countingSource : BlockSource Empty where
  collectBlock n := .ok (countingBlock n)
  collectBlocks heights := .ok (heights.map countingBlock)

/-- A batch of these blocks. -/
def countingBatch (heights : List UInt64) : StoreOp Empty :=
  .getByNumbers countingSource ⟨id, fun _ => .rfl⟩ heights

theorem supplies_getByNumber (gapBlocks : UInt64 → Option BlockAndReceipts) (n : UInt64) :
    (StoreOp.getByNumber countingSource n).Supplies countingChain.IsBlock gapBlocks :=
  fun _ _ hblock => (Except.ok.inj hblock).symm

theorem supplies_countingBatch (gapBlocks : UInt64 → Option BlockAndReceipts)
    (heights : List UInt64) :
    (countingBatch heights).Supplies countingChain.IsBlock gapBlocks := by
  intro heights blocks hblocks block hblock
  cases hblocks
  obtain ⟨n, -, rfl⟩ := List.mem_map.1 hblock
  rfl

/-- Two batches with a hardcoded block, a single call, and evictions, in small caches. -/
def countingEvents : List (StoreEvent Empty) :=
  [.call (countingBatch [2, 3, 4]), .call (.getByNumber countingSource 9),
    .evict (· ≠ 3) (· ≠ 2), .call (countingBatch [3, 6])]

/-- The blocks are returned in any order, the hardcoded one among them. The hash of a parent is
    resolved, and one that was evicted is not. -/
theorem blockStore_transparent_counting : ∃ store : BlockStore,
    Reachable (storeSystem (ε := Empty) (.ofLimits 2 6 none [countingBlock 3] testnetChainId)
      (StoreEvent.Supplies countingChain.IsBlock
        (testnetGapBlocks [countingBlock 3] testnetChainId))) store ∧
    ((countingBatch [9, 3, 2]).served store).map (·.1) = [9, 3, 2] ∧
    (∀ n block, (n, block) ∈ (countingBatch [9, 3, 2]).served store → block = countingBlock n) ∧
    store.hashToNumber 8 = .ok 8 ∧ (8 : B256) = (countingBlock 8).hash ∧
    store.hashToNumber 4 ≠ .ok 4 := by
  let gapBlocks := testnetGapBlocks [countingBlock 3] testnetChainId
  let store₀ := BlockStore.ofLimits 2 6 none [countingBlock 3] testnetChainId
  have hgaps : ∀ block ∈ [countingBlock 3], countingChain.IsBlock block.number block := by
    intro block hblock
    rw [List.mem_singleton.1 hblock]
    rfl
  have hsupplies : ∀ event ∈ countingEvents,
      event.Supplies countingChain.IsBlock gapBlocks := by
    simp only [countingEvents, List.forall_mem_cons]
    exact ⟨supplies_countingBatch gapBlocks [2, 3, 4], supplies_getByNumber gapBlocks 9, trivial,
      supplies_countingBatch gapBlocks [3, 6], List.forall_mem_nil _⟩
  have hreachable := @reachable_foldl _ store₀ _ _ hsupplies
  have hspec := blockStore_transparent countingChain 2 6 none [countingBlock 3] testnetChainId _
    hgaps (by simp) hreachable
  -- The last hash is still resolved, and an early one was evicted.
  have hresolved : (countingEvents.foldl StoreEvent.apply store₀).hashToNumber 8 = .ok 8 := by
    decide +kernel
  have hserved : ((countingBatch [9, 3, 2]).served
      (countingEvents.foldl StoreEvent.apply store₀)).map (·.1) = [9, 3, 2] := by
    decide +kernel
  have hevicted : (countingEvents.foldl StoreEvent.apply store₀).hashToNumber 4 ≠ .ok 4 := by
    decide +kernel
  refine ⟨_, hreachable, hserved, fun n block hblock => ?_, hresolved, hspec.2 8 8 hresolved,
    hevicted⟩
  exact (hspec.1 _ (supplies_countingBatch gapBlocks [9, 3, 2]) n block hblock).1

/-! ## Any source -/

/-- The calls of an event ask the given sources only. -/
def StoreEvent.Asks (sources : BlockSource ε → Prop) : StoreEvent ε → Prop
  | call (.getByNumber source _) => sources source
  | call (.getByNumbers source _ _) => sources source
  | call (.indexBlock _) => True
  | evict _ _ => True

/-- A block has the number of the height it is found by. -/
def HasHeight (n : UInt64) (block : BlockAndReceipts) : Prop := block.number = n

/-- Sources that answer requests for a single block by blocks of that height. -/
def AnswersHeights (sources : BlockSource ε → Prop)
    (gapBlocks : UInt64 → Option BlockAndReceipts) : Prop :=
  ∀ source, sources source → ∀ n block, gapBlocks n = none → source.collectBlock n = .ok block →
    block.number = n

/-- Sources that answer heights supply blocks of these heights. -/
theorem StoreEvent.Asks.supplies {sources : BlockSource ε → Prop}
    {gapBlocks : UInt64 → Option BlockAndReceipts} (hsources : AnswersHeights sources gapBlocks)
    {event : StoreEvent ε} (h : event.Asks sources) : event.Supplies HasHeight gapBlocks := by
  rcases event with (⟨source, n⟩ | ⟨source, iteration, heights⟩ | block) | _
  · exact fun block hgap hblock => hsources source h n block hgap hblock
  · exact fun _ _ _ block _ => rfl
  · exact ⟨block.number, rfl⟩
  · trivial

/-- All blocks that are returned for a height or cached under it have that number, in all runs
    with the given sources, exactly when the sources answer by blocks of the heights that they
    are asked for singly. -/
theorem heights_match_iff (sources : BlockSource ε → Prop) (db : Option (B256 → Option UInt64))
    (gaps : List BlockAndReceipts) (chainId : UInt64) :
    (∀ store, Reachable (storeSystem (.new db gaps chainId) (StoreEvent.Asks sources)) store →
      (∀ n block, (n, block) ∈ store.blocks.entries → block.number = n) ∧
      ∀ op : StoreOp ε, (StoreEvent.call op).Asks sources →
        ∀ n block, (n, block) ∈ op.served store → block.number = n) ↔
      AnswersHeights sources (testnetGapBlocks gaps chainId) := by
  constructor
  · -- The first block that is asked for is what the source answers.
    intro hsafe source hsource n block hgap hblock
    refine (hsafe _ (Reachable.init rfl)).2 (.getByNumber source n) hsource n block ?_
    have hget : (BlockStore.new db gaps chainId).getByNumber source n =
        (.ok block, ((BlockStore.new db gaps chainId).cacheBlock n block).indexBlock block) :=
      BlockStore.getByNumber_of_source rfl hgap hblock
    simp [StoreOp.served, hget]
  · intro hsources store hstore
    have hkeeps₀ : (BlockStore.new db gaps chainId).Keeps HasHeight :=
      BlockStore.keeps_ofLimits _ _ db fun n block h => (testnetGapBlocks_eq_some h).2
    have hrefines : Refines (storeSystem (.new db gaps chainId) (StoreEvent.Asks sources))
        (storeSystem (.new db gaps chainId)
          (StoreEvent.Supplies HasHeight (testnetGapBlocks gaps chainId))) id id :=
      ⟨fun _ h => h, fun _ _ _ h => ⟨h.1.supplies hsources, h.2⟩⟩
    have hreachable : Reachable (storeSystem (.new db gaps chainId)
        (StoreEvent.Supplies HasHeight (testnetGapBlocks gaps chainId))) store :=
      hrefines.reachable hstore
    obtain ⟨hkeeps, hgaps, -⟩ := keeps_of_reachable hkeeps₀ hreachable
    refine ⟨fun n block hmem => hkeeps.blocks (n, block) hmem, fun op hop n block hserved => ?_⟩
    have hsupplies : op.Supplies HasHeight store.gapBlocks := by
      rw [hgaps]
      exact hop.supplies hsources
    exact (StoreOp.spec hkeeps hsupplies).2.1 (n, block) hserved

/-- A source that answers requests for a single block by block 7. -/
def wrongSource : BlockSource Empty where
  collectBlock _ := .ok (countingBlock 7)
  collectBlocks heights := .ok (heights.map countingBlock)

/-- Block 7 is returned for height 5, and cached under it; a batch returns it from there. -/
theorem wrong_height_served :
    let store := StoreOp.apply (.new none [] mainnetChainId) (.getByNumber wrongSource 5)
    (5, countingBlock 7) ∈
      StoreOp.served (.new none [] mainnetChainId) (.getByNumber wrongSource 5) ∧
    (5, countingBlock 7) ∈ store.blocks.entries ∧
    (5, countingBlock 7) ∈
      StoreOp.served store (.getByNumbers countingSource ⟨id, fun _ => .rfl⟩ [5]) ∧
    (countingBlock 7).number ≠ 5 := by
  refine ⟨?_, ?_, ?_, by decide⟩
  · exact List.mem_cons_self
  · exact List.mem_cons_self
  · exact List.mem_cons_self

end Nanoreth
