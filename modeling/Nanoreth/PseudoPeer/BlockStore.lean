import Nanoreth.Lib.Lru
import Nanoreth.Types.RethCompat

/-!
# Block store

The store of the pseudo peer (`pseudo_peer/block_store.rs`, `utils.rs`). It fetches blocks from a
source, keeps the last ones it was asked for in a cache, by their numbers, and indexes the
hashes of the blocks and of their parents. Blocks that sources of testnet do not have are
hardcoded.

The two ways to fetch blocks differ:

* a single block is cached under the number it is asked for (`getByNumber`). If it is in the
  cache, its hash is not indexed again;
* the blocks of a batch are cached under their own numbers (`getByNumbers`), and all indexed. If
  the source fails, those that are hardcoded are cached already, but not indexed.

Whatever holds of what the source and the hardcoded blocks supply holds of what is cached,
returned and indexed (`StoreOp.spec`).
-/

namespace Nanoreth

open Lru Overwrite

/-- The answers of a source. -/
structure BlockSource (ε : Type) where
  collectBlock : UInt64 → Except ε BlockAndReceipts
  collectBlocks : List UInt64 → Except ε (List BlockAndReceipts)

/-- Why a block is not returned: the source fails, or with a message of the store. -/
inductive StoreError (ε : Type)
  | source (error : ε)
  | message (text : String)
  deriving DecidableEq

/-- An order in which the values of a hash map are iterated. -/
structure IterationOrder (α : Type) where
  order : List α → List α
  perm : ∀ values, (order values).Perm values

/-- The hardcoded blocks by their numbers, given those of testnet. -/
def testnetGapBlocks (gaps : List BlockAndReceipts) (chainId : UInt64) :
    UInt64 → Option BlockAndReceipts :=
  if chainId ≠ testnetChainId then fun _ => none
  else lastEntry (gaps.map fun block => (block.number, block))

/-- The store: the cache, the index of hashes, the database and the hardcoded blocks. -/
structure BlockStore where
  blocks : LruMap UInt64 BlockAndReceipts
  hashIndex : LruBiMap B256 UInt64
  dbBlockNumber : Option (B256 → Option UInt64)
  gapBlocks : UInt64 → Option BlockAndReceipts

variable {ε : Type}

namespace BlockStore

/-- How many blocks are cached. -/
def blockCacheLimit : ℕ := 100000

/-- How many hashes are indexed. -/
def hashIndexLimit : ℕ := 1000000

/-- An empty store with the given limits. -/
def ofLimits (blockLimit hashLimit : ℕ) (dbBlockNumber : Option (B256 → Option UInt64))
    (gaps : List BlockAndReceipts) (chainId : UInt64) : BlockStore where
  blocks := ⟨blockLimit, []⟩
  hashIndex := .new hashLimit
  dbBlockNumber := dbBlockNumber
  gapBlocks := testnetGapBlocks gaps chainId

/-- The store at the start of the node. -/
def new (dbBlockNumber : Option (B256 → Option UInt64)) (gaps : List BlockAndReceipts)
    (chainId : UInt64) : BlockStore :=
  ofLimits blockCacheLimit hashIndexLimit dbBlockNumber gaps chainId

/-- Indexes a block, and its parent by the hash that it has for it. -/
def indexBlockInner (idx : LruBiMap B256 UInt64) (block : BlockAndReceipts) :
    LruBiMap B256 UInt64 :=
  let idx := idx.insert block.hash block.number
  if 0 < block.number then idx.insert block.parentHash (block.number - 1) else idx

/-- Indexes a block. -/
def indexBlock (store : BlockStore) (block : BlockAndReceipts) : BlockStore :=
  { store with hashIndex := indexBlockInner store.hashIndex block }

/-- Caches a block under a height. -/
def cacheBlock (store : BlockStore) (n : UInt64) (block : BlockAndReceipts) : BlockStore :=
  { store with blocks := store.blocks.insert n block }

/-- Fetches a block. -/
def getByNumber (source : BlockSource ε) (store : BlockStore) (n : UInt64) :
    Except (StoreError ε) BlockAndReceipts × BlockStore :=
  match store.blocks.get n with
  | some (block, blocks) => (.ok block, { store with blocks := blocks })
  | none =>
    match store.gapBlocks n with
    -- Gap blocks are cached and indexed like those of the source.
    | some block => (.ok block, (store.cacheBlock n block).indexBlock block)
    | none =>
      match source.collectBlock n with
      | .ok block => (.ok block, (store.cacheBlock n block).indexBlock block)
      | .error e => (.error (.source e), store)

/-- What is known of the blocks of a batch: the cache, those that were found, by the heights they
    are returned for, and the heights to be fetched. -/
structure Batch where
  blocks : LruMap UInt64 BlockAndReceipts
  cached : List (UInt64 × BlockAndReceipts)
  uncachedHeights : List UInt64

/-- Inserts into the hash map of the blocks that were found. -/
def insertCached (cached : List (UInt64 × BlockAndReceipts)) (h : UInt64)
    (block : BlockAndReceipts) : List (UInt64 × BlockAndReceipts) :=
  (h, block) :: cached.filter fun entry => entry.1 ≠ h

/-- Looks for a block without the source. -/
def lookup (gapBlocks : UInt64 → Option BlockAndReceipts) (batch : Batch) (h : UInt64) : Batch :=
  match batch.blocks.get h with
  | some (block, blocks) =>
    { batch with blocks := blocks, cached := insertCached batch.cached h block }
  | none =>
    match gapBlocks h with
    | some block =>
      { batch with
        blocks := batch.blocks.insert h block
        cached := insertCached batch.cached h block }
    | none => { batch with uncachedHeights := batch.uncachedHeights ++ [h] }

/-- Adds a block that was fetched, under its own number. -/
def addFetched (batch : Batch) (block : BlockAndReceipts) : Batch :=
  { batch with
    blocks := batch.blocks.insert block.number block
    cached := insertCached batch.cached block.number block }

/-- Takes the blocks of the heights out of those that were found. -/
def takeCached : List UInt64 → List (UInt64 × BlockAndReceipts) →
    Except (StoreError ε) (List BlockAndReceipts)
  | [], _ => .ok []
  | h :: heights, cached =>
    match cached.find? fun entry => entry.1 = h with
    -- A height that is asked for twice was taken the first time.
    | none => .error (.message s!"Block {h} not found")
    | some (_, block) => do
      return block :: (← takeCached heights (cached.filter fun entry => entry.1 ≠ h))

/-- The blocks of a batch that are found without the source. -/
def lookupAll (store : BlockStore) (heights : List UInt64) : Batch :=
  heights.foldl (lookup store.gapBlocks) ⟨store.blocks, [], []⟩

/-- Fetches the blocks of a batch that are not found without the source. -/
def fetch (source : BlockSource ε) (batch : Batch) : Except ε Batch :=
  if batch.uncachedHeights = [] then .ok batch
  else do return (← source.collectBlocks batch.uncachedHeights).foldl addFetched batch

/-- Fetches several blocks. -/
def getByNumbers (source : BlockSource ε) (iteration : IterationOrder BlockAndReceipts)
    (store : BlockStore) (heights : List UInt64) :
    Except (StoreError ε) (List BlockAndReceipts) × BlockStore :=
  let batch := store.lookupAll heights
  match fetch source batch with
  -- What the lookups did to the cache stays, but nothing is indexed.
  | .error e => (.error (.source e), { store with blocks := batch.blocks })
  | .ok batch =>
    let values := iteration.order (batch.cached.map (·.2))
    (takeCached heights batch.cached,
      { store with
        blocks := batch.blocks
        hashIndex := values.foldl indexBlockInner store.hashIndex })

/-- The number of the block with a hash, by the index or the database. -/
def hashToNumber (store : BlockStore) (hash : B256) : Except String UInt64 :=
  match store.hashIndex.getByLeft hash with
  | some n => .ok n
  | none =>
    match store.dbBlockNumber.bind fun db => db hash with
    | some n => .ok n
    | none => .error ("Hash not found in index or database: 0x" ++ hash.toHex)

/-- Evicts the blocks and hashes that are not to be kept. -/
def evict (store : BlockStore) (keepBlock : UInt64 → Bool) (keepHash : B256 → Bool) : BlockStore :=
  { store with
    blocks := store.blocks.retain keepBlock
    hashIndex := store.hashIndex.retain keepHash }

end BlockStore

/-- A call of the store, with the source as it answers then. -/
inductive StoreOp (ε : Type)
  | getByNumber (source : BlockSource ε) (n : UInt64)
  | getByNumbers (source : BlockSource ε) (iteration : IterationOrder BlockAndReceipts)
      (heights : List UInt64)
  | indexBlock (block : BlockAndReceipts)

namespace StoreOp

/-- The store after a call. -/
def apply (store : BlockStore) : StoreOp ε → BlockStore
  | getByNumber source n => (store.getByNumber source n).2
  | getByNumbers source iteration heights => (store.getByNumbers source iteration heights).2
  | indexBlock block => store.indexBlock block

/-- The blocks returned by a call, with the heights they are returned for. -/
def served (store : BlockStore) : StoreOp ε → List (UInt64 × BlockAndReceipts)
  | getByNumber source n =>
    match (store.getByNumber source n).1 with
    | .ok block => [(n, block)]
    | .error _ => []
  | getByNumbers source iteration heights =>
    match (store.getByNumbers source iteration heights).1 with
    | .ok blocks => heights.zip blocks
    | .error _ => []
  | indexBlock _ => []

/-- The blocks indexed by a call, in order. A block that is in the cache is not indexed when it
    is returned alone. -/
def indexed (store : BlockStore) : StoreOp ε → List BlockAndReceipts
  | getByNumber source n =>
    match store.blocks.get n, (store.getByNumber source n).1 with
    | none, .ok block => [block]
    | _, _ => []
  | getByNumbers source iteration heights =>
    match BlockStore.fetch source (store.lookupAll heights) with
    | .ok batch => iteration.order (batch.cached.map (·.2))
    | .error _ => []
  | indexBlock block => [block]

end StoreOp

/-- What happens to a store: a call, or an eviction. -/
inductive StoreEvent (ε : Type)
  | call (op : StoreOp ε)
  | evict (keepBlock : UInt64 → Bool) (keepHash : B256 → Bool)

/-- What an event does to the store. -/
def StoreEvent.apply (store : BlockStore) : StoreEvent ε → BlockStore
  | call op => op.apply store
  | evict keepBlock keepHash => store.evict keepBlock keepHash

/-! ## What a call does -/

/-- The pairs of hashes and numbers that a block adds to the index. -/
def indexPairs (block : BlockAndReceipts) : List (B256 × UInt64) :=
  (block.hash, block.number) ::
    if 0 < block.number then [(block.parentHash, block.number - 1)] else []

namespace BlockStore

/-- A block is indexed by its hash and that of its parent. -/
theorem indexBlockInner_eq (idx : LruBiMap B256 UInt64) (block : BlockAndReceipts) :
    indexBlockInner idx block = idx.insertAll (indexPairs block) := by
  unfold indexBlockInner indexPairs
  split_ifs <;> rfl

/-- Blocks are indexed one after the other. -/
theorem foldl_indexBlockInner (idx : LruBiMap B256 UInt64) (blocks : List BlockAndReceipts) :
    blocks.foldl indexBlockInner idx = idx.insertAll (blocks.flatMap indexPairs) := by
  induction blocks generalizing idx with
  | nil => rfl
  | cons block blocks ih =>
    rw [List.foldl_cons, ih, indexBlockInner_eq, List.flatMap_cons, LruBiMap.insertAll,
      LruBiMap.insertAll, LruBiMap.insertAll, List.foldl_append]

variable {source : BlockSource ε} {store : BlockStore} {n : UInt64}

/-- A block that is not in the store is read from the source, cached and indexed. -/
theorem getByNumber_of_source {block : BlockAndReceipts} (hget : store.blocks.get n = none)
    (hgap : store.gapBlocks n = none) (hblock : source.collectBlock n = .ok block) :
    store.getByNumber source n = (.ok block, (store.cacheBlock n block).indexBlock block) := by
  simp only [getByNumber, hget, hgap, hblock]

/-- A block is returned from the cache, is hardcoded or fetched, or is not returned. -/
theorem getByNumber_cases (source : BlockSource ε) (store : BlockStore) (n : UInt64) :
    (∃ block blocks, store.blocks.get n = some (block, blocks) ∧
      store.getByNumber source n = (.ok block, { store with blocks := blocks })) ∨
    (∃ block, store.blocks.get n = none ∧
      (store.gapBlocks n = some block ∨
        store.gapBlocks n = none ∧ source.collectBlock n = .ok block) ∧
      store.getByNumber source n = (.ok block, (store.cacheBlock n block).indexBlock block)) ∨
    ∃ e, store.blocks.get n = none ∧ store.getByNumber source n = (.error e, store) := by
  rw [getByNumber]
  cases hget : store.blocks.get n with
  | some hit => exact .inl ⟨hit.1, hit.2, rfl, rfl⟩
  | none =>
    cases hgap : store.gapBlocks n with
    | some block => exact .inr (.inl ⟨block, rfl, .inl rfl, rfl⟩)
    | none =>
      cases hblock : source.collectBlock n with
      | ok block => exact .inr (.inl ⟨block, rfl, .inr ⟨rfl, rfl⟩, rfl⟩)
      | error e => exact .inr (.inr ⟨_, rfl, rfl⟩)

end BlockStore

namespace StoreOp

variable {store : BlockStore}

/-- A call changes the cache and the index only. -/
theorem apply_eq (op : StoreOp ε) (store : BlockStore) :
    op.apply store = { store with
      blocks := (op.apply store).blocks, hashIndex := (op.apply store).hashIndex } := by
  cases op with
  | getByNumber source n =>
    obtain ⟨block, blocks, -, h⟩ | ⟨block, -, -, h⟩ | ⟨e, -, h⟩ :=
      BlockStore.getByNumber_cases source store n
    · rw [apply, h]
    · rw [apply, h]
      rfl
    · rw [apply, h]
  | getByNumbers source iteration heights =>
    rw [apply, BlockStore.getByNumbers]
    split <;> rfl
  | indexBlock block => rfl

/-- Requests do not change the gap blocks. -/
@[simp]
theorem gapBlocks_apply (op : StoreOp ε) (store : BlockStore) :
    (op.apply store).gapBlocks = store.gapBlocks := by
  rw [apply_eq]

/-- Requests do not change the database. -/
@[simp]
theorem dbBlockNumber_apply (op : StoreOp ε) (store : BlockStore) :
    (op.apply store).dbBlockNumber = store.dbBlockNumber := by
  rw [apply_eq]

/-- A call adds the pairs of the blocks it indexes to the index. -/
theorem hashIndex_apply (op : StoreOp ε) (store : BlockStore) :
    (op.apply store).hashIndex =
      store.hashIndex.insertAll ((op.indexed store).flatMap indexPairs) := by
  rw [← BlockStore.foldl_indexBlockInner]
  cases op with
  | getByNumber source n =>
    obtain ⟨block, blocks, hget, h⟩ | ⟨block, hget, -, h⟩ | ⟨e, hget, h⟩ :=
      BlockStore.getByNumber_cases source store n
    all_goals
      rw [apply, indexed, h, hget]
      rfl
  | getByNumbers source iteration heights =>
    rw [apply, indexed, BlockStore.getByNumbers]
    split
    · rename_i h
      rw [h]
      rfl
    · rename_i h
      rw [h]
  | indexBlock block => rfl

/-- What a call is supplied with satisfies `P`: the blocks of its source, for the heights they
    are cached under, and the block to be indexed. -/
def Supplies (P : UInt64 → BlockAndReceipts → Prop) (gapBlocks : UInt64 → Option BlockAndReceipts) :
    StoreOp ε → Prop
  | getByNumber source n => ∀ block, gapBlocks n = none → source.collectBlock n = .ok block →
    P n block
  | getByNumbers source _ _ => ∀ heights blocks, source.collectBlocks heights = .ok blocks →
    ∀ block ∈ blocks, P block.number block
  | indexBlock block => ∃ n, P n block

end StoreOp

/-- The blocks that are cached and hardcoded satisfy `P`, with the heights they are found by. -/
structure BlockStore.Keeps (P : UInt64 → BlockAndReceipts → Prop) (store : BlockStore) : Prop where
  blocks : ∀ entry ∈ store.blocks.entries, P entry.1 entry.2
  gaps : ∀ n block, store.gapBlocks n = some block → P n block

namespace BlockStore

variable {P : UInt64 → BlockAndReceipts → Prop} {store : BlockStore}

/-- The blocks of a batch satisfy `P`. -/
structure Batch.Keeps (P : UInt64 → BlockAndReceipts → Prop) (batch : Batch) : Prop where
  blocks : ∀ entry ∈ batch.blocks.entries, P entry.1 entry.2
  cached : ∀ entry ∈ batch.cached, P entry.1 entry.2

theorem forall_insertCached {cached : List (UInt64 × BlockAndReceipts)} {h : UInt64}
    {block : BlockAndReceipts} (hcached : ∀ entry ∈ cached, P entry.1 entry.2)
    (hblock : P h block) :
    ∀ entry ∈ insertCached cached h block, P entry.1 entry.2 := by
  intro entry hentry
  rcases List.mem_cons.1 hentry with rfl | hentry
  · exact hblock
  · exact hcached entry (List.mem_of_mem_filter hentry)

theorem forall_insert {blocks : LruMap UInt64 BlockAndReceipts} {n : UInt64}
    {block : BlockAndReceipts} (hblocks : ∀ entry ∈ blocks.entries, P entry.1 entry.2)
    (hblock : P n block) : ∀ entry ∈ (blocks.insert n block).entries, P entry.1 entry.2 := by
  intro entry hentry
  rcases LruMap.mem_insert hentry with rfl | hentry
  · exact hblock
  · exact hblocks entry hentry

/-- What holds of all blocks of the store is kept by a lookup. -/
theorem Batch.Keeps.lookup {batch : Batch} (hbatch : batch.Keeps P)
    (hgaps : ∀ n block, store.gapBlocks n = some block → P n block) (h : UInt64) :
    (BlockStore.lookup store.gapBlocks batch h).Keeps P := by
  unfold BlockStore.lookup
  split
  · rename_i hget
    refine ⟨fun entry hentry => hbatch.blocks entry (LruMap.mem_of_get hget hentry), ?_⟩
    exact forall_insertCached hbatch.cached (hbatch.blocks _ (LruMap.get_eq_some hget).1)
  · split
    · rename_i hgap
      exact ⟨forall_insert hbatch.blocks (hgaps h _ hgap),
        forall_insertCached hbatch.cached (hgaps h _ hgap)⟩
    · exact ⟨hbatch.blocks, hbatch.cached⟩

theorem Keeps.lookupAll (hstore : store.Keeps P) (heights : List UInt64) :
    (store.lookupAll heights).Keeps P := by
  suffices ∀ batch : Batch, batch.Keeps P → (heights.foldl (lookup store.gapBlocks) batch).Keeps P
    from this _ ⟨hstore.blocks, fun _ hentry => absurd hentry List.not_mem_nil⟩
  induction heights with
  | nil => exact fun _ hbatch => hbatch
  | cons h heights ih => exact fun batch hbatch => ih _ (hbatch.lookup hstore.gaps h)

/-- What holds of all blocks is kept by fetched blocks of which it holds. -/
theorem Batch.Keeps.addFetched {batch : Batch} (hbatch : batch.Keeps P)
    {fetched : List BlockAndReceipts} (hfetched : ∀ block ∈ fetched, P block.number block) :
    (fetched.foldl BlockStore.addFetched batch).Keeps P := by
  induction fetched generalizing batch with
  | nil => exact hbatch
  | cons block fetched ih =>
    rw [List.forall_mem_cons] at hfetched
    exact ih ⟨forall_insert hbatch.blocks hfetched.1,
      forall_insertCached hbatch.cached hfetched.1⟩ hfetched.2

/-- What holds of all blocks is kept by the fetch, if it holds of the blocks of the source. -/
theorem Batch.Keeps.fetch {source : BlockSource ε} {batch batch' : Batch} (hbatch : batch.Keeps P)
    (hsource : ∀ heights blocks, source.collectBlocks heights = .ok blocks →
      ∀ block ∈ blocks, P block.number block)
    (h : BlockStore.fetch source batch = .ok batch') : batch'.Keeps P := by
  unfold BlockStore.fetch at h
  split_ifs at h
  · cases h
    exact hbatch
  · obtain ⟨fetched, hfetched, h⟩ := Partial.except_bind_eq_ok.1 h
    cases h
    exact hbatch.addFetched (hsource _ _ hfetched)

/-- What holds of all cached blocks holds of those that are returned. -/
theorem forall_takeCached {heights : List UInt64} {cached : List (UInt64 × BlockAndReceipts)}
    {blocks : List BlockAndReceipts} (hcached : ∀ entry ∈ cached, P entry.1 entry.2)
    (h : takeCached (ε := ε) heights cached = .ok blocks) :
    ∀ entry ∈ heights.zip blocks, P entry.1 entry.2 := by
  induction heights generalizing cached blocks with
  | nil => exact fun _ hentry => absurd hentry List.not_mem_nil
  | cons height heights ih =>
    rw [takeCached] at h
    split at h
    · cases h
    · rename_i key block hfind
      obtain ⟨rest, hrest, h⟩ := Partial.except_bind_eq_ok.1 h
      cases h
      obtain rfl : key = height := by simpa using List.find?_some hfind
      intro entry hentry
      rcases List.mem_cons.1 hentry with rfl | hentry
      · exact hcached _ (List.mem_of_find?_eq_some hfind)
      · exact ih (fun entry hentry => hcached entry (List.mem_of_mem_filter hentry)) hrest entry
          hentry

end BlockStore

/-- If what a call is supplied with satisfies `P`, then so does what is cached after it, what it
    returns and what it indexes. -/
theorem StoreOp.spec {P : UInt64 → BlockAndReceipts → Prop} {store : BlockStore} {op : StoreOp ε}
    (hstore : store.Keeps P) (hop : op.Supplies P store.gapBlocks) :
    (op.apply store).Keeps P ∧ (∀ entry ∈ op.served store, P entry.1 entry.2) ∧
      ∀ block ∈ op.indexed store, ∃ n, P n block := by
  have hgaps := hstore.gaps
  rw [← gapBlocks_apply op] at hgaps
  cases op with
  | getByNumber source n =>
    -- By cases on where the block is found: in the cache, in the gap file or the source, or
    -- nowhere.
    obtain ⟨block, blocks, hget, h⟩ | ⟨block, hget, hblock, h⟩ | ⟨e, hget, h⟩ :=
      BlockStore.getByNumber_cases source store n
    · have hblock := hstore.blocks _ (LruMap.get_eq_some hget).1
      simp only [apply, served, indexed, h, hget] at hgaps ⊢
      refine ⟨⟨fun entry hentry => hstore.blocks entry (LruMap.mem_of_get hget hentry), hgaps⟩,
        ?_, fun _ hmem => absurd hmem List.not_mem_nil⟩
      simpa using hblock
    · have hP : P n block := by
        rcases hblock with hgap | ⟨hgap, hblock⟩
        · exact hstore.gaps n block hgap
        · exact hop block hgap hblock
      simp only [apply, served, indexed, h, hget] at hgaps ⊢
      refine ⟨⟨BlockStore.forall_insert hstore.blocks hP, hgaps⟩, by simpa using hP, ?_⟩
      simpa using ⟨n, hP⟩
    · simp only [apply, served, indexed, h, hget]
      exact ⟨hstore, by simp, by simp⟩
  | getByNumbers source iteration heights =>
    -- What holds of the store holds of the batch after the lookups, and after the fetch.
    have hlookup := hstore.lookupAll heights
    simp only [apply, served, indexed, BlockStore.getByNumbers] at hgaps ⊢
    cases hfetch : BlockStore.fetch source (store.lookupAll heights) with
    | error e =>
      simp only [hfetch] at hgaps ⊢
      exact ⟨⟨hlookup.blocks, hgaps⟩, by simp, by simp⟩
    | ok batch =>
      have hbatch := hlookup.fetch hop hfetch
      simp only [hfetch] at hgaps ⊢
      refine ⟨⟨hbatch.blocks, hgaps⟩, ?_, fun block hblock => ?_⟩
      · cases htake : BlockStore.takeCached (ε := ε) heights batch.cached with
        | error e => simp
        | ok blocks => exact BlockStore.forall_takeCached hbatch.cached htake
      · obtain ⟨entry, hentry, rfl⟩ := List.mem_map.1 ((iteration.perm _).mem_iff.1 hblock)
        exact ⟨entry.1, hbatch.cached entry hentry⟩
  | indexBlock block =>
    refine ⟨⟨hstore.blocks, hgaps⟩, by simp [served], ?_⟩
    exact fun _ hmem => List.mem_singleton.1 hmem ▸ hop

end Nanoreth
