import Nanoreth.PseudoPeer.Batches
import Nanoreth.PseudoPeer.HashIndex

/-!
# The block store under concurrent calls

The poller and the handler of requests share the block store, and run at the same time. The store
locks its cache and its index one at a time, and neither of them while it waits for the source
(`pseudo_peer/block_store.rs`). So the calls of different tasks are interleaved at these places: a
call

* looks for blocks in the cache, and among the hardcoded ones (`SharedStore.lookUp`);
* asks the source for those that are missing;
* caches what it was answered;
* indexes the hashes of the blocks it has, and returns them.

A block that is found in the cache by a call for a single block is returned at once. It may not be
indexed yet, if the call that has cached it has not come to that.

* Whatever the interleaving, the blocks that are returned are those of the chain that the source
  answers from, and hashes are resolved to their numbers only. A block of a batch is indexed when it
  is returned, and a single one is, or is about to be, unless it is hardcoded
  (`sharedStore_spec`).
* Calls that run one after the other are those of `StoreOp` (`sequential_calls`).
-/

namespace Nanoreth

open BlockStore Lru Transition

variable {ε : Type}

/-! ## Calls -/

/-- What a call asks for. -/
inductive StoreRequest
  | getByNumber (n : UInt64)
  | getByNumbers (heights : List UInt64)

/-- The heights that are asked for. -/
def StoreRequest.heights : StoreRequest → List UInt64
  | getByNumber n => [n]
  | getByNumbers heights => heights

/-- What a call does next, with the blocks that it has, by their heights. -/
inductive StorePhase (ε : Type)
  | start
  | fetching (cached : List (UInt64 × BlockAndReceipts)) (uncachedHeights : List UInt64)
  | caching (cached fetched : List (UInt64 × BlockAndReceipts))
  | indexing (cached : List (UInt64 × BlockAndReceipts))
  | returned (result : Except (StoreError ε) (List BlockAndReceipts))

/-- A call, and how far it has come. -/
structure StoreCall (ε : Type) where
  request : StoreRequest
  phase : StorePhase ε

/-- The store and the calls. What the source has answered and the blocks that were indexed are
    recorded. -/
structure SharedStore (ε : Type) where
  store : BlockStore
  calls : ℕ → Option (StoreCall ε)
  answered : List (UInt64 × BlockAndReceipts)
  indexed : List BlockAndReceipts

/-- A step of a call, or of the poller, which announces a block that it was returned. -/
inductive StoreLabel (ε : Type)
  | call (id : ℕ) (request : StoreRequest)
  | lookUp (id : ℕ)
  | answer (id : ℕ) (source : BlockSource ε)
  | cache (id : ℕ)
  | index (id : ℕ) (iteration : IterationOrder BlockAndReceipts)
  | announce (id : ℕ)

/-- What the source answers, by the heights that the blocks are cached under. -/
def StoreRequest.ask (source : BlockSource ε) (uncachedHeights : List UInt64) :
    StoreRequest → Except ε (List (UInt64 × BlockAndReceipts))
  | getByNumber n => do return [(n, ← source.collectBlock n)]
  | getByNumbers _ => do
    return (← source.collectBlocks uncachedHeights).map fun block => (block.number, block)

/-- Adds blocks to the cache, and to those that a call has. -/
def cacheFetched (blocks : LruMap UInt64 BlockAndReceipts)
    (cached fetched : List (UInt64 × BlockAndReceipts)) :
    LruMap UInt64 BlockAndReceipts × List (UInt64 × BlockAndReceipts) :=
  fetched.foldl (fun batch entry =>
    (batch.1.insert entry.1 entry.2, insertCached batch.2 entry.1 entry.2)) (blocks, cached)

/-- The blocks of a call satisfy `P`, with their heights. -/
def StoreCall.Keeps (P : UInt64 → BlockAndReceipts → Prop) (call : StoreCall ε) : Prop :=
  match call.phase with
  | .start => True
  | .fetching cached _ => ∀ entry ∈ cached, P entry.1 entry.2
  | .caching cached fetched =>
    (∀ entry ∈ cached, P entry.1 entry.2) ∧ ∀ entry ∈ fetched, P entry.1 entry.2
  | .indexing cached => ∀ entry ∈ cached, P entry.1 entry.2
  | .returned (.ok blocks) => blocks.length = call.request.heights.length ∧
    ∀ entry ∈ call.request.heights.zip blocks, P entry.1 entry.2
  | .returned (.error _) => True

namespace SharedStore

/-- A call goes on. -/
def setCall (s : SharedStore ε) (id : ℕ) (call : StoreCall ε) : SharedStore ε :=
  { s with calls := Function.update s.calls id (some call) }

/-- The cache is replaced. -/
def setBlocks (s : SharedStore ε) (blocks : LruMap UInt64 BlockAndReceipts) : SharedStore ε :=
  { s with store := { s.store with blocks := blocks } }

/-- Looks for blocks without the source. -/
def lookUp (store : BlockStore) :
    StoreRequest → LruMap UInt64 BlockAndReceipts × StorePhase ε
  | .getByNumber n =>
    match store.blocks.get n with
    -- The block is not indexed again.
    | some (block, blocks) => (blocks, .returned (.ok [block]))
    | none =>
      match store.gapBlocks n with
      | some block => (store.blocks, .caching [] [(n, block)])
      | none => (store.blocks, .fetching [] [n])
  | .getByNumbers heights =>
    let batch := store.lookupAll heights
    (batch.blocks,
      if batch.uncachedHeights = [] then .indexing batch.cached
      else .fetching batch.cached batch.uncachedHeights)

/-- The source answers. -/
def answer (s : SharedStore ε) (id : ℕ) (request : StoreRequest)
    (cached : List (UInt64 × BlockAndReceipts)) :
    Except ε (List (UInt64 × BlockAndReceipts)) → SharedStore ε
  | .ok fetched =>
    { s with answered := s.answered ++ fetched }.setCall id ⟨request, .caching cached fetched⟩
  | .error e => s.setCall id ⟨request, .returned (.error (.source e))⟩

/-- Caches what the source has answered. -/
def cache (s : SharedStore ε) (id : ℕ) (request : StoreRequest)
    (cached fetched : List (UInt64 × BlockAndReceipts)) : SharedStore ε :=
  let batch := cacheFetched s.store.blocks cached fetched
  (s.setBlocks batch.1).setCall id ⟨request, .indexing batch.2⟩

/-- Indexes blocks, in order. -/
def indexAll (s : SharedStore ε) (values : List BlockAndReceipts) : SharedStore ε :=
  { s with
    store := { s.store with hashIndex := values.foldl indexBlockInner s.store.hashIndex }
    indexed := s.indexed ++ values }

/-- Indexes the blocks of a call, which returns them. -/
def index (s : SharedStore ε) (id : ℕ) (request : StoreRequest)
    (cached : List (UInt64 × BlockAndReceipts)) (iteration : IterationOrder BlockAndReceipts) :
    SharedStore ε :=
  (s.indexAll (iteration.order (cached.map (·.2)))).setCall id
    ⟨request, .returned (takeCached request.heights cached)⟩

/-- The steps of the calls, each of which holds a lock once. -/
inductive Step (s : SharedStore ε) : StoreLabel ε → SharedStore ε → Prop
  | call {id : ℕ} {request : StoreRequest} (hcall : s.calls id = none) :
      Step s (.call id request) (s.setCall id ⟨request, .start⟩)
  | lookUp {id : ℕ} {request : StoreRequest} (hcall : s.calls id = some ⟨request, .start⟩) :
      Step s (.lookUp id) ((s.setBlocks (lookUp (ε := ε) s.store request).1).setCall id
        ⟨request, (lookUp s.store request).2⟩)
  | answer {id : ℕ} {request : StoreRequest} {cached : List (UInt64 × BlockAndReceipts)}
      {uncachedHeights : List UInt64} {source : BlockSource ε}
      (hcall : s.calls id = some ⟨request, .fetching cached uncachedHeights⟩) :
      Step s (.answer id source)
        (s.answer id request cached (request.ask source uncachedHeights))
  | cache {id : ℕ} {request : StoreRequest} {cached fetched : List (UInt64 × BlockAndReceipts)}
      (hcall : s.calls id = some ⟨request, .caching cached fetched⟩) :
      Step s (.cache id) (s.cache id request cached fetched)
  | index {id : ℕ} {request : StoreRequest} {cached : List (UInt64 × BlockAndReceipts)}
      {iteration : IterationOrder BlockAndReceipts}
      (hcall : s.calls id = some ⟨request, .indexing cached⟩) :
      Step s (.index id iteration) (s.index id request cached iteration)
  | announce {id : ℕ} {n : UInt64} {block : BlockAndReceipts}
      (hcall : s.calls id = some ⟨.getByNumber n, .returned (.ok [block])⟩) :
      Step s (.announce id) (s.indexAll [block])

end SharedStore

/-- A new store that is shared. -/
def sharedStore (db : Option (B256 → Option UInt64)) (gaps : List BlockAndReceipts)
    (chainId : UInt64) : System (SharedStore ε) (StoreLabel ε) where
  init s := s.store = .new db gaps chainId ∧ s.calls = (fun _ => none) ∧ s.answered = [] ∧
    s.indexed = []
  step := SharedStore.Step

namespace SharedStore

variable {s s' : SharedStore ε} {l : StoreLabel ε} {id : ℕ}
  {db : Option (B256 → Option UInt64)} {gaps : List BlockAndReceipts} {chainId : UInt64}

/-! ## What a step changes -/

/-- The answers and the blocks indexed only grow, and what is not cached or indexed stays. -/
structure Extends (s s' : SharedStore ε) : Prop where
  answered : s.answered <+: s'.answered
  gapBlocks : s'.store.gapBlocks = s.store.gapBlocks
  dbBlockNumber : s'.store.dbBlockNumber = s.store.dbBlockNumber
  indexed : ∃ values, s'.indexed = s.indexed ++ values ∧
    s'.store.hashIndex = values.foldl indexBlockInner s.store.hashIndex

/-- A step loses neither indexed blocks nor answers. -/
theorem Step.extends (h : Step s l s') : Extends s s' := by
  cases h with
  | call => exact ⟨List.prefix_rfl, rfl, rfl, [], (List.append_nil _).symm, rfl⟩
  | lookUp => exact ⟨List.prefix_rfl, rfl, rfl, [], (List.append_nil _).symm, rfl⟩
  | @answer id request cached uncachedHeights source hcall =>
    cases request.ask source uncachedHeights with
    | ok fetched =>
      exact ⟨List.prefix_append _ _, rfl, rfl, [], (List.append_nil _).symm, rfl⟩
    | error e => exact ⟨List.prefix_rfl, rfl, rfl, [], (List.append_nil _).symm, rfl⟩
  | cache => exact ⟨List.prefix_rfl, rfl, rfl, [], (List.append_nil _).symm, rfl⟩
  | index => exact ⟨List.prefix_rfl, rfl, rfl, _, rfl, rfl⟩
  | announce => exact ⟨List.prefix_rfl, rfl, rfl, _, rfl, rfl⟩

theorem Extends.mem_indexed (h : Extends s s') {block : BlockAndReceipts}
    (hblock : block ∈ s.indexed) : block ∈ s'.indexed := by
  obtain ⟨values, hindexed, -⟩ := h.indexed
  rw [hindexed]
  exact List.mem_append_left _ hblock

/-- The index holds the hashes of the blocks that were indexed last. -/
structure Indexes (db : Option (B256 → Option UInt64)) (gaps : List BlockAndReceipts)
    (chainId : UInt64) (s : SharedStore ε) : Prop where
  gapBlocks : s.store.gapBlocks = testnetGapBlocks gaps chainId
  dbBlockNumber : s.store.dbBlockNumber = db
  holds : s.store.hashIndex.Holds hashIndexLimit (s.indexed.flatMap indexPairs)

/-- The index has the blocks that were indexed. -/
theorem indexes_of_reachable (hs : Reachable (sharedStore db gaps chainId) s) :
    Indexes db gaps chainId s := by
  refine hs.invariant ?_ fun s l s' hindexes hstep => ?_
  · rintro ⟨store, calls, answered, indexed⟩ ⟨rfl, -, -, rfl⟩
    exact ⟨rfl, rfl, LruBiMap.holds_new (by decide)⟩
  · have hextends := Step.extends hstep
    obtain ⟨values, hindexed, hindex⟩ := hextends.indexed
    refine ⟨hextends.gapBlocks.trans hindexes.gapBlocks,
      hextends.dbBlockNumber.trans hindexes.dbBlockNumber, ?_⟩
    rw [hindex, foldl_indexBlockInner, hindexed, List.flatMap_append]
    exact hindexes.holds.insertAll _

/-! ## What the calls have -/

/-- How a call starts: it finds a single block, in the cache or hardcoded, or does not, or has the
    blocks of a batch that are found. -/
theorem lookUp_cases (store : BlockStore) (request : StoreRequest) :
    (∃ n block blocks, request = .getByNumber n ∧ store.blocks.get n = some (block, blocks) ∧
      lookUp (ε := ε) store request = (blocks, .returned (.ok [block]))) ∨
    (∃ n block, request = .getByNumber n ∧ store.blocks.get n = none ∧
      store.gapBlocks n = some block ∧
      lookUp (ε := ε) store request = (store.blocks, .caching [] [(n, block)])) ∨
    (∃ n, request = .getByNumber n ∧ store.blocks.get n = none ∧ store.gapBlocks n = none ∧
      lookUp (ε := ε) store request = (store.blocks, .fetching [] [n])) ∨
    ∃ heights, request = .getByNumbers heights ∧
      lookUp (ε := ε) store request = ((store.lookupAll heights).blocks,
        if (store.lookupAll heights).uncachedHeights = [] then
          .indexing (store.lookupAll heights).cached
        else .fetching (store.lookupAll heights).cached
          (store.lookupAll heights).uncachedHeights) := by
  rcases request with n | heights
  · rw [lookUp]
    cases hget : store.blocks.get n with
    | some hit => exact .inl ⟨n, hit.1, hit.2, rfl, hget, rfl⟩
    | none =>
      cases hgap : store.gapBlocks n with
      | some block => exact .inr (.inl ⟨n, block, rfl, hget, hgap, rfl⟩)
      | none => exact .inr (.inr (.inl ⟨n, rfl, hget, hgap, rfl⟩))
  · exact .inr (.inr (.inr ⟨heights, rfl, rfl⟩))

section Keeps

variable {P : UInt64 → BlockAndReceipts → Prop}

/-- The blocks that are cached, hardcoded, indexed and held by calls satisfy `P`. -/
structure Keeps (P : UInt64 → BlockAndReceipts → Prop) (s : SharedStore ε) : Prop where
  store : s.store.Keeps P
  calls : ∀ id call, s.calls id = some call → call.Keeps P
  indexed : ∀ block ∈ s.indexed, ∃ n, P n block

theorem forall_update {Q : StoreCall ε → Prop} {calls : ℕ → Option (StoreCall ε)}
    {call : StoreCall ε} (h : ∀ id call, calls id = some call → Q call) (hcall : Q call) :
    ∀ id' call', Function.update calls id (some call) id' = some call' → Q call' := by
  intro id' call' hcall'
  by_cases hid : id' = id
  · rw [hid, Function.update_self] at hcall'
    cases hcall'
    exact hcall
  · rw [Function.update_of_ne hid] at hcall'
    exact h id' call' hcall'

/-- What holds of cached and fetched blocks holds of those that are cached then. -/
theorem forall_cacheFetched {blocks : LruMap UInt64 BlockAndReceipts}
    {cached fetched : List (UInt64 × BlockAndReceipts)}
    (hblocks : ∀ entry ∈ blocks.entries, P entry.1 entry.2)
    (hcached : ∀ entry ∈ cached, P entry.1 entry.2)
    (hfetched : ∀ entry ∈ fetched, P entry.1 entry.2) :
    (∀ entry ∈ (cacheFetched blocks cached fetched).1.entries, P entry.1 entry.2) ∧
      ∀ entry ∈ (cacheFetched blocks cached fetched).2, P entry.1 entry.2 := by
  induction fetched generalizing blocks cached with
  | nil => exact ⟨hblocks, hcached⟩
  | cons entry fetched ih =>
    rw [List.forall_mem_cons] at hfetched
    exact ih (forall_insert hblocks hfetched.1) (forall_insertCached hcached hfetched.1)
      hfetched.2

/-- A lookup keeps what holds of all blocks. -/
theorem Keeps.lookUp (hs : s.Keeps P) {request : StoreRequest} :
    (∀ entry ∈ (SharedStore.lookUp (ε := ε) s.store request).1.entries, P entry.1 entry.2) ∧
      (⟨request, (SharedStore.lookUp s.store request).2⟩ : StoreCall ε).Keeps P := by
  obtain ⟨n, block, blocks, rfl, hget, heq⟩ | ⟨n, block, rfl, -, hgap, heq⟩ |
    ⟨n, rfl, -, -, heq⟩ | ⟨heights, rfl, heq⟩ := lookUp_cases (ε := ε) s.store request
  · rw [heq]
    refine ⟨fun entry hentry => hs.store.blocks entry (LruMap.mem_of_get hget hentry), rfl, ?_⟩
    intro entry hentry
    rw [List.mem_singleton.1 hentry]
    exact hs.store.blocks _ (LruMap.get_eq_some hget).1
  · rw [heq]
    refine ⟨hs.store.blocks, by simp, ?_⟩
    rw [List.forall_mem_singleton]
    exact hs.store.gaps n block hgap
  · rw [heq]
    exact ⟨hs.store.blocks, by simp [StoreCall.Keeps]⟩
  · have hbatch := hs.store.lookupAll heights
    rw [heq]
    refine ⟨hbatch.blocks, ?_⟩
    split_ifs
    · exact hbatch.cached
    · exact hbatch.cached

/-- Indexing keeps what holds of all blocks. -/
theorem Keeps.indexAll (hs : s.Keeps P) {values : List BlockAndReceipts}
    (hvalues : ∀ block ∈ values, ∃ n, P n block) : (s.indexAll values).Keeps P where
  store := ⟨hs.store.blocks, hs.store.gaps⟩
  calls := hs.calls
  indexed block hblock := (List.mem_append.1 hblock).elim (hs.indexed block) (hvalues block)

/-- A step keeps to `P` if the source answers so. -/
theorem Keeps.step (hs : s.Keeps P) (hanswered : ∀ entry ∈ s'.answered, P entry.1 entry.2)
    (h : Step s l s') : s'.Keeps P := by
  cases h with
  | call hcall => exact ⟨hs.store, forall_update hs.calls trivial, hs.indexed⟩
  | lookUp hcall =>
    obtain ⟨hblocks, hcall⟩ := hs.lookUp
    exact ⟨⟨hblocks, hs.store.gaps⟩, forall_update hs.calls hcall, hs.indexed⟩
  | @answer id request cached uncachedHeights source hcall =>
    have hcached := hs.calls id _ hcall
    generalize request.ask source uncachedHeights = result at hanswered ⊢
    -- What was fetched is among the answers of the next state, of which `P` holds.
    cases result with
    | ok fetched =>
      have hfetched : ∀ entry ∈ fetched, P entry.1 entry.2 := fun entry hentry =>
        hanswered entry (List.mem_append_right _ hentry)
      exact ⟨hs.store, forall_update hs.calls ⟨hcached, hfetched⟩, hs.indexed⟩
    | error e => exact ⟨hs.store, forall_update hs.calls trivial, hs.indexed⟩
  | cache hcall =>
    obtain ⟨hcached, hfetched⟩ := hs.calls _ _ hcall
    obtain ⟨hblocks, hcached⟩ := forall_cacheFetched hs.store.blocks hcached hfetched
    exact ⟨⟨hblocks, hs.store.gaps⟩, forall_update hs.calls hcached, hs.indexed⟩
  | @index id request cached iteration hcall =>
    have hcached := hs.calls _ _ hcall
    have hindexed := hs.indexAll fun block hblock => by
      -- The iteration order only permutes what is cached.
      obtain ⟨entry, hentry, rfl⟩ := List.mem_map.1 ((iteration.perm _).mem_iff.1 hblock)
      exact ⟨entry.1, hcached entry hentry⟩
    refine ⟨hindexed.store, forall_update hs.calls ?_, hindexed.indexed⟩
    cases htake : takeCached (ε := ε) request.heights cached with
    | ok blocks => exact ⟨length_takeCached htake, forall_takeCached hcached htake⟩
    | error e => trivial
  | @announce id n block hcall =>
    obtain ⟨-, hblock⟩ := hs.calls _ _ hcall
    refine hs.indexAll ?_
    rw [List.forall_mem_singleton]
    exact ⟨n, hblock (n, block) List.mem_cons_self⟩

/-- What holds of the gap blocks and of all answers holds of all blocks that are reached. -/
theorem keeps_of_reachable (hgaps : ∀ n block, testnetGapBlocks gaps chainId n = some block →
      P n block) (hs : Reachable (sharedStore db gaps chainId) s)
    (hanswered : ∀ entry ∈ s.answered, P entry.1 entry.2) : s.Keeps P := by
  refine hs.invariant (P := fun s => (∀ entry ∈ s.answered, P entry.1 entry.2) → s.Keeps P) ?_ ?_
    hanswered
  · rintro ⟨store, calls, answered, indexed⟩ ⟨rfl, rfl, -, rfl⟩ -
    exact ⟨keeps_ofLimits _ _ db hgaps, fun _ _ h => (by cases h), fun _ h => (by cases h)⟩
  · intro s l s' ih hstep hanswered
    have hgrows := (Step.extends hstep).answered
    exact (ih fun entry hentry => hanswered entry (hgrows.mem hentry)).step hanswered hstep

end Keeps

/-! ## What is indexed -/

/-- A call has a block for a height, which it is about to index. -/
def Pending (s : SharedStore ε) (n : UInt64) (block : BlockAndReceipts) : Prop :=
  ∃ id request cached, s.calls id = some ⟨request, .indexing cached⟩ ∧ (n, block) ∈ cached

/-- A block is indexed, or is about to be, or is hardcoded. -/
def Registered (s : SharedStore ε) (n : UInt64) (block : BlockAndReceipts) : Prop :=
  block ∈ s.indexed ∨ s.Pending n block ∨ s.store.gapBlocks n = some block

variable {n : UInt64} {block : BlockAndReceipts} {call : StoreCall ε}

/-- A call that is not about to index blocks moves on. -/
theorem Pending.update (h : s.Pending n block)
    (hcalls : s'.calls = Function.update s.calls id (some call))
    (hid : ∀ request cached, s.calls id ≠ some ⟨request, .indexing cached⟩) :
    s'.Pending n block := by
  obtain ⟨id', request, cached, hcall, hmem⟩ := h
  refine ⟨id', request, cached, ?_, hmem⟩
  have hne : id' ≠ id := by
    rintro rfl
    exact hid request cached hcall
  rw [hcalls, Function.update_of_ne hne, hcall]

/-- A call that was about to index the block still is, or has done it. -/
theorem Pending.step (h : s.Pending n block) (hstep : Step s l s') :
    s'.Pending n block ∨ block ∈ s'.indexed := by
  cases hstep with
  | call hcall => exact .inl (h.update rfl (by simp [hcall]))
  | lookUp hcall => exact .inl (h.update rfl (by simp [hcall]))
  | @answer id request cached uncachedHeights source hcall =>
    cases request.ask source uncachedHeights with
    | ok fetched => exact .inl (h.update rfl (by simp [hcall]))
    | error e => exact .inl (h.update rfl (by simp [hcall]))
  | cache hcall => exact .inl (h.update rfl (by simp [hcall]))
  | @index id request cached iteration hcall =>
    obtain ⟨id', request', cached', hcall', hmem⟩ := h
    by_cases hid : id' = id
    · subst hid
      cases hcall.symm.trans hcall'
      refine .inr (List.mem_append_right _ ?_)
      exact (iteration.perm _).mem_iff.2 (List.mem_map_of_mem hmem)
    · refine .inl ⟨id', request', cached', ?_, hmem⟩
      exact (Function.update_of_ne hid _ _).trans hcall'
  | announce => exact .inl h

/-- A registered block stays so. -/
theorem Registered.step (h : s.Registered n block) (hstep : Step s l s') :
    s'.Registered n block := by
  have hextends := hstep.extends
  obtain hindexed | hpending | hgap := h
  · exact .inl (hextends.mem_indexed hindexed)
  · rcases hpending.step hstep with hpending | hindexed
    · exact .inr (.inl hpending)
    · exact .inl hindexed
  · exact .inr (.inr (hextends.gapBlocks ▸ hgap))

/-- A single block that a call returns is registered, and those of a batch are indexed. -/
def RegistersCall (s : SharedStore ε) : StoreCall ε → Prop
  | ⟨.getByNumber n, .returned (.ok blocks)⟩ => ∀ block ∈ blocks, s.Registered n block
  | ⟨.getByNumbers _, .returned (.ok blocks)⟩ => ∀ block ∈ blocks, block ∈ s.indexed
  | _ => True

/-- All blocks that the store and the calls have are registered. -/
structure Registers (s : SharedStore ε) : Prop where
  store : s.store.Keeps s.Registered
  calls : ∀ id call, s.calls id = some call → s.RegistersCall call

/-- Nothing is asked of a call that has not returned blocks. -/
theorem registersCall_of_ne (h : ∀ blocks, call.phase ≠ .returned (.ok blocks)) :
    s.RegistersCall call := by
  unfold RegistersCall
  split
  · exact absurd rfl (h _)
  · exact absurd rfl (h _)
  · trivial

/-- The blocks of a call stay registered. -/
theorem RegistersCall.step (h : s.RegistersCall call) (hstep : Step s l s') :
    s'.RegistersCall call := by
  by_cases hreturned : ∃ blocks, call.phase = .returned (.ok blocks)
  · obtain ⟨request, phase⟩ := call
    obtain ⟨blocks, rfl⟩ := hreturned
    cases request with
    | getByNumber n => exact fun block hblock => (h block hblock).step hstep
    | getByNumbers heights =>
      exact fun block hblock => hstep.extends.mem_indexed (h block hblock)
  · exact registersCall_of_ne fun blocks hblocks => hreturned ⟨blocks, hblocks⟩

/-- A block that is in the cache afterwards was there before, or is one that the call has. -/
theorem mem_cacheFetched {blocks : LruMap UInt64 BlockAndReceipts}
    {cached fetched : List (UInt64 × BlockAndReceipts)} {entry : UInt64 × BlockAndReceipts}
    (h : entry ∈ (cacheFetched blocks cached fetched).1.entries) :
    entry ∈ blocks.entries ∨ entry ∈ (cacheFetched blocks cached fetched).2 := by
  suffices ∀ (old : LruMap UInt64 BlockAndReceipts) blocks cached,
      (∀ entry ∈ blocks.entries, entry ∈ old.entries ∨ entry ∈ cached) →
      ∀ entry ∈ (cacheFetched blocks cached fetched).1.entries,
        entry ∈ old.entries ∨ entry ∈ (cacheFetched blocks cached fetched).2 from
    this blocks blocks cached (fun _ => .inl) entry h
  clear h
  intro old
  induction fetched with
  | nil => exact fun _ _ h => h
  | cons fetch fetched ih =>
    intro blocks cached h
    refine ih _ _ fun entry hentry => ?_
    -- A block that was cached under the same height before is no longer there.
    rcases List.mem_cons.1 (List.mem_of_mem_take hentry) with rfl | hentry
    · exact .inr List.mem_cons_self
    · obtain ⟨hentry, hne⟩ := List.mem_filter.1 hentry
      exact (h entry hentry).imp_right fun hcached =>
        List.mem_cons_of_mem _ (List.mem_filter.2 ⟨hcached, hne⟩)

/-- The blocks that are returned were cached. -/
theorem mem_takeCached {heights : List UInt64} {cached : List (UInt64 × BlockAndReceipts)}
    {blocks : List BlockAndReceipts} (h : takeCached (ε := ε) heights cached = .ok blocks) :
    ∀ block ∈ blocks, block ∈ cached.map (·.2) := by
  intro block hblock
  rw [← List.map_snd_zip (length_takeCached h).le] at hblock
  obtain ⟨entry, hentry, rfl⟩ := List.mem_map.1 hblock
  exact List.mem_map_of_mem
    (forall_takeCached (P := fun h block => (h, block) ∈ cached) (fun _ h => h) h entry hentry)

/-- Every step keeps the blocks of all calls registered. -/
theorem Registers.step (hs : s.Registers) (h : Step s l s') : s'.Registers := by
  have hblocks : ∀ entry ∈ s.store.blocks.entries, s'.Registered entry.1 entry.2 :=
    fun entry hentry => (hs.store.blocks entry hentry).step h
  have hgaps : ∀ n block, s'.store.gapBlocks n = some block → s'.Registered n block :=
    fun _ _ hgap => .inr (.inr hgap)
  have hcalls : ∀ id call, s.calls id = some call → s'.RegistersCall call :=
    fun id call hcall => (hs.calls id call hcall).step h
  have hstep := h
  cases h with
  | @call id request hcall =>
    exact ⟨⟨hblocks, hgaps⟩, forall_update hcalls (registersCall_of_ne nofun)⟩
  | @lookUp id request hcall =>
    -- By cases on what the lookup finds. Only a block from the cache is returned at once.
    obtain ⟨n, block, blocks, rfl, hget, heq⟩ | ⟨n, block, rfl, -, -, heq⟩ |
      ⟨n, rfl, -, -, heq⟩ | ⟨heights, rfl, heq⟩ := lookUp_cases (ε := ε) s.store request
    · rw [heq] at hstep hblocks hgaps hcalls ⊢
      refine ⟨⟨fun entry hentry => hblocks entry (LruMap.mem_of_get hget hentry), hgaps⟩,
        forall_update hcalls ?_⟩
      intro block' hblock'
      rw [List.mem_singleton.1 hblock']
      exact hblocks (n, block) (LruMap.get_eq_some hget).1
    · rw [heq] at hstep hblocks hgaps hcalls ⊢
      exact ⟨⟨hblocks, hgaps⟩, forall_update hcalls trivial⟩
    · rw [heq] at hstep hblocks hgaps hcalls ⊢
      exact ⟨⟨hblocks, hgaps⟩, forall_update hcalls trivial⟩
    · have hbatch := (hs.store.lookupAll heights).blocks
      rw [heq] at hstep hblocks hgaps hcalls ⊢
      refine ⟨⟨fun entry hentry => (hbatch entry hentry).step hstep, hgaps⟩,
        forall_update hcalls (registersCall_of_ne ?_)⟩
      split_ifs
      · exact nofun
      · exact nofun
  | @answer id request cached uncachedHeights source hcall =>
    generalize request.ask source uncachedHeights = result at hblocks hgaps hcalls ⊢
    cases result with
    | ok fetched => exact ⟨⟨hblocks, hgaps⟩, forall_update hcalls (registersCall_of_ne nofun)⟩
    | error e => exact ⟨⟨hblocks, hgaps⟩, forall_update hcalls (registersCall_of_ne nofun)⟩
  | @cache id request cached fetched hcall =>
    -- What was fetched is not indexed yet, but the call that fetched it will do so.
    refine ⟨⟨fun entry hentry => ?_, hgaps⟩, forall_update hcalls (registersCall_of_ne nofun)⟩
    rcases mem_cacheFetched hentry with hold | hnew
    · exact hblocks entry hold
    · exact .inr (.inl ⟨id, request, _, Function.update_self .., hnew⟩)
  | @index id request cached iteration hcall =>
    refine ⟨⟨hblocks, hgaps⟩, forall_update hcalls ?_⟩
    -- All blocks that are returned are indexed in this step.
    have hindexed : ∀ block ∈ cached.map (·.2),
        block ∈ s.indexed ++ iteration.order (cached.map (·.2)) := fun block hblock =>
      List.mem_append_right _ ((iteration.perm _).mem_iff.2 hblock)
    cases htake : takeCached (ε := ε) request.heights cached with
    | error e => exact registersCall_of_ne nofun
    | ok blocks =>
      cases request with
      | getByNumber n =>
        exact fun block hblock => .inl (hindexed block (mem_takeCached htake block hblock))
      | getByNumbers heights =>
        exact fun block hblock => hindexed block (mem_takeCached htake block hblock)
  | announce hcall => exact ⟨⟨hblocks, hgaps⟩, hcalls⟩

/-- The blocks of all calls are registered in states that are reached. -/
theorem registers_of_reachable (hs : Reachable (sharedStore db gaps chainId) s) :
    s.Registers := by
  refine hs.invariant ?_ fun s l s' hregisters hstep => hregisters.step hstep
  rintro ⟨store, calls, answered, indexed⟩ ⟨rfl, rfl, -, rfl⟩
  refine ⟨keeps_ofLimits _ _ db fun n block hgap => .inr (.inr hgap), fun _ _ h => ?_⟩
  cases h

end SharedStore

open SharedStore

/-- **Concurrent calls**: let the source answer with the blocks of a chain. After any steps of any
    number of calls, in any order,

    * a call that has returned blocks has those of the chain at the heights it was made for;
    * hashes are resolved to the numbers of their blocks only;
    * the blocks of a batch are indexed when they are returned. A single block is indexed, or
      another call is about to index it, unless it is hardcoded;
    * the hash of a block is in the index exactly if the block, or the one after it, was indexed,
      and fewer than a million other hashes were since. -/
theorem sharedStore_spec (chain : SourceChain) {db : Option (B256 → Option UInt64)}
    {gaps : List BlockAndReceipts} {chainId : UInt64} {s : SharedStore ε}
    (hgaps : ∀ block ∈ gaps, chain.IsBlock block.number block)
    (hdb : ∀ lookup ∈ db, ∀ hash n, lookup hash = some n → hash = (chain.block n).hash)
    (hs : Reachable (sharedStore db gaps chainId) s)
    (hanswered : ∀ entry ∈ s.answered, entry.2 = chain.block entry.1) :
    (∀ id request blocks, s.calls id = some ⟨request, .returned (.ok blocks)⟩ →
      blocks = request.heights.map chain.block) ∧
    (∀ hash n, s.store.hashToNumber hash = .ok n → hash = (chain.block n).hash) ∧
    (∀ id heights blocks, s.calls id = some ⟨.getByNumbers heights, .returned (.ok blocks)⟩ →
      ∀ n ∈ heights, chain.block n ∈ s.indexed) ∧
    (∀ id n blocks, s.calls id = some ⟨.getByNumber n, .returned (.ok blocks)⟩ →
      chain.block n ∈ s.indexed ∨ s.Pending n (chain.block n) ∨
        testnetGapBlocks gaps chainId n = some (chain.block n)) ∧
    ∀ n, s.store.hashIndex.getByLeft (chain.block n).hash = some n ↔
      ∃ before after, (s.indexed.flatMap indexPairs).map (·.1) =
          before ++ (chain.block n).hash :: after ∧
        (chain.block n).hash ∉ after ∧ after.toFinset.card < hashIndexLimit := by
  -- The three invariants: what the blocks are, what is indexed, and what will be.
  have hkeeps : s.Keeps chain.IsBlock :=
    SharedStore.keeps_of_reachable (fun _ _ => SourceChain.gaps_isBlock hgaps) hs hanswered
  have hindexes := indexes_of_reachable hs
  have hregisters := registers_of_reachable hs
  have hreturned : ∀ id request blocks, s.calls id = some ⟨request, .returned (.ok blocks)⟩ →
      blocks = request.heights.map chain.block := by
    intro id request blocks hcall
    obtain ⟨hlength, hzip⟩ := hkeeps.calls id _ hcall
    exact eq_map_of_zip hlength hzip
  have hindexed : chain.Indexed s.store := by
    -- An entry of the index comes from a block that was indexed, hence from one of the chain.
    intro hash n hn
    obtain ⟨block, hblock, hpair⟩ := List.mem_flatMap.1 (hindexes.holds.mem_of_getByLeft hn)
    obtain ⟨m, rfl⟩ := hkeeps.indexed block hblock
    exact SourceChain.hash_of_mem_indexPairs hpair
  refine ⟨hreturned, fun hash n hn => ?_, fun id heights blocks hcall n hn => ?_,
    fun id n blocks hcall => ?_, fun n => ?_⟩
  · exact SourceChain.hash_of_hashToNumber hindexed (hindexes.dbBlockNumber ▸ hdb) hn
  · refine hregisters.calls id _ hcall _ ?_
    rw [hreturned id _ blocks hcall]
    exact List.mem_map_of_mem hn
  · have hregistered := hregisters.calls id _ hcall (chain.block n)
    rw [hreturned id _ blocks hcall] at hregistered
    have hblock := hregistered List.mem_cons_self
    rwa [Registered, hindexes.gapBlocks] at hblock
  · rw [← hindexes.holds.isSome_getByLeft_iff]
    constructor
    · intro hn
      rw [hn]
      rfl
    · intro hsome
      obtain ⟨m, hm⟩ := Option.isSome_iff_exists.1 hsome
      rw [hm, chain.hash_injective n m (hindexed _ m hm)]

/-- The poller fetches block 2, and has cached it, when another call for it is made. -/
def concurrentRun : List (StoreLabel Empty) :=
  [.call 0 (.getByNumber 2), .lookUp 0, .answer 0 countingSource, .cache 0,
    .call 1 (.getByNumber 2), .lookUp 1]

/-- The other call has returned the block, which is not indexed yet. -/
theorem sharedStore_spec_hit : ∃ s : SharedStore Empty,
    Reachable (sharedStore none [] mainnetChainId) s ∧ s.indexed = [] ∧
    s.calls 1 = some ⟨.getByNumber 2, .returned (.ok [countingBlock 2])⟩ ∧
    s.Pending 2 (countingBlock 2) := by
  have hrun : Run (sharedStore (ε := Empty) none [] mainnetChainId)
      ⟨.new none [] mainnetChainId, fun _ => none, [], []⟩ concurrentRun _ :=
    .cons (.call rfl) <| .cons (.lookUp rfl) <| .cons (.answer rfl) <| .cons (.cache rfl) <|
      .cons (.call rfl) <| .single (.lookUp rfl)
  have hs : Reachable (sharedStore (ε := Empty) none [] mainnetChainId) _ :=
    ⟨_, concurrentRun, ⟨rfl, rfl, rfl, rfl⟩, hrun⟩
  have hspec := sharedStore_spec countingChain (by simp) (by simp) hs (by
    intro entry hentry
    rw [List.mem_singleton.1 hentry]
    rfl)
  refine ⟨_, hs, rfl, rfl, ?_⟩
  rcases hspec.2.2.2.1 1 2 _ rfl with hindexed | hpending | hgap
  · exact absurd hindexed List.not_mem_nil
  · exact hpending
  · cases hgap

/-! ## Calls one after the other -/

namespace StoreRequest

/-- The call as it is without others at the same time. -/
def toOp (request : StoreRequest) (source : BlockSource ε)
    (iteration : IterationOrder BlockAndReceipts) : StoreOp ε :=
  match request with
  | getByNumber n => .getByNumber source n
  | getByNumbers heights => .getByNumbers source iteration heights

/-- What it returns. -/
def result (request : StoreRequest) (source : BlockSource ε)
    (iteration : IterationOrder BlockAndReceipts) (store : BlockStore) :
    Except (StoreError ε) (List BlockAndReceipts) :=
  match request with
  | getByNumber n => (store.getByNumber source n).1.map fun block => [block]
  | getByNumbers heights => (store.getByNumbers source iteration heights).1

end StoreRequest

namespace SharedStore

section Sequential

variable {s : SharedStore ε} {id : ℕ} {request : StoreRequest}
  {cached fetched : List (UInt64 × BlockAndReceipts)} {source : BlockSource ε}
  {iteration : IterationOrder BlockAndReceipts} {db : Option (B256 → Option UInt64)}
  {gaps : List BlockAndReceipts} {chainId : UInt64}

/-- A run of a call alone, from its phase on, to what it returns. -/
def Finishes (T : System (SharedStore ε) (StoreLabel ε)) (s : SharedStore ε) (id : ℕ)
    (request : StoreRequest) (result : Except (StoreError ε) (List BlockAndReceipts))
    (store : BlockStore) : Prop :=
  ∃ ls s', Run T s ls s' ∧ s'.store = store ∧
    s'.calls = Function.update s.calls id (some ⟨request, .returned result⟩)

/-- A call finishes if it does after a step. -/
theorem Finishes.cons {T : System (SharedStore ε) (StoreLabel ε)} {s' : SharedStore ε}
    {l : StoreLabel ε} {call : StoreCall ε}
    {result : Except (StoreError ε) (List BlockAndReceipts)} {store : BlockStore}
    (h : Finishes T s' id request result store) (hstep : T.step s l s')
    (hcalls : s'.calls = Function.update s.calls id (some call)) :
    Finishes T s id request result store := by
  obtain ⟨ls, s'', hrun, hstore, hcalls'⟩ := h
  refine ⟨l :: ls, s'', .cons hstep hrun, hstore, ?_⟩
  rw [hcalls', hcalls, Function.update_idem]

/-- A call that has its blocks finishes with them. -/
theorem finishes_index (hcall : s.calls id = some ⟨request, .indexing cached⟩) :
    Finishes (sharedStore db gaps chainId) s id request (takeCached request.heights cached)
      { s.store with
        hashIndex :=
          (iteration.order (cached.map (·.2))).foldl indexBlockInner s.store.hashIndex } :=
  ⟨[.index id iteration], _, .single (.index hcall), rfl, rfl⟩

/-- A call with fetched blocks caches them first. -/
theorem finishes_cache (hcall : s.calls id = some ⟨request, .caching cached fetched⟩) :
    Finishes (sharedStore db gaps chainId) s id request
      (takeCached request.heights (cacheFetched s.store.blocks cached fetched).2)
      { s.store with
        blocks := (cacheFetched s.store.blocks cached fetched).1
        hashIndex := (iteration.order ((cacheFetched s.store.blocks cached fetched).2.map
          (·.2))).foldl indexBlockInner s.store.hashIndex } :=
  (finishes_index (Function.update_self ..)).cons (.cache hcall) rfl

/-- The blocks of a batch are added under their numbers. -/
theorem foldl_addFetched (batch : Batch) (blocks : List BlockAndReceipts) :
    (blocks.foldl addFetched batch).blocks = (cacheFetched batch.blocks batch.cached
        (blocks.map fun block => (block.number, block))).1 ∧
      (blocks.foldl addFetched batch).cached = (cacheFetched batch.blocks batch.cached
        (blocks.map fun block => (block.number, block))).2 := by
  induction blocks generalizing batch with
  | nil => exact ⟨rfl, rfl⟩
  | cons block blocks ih => exact ih (addFetched batch block)

theorem order_singleton (iteration : IterationOrder BlockAndReceipts) (block : BlockAndReceipts) :
    iteration.order [block] = [block] :=
  List.perm_singleton.1 (iteration.perm [block])

/-- A single block that is not in the cache is cached and indexed. -/
theorem finishes_single {n : UInt64} {block : BlockAndReceipts}
    (iteration : IterationOrder BlockAndReceipts)
    (hcall : s.calls id = some ⟨.getByNumber n, .caching [] [(n, block)]⟩) :
    Finishes (sharedStore db gaps chainId) s id (.getByNumber n) (.ok [block])
      ((s.store.cacheBlock n block).indexBlock block) := by
  have hcached : (cacheFetched s.store.blocks [] [(n, block)]).2 = [(n, block)] := rfl
  have htake : takeCached (ε := ε) (StoreRequest.getByNumber n).heights [(n, block)] =
      .ok [block] := by
    simp [StoreRequest.heights, takeCached]
  have hfinishes := @finishes_cache ε s id _ _ _ iteration db gaps chainId hcall
  rw [hcached, htake, List.map_singleton, order_singleton] at hfinishes
  exact hfinishes

/-- How a call goes on once it has looked for blocks. -/
theorem finishes_lookUp {blocks : LruMap UInt64 BlockAndReceipts} {phase : StorePhase ε}
    {result : Except (StoreError ε) (List BlockAndReceipts)} {store : BlockStore}
    (hcall : s.calls id = none) (heq : SharedStore.lookUp s.store request = (blocks, phase))
    (h : Finishes (sharedStore db gaps chainId)
      ((s.setBlocks blocks).setCall id ⟨request, phase⟩) id request result store) :
    Finishes (sharedStore db gaps chainId) s id request result store := by
  have hlookUp : Step (s.setCall id ⟨request, .start⟩) (.lookUp id)
      ((s.setBlocks blocks).setCall id ⟨request, phase⟩) := by
    have hstep := @Step.lookUp ε (s.setCall id ⟨request, .start⟩) id request
      (Function.update_self ..)
    change Step _ _ (((s.setCall id _).setBlocks
      (SharedStore.lookUp (ε := ε) s.store request).1).setCall id
        ⟨request, (SharedStore.lookUp s.store request).2⟩) at hstep
    rw [heq] at hstep
    simpa only [setCall, setBlocks, Function.update_idem] using hstep
  exact (h.cons hlookUp (Function.update_idem ..).symm).cons (.call hcall) rfl

/-- A call that waits finishes as it does with the answer. -/
theorem finishes_of_answer {uncachedHeights : List UInt64}
    {result : Except (StoreError ε) (List BlockAndReceipts)} {store : BlockStore}
    (hcall : s.calls id = some ⟨request, .fetching cached uncachedHeights⟩)
    (hask : request.ask source uncachedHeights = .ok fetched)
    (h : Finishes (sharedStore db gaps chainId) (s.answer id request cached (.ok fetched)) id
      request result store) :
    Finishes (sharedStore db gaps chainId) s id request result store :=
  h.cons (hask ▸ Step.answer hcall) rfl

/-- A call that waits finishes with the error of the source. -/
theorem finishes_of_error {uncachedHeights : List UInt64} {e : ε}
    (hcall : s.calls id = some ⟨request, .fetching cached uncachedHeights⟩)
    (hask : request.ask source uncachedHeights = .error e) :
    Finishes (sharedStore db gaps chainId) s id request (.error (.source e)) s.store :=
  ⟨[.answer id source], s.answer id request cached (.error e), .single (hask ▸ Step.answer hcall),
    rfl, rfl⟩

/-- A single block that the source is asked for. -/
theorem finishes_source {n : UInt64} (iteration : IterationOrder BlockAndReceipts)
    (hget : s.store.blocks.get n = none) (hgap : s.store.gapBlocks n = none)
    (hcall : s.calls id = some ⟨.getByNumber n, .fetching [] [n]⟩) :
    Finishes (sharedStore db gaps chainId) s id (.getByNumber n)
      ((s.store.getByNumber source n).1.map fun block => [block])
      (s.store.getByNumber source n).2 := by
  cases hblock : source.collectBlock n with
  | ok block =>
    have hask : (StoreRequest.getByNumber n).ask source [n] = .ok [(n, block)] := by
      rw [StoreRequest.ask, hblock]
      rfl
    rw [getByNumber_of_source hget hgap hblock]
    exact finishes_of_answer hcall hask (finishes_single iteration (Function.update_self ..))
  | error e =>
    have hask : (StoreRequest.getByNumber n).ask source [n] = .error e := by
      rw [StoreRequest.ask, hblock]
      rfl
    have hatomic : s.store.getByNumber source n = (.error (.source e), s.store) := by
      simp only [getByNumber, hget, hgap, hblock]
    rw [hatomic]
    exact finishes_of_error hcall hask

/-- A batch that is not interrupted is the sequential one. -/
theorem finishes_batch (iteration : IterationOrder BlockAndReceipts) (heights : List UInt64)
    (hcall : s.calls id = none) :
    Finishes (sharedStore db gaps chainId) s id (.getByNumbers heights)
      (s.store.getByNumbers source iteration heights).1
      (s.store.getByNumbers source iteration heights).2 := by
  refine finishes_lookUp hcall rfl ?_
  rw [getByNumbers, fetch]
  split_ifs with hnone
  · exact finishes_index (Function.update_self ..)
  · cases hblocks : source.collectBlocks (s.store.lookupAll heights).uncachedHeights with
    | error e =>
      have hask : (StoreRequest.getByNumbers heights).ask source
          (s.store.lookupAll heights).uncachedHeights = .error e := by
        rw [StoreRequest.ask, hblocks]
        rfl
      exact finishes_of_error (Function.update_self ..) hask
    | ok blocks =>
      have hask : (StoreRequest.getByNumbers heights).ask source
          (s.store.lookupAll heights).uncachedHeights =
            .ok (blocks.map fun block => (block.number, block)) := by
        rw [StoreRequest.ask, hblocks]
        rfl
      -- Adding the fetched blocks in one loop is caching them in two.
      obtain ⟨haddBlocks, haddCached⟩ := foldl_addFetched (s.store.lookupAll heights) blocks
      refine finishes_of_answer (Function.update_self ..) hask ?_
      change Finishes _ _ id _ (takeCached heights
        (blocks.foldl addFetched (s.store.lookupAll heights)).cached) { s.store with
          blocks := (blocks.foldl addFetched (s.store.lookupAll heights)).blocks
          hashIndex := (iteration.order ((blocks.foldl addFetched
            (s.store.lookupAll heights)).cached.map (·.2))).foldl indexBlockInner
              s.store.hashIndex }
      rw [haddBlocks, haddCached]
      exact finishes_cache (Function.update_self ..)

/-- A call alone does what the atomic one does. -/
theorem finishes_call (iteration : IterationOrder BlockAndReceipts) (hcall : s.calls id = none) :
    Finishes (sharedStore db gaps chainId) s id request (request.result source iteration s.store)
      ((request.toOp source iteration).apply s.store) := by
  obtain ⟨n, block, blocks, rfl, hget, heq⟩ | ⟨n, block, rfl, hget, hgap, heq⟩ |
    ⟨n, rfl, hget, hgap, heq⟩ | ⟨heights, rfl, -⟩ := lookUp_cases (ε := ε) s.store request
  · have hatomic : s.store.getByNumber source n =
        (.ok block, { s.store with blocks := blocks }) := by
      simp only [getByNumber, hget]
    rw [StoreRequest.result, StoreRequest.toOp, StoreOp.apply, hatomic]
    exact finishes_lookUp hcall heq ⟨[], _, .nil, rfl, (Function.update_idem ..).symm⟩
  · have hatomic : s.store.getByNumber source n =
        (.ok block, (s.store.cacheBlock n block).indexBlock block) := by
      simp only [getByNumber, hget, hgap]
    rw [StoreRequest.result, StoreRequest.toOp, StoreOp.apply, hatomic]
    exact finishes_lookUp hcall heq (finishes_single iteration (Function.update_self ..))
  · exact finishes_lookUp hcall heq
      (finishes_source iteration hget hgap (Function.update_self ..))
  · exact finishes_batch iteration heights hcall

end Sequential

end SharedStore

/-- A call, with the source as it answers then, and the order in which it indexes blocks. -/
abbrev SequentialCall (ε : Type) :=
  StoreRequest × BlockSource ε × IterationOrder BlockAndReceipts

/-- The call of the atomic model. -/
def SequentialCall.toOp (call : SequentialCall ε) : StoreOp ε :=
  call.1.toOp call.2.1 call.2.2

/-- The calls have been made, and numbered by their places, so that the next number is free. -/
structure SharedStore.Performed (db : Option (B256 → Option UInt64)) (gaps : List BlockAndReceipts)
    (chainId : UInt64) (calls : List (SequentialCall ε)) (s : SharedStore ε) : Prop where
  reachable : Reachable (sharedStore db gaps chainId) s
  store : s.store = runOps (.new db gaps chainId) (calls.map SequentialCall.toOp)
  free : ∀ id, calls.length ≤ id → s.calls id = none
  returned : ∀ before request source iteration after,
    calls = before ++ (request, source, iteration) :: after →
    s.calls before.length = some ⟨request, .returned (request.result source iteration
      (runOps (.new db gaps chainId) (before.map SequentialCall.toOp)))⟩

/-- Another call may be performed. -/
theorem SharedStore.Performed.append {db : Option (B256 → Option UInt64)}
    {gaps : List BlockAndReceipts} {chainId : UInt64} {calls : List (SequentialCall ε)}
    {s : SharedStore ε} (h : Performed db gaps chainId calls s) (call : SequentialCall ε) :
    ∃ s', Performed db gaps chainId (calls ++ [call]) s' := by
  obtain ⟨request, source, iteration⟩ := call
  -- The next call is performed without interruption by others, under the next number.
  obtain ⟨ls, s', hrun, hstore', hcalls'⟩ := @finishes_call ε s calls.length request source db gaps
    chainId iteration (h.free calls.length le_rfl)
  refine ⟨s', h.reachable.run hrun, ?_, fun id hid => ?_,
    fun before request' source' iteration' after heq => ?_⟩
  · rw [hstore', h.store, List.map_append, runOps_append]
    rfl
  · rw [List.length_append, List.length_singleton] at hid
    rw [hcalls', Function.update_of_ne (by omega)]
    exact h.free id (by omega)
  -- The call is the new one, or one of those before.
  · rcases List.eq_nil_or_concat' after with rfl | ⟨after, last, rfl⟩
    · obtain ⟨rfl, hlast⟩ := List.append_inj' heq rfl
      cases hlast
      rw [hcalls', Function.update_self, h.store]
    · rw [← List.cons_append, ← List.append_assoc] at heq
      obtain ⟨rfl, -⟩ := List.append_inj' heq rfl
      have hne : before.length ≠
          (before ++ (request', source', iteration') :: after).length := by
        rw [List.length_append, List.length_cons]
        omega
      rw [hcalls', Function.update_of_ne hne]
      exact h.returned before request' source' iteration' after rfl

/-- **Atomic calls**: calls that are made one after the other, whatever the source answers then,
    leave the store and return what the calls of `StoreOp` do. -/
theorem sequential_calls (db : Option (B256 → Option UInt64)) (gaps : List BlockAndReceipts)
    (chainId : UInt64) (calls : List (SequentialCall ε)) :
    ∃ s : SharedStore ε, Reachable (sharedStore db gaps chainId) s ∧
      s.store = runOps (.new db gaps chainId) (calls.map SequentialCall.toOp) ∧
      ∀ before request source iteration after,
        calls = before ++ (request, source, iteration) :: after →
        s.calls before.length = some ⟨request, .returned (request.result source iteration
          (runOps (.new db gaps chainId) (before.map SequentialCall.toOp)))⟩ := by
  have hperformed : ∃ s : SharedStore ε, Performed db gaps chainId calls s := by
    induction calls using List.reverseRecOn with
    | nil =>
      refine ⟨⟨.new db gaps chainId, fun _ => none, [], []⟩, .init ⟨rfl, rfl, rfl, rfl⟩, rfl,
        fun _ _ => rfl, fun before request source iteration after h => ?_⟩
      exact absurd h (by simp)
    | append_singleton calls call ih =>
      obtain ⟨s, hs⟩ := ih
      exact hs.append call
  obtain ⟨s, hs⟩ := hperformed
  exact ⟨s, hs.reachable, hs.store, hs.returned⟩

end Nanoreth
