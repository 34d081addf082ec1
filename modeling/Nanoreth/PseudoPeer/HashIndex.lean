import Mathlib.Data.Finset.Range
import Nanoreth.PseudoPeer.Transparency

/-!
# Hash index of the block store

Whether the hash of a block that the store has just returned is resolved. The index holds the
hashes that were inserted last, up to its limit. Returning a block from the cache does not insert
its hash again, so that a block that is asked for again and again stays in the cache, while its
hash is evicted from the index.

The hash is resolved exactly when it was indexed, and fewer other hashes than the limit were
indexed since (`hash_resolved_iff`).
-/

namespace Nanoreth

open Lru Overwrite Transition

variable {ε : Type}

/-- The store after calls in turn. -/
def runOps (store : BlockStore) (ops : List (StoreOp ε)) : BlockStore :=
  ops.foldl (fun store op => op.apply store) store

/-- The pairs that calls insert into the index, in order. -/
def indexLog (store : BlockStore) : List (StoreOp ε) → List (B256 × UInt64)
  | [] => []
  | op :: ops => (op.indexed store).flatMap indexPairs ++ indexLog (op.apply store) ops

theorem runOps_append (store : BlockStore) (ops ops' : List (StoreOp ε)) :
    runOps store (ops ++ ops') = runOps (runOps store ops) ops' :=
  List.foldl_append

/-- What is indexed later depends on the store at that time. -/
theorem indexLog_append (store : BlockStore) (ops ops' : List (StoreOp ε)) :
    indexLog store (ops ++ ops') = indexLog store ops ++ indexLog (runOps store ops) ops' := by
  induction ops generalizing store with
  | nil => rfl
  | cons op ops ih =>
    rw [List.cons_append, indexLog, ih, indexLog, List.append_assoc]
    rfl

/-- The index is what the log of insertions gives. -/
theorem hashIndex_runOps (store : BlockStore) (ops : List (StoreOp ε)) :
    (runOps store ops).hashIndex = store.hashIndex.insertAll (indexLog store ops) := by
  induction ops generalizing store with
  | nil => rfl
  | cons op ops ih =>
    rw [runOps, List.foldl_cons, ← runOps, ih, op.hashIndex_apply, indexLog, LruBiMap.insertAll,
      LruBiMap.insertAll, LruBiMap.insertAll, List.foldl_append]

theorem dbBlockNumber_runOps (store : BlockStore) (ops : List (StoreOp ε)) :
    (runOps store ops).dbBlockNumber = store.dbBlockNumber := by
  induction ops generalizing store with
  | nil => rfl
  | cons op ops ih => exact (ih _).trans (op.dbBlockNumber_apply store)

/-- Requests reach a state of the store. -/
theorem reachable_runOps {store : BlockStore} {allowed : StoreEvent ε → Prop}
    {ops : List (StoreOp ε)} (h : ∀ op ∈ ops, allowed (.call op)) :
    Reachable (storeSystem store allowed) (runOps store ops) := by
  have hcalls : ∀ event ∈ ops.map StoreEvent.call, allowed event := List.forall_mem_map.2 h
  have hreachable := @reachable_foldl _ store _ _ hcalls
  rw [List.foldl_map] at hreachable
  exact hreachable

/-- The index holds the last hashes that were inserted. -/
theorem holds_runOps (gaps : List BlockAndReceipts) (chainId : UInt64) (ops : List (StoreOp ε)) :
    (runOps (.new none gaps chainId) ops).hashIndex.Holds BlockStore.hashIndexLimit
      (indexLog (.new none gaps chainId) ops) := by
  rw [hashIndex_runOps]
  exact (LruBiMap.holds_new (by decide)).insertAll _

/-- Without a database, a hash is resolved by the index. -/
theorem hashToNumber_eq_ok_iff {gaps : List BlockAndReceipts} {chainId : UInt64}
    {ops : List (StoreOp ε)} {hash : B256} {n : UInt64} :
    (runOps (.new none gaps chainId) ops).hashToNumber hash = .ok n ↔
      (runOps (.new none gaps chainId) ops).hashIndex.getByLeft hash = some n := by
  have hdb : (runOps (.new none gaps chainId) ops).dbBlockNumber = none :=
    dbBlockNumber_runOps _ ops
  rw [BlockStore.hashToNumber, hdb]
  cases (runOps (.new none gaps chainId) ops).hashIndex.getByLeft hash with
  | none => exact ⟨nofun, nofun⟩
  | some m => rw [Except.ok.injEq, Option.some.injEq]

/-- The hash of a block that was just returned is resolved to its number exactly when it was
    indexed, and fewer than a million other hashes were indexed since. -/
theorem hash_resolved_iff (chain : SourceChain) (gaps : List BlockAndReceipts) (chainId : UInt64)
    (ops : List (StoreOp ε)) (op : StoreOp ε) (n : UInt64) (block : BlockAndReceipts)
    (hgaps : ∀ block ∈ gaps, chain.IsBlock block.number block)
    (hops : ∀ op' ∈ ops ++ [op],
      op'.Supplies chain.IsBlock (testnetGapBlocks gaps chainId))
    (hserved : (n, block) ∈ op.served (runOps (.new none gaps chainId) ops)) :
    (runOps (.new none gaps chainId) (ops ++ [op])).hashToNumber block.hash = .ok n ↔
      ∃ before after,
        (indexLog (.new none gaps chainId) (ops ++ [op])).map (·.1) =
          before ++ block.hash :: after ∧
        block.hash ∉ after ∧ after.toFinset.card < BlockStore.hashIndexLimit := by
  -- Every block that is served is the one of the chain, so its hash is indexed with no other
  -- number.
  have hkeeps₀ : (BlockStore.new none gaps chainId).Keeps chain.IsBlock :=
    BlockStore.keeps_ofLimits _ _ _ fun n block => SourceChain.gaps_isBlock hgaps
  rw [hashToNumber_eq_ok_iff, ← (holds_runOps gaps chainId (ops ++ [op])).isSome_getByLeft_iff]
  have hindexed := SourceChain.indexed_of_reachable hkeeps₀ (SourceChain.indexed_ofLimits _ _ _ _ _)
    (reachable_runOps hops)
  rw [List.forall_mem_append, List.forall_mem_singleton] at hops
  obtain ⟨hkeeps, hgapBlocks, -⟩ := keeps_of_reachable hkeeps₀ (reachable_runOps hops.1)
  have hblock : block = chain.block n :=
    (StoreOp.spec hkeeps (hgapBlocks ▸ hops.2)).2.1 (n, block) hserved
  constructor
  · intro h
    rw [h]
    rfl
  · intro h
    obtain ⟨m, hm⟩ := Option.isSome_iff_exists.1 h
    rw [hm, chain.hash_injective n m (hblock ▸ hindexed _ m hm)]

/-- Block 3 is hardcoded. It is returned by two batches, with other calls in between, and its hash
    is indexed again by the second one. -/
theorem hash_resolved_batch :
    (runOps (.new none [countingBlock 3] testnetChainId)
      ([countingBatch [2, 3], .getByNumber countingSource 9] ++
        [countingBatch [9, 3]])).hashToNumber (countingBlock 3).hash = .ok 3 := by
  refine (hash_resolved_iff countingChain [countingBlock 3] testnetChainId
    [countingBatch [2, 3], .getByNumber countingSource 9] (countingBatch [9, 3]) 3
    (countingBlock 3) ?_ ?_ (by decide +kernel)).2
    ⟨[2, 1, 3, 2, 9, 8], [2, 9, 8], by decide +kernel, by decide, by decide⟩
  · rw [List.forall_mem_singleton]
    rfl
  · simp only [List.cons_append, List.nil_append, List.forall_mem_cons]
    exact ⟨supplies_countingBatch _ _, supplies_getByNumber _ _, supplies_countingBatch _ _,
      List.forall_mem_nil _⟩

/-! ## A block that is asked for again and again -/

/-- Fetches block 0, and then the blocks from 1 to `N`, going back to block 0 after each. -/
def revisits : ℕ → List (StoreOp Empty)
  | 0 => [.getByNumber countingSource 0]
  | N + 1 => revisits N ++
    [.getByNumber countingSource (UInt64.ofNat (N + 1)), .getByNumber countingSource 0]

/-- After these calls, block 0 is the first one in the cache, and the others are in the cache
    or not. -/
structure Revisited (N : ℕ) (store : BlockStore) : Prop where
  limit : store.blocks.limit = BlockStore.blockCacheLimit
  gaps : store.gapBlocks = fun _ => none
  head : ∃ rest, store.blocks.entries = (0, countingBlock 0) :: rest
  keys : ∀ entry ∈ store.blocks.entries, entry.1.toNat ≤ N

variable {N : ℕ} {store : BlockStore}

theorem map_indexPairs {n : UInt64} (hn : n.toNat = N + 1) :
    (indexPairs (countingBlock n)).map (·.1) =
      [BitVec.ofNat 256 (N + 1), BitVec.ofNat 256 N] := by
  have hpos : 0 < (countingBlock n).number :=
    UInt64.lt_iff_toNat_lt.2 (hn ▸ Nat.succ_pos N)
  rw [indexPairs, if_pos hpos]
  change [BitVec.ofNat 256 n.toNat, BitVec.ofNat 256 (n.toNat - 1)] = _
  rw [hn, Nat.add_sub_cancel]

/-- A block from the cache is returned, and not indexed. -/
theorem getByNumber_of_get (store : BlockStore) {n : UInt64} {block : BlockAndReceipts}
    {blocks : LruMap UInt64 BlockAndReceipts} (h : store.blocks.get n = some (block, blocks)) :
    let op := StoreOp.getByNumber countingSource n
    op.apply store = { store with blocks := blocks } ∧ op.served store = [(n, block)] ∧
      op.indexed store = [] := by
  have hget : store.getByNumber countingSource n =
      (.ok block, { store with blocks := blocks }) := by
    rw [BlockStore.getByNumber, h]
  simp only [StoreOp.apply, StoreOp.served, StoreOp.indexed, hget, h, and_self]

/-- Another block is not in the cache yet, so that it is fetched and indexed. -/
theorem Revisited.getByNumber_succ (h : Revisited N store) {n : UInt64} (hn : n.toNat = N + 1) :
    let op := StoreOp.getByNumber countingSource n
    op.apply store = (store.cacheBlock n (countingBlock n)).indexBlock (countingBlock n) ∧
      op.indexed store = [countingBlock n] := by
  have hnone : store.blocks.get n = none := by
    rw [LruMap.get, Option.map_eq_none_iff, List.find?_eq_none]
    intro entry hentry heq
    have hle := h.keys entry hentry
    rw [of_decide_eq_true heq, hn] at hle
    omega
  have hget : store.getByNumber countingSource n = (.ok (countingBlock n),
      (store.cacheBlock n (countingBlock n)).indexBlock (countingBlock n)) :=
    BlockStore.getByNumber_of_source hnone (by rw [h.gaps]) rfl
  simp only [StoreOp.apply, StoreOp.indexed, hget, hnone, and_self]

/-- The block that is fetched goes before block 0 in the cache, which is found still. -/
theorem Revisited.get_zero (h : Revisited N store) {n : UInt64} (hn : n.toNat = N + 1) :
    ∃ blocks, (store.blocks.insert n (countingBlock n)).get 0 = some (countingBlock 0, blocks) := by
  have hne : n ≠ 0 := by
    rintro rfl
    exact Nat.succ_ne_zero N hn.symm
  obtain ⟨rest, hrest⟩ := h.head
  have hentries : (store.blocks.insert n (countingBlock n)).entries =
      (n, countingBlock n) :: (0, countingBlock 0) ::
        (rest.filter fun entry => entry.1 ≠ n).take 99998 := by
    rw [LruMap.insert, LruMap.promote, hrest, h.limit, List.filter_cons,
      if_pos (by simpa using Ne.symm hne)]
    rfl
  rw [LruMap.get, hentries, List.find?_cons_of_neg (by simpa using hne)]
  exact ⟨_, rfl⟩

/-- Going on to the next block, and back to block 0, indexes the next block only. -/
theorem Revisited.step (h : Revisited N store) {n : UInt64} (hn : n.toNat = N + 1) :
    Revisited (N + 1)
      (runOps store [.getByNumber countingSource n, .getByNumber countingSource 0]) ∧
    indexLog store [.getByNumber countingSource n, .getByNumber countingSource 0] =
      indexPairs (countingBlock n) := by
  obtain ⟨happly, hindexed⟩ := h.getByNumber_succ hn
  obtain ⟨blocks, hget⟩ := h.get_zero hn
  obtain ⟨happly', -, hindexed'⟩ := getByNumber_of_get
    ((store.cacheBlock n (countingBlock n)).indexBlock (countingBlock n)) hget
  constructor
  · rw [runOps, List.foldl_cons, List.foldl_cons, List.foldl_nil, happly, happly']
    obtain ⟨-, rfl⟩ := LruMap.get_eq_some hget
    refine ⟨h.limit, h.gaps, ⟨_, rfl⟩, fun entry hentry => ?_⟩
    rcases LruMap.mem_insert (LruMap.mem_of_get hget hentry) with rfl | hentry
    · exact hn.le
    · exact (h.keys entry hentry).trans (Nat.le_succ N)
  · rw [indexLog, indexLog, indexLog, hindexed, happly, hindexed']
    simp

/-- The hashes that are indexed after block 0 was for the last time. -/
def laterHashes : ℕ → List B256
  | 0 => []
  | N + 1 => laterHashes N ++ [BitVec.ofNat 256 (N + 2), BitVec.ofNat 256 (N + 1)]

/-- After the requests, the first block is still cached, but not its hash. -/
theorem revisited_revisits (hN : N < 2 ^ 64) :
    Revisited N (runOps (.new none [] mainnetChainId) (revisits N)) := by
  induction N with
  | zero => exact ⟨rfl, rfl, ⟨[], rfl⟩, by decide⟩
  | succ N ih =>
    rw [revisits, runOps_append]
    exact ((ih (by omega)).step (UInt64.toNat_ofNat_of_lt' hN)).1

/-- The hash of block 0 is indexed twice: by itself, and by block 1. -/
theorem indexLog_revisits (hN : N + 1 < 2 ^ 64) :
    (indexLog (.new none [] mainnetChainId) (revisits (N + 1))).map (·.1) =
      [0, 1] ++ (countingBlock 0).hash :: laterHashes N := by
  induction N with
  | zero => rfl
  | succ N ih =>
    rw [revisits, indexLog_append, List.map_append, ih (by omega),
      ((revisited_revisits (by omega)).step (UInt64.toNat_ofNat_of_lt' hN)).2,
      map_indexPairs (UInt64.toNat_ofNat_of_lt' hN), laterHashes]
    rfl

theorem ofNat_inj {m n : ℕ} (hm : m < 2 ^ 64) (hn : n < 2 ^ 64)
    (h : BitVec.ofNat 256 m = BitVec.ofNat 256 n) : m = n := by
  have hlt : (2 : ℕ) ^ 64 < 2 ^ 256 := by decide
  have htoNat := congrArg BitVec.toNat h
  rwa [BitVec.toNat_ofNat, BitVec.toNat_ofNat, Nat.mod_eq_of_lt (hm.trans hlt),
    Nat.mod_eq_of_lt (hn.trans hlt)] at htoNat

theorem hash_zero_notMem (hN : N + 1 < 2 ^ 64) :
    (countingBlock 0).hash ∉ laterHashes N := by
  induction N with
  | zero => exact List.not_mem_nil
  | succ N ih =>
    rw [laterHashes, List.mem_append, not_or]
    refine ⟨ih (by omega), fun hmem => ?_⟩
    change BitVec.ofNat 256 0 ∈ _ at hmem
    rcases List.mem_cons.1 hmem with heq | hmem
    · exact absurd (ofNat_inj (by decide) hN heq) (by omega)
    · exact absurd (ofNat_inj (by decide) (by omega) (List.mem_singleton.1 hmem)) (by omega)

theorem mem_laterHashes {i : ℕ} (hi : i < N + 2) :
    BitVec.ofNat 256 (i + 1) ∈ laterHashes (N + 1) := by
  induction N with
  | zero =>
    obtain rfl | rfl : i = 0 ∨ i = 1 := by omega
    · exact List.mem_cons_of_mem _ List.mem_cons_self
    · exact List.mem_cons_self
  | succ N ih =>
    rw [laterHashes, List.mem_append]
    by_cases hlast : i = N + 2
    · rw [hlast]
      exact .inr List.mem_cons_self
    · exact .inl (ih (by omega))

/-- As many hashes as blocks that were visited are indexed after that of block 0. -/
theorem card_laterHashes (hN : N + 2 < 2 ^ 64) :
    N + 2 ≤ (laterHashes (N + 1)).toFinset.card := by
  have hsubset : (Finset.range (N + 2)).image (fun i => BitVec.ofNat 256 (i + 1)) ⊆
      (laterHashes (N + 1)).toFinset := by
    intro hash hhash
    obtain ⟨i, hi, rfl⟩ := Finset.mem_image.1 hhash
    exact List.mem_toFinset.2 (mem_laterHashes (Finset.mem_range.1 hi))
  have hcard : ((Finset.range (N + 2)).image fun i => BitVec.ofNat 256 (i + 1)).card = N + 2 := by
    rw [Finset.card_image_of_injOn, Finset.card_range]
    intro i hi j hj heq
    have hi' := Finset.mem_range.1 hi
    have hj' := Finset.mem_range.1 hj
    exact Nat.succ_injective (ofNat_inj (by omega) (by omega) heq)
  exact hcard ▸ Finset.card_le_card hsubset

/-- All blocks come from the chain. -/
theorem supplies_revisits (N : ℕ) : ∀ op ∈ revisits N,
    op.Supplies countingChain.IsBlock (testnetGapBlocks [] mainnetChainId) := by
  induction N with
  | zero =>
    rw [revisits, List.forall_mem_singleton]
    exact supplies_getByNumber _ 0
  | succ N ih =>
    rw [revisits, List.forall_mem_append, List.forall_mem_cons, List.forall_mem_singleton]
    exact ⟨ih, supplies_getByNumber _ _, supplies_getByNumber _ 0⟩

/-- Block 0 is returned from the cache. -/
theorem served_revisits (hN : N < 2 ^ 64) :
    let store := runOps (.new none [] mainnetChainId) (revisits N)
    let op := StoreOp.getByNumber countingSource 0
    (0, countingBlock 0) ∈ op.served store ∧ op.indexed store = [] := by
  obtain ⟨rest, hrest⟩ := (revisited_revisits hN).head
  have hget : ∃ blocks, (runOps (.new none [] mainnetChainId) (revisits N)).blocks.get 0 =
      some (countingBlock 0, blocks) := by
    rw [LruMap.get, hrest]
    exact ⟨_, rfl⟩
  obtain ⟨blocks, hget⟩ := hget
  obtain ⟨-, hserved, hindexed⟩ := getByNumber_of_get _ hget
  exact ⟨hserved ▸ List.mem_cons_self, hindexed⟩

/-- Once enough other blocks were fetched, the hash of block 0 is not resolved. -/
theorem hashToNumber_revisits (hN : N + 2 < 2 ^ 64) (hlimit : BlockStore.hashIndexLimit ≤ N + 2)
    (n : UInt64) :
    (runOps (.new none [] mainnetChainId)
      (revisits (N + 2) ++ [.getByNumber countingSource 0])).hashToNumber (countingBlock 0).hash ≠
        .ok n := by
  rw [Ne, hashToNumber_eq_ok_iff]
  intro hfound
  -- The last request finds its block in the cache, and indexes nothing.
  have hlog : indexLog (.new none [] mainnetChainId)
      (revisits (N + 2) ++ [.getByNumber countingSource 0]) =
        indexLog (.new none [] mainnetChainId) (revisits (N + 2)) := by
    rw [indexLog_append, indexLog, (served_revisits hN).2]
    exact List.append_nil _
  have hholds := holds_runOps [] mainnetChainId
    (revisits (N + 2) ++ [.getByNumber countingSource 0])
  have hmem : (countingBlock 0).hash ∈ (runOps (.new none [] mainnetChainId)
      (revisits (N + 2) ++ [.getByNumber countingSource 0])).hashIndex.lruKeys.keys := by
    by_contra hnot
    rw [LruBiMap.getByLeft, hholds.leftToRight, if_neg hnot] at hfound
    cases hfound
  rw [hholds.lruKeys.keys_eq, hlog, indexLog_revisits hN,
    mem_take_split_iff (hash_zero_notMem hN)] at hmem
  have := card_laterHashes hN
  omega

/-- Once a million other blocks were fetched, block 0 is returned from the cache, and its hash is
    not resolved. -/
theorem hash_evicted :
    (∀ op ∈ revisits 1000000 ++ [.getByNumber countingSource 0],
      op.Supplies countingChain.IsBlock (testnetGapBlocks [] mainnetChainId)) ∧
    (0, countingBlock 0) ∈ StoreOp.served
      (runOps (.new none [] mainnetChainId) (revisits 1000000)) (.getByNumber countingSource 0) ∧
    ∀ n, (runOps (.new none [] mainnetChainId)
      (revisits 1000000 ++ [.getByNumber countingSource 0])).hashToNumber (countingBlock 0).hash ≠
        .ok n := by
  refine ⟨?_, (served_revisits (by decide)).1, hashToNumber_revisits (by decide) (by decide)⟩
  rw [List.forall_mem_append, List.forall_mem_singleton]
  exact ⟨supplies_revisits 1000000, fun block _ hblock => (Except.ok.inj hblock).symm⟩

end Nanoreth
