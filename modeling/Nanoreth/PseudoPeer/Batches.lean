import Nanoreth.PseudoPeer.Transparency

/-!
# Batches of the block store

Whether the store returns the same blocks in a batch (`getByNumbers`) as one by one
(`getByNumber`). A batch is looked for in the cache and among the hardcoded blocks, height by
height; the source is asked for the rest, and its blocks are added under their own numbers. The
blocks are then *taken out* of those that were found, in the order of the heights.

* A height that is repeated has been taken already, so the batch fails
  (`nodup_of_takeCached`), even if all its blocks are cached.
* A height that is in the cache may be missed in a batch: hardcoded blocks are cached as they are
  found, and may evict it before its turn. The source is then asked for it.
* A block that the source answers with is added under its own number, also if it was asked for
  another height, and replaces what was found for that number.

So the batch has the blocks that are returned one by one exactly if the heights are distinct and
it is supplied with each of them: the last block of that number among the answers of the source, or
if there is none, what is in the cache at its turn or hardcoded (`getByNumbers_eq_ok_iff`). This is
so for distinct heights if those that are missed are hardcoded, or the source has them with the
number of their height.
-/

namespace Nanoreth

open Lru Overwrite

variable {ε : Type}

/-- The source returns the blocks of a batch in order, if it has all of them. -/
def BlockSource.CollectsAll (source : BlockSource ε) : Prop :=
  ∀ heights blocks, heights.mapM source.collectBlock = .ok blocks →
    source.collectBlocks heights = .ok blocks

namespace BlockStore

/-- A height is not in the cache when its turn in a batch comes. -/
def Missed (store : BlockStore) (heights : List UInt64) (h : UInt64) : Prop :=
  ∃ before after, heights = before ++ h :: after ∧ (store.lookupAll before).blocks.get h = none

/-- The block is hardcoded, or else the source has it, with the number of the height. -/
def Offers (source : BlockSource ε) (store : BlockStore) (h : UInt64) (block : BlockAndReceipts) :
    Prop :=
  store.gapBlocks h = some block ∨
    store.gapBlocks h = none ∧ source.collectBlock h = .ok block ∧ block.number = h

/-- What the source answers for the heights that a batch has not found. It is not asked if there
    are none. -/
def answer (source : BlockSource ε) (heights : List UInt64) : Except ε (List BlockAndReceipts) :=
  if heights = [] then .ok [] else source.collectBlocks heights

/-- A batch is supplied with a block for a height, given what the source has answered: the last
    block with that number is the one, or there is none, and the height is in the cache at its turn
    or hardcoded as the block. -/
def Supplied (store : BlockStore) (heights : List UInt64) (fetched : List BlockAndReceipts)
    (h : UInt64) (block : BlockAndReceipts) : Prop :=
  lastEntry (fetched.map fun b => (b.number, b)) h = some block ∨
    lastEntry (fetched.map fun b => (b.number, b)) h = none ∧
      (¬ store.Missed heights h ∨ store.gapBlocks h = some block)

/-! ## Taking the blocks out -/

variable {cached : List (UInt64 × BlockAndReceipts)} {heights : List UInt64}
  {block : UInt64 → BlockAndReceipts}

theorem mem_keys_insertCached {k h : UInt64} {b : BlockAndReceipts} :
    k ∈ (insertCached cached h b).map (·.1) ↔ k = h ∨ k ∈ cached.map (·.1) := by
  rw [insertCached, List.map_cons, List.mem_cons]
  refine or_congr_right' fun hne => ?_
  simp only [List.mem_map, List.mem_filter]
  constructor
  · rintro ⟨entry, ⟨hmem, -⟩, rfl⟩
    exact ⟨entry, hmem, rfl⟩
  · rintro ⟨entry, hmem, rfl⟩
    exact ⟨entry, ⟨hmem, by simpa using hne⟩, rfl⟩

/-- Heights whose blocks are taken out were found, and are not taken again. -/
theorem nodup_of_takeCached {blocks : List BlockAndReceipts}
    (h : takeCached (ε := ε) heights cached = .ok blocks) :
    heights.Nodup ∧ ∀ k ∈ heights, k ∈ cached.map (·.1) := by
  induction heights generalizing cached blocks with
  | nil => exact ⟨List.nodup_nil, fun _ hk => absurd hk List.not_mem_nil⟩
  | cons height heights ih =>
    rw [takeCached] at h
    split at h
    · cases h
    · rename_i key b hfind
      obtain ⟨rest, hrest, -⟩ := Partial.except_bind_eq_ok.1 h
      obtain ⟨hnodup, hmem⟩ := ih hrest
      obtain rfl : key = height := by simpa using List.find?_some hfind
      constructor
      · refine List.nodup_cons.2 ⟨fun hheight => ?_, hnodup⟩
        -- What is left after the height was taken has no entry for it.
        obtain ⟨entry, hentry, heq⟩ := List.mem_map.1 (hmem key hheight)
        exact absurd heq (by simpa using (List.mem_filter.1 hentry).2)
      · rw [List.forall_mem_cons]
        refine ⟨List.mem_map.2 ⟨_, List.mem_of_find?_eq_some hfind, rfl⟩, fun k hk => ?_⟩
        obtain ⟨entry, hentry, heq⟩ := List.mem_map.1 (hmem k hk)
        exact List.mem_map.2 ⟨entry, List.mem_of_mem_filter hentry, heq⟩

/-- Distinct heights that were found are taken out. -/
theorem exists_takeCached (hnodup : heights.Nodup)
    (hfound : ∀ k ∈ heights, k ∈ cached.map (·.1)) :
    ∃ blocks, takeCached (ε := ε) heights cached = .ok blocks := by
  induction heights generalizing cached with
  | nil => exact ⟨[], rfl⟩
  | cons height heights ih =>
    rw [List.nodup_cons] at hnodup
    rw [List.forall_mem_cons] at hfound
    have hrest : ∀ k ∈ heights, k ∈ (cached.filter fun entry => entry.1 ≠ height).map (·.1) := by
      intro k hk
      obtain ⟨entry, hentry, rfl⟩ := List.mem_map.1 (hfound.2 k hk)
      have hne : entry.1 ≠ height := fun heq => hnodup.1 (heq ▸ hk)
      exact List.mem_map.2 ⟨entry, List.mem_filter.2 ⟨hentry, by simpa using hne⟩, rfl⟩
    obtain ⟨blocks, hblocks⟩ := ih hnodup.2 hrest
    obtain ⟨entry, hentry, heq⟩ := List.mem_map.1 hfound.1
    obtain ⟨found, hfind⟩ := Option.isSome_iff_exists.1
      (List.find?_isSome (p := fun entry => decide (entry.1 = height)).2
        ⟨entry, hentry, by simpa using heq⟩)
    refine ⟨found.2 :: blocks, ?_⟩
    rw [takeCached, hfind]
    simp only [hblocks]
    rfl

/-- Every height has its block in the result. -/
theorem length_takeCached {blocks : List BlockAndReceipts}
    (h : takeCached (ε := ε) heights cached = .ok blocks) : blocks.length = heights.length := by
  induction heights generalizing cached blocks with
  | nil =>
    cases h
    rfl
  | cons height heights ih =>
    rw [takeCached] at h
    split at h
    · cases h
    · obtain ⟨rest, hrest, h⟩ := Partial.except_bind_eq_ok.1 h
      cases h
      rw [List.length_cons, List.length_cons, ih hrest]

theorem eq_map_of_zip {blocks : List BlockAndReceipts} (hlength : blocks.length = heights.length)
    (h : ∀ entry ∈ heights.zip blocks, entry.2 = block entry.1) : blocks = heights.map block := by
  calc
    blocks = (heights.zip blocks).map (·.2) := (List.map_snd_zip hlength.le).symm
    _ = (heights.zip blocks).map (block ∘ Prod.fst) := List.map_congr_left h
    _ = heights.map block := by rw [← List.map_map, List.map_fst_zip hlength.ge]

/-- Distinct heights that were found are returned in order. -/
theorem takeCached_eq_ok (hnodup : heights.Nodup)
    (hfound : ∀ k ∈ heights, k ∈ cached.map (·.1))
    (hblock : ∀ entry ∈ cached, entry.2 = block entry.1) :
    takeCached (ε := ε) heights cached = .ok (heights.map block) := by
  obtain ⟨blocks, hblocks⟩ := exists_takeCached (ε := ε) hnodup hfound
  have hzip := forall_takeCached (P := fun h b => b = block h) hblock hblocks
  rw [hblocks, eq_map_of_zip (length_takeCached hblocks) hzip]

/-! ## Finding the blocks -/

/-- What is known in a batch, after some of its heights were looked for: the cache and those that
    were found have the given blocks only, and the source has those that were not. -/
structure Batch.Collects (source : BlockSource ε) (heights looked : List UInt64)
    (block : UInt64 → BlockAndReceipts) (batch : Batch) : Prop where
  blocks : ∀ h ∈ heights, ∀ b, batch.blocks.value h = some b → b = block h
  cached : ∀ entry ∈ batch.cached, entry.2 = block entry.1
  found : ∀ h ∈ looked, h ∈ batch.cached.map (·.1) ∨ h ∈ batch.uncachedHeights
  uncached : ∀ h ∈ batch.uncachedHeights,
    source.collectBlock h = .ok (block h) ∧ (block h).number = h

variable {source : BlockSource ε} {store : BlockStore} {looked : List UInt64} {batch : Batch}

/-- A height that was looked up is cached, or uncached. -/
theorem Batch.Collects.found_insertCached (hbatch : batch.Collects source heights looked block)
    (h : UInt64) (b : BlockAndReceipts) :
    ∀ k ∈ looked ++ [h], k ∈ (insertCached batch.cached h b).map (·.1) ∨
      k ∈ batch.uncachedHeights := by
  intro k hk
  rw [mem_keys_insertCached, or_assoc]
  rcases List.mem_append.1 hk with hk | hk
  · exact .inr (hbatch.found k hk)
  · exact .inl (List.mem_singleton.1 hk)

/-- A lookup keeps what is known of the batch. -/
theorem Batch.Collects.lookup {h : UInt64} (hbatch : batch.Collects source heights looked block)
    (hmem : h ∈ heights)
    (hmissed : batch.blocks.get h = none → store.Offers source h (block h)) :
    (BlockStore.lookup store.gapBlocks batch h).Collects source heights (looked ++ [h]) block := by
  unfold BlockStore.lookup
  split
  -- The block is in the cache.
  · rename_i b blocks hget
    obtain ⟨hvalue, hblocks⟩ := LruMap.value_of_get hget
    refine ⟨?_, ?_, hbatch.found_insertCached h b, hbatch.uncached⟩
    · simp only [hblocks]
      exact hbatch.blocks
    · exact forall_insertCached (P := fun h b => b = block h) hbatch.cached
        (hbatch.blocks h hmem b hvalue)
  -- It is not: then it is a gap block, or left for the source.
  · rename_i hget
    rcases hmissed hget with hgap | ⟨hgap, hoffer⟩
    · simp only [hgap]
      refine ⟨fun k hk b hvalue => ?_, ?_, hbatch.found_insertCached h _, hbatch.uncached⟩
      · rcases LruMap.value_insert hvalue with heq | hvalue
        · cases heq
          rfl
        · exact hbatch.blocks k hk b hvalue
      · exact forall_insertCached (P := fun h b => b = block h) hbatch.cached rfl
    · simp only [hgap]
      refine ⟨hbatch.blocks, hbatch.cached, fun k hk => ?_, fun k hk => ?_⟩
      · rw [List.mem_append, ← or_assoc]
        exact (List.mem_append.1 hk).imp_left (hbatch.found k)
      · rcases List.mem_append.1 hk with hk | hk
        · exact hbatch.uncached k hk
        · exact List.mem_singleton.1 hk ▸ hoffer

/-- What is returned for a height singly is in the cache, if the height is. -/
theorem getByNumber_of_value {h : UInt64} {b : BlockAndReceipts}
    (hvalue : store.blocks.value h = some b) : (store.getByNumber source h).1 = .ok b := by
  obtain ⟨entry, hfind, rfl⟩ := Option.map_eq_some_iff.1 hvalue
  rw [getByNumber, LruMap.get, hfind]
  rfl

/-- After all lookups, every height is cached or can be fetched. -/
theorem collects_lookupAll
    (hone : ∀ h ∈ heights, (store.getByNumber source h).1 = .ok (block h))
    (hmissed : ∀ h, store.Missed heights h → store.Offers source h (block h)) :
    (store.lookupAll heights).Collects source heights heights block := by
  -- By induction over the heights that were looked for, which are the first ones of the batch.
  suffices ∀ looked rest, heights = looked ++ rest →
      (store.lookupAll looked).Collects source heights looked block from
    this heights [] (List.append_nil _).symm
  intro looked
  induction looked using List.reverseRecOn with
  | nil =>
    refine fun _ _ => ⟨fun h hmem b hvalue => ?_, ?_, ?_, ?_⟩
    · exact Except.ok.inj ((getByNumber_of_value hvalue).symm.trans (hone h hmem))
    all_goals exact fun _ hmem => absurd hmem List.not_mem_nil
  | append_singleton looked h ih =>
    intro rest hheights
    rw [List.append_assoc] at hheights
    have hstep : store.lookupAll (looked ++ [h]) =
        BlockStore.lookup store.gapBlocks (store.lookupAll looked) h := by
      rw [lookupAll, List.foldl_append]
      rfl
    rw [hstep]
    refine (ih _ hheights).lookup (hheights ▸ by simp) fun hget => ?_
    exact hmissed h ⟨looked, rest, hheights, hget⟩

/-! ## Fetching the rest -/

/-- Adding the fetched blocks. -/
theorem foldl_addFetched {hs : List UInt64} (hnumber : ∀ h ∈ hs, (block h).number = h)
    (hcached : ∀ entry ∈ batch.cached, entry.2 = block entry.1) :
    let batch' := (hs.map block).foldl addFetched batch
    (∀ entry ∈ batch'.cached, entry.2 = block entry.1) ∧
      ∀ k, k ∈ batch.cached.map (·.1) ∨ k ∈ hs → k ∈ batch'.cached.map (·.1) := by
  induction hs generalizing batch with
  | nil => exact ⟨hcached, fun k hk => hk.resolve_right List.not_mem_nil⟩
  | cons h hs ih =>
    rw [List.forall_mem_cons] at hnumber
    have hadd : ∀ entry ∈ (addFetched batch (block h)).cached, entry.2 = block entry.1 :=
      forall_insertCached (P := fun h b => b = block h) hcached (by rw [hnumber.1])
    obtain ⟨hcached', hkeys⟩ := ih hnumber.2 hadd
    refine ⟨hcached', fun k hk => hkeys k ?_⟩
    rw [addFetched, mem_keys_insertCached, hnumber.1]
    rw [List.mem_cons] at hk
    tauto

/-- The fetch finds the blocks of all heights that were looked up. -/
theorem Batch.Collects.fetch (hsource : source.CollectsAll)
    (hbatch : batch.Collects source heights looked block) :
    ∃ batch', BlockStore.fetch source batch = .ok batch' ∧
      (∀ entry ∈ batch'.cached, entry.2 = block entry.1) ∧
      ∀ h ∈ looked, h ∈ batch'.cached.map (·.1) := by
  obtain ⟨hcached, hkeys⟩ :=
    foldl_addFetched (fun h hmem => (hbatch.uncached h hmem).2) hbatch.cached
  refine ⟨_, ?_, hcached, fun h hmem => hkeys h (hbatch.found h hmem)⟩
  rw [BlockStore.fetch]
  split_ifs with hnone
  · rw [hnone]
    rfl
  · have hcollected := hsource _ _
      (Partial.mapM_eq_ok fun h hmem => (hbatch.uncached h hmem).1)
    rw [hcollected]
    rfl

/-! ## Batches -/

/-- A batch returns blocks exactly when its heights are distinct, the source answers, and every
    height is found. -/
theorem exists_getByNumbers_iff {iteration : IterationOrder BlockAndReceipts} :
    (∃ blocks, (store.getByNumbers source iteration heights).1 = .ok blocks) ↔
      heights.Nodup ∧ ∃ batch, fetch source (store.lookupAll heights) = .ok batch ∧
        ∀ h ∈ heights, h ∈ batch.cached.map (·.1) := by
  rw [getByNumbers]
  cases hfetch : fetch source (store.lookupAll heights) with
  | error e => simp
  | ok batch =>
    simp only [Except.ok.injEq, exists_eq_left']
    constructor
    · rintro ⟨blocks, hblocks⟩
      exact nodup_of_takeCached hblocks
    · exact fun h => exists_takeCached h.1 h.2

/-- A batch returns a block for every height. -/
theorem length_getByNumbers {iteration : IterationOrder BlockAndReceipts}
    {blocks : List BlockAndReceipts}
    (h : (store.getByNumbers source iteration heights).1 = .ok blocks) :
    blocks.length = heights.length := by
  rw [getByNumbers] at h
  split at h
  · cases h
  · exact length_takeCached h

/-- A batch returns blocks for distinct heights only. -/
theorem nodup_of_getByNumbers {iteration : IterationOrder BlockAndReceipts}
    {blocks : List BlockAndReceipts}
    (h : (store.getByNumbers source iteration heights).1 = .ok blocks) : heights.Nodup :=
  (exists_getByNumbers_iff.1 ⟨blocks, h⟩).1

/-- A batch of distinct heights returns the blocks that are returned one by one. -/
theorem getByNumbers_eq_ok (iteration : IterationOrder BlockAndReceipts)
    (hsource : source.CollectsAll)
    (hone : ∀ h ∈ heights, (store.getByNumber source h).1 = .ok (block h))
    (hmissed : ∀ h, store.Missed heights h → store.Offers source h (block h))
    (hnodup : heights.Nodup) :
    (store.getByNumbers source iteration heights).1 = .ok (heights.map block) := by
  obtain ⟨batch, hbatch, hblock, hfound⟩ := (collects_lookupAll hone hmissed).fetch hsource
  rw [getByNumbers, hbatch]
  exact takeCached_eq_ok hnodup hfound hblock

/-! ## What a batch is supplied with -/

/-- The block that a batch has for a height. -/
def found (cached : List (UInt64 × BlockAndReceipts)) (h : UInt64) : Option BlockAndReceipts :=
  (cached.find? fun entry => entry.1 = h).map (·.2)

/-- What is found after a block was cached. -/
theorem found_insertCached (cached : List (UInt64 × BlockAndReceipts)) (h : UInt64)
    (b : BlockAndReceipts) (k : UInt64) :
    found (insertCached cached h b) k = if h = k then some b else found cached k := by
  split_ifs with hk
  · rw [found, insertCached, List.find?_cons_of_pos (by simpa using hk)]
    rfl
  · rw [found, found]
    exact congrArg _ (LruMap.find_promote_of_ne cached b hk)

theorem found_filter_of_ne (cached : List (UInt64 × BlockAndReceipts)) {h k : UInt64}
    (hne : k ≠ h) : found (cached.filter fun entry => entry.1 ≠ h) k = found cached k := by
  rw [found, found, List.find?_filter]
  congr 2
  funext entry
  by_cases hk : entry.1 = k
  · simp [hk, hne]
  · simp [hk]

/-- The blocks are taken out exactly if the heights are distinct, and these are the blocks that
    were found. -/
theorem takeCached_eq_ok_iff {blocks : List BlockAndReceipts} :
    takeCached (ε := ε) heights cached = .ok blocks ↔
      heights.Nodup ∧ heights.map (found cached) = blocks.map some := by
  induction heights generalizing cached blocks with
  | nil =>
    rw [takeCached, List.map_nil, Except.ok.injEq, and_iff_right List.nodup_nil]
    exact eq_comm.trans (eq_comm.trans List.map_eq_nil_iff).symm
  | cons h heights ih =>
    rw [takeCached, List.nodup_cons, List.map_cons]
    cases hfind : cached.find? fun entry => entry.1 = h with
    | none =>
      have hfound : found cached h = none := by rw [found, hfind, Option.map_none]
      rw [hfound]
      cases blocks with
      | nil => simp
      | cons b blocks => simp
    | some entry =>
      have hfound : found cached h = some entry.2 := by rw [found, hfind, Option.map_some]
      have hrest : h ∉ heights →
          heights.map (found (cached.filter fun entry => entry.1 ≠ h)) =
            heights.map (found cached) := fun hnot =>
        List.map_congr_left fun k hk => found_filter_of_ne cached fun heq => hnot (heq ▸ hk)
      rw [hfound]
      constructor
      · intro htake
        obtain ⟨rest, htake', hblocks⟩ := Partial.except_bind_eq_ok.1 htake
        cases hblocks
        obtain ⟨hnodup, hmap⟩ := ih.1 htake'
        -- What is left after the height was taken has no entry for it.
        have hnot : h ∉ heights := by
          intro hmem
          obtain ⟨entry', hentry', rfl⟩ := List.mem_map.1 ((nodup_of_takeCached htake').2 h hmem)
          simpa using (List.mem_filter.1 hentry').2
        rw [hrest hnot] at hmap
        exact ⟨⟨hnot, hnodup⟩, by rw [hmap, List.map_cons]⟩
      · rintro ⟨⟨hnot, hnodup⟩, hmap⟩
        cases blocks with
        | nil => cases hmap
        | cons b blocks =>
          obtain ⟨hb, hmap⟩ := List.cons.inj hmap
          have htake := ih.2 ⟨hnodup, (hrest hnot).trans hmap⟩
          cases hb
          exact Partial.except_bind_eq_ok.2 ⟨blocks, htake, rfl⟩

/-- The blocks of the source replace those that were found. -/
theorem found_foldl_addFetched (batch : Batch) (fetched : List BlockAndReceipts) (h : UInt64) :
    found (fetched.foldl addFetched batch).cached h =
      (lastEntry (fetched.map fun b => (b.number, b)) h).or (found batch.cached h) := by
  induction fetched generalizing batch with
  | nil => rfl
  | cons b fetched ih =>
    have hadd : found (addFetched batch b).cached h =
        if b.number = h then some b else found batch.cached h := found_insertCached ..
    rw [List.foldl_cons, ih, hadd, List.map_cons, lastEntry_cons, Option.or_assoc]
    split_ifs <;> rfl

/-- The fetch succeeds if the source does. -/
theorem fetch_eq_ok_iff {batch' : Batch} :
    fetch source batch = .ok batch' ↔ ∃ fetched,
      answer source batch.uncachedHeights = .ok fetched ∧
        batch' = fetched.foldl addFetched batch := by
  rw [fetch, answer]
  split_ifs with hnone
  · constructor
    · rintro ⟨⟩
      exact ⟨[], rfl, rfl⟩
    · rintro ⟨fetched, hfetched, rfl⟩
      cases hfetched
      rfl
  · rw [Partial.except_bind_eq_ok]
    refine exists_congr fun fetched => and_congr_right' ?_
    exact ⟨fun h => (Except.ok.inj h).symm, fun h => congrArg Except.ok h.symm⟩

/-- Whether a height is missed is decided at its turn. -/
theorem missed_iff {before after : List UInt64} {h : UInt64}
    (hnodup : (before ++ h :: after).Nodup) :
    store.Missed (before ++ h :: after) h ↔ (store.lookupAll before).blocks.get h = none := by
  constructor
  · rintro ⟨before', after', heq, hget⟩
    have hnot : h ∉ before ∧ h ∉ after := by
      simpa using (List.nodup_cons.1 (List.perm_middle.nodup_iff.1 hnodup)).1
    obtain ⟨rfl, -, -⟩ := (List.append_cons_inj_of_notMem hnot.1 hnot.2).1 heq
    exact hget
  · exact fun hget => ⟨before, after, rfl, hget⟩

/-- What a batch of distinct heights has found after some of them were looked for, if `block` are
    the blocks that are returned one by one. -/
structure Batch.Finds (store : BlockStore) (heights looked : List UInt64)
    (block : UInt64 → BlockAndReceipts) (batch : Batch) : Prop where
  blocks : ∀ h ∈ heights, h ∉ looked → ∀ b, batch.blocks.value h = some b → b = block h
  hit : ∀ h ∈ looked, ¬ store.Missed heights h → found batch.cached h = some (block h)
  missed : ∀ h ∈ looked, store.Missed heights h → found batch.cached h = store.gapBlocks h
  rest : ∀ h, h ∉ looked → found batch.cached h = none

/-- One more height was looked for: nothing changes for the other ones, and this one is found as it
    is to be. -/
theorem Batch.Finds.concat {batch' : Batch} {h : UInt64}
    (hbatch : batch.Finds store heights looked block) (hnot : h ∉ looked)
    (hblocks : ∀ k ≠ h, ∀ b, batch'.blocks.value k = some b → batch.blocks.value k = some b)
    (hfound : ∀ k ≠ h, found batch'.cached k = found batch.cached k)
    (hhit : ¬ store.Missed heights h → found batch'.cached h = some (block h))
    (hmissed : store.Missed heights h → found batch'.cached h = store.gapBlocks h) :
    batch'.Finds store heights (looked ++ [h]) block := by
  have hne : ∀ k ∈ looked, k ≠ h := fun k hk heq => hnot (heq ▸ hk)
  have hlater : ∀ k, k ∉ looked ++ [h] → k ∉ looked ∧ k ≠ h := fun k hk => by simpa using hk
  refine ⟨fun k hk hknot b hvalue => ?_, fun k hk hhit' => ?_, fun k hk hmiss => ?_, fun k hk => ?_⟩
  · exact hbatch.blocks k hk (hlater k hknot).1 b (hblocks k (hlater k hknot).2 b hvalue)
  · rcases List.mem_append.1 hk with hk | hk
    · exact (hfound k (hne k hk)).trans (hbatch.hit k hk hhit')
    · obtain rfl := List.mem_singleton.1 hk
      exact hhit hhit'
  · rcases List.mem_append.1 hk with hk | hk
    · exact (hfound k (hne k hk)).trans (hbatch.missed k hk hmiss)
    · obtain rfl := List.mem_singleton.1 hk
      exact hmissed hmiss
  · exact (hfound k (hlater k hk).2).trans (hbatch.rest k (hlater k hk).1)

/-- A lookup keeps what was found. -/
theorem Batch.Finds.lookup {h : UInt64} {after : List UInt64}
    (hbatch : (store.lookupAll looked).Finds store (looked ++ h :: after) looked block)
    (hnodup : (looked ++ h :: after).Nodup) :
    (BlockStore.lookup store.gapBlocks (store.lookupAll looked) h).Finds store
      (looked ++ h :: after) (looked ++ [h]) block := by
  have hmem : h ∈ looked ++ h :: after := List.mem_append_right _ List.mem_cons_self
  have hnot : h ∉ looked := fun hmem =>
    (List.nodup_append.1 hnodup).2.2 h hmem h List.mem_cons_self rfl
  have hmissed : store.Missed (looked ++ h :: after) h ↔
      (store.lookupAll looked).blocks.get h = none := missed_iff hnodup
  have hself (b : BlockAndReceipts) :
      found (insertCached (store.lookupAll looked).cached h b) h = some b := by
    rw [found_insertCached, if_pos rfl]
  have hother (b : BlockAndReceipts) (k : UInt64) (hk : k ≠ h) :
      found (insertCached (store.lookupAll looked).cached h b) k =
        found (store.lookupAll looked).cached k := by
    rw [found_insertCached, if_neg hk.symm]
  unfold BlockStore.lookup
  split
  · rename_i b blocks hget
    obtain ⟨hvalue, hblocks⟩ := LruMap.value_of_get hget
    refine hbatch.concat hnot (fun k _ b' => ?_) (hother b) (fun _ => ?_) fun hmiss => ?_
    · simp only [hblocks, imp_self]
    · rw [hself, hbatch.blocks h hmem hnot b hvalue]
    · rw [hmissed, hget] at hmiss
      cases hmiss
  · rename_i hget
    have hmiss := hmissed.2 hget
    split
    · rename_i b hgap
      refine hbatch.concat hnot (fun k hk b' hvalue => ?_) (hother b) (absurd hmiss) fun _ => ?_
      · rcases LruMap.value_insert hvalue with heq | hvalue
        · exact absurd (Prod.mk.inj heq).1 hk
        · exact hvalue
      · rw [hself, hgap]
    · rename_i hgap
      refine hbatch.concat hnot (fun _ _ _ => id) (fun _ _ => rfl) (absurd hmiss) fun _ => ?_
      rw [hgap]
      exact hbatch.rest h hnot

/-- All lookups find what single requests do. -/
theorem finds_lookupAll (hnodup : heights.Nodup)
    (hone : ∀ h ∈ heights, (store.getByNumber source h).1 = .ok (block h)) :
    (store.lookupAll heights).Finds store heights heights block := by
  -- By induction over the heights that were looked for, which are the first ones of the batch.
  suffices ∀ looked rest, heights = looked ++ rest →
      (store.lookupAll looked).Finds store heights looked block from
    this heights [] (List.append_nil _).symm
  intro looked
  induction looked using List.reverseRecOn with
  | nil =>
    refine fun _ _ => ⟨fun h hmem _ b hvalue => ?_, ?_, ?_, fun _ _ => rfl⟩
    · exact Except.ok.inj ((getByNumber_of_value hvalue).symm.trans (hone h hmem))
    all_goals exact fun _ hmem => absurd hmem List.not_mem_nil
  | append_singleton looked h ih =>
    intro rest hheights
    rw [List.append_assoc, List.singleton_append] at hheights
    have hstep : store.lookupAll (looked ++ [h]) =
        BlockStore.lookup store.gapBlocks (store.lookupAll looked) h := by
      rw [lookupAll, List.foldl_append]
      rfl
    have hbatch := ih _ hheights
    rw [hstep]
    rw [hheights] at hnodup hbatch ⊢
    exact hbatch.lookup hnodup

/-- A batch of distinct heights has a block for a height exactly if it is supplied with it. -/
theorem found_eq_some_iff (hnodup : heights.Nodup)
    (hone : ∀ h ∈ heights, (store.getByNumber source h).1 = .ok (block h))
    (fetched : List BlockAndReceipts) {h : UInt64} (hmem : h ∈ heights) :
    found (fetched.foldl addFetched (store.lookupAll heights)).cached h = some (block h) ↔
      store.Supplied heights fetched h (block h) := by
  have hfinds := finds_lookupAll hnodup hone
  rw [found_foldl_addFetched, Supplied, Option.or_eq_some_iff]
  refine or_congr_right (and_congr_right' ?_)
  by_cases hmissed : store.Missed heights h
  · rw [hfinds.missed h hmem hmissed, or_iff_right (not_not.2 hmissed)]
  · rw [hfinds.hit h hmem hmissed]
    exact iff_of_true rfl (.inl hmissed)

/-- **Fetching a batch** agrees with fetching its blocks one by one exactly when its heights are
    distinct and the source answers so that the batch is supplied with the block of each of them.

    If the source returns batches of the blocks it has in order, and has those that are missed in
    the cache and not hardcoded, with the numbers of their heights, then this is the case exactly
    when the heights are distinct. -/
theorem getByNumbers_eq_ok_iff (source : BlockSource ε)
    (iteration : IterationOrder BlockAndReceipts) (store : BlockStore) (heights : List UInt64)
    (block : UInt64 → BlockAndReceipts)
    (hone : ∀ h ∈ heights, (store.getByNumber source h).1 = .ok (block h)) :
    ((store.getByNumbers source iteration heights).1 = .ok (heights.map block) ↔
      heights.Nodup ∧ ∃ fetched,
        answer source (store.lookupAll heights).uncachedHeights = .ok fetched ∧
          ∀ h ∈ heights, store.Supplied heights fetched h (block h)) ∧
    (source.CollectsAll → (∀ h, store.Missed heights h → store.Offers source h (block h)) →
      ((store.getByNumbers source iteration heights).1 = .ok (heights.map block) ↔
        heights.Nodup)) := by
  refine ⟨?_, fun hsource hmissed =>
    ⟨nodup_of_getByNumbers, getByNumbers_eq_ok iteration hsource hone hmissed⟩⟩
  have hbatch : (store.getByNumbers source iteration heights).1 = .ok (heights.map block) ↔
      ∃ batch, fetch source (store.lookupAll heights) = .ok batch ∧
        takeCached (ε := ε) heights batch.cached = .ok (heights.map block) := by
    rw [getByNumbers]
    cases fetch source (store.lookupAll heights) with
    | error e => simp
    | ok batch => simp
  -- The batch fails only where the fetch or the final lookup does.
  rw [hbatch]
  simp only [fetch_eq_ok_iff, takeCached_eq_ok_iff, List.map_map, List.map_inj_left]
  constructor
  · rintro ⟨batch, ⟨fetched, hfetched, rfl⟩, hnodup, hfound⟩
    exact ⟨hnodup, fetched, hfetched, fun h hmem =>
      (found_eq_some_iff hnodup hone fetched hmem).1 (hfound h hmem)⟩
  · rintro ⟨hnodup, fetched, hfetched, hsupplied⟩
    exact ⟨_, ⟨fetched, hfetched, rfl⟩, hnodup, fun h hmem =>
      (found_eq_some_iff hnodup hone fetched hmem).2 (hsupplied h hmem)⟩

/-- A store of testnet with a hardcoded block 7 that has cached block 5. -/
def mixedStore : BlockStore :=
  (getByNumber countingSource (.new none [countingBlock 7] testnetChainId) 5).2

/-- Block 5 is returned from the cache, block 7 is hardcoded, and block 6 is fetched. -/
theorem getByNumbers_eq_ok_iff_mixed :
    (mixedStore.getByNumbers countingSource ⟨id, fun _ => .rfl⟩ [7, 6, 5]).1 =
        .ok ([7, 6, 5].map countingBlock) ↔ [(7 : UInt64), 6, 5].Nodup := by
  have hsource : countingSource.CollectsAll := fun heights blocks hblocks =>
    hblocks ▸ (Partial.mapM_eq_ok fun _ _ => rfl).symm
  have hone : ∀ h ∈ [(7 : UInt64), 6, 5],
      (mixedStore.getByNumber countingSource h).1 = .ok (countingBlock h) := by
    simp only [List.forall_mem_cons]
    exact ⟨rfl, rfl, rfl, List.forall_mem_nil _⟩
  have hoffers : ∀ h ∈ [(7 : UInt64), 6, 5], mixedStore.Offers countingSource h
      (countingBlock h) := by
    simp only [List.forall_mem_cons]
    exact ⟨.inl rfl, .inr ⟨rfl, rfl, rfl⟩, .inr ⟨rfl, rfl, rfl⟩, List.forall_mem_nil _⟩
  refine (getByNumbers_eq_ok_iff countingSource _ mixedStore [7, 6, 5] countingBlock hone).2
    hsource ?_
  rintro h ⟨before, after, hheights, -⟩
  exact hoffers h (hheights ▸ by simp)

/-- A source has block 5, and the store returns it. It returns no batch with block 5 twice,
    whether or not it has cached the block. -/
theorem getByNumbers_repeated :
    let store := BlockStore.new none [] mainnetChainId
    (store.getByNumber countingSource 5).1 = .ok (countingBlock 5) ∧
    (store.getByNumbers countingSource ⟨id, fun _ => .rfl⟩ [5, 5]).1 =
      .error (.message "Block 5 not found") ∧
    ((store.getByNumber countingSource 5).2.getByNumbers countingSource ⟨id, fun _ => .rfl⟩
      [5, 5]).1 = .error (.message "Block 5 not found") := by
  exact ⟨rfl, rfl, rfl⟩

end BlockStore

/-! ## Batches of a chain -/

namespace SourceChain

open BlockStore

variable {chain : SourceChain} {source : BlockSource ε} {store : BlockStore}
  {heights : List UInt64}

/-- A single request returns the block of the chain. -/
theorem getByNumber_eq_ok {h : UInt64} (hkeeps : store.Keeps chain.IsBlock)
    (hoffers : store.Offers source h (chain.block h)) :
    (store.getByNumber source h).1 = .ok (chain.block h) := by
  rw [getByNumber]
  split
  · rename_i hget
    exact congrArg Except.ok (hkeeps.blocks _ (LruMap.get_eq_some hget).1)
  · rcases hoffers with hgap | ⟨hgap, hblock, -⟩
    · rw [hgap]
    · rw [hgap]
      simp only [hblock]

/-- A store with true blocks returns a batch of blocks that are hardcoded or that its source has
    exactly when the heights are distinct. -/
theorem getByNumbers_iff (hkeeps : store.Keeps chain.IsBlock) (hsource : source.CollectsAll)
    (hoffers : ∀ h ∈ heights, store.Offers source h (chain.block h))
    {iteration : IterationOrder BlockAndReceipts} {blocks : List BlockAndReceipts} :
    (store.getByNumbers source iteration heights).1 = .ok blocks ↔
      heights.Nodup ∧ blocks = heights.map chain.block := by
  have hmissed : ∀ h, store.Missed heights h → store.Offers source h (chain.block h) := by
    rintro h ⟨before, after, hheights, -⟩
    exact hoffers h (hheights ▸ by simp)
  have hok := getByNumbers_eq_ok iteration hsource
    (fun h hmem => getByNumber_eq_ok hkeeps (hoffers h hmem)) hmissed
  constructor
  · intro h
    have hnodup := nodup_of_getByNumbers h
    exact ⟨hnodup, Except.ok.inj (h.symm.trans (hok hnodup))⟩
  · rintro ⟨hnodup, rfl⟩
    exact hok hnodup

end SourceChain

end Nanoreth
