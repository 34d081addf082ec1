import Mathlib.Data.Nat.Digits.Lemmas
import Nanoreth.HlNodeSource.Ingest
import Nanoreth.Lib.Lru
import Nanoreth.Lib.Partial
import Nanoreth.Lib.Transition

/-!
# The blocks of the local files

The blocks that have been scanned are kept in a cache of limited size, with a map from the heights
to the files they are in (`sources/hl_node/cache.rs`). A block that is no longer in the cache, or
whose file has been scanned for its ranges only, is found by loading its whole file into the
cache (`tryCollectLocalBlock`, in `sources/hl_node/mod.rs`).

The files grow while they are scanned in parts, and blocks are looked up (`localSource`). At
any time, the map leads from exactly the heights that have been scanned to files with a block of
that height. But loading a file evicts the block that is looked for when too many other heights
come after it in the file (`FitsCache`): then it is not found
(`tryCollectLocalBlock_iff`).

The map of ranges is one of `rangemap`, where an insertion overwrites what there is; it panics on
a range that ends before it starts. Such a range would come from the height after the last
one there is.
-/

namespace Nanoreth

open Lru Partial Scanner Transition

/-- A map from heights to files, in ranges. The range that was inserted last comes first. -/
structure RangeInclusiveMap where
  entries : List (RangeInclusive × String)

namespace RangeInclusiveMap

/-- The empty map. -/
def new : RangeInclusiveMap := ⟨[]⟩

/-- Maps the heights of a range to a file. The range must not be empty. -/
def insert (m : RangeInclusiveMap) (range : RangeInclusive) (path : String) :
    Except Halt RangeInclusiveMap :=
  if range.start ≤ range.last then .ok ⟨(range, path) :: m.entries⟩
  else .error (.panic "Range start can not be after range end")

/-- The file of a height, which is that of the range that was inserted last. -/
def get (m : RangeInclusiveMap) (height : UInt64) : Option String :=
  (m.entries.find? fun entry => entry.1.contains height).map (·.2)

/-- Inserts ranges of one file. -/
def insertAll (m : RangeInclusiveMap) (ranges : List RangeInclusive) (path : String) :
    Except Halt RangeInclusiveMap :=
  ranges.foldlM (fun m range => m.insert range path) m

/-- An insertion overwrites the heights of the ranges, and no others. -/
theorem insertAll_eq_ok {ranges : List RangeInclusive}
    (h : ∀ range ∈ ranges, range.start ≤ range.last) (m : RangeInclusiveMap) (path : String) :
    ∃ m', m.insertAll ranges path = .ok m' ∧ ∀ height, m'.get height =
      if ∃ range ∈ ranges, range.contains height then some path else m.get height := by
  induction ranges generalizing m with
  | nil => exact ⟨m, rfl, fun height => by simp⟩
  | cons range ranges ih =>
    rw [List.forall_mem_cons] at h
    obtain ⟨m', hm', hget⟩ := ih h.2 ⟨(range, path) :: m.entries⟩
    refine ⟨m', ?_, fun height => ?_⟩
    · rw [insertAll, List.foldlM_cons, insert, if_pos h.1]
      exact hm'
    · rw [hget]
      by_cases hrange : range.contains height <;> simp [get, hrange]

end RangeInclusiveMap

/-- The blocks that were scanned last, and the files of all. -/
structure LocalBlocksCache where
  cache : LruMap UInt64 BlockAndReceipts
  ranges : RangeInclusiveMap

/-- How many blocks are cached. -/
def cacheSize : ℕ := 8000

namespace LocalBlocksCache

/-- An empty cache. -/
def new (cacheSize : ℕ) : LocalBlocksCache where
  cache := ⟨cacheSize, []⟩
  ranges := .new

/-- Caches blocks in turn. -/
def insertBlocks (cache : LruMap UInt64 BlockAndReceipts) (blocks : List BlockAndReceipts) :
    LruMap UInt64 BlockAndReceipts :=
  blocks.foldl (fun cache blk => cache.insert blk.number blk) cache

/-- Takes over the blocks and ranges of a scan. -/
def loadScanResult (c : LocalBlocksCache) (scanResult : ScanResult) :
    Except Halt LocalBlocksCache := do
  let cache := insertBlocks c.cache scanResult.newBlocks
  let ranges ← c.ranges.insertAll scanResult.newBlockRanges scanResult.path
  return ⟨cache, ranges⟩

/-- The block of a height in the cache, where it is the one used last then. -/
def getBlock (c : LocalBlocksCache) (height : UInt64) :
    Option BlockAndReceipts × LocalBlocksCache :=
  match c.cache.get height with
  | some (block, cache) => (some block, { c with cache := cache })
  | none => (none, c)

/-- The file that has a height. -/
def getPathForHeight (c : LocalBlocksCache) (height : UInt64) : Option String :=
  c.ranges.get height

end LocalBlocksCache

section

variable (fromStr : String → Option LocalBlockAndReceipts)

/-- Looks up a block, `files` being the complete lines of the files there are. -/
def tryCollectLocalBlock (files : String → Option (List String)) (height : UInt64)
    (c : LocalBlocksCache) : Except Halt (Option BlockAndReceipts × LocalBlocksCache) :=
  match c.getBlock height with
  | (some block, c) => return (some block, c)
  | (none, c) =>
    match c.getPathForHeight height with
    | none => return (none, c)
    | some path =>
      match files path with
      | none => return (none, c)
      | some lines => do
        -- The whole file is loaded again, from height zero on.
        let c ← c.loadScanResult (scanHourFile fromStr path lines ⟨0, false⟩)
        return c.getBlock height

/-! ## The files and the cache -/

/-- The files, the cache, and a record of the blocks that have been scanned, with their files. -/
structure LocalState where
  files : String → Option (List String)
  blocks : LocalBlocksCache
  scanned : List (String × BlockAndReceipts)

/-- What happens to the files and the cache. -/
inductive LocalLabel
  | append (path : String) (lines : List String)
  | load (path : String) (lines : List String) (options : ScanOptions)
  | get (height : UInt64)

/-- Writing to a file, scanning some of its lines into the cache, and looking into the
    cache. -/
inductive LocalStep : LocalState → LocalLabel → LocalState → Prop
  | append {s : LocalState} (path : String) (lines : List String) :
      LocalStep s (.append path lines)
        { s with files := Function.update s.files path (some ((s.files path).getD [] ++ lines)) }
  | load {s : LocalState} {path : String} {content lines : List String} (options : ScanOptions)
      {c : LocalBlocksCache} (hfile : s.files path = some content) (hlines : lines <:+: content)
      (hload : s.blocks.loadScanResult (scanHourFile fromStr path lines options) = .ok c) :
      LocalStep s (.load path lines options)
        { s with
          blocks := c
          scanned := s.scanned ++ (blocksOf fromStr lines).map (path, ·) }
  | get {s : LocalState} (height : UInt64) :
      LocalStep s (.get height) { s with blocks := (s.blocks.getBlock height).2 }

/-- The local files, with a cache that is empty at first. -/
def localSource : System LocalState LocalLabel where
  init s := s.blocks = .new cacheSize ∧ s.scanned = []
  step := LocalStep fromStr

end

section

variable {fromStr : String → Option LocalBlockAndReceipts} {s s' : LocalState} {l : LocalLabel}
  {c : LocalBlocksCache} {path : String} {content lines : List String} {h : UInt64}

/-! ## Loading a scan -/

namespace LocalBlocksCache

/-- The entries are those before and those of the blocks. -/
theorem mem_insertBlocks {cache : LruMap UInt64 BlockAndReceipts} {blocks : List BlockAndReceipts}
    {entry : UInt64 × BlockAndReceipts} (hentry : entry ∈ (insertBlocks cache blocks).entries) :
    entry ∈ cache.entries ∨ ∃ b ∈ blocks, entry = (b.number, b) := by
  induction blocks generalizing cache with
  | nil => exact .inl hentry
  | cons b blocks ih =>
    obtain hold | ⟨b', hb', heq⟩ := ih hentry
    · obtain rfl | hold := LruMap.mem_insert hold
      · exact .inr ⟨b, List.mem_cons_self, rfl⟩
      · exact .inl hold
    · exact .inr ⟨b', List.mem_cons_of_mem _ hb', heq⟩

/-- Inserting blocks uses their heights in turn. -/
theorem holds_insertBlocks {cache : LruMap UInt64 BlockAndReceipts} {limit : ℕ}
    {used : List UInt64} (hcache : cache.Holds limit used) (blocks : List BlockAndReceipts) :
    (insertBlocks cache blocks).Holds limit (used ++ blocks.map (·.number)) := by
  induction blocks generalizing cache used with
  | nil => rwa [List.map_nil, List.append_nil]
  | cons b blocks ih =>
    rw [List.map_cons, List.append_cons]
    exact ih (hcache.insert b.number b)

/-- A scan can be loaded, and its heights lead to its file then. -/
theorem loadScanResult_eq_ok (c : LocalBlocksCache) (path : String) (options : ScanOptions)
    (hlines : Unwrapped (blocksOf fromStr lines)) :
    ∃ c', c.loadScanResult (scanHourFile fromStr path lines options) = .ok c' ∧
      c'.cache = insertBlocks c.cache (scanHourFile fromStr path lines options).newBlocks ∧
      ∀ h, c'.getPathForHeight h =
        if h ∈ (blocksOf fromStr lines).map (·.number) then some path
        else c.getPathForHeight h := by
  have hcovers := covers_scanHourFile path lines options hlines
  obtain ⟨ranges, hranges, hget⟩ := c.ranges.insertAll_eq_ok hcovers.start_le_last path
  refine ⟨⟨_, ranges⟩, ?_, rfl, fun h => ?_⟩
  · rw [loadScanResult]
    exact except_bind_eq_ok.2 ⟨ranges, hranges, rfl⟩
  · simp only [getPathForHeight, hget, hcovers.mem_iff]

theorem getBlock_of_some {b : BlockAndReceipts} {cache : LruMap UInt64 BlockAndReceipts}
    (hget : c.cache.get h = some (b, cache)) :
    c.getBlock h = (some b, { c with cache := cache }) := by
  rw [getBlock, hget]

theorem getBlock_of_none (hget : c.cache.get h = none) : c.getBlock h = (none, c) := by
  rw [getBlock, hget]

theorem isSome_getBlock : (c.getBlock h).1.isSome = (c.cache.get h).isSome := by
  rw [getBlock]
  split <;> simp [*]

/-- What is found is an entry. -/
theorem mem_of_getBlock {b : BlockAndReceipts} (hget : (c.getBlock h).1 = some b) :
    (h, b) ∈ c.cache.entries := by
  cases hcache : c.cache.get h with
  | none =>
    rw [getBlock_of_none hcache] at hget
    cases hget
  | some found =>
    obtain ⟨b', cache⟩ := found
    rw [getBlock_of_some hcache] at hget
    cases hget
    exact (LruMap.get_eq_some hcache).1

end LocalBlocksCache

/-! ## What the cache and the map hold -/

/-- The lines of every file are in an order that the ranges can follow. -/
def FilesUnwrapped (fromStr : String → Option LocalBlockAndReceipts)
    (files : String → Option (List String)) : Prop :=
  ∀ path content, files path = some content → Unwrapped (blocksOf fromStr content)

/-- What is scanned is in the files, the cache has scanned blocks, under their heights, and the
    map leads from the scanned heights to the files they were scanned in. -/
structure LocalInvariant (fromStr : String → Option LocalBlockAndReceipts) (s : LocalState) :
    Prop where
  holds : ∃ used, s.blocks.cache.Holds cacheSize used
  stored : ∀ path b, (path, b) ∈ s.scanned →
    ∃ content, s.files path = some content ∧ b ∈ blocksOf fromStr content
  cached : ∀ h b, (h, b) ∈ s.blocks.cache.entries →
    b.number = h ∧ ∃ path, (path, b) ∈ s.scanned
  path : ∀ h path, s.blocks.getPathForHeight h = some path →
    ∃ b, (path, b) ∈ s.scanned ∧ b.number = h
  isSome_path : ∀ path b, (path, b) ∈ s.scanned →
    (s.blocks.getPathForHeight b.number).isSome

/-- Consecutive blocks of a file do not wrap around if those of the file do not. -/
theorem unwrapped_of_isInfix {blocks blocks' : List BlockAndReceipts} (hsub : blocks <:+: blocks')
    (hunwrapped : Unwrapped blocks') : Unwrapped blocks :=
  List.IsChain.infix hunwrapped hsub

theorem blocksOf_isInfix (hlines : lines <:+: content) :
    blocksOf fromStr lines <:+: blocksOf fromStr content := by
  obtain ⟨before, after, rfl⟩ := hlines
  exact ⟨blocksOf fromStr before, blocksOf fromStr after, by simp⟩

/-- Files only grow. -/
theorem LocalStep.files_grow (hstep : LocalStep fromStr s l s') {path : String}
    {content : List String} (hfile : s.files path = some content) :
    ∃ content', s'.files path = some content' ∧ content <+: content' := by
  cases hstep with
  | append path' lines =>
    by_cases hpath : path = path'
    · subst hpath
      refine ⟨content ++ lines, ?_, List.prefix_append _ _⟩
      simp [hfile]
    · exact ⟨content, by simp [Function.update_of_ne hpath, hfile], List.prefix_rfl⟩
  | load => exact ⟨content, hfile, List.prefix_rfl⟩
  | get => exact ⟨content, hfile, List.prefix_rfl⟩

/-- If the files do not wrap around after a step, they did not before it. -/
theorem LocalStep.filesUnwrapped (hstep : LocalStep fromStr s l s')
    (hunwrapped : FilesUnwrapped fromStr s'.files) : FilesUnwrapped fromStr s.files := by
  intro path content hfile
  obtain ⟨content', hfile', hgrow⟩ := hstep.files_grow hfile
  exact unwrapped_of_isInfix (blocksOf_isInfix hgrow.isInfix) (hunwrapped path content' hfile')

/-- The invariant holds at the start. -/
theorem localInvariant_init (hinit : (localSource fromStr).init s) : LocalInvariant fromStr s := by
  obtain ⟨hblocks, hscanned⟩ := hinit
  have hpath : ∀ h, s.blocks.getPathForHeight h = none := by
    intro h
    rw [hblocks]
    rfl
  refine ⟨⟨[], ?_⟩, ?_, ?_, ?_, ?_⟩
  · rw [hblocks]
    exact ⟨by decide, rfl, List.take_nil.symm⟩
  · simp [hscanned]
  · simp [hblocks, LocalBlocksCache.new]
  · simp [hpath]
  · simp [hscanned]

/-- Loading scanned blocks keeps the invariant. -/
theorem LocalInvariant.load (hinv : LocalInvariant fromStr s) {options : ScanOptions}
    (hfile : s.files path = some content) (hlines : lines <:+: content)
    (hunwrapped : Unwrapped (blocksOf fromStr content))
    (hload : s.blocks.loadScanResult (scanHourFile fromStr path lines options) = .ok c) :
    LocalInvariant fromStr
      { s with
        blocks := c
        scanned := s.scanned ++ (blocksOf fromStr lines).map (path, ·) } := by
  have hsub : blocksOf fromStr lines <:+: blocksOf fromStr content := blocksOf_isInfix hlines
  obtain ⟨c', hload', hcache, hpath⟩ := s.blocks.loadScanResult_eq_ok path options
    (unwrapped_of_isInfix hsub hunwrapped)
  obtain rfl : c' = c := Except.ok.inj (hload'.symm.trans hload)
  obtain ⟨used, hholds⟩ := hinv.holds
  refine ⟨⟨_, hcache ▸ LocalBlocksCache.holds_insertBlocks hholds _⟩, ?_, ?_, ?_, ?_⟩
  · -- What is scanned is in the file.
    intro path' b hb
    rw [List.mem_append] at hb
    obtain hb | hb := hb
    · exact hinv.stored path' b hb
    · obtain ⟨b', hb', heq⟩ := List.mem_map.1 hb
      cases heq
      exact ⟨content, hfile, hsub.subset hb'⟩
  · -- An entry of the cache was there before, or is one of the blocks scanned.
    intro h b hentry
    rw [hcache] at hentry
    obtain hold | ⟨b', hb', heq⟩ := LocalBlocksCache.mem_insertBlocks hentry
    · obtain ⟨hnumber, path', hmem⟩ := hinv.cached h b hold
      exact ⟨hnumber, path', List.mem_append_left _ hmem⟩
    · cases heq
      exact ⟨rfl, path, List.mem_append_right _ (List.mem_map_of_mem (mem_newBlocks hb'))⟩
  · -- The heights scanned have the path of this file now, the others that of before.
    intro h path' hget
    rw [hpath] at hget
    split at hget
    · rename_i hmem
      cases hget
      obtain ⟨b, hb, rfl⟩ := List.mem_map.1 hmem
      exact ⟨b, List.mem_append_right _ (List.mem_map_of_mem hb), rfl⟩
    · obtain ⟨b, hb, hnumber⟩ := hinv.path h path' hget
      exact ⟨b, List.mem_append_left _ hb, hnumber⟩
  · intro path' b hb
    rw [hpath]
    split
    · rfl
    · rename_i hnot
      rw [List.mem_append] at hb
      obtain hb | hb := hb
      · exact hinv.isSome_path path' b hb
      · obtain ⟨b', hb', heq⟩ := List.mem_map.1 hb
        cases heq
        exact absurd (List.mem_map_of_mem hb') hnot

/-- A lookup keeps the invariant. -/
theorem LocalInvariant.get (hinv : LocalInvariant fromStr s) (h : UInt64) :
    LocalInvariant fromStr { s with blocks := (s.blocks.getBlock h).2 } := by
  cases hget : s.blocks.cache.get h with
  | none =>
    rw [LocalBlocksCache.getBlock_of_none hget]
    exact hinv
  | some found =>
    obtain ⟨b, cache⟩ := found
    rw [LocalBlocksCache.getBlock_of_some hget]
    obtain ⟨used, hholds⟩ := hinv.holds
    exact ⟨⟨_, hholds.get hget⟩, hinv.stored,
      fun h b hentry => hinv.cached h b (LruMap.mem_of_get hget hentry), hinv.path,
      hinv.isSome_path⟩

/-- The invariant holds at any time, if the files are in order. -/
theorem localInvariant_of_reachable (hreach : Reachable (localSource fromStr) s)
    (hunwrapped : FilesUnwrapped fromStr s.files) : LocalInvariant fromStr s := by
  refine hreach.invariant (P := fun s => FilesUnwrapped fromStr s.files → LocalInvariant fromStr s)
    (fun s hinit _ => localInvariant_init hinit) ?_ hunwrapped
  intro s l s' ih hstep hunwrapped
  -- The files only grow, so they were in order before the step.
  have hinv := ih (LocalStep.filesUnwrapped hstep hunwrapped)
  cases hstep with
  | append path lines =>
    have happend : LocalStep fromStr s _ _ := .append path lines
    refine ⟨hinv.holds, fun path' b hb => ?_, hinv.cached, hinv.path, hinv.isSome_path⟩
    obtain ⟨content, hfile, hmem⟩ := hinv.stored path' b hb
    obtain ⟨content', hfile', hgrow⟩ := happend.files_grow hfile
    exact ⟨content', hfile', (blocksOf_isInfix hgrow.isInfix).subset hmem⟩
  | load options hfile hlines hload =>
    exact hinv.load hfile hlines (hunwrapped _ _ hfile) hload
  | get h => exact hinv.get h

/-! ## Looking up a block -/

/-- Fewer than `cacheSize` other heights come after the last block of the height `h`. -/
def FitsCache (blocks : List BlockAndReceipts) (h : UInt64) : Prop :=
  ∃ before after, blocks.map (·.number) = before ++ h :: after ∧ h ∉ after ∧
    after.toFinset.card < cacheSize

/-- A height of a list of blocks is found, once they are inserted, if it fits. -/
theorem isSome_get_insertBlocks_iff {cache : LruMap UInt64 BlockAndReceipts} {used : List UInt64}
    (hholds : cache.Holds cacheSize used) {blocks : List BlockAndReceipts}
    (hmem : h ∈ blocks.map (·.number)) :
    ((LocalBlocksCache.insertBlocks cache blocks).get h).isSome ↔ FitsCache blocks h := by
  obtain ⟨before, after, hsplit, hafter⟩ := exists_last_split hmem
  have hinsert := LocalBlocksCache.holds_insertBlocks hholds blocks
  rw [LruMap.isSome_get_iff, hinsert.keys_eq, FitsCache, ← mem_take_recency_iff, hsplit,
    ← List.append_assoc, mem_take_split_iff hafter, mem_take_split_iff hafter]

/-- Looking up a height that is not in the cache loads its file. -/
theorem tryCollectLocalBlock_of_none (hget : c.cache.get h = none)
    (hpath : c.getPathForHeight h = some path) {files : String → Option (List String)}
    (hfile : files path = some content) (hunwrapped : Unwrapped (blocksOf fromStr content)) :
    ∃ c', c.loadScanResult (scanHourFile fromStr path content ⟨0, false⟩) = .ok c' ∧
      c'.cache = LocalBlocksCache.insertBlocks c.cache (blocksOf fromStr content) ∧
      tryCollectLocalBlock fromStr files h c = .ok (c'.getBlock h) := by
  obtain ⟨c', hload, hcache, -⟩ := c.loadScanResult_eq_ok path ⟨0, false⟩ hunwrapped
  have hblocks : (blocksOf fromStr content).filter ((0 : UInt64) ≤ ·.number) =
      blocksOf fromStr content := by
    simp
  rw [newBlocks_scanHourFile, hblocks] at hcache
  refine ⟨c', hload, hcache, ?_⟩
  simp only [tryCollectLocalBlock, LocalBlocksCache.getBlock_of_none hget, hpath, hfile]
  exact except_bind_eq_ok.2 ⟨c', hload, rfl⟩

/-- Looking up a block is a look into the cache, after loading its file if need be: it keeps to the
    steps of the system. -/
theorem run_tryCollectLocalBlock {result : Option BlockAndReceipts}
    (hcollect : tryCollectLocalBlock fromStr s.files h s.blocks = .ok (result, c)) :
    ∃ ls s', Run (localSource fromStr) s ls s' ∧ s'.files = s.files ∧ s'.blocks = c := by
  have hget : (localSource fromStr).step s (.get h)
      { s with blocks := (s.blocks.getBlock h).2 } := LocalStep.get h
  unfold tryCollectLocalBlock at hcollect
  -- A hit is a single lookup. Without a path or a file, there is nothing else to do; with both, the
  -- file is loaded and looked up again.
  split at hcollect
  · rename_i b c' hblock
    cases hcollect
    exact ⟨_, _, Run.single hget, rfl, by rw [hblock]⟩
  · rename_i c' hblock
    rw [hblock] at hget
    split at hcollect
    · cases hcollect
      exact ⟨_, _, Run.single hget, rfl, rfl⟩
    · rename_i path hpath
      split at hcollect
      · cases hcollect
        exact ⟨_, _, Run.single hget, rfl, rfl⟩
      · rename_i content hfile
        obtain ⟨c'', hload, hresult⟩ := except_bind_eq_ok.1 hcollect
        have hloaded : (localSource fromStr).step { s with blocks := c' } _ _ :=
          LocalStep.load ⟨0, false⟩ hfile List.infix_rfl hload
        have hrun := ((Run.single hget).snoc hloaded).snoc (LocalStep.get h)
        exact ⟨_, _, hrun, rfl, congrArg Prod.snd (Except.ok.inj hresult)⟩

/-- The blocks of the files that have been scanned. -/
def IsScannedBlock (fromStr : String → Option LocalBlockAndReceipts) (s : LocalState)
    (b : BlockAndReceipts) : Prop :=
  ∃ path b' content, (path, b') ∈ s.scanned ∧ s.files path = some content ∧
    b ∈ blocksOf fromStr content

theorem LocalInvariant.isScannedBlock (hinv : LocalInvariant fromStr s) {b : BlockAndReceipts}
    (hb : (path, b) ∈ s.scanned) : IsScannedBlock fromStr s b := by
  obtain ⟨content, hfile, hmem⟩ := hinv.stored path b hb
  exact ⟨path, b, content, hb, hfile, hmem⟩

/-- Looking up a height that leads to a file finds a block of that height, of a file that has been
    scanned, if and only if it is in the cache or it fits into it with its file. -/
theorem LocalInvariant.tryCollect (hinv : LocalInvariant fromStr s)
    (hpath : s.blocks.getPathForHeight h = some path) (hfile : s.files path = some content)
    (hunwrapped : Unwrapped (blocksOf fromStr content)) :
    ∃ result c, tryCollectLocalBlock fromStr s.files h s.blocks = .ok (result, c) ∧
      (∀ b ∈ result, b.number = h ∧ IsScannedBlock fromStr s b) ∧
      (result.isSome ↔
        (s.blocks.cache.get h).isSome ∨ FitsCache (blocksOf fromStr content) h) := by
  obtain ⟨b₀, hb₀, hnumber⟩ := hinv.path h path hpath
  cases hget : s.blocks.cache.get h with
  | some found =>
    obtain ⟨b, cache⟩ := found
    refine ⟨some b, { s.blocks with cache := cache }, ?_, ?_, by simp⟩
    · rw [tryCollectLocalBlock, LocalBlocksCache.getBlock_of_some hget]
      rfl
    · rintro b' ⟨⟩
      obtain ⟨hb, path', hmem⟩ := hinv.cached h b (LruMap.get_eq_some hget).1
      exact ⟨hb, hinv.isScannedBlock hmem⟩
  | none =>
    -- The file is scanned again. The height is among its blocks, since it was when the path was
    -- stored; but it may be pushed out by those after it.
    obtain ⟨c, hload, hcache, hcollect⟩ := tryCollectLocalBlock_of_none hget hpath hfile hunwrapped
    have hstored : ∃ content', s.files path = some content' ∧ b₀ ∈ blocksOf fromStr content' :=
      hinv.stored path b₀ hb₀
    obtain ⟨content', hfile', hmem₀⟩ := hstored
    obtain rfl : content = content' := Option.some.inj (hfile.symm.trans hfile')
    obtain ⟨used, hholds⟩ := hinv.holds
    have hmem : h ∈ (blocksOf fromStr content).map (·.number) :=
      List.mem_map.2 ⟨b₀, hmem₀, hnumber⟩
    have hiff := isSome_get_insertBlocks_iff hholds hmem
    rw [← hcache] at hiff
    refine ⟨(c.getBlock h).1, (c.getBlock h).2, hcollect, fun b hb => ?_, ?_⟩
    · have hentry := LocalBlocksCache.mem_of_getBlock hb
      rw [hcache] at hentry
      obtain hold | ⟨b', hb', heq⟩ := LocalBlocksCache.mem_insertBlocks hentry
      · obtain ⟨hbnumber, path', hscanned⟩ := hinv.cached h b hold
        exact ⟨hbnumber, hinv.isScannedBlock hscanned⟩
      · cases heq
        exact ⟨rfl, path, b₀, content, hb₀, hfile, hb'⟩
    · rw [LocalBlocksCache.isSome_getBlock, hiff]
      simp

/-- The local blocks at any time, after any scans of any parts of the files, and any look-ups. The
    heights that have been scanned are those that lead to a file, and the file has a block of that
    height. Looking up one of them gives a block of that height, of a file that has been scanned, if
    and only if it is in the cache, or it is not evicted by those that come after it in
    its file. -/
theorem tryCollectLocalBlock_iff (hreach : Reachable (localSource fromStr) s)
    (hunwrapped : FilesUnwrapped fromStr s.files) :
    (∀ h, (s.blocks.getPathForHeight h).isSome ↔
      ∃ path b, (path, b) ∈ s.scanned ∧ b.number = h) ∧
    ∀ h path, s.blocks.getPathForHeight h = some path → ∃ content, s.files path = some content ∧
      (∃ b ∈ blocksOf fromStr content, b.number = h) ∧
      ∃ result c, tryCollectLocalBlock fromStr s.files h s.blocks = .ok (result, c) ∧
        (∀ b ∈ result, b.number = h ∧ IsScannedBlock fromStr s b) ∧
        (result.isSome ↔
          (s.blocks.cache.get h).isSome ∨ FitsCache (blocksOf fromStr content) h) := by
  have hinv := localInvariant_of_reachable hreach hunwrapped
  refine ⟨fun h => ⟨fun hsome => ?_, ?_⟩, fun h path hpath => ?_⟩
  · obtain ⟨path, hpath⟩ := Option.isSome_iff_exists.1 hsome
    obtain ⟨b, hb, hnumber⟩ := hinv.path h path hpath
    exact ⟨path, b, hb, hnumber⟩
  · rintro ⟨path, b, hb, rfl⟩
    exact hinv.isSome_path path b hb
  · obtain ⟨b, hb, hnumber⟩ := hinv.path h path hpath
    obtain ⟨content, hfile, hmem⟩ := hinv.stored path b hb
    exact ⟨content, hfile, ⟨b, hmem, hnumber⟩,
      hinv.tryCollect hpath hfile (hunwrapped path content hfile)⟩

end

/-! ## A file with the blocks from 1 on -/

/-- A number that is not zero, in hexadecimal. -/
def hexNumber (n : ℕ) : String :=
  "0x" ++ String.ofList ((Nat.digits 16 n).reverse.map Nat.digitChar)

/-- The digit of a character. -/
def hexDigit (c : Char) : ℕ := ((List.range 16).find? fun d => Nat.digitChar d = c).getD 0

theorem hexDigit_digitChar : ∀ d < 16, hexDigit (Nat.digitChar d) = d := by decide

/-- A number is determined by its digits. -/
theorem hexNumber_injective : Function.Injective hexNumber := by
  intro n n' h
  rw [hexNumber, hexNumber, String.append_right_inj, String.ofList_inj] at h
  have hdigits : ∀ n, ((Nat.digits 16 n).reverse.map Nat.digitChar).map hexDigit =
      (Nat.digits 16 n).reverse := by
    intro n
    rw [List.map_map]
    refine (List.map_congr_left fun d hd => ?_).trans (List.map_id _)
    exact hexDigit_digitChar d (Nat.digits_lt_base (by decide) (List.mem_reverse.1 hd))
  have hreverse := congrArg (List.map hexDigit) h
  rw [hdigits, hdigits, List.reverse_inj] at hreverse
  exact Nat.digits_inj_iff.1 hreverse

/-- The line of block `k`. -/
def countLine (k : ℕ) : String := zeroLine (hexNumber k)

/-- The lines of the blocks from 1 to `n`. -/
def countLines (n : ℕ) : List String := (List.range' 1 n).map countLine

/-- The blocks of the heights 1 to `n`. -/
def countBlocks (n : ℕ) : List BlockAndReceipts :=
  (List.range' 1 n).map fun k => zeroBlock (UInt64.ofNat k)

/-- The parser, on the lines of the blocks from 1 to `n`. -/
def parseCountLine (n : ℕ) (line : String) : Option LocalBlockAndReceipts :=
  ((List.range' 1 n).find? fun k => countLine k = line).map fun k =>
    ⟨"1722633600", zeroBlock (UInt64.ofNat k)⟩

/-- A number is determined by its line. -/
theorem countLine_injective : Function.Injective countLine := by
  intro k k' h
  rw [countLine, countLine, zeroLine, zeroLine, String.append_left_inj,
    String.append_right_inj] at h
  exact hexNumber_injective h

/-- The line of a number is parsed as the block of the number. -/
theorem parseCountLine_countLine {n k : ℕ} (h : k ∈ List.range' 1 n) :
    parseCountLine n (countLine k) = some ⟨"1722633600", zeroBlock (UInt64.ofNat k)⟩ := by
  have hsome : ((List.range' 1 n).find? fun j => countLine j = countLine k).isSome :=
    List.find?_isSome.2 ⟨k, h, by simp⟩
  obtain ⟨j, hj⟩ := Option.isSome_iff_exists.1 hsome
  have hjk : countLine j = countLine k := by simpa using List.find?_some hj
  rw [parseCountLine, hj, countLine_injective hjk]
  rfl

/-- The blocks of the file. -/
theorem blocksOf_countLines (n : ℕ) :
    blocksOf (parseCountLine n) (countLines n) = countBlocks n := by
  have hmap : ∀ ks : List ℕ, (∀ k ∈ ks, k ∈ List.range' 1 n) →
      blocksOf (parseCountLine n) (ks.map countLine) =
        ks.map fun k => zeroBlock (UInt64.ofNat k) := by
    intro ks hks
    induction ks with
    | nil => rfl
    | cons k ks ih =>
      rw [List.forall_mem_cons] at hks
      rw [List.map_cons, List.map_cons, blocksOf_cons_some (parseCountLine_countLine hks.1),
        ih hks.2]
  exact hmap _ fun _ hk => hk

theorem map_number_countBlocks (n : ℕ) :
    (countBlocks n).map (·.number) = (List.range' 1 n).map UInt64.ofNat := by
  rw [countBlocks, List.map_map]
  rfl

/-- The blocks have increasing heights. -/
theorem pairwise_countBlocks {n : ℕ} (h : n < 2 ^ 64) :
    (countBlocks n).Pairwise fun b b' => b.number < b'.number := by
  rw [countBlocks, List.pairwise_map]
  refine List.Pairwise.imp_of_mem (fun {k k'} hk hk' hlt => ?_) (List.pairwise_lt_range' 1)
  change UInt64.ofNat k < UInt64.ofNat k'
  rw [List.mem_range'_1] at hk hk'
  have hsize : UInt64.size = 2 ^ 64 := rfl
  rw [UInt64.lt_iff_toNat_lt, UInt64.toNat_ofNat_of_lt' (by omega),
    UInt64.toNat_ofNat_of_lt' (by omega)]
  exact hlt

theorem unwrapped_countBlocks {n : ℕ} (h : n < 2 ^ 64) : Unwrapped (countBlocks n) :=
  (pairwise_countBlocks h).isChain.imp fun _ _ hlt _ => hlt

/-- The first block of the file fits into the cache if the file does. -/
theorem fitsCache_countBlocks_iff {n : ℕ} (h : n + 1 < 2 ^ 64) :
    FitsCache (countBlocks (n + 1)) 1 ↔ n < cacheSize := by
  have hnodup : ((countBlocks (n + 1)).map (·.number)).Nodup := by
    rw [List.nodup_iff_pairwise_ne, List.pairwise_map]
    exact (pairwise_countBlocks h).imp UInt64.ne_of_lt
  rw [FitsCache, ← mem_take_recency_iff]
  rw [map_number_countBlocks, List.range'_succ, List.map_cons] at hnodup ⊢
  rw [List.nodup_cons] at hnodup
  have hsplit : _ ∈ (recency ([] ++ _ :: _)).take cacheSize ↔ _ := mem_take_split_iff hnodup.1
  rw [List.toFinset_card_of_nodup hnodup.2, List.length_map, List.length_range'] at hsplit
  exact hsplit

/-- The file of the blocks from 1 to `n`, scanned for its ranges. -/
theorem exists_countFile {n : ℕ} (hpos : 0 < n) (h : n < 2 ^ 64) :
    ∃ s, Reachable (localSource (parseCountLine n)) s ∧
      FilesUnwrapped (parseCountLine n) s.files ∧
      s.files "/hourly/20250731/4" = some (countLines n) ∧
      ("/hourly/20250731/4", zeroBlock 1) ∈ s.scanned ∧
      s.blocks.getPathForHeight 1 = some "/hourly/20250731/4" ∧
      s.blocks.cache.get 1 = none := by
  have hblocks := blocksOf_countLines n
  have hunwrapped : Unwrapped (blocksOf (parseCountLine n) (countLines n)) :=
    hblocks ▸ unwrapped_countBlocks h
  have hmem : zeroBlock 1 ∈ blocksOf (parseCountLine n) (countLines n) := by
    rw [hblocks]
    exact List.mem_map.2 ⟨1, List.mem_range'_1.2 (by omega), rfl⟩
  obtain ⟨c, hload, hcache, hpath⟩ := (LocalBlocksCache.new cacheSize).loadScanResult_eq_ok
    "/hourly/20250731/4" ⟨0, true⟩ hunwrapped
  let files : String → Option (List String) := fun path =>
    if path = "/hourly/20250731/4" then some (countLines n) else none
  have hfile : files "/hourly/20250731/4" = some (countLines n) := if_pos rfl
  -- A single step: the file is scanned for ranges only, so its blocks are not cached.
  have hinit : Reachable (localSource (parseCountLine n)) ⟨files, .new cacheSize, []⟩ :=
    .init ⟨rfl, rfl⟩
  have hstep : (localSource (parseCountLine n)).step ⟨files, .new cacheSize, []⟩ _ _ :=
    LocalStep.load ⟨0, true⟩ hfile List.infix_rfl hload
  refine ⟨_, hinit.step hstep, fun path content hcontent => ?_, hfile, ?_, ?_, ?_⟩
  · obtain ⟨-, heq⟩ := Option.ite_none_right_eq_some.1 hcontent
    exact Option.some.inj heq ▸ hunwrapped
  · exact List.mem_append_right _ (List.mem_map_of_mem hmem)
  · change c.getPathForHeight 1 = _
    rw [hpath, if_pos]
    exact List.mem_map.2 ⟨zeroBlock 1, hmem, rfl⟩
  · change c.cache.get 1 = none
    rw [hcache, newBlocks_scanHourFile_ranges]
    rfl

theorem tryCollectLocalBlock_iff_countFile :
    ∃ s, Reachable (localSource (parseCountLine 3)) s ∧ FilesUnwrapped (parseCountLine 3) s.files ∧
      ∃ b c, tryCollectLocalBlock (parseCountLine 3) s.files 1 s.blocks = .ok (some b, c) ∧
        b.number = 1 := by
  obtain ⟨s, hreach, hunwrapped, hfile, -, hpath, -⟩ :=
    exists_countFile (n := 3) (by decide) (by decide)
  obtain ⟨content, hcontent, -, result, c, hcollect, hresult, hiff⟩ :=
    (tryCollectLocalBlock_iff hreach hunwrapped).2 1 _ hpath
  obtain rfl : countLines 3 = content := Option.some.inj (hfile.symm.trans hcontent)
  have hfits : FitsCache (countBlocks 3) 1 := (fitsCache_countBlocks_iff (by decide)).2 (by decide)
  rw [← blocksOf_countLines] at hfits
  obtain ⟨b, rfl⟩ := Option.isSome_iff_exists.1 (hiff.2 (.inr hfits))
  exact ⟨s, hreach, hunwrapped, b, c, hcollect, (hresult b rfl).1⟩

/-- The first block of a file with one block more than the cache can hold is not found, although
    its file has been scanned. -/
theorem tryCollectLocalBlock_evicts :
    ∃ s c, Reachable (localSource (parseCountLine 8001)) s ∧
      FilesUnwrapped (parseCountLine 8001) s.files ∧
      ("/hourly/20250731/4", zeroBlock 1) ∈ s.scanned ∧
      tryCollectLocalBlock (parseCountLine 8001) s.files 1 s.blocks = .ok (none, c) := by
  obtain ⟨s, hreach, hunwrapped, hfile, hscanned, hpath, hget⟩ :=
    exists_countFile (n := 8001) (by decide) (by decide)
  have hinv := localInvariant_of_reachable hreach hunwrapped
  obtain ⟨result, c, hcollect, -, hiff⟩ :=
    hinv.tryCollect hpath hfile (hunwrapped _ _ hfile)
  rw [hget, blocksOf_countLines, fitsCache_countBlocks_iff (by decide)] at hiff
  have hnone : result = none := by
    simpa [cacheSize] using hiff
  exact ⟨s, c, hreach, hunwrapped, hscanned, hnone ▸ hcollect⟩

end Nanoreth
