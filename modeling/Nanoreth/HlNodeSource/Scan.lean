import Nanoreth.Lib.Tail
import Nanoreth.Types.RethCompat

/-!
# Scanning the files of a local node

A node of the chain running on the same machine writes its blocks to files, one for each
hour, a block on each line (`sources/hl_node/scan.rs`). A scan reads the lines that are
complete and collects the blocks from some height on, and the ranges of the heights it
has seen (`Scanner.scanHourFile`). Lines that are not blocks are skipped.

The parser of the lines is a parameter, `fromStr` (`serde_json`). A scan only depends on the
blocks it finds (`foldl_scanLine`). It collects those from the start height on
(`newBlocks_scanHourFile`). If there is any block, from there on or not, it expects next the
height after the greatest one (`nextExpectedHeight_of_ne_nil`). Its ranges have the heights of all
blocks (`covers_scanHourFile`).

The arithmetic is that of release builds, where additions wrap.
-/

namespace Nanoreth

open Tail

/-- A line of a file: when the block was written, and the block. -/
structure LocalBlockAndReceipts where
  time : String
  block : BlockAndReceipts

/-- A range of heights, both ends included. -/
structure RangeInclusive where
  start : UInt64
  last : UInt64
  deriving DecidableEq

/-- Whether a height is in a range. -/
def RangeInclusive.contains (range : RangeInclusive) (height : UInt64) : Bool :=
  range.start ≤ height && height ≤ range.last

/-- What a scan of a file finds. -/
structure ScanResult where
  path : String
  nextExpectedHeight : UInt64
  newBlocks : List BlockAndReceipts
  newBlockRanges : List RangeInclusive
  deriving DecidableEq

/-- From which height on is scanned, and whether the ranges are all that is kept. -/
structure ScanOptions where
  startHeight : UInt64
  onlyLoadRanges : Bool

/-- The variables of the loop of a scan. -/
structure ScanState where
  newBlocks : List BlockAndReceipts
  lastHeight : UInt64
  blockRanges : List RangeInclusive
  currentRange : Option RangeInclusive

namespace Scanner

variable (fromStr : String → Option LocalBlockAndReceipts)

/-- The block of a line, and its height. -/
def lineToEvmBlock (line : String) : Option (BlockAndReceipts × UInt64) := do
  let ⟨_, parsedBlock⟩ ← fromStr line
  let height := match parsedBlock.block with
    | .reth115 b => b.header.header.number
  return (parsedBlock, height)

/-- Adds a height to the ranges: to the current one, if it is the next one there, and
    otherwise to a new one. -/
def addHeight (height : UInt64) (s : ScanState) : ScanState :=
  match s.currentRange with
  | some range =>
    -- A height that is not the next one, larger or smaller, begins another range.
    if range.last + 1 = height then
      { s with currentRange := some ⟨range.start, height⟩ }
    else
      { s with
        blockRanges := s.blockRanges ++ [range]
        currentRange := some ⟨height, height⟩ }
  | none => { s with currentRange := some ⟨height, height⟩ }

/-- Collects a block, if it is from the start height on. -/
def addBlock (options : ScanOptions) (parsedBlock : BlockAndReceipts) (height : UInt64)
    (s : ScanState) : ScanState :=
  if options.startHeight ≤ height then
    { s with
      -- The height may be smaller than the last one, if lines are out of order.
      lastHeight := max s.lastHeight height
      newBlocks :=
        if options.onlyLoadRanges then s.newBlocks else s.newBlocks ++ [parsedBlock] }
  else s

/-- The body of the loop. -/
def scanLine (options : ScanOptions) (s : ScanState) (line : String) : ScanState :=
  match lineToEvmBlock fromStr line with
  | some (parsedBlock, height) => addHeight height (addBlock options parsedBlock height s)
  | none => s

/-- The state in which the loop starts. -/
def initial (options : ScanOptions) : ScanState where
  newBlocks := []
  lastHeight := options.startHeight
  blockRanges := []
  currentRange := none

/-- A scan of the file `path`, in which the complete lines that have not been read are
    `lines`. -/
def scanHourFile (path : String) (lines : List String) (options : ScanOptions) : ScanResult :=
  let s := lines.foldl (scanLine fromStr options) (initial options)
  { path := path
    nextExpectedHeight := s.lastHeight + if s.currentRange.isSome then 1 else 0
    newBlocks := s.newBlocks
    newBlockRanges := s.blockRanges ++ s.currentRange.toList }

/-- The blocks on some lines. -/
def blocksOf (lines : List String) : List BlockAndReceipts :=
  lines.filterMap fun line => (fromStr line).map (·.block)

/-- The heights of some blocks. -/
def heights (blocks : List BlockAndReceipts) : List ℕ :=
  blocks.map (·.number.toNat)

/-- The heights are those of the blocks. -/
@[simp]
theorem mem_heights {blocks : List BlockAndReceipts} {h : ℕ} :
    h ∈ heights blocks ↔ ∃ b ∈ blocks, b.number.toNat = h :=
  List.mem_map

@[simp]
theorem heights_append (blocks blocks' : List BlockAndReceipts) :
    heights (blocks ++ blocks') = heights blocks ++ heights blocks' :=
  List.map_append

variable {fromStr} {options : ScanOptions}

@[simp]
theorem blocksOf_append (lines lines' : List String) :
    blocksOf fromStr (lines ++ lines') = blocksOf fromStr lines ++ blocksOf fromStr lines' :=
  List.filterMap_append

@[simp]
theorem blocksOf_nil : blocksOf fromStr [] = [] := rfl

theorem blocksOf_cons_none {line : String} {lines : List String} (h : fromStr line = none) :
    blocksOf fromStr (line :: lines) = blocksOf fromStr lines := by
  rw [blocksOf, List.filterMap_cons_none (by rw [h]; rfl), blocksOf]

theorem blocksOf_cons_some {line : String} {lines : List String} {parsed : LocalBlockAndReceipts}
    (h : fromStr line = some parsed) :
    blocksOf fromStr (line :: lines) = parsed.block :: blocksOf fromStr lines := by
  rw [blocksOf, List.filterMap_cons_some (by rw [h]; rfl), blocksOf]

/-! ## What a scan returns -/

/-- The body of the loop, at a line with a block. -/
def scanBlock (options : ScanOptions) (s : ScanState) (b : BlockAndReceipts) : ScanState :=
  addHeight b.number (addBlock options b b.number s)

/-- A scan goes through the blocks on its lines. -/
theorem foldl_scanLine (lines : List String) (s : ScanState) :
    lines.foldl (scanLine fromStr options) s =
      (blocksOf fromStr lines).foldl (scanBlock options) s := by
  induction lines generalizing s with
  | nil => rfl
  | cons line lines ih =>
    rw [List.foldl_cons, ih]
    cases hline : fromStr line with
    | none =>
      rw [blocksOf_cons_none hline, scanLine, lineToEvmBlock, hline]
      rfl
    | some parsed =>
      rw [blocksOf_cons_some hline, List.foldl_cons, scanLine, lineToEvmBlock, hline]
      rfl

section addHeight

variable (height : UInt64) (s : ScanState)

@[simp]
theorem newBlocks_addHeight : (addHeight height s).newBlocks = s.newBlocks := by
  unfold addHeight
  split
  · split <;> rfl
  · rfl

@[simp]
theorem lastHeight_addHeight : (addHeight height s).lastHeight = s.lastHeight := by
  unfold addHeight
  split
  · split <;> rfl
  · rfl

@[simp]
theorem isSome_currentRange_addHeight : (addHeight height s).currentRange.isSome := by
  unfold addHeight
  split
  · split <;> rfl
  · rfl

end addHeight

/-- The loop keeps the blocks from the start height on. -/
theorem newBlocks_foldl (h : options.onlyLoadRanges = false) (blocks : List BlockAndReceipts)
    (s : ScanState) :
    (blocks.foldl (scanBlock options) s).newBlocks =
      s.newBlocks ++ blocks.filter (options.startHeight ≤ ·.number) := by
  induction blocks generalizing s with
  | nil => simp
  | cons b blocks ih =>
    rw [List.foldl_cons, ih, scanBlock, newBlocks_addHeight, addBlock, List.filter_cons]
    by_cases hb : options.startHeight ≤ b.number <;> simp [hb, h]

/-- The loop keeps no blocks if only ranges are loaded. -/
theorem newBlocks_foldl_ranges (h : options.onlyLoadRanges = true) (blocks : List BlockAndReceipts)
    (s : ScanState) : (blocks.foldl (scanBlock options) s).newBlocks = s.newBlocks := by
  induction blocks generalizing s with
  | nil => rfl
  | cons b blocks ih =>
    rw [List.foldl_cons, ih, scanBlock, newBlocks_addHeight, addBlock]
    simp only [h, if_true]
    split <;> rfl

/-- The loop collects blocks that it finds. -/
theorem mem_newBlocks_foldl {blocks : List BlockAndReceipts} {s : ScanState} {b : BlockAndReceipts}
    (hb : b ∈ (blocks.foldl (scanBlock options) s).newBlocks) : b ∈ s.newBlocks ∨ b ∈ blocks := by
  induction blocks generalizing s with
  | nil => exact .inl hb
  | cons b' blocks ih =>
    obtain hb | hb := ih hb
    · rw [scanBlock, newBlocks_addHeight, addBlock] at hb
      split_ifs at hb
      · exact .inl hb
      · rw [List.mem_append, List.mem_singleton] at hb
        obtain hb | rfl := hb
        · exact .inl hb
        · exact .inr List.mem_cons_self
      · exact .inl hb
    · exact .inr (List.mem_cons_of_mem _ hb)

/-- There is a range as soon as there is a block. -/
theorem isSome_currentRange_foldl (blocks : List BlockAndReceipts) (s : ScanState) :
    (blocks.foldl (scanBlock options) s).currentRange.isSome =
      (s.currentRange.isSome || !blocks.isEmpty) := by
  induction blocks generalizing s with
  | nil => simp
  | cons b blocks ih => simp [ih, scanBlock]

theorem toNat_max (a b : UInt64) : (max a b).toNat = max a.toNat b.toNat := by
  change (if a ≤ b then b else a).toNat = _
  simp only [UInt64.le_iff_toNat_le]
  split <;> omega

/-- The last height is the largest from the start height on. -/
theorem lastHeight_scanBlock (s : ScanState) (b : BlockAndReceipts) :
    (scanBlock options s b).lastHeight.toNat =
      if options.startHeight.toNat ≤ b.number.toNat then max s.lastHeight.toNat b.number.toNat
      else s.lastHeight.toNat := by
  simp only [scanBlock, lastHeight_addHeight, addBlock, UInt64.le_iff_toNat_le]
  split
  · exact toNat_max _ _
  · rfl

/-- The loop keeps the greatest height from the start height on. -/
theorem lastHeight_foldl (blocks : List BlockAndReceipts) (s : ScanState) :
    IsGreatest (insert s.lastHeight.toNat (keysFrom options.startHeight.toNat (heights blocks)))
      (blocks.foldl (scanBlock options) s).lastHeight.toNat := by
  induction blocks generalizing s with
  | nil => simp [heights, keysFrom]
  | cons b blocks ih =>
    have hrest := ih (scanBlock options s b)
    rw [lastHeight_scanBlock] at hrest
    rw [List.foldl_cons, heights, List.map_cons, keysFrom_cons]
    split at hrest
    · rw [if_pos (by assumption)]
      exact isGreatest_insert_insert hrest
    · rw [if_neg (by assumption)]
      exact hrest

/-- A scan collects the blocks from the start height on. -/
theorem newBlocks_scanHourFile (path : String) (lines : List String) (start : UInt64) :
    (scanHourFile fromStr path lines ⟨start, false⟩).newBlocks =
      (blocksOf fromStr lines).filter (start ≤ ·.number) := by
  rw [scanHourFile, foldl_scanLine, newBlocks_foldl rfl]
  rfl

/-- A scan for the ranges collects nothing. -/
theorem newBlocks_scanHourFile_ranges (path : String) (lines : List String) (start : UInt64) :
    (scanHourFile fromStr path lines ⟨start, true⟩).newBlocks = [] := by
  rw [scanHourFile, foldl_scanLine]
  exact newBlocks_foldl_ranges rfl _ _

/-- What a scan finds are blocks of the lines. -/
theorem mem_newBlocks {path : String} {lines : List String} {b : BlockAndReceipts}
    (hb : b ∈ (scanHourFile fromStr path lines options).newBlocks) :
    b ∈ blocksOf fromStr lines := by
  rw [scanHourFile, foldl_scanLine] at hb
  exact (mem_newBlocks_foldl hb).resolve_left List.not_mem_nil

/-- The next height comes after the last one, if there was any block. -/
theorem nextExpectedHeight_eq (path : String) (lines : List String) :
    (scanHourFile fromStr path lines options).nextExpectedHeight =
      ((blocksOf fromStr lines).foldl (scanBlock options) (initial options)).lastHeight +
        if blocksOf fromStr lines = [] then 0 else 1 := by
  rw [scanHourFile, foldl_scanLine]
  simp only [isSome_currentRange_foldl, initial]
  by_cases h : blocksOf fromStr lines = [] <;> simp [h]

/-- If there is no block, a scan expects the start height next. -/
theorem nextExpectedHeight_of_nil (path : String) (options : ScanOptions) {lines : List String}
    (h : blocksOf fromStr lines = []) :
    (scanHourFile fromStr path lines options).nextExpectedHeight = options.startHeight := by
  rw [nextExpectedHeight_eq, if_pos h, h]
  exact UInt64.add_zero _

/-- If there is a block, a scan expects next one more than the greatest of the start height and
    the heights of the blocks from there on. -/
theorem nextExpectedHeight_of_ne_nil (path : String) (options : ScanOptions) {lines : List String}
    (h : blocksOf fromStr lines ≠ []) :
    ∃ last : UInt64, (scanHourFile fromStr path lines options).nextExpectedHeight = last + 1 ∧
      IsGreatest (insert options.startHeight.toNat
        (keysFrom options.startHeight.toNat (heights (blocksOf fromStr lines)))) last.toNat := by
  refine ⟨_, ?_, lastHeight_foldl (blocksOf fromStr lines) (initial options)⟩
  rw [nextExpectedHeight_eq, if_neg h]

/-! ## The ranges of a scan -/

/-- Some ranges are not empty, and have the heights `seen`. -/
structure Covers (ranges : List RangeInclusive) (seen : List UInt64) : Prop where
  start_le_last : ∀ range ∈ ranges, range.start ≤ range.last
  mem_iff : ∀ h, (∃ range ∈ ranges, range.contains h) ↔ h ∈ seen

/-- The height after the last one there is does not come after it, as it would in a
    range. -/
def Unwrapped (blocks : List BlockAndReceipts) : Prop :=
  blocks.IsChain fun b b' => b.number + 1 = b'.number → b.number < b'.number

/-- The ranges of the loop, when the heights `seen` have been seen. -/
structure Tracks (s : ScanState) (seen : List UInt64) : Prop where
  covers : Covers (s.blockRanges ++ s.currentRange.toList) seen
  last_eq : s.currentRange.map (·.last) = seen.getLast?

theorem tracks_initial (options : ScanOptions) : Tracks (initial options) [] where
  covers := ⟨by simp [initial], by simp [initial]⟩
  last_eq := rfl

/-- Keeping a block does not change the ranges. -/
theorem tracks_addBlock {s : ScanState} {seen : List UInt64} (h : Tracks s seen)
    (options : ScanOptions) (b : BlockAndReceipts) (height : UInt64) :
    Tracks (addBlock options b height s) seen := by
  unfold addBlock
  split
  · exact ⟨h.covers, h.last_eq⟩
  · exact h

theorem toNat_add_one_of_lt {last height : UInt64} (hnext : last + 1 = height)
    (hlt : last < height) : height.toNat = last.toNat + 1 := by
  rw [UInt64.lt_iff_toNat_lt] at hlt
  rw [← hnext, UInt64.toNat_add] at hlt ⊢
  have h1 : (1 : UInt64).toNat = 1 := rfl
  omega

/-- A range that is extended has one more height. -/
theorem contains_extend {range : RangeInclusive} {height h : UInt64}
    (hle : range.start ≤ range.last) (hnext : range.last + 1 = height) (hlt : range.last < height) :
    (RangeInclusive.mk range.start height).contains h ↔ range.contains h ∨ h = height := by
  have hheight := toNat_add_one_of_lt hnext hlt
  simp only [RangeInclusive.contains, Bool.and_eq_true, decide_eq_true_eq, UInt64.le_iff_toNat_le,
    ← UInt64.toNat_inj] at hle ⊢
  omega

theorem contains_singleton {height h : UInt64} :
    (RangeInclusive.mk height height).contains h ↔ h = height := by
  simp only [RangeInclusive.contains, Bool.and_eq_true, decide_eq_true_eq, UInt64.le_iff_toNat_le,
    ← UInt64.toNat_inj]
  omega

/-- A height may begin a range of its own. -/
theorem Covers.concat {ranges : List RangeInclusive} {seen : List UInt64} (h : Covers ranges seen)
    (height : UInt64) : Covers (ranges ++ [⟨height, height⟩]) (seen ++ [height]) where
  start_le_last := by
    simpa [or_imp, forall_and] using h.start_le_last
  mem_iff k := by
    simp only [List.mem_append, List.mem_singleton, or_and_right, exists_or, exists_eq_left,
      h.mem_iff, contains_singleton]

/-- A height may extend the last range. -/
theorem Covers.extend {ranges : List RangeInclusive} {range : RangeInclusive} {seen : List UInt64}
    {height : UInt64} (h : Covers (ranges ++ [range]) seen) (hnext : range.last + 1 = height)
    (hlt : range.last < height) :
    Covers (ranges ++ [⟨range.start, height⟩]) (seen ++ [height]) where
  start_le_last := by
    have hrange := h.start_le_last range (by simp)
    intro r hr
    rw [List.mem_append, List.mem_singleton] at hr
    obtain hr | rfl := hr
    · exact h.start_le_last r (List.mem_append_left _ hr)
    · exact UInt64.le_trans hrange (UInt64.le_of_lt hlt)
  mem_iff k := by
    have hrange := h.start_le_last range (by simp)
    have hmem := h.mem_iff k
    simp only [List.mem_append, List.mem_singleton, or_and_right, exists_or,
      exists_eq_left] at hmem ⊢
    rw [contains_extend hrange hnext hlt, ← or_assoc, hmem]

/-- A height is added to the ranges. -/
theorem Tracks.addHeight {s : ScanState} {seen : List UInt64} (h : Tracks s seen) {height : UInt64}
    (hunwrapped : ∀ last ∈ seen.getLast?, last + 1 = height → last < height) :
    Tracks (addHeight height s) (seen ++ [height]) := by
  have hcovers := h.covers
  unfold Scanner.addHeight
  cases hrange : s.currentRange with
  | none =>
    rw [hrange, Option.toList_none, List.append_nil] at hcovers
    exact ⟨hcovers.concat height, by simp⟩
  | some range =>
    have hlast := h.last_eq
    rw [hrange, Option.map_some] at hlast
    rw [hrange, Option.toList_some] at hcovers
    dsimp only
    by_cases hnext : range.last + 1 = height
    · have hlt := hunwrapped range.last hlast.symm hnext
      rw [if_pos hnext]
      exact ⟨hcovers.extend hnext hlt, by simp⟩
    · rw [if_neg hnext]
      exact ⟨hcovers.concat height, by simp⟩

/-- The ranges have the heights of all blocks. -/
theorem Tracks.foldl {s : ScanState} {seen : List BlockAndReceipts} (blocks : List BlockAndReceipts)
    (h : Tracks s (seen.map (·.number))) (hunwrapped : Unwrapped (seen ++ blocks)) :
    Tracks (blocks.foldl (scanBlock options) s) ((seen ++ blocks).map (·.number)) := by
  induction blocks generalizing s seen with
  | nil => simpa using h
  | cons b blocks ih =>
    rw [List.append_cons] at hunwrapped ⊢
    refine ih ?_ hunwrapped
    rw [List.map_append]
    refine (tracks_addBlock h options b b.number).addHeight fun last hlast hnext => ?_
    rw [List.getLast?_map, Option.mem_def, Option.map_eq_some_iff] at hlast
    obtain ⟨b', hb', rfl⟩ := hlast
    have hchain := (List.isChain_append.1 hunwrapped).1
    exact (List.isChain_append.1 hchain).2.2 b' hb' b rfl hnext

/-- The ranges of a scan have the heights of its blocks, those before the start height
    included. -/
theorem covers_scanHourFile (path : String) (lines : List String) (options : ScanOptions)
    (h : Unwrapped (blocksOf fromStr lines)) :
    Covers (scanHourFile fromStr path lines options).newBlockRanges
      ((blocksOf fromStr lines).map (·.number)) := by
  rw [scanHourFile, foldl_scanLine]
  have hinitial : Tracks (initial options) (([] : List BlockAndReceipts).map (·.number)) :=
    tracks_initial options
  exact (hinitial.foldl _ h).covers

end Scanner

end Nanoreth
