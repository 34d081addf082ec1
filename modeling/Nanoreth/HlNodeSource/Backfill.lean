import Nanoreth.HlNodeSource.FileOps
import Nanoreth.HlNodeSource.HourlyFiles

/-!
# The files there are when the node starts

When the local source is made, the hourly files that there are are scanned for their ranges, one
after the other in the order of their times (`try_backfill_local_blocks`). A file is skipped if its
last block is before the first block that is needed, the *cutoff*. If its last block is not found,
it is scanned.

The last block is read from the end of the file, where it may not be found, but no other one is
taken for it (`readLastCompleteLine_isLast`), so that no file is skipped that is needed. Whatever is
found, each height from the cutoff on leads to the latest file with a block of that height
(`tryBackfillLocalBlocks_spec`), and looking it up loads that file. In the same way, the latest
block of the source is that of the latest file, or the latest one of the fallback
(`localLatestBlock_spec`).

It is assumed of the files that they are text, with lines ending with a newline only, that heights
increase in each of them, and that lines at the beginning of a file are not another block when they
are taken as one text (`IsHourFile`). It is assumed of the parser that the empty text is no block.
-/

namespace Nanoreth

open Lines Partial Scanner FileOperations

section

variable (fromStr : String → Option LocalBlockAndReceipts) (files : String → Option (List UInt8))

/-- The last block of a file, if the file can be read. -/
def FileOperations.readLastBlockFromFile (path : String) :
    Except Halt (Option (BlockAndReceipts × UInt64)) :=
  match files path with
  | none => return none
  | some content => readLastCompleteLine fromStr content

namespace HlNodeBlockSource

/-- Scans a file for its ranges. -/
def backfillRanges (cutoffHeight : UInt64) (c : LocalBlocksCache) (subfile : String) :
    Except Halt LocalBlocksCache :=
  match files subfile with
  | none => .error (.panic "Failed to open line stream")
  | some content =>
    let scanResult :=
      (scanStream fromStr content (LineStream.fromPath subfile) ⟨cutoffHeight, true⟩).1
    -- Only the ranges are kept; the blocks are read again when they are asked for.
    c.loadScanResult { scanResult with newBlocks := [] }

/-- The body of the loop over the files. -/
def backfillFile (cutoffHeight : UInt64) (c : LocalBlocksCache) (subfile : String) :
    Except Halt LocalBlocksCache := do
  match ← readLastBlockFromFile fromStr files subfile with
  | some (_, height) =>
    if height < cutoffHeight then return c
    else backfillRanges fromStr files cutoffHeight c subfile
  | none => backfillRanges fromStr files cutoffHeight c subfile

/-- Scans all the files that there are, one after the other. -/
def tryBackfillLocalBlocks (time : TimeCrate) (root : String)
    (hourly : Option (List (Option DayEntry))) (cutoffHeight : UInt64) (c : LocalBlocksCache) :
    Except Halt LocalBlocksCache :=
  let subfiles := ((allHourlyFiles time hourly).getD []).map (·.path root)
  subfiles.foldlM (backfillFile fromStr files cutoffHeight) c

/-- The latest block, `fallback` being that of the other source. -/
def findLatestBlockNumber (time : TimeCrate) (root : String)
    (hourly : Option (List (Option DayEntry))) (fallback : Option UInt64) :
    Except Halt (Option UInt64) :=
  match findLatestHourlyFile time hourly with
  | none => return fallback
  | some f => do
    match ← readLastBlockFromFile fromStr files (f.path root) with
    | some (_, height) => return some height
    | none => return fallback

end HlNodeBlockSource

/-- The texts of some lines, where one that is no text is empty. -/
def texts (ls : List (List UInt8)) : List String := ls.map fun l => (fromUtf8 l).getD ""

/-- The blocks on all lines of a file, with what comes after the last newline. -/
def allBlocks (content : List UInt8) : List BlockAndReceipts :=
  blocksOf fromStr (texts (content.splitOn newline))

/-- The blocks on the complete lines of a file. -/
def completeBlocks (content : List UInt8) : List BlockAndReceipts :=
  blocksOf fromStr ((lines newline content).map lineText)

/-- A block is the last one on some lines. -/
def IsLast (ls : List (List UInt8)) (r : BlockAndReceipts × UInt64) : Prop :=
  ∃ before l after, ls = before ++ l :: after ∧ parse fromStr l = .ok (some r) ∧
    ∀ l' ∈ after, parse fromStr l' = .ok none

/-- A file of an hour: text, with lines that end with a newline only and blocks of increasing
    heights. Lines at the beginning of the file that are a block when they are taken as one text
    have that block as their last one. -/
structure IsHourFile (content : List UInt8) : Prop where
  isText : (fromUtf8 content).isSome
  notCarriageReturn : ∀ l ∈ lines newline content, l.getLast? ≠ some carriageReturn
  increasing : (heights (allBlocks fromStr content)).Pairwise (· < ·)
  isLast : ∀ left, left <:+ (content.splitOn newline).reverse → ∀ r,
    parse fromStr (joined left) = .ok (some r) → IsLast fromStr left.reverse r

end

variable {fromStr : String → Option LocalBlockAndReceipts}
  {files : String → Option (List UInt8)} {content kept before : List UInt8} {pos : ℕ}
  {r : BlockAndReceipts × UInt64} {ls after : List (List UInt8)}

/-! ## The last block of a file -/

/-- Lines without a block do not change which block is the last. -/
theorem IsLast.append (h : IsLast fromStr ls r) (hafter : ∀ l ∈ after, parse fromStr l = .ok none) :
    IsLast fromStr (ls ++ after) r := by
  obtain ⟨before, l, after', rfl, hparse, hafter'⟩ := h
  refine ⟨before, l, after' ++ after, by simp, hparse, fun l' hl' => ?_⟩
  exact (List.mem_append.1 hl').elim (hafter' l') (hafter l')

namespace FileOperations

/-- The lines without an empty one at their end have the same last block. -/
theorem IsLast.of_skipEmpty (hempty : fromStr "" = none)
    (h : IsLast fromStr (skipEmpty ls).reverse r) : IsLast fromStr ls.reverse r := by
  unfold skipEmpty at h
  split at h
  · rw [List.reverse_cons]
    exact h.append (List.forall_mem_singleton.2 (parse_nil hempty))
  · exact h

/-- The first block among the texts that are tried is the last block of the lines. -/
theorem isLast_of_firstBlock (hempty : fromStr "" = none)
    (hjoined : ∀ left, left <:+ ls → ∀ r, parse fromStr (joined left) = .ok (some r) →
      IsLast fromStr left.reverse r)
    (hfirst : firstBlock fromStr (tried ls pos) = .ok (some r)) :
    IsLast fromStr ls.reverse r := by
  -- By induction along the texts that are tried: a text that is no block is a line after the last
  -- block.
  fun_induction tried ls pos with
  | case1 ls =>
    rw [firstBlock_singleton] at hfirst
    exact hjoined ls List.suffix_rfl r hfirst
  | case2 ls pos hpos line next before hskip ih =>
    have hsuffix : line :: next :: before <:+ ls := hskip ▸ skipEmpty_suffix ls
    refine IsLast.of_skipEmpty hempty ?_
    rw [hskip, List.reverse_cons]
    rw [firstBlock] at hfirst
    cases hparse : parse fromStr line with
    | error halt =>
      rw [hparse, error_bind] at hfirst
      cases hfirst
    | ok result =>
      rw [hparse, ok_bind] at hfirst
      cases result with
      | none =>
        have hbefore := ih (fun left hleft =>
          hjoined left (hleft.trans ((List.suffix_cons _ _).trans hsuffix))) hfirst
        exact hbefore.append (List.forall_mem_singleton.2 hparse)
      | some r' =>
        cases hfirst
        exact ⟨_, line, [], rfl, hparse, by simp⟩
  | case3 ls pos hpos hleft =>
    rw [firstBlock_singleton] at hfirst
    exact IsLast.of_skipEmpty hempty (hjoined _ (skipEmpty_suffix ls) r hfirst)

/-- A text is one without its empty lines, too. -/
theorem isSome_joined_skipEmpty (h : (fromUtf8 (joined ls)).isSome) :
    (fromUtf8 (joined (skipEmpty ls))).isSome := by
  unfold skipEmpty
  split
  · exact ((isSome_fromUtf8_append_cons utf8EncodeChar_newline).1 h).1
  · exact h

/-- What is tried of some text is text. -/
theorem isSome_of_mem_tried (h : (fromUtf8 (joined ls)).isSome) :
    ∀ text ∈ tried ls pos, (fromUtf8 text).isSome := by
  fun_induction tried ls pos with
  | case1 ls => exact List.forall_mem_singleton.2 h
  | case2 ls pos hpos line next before hskip ih =>
    have hboth := isSome_joined_skipEmpty h
    rw [hskip, joined, isSome_fromUtf8_append_cons utf8EncodeChar_newline] at hboth
    exact List.forall_mem_cons.2 ⟨hboth.2, ih hboth.1⟩
  | case3 ls pos hpos hleft => exact List.forall_mem_singleton.2 (isSome_joined_skipEmpty h)

/-- What is read of a file of an hour is its last block, if it is any. -/
theorem readLastCompleteLine_isLast (hempty : fromStr "" = none)
    (hfile : IsHourFile fromStr content) :
    ∃ result, readLastCompleteLine fromStr content = .ok result ∧
      ∀ r ∈ result, IsLast fromStr (content.splitOn newline) r := by
  have hjoined : joined (content.splitOn newline).reverse = content := by
    rw [splitOn_eq_lines_append, List.reverse_concat, joined_reverse, unlines_lines_append_tail]
  have htext : (fromUtf8 (joined (content.splitOn newline).reverse)).isSome := by
    rw [hjoined]
    exact hfile.isText
  rw [readLastCompleteLine_splitOn]
  have hall : AllText fromStr (tried (content.splitOn newline).reverse content.length) :=
    fun before text after hsplit _ =>
      isSome_of_mem_tried htext text (hsplit ▸ List.mem_append_right _ List.mem_cons_self)
  obtain ⟨result, hresult⟩ := firstBlock_isOk_iff.2 hall
  refine ⟨result, hresult, fun r hr => ?_⟩
  rw [hr] at hresult
  have hlast := isLast_of_firstBlock hempty hfile.isLast hresult
  rwa [List.reverse_reverse] at hlast

end FileOperations

section

variable {l : List UInt8} {path : String} {c c' : LocalBlocksCache} {cutoff h : UInt64}

/-- A line without a block is not read by the scanner either. -/
theorem fromStr_of_parse_none (hparse : parse fromStr l = .ok none) :
    fromStr ((fromUtf8 l).getD "") = none := by
  rw [parse] at hparse
  split at hparse
  · cases hparse
  · rename_i t ht
    rw [ht, Option.getD_some]
    cases hstr : fromStr t with
    | none => rfl
    | some parsed => simp [lineToEvmBlock, hstr] at hparse

/-- A block of a line is the one that the scanner reads. -/
theorem fromStr_of_parse_some (hparse : parse fromStr l = .ok (some r)) :
    ∃ parsed, fromStr ((fromUtf8 l).getD "") = some parsed ∧
      r = (parsed.block, parsed.block.number) := by
  rw [parse] at hparse
  split at hparse
  · cases hparse
  · rename_i t ht
    rw [ht, Option.getD_some]
    cases hstr : fromStr t with
    | none => simp [lineToEvmBlock, hstr] at hparse
    | some parsed =>
      refine ⟨parsed, rfl, ?_⟩
      simp only [lineToEvmBlock, hstr] at hparse
      cases hparse
      rfl

/-- The scanner reads no blocks from lines without any. -/
theorem blocksOf_texts_eq_nil (hls : ∀ l ∈ ls, parse fromStr l = .ok none) :
    blocksOf fromStr (texts ls) = [] := by
  induction ls with
  | nil => rfl
  | cons l ls ih =>
    rw [List.forall_mem_cons] at hls
    rw [texts, List.map_cons, blocksOf_cons_none (fromStr_of_parse_none hls.1)]
    exact ih hls.2

/-- The last block of a file has its greatest height. -/
theorem IsHourFile.le_of_isLast (hfile : IsHourFile fromStr content)
    (hlast : IsLast fromStr (content.splitOn newline) r) :
    r.1 ∈ allBlocks fromStr content ∧ r.2 = r.1.number ∧
      ∀ b ∈ allBlocks fromStr content, b.number ≤ r.2 := by
  obtain ⟨before, l, after, hls, hparse, hafter⟩ := hlast
  obtain ⟨parsed, hstr, rfl⟩ := fromStr_of_parse_some hparse
  have hblocks : allBlocks fromStr content = blocksOf fromStr (texts before) ++ [parsed.block] := by
    rw [allBlocks, hls, texts, List.map_append, List.map_cons, blocksOf_append,
      blocksOf_cons_some hstr]
    exact congrArg (_ ++ parsed.block :: ·) (blocksOf_texts_eq_nil hafter)
  have hinc := hfile.increasing
  rw [hblocks, heights_append, List.pairwise_append] at hinc
  rw [hblocks]
  refine ⟨List.mem_append_right _ List.mem_cons_self, rfl, fun b hb => ?_⟩
  rw [UInt64.le_iff_toNat_le]
  obtain hb | hb := List.mem_append.1 hb
  · exact Nat.le_of_lt (hinc.2.2 _ (mem_heights.2 ⟨b, hb, rfl⟩) _ (mem_heights.2
      ⟨parsed.block, List.mem_cons_self, rfl⟩))
  · rw [List.mem_singleton.1 hb]

/-- The lines that a scan reads are the complete lines of the file. -/
theorem IsHourFile.texts_lines (hfile : IsHourFile fromStr content) :
    (lines newline content).map lineText = texts (lines newline content) := by
  refine List.map_congr_left fun l hl => ?_
  cases htext : fromUtf8 l with
  | none => exact lineText_of_none htext
  | some t => exact lineText_of_some htext (hfile.notCarriageReturn l hl)

/-- The blocks are those of complete lines, and what the tail has. -/
theorem IsHourFile.allBlocks_eq (hfile : IsHourFile fromStr content) :
    allBlocks fromStr content =
      completeBlocks fromStr content ++ blocksOf fromStr (texts [tail newline content]) := by
  rw [allBlocks, completeBlocks, hfile.texts_lines, splitOn_eq_lines_append, texts,
    List.map_append, blocksOf_append]
  rfl

theorem IsHourFile.mem_allBlocks (hfile : IsHourFile fromStr content) {b : BlockAndReceipts}
    (hb : b ∈ completeBlocks fromStr content) : b ∈ allBlocks fromStr content := by
  rw [hfile.allBlocks_eq]
  exact List.mem_append_left _ hb

/-- The blocks of complete lines have increasing heights. -/
theorem IsHourFile.pairwise (hfile : IsHourFile fromStr content) :
    (heights (completeBlocks fromStr content)).Pairwise (· < ·) := by
  have hinc := hfile.increasing
  rw [hfile.allBlocks_eq, heights_append] at hinc
  exact (List.pairwise_append.1 hinc).1

theorem IsHourFile.unwrapped (hfile : IsHourFile fromStr content) :
    Unwrapped (completeBlocks fromStr content) := by
  have hinc := hfile.pairwise
  rw [heights, List.pairwise_map] at hinc
  exact hinc.isChain.imp fun _ _ hlt _ => UInt64.lt_iff_toNat_lt.2 hlt

theorem IsHourFile.isSome_tail (hfile : IsHourFile fromStr content) :
    (fromUtf8 (tail newline content)).isSome := by
  have hvalid := hfile.isText
  by_cases hmem : newline ∈ content
  · obtain ⟨before, l, rfl, hl⟩ := eq_append_cons_last_of_mem hmem
    rw [tail_append, tail_of_notMem hl]
    exact ((isSome_fromUtf8_append_cons utf8EncodeChar_newline).1 hvalid).2
  · rwa [tail_of_notMem hmem]

/-! ## One file -/

/-- The complete lines of the files. -/
def lineFiles (files : String → Option (List UInt8)) (path : String) : Option (List String) :=
  (files path).map fun content => (lines newline content).map lineText

/-- A whole file is scanned line by line. -/
theorem scanStream_fromPath (hfile : IsHourFile fromStr content) (path : String)
    (options : ScanOptions) :
    (scanStream fromStr content (LineStream.fromPath path) options).1 =
      scanHourFile fromStr path ((lines newline content).map lineText) options := by
  have hagree : Agree content (LineStream.fromPath path) ⟨0⟩ := (agree_fromPath path).append content
  exact (hagree.scanStream (fun l hl _ => hfile.notCarriageReturn l hl) hfile.isSome_tail fromStr
    options).1

namespace HlNodeBlockSource

/-- The ranges of a file are loaded, and nothing else. -/
theorem backfillRanges_eq_ok (hfile : IsHourFile fromStr content)
    (hpath : files path = some content) (cutoff : UInt64) (c : LocalBlocksCache) :
    ∃ c', backfillRanges fromStr files cutoff c path = .ok c' ∧ c'.cache = c.cache ∧
      ∀ h, c'.getPathForHeight h =
        if h ∈ (completeBlocks fromStr content).map (·.number) then some path
        else c.getPathForHeight h := by
  obtain ⟨c', hload, hcache, hget⟩ := c.loadScanResult_eq_ok path ⟨cutoff, true⟩ hfile.unwrapped
  rw [newBlocks_scanHourFile_ranges] at hcache
  refine ⟨c', ?_, hcache, hget⟩
  have hnil : (scanHourFile fromStr path ((lines newline content).map lineText)
      ⟨cutoff, true⟩).newBlocks = [] := newBlocks_scanHourFile_ranges _ _ _
  simp only [backfillRanges, hpath, scanStream_fromPath hfile]
  rw [← hload, ← hnil]

/-- A file is skipped only if its blocks come before the cutoff. -/
theorem backfillFile_eq_ok (hempty : fromStr "" = none) (hfile : IsHourFile fromStr content)
    (hpath : files path = some content) (cutoff : UInt64) (c : LocalBlocksCache) :
    ∃ c', backfillFile fromStr files cutoff c path = .ok c' ∧ c'.cache = c.cache ∧
      ((c' = c ∧ ∀ b ∈ completeBlocks fromStr content, b.number < cutoff) ∨
        ∀ h, c'.getPathForHeight h =
          if h ∈ (completeBlocks fromStr content).map (·.number) then some path
          else c.getPathForHeight h) := by
  obtain ⟨result, hresult, hlast⟩ := readLastCompleteLine_isLast hempty hfile
  have hread : readLastBlockFromFile fromStr files path = .ok result := by
    rw [readLastBlockFromFile, hpath]
    exact hresult
  obtain ⟨c', hranges, hcache, hget⟩ := backfillRanges_eq_ok hfile hpath cutoff c
  cases result with
  | none =>
    refine ⟨c', ?_, hcache, .inr hget⟩
    rw [backfillFile, hread]
    exact hranges
  | some r =>
    obtain ⟨-, -, hle⟩ := hfile.le_of_isLast (hlast r rfl)
    -- A file whose last block is below the cutoff is skipped, which no height from the cutoff on
    -- notices.
    by_cases hlt : r.2 < cutoff
    · refine ⟨c, ?_, rfl, .inl ⟨rfl, fun b hb => ?_⟩⟩
      · rw [backfillFile, hread]
        exact if_pos hlt
      · exact UInt64.lt_of_le_of_lt (hle b (hfile.mem_allBlocks hb)) hlt
    · refine ⟨c', ?_, hcache, .inr hget⟩
      rw [backfillFile, hread]
      exact (if_neg hlt).trans hranges

/-! ## All files -/

/-- A file has a block of a height on a complete line. -/
def hasHeight (fromStr : String → Option LocalBlockAndReceipts)
    (files : String → Option (List UInt8)) (h : UInt64) (path : String) : Bool :=
  match files path with
  | none => false
  | some content => (completeBlocks fromStr content).any (·.number = h)

theorem hasHeight_iff (hpath : files path = some content) :
    hasHeight fromStr files h path ↔ h ∈ (completeBlocks fromStr content).map (·.number) := by
  simp [hasHeight, hpath]

/-- After a file, its heights lead to it, from the cutoff on. Any height that leads to it
    has a block there. -/
theorem backfillFile_getPath (hempty : fromStr "" = none) (hfile : IsHourFile fromStr content)
    (hpath : files path = some content) (cutoff : UInt64) (c : LocalBlocksCache) :
    ∃ c', backfillFile fromStr files cutoff c path = .ok c' ∧ c'.cache = c.cache ∧
      (∀ h path', c'.getPathForHeight h = some path' →
        path' = path ∧ hasHeight fromStr files h path ∨ c.getPathForHeight h = some path') ∧
      ∀ h, cutoff ≤ h → c'.getPathForHeight h =
        if hasHeight fromStr files h path then some path else c.getPathForHeight h := by
  obtain ⟨c', hback, hcache, hskip | hget⟩ := backfillFile_eq_ok hempty hfile hpath cutoff c
  · obtain ⟨rfl, hlt⟩ := hskip
    refine ⟨c', hback, hcache, fun h path' hget => .inr hget, fun h hle => (if_neg ?_).symm⟩
    rw [hasHeight_iff hpath, List.mem_map]
    rintro ⟨b, hb, rfl⟩
    exact UInt64.not_lt.2 hle (hlt b hb)
  · simp only [← hasHeight_iff hpath] at hget
    refine ⟨c', hback, hcache, fun h path' hpath' => ?_, fun h _ => hget h⟩
    rw [hget] at hpath'
    split_ifs at hpath' with hhas
    · exact .inl ⟨(Option.some.inj hpath').symm, hhas⟩
    · exact .inr hpath'

/-- What the loop over the files does to the cache: below the cutoff it may add paths, from the
    cutoff on a height is in the last file that has it. -/
theorem foldlM_backfillFile (hempty : fromStr "" = none) {paths : List String}
    (hpaths : ∀ path ∈ paths, ∃ content, files path = some content ∧ IsHourFile fromStr content)
    (cutoff : UInt64) (c : LocalBlocksCache) :
    ∃ c', paths.foldlM (backfillFile fromStr files cutoff) c = .ok c' ∧ c'.cache = c.cache ∧
      (∀ h path, c'.getPathForHeight h = some path →
        path ∈ paths ∧ hasHeight fromStr files h path ∨ c.getPathForHeight h = some path) ∧
      ∀ h, cutoff ≤ h → c'.getPathForHeight h =
        (paths.reverse.find? (hasHeight fromStr files h)).or (c.getPathForHeight h) := by
  induction paths generalizing c with
  | nil => exact ⟨c, rfl, rfl, fun h path hget => .inr hget, fun h _ => rfl⟩
  | cons path paths ih =>
    rw [List.forall_mem_cons] at hpaths
    obtain ⟨⟨content, hpath, hfile⟩, hpaths⟩ := hpaths
    obtain ⟨c₁, hback, hcache₁, hfound₁, hget₁⟩ := backfillFile_getPath hempty hfile hpath cutoff c
    obtain ⟨c', hfold, hcache, hfound, hget⟩ := ih hpaths c₁
    refine ⟨c', ?_, hcache.trans hcache₁, fun h path' hpath' => ?_, fun h hle => ?_⟩
    · rw [List.foldlM_cons, hback]
      exact hfold
    · obtain ⟨hmem, hhas⟩ | hpath' := hfound h path' hpath'
      · exact .inl ⟨List.mem_cons_of_mem _ hmem, hhas⟩
      · obtain ⟨rfl, hhas⟩ | hpath' := hfound₁ h path' hpath'
        · exact .inl ⟨List.mem_cons_self, hhas⟩
        · exact .inr hpath'
    -- The last file that has the height wins, as it is loaded last.
    · rw [hget h hle, hget₁ h hle, List.reverse_cons, List.find?_append, Option.or_assoc]
      congr 1
      rw [List.find?_singleton]
      split_ifs <;> rfl

/-- A height that leads to a file, when nothing is in the cache: its block is found if it fits into
    the cache with those after it. -/
theorem tryCollectLocalBlock_of_path (hcache : c.cache = ⟨cacheSize, []⟩)
    (hget : c.getPathForHeight h = some path) (hpath : files path = some content)
    (hfile : IsHourFile fromStr content) (hhas : hasHeight fromStr files h path) :
    ∃ result c', tryCollectLocalBlock fromStr (lineFiles files) h c = .ok (result, c') ∧
      (∀ b ∈ result, b.number = h ∧ b ∈ completeBlocks fromStr content) ∧
      (result.isSome ↔ FitsCache (completeBlocks fromStr content) h) := by
  have hnone : c.cache.get h = none := by
    rw [hcache]
    rfl
  have hholds : c.cache.Holds cacheSize [] := by
    rw [hcache]
    exact ⟨by decide, rfl, List.take_nil.symm⟩
  have hlines : lineFiles files path = some ((lines newline content).map lineText) := by
    rw [lineFiles, hpath, Option.map_some]
  obtain ⟨c', -, hcache', hcollect⟩ :=
    tryCollectLocalBlock_of_none hnone hget hlines hfile.unwrapped
  have hiff := isSome_get_insertBlocks_iff hholds ((hasHeight_iff hpath).1 hhas)
  refine ⟨(c'.getBlock h).1, (c'.getBlock h).2, hcollect, fun b hb => ?_, ?_⟩
  · have hentry := LocalBlocksCache.mem_of_getBlock hb
    rw [hcache'] at hentry
    obtain hold | ⟨b', hb', heq⟩ := LocalBlocksCache.mem_insertBlocks hentry
    · rw [hcache] at hold
      cases hold
    · cases heq
      exact ⟨rfl, hb'⟩
  · rw [LocalBlocksCache.isSome_getBlock, hcache']
    exact hiff

end HlNodeBlockSource

end

open HlNodeBlockSource

section

variable {time : TimeCrate} {root : String} {hourly : Option (List (Option DayEntry))}

/-- **Backfill**: each height from the cutoff on leads to the latest of the files that have a block
    of that height, if there is one. Any height that leads to a file has a block there. Nothing
    is in the cache, and looking up a height loads its file and gives the block there, unless
    those that come after it in the file do not leave room for it. -/
theorem tryBackfillLocalBlocks_spec (hempty : fromStr "" = none)
    (hfiles : ∀ f ∈ (allHourlyFiles time hourly).getD [],
      ∃ content, files (f.path root) = some content ∧ IsHourFile fromStr content)
    (cutoff : UInt64) :
    ∃ c, tryBackfillLocalBlocks fromStr files time root hourly cutoff (.new cacheSize) = .ok c ∧
      (∀ h, c.getBlock h = (none, c)) ∧
      (∀ h, cutoff ≤ h → c.getPathForHeight h =
        ((((allHourlyFiles time hourly).getD []).map (·.path root)).reverse.find?
          (hasHeight fromStr files h))) ∧
      ∀ h path, c.getPathForHeight h = some path →
        (∃ f ∈ (allHourlyFiles time hourly).getD [], f.path root = path) ∧
        ∃ content result c', files path = some content ∧
          tryCollectLocalBlock fromStr (lineFiles files) h c = .ok (result, c') ∧
          (∃ b ∈ completeBlocks fromStr content, b.number = h) ∧
          (∀ b ∈ result, b.number = h ∧ b ∈ completeBlocks fromStr content) ∧
          (result.isSome ↔ FitsCache (completeBlocks fromStr content) h) := by
  have hpaths : ∀ path ∈ ((allHourlyFiles time hourly).getD []).map (·.path root),
      ∃ content, files path = some content ∧ IsHourFile fromStr content := by
    intro path hpath
    obtain ⟨f, hf, rfl⟩ := List.mem_map.1 hpath
    exact hfiles f hf
  -- The loop over the files starts with an empty cache, so every path it has comes from them.
  obtain ⟨c, hfold, hcache, hfound, hget⟩ :=
    foldlM_backfillFile hempty hpaths cutoff (.new cacheSize)
  have hnew : ∀ h, (LocalBlocksCache.new cacheSize).getPathForHeight h = none := fun h => rfl
  refine ⟨c, hfold, fun h => ?_, fun h hle => ?_, fun h path hpath => ?_⟩
  · refine LocalBlocksCache.getBlock_of_none ?_
    rw [hcache]
    rfl
  · rw [hget h hle, hnew, Option.or_none]
  · obtain ⟨hmem, hhas⟩ | hold := hfound h path hpath
    · obtain ⟨content, hcontent, hfile⟩ := hpaths path hmem
      obtain ⟨result, c', hcollect, hresult, hiff⟩ :=
        tryCollectLocalBlock_of_path hcache hpath hcontent hfile hhas
      exact ⟨List.mem_map.1 hmem, content, result, c', hcontent, hcollect,
        List.mem_map.1 ((hasHeight_iff hcontent).1 hhas), hresult, hiff⟩
    · cases hold

/-! ## The latest block -/

/-- A block that is in one of the files. -/
def IsLocalBlock (fromStr : String → Option LocalBlockAndReceipts)
    (files : String → Option (List UInt8)) (time : TimeCrate) (root : String)
    (hourly : Option (List (Option DayEntry))) (b : BlockAndReceipts) : Prop :=
  ∃ f ∈ (allHourlyFiles time hourly).getD [], ∃ content, files (f.path root) = some content ∧
    b ∈ allBlocks fromStr content

/-- The files are in the order of their heights. -/
def HeightsInOrder (fromStr : String → Option LocalBlockAndReceipts)
    (files : String → Option (List UInt8)) (time : TimeCrate) (root : String)
    (hourly : Option (List (Option DayEntry))) : Prop :=
  ((allHourlyFiles time hourly).getD []).Pairwise fun f f' => ∀ content content',
    files (f.path root) = some content → files (f'.path root) = some content' →
    ∀ b ∈ allBlocks fromStr content, ∀ b' ∈ allBlocks fromStr content', b.number < b'.number

/-- The latest block is the last one of the latest file, or else the one of the fallback. -/
theorem HlNodeBlockSource.findLatestBlockNumber_eq {f : HourlyFile}
    (hlatest : findLatestHourlyFile time hourly = some f)
    (hpath : files (f.path root) = some content) {result : Option (BlockAndReceipts × UInt64)}
    (hread : readLastCompleteLine fromStr content = .ok result) (fallback : Option UInt64) :
    findLatestBlockNumber fromStr files time root hourly fallback =
      .ok ((result.map (·.2)).or fallback) := by
  have hread' : readLastBlockFromFile fromStr files (f.path root) = .ok result := by
    rw [readLastBlockFromFile, hpath]
    exact hread
  simp only [findLatestBlockNumber, hlatest, hread']
  cases result with
  | none => rfl
  | some r => rfl

/-- The latest file is the last one of the list. -/
theorem allHourlyFiles_of_findLatest {f : HourlyFile}
    (h : findLatestHourlyFile time hourly = some f) :
    ∃ before, (allHourlyFiles time hourly).getD [] = before ++ [f] := by
  cases hall : allHourlyFiles time hourly with
  | none => simp [findLatestHourlyFile, hall] at h
  | some listed =>
    rw [findLatestHourlyFile, hall] at h
    exact List.getLast?_eq_some_iff.1 h

/-- **The latest block**: if the files are in the order of their heights, the latest block of the
    source is the greatest height in the files, or the latest block of the fallback. It is the
    first if the latest file ends with a line that is a block, and the second if there are no
    files. -/
theorem localLatestBlock_spec (hempty : fromStr "" = none)
    (hfiles : ∀ f ∈ (allHourlyFiles time hourly).getD [],
      ∃ content, files (f.path root) = some content ∧ IsHourFile fromStr content)
    (hordered : HeightsInOrder fromStr files time root hourly) (fallback : Option UInt64) :
    ∃ result, findLatestBlockNumber fromStr files time root hourly fallback = .ok result ∧
      (result = fallback ∨ ∃ b, result = some b.number ∧
        IsLocalBlock fromStr files time root hourly b ∧
        ∀ b', IsLocalBlock fromStr files time root hourly b' → b'.number ≤ b.number) ∧
      (findLatestHourlyFile time hourly = none → result = fallback) ∧
      ∀ f ls line r, findLatestHourlyFile time hourly = some f → newline ∉ line →
        parse fromStr line = .ok (some r) →
        files (f.path root) = some (unlines newline (ls ++ [line])) → result = some r.2 := by
  cases hlatest : findLatestHourlyFile time hourly with
  | none =>
    refine ⟨fallback, ?_, .inl rfl, fun _ => rfl, fun f ls line r hf => by cases hf⟩
    rw [findLatestBlockNumber, hlatest]
    rfl
  | some f =>
    obtain ⟨before, hbefore⟩ := allHourlyFiles_of_findLatest hlatest
    have hmem : f ∈ (allHourlyFiles time hourly).getD [] :=
      hbefore ▸ List.mem_append_right _ List.mem_cons_self
    obtain ⟨content, hpath, hfile⟩ := hfiles f hmem
    obtain ⟨result, hread, hlast⟩ := readLastCompleteLine_isLast hempty hfile
    refine ⟨_, findLatestBlockNumber_eq hlatest hpath hread fallback, ?_, (fun h => by cases h),
      fun f' ls line r hf hline hparse hcontent => ?_⟩
    · cases result with
      | none => exact .inl rfl
      | some r =>
        obtain ⟨hblock, hnumber, hle⟩ := hfile.le_of_isLast (hlast r rfl)
        refine .inr ⟨r.1, congrArg some hnumber, ⟨f, hmem, content, hpath, hblock⟩, ?_⟩
        rintro b ⟨f', hf', content', hpath', hb⟩
        rw [hbefore] at hf'
        obtain hf' | hf' := List.mem_append.1 hf'
        · -- An earlier file has smaller heights.
          rw [HeightsInOrder, hbefore] at hordered
          exact UInt64.le_of_lt ((List.pairwise_append.1 hordered).2.2 f' hf' f
            List.mem_cons_self content' content hpath' hpath b hb r.1 hblock)
        · obtain rfl := List.mem_singleton.1 hf'
          obtain rfl : content = content' := Option.some.inj (hpath.symm.trans hpath')
          rw [← hnumber]
          exact hle b hb
    · cases hf
      obtain rfl := Option.some.inj (hpath.symm.trans hcontent)
      rw [readLastCompleteLine_of_unlines hline hparse] at hread
      cases hread
      rfl

end

/-! ## A file with one block -/

theorem carriageReturn_notMem_zeroLine {number : String} (h : '\r' ∉ number.toList) :
    '\r' ∉ (zeroLine number).toList := by
  have hzeros : ∀ n, '\r' ∉ (zeros n).toList := by
    intro n
    simp [zeros, toList_pushn]
  unfold zeroLine zeroLineStart zeroLineEnd
  simp only [String.toList_append, List.mem_append, hzeros, h, not_or]
  simp

/-- The file of block 10. -/
def tenContent : List UInt8 := unlines newline [lineBytes (zeroLine "0xa")]

theorem tenContent_eq : tenContent = lineBytes (zeroLine "0xa") ++ newline :: [] := by
  simp [tenContent]

theorem splitOn_tenContent :
    tenContent.splitOn newline = [lineBytes (zeroLine "0xa"), []] := by
  rw [tenContent_eq, splitOn_append_cons (newline_notMem_lineBytes (by decide)),
    splitOn_of_notMem List.not_mem_nil]

theorem lines_tenContent : lines newline tenContent = [lineBytes (zeroLine "0xa")] := by
  rw [lines, splitOn_tenContent]
  rfl

theorem parseZeroLine_empty : parseZeroLine "" = none := parseZeroLine_short (by decide)

/-- The parser takes only one line for a block. -/
theorem newline_notMem_of_parse {bytes : List UInt8}
    (hparse : parse parseZeroLine bytes = .ok (some r)) : newline ∉ bytes := by
  intro hmem
  obtain ⟨parsed, hstr, -⟩ := fromStr_of_parse_some hparse
  cases htext : fromUtf8 bytes with
  | none =>
    rw [parse, htext] at hparse
    cases hparse
  | some t =>
    rw [← fromUtf8_eq_some_iff.1 htext] at hmem
    rw [htext, Option.getD_some, parseZeroLine_eq_none
      (mem_of_mem_encode utf8EncodeChar_newline hmem)] at hstr
    cases hstr

/-- If the joined lines are a block, it is the last one. -/
theorem isLast_of_parse_joined (left : List (List UInt8))
    (hparse : parse parseZeroLine (joined left) = .ok (some r)) :
    IsLast parseZeroLine left.reverse r := by
  match left with
  | [] =>
    rw [joined, parse_nil parseZeroLine_empty] at hparse
    cases hparse
  | [line] => exact ⟨[], line, [], rfl, hparse, by simp⟩
  | line :: next :: before =>
    exact absurd (List.mem_append_right _ List.mem_cons_self) (newline_notMem_of_parse hparse)

theorem blocksOf_zeroLine_ten :
    blocksOf parseZeroLine (texts [lineBytes (zeroLine "0xa")]) = [zeroBlock 10] := by
  rw [texts, List.map_singleton, lineBytes, fromUtf8_encode, Option.getD_some,
    blocksOf_cons_some parseZeroLine_ten, blocksOf_nil]

theorem allBlocks_tenContent : allBlocks parseZeroLine tenContent = [zeroBlock 10] := by
  have hnil : fromUtf8 [] = some "" := by decide
  rw [allBlocks, splitOn_tenContent, texts, List.map_cons, List.map_singleton,
    ← List.singleton_append, blocksOf_append, hnil, Option.getD_some,
    blocksOf_cons_none parseZeroLine_empty, blocksOf_nil, List.append_nil]
  exact blocksOf_zeroLine_ten

/-- The content is that of a file of an hour. -/
theorem isHourFile_tenContent : IsHourFile parseZeroLine tenContent where
  isText := by
    refine isSome_fromUtf8_iff.2 ⟨(zeroLine "0xa").toList ++ ['\n'], ?_⟩
    rw [encode_append, encode_cons, encode_nil, utf8EncodeChar_newline, tenContent_eq]
    rfl
  notCarriageReturn l hl hlast := by
    rw [lines_tenContent, List.mem_singleton] at hl
    rw [hl] at hlast
    exact carriageReturn_notMem_zeroLine (by decide)
      (mem_of_mem_encode utf8EncodeChar_carriageReturn (List.mem_of_getLast? hlast))
  increasing := by
    rw [allBlocks_tenContent]
    exact List.pairwise_singleton _ _
  isLast left _ _ hparse := isLast_of_parse_joined left hparse

/-- The directory with the file of an hour. -/
def tenHourly : Option (List (Option DayEntry)) :=
  some [some ⟨some "20250731".toList, some [some "4".toList]⟩]

/-- The contents of that file. -/
def tenFiles (path : String) : Option (List UInt8) :=
  if path = "/data/hourly/20250731/4" then some tenContent else none

theorem allHourlyFiles_tenHourly :
    allHourlyFiles oneDay tenHourly = some [⟨"20250731".toList, "4".toList⟩] := by decide +kernel

/-- Every file that is listed is one of an hour. -/
theorem tenFiles_listed : ∀ f ∈ (allHourlyFiles oneDay tenHourly).getD [],
    ∃ content, tenFiles (f.path "/data") = some content ∧ IsHourFile parseZeroLine content := by
  rw [allHourlyFiles_tenHourly, Option.getD_some]
  intro f hf
  rw [List.mem_singleton.1 hf]
  exact ⟨tenContent, if_pos (by decide), isHourFile_tenContent⟩

theorem hasHeight_ten : hasHeight parseZeroLine tenFiles 10 "/data/hourly/20250731/4" := by
  have hpath : tenFiles "/data/hourly/20250731/4" = some tenContent := if_pos rfl
  rw [hasHeight_iff hpath, completeBlocks, isHourFile_tenContent.texts_lines, lines_tenContent,
    blocksOf_zeroLine_ten]
  exact List.mem_cons_self

theorem tryBackfillLocalBlocks_spec_ten :
    ∃ c, tryBackfillLocalBlocks parseZeroLine tenFiles oneDay "/data" tenHourly 10
        (.new cacheSize) = .ok c ∧ c.getPathForHeight 10 = some "/data/hourly/20250731/4" := by
  obtain ⟨c, hback, -, hget, -⟩ :=
    tryBackfillLocalBlocks_spec parseZeroLine_empty tenFiles_listed 10
  refine ⟨c, hback, ?_⟩
  have hpath : HourlyFile.path "/data" ⟨"20250731".toList, "4".toList⟩ =
      "/data/hourly/20250731/4" := by decide
  rw [hget 10 (UInt64.le_refl 10), allHourlyFiles_tenHourly, Option.getD_some, List.map_singleton,
    hpath]
  exact List.find?_cons_of_pos hasHeight_ten

theorem localLatestBlock_spec_ten :
    HlNodeBlockSource.findLatestBlockNumber parseZeroLine tenFiles oneDay "/data" tenHourly
      (some 3) = .ok (some 10) := by
  have hordered : HeightsInOrder parseZeroLine tenFiles oneDay "/data" tenHourly := by
    rw [HeightsInOrder, allHourlyFiles_tenHourly]
    exact List.pairwise_singleton _ _
  obtain ⟨result, hresult, -, -, hfound⟩ :=
    localLatestBlock_spec parseZeroLine_empty tenFiles_listed hordered (some 3)
  have hlatest : findLatestHourlyFile oneDay tenHourly = some ⟨"20250731".toList, "4".toList⟩ := by
    rw [findLatestHourlyFile, allHourlyFiles_tenHourly]
    rfl
  rw [hresult, hfound _ [] _ _ hlatest (newline_notMem_lineBytes (by decide)) parse_ten
    (if_pos (by decide))]

end Nanoreth
