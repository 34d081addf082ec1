import Nanoreth.HlNodeSource.Scan

/-!
# Tailing the files of a local node

The ingest loop of the node scans a file again and again while it grows
(`start_local_ingest_loop`). Every scan finds the lines that have been completed since the
last one, a *batch*, and starts at the height the last one expected (`ingest`).

If the heights of the blocks of a file increase, this should load what one scan of the whole
file would (`LoadsLikeOneScan`). It does exactly if every batch `Reaches` the start height
(`ingest_iff`). The step is `position_scan_iff`: a scan that starts at the position of the
loop in the file ends at the one after its batch, exactly if the batch reaches the start
height. A batch of earlier blocks only does not: as some block was seen, the scan expects the
height after the start height, and the block of the start height is never loaded
(`ingest_skips_block`).
-/

namespace Nanoreth

open Tail Scanner

variable (fromStr : String → Option LocalBlockAndReceipts) (path : String)

/-- The scans of a file by the ingest loop, from a height on: each one starts at the height
    the last one expected. -/
def ingest (nextHeight : UInt64) : List (List String) → List ScanResult
  | [] => []
  | lines :: batches =>
    let scanResult := scanHourFile fromStr path lines
      { startHeight := nextHeight, onlyLoadRanges := false }
    scanResult :: ingest scanResult.nextExpectedHeight batches

/-- The heights of the blocks of a file increase. -/
def Increasing (lines : List String) : Prop :=
  (heights (blocksOf fromStr lines)).Pairwise (· < ·)

/-- Scanning batches of lines, one after the other, loads what one scan of all lines loads:
    the blocks from `s` on. After each scan, the height expected next is one more than the
    greatest height from `s` on seen so far, or `s`. -/
structure LoadsLikeOneScan (s : UInt64) (batches : List (List String)) : Prop where
  once : (ingest fromStr path s batches).flatMap (·.newBlocks) =
    (scanHourFile fromStr path batches.flatten ⟨s, false⟩).newBlocks
  all : (scanHourFile fromStr path batches.flatten ⟨s, false⟩).newBlocks =
    (blocksOf fromStr batches.flatten).filter (s ≤ ·.number)
  next : ∀ i scanResult, (ingest fromStr path s batches)[i]? = some scanResult →
    Position s.toNat (heights (blocksOf fromStr (batches.take (i + 1)).flatten))
      scanResult.nextExpectedHeight.toNat

/-- A batch with blocks has one from `s` on, and none of the last height there is. -/
structure Reaches (s : UInt64) (lines : List String) : Prop where
  start : blocksOf fromStr lines ≠ [] → ∃ b ∈ blocksOf fromStr lines, s ≤ b.number
  bounded : ∀ b ∈ blocksOf fromStr lines, b.number.toNat + 1 < 2 ^ 64

variable {fromStr path} {s t : UInt64}

/-- The next height does not wrap around unless the height is the largest. -/
theorem toNat_add_one_eq_iff {a : UInt64} :
    (a + 1).toNat = a.toNat + 1 ↔ a.toNat + 1 < 2 ^ 64 := by
  rw [UInt64.toNat_add, UInt64.toNat_one]
  omega

theorem toNat_add_one_ne (a : UInt64) : (a + 1).toNat ≠ a.toNat := by
  rw [UInt64.toNat_add, UInt64.toNat_one]
  omega

section Batch

variable {seen : List BlockAndReceipts} {lines : List String}

/-- A batch that has blocks from `s` on reaches it, unless one has the last height. -/
theorem reaches_iff_of_isGreatest {last : UInt64}
    (hlast : IsGreatest (keysFrom s.toNat (heights (blocksOf fromStr lines))) last.toNat) :
    Reaches fromStr s lines ↔ last.toNat + 1 < 2 ^ 64 := by
  obtain ⟨⟨hs, hmem⟩, hupper⟩ := hlast
  obtain ⟨b, hb, hnumber⟩ := mem_heights.1 hmem
  constructor
  · intro h
    rw [← hnumber]
    exact h.bounded b hb
  · intro h
    refine ⟨fun _ => ⟨b, hb, ?_⟩, fun b' hb' => ?_⟩
    · rw [UInt64.le_iff_toNat_le, hnumber]
      exact hs
    · by_cases hb's : s.toNat ≤ b'.number.toNat
      · have := hupper ⟨hb's, mem_heights.2 ⟨b', hb', rfl⟩⟩
        omega
      · omega

/-- Blocks that are all below the start do not reach it. -/
theorem not_reaches (hblocks : blocksOf fromStr lines ≠ [])
    (h : ∀ k ∈ heights (blocksOf fromStr lines), k < s.toNat) : ¬Reaches fromStr s lines := by
  intro hreaches
  obtain ⟨b, hb, hs⟩ := hreaches.start hblocks
  have := h _ (mem_heights.2 ⟨b, hb, rfl⟩)
  exact absurd (UInt64.le_iff_toNat_le.1 hs) (Nat.not_le.2 this)

/-- A scan from the position of the loop ends at the position after its batch exactly if the
    batch reaches the start height of the loop. -/
theorem position_scan_iff (path : String) (ht : Position s.toNat (heights seen) t.toNat)
    (hinc : (heights (seen ++ blocksOf fromStr lines)).Pairwise (· < ·)) :
    Position s.toNat (heights (seen ++ blocksOf fromStr lines))
        (scanHourFile fromStr path lines ⟨t, false⟩).nextExpectedHeight.toNat ↔
      Reaches fromStr s lines := by
  by_cases hblocks : blocksOf fromStr lines = []
  · -- No block: the scan does not move.
    rw [nextExpectedHeight_of_nil path _ hblocks, hblocks, List.append_nil]
    exact iff_of_true ht ⟨fun h => absurd hblocks h, fun b hb => by simp [hblocks] at hb⟩
  obtain ⟨last, hnext, hlast⟩ := nextExpectedHeight_of_ne_nil path ⟨t, false⟩ hblocks
  rw [heights_append] at hinc
  rw [hnext, heights_append]
  rcases (keysFrom t.toNat (heights (blocksOf fromStr lines))).eq_empty_or_nonempty with hk | hk
  · -- Earlier blocks only: the position stays, but the scan moves by one.
    rw [ht.keysFrom_eq hinc] at hk
    have hlt : ∀ k ∈ heights (blocksOf fromStr lines), k < s.toNat := fun k hmem =>
      Nat.lt_of_not_le fun hsk => Set.eq_empty_iff_forall_notMem.1 hk k ⟨hsk, hmem⟩
    rw [position_append_of_lt hlt]
    refine iff_of_false (fun h => ?_) (not_reaches hblocks hlt)
    have hlast' : last = t := by
      rw [ht.keysFrom_eq hinc, hk] at hlast
      exact UInt64.toNat_inj.1 (by simpa using hlast.1)
    rw [hlast'] at h
    exact toNat_add_one_ne t (h.unique ht)
  · have hgreatest := isGreatest_of_insert hlast hk fun _ hk => hk.1
    rw [ht.keysFrom_eq hinc] at hgreatest
    rw [position_append_of_isGreatest hinc hgreatest, reaches_iff_of_isGreatest hgreatest,
      toNat_add_one_eq_iff]

/-- A scan from the position of the loop loads the blocks of its batch from `s` on. -/
theorem newBlocks_scan_eq (ht : Position s.toNat (heights seen) t.toNat)
    (hinc : (heights (seen ++ blocksOf fromStr lines)).Pairwise (· < ·)) :
    (scanHourFile fromStr path lines ⟨t, false⟩).newBlocks =
      (blocksOf fromStr lines).filter (s ≤ ·.number) := by
  rw [newBlocks_scanHourFile]
  rw [heights_append] at hinc
  refine List.filter_congr fun b hb => ?_
  rw [decide_eq_decide, UInt64.le_iff_toNat_le, UInt64.le_iff_toNat_le]
  exact ht.le_iff hinc (mem_heights.2 ⟨b, hb, rfl⟩)

end Batch

/-! ## The loop -/

section Loop

variable {seen : List BlockAndReceipts} {batches : List (List String)}

/-- The rest of a file, after a batch. -/
theorem pairwise_append_flatten {lines : List String}
    (h : (heights (seen ++ blocksOf fromStr (lines :: batches).flatten)).Pairwise (· < ·)) :
    (heights (seen ++ blocksOf fromStr lines)).Pairwise (· < ·) ∧
      (heights (seen ++ blocksOf fromStr lines ++ blocksOf fromStr batches.flatten)).Pairwise
        (· < ·) := by
  rw [List.flatten_cons, blocksOf_append, ← List.append_assoc] at h
  refine ⟨?_, h⟩
  rw [heights_append] at h
  exact (List.pairwise_append.1 h).1

/-- All scans of the loop end at the positions of their batches exactly if all batches reach
    the start height. -/
theorem position_ingest_iff (ht : Position s.toNat (heights seen) t.toNat)
    (hinc : (heights (seen ++ blocksOf fromStr batches.flatten)).Pairwise (· < ·)) :
    (∀ i scanResult, (ingest fromStr path t batches)[i]? = some scanResult →
        Position s.toNat (heights (seen ++ blocksOf fromStr (batches.take (i + 1)).flatten))
          scanResult.nextExpectedHeight.toNat) ↔
      ∀ lines ∈ batches, Reaches fromStr s lines := by
  induction batches generalizing seen t with
  | nil => simp [ingest]
  | cons lines batches ih =>
    obtain ⟨hfirst, hrest⟩ := pairwise_append_flatten hinc
    have hscan := position_scan_iff path ht hfirst
    rw [List.forall_mem_cons, ← hscan]
    -- The first batch is scanned from the position before it, the others by induction from the
    -- next.
    constructor
    · intro h
      have hzero := h 0 _ rfl
      simp only [zero_add, List.take_succ_cons, List.take_zero, List.flatten_cons,
        List.flatten_nil, List.append_nil] at hzero
      refine ⟨hzero, (ih hzero hrest).1 fun i scanResult hi => ?_⟩
      have hsucc := h (i + 1) scanResult hi
      rwa [List.take_succ_cons, List.flatten_cons, blocksOf_append, ← List.append_assoc] at hsucc
    · rintro ⟨hzero, h⟩ i scanResult hi
      rw [List.take_succ_cons, List.flatten_cons, blocksOf_append, ← List.append_assoc]
      cases i with
      | zero =>
        obtain rfl := Option.some.inj hi
        simpa using hzero
      | succ i => exact (ih hzero hrest).2 h i scanResult hi

/-- If all batches reach the start height, the loop loads the blocks from there on. -/
theorem newBlocks_ingest (ht : Position s.toNat (heights seen) t.toNat)
    (hinc : (heights (seen ++ blocksOf fromStr batches.flatten)).Pairwise (· < ·))
    (h : ∀ lines ∈ batches, Reaches fromStr s lines) :
    (ingest fromStr path t batches).flatMap (·.newBlocks) =
      (blocksOf fromStr batches.flatten).filter (s ≤ ·.number) := by
  induction batches generalizing seen t with
  | nil => rfl
  | cons lines batches ih =>
    obtain ⟨hfirst, hrest⟩ := pairwise_append_flatten hinc
    rw [List.forall_mem_cons] at h
    rw [ingest, List.flatMap_cons, newBlocks_scan_eq ht hfirst,
      ih ((position_scan_iff path ht hfirst).2 h.1) hrest h.2, List.flatten_cons, blocksOf_append,
      List.filter_append]

end Loop

/-- **Tailing**: scanning a file batch by batch loads what one scan of it would exactly if every
    batch that has blocks has one from the start height on, and no block has the last height
    there is. -/
theorem ingest_iff (batches : List (List String)) (s : UInt64)
    (hinc : Increasing fromStr batches.flatten) :
    LoadsLikeOneScan fromStr path s batches ↔ ∀ lines ∈ batches, Reaches fromStr s lines := by
  have hstart : Position s.toNat (heights []) s.toNat := position_nil
  refine ⟨fun h => (position_ingest_iff hstart hinc).1 h.next,
    fun h => ⟨?_, newBlocks_scanHourFile path _ s, (position_ingest_iff hstart hinc).2 h⟩⟩
  rw [newBlocks_ingest hstart hinc h, newBlocks_scanHourFile]

/-! ## A file with three blocks -/

/-- A block without transactions, whose header is zero apart from the height. -/
def zeroBlock (number : UInt64) : BlockAndReceipts where
  block := .reth115
    { header :=
        { hash := 0
          header :=
            { parentHash := 0, ommersHash := 0, beneficiary := 0, stateRoot := 0,
              transactionsRoot := 0, receiptsRoot := 0, logsBloom := 0, difficulty := 0,
              number := number, gasLimit := 0, gasUsed := 0, timestamp := 0, extraData := [],
              mixHash := 0, nonce := 0, baseFeePerGas := none, withdrawalsRoot := none,
              blobGasUsed := none, excessBlobGas := none, parentBeaconBlockRoot := none,
              requestsHash := none } }
      body := { transactions := [], ommers := [], withdrawals := none } }
  receipts := []
  systemTxs := []
  readPrecompileCalls := []
  highestPrecompileAddress := none

/-- The bytes zero of a hash, a bloom filter or the like, in hexadecimal. -/
def zeros (bytes : ℕ) : String := "\"0x" ++ "".pushn '0' (2 * bytes) ++ "\""

/-- The line of such a block, up to its height. -/
def zeroLineStart : String :=
  "[\"1722633600\",\x7b\"block\":\x7b\"Reth115\":\x7b\"header\":\x7b\"hash\":" ++ zeros 32 ++
  ",\"header\":\x7b\"parentHash\":" ++ zeros 32 ++ ",\"sha3Uncles\":" ++ zeros 32 ++
  ",\"miner\":" ++ zeros 20 ++ ",\"stateRoot\":" ++ zeros 32 ++
  ",\"transactionsRoot\":" ++ zeros 32 ++ ",\"receiptsRoot\":" ++ zeros 32 ++
  ",\"logsBloom\":" ++ zeros 256 ++ ",\"difficulty\":\"0x0\",\"number\":\""

/-- The line of such a block, after its height. -/
def zeroLineEnd : String :=
  "\",\"gasLimit\":\"0x0\",\"gasUsed\":\"0x0\",\"timestamp\":\"0x0\",\"extraData\":\"0x\"" ++
  ",\"mixHash\":" ++ zeros 32 ++ ",\"nonce\":" ++ zeros 8 ++
  "\x7d\x7d,\"body\":\x7b\"transactions\":[],\"ommers\":[],\"withdrawals\":null\x7d\x7d\x7d" ++
  ",\"receipts\":[],\"system_txs\":[],\"read_precompile_calls\":[]" ++
  ",\"highest_precompile_address\":null\x7d]"

/-- The line of the block of height `number`, given in hexadecimal. -/
def zeroLine (number : String) : String := zeroLineStart ++ number ++ zeroLineEnd

/-- The parser, on the lines of the blocks 5, 10 and 11. -/
def parseZeroLine (line : String) : Option LocalBlockAndReceipts :=
  if line = zeroLine "0x5" then some ⟨"1722633600", zeroBlock 5⟩
  else if line = zeroLine "0xa" then some ⟨"1722633600", zeroBlock 10⟩
  else if line = zeroLine "0xb" then some ⟨"1722633600", zeroBlock 11⟩
  else none

theorem zeroLine_ne {number number' : String} (h : number ≠ number') :
    zeroLine number ≠ zeroLine number' := by
  rwa [zeroLine, zeroLine, Ne, String.append_left_inj, String.append_right_inj]

theorem parseZeroLine_five :
    parseZeroLine (zeroLine "0x5") = some ⟨"1722633600", zeroBlock 5⟩ := by
  rw [parseZeroLine, if_pos rfl]

theorem parseZeroLine_ten :
    parseZeroLine (zeroLine "0xa") = some ⟨"1722633600", zeroBlock 10⟩ := by
  rw [parseZeroLine, if_neg (zeroLine_ne (by decide)), if_pos rfl]

theorem parseZeroLine_eleven :
    parseZeroLine (zeroLine "0xb") = some ⟨"1722633600", zeroBlock 11⟩ := by
  rw [parseZeroLine, if_neg (zeroLine_ne (by decide)), if_neg (zeroLine_ne (by decide)),
    if_pos rfl]

theorem parseZeroLine_garbled : parseZeroLine (zeroLine "?") = none := by
  rw [parseZeroLine, if_neg (zeroLine_ne (by decide)), if_neg (zeroLine_ne (by decide)),
    if_neg (zeroLine_ne (by decide))]

/-- The first batch has an earlier block and a line that is not a block. The third one goes on
    where it has stopped. -/
theorem ingest_iff_threeBatches :
    let batches := [[zeroLine "0x5", zeroLine "?", zeroLine "0xa"], [], [zeroLine "0xb"]]
    Increasing parseZeroLine batches.flatten ∧
      LoadsLikeOneScan parseZeroLine "/hourly/20250731/4" 10 batches := by
  intro batches
  have hfirst : blocksOf parseZeroLine [zeroLine "0x5", zeroLine "?", zeroLine "0xa"] =
      [zeroBlock 5, zeroBlock 10] := by
    rw [blocksOf_cons_some parseZeroLine_five, blocksOf_cons_none parseZeroLine_garbled,
      blocksOf_cons_some parseZeroLine_ten, blocksOf_nil]
  have hthird : blocksOf parseZeroLine [zeroLine "0xb"] = [zeroBlock 11] := by
    rw [blocksOf_cons_some parseZeroLine_eleven, blocksOf_nil]
  have hinc : Increasing parseZeroLine batches.flatten := by
    simp only [batches, Increasing, List.flatten_cons, List.flatten_nil, List.append_nil,
      List.nil_append, blocksOf_append, hfirst, hthird]
    decide
  refine ⟨hinc, (ingest_iff batches 10 hinc).2 ?_⟩
  simp only [batches, List.forall_mem_cons]
  refine ⟨⟨fun _ => ?_, ?_⟩, ⟨fun h => absurd rfl h, fun _ hb => absurd hb List.not_mem_nil⟩,
    ⟨fun _ => ?_, ?_⟩, fun _ h => absurd h List.not_mem_nil⟩
  · rw [hfirst]; decide
  · rw [hfirst]; decide
  · rw [hthird]; decide
  · rw [hthird]; decide

/-- Block 5 is written and scanned before block 10. The loop, which starts at height 10, then
    expects 11, and never loads block 10. -/
theorem ingest_skips_block :
    let batches := [[zeroLine "0x5"], [zeroLine "0xa"]]
    let scans := ingest parseZeroLine "/hourly/20250731/4" 10 batches
    Increasing parseZeroLine batches.flatten ∧
      scans.map (·.nextExpectedHeight) = [11, 12] ∧
      scans.flatMap (·.newBlocks) = [] ∧
      (scanHourFile parseZeroLine "/hourly/20250731/4" batches.flatten ⟨10, false⟩).newBlocks =
        [zeroBlock 10] ∧
      ¬LoadsLikeOneScan parseZeroLine "/hourly/20250731/4" 10 batches := by
  intro batches scans
  have hblocks : blocksOf parseZeroLine batches.flatten = [zeroBlock 5, zeroBlock 10] := by
    simp only [batches, List.flatten_cons, List.flatten_nil, List.cons_append, List.nil_append]
    rw [blocksOf_cons_some parseZeroLine_five, blocksOf_cons_some parseZeroLine_ten, blocksOf_nil]
  -- The first block is below the start, but moves the expected height past the second one.
  have hscans : scans = [⟨"/hourly/20250731/4", 11, [], [⟨5, 5⟩]⟩,
      ⟨"/hourly/20250731/4", 12, [], [⟨10, 10⟩]⟩] := by
    simp only [scans, batches, ingest, scanHourFile, List.foldl_cons, List.foldl_nil, scanLine,
      lineToEvmBlock, parseZeroLine_five, parseZeroLine_ten]
    rfl
  have hwhole : (scanHourFile parseZeroLine "/hourly/20250731/4" batches.flatten
      ⟨10, false⟩).newBlocks = [zeroBlock 10] := by
    rw [newBlocks_scanHourFile, hblocks]
    rfl
  refine ⟨?_, by rw [hscans]; rfl, by rw [hscans]; rfl, hwhole, fun h => ?_⟩
  · rw [Increasing, hblocks]
    decide
  · have honce := h.once
    rw [hwhole, show ingest parseZeroLine "/hourly/20250731/4" 10 batches = scans from rfl,
      hscans] at honce
    exact absurd honce (by simp)

end Nanoreth
