import Mathlib.Data.List.TakeWhile
import Nanoreth.PseudoPeer.Bodies

/-!
# Ranges of headers

Which headers the pseudo peer sends, given that its store has the blocks of a chain up to a tip. A
request asks for every block in steps of `skip + 1` from its start on, up to a limit; the answer
should end where the chain ends (`GetBlockHeaders.requested`).

The headers that are sent are others:

* the numbers from the start on are collected without a step: `skip` is ignored;
* one block past the tip fails the whole batch, and no headers are sent;
* the ends of the range wrap around. In particular, if more headers are asked for than there are
  down to block 0, then the range is empty, and no header is sent. Also, the path of the file of
  block 0 is computed from the block before it (`rmpPath`).

The headers asked for are sent, and nothing wraps, exactly when the range is within the chain and
within the numbers, and no step is asked for (`blockHeaders_iff`).
-/

namespace Nanoreth

open Lru Partial

variable {ε : Type}

/-! ## A chain up to its tip -/

/-- A store has the blocks of a chain up to a tip, and no others: its source and the hardcoded
    blocks have all of them. -/
structure SourceChain.HasUpTo (chain : SourceChain) (tip : UInt64) (source : BlockSource ε)
    (store : BlockStore) : Prop where
  keeps : store.Keeps fun n block => n ≤ tip ∧ chain.IsBlock n block
  offers : ∀ n ≤ tip, store.Offers source n (chain.block n)
  collectsAll : source.CollectsAll
  bounded : ∀ heights blocks, source.collectBlocks heights = .ok blocks →
    ∀ block ∈ blocks, block.number ≤ tip ∧ chain.IsBlock block.number block

namespace SourceChain.HasUpTo

variable {chain : SourceChain} {tip : UInt64} {source : BlockSource ε} {store : BlockStore}
  {iteration : IterationOrder BlockAndReceipts} {heights : List UInt64}

/-- The blocks that are returned are not past the tip. -/
theorem le_tip (h : chain.HasUpTo tip source store) {blocks : List BlockAndReceipts}
    (hblocks : (store.getByNumbers source iteration heights).1 = .ok blocks) :
    ∀ n ∈ heights, n ≤ tip := by
  intro n hn
  have hsupplies : (StoreOp.getByNumbers source iteration heights).Supplies
      (fun n block => n ≤ tip ∧ chain.IsBlock n block) store.gapBlocks := h.bounded
  have hspec := (StoreOp.spec h.keeps hsupplies).2.1
  rw [StoreOp.served, hblocks] at hspec
  have hlength := BlockStore.length_getByNumbers hblocks
  rw [← List.map_fst_zip hlength.ge] at hn
  obtain ⟨entry, hentry, rfl⟩ := List.mem_map.1 hn
  exact (hspec entry hentry).1

/-- A batch succeeds for different heights up to the tip. -/
theorem getByNumbers_iff (h : chain.HasUpTo tip source store) {blocks : List BlockAndReceipts} :
    (store.getByNumbers source iteration heights).1 = .ok blocks ↔
      (∀ n ∈ heights, n ≤ tip) ∧ heights.Nodup ∧ blocks = heights.map chain.block := by
  have hkeeps : store.Keeps chain.IsBlock :=
    ⟨fun entry hentry => (h.keeps.blocks entry hentry).2,
      fun n block hgap => (h.keeps.gaps n block hgap).2⟩
  constructor
  · intro hblocks
    have htip := h.le_tip hblocks
    exact ⟨htip, (SourceChain.getByNumbers_iff hkeeps h.collectsAll
      fun n hn => h.offers n (htip n hn)).1 hblocks⟩
  · rintro ⟨htip, hblocks⟩
    exact (SourceChain.getByNumbers_iff hkeeps h.collectsAll
      fun n hn => h.offers n (htip n hn)).2 hblocks

end SourceChain.HasUpTo

namespace PseudoPeer

/-- The header of a converted block. -/
def header (peer : PseudoPeer ε) (block : BlockAndReceipts) : HlHeader :=
  .fromEthereumHeader peer.crypto block.sealedBlock.header.header
    (mergeReceipts block.systemTxs block.receipts) (retainedSystemTxs block.systemTxs).length

variable {peer : PseudoPeer ε}

/-- The header of a converted block. -/
theorem header_of_toRethBlock {block : BlockAndReceipts} {hlBlock : HlBlock}
    {spotCache spotCache' : SpotCache}
    (h : peer.toRethBlock block spotCache = .ok (hlBlock, spotCache')) :
    hlBlock.header = peer.header block := by
  simp only [toRethBlock, BlockAndReceipts.toRethBlock, SealedBlock.toRethBlock, bind_eq_ok,
    pure_eq_ok, Prod.mk.injEq] at h
  obtain ⟨systemTransactions, _, -, rfl, -⟩ := h
  rfl

/-- Different blocks of a chain have different headers. -/
theorem header_injective (peer : PseudoPeer ε) (chain : SourceChain) :
    Function.Injective fun n => peer.header (chain.block n) := by
  intro m n heq
  have hnumber := congrArg (fun header => header.inner.number) heq
  change (chain.block m).number = (chain.block n).number at hnumber
  rwa [chain.number_block, chain.number_block] at hnumber

/-- The headers of distinct numbers are sent exactly when none of them is past the tip. -/
theorem responses_headers_iff {chain : SourceChain} {tip : UInt64} {store : BlockStore}
    {spotCache : SpotCache} {numbers : List UInt64} {headers : List HlHeader}
    (hstore : chain.HasUpTo tip peer.source store)
    (hconverts : ∀ n ≤ tip, peer.Converts (chain.block n)) (hnodup : numbers.Nodup) :
    (peer.respond store spotCache numbers fun blocks =>
        .blockHeaders (blocks.map (·.header))).responses = [.blockHeaders headers] ↔
      (∀ n ∈ numbers, n ≤ tip) ∧ headers = numbers.map fun n => peer.header (chain.block n) := by
  -- The header of a block does not depend on how its transactions are converted.
  have hheaders : ∀ hlBlocks spotCache', (numbers.map chain.block).mapM peer.toRethBlock spotCache =
      .ok (hlBlocks, spotCache') →
        hlBlocks.map (·.header) = numbers.map fun n => peer.header (chain.block n) := by
    intro hlBlocks spotCache' hblocks
    have hresults := List.forall₂_map_left_iff.1 (forall₂_of_mapM hblocks)
    rw [← List.forall₂_eq_eq_eq, List.forall₂_map_left_iff, List.forall₂_map_right_iff]
    refine hresults.flip.imp fun hlBlock n hblock => ?_
    obtain ⟨spotCache₁, spotCache₂, hblock⟩ := hblock
    exact header_of_toRethBlock hblock
  simp only [responses_eq_singleton_iff, hstore.getByNumbers_iff]
  constructor
  · rintro ⟨blocks, hlBlocks, spotCache', ⟨htip, -, rfl⟩, hblocks, heq⟩
    cases heq
    exact ⟨htip, hheaders _ _ hblocks⟩
  · rintro ⟨htip, rfl⟩
    have hconverted : ∀ block ∈ numbers.map chain.block, peer.Converts block := by
      intro block hblock
      obtain ⟨n, hn, rfl⟩ := List.mem_map.1 hblock
      exact hconverts n (htip n hn)
    obtain ⟨hlBlocks, spotCache', hblocks⟩ := exists_mapM hconverted spotCache
    exact ⟨_, hlBlocks, spotCache', ⟨htip, hnodup, rfl⟩, hblocks, by rw [hheaders _ _ hblocks]⟩

end PseudoPeer

/-! ## Numbers -/

/-- The path of the file of a block, in sources of files. -/
def rmpPath (height : UInt64) : String :=
  let f := (height - 1) / 1000000 * 1000000
  let s := (height - 1) / 1000 * 1000
  s!"{f}/{s}/{height}.rmp.lz4"

namespace GetBlockHeaders

/-- The number of the `i`-th block that is asked for. -/
def position (request : GetBlockHeaders) (number : UInt64) (i : ℕ) : ℤ :=
  match request.direction with
  | .rising => number.toNat + i * (request.skip.toNat + 1)
  | .falling => number.toNat - i * (request.skip.toNat + 1)

/-- The numbers of the blocks that are asked for, up to the end of the chain. -/
def requested (request : GetBlockHeaders) (number tip : UInt64) : List UInt64 :=
  (((List.range request.limit.toNat).map (request.position number)).takeWhile
    fun z : ℤ => 0 ≤ z ∧ z ≤ tip.toNat).map fun z => UInt64.ofNat z.toNat

/-- The ends of the range are computed without wrapping. -/
def SumsExact (request : GetBlockHeaders) (number : UInt64) : Prop :=
  match request.direction with
  | .rising => (number + request.limit).toNat = number.toNat + request.limit.toNat
  | .falling => (number + 1).toNat = number.toNat + 1 ∧
      (number + 1 - request.limit).toNat + request.limit.toNat = (number + 1).toNat

/-- The range is within the chain and within the numbers. -/
def InRange (request : GetBlockHeaders) (number tip : UInt64) : Prop :=
  match request.direction with
  | .rising => number.toNat + request.limit.toNat < 2 ^ 64 ∧
      (request.limit = 0 ∨ number.toNat + request.limit.toNat ≤ tip.toNat + 1)
  | .falling => number.toNat + 1 < 2 ^ 64 ∧ request.limit.toNat ≤ number.toNat + 1 ∧
      (request.limit = 0 ∨ number ≤ tip)

end GetBlockHeaders

/-- Heights can be added unless the sum overflows. -/
theorem toNat_add_eq_iff {a b : UInt64} :
    (a + b).toNat = a.toNat + b.toNat ↔ a.toNat + b.toNat < 2 ^ 64 := by
  have hlt := (a + b).toNat_lt
  constructor
  · intro h
    rwa [h] at hlt
  · intro h
    rw [UInt64.toNat_add, Nat.mod_eq_of_lt h]

/-- Heights can be subtracted unless the difference underflows. -/
theorem toNat_sub_eq_iff {a b : UInt64} :
    (a - b).toNat + b.toNat = a.toNat ↔ b.toNat ≤ a.toNat := by
  constructor
  · omega
  · intro h
    rw [UInt64.toNat_sub_of_le _ _ (UInt64.le_iff_toNat_le.2 h), Nat.sub_add_cancel h]

/-- A range that is not empty ends where its last number is. -/
theorem forall_numberRange_le_iff {start stop tip : UInt64} :
    (∀ n ∈ numberRange start stop, n ≤ tip) ↔
      stop.toNat ≤ start.toNat ∨ stop.toNat ≤ tip.toNat + 1 := by
  simp only [mem_numberRange, UInt64.le_iff_toNat_le, UInt64.lt_iff_toNat_lt]
  constructor
  · intro h
    by_contra hnot
    have hlast : (UInt64.ofNat (stop.toNat - 1)).toNat = stop.toNat - 1 := by
      rw [UInt64.toNat_ofNat', Nat.mod_eq_of_lt (by have := stop.toNat_lt; omega)]
    have htip := h (UInt64.ofNat (stop.toNat - 1))
    rw [hlast] at htip
    omega
  · rintro h n ⟨hstart, hstop⟩
    omega

namespace GetBlockHeaders

variable {request : GetBlockHeaders} {number tip : UInt64}

/-- The range is as it should be when its ends are exact, and no number is past the tip. -/
theorem inRange_iff :
    request.InRange number tip ↔
      request.SumsExact number ∧ ∀ n ∈ request.numbers number, n ≤ tip := by
  obtain ⟨start, limit, skip, direction⟩ := request
  have hzero : limit = 0 ↔ limit.toNat = 0 := UInt64.toNat_inj.symm
  cases direction with
  | rising =>
    simp only [InRange, SumsExact, numbers, forall_numberRange_le_iff, ← toNat_add_eq_iff, hzero]
    refine and_congr_right fun hsum => ?_
    omega
  | falling =>
    have hsucc : (number + 1).toNat = number.toNat + 1 ↔ number.toNat + 1 < 2 ^ 64 :=
      toNat_add_eq_iff (b := 1)
    simp only [InRange, SumsExact, numbers, List.mem_reverse, forall_numberRange_le_iff]
    simp only [hsucc, toNat_sub_eq_iff, hzero, UInt64.le_iff_toNat_le, and_assoc]
    refine and_congr_right fun hsum => ?_
    rw [hsucc.2 hsum]
    refine and_congr_right fun hle => ?_
    have hsub := toNat_sub_eq_iff.2 ((hsucc.2 hsum).symm ▸ hle : limit.toNat ≤ (number + 1).toNat)
    rw [hsucc.2 hsum] at hsub
    omega

/-- The numbers of a range whose ends are exact, in steps of one. -/
theorem numbers_eq (h : request.SumsExact number) :
    request.numbers number = (List.range request.limit.toNat).map fun i =>
      UInt64.ofNat (({ request with skip := 0 } : GetBlockHeaders).position number i).toNat := by
  obtain ⟨start, limit, skip, direction⟩ := request
  cases direction with
  | rising =>
    have hlength : (number + limit).toNat - number.toNat = limit.toNat := by
      simp only [SumsExact] at h
      omega
    simp only [numbers, numberRange, hlength]
    refine List.map_congr_left fun i _ => ?_
    have hposition : ((number.toNat : ℤ) + i * (((0 : UInt64).toNat : ℤ) + 1)).toNat =
        number.toNat + i := by
      simp only [UInt64.toNat_zero, Nat.cast_zero, zero_add, mul_one]
      omega
    simp only [position, hposition, UInt64.ofNat_add, UInt64.ofNat_toNat]
  | falling =>
    simp only [SumsExact] at h
    have hlength : (number + 1).toNat - (number + 1 - limit).toNat = limit.toNat := by
      omega
    simp only [numbers, numberRange, hlength]
    refine List.ext_getElem (by simp only [List.length_reverse, List.length_map]) fun i _ hi => ?_
    rw [List.length_map, List.length_range] at hi
    -- The `i`-th number from the end is `limit - 1 - i` after the start of the range.
    have hposition : ((number.toNat : ℤ) - i * (((0 : UInt64).toNat : ℤ) + 1)).toNat =
        (number + 1 - limit).toNat + (limit.toNat - 1 - i) := by
      simp only [UInt64.toNat_zero, Nat.cast_zero, zero_add, mul_one]
      omega
    simp only [List.getElem_reverse, List.getElem_map, List.getElem_range, List.length_map,
      List.length_range, position, hposition, UInt64.ofNat_add, UInt64.ofNat_toNat]

theorem toNat_ofNat_of_le {z : ℤ} (h : z ≤ tip.toNat) :
    (UInt64.ofNat z.toNat).toNat = z.toNat := by
  have htip := tip.toNat_lt
  rw [UInt64.toNat_ofNat', Nat.mod_eq_of_lt (by omega)]

/-- The positions of the numbers are in the chain if the numbers are. -/
theorem position_mem (hrange : request.InRange number tip) {i : ℕ}
    (hi : i < request.limit.toNat) :
    let z := ({ request with skip := 0 } : GetBlockHeaders).position number i
    0 ≤ z ∧ z ≤ tip.toNat := by
  obtain ⟨start, limit, skip, direction⟩ := request
  have hzero : limit = 0 ↔ limit.toNat = 0 := UInt64.toNat_inj.symm
  cases direction with
  | rising =>
    simp only [InRange, position, hzero, UInt64.toNat_zero, Nat.cast_zero, zero_add,
      mul_one] at hrange hi ⊢
    omega
  | falling =>
    simp only [InRange, position, hzero, UInt64.le_iff_toNat_le, UInt64.toNat_zero, Nat.cast_zero,
      zero_add, mul_one] at hrange hi ⊢
    omega

/-- The first two positions are one apart only if no number is skipped. -/
theorem skip_eq_zero_of_position {n : UInt64}
    (h : request.position n 1 = ({ request with skip := 0 } : GetBlockHeaders).position n 1) :
    request.skip = 0 := by
  obtain ⟨start, limit, skip, direction⟩ := request
  refine UInt64.toNat_inj.1 ?_
  cases direction <;> simp only [position, UInt64.toNat_zero] at h ⊢ <;> omega

theorem position_zero (request : GetBlockHeaders) (number : UInt64) :
    request.position number 0 = number.toNat := by
  unfold position
  split <;> simp

/-- The numbers that are collected are those asked for exactly when there is one at most or none is
    skipped. -/
theorem numbers_eq_requested_iff (hrange : request.InRange number tip) :
    request.requested number tip = request.numbers number ↔
      request.limit.toNat ≤ 1 ∨ request.skip = 0 := by
  rw [numbers_eq (inRange_iff.1 hrange).1, requested]
  constructor
  · intro h
    by_contra hnot
    rw [not_or, Nat.not_le] at hnot
    -- As many are asked for as are collected, so none of them is outside of the chain.
    have hwhole : ((List.range request.limit.toNat).map (request.position number)).takeWhile
        (fun z : ℤ => 0 ≤ z ∧ z ≤ tip.toNat) =
          (List.range request.limit.toNat).map (request.position number) := by
      refine (List.takeWhile_prefix _).eq_of_length ?_
      simpa using congrArg List.length h
    rw [hwhole, List.map_map, List.map_inj_left] at h
    have hone := congrArg UInt64.toNat (h 1 (List.mem_range.2 hnot.1))
    have hmem := List.takeWhile_eq_self_iff.1 hwhole (request.position number 1)
      (List.mem_map.2 ⟨1, List.mem_range.2 hnot.1, rfl⟩)
    rw [decide_eq_true_eq] at hmem
    obtain ⟨hnonneg, htip⟩ := position_mem hrange hnot.1
    rw [Function.comp_apply, toNat_ofNat_of_le hmem.2, toNat_ofNat_of_le htip] at hone
    refine hnot.2 (skip_eq_zero_of_position (n := number) ?_)
    omega
  · intro h
    have hposition : ∀ i ∈ List.range request.limit.toNat, request.position number i =
        ({ request with skip := 0 } : GetBlockHeaders).position number i := by
      intro i hi
      rw [List.mem_range] at hi
      rcases h with hlimit | hskip
      · obtain rfl : i = 0 := by omega
        rw [position_zero, position_zero]
      · rw [← hskip]
    rw [List.map_congr_left hposition, List.takeWhile_eq_self_iff.2, List.map_map]
    · rfl
    · intro z hz
      obtain ⟨i, hi, rfl⟩ := List.mem_map.1 hz
      exact decide_eq_true (position_mem hrange (List.mem_range.1 hi))

end GetBlockHeaders

/-! ## Headers -/

/-- The headers asked for are sent, and neither the ends of their range nor the paths of the blocks
    that are fetched wrap, exactly when the range is within the chain and within the numbers, there
    is one header at most or none is skipped, and block 0 is not fetched from a file. -/
theorem PseudoPeer.blockHeaders_iff (peer : PseudoPeer ε) (chain : SourceChain) (tip : UInt64)
    (store : BlockStore) (spotCache : SpotCache) (request : GetBlockHeaders) (number : UInt64)
    (fromFile : UInt64 → Prop) (hstore : chain.HasUpTo tip peer.source store)
    (hconverts : ∀ n ≤ tip, peer.Converts (chain.block n))
    (hnumber : request.resolve store = .ok number) :
    let fetched := (store.lookupAll (request.numbers number)).uncachedHeights
    ((peer.processEthRequest store spotCache (.getBlockHeaders request)).responses =
        [.blockHeaders ((request.requested number tip).map fun n =>
          peer.header (chain.block n))] ∧
      request.SumsExact number ∧
      ∀ height ∈ fetched, fromFile height → (height - 1).toNat + 1 = height.toNat) ↔
    request.InRange number tip ∧ (request.limit.toNat ≤ 1 ∨ request.skip = 0) ∧
      ∀ height ∈ fetched, fromFile height → height ≠ 0 := by
  -- The path of a block is that of the height before it, which underflows at height zero only.
  have hpath : ∀ height : UInt64, (height - 1).toNat + 1 = height.toNat ↔ height ≠ 0 := by
    intro height
    refine (toNat_sub_eq_iff (b := 1)).trans ?_
    rw [Ne, ← UInt64.toNat_inj]
    exact Nat.one_le_iff_ne_zero
  simp only [processEthRequest, hnumber, hpath,
    responses_headers_iff hstore hconverts (request.nodup_numbers number),
    (peer.header_injective chain).list_map.eq_iff]
  constructor
  · rintro ⟨⟨htip, heq⟩, hsums, hpaths⟩
    have hrange := GetBlockHeaders.inRange_iff.2 ⟨hsums, htip⟩
    exact ⟨hrange, (GetBlockHeaders.numbers_eq_requested_iff hrange).1 heq, hpaths⟩
  · rintro ⟨hrange, hskip, hpaths⟩
    obtain ⟨hsums, htip⟩ := GetBlockHeaders.inRange_iff.1 hrange
    exact ⟨⟨htip, (GetBlockHeaders.numbers_eq_requested_iff hrange).2 hskip⟩, hsums, hpaths⟩

/-! ### A chain up to a tip -/

namespace PseudoPeer

/-- The source has the blocks of the chain up to the tip. -/
theorem hasUpTo_counting (tip : UInt64) :
    countingChain.HasUpTo tip (countingPeer tip).source (.new none [] mainnetChainId) where
  keeps := ⟨fun _ h => absurd h List.not_mem_nil,
    fun _ _ h => absurd h (Option.some_ne_none _).symm⟩
  offers n hn := .inr ⟨rfl, if_pos hn, rfl⟩
  collectsAll _ _ h := h
  bounded heights blocks h block hblock := by
    obtain ⟨n, -, hn⟩ := exists_of_mem_mapM h hblock
    split_ifs at hn with hle
    cases hn
    exact ⟨hle, rfl⟩

/-- The headers from block 3 down to block 2 are sent. -/
theorem blockHeaders_iff_falling :
    ((countingPeer 10).processEthRequest (.new none [] mainnetChainId) emptyCache
      (.getBlockHeaders ⟨.number 3, 2, 0, .falling⟩)).responses =
        [.blockHeaders ([3, 2].map fun n => (countingPeer 10).header (countingBlock n))] := by
  refine ((blockHeaders_iff (countingPeer 10) countingChain 10 (.new none [] mainnetChainId)
    emptyCache ⟨.number 3, 2, 0, .falling⟩ 3 (fun _ => True) (hasUpTo_counting 10)
    (fun _ _ _ => ⟨_, rfl⟩) rfl).2 ⟨?_, .inr rfl, ?_⟩).1
  · exact ⟨by decide, by decide, .inr (by decide)⟩
  · have hne : ∀ height ∈ [(3 : UInt64), 2], height ≠ 0 := by simp
    exact fun height hmem _ => hne height hmem

/-- Three headers are asked for from block 1 down, and two are there, but none is sent. Two are
    asked for from block 1 on, skipping one of them, but that of block 2 is sent. The path of
    block 0 is that of the last folder. -/
theorem blockHeaders_wrapped :
    let falling : GetBlockHeaders := ⟨.number 1, 3, 0, .falling⟩
    let skipping : GetBlockHeaders := ⟨.number 1, 2, 1, .rising⟩
    let handled request := (countingPeer 10).processEthRequest (.new none [] mainnetChainId)
      emptyCache (.getBlockHeaders request)
    (handled falling).responses = [.blockHeaders []] ∧ falling.requested 1 10 = [1, 0] ∧
    (handled skipping).responses =
      [.blockHeaders ([1, 2].map fun n => (countingPeer 10).header (countingBlock n))] ∧
      skipping.requested 1 10 = [1, 3] ∧
    rmpPath 0 = "18446744073709000000/18446744073709551000/0.rmp.lz4" := by
  exact ⟨rfl, rfl, rfl, rfl, by decide⟩

end PseudoPeer

end Nanoreth
