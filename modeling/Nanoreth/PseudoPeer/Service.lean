import Nanoreth.PseudoPeer.Batches
import Nanoreth.Types.RoundTrip

/-!
# Requests to the pseudo peer

How the pseudo peer answers the requests of the network for headers and bodies
(`pseudo_peer/service.rs`, `process_eth_request`). The blocks are collected from the block store
in one batch and converted to blocks of the node, and the response is sent on the channel of the
request.

The channel is dropped without a response, however, if the handler returns early or panics. This
is the case unless the start of the headers is not resolved, which is answered by an empty list,
or all blocks are provided (`answered_iff`): no height is repeated, the source answers the batch,
every height is found, and all blocks are converted. One missing block is enough for a request
not to be answered at all.
-/

namespace Nanoreth

open Lru Partial

/-- How the first block of a request is given. -/
inductive HashOrNumber
  | hash (hash : B256)
  | number (number : UInt64)
  deriving DecidableEq

/-- Whether the headers after or before the first one are asked for. -/
inductive HeadersDirection
  | rising
  | falling
  deriving DecidableEq

/-- A request for headers. -/
structure GetBlockHeaders where
  startBlock : HashOrNumber
  limit : UInt64
  skip : UInt64
  direction : HeadersDirection
  deriving DecidableEq

/-- A request of the network. All requests that are not for headers or bodies are ignored. -/
inductive EthRequest
  | getBlockHeaders (request : GetBlockHeaders)
  | getBlockBodies (hashes : List B256)
  | getNodeData
  | other
  deriving DecidableEq

/-- A request for headers or bodies. -/
def EthRequest.AsksBlocks : EthRequest → Prop
  | getBlockHeaders _ => True
  | getBlockBodies _ => True
  | getNodeData => False
  | other => False

/-- What a request is answered with. -/
inductive EthResponse
  | blockHeaders (headers : List HlHeader)
  | blockBodies (bodies : List HlBlockBody)
  deriving DecidableEq

/-- Why the handler of a request does not succeed: the store fails, or it panics. -/
inductive PeerError (ε : Type)
  | store (error : StoreError ε)
  | halt (halt : Halt)

/-- What the handler of a request does: the responses it sends, and the state it leaves. -/
structure Handled (ε : Type) where
  responses : List EthResponse
  result : Except (PeerError ε) Unit
  store : BlockStore
  spotCache : SpotCache

/-- A pseudo peer, with the source of its store as it answers now. -/
structure PseudoPeer (ε : Type) where
  chainId : UInt64
  source : BlockSource ε
  iteration : IterationOrder BlockAndReceipts
  spotEnv : SpotEnv
  fuel : ℕ
  crypto : Crypto

/-- The numbers from `start` on that are less than `stop`. -/
def numberRange (start stop : UInt64) : List UInt64 :=
  (List.range (stop.toNat - start.toNat)).map fun i => start + UInt64.ofNat i

namespace GetBlockHeaders

/-- The number of the first block. -/
def resolve (request : GetBlockHeaders) (store : BlockStore) : Except String UInt64 :=
  match request.startBlock with
  | .hash hash => store.hashToNumber hash
  | .number number => .ok number

/-- The numbers of the blocks that are collected, given that of the first one. -/
def numbers (request : GetBlockHeaders) (number : UInt64) : List UInt64 :=
  match request.direction with
  | .rising => numberRange number (number + request.limit)
  | .falling => (numberRange (number + 1 - request.limit) (number + 1)).reverse

end GetBlockHeaders

/-- The numbers of the hashes that are resolved. -/
def BlockStore.knownNumbers (store : BlockStore) (hashes : List B256) : List UInt64 :=
  hashes.filterMap fun hash => (store.hashToNumber hash).toOption

namespace PseudoPeer

variable {ε : Type} (peer : PseudoPeer ε)

/-- Converts a block to one of the node. -/
def toRethBlock (block : BlockAndReceipts) : SpotM HlBlock :=
  block.toRethBlock peer.spotEnv peer.fuel peer.crypto peer.chainId

/-- Responds with the blocks of the given numbers. -/
def respond (store : BlockStore) (spotCache : SpotCache) (numbers : List UInt64)
    (response : List HlBlock → EthResponse) : Handled ε :=
  match store.getByNumbers peer.source peer.iteration numbers with
  -- The error is returned before anything is sent.
  | (.error e, store) => ⟨[], .error (.store e), store, spotCache⟩
  | (.ok blocks, store) =>
    match blocks.mapM peer.toRethBlock spotCache with
    | .error halt => ⟨[], .error (.halt halt), store, spotCache⟩
    | .ok (blocks, spotCache) => ⟨[response blocks], .ok (), store, spotCache⟩

/-- Handles a request. -/
def processEthRequest (store : BlockStore) (spotCache : SpotCache) :
    EthRequest → Handled ε
  | .getBlockHeaders request =>
    match request.resolve store with
    -- A start that is not found is answered with no headers.
    | .error _ => ⟨[.blockHeaders []], .ok (), store, spotCache⟩
    | .ok number =>
      peer.respond store spotCache (request.numbers number) fun blocks =>
        .blockHeaders (blocks.map (·.header))
  | .getBlockBodies hashes =>
    peer.respond store spotCache (store.knownNumbers hashes) fun blocks =>
      .blockBodies (blocks.map (·.body))
  -- There is no answer to these.
  | .getNodeData => ⟨[], .ok (), store, spotCache⟩
  | .other => ⟨[], .ok (), store, spotCache⟩

end PseudoPeer

/-! ## Ranges of numbers -/

theorem toNat_of_mem_range {start stop : UInt64} {i : ℕ}
    (hi : i < stop.toNat - start.toNat) : (start + UInt64.ofNat i).toNat = start.toNat + i := by
  have hstop := stop.toNat_lt
  rw [UInt64.toNat_add, UInt64.toNat_ofNat', Nat.add_mod_mod, Nat.mod_eq_of_lt (by omega)]

/-- The range is the one between its bounds. -/
theorem mem_numberRange {start stop n : UInt64} :
    n ∈ numberRange start stop ↔ start ≤ n ∧ n < stop := by
  rw [numberRange, List.mem_map, UInt64.le_iff_toNat_le, UInt64.lt_iff_toNat_lt]
  constructor
  · rintro ⟨i, hi, rfl⟩
    rw [List.mem_range] at hi
    rw [toNat_of_mem_range hi]
    omega
  · rintro ⟨hstart, hstop⟩
    have hi : n.toNat - start.toNat < stop.toNat - start.toNat := by omega
    refine ⟨n.toNat - start.toNat, List.mem_range.2 hi, UInt64.toNat_inj.1 ?_⟩
    rw [toNat_of_mem_range hi]
    omega

/-- The numbers of a range are distinct. -/
theorem nodup_numberRange (start stop : UInt64) : (numberRange start stop).Nodup := by
  refine List.nodup_range.map_on fun i hi j hj heq => ?_
  have htoNat := congrArg UInt64.toNat heq
  rw [toNat_of_mem_range (List.mem_range.1 hi), toNat_of_mem_range (List.mem_range.1 hj)] at htoNat
  omega

/-- The numbers of a request for headers are distinct. -/
theorem GetBlockHeaders.nodup_numbers (request : GetBlockHeaders) (number : UInt64) :
    (request.numbers number).Nodup := by
  unfold numbers
  split
  · exact nodup_numberRange _ _
  · exact List.nodup_reverse.2 (nodup_numberRange _ _)

/-! ## Whether a request is answered -/

/-- The numbers of the blocks that a request is answered with. There are none if the start of the
    headers is not resolved. -/
def EthRequest.numbers (store : BlockStore) : EthRequest → Option (List UInt64)
  | getBlockHeaders request => (request.resolve store).toOption.map request.numbers
  | getBlockBodies hashes => some (store.knownNumbers hashes)
  | getNodeData => none
  | other => none

namespace PseudoPeer

variable {ε : Type} {peer : PseudoPeer ε} {store : BlockStore} {spotCache : SpotCache}
  {numbers : List UInt64} {response : List HlBlock → EthResponse}

/-- The blocks of a batch are all there: no number is repeated, the source answers, every number
    is found, and the blocks are converted. -/
structure Provides (peer : PseudoPeer ε) (store : BlockStore) (spotCache : SpotCache)
    (numbers : List UInt64) (batch : BlockStore.Batch) : Prop where
  distinct : numbers.Nodup
  fetched : BlockStore.fetch peer.source (store.lookupAll numbers) = .ok batch
  found : ∀ n ∈ numbers, n ∈ batch.cached.map (·.1)
  converted : ∀ blocks, BlockStore.takeCached (ε := ε) numbers batch.cached = .ok blocks →
    ∃ r, blocks.mapM peer.toRethBlock spotCache = .ok r

/-- What a request is answered with: no headers if the start is not resolved, and otherwise the
    headers or bodies of the blocks that are collected and converted, in the order of their
    numbers in the request. -/
inductive IsAnswer (peer : PseudoPeer ε) (store : BlockStore) (spotCache : SpotCache) :
    EthRequest → EthResponse → Prop
  | unresolved {request e} : request.resolve store = .error e →
      IsAnswer peer store spotCache (.getBlockHeaders request) (.blockHeaders [])
  | headers {request number blocks hlBlocks spotCache'} : request.resolve store = .ok number →
      (store.getByNumbers peer.source peer.iteration (request.numbers number)).1 = .ok blocks →
      blocks.mapM peer.toRethBlock spotCache = .ok (hlBlocks, spotCache') →
      IsAnswer peer store spotCache (.getBlockHeaders request)
        (.blockHeaders (hlBlocks.map (·.header)))
  | bodies {hashes blocks hlBlocks spotCache'} :
      (store.getByNumbers peer.source peer.iteration (store.knownNumbers hashes)).1 = .ok blocks →
      blocks.mapM peer.toRethBlock spotCache = .ok (hlBlocks, spotCache') →
      IsAnswer peer store spotCache (.getBlockBodies hashes)
        (.blockBodies (hlBlocks.map (·.body)))

/-- A response is sent if the blocks are collected and converted, and otherwise none. -/
theorem respond_cases (peer : PseudoPeer ε) (store : BlockStore) (spotCache : SpotCache)
    (numbers : List UInt64) (response : List HlBlock → EthResponse) :
    (∃ blocks hlBlocks spotCache',
      (store.getByNumbers peer.source peer.iteration numbers).1 = .ok blocks ∧
      blocks.mapM peer.toRethBlock spotCache = .ok (hlBlocks, spotCache') ∧
      (peer.respond store spotCache numbers response).responses = [response hlBlocks]) ∨
    (¬∃ blocks r, (store.getByNumbers peer.source peer.iteration numbers).1 = .ok blocks ∧
      blocks.mapM peer.toRethBlock spotCache = .ok r) ∧
      (peer.respond store spotCache numbers response).responses = [] := by
  rw [respond]
  rcases store.getByNumbers peer.source peer.iteration numbers with ⟨e | blocks, store'⟩
  · exact .inr ⟨by simp, rfl⟩
  · cases hconverted : blocks.mapM peer.toRethBlock spotCache with
    | error halt => exact .inr ⟨by simp [hconverted], by simp only [hconverted]⟩
    | ok r => exact .inl ⟨blocks, r.1, r.2, rfl, hconverted, by simp only [hconverted]⟩

/-- The response is made of the blocks that are collected and converted. -/
theorem responses_eq_singleton_iff {answer : EthResponse} :
    (peer.respond store spotCache numbers response).responses = [answer] ↔
      ∃ blocks hlBlocks spotCache',
        (store.getByNumbers peer.source peer.iteration numbers).1 = .ok blocks ∧
        blocks.mapM peer.toRethBlock spotCache = .ok (hlBlocks, spotCache') ∧
        answer = response hlBlocks := by
  obtain ⟨blocks, hlBlocks, spotCache', hblocks, hconverted, hresponses⟩ | ⟨hnone, hresponses⟩ :=
    peer.respond_cases store spotCache numbers response
  · rw [hresponses, List.singleton_inj]
    constructor
    · rintro rfl
      exact ⟨blocks, hlBlocks, spotCache', hblocks, hconverted, rfl⟩
    · rintro ⟨blocks', hlBlocks', spotCache'', hblocks', hconverted', rfl⟩
      -- Collecting and converting have one outcome each.
      cases hblocks.symm.trans hblocks'
      cases hconverted.symm.trans hconverted'
      rfl
  · rw [hresponses]
    constructor
    · intro h
      cases h
    · rintro ⟨blocks, hlBlocks, spotCache', hblocks, hconverted, -⟩
      exact absurd ⟨blocks, _, hblocks, hconverted⟩ hnone

/-- The blocks are collected and converted exactly if they are provided. -/
theorem exists_provides_iff :
    (∃ blocks r, (store.getByNumbers peer.source peer.iteration numbers).1 = .ok blocks ∧
      blocks.mapM peer.toRethBlock spotCache = .ok r) ↔
      ∃ batch, peer.Provides store spotCache numbers batch := by
  have htake : ∀ batch, BlockStore.fetch peer.source (store.lookupAll numbers) = .ok batch →
      (store.getByNumbers peer.source peer.iteration numbers).1 =
        BlockStore.takeCached numbers batch.cached := by
    intro batch hbatch
    rw [BlockStore.getByNumbers, hbatch]
  constructor
  · rintro ⟨blocks, r, hblocks, hconverted⟩
    obtain ⟨hnodup, batch, hbatch, hfound⟩ := BlockStore.exists_getByNumbers_iff.1 ⟨blocks, hblocks⟩
    refine ⟨batch, hnodup, hbatch, hfound, fun blocks' hblocks' => ?_⟩
    rw [htake batch hbatch, hblocks'] at hblocks
    cases hblocks
    exact ⟨r, hconverted⟩
  · rintro ⟨batch, h⟩
    obtain ⟨blocks, hblocks⟩ := BlockStore.exists_takeCached (ε := ε) h.distinct h.found
    obtain ⟨r, hr⟩ := h.converted blocks hblocks
    exact ⟨blocks, r, (htake batch h.fetched).trans hblocks, hr⟩

/-- What is sent was made of the blocks that were found. -/
theorem of_mem_responses {answer : EthResponse}
    (h : answer ∈ (peer.respond store spotCache numbers response).responses) :
    ∃ blocks hlBlocks spotCache',
      (store.getByNumbers peer.source peer.iteration numbers).1 = .ok blocks ∧
      blocks.mapM peer.toRethBlock spotCache = .ok (hlBlocks, spotCache') ∧
      answer = response hlBlocks := by
  obtain ⟨blocks, hlBlocks, spotCache', hblocks, hconverted, hresponses⟩ | ⟨-, hresponses⟩ :=
    peer.respond_cases store spotCache numbers response
  · rw [hresponses] at h
    exact ⟨blocks, hlBlocks, spotCache', hblocks, hconverted, List.mem_singleton.1 h⟩
  · rw [hresponses] at h
    cases h

/-- There is one response at most, and one exactly if the blocks are provided. -/
theorem length_respond (peer : PseudoPeer ε) (store : BlockStore) (spotCache : SpotCache)
    (numbers : List UInt64) (response : List HlBlock → EthResponse) :
    (peer.respond store spotCache numbers response).responses.length ≤ 1 ∧
      ((peer.respond store spotCache numbers response).responses.length = 1 ↔
        ∃ batch, peer.Provides store spotCache numbers batch) := by
  rw [← exists_provides_iff]
  obtain ⟨blocks, hlBlocks, spotCache', hblocks, hconverted, hresponses⟩ | ⟨hnone, hresponses⟩ :=
    peer.respond_cases store spotCache numbers response
  · rw [hresponses]
    exact ⟨le_rfl, fun _ => ⟨blocks, _, hblocks, hconverted⟩, fun _ => rfl⟩
  · rw [hresponses]
    exact ⟨Nat.zero_le 1, fun h => absurd h (Nat.zero_ne_one), fun h => absurd h hnone⟩

/-- What is sent is an answer to the request. -/
theorem isAnswer_of_mem {request : EthRequest} {answer : EthResponse}
    (h : answer ∈ (peer.processEthRequest store spotCache request).responses) :
    peer.IsAnswer store spotCache request answer := by
  cases request with
  | getBlockHeaders request =>
    rw [processEthRequest] at h
    cases hnumber : request.resolve store with
    | error e =>
      rw [hnumber] at h
      rw [List.mem_singleton.1 h]
      exact .unresolved hnumber
    | ok number =>
      rw [hnumber] at h
      obtain ⟨blocks, hlBlocks, spotCache', hblocks, hconverted, rfl⟩ := of_mem_responses h
      exact .headers hnumber hblocks hconverted
  | getBlockBodies hashes =>
    obtain ⟨blocks, hlBlocks, spotCache', hblocks, hconverted, rfl⟩ := of_mem_responses h
    exact .bodies hblocks hconverted
  | getNodeData => cases h
  | other => cases h

/-- A request for headers or bodies is answered at most once, by the headers or bodies that are
    collected, or an empty list. It is answered exactly when the start of the headers is not
    resolved, or all blocks are provided. -/
theorem answered_iff (peer : PseudoPeer ε) (store : BlockStore) (spotCache : SpotCache)
    (request : EthRequest) (hrequest : request.AsksBlocks) :
    (peer.processEthRequest store spotCache request).responses.length ≤ 1 ∧
      (∀ answer ∈ (peer.processEthRequest store spotCache request).responses,
        peer.IsAnswer store spotCache request answer) ∧
      ((peer.processEthRequest store spotCache request).responses.length = 1 ↔
        ∀ numbers, request.numbers store = some numbers →
          ∃ batch, peer.Provides store spotCache numbers batch) := by
  -- Both kinds of requests end with the same response function; they differ in the numbers.
  cases request with
  | getBlockHeaders request =>
    refine and_left_comm.2 ⟨fun answer => isAnswer_of_mem, ?_⟩
    rw [processEthRequest, EthRequest.numbers]
    cases hnumber : request.resolve store with
    | error e => exact ⟨le_rfl, fun _ _ hnumbers =>
      (Option.some_ne_none _ hnumbers.symm).elim, fun _ => rfl⟩
    | ok number =>
      obtain ⟨hle, hiff⟩ := peer.length_respond store spotCache (request.numbers number)
        fun blocks => .blockHeaders (blocks.map (·.header))
      refine ⟨hle, hiff.trans ⟨fun h numbers hnumbers => ?_, fun h => h _ rfl⟩⟩
      cases hnumbers
      exact h
  | getBlockBodies hashes =>
    refine and_left_comm.2 ⟨fun answer => isAnswer_of_mem, ?_⟩
    rw [processEthRequest, EthRequest.numbers]
    obtain ⟨hle, hiff⟩ := peer.length_respond store spotCache (store.knownNumbers hashes)
      fun blocks => .blockBodies (blocks.map (·.body))
    refine ⟨hle, hiff.trans ⟨fun h numbers hnumbers => ?_, fun h => h _ rfl⟩⟩
    cases hnumbers
    exact h
  | getNodeData => exact hrequest.elim
  | other => exact hrequest.elim

/-! ### A peer -/

/-- A source that has the blocks of a chain up to its tip. -/
def countingUpTo (tip : UInt64) : BlockSource Unit :=
  let collectBlock n := if n ≤ tip then .ok (countingBlock n) else .error ()
  ⟨collectBlock, fun heights => heights.mapM collectBlock⟩

/-- The values of a hash map as they are listed. -/
def listedOrder : IterationOrder BlockAndReceipts := ⟨id, List.Perm.refl⟩

/-- A peer with this source, on mainnet. -/
def countingPeer (tip : UInt64) : PseudoPeer Unit where
  chainId := mainnetChainId
  source := countingUpTo tip
  iteration := listedOrder
  spotEnv := noTokens
  fuel := 0
  crypto := transferCrypto

/-- The headers of blocks 5 and 4 are sent. -/
theorem answered_iff_tip : ∃ headers,
    ((countingPeer 5).processEthRequest (.new none [] mainnetChainId) emptyCache
      (.getBlockHeaders ⟨.number 5, 2, 0, .falling⟩)).responses = [.blockHeaders headers] ∧
      headers.map (·.inner.number) = [5, 4] := by
  obtain ⟨-, hanswers, hiff⟩ := answered_iff (countingPeer 5) (.new none [] mainnetChainId)
    emptyCache (.getBlockHeaders ⟨.number 5, 2, 0, .falling⟩) trivial
  have hone := hiff.2 fun numbers hnumbers => by
    cases hnumbers
    refine ⟨_, by decide, rfl, fun _ hn => List.mem_reverse.1 hn, fun blocks hblocks => ?_⟩
    cases hblocks
    exact ⟨_, rfl⟩
  obtain ⟨answer, hresponses⟩ := List.length_eq_one_iff.1 hone
  have hanswer := hanswers answer (by rw [hresponses]; exact List.mem_cons_self)
  cases hanswer with
  | unresolved herror => cases herror
  | headers hnumber hblocks hconverted =>
    cases hnumber
    cases hblocks
    cases hconverted
    exact ⟨_, hresponses, rfl⟩

/-- There are blocks up to 5. The headers from 5 on are not sent if two of them are asked for, not
    even that of block 5. -/
theorem past_tip_unanswered :
    let handled := (countingPeer 5).processEthRequest (.new none [] mainnetChainId) emptyCache
      (.getBlockHeaders ⟨.number 5, 2, 0, .rising⟩)
    handled.responses = [] ∧ handled.result = .error (.store (.source ())) :=
  ⟨rfl, rfl⟩

end PseudoPeer

end Nanoreth
